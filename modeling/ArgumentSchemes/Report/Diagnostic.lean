import ArgumentSchemes.Files.Path

/-!
# Diagnostics

A **diagnostic** is a message about one header for the user: what is wrong, where, in which
context, and what to do about it. `Diagnostic.format` gives the text for a terminal, with or
without colours.
-/

namespace ArgumentSchemes.Report

/-- How grave a diagnostic is. -/
inductive Severity where
  /-- The run cannot go on. -/
  | error
  /-- A scheme was dropped and the run goes on. -/
  | warning
deriving DecidableEq, Repr

/-- The word that opens a diagnostic of this severity. -/
def Severity.label : Severity → String
  | error => "error"
  | warning => "warning"

/-- The terminal colour of a severity. -/
def Severity.colour : Severity → String
  | error => "1;31"
  | warning => "1;33"

/-- A text in a terminal colour, or plain when colours are off. -/
def paint (text colour : String) (coloured : Bool) : String :=
  if coloured then "\x1b[" ++ colour ++ "m" ++ text ++ "\x1b[0m" else text

/-- A message about one header. -/
structure Diagnostic where
  message : String
  severity : Severity := .error
  /-- The lines under the message. -/
  context : List String := []
  /-- What the user may do. -/
  suggestions : List String := []
  /-- The header that the diagnostic is about. -/
  location : Option Files.Path := none
deriving DecidableEq, Repr

namespace Diagnostic

/-- The text of a diagnostic, every line ended by a newline. -/
def format (d : Diagnostic) (coloured : Bool) : String :=
  let label := paint d.severity.label d.severity.colour coloured
  let help := paint "help" "1;32" coloured
  let place := d.location.toList.map fun path => s!"  --> {path.text}"
  let context := d.context.map fun line => s!"  = {line}"
  let advice :=
    if d.suggestions.isEmpty then []
    else
      ["", s!"{help}: consider:"]
        ++ d.suggestions.mapIdx fun i fix => s!"  {i + 1}. {fix}"
  "\n".intercalate (s!"{label}: {d.message}" :: (place ++ context ++ advice)) ++ "\n"

end Diagnostic

end ArgumentSchemes.Report
