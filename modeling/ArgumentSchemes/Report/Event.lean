import ArgumentSchemes.Report.Diagnostic
import ArgumentSchemes.Text.Lines

/-!
# What a run tells

While it goes on, a run writes notes to its log, shows diagnostics, and prints its results. These
are its **events**, in order. Notes and diagnostics go to the error stream and results to the
output stream.
-/

namespace ArgumentSchemes.Report

/-- The weight of a note. -/
inductive Level where
  | debug
  | info
  | warn
deriving DecidableEq, Repr

/-- The word for a level. -/
def Level.name : Level → String
  | debug => "DEBUG"
  | info => "INFO"
  | warn => "WARN"

/-- The terminal colour of a level. -/
def Level.colour : Level → String
  | debug => "34"
  | info => "32"
  | warn => "33"

/-- Something that a run tells. -/
inductive Event where
  /-- A note in the log. -/
  | note (level : Level) (text : String)
  /-- A diagnostic. -/
  | shown (diagnostic : Diagnostic)
  /-- The message that ends a failed run. -/
  | failed (message : String)
  /-- A line of the results. -/
  | printed (line : String)
deriving DecidableEq, Repr

/-- How the log writes a character: the control characters that a terminal would act upon are
written as escapes. Tabs and line endings are not among them. -/
def logged (c : Char) : String :=
  match c with
  | '\x07' => "\\x07"
  | '\x08' => "\\x08"
  | '\x0c' => "\\x0c"
  | '\x1b' => "\\x1b"
  | '\x7f' => "\\x7f"
  | c =>
    if 0x80 ≤ c.toNat ∧ c.toNat ≤ 0x9f then
      let code := String.ofList (Nat.toDigits 16 c.toNat)
      "\\u\x7b" ++ code ++ "\x7d"
    else c.toString

namespace Event

/-- The text of an event on the error stream. Notes for debugging are left out unless `verbose`. -/
def errorText (verbose coloured : Bool) : Event → String
  | note level text =>
    if level = .debug ∧ ¬ verbose then ""
    else
      let label := paint (Text.padLeft 5 level.name) level.colour coloured
      let line := String.join (text.toList.map logged)
      s!"{label} {line}\n"
  | shown d => d.format coloured
  | failed message => s!"error: {message}\n"
  | printed _ => ""

/-- The text of an event on the output stream. -/
def outputText : Event → String
  | printed line => s!"{line}\n"
  | _ => ""

end Event

end ArgumentSchemes.Report
