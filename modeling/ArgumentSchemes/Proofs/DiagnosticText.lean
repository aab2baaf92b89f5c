import ArgumentSchemes.Scheme.Fault
import ArgumentSchemes.Text.Lines

/-!
# What a diagnostic shows

The text of a diagnostic is a list of lines, each ended by a newline: the severity with the message,
the header it is about behind an arrow, every line of its context behind an equals sign, and below
an empty line the numbered suggestions (`Diagnostic.format_eq`).

Of a scheme that is refused the diagnostic shows the path of its header, what is wrong, the details
of it, the name of the scheme, and one suggestion. What is not shown is the code of the fault, which
tells what hint goes with it and whether it ends the run
(`SchemeFault.help_and_isFatal_of_code_eq`).

Main statement: the lines of a fault that is found in a header, all of them written out
(`SchemeFault.format_diagnosticAt`).
-/

namespace ArgumentSchemes

/-! ### Ended lines -/

namespace Text

theorem unlines_append (ls ls' : List String) :
    unlines (ls ++ ls') = unlines ls ++ unlines ls' := by
  rw [unlines, List.map_append, String.join_append]
  rfl

theorem unlines_flatMap {α : Type} (f : α → List String) (xs : List α) :
    unlines (xs.flatMap f) = String.join (xs.map fun x => unlines (f x)) := by
  induction xs with
  | nil => rfl
  | cons x xs ih => rw [List.flatMap_cons, unlines_append, ih, List.map_cons, String.join_cons]

/-- Lines with newlines between them, and one more behind the last, are ended lines. -/
theorem intercalate_newline_append (l : String) (ls : List String) :
    "\n".intercalate (l :: ls) ++ "\n" = unlines (l :: ls) := by
  induction ls generalizing l with
  | nil => simp [unlines]
  | cons l' ls ih =>
    rw [String.intercalate_cons_cons, String.append_assoc, ih]
    simp [unlines]

end Text

open Report (paint)

/-! ### The lines of a diagnostic -/

namespace Report.Diagnostic

/-- The lines of a diagnostic. -/
def lines (d : Diagnostic) (coloured : Bool) : List String :=
  (paint d.severity.label d.severity.colour coloured ++ ": " ++ d.message) ::
    (d.location.toList.map fun path => "  --> " ++ path.text) ++
    d.context.map ("  = " ++ ·) ++
    if d.suggestions = [] then []
    else
      "" :: (paint "help" "1;32" coloured ++ ": consider:") ::
        d.suggestions.mapIdx fun i fix => "  " ++ toString (i + 1) ++ ". " ++ fix

/-- **The text of a diagnostic** is that of its lines. -/
theorem format_eq (d : Diagnostic) (coloured : Bool) :
    d.format coloured = Text.unlines (d.lines coloured) := by
  rw [lines, List.cons_append, List.cons_append, ← Text.intercalate_newline_append]
  unfold format
  by_cases h : d.suggestions = []
  · simp [h, toString]
  · simp [h, toString]

end Report.Diagnostic

/-! ### The faults of schemes -/

namespace SchemeFault

/-- The hint of a fault, and whether it ends the run, go with its code. -/
theorem help_and_isFatal_of_code_eq {fault fault' : SchemeFault} (h : fault.code = fault'.code) :
    fault.help = fault'.help ∧ fault.isFatal = fault'.isFatal := by
  cases fault <;> cases fault' <;> first | exact ⟨rfl, rfl⟩ | simp [code] at h

/-- The lines of a fault that is found in the header `path`. -/
def linesAt (fault : SchemeFault) (path : Files.Path) (coloured : Bool) : List String :=
  let label := if fault.isFatal then paint "error" "1;31" coloured
    else paint "warning" "1;33" coloured
  [label ++ ": " ++ fault.message, "  --> " ++ path.text] ++ fault.context.map ("  = " ++ ·) ++
    ["  = scheme: `" ++ fault.scheme ++ "`", "", paint "help" "1;32" coloured ++ ": consider:",
      "  1. " ++ fault.suggestion]

/-- **The diagnostic of a fault** shows the header, the message, the details, the scheme and what
may be done. -/
theorem format_diagnosticAt (fault : SchemeFault) (path : Files.Path) (coloured : Bool) :
    (fault.diagnosticAt path).format coloured = Text.unlines (fault.linesAt path coloured) := by
  rw [Report.Diagnostic.format_eq]
  congr 1
  have hscheme :
      "  = " ++ s!"scheme: `{fault.scheme}`" = "  = scheme: `" ++ fault.scheme ++ "`" := by
    simp [toString, ← String.append_assoc]
  have hfirst : "  " ++ Nat.repr 1 ++ ". " = "  1. " := by decide
  cases hfatal : fault.isFatal <;>
    simp [Report.Diagnostic.lines, linesAt, diagnosticAt, toDiagnostic, hfatal, hscheme, hfirst,
      Report.Severity.label, Report.Severity.colour]

end SchemeFault

end ArgumentSchemes
