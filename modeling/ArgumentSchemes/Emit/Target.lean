import ArgumentSchemes.Scheme.Basic
import ArgumentSchemes.Scheme.Fault

/-!
# Targets

Every scheme is written three times: as a helper template in the native header, as a wrapper in
the script language, and as the instantiations of the helper in the binding interface. A scheme
without entries has no helper, and every target refuses it.
-/

namespace ArgumentSchemes.Emit

/-- What a scheme is written for. -/
inductive Target where
  | native
  | wrapper
  | binding
deriving DecidableEq, Repr

/-- The short name of a target. -/
def Target.name : Target → String
  | native => "native"
  | wrapper => "wrapper"
  | binding => "binding"

/-- The given lines as the text for a scheme, unless the scheme has no entries. -/
def linesFor (s : Scheme) (ls : List String) : Except SchemeFault String :=
  if s.entries.isEmpty then .error (.emptyScheme s.name) else .ok (Text.unlines ls)

end ArgumentSchemes.Emit
