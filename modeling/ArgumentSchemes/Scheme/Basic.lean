import ArgumentSchemes.Scheme.Role
import ArgumentSchemes.Text.Lines

/-!
# Schemes

A **scheme** is one documented family of positional arguments, each backed by a constant of an
enum that is declared elsewhere. Every entry of a scheme is complete: it has a name, a line of
documentation and a constant.
-/

namespace ArgumentSchemes

/-- One named and documented argument, bound to an enum constant. -/
structure Entry where
  /-- The name of the argument in the generated helpers. -/
  argName : String
  /-- What the argument is, in one line. -/
  doc : String
  /-- The enum constant that the argument stands for. -/
  constant : String
deriving DecidableEq, Repr, Inhabited

/-- The entry as a listing shows it: `name -- doc [CONSTANT]`. -/
def Entry.describe (e : Entry) : String := s!"{e.argName} -- {e.doc} [{e.constant}]"

/-- A complete scheme. -/
structure Scheme where
  role : Role
  /-- The name of the helper. -/
  name : String
  /-- The text of the opening line. -/
  title : String
  /-- The documentation lines under the title, separated by newlines. -/
  summary : String
  /-- The name of the enum that the scheme documents. -/
  group : String
  /-- The entries in the order of their declaration. -/
  entries : List Entry
deriving DecidableEq, Repr, Inhabited

namespace Scheme

/-- How many arguments the helper takes. -/
def arity (s : Scheme) : Nat := s.entries.length

/-- The documentation lines of the summary. -/
def summaryLines (s : Scheme) : List String := Text.lines s.summary

/-- The names of the arguments in the order of their declaration. -/
def argNames (s : Scheme) : List String := s.entries.map (·.argName)

@[simp] theorem length_argNames (s : Scheme) : s.argNames.length = s.arity := by
  simp [argNames, arity]

/-- The size of the longest argument name, in bytes of its UTF-8 form; 0 without arguments. -/
def widestArgName (s : Scheme) : Nat :=
  s.argNames.foldl (fun width name => max width name.utf8ByteSize) 0

/-- The scheme in one line: `name (role) [group]: n entries`. -/
def describe (s : Scheme) : String :=
  s!"{s.name} ({s.role.name}) [{s.group}]: {s.arity} entries"

end Scheme

end ArgumentSchemes
