/-!
# Roles

A scheme documents either the inputs or the outputs of a function. The role decides which marker
opens the annotation and which suffixes the name of the documented enum may have.
-/

namespace ArgumentSchemes

/-- Whether a scheme describes the inputs or the outputs of a function. -/
inductive Role where
  | input
  | output
deriving DecidableEq, Repr, Inhabited

namespace Role

/-- Both roles. -/
def all : List Role := [input, output]

/-- The name of a role. -/
def name : Role → String
  | input => "Input"
  | output => "Output"

/-- The text that opens an annotation of this role. -/
def marker : Role → String
  | input => "Input arguments"
  | output => "Output arguments"

/-- The suffixes that an enum documented in this role may have. -/
def suffixes : Role → List String
  | input => ["Input", "In"]
  | output => ["Output", "Out"]

/-- The role of a given name. -/
def ofName? (name : String) : Option Role := all.find? (·.name == name)

@[simp] theorem ofName?_name (role : Role) : ofName? role.name = some role := by
  cases role <;> decide

/-- Whether the name of an enum carries one of the suffixes of the role, with something before
it. -/
def acceptsGroup (role : Role) (group : String) : Bool :=
  role.suffixes.any fun suffix =>
    suffix.length < group.length && suffix.toList.isSuffixOf group.toList

end Role

end ArgumentSchemes
