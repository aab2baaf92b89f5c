/-!
# Reading options

The arguments of a command are flags, options with a value, and positional arguments. A long option
takes its value behind `=` or as the next argument, a short one also right behind its letter, and
several short flags can share one hyphen. After `--` every argument is positional. A value that is
an argument of its own must not begin with a hyphen, a lone hyphen excepted, and nothing may be
given twice.
-/

namespace ArgumentSchemes.Command

/-- An option of a command. -/
structure OptionSpec where
  long : String
  short : Option Char := none
  /-- Whether the option has a value. -/
  takesValue : Bool := false
  /-- Whether the value may be empty. -/
  allowsEmpty : Bool := true
deriving DecidableEq, Repr

/-- What arguments have given. -/
structure Given where
  /-- The options by their long names, a flag with the empty value. -/
  options : List (String × String) := []
  positional : List String := []
deriving DecidableEq, Repr

namespace Given

/-- The value of an option. -/
def value? (g : Given) (long : String) : Option String := g.options.lookup long

/-- Whether an option was given. -/
def has (g : Given) (long : String) : Bool := (g.value? long).isSome

end Given

/-- Why the reading of arguments stops. -/
inductive Stop where
  /-- Help was asked for. -/
  | help
  /-- The version was asked for. -/
  | version
  /-- The arguments are not understood. -/
  | refused
deriving DecidableEq, Repr

/-- A list of options to read arguments by. -/
structure Grammar where
  options : List OptionSpec
  /-- The most positional arguments. -/
  positionals : Nat := 0
  /-- Whether a text can be a positional argument. -/
  admitsPositional : String → Bool := fun _ => true
  /-- Whether the first positional argument ends the reading. -/
  stopsAtPositional : Bool := false

/-- A reading in progress: what was given, the option that waits for its value, and whether only
positional arguments may follow. -/
structure Progress where
  given : Given := {}
  waiting : Option OptionSpec := none
  literal : Bool := false

/-- The option of a long name. -/
def Grammar.long? (g : Grammar) (name : String) : Option OptionSpec :=
  g.options.find? (·.long == name)

/-- The option of a letter. -/
def Grammar.short? (g : Grammar) (c : Char) : Option OptionSpec :=
  g.options.find? (·.short == some c)

namespace Progress

/-- Takes in a flag, or the value of an option. -/
def store (p : Progress) (spec : OptionSpec) (value : String) : Except Stop Progress :=
  if spec.long = "help" then .error .help
  else if spec.long = "version" then .error .version
  else if p.given.has spec.long ∨ (spec.takesValue ∧ value.isEmpty ∧ !spec.allowsEmpty) then
    .error .refused
  else
    .ok
      { p with
        given := { p.given with options := p.given.options ++ [(spec.long, value)] }
        waiting := none }

/-- Takes in a positional argument. -/
def addPositional (g : Grammar) (p : Progress) (argument : String) : Except Stop Progress :=
  if p.given.positional.length < g.positionals ∧ g.admitsPositional argument then
    .ok { p with given := { p.given with positional := p.given.positional ++ [argument] } }
  else .error .refused

/-- Takes in the letters behind one hyphen. -/
def addShort (g : Grammar) (p : Progress) : List Char → Except Stop Progress
  | [] => .ok p
  | c :: rest =>
    match g.short? c with
    | none => .error .refused
    | some spec =>
      if spec.takesValue then
        match rest with
        | [] => .ok { p with waiting := some spec }
        | '=' :: value => p.store spec (String.ofList value)
        | value => p.store spec (String.ofList value)
      else
        match p.store spec "" with
        | .error stop => .error stop
        | .ok p => addShort g p rest

/-- Takes in a long option: its name, and the text behind `=` if there is one. -/
def addLong (g : Grammar) (p : Progress) (name : String) (value : Option String) :
    Except Stop Progress :=
  match g.long? name, value with
  | none, _ => .error .refused
  | some spec, some value => if spec.takesValue then p.store spec value else .error .refused
  | some spec, none =>
    if spec.takesValue then .ok { p with waiting := some spec } else p.store spec ""

/-- Takes in one argument. -/
def add (g : Grammar) (p : Progress) (argument : String) : Except Stop Progress :=
  match p.waiting, argument.toList with
  | some _, '-' :: _ :: _ => .error .refused
  | some spec, _ => p.store spec argument
  | none, ['-', '-'] =>
    if p.literal then p.addPositional g argument else .ok { p with literal := true }
  | none, '-' :: '-' :: rest =>
    if p.literal then p.addPositional g argument
    else
      let name := rest.takeWhile (· != '=')
      let value := (rest.drop name.length).tail?
      p.addLong g (String.ofList name) (value.map String.ofList)
  | none, '-' :: c :: rest =>
    if p.literal then p.addPositional g argument else p.addShort g (c :: rest)
  | none, _ => p.addPositional g argument

end Progress

/-- Reads arguments from a point of the reading on. Gives what was given and the arguments from the
one on at which the reading ended. -/
def Grammar.readFrom (g : Grammar) (p : Progress) :
    List String → Except Stop (Given × List String)
  | [] => if p.waiting.isSome then .error .refused else .ok (p.given, [])
  | argument :: rest =>
    let isPositional := p.waiting.isNone ∧ (argument.toList.head? ≠ some '-' ∨ argument = "-")
    if g.stopsAtPositional ∧ !p.literal ∧ isPositional then .ok (p.given, argument :: rest)
    else
      match p.add g argument with
      | .error stop => .error stop
      | .ok p => readFrom g p rest

/-- Reads arguments. -/
def Grammar.read (g : Grammar) (arguments : List String) : Except Stop (Given × List String) :=
  g.readFrom {} arguments

end ArgumentSchemes.Command
