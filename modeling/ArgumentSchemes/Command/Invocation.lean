import ArgumentSchemes.Command.Options
import ArgumentSchemes.Run.Generate

/-!
# The command line

`schemegen` has three commands: `generate` writes the outputs, `list` shows the schemes that are
found, and `completions` prints a script for a shell. The flags for the log and for colours may
stand before the command or behind it.
-/

namespace ArgumentSchemes.Command

open Run (Mode)

/-- What every command that scans headers is given. -/
structure ScanArguments where
  root : Option Files.Path := none
  pattern : Option String := none
  config : Option Files.Path := none
deriving DecidableEq, Repr

/-- A shell that completions can be printed for. -/
inductive Shell where
  | bash
  | elvish
  | fish
  | powershell
  | zsh
deriving DecidableEq, Repr

/-- The name of a shell. -/
def Shell.name : Shell → String
  | bash => "bash"
  | elvish => "elvish"
  | fish => "fish"
  | powershell => "powershell"
  | zsh => "zsh"

/-- The shell of a given name. -/
def Shell.ofName? (name : String) : Option Shell :=
  [Shell.bash, .elvish, .fish, .powershell, .zsh].find? (·.name == name)

/-- A command with its arguments. -/
inductive Request where
  | generate (scan : ScanArguments) (outDir license : Option Files.Path) (scope : Option String)
      (mode : Mode)
  | list (scan : ScanArguments) (json : Bool)
  | completions (shell : Shell)
deriving DecidableEq, Repr

/-- A command line that was understood. -/
structure Invocation where
  /-- Whether notes for debugging are shown. -/
  verbose : Bool := false
  coloured : Bool := true
  request : Request
deriving DecidableEq, Repr

/-! ### The options of the commands -/

/-- The options that may stand anywhere. -/
def commonOptions : List OptionSpec :=
  [{ long := "verbose", short := some 'v' }, { long := "no-color" },
    { long := "help", short := some 'h' }]

/-- An option whose value is a path, which must not be empty. -/
def pathOption (long : String) (short : Option Char) : OptionSpec :=
  { long, short, takesValue := true, allowsEmpty := false }

/-- An option whose value is any text. -/
def textOption (long : String) : OptionSpec := { long, takesValue := true }

/-- What may stand before the name of the command. -/
def topGrammar : Grammar :=
  { options := { long := "version", short := some 'V' } :: commonOptions
    stopsAtPositional := true }

/-- The options of every command that scans headers. -/
def scanOptions : List OptionSpec :=
  [textOption "pattern", pathOption "config" none] ++ commonOptions

/-- The arguments of `generate`. -/
def generateGrammar : Grammar where
  options :=
    [pathOption "out-dir" (some 'o'), pathOption "license" none, textOption "namespace",
      { long := "check" }, { long := "dry-run" }] ++ scanOptions
  positionals := 1
  admitsPositional root := !root.isEmpty

/-- The arguments of `list`. -/
def listGrammar : Grammar where
  options := { long := "json" } :: scanOptions
  positionals := 1
  admitsPositional root := !root.isEmpty

/-- The arguments of `completions`. -/
def completionsGrammar : Grammar where
  options := commonOptions
  positionals := 1
  admitsPositional shell := (Shell.ofName? shell).isSome

/-! ### Reading a command line -/

namespace ScanArguments

/-- The arguments of a scan. -/
def ofGiven (g : Given) : ScanArguments where
  root := g.positional.head?.map Files.Path.mk
  pattern := g.value? "pattern"
  config := (g.value? "config").map Files.Path.mk

end ScanArguments

namespace Request

/-- The command `generate` with what was given. -/
def generateOf (g : Given) : Except Stop Request := do
  let mode ←
    if g.has "check" then if g.has "dry-run" then .error .refused else .ok Mode.check
    else if g.has "dry-run" then .ok .dryRun
    else .ok .write
  return .generate (ScanArguments.ofGiven g) ((g.value? "out-dir").map Files.Path.mk)
    ((g.value? "license").map Files.Path.mk) (g.value? "namespace") mode

/-- The command `list` with what was given. -/
def listOf (g : Given) : Except Stop Request :=
  .ok (.list (ScanArguments.ofGiven g) (g.has "json"))

/-- The command `completions` with what was given. -/
def completionsOf (g : Given) : Except Stop Request :=
  match g.positional.head?.bind Shell.ofName? with
  | some shell => .ok (.completions shell)
  | none => .error .refused

/-- The command of a given name: its arguments and what they amount to. -/
def named? (name : String) : Option (Grammar × (Given → Except Stop Request)) :=
  if name = "generate" then some (generateGrammar, generateOf)
  else if name = "list" then some (listGrammar, listOf)
  else if name = "completions" then some (completionsGrammar, completionsOf)
  else none

/-- What asking for help on the given commands leads to. -/
def helpOn (names : List String) : Stop :=
  match names with
  | [] => .help
  | [name] => if (named? name).isSome ∨ name = "help" then .help else .refused
  | _ => .refused

end Request

namespace Invocation

/-- Reads the arguments of the program. -/
def ofArguments (arguments : List String) : Except Stop Invocation :=
  match topGrammar.read arguments with
  | .error stop => .error stop
  | .ok (_, []) => .error .refused
  | .ok (top, name :: rest) =>
    match Request.named? name with
    | none => .error (if name = "help" then Request.helpOn rest else .refused)
    | some (grammar, build) => do
      let (given, _) ← grammar.read rest
      let request ← build given
      return {
        request
        verbose := top.has "verbose" || given.has "verbose"
        coloured := !(top.has "no-color" || given.has "no-color") }

end Invocation

end ArgumentSchemes.Command
