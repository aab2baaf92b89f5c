import ArgumentSchemes.Config.Settings
import ArgumentSchemes.Config.Toml.Document
import ArgumentSchemes.Files.Read
import ArgumentSchemes.Report.Told

/-!
# Loading settings

A configuration file is a TOML document with two sections, `discover` and `emit`. Their fields are
texts, apart from the list of value types; unknown fields and sections do not count. A section may
also be written as an array that gives its fields in their order, and a date in the place of a
section gives none.

The settings of a run are those of the user's own file, overlaid by those of the project.
-/

namespace ArgumentSchemes.Config

open Files (Site IoFault)
open Report (Told)
open Toml (Value)

/-- Why a configuration file cannot be loaded. -/
inductive LoadFault where
  | unreadable (path : Files.Path) (cause : IoFault)
  | malformed (path : Files.Path)
deriving DecidableEq, Repr

/-- The fault in one sentence. -/
def LoadFault.message : LoadFault → String
  | unreadable path cause => s!"failed to read config file: {path.text}: {cause.message}"
  | malformed path => s!"failed to parse config file: {path.text}"

/-! ### Documents -/

/-- A section of a document: the value of a field, given by its name and its place in the order of
the fields. -/
abbrev Section := String → Nat → Option Value

/-- The section that a value gives. -/
def section? : Option Value → Option Section
  | none | some .datetime => some fun _ _ => none
  | some (.table _ fields) => some fun name _ => Toml.Fields.get? fields name
  | some (.array items) | some (.tables items) => some fun _ place => items[place]?
  | some _ => none

/-- The text of a value that must be a text, if it is given. -/
def text? : Option Value → Option (Option String)
  | none => some none
  | some (.string text) => some (some text)
  | some _ => none

/-- The path that a value writes, if it is given. -/
def path? (value : Option Value) : Option (Option Files.Path) :=
  (text? value).map (·.map Files.Path.mk)

/-- The texts of a value that must be a list of texts, if it is given. -/
def texts? : Option Value → Option (List String)
  | none => some []
  | some (.array items) =>
    items.mapM fun
      | .string text => some text
      | _ => none
  | some _ => none

/-- The layer that a document gives. -/
def layer? (document : Toml.Fields) : Option Layer := do
  let discover ← section? (document.get? "discover")
  let emit ← section? (document.get? "emit")
  return {
    pattern := ← text? (discover "pattern" 0)
    scope := ← text? (emit "namespace" 0)
    valueTypes := ← texts? (emit "value_types" 1)
    nativeOutput := ← path? (emit "native_output" 2)
    bindingOutput := ← path? (emit "binding_output" 3)
    nativeInclude := ← text? (emit "native_include" 4)
    license := ← path? (emit "license" 5)
    reservedMarker := ← text? (emit "reserved_marker" 6)
    generator := ← text? (emit "generator" 7) }

/-! ### Files -/

/-- Loads the layer of a configuration file. -/
def load (s : Site) (p : Files.Path) : Except LoadFault Layer :=
  match s.readText p with
  | .error cause => .error (.unreadable p cause)
  | .ok text =>
    match (Toml.document? text).bind layer? with
    | some layer => .ok layer
    | none => .error (.malformed p)

/-- Loads the layer of a configuration file, which is empty when there is no such file. -/
def loadIfPresent (s : Site) (p : Files.Path) : Told LoadFault Layer :=
  if s.pathExists p then do
    Told.note .debug s!"loading config from {p.text}"
    Told.lift id (load s p)
  else pure {}

/-- Loads the user's own file, if there can be one, and that of the project on top of it. -/
def loadMerged (s : Site) (own : Option Files.Path) (project : Files.Path) :
    Told LoadFault Layer := do
  let weak ← match own with
    | some p => loadIfPresent s p
    | none => pure {}
  let strong ← loadIfPresent s project
  return weak.merge strong

/-- The file that holds the settings of a project, in its root. -/
def projectFile (root : Files.Path) : Files.Path := root.entry "schemegen.toml"

/-- The user's own configuration file, in the home directory. -/
def ownFile (s : Site) : Option Files.Path :=
  s.home.map fun home => (home.entry ".schemegen").entry "config.toml"

end ArgumentSchemes.Config
