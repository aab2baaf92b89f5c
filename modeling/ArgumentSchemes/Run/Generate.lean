import ArgumentSchemes.Run.Scan

/-!
# Generating the outputs

A run finds the headers below its root, reads them, and writes the accepted schemes into both
artifacts in memory. Only then are the outputs compared with what stands at their paths, and only
when both comparisons are done is anything written. So a run that fails before writes nothing.

`render` and `compareOutputs` are given a site and cannot change it; `writeOutputs` alone gives
another tree.
-/

namespace ArgumentSchemes.Run

open Config (Layer)
open Emit (Artifacts)
open Files (Site)
open Report (Told)

/-- What a run does with its artifacts. -/
inductive Mode where
  /-- Write those whose content changed. -/
  | write
  /-- Compare them with the files, and fail if they differ. -/
  | check
  /-- Tell what would be written. -/
  | dryRun
deriving DecidableEq, Repr

/-- The options of a run. -/
structure Options where
  /-- The directory that is scanned for headers. -/
  root : Files.Path
  /-- The directory that the output paths are seen from. -/
  outDir : Files.Path
  config : Layer := {}
  mode : Mode := .write
deriving Repr

namespace Options

/-- The path of the native header. -/
def nativePath (o : Options) : Files.Path := o.outDir.join o.config.settings.nativeOutput

/-- The path of the binding interface. -/
def bindingPath (o : Options) : Files.Path := o.outDir.join o.config.settings.bindingOutput

/-- The path of the license banner. -/
def licensePath (o : Options) : Files.Path := o.root.join o.config.settings.license

/-- What both outputs are to hold. -/
def outputs (o : Options) (a : Artifacts) : List (Files.Path × String) :=
  [(o.nativePath, a.native), (o.bindingPath, a.binding)]

end Options

/-- How an output stands after a run. -/
inductive Status where
  | written
  | unchanged
  /-- Its content differs from the file. -/
  | stale
deriving DecidableEq, Repr

/-- The status as it is shown to the user. -/
def Status.label : Status → String
  | written => "written"
  | unchanged => "unchanged"
  | stale => "out of date"

/-- What came of a run. -/
structure Generation where
  filesScanned : Nat
  /-- The names of the schemes that were written, in order. -/
  generated : List String
  rejections : List Rejection
  outputs : List (Files.Path × Status) := []
deriving DecidableEq, Repr

/-- Whether any output differs from its file. -/
def Generation.hasStale (g : Generation) : Bool := g.outputs.any (·.2 == .stale)

/-- Finds, reads and checks the headers, and renders the accepted schemes. -/
def render (s : Site) (o : Options) : Told Failure (Artifacts × Generation) := do
  let settings := o.config.settings
  let headers ← findHeaders s o.root settings.pattern [o.nativePath, o.bindingPath]
  Told.note .debug
    (s!"found {headers.length} candidate header(s) matching `{settings.pattern}` "
      ++ s!"in {o.root.text}")
  let collection ← scan s settings.checker headers
  let license ← Told.lift (.noLicense o.licensePath) (s.readText o.licensePath)
  let schemes := collection.accepted
  let artifacts ← Told.lift .unchecked
    (Emit.assemble schemes (settings.artifactOptions license) settings.binding)
  let targets : List Emit.Target := [.native, .wrapper, .binding]
  let first := Text.joinWith ", " (targets.dropLast.map (·.name))
  let last := Emit.Target.binding.name
  Told.note .debug s!"rendered {schemes.length} scheme(s) through {first} and {last}"
  Told.tellAll (schemes.map fun scheme => .note .info s!"generated {scheme.name}")
  return (artifacts,
    { filesScanned := collection.filesScanned, generated := schemes.map (·.name)
      rejections := collection.rejections })

/-- Whether the file at a path holds the given content; without such a file it does not. -/
def isCurrent (s : Site) (p : Files.Path) (content : String) : Except Failure Bool :=
  if s.pathExists p then
    match s.readText p with
    | .error cause => .error (.unreadable p cause)
    | .ok text => .ok (text == content)
  else .ok false

/-- Compares every output with its file. -/
def compareOutputs (s : Site) :
    List (Files.Path × String) → Except Failure (List (Files.Path × String × Bool))
  | [] => .ok []
  | (p, content) :: rest =>
    match isCurrent s p content with
    | .error failure => .error failure
    | .ok current =>
      match compareOutputs s rest with
      | .error failure => .error failure
      | .ok others => .ok ((p, content, current) :: others)

/-- The note for the status of an output. -/
def statusNote (p : Files.Path) (status : Status) : Report.Event :=
  .note .debug s!"{p.text}: {status.label}"

/-- The status of the outputs when nothing is written. -/
def predictOutputs (outputs : List (Files.Path × String × Bool)) :
    Told Failure (List (Files.Path × Status)) :=
  let statuses : List (Files.Path × Status) :=
    outputs.map fun (p, _, current) => (p, if current then .unchanged else .stale)
  ⟨statuses.map fun (p, status) => statusNote p status, .ok statuses⟩

/-- Writes the outputs that are not current. Gives the tree afterwards as well, because an output
that was written stays when a later one fails. -/
def writeOutputs (s : Site) : List (Files.Path × String × Bool) →
    Told Failure (List (Files.Path × Status)) × Files.Tree
  | [] => (pure [], s.tree)
  | (p, content, current) :: rest =>
    let (written, tree) : Except Failure Status × Files.Tree :=
      if current then (.ok .unchanged, s.tree)
      else
        match s.writeAtomic p (Text.encode content) with
        | (.error fault, tree) => (.error (.notWritten fault), tree)
        | (.ok _, tree) => (.ok .written, tree)
    match written with
    | .error failure => (Told.fail failure, tree)
    | .ok status =>
      let (others, tree) := writeOutputs { s with tree } rest
      (do
        Told.tell (statusNote p status)
        return (p, status) :: (← others), tree)

/-- Carries out a run and gives the tree afterwards. -/
def generate (s : Site) (o : Options) : Told Failure Generation × Files.Tree :=
  let rendered : Told Failure (Generation × List (Files.Path × String × Bool)) := do
    let (artifacts, generation) ← render s o
    let outputs ← Told.lift id (compareOutputs s (o.outputs artifacts))
    return (generation, outputs)
  match rendered.result with
  | .error failure => (⟨rendered.events, .error failure⟩, s.tree)
  | .ok (generation, outputs) =>
    let (statuses, tree) :=
      match o.mode with
      | .write => writeOutputs s outputs
      | .check | .dryRun => (predictOutputs outputs, s.tree)
    (do
      Told.tellAll rendered.events
      return { generation with outputs := ← statuses }, tree)

end ArgumentSchemes.Run
