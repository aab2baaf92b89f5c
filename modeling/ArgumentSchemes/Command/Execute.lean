import ArgumentSchemes.Command.Invocation
import ArgumentSchemes.Report.Json

/-!
# Executing a command

A command is executed on a site and gives the tree afterwards, what it told, and its exit code: 0
when it succeeds, 1 when the run fails, 2 when the arguments are not understood. When a header has a
fatal fault, everything that was rejected before it is shown first.
-/

namespace ArgumentSchemes.Command

open Config (Layer)
open Files (Site)
open Report (Told Event Json)
open Run (Failure Collection Generation Mode Options Rejection Status)

/-! ### The root and the settings -/

/-- The root of a scan and the settings for it: those of the files, overlaid by the pattern that was
given. A file that is named replaces that of the project, and must be there. -/
def scanSettings (s : Site) (a : ScanArguments) : Told Failure (Files.Path × Layer) := do
  let root := a.root.getD s.cwdPath
  if s.isDirectory root then
    let layer ← match a.config with
      | some p => do
        let weak ← Told.mapFault .config (Config.loadMerged s (Config.ownFile s) ⟨""⟩)
        let strong ← Told.lift .config (Config.load s p)
        pure (weak.merge strong)
      | none =>
        Told.mapFault .config
          (Config.loadMerged s (Config.ownFile s) (Config.projectFile root))
    return (root, layer.merge { pattern := a.pattern })
  else Told.fail (.noDirectory root)

/-- Shows what was rejected. -/
def showRejections (rejections : List Rejection) : Told Failure Unit :=
  Told.tellAll (rejections.map fun r => .shown r.diagnostic)

/-! ### Generating -/

/-- The line for an output. -/
def outputLine (s : Site) (mode : Mode) (p : Files.Path) (status : Status) : String :=
  if mode = .dryRun ∧ status = .stale then s!"[dry-run] Would write {s.display p}"
  else
    let label := Text.padLeft 10 status.label
    s!"{label} {s.display p}"

/-- Tells what came of a run. Outputs that differ are a failure when they were to be checked. -/
def reportGeneration (s : Site) (mode : Mode) (g : Generation) : Told Failure Unit := do
  showRejections g.rejections
  Told.tellAll (g.outputs.map fun (p, status) => .printed (outputLine s mode p status))
  Told.tell (.printed
    s!"Generated {g.generated.length} scheme(s) from {g.filesScanned} header(s)")
  if g.rejections.isEmpty then pure ()
  else Told.note .warn s!"{g.rejections.length} scheme(s) rejected"
  if mode = .check ∧ g.hasStale then Told.fail .outOfDate else pure ()

/-- Executes `generate`. -/
def executeGenerate (s : Site) (a : ScanArguments) (outDir : Option Files.Path) (flags : Layer)
    (mode : Mode) : Told Failure Unit × Files.Tree :=
  let prepared := scanSettings s a
  match prepared.result with
  | .error failure => (⟨prepared.events, .error failure⟩, s.tree)
  | .ok (root, layer) =>
    let (outcome, tree) := Run.generate s
      { root, outDir := outDir.getD root, config := layer.merge flags, mode }
    (do
      Told.tellAll prepared.events
      reportGeneration { s with tree } mode (← outcome), tree)

/-! ### Listing -/

/-- An accepted scheme in a listing. -/
def schemeJson (s : Site) (p : Files.Path) (scheme : Scheme) : Json :=
  let entry (e : Entry) : Json :=
    .object
      [("arg_name", .text e.argName), ("doc", .text e.doc), ("enum_constant", .text e.constant)]
  .object
    [("file", .text (s.display p)), ("role", .text scheme.role.name.toLower),
      ("name", .text scheme.name), ("title", .text scheme.title),
      ("summary", .text scheme.summary), ("enum_group", .text scheme.group),
      ("entries", .list (scheme.entries.map entry))]

/-- A rejection in a listing. -/
def rejectionJson (s : Site) (r : Rejection) : Json :=
  .object
    [("file", .text (s.display r.path)), ("scheme", .text r.fault.scheme),
      ("error", .text r.fault.message)]

/-- The listing of a collection as one value. -/
def listingJson (s : Site) (c : Collection) : Json :=
  .object
    [("schemes", .list (c.schemes.map fun (p, scheme) => schemeJson s p scheme)),
      ("rejected", .list (c.rejections.map (rejectionJson s)))]

/-- The lines for one scheme. -/
def schemeLines (s : Site) (p : Files.Path) (scheme : Scheme) : List String :=
  let entryLine (e : Entry) : String :=
    s!"  {Text.padRight scheme.widestArgName e.argName}  {e.constant}  {e.doc}"
  s!"{scheme.describe} ({s.display p})" :: scheme.entries.map entryLine

/-- Tells a collection in plain lines. -/
def reportCollection (s : Site) (c : Collection) : Told Failure Unit := do
  Told.tellAll
    ((c.schemes.flatMap fun (p, scheme) => schemeLines s p scheme).map Event.printed)
  showRejections c.rejections
  Told.tell (.printed
    (s!"{c.schemes.length} scheme(s), {c.rejections.length} rejected, "
      ++ s!"in {c.filesScanned} header(s)"))

/-- Executes `list`. The outputs that a run in the root would write are no headers. -/
def executeList (s : Site) (a : ScanArguments) (json : Bool) : Told Failure Unit := do
  let (root, layer) ← scanSettings s a
  let options : Options := { root, outDir := root, config := layer }
  let settings := layer.settings
  let headers ← Run.findHeaders s root settings.pattern [options.nativePath, options.bindingPath]
  let collection ← Run.scan s settings.checker headers
  if json then Told.tell (.printed (listingJson s collection).pretty)
  else reportCollection s collection

/-! ### All commands -/

/-- The name of the program. -/
def programName : String := "schemegen"

/-- The texts that are made by the library which reads the command line, and not here. -/
structure LibraryTexts where
  /-- The help page that a command line asks for. -/
  help : List String → String
  /-- The message for a command line that is not understood. -/
  refusal : List String → String
  /-- The script that makes a shell complete the commands, up to its last line ending. -/
  script : Shell → String

/-- Stand-ins for the texts of the library, which give the name of the program and no more. -/
def LibraryTexts.brief : LibraryTexts where
  help _ := s!"{programName}\n"
  refusal _ := s!"{programName}\n"
  script _ := programName

/-- Executes a command. -/
def executeRequest (s : Site) (texts : LibraryTexts) : Request → Told Failure Unit × Files.Tree
  | .generate scan outDir license scope mode =>
    executeGenerate s scan outDir { license, scope } mode
  | .list scan json => (executeList s scan json, s.tree)
  | .completions shell => (Told.tell (.printed (texts.script shell)), s.tree)

/-- What a process leaves behind. -/
structure Outcome where
  exitCode : Nat
  output : String
  errors : String
  tree : Files.Tree

/-- The events that end a failed run. -/
def failureEvents : Failure → List Event
  | .fatal fault => (fault.rejections.map fun r => .shown r.diagnostic) ++ [.shown fault.diagnostic]
  | failure => [.failed failure.message]

/-- Runs the program with the given arguments. -/
def run (s : Site) (arguments : List String) (texts : LibraryTexts := .brief) : Outcome :=
  match Invocation.ofArguments arguments with
  | .error .help => { exitCode := 0, output := texts.help arguments, errors := "", tree := s.tree }
  | .error .version =>
    { exitCode := 0, output := s!"{programName} 0.1.0\n", errors := "", tree := s.tree }
  | .error .refused =>
    { exitCode := 2, output := "", errors := texts.refusal arguments, tree := s.tree }
  | .ok invocation =>
    let (told, tree) := executeRequest s texts invocation.request
    let (code, events) := match told.result with
      | .ok _ => (0, told.events)
      | .error failure => (1, told.events ++ failureEvents failure)
    { exitCode := code
      output := String.join (events.map Event.outputText)
      errors := String.join (events.map (Event.errorText invocation.verbose invocation.coloured))
      tree }

end ArgumentSchemes.Command
