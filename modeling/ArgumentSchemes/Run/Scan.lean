import ArgumentSchemes.Config.Load
import ArgumentSchemes.Files.Discover
import ArgumentSchemes.Files.Write
import ArgumentSchemes.Run.Collection

/-!
# Scanning headers

A scan reads the headers of a run one after the other into a collection. It ends at the first header
that cannot be read or has a fatal fault.
-/

namespace ArgumentSchemes.Run

open Files (Site IoFault)
open Header (Checker)
open Report (Told)

/-- Why a run fails. -/
inductive Failure where
  /-- The headers could not be found. -/
  | discover (fault : Files.DiscoverFault)
  | unreadable (path : Files.Path) (cause : IoFault)
  /-- A header has a fatal fault. -/
  | fatal (fault : FatalFault)
  | noLicense (path : Files.Path) (cause : IoFault)
  /-- A scheme without entries was about to be written. -/
  | unchecked (fault : SchemeFault)
  | notWritten (fault : Files.WriteFault)
  | config (fault : Config.LoadFault)
  /-- The root of a run is no directory. -/
  | noDirectory (path : Files.Path)
  /-- The outputs are not what a run would write. -/
  | outOfDate
deriving DecidableEq, Repr

/-- The wording of a file that cannot be read. -/
def unreadableMessage (path : Files.Path) (cause : IoFault) : String :=
  s!"failed to read file: {path.text}: {cause.message}"

/-- The failure in one message. -/
def Failure.message : Failure → String
  | discover fault => fault.message
  | unreadable path cause => unreadableMessage path cause
  | fatal fault => fault.message
  | noLicense path cause =>
    s!"failed to load license banner: {path.text}: {unreadableMessage path cause}"
  | unchecked fault =>
    s!"internal error: an unchecked scheme reached the emitters: {fault.message}"
  | notWritten fault => fault.message
  | config fault => fault.message
  | noDirectory path => s!"`{path.text}` is not a directory"
  | outOfDate =>
    "generated files are out of date\nhelp: Run `schemegen generate` to refresh them"

/-- What a fault of an addition to a collection means for the run. -/
def Addition.told (a : Addition) : Told Failure Collection :=
  match a.fatal with
  | some fault => ⟨a.events, .error (.fatal fault)⟩
  | none => ⟨a.events, .ok a.collection⟩

/-- Reads headers into a collection. -/
def scanInto (s : Site) (checker : Checker) (c : Collection) :
    List Files.Path → Told Failure Collection
  | [] => pure c
  | path :: rest => do
    Told.note .debug s!"scanning {path.text}"
    let text ← Told.lift (.unreadable path) (s.readLossy path)
    let c ← (c.add checker path text).told
    scanInto s checker c rest

/-- Reads headers in order. -/
def scan (s : Site) (checker : Checker) (headers : List Files.Path) : Told Failure Collection :=
  scanInto s checker {} headers

/-- Finds the headers below a root and notes which files were left out. -/
def findHeaders (s : Site) (root : Files.Path) (pattern : String) (exclude : List Files.Path) :
    Told Failure (List Files.Path) := do
  let found ← Told.lift .discover (s.discover root pattern exclude)
  Told.tellAll (found.skipped.map fun p => .note .debug s!"skipping generated file {p.text}")
  return found.headers

end ArgumentSchemes.Run
