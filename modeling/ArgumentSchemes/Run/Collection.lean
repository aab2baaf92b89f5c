import ArgumentSchemes.Header.Cursor
import ArgumentSchemes.Report.Event

/-!
# Collecting schemes

The headers of a run are parsed one after the other into one `Collection`. A scheme without
entries is left out, a refused one is recorded and the collecting goes on, and a fatal fault ends
the file; it takes with it the rejections recorded so far, so that they can still be reported.
-/

namespace ArgumentSchemes.Run

open Header (Checker Item)
open Report (Diagnostic Event)

/-- A scheme that was dropped from the run. -/
structure Rejection where
  /-- The header that declares the scheme. -/
  path : Files.Path
  fault : SchemeFault
deriving DecidableEq, Repr

/-- The diagnostic for a rejection. -/
def Rejection.diagnostic (r : Rejection) : Diagnostic := r.fault.diagnosticAt r.path

/-- A fault that makes the rest of a run meaningless. -/
structure FatalFault where
  path : Files.Path
  fault : SchemeFault
  /-- What had been rejected before. -/
  rejections : List Rejection
deriving DecidableEq, Repr

namespace FatalFault

/-- The diagnostic for the fault itself. -/
def diagnostic (f : FatalFault) : Diagnostic := f.fault.diagnosticAt f.path

/-- The fault in one line. -/
def message (f : FatalFault) : String := s!"{f.path.text}: {f.fault.message}"

end FatalFault

/-- The accepted schemes in the order of files and declarations, and every rejection. -/
structure Collection where
  schemes : List (Files.Path × Scheme) := []
  rejections : List Rejection := []
  filesScanned : Nat := 0
deriving DecidableEq, Repr

/-- What comes of adding to a collection. -/
structure Addition where
  collection : Collection
  events : List Event := []
  fatal : Option FatalFault := none
deriving DecidableEq, Repr

namespace Collection

/-- The accepted schemes alone. -/
def accepted (c : Collection) : List Scheme := c.schemes.map (·.2)

/-- Adds one item of the header `path`. -/
def addItem (c : Collection) (path : Files.Path) : Item → Addition
  | .ok scheme =>
    if scheme.entries.isEmpty then
      { collection := c
        events := [.note .warn
          s!"{path.text}: scheme `{scheme.name}` documents no entries, skipping"] }
    else
      { collection := { c with schemes := c.schemes ++ [(path, scheme)] }
        events := [.note .debug s!"{path.text}: found {scheme.describe}"] }
  | .error fault =>
    if fault.isFatal then
      { collection := { c with rejections := [] }, fatal := some ⟨path, fault, c.rejections⟩ }
    else
      { collection := { c with rejections := c.rejections ++ [⟨path, fault⟩] }
        events := [.note .debug s!"{path.text}: rejected `{fault.scheme}`"] }

/-- Adds items of the header `path` up to the first fatal fault. -/
def addItems (c : Collection) (path : Files.Path) : List Item → Addition
  | [] => { collection := c }
  | item :: rest =>
    let first := c.addItem path item
    match first.fatal with
    | some _ => first
    | none =>
      let others := first.collection.addItems path rest
      { others with events := first.events ++ others.events }

/-- Parses the text of the header `path` into the collection. -/
def add (c : Collection) (checker : Checker) (path : Files.Path) (text : String) : Addition :=
  addItems { c with filesScanned := c.filesScanned + 1 } path (checker.parse text)

end Collection

end ArgumentSchemes.Run
