import ArgumentSchemes.Command.Execute

/-!
# The disk

The disk is read into a tree as far as a command looks at it, and what a command put into the tree
is written to the disk. Reading takes two rounds, since the configuration files say which headers
and outputs there are.
-/

namespace ArgumentSchemes.Disk

open System (FilePath)
open Files (Component Location Node Site)

/-! ### Reading -/

/-- Where a location is on the disk. -/
def filePath (l : Location) : FilePath := ⟨l.path.text⟩

/-- A name that no disk holds, for a link that leads nowhere. -/
def absentName : String := "\x00"

/-- The path that a link stands for, without further links on it. A circular link stands for
itself. -/
def linkTarget (l : Location) : IO String := do
  match ← (IO.FS.realPath (filePath l)).toBaseIO with
  | .ok target => return target.toString
  | .error (.noFileOrDirectory ..) => return absentName
  | .error _ => return l.path.text

/-- What stands at a location. The content of a file is left out unless `withContent`. -/
def readNode? (l : Location) (withContent : Bool) : IO (Option Node) := do
  match ← (filePath l).symlinkMetadata.toBaseIO with
  | .error (.permissionDenied file code details) => throw (.permissionDenied file code details)
  | .error _ => return none
  | .ok metadata =>
    match metadata.type with
    | .dir => return some .directory
    | .symlink => return some (.link (← linkTarget l))
    | .file | .other =>
      if withContent then return some (.file (← IO.FS.readBinFile (filePath l)).toList)
      else return some (.file [])

/-- Reads what steps lead through and what they lead to. -/
partial def readAlong (l : Location) : List Component → StateT Files.Tree IO Unit
  | [] => pure ()
  | .root :: rest => readAlong [] rest
  | .here :: rest => readAlong l rest
  | .up :: rest => readAlong l.dropLast rest
  | .name n :: rest => do
    let next := l ++ [n]
    if let some node ← readNode? next true then
      modify (·.set next node)
      match node with
      | .directory => readAlong next rest
      | .file _ => pure ()
      | .link target =>
        if target ≠ next.path.text then readAlong l (Files.Path.steps ⟨target⟩ ++ rest)

/-- Reads what paths lead through and what they lead to. -/
def readPaths (s : Site) (paths : List Files.Path) : IO Site := do
  let (_, tree) ← (paths.forM fun p => readAlong s.cwd p.steps).run s.tree
  return { s with tree }

/-- Reads everything below a directory, but of the files only the content of those that `matches`
accepts. -/
partial def readBelow (wanted : String → Bool) (l : Location) : IO (List (Location × Node)) := do
  let mut nodes := []
  for entry in ← (filePath l).readDir do
    let next := l ++ [entry.fileName]
    if let some node ← readNode? next (wanted entry.fileName) then
      let inside ← if node = .directory then readBelow wanted next else pure []
      nodes := (next, node) :: inside ++ nodes
  return nodes

/-- The site without anything in its tree. -/
def emptySite : IO Site := do
  let cwd : Files.Path := ⟨(← IO.currentDir).toString⟩
  let names := cwd.components.filterMap fun
    | .name n => some n
    | _ => none
  return { tree := {}, cwd := names, home := (← IO.getEnv "HOME").map Files.Path.mk }

/-- Reads what the scan of a command looks at. -/
def readScan (a : Command.ScanArguments) (outDir license : Option Files.Path) : IO Site := do
  let empty ← emptySite
  let root := a.root.getD empty.cwdPath
  let paths :=
    [empty.cwdPath, root, Config.projectFile root] ++ a.config.toList
      ++ (Config.ownFile empty).toList
  let first ← readPaths empty paths
  match (Command.scanSettings first a).result, first.lookup root with
  | .ok (_, layer), .ok (l, _) =>
    let options : Run.Options :=
      { root, outDir := outDir.getD root, config := layer.merge { license } }
    let wanted (name : String) : Bool :=
      match Files.Pattern.parse layer.settings.pattern with
      | .ok compiled => compiled.accepts name
      | .error _ => false
    let nodes ← readBelow wanted l
    readPaths { empty with tree := ⟨nodes⟩ }
      (paths ++ [options.nativePath, options.bindingPath, options.licensePath])
  | _, _ => return first

/-- Reads what a command looks at. -/
def readSite (arguments : List String) : IO Site := do
  match Command.Invocation.ofArguments arguments with
  | .ok { request := .generate scan outDir license _ _, .. } => readScan scan outDir license
  | .ok { request := .list scan _, .. } => readScan scan none none
  | _ => emptySite

/-! ### Writing -/

/-- Puts a file in the place of what stands at a location, in one step. -/
def replaceFile (l : Location) (content : List UInt8) : IO Unit := do
  let number ← IO.rand 0 0xffffffff
  let temporary := filePath (l.dropLast ++ [s!".schemegen.{number}.tmp"])
  try
    IO.FS.writeBinFile temporary ⟨content.toArray⟩
    IO.FS.rename temporary (filePath l)
  catch fault =>
    IO.FS.removeFile temporary
    throw fault

/-- Writes what a tree holds and another did not. What was put there last stands first. -/
def writeChanges (before after : Files.Tree) : IO Unit :=
  for (l, node) in after.nodes.reverse do
    if before.get? l ≠ some node then
      match node with
      | .directory => IO.FS.createDir (filePath l)
      | .file content => replaceFile l content
      | .link _ => pure ()

end ArgumentSchemes.Disk
