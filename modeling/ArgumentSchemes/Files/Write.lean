import ArgumentSchemes.Files.Site

/-!
# Writing files

A file is written in one shot: its directory is created if necessary, the content goes to a
temporary file there, and that file then takes the place of the destination. So a reader sees the
old content or the new one. The temporary file is gone when the operation ends, whether it succeeds
or not, and does not appear in the trees below.

Every operation gives the tree afterwards together with its result, because directories that were
created stay when a later step fails.
-/

namespace ArgumentSchemes.Files

/-- Why a file was not written. -/
inductive WriteFault where
  /-- The directory could not be created. -/
  | noDirectory (directory : Path) (cause : IoFault)
  /-- No temporary file could be created in the directory. -/
  | noTemporary (directory : Path) (cause : IoFault)
  /-- The temporary file could not take the place of the destination. -/
  | notReplaced (path : Path) (cause : IoFault)
deriving DecidableEq, Repr

/-- The fault in one sentence. -/
def WriteFault.message : WriteFault → String
  | noDirectory directory cause =>
    s!"failed to create directory: {directory.text}: {cause.message}"
  | noTemporary directory cause =>
    s!"failed to create temporary file in {directory.text}: {cause.message}"
  | notReplaced path cause => s!"failed to write file: {path.text}: {cause.message}"

/-- The place that a path gives to something new: the directory, and the name in it when the last
step is a name. -/
structure Place where
  directory : Location
  name : Option String
deriving DecidableEq, Repr

namespace Place

/-- The location of something of the given name in a directory. -/
def location (pl : Place) (name : String) : Location := pl.directory ++ [name]

end Place

namespace Site

/-- The place that a path gives to something new. -/
def place (s : Site) (p : Path) : Except IoFault Place :=
  match p.refusal? with
  | some fault => .error fault
  | none =>
    let steps := p.rawSteps
    let name := match steps.getLast? with
      | some (.name n) => some n
      | _ => none
    match followSteps s.tree true anywhere maxLinks s.cwd steps.dropLast with
    | .error fault => .error fault
    | .ok l =>
      if s.tree.get? l = some .directory then .ok ⟨l, name⟩ else .error .notDirectory

/-- Creates one directory. -/
def makeDirectory (s : Site) (p : Path) : Except IoFault Tree :=
  match s.place p with
  | .error fault => .error fault
  | .ok pl =>
    match pl.name with
    | none => .error .alreadyExists
    | some n =>
      if maxNameSize < n.utf8ByteSize then .error .nameTooLong
      else if (s.tree.get? (pl.location n)).isSome then .error .alreadyExists
      else .ok (s.tree.set (pl.location n) .directory)

/-- Creates one directory unless the path leads to one already. -/
def makeDirectoryOrKeep (s : Site) (p : Path) : Except IoFault Tree :=
  match s.makeDirectory p with
  | .ok t => .ok t
  | .error fault => if s.isDirectory p then .ok s.tree else .error fault

/-- The result of an operation and the tree afterwards. -/
abbrev Result (α : Type) : Type := Except α Unit × Tree

/-- Creates a directory whose path can be cut at most `depth` times, and before it those above that
are missing. -/
def makeDirectories (s : Site) : Nat → Path → Result IoFault
  | 0, p =>
    match s.makeDirectoryOrKeep p with
    | .ok t => (.ok (), t)
    | .error fault => (.error fault, s.tree)
  | depth + 1, p =>
    if p.text.isEmpty then (.ok (), s.tree)
    else
      match s.makeDirectoryOrKeep p, p.parent? with
      | .ok t, _ => (.ok (), t)
      | .error .notFound, some parent =>
        match s.makeDirectories depth parent with
        | (.error fault, t) => (.error fault, t)
        | (.ok _, t) =>
          match makeDirectoryOrKeep { s with tree := t } p with
          | .ok t' => (.ok (), t')
          | .error fault => (.error fault, t)
      | .error fault, _ => (.error fault, s.tree)

/-- Creates the directory of a path, and those above it that are missing, unless the path leads to
something already. -/
def ensureDirectory (s : Site) (p : Path) : Result WriteFault :=
  if s.pathExists p then (.ok (), s.tree)
  else
    match s.makeDirectories (p.components.length + 1) p with
    | (.ok _, t) => (.ok (), t)
    | (.error cause, t) => (.error (.noDirectory p cause), t)

/-- A name of the size that the names of temporary files have. -/
def temporaryName : String := ".tmp000000"

/-- Whether a temporary file can be created in a directory. Its path is taken from the root. -/
def temporaryIn (s : Site) (directory : Path) : Except IoFault Unit :=
  if !((s.cwdPath.join directory).entry temporaryName).fits then .error .nameTooLong
  else
    match s.lookup directory with
    | .error fault => .error fault
    | .ok (_, .directory) => .ok ()
    | .ok _ => .error .notDirectory

/-- Puts a file with the given content in the place of what the path names. A link is replaced and
not followed. Of a path with a NUL no more is said here than that it is none. -/
def replaceFile (s : Site) (p : Path) (content : List UInt8) : Except IoFault Tree :=
  match s.place p with
  | .error .nulInPath => .error .invalidPath
  | .error fault => .error fault
  | .ok pl =>
    match pl.name with
    | none => .error .busy
    | some n =>
      if maxNameSize < n.utf8ByteSize then .error .nameTooLong
      else if p.endsInSlash then .error .notDirectory
      else if s.tree.get? (pl.location n) = some .directory then .error .isDirectory
      else .ok (s.tree.set (pl.location n) (.file content))

/-- The directory that a file of the given path is written to. -/
def directoryOf (p : Path) : Path :=
  match p.parent? with
  | some parent => if parent.text.isEmpty then ⟨"."⟩ else parent
  | none => ⟨"."⟩

/-- Writes a file in one shot. -/
def writeAtomic (s : Site) (p : Path) (content : List UInt8) : Result WriteFault :=
  let directory := directoryOf p
  match s.ensureDirectory directory with
  | (.error fault, t) => (.error fault, t)
  | (.ok _, t) =>
    let s' := { s with tree := t }
    match s'.temporaryIn directory with
    | .error cause => (.error (.noTemporary directory cause), t)
    | .ok _ =>
      match s'.replaceFile p content with
      | .error cause => (.error (.notReplaced p cause), t)
      | .ok t' => (.ok (), t')

end Site

end ArgumentSchemes.Files
