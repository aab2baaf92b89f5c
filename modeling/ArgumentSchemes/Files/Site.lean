import ArgumentSchemes.Files.Path
import ArgumentSchemes.Files.Tree

/-!
# Following paths

A `Site` is a file tree together with the directory that relative paths start from. Following a path
means taking its steps one after the other: every step but the last must lead to a directory, and a
symbolic link on the way is replaced by the steps of its target. At most 40 links are followed, so
that circular links end in a fault.

There are two ways to follow a path. The system takes it as a whole, so its text must not be too
long. Resolving it to a path from the root asks the system about one location after the other, so
there the path of every location on the way must not be too long, and the text may be.

The recursion is on the steps, and, at a link, on the number of links that may still be followed.
-/

namespace ArgumentSchemes.Files

/-- Why the file tree refuses something. -/
inductive IoFault where
  | notFound
  | alreadyExists
  | notDirectory
  | isDirectory
  | busy
  | nameTooLong
  | tooManyLinks
  /-- The path holds the character NUL. -/
  | nulInPath
  /-- The path cannot be one. -/
  | invalidPath
  /-- The content of the file is not UTF-8. -/
  | notUtf8
deriving DecidableEq, Repr

/-- The fault as the system words it. -/
def IoFault.message : IoFault → String
  | notFound => "No such file or directory (os error 2)"
  | alreadyExists => "File exists (os error 17)"
  | notDirectory => "Not a directory (os error 20)"
  | isDirectory => "Is a directory (os error 21)"
  | busy => "Device or resource busy (os error 16)"
  | nameTooLong => "File name too long (os error 36)"
  | tooManyLinks => "Too many levels of symbolic links (os error 40)"
  | nulInPath => "file name contained an unexpected NUL byte"
  | invalidPath => "Invalid argument (os error 22)"
  | notUtf8 => "stream did not contain valid UTF-8"

/-- The most bytes that a name may have. -/
def maxNameSize : Nat := 255

/-- The most bytes that a path may have. -/
def maxPathSize : Nat := 4095

/-- The most links that are followed on the way along a path. -/
def maxLinks : Nat := 40

/-! ### The steps of a path -/

/-- The step that a segment makes when a path is followed: only an empty segment makes none. -/
def stepOfSegment? (segment : List Char) : Option Component :=
  if segment = [] then none
  else if segment = ['.'] then some .here
  else if segment = ['.', '.'] then some .up
  else some (.name (String.ofList segment))

namespace Path

/-- The steps of a path from where it starts, without those of trailing slashes. -/
def rawSteps (p : Path) : List Component :=
  (if p.isAbsolute then [.root] else []) ++ (segments p.text.toList).filterMap stepOfSegment?

/-- Whether a path ends in a slash. -/
def endsInSlash (p : Path) : Bool := p.text.toList.getLast? == some '/'

/-- The steps of a path. A slash at its end stays in the directory that the other steps lead to,
and so asks for one. -/
def steps (p : Path) : List Component :=
  p.rawSteps ++ if p.endsInSlash then [.here] else []

/-- Whether the system takes a text of this size for a path. -/
def fits (p : Path) : Bool := p.text.utf8ByteSize ≤ maxPathSize

/-- Why a path leads nowhere whatever the tree is, if so. -/
def senseless? (p : Path) : Option IoFault :=
  if '\x00' ∈ p.text.toList then some .nulInPath
  else if p.text.isEmpty then some .notFound
  else none

/-- Why a path cannot be followed at all, if so. -/
def refusal? (p : Path) : Option IoFault :=
  p.senseless? <|> if p.fits then none else some .nameTooLong

end Path

/-- The path from the root to a location. -/
def Location.path (l : Location) : Path := ⟨"/" ++ "/".intercalate l⟩

/-! ### Following -/

/-- Takes steps from a location. `onLink` says how to go on when the steps lead to a link: it is
given the directory that holds the link, the target, and the steps that remain. The last step does
not go through a link unless `through`, and no step leads to a location that is not `allowed`. -/
def followWith (t : Tree) (through : Bool) (allowed : Location → Bool)
    (onLink : Location → Path → List Component → Except IoFault Location) (l : Location) :
    List Component → Except IoFault Location
  | [] => .ok l
  | .root :: rest => followWith t through allowed onLink [] rest
  | .here :: rest =>
    if t.get? l = some .directory then followWith t through allowed onLink l rest
    else .error .notDirectory
  | .up :: rest =>
    if t.get? l = some .directory then followWith t through allowed onLink l.dropLast rest
    else .error .notDirectory
  | .name n :: rest =>
    if t.get? l = some .directory then
      if maxNameSize < n.utf8ByteSize ∨ !allowed (l ++ [n]) then .error .nameTooLong
      else
        match t.get? (l ++ [n]) with
        | none => .error .notFound
        | some (.link target) =>
          if rest.isEmpty && !through then .ok (l ++ [n]) else onLink l ⟨target⟩ rest
        | some _ => followWith t through allowed onLink (l ++ [n]) rest
    else .error .notDirectory

/-- Takes steps from a location and follows at most `links` links. -/
def followSteps (t : Tree) (through : Bool) (allowed : Location → Bool) : Nat → Location →
    List Component → Except IoFault Location
  | 0 => followWith t through allowed fun _ _ _ => .error .tooManyLinks
  | links + 1 =>
    followWith t through allowed fun l target rest =>
      followSteps t through allowed links l (target.steps ++ rest)

/-- Every location. -/
def anywhere : Location → Bool := fun _ => true

/-- A file tree, the directory that relative paths start from, and the path of the home directory,
if there is one. -/
structure Site where
  tree : Tree
  cwd : Location
  home : Option Path := none
deriving DecidableEq, Repr

namespace Site

/-- The location that a path leads to. When the path ends at a link, that is the location of the
link itself, unless `through`. -/
def follow (s : Site) (p : Path) (through : Bool) : Except IoFault Location :=
  match p.refusal? with
  | some fault => .error fault
  | none => followSteps s.tree through anywhere maxLinks s.cwd p.steps

/-- The location that a path leads to through all links, and what stands there. -/
def lookup (s : Site) (p : Path) : Except IoFault (Location × Node) :=
  match s.follow p true with
  | .error fault => .error fault
  | .ok l =>
    match s.tree.get? l with
    | none => .error .notFound
    | some n => .ok (l, n)

/-- Whether a path leads to anything. -/
def pathExists (s : Site) (p : Path) : Bool := (s.lookup p).isOk

/-- Whether a path leads to a directory. -/
def isDirectory (s : Site) (p : Path) : Bool :=
  match s.lookup p with
  | .ok (_, .directory) => true
  | _ => false

/-- The location that a path leads to through all links, found one location after the other. -/
def resolve (s : Site) (p : Path) : Except IoFault Location :=
  match p.senseless? with
  | some fault => .error fault
  | none => followSteps s.tree true (·.path.fits) maxLinks s.cwd p.steps

/-- The path without links and idle steps that leads from the root to the same place as `p`; `p`
itself when it leads nowhere. -/
def normalize (s : Site) (p : Path) : Path :=
  match s.resolve p with
  | .ok l => if (s.tree.get? l).isSome then l.path else p
  | .error _ => p

/-- The path of the current directory. -/
def cwdPath (s : Site) : Path := s.cwd.path

/-- The path as it is shown to the user: seen from the current directory if it leads below it. -/
def display (s : Site) (p : Path) : String :=
  ((s.normalize s.cwdPath).relativeTo (s.normalize p)).text

end Site

end ArgumentSchemes.Files
