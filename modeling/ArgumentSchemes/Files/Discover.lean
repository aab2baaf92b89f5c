import ArgumentSchemes.Files.Pattern
import ArgumentSchemes.Files.Site

/-!
# Finding headers

The headers below a root are the regular files whose name matches a pattern. Only real directories
are entered, so that each file is met once; the root itself may be given by a link. Files that are
the same as an excluded path are left out. The headers come in the order of their paths.
-/

namespace ArgumentSchemes.Files

/-- Why no headers could be found. -/
inductive DiscoverFault where
  | badPattern (pattern : String) (error : PatternError)
  /-- What stands at a place at or below the root could not be listed. -/
  | notWalked (root place : Path) (cause : IoFault)
deriving DecidableEq, Repr

/-- The fault in one sentence. -/
def DiscoverFault.message : DiscoverFault → String
  | badPattern pattern error => s!"invalid glob pattern: {pattern}: {error.message}"
  | notWalked root place cause =>
    s!"failed to walk directory: {root.text}: IO error for operation on {place.text}: "
      ++ s!"{cause.message}: {cause.message}"

/-- The headers below a root. -/
structure Discovery where
  /-- The headers of a run. -/
  headers : List Path := []
  /-- What has the name of a header but is excluded, by the last of the excluded paths first. -/
  skipped : List Path := []
deriving DecidableEq, Repr

namespace Site

/-- The order of paths as a total relation. -/
def pathLe (p q : Path) : Bool := !q.lt p

/-- What stands below a location, with its paths seen from the path `root` of the location. -/
def entriesBelow (s : Site) (l : Location) (root : Path) : List (Path × Node) :=
  (s.tree.below l).map fun (names, n) => (names.foldl Path.entry root, n)

/-- The directories below a location that cannot be listed because their paths are too long. The
first of them, in the order of paths, is the one that a walk comes to. -/
def unlistable (s : Site) (l : Location) (root : Path) : List Path :=
  ((s.entriesBelow l root).filterMap fun
    | (p, .directory) => if p.fits then none else some p
    | _ => none).mergeSort pathLe

/-- The paths of the regular files below a location, seen from the path `root` of the location. All
directories on the way must be listed. -/
def filesBelow (s : Site) (l : Location) (root : Path) : Except DiscoverFault (List Path) :=
  match s.unlistable l root with
  | place :: _ => .error (.notWalked root place .nameTooLong)
  | [] =>
    .ok ((s.entriesBelow l root).filterMap fun
      | (p, .file _) => some p
      | _ => none)

/-- The paths of the regular files at or below a root. -/
def walk (s : Site) (root : Path) : Except DiscoverFault (List Path) :=
  match s.follow root false with
  | .error cause => .error (.notWalked root root cause)
  | .ok l =>
    match s.tree.get? l with
    | none => .error (.notWalked root root .notFound)
    | some (.file _) => .ok [root]
    | some .directory => s.filesBelow l root
    | some (.link _) =>
      match s.lookup root with
      | .error cause => .error (.notWalked root root cause)
      | .ok (l', .directory) => s.filesBelow l' root
      | .ok _ => .ok []

/-- The name that a path is matched by: the one it ends in, or else the whole path. -/
def matchedName (p : Path) : String := p.fileName?.getD p.text

/-- Finds the headers below `root` whose names match `pattern`. -/
def discover (s : Site) (root : Path) (pattern : String) (exclude : List Path) :
    Except DiscoverFault Discovery :=
  match Pattern.parse pattern with
  | .error error => .error (.badPattern pattern error)
  | .ok compiled =>
    match s.walk root with
    | .error fault => .error fault
    | .ok files =>
      let candidates := (files.filter fun p => compiled.accepts (matchedName p)).mergeSort pathLe
      let excluded := exclude.map s.normalize
      let isAt (p e : Path) : Bool := e.sameSteps (s.normalize p)
      .ok
        { headers := candidates.filter fun p => !excluded.any (isAt p)
          skipped := (excluded.reverse.flatMap fun e => candidates.filter (isAt · e)).eraseDups }

end Site

end ArgumentSchemes.Files
