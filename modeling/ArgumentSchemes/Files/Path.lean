/-!
# Paths

A **path** is a text whose segments are separated by slashes. Two readings of it matter. Its
*components* say which steps it takes: an empty segment is no step, and neither is `.` unless the
path begins with it. Its *text* is what is printed and what further names are appended to, and it
may hold more than the components do, as in `a//b/.`.

Paths are ordered by their components. The operations that cut a path (`parent?`, `below?`) work
on the text, so that what they keep is spelled as before, up to idle segments at the cut.
-/

namespace ArgumentSchemes.Files

/-- A path, as written. -/
structure Path where
  text : String
deriving DecidableEq, Repr, Inhabited

/-- One step of a path. -/
inductive Component where
  /-- The root of the tree. -/
  | root
  /-- The directory that the path starts from. -/
  | here
  /-- The directory above. -/
  | up
  /-- The entry of this name. -/
  | name (name : String)
deriving DecidableEq, Repr, Inhabited

namespace Component

/-- The text of a step. -/
def text : Component → String
  | root => "/"
  | here => "."
  | up => ".."
  | name n => n

/-- The step that a segment stands for, unless the segment is idle. -/
def ofSegment? (segment : List Char) : Option Component :=
  if segment = [] ∨ segment = ['.'] then none
  else if segment = ['.', '.'] then some up
  else some (name (String.ofList segment))

/-- The root comes first, then the starting directory, the directory above, and names in the
order of their code points. -/
def lt : Component → Component → Bool
  | root, root => false
  | root, _ => true
  | _, root => false
  | here, here => false
  | here, _ => true
  | _, here => false
  | up, up => false
  | up, _ => true
  | _, up => false
  | name a, name b => decide (a < b)

/-- The lexicographic order of component lists. -/
def listLt : List Component → List Component → Bool
  | [], [] => false
  | [], _ :: _ => true
  | _ :: _, [] => false
  | a :: as, b :: bs => lt a b || (a == b && listLt as bs)

end Component

/-- The segments of a text: its parts between slashes. -/
def segments : List Char → List (List Char)
  | [] => [[]]
  | c :: cs => if c = '/' then [] :: segments cs else (segments cs).modifyHead (c :: ·)

@[simp] theorem segments_ne_nil (cs : List Char) : segments cs ≠ [] := by
  cases cs with
  | nil => simp [segments]
  | cons c cs =>
    simp only [segments]
    split
    · simp
    · cases h : segments cs with
      | nil => exact absurd h (segments_ne_nil cs)
      | cons s rest => simp

/-- Putting the slashes back gives the text again. -/
theorem intercalate_segments (cs : List Char) : ['/'].intercalate (segments cs) = cs := by
  induction cs with
  | nil => rfl
  | cons c cs ih =>
    simp only [segments]
    split
    · rename_i h
      subst h
      cases hs : segments cs with
      | nil => exact absurd hs (segments_ne_nil cs)
      | cons s rest => rw [List.intercalate_cons_cons, ← hs, ih]; rfl
    · cases hs : segments cs with
      | nil => exact absurd hs (segments_ne_nil cs)
      | cons s rest =>
        rw [hs] at ih
        cases rest with
        | nil => simp_all
        | cons t rest => simp_all [List.intercalate_cons_cons]

/-- A path taken apart: what it starts from, and the segments after that. -/
structure Path.Parts where
  /-- The root, or a leading `.`, or nothing. -/
  head : Option Component
  /-- The segments after the head. -/
  segments : List (List Char)
deriving DecidableEq, Repr

namespace Path

/-- Takes a path apart. -/
def parts (p : Path) : Parts :=
  match p.text.toList with
  | '/' :: rest => ⟨some .root, Files.segments rest⟩
  | ['.'] => ⟨some .here, [[]]⟩
  | '.' :: '/' :: rest => ⟨some .here, [] :: Files.segments rest⟩
  | cs => ⟨none, Files.segments cs⟩

/-- The **components** of a path. -/
def components (p : Path) : List Component :=
  p.parts.head.toList ++ p.parts.segments.filterMap Component.ofSegment?

/-- Whether two paths take the same steps. -/
def sameSteps (p q : Path) : Bool := p.components == q.components

/-- The component-by-component order of paths. -/
def lt (p q : Path) : Bool := Component.listLt p.components q.components

/-- Whether a path starts from the root. -/
def isAbsolute (p : Path) : Bool := p.parts.head == some .root

/-- The path `q` seen from the directory `p`: `q` itself when it starts from the root, else the
text of `q` behind that of `p`, with one slash between them unless `p` is empty or ends in one. -/
def join (p q : Path) : Path :=
  if q.isAbsolute ∨ p.text.isEmpty then q
  else if p.text.toList.getLast? = some '/' then ⟨p.text ++ q.text⟩
  else ⟨p.text ++ "/" ++ q.text⟩

/-- The path of the entry `n` in the directory `p`. -/
def entry (p : Path) (n : String) : Path := p.join ⟨n⟩

/-- Whether a segment is no step. -/
def isIdle (segment : List Char) : Bool := (Component.ofSegment? segment).isNone

/-- The segments without the idle ones at their end. -/
def dropIdleEnd (segments : List (List Char)) : List (List Char) :=
  (segments.reverse.dropWhile isIdle).reverse

/-- The path that parts make up. -/
def ofParts (t : Parts) : Path :=
  ⟨(t.head.map Component.text).getD "" ++ String.ofList (['/'].intercalate t.segments)⟩

/-- The path without its last component; none when there is no component to take away, or only the
root. -/
def parent? (p : Path) : Option Path :=
  let t := p.parts
  match dropIdleEnd t.segments with
  | [] => if t.head = some .here then some ⟨""⟩ else none
  | segments@(_ :: _) => some (ofParts ⟨t.head, dropIdleEnd segments.dropLast⟩)

/-- The name that the path ends in, when its last component is a name. -/
def fileName? (p : Path) : Option String :=
  match p.components.getLast? with
  | some (.name n) => some n
  | _ => none

/-- The segments that remain when their first components are the given ones. -/
def segmentsBelow? : List Component → List (List Char) → Option (List (List Char))
  | [], segments => some (segments.dropWhile isIdle)
  | _ :: _, [] => none
  | c :: cs, s :: segments =>
    match Component.ofSegment? s with
    | none => segmentsBelow? (c :: cs) segments
    | some d => if c = d then segmentsBelow? cs segments else none

/-- The path `p` seen from `base`, when the components of `base` are its first ones. -/
def below? (base p : Path) : Option Path :=
  let t := p.parts
  match base.components, t.head with
  | [], _ => some (ofParts ⟨t.head, dropIdleEnd t.segments⟩)
  | c :: cs, some h =>
    if c = h then (segmentsBelow? cs t.segments).map fun s => ofParts ⟨none, dropIdleEnd s⟩
    else none
  | cs, none => (segmentsBelow? cs t.segments).map fun s => ofParts ⟨none, dropIdleEnd s⟩

/-- The path `p` seen from `base` when it lies below it, and else `p` itself. -/
def relativeTo (base p : Path) : Path := (below? base p).getD p

end Path

end ArgumentSchemes.Files
