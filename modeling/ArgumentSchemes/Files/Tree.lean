/-!
# File trees

A **tree** is a value: it says what stands at every location below the root. A location is the list
of the names that lead to it from the root, through directories only. The root itself is a directory
that is always there.

Main statements: `set` changes what stands at its own location and nowhere else (`get?_set_self`,
`get?_set_of_ne`), and `remove` takes away what stands there and below, and nothing else
(`get?_remove_of_prefix`, `get?_remove_of_not_prefix`).
-/

namespace ArgumentSchemes.Files

/-- The names that lead from the root to a place in the tree. -/
abbrev Location := List String

/-- What can stand at a location. -/
inductive Node where
  | file (content : List UInt8)
  /-- A symbolic link, with the path that it stands for. -/
  | link (target : String)
  | directory
deriving DecidableEq, Repr

/-- A file tree, as a list of what stands where. No location is listed twice, and the root is not
listed. -/
structure Tree where
  nodes : List (Location × Node) := []
deriving DecidableEq, Repr, Inhabited

namespace Tree

/-- What stands at a location, if anything does. -/
def get? (t : Tree) (l : Location) : Option Node :=
  if l = [] then some .directory else (t.nodes.find? (·.1 == l)).map (·.2)

/-- The tree with `n` at the location `l`, in place of what stood there. -/
def set (t : Tree) (l : Location) (n : Node) : Tree :=
  ⟨(l, n) :: t.nodes.filter (·.1 != l)⟩

/-- The tree without what stands at the location `l` or below it. -/
def remove (t : Tree) (l : Location) : Tree :=
  ⟨t.nodes.filter fun e => !l.isPrefixOf e.1⟩

/-- What stands below the location `l`, with the names that lead there from `l`. -/
def below (t : Tree) (l : Location) : List (Location × Node) :=
  t.nodes.filterMap fun e =>
    if l.isPrefixOf e.1 ∧ e.1 ≠ l then some (e.1.drop l.length, e.2) else none

theorem get?_set_self (t : Tree) {l : Location} (h : l ≠ []) (n : Node) :
    (t.set l n).get? l = some n := by
  simp [get?, set, h]

private theorem find?_filter_ne {l m : Location} (h : m ≠ l) (nodes : List (Location × Node)) :
    (nodes.filter (·.1 != l)).find? (·.1 == m) = nodes.find? (·.1 == m) := by
  rw [List.find?_filter]
  congr 1
  funext e
  by_cases he : e.1 = m
  · simp [he, h]
  · simp [he]

theorem get?_set_of_ne (t : Tree) {l m : Location} (h : m ≠ l) (n : Node) :
    (t.set l n).get? m = t.get? m := by
  simp [get?, set, Ne.symm h, find?_filter_ne h]

theorem get?_remove_of_prefix (t : Tree) {l m : Location} (hne : l ≠ []) (h : l <+: m) :
    (t.remove l).get? m = none := by
  have hm : m ≠ [] := fun hm => hne (List.prefix_nil.mp (hm ▸ h))
  have hnone : (t.nodes.filter fun e => !l.isPrefixOf e.1).find? (·.1 == m) = none := by
    rw [List.find?_eq_none]
    intro e he hm
    have hkept : ¬ l <+: e.1 := by
      simpa [← List.isPrefixOf_iff_prefix] using (List.mem_filter.mp he).2
    exact hkept (eq_of_beq hm ▸ h)
  simp [get?, remove, hm, hnone]

theorem get?_remove_of_not_prefix (t : Tree) {l m : Location} (h : ¬ l <+: m) :
    (t.remove l).get? m = t.get? m := by
  have : (t.nodes.filter fun e => !l.isPrefixOf e.1).find? (·.1 == m) =
      t.nodes.find? (·.1 == m) := by
    rw [List.find?_filter]
    congr 1
    funext e
    by_cases he : e.1 = m
    · have : l.isPrefixOf m = false := by simpa [← Bool.not_eq_true] using h
      simp [he, this]
    · simp [he]
  simp [get?, remove, this]

end Tree

end ArgumentSchemes.Files
