import ArgumentSchemes.Proofs.TreeGrowth
import Mathlib.Data.List.Infix
import Mathlib.Data.List.Nodup

/-!
# Well-formed trees and trees without links

A tree is **well formed** when it is the tree of a file system: no location is listed twice, and
everything stands in a directory, under a name that an entry can have (`Tree.WellFormed`). So
everything above something is a directory (`Tree.WellFormed.get?_of_append`). Making directories and
putting files in the place of files keeps a tree well formed and free of links.

`Tree.Updates` says that files are new at given locations and nothing but directories elsewhere.
-/

namespace ArgumentSchemes.Files

namespace Tree

/-! ### Well-formed trees -/

/-- No location is listed twice, and everything stands in a directory. -/
structure WellFormed (t : Tree) : Prop where
  nodup : (t.nodes.map (·.1)).Nodup
  parent : ∀ e ∈ t.nodes, ∃ l n, e.1 = l ++ [n] ∧ IsName n ∧ t.get? l = some .directory

instance (t : Tree) : Decidable t.WellFormed :=
  decidable_of_iff ((t.nodes.map (·.1)).Nodup ∧ ∀ e ∈ t.nodes, ∃ n ∈ e.1.getLast?, IsName n ∧
      t.get? e.1.dropLast = some .directory)
    ⟨fun ⟨hnodup, hparent⟩ => ⟨hnodup, fun e he =>
        let ⟨n, hn, hname, hdir⟩ := hparent e he
        ⟨e.1.dropLast, n, (List.dropLast_append_getLast? n hn).symm, hname, hdir⟩⟩,
      fun h => ⟨h.nodup, fun e he =>
        let ⟨l, n, heq, hname, hdir⟩ := h.parent e he
        ⟨n, by simp [heq], hname, by simp [heq, hdir]⟩⟩⟩

/-- No symbolic link stands anywhere. -/
def LinkFree (t : Tree) : Prop := ∀ l target, t.get? l ≠ some (.link target)

theorem mem_nodes_of_get? {t : Tree} {l : Location} {node : Node} (hl : l ≠ [])
    (h : t.get? l = some node) : (l, node) ∈ t.nodes := by
  rw [get?, if_neg hl] at h
  obtain ⟨e, he, rfl⟩ := Option.map_eq_some_iff.mp h
  obtain rfl : e.1 = l := by simpa using List.find?_some he
  exact List.mem_of_find?_eq_some he

theorem linkFree_of_nodes {t : Tree} (h : ∀ e ∈ t.nodes, ∀ target, e.2 ≠ .link target) :
    t.LinkFree := by
  intro l target hl
  by_cases hroot : l = []
  · subst hroot
    cases hl
  · exact h _ (mem_nodes_of_get? hroot hl) target rfl

namespace WellFormed

variable {t : Tree}

theorem get?_eq_some_iff (ht : t.WellFormed) {l : Location} (hl : l ≠ []) {node : Node} :
    t.get? l = some node ↔ (l, node) ∈ t.nodes := by
  refine ⟨mem_nodes_of_get? hl, fun hmem => ?_⟩
  rw [get?, if_neg hl]
  rcases hfind : t.nodes.find? (·.1 == l) with _ | e
  · simpa using List.find?_eq_none.mp hfind _ hmem
  · have he : e.1 = l := by simpa using List.find?_some hfind
    obtain rfl : e = (l, node) :=
      List.inj_on_of_nodup_map ht.nodup (List.mem_of_find?_eq_some hfind) hmem he
    rw [hfind]
    rfl

/-- What stands below the root has a name and stands in a directory. -/
theorem get?_concat (ht : t.WellFormed) {l : Location} {n : String}
    (h : (t.get? (l ++ [n])).isSome = true) : t.get? l = some .directory ∧ IsName n := by
  obtain ⟨node, hnode⟩ := Option.isSome_iff_exists.mp h
  obtain ⟨l', n', heq, hname, hdir⟩ := ht.parent _ (mem_nodes_of_get? (by simp) hnode)
  obtain ⟨rfl, hn⟩ := List.append_inj' heq rfl
  obtain rfl : n = n' := by simpa using hn
  exact ⟨hdir, hname⟩

/-- Everything above something is a directory. -/
theorem get?_of_append (ht : t.WellFormed) {l : Location} {names : List String}
    (hnames : names ≠ []) (h : (t.get? (l ++ names)).isSome = true) :
    t.get? l = some .directory := by
  induction names using List.reverseRecOn with
  | nil => exact absurd rfl hnames
  | append_singleton names n ih =>
    rw [← List.append_assoc] at h
    have hdir := (ht.get?_concat h).1
    rcases names with _ | ⟨m, names⟩
    · rwa [List.append_nil] at hdir
    · exact ih (by simp) (Option.isSome_of_eq_some hdir)

/-- What is above a directory is a directory, and so is the directory itself. -/
theorem get?_of_prefix (ht : t.WellFormed) {l m : Location} (h : l <+: m)
    (hm : t.get? m = some .directory) : t.get? l = some .directory := by
  obtain ⟨names, rfl⟩ := h
  by_cases hnames : names = []
  · simpa [hnames] using hm
  · exact ht.get?_of_append hnames (Option.isSome_of_eq_some hm)

theorem isName_of_mem (ht : t.WellFormed) {l : Location} (h : (t.get? l).isSome = true) :
    ∀ n ∈ l, IsName n := by
  induction l using List.reverseRecOn with
  | nil => simp
  | append_singleton l n ih =>
    obtain ⟨hdir, hn⟩ := ht.get?_concat h
    intro m hm
    rcases List.mem_append.mp hm with hm | hm
    · exact ih (Option.isSome_of_eq_some hdir) m hm
    · obtain rfl : m = n := by simpa using hm
      exact hn

theorem isName_of_append (ht : t.WellFormed) {l : Location} {names : List String}
    (h : (t.get? (l ++ names)).isSome = true) : ∀ n ∈ names, IsName n :=
  fun n hn => ht.isName_of_mem h n (List.mem_append_right l hn)

/-- A tree stays well formed when something is put into a directory, unless it takes the place of a
directory and is none. -/
theorem set (ht : t.WellFormed) {l : Location} {n : String} {node : Node}
    (hdir : t.get? l = some .directory) (hn : IsName n)
    (hnode : t.get? (l ++ [n]) = some .directory → node = .directory) :
    (t.set (l ++ [n]) node).WellFormed where
  nodup := by
    have hrest : ((t.nodes.filter (·.1 != l ++ [n])).map (·.1)).Nodup :=
      ht.nodup.sublist (List.filter_sublist.map _)
    refine List.nodup_cons.mpr ⟨?_, hrest⟩
    simp
  parent := by
    have hstays : ∀ m, t.get? m = some .directory →
        (t.set (l ++ [n]) node).get? m = some .directory := by
      intro m hm
      by_cases heq : m = l ++ [n]
      · subst heq
        rw [t.get?_set_self (by simp), hnode hm]
      · rw [t.get?_set_of_ne heq, hm]
    intro e he
    rcases List.mem_cons.mp he with rfl | he
    · exact ⟨l, n, rfl, hn, hstays l hdir⟩
    · obtain ⟨l', n', heq, hn', hdir'⟩ := ht.parent e (List.mem_filter.mp he).1
      exact ⟨l', n', heq, hn', hstays l' hdir'⟩

theorem of_gains {t' : Tree} (ht : t.WellFormed) (h : t.Gains t') : t'.WellFormed := by
  induction h with
  | refl => exact ht
  | make _ hdir hname hfree ih => exact ih.set hdir hname fun _ => rfl

end WellFormed

theorem LinkFree.set {t : Tree} (ht : t.LinkFree) {l : Location} (hl : l ≠ []) {node : Node}
    (hnode : ∀ target, node ≠ .link target) : (t.set l node).LinkFree := by
  intro m target hm
  by_cases heq : m = l
  · subst heq
    rw [t.get?_set_self hl] at hm
    exact hnode target (Option.some.inj hm)
  · rw [t.get?_set_of_ne heq] at hm
    exact ht m target hm

theorem LinkFree.of_grows {t t' : Tree} (ht : t.LinkFree) (h : t.Grows t') : t'.LinkFree :=
  fun l target hl => ht l target (h.get?_eq_some_of_ne hl (by simp))

/-! ### New files -/

/-- In the second tree files stand at the given locations, where no directories stood in the first.
Elsewhere nothing but directories is new. -/
structure Updates (t t' : Tree) (locations : List Location) : Prop where
  file : ∀ l ∈ locations, ∃ content, t'.get? l = some (.file content)
  old : ∀ l ∈ locations, t.get? l ≠ some .directory
  elsewhere : ∀ l, l ∉ locations → t.GrowsAt t' l

/-- Once directories are made, a file is put where no directory stands. -/
theorem Grows.updates_set {t t' : Tree} (h : t.Grows t') {l : Location} (hl : l ≠ [])
    (hfree : t'.get? l ≠ some .directory) (content : List UInt8) :
    t.Updates (t'.set l (.file content)) [l] where
  file := by simpa using ⟨content, t'.get?_set_self hl (.file content)⟩
  old := by simpa using fun hdir => hfree (h.get?_eq_some hdir)
  elsewhere := by
    intro m hm
    rw [GrowsAt, t'.get?_set_of_ne (by simpa using hm)]
    exact h m

namespace Updates

variable {t t' t'' : Tree} {locations others : List Location}

theorem get?_eq_some_directory (h : t.Updates t' locations) {l : Location}
    (hl : t.get? l = some .directory) : t'.get? l = some .directory := by
  by_cases hmem : l ∈ locations
  · exact absurd hl (h.old l hmem)
  · rcases h.elsewhere l hmem with heq | ⟨hnone, -⟩
    · rw [heq, hl]
    · rw [hl] at hnone
      cases hnone

theorem isSome_get? (h : t.Updates t' locations) {l : Location} (hl : (t.get? l).isSome = true) :
    (t'.get? l).isSome = true := by
  by_cases hmem : l ∈ locations
  · obtain ⟨content, hcontent⟩ := h.file l hmem
    rw [hcontent]
    rfl
  · rcases h.elsewhere l hmem with heq | ⟨hnone, -⟩
    · rwa [heq]
    · rw [hnone] at hl
      cases hl

/-- Elsewhere the files are the same. -/
theorem get?_eq_some_file_iff (h : t.Updates t' locations) {l : Location} (hl : l ∉ locations)
    {content : List UInt8} :
    t'.get? l = some (.file content) ↔ t.get? l = some (.file content) := by
  rcases h.elsewhere l hl with heq | ⟨hnone, hdir⟩
  · rw [heq]
  · simp [hnone, hdir]

theorem trans (h : t.Updates t' locations) (h' : t'.Updates t'' others) :
    t.Updates t'' (locations ++ others) where
  file := by
    intro l hl
    by_cases hmem : l ∈ others
    · exact h'.file l hmem
    · obtain ⟨content, hcontent⟩ := h.file l ((List.mem_append.mp hl).resolve_right hmem)
      exact ⟨content, (h'.get?_eq_some_file_iff hmem).mpr hcontent⟩
  old := by
    intro l hl hdir
    rcases List.mem_append.mp hl with hmem | hmem
    · exact h.old l hmem hdir
    · exact h'.old l hmem (h.get?_eq_some_directory hdir)
  elsewhere := by
    intro l hl
    rw [List.mem_append, not_or] at hl
    exact (h.elsewhere l hl.1).trans (h'.elsewhere l hl.2)

end Updates

end Tree

end ArgumentSchemes.Files
