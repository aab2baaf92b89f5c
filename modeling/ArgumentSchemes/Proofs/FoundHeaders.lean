import ArgumentSchemes.Proofs.Discovery
import ArgumentSchemes.Proofs.LinkedPaths

/-!
# Which headers are found among links

Below a root there may be links, and the root itself may be one. A walk enters real directories
only, so that what it meets is told by the names that lead down from the root, and different names
make different paths. Hence the paths that are met can be sorted in one way only
(`Site.mergeSort_eq_of_perm`), and it does not matter in which order a directory lists its entries
(`Site.discover_of_perm`).

Main statement: the headers below a root are found exactly, each once and in the order of paths
(`Site.headers_found_in_order`).
-/

namespace ArgumentSchemes.Files

/-! ### Trees that list in another order -/

theorem Tree.get?_of_perm {t t' : Tree} (ht : t.WellFormed) (h : t'.nodes.Perm t.nodes)
    (l : Location) : t'.get? l = t.get? l := by
  by_cases hl : l = []
  · subst hl
    rfl
  have hfound : ∀ node, t'.get? l = some node → t.get? l = some node := fun node hnode =>
    (ht.get?_eq_some_iff hl).mpr (h.mem_iff.mp (mem_nodes_of_get? hl hnode))
  rcases hnode : t'.get? l with _ | node
  · rcases hnode' : t.get? l with _ | node'
    · rfl
    · -- what is listed is found, whatever stands in front of it in the list
      rw [get?, if_neg hl, Option.map_eq_none_iff, List.find?_eq_none] at hnode
      exact absurd (by simp) (hnode _ (h.mem_iff.mpr (mem_nodes_of_get? hl hnode')))
  · exact (hfound node hnode).symm

namespace Site

variable {s : Site} {root : Path} {l : Location}

theorem resolve_of_grows {t : Tree} (h : s.tree.Grows t) {p : Path} (hl : s.resolve p = .ok l) :
    (s.withTree t).resolve p = .ok l := by
  rw [resolve] at hl ⊢
  split at hl
  · cases hl
  · exact followSteps_of_grows h hl

/-- Paths are resolved by what stands where, and by nothing else of a tree. -/
theorem normalize_withTree {t : Tree} (h : ∀ l, t.get? l = s.tree.get? l) (p : Path) :
    (s.withTree t).normalize p = s.normalize p := by
  have hresolve : ∀ l, (s.withTree t).resolve p = .ok l ↔ s.resolve p = .ok l := fun l =>
    ⟨resolve_of_grows (s := s.withTree t) (t := s.tree) fun l => .inl (h l).symm,
      resolve_of_grows fun l => .inl (h l)⟩
  have hget : ∀ l, (s.withTree t).tree.get? l = s.tree.get? l := h
  rw [normalize, normalize]
  split
  · next l hl => simp only [(hresolve l).mp hl, hget]
  · next fault hfault =>
    split
    · next l hl =>
      rw [(hresolve l).mpr hl] at hfault
      cases hfault
    · rfl

/-- Two paths that are resolved are the same exactly when they lead to the same place. -/
theorem components_normalize_eq_iff (ht : s.tree.WellFormed) {p q : Path} {m m' : Location}
    (hp : s.resolve p = .ok m) (hq : s.resolve q = .ok m') :
    (s.normalize p).components = (s.normalize q).components ↔ m = m' := by
  have hm := isSome_of_resolve ht hp
  have hm' := isSome_of_resolve ht hq
  rw [normalize_of_resolve hp hm, normalize_of_resolve hq hm',
    Location.components_path (ht.isName_of_mem hm), Location.components_path (ht.isName_of_mem hm'),
    List.cons_inj_right]
  exact (List.map_injective_iff.mpr fun _ _ => Component.name.inj).eq_iff

/-! ### Paths that are met -/

/-- What stands on a walk is met under one path only, whatever of it is looked for. -/
theorem eq_of_components_of_met (ht : s.tree.WellFormed) (hroot : root.senseless? = none)
    {find? : Path × Node → Option Path} (hfind : ∀ e p, find? e = some p → p = e.1)
    {p q : Path} (hp : p ∈ (s.entriesBelow l root).filterMap find?)
    (hq : q ∈ (s.entriesBelow l root).filterMap find?) (h : p.components = q.components) :
    p = q := by
  have hmet : ∀ {p}, p ∈ (s.entriesBelow l root).filterMap find? →
      ∃ names : List String, (∀ n ∈ names, IsName n) ∧ p = names.foldl Path.entry root := by
    intro p hp
    obtain ⟨e, he, hfound⟩ := List.mem_filterMap.mp hp
    obtain ⟨⟨names, node⟩, hbelow, rfl⟩ := List.mem_map.mp he
    have hnode := (ht.mem_below_iff.mp hbelow).2
    exact ⟨names, ht.isName_of_append (Option.isSome_of_eq_some hnode), hfind _ _ hfound⟩
  obtain ⟨names, hnames, rfl⟩ := hmet hp
  obtain ⟨names', hnames', rfl⟩ := hmet hq
  rw [Path.eq_of_components_foldl_entry hroot hnames hnames' h]

/-- Paths can be sorted in one way only, unless different ones have the same components. -/
theorem mergeSort_eq_of_perm {ps qs : List Path} (h : ps.Perm qs)
    (hinj : ∀ p ∈ ps, ∀ q ∈ ps, p.components = q.components → p = q) :
    ps.mergeSort pathLe = qs.mergeSort pathLe := by
  have hsorted : ∀ ps : List Path, (ps.mergeSort pathLe).Pairwise fun p q => pathLe p q = true :=
    fun ps => List.pairwise_mergeSort pathLe_trans pathLe_total ps
  have hperm : (ps.mergeSort pathLe).Perm (qs.mergeSort pathLe) :=
    (List.mergeSort_perm _ _).trans (h.trans (List.mergeSort_perm _ _).symm)
  refine hperm.eq_of_pairwise (fun p q hp hq hpq hqp => ?_) (hsorted ps) (hsorted qs)
  exact hinj p (List.mem_mergeSort.mp hp) q (h.mem_iff.mpr (List.mem_mergeSort.mp hq))
    (components_eq_of_pathLe hpq hqp)

theorem senseless?_of_lookup {node : Node} (hroot : s.lookup root = .ok (l, node)) :
    root.senseless? = none :=
  (Path.refusal?_eq_none_iff.mp (follow_eq_ok_iff_leads.mp (lookup_eq_ok_iff.mp hroot).1).1).1

/-- The walk of a root that leads to a directory, be it by a link at its end. -/
theorem walk_of_directory (hroot : s.lookup root = .ok (l, .directory)) :
    s.walk root = s.filesBelow l root := by
  obtain ⟨hfollow, hdir⟩ := lookup_eq_ok_iff.mp hroot
  obtain ⟨hrefusal, _, hleads⟩ := follow_eq_ok_iff_leads.mp hfollow
  obtain ⟨j, m, hends, hend⟩ := hleads.ends_or_stops
  have hfollow' : s.follow root false = .ok m := follow_eq_ok_iff_leads.mpr ⟨hrefusal, j, hends⟩
  rcases hend with rfl | ⟨target, hlink⟩
  · simp only [walk, hfollow', hdir]
  · simp only [walk, hfollow', hlink, hroot]

/-- The directories that cannot be listed are the same, and so are the files up to their order. -/
theorem filesBelow_of_perm {t : Tree} (ht : s.tree.WellFormed)
    (hperm : t.nodes.Perm s.tree.nodes) (hroot : root.senseless? = none) :
    (∃ fault, (s.withTree t).filesBelow l root = .error fault ∧
      s.filesBelow l root = .error fault) ∨
    ∃ files files', (s.withTree t).filesBelow l root = .ok files' ∧
      s.filesBelow l root = .ok files ∧ files.Perm files' ∧
      ∀ p ∈ files, ∀ q ∈ files, p.components = q.components → p = q := by
  have hentries : ((s.withTree t).entriesBelow l root).Perm (s.entriesBelow l root) :=
    (hperm.filterMap _).map _
  have hunlistable : s.unlistable l root = (s.withTree t).unlistable l root := by
    refine mergeSort_eq_of_perm (hentries.symm.filterMap _) fun p hp q hq =>
      eq_of_components_of_met ht hroot (fun e p hfound => ?_) hp hq
    split at hfound
    · split at hfound <;> simp_all
    · cases hfound
  rw [filesBelow, filesBelow, ← hunlistable]
  rcases s.unlistable l root with _ | ⟨place, places⟩
  · refine .inr ⟨_, _, rfl, rfl, hentries.symm.filterMap _, fun p hp q hq =>
      eq_of_components_of_met ht hroot (fun e p hfound => ?_) hp hq⟩
    split at hfound <;> simp_all
  · exact .inl ⟨_, rfl, rfl⟩

/-- **The order in which entries are listed** does not matter. -/
theorem discover_of_perm {t : Tree} (ht : s.tree.WellFormed) (hperm : t.nodes.Perm s.tree.nodes)
    (hroot : s.lookup root = .ok (l, .directory)) (pattern : String) (exclude : List Path) :
    (s.withTree t).discover root pattern exclude = s.discover root pattern exclude := by
  have hget := Tree.get?_of_perm ht hperm
  have hroot' : (s.withTree t).lookup root = .ok (l, .directory) :=
    lookup_of_grows (fun l => .inl (hget l)) hroot
  have hsense := senseless?_of_lookup hroot
  have hnormalize : (s.withTree t).normalize = s.normalize := funext (normalize_withTree hget)
  rw [discover, discover]
  rcases Pattern.parse pattern with error | compiled
  · rfl
  simp only [walk_of_directory hroot, walk_of_directory hroot', hnormalize]
  rcases filesBelow_of_perm (l := l) ht hperm hsense with
    ⟨fault, hfault', hfault⟩ | ⟨files, files', hfiles', hfiles, hsame, hinj⟩
  · rw [hfault, hfault']
  · have hcandidates : (files'.filter fun p => compiled.accepts (matchedName p)).mergeSort pathLe =
        (files.filter fun p => compiled.accepts (matchedName p)).mergeSort pathLe :=
      (mergeSort_eq_of_perm (hsame.filter _) fun p hp q hq =>
        hinj p (List.mem_of_mem_filter hp) q (List.mem_of_mem_filter hq)).symm
    simp only [hfiles, hfiles', hcandidates]

/-! ### The headers -/

variable {pattern : String} {exclude : List Path} {d : Discovery}

/-- The walk of a root that leads to a directory succeeds when every directory can be listed. -/
theorem exists_discover_of_listable (ht : s.tree.WellFormed)
    (hroot : s.lookup root = .ok (l, .directory)) {compiled : Pattern}
    (hpattern : Pattern.parse pattern = .ok compiled)
    (hlistable : ∀ names, names ≠ [] → s.tree.get? (l ++ names) = some .directory →
      (names.foldl Path.entry root).fits = true) :
    ∃ d, s.discover root pattern exclude = .ok d := by
  have hnil := (unlistable_eq_nil_iff ht).mpr hlistable
  obtain ⟨files, hfiles⟩ : ∃ files, s.walk root = .ok files :=
    ⟨_, by rw [walk_of_directory hroot, filesBelow, hnil]⟩
  exact exists_discover hpattern hfiles

/-- The walk fails at a directory that cannot be listed. -/
theorem discover_of_unlistable (ht : s.tree.WellFormed)
    (hroot : s.lookup root = .ok (l, .directory)) {compiled : Pattern}
    (hpattern : Pattern.parse pattern = .ok compiled) {names : List String} (hne : names ≠ [])
    (hdir : s.tree.get? (l ++ names) = some .directory)
    (hfits : (names.foldl Path.entry root).fits = false) :
    ∃ place, s.discover root pattern exclude = .error (.notWalked root place .nameTooLong) := by
  rcases hplaces : s.unlistable l root with _ | ⟨place, places⟩
  · have hlistable := (unlistable_eq_nil_iff ht).mp hplaces names hne hdir
    rw [hfits] at hlistable
    cases hlistable
  · refine ⟨place, ?_⟩
    simp only [discover, hpattern, walk_of_directory hroot, filesBelow, hplaces]

/-- The files of a walk from a directory, under different paths. -/
theorem exists_filesBelow_of_discover (ht : s.tree.WellFormed)
    (hroot : s.lookup root = .ok (l, .directory)) {compiled : Pattern}
    (hpattern : Pattern.parse pattern = .ok compiled)
    (h : s.discover root pattern exclude = .ok d) :
    ∃ files, s.filesBelow l root = .ok files ∧ files.Nodup ∧
      d.headers = ((files.filter fun p => compiled.accepts (matchedName p)).mergeSort pathLe).filter
        fun p => !(exclude.map s.normalize).any fun e => e.sameSteps (s.normalize p) := by
  obtain ⟨compiled', files, hcompiled, hfiles, hheaders⟩ := discover_eq_ok h
  obtain rfl := Except.ok.inj (hpattern.symm.trans hcompiled)
  rw [walk_of_directory hroot] at hfiles
  exact ⟨files, hfiles, nodup_filesBelow ht (senseless?_of_lookup hroot) hfiles, hheaders⟩

theorem matchedName_foldl_entry (hroot : root.senseless? = none) {above : List String} {n : String}
    (hnames : ∀ m ∈ above ++ [n], IsName m) :
    matchedName ((above ++ [n]).foldl Path.entry root) = n := by
  rw [matchedName, Path.fileName?, Path.components_foldl_entry hroot hnames]
  simp

/-- The headers are the files with a matching name, apart from those that are excluded. -/
theorem mem_headers_iff_of_directory (ht : s.tree.WellFormed)
    (hroot : s.lookup root = .ok (l, .directory)) {compiled : Pattern}
    (hpattern : Pattern.parse pattern = .ok compiled)
    (h : s.discover root pattern exclude = .ok d) {q : Path} :
    q ∈ d.headers ↔ ∃ above n content,
      s.tree.get? (l ++ above ++ [n]) = some (.file content) ∧
      q = (above ++ [n]).foldl Path.entry root ∧ compiled.accepts n = true ∧
      ∀ e ∈ exclude, (s.normalize e).components ≠ (s.normalize q).components := by
  obtain ⟨files, hfiles, -, hheaders⟩ := exists_filesBelow_of_discover ht hroot hpattern h
  have hsense := senseless?_of_lookup hroot
  have hkept : (!(exclude.map s.normalize).any fun e => e.sameSteps (s.normalize q)) = true ↔
      ∀ e ∈ exclude, (s.normalize e).components ≠ (s.normalize q).components := by
    simp [Path.sameSteps]
  have hname : ∀ {above n content}, s.tree.get? (l ++ (above ++ [n])) = some (.file content) →
      matchedName ((above ++ [n]).foldl Path.entry root) = n := fun hfile =>
    matchedName_foldl_entry hsense (ht.isName_of_append (Option.isSome_of_eq_some hfile))
  rw [hheaders, List.mem_filter, hkept, List.mem_mergeSort, List.mem_filter,
    mem_filesBelow_iff ht hfiles]
  simp only [List.append_assoc]
  constructor
  · rintro ⟨⟨⟨names, content, hne, hfile, rfl⟩, haccepts⟩, hexclude⟩
    obtain ⟨above, n, rfl⟩ : ∃ above n, names = above ++ [n] :=
      ⟨names.dropLast, names.getLast hne, (List.dropLast_append_getLast hne).symm⟩
    exact ⟨above, n, content, hfile, rfl, hname hfile ▸ haccepts, hexclude⟩
  · rintro ⟨above, n, content, hfile, rfl, haccepts, hexclude⟩
    exact ⟨⟨⟨above ++ [n], content, by simp, hfile, rfl⟩, (hname hfile).symm ▸ haccepts⟩, hexclude⟩

/-- The headers come in the order of paths, and none comes twice. -/
theorem pairwise_lt_headers (ht : s.tree.WellFormed) (hroot : s.lookup root = .ok (l, .directory))
    {compiled : Pattern} (hpattern : Pattern.parse pattern = .ok compiled)
    (h : s.discover root pattern exclude = .ok d) :
    d.headers.Pairwise fun p q => p.lt q = true := by
  obtain ⟨files, hfiles, hnodup, hheaders⟩ := exists_filesBelow_of_discover ht hroot hpattern h
  have hsense := senseless?_of_lookup hroot
  have hsub : ∀ p ∈ d.headers, p ∈ files := fun p hp => by
    rw [hheaders] at hp
    exact List.mem_of_mem_filter (List.mem_mergeSort.mp (List.mem_of_mem_filter hp))
  have hnodup' : d.headers.Nodup := by
    rw [hheaders]
    exact ((List.mergeSort_perm _ _).nodup_iff.mpr (hnodup.filter _)).filter _
  refine ((pairwise_headers h).and hnodup').imp_of_mem fun {p q} hp hq ⟨hle, hne⟩ => ?_
  refine lt_of_pathLe hle fun hcomponents => hne ?_
  obtain ⟨-, hmet⟩ := filesBelow_eq_ok hfiles
  have hp' := hsub p hp
  have hq' := hsub q hq
  rw [hmet] at hp' hq'
  refine eq_of_components_of_met ht hsense (fun e p hfound => ?_) hp' hq' hcomponents
  split at hfound <;> simp_all

/-- **The headers below a root** are found exactly, each once and in the order of paths: the files
that real directories lead down to and that have a matching name, apart from those which are the
same as an excluded path once both are resolved. It does not matter in which order directories list
their entries. Only a directory whose path is too long to be listed ends the walk. -/
theorem headers_found_in_order (s : Site) (ht : s.tree.WellFormed) {root : Path} {l : Location}
    (hroot : s.lookup root = .ok (l, .directory)) {pattern : String} {compiled : Pattern}
    (hpattern : Pattern.parse pattern = .ok compiled) (exclude : List Path) :
    (∀ t : Tree, t.nodes.Perm s.tree.nodes →
      (s.withTree t).discover root pattern exclude = s.discover root pattern exclude) ∧
    ((∀ names, names ≠ [] → s.tree.get? (l ++ names) = some .directory →
        (names.foldl Path.entry root).fits = true) →
      ∃ d, s.discover root pattern exclude = .ok d ∧
        d.headers.Pairwise (fun p q => p.lt q = true) ∧
        ∀ q, q ∈ d.headers ↔ ∃ above n content,
          (∀ names, names <+: above → s.tree.get? (l ++ names) = some .directory) ∧
          s.tree.get? (l ++ above ++ [n]) = some (.file content) ∧
          q = (above ++ [n]).foldl Path.entry root ∧ compiled.accepts n = true ∧
          ∀ e ∈ exclude, (s.normalize e).components ≠ (s.normalize q).components) ∧
    (∀ names, names ≠ [] → s.tree.get? (l ++ names) = some .directory →
      (names.foldl Path.entry root).fits = false →
      ∃ place, s.discover root pattern exclude = .error (.notWalked root place .nameTooLong)) ∧
    (∀ p q m m', s.resolve p = .ok m → s.resolve q = .ok m' →
      ((s.normalize p).components = (s.normalize q).components ↔ m = m')) ∧
    ∀ names content, s.tree.get? (l ++ names) = some (.file content) →
      (∀ m, s.resolve (names.foldl Path.entry root) = .ok m → m = l ++ names) ∧
      (s.resolve root = .ok l → (l ++ names : Location).path.fits = true →
        s.resolve (names.foldl Path.entry root) = .ok (l ++ names)) := by
  obtain ⟨hfollow, hdir⟩ := lookup_eq_ok_iff.mp hroot
  refine ⟨fun t hperm => discover_of_perm ht hperm hroot pattern exclude, fun hlistable => ?_,
    fun names hne => discover_of_unlistable ht hroot hpattern hne,
    fun p q m m' => components_normalize_eq_iff ht, fun names content hfile => ?_⟩
  · obtain ⟨d, hd⟩ := exists_discover_of_listable ht hroot hpattern hlistable
    refine ⟨d, hd, pairwise_lt_headers ht hroot hpattern hd, fun q => ?_⟩
    rw [mem_headers_iff_of_directory ht hroot hpattern hd]
    refine exists_congr fun above => exists_congr fun n => exists_congr fun content => ?_
    refine (and_iff_right_of_imp fun ⟨hfile, _⟩ names hprefix => ?_).symm
    -- what is above a file is a directory
    obtain ⟨others, rfl⟩ := hprefix
    have hfile' : (s.tree.get? (l ++ names ++ (others ++ [n]))).isSome = true := by
      simpa using Option.isSome_of_eq_some hfile
    exact ht.get?_of_append (by simp) hfile'
  · have hne : names ≠ [] := by
      rintro rfl
      rw [List.append_nil, hdir] at hfile
      cases hfile
    exact ⟨fun m => eq_of_resolve_foldl_entry ht hfollow hfile hne,
      fun hresolve => resolve_foldl_entry_of_file ht hresolve hfile hne⟩

/-- A root that is a link, with links to a file and to a directory below it. One header is excluded
by a path through such a link, and another excluded path leads nowhere. -/
theorem headers_found_in_order_linked :
    let s : Site :=
      { tree := ⟨[(["r"], .link "w"), (["w"], .directory), (["other"], .directory),
          (["other", "c.hpp"], .file []), (["w", "sub-x.hpp"], .file []),
          (["w", "z.hpp"], .file []), (["w", "a.hpp"], .file []), (["w", "l.hpp"], .link "a.hpp"),
          (["w", "ext"], .link "/other"), (["w", "sub"], .directory),
          (["w", "sub", "n.txt"], .file []), (["w", "sub", "b.hpp"], .file [])]⟩
        cwd := [] }
    let compiled : Pattern := ⟨.anyRun :: ['.', 'h', 'p', 'p'].map .char⟩
    let exclude : List Path := [⟨"w/ext/../w/./z.hpp"⟩, ⟨"gone/x.hpp"⟩]
    s.tree.WellFormed ∧ s.lookup ⟨"r"⟩ = .ok (["w"], .directory) ∧
      Pattern.parse "*.hpp" = .ok compiled ∧ s.unlistable ["w"] ⟨"r"⟩ = [] ∧
      ∃ d, (s.withTree ⟨s.tree.nodes.reverse⟩).discover ⟨"r"⟩ "*.hpp" exclude = .ok d ∧
        d.headers.Pairwise (fun p q => p.lt q = true) ∧
        d.headers = [⟨"r/a.hpp"⟩, ⟨"r/sub/b.hpp"⟩, ⟨"r/sub-x.hpp"⟩] := by
  intro s compiled exclude
  have ht : s.tree.WellFormed := by decide +kernel
  have hroot : s.lookup ⟨"r"⟩ = .ok (["w"], .directory) := by decide +kernel
  have hpattern : Pattern.parse "*.hpp" = .ok compiled := by decide +kernel
  have hlistable : s.unlistable ["w"] ⟨"r"⟩ = [] := by decide +kernel
  obtain ⟨hperm, hfound, -⟩ := headers_found_in_order s ht hroot hpattern exclude
  obtain ⟨d, hd, hsorted, -⟩ := hfound ((unlistable_eq_nil_iff ht).mp hlistable)
  refine ⟨ht, hroot, hpattern, hlistable, d, (hperm _ (List.reverse_perm _)).trans hd, hsorted, ?_⟩
  let files : List Path :=
    [⟨"r/sub-x.hpp"⟩, ⟨"r/z.hpp"⟩, ⟨"r/a.hpp"⟩, ⟨"r/sub/n.txt"⟩, ⟨"r/sub/b.hpp"⟩]
  let candidates : List Path :=
    [⟨"r/a.hpp"⟩, ⟨"r/sub/b.hpp"⟩, ⟨"r/sub-x.hpp"⟩, ⟨"r/z.hpp"⟩]
  have hfiles : s.filesBelow ["w"] ⟨"r"⟩ = .ok files := by decide +kernel
  have hcandidatesPerm :
      (files.filter fun p => compiled.accepts (matchedName p)).Perm candidates := by
    decide +kernel
  have hcandidates :
      (files.filter fun p => compiled.accepts (matchedName p)).mergeSort pathLe = candidates :=
    (mergeSort_eq_of_perm hcandidatesPerm (by decide +kernel)).trans
      (List.mergeSort_of_pairwise (by decide +kernel))
  obtain ⟨_, hfiles', -, hheaders⟩ := exists_filesBelow_of_discover ht hroot hpattern hd
  obtain rfl := Except.ok.inj (hfiles.symm.trans hfiles')
  rw [hheaders, hcandidates]
  decide +kernel

end Site

end ArgumentSchemes.Files
