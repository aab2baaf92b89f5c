import ArgumentSchemes.Proofs.Following
import ArgumentSchemes.Proofs.PathOrder
import Mathlib.Data.List.Sort

/-!
# Which headers are found

In a well-formed tree without links, a walk meets every file at or below its root once, under the
path that names it from the root (`Site.mem_walk_iff`, `Site.nodup_walk`). A header is left out
exactly when it stands where an excluded path leads (`Site.sameSteps_normalize_iff`), provided that
this place and the root can be resolved.

Main statement: when files are new only where the excluded paths lead, and else only directories,
the same headers are found as before (`Site.exists_discover_of_updates`).
-/

namespace ArgumentSchemes.Files

theorem Tree.WellFormed.mem_below_iff {t : Tree} (ht : t.WellFormed) {l : Location}
    {names : List String} {node : Node} :
    (names, node) ∈ t.below l ↔ names ≠ [] ∧ t.get? (l ++ names) = some node := by
  rw [Tree.below, List.mem_filterMap]
  constructor
  · rintro ⟨⟨m, node'⟩, hmem, hbelow⟩
    split at hbelow
    · next hprefix =>
      obtain ⟨rfl, rfl⟩ := Prod.mk.inj (Option.some.inj hbelow)
      obtain ⟨names, rfl⟩ := List.isPrefixOf_iff_prefix.mp hprefix.1
      have hne : names ≠ [] := by
        rintro rfl
        exact hprefix.2 (List.append_nil l)
      rw [List.drop_left]
      exact ⟨hne, (ht.get?_eq_some_iff (by simp [hne])).mpr hmem⟩
    · cases hbelow
  · rintro ⟨hne, hnode⟩
    refine ⟨(l ++ names, node), Tree.mem_nodes_of_get? (by simp [hne]) hnode, ?_⟩
    rw [if_pos ⟨List.isPrefixOf_iff_prefix.mpr (List.prefix_append l names), by simp [hne]⟩]
    simp

namespace Site

variable {s : Site} {root : Path} {l : Location} {files : List Path}

/-! ### The walk -/

/-- The directories below a location can all be listed when none of their paths is too long. -/
theorem unlistable_eq_nil_iff (ht : s.tree.WellFormed) :
    s.unlistable l root = [] ↔ ∀ names, names ≠ [] →
      s.tree.get? (l ++ names) = some .directory → (names.foldl Path.entry root).fits = true := by
  rw [unlistable, ← List.length_eq_zero_iff, List.length_mergeSort, List.length_eq_zero_iff,
    List.filterMap_eq_nil_iff]
  constructor
  · intro h names hne hdir
    have hentry : (names.foldl Path.entry root, Node.directory) ∈ s.entriesBelow l root :=
      List.mem_map.mpr ⟨(names, .directory), ht.mem_below_iff.mpr ⟨hne, hdir⟩, rfl⟩
    simpa using h _ hentry
  · rintro h ⟨q, node⟩ hentry
    obtain ⟨⟨names, node'⟩, hbelow, heq⟩ := List.mem_map.mp hentry
    obtain ⟨rfl, rfl⟩ := Prod.mk.inj heq
    obtain ⟨hne, hnode⟩ := ht.mem_below_iff.mp hbelow
    cases node' with
    | directory => simp [h names hne hnode]
    | file content => rfl
    | link target => rfl

theorem filesBelow_eq_ok (h : s.filesBelow l root = .ok files) :
    s.unlistable l root = [] ∧ files = (s.entriesBelow l root).filterMap fun
      | (p, .file _) => some p
      | _ => none := by
  rw [filesBelow] at h
  split at h
  · cases h
  · next hnil => exact ⟨hnil, (Except.ok.inj h).symm⟩

theorem mem_filesBelow_iff (ht : s.tree.WellFormed) (h : s.filesBelow l root = .ok files)
    {q : Path} : q ∈ files ↔ ∃ names content, names ≠ [] ∧
      s.tree.get? (l ++ names) = some (.file content) ∧ q = names.foldl Path.entry root := by
  obtain ⟨-, rfl⟩ := filesBelow_eq_ok h
  rw [List.mem_filterMap]
  constructor
  · rintro ⟨⟨p, node⟩, hentry, hfile⟩
    obtain ⟨⟨names, node'⟩, hbelow, heq⟩ := List.mem_map.mp hentry
    obtain ⟨rfl, rfl⟩ := Prod.mk.inj heq
    obtain ⟨hne, hnode⟩ := ht.mem_below_iff.mp hbelow
    cases node' with
    | file content =>
      obtain rfl := Option.some.inj hfile
      exact ⟨names, content, hne, hnode, rfl⟩
    | directory => cases hfile
    | link target => cases hfile
  · rintro ⟨names, content, hne, hfile, rfl⟩
    have hbelow : (names, Node.file content) ∈ s.tree.below l := ht.mem_below_iff.mpr ⟨hne, hfile⟩
    exact ⟨_, List.mem_map.mpr ⟨_, hbelow, rfl⟩, rfl⟩

theorem nodup_filesBelow (ht : s.tree.WellFormed) (hroot : root.senseless? = none)
    (h : s.filesBelow l root = .ok files) : files.Nodup := by
  obtain ⟨-, rfl⟩ := filesBelow_eq_ok h
  have hnames : ∀ e ∈ s.tree.nodes, ∀ n ∈ e.1.drop l.length, IsName n := by
    intro e he n hn
    obtain ⟨m, n', heq, -⟩ := ht.parent e he
    have hnode : s.tree.get? e.1 = some e.2 := (ht.get?_eq_some_iff (by simp [heq])).mpr he
    exact ht.isName_of_mem (Option.isSome_of_eq_some hnode) n (List.mem_of_mem_drop hn)
  have hnodes : s.tree.nodes.Pairwise fun e e' => e.1 ≠ e'.1 := List.pairwise_map.mp ht.nodup
  rw [List.Nodup, List.pairwise_filterMap, entriesBelow, List.pairwise_map, Tree.below,
    List.pairwise_filterMap]
  -- the path of a listed file tells where it is listed
  have hlisted : ∀ e ∈ s.tree.nodes, ∀ below, (if l.isPrefixOf e.1 ∧ e.1 ≠ l then
      some (e.1.drop l.length, e.2) else none) = some below → ∀ q, (match
      (below.1.foldl Path.entry root, below.2) with
      | (p, .file _) => some p
      | _ => none) = some q →
      e.1 = l ++ e.1.drop l.length ∧ q = (e.1.drop l.length).foldl Path.entry root := by
    intro e he below hbelow q hq
    split at hbelow
    · next hprefix =>
      obtain rfl := Option.some.inj hbelow
      obtain ⟨names, hnames⟩ := List.isPrefixOf_iff_prefix.mp hprefix.1
      refine ⟨by rw [← hnames, List.drop_left], ?_⟩
      split at hq
      · next heq =>
        obtain rfl := Option.some.inj hq
        exact (Prod.mk.inj heq).1.symm
      · cases hq
    · cases hbelow
  refine hnodes.imp_of_mem fun {e e'} he he' hne below hbelow below' hbelow' q hq q' hq' heq => ?_
  obtain ⟨hplace, rfl⟩ := hlisted e he below hbelow q hq
  obtain ⟨hplace', rfl⟩ := hlisted e' he' below' hbelow' q' hq'
  refine hne ?_
  rw [hplace, hplace', Path.eq_of_components_foldl_entry hroot (hnames e he) (hnames e' he')
    (congrArg Path.components heq)]

/-- A walk starts from a place that is there. -/
theorem exists_of_walk (hs : s.tree.LinkFree) (h : s.walk root = .ok files) :
    s.follow root false = .ok (s.spelled root) ∧
      (s.tree.get? (s.spelled root)).isSome = true := by
  rw [walk] at h
  split at h
  · cases h
  · next l hl =>
    obtain ⟨-, -, rfl⟩ := (follow_eq_ok_iff hs).mp hl
    refine ⟨hl, ?_⟩
    split at h
    · cases h
    all_goals
      next hnode =>
        rw [hnode]
        rfl

/-- A walk succeeds when its root is there and no directory has too long a path. -/
theorem exists_walk (ht : s.tree.WellFormed) (hs : s.tree.LinkFree)
    (hroot : s.follow root false = .ok (s.spelled root))
    (hsome : (s.tree.get? (s.spelled root)).isSome = true)
    (hwalked : ∀ names, s.tree.get? (s.spelled root ++ names) = some .directory →
      (names.foldl Path.entry root).fits = true) : ∃ files, s.walk root = .ok files := by
  obtain ⟨node, hnode⟩ := Option.isSome_iff_exists.mp hsome
  simp only [walk, hroot, hnode]
  cases node with
  | file content => exact ⟨_, rfl⟩
  | link target => exact absurd hnode (hs _ _)
  | directory =>
    have hlistable := (unlistable_eq_nil_iff ht).mpr fun names _ => hwalked names
    exact ⟨_, by rw [filesBelow, hlistable]⟩

/-- A walk that succeeds listed every directory, so none of them has too long a path. -/
theorem fits_of_walk (ht : s.tree.WellFormed) (hs : s.tree.LinkFree)
    (h : s.walk root = .ok files) {names : List String}
    (hdir : s.tree.get? (s.spelled root ++ names) = some .directory) :
    (names.foldl Path.entry root).fits = true := by
  obtain ⟨hroot, hsome⟩ := exists_of_walk hs h
  by_cases hne : names = []
  · subst hne
    exact (Path.refusal?_eq_none_iff.mp ((follow_eq_ok_iff hs).mp hroot).1).2
  have hrootDir : s.tree.get? (s.spelled root) = some .directory :=
    ht.get?_of_append hne (Option.isSome_of_eq_some hdir)
  simp only [walk, hroot, hrootDir] at h
  exact (unlistable_eq_nil_iff ht).mp (filesBelow_eq_ok h).1 names hne hdir

/-- A walk meets the files at or below its root, each under the path that names it from there. -/
theorem mem_walk_iff (ht : s.tree.WellFormed) (hs : s.tree.LinkFree)
    (h : s.walk root = .ok files) {q : Path} :
    q ∈ files ↔ ∃ names content,
      s.tree.get? (s.spelled root ++ names) = some (.file content) ∧
        q = names.foldl Path.entry root := by
  obtain ⟨hroot, hsome⟩ := exists_of_walk hs h
  obtain ⟨node, hnode⟩ := Option.isSome_iff_exists.mp hsome
  simp only [walk, hroot, hnode] at h
  cases node with
  | file content =>
    obtain rfl := Except.ok.inj h
    rw [List.mem_singleton]
    constructor
    · rintro rfl
      exact ⟨[], content, by rwa [List.append_nil], rfl⟩
    · rintro ⟨names, content', hfile, rfl⟩
      -- nothing stands below a file
      by_cases hne : names = []
      · rw [hne]
        rfl
      · have hdir := ht.get?_of_append hne (Option.isSome_of_eq_some hfile)
        rw [hnode] at hdir
        cases hdir
  | link target => exact absurd hnode (hs _ _)
  | directory =>
    rw [mem_filesBelow_iff ht h]
    constructor
    · rintro ⟨names, content, -, hfile, hq⟩
      exact ⟨names, content, hfile, hq⟩
    · rintro ⟨names, content, hfile, hq⟩
      refine ⟨names, content, ?_, hfile, hq⟩
      rintro rfl
      rw [List.append_nil, hnode] at hfile
      cases hfile

theorem nodup_walk (ht : s.tree.WellFormed) (hs : s.tree.LinkFree)
    (h : s.walk root = .ok files) : files.Nodup := by
  obtain ⟨hroot, hsome⟩ := exists_of_walk hs h
  have hsense := (Path.refusal?_eq_none_iff.mp ((follow_eq_ok_iff hs).mp hroot).1).1
  obtain ⟨node, hnode⟩ := Option.isSome_iff_exists.mp hsome
  simp only [walk, hroot, hnode] at h
  cases node with
  | file content =>
    obtain rfl := Except.ok.inj h
    exact List.nodup_singleton root
  | link target => exact absurd hnode (hs _ _)
  | directory => exact nodup_filesBelow ht hsense h

/-! ### Excluded paths -/

/-- A path that leads to the place it spells whenever something is there: it goes down only, ends in
a name, and neither its text nor the path of the place is too long. -/
structure Direct (s : Site) (p : Path) : Prop where
  refusal : p.refusal? = none
  up_not_mem : .up ∉ p.components
  endsInName : p.EndsInName
  fits : (s.spelled p).path.fits = true

/-- Something that is there is the same as an excluded path exactly when that leads to it. -/
theorem sameSteps_normalize_iff (ht : s.tree.WellFormed) (hs : s.tree.LinkFree) {e : Path}
    (he : s.Direct e) (hl : s.resolve root = .ok l) {names : List String}
    (hsome : (s.tree.get? (s.spelled root ++ names)).isSome = true) :
    (s.normalize e).sameSteps (s.normalize (names.foldl Path.entry root)) = true ↔
      s.spelled root ++ names = s.spelled e := by
  have hsense := ((resolve_eq_ok_iff hs).mp hl).1
  have hnames := ht.isName_of_append hsome
  rw [Path.sameSteps, beq_iff_eq]
  constructor
  · intro hsame
    have hspelled : s.spelled (s.normalize e) =
        s.spelled (s.normalize (names.foldl Path.entry root)) := by
      rw [spelled, hsame, spelled]
    rw [spelled_normalize ht hs, spelled_normalize ht hs, spelled_foldl_entry hsense hnames]
      at hspelled
    exact hspelled.symm
  · intro hplace
    have hfits : (s.spelled root ++ names : Location).path.fits = true := hplace ▸ he.fits
    have hresolve := resolve_foldl_entry ht hs hl hsome hfits
    have hresolve' := resolve_spelled ht hs (Path.refusal?_eq_none_iff.mp he.refusal).1
      he.up_not_mem he.endsInName (hplace ▸ hsome) he.fits
    rw [normalize_of_resolve hresolve hsome, normalize_of_resolve hresolve' (hplace ▸ hsome),
      hplace]

/-! ### The headers -/

variable {pattern : String} {exclude : List Path}

theorem discover_eq_ok {d : Discovery} (h : s.discover root pattern exclude = .ok d) :
    ∃ compiled files, Pattern.parse pattern = .ok compiled ∧ s.walk root = .ok files ∧
      d.headers = ((files.filter fun p => compiled.accepts (matchedName p)).mergeSort pathLe).filter
        fun p => !(exclude.map s.normalize).any fun e => e.sameSteps (s.normalize p) := by
  rw [discover] at h
  split at h
  · cases h
  · next compiled hcompiled =>
    split at h
    · cases h
    · next files hfiles =>
      obtain rfl := Except.ok.inj h
      exact ⟨compiled, files, hcompiled, hfiles, rfl⟩

theorem exists_discover {compiled : Pattern} (hcompiled : Pattern.parse pattern = .ok compiled)
    (hfiles : s.walk root = .ok files) : ∃ d, s.discover root pattern exclude = .ok d := by
  rw [discover]
  simp only [hcompiled, hfiles]
  exact ⟨_, rfl⟩

/-- The headers are the files with a matching name, apart from those where excluded paths lead. -/
theorem mem_headers_iff (ht : s.tree.WellFormed) (hs : s.tree.LinkFree)
    (hexclude : ∀ e ∈ exclude, s.Direct e) (hl : s.resolve root = .ok l) {compiled : Pattern}
    (hcompiled : Pattern.parse pattern = .ok compiled) {d : Discovery}
    (h : s.discover root pattern exclude = .ok d) {q : Path} :
    q ∈ d.headers ↔ ∃ names, (∃ content,
        s.tree.get? (s.spelled root ++ names) = some (.file content)) ∧
      s.spelled root ++ names ∉ exclude.map s.spelled ∧ q = names.foldl Path.entry root ∧
      compiled.accepts (matchedName q) = true := by
  obtain ⟨compiled', files, hcompiled', hfiles, hheaders⟩ := discover_eq_ok h
  obtain rfl := Except.ok.inj (hcompiled.symm.trans hcompiled')
  have hexcluded : ∀ names, (s.tree.get? (s.spelled root ++ names)).isSome = true →
      ((exclude.map s.normalize).any (fun e =>
        e.sameSteps (s.normalize (names.foldl Path.entry root))) = true ↔
          s.spelled root ++ names ∈ exclude.map s.spelled) := by
    intro names hsome
    simp only [List.any_map, List.any_eq_true, List.mem_map, Function.comp_apply]
    refine exists_congr fun e => and_congr_right fun he => ?_
    rw [sameSteps_normalize_iff ht hs (hexclude e he) hl hsome, eq_comm]
  rw [hheaders, List.mem_filter, List.mem_mergeSort, List.mem_filter, mem_walk_iff ht hs hfiles]
  constructor
  · rintro ⟨⟨⟨names, content, hfile, rfl⟩, haccepts⟩, hkept⟩
    refine ⟨names, ⟨content, hfile⟩, ?_, rfl, haccepts⟩
    rw [← hexcluded names (Option.isSome_of_eq_some hfile)]
    simpa using hkept
  · rintro ⟨names, ⟨content, hfile⟩, hkept, rfl, haccepts⟩
    refine ⟨⟨⟨names, content, hfile, rfl⟩, haccepts⟩, ?_⟩
    rw [← hexcluded names (Option.isSome_of_eq_some hfile)] at hkept
    simpa using hkept

theorem pairwise_headers {d : Discovery} (h : s.discover root pattern exclude = .ok d) :
    d.headers.Pairwise fun p q => pathLe p q = true := by
  obtain ⟨compiled, files, -, -, hheaders⟩ := discover_eq_ok h
  rw [hheaders]
  exact (List.pairwise_mergeSort pathLe_trans pathLe_total _).filter _

theorem nodup_headers (ht : s.tree.WellFormed) (hs : s.tree.LinkFree) {d : Discovery}
    (h : s.discover root pattern exclude = .ok d) : d.headers.Nodup := by
  obtain ⟨compiled, files, -, hfiles, hheaders⟩ := discover_eq_ok h
  have hcandidates : ((files.filter fun p => compiled.accepts (matchedName p)).mergeSort
      pathLe).Nodup :=
    (List.mergeSort_perm _ _).nodup_iff.mpr ((nodup_walk ht hs hfiles).filter _)
  rw [hheaders]
  exact hcandidates.filter _

/-- **Where files are new at excluded places only, the same headers are found.** -/
theorem exists_discover_of_updates {t : Tree} (ht : s.tree.WellFormed) (hs : s.tree.LinkFree)
    (ht' : t.WellFormed) (hs' : t.LinkFree) (hupdates : s.tree.Updates t (exclude.map s.spelled))
    (hexclude : ∀ e ∈ exclude, s.Direct e) (hl : s.resolve root = .ok l)
    (hwalked : ∀ names, t.get? (s.spelled root ++ names) = some .directory →
      (names.foldl Path.entry root).fits = true)
    {d : Discovery} (h : s.discover root pattern exclude = .ok d) :
    ∃ d', (s.withTree t).discover root pattern exclude = .ok d' ∧ d'.headers = d.headers := by
  obtain ⟨compiled, files, hcompiled, hfiles, -⟩ := discover_eq_ok h
  obtain ⟨hroot, hsome⟩ := exists_of_walk hs hfiles
  -- the root is found and resolved as before
  have hroot' : (s.withTree t).follow root false = .ok (s.spelled root) := by
    obtain ⟨hrefusal, hpasses, -⟩ := (follow_eq_ok_iff hs).mp hroot
    exact (follow_eq_ok_iff hs').mpr ⟨hrefusal, hpasses.of_updates hupdates, rfl⟩
  obtain ⟨hsense, hpasses, rfl⟩ := (resolve_eq_ok_iff hs).mp hl
  have hl' : (s.withTree t).resolve root = .ok (s.spelled root) :=
    (resolve_eq_ok_iff hs').mpr ⟨hsense, hpasses.of_updates hupdates, rfl⟩
  obtain ⟨files', hfiles'⟩ :=
    exists_walk ht' hs' hroot' (hupdates.isSome_get? hsome) hwalked
  obtain ⟨d', hd'⟩ : ∃ d', (s.withTree t).discover root pattern exclude = .ok d' :=
    exists_discover hcompiled hfiles'
  refine ⟨d', hd', ?_⟩
  have hexclude' : ∀ e ∈ exclude, (s.withTree t).Direct e := fun e he =>
    let ⟨hrefusal, hup, hname, hfits⟩ := hexclude e he
    ⟨hrefusal, hup, hname, hfits⟩
  have hmem := @mem_headers_iff s root _ pattern exclude ht hs hexclude hl _ hcompiled d h
  have hmem' := @mem_headers_iff (s.withTree t) root _ pattern exclude ht' hs' hexclude' hl' _
    hcompiled d' hd'
  have hsame : ∀ q, q ∈ d'.headers ↔ q ∈ d.headers := by
    intro q
    rw [hmem, hmem']
    refine exists_congr fun names => and_congr_left fun ⟨hkept, _⟩ => exists_congr fun content => ?_
    exact hupdates.get?_eq_some_file_iff hkept
  have hperm : d'.headers.Perm d.headers :=
    (List.perm_ext_iff_of_nodup (nodup_headers ht' hs' hd') (nodup_headers ht hs h)).mpr hsame
  refine hperm.eq_of_pairwise (fun q q' hq hq' hle hle' => ?_) (pairwise_headers hd')
    (pairwise_headers h)
  -- headers that come before each other are named by the same names
  obtain ⟨names, ⟨content, hfile⟩, -, rfl, -⟩ := hmem.mp ((hsame q).mp hq)
  obtain ⟨names', ⟨content', hfile'⟩, -, rfl, -⟩ := hmem.mp hq'
  have hnames := ht.isName_of_append (Option.isSome_of_eq_some hfile)
  have hnames' := ht.isName_of_append (Option.isSome_of_eq_some hfile')
  rw [Path.eq_of_components_foldl_entry hsense hnames hnames' (components_eq_of_pathLe hle hle')]

end Site

end ArgumentSchemes.Files
