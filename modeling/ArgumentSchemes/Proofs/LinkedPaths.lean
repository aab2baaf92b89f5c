import ArgumentSchemes.Proofs.PlainTrees

/-!
# Following paths through links

`Leads` tells step by step where steps lead and how many links may still be followed there: a link
on the way puts the steps of its target in front of those that remain. Paths are followed
accordingly (`followSteps_eq_ok_iff_leads`). So the way along a path can be cut between any two of
its steps (`Leads.append`, `Leads.split`), and that to a directory stays when a tree keeps its
directories and links (`Leads.of_keepsWays`).

In a well-formed tree the names of a file below a directory lead to that file and nowhere else
(`Leads.of_file`, `Leads.eq_of_file`).
-/

namespace ArgumentSchemes.Files

variable {t t' : Tree} {allowed : Location → Bool} {through : Bool} {k j : Nat} {l m : Location}
  {steps rest : List Component} {n : String} {node : Node}

/-- Only the first step of a path can start from the root. -/
theorem Path.root_not_mem_tail_steps (p : Path) : .root ∉ p.steps.tail := by
  have hsegments : .root ∉ (segments p.text.toList).filterMap stepOfSegment? := by
    intro hmem
    obtain ⟨segment, -, hsegment⟩ := List.mem_filterMap.mp hmem
    exact stepOfSegment?_ne_root segment hsegment
  have hback : .root ∉ (segments p.text.toList).filterMap stepOfSegment? ++
      if p.endsInSlash then [.here] else [] := by
    intro hmem
    rcases List.mem_append.mp hmem with hmem | hmem
    · exact hsegments hmem
    · split at hmem <;> simp at hmem
  rw [steps, rawSteps, List.append_assoc]
  split
  · exact hback
  · exact fun hmem => hback (List.mem_of_mem_tail hmem)

/-- Every directory and every link of the first tree is in the second. -/
def Tree.KeepsWays (t t' : Tree) : Prop :=
  ∀ l node, (∀ content, node ≠ .file content) → t.get? l = some node → t'.get? l = some node

theorem Tree.Grows.keepsWays (h : t.Grows t') : t.KeepsWays t' :=
  fun _ _ _ => h.get?_eq_some

/-! ### Ways -/

/-- The directory at the location has an entry of the name at an allowed place. -/
structure Enters (t : Tree) (allowed : Location → Bool) (l : Location) (n : String) (node : Node) :
    Prop where
  directory : t.get? l = some .directory
  size : n.utf8ByteSize ≤ maxNameSize
  allowed : allowed (l ++ [n]) = true
  node : t.get? (l ++ [n]) = some node

/-- Steps **lead** from a location to another. The numbers say how many links may be followed from
the one and from the other. -/
inductive Leads (t : Tree) (allowed : Location → Bool) (through : Bool) :
    Nat → Location → List Component → Nat → Location → Prop
  | done {k : Nat} {l : Location} : Leads t allowed through k l [] k l
  | root {k j : Nat} {l m : Location} {rest : List Component} :
      Leads t allowed through k [] rest j m → Leads t allowed through k l (.root :: rest) j m
  | here {k j : Nat} {l m : Location} {rest : List Component} : t.get? l = some .directory →
      Leads t allowed through k l rest j m → Leads t allowed through k l (.here :: rest) j m
  | up {k j : Nat} {l m : Location} {rest : List Component} : t.get? l = some .directory →
      Leads t allowed through k l.dropLast rest j m → Leads t allowed through k l (.up :: rest) j m
  | entry {k j : Nat} {l m : Location} {n : String} {node : Node} {rest : List Component} :
      Enters t allowed l n node → (∀ target, node ≠ .link target) →
      Leads t allowed through k (l ++ [n]) rest j m →
      Leads t allowed through k l (.name n :: rest) j m
  | link {k j : Nat} {l m : Location} {n target : String} {rest : List Component} :
      Enters t allowed l n (.link target) → rest ≠ [] ∨ through = true →
      Leads t allowed through k l (Path.steps ⟨target⟩ ++ rest) j m →
      Leads t allowed through (k + 1) l (.name n :: rest) j m
  /-- The last step does not go through a link. -/
  | stop {k : Nat} {l : Location} {n target : String} :
      Enters t allowed l n (.link target) → through = false →
      Leads t allowed through k l [.name n] k (l ++ [n])

theorem followSteps_here (h : t.get? l = some .directory) :
    followSteps t through allowed k l (.here :: rest) =
      followSteps t through allowed k l rest := by
  cases k <;> simp only [followSteps, followWith, h, if_true]

theorem followSteps_up (h : t.get? l = some .directory) :
    followSteps t through allowed k l (.up :: rest) =
      followSteps t through allowed k l.dropLast rest := by
  cases k <;> simp only [followSteps, followWith, h, if_true]

theorem Enters.not_refused (h : Enters t allowed l n node) :
    ¬ (maxNameSize < n.utf8ByteSize ∨ (!allowed (l ++ [n])) = true) := by
  rintro (hsize | hallowed)
  · exact absurd h.size (Nat.not_le.mpr hsize)
  · simp [h.allowed] at hallowed

theorem Enters.followSteps_eq (h : Enters t allowed l n node)
    (hnode : ∀ target, node ≠ .link target) :
    followSteps t through allowed k l (.name n :: rest) =
      followSteps t through allowed k (l ++ [n]) rest := by
  cases node with
  | link target => exact absurd rfl (hnode target)
  | file content =>
    cases k <;>
      simp only [followSteps, followWith, h.directory, if_true, if_neg h.not_refused, h.node]
  | directory =>
    cases k <;>
      simp only [followSteps, followWith, h.directory, if_true, if_neg h.not_refused, h.node]

theorem Leads.followSteps_eq (h : Leads t allowed through k l steps j m) :
    followSteps t through allowed k l steps = .ok m := by
  induction h with
  | @done k l => cases k <;> rfl
  | @root k _ _ _ _ _ ih => cases k <;> exact ih
  | here hdir _ ih => rw [followSteps_here hdir, ih]
  | up hdir _ ih => rw [followSteps_up hdir, ih]
  | entry henters hnode _ ih => rw [henters.followSteps_eq hnode, ih]
  | @link k j l m n target rest henters hrest _ ih =>
    have hgoes : ¬ (rest.isEmpty && !through) = true := by
      rcases hrest with hrest | hrest <;> simp [hrest]
    simp only [followSteps, followWith, henters.directory, if_true, if_neg henters.not_refused,
      henters.node, if_neg hgoes]
    exact ih
  | @stop k _ _ _ henters hthrough =>
    cases k <;>
      simp only [followSteps, followWith, henters.directory, if_true, if_neg henters.not_refused,
        henters.node, hthrough, List.isEmpty_nil, Bool.not_false, Bool.and_self]

theorem exists_leads_of_followWith
    {onLink : Location → Path → List Component → Except IoFault Location}
    (hlink : ∀ l target rest m, onLink l target rest = .ok m →
      ∃ i j, k = i + 1 ∧ Leads t allowed through i l (target.steps ++ rest) j m)
    (h : followWith t through allowed onLink l steps = .ok m) :
    ∃ j, Leads t allowed through k l steps j m := by
  induction steps generalizing l with
  | nil =>
    obtain rfl := Except.ok.inj h
    exact ⟨k, .done⟩
  | cons step rest ih =>
    cases step with
    | root =>
      obtain ⟨j, hrest⟩ := ih h
      exact ⟨j, .root hrest⟩
    | here =>
      rw [followWith] at h
      split at h
      · next hdir =>
        obtain ⟨j, hrest⟩ := ih h
        exact ⟨j, .here hdir hrest⟩
      · cases h
    | up =>
      rw [followWith] at h
      split at h
      · next hdir =>
        obtain ⟨j, hrest⟩ := ih h
        exact ⟨j, .up hdir hrest⟩
      · cases h
    | name n =>
      rw [followWith] at h
      split at h
      · next hdir =>
        split at h
        · cases h
        · next hrefused =>
          have henters : ∀ node, t.get? (l ++ [n]) = some node → Enters t allowed l n node :=
            fun node hnode => ⟨hdir, by simp_all, by simp_all, hnode⟩
          split at h
          · cases h
          · next target hnode =>
            split at h
            · next hstop =>
              obtain rfl := Except.ok.inj h
              obtain ⟨hrest, hthrough⟩ : rest = [] ∧ through = false := by simpa using hstop
              subst hrest
              exact ⟨k, .stop (henters _ hnode) hthrough⟩
            · next hgoes =>
              obtain ⟨i, j, rfl, hrest⟩ := hlink _ _ _ _ h
              refine ⟨j, .link (henters _ hnode) ?_ hrest⟩
              rcases rest with _ | _ <;> simp_all
          · next node hlinkless hnode =>
            obtain ⟨j, hrest⟩ := ih h
            exact ⟨j, .entry (henters _ hnode) (fun target heq => hlinkless target heq) hrest⟩
      · cases h

/-- **Steps are followed** to where they lead. -/
theorem followSteps_eq_ok_iff_leads :
    followSteps t through allowed k l steps = .ok m ↔
      ∃ j, Leads t allowed through k l steps j m := by
  refine ⟨fun h => ?_, fun ⟨_, h⟩ => h.followSteps_eq⟩
  induction k generalizing l steps m with
  | zero => exact exists_leads_of_followWith (fun _ _ _ _ hfault => by cases hfault) h
  | succ k ih =>
    refine exists_leads_of_followWith (fun l target rest m hm => ?_) h
    obtain ⟨j, hleads⟩ := ih hm
    exact ⟨k, j, rfl, hleads⟩

namespace Leads

/-! ### Ways that are cut and joined -/

/-- Two ways in a row. -/
theorem append {i : Nat} {l' : Location} (h : Leads t allowed true k l steps i l')
    (h' : Leads t allowed through i l' rest j m) (hrest : rest ≠ []) :
    Leads t allowed through k l (steps ++ rest) j m := by
  induction h with
  | done => exact h'
  | root _ ih => exact .root (ih h')
  | here hdir _ ih => exact .here hdir (ih h')
  | up hdir _ ih => exact .up hdir (ih h')
  | entry henters hnode _ ih => exact .entry henters hnode (ih h')
  | link henters _ _ ih =>
    have hleads := ih h'
    rw [List.append_assoc] at hleads
    exact .link henters (.inl (by simp [hrest])) hleads
  | stop _ hthrough => cases hthrough

/-- A way can be cut in front of any steps. -/
theorem split (h : Leads t allowed through k l (steps ++ rest) j m) (hrest : rest ≠ []) :
    ∃ i l', Leads t allowed true k l steps i l' ∧ Leads t allowed through i l' rest j m := by
  generalize hall : steps ++ rest = all at h
  induction h generalizing steps with
  | done => simp_all
  | @root k j l m others hleads ih =>
    rcases List.append_eq_cons_iff.mp hall with ⟨rfl, rfl⟩ | ⟨steps, rfl, rfl⟩
    · exact ⟨k, l, .done, .root hleads⟩
    · obtain ⟨i, l', hfront, hback⟩ := ih rfl
      exact ⟨i, l', .root hfront, hback⟩
  | @here k j l m others hdir hleads ih =>
    rcases List.append_eq_cons_iff.mp hall with ⟨rfl, rfl⟩ | ⟨steps, rfl, rfl⟩
    · exact ⟨k, l, .done, .here hdir hleads⟩
    · obtain ⟨i, l', hfront, hback⟩ := ih rfl
      exact ⟨i, l', .here hdir hfront, hback⟩
  | @up k j l m others hdir hleads ih =>
    rcases List.append_eq_cons_iff.mp hall with ⟨rfl, rfl⟩ | ⟨steps, rfl, rfl⟩
    · exact ⟨k, l, .done, .up hdir hleads⟩
    · obtain ⟨i, l', hfront, hback⟩ := ih rfl
      exact ⟨i, l', .up hdir hfront, hback⟩
  | @entry k j l m n node others henters hnode hleads ih =>
    rcases List.append_eq_cons_iff.mp hall with ⟨rfl, rfl⟩ | ⟨steps, rfl, rfl⟩
    · exact ⟨k, l, .done, .entry henters hnode hleads⟩
    · obtain ⟨i, l', hfront, hback⟩ := ih rfl
      exact ⟨i, l', .entry henters hnode hfront, hback⟩
  | @link k j l m n target others henters hothers hleads ih =>
    rcases List.append_eq_cons_iff.mp hall with ⟨rfl, rfl⟩ | ⟨steps, rfl, rfl⟩
    · exact ⟨k + 1, l, .done, .link henters hothers hleads⟩
    · obtain ⟨i, l', hfront, hback⟩ := ih (List.append_assoc _ _ _)
      exact ⟨i, l', .link henters (.inr rfl) hfront, hback⟩
  | @stop k l n target henters hthrough =>
    rcases List.append_eq_cons_iff.mp hall with ⟨rfl, rfl⟩ | ⟨steps, rfl, hnil⟩
    · exact ⟨k, l, .done, .stop henters hthrough⟩
    · exact absurd (List.append_eq_nil_iff.mp hnil.symm).2 hrest

/-- A slash at the end of a path does not change where its way leads. -/
theorem rawSteps {p : Path} (h : Leads t allowed true k l p.steps j m) :
    ∃ j, Leads t allowed true k l p.rawSteps j m := by
  rw [Path.steps] at h
  split at h
  · obtain ⟨i, l', hfront, hback⟩ := h.split (by simp)
    cases hback with
    | here _ hdone =>
      cases hdone
      exact ⟨_, hfront⟩
  · rw [List.append_nil] at h
    exact ⟨j, h⟩

/-! ### Where ways end -/

/-- A way is one also when any location is allowed. -/
theorem unbounded (h : Leads t allowed through k l steps j m) :
    Leads t anywhere through k l steps j m := by
  have henters : ∀ {l n node}, Enters t allowed l n node → Enters t anywhere l n node :=
    fun h => ⟨h.directory, h.size, rfl, h.node⟩
  induction h with
  | done => exact .done
  | root _ ih => exact .root ih
  | here hdir _ ih => exact .here hdir ih
  | up hdir _ ih => exact .up hdir ih
  | entry henter hnode _ ih => exact .entry (henters henter) hnode ih
  | link henter hrest _ ih => exact .link (henters henter) hrest ih
  | stop henter hthrough => exact .stop (henters henter) hthrough

/-- Not to go through a link at the end leads to the same place, or to such a link. -/
theorem ends_or_stops (h : Leads t allowed true k l steps j m) :
    ∃ j m', Leads t allowed false k l steps j m' ∧
      (m' = m ∨ ∃ target, t.get? m' = some (.link target)) := by
  induction h with
  | @done k l => exact ⟨k, l, .done, .inl rfl⟩
  | root _ ih =>
    obtain ⟨j, m', hleads, hend⟩ := ih
    exact ⟨j, m', .root hleads, hend⟩
  | here hdir _ ih =>
    obtain ⟨j, m', hleads, hend⟩ := ih
    exact ⟨j, m', .here hdir hleads, hend⟩
  | up hdir _ ih =>
    obtain ⟨j, m', hleads, hend⟩ := ih
    exact ⟨j, m', .up hdir hleads, hend⟩
  | entry henters hnode _ ih =>
    obtain ⟨j, m', hleads, hend⟩ := ih
    exact ⟨j, m', .entry henters hnode hleads, hend⟩
  | @link k _ l _ n target rest henters _ _ ih =>
    by_cases hrest : rest = []
    · subst hrest
      exact ⟨k + 1, l ++ [n], .stop henters rfl, .inr ⟨target, henters.node⟩⟩
    · obtain ⟨j, m', hleads, hend⟩ := ih
      exact ⟨j, m', .link henters (.inl hrest) hleads, hend⟩
  | stop _ hthrough => cases hthrough

/-- In a well-formed tree, steps lead to something. -/
theorem isSome (ht : t.WellFormed) (h : Leads t allowed through k l steps j m)
    (hstart : (t.get? l).isSome = true ∨ steps ≠ []) : (t.get? m).isSome = true := by
  have hdirectory : ∀ {l : Location}, t.get? l = some .directory → (t.get? l).isSome = true :=
    Option.isSome_of_eq_some
  induction h with
  | done => exact hstart.resolve_right fun hne => hne rfl
  | root _ ih => exact ih (.inl rfl)
  | here hdir _ ih => exact ih (.inl (hdirectory hdir))
  | up hdir _ ih =>
    exact ih (.inl (hdirectory (ht.get?_of_prefix (List.dropLast_prefix _) hdir)))
  | entry henters _ _ ih => exact ih (.inl (Option.isSome_of_eq_some henters.node))
  | link henters _ _ ih => exact ih (.inl (hdirectory henters.directory))
  | stop henters _ => exact Option.isSome_of_eq_some henters.node

/-! ### Ways in other trees -/

/-- A step that does not start from the root takes place in a directory. -/
theorem directory_of_cons {step : Component}
    (h : Leads t allowed through k l (step :: rest) j m) (hstep : step ≠ .root) :
    t.get? l = some .directory := by
  cases h with
  | root _ => exact absurd rfl hstep
  | here hdir _ => exact hdir
  | up hdir _ => exact hdir
  | entry henters _ _ => exact henters.directory
  | link henters _ _ => exact henters.directory
  | stop henters _ => exact henters.directory

/-- The way to a directory stays when directories and links do, whatever becomes of files. -/
theorem of_keepsWays (hkeeps : t.KeepsWays t') (hroot : .root ∉ steps.tail)
    (h : Leads t allowed true k l steps j m) (hm : t.get? m = some .directory) :
    Leads t' allowed true k l steps j m := by
  have hdirectory : ∀ {l}, t.get? l = some .directory → t'.get? l = some .directory :=
    fun {l} hdir => hkeeps l _ (by simp) hdir
  induction h with
  | done => exact .done
  | root _ ih => exact .root (ih (fun hmem => hroot (List.mem_of_mem_tail hmem)) hm)
  | here hdir _ ih =>
    exact .here (hdirectory hdir) (ih (fun hmem => hroot (List.mem_of_mem_tail hmem)) hm)
  | up hdir _ ih =>
    exact .up (hdirectory hdir) (ih (fun hmem => hroot (List.mem_of_mem_tail hmem)) hm)
  | @entry k j l m n node rest henters hnode hleads ih =>
    have hnodeDir : t.get? (l ++ [n]) = some .directory := by
      cases rest with
      | nil =>
        cases hleads
        exact hm
      | cons step rest =>
        exact hleads.directory_of_cons fun heq => hroot (heq ▸ List.mem_cons_self)
    have henters' : Enters t' allowed l n .directory :=
      ⟨hdirectory henters.directory, henters.size, henters.allowed, hdirectory hnodeDir⟩
    exact .entry henters' (by simp) (ih (fun hmem => hroot (List.mem_of_mem_tail hmem)) hm)
  | @link k j l m n target rest henters hrest _ ih =>
    have hroot' : .root ∉ (Path.steps ⟨target⟩ ++ rest).tail := by
      intro hmem
      rcases hsteps : Path.steps ⟨target⟩ with _ | ⟨step, steps⟩
      · rw [hsteps] at hmem
        exact hroot (List.mem_of_mem_tail hmem)
      · rw [hsteps, List.cons_append, List.tail_cons] at hmem
        rcases List.mem_append.mp hmem with hmem | hmem
        · exact Path.root_not_mem_tail_steps ⟨target⟩ (hsteps ▸ hmem)
        · exact hroot hmem
    refine .link ?_ hrest (ih hroot' hm)
    exact ⟨hdirectory henters.directory, henters.size, henters.allowed,
      hkeeps _ _ (by simp) henters.node⟩
  | stop _ hthrough => cases hthrough

/-! ### Files below a directory -/

variable {names : List String} {content : List UInt8}

/-- The first name on the way down to a file enters a directory that is no link, or the file. -/
theorem enters_of_file (ht : t.WellFormed) (hallowed : allowed (l ++ [n]) = true)
    (hfile : t.get? (l ++ n :: names) = some (.file content)) :
    ∃ node, Enters t allowed l n node ∧ ∀ target, node ≠ .link target := by
  rw [List.append_cons] at hfile
  have hnode : ∃ node, t.get? (l ++ [n]) = some node ∧ ∀ target, node ≠ .link target := by
    by_cases hnames : names = []
    · rw [hnames, List.append_nil] at hfile
      exact ⟨_, hfile, by simp⟩
    · exact ⟨_, ht.get?_of_append hnames (Option.isSome_of_eq_some hfile), by simp⟩
  obtain ⟨node, hnode, hlinkless⟩ := hnode
  obtain ⟨hdir, hname⟩ := ht.get?_concat (Option.isSome_of_eq_some hnode)
  exact ⟨node, ⟨hdir, hname.fits, hallowed, hnode⟩, hlinkless⟩

/-- The names of a file lead down to it. -/
theorem of_file (ht : t.WellFormed) (hfile : t.get? (l ++ names) = some (.file content))
    (hallowed : ∀ m, m <+: l ++ names → allowed m = true) :
    Leads t allowed through k l (names.map .name) k (l ++ names) := by
  induction names generalizing l with
  | nil =>
    rw [List.append_nil]
    exact .done
  | cons n names ih =>
    obtain ⟨node, henters, hnode⟩ :=
      enters_of_file ht (hallowed _ ⟨names, by simp⟩) hfile
    rw [List.append_cons] at hfile hallowed ⊢
    exact .entry henters hnode (ih hfile hallowed)

/-- The names of a file lead nowhere else. -/
theorem eq_of_file (ht : t.WellFormed) (hfile : t.get? (l ++ names) = some (.file content))
    (h : Leads t allowed through k l (names.map .name) j m) : m = l ++ names := by
  induction names generalizing l with
  | nil =>
    rw [List.map_nil] at h
    cases h
    rw [List.append_nil]
  | cons n names ih =>
    have hallowed : anywhere (l ++ [n]) = true := rfl
    obtain ⟨node, henters, hnode⟩ := enters_of_file ht hallowed hfile
    rw [List.append_cons] at hfile ⊢
    rw [List.map_cons] at h
    generalize hnames : names.map Component.name = rest at h ih
    cases h with
    | entry _ _ hrest => exact ih hfile hrest
    | link hlink _ _ =>
      exact absurd (Option.some.inj (henters.node.symm.trans hlink.node)) (hnode _)
    | stop hlink _ =>
      exact absurd (Option.some.inj (henters.node.symm.trans hlink.node)) (hnode _)

end Leads

namespace Site

variable {s : Site} {p : Path} {names : List String} {content : List UInt8}

theorem follow_eq_ok_iff_leads :
    s.follow p through = .ok m ↔
      p.refusal? = none ∧ ∃ j, Leads s.tree anywhere through maxLinks s.cwd p.steps j m := by
  rw [follow, ← followSteps_eq_ok_iff_leads]
  rcases p.refusal? with _ | fault <;> simp

theorem resolve_eq_ok_iff_leads :
    s.resolve p = .ok m ↔
      p.senseless? = none ∧ ∃ j, Leads s.tree (·.path.fits) true maxLinks s.cwd p.steps j m := by
  rw [resolve, ← followSteps_eq_ok_iff_leads]
  rcases p.senseless? with _ | fault <;> simp

/-- In a well-formed tree a path is resolved to something. -/
theorem isSome_of_resolve (ht : s.tree.WellFormed) (h : s.resolve p = .ok m) :
    (s.tree.get? m).isSome = true := by
  obtain ⟨hsense, j, hleads⟩ := resolve_eq_ok_iff_leads.mp h
  refine hleads.isSome ht (.inr fun hnil => ?_)
  have hraw := Path.rawSteps_ne_nil (Path.senseless?_eq_none_iff.mp hsense).2
  exact hraw (List.append_eq_nil_iff.mp hnil).1

/-- A file below a root is resolved to the place where it stands. -/
theorem eq_of_resolve_foldl_entry (ht : s.tree.WellFormed) (hroot : s.follow p true = .ok l)
    (hfile : s.tree.get? (l ++ names) = some (.file content)) (hne : names ≠ [])
    (h : s.resolve (names.foldl Path.entry p) = .ok m) : m = l ++ names := by
  obtain ⟨hrefusal, j, hleads⟩ := follow_eq_ok_iff_leads.mp hroot
  have hsense := (Path.refusal?_eq_none_iff.mp hrefusal).1
  have hnames := ht.isName_of_append (Option.isSome_of_eq_some hfile)
  obtain ⟨-, j', hresolved⟩ := resolve_eq_ok_iff_leads.mp h
  rw [Path.steps_foldl_entry hsense hnames hne] at hresolved
  obtain ⟨i, l', hfront, hback⟩ := hresolved.split (by simp [hne])
  -- the root leads to one place, however it is followed
  obtain ⟨_, hraw⟩ := hleads.rawSteps
  obtain rfl :=
    Except.ok.inj (hraw.followSteps_eq.symm.trans hfront.unbounded.followSteps_eq)
  exact hback.eq_of_file ht hfile

/-- A file below a root that can be resolved is resolved too, if its own path is not too long. -/
theorem resolve_foldl_entry_of_file (ht : s.tree.WellFormed) (hroot : s.resolve p = .ok l)
    (hfile : s.tree.get? (l ++ names) = some (.file content)) (hne : names ≠ [])
    (hfits : (l ++ names : Location).path.fits = true) :
    s.resolve (names.foldl Path.entry p) = .ok (l ++ names) := by
  obtain ⟨hsense, j, hleads⟩ := resolve_eq_ok_iff_leads.mp hroot
  have hnames := ht.isName_of_append (Option.isSome_of_eq_some hfile)
  obtain ⟨i, hraw⟩ := hleads.rawSteps
  refine resolve_eq_ok_iff_leads.mpr ⟨(Path.rawSteps_foldl_entry hsense hnames).1, i, ?_⟩
  rw [Path.steps_foldl_entry hsense hnames hne]
  exact hraw.append (.of_file ht hfile fun m hm => Location.fits_path_of_prefix hm hfits)
    (by simp [hne])

end Site

end ArgumentSchemes.Files
