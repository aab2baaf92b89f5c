import ArgumentSchemes.Proofs.PlainTrees

/-!
# Following paths in trees without links

In a tree without links, steps lead to where they lead when the tree is not asked, provided that the
tree lets them pass (`Passes`, `followSteps_eq_ok_iff`). So a path that can be followed leads to the
location that it spells (`Site.follow_eq_ok_iff`, `Site.resolve_eq_ok_iff`), and taking the path
from the root in the place of a path does not change what is spelled (`Site.spelled_normalize`).

In a well-formed tree, a path without `..` that ends in a name leads to what it spells, when there
is anything (`Site.follow_spelled`, `Site.resolve_spelled`).
-/

namespace ArgumentSchemes.Files

/-! ### What a tree lets pass -/

/-- The tree lets the steps from a location pass: they go through directories to what is there, by
names that are not too long, and to allowed locations only. -/
def Passes (t : Tree) (allowed : Location → Bool) : Location → List Component → Prop
  | _, [] => True
  | _, .root :: rest => Passes t allowed [] rest
  | l, .here :: rest => t.get? l = some .directory ∧ Passes t allowed l rest
  | l, .up :: rest => t.get? l = some .directory ∧ Passes t allowed l.dropLast rest
  | l, .name n :: rest =>
    t.get? l = some .directory ∧ n.utf8ByteSize ≤ maxNameSize ∧ allowed (l ++ [n]) = true ∧
      (t.get? (l ++ [n])).isSome = true ∧ Passes t allowed (l ++ [n]) rest

section Passes

variable {t t' : Tree} {allowed : Location → Bool} {l : Location} {steps rest : List Component}

theorem passes_append :
    Passes t allowed l (steps ++ rest) ↔
      Passes t allowed l steps ∧ Passes t allowed (steps.foldl Location.after l) rest := by
  induction steps generalizing l with
  | nil => simp [Passes]
  | cons step steps ih => cases step <;> simp [Passes, ih, Location.after, and_assoc]

/-- What passes still does when directories stay and nothing is lost. -/
theorem Passes.mono (hdir : ∀ l, t.get? l = some .directory → t'.get? l = some .directory)
    (hsome : ∀ l, (t.get? l).isSome = true → (t'.get? l).isSome = true)
    (h : Passes t allowed l steps) : Passes t' allowed l steps := by
  induction steps generalizing l with
  | nil => trivial
  | cons step steps ih =>
    cases step with
    | root => exact ih h
    | here => exact ⟨hdir _ h.1, ih h.2⟩
    | up => exact ⟨hdir _ h.1, ih h.2⟩
    | name n =>
      obtain ⟨hl, hsize, hallowed, hn, hrest⟩ := h
      exact ⟨hdir _ hl, hsize, hallowed, hsome _ hn, ih hrest⟩

theorem Passes.of_updates {locations : List Location} (hupdates : t.Updates t' locations)
    (h : Passes t allowed l steps) : Passes t' allowed l steps :=
  h.mono (fun _ => hupdates.get?_eq_some_directory) fun _ => hupdates.isSome_get?

/-- Without links, following asks no more than that the steps pass. -/
theorem followWith_eq_ok_iff (ht : t.LinkFree) {through : Bool}
    {onLink : Location → Path → List Component → Except IoFault Location} {m : Location} :
    followWith t through allowed onLink l steps = .ok m ↔
      Passes t allowed l steps ∧ m = steps.foldl Location.after l := by
  induction steps generalizing l with
  | nil => simp [followWith, Passes, eq_comm]
  | cons step steps ih =>
    cases step with
    | root => exact ih
    | here =>
      rw [followWith]
      split
      · next hdir => simp [ih, Passes, hdir, Location.after]
      · next hdir => simp [Passes, hdir]
    | up =>
      rw [followWith]
      split
      · next hdir => simp [ih, Passes, hdir, Location.after]
      · next hdir => simp [Passes, hdir]
    | name n =>
      rw [followWith]
      split
      · next hdir =>
        split
        · next hrefused =>
          constructor
          · intro h
            cases h
          · rintro ⟨⟨-, hsize, hallowed, -⟩, -⟩
            rcases hrefused with htoo | hnot
            · exact absurd hsize (Nat.not_le.mpr htoo)
            · simp [hallowed] at hnot
        · next hfits =>
          obtain ⟨hsize, hallowed⟩ : n.utf8ByteSize ≤ maxNameSize ∧ allowed (l ++ [n]) = true := by
            simpa using hfits
          rcases hnode : t.get? (l ++ [n]) with _ | node
          · simp [Passes, hnode]
          · cases node with
            | link target => exact absurd hnode (ht _ _)
            | file content =>
              simp [ih, Passes, hdir, hsize, hallowed, hnode, Location.after]
            | directory => simp [ih, Passes, hdir, hsize, hallowed, hnode, Location.after]
      · next hdir => simp [Passes, hdir]

theorem followSteps_eq_ok_iff (ht : t.LinkFree) {through : Bool} {links : Nat} {m : Location} :
    followSteps t through allowed links l steps = .ok m ↔
      Passes t allowed l steps ∧ m = steps.foldl Location.after l := by
  cases links <;> exact followWith_eq_ok_iff ht

/-! ### Steps that only lead down -/

/-- Steps that neither go up nor back to the root. -/
def LeadsDown (steps : List Component) : Prop := ∀ step ∈ steps, step ≠ .root ∧ step ≠ .up

theorem LeadsDown.prefix_foldl (h : LeadsDown steps) : l <+: steps.foldl Location.after l := by
  induction steps generalizing l with
  | nil => exact List.prefix_rfl
  | cons step steps ih =>
    have hrest : LeadsDown steps := fun step' hmem => h step' (List.mem_cons_of_mem step hmem)
    cases step with
    | root => exact absurd rfl (h .root List.mem_cons_self).1
    | here => exact ih hrest
    | up => exact absurd rfl (h .up List.mem_cons_self).2
    | name n => exact (List.prefix_append l [n]).trans (ih hrest)

/-- Steps that only lead down pass when they lead to a directory. -/
theorem LeadsDown.passes (ht : t.WellFormed) (h : LeadsDown steps)
    (hdir : t.get? (steps.foldl Location.after l) = some .directory)
    (hallowed : ∀ m, m <+: steps.foldl Location.after l → allowed m = true) :
    Passes t allowed l steps := by
  induction steps generalizing l with
  | nil => trivial
  | cons step steps ih =>
    have hrest : LeadsDown steps := fun step' hmem => h step' (List.mem_cons_of_mem step hmem)
    have hl : t.get? l = some .directory := ht.get?_of_prefix h.prefix_foldl hdir
    cases step with
    | root => exact absurd rfl (h .root List.mem_cons_self).1
    | here => exact ⟨hl, ih hrest hdir hallowed⟩
    | up => exact absurd rfl (h .up List.mem_cons_self).2
    | name n =>
      have hn : t.get? (l ++ [n]) = some .directory :=
        ht.get?_of_prefix hrest.prefix_foldl hdir
      have hname : IsName n := (ht.get?_concat (Option.isSome_of_eq_some hn)).2
      exact ⟨hl, hname.fits, hallowed _ hrest.prefix_foldl, by rw [hn]; rfl,
        ih hrest hdir hallowed⟩

/-- Steps that only lead down and end in a name pass when they lead to anything. -/
theorem LeadsDown.passes_concat_name (ht : t.WellFormed) (h : LeadsDown steps) {n : String}
    (hsome : (t.get? (steps.foldl Location.after l ++ [n])).isSome = true)
    (hallowed : ∀ m, m <+: steps.foldl Location.after l ++ [n] → allowed m = true) :
    Passes t allowed l (steps ++ [.name n]) := by
  obtain ⟨hdir, hname⟩ := ht.get?_concat hsome
  refine passes_append.mpr ⟨h.passes ht hdir fun m hm => ?_, hdir, hname.fits, ?_, hsome, trivial⟩
  · exact hallowed m (hm.trans (List.prefix_append _ _))
  · exact hallowed _ List.prefix_rfl

end Passes

namespace Path

/-- The last step of the path is a name, and no slash stands behind it. -/
def EndsInName (p : Path) : Prop :=
  p.endsInSlash = false ∧ ∃ steps n, p.rawSteps = steps ++ [.name n]

/-- Without `..` the steps of a path lead down from where it starts. -/
theorem exists_leadsDown {p : Path} (hup : .up ∉ p.components) :
    ∃ steps, LeadsDown steps ∧
      p.rawSteps = (if p.isAbsolute then [.root] else []) ++ steps := by
  refine ⟨_, fun step hstep => ⟨?_, ?_⟩, rfl⟩
  · rintro rfl
    obtain ⟨segment, -, hsegment⟩ := List.mem_filterMap.mp hstep
    exact stepOfSegment?_ne_root segment hsegment
  · rintro rfl
    refine hup ?_
    rw [components_eq_tidy, Component.mem_tidy (by simp), rawSteps]
    exact List.mem_append_right _ hstep

end Path

namespace Site

variable {s : Site} {p : Path}

@[simp] theorem spelled_withTree (s : Site) (t : Tree) (p : Path) :
    (s.withTree t).spelled p = s.spelled p := rfl

/-! ### Paths without links -/

theorem follow_eq_ok_iff (hs : s.tree.LinkFree) {through : Bool} {l : Location} :
    s.follow p through = .ok l ↔
      p.refusal? = none ∧ Passes s.tree anywhere s.cwd p.steps ∧ l = s.spelled p := by
  rw [follow, spelled_eq_steps]
  rcases p.refusal? with _ | fault
  · simp [followSteps_eq_ok_iff hs]
  · simp

theorem resolve_eq_ok_iff (hs : s.tree.LinkFree) {l : Location} :
    s.resolve p = .ok l ↔
      p.senseless? = none ∧ Passes s.tree (·.path.fits) s.cwd p.steps ∧ l = s.spelled p := by
  rw [resolve, spelled_eq_steps]
  rcases p.senseless? with _ | fault
  · simp [followSteps_eq_ok_iff hs]
  · simp

/-- The path from the root spells what the path itself does. -/
theorem spelled_normalize (ht : s.tree.WellFormed) (hs : s.tree.LinkFree) :
    s.spelled (s.normalize p) = s.spelled p := by
  rw [normalize]
  split
  · next l hl =>
    obtain ⟨-, -, rfl⟩ := (resolve_eq_ok_iff hs).mp hl
    split
    · next hsome => exact Location.spelled_path (ht.isName_of_mem hsome)
    · rfl
  · rfl

theorem normalize_of_resolve {l : Location} (h : s.resolve p = .ok l)
    (hsome : (s.tree.get? l).isSome = true) : s.normalize p = l.path := by
  rw [normalize, h]
  exact if_pos hsome

/-- A path without `..` that ends in a name passes when there is anything where it leads. -/
theorem passes_spelled (ht : s.tree.WellFormed) {allowed : Location → Bool}
    (hup : .up ∉ p.components) (hname : p.EndsInName)
    (hsome : (s.tree.get? (s.spelled p)).isSome = true)
    (hallowed : ∀ l, l <+: s.spelled p → allowed l = true) :
    Passes s.tree allowed s.cwd p.steps := by
  obtain ⟨hslash, steps, n, hsteps⟩ := hname
  obtain ⟨down, hdown, hraw⟩ := Path.exists_leadsDown hup
  have hpsteps : p.steps = p.rawSteps := by simp [Path.steps, hslash]
  rw [spelled_eq_rawSteps] at hsome hallowed
  rw [hpsteps]
  -- a path from the root has one step more at its beginning
  have hpass : ∀ (l : Location) (steps' : List Component), down = steps' ++ [.name n] →
      (s.tree.get? (down.foldl Location.after l)).isSome = true →
      (∀ m, m <+: down.foldl Location.after l → allowed m = true) →
      Passes s.tree allowed l down := by
    rintro l steps' rfl hsome hallowed
    rw [List.foldl_append] at hsome hallowed
    exact LeadsDown.passes_concat_name ht
      (fun step hstep => hdown step (List.mem_append_left _ hstep)) hsome hallowed
  rcases habsolute : p.isAbsolute with _ | _
  · have hrelative : p.rawSteps = down := by simpa [habsolute] using hraw
    rw [hrelative] at hsome hallowed hsteps ⊢
    exact hpass _ steps hsteps hsome hallowed
  · have hroot : p.rawSteps = .root :: down := by simpa [habsolute] using hraw
    rw [hroot] at hsome hallowed hsteps ⊢
    rcases steps with _ | ⟨first, steps⟩
    · cases hsteps
    · exact hpass [] steps (List.cons.inj hsteps).2 hsome hallowed

theorem follow_spelled (ht : s.tree.WellFormed) (hs : s.tree.LinkFree) {through : Bool}
    (hrefusal : p.refusal? = none) (hup : .up ∉ p.components) (hname : p.EndsInName)
    (hsome : (s.tree.get? (s.spelled p)).isSome = true) :
    s.follow p through = .ok (s.spelled p) :=
  (follow_eq_ok_iff hs).mpr ⟨hrefusal, passes_spelled ht hup hname hsome fun _ _ => rfl, rfl⟩

theorem resolve_spelled (ht : s.tree.WellFormed) (hs : s.tree.LinkFree)
    (hsense : p.senseless? = none) (hup : .up ∉ p.components) (hname : p.EndsInName)
    (hsome : (s.tree.get? (s.spelled p)).isSome = true)
    (hfits : (s.spelled p).path.fits = true) : s.resolve p = .ok (s.spelled p) :=
  (resolve_eq_ok_iff hs).mpr ⟨hsense, passes_spelled ht hup hname hsome fun _ hl =>
    Location.fits_path_of_prefix hl hfits, rfl⟩

/-- What is below a place that can be resolved can be resolved, if its own path is not too long. -/
theorem resolve_foldl_entry (ht : s.tree.WellFormed) (hs : s.tree.LinkFree) {l : Location}
    (hl : s.resolve p = .ok l) {names : List String}
    (hsome : (s.tree.get? (s.spelled p ++ names)).isSome = true)
    (hfits : (s.spelled p ++ names : Location).path.fits = true) :
    s.resolve (names.foldl Path.entry p) = .ok (s.spelled p ++ names) := by
  obtain ⟨hsense, hpasses, rfl⟩ := (resolve_eq_ok_iff hs).mp hl
  have hnames := ht.isName_of_append hsome
  by_cases hne : names = []
  · subst hne
    rw [List.append_nil]
    exact hl
  refine (resolve_eq_ok_iff hs).mpr ⟨(Path.rawSteps_foldl_entry hsense hnames).1, ?_,
    (spelled_foldl_entry hsense hnames).symm⟩
  rw [Path.steps_foldl_entry hsense hnames hne]
  obtain ⟨above, n, rfl⟩ : ∃ above n, names = above ++ [n] :=
    ⟨names.dropLast, names.getLast hne, (List.dropLast_append_getLast hne).symm⟩
  have hdown : LeadsDown (above.map .name) := by
    simp [LeadsDown]
  refine passes_append.mpr ⟨(passes_append.mp hpasses).1, ?_⟩
  rw [← spelled_eq_rawSteps, List.map_append]
  refine hdown.passes_concat_name ht ?_ fun m hm => ?_
  · rw [foldl_after_names, List.append_assoc]
    exact hsome
  · rw [foldl_after_names, List.append_assoc] at hm
    exact Location.fits_path_of_prefix hm hfits

/-- A path without `..` that is followed to a file ends in a name. -/
theorem endsInName_of_file {allowed : Location → Bool} {content : List UInt8}
    (hempty : p.text ≠ "") (hup : .up ∉ p.components)
    (hpasses : Passes s.tree allowed s.cwd p.steps)
    (hfile : s.tree.get? (s.spelled p) = some (.file content)) : p.EndsInName := by
  -- a step that stays where it is asks for a directory there
  have hnotHere : ∀ steps, p.steps ≠ steps ++ [.here] := by
    intro steps hsteps
    rw [hsteps] at hpasses
    have hdir := (passes_append.mp hpasses).2.1
    rw [spelled_eq_steps, hsteps, List.foldl_append] at hfile
    exact absurd (hdir.symm.trans hfile) (by simp)
  have hslash : p.endsInSlash = false := by
    rw [← Bool.not_eq_true]
    intro hslash
    exact hnotHere p.rawSteps (by simp [Path.steps, hslash])
  have hpsteps : p.steps = p.rawSteps := by simp [Path.steps, hslash]
  obtain ⟨steps, last, hsteps⟩ : ∃ steps last, p.rawSteps = steps ++ [last] :=
    ⟨_, _, (List.dropLast_append_getLast (Path.rawSteps_ne_nil hempty)).symm⟩
  refine ⟨hslash, steps, ?_⟩
  cases last with
  | name n => exact ⟨n, hsteps⟩
  | here => exact absurd (hpsteps.trans hsteps) (hnotHere steps)
  | up =>
    refine absurd ?_ hup
    rw [Path.components_eq_tidy, Component.mem_tidy (by simp), hsteps]
    simp
  | root =>
    rw [spelled_eq_rawSteps, hsteps, List.foldl_append] at hfile
    cases hfile

end Site

end ArgumentSchemes.Files
