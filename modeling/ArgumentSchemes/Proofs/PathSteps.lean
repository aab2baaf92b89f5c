import ArgumentSchemes.Files.Site
import Mathlib.Data.List.Basic
import Mathlib.Data.List.Infix

/-!
# The steps of a path and where they lead

A path is followed by its steps and compared by its components. Both come from the same segments:
the components are the steps without idle ones, apart from a `.` that the path begins with
(`Path.components_eq_tidy`).

Taking steps without asking the tree leads to the location that a path **spells**
(`Site.spelled`). The entry `n` of a directory takes one step more than the directory
(`Path.rawSteps_entry`), and the path of a location from the root takes the steps that the location
lists (`Location.components_path`), both for names that entries can have (`IsName`). Such a path is
written as components with slashes between them, and these are read as the same components
(`filterMap_segments_intercalate_text`).
-/

namespace ArgumentSchemes.Files

/-! ### Segments -/

theorem segments_eq_splitOn (cs : List Char) : segments cs = cs.splitOn '/' := by
  induction cs with
  | nil => rfl
  | cons c cs ih =>
    rw [segments, List.splitOn_cons_eq_if_modifyHead, ih]
    simp

theorem segments_append_slash (cs rest : List Char) :
    segments (cs ++ '/' :: rest) = segments cs ++ segments rest := by
  simp only [segments_eq_splitOn, List.splitOn_append_cons_self]

theorem segments_of_slash_not_mem {cs : List Char} (h : '/' ∉ cs) : segments cs = [cs] := by
  rw [segments_eq_splitOn, List.splitOn_eq_singleton h]

/-- The characters of a segment are those of the text, without slashes. -/
theorem mem_of_mem_segments {cs segment : List Char} (h : segment ∈ segments cs) {c : Char}
    (hc : c ∈ segment) : c ∈ cs ∧ c ≠ '/' := by
  induction cs generalizing segment with
  | nil =>
    obtain rfl : segment = [] := by simpa [segments] using h
    cases hc
  | cons d cs ih =>
    rw [segments] at h
    split at h
    · rcases List.mem_cons.mp h with rfl | h
      · cases hc
      · exact (ih h hc).imp_left (List.mem_cons_of_mem d)
    · next hd =>
      rcases hs : segments cs with _ | ⟨first, rest⟩
      · exact absurd hs (segments_ne_nil cs)
      rw [hs, List.modifyHead_cons] at h
      rcases List.mem_cons.mp h with rfl | h
      · rcases List.mem_cons.mp hc with rfl | hc
        · exact ⟨List.mem_cons_self, hd⟩
        · exact (ih (by simp [hs]) hc).imp_left (List.mem_cons_of_mem d)
      · exact (ih (by simp [hs, h]) hc).imp_left (List.mem_cons_of_mem d)

/-- A text is its first segment, or goes on with a slash behind it. -/
theorem eq_of_segments_eq_cons {cs first : List Char} {rest : List (List Char)}
    (h : segments cs = first :: rest) : cs = first ∨ ∃ others, cs = first ++ '/' :: others := by
  have hcs := intercalate_segments cs
  rw [h] at hcs
  rcases rest with _ | ⟨second, rest⟩
  · exact .inl (by simpa using hcs.symm)
  · exact .inr ⟨['/'].intercalate (second :: rest), by simpa using hcs.symm⟩

/-! ### Names -/

/-- A name that the entry of a directory can have. -/
structure IsName (n : String) : Prop where
  ne_empty : n ≠ ""
  ne_here : n ≠ "."
  ne_up : n ≠ ".."
  slash_not_mem : '/' ∉ n.toList
  nul_not_mem : '\x00' ∉ n.toList
  fits : n.utf8ByteSize ≤ maxNameSize

instance (n : String) : Decidable (IsName n) :=
  decidable_of_iff (n ≠ "" ∧ n ≠ "." ∧ n ≠ ".." ∧ '/' ∉ n.toList ∧ '\x00' ∉ n.toList ∧
      n.utf8ByteSize ≤ maxNameSize)
    ⟨fun ⟨hempty, hhere, hup, hslash, hnul, hfits⟩ => ⟨hempty, hhere, hup, hslash, hnul, hfits⟩,
      fun ⟨hempty, hhere, hup, hslash, hnul, hfits⟩ => ⟨hempty, hhere, hup, hslash, hnul, hfits⟩⟩

namespace IsName

variable {n : String}

theorem toList_ne_nil (h : IsName n) : n.toList ≠ [] := by
  simpa using h.ne_empty

theorem stepOfSegment?_toList (h : IsName n) : stepOfSegment? n.toList = some (.name n) := by
  have hhere : n.toList ≠ ['.'] := fun heq => h.ne_here (String.toList_inj.mp heq)
  have hup : n.toList ≠ ['.', '.'] := fun heq => h.ne_up (String.toList_inj.mp heq)
  rw [stepOfSegment?, if_neg h.toList_ne_nil, if_neg hhere, if_neg hup, String.ofList_toList]

end IsName

theorem stepOfSegment?_eq_none_iff {segment : List Char} :
    stepOfSegment? segment = none ↔ segment = [] := by
  rw [stepOfSegment?]
  split_ifs <;> simp_all

theorem stepOfSegment?_eq_here_iff {segment : List Char} :
    stepOfSegment? segment = some .here ↔ segment = ['.'] := by
  rw [stepOfSegment?]
  split_ifs <;> simp_all

/-- The step from the root stands for no segment. -/
theorem stepOfSegment?_ne_root (segment : List Char) : stepOfSegment? segment ≠ some .root := by
  rw [stepOfSegment?]
  split_ifs <;> simp

theorem stepOfSegment?_eq_name {segment : List Char} {n : String}
    (h : stepOfSegment? segment = some (.name n)) :
    n.toList = segment ∧ n ≠ "" ∧ n ≠ "." ∧ n ≠ ".." := by
  rw [stepOfSegment?] at h
  split_ifs at h with hempty hhere hup
  · cases h
  · cases h
  · obtain rfl : String.ofList segment = n := Component.name.inj (Option.some.inj h)
    refine ⟨String.toList_ofList, ?_, ?_, ?_⟩ <;>
      · rw [ne_eq, ← String.toList_inj, String.toList_ofList]
        assumption

/-- The names among the steps of a path are segments of its text. -/
theorem Path.exists_segment_of_mem_rawSteps {p : Path} {n : String} (h : .name n ∈ p.rawSteps) :
    ∃ segment ∈ segments p.text.toList, stepOfSegment? segment = some (.name n) := by
  rw [rawSteps] at h
  rcases List.mem_append.mp h with hroot | h
  · split at hroot <;> simp at hroot
  · exact List.mem_filterMap.mp h

/-- A step is a name of the path only if an entry can have it, up to its size. -/
theorem Path.isName_of_mem_rawSteps {p : Path} {n : String} (h : .name n ∈ p.rawSteps)
    (hnul : '\x00' ∉ p.text.toList) (hfits : n.utf8ByteSize ≤ maxNameSize) : IsName n := by
  obtain ⟨segment, hmem, hstep⟩ := exists_segment_of_mem_rawSteps h
  obtain ⟨rfl, hempty, hhere, hup⟩ := stepOfSegment?_eq_name hstep
  exact
    { ne_empty := hempty
      ne_here := hhere
      ne_up := hup
      slash_not_mem := fun hslash => (mem_of_mem_segments hmem hslash).2 rfl
      nul_not_mem := fun hmem' => hnul (mem_of_mem_segments hmem hmem').1
      fits := hfits }

/-! ### Steps and components -/

/-- Steps without idle ones, apart from a `.` at the beginning. -/
def Component.tidy : List Component → List Component
  | .here :: rest => .here :: rest.filter (· != .here)
  | steps => steps.filter (· != .here)

theorem Component.tidy_of_head?_ne {steps : List Component} (h : steps.head? ≠ some .here) :
    tidy steps = steps.filter (· != .here) := by
  unfold tidy
  split
  · simp at h
  · rfl

theorem Component.tidy_sublist (steps : List Component) : (tidy steps).Sublist steps := by
  unfold tidy
  split
  · exact List.filter_sublist.cons_cons _
  · exact List.filter_sublist

theorem Component.tidy_eq_self {steps : List Component} (h : .here ∉ steps) :
    tidy steps = steps := by
  rw [tidy_of_head?_ne fun hhead => h (List.mem_of_mem_head? hhead), List.filter_eq_self]
  intro c hc
  exact bne_iff_ne.mpr fun hhere => h (hhere ▸ hc)

theorem Component.tidy_tidy (steps : List Component) : tidy (tidy steps) = tidy steps := by
  rcases steps with _ | ⟨c, steps⟩
  · rfl
  · cases c <;> simp [tidy]

theorem Component.tidy_append_names (steps : List Component) (names : List String) :
    tidy (steps ++ names.map .name) = tidy steps ++ names.map .name := by
  have hnames : (names.map Component.name).filter (· != .here) = names.map .name := by
    rw [List.filter_eq_self]
    simp
  rcases steps with _ | ⟨step, steps⟩
  · rw [tidy_of_head?_ne]
    · simp [tidy, hnames]
    · cases names <;> simp
  · cases step <;> simp [tidy, hnames]

theorem Component.mem_tidy {steps : List Component} {step : Component} (h : step ≠ .here) :
    step ∈ tidy steps ↔ step ∈ steps := by
  unfold tidy
  split <;> simp [h]

theorem ofSegment?_eq (segment : List Char) :
    Component.ofSegment? segment = (stepOfSegment? segment).filter (· != .here) := by
  rw [Component.ofSegment?, stepOfSegment?]
  by_cases hempty : segment = []
  · simp [hempty]
  · by_cases hhere : segment = ['.']
    · simp [hhere, Option.filter]
    · by_cases hup : segment = ['.', '.'] <;> simp [hempty, hhere, hup, Option.filter]

theorem filterMap_ofSegment? (segments : List (List Char)) :
    segments.filterMap Component.ofSegment? =
      (segments.filterMap stepOfSegment?).filter (· != .here) := by
  rw [List.filter_filterMap]
  congr 1
  funext segment
  exact ofSegment?_eq segment

namespace Path

theorem isAbsolute_iff {p : Path} : p.isAbsolute = true ↔ p.text.toList.head? = some '/' := by
  rw [isAbsolute, parts]
  split
  · next hcs => simp [hcs]
  · next hcs => simp [hcs]
  · next hcs => simp [hcs]
  · next hslash _ _ =>
    rcases hcs : p.text.toList with _ | ⟨c, cs⟩
    · simp
    · have hc : c ≠ '/' := by
        rintro rfl
        exact hslash cs hcs
      simp [hc]

theorem rawSteps_of_isAbsolute {p : Path} (h : p.isAbsolute = true) :
    p.rawSteps = .root :: (segments p.text.toList).filterMap stepOfSegment? := by
  rw [rawSteps, if_pos h]
  rfl

theorem rawSteps_of_not_isAbsolute {p : Path} (h : p.isAbsolute = false) :
    p.rawSteps = (segments p.text.toList).filterMap stepOfSegment? := by
  rw [rawSteps, if_neg (by simp [h])]
  rfl

/-- The **components** of a path are its steps, tidied up. -/
theorem components_eq_tidy (p : Path) : p.components = Component.tidy p.rawSteps := by
  rw [components, parts]
  split
  · next rest hcs =>
    have habsolute : p.isAbsolute = true := isAbsolute_iff.mpr (by rw [hcs]; rfl)
    rw [rawSteps_of_isAbsolute habsolute, hcs, segments, if_pos rfl, filterMap_ofSegment?]
    simp [stepOfSegment?, Component.tidy]
  · next hcs =>
    have hrelative : p.isAbsolute = false := by
      rw [← Bool.not_eq_true, isAbsolute_iff, hcs]
      decide
    rw [rawSteps_of_not_isAbsolute hrelative, hcs]
    rfl
  · next rest hcs =>
    have hrelative : p.isAbsolute = false := by
      rw [← Bool.not_eq_true, isAbsolute_iff, hcs]
      simp
    have hsegments : segments ('.' :: '/' :: rest) = ['.'] :: segments rest :=
      segments_append_slash ['.'] rest
    rw [rawSteps_of_not_isAbsolute hrelative, hcs, hsegments, filterMap_ofSegment?]
    simp [stepOfSegment?, Component.tidy]
  · next cs hslash hdot hdotSlash =>
    have hrelative : p.isAbsolute = false := by
      rw [← Bool.not_eq_true, isAbsolute_iff]
      intro hhead
      obtain ⟨rest, hrest⟩ := List.head?_eq_some_iff.mp hhead
      exact hslash rest hrest
    rw [rawSteps_of_not_isAbsolute hrelative, filterMap_ofSegment?]
    refine (Component.tidy_of_head?_ne fun hhead => ?_).symm
    -- the first segment that is a step would be a `.` at the beginning of the text
    rcases hsegments : segments p.text.toList with _ | ⟨first, rest⟩
    · exact segments_ne_nil _ hsegments
    rw [hsegments, List.filterMap_cons] at hhead
    split at hhead
    · next hidle =>
      obtain rfl := stepOfSegment?_eq_none_iff.mp hidle
      rcases eq_of_segments_eq_cons hsegments with hcs | ⟨others, hcs⟩
      · rw [hcs] at hsegments
        obtain ⟨-, rfl⟩ := List.cons.inj hsegments
        cases hhead
      · exact hslash others hcs
    · next step hstep =>
      obtain rfl : step = .here := by simpa using hhead
      obtain rfl := stepOfSegment?_eq_here_iff.mp hstep
      rcases eq_of_segments_eq_cons hsegments with hcs | ⟨others, hcs⟩
      · exact hdot hcs
      · exact hdotSlash others hcs

theorem rawSteps_ne_nil {p : Path} (hp : p.text ≠ "") : p.rawSteps ≠ [] := by
  intro hnil
  have hcs : p.text.toList ≠ [] := by simpa using hp
  have hrelative : p.isAbsolute = false := by
    rw [← Bool.not_eq_true]
    intro habsolute
    rw [rawSteps_of_isAbsolute habsolute] at hnil
    cases hnil
  rw [rawSteps_of_not_isAbsolute hrelative, List.filterMap_eq_nil_iff] at hnil
  rcases hsegments : segments p.text.toList with _ | ⟨first, rest⟩
  · exact segments_ne_nil _ hsegments
  -- the first segment is empty, but the text does not begin with a slash
  obtain rfl := stepOfSegment?_eq_none_iff.mp (hnil first (by simp [hsegments]))
  rcases eq_of_segments_eq_cons hsegments with hempty | ⟨others, hslash⟩
  · exact hcs hempty
  · rw [← Bool.not_eq_true, isAbsolute_iff, hslash] at hrelative
    exact hrelative rfl

theorem senseless?_eq_none_iff {p : Path} :
    p.senseless? = none ↔ '\x00' ∉ p.text.toList ∧ p.text ≠ "" := by
  rw [senseless?]
  split_ifs <;> simp_all

theorem refusal?_eq_none_iff {p : Path} :
    p.refusal? = none ↔ p.senseless? = none ∧ p.fits = true := by
  rw [refusal?]
  rcases p.senseless? with _ | fault
  · by_cases hfits : p.fits = true <;> simp [hfits]
  · simp

/-! ### Entries -/

theorem isAbsolute_of_isName {n : String} (hn : IsName n) : (Path.mk n).isAbsolute = false := by
  rw [← Bool.not_eq_true, isAbsolute_iff]
  intro hhead
  exact hn.slash_not_mem (List.mem_of_mem_head? hhead)

/-- The text of an entry: one slash stands before its name. -/
theorem exists_text_entry {p : Path} (hp : p.text ≠ "") {n : String} (hn : IsName n) :
    ∃ directory, (p.entry n).text.toList = directory ++ '/' :: n.toList ∧
      (p.text.toList = directory ∨ p.text.toList = directory ++ ['/']) := by
  have hempty : p.text.isEmpty = false := by simpa using hp
  rw [entry, join]
  simp only [isAbsolute_of_isName hn, hempty, Bool.false_eq_true, or_self, if_false]
  split
  · next hlast =>
    obtain ⟨directory, hdirectory⟩ := List.getLast?_eq_some_iff.mp hlast
    exact ⟨directory, by simp [hdirectory], .inr hdirectory⟩
  · exact ⟨p.text.toList, by simp, .inl rfl⟩

theorem text_entry_ne_empty {p : Path} (hp : p.text ≠ "") {n : String} (hn : IsName n) :
    (p.entry n).text ≠ "" := by
  obtain ⟨directory, htext, -⟩ := exists_text_entry hp hn
  rw [ne_eq, ← String.toList_inj, htext]
  simp

/-- An entry takes one step more than its directory. -/
theorem rawSteps_entry {p : Path} (hp : p.text ≠ "") {n : String} (hn : IsName n) :
    (p.entry n).rawSteps = p.rawSteps ++ [.name n] := by
  obtain ⟨directory, htext, hdirectory⟩ := exists_text_entry hp hn
  have habsolute : (p.entry n).isAbsolute = p.isAbsolute := by
    rw [Bool.eq_iff_iff, isAbsolute_iff, isAbsolute_iff, htext]
    rcases directory with _ | ⟨c, directory⟩
    · have hempty : p.text.toList ≠ [] := by simpa using hp
      have hroot : p.text.toList = ['/'] := hdirectory.resolve_left hempty
      simp [hroot]
    · rcases hdirectory with hdirectory | hdirectory <;> simp [hdirectory]
  have hsegments : (segments p.text.toList).filterMap stepOfSegment? =
      (segments directory).filterMap stepOfSegment? := by
    rcases hdirectory with hdirectory | hdirectory
    · rw [hdirectory]
    · rw [hdirectory, segments_append_slash]
      simp [segments, stepOfSegment?]
  rw [rawSteps, rawSteps, habsolute, hsegments, htext, segments_append_slash,
    segments_of_slash_not_mem hn.slash_not_mem, List.filterMap_append]
  simp [hn.stepOfSegment?_toList]

theorem endsInSlash_entry {p : Path} (hp : p.text ≠ "") {n : String} (hn : IsName n) :
    (p.entry n).endsInSlash = false := by
  obtain ⟨directory, htext, -⟩ := exists_text_entry hp hn
  have hlast : (directory ++ '/' :: n.toList).getLast? = n.toList.getLast? := by
    rw [List.getLast?_append_cons, List.getLast?_cons_of_ne_nil hn.toList_ne_nil]
  rw [endsInSlash, htext, hlast, beq_eq_false_iff_ne]
  intro hslash
  exact hn.slash_not_mem (List.mem_of_mem_getLast? hslash)

/-- A path to an entry makes sense when that to the directory does. -/
theorem senseless?_entry {p : Path} (hp : p.senseless? = none) {n : String} (hn : IsName n) :
    (p.entry n).senseless? = none := by
  obtain ⟨hnul, hempty⟩ := senseless?_eq_none_iff.mp hp
  obtain ⟨directory, htext, hdirectory⟩ := exists_text_entry hempty hn
  refine senseless?_eq_none_iff.mpr ⟨?_, text_entry_ne_empty hempty hn⟩
  have hnul' : '\x00' ∉ directory := by
    rcases hdirectory with hdirectory | hdirectory <;> simp_all
  rw [htext]
  simp [hnul', hn.nul_not_mem]

/-- Paths to what is deep below a directory make sense and take the steps to the directory, and one
step for each name. -/
theorem rawSteps_foldl_entry {p : Path} (hp : p.senseless? = none) {names : List String}
    (hnames : ∀ n ∈ names, IsName n) :
    (names.foldl entry p).senseless? = none ∧
      (names.foldl entry p).rawSteps = p.rawSteps ++ names.map .name := by
  induction names generalizing p with
  | nil => exact ⟨hp, by simp⟩
  | cons n names ih =>
    have hn := hnames n List.mem_cons_self
    have hempty := (senseless?_eq_none_iff.mp hp).2
    obtain ⟨hsense, hsteps⟩ := ih (senseless?_entry hp hn) fun m hm =>
      hnames m (List.mem_cons_of_mem n hm)
    exact ⟨hsense, by rw [List.foldl_cons, hsteps, rawSteps_entry hempty hn]; simp⟩

theorem steps_foldl_entry {p : Path} (hp : p.senseless? = none) {names : List String}
    (hnames : ∀ n ∈ names, IsName n) (hne : names ≠ []) :
    (names.foldl entry p).steps = p.rawSteps ++ names.map .name := by
  obtain ⟨above, n, rfl⟩ : ∃ above n, names = above ++ [n] :=
    ⟨names.dropLast, names.getLast hne, (List.dropLast_append_getLast hne).symm⟩
  have habove := (rawSteps_foldl_entry hp fun m hm => hnames m (List.mem_append_left _ hm)).1
  have hslash : ((above ++ [n]).foldl entry p).endsInSlash = false := by
    rw [List.foldl_append]
    exact endsInSlash_entry (senseless?_eq_none_iff.mp habove).2 (hnames n (by simp))
  rw [steps, hslash, (rawSteps_foldl_entry hp hnames).2]
  simp

theorem components_foldl_entry {p : Path} (hp : p.senseless? = none) {names : List String}
    (hnames : ∀ n ∈ names, IsName n) :
    (names.foldl entry p).components = p.components ++ names.map .name := by
  rw [components_eq_tidy, components_eq_tidy, (rawSteps_foldl_entry hp hnames).2,
    Component.tidy_append_names]

theorem eq_of_components_foldl_entry {p : Path} (hp : p.senseless? = none)
    {names names' : List String} (hnames : ∀ n ∈ names, IsName n)
    (hnames' : ∀ n ∈ names', IsName n)
    (h : (names.foldl entry p).components = (names'.foldl entry p).components) :
    names = names' := by
  rw [components_foldl_entry hp hnames, components_foldl_entry hp hnames'] at h
  have hinjective : Function.Injective Component.name := fun _ _ => Component.name.inj
  exact hinjective.list_map (List.append_cancel_left h)

end Path

/-! ### Where steps lead -/

/-- The location that a step leads to, when the tree is not asked. -/
def Location.after (l : Location) : Component → Location
  | .root => []
  | .here => l
  | .up => l.dropLast
  | .name n => l ++ [n]

theorem foldl_after_names (l : Location) (names : List String) :
    (names.map Component.name).foldl Location.after l = l ++ names := by
  induction names generalizing l with
  | nil => simp
  | cons n names ih => simp [ih, Location.after]

theorem foldl_after_filter (l : Location) (steps : List Component) :
    (steps.filter (· != .here)).foldl Location.after l = steps.foldl Location.after l := by
  induction steps generalizing l with
  | nil => rfl
  | cons step steps ih => cases step <;> simp [Location.after, ih]

theorem foldl_after_tidy (l : Location) (steps : List Component) :
    (Component.tidy steps).foldl Location.after l = steps.foldl Location.after l := by
  unfold Component.tidy
  split
  · exact foldl_after_filter l _
  · exact foldl_after_filter l _

namespace Site

/-- The location that a path **spells**: where its components lead without asking the tree. -/
def spelled (s : Site) (p : Path) : Location := p.components.foldl Location.after s.cwd

theorem spelled_eq_rawSteps (s : Site) (p : Path) :
    s.spelled p = p.rawSteps.foldl Location.after s.cwd := by
  rw [spelled, Path.components_eq_tidy, foldl_after_tidy]

theorem spelled_eq_steps (s : Site) (p : Path) :
    s.spelled p = p.steps.foldl Location.after s.cwd := by
  rw [spelled_eq_rawSteps, Path.steps, List.foldl_append]
  split <;> rfl

/-- Something below a directory is spelled as the directory is, and its names. -/
theorem spelled_foldl_entry {s : Site} {p : Path} (hp : p.senseless? = none)
    {names : List String} (hnames : ∀ n ∈ names, IsName n) :
    s.spelled (names.foldl Path.entry p) = s.spelled p ++ names := by
  rw [spelled, Path.components_foldl_entry hp hnames, List.foldl_append, foldl_after_names]
  rfl

end Site

/-! ### Components written as segments -/

/-- A component that is a segment of a path: its text has no slash and stands for it. -/
structure Component.IsSegment (c : Component) : Prop where
  reads : stepOfSegment? c.text.toList = some c
  slash_not_mem : '/' ∉ c.text.toList

/-- A segment is the text of the step that it stands for. -/
theorem toList_text_of_stepOfSegment? {segment : List Char} {c : Component}
    (h : stepOfSegment? segment = some c) : c.text.toList = segment := by
  rw [stepOfSegment?] at h
  split_ifs at h with hempty hhere hup
  · rw [← Option.some.inj h, hhere]
    rfl
  · rw [← Option.some.inj h, hup]
    rfl
  · rw [← Option.some.inj h, Component.text, String.toList_ofList]

theorem isSegment_of_stepOfSegment? {segment : List Char} {c : Component}
    (h : stepOfSegment? segment = some c) (hslash : '/' ∉ segment) : c.IsSegment := by
  have htext := toList_text_of_stepOfSegment? h
  exact ⟨by rw [htext, h], by rwa [htext]⟩

theorem IsName.isSegment {n : String} (h : IsName n) : (Component.name n).IsSegment :=
  ⟨h.stepOfSegment?_toList, h.slash_not_mem⟩

/-- The steps that the segments of a text stand for are segments. -/
theorem isSegment_of_mem_filterMap_segments {cs : List Char} {c : Component}
    (h : c ∈ (segments cs).filterMap stepOfSegment?) : c.IsSegment := by
  obtain ⟨segment, hmem, hstep⟩ := List.mem_filterMap.mp h
  exact isSegment_of_stepOfSegment? hstep fun hslash => (mem_of_mem_segments hmem hslash).2 rfl

theorem segments_toList_slash_append (text : String) :
    segments ("/" ++ text).toList = [] :: segments text.toList := by
  rw [String.toList_append]
  exact segments_append_slash [] text.toList

section Segments

variable {steps : List Component} (h : ∀ c ∈ steps, c.IsSegment)

include h

theorem segments_intercalate_text (hne : steps ≠ []) :
    segments ("/".intercalate (steps.map Component.text)).toList =
      steps.map fun c => c.text.toList := by
  have hslash : ∀ l ∈ (steps.map Component.text).map String.toList, '/' ∉ l := by
    simp only [List.map_map, List.mem_map]
    rintro _ ⟨c, hc, rfl⟩
    exact (h c hc).slash_not_mem
  rw [String.toList_intercalate, segments_eq_splitOn]
  exact (List.splitOn_intercalate '/' hslash (by simpa using hne)).trans (List.map_map ..)

/-- Components with slashes between them are read as the same components. -/
theorem filterMap_segments_intercalate_text :
    (segments ("/".intercalate (steps.map Component.text)).toList).filterMap stepOfSegment? =
      steps := by
  by_cases hne : steps = []
  · subst hne
    rfl
  calc (segments ("/".intercalate (steps.map Component.text)).toList).filterMap stepOfSegment?
      = steps.filterMap (stepOfSegment? ∘ fun c => c.text.toList) := by
        rw [segments_intercalate_text h hne, List.filterMap_map]
    _ = steps.filterMap some := List.filterMap_congr fun c hc => (h c hc).reads
    _ = steps := List.filterMap_some

end Segments

namespace Path

theorem isAbsolute_slash_append (text : String) : isAbsolute ⟨"/" ++ text⟩ = true :=
  isAbsolute_iff.mpr (by simp)

/-- Behind a slash in front, a path takes the steps of its segments from the root. -/
theorem rawSteps_slash_append (text : String) :
    rawSteps ⟨"/" ++ text⟩ = .root :: (segments text.toList).filterMap stepOfSegment? := by
  rw [rawSteps_of_isAbsolute (isAbsolute_slash_append text), segments_toList_slash_append]
  rfl

end Path

/-! ### Paths of locations -/

namespace Location

theorem rawSteps_path {l : Location} (h : ∀ n ∈ l, IsName n) :
    l.path.rawSteps = .root :: l.map .name := by
  have hsegments : ∀ c ∈ l.map Component.name, c.IsSegment := by
    simpa using fun n hn => (h n hn).isSegment
  have htexts : (l.map Component.name).map Component.text = l := by
    rw [List.map_map]
    exact List.map_id l
  have hsteps := filterMap_segments_intercalate_text hsegments
  rw [htexts] at hsteps
  rw [path, Path.rawSteps_slash_append, hsteps]

theorem components_path {l : Location} (h : ∀ n ∈ l, IsName n) :
    l.path.components = .root :: l.map .name := by
  rw [Path.components_eq_tidy, rawSteps_path h, Component.tidy_eq_self (by simp)]

/-- The path of a location spells it. -/
theorem spelled_path {s : Site} {l : Location} (h : ∀ n ∈ l, IsName n) : s.spelled l.path = l := by
  rw [Site.spelled, components_path h, List.foldl_cons, foldl_after_names]
  rfl

/-- The path of a location above is no longer. -/
theorem fits_path_of_prefix {l m : Location} (h : l <+: m) (hm : m.path.fits = true) :
    l.path.fits = true := by
  obtain ⟨names, rfl⟩ := h
  have hsize : l.path.text.utf8ByteSize ≤ (l ++ names : Location).path.text.utf8ByteSize := by
    by_cases hl : l = []
    · subst hl
      simp [path]
    · by_cases hnames : names = []
      · simp [hnames]
      · simp only [path, String.intercalate_append_of_ne_nil hl hnames, String.utf8ByteSize_append]
        omega
  simp only [Path.fits, decide_eq_true_eq] at hm ⊢
  exact hsize.trans hm

end Location

end ArgumentSchemes.Files
