import ArgumentSchemes.Proofs.Acceptance

/-!
# Which fault of a scheme is reported

A body can break several rules at once, and they are noticed at different times: a line that
contradicts an earlier one while the body is read, and all else when the draft is checked. Here the
fault that is reported is said of the lines alone, by the rules in their order (`Region.Reports`):
the first line that contradicts the lines before it; if there is none, the first entry that lacks a
part; if all entries are complete, the enum; and if that is in order, the first constant that holds
the reserved marker.

Reading goes on behind a contradiction and may still change the entries. They only count when
nothing contradicts anything, and then they are those that the lines begin
(`Spells.eq_entriesBegun`).

Main statement: a closed region is refused exactly with the fault that these rules report
(`first_fault_reported`).
-/

namespace ArgumentSchemes.Header

/-! ### Contradictions -/

/-- A constant behind the marks `ms` meets the constant `existing` of its entry, which is called
`entry`. -/
inductive Clash (constant : String) (ms : List Mark) : (entry existing : String) → Prop
  /-- A constant was given since the last documentation. -/
  | bound {before : List Mark} {text tag existing : String} {others : List String}
      (h : ms = before ++ .doc text tag :: (existing :: others).map .constant) :
      Clash constant ms (nameOf text tag) existing
  /-- A constant was given, and no documentation at all. -/
  | undocumented {existing : String} {others : List String}
      (h : ms = (existing :: others).map .constant) : Clash constant ms existing existing
  /-- The documentation right before declares another constant. -/
  | declared {before : List Mark} {text tag : String} (h : ms = before ++ [.doc text tag])
      (hnamed : (splitNamedDoc? text).isSome) (hne : constant ≠ tag) :
      Clash constant ms (nameOf text tag) tag

/-- The number of the line of the body that comes behind the lines `seen`. -/
def Region.lineBehind (r : Region) (seen : List Line) : Nat :=
  r.number + 1 + r.summary.length + seen.length

/-- A line of the body **contradicts** the lines `seen` before it. -/
inductive Contradicts (r : Region) (seen : List Line) : Line → SchemeFault → Prop
  | group {group existing : String} {others : List String} (h : groups seen = existing :: others) :
      Contradicts r seen (.enumHeader group)
        (.malformedGroup r.name group r.role s!"enum group already set to `{existing}`")
  | constant {constant entry existing : String} (h : Clash constant (marks seen) entry existing) :
      Contradicts r seen (.enumEntry constant)
        (.duplicateConstant r.name entry existing constant (r.lineBehind seen))

/-- No line contradicts those before it. -/
def Consistent (r : Region) (ls : List Line) : Prop :=
  ∀ seen line fault, seen ++ [line] <+: ls → ¬ Contradicts r seen line fault

/-- The fault is that of the first line that contradicts those before it. -/
def FirstContradiction (r : Region) (ls : List Line) (fault : SchemeFault) : Prop :=
  ∃ seen line, seen ++ [line] <+: ls ∧ Consistent r seen ∧ Contradicts r seen line fault

section

variable {r : Region} {seen : List Line} {line : Line} {fault : SchemeFault}

theorem consistent_nil (r : Region) : Consistent r [] := by
  intro seen line fault hfront
  simp at hfront

theorem not_firstContradiction_nil : ¬ FirstContradiction r [] fault := by
  rintro ⟨seen, line, hfront, -⟩
  simp at hfront

theorem consistent_concat_iff :
    Consistent r (seen ++ [line]) ↔
      Consistent r seen ∧ ∀ fault, ¬ Contradicts r seen line fault := by
  constructor
  · intro h
    exact ⟨fun seen' line' fault hfront => h seen' line' fault (hfront.trans (by simp)),
      fun fault => h seen line fault (List.prefix_refl _)⟩
  · rintro ⟨hseen, hline⟩ seen' line' fault hfront
    rcases List.prefix_concat_iff.mp hfront with heq | hfront
    · obtain ⟨rfl, hlast⟩ := List.append_inj' heq rfl
      obtain rfl := List.singleton_inj.mp hlast
      exact hline fault
    · exact hseen seen' line' fault hfront

theorem firstContradiction_concat_iff :
    FirstContradiction r (seen ++ [line]) fault ↔
      FirstContradiction r seen fault ∨ Consistent r seen ∧ Contradicts r seen line fault := by
  constructor
  · rintro ⟨seen', line', hfront, hconsistent, hline⟩
    rcases List.prefix_concat_iff.mp hfront with heq | hfront
    · obtain ⟨rfl, hlast⟩ := List.append_inj' heq rfl
      obtain rfl := List.singleton_inj.mp hlast
      exact .inr ⟨hconsistent, hline⟩
    · exact .inl ⟨seen', line', hfront, hconsistent, hline⟩
  · rintro (⟨seen', line', hfront, hconsistent, hline⟩ | ⟨hconsistent, hline⟩)
    · exact ⟨seen', line', hfront.trans (by simp), hconsistent, hline⟩
    · exact ⟨seen, line, List.prefix_refl _, hconsistent, hline⟩

end

/-! ### The entry that a constant belongs to -/

theorem doc_not_mem_map_constant {text tag : String} {constants : List String} :
    Mark.doc text tag ∉ constants.map .constant := by simp

/-- The last documentation and the constants behind it are found again. -/
theorem last_doc_inj {before before' : List Mark} {text tag text' tag' : String}
    {constants constants' : List String}
    (h : before ++ .doc text tag :: constants.map .constant =
      before' ++ .doc text' tag' :: constants'.map .constant) :
    text = text' ∧ tag = tag' ∧ constants = constants' := by
  have hinj : Function.Injective Mark.constant := fun _ _ => Mark.constant.inj
  -- one of the two places would be among the constants behind the other, if they differed
  rcases List.append_eq_append_iff.mp h with ⟨as, -, has⟩ | ⟨as, -, has⟩
  · cases as with
    | nil =>
      obtain ⟨hdoc, hconstants⟩ := List.cons.inj has
      obtain ⟨rfl, rfl⟩ := Mark.doc.inj hdoc
      exact ⟨rfl, rfl, List.map_injective_iff.mpr hinj hconstants⟩
    | cons a as =>
      have hmem : Mark.doc text' tag' ∈ constants.map .constant := by
        rw [(List.cons.inj has).2]
        simp
      exact absurd hmem doc_not_mem_map_constant
  · cases as with
    | nil =>
      obtain ⟨hdoc, hconstants⟩ := List.cons.inj has
      obtain ⟨rfl, rfl⟩ := Mark.doc.inj hdoc
      exact ⟨rfl, rfl, (List.map_injective_iff.mpr hinj hconstants).symm⟩
    | cons a as =>
      have hmem : Mark.doc text tag ∈ constants'.map .constant := by
        rw [(List.cons.inj has).2]
        simp
      exact absurd hmem doc_not_mem_map_constant

/-- What a constant clashes with behind documentation and the constants that were given since. -/
theorem clash_doc_iff {constant entry existing : String} {before : List Mark} {text tag : String}
    {constants : List String} :
    Clash constant (before ++ .doc text tag :: constants.map .constant) entry existing ↔
      entry = nameOf text tag ∧
        (constants.head? = some existing ∨
          constants = [] ∧ (splitNamedDoc? text).isSome ∧ constant ≠ tag ∧ existing = tag) := by
  constructor
  · rintro (⟨h⟩ | ⟨h⟩ | ⟨h, hnamed, hne⟩)
    · obtain ⟨rfl, rfl, rfl⟩ := last_doc_inj h
      exact ⟨rfl, .inl rfl⟩
    · exact absurd (h ▸ List.mem_append_right _ List.mem_cons_self) doc_not_mem_map_constant
    · obtain ⟨rfl, rfl, rfl⟩ := @last_doc_inj _ _ _ _ _ _ _ [] h
      exact ⟨rfl, .inr ⟨rfl, hnamed, hne, rfl⟩⟩
  · rintro ⟨rfl, hhead | ⟨rfl, hnamed, hne, rfl⟩⟩
    · obtain ⟨others, rfl⟩ := List.head?_eq_some_iff.mp hhead
      exact .bound rfl
    · exact .declared rfl hnamed hne

/-- What a constant clashes with behind constants only. -/
theorem clash_constants_iff {constant entry existing : String} {constants : List String} :
    Clash constant (constants.map .constant) entry existing ↔
      entry = existing ∧ constants.head? = some existing := by
  have hinj : Function.Injective Mark.constant := fun _ _ => Mark.constant.inj
  constructor
  · rintro (⟨h⟩ | ⟨h⟩ | ⟨h, -, -⟩)
    · exact absurd (h ▸ List.mem_append_right _ List.mem_cons_self) doc_not_mem_map_constant
    · obtain rfl := List.map_injective_iff.mpr hinj h
      exact ⟨rfl, rfl⟩
    · exact absurd (h ▸ List.mem_append_right _ List.mem_cons_self) doc_not_mem_map_constant
  · rintro ⟨rfl, hhead⟩
    obtain ⟨others, rfl⟩ := List.head?_eq_some_iff.mp hhead
    exact .undocumented rfl

namespace EntryDraft

/-- Only a constant other than the declared one stands in the way of binding a new entry. -/
theorem conflict?_ofDoc_eq_some_iff {text tag constant existing : String} :
    (ofDoc text tag).conflict? constant = some existing ↔
      (splitNamedDoc? text).isSome ∧ constant ≠ tag ∧ existing = tag := by
  rw [ofDoc_eq, conflict?]
  rcases splitNamedDoc? text with _ | parts
  · simp
  · by_cases h : tag = constant
    · simp [Option.filter, h]
    · simp [Option.filter, h, Ne.symm h, @eq_comm _ existing]

theorem conflict?_of_constant {e : EntryDraft} {existing : String}
    (h : e.constant = some existing) (constant : String) :
    e.conflict? constant = some existing := by
  rw [conflict?, h]
  rfl

theorem label_of_argName {e : EntryDraft} {name : String} (h : e.argName = some name) :
    e.label = some name := by
  rw [label, h]
  rfl

theorem argName_ofDoc (text tag : String) : (ofDoc text tag).argName = some (nameOf text tag) := by
  rw [ofDoc_eq]

end EntryDraft

/-- **What stands in the way of a constant** is what it clashes with, as long as nothing contradicts
anything. -/
theorem Spells.clash_iff {ms : List Mark} {es : List EntryDraft} (h : Spells ms es)
    {constant entry existing : String} :
    Clash constant ms entry existing ↔
      ∃ e, es.getLast? = some e ∧ e.conflict? constant = some existing ∧
        e.label.getD constant = entry := by
  cases h with
  | nil => simpa using @clash_constants_iff constant entry existing []
  | orphan other =>
    refine (@clash_constants_iff constant entry existing [other]).trans ?_
    simp only [List.head?_cons, List.getLast?_singleton, Option.some.injEq, exists_eq_left']
    rw [EntryDraft.conflict?_of_constant rfl]
    constructor
    · rintro ⟨rfl, rfl⟩
      exact ⟨rfl, rfl⟩
    · rintro ⟨hother, rfl⟩
      exact ⟨Option.some.inj hother, Option.some.inj hother⟩
  | opened h text tag =>
    refine (@clash_doc_iff constant entry existing _ text tag []).trans ?_
    simp only [List.head?_nil, reduceCtorEq, false_or, true_and, List.getLast?_concat,
      Option.some.injEq, exists_eq_left', EntryDraft.conflict?_ofDoc_eq_some_iff,
      EntryDraft.label_of_argName (EntryDraft.argName_ofDoc text tag), Option.getD_some]
    rw [and_comm, @eq_comm _ entry]
  | bound h p hfree =>
    refine (@clash_doc_iff constant entry existing _ p.text p.tag [p.constant]).trans ?_
    simp only [List.head?_cons, reduceCtorEq, false_and, or_false, List.getLast?_concat,
      Option.some.injEq, exists_eq_left']
    have hlabel : EntryDraft.label
        { EntryDraft.ofDoc p.text p.tag with constant := some p.constant } = some _ :=
      EntryDraft.label_of_argName (EntryDraft.argName_ofDoc p.text p.tag)
    rw [EntryDraft.conflict?_of_constant rfl, hlabel, Option.some.injEq, Option.getD_some,
      and_comm, @eq_comm _ entry]

/-! ### The failure that a body leaves -/

namespace Draft

variable {d : Draft} {fault : SchemeFault} (hok : d.failure = none)

include hok

theorem failure_fail (fault : SchemeFault) : (d.fail fault).failure = some fault := by
  change (d.failure <|> some fault) = some fault
  rw [hok]
  rfl

/-- The name of an enum is a failure when there is one already. -/
theorem failure_setGroup_iff {group : String} :
    (d.setGroup group).failure = some fault ↔
      ∃ existing, d.group = some existing ∧
        fault = .malformedGroup d.name group d.role s!"enum group already set to `{existing}`" := by
  rw [setGroup]
  rcases d.group with _ | existing
  · simp [hok]
  · simp [failure_fail hok, @eq_comm _ fault]

/-- A constant is a failure when another one stands in its way. -/
theorem failure_bindConstant_iff {constant : String} {number : Nat} :
    (d.bindConstant constant number).failure = some fault ↔
      ∃ e existing, d.entries.getLast? = some e ∧ e.conflict? constant = some existing ∧
        fault = .duplicateConstant d.name (e.label.getD constant) existing constant number := by
  rw [bindConstant]
  rcases d.entries.getLast? with _ | e
  · simp [hok]
  · rcases hconflict : e.conflict? constant with _ | existing
    · simp [hok, hconflict]
    · simp [failure_fail hok, hconflict, @eq_comm _ fault]

end Draft

/-- **One line** is noted as a failure exactly when it contradicts the lines before it. -/
theorem Reads.failure_absorb_iff {r : Region} {seen : List Line} {d : Draft} (h : Reads seen d)
    (hok : d.failure = none) (hname : d.name = r.name) (hrole : d.role = r.role) {line : Line}
    {fault : SchemeFault} :
    (d.absorb (r.lineBehind seen) line).failure = some fault ↔ Contradicts r seen line fault := by
  cases line with
  | enumHeader group =>
    refine (Draft.failure_setGroup_iff hok).trans ?_
    rw [hname, hrole]
    constructor
    · rintro ⟨existing, hgroup, rfl⟩
      exact .group (h.group.trans (by rw [hgroup]; rfl))
    · rintro (@⟨_, existing, _, hseen⟩ | _)
      have hgroup : some existing = d.group := by simpa [hseen] using congrArg List.head? h.group
      exact ⟨existing, hgroup.symm, rfl⟩
  | enumEntry constant =>
    refine (Draft.failure_bindConstant_iff hok).trans ?_
    rw [hname]
    constructor
    · rintro ⟨e, existing, hlast, hconflict, rfl⟩
      exact .constant (h.entries.clash_iff.mpr ⟨e, hlast, hconflict, rfl⟩)
    · rintro (_ | ⟨hclash⟩)
      obtain ⟨e, hlast, hconflict, rfl⟩ := h.entries.clash_iff.mp hclash
      exact ⟨e, _, hlast, hconflict, rfl⟩
  | _ =>
    -- any other line says nothing that could contradict
    refine iff_of_false (fun hf => ?_) (fun hcontradicts => nomatch hcontradicts)
    cases hok.symm.trans hf

theorem reads_heading (r : Region) : Reads [] r.heading := ⟨rfl, .nil⟩

/-- **What a body leaves as its failure** is the first contradiction, and nothing if there is none.
-/
theorem Region.failure_absorbAll_iff (r : Region) (ls : List Line) :
    ((r.heading.absorbAll (r.lineBehind []) ls).failure = none ↔ Consistent r ls) ∧
      ∀ fault, (r.heading.absorbAll (r.lineBehind []) ls).failure = some fault ↔
        FirstContradiction r ls fault := by
  induction ls using List.reverseRecOn with
  | nil =>
    refine ⟨iff_of_true rfl (consistent_nil r), fun fault => ?_⟩
    exact iff_of_false (fun hf => nomatch hf) not_firstContradiction_nil
  | append_singleton seen line ih =>
    obtain ⟨hnone, hsome⟩ := ih
    have hlast : r.heading.absorbAll (r.lineBehind []) (seen ++ [line]) =
        (r.heading.absorbAll (r.lineBehind []) seen).absorb (r.lineBehind seen) line :=
      Draft.absorbAll_append _ _ seen [line]
    rw [hlast, consistent_concat_iff]
    simp only [firstContradiction_concat_iff]
    rcases hseen : (r.heading.absorbAll (r.lineBehind []) seen).failure with _ | noted
    · -- all before is consistent, so the draft says what was read, and the line decides
      have hconsistent := hnone.mp hseen
      have hreads : Reads seen (r.heading.absorbAll (r.lineBehind []) seen) :=
        (reads_heading r).absorbAll hseen
      have hline : ∀ fault, _ ↔ Contradicts r seen line fault := fun fault =>
        hreads.failure_absorb_iff hseen (Draft.absorbAll_name ..) (Draft.absorbAll_role ..)
      have hfirst : ∀ fault, ¬ FirstContradiction r seen fault := by
        intro fault hf
        rw [← hsome, hseen] at hf
        cases hf
      refine ⟨?_, fun fault => ?_⟩
      · rw [Option.eq_none_iff_forall_ne_some]
        simp [hline, hconsistent]
      · rw [hline]
        simp [hfirst, hconsistent]
    · -- the first failure stays
      have hinconsistent : ¬ Consistent r seen := by
        intro hconsistent
        rw [hnone.mpr hconsistent] at hseen
        cases hseen
      simp [Draft.failure_absorb hseen, hinconsistent, ← hsome, hseen]

/-! ### The entries of a body -/

/-- The entries that marks begin, each with the constant right behind its documentation. A constant
that stands behind no documentation is an entry with nothing else. -/
def entriesBegun : List Mark → List EntryDraft
  | [] => []
  | .doc text tag :: .constant constant :: rest =>
    { EntryDraft.ofDoc text tag with constant := some constant } :: entriesBegun rest
  | .doc text tag :: rest => EntryDraft.ofDoc text tag :: entriesBegun rest
  | .constant constant :: rest => { constant := some constant } :: entriesBegun rest

theorem entriesBegun_append_doc (ms : List Mark) (text tag : String) (rest : List Mark) :
    entriesBegun (ms ++ .doc text tag :: rest) =
      entriesBegun ms ++ entriesBegun (.doc text tag :: rest) := by
  fun_induction entriesBegun ms with
  | case1 => rfl
  | case2 text' tag' constant ms ih => simp [entriesBegun, ih]
  | case3 text' tag' ms hms ih =>
    cases ms with
    | nil => simp [entriesBegun]
    | cons m ms =>
      cases m with
      | doc => simp [entriesBegun, ← ih]
      | constant c => exact absurd rfl (hms c ms)
  | case4 constant ms ih => simp [entriesBegun, ih]

/-- As long as nothing contradicts anything, the entries of a draft are those that its marks
begin. -/
theorem Spells.eq_entriesBegun {ms : List Mark} {es : List EntryDraft} (h : Spells ms es) :
    es = entriesBegun ms := by
  induction h with
  | nil => rfl
  | orphan constant => rfl
  | opened h text tag ih =>
    rw [entriesBegun_append_doc, ← ih]
    rfl
  | bound h p hfree ih =>
    rw [Spelling.marks, entriesBegun_append_doc, ← ih]
    rfl

/-- The constant that a mark gives. -/
def Mark.constant? : Mark → Option String
  | doc _ _ => none
  | constant name => some name

/-- The constants that the lines of a body give, in order. -/
def constants (ls : List Line) : List String := (marks ls).filterMap Mark.constant?

/-! ### The fault of a region -/

namespace Region

/-- Nothing contradicts anything in the body, and no entry lacks a part. -/
structure Complete (r : Region) : Prop where
  consistent : Consistent r r.body
  complete : ∀ e ∈ entriesBegun (marks r.body), e.missing? = none

/-- The rules in their order, and what each **reports** of a region. -/
inductive Reports (r : Region) (marker : String) : SchemeFault → Prop
  | contradiction {fault : SchemeFault} (h : FirstContradiction r r.body fault) :
      Reports r marker fault
  /-- The entry is reported by its number, counted from 1. -/
  | incomplete {before : List EntryDraft} {e : EntryDraft} {missing : EntryField}
      (hconsistent : Consistent r r.body)
      (h : FirstIncomplete (entriesBegun (marks r.body)) before e missing) :
      Reports r marker (.incompleteEntry r.name (before.length + 1) e.label missing)
  | ungrouped (hcomplete : r.Complete) (h : groups r.body = []) :
      Reports r marker (.malformedGroup r.name "" r.role
        "no `enum <name> \x7b` line before the terminator")
  | misgrouped {group : String} (hcomplete : r.Complete) (h : groups r.body = [group])
      (hsuffix : r.role.acceptsGroup group = false) :
      Reports r marker (.malformedGroup r.name group r.role
        s!"`{group}` does not end in an {r.role.name} suffix")
  | reserved {group constant : String} {before after : List String} (hcomplete : r.Complete)
      (hgroup : groups r.body = [group]) (hsuffix : r.role.acceptsGroup group = true)
      (hmarker : marker ≠ "") (h : constants r.body = before ++ constant :: after)
      (hconstant : marker.toList <:+: constant.toList)
      (hbefore : ∀ other ∈ before, ¬ marker.toList <:+: other.toList) :
      Reports r marker (.reservedName r.name constant marker)

theorem failure_draft_iff (r : Region) :
    (r.draft.failure = none ↔ Consistent r r.body) ∧
      ∀ fault, r.draft.failure = some fault ↔ FirstContradiction r r.body fault :=
  r.failure_absorbAll_iff r.body

/-- The draft of a consistent body says what its lines say. -/
theorem reads_draft {r : Region} (h : Consistent r r.body) : Reads r.body r.draft :=
  (reads_heading r).absorbAll (r.failure_draft_iff.1.mpr h)

theorem complete_iff {r : Region} :
    r.Complete ↔
      r.draft.failure = none ∧
        ∃ entries, completeEntries r.name 1 r.draft.entries = .ok entries := by
  rw [exists_completeEntries_iff, r.failure_draft_iff.1]
  constructor
  · rintro ⟨hconsistent, hcomplete⟩
    rw [(reads_draft hconsistent).entries.eq_entriesBegun]
    exact ⟨hconsistent, hcomplete⟩
  · rintro ⟨hconsistent, hcomplete⟩
    rw [(reads_draft hconsistent).entries.eq_entriesBegun] at hcomplete
    exact ⟨hconsistent, hcomplete⟩

/-- Complete entries have the constants that the lines give. -/
theorem constants_eq {r : Region} (h : r.WellFormed) (hconsistent : Consistent r r.body)
    {entries : List Entry} (hes : completeEntries r.name 1 r.draft.entries = .ok entries) :
    constants r.body = entries.map (·.constant) := by
  obtain ⟨ps, hps, rfl, -⟩ := (reads_draft hconsistent).entries.exists_spellings
    (fun _ _ hmem => (wellFormed_of_mem_marks h hmem).1) (completeEntries_eq_ok_iff.mp hes)
  rw [constants, hps]
  clear hps hes
  induction ps with
  | nil => rfl
  | cons p ps ih => exact congrArg (p.constant :: ·) ih

/-- The enum of a consistent body is in order when it has a suffix of the role. -/
theorem groupFault?_draft_eq_none_iff {r : Region} (h : r.WellFormed)
    (hconsistent : Consistent r r.body) :
    r.draft.groupFault? = none ↔
      ∃ group, groups r.body = [group] ∧ r.role.acceptsGroup group = true := by
  simp only [Draft.groupFault?_eq_none_iff, (reads_draft hconsistent).group,
    Option.toList_eq_singleton_iff, (draft_heading h).1]

/-- What is wrong with the enum of a consistent body. -/
theorem groupFault?_draft_eq_some_iff {r : Region} (h : r.WellFormed)
    (hconsistent : Consistent r r.body) {fault : SchemeFault} :
    r.draft.groupFault? = some fault ↔
      groups r.body = [] ∧ fault = .malformedGroup r.name "" r.role
          "no `enum <name> \x7b` line before the terminator" ∨
        ∃ group, groups r.body = [group] ∧ r.role.acceptsGroup group = false ∧
          fault = .malformedGroup r.name group r.role
            s!"`{group}` does not end in an {r.role.name} suffix" := by
  have hgroups := (reads_draft hconsistent).group
  rw [Draft.groupFault?_eq_some_iff, (draft_heading h).1, r.draft_name]
  rcases hgroup : r.draft.group with _ | group
  · simp [hgroups, hgroup]
  · -- the name of an enum is a word, so it is not empty
    have hne : group ≠ "" := by
      have hmem : group ∈ groups r.body := by simp [hgroups, hgroup]
      exact fun he => (isWord_of_mem_groups h hmem).ne_nil (String.toList_eq_nil_iff.mpr he)
    simp [hgroups, hgroup, hne]

end Region

/-- The first of the constants that holds the marker. -/
theorem Checker.find?_reserves_eq_some_iff {checker : Checker} {names : List String}
    {constant : String} :
    names.find? checker.reserves = some constant ↔
      checker.reservedMarker ≠ "" ∧ checker.reservedMarker.toList <:+: constant.toList ∧
        ∃ before after, names = before ++ constant :: after ∧
          ∀ other ∈ before, ¬ checker.reservedMarker.toList <:+: other.toList := by
  rw [List.find?_eq_some_iff_append, reserves_iff, and_assoc]
  refine and_congr_right fun hne => and_congr_right fun _ => ?_
  simp [← Bool.not_eq_true, reserves_iff, hne]

namespace Region

/-- What is reported of the entries of a consistent body. -/
theorem completeEntries_draft_eq_error_iff {r : Region} (hconsistent : Consistent r r.body)
    {fault : SchemeFault} :
    completeEntries r.name 1 r.draft.entries = .error fault ↔
      ∃ before e missing, FirstIncomplete (entriesBegun (marks r.body)) before e missing ∧
        fault = .incompleteEntry r.name (before.length + 1) e.label missing := by
  rw [(reads_draft hconsistent).entries.eq_entriesBegun, completeEntries_eq_error_iff]
  simp only [Nat.add_comm]

/-- Among complete entries, the first with a reserved constant has the first such constant of the
lines. -/
theorem exists_find?_reserves_iff {r : Region} (h : r.WellFormed)
    (hconsistent : Consistent r r.body) {entries : List Entry}
    (hes : completeEntries r.name 1 r.draft.entries = .ok entries) {checker : Checker}
    {constant : String} :
    (∃ e, entries.find? (checker.reserves ·.constant) = some e ∧ e.constant = constant) ↔
      checker.reservedMarker ≠ "" ∧ checker.reservedMarker.toList <:+: constant.toList ∧
        ∃ before after, constants r.body = before ++ constant :: after ∧
          ∀ other ∈ before, ¬ checker.reservedMarker.toList <:+: other.toList := by
  rw [← Checker.find?_reserves_eq_some_iff, constants_eq h hconsistent hes, List.find?_map,
    Option.map_eq_some_iff]
  rfl

/-- **The drafts that are refused** are refused with what the rules report. -/
theorem check_draft_eq_error_iff {r : Region} (h : r.WellFormed) {checker : Checker}
    {fault : SchemeFault} :
    checker.check r.draft = .error fault ↔ r.Reports checker.reservedMarker fault := by
  rw [Checker.check_eq_error_iff, r.draft_name]
  constructor
  · rintro (hf | ⟨hok, hes | ⟨entries, hes, hg⟩⟩)
    · exact .contradiction ((r.failure_draft_iff.2 fault).mp hf)
    · have hconsistent := r.failure_draft_iff.1.mp hok
      obtain ⟨before, e, missing, hfirst, rfl⟩ :=
        (completeEntries_draft_eq_error_iff hconsistent).mp hes
      exact .incomplete hconsistent hfirst
    · have hcomplete := complete_iff.mpr ⟨hok, entries, hes⟩
      rcases hg with hg | ⟨hg, e, he, rfl⟩
      · rcases (groupFault?_draft_eq_some_iff h hcomplete.consistent).mp hg with
          ⟨hgroups, rfl⟩ | ⟨group, hgroups, hsuffix, rfl⟩
        · exact .ungrouped hcomplete hgroups
        · exact .misgrouped hcomplete hgroups hsuffix
      · obtain ⟨group, hgroups, hsuffix⟩ :=
          (groupFault?_draft_eq_none_iff h hcomplete.consistent).mp hg
        obtain ⟨hne, hconstant, before, after, heq, hbefore⟩ :=
          (exists_find?_reserves_iff h hcomplete.consistent hes).mp ⟨e, he, rfl⟩
        exact .reserved hcomplete hgroups hsuffix hne heq hconstant hbefore
  · -- each rule comes with what the checks before its own need to pass
    intro hreports
    cases hreports with
    | contradiction hf => exact .inl ((r.failure_draft_iff.2 fault).mpr hf)
    | incomplete hconsistent hfirst =>
      exact .inr ⟨r.failure_draft_iff.1.mpr hconsistent,
        .inl ((completeEntries_draft_eq_error_iff hconsistent).mpr ⟨_, _, _, hfirst, rfl⟩)⟩
    | ungrouped hcomplete hgroups =>
      obtain ⟨hok, entries, hes⟩ := complete_iff.mp hcomplete
      refine .inr ⟨hok, .inr ⟨entries, hes, .inl ?_⟩⟩
      exact (groupFault?_draft_eq_some_iff h hcomplete.consistent).mpr (.inl ⟨hgroups, rfl⟩)
    | misgrouped hcomplete hgroups hsuffix =>
      obtain ⟨hok, entries, hes⟩ := complete_iff.mp hcomplete
      refine .inr ⟨hok, .inr ⟨entries, hes, .inl ?_⟩⟩
      exact (groupFault?_draft_eq_some_iff h hcomplete.consistent).mpr
        (.inr ⟨_, hgroups, hsuffix, rfl⟩)
    | reserved hcomplete hgroups hsuffix hne heq hconstant hbefore =>
      obtain ⟨hok, entries, hes⟩ := complete_iff.mp hcomplete
      obtain ⟨e, he, rfl⟩ := (exists_find?_reserves_iff h hcomplete.consistent hes).mpr
        ⟨hne, hconstant, _, _, heq, hbefore⟩
      refine .inr ⟨hok, .inr ⟨entries, hes, .inr ⟨?_, e, he, rfl⟩⟩⟩
      exact (groupFault?_draft_eq_none_iff h hcomplete.consistent).mpr ⟨_, hgroups, hsuffix⟩

end Region

/-- **The fault of a refused region** is the one that the rules report in their order: that of the
first line which contradicts the lines before it; if there is none, that of the first entry which
lacks a part; if all are complete, that of the enum; and if this is in order, that of the first
constant with the reserved marker. In front of the item of the region stand those of the lines
before it, and behind it those of the lines behind. -/
theorem first_fault_reported (checker : Checker) (text : String) {r : Region}
    {before behind : List Line} (h : r.StandsIn (kinds text) before behind) :
    ∃ item, checker.parse text =
        (segments 1 before).map (·.item checker) ++ item ::
          (segments (r.number + r.inside.length + 2) behind).map (·.item checker) ∧
      ∀ fault, item = .error fault ↔ r.Reports checker.reservedMarker fault :=
  ⟨checker.check r.draft, h.parse_eq checker,
    fun _ => Region.check_draft_eq_error_iff h.wellFormed⟩

/-- A region that breaks every rule: the first entry has no documentation, a constant is reserved,
one is not the declared one, and there are two enums, neither of them for inputs. The line that is
reported is the first that contradicts another one. -/
theorem first_fault_reported_of_many :
    let text := "/// Input arguments of f [fIn]\nenum fOut \x7b\n/// [a]\nF_NUM_A,\n" ++
      "/// b -- the b [F_B]\nF_C,\nF_B,\nenum gOut \x7b\n\x7d;\n"
    let r : Region := ⟨1, .input, "Input arguments of f", "fIn",
      [.enumHeader "fOut", .entryDoc "" "a", .enumEntry "F_NUM_A", .entryDoc "b -- the b" "F_B",
        .enumEntry "F_C", .enumEntry "F_B", .enumHeader "gOut"]⟩
    r.StandsIn (kinds text) [] [] ∧
      r.Reports "_NUM_" (.duplicateConstant "fIn" "b" "F_B" "F_C" 6) := by
  intro text r
  have h : r.StandsIn (kinds text) [] [] :=
    ⟨by decide +kernel, by decide, by decide, by decide⟩
  obtain ⟨item, hparse, hiff⟩ := first_fault_reported {} text h
  have hitems : Checker.parse {} text =
      [.error (.duplicateConstant "fIn" "b" "F_B" "F_C" 6)] := by decide +kernel
  rw [hitems] at hparse
  simp only [segments, List.map_nil, List.nil_append] at hparse
  exact ⟨h, (hiff _).mp (List.cons.inj hparse).1.symm⟩

end ArgumentSchemes.Header
