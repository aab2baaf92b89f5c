import ArgumentSchemes.Proofs.Checking
import ArgumentSchemes.Proofs.LineShapes
import ArgumentSchemes.Proofs.Reading

/-!
# How a body spells its entries

Of a body only three kinds of lines count: the heads of enums (`groups`), and, as `marks`, the
documentation of entries and the constants. While no failure is noted the entries of a draft say
exactly which marks have been read (`Spells`, `Reads`), because a mark that contradicts an earlier
one is a failure. So a body that leaves a complete draft without a failure **spells** its entries:
its marks are documentation and constant in turn (`Reads.exists_spellings`), and every such body
leaves such a draft (`Reads.failure_eq_none`, `Reads.completes`).
-/

namespace ArgumentSchemes.Header

open Text

/-! ### Marks -/

/-- A line that documents an entry or gives a constant. -/
inductive Mark where
  | doc (text tag : String)
  | constant (name : String)
deriving DecidableEq, Repr

/-- The texts and names of a mark are such as a line can have. -/
def Mark.WellFormed : Mark → Prop
  | doc text tag => IsDocText text ∧ IsWord tag.toList
  | constant name => IsWord name.toList

/-- What a line of a body says about the entries. An opening line reads as documentation there. -/
def Line.mark? : Line → Option Mark
  | entryDoc text tag => some (.doc text tag)
  | schemeStart _ title name => some (.doc title name)
  | enumEntry name => some (.constant name)
  | _ => none

/-- What a line of a body says about the enum. -/
def Line.group? : Line → Option String
  | enumHeader name => some name
  | _ => none

/-- What the lines of a body say about the entries, in order. -/
def marks (ls : List Line) : List Mark := ls.filterMap Line.mark?

/-- The heads of enums in a body, in order. -/
def groups (ls : List Line) : List String := ls.filterMap Line.group?

theorem marks_append (xs ys : List Line) : marks (xs ++ ys) = marks xs ++ marks ys :=
  List.filterMap_append

theorem groups_append (xs ys : List Line) : groups (xs ++ ys) = groups xs ++ groups ys :=
  List.filterMap_append

/-- The name that a documented line gives its entry. -/
def nameOf (text tag : String) : String :=
  match splitNamedDoc? text with
  | some (name, _) => name
  | none => tag

/-- The documentation that a documented line gives its entry. -/
def docOf (text : String) : String :=
  match splitNamedDoc? text with
  | some (_, doc) => doc
  | none => text

/-! ### Entries of documented lines -/

theorem nonBlank?_of_trimmed {text : String} (h : Trimmed text.toList) :
    nonBlank? text = if text = "" then none else some text := by
  rw [nonBlank?, h.trim_eq]
  split
  · next hnil => simp [String.toList_eq_nil_iff.mp hnil]
  · next hne =>
    have hne' : text ≠ "" := fun he => hne (String.toList_eq_nil_iff.mpr he)
    simp [hne']

theorem trimmed_docOf {text : String} (h : IsDocText text) : Trimmed (docOf text).toList := by
  rw [docOf]
  split
  · next hsplit => exact (shape_of_splitNamedDoc? hsplit).2.trimmed
  · exact h.trimmed

/-- The entry that a documented line begins, part by part. -/
theorem EntryDraft.ofDoc_eq (text tag : String) :
    EntryDraft.ofDoc text tag =
      { argName := some (nameOf text tag), doc := nonBlank? (docOf text)
        declared := if (splitNamedDoc? text).isSome then some tag else none } := by
  rw [EntryDraft.ofDoc, nameOf, docOf]
  rcases splitNamedDoc? text with _ | ⟨name, doc⟩ <;> rfl

/-- Only a constant other than the declared one stands in the way of a new entry. -/
theorem EntryDraft.conflict?_ofDoc_eq_none_iff {text tag constant : String} :
    (EntryDraft.ofDoc text tag).conflict? constant = none ↔
      ((splitNamedDoc? text).isSome → constant = tag) := by
  rw [EntryDraft.ofDoc_eq, EntryDraft.conflict?]
  rcases splitNamedDoc? text with _ | parts
  · simp
  · by_cases h : tag = constant
    · simp [Option.filter, h]
    · simp [Option.filter, h, Ne.symm h]

/-! ### Spellings -/

/-- One entry as a body spells it: a documented line, and the constant on a later one. -/
structure Spelling where
  text : String
  tag : String
  constant : String
deriving DecidableEq, Repr

namespace Spelling

/-- The marks of an entry. -/
def marks (p : Spelling) : List Mark := [.doc p.text p.tag, .constant p.constant]

/-- The entry. -/
def entry (p : Spelling) : Entry :=
  { argName := nameOf p.text p.tag, doc := docOf p.text, constant := p.constant }

/-- The entry has documentation, and a constant that its line declares is the one it gets. -/
structure Sound (p : Spelling) : Prop where
  documented : docOf p.text ≠ ""
  declared : (splitNamedDoc? p.text).isSome → p.constant = p.tag

end Spelling

/-- The entry drafts that marks leave behind as long as nothing contradicts anything. A constant in
front of all documentation makes an entry of its own; any other binds the entry of the documentation
right before it. -/
inductive Spells : List Mark → List EntryDraft → Prop
  | nil : Spells [] []
  | orphan (constant : String) :
      Spells [.constant constant] [{ constant := some constant }]
  | opened {ms : List Mark} {es : List EntryDraft} (h : Spells ms es) (text tag : String) :
      Spells (ms ++ [.doc text tag]) (es ++ [EntryDraft.ofDoc text tag])
  | bound {ms : List Mark} {es : List EntryDraft} (h : Spells ms es) (p : Spelling)
      (hfree : (EntryDraft.ofDoc p.text p.tag).conflict? p.constant = none) :
      Spells (ms ++ p.marks)
        (es ++ [{ EntryDraft.ofDoc p.text p.tag with constant := some p.constant }])

/-- Without a failure a further constant binds an entry that was just opened, or none is there. -/
theorem Spells.concat_constant {ms : List Mark} {es : List EntryDraft} (h : Spells ms es)
    (constant : String) (hfree : ∀ e, es.getLast? = some e → e.conflict? constant = none) :
    Spells (ms ++ [.constant constant])
      (match es.getLast? with
        | none => [{ constant := some constant }]
        | some e => es.dropLast ++ [{ e with constant := some constant }]) := by
  cases h with
  | nil => exact .orphan constant
  | orphan other => simp [EntryDraft.conflict?] at hfree
  | opened h text tag =>
    have hbound := h.bound ⟨text, tag, constant⟩ (hfree _ (by simp))
    simpa [Spelling.marks] using hbound
  | bound h p _ => simp [EntryDraft.conflict?] at hfree

/-- What is behind documentation is an entry without a constant. -/
theorem Spells.exists_of_concat_doc {ms : List Mark} {es : List EntryDraft} {text tag : String}
    (h : Spells (ms ++ [.doc text tag]) es) :
    ∃ es', Spells ms es' ∧ es = es' ++ [EntryDraft.ofDoc text tag] := by
  generalize hms : ms ++ [Mark.doc text tag] = ms' at h
  cases h with
  | nil => simp at hms
  | orphan constant => simp [List.append_eq_singleton_iff] at hms
  | opened h text' tag' =>
    obtain ⟨rfl, hlast⟩ := List.append_inj' hms rfl
    obtain ⟨rfl, rfl⟩ := Mark.doc.inj (List.singleton_inj.mp hlast)
    exact ⟨_, h, rfl⟩
  | bound h p _ =>
    have hlast := congrArg List.getLast? hms
    simp [Spelling.marks] at hlast

/-- What is behind a spelled entry is that entry, bound. -/
theorem Spells.exists_of_append_marks {ms : List Mark} {es : List EntryDraft} {p : Spelling}
    (h : Spells (ms ++ p.marks) es) :
    ∃ es', Spells ms es' ∧
      es = es' ++ [{ EntryDraft.ofDoc p.text p.tag with constant := some p.constant }] := by
  generalize hms : ms ++ p.marks = ms' at h
  cases h with
  | nil => simp [Spelling.marks] at hms
  | orphan constant =>
    have hlength := congrArg List.length hms
    simp [Spelling.marks] at hlength
  | opened h text tag =>
    have hlast := congrArg List.getLast? hms
    simp [Spelling.marks] at hlast
  | bound h p' _ =>
    obtain ⟨rfl, hp⟩ := List.append_inj' hms rfl
    obtain rfl : p = p' := by
      cases p
      cases p'
      simpa [Spelling.marks, and_assoc] using hp
    exact ⟨_, h, rfl⟩

theorem Spells.eq_nil {es : List EntryDraft} (h : Spells [] es) : es = [] := by
  generalize hms : ([] : List Mark) = ms at h
  cases h with
  | nil => rfl
  | orphan constant => simp at hms
  | opened h text tag => simp at hms
  | bound h p _ => simp [Spelling.marks] at hms

/-! ### Complete entries -/

private theorem forall₂_concat_left {es : List EntryDraft} {e : EntryDraft} {entries : List Entry}
    (h : List.Forall₂ EntryDraft.Completes (es ++ [e]) entries) :
    ∃ init last, entries = init ++ [last] ∧ List.Forall₂ EntryDraft.Completes es init ∧
      e.Completes last := by
  induction es generalizing entries with
  | nil =>
    obtain ⟨last, rest, hlast, hrest, rfl⟩ := List.forall₂_cons_left_iff.mp h
    obtain rfl := List.forall₂_nil_left_iff.mp hrest
    exact ⟨[], last, rfl, .nil, hlast⟩
  | cons e' es ih =>
    obtain ⟨first, rest, hfirst, hrest, rfl⟩ := List.forall₂_cons_left_iff.mp h
    obtain ⟨init, last, rfl, hinit, hlast⟩ := ih hrest
    exact ⟨first :: init, last, rfl, .cons hfirst hinit, hlast⟩

/-- A spelled entry is complete when it has documentation. -/
theorem Spelling.completes_iff {p : Spelling} (h : IsDocText p.text) {entry : Entry} :
    EntryDraft.Completes { EntryDraft.ofDoc p.text p.tag with constant := some p.constant } entry ↔
      docOf p.text ≠ "" ∧ entry = p.entry := by
  rw [EntryDraft.ofDoc_eq, nonBlank?_of_trimmed (trimmed_docOf h)]
  constructor
  · rintro ⟨hname, hdoc, hconstant⟩
    simp only [Option.ite_none_left_eq_some, Option.some.injEq] at hname hdoc hconstant
    obtain ⟨argName, doc, constant⟩ := entry
    simp only at hname hdoc hconstant
    subst hname hconstant
    exact ⟨hdoc.1, by rw [← hdoc.2, Spelling.entry]⟩
  · rintro ⟨hdoc, rfl⟩
    exact ⟨rfl, by simp [hdoc, Spelling.entry], rfl⟩

/-- The marks behind complete entries are documentation and constant in turn. -/
theorem Spells.exists_spellings {ms : List Mark} {es : List EntryDraft} {entries : List Entry}
    (h : Spells ms es) (hdoc : ∀ text tag, Mark.doc text tag ∈ ms → IsDocText text)
    (hc : List.Forall₂ EntryDraft.Completes es entries) :
    ∃ ps : List Spelling, ms = ps.flatMap Spelling.marks ∧ entries = ps.map Spelling.entry ∧
      ∀ p ∈ ps, p.Sound := by
  induction h generalizing entries with
  | nil =>
    obtain rfl := List.forall₂_nil_left_iff.mp hc
    exact ⟨[], rfl, rfl, by simp⟩
  | orphan constant =>
    -- a constant in front of all documentation leaves an entry without a name
    obtain ⟨entry, rest, hentry, -⟩ := List.forall₂_cons_left_iff.mp hc
    cases hentry.argName
  | opened h text tag _ =>
    -- documentation that no constant follows leaves an entry without a constant
    obtain ⟨_, last, -, -, hlast⟩ := forall₂_concat_left hc
    rw [EntryDraft.ofDoc_eq] at hlast
    cases hlast.constant
  | bound h p hfree ih =>
    obtain ⟨init, last, rfl, hinit, hlast⟩ := forall₂_concat_left hc
    obtain ⟨ps, rfl, rfl, hsound⟩ :=
      ih (fun text tag hmem => hdoc text tag (List.mem_append_left _ hmem)) hinit
    have htext : IsDocText p.text := hdoc p.text p.tag (by simp [Spelling.marks])
    obtain ⟨hne, rfl⟩ := (Spelling.completes_iff htext).mp hlast
    refine ⟨ps ++ [p], by simp, by simp, fun q hq => ?_⟩
    rcases List.mem_append.mp hq with hq | hq
    · exact hsound q hq
    · obtain rfl := List.mem_singleton.mp hq
      exact ⟨hne, EntryDraft.conflict?_ofDoc_eq_none_iff.mp hfree⟩

/-- Spelled entries with documentation are complete. -/
theorem Spells.completes {ps : List Spelling} {es : List EntryDraft}
    (h : Spells (ps.flatMap Spelling.marks) es) (htext : ∀ p ∈ ps, IsDocText p.text)
    (hdoc : ∀ p ∈ ps, docOf p.text ≠ "") :
    List.Forall₂ EntryDraft.Completes es (ps.map Spelling.entry) := by
  induction ps using List.reverseRecOn generalizing es with
  | nil =>
    rw [h.eq_nil]
    exact .nil
  | append_singleton ps p ih =>
    rw [List.flatMap_append, List.flatMap_singleton] at h
    obtain ⟨es', h', rfl⟩ := h.exists_of_append_marks
    rw [List.map_append, List.map_singleton]
    have hp : p ∈ ps ++ [p] := by simp
    refine List.rel_append (ih h' (fun q hq => htext q (List.mem_append_left _ hq))
      fun q hq => hdoc q (List.mem_append_left _ hq)) (.cons ?_ .nil)
    exact (Spelling.completes_iff (htext p hp)).mpr ⟨hdoc p hp, rfl⟩

/-! ### What a draft without a failure has read -/

/-- The enum and the entries of a draft are those that the lines `seen` give. -/
structure Reads (seen : List Line) (d : Draft) : Prop where
  group : groups seen = d.group.toList
  entries : Spells (marks seen) d.entries

/-- A line that says nothing about the enum or the entries changes nothing. -/
theorem Reads.concat_quiet {seen : List Line} {d : Draft} (h : Reads seen d) {line : Line}
    (hmark : line.mark? = none) (hgroup : line.group? = none) : Reads (seen ++ [line]) d := by
  constructor
  · rw [groups_append, show groups [line] = [] by simp [groups, hgroup], List.append_nil, h.group]
  · rw [marks_append, show marks [line] = [] by simp [marks, hmark], List.append_nil]
    exact h.entries

theorem Reads.concat_doc {seen : List Line} {d : Draft} (h : Reads seen d) {line : Line}
    {text tag : String} (hmark : line.mark? = some (.doc text tag)) (hgroup : line.group? = none) :
    Reads (seen ++ [line]) { d with entries := d.entries ++ [EntryDraft.ofDoc text tag] } := by
  constructor
  · rw [groups_append, show groups [line] = [] by simp [groups, hgroup], List.append_nil, h.group]
  · rw [marks_append, show marks [line] = [.doc text tag] by simp [marks, hmark]]
    exact h.entries.opened text tag

/-- A line that is no failure is read. -/
theorem Reads.absorb {seen : List Line} {d : Draft} (h : Reads seen d) (number : Nat) (line : Line)
    (hok : (d.absorb number line).failure = none) :
    Reads (seen ++ [line]) (d.absorb number line) := by
  cases line with
  | schemeStart role title name => exact h.concat_doc rfl rfl
  | entryDoc text tag => exact h.concat_doc rfl rfl
  | enumHeader name =>
    -- only a first head is no failure
    simp only [Draft.absorb, Draft.setGroup] at hok ⊢
    split
    · next hnone =>
      constructor
      · rw [groups_append, h.group, hnone]
        rfl
      · rw [marks_append]
        exact (List.append_nil _).symm ▸ h.entries
    · next existing hsome =>
      rw [hsome] at hok
      exact absurd hok (d.fail_failure_ne_none _)
  | enumEntry constant =>
    have hmarks : marks (seen ++ [.enumEntry constant]) = marks seen ++ [.constant constant] :=
      marks_append _ _
    have hgroups : groups (seen ++ [.enumEntry constant]) = d.group.toList := by
      rw [groups_append, h.group]
      exact List.append_nil _
    simp only [Draft.absorb, Draft.bindConstant] at hok ⊢
    rcases hlast : d.entries.getLast? with _ | e
    · have hconcat := h.entries.concat_constant constant (by simp [hlast])
      simp only [hlast] at hconcat
      exact ⟨hgroups, hmarks ▸ hconcat⟩
    · rcases hfree : e.conflict? constant with _ | existing
      · have hconcat := h.entries.concat_constant constant fun e' he' => by
          rw [hlast] at he'
          rwa [← Option.some.inj he']
        simp only [hlast] at hconcat
        simp only [hfree]
        exact ⟨hgroups, hmarks ▸ hconcat⟩
      · simp only [hlast, hfree] at hok
        exact absurd hok (d.fail_failure_ne_none _)
  | doc text => exact h.concat_quiet rfl rfl
  | terminator => exact h.concat_quiet rfl rfl
  | other => exact h.concat_quiet rfl rfl

/-- **What is read without a failure** is what the draft says. -/
theorem Reads.absorbAll {seen : List Line} {d : Draft} (h : Reads seen d) {number : Nat}
    {ls : List Line} (hok : (d.absorbAll number ls).failure = none) :
    Reads (seen ++ ls) (d.absorbAll number ls) := by
  induction ls generalizing seen d number with
  | nil => exact (List.append_nil seen).symm ▸ h
  | cons line ls ih =>
    have hline : (d.absorb number line).failure = none := Draft.failure_eq_none_of_absorbAll hok
    rw [← List.singleton_append, ← List.append_assoc]
    exact ih (h.absorb number line hline) hok

/-! ### Bodies that spell their entries -/

/-- What is in front of a constant of spelled entries is the documentation of its entry. -/
theorem exists_spelling_of_prefix {ps : List Spelling} {ms : List Mark} {constant : String}
    (h : ms ++ [.constant constant] <+: ps.flatMap Spelling.marks) :
    ∃ ms', ∃ p ∈ ps, ms = ms' ++ [.doc p.text p.tag] ∧ constant = p.constant := by
  induction ps generalizing ms with
  | nil => simp at h
  | cons p ps ih =>
    rw [List.flatMap_cons, Spelling.marks, List.cons_append, List.singleton_append] at h
    match ms with
    | [] => simp [List.cons_prefix_cons] at h
    | [m] =>
      simp only [List.singleton_append, List.cons_prefix_cons, Mark.constant.injEq] at h
      obtain ⟨rfl, rfl, -⟩ := h
      exact ⟨[], p, List.mem_cons_self, rfl, rfl⟩
    | m :: m' :: ms =>
      simp only [List.cons_append, List.cons_prefix_cons] at h
      obtain ⟨-, -, hprefix⟩ := h
      obtain ⟨ms', q, hq, rfl, hconstant⟩ := ih hprefix
      exact ⟨m :: m' :: ms', q, List.mem_cons_of_mem _ hq, rfl, hconstant⟩

/-- A body that spells its entries and has one head of an enum leaves no failure. -/
theorem Reads.failure_eq_none {d : Draft} (h : Reads [] d) (hd : d.failure = none)
    {body : List Line} {ps : List Spelling} {group : String} (hgroups : groups body = [group])
    (hmarks : marks body = ps.flatMap Spelling.marks)
    (hdeclared : ∀ p ∈ ps, (splitNamedDoc? p.text).isSome → p.constant = p.tag) (number : Nat)
    {seen : List Line} (hseen : seen <+: body) : (d.absorbAll number seen).failure = none := by
  -- over what has been read so far: the invariant is that the draft says just that
  induction seen using List.reverseRecOn with
  | nil => exact hd
  | append_singleton seen line ih =>
    have hok := ih ((List.prefix_append _ _).trans hseen)
    have hreads : Reads seen (d.absorbAll number seen) := h.absorbAll hok
    rw [Draft.absorbAll_append]
    change ((d.absorbAll number seen).absorb _ line).failure = none
    generalize d.absorbAll number seen = d' at hok hreads
    cases line with
    | schemeStart role title name => exact hok
    | entryDoc text tag => exact hok
    | enumHeader name =>
      -- the head is the only one of the body, so none has been read before
      have hprefix : groups seen ++ [name] <+: [group] := by
        have hmap := hseen.filterMap Line.group?
        rwa [List.filterMap_append, show body.filterMap Line.group? = [group] from hgroups] at hmap
      have hnone : d'.group = none := by
        have hlength := hprefix.length_le
        rw [hreads.group] at hlength
        rcases hgroup : d'.group with _ | existing
        · rfl
        · simp [hgroup] at hlength
      simp only [Draft.absorb, Draft.setGroup, hnone]
      exact hok
    | enumEntry constant =>
      -- right before the constant stands the documentation of its entry, which is not bound yet
      have hprefix : marks seen ++ [.constant constant] <+: ps.flatMap Spelling.marks := by
        have hmap := hseen.filterMap Line.mark?
        rwa [List.filterMap_append, show body.filterMap Line.mark? = _ from hmarks] at hmap
      obtain ⟨ms, p, hp, hms, rfl⟩ := exists_spelling_of_prefix hprefix
      have hentries := hreads.entries
      rw [hms] at hentries
      obtain ⟨es, -, hes⟩ := hentries.exists_of_concat_doc
      have hfree := EntryDraft.conflict?_ofDoc_eq_none_iff.mpr (hdeclared p hp)
      simp only [Draft.absorb, Draft.bindConstant, hes, List.getLast?_concat, hfree]
      exact hok
    | doc text => exact hok
    | terminator => exact hok
    | other => exact hok

end ArgumentSchemes.Header
