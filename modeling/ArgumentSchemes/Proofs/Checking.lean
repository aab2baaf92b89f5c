import ArgumentSchemes.Header.Checker
import Mathlib.Data.List.Forall2

/-!
# What a check decides

One lemma for each part of `Checker.check`, so that later proofs need not open it: when an entry and
a list of entries are complete, when the enum is in order, which constants are reserved, and, from
these, which drafts pass and with what scheme (`Checker.check_eq_ok_iff`).
-/

namespace ArgumentSchemes.Header

/-! ### Entries -/

/-- A draft of an entry has all the parts of the entry. -/
structure EntryDraft.Completes (e : EntryDraft) (entry : Entry) : Prop where
  argName : e.argName = some entry.argName
  doc : e.doc = some entry.doc
  constant : e.constant = some entry.constant

theorem EntryDraft.Completes.unique {e : EntryDraft} {entry entry' : Entry}
    (h : e.Completes entry) (h' : e.Completes entry') : entry = entry' := by
  obtain ⟨ha, hd, hc⟩ := h
  obtain ⟨ha', hd', hc'⟩ := h'
  rw [ha] at ha'
  rw [hd] at hd'
  rw [hc] at hc'
  cases entry
  cases entry'
  simp_all

theorem EntryDraft.complete_eq_ok_iff {scheme : String} {index : Nat} {e : EntryDraft}
    {entry : Entry} : e.complete scheme index = .ok entry ↔ e.Completes entry := by
  obtain ⟨argName, doc, declared, constant⟩ := e
  constructor
  · intro h
    cases argName <;> cases doc <;> cases constant <;> simp [EntryDraft.complete] at h
    subst h
    exact ⟨rfl, rfl, rfl⟩
  · rintro ⟨ha, hd, hc⟩
    simp only at ha hd hc
    simp [EntryDraft.complete, ha, hd, hc]

/-- A part of the draft of an entry, if it is there. -/
def EntryDraft.part? (e : EntryDraft) : EntryField → Option String
  | .argName => e.argName
  | .doc => e.doc
  | .constant => e.constant

/-- The first part that the draft of an entry lacks, if it lacks one. -/
def EntryDraft.missing? (e : EntryDraft) : Option EntryField :=
  [.argName, .doc, .constant].find? fun field => (e.part? field).isNone

theorem EntryDraft.part?_of_missing? {e : EntryDraft} {missing : EntryField}
    (h : e.missing? = some missing) : e.part? missing = none := by
  simpa using List.find?_some h

/-- What an incomplete entry is reported as. -/
theorem EntryDraft.complete_eq_error_iff {scheme : String} {index : Nat} {e : EntryDraft}
    {fault : SchemeFault} :
    e.complete scheme index = .error fault ↔
      ∃ missing, e.missing? = some missing ∧
        fault = .incompleteEntry scheme index e.label missing := by
  obtain ⟨argName, doc, declared, constant⟩ := e
  cases argName <;> cases doc <;> cases constant <;>
    simp [EntryDraft.complete, missing?, part?, eq_comm]

/-- An entry that lacks nothing is complete. -/
theorem EntryDraft.missing?_eq_none_iff {e : EntryDraft} :
    e.missing? = none ↔ ∃ entry, e.Completes entry := by
  simp only [← @complete_eq_ok_iff "" 1]
  rcases h : e.complete "" 1 with fault | entry
  · obtain ⟨missing, hmissing, -⟩ := complete_eq_error_iff.mp h
    simp [hmissing]
  · simp only [Except.ok.injEq, exists_eq', iff_true, Option.eq_none_iff_forall_ne_some]
    intro missing hmissing
    rw [complete_eq_error_iff.mpr ⟨missing, hmissing, rfl⟩] at h
    cases h

theorem completeEntries_eq_ok_iff {scheme : String} {index : Nat} {es : List EntryDraft}
    {entries : List Entry} : completeEntries scheme index es = .ok entries ↔
      List.Forall₂ EntryDraft.Completes es entries := by
  induction es generalizing index entries with
  | nil =>
    rw [List.forall₂_nil_left_iff]
    simp [completeEntries, eq_comm]
  | cons e es ih =>
    rw [completeEntries]
    rcases he : e.complete scheme index with fault | entry
    · simp only [reduceCtorEq, false_iff]
      intro h
      obtain ⟨entry, _, hc, -⟩ := List.forall₂_cons_left_iff.mp h
      rw [EntryDraft.complete_eq_ok_iff.mpr hc] at he
      cases he
    · have hc := EntryDraft.complete_eq_ok_iff.mp he
      cases entries with
      | nil =>
        rcases completeEntries scheme (index + 1) es with fault | others <;> simp
      | cons entry' others =>
        rw [List.forall₂_cons, ← @ih (index + 1) others]
        rcases completeEntries scheme (index + 1) es with fault | others'
        · simp
        · simp only [Except.ok.injEq, List.cons.injEq, and_congr_left_iff]
          rintro -
          constructor
          · rintro rfl
            exact hc
          · intro hc'
            exact hc.unique hc'

/-- Entries pass when none of them lacks a part. -/
theorem exists_completeEntries_iff {scheme : String} {index : Nat} {es : List EntryDraft} :
    (∃ entries, completeEntries scheme index es = .ok entries) ↔
      ∀ e ∈ es, e.missing? = none := by
  simp only [completeEntries_eq_ok_iff]
  induction es with
  | nil => simp
  | cons e es ih =>
    rw [List.forall_mem_cons, ← ih, EntryDraft.missing?_eq_none_iff]
    constructor
    · rintro ⟨entries, h⟩
      obtain ⟨entry, rest, hentry, hrest, -⟩ := List.forall₂_cons_left_iff.mp h
      exact ⟨⟨entry, hentry⟩, rest, hrest⟩
    · rintro ⟨⟨entry, hentry⟩, rest, hrest⟩
      exact ⟨entry :: rest, .cons hentry hrest⟩

theorem completes_unique {es : List EntryDraft} {entries entries' : List Entry}
    (h : List.Forall₂ EntryDraft.Completes es entries)
    (h' : List.Forall₂ EntryDraft.Completes es entries') : entries = entries' := by
  have hok : completeEntries "" 1 es = .ok entries := completeEntries_eq_ok_iff.mpr h
  rw [completeEntries_eq_ok_iff.mpr h'] at hok
  exact (Except.ok.inj hok).symm

/-- `e` is the first of the entries that lacks a part, and `missing` is the first part that it
lacks. The entries `before` stand in front of it. -/
structure FirstIncomplete (es before : List EntryDraft) (e : EntryDraft) (missing : EntryField) :
    Prop where
  exists_eq : ∃ after, es = before ++ e :: after
  complete : ∀ e' ∈ before, e'.missing? = none
  missing : e.missing? = some missing

theorem not_firstIncomplete_nil {before : List EntryDraft} {e : EntryDraft} {missing : EntryField} :
    ¬ FirstIncomplete [] before e missing := by
  rintro ⟨⟨after, hes⟩, -, -⟩
  simp at hes

theorem firstIncomplete_cons_iff {first : EntryDraft} {es before : List EntryDraft} {e : EntryDraft}
    {missing : EntryField} :
    FirstIncomplete (first :: es) before e missing ↔
      before = [] ∧ e = first ∧ first.missing? = some missing ∨
        ∃ before', before = first :: before' ∧ first.missing? = none ∧
          FirstIncomplete es before' e missing := by
  constructor
  · rintro ⟨⟨after, hes⟩, hcomplete, hmissing⟩
    cases before with
    | nil =>
      obtain ⟨rfl, -⟩ := List.cons.inj hes
      exact .inl ⟨rfl, rfl, hmissing⟩
    | cons first' before =>
      obtain ⟨rfl, rfl⟩ := List.cons.inj hes
      obtain ⟨hfirst, hcomplete⟩ := List.forall_mem_cons.mp hcomplete
      exact .inr ⟨before, rfl, hfirst, ⟨after, rfl⟩, hcomplete, hmissing⟩
  · rintro (⟨rfl, rfl, hmissing⟩ | ⟨before', rfl, hfirst, ⟨after, rfl⟩, hcomplete, hmissing⟩)
    · exact ⟨⟨es, rfl⟩, by simp, hmissing⟩
    · exact ⟨⟨after, rfl⟩, List.forall_mem_cons.mpr ⟨hfirst, hcomplete⟩, hmissing⟩

/-- What incomplete entries are reported as: the first one, by its number, with the first part that
it lacks. -/
theorem completeEntries_eq_error_iff {scheme : String} {index : Nat} {es : List EntryDraft}
    {fault : SchemeFault} :
    completeEntries scheme index es = .error fault ↔
      ∃ before e missing, FirstIncomplete es before e missing ∧
        fault = .incompleteEntry scheme (index + before.length) e.label missing := by
  induction es generalizing index with
  | nil => simp [completeEntries, not_firstIncomplete_nil]
  | cons first es ih =>
    rw [completeEntries]
    simp only [firstIncomplete_cons_iff]
    rcases hfirst : first.complete scheme index with fault' | entry
    · obtain ⟨missing, hmissing, rfl⟩ := EntryDraft.complete_eq_error_iff.mp hfirst
      simp [hmissing, eq_comm]
    · have hnone : first.missing? = none :=
        EntryDraft.missing?_eq_none_iff.mpr ⟨entry, EntryDraft.complete_eq_ok_iff.mp hfirst⟩
      have hnumber : ∀ before : List EntryDraft,
          index + 1 + before.length = index + (first :: before).length := fun before => by
        rw [List.length_cons]
        omega
      simp only [hnone, reduceCtorEq, and_false, false_or, true_and]
      refine Iff.trans ?_ ((@ih (index + 1)).trans ⟨?_, ?_⟩)
      · rcases completeEntries scheme (index + 1) es with fault' | entries <;> simp
      · rintro ⟨before, e, missing, h, rfl⟩
        exact ⟨first :: before, e, missing, ⟨before, rfl, h⟩, by rw [hnumber]⟩
      · rintro ⟨_, e, missing, ⟨before, rfl, h⟩, rfl⟩
        exact ⟨before, e, missing, h, by rw [hnumber]⟩

/-! ### The enum and the reserved marker -/

private theorem acceptsGroup_empty (role : Role) : role.acceptsGroup "" = false := by
  cases role <;> decide

/-- The enum is in order when it is there and has a suffix of the role. An empty name has none. -/
theorem Draft.groupFault?_eq_none_iff {d : Draft} :
    d.groupFault? = none ↔ ∃ group, d.group = some group ∧ d.role.acceptsGroup group = true := by
  rcases hg : d.group with _ | group
  · simp [Draft.groupFault?, hg]
  · simp only [Draft.groupFault?, hg, Option.getD_some, Option.some.injEq, exists_eq_left']
    by_cases he : group = ""
    · subst he
      simp [acceptsGroup_empty]
    · rcases ha : d.role.acceptsGroup group <;> simp [he]

/-- What is reported of the enum: that there is none, or that it has no suffix of the role. -/
theorem Draft.groupFault?_eq_some_iff {d : Draft} {fault : SchemeFault} :
    d.groupFault? = some fault ↔
      d.group.getD "" = "" ∧
          fault = .malformedGroup d.name "" d.role
            "no `enum <name> \x7b` line before the terminator" ∨
        ∃ group, d.group = some group ∧ group ≠ "" ∧ d.role.acceptsGroup group = false ∧
          fault = .malformedGroup d.name group d.role
            s!"`{group}` does not end in an {d.role.name} suffix" := by
  simp only [groupFault?]
  rcases d.group with _ | group
  · simp [eq_comm (b := fault)]
  · by_cases he : group = ""
    · simp [he, eq_comm (b := fault)]
    · rcases ha : d.role.acceptsGroup group <;> simp [he, ha, eq_comm (b := fault)]

theorem Draft.groupFault?_eq_some {d : Draft} {fault : SchemeFault}
    (h : d.groupFault? = some fault) :
    ∃ group reason, fault = .malformedGroup d.name group d.role reason := by
  rcases groupFault?_eq_some_iff.mp h with ⟨-, rfl⟩ | ⟨group, -, -, -, rfl⟩
  · exact ⟨_, _, rfl⟩
  · exact ⟨_, _, rfl⟩

theorem containsText_iff {part text : List Char} :
    containsText part text = true ↔ part <:+: text := by
  induction text with
  | nil => simp [containsText]
  | cons c text ih =>
    rw [containsText, Bool.or_eq_true, List.isPrefixOf_iff_prefix, ih, List.infix_cons_iff]

/-- A constant is reserved when it holds the marker. The empty marker reserves nothing. -/
theorem Checker.reserves_iff {checker : Checker} {constant : String} :
    checker.reserves constant = true ↔
      checker.reservedMarker ≠ "" ∧ checker.reservedMarker.toList <:+: constant.toList := by
  rw [Checker.reserves, Bool.and_eq_true, containsText_iff]
  simp

/-! ### Drafts -/

/-- **The drafts that pass.** -/
theorem Checker.check_eq_ok_iff {checker : Checker} {d : Draft} {s : Scheme} :
    checker.check d = .ok s ↔
      d.failure = none ∧ List.Forall₂ EntryDraft.Completes d.entries s.entries ∧
        d.group = some s.group ∧ d.role.acceptsGroup s.group = true ∧
        (∀ e ∈ s.entries, checker.reserves e.constant = false) ∧
        s = { role := d.role, name := d.name, title := d.title
              summary := "\n".intercalate d.summary, group := s.group, entries := s.entries } := by
  rw [Checker.check]
  rcases d.failure with _ | fault
  · simp only [true_and]
    rcases hes : completeEntries d.name 1 d.entries with fault | entries
    · simp only [reduceCtorEq, false_iff]
      rintro ⟨hc, -⟩
      rw [completeEntries_eq_ok_iff.mpr hc] at hes
      cases hes
    · simp only
      have hc := completeEntries_eq_ok_iff.mp hes
      rcases hg : d.groupFault? with _ | fault
      · obtain ⟨group, hgroup, haccepts⟩ := Draft.groupFault?_eq_none_iff.mp hg
        rcases hr : entries.find? (checker.reserves ·.constant) with _ | entry
        · simp only [hr, hgroup, Option.getD_some, Except.ok.injEq, Option.some.injEq]
          constructor
          · rintro rfl
            exact ⟨hc, rfl, haccepts, by simpa using hr, rfl⟩
          · rintro ⟨hc', hg', -, -, hs⟩
            rw [hs, completes_unique hc' hc, hg']
        · simp only [hr, reduceCtorEq, false_iff]
          rintro ⟨hc', -, -, hfree, -⟩
          rw [completes_unique hc' hc] at hfree
          have hreserved := List.find?_some hr
          rw [hfree entry (List.mem_of_find?_eq_some hr)] at hreserved
          cases hreserved
      · simp only [reduceCtorEq, false_iff]
        rintro ⟨-, hgroup, haccepts, -⟩
        rw [Draft.groupFault?_eq_none_iff.mpr ⟨_, hgroup, haccepts⟩] at hg
        cases hg
  · simp

/-- **The drafts that fail**: what a check reports is the failure that was noted; if none was, the
first part that an entry lacks; if none lacks any, the fault of the enum; and if it has none, the
first reserved constant. -/
theorem Checker.check_eq_error_iff {checker : Checker} {d : Draft} {fault : SchemeFault} :
    checker.check d = .error fault ↔
      d.failure = some fault ∨
        d.failure = none ∧
          (completeEntries d.name 1 d.entries = .error fault ∨
            ∃ entries, completeEntries d.name 1 d.entries = .ok entries ∧
              (d.groupFault? = some fault ∨
                d.groupFault? = none ∧ ∃ e, entries.find? (checker.reserves ·.constant) = some e ∧
                  fault = .reservedName d.name e.constant checker.reservedMarker)) := by
  rw [Checker.check]
  rcases d.failure with _ | noted
  · rcases completeEntries d.name 1 d.entries with fault' | entries
    · simp
    · rcases d.groupFault? with _ | fault'
      · rcases hr : entries.find? (checker.reserves ·.constant) with _ | e
        · simp [hr]
        · simp [hr, eq_comm]
      · simp
  · simp

/-- What a check reports names the scheme of the draft and does not end the run, unless the draft
holds another failure. -/
theorem Checker.scheme_of_check_eq_error {checker : Checker} {d : Draft} {fault : SchemeFault}
    (h : checker.check d = .error fault) :
    d.failure = some fault ∨ fault.scheme = d.name ∧ fault.isFatal = false := by
  rcases check_eq_error_iff.mp h with hf | ⟨-, hes | ⟨_, -, hg | ⟨-, _, -, rfl⟩⟩⟩
  · exact .inl hf
  · obtain ⟨_, _, _, -, rfl⟩ := completeEntries_eq_error_iff.mp hes
    exact .inr ⟨rfl, rfl⟩
  · obtain ⟨_, _, rfl⟩ := Draft.groupFault?_eq_some hg
    exact .inr ⟨rfl, rfl⟩
  · exact .inr ⟨rfl, rfl⟩

end ArgumentSchemes.Header
