import ArgumentSchemes.Proofs.Checking
import ArgumentSchemes.Proofs.LineShapes
import ArgumentSchemes.Proofs.Reading
import Mathlib.Data.List.Induction
import Mathlib.Data.List.Infix

/-!
# What a draft is like at any time

A draft that is collected line by line is **sound** after every line (`Draft.Sound`): the names and
constants of its entries are words and their documentation is trimmed, a constant is the one that
was declared, only an entry that a constant began on its own lacks a name, such an entry comes
first, and the failure that is noted says where it was met. A draft of which only the summary has
been read has nothing else yet (`State.Sound`).

One line keeps this whatever it says, in any state (`State.Sound.step`), if only its number is above
those of the lines before it.

Main statement: whatever lines are read from the outside of any scheme on, the draft that is open
and those that came out are sound, so that a missing name is only ever reported of the first entry
(`fed_sound`).
-/

namespace ArgumentSchemes.Header

open Text

/-! ### Entries -/

/-- What every entry of a draft is like. -/
structure EntryDraft.Sound (e : EntryDraft) : Prop where
  argName : ∀ name, e.argName = some name → IsWord name.toList
  doc : ∀ text, e.doc = some text → text ≠ "" ∧ Trimmed text.toList
  declared : ∀ constant, e.declared = some constant → IsWord constant.toList
  constant : ∀ constant, e.constant = some constant → IsWord constant.toList
  /-- The constant is the one that the documentation names. -/
  agrees : ∀ declared constant, e.declared = some declared → e.constant = some constant →
    declared = constant
  /-- An entry without a name is a constant and nothing else. -/
  unnamed : e.argName = none → e.constant ≠ none ∧ e.doc = none ∧ e.declared = none

/-- Documentation that is there is not empty, and trimmed. -/
theorem trimmed_of_nonBlank? {text doc : String} (h : nonBlank? text = some doc) :
    doc ≠ "" ∧ Trimmed doc.toList := by
  have htrim := trimmed_trim text.toList
  rw [nonBlank?] at h
  split at h
  · cases h
  · next hne =>
    obtain rfl := Option.some.inj h
    refine ⟨fun hempty => hne ?_, by rwa [String.toList_ofList]⟩
    exact String.ofList_eq_empty_iff.mp hempty

namespace EntryDraft

theorem argName_ofDoc_ne_none (text tag : String) : (ofDoc text tag).argName ≠ none := by
  rw [ofDoc]
  split <;> simp

/-- A documented line begins a sound entry. -/
theorem sound_ofDoc (text : String) {tag : String} (htag : IsWord tag.toList) :
    (ofDoc text tag).Sound := by
  rw [ofDoc]
  split
  · next name doc hsplit =>
    obtain ⟨hname, -⟩ := shape_of_splitNamedDoc? hsplit
    refine ⟨?_, fun _ => trimmed_of_nonBlank?, ?_, by simp, by simp, by simp⟩
    · rintro _ ⟨⟩
      exact hname
    · rintro _ ⟨⟩
      exact htag
  · refine ⟨?_, fun _ => trimmed_of_nonBlank?, by simp, by simp, by simp, by simp⟩
    rintro _ ⟨⟩
    exact htag

/-- A constant alone is a sound entry. -/
theorem sound_constant {constant : String} (h : IsWord constant.toList) :
    ({ constant := some constant } : EntryDraft).Sound := by
  refine ⟨by simp, by simp, by simp, ?_, by simp, by simp⟩
  rintro _ ⟨⟩
  exact h

/-- Nothing stands in the way of a constant when the entry has none, and declares no other. -/
theorem conflict?_eq_none_iff {e : EntryDraft} {constant : String} :
    e.conflict? constant = none ↔
      e.constant = none ∧ ∀ declared, e.declared = some declared → declared = constant := by
  obtain ⟨argName, doc, declared, bound⟩ := e
  simp only [conflict?]
  rcases bound with _ | bound
  · simp
  · simp

/-- An entry that is bound to a constant stays sound, and has its name already. -/
theorem Sound.bind {e : EntryDraft} (h : e.Sound) {constant : String}
    (hconstant : IsWord constant.toList) (hconflict : e.conflict? constant = none) :
    ({ e with constant := some constant } : EntryDraft).Sound ∧ e.argName ≠ none := by
  obtain ⟨hunbound, hdeclared⟩ := conflict?_eq_none_iff.mp hconflict
  have hname : e.argName ≠ none := fun hnone => (h.unnamed hnone).1 hunbound
  refine ⟨⟨h.argName, h.doc, h.declared, ?_, ?_, fun hnone => absurd hnone hname⟩, hname⟩
  · rintro _ ⟨⟩
    exact hconstant
  · rintro declared _ hd ⟨⟩
    exact hdeclared declared hd

end EntryDraft

/-! ### Drafts -/

namespace Draft

/-- The fault is one that lines up to the number `last` can have left in the draft. It names the
scheme of the draft, and is that of a constant that could not be bound on one of the lines behind
the opening one, or that of a second enum, when there is a first. -/
def CanNote (d : Draft) (last : Nat) (fault : SchemeFault) : Prop :=
  (∃ entry existing constant line,
      fault = .duplicateConstant d.name entry existing constant line ∧
        d.startLine < line ∧ line ≤ last) ∨
    d.group ≠ none ∧ ∃ group role reason, fault = .malformedGroup d.name group role reason

/-- What a draft is like when the lines up to the number `last` have been read. -/
structure Sound (d : Draft) (last : Nat) : Prop where
  startLine : d.startLine ≤ last
  entries : ∀ e ∈ d.entries, e.Sound
  /-- All entries but the first have a name. -/
  named : ∀ e ∈ d.entries.tail, e.argName ≠ none
  failure : ∀ fault, d.failure = some fault → d.CanNote last fault

variable {d : Draft} {last number : Nat}

theorem CanNote.mono {fault : SchemeFault} (h : d.CanNote last fault) (hle : last ≤ number) :
    d.CanNote number fault := by
  rcases h with ⟨entry, existing, constant, line, hfault, hstart, hline⟩ | h
  · exact .inl ⟨entry, existing, constant, line, hfault, hstart, hline.trans hle⟩
  · exact .inr h

theorem Sound.mono (h : d.Sound last) (hle : last ≤ number) : d.Sound number where
  startLine := h.startLine.trans hle
  entries := h.entries
  named := h.named
  failure fault hf := (h.failure fault hf).mono hle

/-- A scheme that has just been opened. -/
theorem sound_start (role : Role) (title name : String) (line : Nat) :
    (start role title name line).Sound line where
  startLine := le_rfl
  entries := by simp [start]
  named := by simp [start]
  failure := by simp [start]

theorem Sound.fail (h : d.Sound last) {fault : SchemeFault} (hnote : d.CanNote last fault) :
    (d.fail fault).Sound last where
  startLine := h.startLine
  entries := h.entries
  named := h.named
  failure := by
    intro f hf
    change (d.failure <|> some fault) = some f at hf
    rcases hd : d.failure with _ | noted
    · rw [hd] at hf
      obtain rfl : fault = f := Option.some.inj hf
      exact hnote
    · rw [hd] at hf
      obtain rfl : noted = f := Option.some.inj hf
      exact h.failure noted hd

/-- An entry that has a name may be added. -/
theorem Sound.concat (h : d.Sound last) {e : EntryDraft} (he : e.Sound)
    (hname : e.argName ≠ none) : ({ d with entries := d.entries ++ [e] } : Draft).Sound last where
  startLine := h.startLine
  entries := by
    intro e' he'
    rcases List.mem_append.mp he' with he' | he'
    · exact h.entries e' he'
    · rwa [List.mem_singleton.mp he']
  named := by
    intro e' he'
    rcases hd : d.entries with _ | ⟨first, rest⟩
    · simp [hd] at he'
    · rw [hd, List.cons_append, List.tail_cons] at he'
      rcases List.mem_append.mp he' with he' | he'
      · exact h.named e' (by rwa [hd])
      · rwa [List.mem_singleton.mp he']
  failure := h.failure

/-- The last entry may be dropped. -/
theorem Sound.dropLast (h : d.Sound last) :
    ({ d with entries := d.entries.dropLast } : Draft).Sound last where
  startLine := h.startLine
  entries e he := h.entries e (List.mem_of_mem_dropLast he)
  named e he := h.named e (by
    rw [List.tail_dropLast] at he
    exact List.mem_of_mem_dropLast he)
  failure := h.failure

/-- The name of an enum is taken, or noted as a second one. -/
theorem Sound.setGroup (h : d.Sound last) (group : String) : (d.setGroup group).Sound last := by
  rw [Draft.setGroup]
  split
  · next hnone =>
    refine ⟨h.startLine, h.entries, h.named, fun fault hf => ?_⟩
    exact (h.failure fault hf).imp_right fun hgroup => absurd hnone hgroup.1
  · next existing hsome =>
    exact h.fail (.inr ⟨by simp [hsome], _, _, _, rfl⟩)

/-- A constant begins an entry, is bound, or noted as one too many. -/
theorem Sound.bindConstant (h : d.Sound number) (hstart : d.startLine < number)
    {constant : String} (hconstant : IsWord constant.toList) :
    (d.bindConstant constant number).Sound number := by
  rw [Draft.bindConstant]
  split
  · refine ⟨h.startLine, ?_, by simp, h.failure⟩
    intro e he
    rw [List.mem_singleton.mp he]
    exact EntryDraft.sound_constant hconstant
  · next entry hlast =>
    split
    · exact h.fail (.inl ⟨_, _, _, _, rfl, hstart, le_rfl⟩)
    · next hconflict =>
      obtain ⟨hbound, hname⟩ :=
        (h.entries entry (List.mem_of_getLast? hlast)).bind hconstant hconflict
      exact h.dropLast.concat hbound hname

/-- **Every line of a body** keeps a draft sound. -/
theorem Sound.absorb (h : d.Sound last) (hlt : last < number) {line : Line}
    (hline : line.WellFormed) : (d.absorb number line).Sound number := by
  have hnow : d.Sound number := h.mono hlt.le
  cases line with
  | schemeStart role title name =>
    exact hnow.concat (EntryDraft.sound_ofDoc title hline.2.2)
      (EntryDraft.argName_ofDoc_ne_none title name)
  | entryDoc text tag =>
    exact hnow.concat (EntryDraft.sound_ofDoc text hline.2.2)
      (EntryDraft.argName_ofDoc_ne_none text tag)
  | enumHeader group => exact hnow.setGroup group
  | enumEntry constant => exact hnow.bindConstant (h.startLine.trans_lt hlt) hline
  | doc text => exact hnow
  | terminator => exact hnow
  | other => exact hnow

/-- A missing name is only reported of the first entry. -/
theorem Sound.index_eq_one (h : d.Sound last) {checker : Checker} {scheme : String} {index : Nat}
    {label : Option String}
    (hcheck : checker.check d = .error (.incompleteEntry scheme index label .argName)) :
    index = 1 := by
  rcases Checker.check_eq_error_iff.mp hcheck with hf | ⟨-, hes | ⟨_, -, hg | ⟨-, _, -, hr⟩⟩⟩
  · rcases h.failure _ hf with ⟨_, _, _, _, hfault, -⟩ | ⟨-, _, _, _, hfault⟩
    · cases hfault
    · cases hfault
  · obtain ⟨before, e, missing, ⟨⟨after, heq⟩, -, hmissing⟩, hfault⟩ :=
      completeEntries_eq_error_iff.mp hes
    obtain ⟨-, rfl, -, rfl⟩ := SchemeFault.incompleteEntry.inj hfault
    cases before with
    | nil => rfl
    | cons first before =>
      exact absurd (EntryDraft.part?_of_missing? hmissing) (h.named e (by simp [heq]))
  · obtain ⟨_, _, hfault⟩ := groupFault?_eq_some hg
    cases hfault
  · cases hr

end Draft

/-! ### States -/

namespace State

/-- Where the reading can stand when the lines up to the number `last` have been read. -/
def Sound (last : Nat) : State → Prop
  | idle => True
  | inSummary d => d.Sound last ∧ d.entries = [] ∧ d.group = none ∧ d.failure = none
  | inBody d => d.Sound last

theorem Sound.draft {s : State} {last : Nat} (h : s.Sound last) {d : Draft}
    (hd : s.draft? = some d) : d.Sound last := by
  cases s with
  | idle => cases hd
  | inSummary d' =>
    obtain rfl := Option.some.inj hd
    exact h.1
  | inBody d' =>
    obtain rfl := Option.some.inj hd
    exact h

/-- A line of a body, or one that ends a summary. -/
theorem sound_bodyStep {d : Draft} {last number : Nat} (h : d.Sound last) (hlt : last < number)
    {line : Line} (hline : line.WellFormed) :
    (bodyStep d number line).1.Sound number ∧
      ∀ out ∈ (bodyStep d number line).2, out.Sound number := by
  cases line with
  | terminator =>
    refine ⟨trivial, ?_⟩
    rintro _ ⟨⟩
    exact h.mono hlt.le
  | _ => exact ⟨h.absorb hlt hline, by simp [bodyStep]⟩

/-- **One line**, whatever it says and wherever the reading stands. -/
theorem Sound.step {s : State} {last number : Nat} (h : s.Sound last)
    (hlt : s = idle ∨ last < number) {line : Line} (hline : line.WellFormed) :
    (s.step number line).1.Sound number ∧ ∀ d ∈ (s.step number line).2, d.Sound number := by
  cases s with
  | idle =>
    cases line with
    | schemeStart role title name =>
      exact ⟨⟨Draft.sound_start role title name number, rfl, rfl, rfl⟩, by simp [State.step]⟩
    | _ => exact ⟨trivial, by simp [State.step]⟩
  | inSummary d =>
    have hlt : last < number := hlt.resolve_left State.noConfusion
    obtain ⟨hd, hentries, hgroup, hfailure⟩ := h
    cases line with
    | doc text =>
      have hnow := hd.mono hlt.le
      refine ⟨⟨⟨hnow.startLine, hnow.entries, hnow.named, hnow.failure⟩,
        hentries, hgroup, hfailure⟩, by simp [State.step]⟩
    | _ => exact sound_bodyStep hd hlt hline
  | inBody d => exact sound_bodyStep h (hlt.resolve_left State.noConfusion) hline

end State

/-! ### Runs -/

/-- The state that is reached when numbered lines are read from the outside of any scheme on, and
the drafts that come out. -/
def fed (ls : List (Nat × String)) : State × List Draft :=
  ls.foldl (fun sofar l => ((sofar.1.feed l.1 l.2).1, sofar.2 ++ (sofar.1.feed l.1 l.2).2.toList))
    (.idle, [])

theorem fed_concat (ls : List (Nat × String)) (number : Nat) (line : String) :
    fed (ls ++ [(number, line)]) =
      (((fed ls).1.feed number line).1, (fed ls).2 ++ ((fed ls).1.feed number line).2.toList) := by
  simp [fed]

/-- The number of the last line; 0 when there is none. -/
def lastNumber (ls : List (Nat × String)) : Nat := (ls.getLast?.map (·.1)).getD 0

@[simp] theorem lastNumber_concat (ls : List (Nat × String)) (number : Nat) (line : String) :
    lastNumber (ls ++ [(number, line)]) = number := by
  simp [lastNumber]

/-- Everything that lines of increasing numbers lead to is sound. -/
theorem sound_fed {ls : List (Nat × String)} (h : ls.Pairwise (·.1 < ·.1)) :
    (fed ls).1.Sound (lastNumber ls) ∧ ∀ d ∈ (fed ls).2, d.Sound (lastNumber ls) := by
  induction ls using List.reverseRecOn with
  | nil => exact ⟨trivial, by simp [fed]⟩
  | append_singleton ls l ih =>
    obtain ⟨number, line⟩ := l
    obtain ⟨hls, -, hlt⟩ := List.pairwise_append.mp h
    obtain ⟨hstate, hdrafts⟩ := ih hls
    -- at the first line there is no number before, and no scheme is open
    have hbefore : (fed ls).1 = .idle ∧ (fed ls).2 = [] ∨ lastNumber ls < number := by
      rcases List.eq_nil_or_concat' ls with rfl | ⟨init, ⟨number', line'⟩, rfl⟩
      · exact .inl ⟨rfl, rfl⟩
      · rw [lastNumber_concat]
        exact .inr (hlt (number', line') (by simp) (number, line) (by simp))
    obtain ⟨hnext, hout⟩ := hstate.step (hbefore.imp_left And.left) (Line.wellFormed_classify line)
    rw [fed_concat, lastNumber_concat]
    refine ⟨hnext, fun d hd => ?_⟩
    rcases List.mem_append.mp hd with hd | hd
    · rcases hbefore with ⟨-, hnil⟩ | hle
      · simp [hnil] at hd
      · exact (hdrafts d hd).mono hle.le
    · exact hout d (Option.mem_toList.mp hd)

/-- **Every draft is sound at any time**: after any lines of increasing numbers the draft that is
open is sound, and so is every draft that came out. Behind the opening line and the summary it has
no entries, no enum and no failure. So a check reports a missing name of the first entry only. -/
theorem fed_sound {ls : List (Nat × String)} (h : ls.Pairwise (·.1 < ·.1)) :
    (∀ d, (fed ls).1 = .inSummary d → d.entries = [] ∧ d.group = none ∧ d.failure = none) ∧
      ∀ d, (fed ls).1.draft? = some d ∨ d ∈ (fed ls).2 →
        d.Sound (lastNumber ls) ∧
          ∀ (checker : Checker) scheme index label,
            checker.check d = .error (.incompleteEntry scheme index label .argName) →
              index = 1 := by
  obtain ⟨hstate, hdrafts⟩ := sound_fed h
  refine ⟨fun d hd => ?_, fun d hd => ?_⟩
  · rw [hd] at hstate
    exact hstate.2
  · have hsound : d.Sound (lastNumber ls) := hd.elim hstate.draft (hdrafts d)
    exact ⟨hsound, fun checker scheme index label hcheck => hsound.index_eq_one hcheck⟩

/-- A constant in front of any documentation, and one that differs from the declared one. -/
theorem fed_sound_constant_first :
    let ls := [(2, "/// Input arguments of f [fIn]"), (3, "F_A,"), (5, "/// b -- the b [F_B]"),
      (8, "F_C,"), (9, "F_B,"), (12, "\x7d;")]
    let d : Draft := {
      role := .input, name := "fIn", title := "Input arguments of f", startLine := 2
      entries := [{ constant := some "F_A" },
        { argName := some "b", doc := some "the b", declared := some "F_B"
          constant := some "F_B" }]
      failure := some (.duplicateConstant "fIn" "b" "F_B" "F_C" 8) }
    ls.Pairwise (·.1 < ·.1) ∧ (fed ls).2 = [d] ∧ d.Sound 12 := by
  intro ls d
  have hls : ls.Pairwise (·.1 < ·.1) := by decide
  have hd : (fed ls).2 = [d] := by decide +kernel
  exact ⟨hls, hd, ((fed_sound hls).2 d (.inr (by simp [hd]))).1⟩

end ArgumentSchemes.Header
