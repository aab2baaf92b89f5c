import ArgumentSchemes.Proofs.FaultOrder
import ArgumentSchemes.Proofs.LineGrammar
import ArgumentSchemes.Proofs.ParameterLists

/-!
# Entries that carry their own name

The documentation of an entry can name the entry itself, `name -- description [CONSTANT]`, or leave
that to its tag, `description [name]`. Which of the two it is, is decided on a text from which the
blanks at its ends have gone already. So a name is only seen in front of a description
(`splitNamedDoc?_eq_some_iff`): of `name --` with nothing or only blanks behind it the hyphens stand
last, where no blank follows them, and the line reads as a description whose name is the tag
(`NamedBy.splitNamedDoc?_eq`). For the same reason a description that was split off is never empty,
and a line lacks a description only when its text is empty (`docOf_eq_empty_iff`).

Main statement: an accepted entry whose text names it has that name when a description follows, and
otherwise its tag for a name and the whole text for a description; no named text is ever reported as
one without documentation (`named_entries_read`).
-/

namespace ArgumentSchemes.Header

open Text

/-! ### Texts that name their entry -/

/-- A text begins with the word `name`, blanks and two hyphens; behind these it ends or goes on with
a blank. What stands behind the hyphens is `rest`. -/
structure NamedBy (text name : String) (rest : List Char) : Prop where
  isWord : IsWord name.toList
  eq : ∃ bs, bs ≠ [] ∧ (∀ b ∈ bs, isBlank b = true) ∧
    text.toList = name.toList ++ (bs ++ '-' :: '-' :: rest)
  ends : ∀ c ∈ rest.head?, isBlank c = true

/-- The entry's name and the description that follows it, when both stand in the text. -/
theorem NamedBy.splitNamedDoc?_eq {text name : String} {rest : List Char}
    (h : NamedBy text name rest) (hline : '\n' ∉ text.toList) :
    splitNamedDoc? text = if rest = [] then none else some (name, String.ofList (trim rest)) := by
  obtain ⟨bs, hne, hbs, heq⟩ := h.eq
  have hspan : spanWord text.toList = (name.toList, bs ++ '-' :: '-' :: rest) := by
    rw [heq]
    exact spanWord_append_of_all h.isWord.all (wordEnds_blanks_append hbs (by decide) _)
  have htrim : trimStart (bs ++ '-' :: '-' :: rest) = '-' :: '-' :: rest :=
    trimStart_append_cons hbs (by decide) _
  have hrest : afterPrefix? ['-', '-'] ('-' :: '-' :: rest) = some rest :=
    afterPrefix?_eq_some_iff.mpr rfl
  have hdoc : '\n' ∉ trimStart rest := fun hmem => hline <| by
    rw [heq]
    exact List.mem_append_right _ (List.mem_append_right _
      (List.mem_cons_of_mem _ (List.mem_cons_of_mem _ ((trimStart_suffix rest).subset hmem))))
  have hblank : startsBlank (bs ++ '-' :: '-' :: rest) = true := startsBlank_append hne hbs _
  simp only [splitNamedDoc?, hspan, htrim, hrest, hblank, hdoc]
  cases rest with
  | nil => simp [startsBlank]
  | cons c rest =>
    have hc : startsBlank (c :: rest) = true := h.ends c rfl
    simp [hc, h.isWord.ne_nil, trim]

/-- **A text is taken apart** exactly when it names its entry and goes on behind the hyphens. -/
theorem splitNamedDoc?_eq_some_iff {text name doc : String} (hline : '\n' ∉ text.toList) :
    splitNamedDoc? text = some (name, doc) ↔
      ∃ rest, NamedBy text name rest ∧ rest ≠ [] ∧ doc = String.ofList (trim rest) := by
  constructor
  · intro h
    simp only [splitNamedDoc?] at h
    split at h
    · next rest hrest =>
      simp only [Option.ite_none_right_eq_some, Bool.and_eq_true, Bool.not_eq_eq_eq_not,
        Bool.not_true, List.isEmpty_eq_false_iff] at h
      obtain ⟨⟨⟨⟨hne, hafter⟩, hends⟩, -⟩, hparts⟩ := h
      obtain ⟨rfl, rfl⟩ := Prod.mk.inj (Option.some.inj hparts)
      obtain ⟨bs, hbs, heq⟩ := exists_eq_append_trimStart (spanWord text.toList).2
      rw [afterPrefix?_eq_some_iff.mp hrest] at heq
      refine ⟨rest, ⟨?_, ⟨bs, ?_, hbs, ?_⟩, ?_⟩, ?_, rfl⟩
      · rw [String.toList_ofList]
        exact isWord_spanWord hne
      · -- behind the word there stands a blank, and a hyphen is none
        have hyphen : isBlank '-' = false := by decide
        rintro rfl
        rw [heq] at hafter
        exact absurd hafter (by simp [startsBlank, hyphen])
      · rw [String.toList_ofList, show '-' :: '-' :: rest = ['-', '-'] ++ rest from rfl, ← heq,
          spanWord_append]
      · rintro c hc
        rwa [startsBlank, Option.mem_def.mp hc, Option.any_some] at hends
      · rintro rfl
        cases hends
    · cases h
  · rintro ⟨rest, hnamed, hne, rfl⟩
    rw [hnamed.splitNamedDoc?_eq hline, if_neg hne]

/-- In the text of a line, something stands behind the hyphens when anything does. -/
theorem NamedBy.trim_ne_nil {text name : String} {rest : List Char} (h : NamedBy text name rest)
    (htext : Trimmed text.toList) (hne : rest ≠ []) : trim rest ≠ [] := by
  obtain ⟨bs, -, -, heq⟩ := h.eq
  -- the last character behind the hyphens is the last one of the text, so it is no blank
  obtain ⟨rest, c, rfl⟩ := List.eq_nil_or_concat' rest |>.resolve_left hne
  have hstop := htext.stop
  rw [show text.toList = (name.toList ++ (bs ++ '-' :: '-' :: rest)) ++ [c] by simp [heq],
    trimEnd_concat_eq_self_iff] at hstop
  intro hnil
  rw [trim_eq_nil_iff.mp hnil c (by simp)] at hstop
  cases hstop

/-- **Only an empty text describes nothing.** -/
theorem docOf_eq_empty_iff {text : String} (h : IsDocText text) : docOf text = "" ↔ text = "" := by
  rw [docOf]
  split
  · next name doc hsplit =>
    obtain ⟨rest, hnamed, hne, rfl⟩ := (splitNamedDoc?_eq_some_iff h.oneLine).mp hsplit
    refine iff_of_false (fun hdoc => ?_) (fun htext => ?_)
    · exact hnamed.trim_ne_nil h.trimmed hne (String.ofList_eq_empty_iff.mp hdoc)
    · rw [htext] at hsplit
      cases hsplit
  · exact Iff.rfl

/-- The entry of a text that names it. -/
theorem NamedBy.entry_eq {p : Spelling} {name : String} {rest : List Char}
    (h : NamedBy p.text name rest) (hline : '\n' ∉ p.text.toList) :
    p.entry =
      if rest = [] then { argName := p.tag, doc := p.text, constant := p.constant }
      else { argName := name, doc := String.ofList (trim rest), constant := p.constant } := by
  rw [Spelling.entry, nameOf, docOf, h.splitNamedDoc?_eq hline]
  by_cases hrest : rest = []
  · simp [hrest]
  · simp [hrest]

/-! ### Entries without a description -/

theorem EntryDraft.doc_ofDoc (text tag : String) :
    (ofDoc text tag).doc = nonBlank? (docOf text) := by
  rw [ofDoc_eq]

/-- An entry with a name was begun by documentation, and has what that gives. -/
theorem exists_doc_of_mem_entriesBegun {ms : List Mark} {e : EntryDraft}
    (h : e ∈ entriesBegun ms) (hname : e.argName ≠ none) :
    ∃ text tag, .doc text tag ∈ ms ∧ e.argName = some (nameOf text tag) ∧
      e.doc = nonBlank? (docOf text) := by
  fun_induction entriesBegun ms with
  | case1 => cases h
  | case2 text tag constant rest ih =>
    rcases List.mem_cons.mp h with rfl | h
    · exact ⟨text, tag, List.mem_cons_self, EntryDraft.argName_ofDoc text tag,
        EntryDraft.doc_ofDoc text tag⟩
    · obtain ⟨text', tag', hmem, hparts⟩ := ih h
      exact ⟨text', tag', List.mem_cons_of_mem _ (List.mem_cons_of_mem _ hmem), hparts⟩
  | case3 text tag rest hrest ih =>
    rcases List.mem_cons.mp h with rfl | h
    · exact ⟨text, tag, List.mem_cons_self, EntryDraft.argName_ofDoc text tag,
        EntryDraft.doc_ofDoc text tag⟩
    · obtain ⟨text', tag', hmem, hparts⟩ := ih h
      exact ⟨text', tag', List.mem_cons_of_mem _ hmem, hparts⟩
  | case4 constant rest ih =>
    rcases List.mem_cons.mp h with rfl | h
    · exact absurd rfl hname
    · obtain ⟨text', tag', hmem, hparts⟩ := ih h
      exact ⟨text', tag', List.mem_cons_of_mem _ hmem, hparts⟩

theorem EntryDraft.parts_of_missing?_doc {e : EntryDraft} (h : e.missing? = some .doc) :
    e.argName ≠ none ∧ e.doc = none := by
  obtain ⟨argName, doc, declared, constant⟩ := e
  rcases argName with _ | argName
  · cases h
  · rcases doc with _ | doc
    · simp
    · rcases constant with _ | constant <;> cases h

/-- **An entry is reported as one without documentation** when its line has a tag and nothing else.
-/
theorem Region.eq_of_reports_missing_doc {r : Region} (h : r.WellFormed) {marker scheme : String}
    {index : Nat} {label : Option String}
    (hreports : r.Reports marker (.incompleteEntry scheme index label .doc)) :
    scheme = r.name ∧ ∃ tag, label = some tag ∧ .doc "" tag ∈ marks r.body := by
  cases hreports with
  | contradiction hfirst =>
    -- no line that contradicts another is reported as an entry
    obtain ⟨seen, line, -, -, hline⟩ := hfirst
    cases hline
  | incomplete hconsistent hfirst =>
    refine ⟨rfl, ?_⟩
    obtain ⟨after, hes⟩ := hfirst.exists_eq
    obtain ⟨hname, hdoc⟩ := EntryDraft.parts_of_missing?_doc hfirst.missing
    obtain ⟨text, tag, hmem, hargName, hparts⟩ :=
      exists_doc_of_mem_entriesBegun (hes ▸ List.mem_append_right _ List.mem_cons_self) hname
    have htext := (wellFormed_of_mem_marks h hmem).1
    rw [hparts, nonBlank?_of_trimmed (trimmed_docOf htext)] at hdoc
    obtain rfl : text = "" := by simpa [docOf_eq_empty_iff htext] using hdoc
    exact ⟨tag, EntryDraft.label_of_argName hargName, hmem⟩

/-! ### Entries in a header -/

/-- **Named documentation.** Every item of a header, but the fault of a scheme that is left open, is
that of a region. In an accepted region an entry whose text names it has this name, its tag for a
constant and what follows the hyphens for a description, when anything follows them. When nothing
does, it is an entry like one without a name of its own: the tag is its name, the text, hyphens and
all, its description, and its constant that of the enum; so it keeps its name only if the tag says
the same. Such a text makes no region fail either: an entry that is reported as one without
documentation has no text at all. -/
theorem named_entries_read (checker : Checker) (text : String) :
    (∀ item ∈ checker.parse text,
      (∃ (r : Region) (before behind : List Line), r.StandsIn (kinds text) before behind ∧
        checker.check r.draft = item) ∨ ∃ name line, item = .error (.unterminated name line)) ∧
    ∀ (r : Region) (before behind : List Line), r.StandsIn (kinds text) before behind →
      (∀ s, checker.check r.draft = .ok s →
        ∃ ps : List Spelling,
          marks r.body = ps.flatMap Spelling.marks ∧ s.entries = ps.map Spelling.entry ∧
          ∀ p ∈ ps, ∀ name rest, NamedBy p.text name rest →
            (p.entry.argName = name ∧ p.entry.constant = p.tag ↔
              rest ≠ [] ∨ p.tag = name ∧ p.constant = name) ∧
            p.entry =
              if rest = [] then { argName := p.tag, doc := p.text, constant := p.constant }
              else { argName := name, doc := String.ofList (trim rest), constant := p.tag }) ∧
      ∀ scheme index label,
        checker.check r.draft = .error (.incompleteEntry scheme index label .doc) →
          scheme = r.name ∧ ∃ tag, label = some tag ∧ .doc "" tag ∈ marks r.body := by
  refine ⟨fun item => exists_standsIn_of_mem_parse, fun r before behind hstands => ⟨?_, ?_⟩⟩
  · intro s hs
    obtain ⟨hconforms, rfl⟩ := (Region.check_draft_eq_ok_iff hstands.wellFormed).mp hs
    obtain ⟨-, ps, hps, hsound, -⟩ := conforms_iff.mp hconforms
    have hentries : r.scheme.entries = ps.map Spelling.entry := by
      rw [Region.scheme, hps, entriesOf_flatMap]
    refine ⟨ps, hps, hentries, fun p hp name rest hnamed => ?_⟩
    have htext : Mark.WellFormed (.doc p.text p.tag) := by
      refine Region.wellFormed_of_mem_marks hstands.wellFormed ?_
      rw [hps]
      exact doc_mem_flatMap_iff.mpr ⟨p, hp, rfl, rfl⟩
    have hentry := hnamed.entry_eq htext.1.oneLine
    by_cases hrest : rest = []
    · rw [hentry, if_pos hrest, if_pos hrest]
      refine ⟨?_, rfl⟩
      simp only [hrest, ne_eq, not_true_eq_false, false_or]
      exact and_congr_right fun htag => by rw [htag]
    · -- a text that is taken apart declares its constant
      have hconstant : p.constant = p.tag := (hsound p hp).declared <| by
        rw [hnamed.splitNamedDoc?_eq htext.1.oneLine, if_neg hrest]
        rfl
      rw [hentry, if_neg hrest, if_neg hrest, hconstant]
      exact ⟨iff_of_true ⟨rfl, rfl⟩ (.inl hrest), rfl⟩
  · intro scheme index label hfault
    exact Region.eq_of_reports_missing_doc hstands.wellFormed
      ((Region.check_draft_eq_error_iff hstands.wellFormed).mp hfault)

/-- Blanks of more than one kind around the hyphens, and hyphens in the description. -/
theorem named_entries_read_blanks :
    let text := "/// Input arguments of f [fIn]\nenum fIn \x7b\n///x \t--\u00a0 the -- x [F_X]\n" ++
      "F_X,\n/// the y [y]\nF_Y,\n\x7d;"
    let r : Region := ⟨1, .input, "Input arguments of f", "fIn",
      [.enumHeader "fIn", .entryDoc "x \t--\u00a0 the -- x" "F_X", .enumEntry "F_X",
        .entryDoc "the y" "y", .enumEntry "F_Y"]⟩
    let s : Scheme :=
      { role := .input, name := "fIn", title := "Input arguments of f", summary := ""
        group := "fIn", entries := [⟨"x", "the -- x", "F_X"⟩, ⟨"y", "the y", "F_Y"⟩] }
    r.StandsIn (kinds text) [] [] ∧ Checker.check {} r.draft = .ok s ∧
      NamedBy "x \t--\u00a0 the -- x" "x" "\u00a0 the -- x".toList ∧
      ∃ p : Spelling, p.text = "x \t--\u00a0 the -- x" ∧ p.tag = "F_X" ∧
        p.entry = ⟨"x", "the -- x", "F_X"⟩ := by
  intro text r s
  have hstands : r.StandsIn (kinds text) [] [] :=
    ⟨by decide +kernel, by decide, by decide, by decide⟩
  have hcheck : Checker.check {} r.draft = .ok s := by decide +kernel
  have hnamed : NamedBy "x \t--\u00a0 the -- x" "x" "\u00a0 the -- x".toList :=
    ⟨⟨by decide, List.all_eq_true.mp (by decide)⟩,
      ⟨[' ', '\t'], by decide, List.all_eq_true.mp (by decide), by decide⟩, by rintro _ ⟨⟩; decide⟩
  obtain ⟨hok, -⟩ := (named_entries_read {} text).2 r [] [] hstands
  obtain ⟨ps, hps, -, hnames⟩ := hok s hcheck
  have hmem : .doc "x \t--\u00a0 the -- x" "F_X" ∈ ps.flatMap Spelling.marks := by
    rw [← hps]
    decide
  obtain ⟨p, hp, htext, htag⟩ := doc_mem_flatMap_iff.mp hmem
  obtain ⟨-, hentry⟩ := hnames p hp "x" _ (htext ▸ hnamed)
  rw [htag, if_neg (by decide)] at hentry
  exact ⟨hstands, hcheck, hnamed, p, htext, htag, hentry.trans (by decide)⟩

/-- **A named entry without a description is accepted**, under the name of its tag. -/
theorem named_entry_loses_name :
    let text := "/// Input arguments of f [fIn]\nenum fIn \x7b\n/// x -- [F_X]\nF_X,\n\x7d;\n"
    let s : Scheme :=
      { role := .input, name := "fIn", title := "Input arguments of f", summary := ""
        group := "fIn", entries := [⟨"F_X", "x --", "F_X"⟩] }
    .ok s ∈ Checker.parse {} text ∧ .entryDoc "x --" "F_X" ∈ kinds text ∧
      NamedBy "x --" "x" [] ∧ ∀ e ∈ s.entries, e.argName ≠ "x" := by
  refine ⟨by decide +kernel, by decide +kernel, ?_, by decide⟩
  exact ⟨⟨by decide, List.all_eq_true.mp (by decide)⟩,
    ⟨[' '], by decide, List.all_eq_true.mp (by decide), by decide⟩, by simp⟩

end ArgumentSchemes.Header
