import ArgumentSchemes.Proofs.Acceptance

/-!
# Opening lines inside a region

The line that would open a scheme is read as the documentation of one more entry while another
scheme is open. Its title can never be split into a name and a description
(`splitNamedDoc?_eq_none_of_markerRole?`), so the entry has the name of the swallowed scheme, is
described by its title, and lacks a constant.

Whether the region fails depends on what stands around that line. It passes when the swallowed
scheme happens to supply what the entry lacks (`PassesAsEntry`): a constant comes next, every entry
above has its own, and without the two lines the body conforms.

Main statement: a region with a further opening line inside is refused unless that line passes as
an entry (`nested_opening_refused_iff`).
-/

namespace ArgumentSchemes.Header

open Text

/-! ### The entry of an opening line -/

/-- A text with the marker of a role begins with it. -/
theorem exists_eq_of_markerRole? {cs : List Char} {role : Role} (h : markerRole? cs = some role) :
    ∃ rest, cs = role.marker.toList ++ rest := by
  obtain ⟨rest, hcs, -⟩ := markerRole?_eq_some_iff.mp h
  exact ⟨rest, hcs⟩

/-- No hyphens follow the first word of a title. -/
theorem splitNamedDoc?_eq_none_of_markerRole? {text : String} {role : Role}
    (h : markerRole? text.toList = some role) : splitNamedDoc? text = none := by
  obtain ⟨rest, hrest⟩ := exists_eq_of_markerRole? h
  obtain ⟨word, hword, hmarker⟩ : ∃ word : List Char, (∀ c ∈ word, isWordChar c = true) ∧
      role.marker.toList = word ++ ' ' :: "arguments".toList := by
    cases role with
    | input => exact ⟨"Input".toList, List.all_eq_true.mp (by decide), by decide⟩
    | output => exact ⟨"Output".toList, List.all_eq_true.mp (by decide), by decide⟩
  obtain ⟨behind, hbehind⟩ : ∃ behind, "arguments".toList ++ rest = 'a' :: behind := ⟨_, rfl⟩
  have hspan : spanWord text.toList = (word, ' ' :: 'a' :: behind) := by
    rw [hrest, hmarker, List.append_assoc, List.cons_append, hbehind]
    exact spanWord_append_of_all hword (wordEnds_cons (by decide) _)
  have htrim : trimStart (' ' :: 'a' :: behind) = 'a' :: behind := by
    calc trimStart ([' '] ++ 'a' :: behind)
        = trimStart ('a' :: behind) := trimStart_append isBlank_of_mem_space _
      _ = 'a' :: behind := trimStart_cons_eq_self_iff.mpr (by decide)
  have hhyphens : afterPrefix? ['-', '-'] ('a' :: behind) = none := by
    rw [Option.eq_none_iff_forall_ne_some]
    intro after hafter
    exact absurd (List.cons.inj (afterPrefix?_eq_some_iff.mp hafter)).1 (by decide)
  simp [splitNamedDoc?, hspan, htrim, hhyphens]

theorem ne_empty_of_markerRole? {text : String} {role : Role}
    (h : markerRole? text.toList = some role) : text ≠ "" := by
  rintro rfl
  obtain ⟨rest, hrest⟩ := exists_eq_of_markerRole? h
  cases role <;> simp [Role.marker] at hrest

/-! ### Marks around an opening line -/

theorem marks_bodyOf (ls : List Line) : marks (bodyOf ls) = marks ls := by
  conv_rhs => rw [← map_doc_summaryOf_append_bodyOf ls, marks_append]
  simp [marks, Line.mark?]

theorem groups_bodyOf (ls : List Line) : groups (bodyOf ls) = groups ls := by
  conv_rhs => rw [← map_doc_summaryOf_append_bodyOf ls, groups_append]
  simp [groups, Line.group?]

/-- The grammar reads nothing but the marks and the heads of enums. -/
theorem Conforms.congr {role : Role} {marker : String} {ls ls' : List Line}
    (h : Conforms role marker ls) (hmarks : marks ls' = marks ls)
    (hgroups : groups ls' = groups ls) : Conforms role marker ls' where
  group := hgroups ▸ h.group
  alternate := hmarks ▸ h.alternate
  documented := hmarks ▸ h.documented
  declared := hmarks ▸ h.declared
  unreserved := hmarks ▸ h.unreserved

/-- Documentation among the marks of spelled entries begins one of them. -/
theorem exists_spelling_of_doc {ps : List Spelling} {above below : List Mark} {text tag : String}
    (h : ps.flatMap Spelling.marks = above ++ .doc text tag :: below) :
    ∃ before p behind, ps = before ++ p :: behind ∧ p.text = text ∧ p.tag = tag ∧
      above = before.flatMap Spelling.marks ∧
      below = .constant p.constant :: behind.flatMap Spelling.marks := by
  induction ps generalizing above with
  | nil => simp at h
  | cons p ps ih =>
    rw [List.flatMap_cons, Spelling.marks, List.cons_append, List.singleton_append] at h
    rcases above with _ | ⟨m, _ | ⟨m', above⟩⟩
    · simp only [List.nil_append, List.cons.injEq, Mark.doc.injEq] at h
      obtain ⟨⟨htext, htag⟩, rfl⟩ := h
      exact ⟨[], p, ps, rfl, htext, htag, rfl, rfl⟩
    · simp at h
    · simp only [List.cons_append, List.cons.injEq] at h
      obtain ⟨rfl, rfl, hrest⟩ := h
      obtain ⟨before, q, behind, rfl, htext, htag, rfl, rfl⟩ := ih hrest
      exact ⟨p :: before, q, behind, rfl, htext, htag, rfl, rfl⟩

/-- Spelled entries whose marks begin with those of other ones begin with these. -/
theorem exists_append_of_flatMap_marks {ps before : List Spelling} {ms : List Mark}
    (h : ps.flatMap Spelling.marks = before.flatMap Spelling.marks ++ ms) :
    ∃ behind, ps = before ++ behind ∧ ms = behind.flatMap Spelling.marks := by
  induction before generalizing ps with
  | nil => exact ⟨ps, rfl, h.symm⟩
  | cons p before ih =>
    cases ps with
    | nil => simp [Spelling.marks] at h
    | cons q ps =>
      obtain ⟨text, tag, constant⟩ := p
      obtain ⟨text', tag', constant'⟩ := q
      simp only [List.flatMap_cons, Spelling.marks, List.cons_append, List.nil_append,
        List.cons.injEq, Mark.doc.injEq, Mark.constant.injEq] at h
      obtain ⟨⟨rfl, rfl⟩, rfl, hrest⟩ := h
      obtain ⟨behind, rfl, hms⟩ := ih hrest
      exact ⟨behind, rfl, hms⟩

/-- The first mark of some lines stands on one of them, and in front of it there is none. -/
theorem exists_enumEntry_of_marks {ls : List Line} {constant : String} {ms : List Mark}
    (h : marks ls = .constant constant :: ms) :
    ∃ between rest, ls = between ++ .enumEntry constant :: rest ∧ marks between = [] ∧
      marks rest = ms := by
  obtain ⟨between, line, rest, rfl, hbetween, hline, hrest⟩ := List.filterMap_eq_cons_iff.mp h
  have hconstant : line = .enumEntry constant := by
    cases line <;> simp [Line.mark?] at hline
    rw [hline]
  subst hconstant
  exact ⟨between, rest, rfl, List.filterMap_eq_nil_iff.mpr hbetween, hrest⟩

/-! ### Opening lines that pass as entries -/

/-- Between the lines `above` and `below` of a region an opening line **passes as an entry** with
the constant `constant`. -/
structure PassesAsEntry (role : Role) (marker : String) (above below : List Line)
    (constant : String) : Prop where
  /-- Every entry above the line has its constant. -/
  above_complete : Alternate (marks above)
  /-- The next mark below the line is the constant, and without the two lines the body conforms. -/
  constant_next : ∃ between rest, below = between ++ .enumEntry constant :: rest ∧
    marks between = [] ∧ Conforms role marker (above ++ (between ++ rest))
  unreserved : marker ≠ "" → ¬ marker.toList <:+: constant.toList

/-- A body with an opening line inside conforms exactly when the line passes as an entry. -/
theorem conforms_append_opening_iff {role inner : Role} {marker title name : String}
    {above below : List Line} (htitle : markerRole? title.toList = some inner) :
    Conforms role marker (above ++ .schemeStart inner title name :: below) ↔
      ∃ constant, PassesAsEntry role marker above below constant := by
  have hsplit := splitNamedDoc?_eq_none_of_markerRole? htitle
  have hmarks : ∀ below, marks (above ++ .schemeStart inner title name :: below) =
      marks above ++ .doc title name :: marks below := fun below => marks_append _ _
  have hgroups : ∀ between rest constant,
      groups (above ++ .schemeStart inner title name ::
        (between ++ .enumEntry constant :: rest)) = groups (above ++ (between ++ rest)) := by
    intro between rest constant
    rw [groups_append, groups_append above, groups_append between]
    exact congrArg (groups above ++ ·) (groups_append between (.enumEntry constant :: rest))
  constructor
  · intro h
    obtain ⟨hgroup, ps, hps, hsound, hunreserved⟩ := conforms_iff.mp h
    rw [hmarks] at hps
    obtain ⟨before, p, behind, rfl, -, -, habove, hbelow⟩ := exists_spelling_of_doc hps.symm
    obtain ⟨between, rest, rfl, hbetween, hrest⟩ := exists_enumEntry_of_marks hbelow
    have hsub : before ++ behind ⊆ before ++ p :: behind :=
      ((List.sublist_cons_self p behind).append_left before).subset
    refine ⟨p.constant, habove ▸ alternate_flatMap before, ⟨between, rest, rfl, hbetween, ?_⟩,
      fun hne => hunreserved hne p (by simp)⟩
    refine conforms_iff.mpr ⟨hgroups between rest p.constant ▸ hgroup, before ++ behind, ?_,
      fun q hq => hsound q (hsub hq), fun hne q hq => hunreserved hne q (hsub hq)⟩
    rw [marks_append, marks_append, hbetween, habove, hrest, List.flatMap_append, List.nil_append]
  · rintro ⟨constant, habove, ⟨between, rest, rfl, hbetween, hrest⟩, hfree⟩
    obtain ⟨hgroup, ps, hps, hsound, hunreserved⟩ := conforms_iff.mp hrest
    obtain ⟨before, hbefore⟩ := habove.exists_spellings
    rw [marks_append, marks_append, hbetween, List.nil_append, hbefore] at hps
    obtain ⟨behind, rfl, hbehind⟩ := exists_append_of_flatMap_marks hps.symm
    -- the opening line and the constant spell one more entry between the others
    refine conforms_iff.mpr ⟨(hgroups between rest constant).symm ▸ hgroup,
      before ++ ⟨title, name, constant⟩ :: behind, ?_, fun q hq => ?_, fun hne q hq => ?_⟩
    · rw [hmarks, marks_append, hbetween, List.nil_append, hbefore, List.flatMap_append,
        List.flatMap_cons, ← hbehind]
      rfl
    · rcases List.mem_append.mp hq with hq | hq
      · exact hsound q (List.mem_append_left _ hq)
      rcases List.mem_cons.mp hq with rfl | hq
      · refine ⟨?_, by simp [hsplit]⟩
        simpa [docOf, hsplit] using ne_empty_of_markerRole? htitle
      · exact hsound q (List.mem_append_right _ hq)
    · rcases List.mem_append.mp hq with hq | hq
      · exact hunreserved hne q (List.mem_append_left _ hq)
      rcases List.mem_cons.mp hq with rfl | hq
      · exact hfree hne
      · exact hunreserved hne q (List.mem_append_right _ hq)

theorem entriesOf_flatMap_append (ps : List Spelling) (ms : List Mark) :
    entriesOf (ps.flatMap Spelling.marks ++ ms) = ps.map Spelling.entry ++ entriesOf ms := by
  induction ps with
  | nil => rfl
  | cons p ps ih => exact congrArg (p.entry :: ·) ih

/-- The entry of an opening line that passes has the name and the title of the swallowed scheme. -/
theorem PassesAsEntry.mem_entriesOf {role inner : Role} {marker title name constant : String}
    {above below : List Line} (htitle : markerRole? title.toList = some inner)
    (h : PassesAsEntry role marker above below constant) :
    { argName := name, doc := title, constant } ∈
      entriesOf (marks (above ++ .schemeStart inner title name :: below)) := by
  obtain ⟨before, hbefore⟩ := h.above_complete.exists_spellings
  obtain ⟨between, rest, rfl, hbetween, -⟩ := h.constant_next
  have hmarks : marks (above ++ .schemeStart inner title name ::
      (between ++ .enumEntry constant :: rest)) =
      before.flatMap Spelling.marks ++ .doc title name :: .constant constant :: marks rest := by
    calc marks (above ++ .schemeStart inner title name ::
          (between ++ .enumEntry constant :: rest))
        = marks above ++ .doc title name :: marks (between ++ .enumEntry constant :: rest) :=
          marks_append _ _
      _ = marks above ++
            .doc title name :: (marks between ++ .constant constant :: marks rest) := by
          rw [marks_append between]
          rfl
      _ = _ := by rw [hbetween, hbefore, List.nil_append]
  have hsplit := splitNamedDoc?_eq_none_of_markerRole? htitle
  rw [hmarks, entriesOf_flatMap_append]
  refine List.mem_append_right _ ?_
  simp [entriesOf, nameOf, docOf, hsplit]

/-- **A region with a further opening line inside is refused** unless that line passes as an entry.
Then the region is accepted, and the swallowed scheme is one of its entries. -/
theorem nested_opening_refused_iff (checker : Checker) (text : String) {r : Region}
    {before behind : List Line} (h : r.StandsIn (kinds text) before behind)
    {above below : List Line} {inner : Role} {title name : String}
    (hinside : r.inside = above ++ .schemeStart inner title name :: below) :
    ∃ item, checker.parse text =
        (segments 1 before).map (·.item checker) ++ item ::
          (segments (r.number + r.inside.length + 2) behind).map (·.item checker) ∧
      ((∃ fault, item = .error fault) ↔
        ∀ constant, ¬ PassesAsEntry r.role checker.reservedMarker above below constant) ∧
      ∀ s, item = .ok s → ∃ constant,
        PassesAsEntry r.role checker.reservedMarker above below constant ∧
          { argName := name, doc := title, constant } ∈ s.entries := by
  have hopening : Line.WellFormed (.schemeStart inner title name) :=
    h.wellFormed _ (List.mem_cons_of_mem _ (by simp [hinside]))
  have hok : ∀ {s}, checker.check r.draft = .ok s ↔
      (∃ constant, PassesAsEntry r.role checker.reservedMarker above below constant) ∧
        s = r.scheme := by
    intro s
    have hbody : Conforms r.role checker.reservedMarker r.body ↔
        Conforms r.role checker.reservedMarker r.inside :=
      ⟨fun hc => hc.congr (marks_bodyOf _).symm (groups_bodyOf _).symm,
        fun hc => hc.congr (marks_bodyOf _) (groups_bodyOf _)⟩
    rw [Region.check_draft_eq_ok_iff h.wellFormed, hbody, hinside,
      conforms_append_opening_iff hopening.2.1]
  refine ⟨checker.check r.draft, h.parse_eq checker, ?_, fun s hs => ?_⟩
  · constructor
    · rintro ⟨fault, hfault⟩ constant hpasses
      rw [hok.mpr ⟨⟨constant, hpasses⟩, rfl⟩] at hfault
      cases hfault
    · intro hnone
      rcases hcheck : checker.check r.draft with fault | s
      · exact ⟨fault, rfl⟩
      · obtain ⟨⟨constant, hpasses⟩, -⟩ := hok.mp hcheck
        exact absurd hpasses (hnone constant)
  · obtain ⟨⟨constant, hpasses⟩, rfl⟩ := hok.mp hs
    refine ⟨constant, hpasses, ?_⟩
    have hmem : { argName := name, doc := title, constant } ∈
        entriesOf (marks (above ++ .schemeStart inner title name :: below)) :=
      hpasses.mem_entriesOf hopening.2.1
    rwa [← hinside, ← marks_bodyOf] at hmem

/-- A region that holds the heads of two enums is refused. -/
theorem nested_opening_refused_second_enum :
    let text := "/// Input arguments of g [gIn]\nenum gIn \x7b\n/// the x [x]\nG_X,\n" ++
      "/// Input arguments of f [fIn]\nenum fIn \x7b\nF_A,\n\x7d;\n"
    let r : Region := ⟨1, .input, "Input arguments of g", "gIn",
      [.enumHeader "gIn", .entryDoc "the x" "x", .enumEntry "G_X",
        .schemeStart .input "Input arguments of f" "fIn", .enumHeader "fIn", .enumEntry "F_A"]⟩
    r.StandsIn (kinds text) [] [] ∧ ∃ fault, Checker.parse {} text = [.error fault] := by
  intro text r
  have h : r.StandsIn (kinds text) [] [] := ⟨by decide +kernel, rfl, rfl, by decide⟩
  have hinside : r.inside = [.enumHeader "gIn", .entryDoc "the x" "x", .enumEntry "G_X"] ++
      .schemeStart .input "Input arguments of f" "fIn" ::
        [.enumHeader "fIn", .enumEntry "F_A"] := rfl
  obtain ⟨item, hparse, hrefused, -⟩ := nested_opening_refused_iff {} text h hinside
  have hnone : ∀ constant, ¬ PassesAsEntry r.role "_NUM_"
      [.enumHeader "gIn", .entryDoc "the x" "x", .enumEntry "G_X"]
      [.enumHeader "fIn", .enumEntry "F_A"] constant := by
    rintro constant ⟨-, ⟨between, rest, hbelow, -, hconforms⟩, -⟩
    obtain ⟨group, hgroup, -⟩ := hconforms.group
    have hgroups : groups (between ++ rest) = ["fIn"] := by
      have hsplit := congrArg groups hbelow
      rw [groups_append] at hsplit
      rw [groups_append]
      exact hsplit.symm
    rw [groups_append, hgroups] at hgroup
    cases hgroup
  obtain ⟨fault, rfl⟩ := hrefused.mpr hnone
  refine ⟨h, fault, hparse.trans ?_⟩
  simp [segments]

/-- A scheme without a terminator takes the scheme below it for one of its entries, when it has no
enum of its own. -/
theorem nested_opening_accepted :
    let text := "/// Input arguments of g [gIn]\n/// the x [x]\nG_X,\n" ++
      "/// Input arguments of f [fIn]\nenum fIn \x7b\nF_A,\n\x7d;\n"
    let r : Region := ⟨1, .input, "Input arguments of g", "gIn",
      [.entryDoc "the x" "x", .enumEntry "G_X", .schemeStart .input "Input arguments of f" "fIn",
        .enumHeader "fIn", .enumEntry "F_A"]⟩
    r.StandsIn (kinds text) [] [] ∧ (∃ line ∈ r.inside, line.isOpening = true) ∧
      Checker.parse {} text = [.ok
        { role := .input, name := "gIn", title := "Input arguments of g", summary := ""
          group := "fIn"
          entries := [{ argName := "x", doc := "the x", constant := "G_X" },
            { argName := "fIn", doc := "Input arguments of f", constant := "F_A" }] }] := by
  intro text r
  exact ⟨⟨by decide +kernel, rfl, rfl, by decide⟩, by decide, by decide +kernel⟩

end ArgumentSchemes.Header
