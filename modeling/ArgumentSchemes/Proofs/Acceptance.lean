import ArgumentSchemes.Proofs.Segments
import ArgumentSchemes.Proofs.Spelling

/-!
# Which schemes are accepted

The grammar of an accepted scheme is stated on the lines of its body, without the reader:
`Conforms` asks for one head of an enum that fits the role, for documentation and constants in turn,
for a description in every documentation, for constants that agree with the declared ones, and for
constants without the reserved marker.

Main statement: the item of a region is a scheme exactly when the body of the region conforms, and
then it is the scheme that its lines spell (`region_accepted_iff`).
-/

namespace ArgumentSchemes.Header

open Text

/-! ### The grammar -/

/-- Documentation and constants stand in turn: documentation first, a constant last. -/
def Alternate : List Mark → Prop
  | [] => True
  | .doc _ _ :: .constant _ :: rest => Alternate rest
  | _ => False

/-- The entries that documentation and constants in turn spell. -/
def entriesOf : List Mark → List Entry
  | .doc text tag :: .constant constant :: rest =>
    { argName := nameOf text tag, doc := docOf text, constant } :: entriesOf rest
  | _ => []

/-- A body is that of an accepted scheme of this role, when constants must not hold the marker. -/
structure Conforms (role : Role) (marker : String) (body : List Line) : Prop where
  /-- There is exactly one head of an enum, and it fits the role. -/
  group : ∃ group, groups body = [group] ∧ role.acceptsGroup group = true
  alternate : Alternate (marks body)
  /-- Every documentation describes its entry. -/
  documented : ∀ text tag, .doc text tag ∈ marks body → docOf text ≠ ""
  /-- Where the documentation is named, its tag is the constant that follows. -/
  declared : ∀ text tag constant, [.doc text tag, .constant constant] <:+: marks body →
    (splitNamedDoc? text).isSome → constant = tag
  unreserved : marker ≠ "" → ∀ constant, .constant constant ∈ marks body →
    ¬ marker.toList <:+: constant.toList

theorem alternate_flatMap (ps : List Spelling) : Alternate (ps.flatMap Spelling.marks) := by
  induction ps with
  | nil => trivial
  | cons p ps ih => exact ih

theorem Alternate.exists_spellings : ∀ {ms : List Mark}, Alternate ms →
    ∃ ps : List Spelling, ms = ps.flatMap Spelling.marks
  | [], _ => ⟨[], rfl⟩
  | [.doc _ _], h => h.elim
  | .doc text tag :: .constant constant :: rest, h => by
    have hrest : Alternate rest := h
    obtain ⟨ps, rfl⟩ := hrest.exists_spellings
    exact ⟨⟨text, tag, constant⟩ :: ps, rfl⟩
  | .doc _ _ :: .doc _ _ :: _, h => h.elim
  | .constant _ :: _, h => h.elim

theorem entriesOf_flatMap (ps : List Spelling) :
    entriesOf (ps.flatMap Spelling.marks) = ps.map Spelling.entry := by
  induction ps with
  | nil => rfl
  | cons p ps ih => exact congrArg (p.entry :: ·) ih

theorem doc_mem_flatMap_iff {ps : List Spelling} {text tag : String} :
    .doc text tag ∈ ps.flatMap Spelling.marks ↔ ∃ p ∈ ps, p.text = text ∧ p.tag = tag := by
  simp [Spelling.marks, eq_comm]

theorem constant_mem_flatMap_iff {ps : List Spelling} {constant : String} :
    .constant constant ∈ ps.flatMap Spelling.marks ↔ ∃ p ∈ ps, p.constant = constant := by
  simp [Spelling.marks, eq_comm]

theorem pair_infix_flatMap_iff {ps : List Spelling} {p : Spelling} :
    p.marks <:+: ps.flatMap Spelling.marks ↔ p ∈ ps := by
  induction ps with
  | nil => simp [Spelling.marks]
  | cons q ps ih =>
    have hmarks : p.marks = q.marks ↔ p = q := by
      obtain ⟨text, tag, constant⟩ := p
      obtain ⟨text', tag', constant'⟩ := q
      simp [Spelling.marks, and_assoc]
    rw [List.mem_cons, ← ih, ← hmarks, List.flatMap_cons]
    simp [Spelling.marks, List.infix_cons_iff, List.cons_prefix_cons]

/-- A body conforms when it spells its entries soundly. -/
theorem conforms_iff {role : Role} {marker : String} {body : List Line} :
    Conforms role marker body ↔
      (∃ group, groups body = [group] ∧ role.acceptsGroup group = true) ∧
      ∃ ps : List Spelling, marks body = ps.flatMap Spelling.marks ∧ (∀ p ∈ ps, p.Sound) ∧
        (marker ≠ "" → ∀ p ∈ ps, ¬ marker.toList <:+: p.constant.toList) := by
  constructor
  · rintro ⟨hgroup, halternate, hdocumented, hdeclared, hunreserved⟩
    obtain ⟨ps, hps⟩ := halternate.exists_spellings
    rw [hps] at hdocumented hdeclared hunreserved
    refine ⟨hgroup, ps, hps, fun p hp => ⟨?_, ?_⟩, fun hne p hp => ?_⟩
    · exact hdocumented p.text p.tag (doc_mem_flatMap_iff.mpr ⟨p, hp, rfl, rfl⟩)
    · exact hdeclared p.text p.tag p.constant (pair_infix_flatMap_iff.mpr hp)
    · exact hunreserved hne p.constant (constant_mem_flatMap_iff.mpr ⟨p, hp, rfl⟩)
  · rintro ⟨hgroup, ps, hps, hsound, hunreserved⟩
    refine ⟨hgroup, hps ▸ alternate_flatMap ps, ?_, ?_, ?_⟩
    · intro text tag hmem
      obtain ⟨p, hp, rfl, rfl⟩ := doc_mem_flatMap_iff.mp (hps ▸ hmem)
      exact (hsound p hp).documented
    · intro text tag constant hinfix
      have hp : ⟨text, tag, constant⟩ ∈ ps := pair_infix_flatMap_iff.mp (hps ▸ hinfix)
      exact (hsound _ hp).declared
    · intro hne constant hmem
      obtain ⟨p, hp, rfl⟩ := constant_mem_flatMap_iff.mp (hps ▸ hmem)
      exact hunreserved hne p hp

/-! ### Regions of accepted schemes -/

namespace Region

/-- The scheme that the lines of a region spell. -/
def scheme (r : Region) : Scheme where
  role := r.role
  name := r.name
  title := r.title
  summary := "\n".intercalate r.summary
  group := (groups r.body).headD ""
  entries := entriesOf (marks r.body)

/-- All lines of a region can be lines of a header. -/
def WellFormed (r : Region) : Prop := ∀ line ∈ r.opening :: r.inside, line.WellFormed

theorem body_subset_inside (r : Region) : r.body ⊆ r.inside := by
  intro line hline
  rw [← map_doc_summaryOf_append_bodyOf r.inside]
  exact List.mem_append_right _ hline

theorem wellFormed_of_mem_marks {r : Region} (h : r.WellFormed) {mark : Mark}
    (hmem : mark ∈ marks r.body) : mark.WellFormed := by
  obtain ⟨line, hline, hmark⟩ := List.mem_filterMap.mp hmem
  have hshape := h line (List.mem_cons_of_mem _ (r.body_subset_inside hline))
  cases line with
  | schemeStart role title name =>
    obtain rfl := Option.some.inj hmark
    exact ⟨hshape.1, hshape.2.2⟩
  | entryDoc text tag =>
    obtain rfl := Option.some.inj hmark
    exact ⟨hshape.1, hshape.2.2⟩
  | enumEntry name =>
    obtain rfl := Option.some.inj hmark
    exact hshape
  | _ => cases hmark

theorem isWord_of_mem_groups {r : Region} (h : r.WellFormed) {group : String}
    (hmem : group ∈ groups r.body) : IsWord group.toList := by
  obtain ⟨line, hline, hgroup⟩ := List.mem_filterMap.mp hmem
  have hshape := h line (List.mem_cons_of_mem _ (r.body_subset_inside hline))
  cases line with
  | enumHeader name =>
    obtain rfl := Option.some.inj hgroup
    exact hshape
  | _ => cases hgroup

theorem trim_title {r : Region} (h : r.WellFormed) :
    String.ofList (trim r.title.toList) = r.title := by
  have hopening : (opening r).WellFormed := h _ List.mem_cons_self
  rw [hopening.1.trimmed.trim_eq, String.ofList_toList]

/-- What the body does not set is what the opening line and the summary say. -/
theorem draft_heading {r : Region} (h : r.WellFormed) :
    r.draft.role = r.role ∧ r.draft.title = r.title ∧ r.draft.summary = r.summary := by
  obtain ⟨_, _, _, hdraft⟩ :=
    r.heading.exists_absorbAll_eq (r.number + 1 + r.summary.length) r.body
  rw [draft, hdraft]
  exact ⟨rfl, trim_title h, rfl⟩

/-- **The drafts that pass** are those of regions with a body that conforms. -/
theorem check_draft_eq_ok_iff {r : Region} (h : r.WellFormed) {checker : Checker} {s : Scheme} :
    checker.check r.draft = .ok s ↔
      Conforms r.role checker.reservedMarker r.body ∧ s = r.scheme := by
  have hstart : Reads [] r.heading := ⟨rfl, .nil⟩
  obtain ⟨hrole, htitle, hsummary⟩ := draft_heading h
  rw [Checker.check_eq_ok_iff, hrole, htitle, hsummary, draft_name]
  constructor
  · rintro ⟨hok, hcomplete, hgroup, haccepts, hfree, hs⟩
    -- nothing failed, so the draft says what the body says
    have hreads : Reads r.body r.draft := hstart.absorbAll hok
    obtain ⟨ps, hps, hentries, hsound⟩ :=
      hreads.entries.exists_spellings (fun _ _ hmem => (wellFormed_of_mem_marks h hmem).1) hcomplete
    have hgroups : groups r.body = [s.group] := by
      rw [hreads.group, hgroup]
      rfl
    refine ⟨conforms_iff.mpr ⟨⟨s.group, hgroups, haccepts⟩, ps, hps, hsound, ?_⟩, ?_⟩
    · intro hne p hp hinfix
      have hreserved : checker.reserves p.constant = false :=
        hfree p.entry (hentries ▸ List.mem_map_of_mem hp)
      rw [Checker.reserves_iff.mpr ⟨hne, hinfix⟩] at hreserved
      cases hreserved
    · rw [hs, scheme, hgroups, hps, entriesOf_flatMap, hentries]
      rfl
  · rintro ⟨hconforms, rfl⟩
    obtain ⟨⟨group, hgroups, haccepts⟩, ps, hps, hsound, hunreserved⟩ := conforms_iff.mp hconforms
    -- a body that spells its entries never contradicts itself
    have hok : r.draft.failure = none :=
      hstart.failure_eq_none rfl hgroups hps (fun p hp => (hsound p hp).declared) _
        (List.prefix_refl _)
    have hreads : Reads r.body r.draft := hstart.absorbAll hok
    have hentries : r.scheme.entries = ps.map Spelling.entry := by
      rw [scheme, hps, entriesOf_flatMap]
    have hgroup : r.scheme.group = group := by
      rw [scheme, hgroups]
      rfl
    refine ⟨hok, ?_, ?_, hgroup ▸ haccepts, ?_, rfl⟩
    · rw [hentries]
      refine (hps ▸ hreads.entries).completes (fun p hp => ?_) fun p hp => (hsound p hp).documented
      have hmem : .doc p.text p.tag ∈ marks r.body :=
        hps ▸ doc_mem_flatMap_iff.mpr ⟨p, hp, rfl, rfl⟩
      exact (wellFormed_of_mem_marks h hmem : Mark.WellFormed (.doc p.text p.tag)).1
    · rw [hgroup]
      exact Option.toList_eq_singleton_iff.mp (hreads.group ▸ hgroups)
    · intro e he
      rw [hentries] at he
      obtain ⟨p, hp, rfl⟩ := List.mem_map.mp he
      rw [Bool.eq_false_iff, ne_eq, Checker.reserves_iff]
      rintro ⟨hne, hinfix⟩
      exact hunreserved hne p hp hinfix

/-- A closed region stands in the lines `ls`: its opening line is met outside any scheme, right
behind `before`, and the first terminator after it stands right in front of `behind`. -/
structure StandsIn (r : Region) (ls before behind : List Line) : Prop where
  lines_eq : ls = before ++ r.opening :: (r.inside ++ .terminator :: behind)
  idle : State.idle.after 1 before = .idle
  number_eq : r.number = 1 + before.length
  terminator_not_mem : .terminator ∉ r.inside

theorem StandsIn.wellFormed {r : Region} {text : String} {before behind : List Line}
    (h : r.StandsIn (kinds text) before behind) : r.WellFormed := by
  intro line hline
  have hmem : line ∈ kinds text := by
    rw [h.lines_eq, ← List.cons_append]
    exact List.mem_append_right _ (List.mem_append_left _ hline)
  obtain ⟨l, -, rfl⟩ := List.mem_map.mp hmem
  exact Line.wellFormed_classify l

/-- The region of a closed segment stands in the lines: the segments in front of it are those of the
lines in front, and the segments behind it those of the lines behind. -/
theorem exists_standsIn_of_segments_eq {number : Nat} {ls : List Line} {r : Region}
    {front back : List Segment} (h : segments number ls = front ++ .closed r :: back) :
    ∃ before behind, ls = before ++ r.opening :: (r.inside ++ .terminator :: behind) ∧
      State.idle.after number before = .idle ∧ r.number = number + before.length ∧
      .terminator ∉ r.inside ∧ segments number before = front ∧
      segments (r.number + r.inside.length + 2) behind = back := by
  fun_induction segments number ls generalizing front with
  | case1 => simp at h
  | case2 number role title name rest inside behind hsplit ih =>
    obtain ⟨rfl, hnot⟩ := splitAtTerminator?_eq_some hsplit
    rcases front with _ | ⟨seg, front⟩
    · obtain ⟨heq, hback⟩ := List.cons.inj h
      obtain rfl := Segment.closed.inj heq
      exact ⟨[], behind, rfl, rfl, rfl, hnot, by rw [segments], hback⟩
    · -- the region stands behind the terminator of the first one
      obtain ⟨heq, hrest⟩ := List.cons.inj h
      obtain ⟨before', behind', rfl, hidle, hnumber, hnot', hfront, hback⟩ := ih hrest
      refine ⟨.schemeStart role title name :: (inside ++ .terminator :: before'), behind',
        by simp, ?_, ?_, hnot', ?_, hback⟩
      · exact (State.run_closed ⟨number, role, title, name, inside⟩ hnot before').2.1.trans hidle
      · simp only [hnumber, List.length_cons, List.length_append]
        omega
      · rw [segments_closed hnot, heq, hfront]
  | case3 number role title name rest hsplit =>
    rcases front with _ | ⟨seg, front⟩
    · cases (List.cons.inj h).1
    · simp at h
  | case4 number line rest hline ih =>
    obtain ⟨before, behind, rfl, hidle, hnumber, hnot, hfront, hback⟩ := ih h
    have hopening : line.isOpening = false := by
      cases line <;> first | rfl | exact (hline _ _ _ rfl).elim
    refine ⟨line :: before, behind, rfl, ?_, ?_, hnot, ?_, hback⟩
    · rw [State.after, State.step_idle hopening]
      exact hidle
    · rw [hnumber, List.length_cons]
      omega
    · rw [segments_cons hopening, hfront]

/-- What stands behind lines that leave no scheme open is cut as if it stood alone. -/
theorem segments_append_of_idle {number : Nat} {before : List Line}
    (h : State.idle.after number before = .idle) (ls : List Line) :
    segments number (before ++ ls) =
      segments number before ++ segments (number + before.length) ls := by
  fun_induction segments number before with
  | case1 => rfl
  | case2 number role title name rest inside behind hsplit ih =>
    obtain ⟨rfl, hnot⟩ := splitAtTerminator?_eq_some hsplit
    have hafter := (State.run_closed ⟨number, role, title, name, inside⟩ hnot behind).2.1
    rw [List.cons_append, List.append_assoc, List.cons_append, segments_closed hnot,
      ih (hafter.symm.trans h), List.cons_append]
    simp only [List.length_cons, List.length_append]
    congr 3
    omega
  | case3 number role title name rest hsplit =>
    -- the scheme is still open behind these lines
    have hopen := State.draft?_after_region ⟨number, role, title, name, rest⟩
      (splitAtTerminator?_eq_none_iff.mp hsplit)
    change (State.idle.after number (.schemeStart role title name :: rest)).draft? = _ at hopen
    rw [h] at hopen
    cases hopen
  | case4 number line rest hline ih =>
    have hopening : line.isOpening = false := by
      cases line <;> first | rfl | exact (hline _ _ _ rfl).elim
    rw [State.after, State.step_idle hopening] at h
    rw [List.cons_append, segments_cons hopening, ih h, List.length_cons]
    congr 2
    omega

/-- The segments of lines around a region that stands in them. -/
theorem StandsIn.segments_eq {r : Region} {ls before behind : List Line}
    (h : r.StandsIn ls before behind) :
    segments 1 ls = segments 1 before ++
      .closed r :: segments (r.number + r.inside.length + 2) behind := by
  rw [h.lines_eq, segments_append_of_idle h.idle, ← h.number_eq, opening,
    segments_closed h.terminator_not_mem]

/-- A region that stands in the lines is one of their segments. -/
theorem StandsIn.mem_segments {r : Region} {ls before behind : List Line}
    (h : r.StandsIn ls before behind) : .closed r ∈ segments 1 ls := by
  rw [h.segments_eq]
  exact List.mem_append_right _ List.mem_cons_self

/-- The items of a header around a region. -/
theorem StandsIn.parse_eq {r : Region} {text : String} {before behind : List Line}
    (h : r.StandsIn (kinds text) before behind) (checker : Checker) :
    checker.parse text =
      (segments 1 before).map (·.item checker) ++ checker.check r.draft ::
        (segments (r.number + r.inside.length + 2) behind).map (·.item checker) := by
  rw [checker.parse_eq_map_segments, h.segments_eq, List.map_append, List.map_cons]
  rfl

/-- Every item of a header is that of a region which stands in it, with the items of the lines
around it, or the fault of a scheme that is left open. -/
theorem exists_standsIn_of_parse_eq {checker : Checker} {text : String} {front back : List Item}
    {item : Item} (h : checker.parse text = front ++ item :: back) :
    (∃ (r : Region) (before behind : List Line), r.StandsIn (kinds text) before behind ∧
        checker.check r.draft = item ∧ front = (segments 1 before).map (·.item checker) ∧
        back = (segments (r.number + r.inside.length + 2) behind).map (·.item checker)) ∨
      ∃ name line, item = .error (.unterminated name line) := by
  rw [checker.parse_eq_map_segments, List.map_eq_append_iff] at h
  obtain ⟨front, rest, hsegments, rfl, hrest⟩ := h
  obtain ⟨seg, back, rfl, hitem, rfl⟩ := List.map_eq_cons_iff.mp hrest
  cases seg with
  | closed r =>
    obtain ⟨before, behind, hlines, hidle, hnumber, hnot, rfl, rfl⟩ :=
      exists_standsIn_of_segments_eq hsegments
    exact .inl ⟨r, before, behind, ⟨hlines, hidle, hnumber, hnot⟩, hitem, rfl, rfl⟩
  | unclosed r => exact .inr ⟨r.name, r.number, hitem.symm⟩

end Region

/-- **The item of a region is a scheme exactly when its body conforms** to the grammar, and then it
is the scheme that the lines of the region spell. In front of it stand the items of the lines before
the region, and behind it those of the lines behind. -/
theorem region_accepted_iff (checker : Checker) (text : String) {r : Region}
    {before behind : List Line} (h : r.StandsIn (kinds text) before behind) :
    ∃ item, checker.parse text =
        (segments 1 before).map (·.item checker) ++ item ::
          (segments (r.number + r.inside.length + 2) behind).map (·.item checker) ∧
      ((∃ s, item = .ok s) ↔ Conforms r.role checker.reservedMarker r.body) ∧
      ∀ s, item = .ok s → s = r.scheme := by
  refine ⟨checker.check r.draft, h.parse_eq checker, ?_, ?_⟩
  · constructor
    · rintro ⟨s, hs⟩
      exact ((Region.check_draft_eq_ok_iff h.wellFormed).mp hs).1
    · intro hconforms
      exact ⟨r.scheme, (Region.check_draft_eq_ok_iff h.wellFormed).mpr ⟨hconforms, rfl⟩⟩
  · intro s hs
    exact ((Region.check_draft_eq_ok_iff h.wellFormed).mp hs).2

/-- A region with entries of both shapes, between lines of code. Its body conforms, and the scheme
has the names, the documentation and the constants of its lines. -/
theorem region_accepted_iff_both_shapes :
    let text := "int x;\n/// Input arguments of f [fIn]\n/// does f\n///\nenum fIn \x7b\n" ++
      "/// a -- the a [F_A]\nF_A,\n// note\n/// the b [b]\nF_B, // two\n\x7d;\nint y;\n"
    let r : Region := ⟨2, .input, "Input arguments of f", "fIn",
      [.doc "does f", .doc "", .enumHeader "fIn", .entryDoc "a -- the a" "F_A", .enumEntry "F_A",
        .other, .entryDoc "the b" "b", .enumEntry "F_B"]⟩
    let s : Scheme :=
      { role := .input, name := "fIn", title := "Input arguments of f", summary := "does f\n"
        group := "fIn", entries := [⟨"a", "the a", "F_A"⟩, ⟨"b", "the b", "F_B"⟩] }
    r.StandsIn (kinds text) [.other] [.other] ∧ Conforms .input "_NUM_" r.body ∧
      Checker.parse {} text = [.ok s] ∧ s = r.scheme := by
  intro text r s
  have h : r.StandsIn (kinds text) [.other] [.other] :=
    ⟨by decide +kernel, by decide, by decide, by decide⟩
  obtain ⟨item, hparse, hiff, hscheme⟩ := region_accepted_iff {} text h
  have hitems : Checker.parse {} text = [.ok s] := by decide +kernel
  have hbefore : (segments 1 [.other]).map (·.item {}) = [] := by simp [segments]
  have hbehind : (segments (r.number + r.inside.length + 2) [.other]).map (·.item {}) = [] := by
    simp [segments]
  rw [hitems, hbefore, hbehind] at hparse
  have hitem : item = .ok s := (List.cons.inj hparse).1.symm
  exact ⟨h, hiff.mp ⟨s, hitem⟩, hitems, hscheme s hitem⟩

end ArgumentSchemes.Header
