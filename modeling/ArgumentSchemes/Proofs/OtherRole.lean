import ArgumentSchemes.Proofs.FaultOrder
import ArgumentSchemes.Proofs.LineGrammar
import ArgumentSchemes.Proofs.RescannedHeaders

/-!
# A scheme opened in the other role

No suffix of a role is the end of a suffix of the other one, so no enum fits both roles
(`Role.acceptsGroup_other`). In a header the role stands in one place only, the marker of the line
that opens the scheme, and `MarkerPlace` is a header with a hole there: filled with the one role and
with the other, it has the same lines but for this one, which opens a scheme of the same name
(`MarkerPlace.kinds_fill_other`). Neither the lines that contradict each other nor the parts that an
entry lacks depend on the role, so the checks go on to the enum (`Region.reports_other`).

Main statement: in a header in which an accepted scheme is opened in the other role, the item of
this scheme is the refusal of its enum, and all other items are as before (`other_role_refused`).
-/

namespace ArgumentSchemes

/-! ### Enums fit one role -/

namespace Role

/-- The other role. -/
def other : Role → Role
  | input => output
  | output => input

theorem acceptsGroup_iff {role : Role} {group : String} :
    role.acceptsGroup group = true ↔
      ∃ suffix ∈ role.suffixes, suffix.length < group.length ∧ suffix.toList <:+ group.toList := by
  simp [acceptsGroup]

/-- No suffix of a role ends in a suffix of the other. -/
theorem not_suffix_of_other (role : Role) :
    ∀ a ∈ role.suffixes, ∀ b ∈ role.other.suffixes, ¬ a.toList <:+ b.toList := by
  cases role <;> decide

/-- **No enum fits both roles.** -/
theorem acceptsGroup_other {role : Role} {group : String} (h : role.acceptsGroup group = true) :
    role.other.acceptsGroup group = false := by
  rw [← Bool.not_eq_true]
  intro h'
  obtain ⟨a, ha, -, hgroup⟩ := acceptsGroup_iff.mp h
  obtain ⟨b, hb, -, hgroup'⟩ := acceptsGroup_iff.mp h'
  have hother : role.other.other = role := by cases role <;> rfl
  -- the ends of one text are ends of each other
  rcases List.suffix_or_suffix_of_suffix hgroup hgroup' with hab | hba
  · exact not_suffix_of_other role a ha b hb hab
  · exact not_suffix_of_other role.other b hb a (hother.symm ▸ ha) hba

theorem marker_eq (role : Role) : role.marker = role.name ++ " arguments" := by
  cases role <;> rfl

end Role

namespace Header

open Text

/-! ### Lines that open a scheme -/

/-- What opens a scheme: behind the marker of its role, a text with a tag at its end. -/
theorem lineGrammar_schemeStart_iff {cs : List Char} {role : Role} {title name : String} :
    LineGrammar cs (.schemeStart role title name) ↔
      ∃ bs ds before tag, (∀ b ∈ bs, isBlank b = true) ∧
        cs = "///".toList ++ (bs ++ (role.marker.toList ++ ds)) ∧
        Tagged (trimEnd ds) before tag ∧ WordEnds (trimEnd before) ∧
        title = String.ofList (role.marker.toList ++ trimEnd before) ∧
        name = String.ofList tag := by
  have htrimEnd : ∀ ds, trimEnd (role.marker.toList ++ ds) = role.marker.toList ++ trimEnd ds :=
    trimEnd_append_of_stop (trimmed_marker role).stop
  constructor
  · intro h
    cases h with
    | schemeStart rest before tag _ htag hrole =>
      obtain ⟨w, hw, hends⟩ := hrole
      obtain ⟨bs, hbs, hrest⟩ := exists_eq_append_trimStart rest
      obtain ⟨bs', -, hbefore⟩ := exists_eq_trimEnd_append before
      obtain ⟨bs'', -, htext⟩ := exists_eq_trimEnd_append (trimStart rest)
      rw [hw, List.append_assoc] at hbefore
      have hw' : trimEnd (w ++ bs') = w := by
        rw [hbefore, htrimEnd] at hw
        exact List.append_cancel_left hw
      -- the marker is what the text begins with, and all else stands behind it
      have hds : trimStart rest =
          role.marker.toList ++ (w ++ bs' ++ '[' :: (tag ++ [']']) ++ bs'') := by
        rw [htext, ← trim, htag.eq, hbefore]
        simp
      have htagged := htag.eq
      rw [trim, hds, htrimEnd, hbefore] at htagged
      have heq := List.append_cancel_left (htagged.trans (List.append_assoc _ _ _))
      exact ⟨bs, _, w ++ bs', tag, hbs, by rw [hrest, hds], ⟨heq, htag.isWord⟩, by rwa [hw'],
        by rw [hw, hw'], rfl⟩
    | code _ _ _ hform => cases hform
  · rintro ⟨bs, ds, before, tag, hbs, rfl, htag, hends, rfl, rfl⟩
    have htrim : trim (bs ++ (role.marker.toList ++ ds)) = role.marker.toList ++ trimEnd ds := by
      rw [trim, trimStart_append hbs, ← trim, trim_marker_append]
    have htagged : Tagged (trim (bs ++ (role.marker.toList ++ ds)))
        (role.marker.toList ++ before) tag :=
      ⟨by rw [htrim, htag.eq, List.append_assoc], htag.isWord⟩
    rw [← htrimEnd before]
    exact .schemeStart _ _ _ role htagged ⟨trimEnd before, htrimEnd before, hends⟩

/-- The name of a role does not begin with a blank. -/
theorem trimStart_name_append (role : Role) (cs : List Char) :
    trimStart (role.name.toList ++ cs) = role.name.toList ++ cs :=
  trimStart_append_of_ne_nil (by cases role <;> decide) (by cases role <;> decide) cs

/-- **In the other role** a line opens a scheme of the same name. -/
theorem lineGrammar_other {bs : List Char} (hbs : ∀ b ∈ bs, isBlank b = true) {role : Role}
    {cs : List Char} {title name : String}
    (h : LineGrammar ("///".toList ++ (bs ++ (role.name.toList ++ cs)))
      (.schemeStart role title name)) :
    ∃ title', LineGrammar ("///".toList ++ (bs ++ (role.other.name.toList ++ cs)))
      (.schemeStart role.other title' name) := by
  obtain ⟨bs', ds, before, tag, hbs', heq, htag, hends, -, hname⟩ :=
    lineGrammar_schemeStart_iff.mp h
  -- the marker stands where the name of the role does
  have hcs : cs = " arguments".toList ++ ds := by
    have htrim := congrArg trimStart (List.append_cancel_left heq)
    rw [trimStart_append hbs, trimStart_append hbs', trimStart_name_append, role.marker_eq,
      String.toList_append, List.append_assoc, trimStart_name_append] at htrim
    exact List.append_cancel_left htrim
  refine ⟨_, lineGrammar_schemeStart_iff.mpr
    ⟨bs, ds, before, tag, hbs, ?_, htag, hends, rfl, hname⟩⟩
  rw [hcs, role.other.marker_eq, String.toList_append, List.append_assoc]

/-! ### The line of a given number -/

theorem exists_eq_line_append {text : String} (h : '\n' ∈ text.toList) :
    ∃ l rest, text = l ++ "\n" ++ rest ∧ '\n' ∉ l.toList := by
  obtain ⟨cs, ds, htext, hcs⟩ := List.eq_append_cons_of_mem h
  exact ⟨String.ofList cs, String.ofList ds, by simp [← String.toList_inj, htext],
    by simpa using hcs⟩

/-- What is put in front of a text goes on to the end of its first line, if it holds no newline. -/
theorem exists_kinds_append_eq (text : String) :
    ∃ tail ls, '\n' ∉ tail.toList ∧ ∀ l : String, '\n' ∉ l.toList → l ≠ "" →
      kinds (l ++ text) = Line.classify (l ++ tail) :: ls := by
  by_cases hline : '\n' ∈ text.toList
  · obtain ⟨tail, rest, rfl, htail⟩ := exists_eq_line_append hline
    refine ⟨tail, kinds rest, htail, fun l hl _ => ?_⟩
    rw [← kinds_append_newline (by simp [hl, htail]), String.append_assoc, String.append_assoc,
      String.append_assoc]
  · refine ⟨text, [], hline, fun l hl hne => ?_⟩
    have hne' : l ++ text ≠ "" := fun h => hne (String.append_eq_empty_iff.mp h).1
    rw [kinds_of_newline_not_mem (by simp [hl, hline]), if_neg hne']

/-- Every line of a text stands behind lines that are ended. -/
theorem exists_text_eq_of_kinds_eq {text : String} {before behind : List Line} {line : Line}
    (h : kinds text = before ++ line :: behind) :
    ∃ above l back, text = above ++ (l ++ back) ∧ Ended above ∧ kinds above = before ∧
      '\n' ∉ l.toList ∧ Line.classify l = line := by
  induction before generalizing text with
  | nil =>
    by_cases hline : '\n' ∈ text.toList
    · obtain ⟨l, rest, rfl, hl⟩ := exists_eq_line_append hline
      rw [kinds_append_newline hl] at h
      exact ⟨"", l, "\n" ++ rest, by simp [String.append_assoc], .inl rfl, rfl, hl,
        (List.cons.inj h).1⟩
    · rw [kinds_of_newline_not_mem hline] at h
      split at h
      · cases h
      · exact ⟨"", text, "", by simp, .inl rfl, rfl, hline, (List.cons.inj h).1⟩
  | cons first before ih =>
    by_cases hline : '\n' ∈ text.toList
    · obtain ⟨l, rest, rfl, hl⟩ := exists_eq_line_append hline
      rw [kinds_append_newline hl] at h
      obtain ⟨hfirst, hrest⟩ := List.cons.inj h
      obtain ⟨above, l', back, rfl, hended, hkinds, hl', hclassify⟩ := ih hrest
      refine ⟨l ++ "\n" ++ above, l', back, by simp [String.append_assoc],
        (ended_append_newline l).append hended, ?_, hl', hclassify⟩
      rw [kinds_append_newline hl, hfirst, hkinds]
    · -- a text without a newline has no second line
      have hlength := congrArg List.length h
      rw [kinds_of_newline_not_mem hline] at hlength
      split at hlength <;> simp at hlength

/-! ### The place of a marker -/

/-- **A header with a hole** where a documentation line has the name of a role. -/
structure MarkerPlace where
  /-- The lines in front. -/
  above : String
  /-- What the line begins with. -/
  lead : String
  /-- What stands between the slashes and the name. -/
  gap : String
  /-- All that stands behind the name. -/
  back : String
  ended : Ended above
  blank_lead : ∀ c ∈ lead.toList, isBlank c = true ∧ c ≠ '\n'
  blank_gap : ∀ c ∈ gap.toList, isBlank c = true ∧ c ≠ '\n'

namespace MarkerPlace

/-- The number of the line. -/
def number (p : MarkerPlace) : Nat := (lines p.above).length + 1

/-- The line as far as the name of the role, which is put there. -/
def opening (p : MarkerPlace) (role : Role) : String := p.lead ++ "///" ++ p.gap ++ role.name

/-- The header with the name of a role in its hole. -/
def fill (p : MarkerPlace) (role : Role) : String := p.above ++ (p.opening role ++ p.back)

theorem newline_not_mem_opening (p : MarkerPlace) (role : Role) :
    '\n' ∉ (p.opening role).toList := by
  have hlead : '\n' ∉ p.lead.toList := fun h => (p.blank_lead _ h).2 rfl
  have hgap : '\n' ∉ p.gap.toList := fun h => (p.blank_gap _ h).2 rfl
  have hname : '\n' ∉ role.name.toList := by cases role <;> decide
  simp [opening, hlead, hgap, hname]

/-- What the line with the hole says, by its grammar. -/
theorem classify_opening_iff (p : MarkerPlace) {tail : String} (htail : '\n' ∉ tail.toList)
    (role : Role) {line : Line} :
    Line.classify (p.opening role ++ tail) = line ↔
      LineGrammar ("///".toList ++ (p.gap.toList ++ (role.name.toList ++ tail.toList))) line := by
  have hline : '\n' ∉ (p.opening role ++ tail).toList := by
    simp [p.newline_not_mem_opening role, htail]
  have hchars : trimStart (p.opening role ++ tail).toList =
      "///".toList ++ (p.gap.toList ++ (role.name.toList ++ tail.toList)) := by
    simp only [opening, String.toList_append, List.append_assoc]
    rw [trimStart_append fun c hc => (p.blank_lead c hc).1]
    exact trimStart_append_of_ne_nil (by decide) (by decide) _
  rw [Line.classify_eq_iff hline, hchars]

/-- **Filled with the other role** a header has the same lines but for one, which opens a scheme of
the same name in that role. -/
theorem kinds_fill_other (p : MarkerPlace) {role : Role} {before behind : List Line}
    {title name : String} (hnumber : p.number = before.length + 1)
    (h : kinds (p.fill role) = before ++ .schemeStart role title name :: behind) :
    ∃ title', kinds (p.fill role.other) =
      before ++ .schemeStart role.other title' name :: behind := by
  obtain ⟨tail, ls, htail, hfirst⟩ := exists_kinds_append_eq p.back
  have hkinds : ∀ role, kinds (p.fill role) =
      kinds p.above ++ Line.classify (p.opening role ++ tail) :: ls := by
    intro role
    rw [fill, kinds_append p.ended,
      hfirst _ (p.newline_not_mem_opening role) (by simp [opening])]
  have hlength : (kinds p.above).length = before.length := by
    rw [kinds, List.length_map]
    exact Nat.succ.inj hnumber
  rw [hkinds] at h ⊢
  obtain ⟨rfl, hrest⟩ := List.append_inj h hlength
  obtain ⟨hline, rfl⟩ := List.cons.inj hrest
  obtain ⟨title', hother⟩ := lineGrammar_other (fun c hc => (p.blank_gap c hc).1)
    ((p.classify_opening_iff htail role).mp hline)
  exact ⟨title', by rw [(p.classify_opening_iff htail role.other).mpr hother]⟩

/-- A line that opens a scheme has a place for the name of its role. -/
theorem exists_fill_eq {text : String} {before behind : List Line} {role : Role}
    {title name : String} (h : kinds text = before ++ .schemeStart role title name :: behind) :
    ∃ p : MarkerPlace, p.number = before.length + 1 ∧ p.fill role = text := by
  obtain ⟨above, l, back, rfl, hended, rfl, hl, hclassify⟩ := exists_text_eq_of_kinds_eq h
  obtain ⟨bs, ds, -, -, hbs, hrest, -⟩ :=
    lineGrammar_schemeStart_iff.mp ((Line.classify_eq_iff hl).mp hclassify)
  obtain ⟨bs', hbs', htrim⟩ := exists_eq_append_trimStart l.toList
  -- the line, taken apart at the name of the role
  have hchars : l.toList =
      bs' ++ ("///".toList ++ (bs ++ (role.name.toList ++ (" arguments".toList ++ ds)))) := by
    rw [htrim, hrest, role.marker_eq, String.toList_append, List.append_assoc]
  have hlead : '\n' ∉ bs' := fun hmem => hl (by rw [hchars]; simp [hmem])
  have hgap : '\n' ∉ bs := fun hmem => hl (by rw [hchars]; simp [hmem])
  refine ⟨⟨above, String.ofList bs', String.ofList bs, " arguments" ++ String.ofList ds ++ back,
    hended, ?_, ?_⟩, ?_, ?_⟩
  · rw [String.toList_ofList]
    exact fun c hc => ⟨hbs' c hc, ne_of_mem_of_not_mem hc hlead⟩
  · rw [String.toList_ofList]
    exact fun c hc => ⟨hbs c hc, ne_of_mem_of_not_mem hc hgap⟩
  · simp [number, kinds]
  · simp [← String.toList_inj, fill, opening, hchars]

end MarkerPlace

/-! ### Regions opened in the other role -/

namespace Region

/-- The role and the title of a region decide nothing about which lines contradict each other. -/
theorem consistent_of_consistent {r : Region} (r' : Region) {ls : List Line}
    (h : Consistent r ls) : Consistent r' ls := by
  intro seen line fault hfront hcontradicts
  cases hcontradicts with
  | group hgroup => exact h seen _ _ hfront (.group hgroup)
  | constant hclash => exact h seen _ _ hfront (.constant hclash)

/-- What passes in one role has complete entries, and an enum that the other role refuses. -/
theorem reports_other {r : Region} (hr : r.WellFormed) {checker : Checker} {s : Scheme}
    (h : checker.check r.draft = .ok s) (title : String) :
    Reports { r with role := r.role.other, title := title } checker.reservedMarker
      (.malformedGroup s.name s.group r.role.other
        s!"`{s.group}` does not end in an {r.role.other.name} suffix") := by
  obtain ⟨hok, hcompletes, -⟩ := Checker.check_eq_ok_iff.mp h
  obtain ⟨hconforms, rfl⟩ := (check_draft_eq_ok_iff hr).mp h
  obtain ⟨group, hgroups, haccepts⟩ := hconforms.group
  have hcomplete : r.Complete :=
    complete_iff.mpr ⟨hok, _, completeEntries_eq_ok_iff.mpr hcompletes⟩
  have hgroup : r.scheme.group = group := by
    rw [scheme, hgroups]
    rfl
  rw [hgroup]
  exact .misgrouped ⟨consistent_of_consistent _ hcomplete.consistent, hcomplete.complete⟩ hgroups
    (Role.acceptsGroup_other haccepts)

end Region

/-- **A scheme fits one role.** No enum fits both; so when the line that opens an accepted scheme
has the other role instead, the item of this scheme is the refusal of its enum in that role, and all
other items are as they were. -/
theorem other_role_refused (checker : Checker) (text : String) :
    (∀ group, ¬ (Role.input.acceptsGroup group = true ∧ Role.output.acceptsGroup group = true)) ∧
      ∀ (before after : List Item) (s : Scheme),
        checker.parse text = before ++ .ok s :: after →
          ∃ r : Region, (segments 1 (kinds text))[before.length]? = some (.closed r) ∧
            s = r.scheme ∧
            (∃ p : MarkerPlace, p.number = r.number ∧ p.fill s.role = text) ∧
            ∀ p : MarkerPlace, p.number = r.number → p.fill s.role = text →
              checker.parse (p.fill s.role.other) = before ++ .error (.malformedGroup s.name s.group
                s.role.other s!"`{s.group}` does not end in an {s.role.other.name} suffix") ::
                  after := by
  constructor
  · rintro group ⟨hinput, houtput⟩
    have hrefused : Role.output.acceptsGroup group = false := Role.acceptsGroup_other hinput
    rw [houtput] at hrefused
    cases hrefused
  · intro before after s h
    obtain ⟨r, above, below, hstands, hitem, rfl, rfl⟩ | ⟨_, _, hitem⟩ :=
      Region.exists_standsIn_of_parse_eq h
    · obtain ⟨-, hs⟩ := (Region.check_draft_eq_ok_iff hstands.wellFormed).mp hitem
      have hrole : s.role = r.role := by rw [hs]; rfl
      have hnumber : r.number = above.length + 1 := by rw [hstands.number_eq, Nat.add_comm]
      refine ⟨r, ?_, hs, ?_, ?_⟩
      · rw [hstands.segments_eq, List.length_map]
        simp
      · rw [hrole, hnumber]
        exact MarkerPlace.exists_fill_eq hstands.lines_eq
      · intro p hp hfill
        rw [hrole] at hfill ⊢
        obtain ⟨title, hlines⟩ :=
          p.kinds_fill_other (hp.trans hnumber) (hfill.symm ▸ hstands.lines_eq)
        -- the region with the other role stands where the first one does
        have hother : Region.StandsIn { r with role := r.role.other, title := title }
            (kinds (p.fill r.role.other)) above below := { hstands with lines_eq := hlines }
        have hcheck := (Region.check_draft_eq_error_iff hother.wellFormed).mpr
          (Region.reports_other hstands.wellFormed hitem title)
        rw [hother.parse_eq checker, hcheck]
    · cases hitem

/-- An accepted scheme between another one and one that is left open, opened for inputs instead. -/
theorem other_role_refused_between :
    let text := "/// Input arguments of f [fIn]\nenum fIn \x7b\n/// a -- the a [F_A]\nF_A,\n" ++
      "\x7d;\nint x;\n  ///  Output arguments of g [g]\r\nenum gOut \x7b\n\x7d;\n" ++
      "/// Input arguments of h [hIn]\n"
    let f : Scheme := ⟨.input, "fIn", "Input arguments of f", "", "fIn", [⟨"a", "the a", "F_A"⟩]⟩
    let g : Scheme := ⟨.output, "g", "Output arguments of g", "", "gOut", []⟩
    Checker.parse {} text = [.ok f, .ok g, .error (.unterminated "hIn" 10)] ∧
      ∃ p : MarkerPlace, p.fill .output = text ∧
        Checker.parse {} (p.fill .input) = [.ok f,
          .error (.malformedGroup "g" "gOut" .input "`gOut` does not end in an Input suffix"),
          .error (.unterminated "hIn" 10)] := by
  intro text f g
  have hparse : Checker.parse {} text = [.ok f, .ok g, .error (.unterminated "hIn" 10)] := by
    decide +kernel
  obtain ⟨r, -, -, ⟨p, hnumber, hfill⟩, hother⟩ :=
    (other_role_refused {} text).2 [.ok f] [.error (.unterminated "hIn" 10)] g hparse
  exact ⟨hparse, p, hfill, hother p hnumber hfill⟩

end Header

end ArgumentSchemes
