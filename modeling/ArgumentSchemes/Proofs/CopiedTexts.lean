import ArgumentSchemes.Proofs.TargetLines

/-!
# The texts that are copied into a docstring

The title, the lines of the summary and the documentation of the entries go into a docstring as free
text (`copiedTexts`). All else in a wrapper is words, blanks and a few signs, and the quotes around
the docstring. A mark that has none of these characters but the quotes stands in a wrapper as often
as it stands in the copied texts, and in the two lines of quotes besides (`occurrences_wrapper`): no
place of it begins in one piece and ends in another.
-/

namespace ArgumentSchemes.Emit

open Text
open Header (Checker Printable)

/-- The texts that are copied into a docstring. -/
def copiedTexts (s : Scheme) : List (List Char) :=
  (s.title :: s.summaryLines).map (fun text => dropBreaks text.toList) ++
    s.entries.map fun e => e.doc.toList

/-! ### Marks -/

/-- The characters around the copied texts, but for the quotes. -/
def isFrameChar (c : Char) : Bool :=
  isWordChar c || isBlank c || "()[]:,=-'".toList.contains c

/-- A mark with no character of those around the copied texts. -/
structure Foreign (mark : List Char) : Prop where
  ne_nil : mark ≠ []
  not_frame : ∀ c ∈ mark, ¬ isFrameChar c

/-- Nothing but words, blanks and signs of the wrapper. -/
def IsFrame (text : List Char) : Prop := ∀ c ∈ text, isFrameChar c = true

instance (text : List Char) : Decidable (IsFrame text) :=
  decidable_of_iff (text.all isFrameChar = true) List.all_eq_true

theorem isFrame_append {xs ys : List Char} : IsFrame (xs ++ ys) ↔ IsFrame xs ∧ IsFrame ys :=
  List.forall_mem_append

theorem isFrame_of_blanks {bs : List Char} (h : ∀ b ∈ bs, isBlank b = true) : IsFrame bs :=
  fun b hb => by simp [isFrameChar, h b hb]

theorem isFrame_of_isWord {cs : List Char} (h : IsWord cs) : IsFrame cs :=
  fun c hc => by simp [isFrameChar, h.all c hc]

theorem isFrame_joinWith {separator : String} {texts : List String}
    (hseparator : IsFrame separator.toList) (htexts : ∀ text ∈ texts, IsFrame text.toList) :
    IsFrame (joinWith separator texts).toList := by
  intro c hc
  rcases mem_joinWith hc with hc | ⟨text, htext, hc⟩
  · exact hseparator c hc
  · exact htexts text htext c hc

/-- The indentation of a line and the blanks that go at its end do not count for a mark without
blanks. -/
theorem occurrences_docstringLine {mark : List Char} (hne : mark ≠ [])
    (hmark : ∀ c ∈ mark, isBlank c = false) (text : String) :
    occurrences mark (docstringLine text).toList = occurrences mark (dropBreaks text.toList) := by
  have hblanks : ∀ bs : List Char, (∀ b ∈ bs, isBlank b = true) → ∀ b ∈ bs, b ∉ mark :=
    fun bs hbs b hb hmem => Bool.false_ne_true ((hmark b hmem).symm.trans (hbs b hb))
  obtain ⟨bs, hbs, hline⟩ := exists_eq_trimEnd_append (' ' :: ' ' :: dropBreaks text.toList)
  calc occurrences mark (docstringLine text).toList
      = occurrences mark (trimEnd (' ' :: ' ' :: dropBreaks text.toList) ++ bs) := by
        rw [toList_docstringLine, occurrences_append_left hne (hblanks bs hbs)]
    _ = occurrences mark ([' ', ' '] ++ dropBreaks text.toList) := by
        rw [← hline]
        rfl
    _ = occurrences mark (dropBreaks text.toList) :=
        occurrences_append_right hne (hblanks _ (isBlank_of_mem_replicate_space 2)) _

namespace Foreign

variable {mark : List Char} (h : Foreign mark)

include h

theorem not_mem_of_isFrame {text : List Char} (ht : IsFrame text) : ∀ c ∈ text, c ∉ mark :=
  fun c hc hmark => h.not_frame c hmark (ht c hc)

theorem occurrences_frame {text : List Char} (ht : IsFrame text) : occurrences mark text = 0 :=
  occurrences_eq_zero h.ne_nil (h.not_mem_of_isFrame ht)

/-- What stands around a text does not count. -/
theorem occurrences_between {front back : List Char} (hfront : IsFrame front) (hback : IsFrame back)
    (text : List Char) : occurrences mark (front ++ (text ++ back)) = occurrences mark text := by
  rw [occurrences_append_right h.ne_nil (h.not_mem_of_isFrame hfront),
    occurrences_append_left h.ne_nil (h.not_mem_of_isFrame hback)]

/-- Lines of a text. -/
theorem occurrences_unlines (ls : List String) :
    occurrences mark (unlines ls).toList = (ls.map fun l => occurrences mark l.toList).sum := by
  have hnewline : '\n' ∉ mark := fun hmem => h.not_frame _ hmem (by decide)
  rw [toList_unlines, occurrences_flatMap h.ne_nil hnewline, List.map_map]
  rfl

/-! ### The lines of a docstring -/

theorem isBlank_eq_false {c : Char} (hc : c ∈ mark) : isBlank c = false := by
  by_contra hblank
  exact h.not_frame c hc (by simp [isFrameChar, Bool.not_eq_false _ ▸ hblank])

theorem occurrences_docstringLine (text : String) :
    occurrences mark (docstringLine text).toList = occurrences mark (dropBreaks text.toList) :=
  Emit.occurrences_docstringLine h.ne_nil (fun _ => h.isBlank_eq_false) text

theorem occurrences_keywordLine {e : Entry} (he : Header.Entry.Printable e) (width : Nat) :
    occurrences mark (keywordLine width e).toList = occurrences mark e.doc.toList := by
  have hline : (keywordLine width e).toList =
      ("    " ++ padRight width e.argName ++ " -- ").toList ++
        (e.doc.toList ++ (" [" ++ e.constant ++ "]").toList) := by
    unfold keywordLine
    simp [toString]
  have hpadding : IsFrame (List.replicate (width - e.argName.length) ' ') :=
    isFrame_of_blanks fun b hb => by rw [List.eq_of_mem_replicate hb]; decide
  rw [hline]
  refine h.occurrences_between ?_ ?_ _
  · simp only [String.toList_append, padRight, String.toList_ofList, isFrame_append]
    exact ⟨⟨by decide, isFrame_of_isWord he.argName, hpadding⟩, by decide⟩
  · simp only [String.toList_append, isFrame_append]
    exact ⟨⟨by decide, isFrame_of_isWord he.constant⟩, by decide⟩

end Foreign

/-! ### Wrappers -/

/-- The lines between the quotes of a docstring. -/
def docstringBody (s : Scheme) : List String :=
  [s!"  Helper function for '{s.group}'", ""] ++ (s.title :: s.summaryLines).map docstringLine ++
    ["", "  Keyword arguments:"] ++ s.entries.map (keywordLine s.widestArgName)

/-- The line of quotes that a docstring begins with and ends in. -/
def quotesLine : String := "  \"\"\""

theorem docstring_eq (s : Scheme) :
    docstring s = quotesLine :: docstringBody s ++ [quotesLine] := by
  simp [docstring, docstringBody, quotesLine]

section Accepted

variable {checker : Checker} {s : Scheme} (hs : Printable checker s)

include hs

theorem isFrame_of_mem_argNames {name : String} (hname : name ∈ s.argNames) :
    IsFrame name.toList :=
  isFrame_of_isWord (isWord_of_mem_argNames hs hname)

theorem isFrame_headLine : IsFrame (headLine s).toList := by
  have hparams : IsFrame (joinWith "," (s.argNames.map fun name => name ++ "=[]")).toList := by
    refine isFrame_joinWith (by decide) fun text htext => ?_
    obtain ⟨name, hname, rfl⟩ := List.mem_map.mp htext
    rw [String.toList_append, isFrame_append]
    exact ⟨isFrame_of_mem_argNames hs hname, by decide⟩
  unfold headLine
  simp only [toString, String.toList_append, isFrame_append]
  exact ⟨⟨⟨⟨by decide, isFrame_of_isWord hs.name⟩, by decide⟩, hparams⟩, by decide⟩

theorem isFrame_returnLine : IsFrame (returnLine s).toList := by
  have hargs : IsFrame (joinWith "," s.argNames).toList :=
    isFrame_joinWith (by decide) fun _ hname => isFrame_of_mem_argNames hs hname
  unfold returnLine
  simp only [toString, String.toList_append, isFrame_append]
  exact ⟨⟨by decide, hargs⟩, by decide⟩

theorem isFrame_groupLine : IsFrame (s!"  Helper function for '{s.group}'").toList := by
  simp only [toString, String.toList_append, isFrame_append]
  exact ⟨⟨by decide, isFrame_of_isWord hs.group⟩, by decide⟩

variable {mark : List Char} (h : Foreign mark)

include h

/-- **A mark between the quotes** stands in a copied text. -/
theorem occurrences_docstringBody :
    occurrences mark (unlines (docstringBody s)).toList =
      ((copiedTexts s).map (occurrences mark)).sum := by
  have hdocs : ((s.title :: s.summaryLines).map docstringLine).map
      (fun l => occurrences mark l.toList) =
        ((s.title :: s.summaryLines).map fun text => dropBreaks text.toList).map
          (occurrences mark) := by
    simp only [List.map_map, Function.comp_def, h.occurrences_docstringLine]
  have hentries : (s.entries.map (keywordLine s.widestArgName)).map
      (fun l => occurrences mark l.toList) =
        (s.entries.map fun e => e.doc.toList).map (occurrences mark) := by
    rw [List.map_map, List.map_map]
    refine List.map_congr_left fun e he => ?_
    simp only [Function.comp_apply, h.occurrences_keywordLine (hs.entries e he)]
  have hgroup := h.occurrences_frame (isFrame_groupLine hs)
  have hempty : occurrences mark "".toList = 0 := h.occurrences_frame (by decide)
  have hkeywords : occurrences mark "  Keyword arguments:".toList = 0 :=
    h.occurrences_frame (by decide)
  rw [h.occurrences_unlines, docstringBody, copiedTexts, List.map_append, List.map_append,
    List.map_append, List.map_append, hdocs, hentries]
  simp only [List.map_cons, List.map_nil, List.sum_append, List.sum_cons, List.sum_nil, hgroup,
    hempty, hkeywords, Nat.zero_add, Nat.add_zero]

/-- **A mark in a wrapper** stands in a copied text or in one of the two lines of quotes. -/
theorem occurrences_wrapper :
    occurrences mark (unlines (wrapperLines s)).toList =
      2 * occurrences mark quotesLine.toList + ((copiedTexts s).map (occurrences mark)).sum := by
  have hhead := h.occurrences_frame (isFrame_headLine hs)
  have hreturn := h.occurrences_frame (isFrame_returnLine hs)
  have hbody := occurrences_docstringBody hs h
  rw [h.occurrences_unlines] at hbody
  rw [h.occurrences_unlines, wrapperLines, docstring_eq]
  simp only [List.cons_append, List.map_cons, List.map_append, List.map_nil, List.sum_cons,
    List.sum_append, List.sum_nil, hhead, hreturn, hbody]
  omega

end Accepted

theorem sum_occurrences_eq_zero_iff {mark : List Char} {texts : List (List Char)} :
    (texts.map (occurrences mark)).sum = 0 ↔ ∀ text ∈ texts, ¬ mark <:+: text := by
  simp [List.sum_eq_zero_iff_forall_eq_nat, occurrences_eq_zero_iff]

end ArgumentSchemes.Emit
