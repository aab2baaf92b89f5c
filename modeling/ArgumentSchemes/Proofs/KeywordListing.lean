import ArgumentSchemes.Proofs.CopiedTexts
import Mathlib.Data.String.Basic

/-!
# The list of keywords in a docstring

A docstring lists the keywords of its function, one in each line, with ` -- ` behind the name. The
names are padded, so that these marks stand one below the other. A reader that knows no scheme
finds the list behind the last line that announces one (`keywordLines`), and takes each line of it
apart at its first mark (`readKeyword?`): without indentation and padding it is the line that
describes the entry.

The column of the marks is the indentation and the size of the widest name. That size is counted in
bytes, while the padding counts characters: a name with a character of several bytes makes the
column wider than it is long.

Main statement: the marks stand in one column, which is that of the longest name exactly when one of
the widest names has no character of several bytes (`keywords_aligned_iff`).
-/

namespace ArgumentSchemes

open Text

/-! ### Sizes of names -/

namespace Text

/-- Every character of the text takes one byte. -/
def IsAscii (text : String) : Prop := ∀ c ∈ text.toList, c.val ≤ 127

instance (text : String) : Decidable (IsAscii text) :=
  decidable_of_iff (text.toList.all fun c => decide (c.val ≤ 127)) (by simp [IsAscii])

/-- A text has at least as many bytes as characters, and as many only if each takes one. -/
theorem length_le_utf8Len (cs : List Char) :
    cs.length ≤ String.utf8Len cs ∧
      (String.utf8Len cs = cs.length ↔ ∀ c ∈ cs, c.val ≤ 127) := by
  induction cs with
  | nil => simp
  | cons c cs ih =>
    have hpos := c.utf8Size_pos
    obtain ⟨hle, hiff⟩ := ih
    rw [List.forall_mem_cons, ← hiff, ← Char.utf8Size_eq_one_iff, String.utf8Len_cons,
      List.length_cons]
    omega

theorem length_le_utf8ByteSize (text : String) : text.length ≤ text.utf8ByteSize := by
  rw [← String.utf8Len_toList, ← String.length_toList]
  exact (length_le_utf8Len text.toList).1

theorem utf8ByteSize_eq_length_iff {text : String} :
    text.utf8ByteSize = text.length ↔ IsAscii text := by
  rw [← String.utf8Len_toList, ← String.length_toList]
  exact (length_le_utf8Len text.toList).2

theorem foldl_max_le_iff {α : Type} {size : α → Nat} {xs : List α} {start bound : Nat} :
    xs.foldl (fun n x => max n (size x)) start ≤ bound ↔
      start ≤ bound ∧ ∀ x ∈ xs, size x ≤ bound := by
  induction xs generalizing start with
  | nil => simp
  | cons x xs ih => rw [List.foldl_cons, ih, Nat.max_le, List.forall_mem_cons, and_assoc]

theorem exists_eq_foldl_max {α : Type} {size : α → Nat} {xs : List α} (hne : xs ≠ []) :
    ∃ x ∈ xs, size x = xs.foldl (fun n x => max n (size x)) 0 := by
  generalize hgreatest : xs.foldl (fun n x => max n (size x)) 0 = greatest
  have hle : ∀ x ∈ xs, size x ≤ greatest := (foldl_max_le_iff.mp hgreatest.le).2
  by_contra hnone
  have hlt : ∀ x ∈ xs, size x ≤ greatest - 1 := fun x hx =>
    Nat.le_sub_one_of_lt (lt_of_le_of_ne (hle x hx) fun heq => hnone ⟨x, hx, heq⟩)
  have hzero : greatest ≤ greatest - 1 :=
    hgreatest.symm.le.trans (foldl_max_le_iff.mpr ⟨Nat.zero_le _, hlt⟩)
  obtain ⟨x, hx⟩ := List.exists_mem_of_ne_nil xs hne
  exact hnone ⟨x, hx, by have := hle x hx; omega⟩

end Text

namespace Scheme

/-- How many characters the longest argument name has; 0 without arguments. -/
def longestArgName (s : Scheme) : Nat :=
  s.argNames.foldl (fun length name => max length name.length) 0

/-- One of the widest argument names has no character of several bytes. -/
def WidestIsAscii (s : Scheme) : Prop :=
  ∃ name ∈ s.argNames, IsAscii name ∧ ∀ other ∈ s.argNames, other.utf8ByteSize ≤ name.length

instance (s : Scheme) : Decidable s.WidestIsAscii :=
  decidable_of_iff
    (s.argNames.any fun name => decide (IsAscii name) &&
      s.argNames.all fun other => decide (other.utf8ByteSize ≤ name.length))
    (by simp [WidestIsAscii])

variable {s : Scheme}

theorem widestArgName_le_iff {bound : Nat} :
    s.widestArgName ≤ bound ↔ ∀ name ∈ s.argNames, name.utf8ByteSize ≤ bound := by
  rw [widestArgName, foldl_max_le_iff]
  simp

theorem longestArgName_le_iff {bound : Nat} :
    s.longestArgName ≤ bound ↔ ∀ name ∈ s.argNames, name.length ≤ bound := by
  rw [longestArgName, foldl_max_le_iff]
  simp

theorem longestArgName_le_widestArgName (s : Scheme) : s.longestArgName ≤ s.widestArgName :=
  longestArgName_le_iff.mpr fun name hname =>
    (length_le_utf8ByteSize name).trans (widestArgName_le_iff.mp le_rfl name hname)

/-- A name that is as long as the widest one is wide has no character of several bytes. -/
theorem widestIsAscii_iff :
    s.WidestIsAscii ↔ ∃ name ∈ s.argNames, s.widestArgName ≤ name.length := by
  constructor
  · rintro ⟨name, hname, -, hwidest⟩
    exact ⟨name, hname, widestArgName_le_iff.mpr hwidest⟩
  · rintro ⟨name, hname, hle⟩
    have hwidest := widestArgName_le_iff.mp hle
    refine ⟨name, hname, utf8ByteSize_eq_length_iff.mp ?_, hwidest⟩
    exact (hwidest name hname).antisymm (length_le_utf8ByteSize name)

/-- **The widest name is the longest one** when it has no character of several bytes. -/
theorem widestArgName_eq_longestArgName_iff (hne : s.argNames ≠ []) :
    s.widestArgName = s.longestArgName ↔ s.WidestIsAscii := by
  rw [widestIsAscii_iff]
  constructor
  · intro heq
    obtain ⟨name, hname, hlongest⟩ : ∃ name ∈ s.argNames, name.length = s.longestArgName :=
      exists_eq_foldl_max hne
    exact ⟨name, hname, (heq.trans hlongest.symm).le⟩
  · rintro ⟨name, hname, hle⟩
    exact (hle.trans (longestArgName_le_iff.mp le_rfl name hname)).antisymm
      s.longestArgName_le_widestArgName

end Scheme

namespace Emit

open Header (Checker Printable printable_of_mem_parse)

/-! ### Reading the list -/

/-- What a line in a list of keywords shows. -/
structure KeywordReading where
  /-- The column in which the ` -- ` behind the name begins, counted from 0. -/
  column : Nat
  /-- How many blanks stand between the name and that column. -/
  padding : Nat
  /-- The line without its indentation and this padding. -/
  text : String
deriving DecidableEq, Repr

/-- A line of the list, taken apart at its first ` -- `. -/
def readKeyword? (line : String) : Option KeywordReading := do
  let (front, behind) ← cutAt? " -- " line
  return { column := front.length
           padding := front.length - (trimEnd front.toList).length
           text := String.ofList (trim front.toList) ++ " -- " ++ behind }

/-- The line that announces a list of keywords. -/
def keywordsLine : String := "  Keyword arguments:"

/-- The lines of the list of keywords: those behind the last line that announces one, up to the
quotes that close the docstring. -/
def keywordLines (text : String) : List String :=
  ((lines text).rtakeWhile (· ≠ keywordsLine)).takeWhile (· ≠ quotesLine)

/-- The list of keywords in a wrapper. -/
def readKeywords? (text : String) : Option (List KeywordReading) :=
  (keywordLines text).mapM readKeyword?

/-! ### What stands in the list -/

/-- What stands in front of the mark in a line of the list. -/
def keywordFront (width : Nat) (e : Entry) : String := "    " ++ padRight width e.argName

theorem keywordLine_eq (width : Nat) (e : Entry) :
    keywordLine width e =
      keywordFront width e ++ " -- " ++ (e.doc ++ " [" ++ e.constant ++ "]") := by
  unfold keywordLine keywordFront
  simp only [toString, String.append_assoc]

theorem toList_keywordFront (width : Nat) (e : Entry) :
    (keywordFront width e).toList =
      [' ', ' ', ' ', ' '] ++ e.argName.toList ++
        List.replicate (width - e.argName.length) ' ' := by
  simp [keywordFront, padRight]

/-- **A line of the list** shows its entry, with as much padding as the name is shorter than the
place it takes. -/
theorem readKeyword?_keywordLine {e : Entry} (he : Header.Entry.Printable e) {width : Nat}
    (hwidth : e.argName.length ≤ width) :
    readKeyword? (keywordLine width e) =
      some { column := 4 + width, padding := width - e.argName.length, text := e.describe } := by
  have hpadding := isBlank_of_mem_replicate_space (width - e.argName.length)
  have hcut : cutAt? " -- " (keywordLine width e) =
      some (keywordFront width e, e.doc ++ " [" ++ e.constant ++ "]") := by
    -- no hyphen stands in front of the first mark
    have hmark : " -- ".toList = [' '] ++ '-' :: ['-', ' '] := by decide
    have hname : '-' ∉ e.argName.toList := he.argName.not_mem (by decide)
    rw [keywordLine_eq]
    exact cutAt?_append_of_not_mem hmark (by simp [toList_keywordFront, hname]) _
  have hcolumn : (keywordFront width e).length = 4 + width := by
    rw [← String.length_toList, toList_keywordFront]
    simp only [List.length_append, List.length_replicate, String.length_toList, List.length_cons,
      List.length_nil]
    omega
  have hstop : (trimEnd (keywordFront width e).toList).length = 4 + e.argName.length := by
    rw [toList_keywordFront, trimEnd_append hpadding,
      trimEnd_append_of_ne_nil he.argName.ne_nil he.argName.trimmed.stop, List.length_append,
      String.length_toList]
    rfl
  have hname : String.ofList (trim (keywordFront width e).toList) = e.argName := by
    rw [toList_keywordFront, he.argName.trimmed.trim_append [' ', ' ', ' ', ' '] _
      (isBlank_of_mem_replicate_space 4) hpadding, String.ofList_toList]
  have hdescribe : e.argName ++ " -- " ++ (e.doc ++ " [" ++ e.constant ++ "]") = e.describe := by
    unfold Entry.describe
    simp only [toString, String.append_assoc]
  simp only [readKeyword?, hcut, hcolumn, hstop, hname, hdescribe, Option.bind_eq_bind,
    Option.bind_some, Nat.add_sub_add_left]
  rfl

/-- A line of the list is indented more than a line with a third character that is not blank. -/
theorem keywordLine_ne {width : Nat} {e : Entry} {line : String} {c : Char}
    (hline : line.toList[2]? = some c) (hc : c ≠ ' ') : keywordLine width e ≠ line := by
  rintro rfl
  rw [keywordLine_eq, String.toList_append, String.toList_append, toList_keywordFront] at hline
  exact hc (Option.some.inj hline).symm

/-- What stands behind the last element of a list that fails a test. -/
theorem rtakeWhile_append_cons {α : Type} {p : α → Bool} {x : α} {ys : List α} (hx : p x = false)
    (hys : ∀ y ∈ ys, p y = true) (xs : List α) : (xs ++ x :: ys).rtakeWhile p = ys := by
  rw [List.rtakeWhile, List.reverse_append, List.reverse_cons, List.append_assoc,
    List.takeWhile_append_of_pos (by simpa using hys), List.singleton_append,
    List.takeWhile_cons_of_neg (by simp [hx]), List.append_nil, List.reverse_reverse]

section Accepted

variable {checker : Checker} {s : Scheme} (h : Printable checker s)

include h

/-- **The list is found** behind its heading: no line of it, and none of the two lines behind it,
announces a list. -/
theorem keywordLines_wrapper :
    keywordLines (unlines (wrapperLines s)) = s.entries.map (keywordLine s.widestArgName) := by
  have hlines : wrapperLines s =
      (headLine s :: quotesLine :: s!"  Helper function for '{s.group}'" :: "" ::
        (s.title :: s.summaryLines).map docstringLine ++ [""]) ++ keywordsLine ::
          (s.entries.map (keywordLine s.widestArgName) ++ quotesLine :: [returnLine s]) := by
    simp [wrapperLines, docstring, quotesLine, keywordsLine]
  have hreturn : returnLine s ≠ keywordsLine := by
    intro heq
    have hthird := congrArg (fun line => line.toList[2]?) heq
    unfold returnLine at hthird
    simp [keywordsLine, toString] at hthird
  have hbehind : ∀ line ∈ s.entries.map (keywordLine s.widestArgName) ++ quotesLine ::
      [returnLine s], decide (line ≠ keywordsLine) = true := by
    simp only [List.mem_append, List.mem_map, List.mem_cons, List.not_mem_nil, or_false,
      decide_eq_true_eq]
    rintro line (⟨e, -, rfl⟩ | rfl | rfl)
    · exact keywordLine_ne (c := 'K') (by decide) (by decide)
    · decide
    · exact hreturn
  have hlisted : ∀ line ∈ s.entries.map (keywordLine s.widestArgName),
      decide (line ≠ quotesLine) = true := by
    simp only [List.mem_map, decide_eq_true_eq]
    rintro line ⟨e, -, rfl⟩
    exact keywordLine_ne (c := '"') (by decide) (by decide)
  rw [keywordLines, lines_wrapper h, hlines, rtakeWhile_append_cons (by simp) hbehind,
    List.takeWhile_append_of_pos hlisted, List.takeWhile_cons_of_neg (by simp), List.append_nil]

/-- The list of an accepted scheme is read as its entries. -/
theorem readKeywords?_wrapper :
    readKeywords? (unlines (wrapperLines s)) =
      some (s.entries.map fun e =>
        { column := 4 + s.widestArgName, padding := s.widestArgName - e.argName.length
          text := e.describe }) := by
  rw [readKeywords?, keywordLines_wrapper h, List.mapM_map]
  refine mapM_eq_pure fun e he => readKeyword?_keywordLine (h.entries e he) ?_
  exact (length_le_utf8ByteSize _).trans
    (Scheme.widestArgName_le_iff.mp le_rfl _ (List.mem_map_of_mem he))

end Accepted

/-- **The list of keywords** in the wrapper of an accepted scheme with entries shows the entries in
order, without its padding each as a listing shows it, and all marks begin in one column, which is
the indentation and the size of the widest name. This is the length of the longest name, and a name
without any padding is there, exactly when one of the widest names has no character of several
bytes. -/
theorem keywords_aligned_iff {checker : Checker} {text : String} {s : Scheme}
    (h : .ok s ∈ checker.parse text) (hne : s.entries ≠ []) :
    ∃ w keywords, wrapper s = .ok w ∧ readKeywords? w = some keywords ∧
      keywords.map (·.text) = s.entries.map (·.describe) ∧
      keywords.map (·.padding) = s.entries.map (s.widestArgName - ·.argName.length) ∧
      (∀ k ∈ keywords, k.column = 4 + s.widestArgName) ∧
      ((∀ k ∈ keywords, k.column = 4 + s.longestArgName) ↔ s.WidestIsAscii) ∧
      ((∃ k ∈ keywords, k.padding = 0) ↔ s.WidestIsAscii) := by
  have hargs : s.argNames ≠ [] := by simpa [Scheme.argNames] using hne
  have hread := readKeywords?_wrapper (printable_of_mem_parse h)
  refine ⟨_, _, wrapper_eq hne, hread, ?_, ?_, ?_, ?_, ?_⟩
  · rw [List.map_map]
    rfl
  · rw [List.map_map]
    rfl
  · simp
  · rw [← Scheme.widestArgName_eq_longestArgName_iff hargs, List.forall_mem_map]
    obtain ⟨e, he⟩ := List.exists_mem_of_ne_nil _ hne
    exact ⟨fun hall => Nat.add_left_cancel (hall e he), fun heq _ _ => by rw [heq]⟩
  · rw [Scheme.widestIsAscii_iff]
    simp [Scheme.argNames, Nat.sub_eq_zero_iff_le]

/-- A widest name in plain letters, and a shorter one with a letter of two bytes. -/
theorem keywords_aligned_iff_accent :
    let text := "/// Input arguments of f [fIn]\nenum fIn \x7b\n/// a number [nombre]\nF_N,\n" ++
      "/// état -- a -- b [F_E]\nF_E,\n/// the x [x]\nF_X,\n\x7d;"
    let s : Scheme :=
      { role := .input, name := "fIn", title := "Input arguments of f", summary := ""
        group := "fIn"
        entries := [⟨"nombre", "a number", "F_N"⟩, ⟨"état", "a -- b", "F_E"⟩,
          ⟨"x", "the x", "F_X"⟩] }
    .ok s ∈ Checker.parse {} text ∧ s.entries ≠ [] ∧
      ∃ w keywords, wrapper s = .ok w ∧ readKeywords? w = some keywords ∧
        keywords.map (·.text) =
          ["nombre -- a number [F_N]", "état -- a -- b [F_E]", "x -- the x [F_X]"] ∧
        keywords.map (·.padding) = [0, 2, 5] ∧ ∀ k ∈ keywords, k.column = 4 + s.longestArgName := by
  intro text s
  have htext : .ok s ∈ Checker.parse {} text := by decide +kernel
  have hne : s.entries ≠ [] := List.cons_ne_nil _ _
  obtain ⟨w, keywords, hw, hread, htexts, hpaddings, -, hcolumn, -⟩ :=
    keywords_aligned_iff htext hne
  refine ⟨htext, hne, w, keywords, hw, hread, htexts.trans ?_, hpaddings.trans ?_, hcolumn.mpr ?_⟩
  · decide +kernel
  · decide +kernel
  · decide +kernel

/-- **The longest name can be padded**: the only name has one letter here, which takes two bytes. -/
theorem longest_keyword_padded :
    let text := "/// Input arguments of f [fIn]\nenum fIn \x7b\n/// the x [é]\nF_X,\n\x7d;\n"
    let s : Scheme :=
      { role := .input, name := "fIn", title := "Input arguments of f", summary := ""
        group := "fIn"
        entries := [⟨"é", "the x", "F_X"⟩] }
    .ok s ∈ Checker.parse {} text ∧ s.longestArgName = 1 ∧
      ∃ w, wrapper s = .ok w ∧ "    é  -- the x [F_X]" ∈ lines w ∧
        readKeywords? w = some [{ column := 6, padding := 1, text := "é -- the x [F_X]" }] := by
  intro text s
  refine ⟨by decide +kernel, by decide +kernel, _, wrapper_eq (List.cons_ne_nil _ _), ?_, ?_⟩
  · decide +kernel
  · decide +kernel

end Emit

end ArgumentSchemes
