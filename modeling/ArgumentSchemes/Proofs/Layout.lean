import ArgumentSchemes.Proofs.LineBreaks
import ArgumentSchemes.Proofs.LineShapes
import ArgumentSchemes.Proofs.Reading

/-!
# The layout of a header

A **layout** of a list of lines puts blanks in front of and behind each of them, ends each by a
newline, with or without a carriage return, and may leave out the ending of the last one. No kind of
line looks at the blanks around it (`Line.ofChars_append_blanks`), so a laid out line is read as the
bare one (`Line.classify_body`), and a carriage return in front of a newline is one more blank. Only
an empty last line can get lost without its ending, and that line says nothing.

Main statement: whatever the layout of the lines of a header, its items are the same
(`parse_laidOut`).
-/

namespace ArgumentSchemes

namespace Text

/-! ### Blanks behind a text -/

section Blanks

variable {bs : List Char} (hbs : ∀ b ∈ bs, isBlank b = true)

include hbs

/-- Where a text is not blank, its leading blanks are dropped as if nothing stood behind it. -/
theorem trimStart_append_blanks (cs : List Char) :
    trimStart cs = [] ∧ trimStart (cs ++ bs) = [] ∨
      trimStart cs ≠ [] ∧ trimStart (cs ++ bs) = trimStart cs ++ bs := by
  have hblank : bs.dropWhile isBlank = [] := List.dropWhile_eq_nil_iff.mpr hbs
  rw [trimStart, trimStart, List.dropWhile_append, hblank]
  rcases h : cs.dropWhile isBlank with _ | ⟨c, rest⟩
  · exact .inl ⟨rfl, rfl⟩
  · exact .inr ⟨by simp, rfl⟩

theorem trim_append_blanks (cs : List Char) : trim (cs ++ bs) = trim cs := by
  rcases trimStart_append_blanks hbs cs with ⟨h, h'⟩ | ⟨-, h'⟩
  · rw [trim, trim, h, h']
  · rw [trim, trim, h', trimEnd_append hbs]

/-- A word ends in front of blanks at the latest. -/
theorem spanWord_append_blanks (cs : List Char) :
    spanWord (cs ++ bs) = ((spanWord cs).1, (spanWord cs).2 ++ bs) := by
  have hends : WordEnds ((spanWord cs).2 ++ bs) := by
    have hword := wordEnds_spanWord cs
    rcases hrest : (spanWord cs).2 with _ | ⟨d, rest⟩
    · exact fun c hc => isWordChar_eq_false_of_isBlank (hbs c (List.mem_of_mem_head? hc))
    · rw [hrest] at hword
      exact hword
  have hcs : cs ++ bs = (spanWord cs).1 ++ ((spanWord cs).2 ++ bs) := by
    rw [← List.append_assoc, spanWord_append]
  rw [hcs, spanWord_append_of_all (fun c => isWordChar_of_mem_spanWord) hends]

/-- A start without blanks does not reach into blanks behind the text. -/
theorem afterPrefix?_append_blanks {start : List Char} (hstart : start.all (!isBlank ·) = true)
    (cs : List Char) :
    afterPrefix? start (cs ++ bs) = (afterPrefix? start cs).map (· ++ bs) := by
  ext rest
  rw [Option.map_eq_some_iff]
  simp only [afterPrefix?_eq_some_iff]
  constructor
  · intro h
    rcases List.append_eq_append_iff.mp h with ⟨as, hstart', hbs'⟩ | ⟨as, rfl, rfl⟩
    · -- what of the start would stand among the blanks is both blank and not
      have hnil : as = [] := List.eq_nil_iff_forall_not_mem.mpr fun a ha => by
        have hfalse := List.all_eq_true.mp hstart a (hstart' ▸ List.mem_append_right _ ha)
        rw [hbs a (hbs' ▸ List.mem_append_left _ ha)] at hfalse
        cases hfalse
      subst hnil
      exact ⟨[], by simp [hstart'], by simpa using hbs'⟩
    · exact ⟨as, rfl, rfl⟩
  · rintro ⟨as, rfl, rfl⟩
    exact List.append_assoc _ _ _

end Blanks

end Text

namespace Header

open Text

/-! ### Blanks around a line -/

namespace Line

section Blanks

variable {bs : List Char} (hbs : ∀ b ∈ bs, isBlank b = true)

include hbs

theorem continuesWith_append_blanks (c : Char) (cs : List Char) :
    continuesWith c (cs ++ bs) = continuesWith c cs := by
  rcases trimStart_append_blanks hbs cs with ⟨h, h'⟩ | ⟨hne, h'⟩
  · rw [continuesWith, continuesWith, h, h']
  · rw [continuesWith, continuesWith, h', List.head?_append_of_ne_nil _ hne]

theorem splitTag?_append_blanks (cs : List Char) : splitTag? (cs ++ bs) = splitTag? cs := by
  rw [splitTag?, splitTag?, trimEnd_append hbs]

theorem ofComment_append_blanks (hline : '\n' ∉ bs) (cs : List Char) :
    ofComment (cs ++ bs) = ofComment cs := by
  have hnewline : '\n' ∈ cs ++ bs ↔ '\n' ∈ cs := by simp [hline]
  simp only [ofComment, splitTag?_append_blanks hbs, trim_append_blanks hbs, hnewline]

theorem enumEntry?_append_blanks (cs : List Char) : enumEntry? (cs ++ bs) = enumEntry? cs := by
  simp only [ enumEntry?, spanWord_append_blanks hbs, continuesWith_append_blanks hbs]

theorem enumHeader?_append_blanks (cs : List Char) : enumHeader? (cs ++ bs) = enumHeader? cs := by
  have hstart : ['e', 'n', 'u', 'm'].all (!isBlank ·) = true := by decide
  rw [enumHeader?, enumHeader?, afterPrefix?_append_blanks hbs hstart]
  rcases afterPrefix? ['e', 'n', 'u', 'm'] cs with _ | rest
  · rfl
  · simp only [Option.map_some]
    rcases trimStart_append_blanks hbs rest with ⟨h, h'⟩ | ⟨hne, h'⟩
    · -- no name follows
      simp [h, h', spanWord]
    · have hrest : rest ≠ [] := by
        rintro rfl
        exact hne rfl
      have hblank : startsBlank (rest ++ bs) = startsBlank rest := by
        rw [startsBlank, startsBlank, List.head?_append_of_ne_nil _ hrest]
      simp only [h', hblank, spanWord_append_blanks hbs, continuesWith_append_blanks hbs]

theorem ofCode_append_blanks {cs : List Char} (hne : cs ≠ []) : ofCode (cs ++ bs) = ofCode cs := by
  obtain ⟨c, cs, rfl⟩ := List.exists_cons_of_ne_nil hne
  by_cases hc : c = '}'
  · subst hc
    simp only [List.cons_append, ofCode, continuesWith_append_blanks hbs]
  · have hcode : ∀ rest rest', c :: rest = '\x7d' :: rest' → False := fun _ _ heq =>
      hc (List.cons.inj heq).1
    rw [List.cons_append, ofCode.eq_2 _ (hcode _), ofCode.eq_2 _ (hcode _), ← List.cons_append,
      enumHeader?_append_blanks hbs, enumEntry?_append_blanks hbs]

/-- **Blanks behind a line** do not count. -/
theorem ofChars_append_blanks (hline : '\n' ∉ bs) (cs : List Char) :
    ofChars (cs ++ bs) = ofChars cs := by
  have hstart : ['/', '/', '/'].all (!isBlank ·) = true := by decide
  rcases trimStart_append_blanks hbs cs with ⟨h, h'⟩ | ⟨hne, h'⟩
  · rw [ofChars, ofChars, h, h']
  · rw [ofChars, ofChars, h', afterPrefix?_append_blanks hbs hstart]
    rcases afterPrefix? ['/', '/', '/'] (trimStart cs) with _ | rest
    · exact ofCode_append_blanks hbs hne
    · exact ofComment_append_blanks hbs hline rest

/-- **Blanks in front of a line** do not count. -/
theorem ofChars_blanks_append (cs : List Char) : ofChars (bs ++ cs) = ofChars cs := by
  rw [ofChars, ofChars, trimStart_append hbs]

end Blanks

/-- A carriage return that a line ending would take with it does not count. -/
theorem ofChars_withoutReturn (cs : List Char) :
    ofChars (withoutReturn cs.reverse).reverse = ofChars cs := by
  rcases List.eq_nil_or_concat' cs with rfl | ⟨init, last, rfl⟩
  · rfl
  · rw [List.reverse_append, List.reverse_singleton, List.singleton_append]
    by_cases h : last = '\r'
    · subst h
      have hreturn : ∀ b ∈ ['\r'], isBlank b = true := isBlank_of_mem_singleton (by decide)
      rw [withoutReturn, List.reverse_reverse, ofChars_append_blanks hreturn (by decide)]
    · rw [withoutReturn.eq_def]
      split
      · next heq => exact absurd (List.cons.inj heq).1 h
      · simp

end Line

/-! ### Texts line by line -/

/-- The first line of a text and what follows. -/
theorem kinds_append_newline {l : String} (hl : '\n' ∉ l.toList) (rest : String) :
    kinds (l ++ "\n" ++ rest) = Line.classify l :: kinds rest := by
  have hchars : (l ++ "\n" ++ rest).toList = l.toList ++ '\n' :: rest.toList := by simp
  rw [kinds, lines, hchars, linesAfter_append hl, List.append_nil]
  simp [kinds, lines, Line.classify, Line.ofChars_withoutReturn]

/-- A text without a newline is one line, unless it is empty. -/
theorem kinds_of_newline_not_mem {l : String} (hl : '\n' ∉ l.toList) :
    kinds l = if l = "" then [] else [Line.classify l] := by
  rw [kinds, lines, linesAfter_of_newline_not_mem hl]
  simp only [List.reverse_nil, List.nil_append, String.toList_eq_nil_iff]
  split <;> simp

/-! ### Layouts -/

/-- A line with what a layout puts around it. -/
structure Placed where
  text : String
  /-- What stands in front of the line. -/
  front : String := ""
  /-- What stands behind it. -/
  back : String := ""
  /-- Whether a carriage return stands in front of the newline that ends the line. -/
  returned : Bool := false
deriving DecidableEq, Repr

namespace Placed

/-- The line between what is put around it. -/
def body (l : Placed) : String := l.front ++ l.text ++ l.back

/-- How the line ends. -/
def ending (l : Placed) : String := if l.returned then "\r\n" else "\n"

/-- Only blanks are put around the line, and no newline is among them. -/
structure InBlanks (l : Placed) : Prop where
  front : ∀ c ∈ l.front.toList, isBlank c = true ∧ c ≠ '\n'
  back : ∀ c ∈ l.back.toList, isBlank c = true ∧ c ≠ '\n'

instance (l : Placed) : Decidable l.InBlanks :=
  decidable_of_iff
    (l.front.toList.all (fun c => isBlank c && c != '\n') = true ∧
      l.back.toList.all (fun c => isBlank c && c != '\n') = true)
    ⟨fun h => ⟨by simpa using h.1, by simpa using h.2⟩,
      fun h => ⟨by simpa using h.front, by simpa using h.back⟩⟩

end Placed

/-- The text with the given lines, the last of which is only ended if `ended` is true. -/
def laidOut (ended : Bool) : List Placed → String
  | [] => ""
  | [l] => l.body ++ if ended then l.ending else ""
  | l :: rest => l.body ++ l.ending ++ laidOut ended rest

namespace Placed

variable {l : Placed}

theorem newline_not_mem_body (h : l.InBlanks) (hl : '\n' ∉ l.text.toList) :
    '\n' ∉ l.body.toList := by
  have hfront : '\n' ∉ l.front.toList := fun hmem => (h.front _ hmem).2 rfl
  have hback : '\n' ∉ l.back.toList := fun hmem => (h.back _ hmem).2 rfl
  simp [body, hfront, hl, hback]

/-- **A laid out line** is read as the bare one. -/
theorem classify_body (h : l.InBlanks) : Line.classify l.body = Line.classify l.text := by
  have hback : '\n' ∉ l.back.toList := fun hmem => (h.back _ hmem).2 rfl
  rw [Line.classify, Line.classify, body, String.toList_append, String.toList_append,
    Line.ofChars_append_blanks (fun c hc => (h.back c hc).1) hback,
    Line.ofChars_blanks_append fun c hc => (h.front c hc).1]

/-- A laid out line and what follows. -/
theorem kinds_body_ending (h : l.InBlanks) (hl : '\n' ∉ l.text.toList) (rest : String) :
    kinds (l.body ++ l.ending ++ rest) = Line.classify l.text :: kinds rest := by
  have hbody := newline_not_mem_body h hl
  rw [ending]
  split
  · -- the carriage return is one more blank behind the line
    have hreturn : ∀ b ∈ ['\r'], isBlank b = true := isBlank_of_mem_singleton (by decide)
    have hreturned : '\n' ∉ (l.body ++ "\r").toList := by simp [hbody]
    have hclassify : Line.classify (l.body ++ "\r") = Line.classify l.body := by
      rw [Line.classify, Line.classify, String.toList_append]
      exact Line.ofChars_append_blanks hreturn (by decide) _
    rw [show "\r\n" = "\r" ++ "\n" from rfl, ← String.append_assoc,
      kinds_append_newline hreturned, hclassify, classify_body h]
  · rw [kinds_append_newline hbody, classify_body h]

end Placed

/-- **The lines of a laid out text** are the bare ones. Only without its ending an empty last line
is none. -/
theorem kinds_laidOut (ended : Bool) {ls : List Placed}
    (h : ∀ l ∈ ls, l.InBlanks ∧ '\n' ∉ l.text.toList) :
    ls.map (Line.classify ·.text) = kinds (laidOut ended ls) ∨
      ls.map (Line.classify ·.text) = kinds (laidOut ended ls) ++ [.other] := by
  induction ls with
  | nil => exact .inl rfl
  | cons l ls ih =>
    obtain ⟨hl, hline⟩ := h l List.mem_cons_self
    have hrest := ih fun l' hl' => h l' (List.mem_cons_of_mem _ hl')
    cases ls with
    | nil =>
      cases ended with
      | true =>
        have hkinds := Placed.kinds_body_ending hl hline ""
        rw [String.append_empty] at hkinds
        exact .inl hkinds.symm
      | false =>
        have hkinds := kinds_of_newline_not_mem (Placed.newline_not_mem_body hl hline)
        have htext : laidOut false [l] = l.body := String.append_empty
        rw [htext, hkinds, List.map_singleton, ← Placed.classify_body hl]
        split
        · next hempty =>
          rw [hempty]
          exact .inr rfl
        · exact .inl rfl
    | cons l' ls =>
      have hkinds := Placed.kinds_body_ending hl hline (laidOut ended (l' :: ls))
      rw [laidOut, hkinds, List.map_cons, List.cons_append, List.cons.injEq, List.cons.injEq]
      · exact hrest.imp (⟨rfl, ·⟩) (⟨rfl, ·⟩)
      · simp

/-- A last line that says nothing changes nothing. -/
theorem State.run_concat_other (number : Nat) (ls : List Line) :
    idle.drafts number (ls ++ [.other]) = idle.drafts number ls ∧
      (idle.after number (ls ++ [.other])).finish = (idle.after number ls).finish := by
  have hstep : ∀ s : State, ∀ n,
      (s.step n .other).2 = none ∧ (s.step n .other).1.finish = s.finish := by
    intro s n
    cases s <;> exact ⟨rfl, rfl⟩
  obtain ⟨hdraft, hfinish⟩ := hstep (idle.after number ls) (number + ls.length)
  rw [drafts_append, after_append, drafts, hdraft]
  exact ⟨by simp [drafts], hfinish⟩

/-- **The layout of a header does not matter**: however its lines are set in blanks and ended, and
whether the last of them is ended or not, the items are the same, the numbers of lines in them
included. -/
theorem parse_laidOut (checker : Checker) {text : String} {ls : List Placed}
    (htext : ls.map (·.text) = lines text) (hblank : ∀ l ∈ ls, l.InBlanks) (ended : Bool) :
    checker.parse (laidOut ended ls) = checker.parse text := by
  have hline : ∀ l ∈ ls, '\n' ∉ l.text.toList := fun l hl =>
    newline_not_mem_of_mem_lines (htext ▸ List.mem_map_of_mem hl)
  have hkinds : kinds text = ls.map (Line.classify ·.text) := by
    rw [kinds, ← htext, List.map_map]
    rfl
  rw [checker.parse_eq, checker.parse_eq, hkinds]
  rcases kinds_laidOut ended fun l hl => ⟨hblank l hl, hline l hl⟩ with h | h
  · rw [h]
  · obtain ⟨hdrafts, hfinish⟩ := State.run_concat_other 1 (kinds (laidOut ended ls))
    rw [h, hdrafts, hfinish]

/-- Two schemes, one of which is bound twice, and the same lines among blanks of all sorts, with
both line endings and without the empty line at the end. -/
theorem parse_laidOut_two_schemes :
    let text := "/// Input arguments of f [fIn]\n///\nenum fIn \x7b\n" ++
      "/// a -- the a [F_A]\nF_A,\n\x7d;\n/// Output arguments of f [fOut]\r\n" ++
      "/// b [b]\nF_B,\nF_C,\n\x7d;\n\n"
    let ls : List Placed :=
      [⟨"/// Input arguments of f [fIn]", "\t", "\r\r", true⟩, ⟨"///", "", " \u2028", false⟩,
        ⟨"enum fIn \x7b", "\u3000 ", "\x0b", true⟩, ⟨"/// a -- the a [F_A]", "\r", "  ", true⟩,
        ⟨"F_A,", "    ", "\x0c", false⟩, ⟨"\x7d;", "", "", true⟩,
        ⟨"/// Output arguments of f [fOut]", "", "", false⟩, ⟨"/// b [b]", " ", "\u0085", true⟩,
        ⟨"F_B,", "\u00a0", "", false⟩, ⟨"F_C,", "", "\t", false⟩, ⟨"\x7d;", "\u2003", "\r", false⟩,
        ⟨"", "", "", false⟩]
    ls.map (·.text) = lines text ∧ (∀ l ∈ ls, l.InBlanks) ∧
      Checker.parse {} (laidOut false ls) =
        [.ok ⟨.input, "fIn", "Input arguments of f", "", "fIn", [⟨"a", "the a", "F_A"⟩]⟩,
          .error (.duplicateConstant "fOut" "b" "F_B" "F_C" 10)] := by
  intro text ls
  have htext : ls.map (·.text) = lines text := by decide +kernel
  have hblank : ∀ l ∈ ls, l.InBlanks := by decide +kernel
  have hparse : Checker.parse {} text =
      [.ok ⟨.input, "fIn", "Input arguments of f", "", "fIn", [⟨"a", "the a", "F_A"⟩]⟩,
        .error (.duplicateConstant "fOut" "b" "F_B" "F_C" 10)] := by
    decide +kernel
  exact ⟨htext, hblank, (parse_laidOut {} htext hblank false).trans hparse⟩

end Header

end ArgumentSchemes
