import ArgumentSchemes.Proofs.Trimming
import ArgumentSchemes.Text.Lines

/-!
# Lines that are written and read again

A text is a **line** when it can stand between two newlines and be read as it is: it holds no
newline, and it does not end in a carriage return, which would belong to the line ending. Of a text
that is empty or ends in a newline nothing goes over into the lines of what follows.

Main statements: `lines` undoes `unlines` on such lines (`lines_unlines`); the lines of two texts
are those of the one and then those of the other, if the first is ended (`lines_append`); and lines
that stand in a text with newlines between them are its lines, but for an empty one at the end,
where the text has ended already (`lines_intercalate`).
-/

namespace ArgumentSchemes.Text

/-- A text that is read as it is when a newline follows. -/
structure IsLine (cs : List Char) : Prop where
  oneLine : '\n' ∉ cs
  noReturn : cs.getLast? ≠ some '\r'

instance (cs : List Char) : Decidable (IsLine cs) :=
  decidable_of_iff ('\n' ∉ cs ∧ cs.getLast? ≠ some '\r')
    ⟨fun h => ⟨h.1, h.2⟩, fun h => ⟨h.oneLine, h.noReturn⟩⟩

theorem isLine_concat {cs : List Char} {c : Char} (hcs : '\n' ∉ cs) (hline : c ≠ '\n')
    (hreturn : c ≠ '\r') : IsLine (cs ++ [c]) where
  oneLine := by simp [hcs, Ne.symm hline]
  noReturn := by simp [hreturn]

/-- A text without blanks at its end does not end in a carriage return, which is one. -/
theorem isLine_of_trimEnd {cs : List Char} (hcs : '\n' ∉ cs) (hstop : trimEnd cs = cs) :
    IsLine cs where
  oneLine := hcs
  noReturn := by
    intro hlast
    obtain ⟨init, rfl⟩ := List.getLast?_eq_some_iff.mp hlast
    exact absurd (trimEnd_concat_eq_self_iff.mp hstop) (by decide)

theorem IsWord.isLine {cs : List Char} (h : IsWord cs) : IsLine cs :=
  isLine_of_trimEnd h.newline_not_mem h.trimmed.stop

/-- What ends in a line is a line, if it has no newline. -/
theorem IsLine.append {text : String} (htext : '\n' ∉ text.toList) (last : String)
    (hne : last.toList ≠ []) (hlast : IsLine last.toList) : IsLine (text ++ last).toList where
  oneLine := by simp [htext, hlast.oneLine]
  noReturn := by
    rw [String.toList_append, List.getLast?_append_of_ne_nil _ hne]
    exact hlast.noReturn

/-- Without a carriage return at its end a line stays as it is. -/
theorem IsLine.withoutReturn_reverse {cs : List Char} (h : IsLine cs) :
    withoutReturn cs.reverse = cs.reverse := by
  have hhead : cs.reverse.head? ≠ some '\r' := by
    rw [List.head?_reverse]
    exact h.noReturn
  rw [withoutReturn.eq_def]
  split
  · next heq => exact absurd (by rw [heq]; rfl) hhead
  · rfl

/-- Reading goes up to the first newline. -/
theorem linesAfter_append {cs : List Char} (h : '\n' ∉ cs) (line rest : List Char) :
    linesAfter line (cs ++ '\n' :: rest) =
      (withoutReturn (cs.reverse ++ line)).reverse :: linesAfter [] rest := by
  induction cs generalizing line with
  | nil => simp [linesAfter]
  | cons c cs ih =>
    rw [List.mem_cons, not_or] at h
    rw [List.cons_append, linesAfter, if_neg (Ne.symm h.1), ih h.2, List.reverse_cons,
      List.append_assoc, List.singleton_append]

/-- What holds no newline is one line, or none if it is empty. -/
theorem linesAfter_of_newline_not_mem {cs : List Char} (h : '\n' ∉ cs) (line : List Char) :
    linesAfter line cs = if line.reverse ++ cs = [] then [] else [line.reverse ++ cs] := by
  induction cs generalizing line with
  | nil => simp [linesAfter]
  | cons c cs ih =>
    rw [List.mem_cons, not_or] at h
    rw [linesAfter, if_neg (Ne.symm h.1), ih h.2]
    simp

theorem toList_unlines (ls : List String) :
    (unlines ls).toList = (ls.map String.toList).flatMap (· ++ ['\n']) := by
  simp [unlines, String.toList_join, List.flatMap_map]

/-- **Lines that are written are read again.** -/
theorem lines_unlines {ls : List String} (h : ∀ l ∈ ls, IsLine l.toList) :
    lines (unlines ls) = ls := by
  have hchars : linesAfter [] (ls.flatMap fun l => l.toList ++ ['\n']) = ls.map String.toList := by
    induction ls with
    | nil => rfl
    | cons l ls ih =>
      have hl : IsLine l.toList := h l List.mem_cons_self
      rw [List.flatMap_cons, List.append_assoc, List.singleton_append,
        linesAfter_append hl.oneLine, List.append_nil, hl.withoutReturn_reverse,
        List.reverse_reverse, ih fun l' hl' => h l' (List.mem_cons_of_mem _ hl'), List.map_cons]
  rw [lines, toList_unlines, List.flatMap_map, hchars, List.map_map]
  simp [Function.comp_def]

/-! ### Texts one behind the other -/

/-- A text that is empty or ends in a newline. -/
def Ended (text : String) : Prop := text = "" ∨ text.toList.getLast? = some '\n'

theorem Ended.append {a b : String} (ha : Ended a) (hb : Ended b) : Ended (a ++ b) := by
  rcases hb with rfl | hb
  · rwa [String.append_empty]
  · right
    rw [String.toList_append, List.getLast?_append, hb]
    rfl

theorem ended_append_newline (l : String) : Ended (l ++ "\n") := .inr (by simp)

theorem linesAfter_append_newline (cs line rest : List Char) :
    linesAfter line (cs ++ '\n' :: rest) =
      linesAfter line (cs ++ ['\n']) ++ linesAfter [] rest := by
  induction cs generalizing line with
  | nil => simp [linesAfter]
  | cons c cs ih =>
    simp only [List.cons_append, linesAfter]
    split
    · rw [ih, List.cons_append]
    · exact ih _

/-- **The lines of two texts** are those of the one and then those of the other. -/
theorem lines_append {a : String} (ha : Ended a) (b : String) :
    lines (a ++ b) = lines a ++ lines b := by
  rcases ha with rfl | ha
  · simp
  · obtain ⟨cs, hcs⟩ := List.getLast?_eq_some_iff.mp ha
    rw [lines, String.toList_append, hcs, List.append_assoc, List.singleton_append,
      linesAfter_append_newline, List.map_append, ← hcs]
    rfl

/-! ### Lines with newlines between them -/

/-- The lines but for the last one, if that is empty. -/
def withoutLastEmpty (ls : List String) : List String :=
  if ls.getLast? = some "" then ls.dropLast else ls

theorem withoutLastEmpty_eq_self_iff {ls : List String} :
    withoutLastEmpty ls = ls ↔ ls.getLast? ≠ some "" := by
  rw [withoutLastEmpty]
  split
  · next hlast =>
    obtain ⟨init, rfl⟩ := List.getLast?_eq_some_iff.mp hlast
    simp
  · next hlast => simp [hlast]

/-- Lines that are ended and then the lines of the rest. -/
theorem intercalate_append {rest : List (List Char)} (h : rest ≠ []) (ls : List (List Char)) :
    ['\n'].intercalate (ls ++ rest) = ls.flatMap (· ++ ['\n']) ++ ['\n'].intercalate rest := by
  induction ls with
  | nil => rfl
  | cons l ls ih =>
    rw [List.cons_append, List.intercalate_cons_of_ne_nil (by simp [h]), ih, List.flatMap_cons]
    simp only [List.append_assoc]

theorem ended_unlines (ls : List String) : Ended (unlines ls) := by
  rcases List.eq_nil_or_concat' ls with rfl | ⟨init, last, rfl⟩
  · exact .inl rfl
  · right
    rw [toList_unlines, List.map_append, List.flatMap_append, List.map_singleton,
      List.flatMap_singleton, ← List.append_assoc, List.getLast?_concat]

theorem lines_of_newline_not_mem {text : String} (h : '\n' ∉ text.toList) :
    lines text = if text = "" then [] else [text] := by
  rw [lines, linesAfter_of_newline_not_mem h, List.reverse_nil, List.nil_append]
  by_cases htext : text = ""
  · simp [htext]
  · simp [htext]

/-- **Lines that are joined are read again**, but for an empty one at the end. -/
theorem lines_intercalate {ls : List String} (h : ∀ l ∈ ls, IsLine l.toList) :
    lines ("\n".intercalate ls) = withoutLastEmpty ls := by
  rcases List.eq_nil_or_concat' ls with rfl | ⟨init, last, rfl⟩
  · rfl
  · -- all lines but the last are ended, and only that one can be none
    have htext : "\n".intercalate (init ++ [last]) = unlines init ++ last := by
      rw [← String.toList_inj, String.toList_intercalate, String.toList_append, toList_unlines,
        List.map_append]
      exact (intercalate_append (List.cons_ne_nil _ _) _).trans (by simp)
    have hinit : lines (unlines init) = init :=
      lines_unlines fun l hl => h l (List.mem_append_left _ hl)
    have hlast : '\n' ∉ last.toList := (h last (by simp)).oneLine
    rw [htext, lines_append (ended_unlines init), hinit, lines_of_newline_not_mem hlast,
      withoutLastEmpty, List.getLast?_concat]
    by_cases hempty : last = ""
    · simp [hempty]
    · simp [hempty]

/-! ### What lines are like -/

theorem withoutReturn_suffix (line : List Char) : withoutReturn line <:+ line := by
  rw [withoutReturn.eq_def]
  split
  · exact List.suffix_cons _ _
  · exact List.suffix_refl _

theorem newline_not_mem_of_mem_linesAfter {line cs l : List Char} (hline : '\n' ∉ line)
    (h : l ∈ linesAfter line cs) : '\n' ∉ l := by
  induction cs generalizing line with
  | nil =>
    rw [linesAfter] at h
    split at h
    · cases h
    · rw [List.mem_singleton.mp h, List.mem_reverse]
      exact hline
  | cons c cs ih =>
    rw [linesAfter] at h
    split at h
    · rcases List.mem_cons.mp h with rfl | h
      · rw [List.mem_reverse]
        exact fun hmem => hline ((withoutReturn_suffix line).subset hmem)
      · exact ih List.not_mem_nil h
    · next hc => exact ih (by simp [hline, Ne.symm hc]) h

/-- No line holds a newline. -/
theorem newline_not_mem_of_mem_lines {text l : String} (h : l ∈ lines text) : '\n' ∉ l.toList := by
  obtain ⟨cs, hcs, rfl⟩ := List.mem_map.mp h
  rw [String.toList_ofList]
  exact newline_not_mem_of_mem_linesAfter List.not_mem_nil hcs

end ArgumentSchemes.Text
