import ArgumentSchemes.Text.CharClass
import Mathlib.Data.List.DropRight
import Mathlib.Data.List.TakeWhile

/-!
# Trimmed texts and words

A text is **trimmed** when trimming leaves it as it is. Trimming gives a trimmed text
(`trimmed_trim`), and blanks that are put around a trimmed text do not change what trimming gives
(`Trimmed.trim_append`). A **word** is a non-empty text of word characters. No word character is
blank (`isWordChar_eq_false_of_isBlank`), so a word is trimmed, and a word is found again in front
of anything that does not go on with a word character (`spanWord_append_of_all`).
-/

namespace ArgumentSchemes.Text

/-! ### Trimming -/

/-- No blank stands at either end of the text. -/
structure Trimmed (cs : List Char) : Prop where
  start : trimStart cs = cs
  stop : trimEnd cs = cs

theorem trimStart_cons_eq_self_iff {c : Char} {cs : List Char} :
    trimStart (c :: cs) = c :: cs ↔ isBlank c = false := by
  rw [trimStart, List.dropWhile_eq_self_iff]
  simp

theorem trimEnd_concat_eq_self_iff {c : Char} {cs : List Char} :
    trimEnd (cs ++ [c]) = cs ++ [c] ↔ isBlank c = false := by
  change List.rdropWhile isBlank (cs ++ [c]) = cs ++ [c] ↔ _
  rw [List.rdropWhile_eq_self_iff]
  simp

theorem trimStart_trimStart (cs : List Char) : trimStart (trimStart cs) = trimStart cs :=
  List.dropWhile_idempotent isBlank cs

theorem trimEnd_trimEnd (cs : List Char) : trimEnd (trimEnd cs) = trimEnd cs :=
  List.rdropWhile_idempotent isBlank cs

theorem trimStart_suffix (cs : List Char) : trimStart cs <:+ cs := List.dropWhile_suffix _

/-- A beginning of a text that starts with no blank starts with none either. -/
theorem trimStart_eq_self_of_prefix {cs ds : List Char} (h : cs <+: ds)
    (hds : trimStart ds = ds) : trimStart cs = cs := by
  obtain ⟨rest, rfl⟩ := h
  cases cs with
  | nil => rfl
  | cons c cs => exact trimStart_cons_eq_self_iff.mpr (trimStart_cons_eq_self_iff.mp hds)

theorem trimmed_trim (cs : List Char) : Trimmed (trim cs) where
  start := trimStart_eq_self_of_prefix (trimEnd_isPrefix _) (trimStart_trimStart cs)
  stop := trimEnd_trimEnd (trimStart cs)

theorem Trimmed.trim_eq {cs : List Char} (h : Trimmed cs) : trim cs = cs := by
  rw [trim, h.start, h.stop]

/-- What does not begin with a blank keeps everything behind it. -/
theorem trimStart_append_of_ne_nil {cs : List Char} (hne : cs ≠ []) (hcs : trimStart cs = cs)
    (ds : List Char) : trimStart (cs ++ ds) = cs ++ ds := by
  obtain ⟨c, cs, rfl⟩ := List.exists_cons_of_ne_nil hne
  rw [List.cons_append]
  exact trimStart_cons_eq_self_iff.mpr (trimStart_cons_eq_self_iff.mp hcs)

theorem isBlank_of_mem_singleton {c : Char} (h : isBlank c = true) :
    ∀ b ∈ [c], isBlank b = true := by
  simpa using h

theorem isBlank_of_mem_space : ∀ b ∈ [' '], isBlank b = true :=
  isBlank_of_mem_singleton (by decide)

theorem isBlank_of_mem_replicate_space (count : Nat) :
    ∀ b ∈ List.replicate count ' ', isBlank b = true :=
  fun b hb => isBlank_of_mem_space b (by simp [List.eq_of_mem_replicate hb])

/-- Blanks in front of a text go. -/
theorem trimStart_append {bs : List Char} (hbs : ∀ b ∈ bs, isBlank b = true) (cs : List Char) :
    trimStart (bs ++ cs) = trimStart cs :=
  List.dropWhile_append_of_pos hbs

/-- Behind blanks, the first character of a text is found. -/
theorem trimStart_append_cons {bs : List Char} (hbs : ∀ b ∈ bs, isBlank b = true) {c : Char}
    (hc : isBlank c = false) (rest : List Char) : trimStart (bs ++ c :: rest) = c :: rest :=
  (trimStart_append hbs _).trans (trimStart_cons_eq_self_iff.mpr hc)

/-- Blanks behind a text go. -/
theorem trimEnd_append {bs : List Char} (hbs : ∀ b ∈ bs, isBlank b = true) (cs : List Char) :
    trimEnd (cs ++ bs) = trimEnd cs := by
  rw [trimEnd, List.reverse_append,
    List.dropWhile_append_of_pos fun b hb => hbs b (List.mem_reverse.mp hb), trimEnd]

/-- What does not end in a blank keeps everything in front of it. -/
theorem trimEnd_append_of_ne_nil {cs : List Char} (hne : cs ≠ []) (hcs : trimEnd cs = cs)
    (ds : List Char) : trimEnd (ds ++ cs) = ds ++ cs := by
  obtain ⟨cs, c, rfl⟩ := List.eq_nil_or_concat' cs |>.resolve_left hne
  rw [← List.append_assoc]
  exact trimEnd_concat_eq_self_iff.mpr (trimEnd_concat_eq_self_iff.mp hcs)

/-- A text is its trimmed form with blanks behind it. -/
theorem exists_eq_trimEnd_append (cs : List Char) :
    ∃ bs, (∀ b ∈ bs, isBlank b = true) ∧ cs = trimEnd cs ++ bs :=
  ⟨cs.rtakeWhile isBlank, fun _ => List.mem_rtakeWhile_imp,
    (List.rdropWhile_append_rtakeWhile ..).symm⟩

/-- A text is its leading blanks with the text behind them. -/
theorem exists_eq_append_trimStart (cs : List Char) :
    ∃ bs, (∀ b ∈ bs, isBlank b = true) ∧ cs = bs ++ trimStart cs :=
  ⟨cs.takeWhile isBlank, fun _ => List.mem_takeWhile_imp, List.takeWhile_append_dropWhile.symm⟩

/-- What is in front of a text that is not blank stays when the text is trimmed behind. -/
theorem trimEnd_append_eq {cs : List Char} (hne : trimEnd cs ≠ []) (ds : List Char) :
    trimEnd (ds ++ cs) = ds ++ trimEnd cs := by
  obtain ⟨bs, hbs, hcs⟩ := exists_eq_trimEnd_append cs
  calc trimEnd (ds ++ cs) = trimEnd (ds ++ trimEnd cs ++ bs) := by rw [List.append_assoc, ← hcs]
    _ = trimEnd (ds ++ trimEnd cs) := trimEnd_append hbs _
    _ = ds ++ trimEnd cs := trimEnd_append_of_ne_nil hne (trimEnd_trimEnd cs) ds

/-- What stands behind a text that does not end in a blank is trimmed as if it stood alone. -/
theorem trimEnd_append_of_stop {ds : List Char} (hds : trimEnd ds = ds)
    (cs : List Char) : trimEnd (ds ++ cs) = ds ++ trimEnd cs := by
  by_cases h : trimEnd cs = []
  · obtain ⟨bs, hbs, hcs⟩ := exists_eq_trimEnd_append cs
    rw [h, List.nil_append] at hcs
    rw [hcs, trimEnd_append hbs, hds, ← hcs, h, List.append_nil]
  · exact trimEnd_append_eq h ds

/-- Blanks around a trimmed text go. -/
theorem Trimmed.trim_append {cs : List Char} (h : Trimmed cs) (bs bs' : List Char)
    (hbs : ∀ b ∈ bs, isBlank b = true) (hbs' : ∀ b ∈ bs', isBlank b = true) :
    trim (bs ++ cs ++ bs') = cs := by
  rw [trim, List.append_assoc, trimStart_append hbs]
  by_cases hne : cs = []
  · rw [hne, List.nil_append, trimStart, List.dropWhile_eq_nil_iff.mpr hbs', trimEnd_nil]
  · rw [trimStart_append_of_ne_nil hne h.start, trimEnd_append hbs', h.stop]

theorem trim_eq_nil_iff {cs : List Char} : trim cs = [] ↔ ∀ c ∈ cs, isBlank c = true := by
  constructor
  · intro h
    obtain ⟨bs, hbs, hcs⟩ := exists_eq_append_trimStart cs
    obtain ⟨bs', hbs', htrim⟩ := exists_eq_trimEnd_append (trimStart cs)
    rw [show trimEnd (trimStart cs) = [] from h, List.nil_append] at htrim
    rw [hcs, htrim]
    exact List.forall_mem_append.mpr ⟨hbs, hbs'⟩
  · intro h
    rw [trim, trimStart, List.dropWhile_eq_nil_iff.mpr h, trimEnd_nil]

/-- Every character of a trimmed text is one of the text. -/
theorem mem_of_mem_trim {cs : List Char} {c : Char} (h : c ∈ trim cs) : c ∈ cs :=
  (trimStart_suffix cs).subset ((trimEnd_isPrefix _).subset h)

/-! ### Words -/

/-- The blank intervals and the word intervals lie apart. -/
private theorem blankRanges_disjoint_wordRanges :
    ∀ b ∈ blankRanges, ∀ w ∈ wordRanges, b.2 < w.1 ∨ w.2 < b.1 := by
  decide +kernel

theorem isWordChar_eq_false_of_isBlank {c : Char} (h : isBlank c = true) :
    isWordChar c = false := by
  obtain ⟨b, hb, hlow, hhigh⟩ := exists_range_of_inRanges h
  by_contra hw
  obtain ⟨w, hw, hlow', hhigh'⟩ := exists_range_of_inRanges (Bool.not_eq_false _ ▸ hw)
  rcases blankRanges_disjoint_wordRanges b hb w hw with hlt | hlt
  · omega
  · omega

theorem isBlank_eq_false_of_isWordChar {c : Char} (h : isWordChar c = true) :
    isBlank c = false := by
  by_contra hb
  rw [isWordChar_eq_false_of_isBlank (Bool.not_eq_false _ ▸ hb)] at h
  cases h

/-- A non-empty text of word characters. -/
structure IsWord (cs : List Char) : Prop where
  ne_nil : cs ≠ []
  all : ∀ c ∈ cs, isWordChar c = true

theorem IsWord.trimmed {cs : List Char} (h : IsWord cs) : Trimmed cs := by
  obtain ⟨init, last, rfl⟩ := List.eq_nil_or_concat' cs |>.resolve_left h.ne_nil
  constructor
  · obtain ⟨c, rest, hc⟩ := List.exists_cons_of_ne_nil h.ne_nil
    rw [hc]
    exact trimStart_cons_eq_self_iff.mpr
      (isBlank_eq_false_of_isWordChar (h.all c (by rw [hc]; exact List.mem_cons_self)))
  · exact trimEnd_concat_eq_self_iff.mpr
      (isBlank_eq_false_of_isWordChar (h.all last (by simp)))

theorem IsWord.not_mem {cs : List Char} (h : IsWord cs) {c : Char} (hc : isWordChar c = false) :
    c ∉ cs := by
  intro hmem
  rw [h.all c hmem] at hc
  cases hc

/-- A word stands in one line. -/
theorem IsWord.newline_not_mem {cs : List Char} (h : IsWord cs) : '\n' ∉ cs :=
  h.not_mem (by decide)

/-- A text goes on with no word character. -/
def WordEnds (cs : List Char) : Prop := ∀ c ∈ cs.head?, isWordChar c = false

theorem wordEnds_cons {c : Char} (h : isWordChar c = false) (rest : List Char) :
    WordEnds (c :: rest) := by
  intro c' hc
  obtain rfl : c = c' := Option.some.inj hc
  exact h

/-- Blanks are no part of a word. -/
theorem wordEnds_blanks_append {bs : List Char} (hbs : ∀ b ∈ bs, isBlank b = true) {c : Char}
    (hc : isWordChar c = false) (rest : List Char) : WordEnds (bs ++ c :: rest) := by
  cases bs with
  | nil => exact wordEnds_cons hc rest
  | cons b bs =>
    exact wordEnds_cons (isWordChar_eq_false_of_isBlank (hbs b List.mem_cons_self)) _

theorem wordEnds_append {cs ds : List Char} (hcs : WordEnds cs) (hds : WordEnds ds) :
    WordEnds (cs ++ ds) := by
  cases cs with
  | nil => exact hds
  | cons c cs => exact hcs

/-- A beginning of a text that goes on with no word character goes on with none either. -/
theorem wordEnds_of_isPrefix {cs ds : List Char} (h : cs <+: ds) (hds : WordEnds ds) :
    WordEnds cs := by
  obtain ⟨rest, rfl⟩ := h
  cases cs with
  | nil => simp [WordEnds]
  | cons c cs => exact hds

theorem wordEnds_iff {cs : List Char} : WordEnds cs ↔ cs.head?.any isWordChar = false := by
  cases cs <;> simp [WordEnds]

theorem wordEnds_spanWord (cs : List Char) : WordEnds (spanWord cs).2 := by
  intro c hc
  have hhead := List.head?_dropWhile_not isWordChar cs
  rwa [show (cs.dropWhile isWordChar).head? = some c from hc] at hhead

/-- A word is found again in front of anything that ends it. -/
theorem spanWord_append_of_all {word rest : List Char} (hw : ∀ c ∈ word, isWordChar c = true)
    (hr : WordEnds rest) : spanWord (word ++ rest) = (word, rest) := by
  have htake : rest.takeWhile isWordChar = [] := by
    cases rest with
    | nil => rfl
    | cons c rest => simp [hr c rfl]
  have hdrop : rest.dropWhile isWordChar = rest := by
    cases rest with
    | nil => rfl
    | cons c rest => simp [hr c rfl]
  rw [spanWord, List.takeWhile_append_of_pos hw, List.dropWhile_append_of_pos hw, htake, hdrop,
    List.append_nil]

theorem isWordChar_of_mem_spanWord {cs : List Char} {c : Char} (h : c ∈ (spanWord cs).1) :
    isWordChar c = true :=
  List.mem_takeWhile_imp h

theorem isWord_spanWord {cs : List Char} (h : (spanWord cs).1 ≠ []) : IsWord (spanWord cs).1 :=
  ⟨h, fun _ => isWordChar_of_mem_spanWord⟩

end ArgumentSchemes.Text
