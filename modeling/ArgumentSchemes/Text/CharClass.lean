import ArgumentSchemes.Text.WordRanges

/-!
# Blank and word characters

Two classes of characters decide how an annotation line reads. The **blank** characters are the
25 code points with the `White_Space` property; the **word** characters are those listed in
`wordRanges`. Both are given by an increasing list of closed intervals of code points, and
`inRanges` looks a code point up in such a list.

Main statement: a character that is found lies in one of the intervals
(`exists_range_of_inRanges`).
-/

namespace ArgumentSchemes.Text

/-- Whether a code point lies in one of the given intervals, which come in increasing order: the
search ends at the first interval that starts above it. -/
def inRanges (n : Nat) : List (Nat × Nat) → Bool
  | [] => false
  | (low, high) :: rest => if n < low then false else if n ≤ high then true else inRanges n rest

theorem exists_range_of_inRanges {n : Nat} {ranges : List (Nat × Nat)}
    (h : inRanges n ranges = true) : ∃ r ∈ ranges, r.1 ≤ n ∧ n ≤ r.2 := by
  induction ranges with
  | nil => simp [inRanges] at h
  | cons r rest ih =>
    obtain ⟨low, high⟩ := r
    simp only [inRanges] at h
    split at h
    · simp at h
    · split at h
      · exact ⟨(low, high), by simp, by simp; omega, by simpa⟩
      · obtain ⟨r, hr, hn⟩ := ih h
        exact ⟨r, List.mem_cons_of_mem _ hr, hn⟩

/-! ### Blank characters -/

/-- The code points with the `White_Space` property. -/
def blankRanges : List (Nat × Nat) :=
  [(0x09, 0x0D), (0x20, 0x20), (0x85, 0x85), (0xA0, 0xA0), (0x1680, 0x1680), (0x2000, 0x200A),
   (0x2028, 0x2029), (0x202F, 0x202F), (0x205F, 0x205F), (0x3000, 0x3000)]

/-- Whether a character is **blank**. -/
def isBlank (c : Char) : Bool := inRanges c.toNat blankRanges

/-- The text without its leading blanks. -/
def trimStart (cs : List Char) : List Char := cs.dropWhile isBlank

/-- The text without its trailing blanks. -/
def trimEnd (cs : List Char) : List Char := (cs.reverse.dropWhile isBlank).reverse

/-- The text without its leading and trailing blanks. -/
def trim (cs : List Char) : List Char := trimEnd (trimStart cs)

@[simp] theorem trimStart_nil : trimStart [] = [] := rfl

@[simp] theorem trimEnd_nil : trimEnd [] = [] := rfl

@[simp] theorem trim_nil : trim [] = [] := rfl

/-- Dropping trailing blanks keeps a beginning of the text. -/
theorem trimEnd_isPrefix (cs : List Char) : trimEnd cs <+: cs := by
  have h : (cs.reverse.dropWhile isBlank).reverse <+: cs.reverse.reverse :=
    List.reverse_prefix.2 (List.dropWhile_suffix _)
  simpa [trimEnd] using h

/-! ### Word characters -/

/-- Whether a character may stand in a **word**. -/
def isWordChar (c : Char) : Bool := inRanges c.toNat wordRanges

/-- The word that a text begins with, which may be empty, and the rest of the text. -/
def spanWord (cs : List Char) : List Char × List Char :=
  (cs.takeWhile isWordChar, cs.dropWhile isWordChar)

@[simp] theorem spanWord_append (cs : List Char) : (spanWord cs).1 ++ (spanWord cs).2 = cs :=
  List.takeWhile_append_dropWhile

/-- The text after `start`, when it begins with it. -/
def afterPrefix? (start cs : List Char) : Option (List Char) :=
  if start.isPrefixOf cs then some (cs.drop start.length) else none

theorem afterPrefix?_eq_some_iff {start cs rest : List Char} :
    afterPrefix? start cs = some rest ↔ cs = start ++ rest := by
  simp only [afterPrefix?, List.isPrefixOf_iff_prefix]
  constructor
  · intro h
    split at h
    · rename_i hp
      obtain ⟨t, rfl⟩ := hp
      simpa using h
    · simp at h
  · rintro rfl
    simp

end ArgumentSchemes.Text
