import ArgumentSchemes.Proofs.CopiedTexts
import ArgumentSchemes.Proofs.SummaryLines

/-!
# Line breaks that are dropped

A docstring line is written without the line breaks of the documentation tool. They are dropped in
one pass, from left to right, and what is left is not searched again. A break cannot lie across
another one, so all those of the text go; but what stood on the two sides of a break comes together,
and a backslash on the left makes a new one with an `n` on the right.

Main statement: a line for the title or for a line of the summary holds a break exactly when its
text has a backslash and an `n` with nothing but breaks between them
(`dropped_break_survives_iff`).
-/

namespace ArgumentSchemes.Emit

open Text
open Header (Checker)

/-- The line break of the documentation tool: a backslash and an `n` in a row. -/
def lineBreak : List Char := ['\\', 'n']

/-- The given number of line breaks in a row. -/
def lineBreaks (count : Nat) : List Char := (List.replicate count lineBreak).flatten

/-- A backslash and an `n` come together somewhere in the text: line breaks stand between them, and
nothing else. -/
def FormsBreak (text : List Char) : Prop :=
  ∃ count front back, text = front ++ '\\' :: (lineBreaks (count + 1) ++ 'n' :: back)

/-! ### One pass over a text -/

theorem lineBreaks_succ (count : Nat) : lineBreaks (count + 1) = '\\' :: 'n' :: lineBreaks count :=
  rfl

theorem FormsBreak.append {text : List Char} (h : FormsBreak text) (front : List Char) :
    FormsBreak (front ++ text) := by
  obtain ⟨count, front', back, rfl⟩ := h
  exact ⟨count, front ++ front', back, (List.append_assoc ..).symm⟩

/-- A character is kept unless a break begins with it. -/
theorem dropBreaks_cons {c : Char} {cs : List Char} (h : c = '\\' → cs.head? ≠ some 'n') :
    dropBreaks (c :: cs) = c :: dropBreaks cs := by
  refine dropBreaks.eq_2 c cs fun rest hc hcs => ?_
  rw [hcs] at h
  exact h hc rfl

/-- **A text can be cut** in front of every character but an `n`, the only one that belongs together
with what stands in front of it. -/
theorem dropBreaks_append_cons {c : Char} (hc : c ≠ 'n') (xs ys : List Char) :
    dropBreaks (xs ++ c :: ys) = dropBreaks xs ++ dropBreaks (c :: ys) := by
  fun_induction dropBreaks xs with
  | case1 rest ih => exact ih
  | case2 x rest hkept ih =>
    have hhead : x = '\\' → (rest ++ c :: ys).head? ≠ some 'n' := by
      intro hx
      cases rest with
      | nil => simpa using hc
      | cons x' rest => simpa using fun hx' : x' = 'n' => hkept rest hx (by rw [hx'])
    rw [List.cons_append, dropBreaks_cons hhead, ih, List.cons_append]
  | case3 => rfl

theorem dropBreaks_lineBreaks_append (count : Nat) (cs : List Char) :
    dropBreaks (lineBreaks count ++ cs) = dropBreaks cs := by
  induction count with
  | zero => rfl
  | succ count ih => exact ih

/-- Only breaks are dropped in front of the first character that is kept. -/
theorem exists_eq_of_dropBreaks_eq_cons {cs rest : List Char} {c : Char}
    (h : dropBreaks cs = c :: rest) : ∃ count back, cs = lineBreaks count ++ c :: back := by
  fun_induction dropBreaks cs with
  | case1 more ih =>
    obtain ⟨count, back, rfl⟩ := ih h
    exact ⟨count + 1, back, rfl⟩
  | case2 x more hkept ih =>
    obtain ⟨rfl, -⟩ := List.cons.inj h
    exact ⟨0, more, rfl⟩
  | case3 => cases h

/-- What a text forms stands in it when its own breaks are dropped. -/
theorem FormsBreak.infix_dropBreaks {cs : List Char} (h : FormsBreak cs) :
    lineBreak <:+: dropBreaks cs := by
  obtain ⟨count, front, back, rfl⟩ := h
  have hn : dropBreaks ('n' :: back) = 'n' :: dropBreaks back :=
    dropBreaks_cons fun hc => absurd hc (by decide)
  have hbackslash : dropBreaks ('\\' :: (lineBreaks (count + 1) ++ 'n' :: back)) =
      '\\' :: 'n' :: dropBreaks back := by
    rw [lineBreaks_succ, List.cons_append, dropBreaks_cons (by simp), ← List.cons_append,
      ← lineBreaks_succ, dropBreaks_lineBreaks_append, hn]
  refine ⟨dropBreaks front, dropBreaks back, ?_⟩
  rw [dropBreaks_append_cons (by decide), hbackslash, lineBreak, List.append_assoc]
  rfl

/-- **A break is left** exactly where a text forms one. -/
theorem infix_dropBreaks_iff {cs : List Char} : lineBreak <:+: dropBreaks cs ↔ FormsBreak cs := by
  refine ⟨fun h => ?_, FormsBreak.infix_dropBreaks⟩
  fun_induction dropBreaks cs with
  | case1 rest ih => exact (ih h).append lineBreak
  | case2 c rest hkept ih =>
    rcases List.infix_cons_iff.mp h with hhere | hrest
    · -- the backslash is kept here, and an `n` is the first character that is kept behind it
      obtain ⟨rfl, more, hmore⟩ := List.cons_prefix_cons.mp hhere
      obtain ⟨count, back, rfl⟩ := exists_eq_of_dropBreaks_eq_cons hmore.symm
      cases count with
      | zero => exact (hkept back rfl rfl).elim
      | succ count => exact ⟨count, [], back, rfl⟩
    · exact (ih hrest).append [c]
  | case3 => simp [lineBreak] at h

instance (cs : List Char) : Decidable (FormsBreak cs) := decidable_of_iff _ infix_dropBreaks_iff

/-! ### The lines of a docstring -/

theorem isBlank_eq_false_of_mem_lineBreak : ∀ c ∈ lineBreak, isBlank c = false :=
  List.forall_mem_cons.mpr ⟨by decide, List.forall_mem_singleton.mpr (by decide)⟩

/-- A line of the docstring holds a break exactly when its text forms one. -/
theorem infix_docstringLine_iff {text : String} :
    lineBreak <:+: (docstringLine text).toList ↔ FormsBreak text.toList := by
  have hcount : occurrences lineBreak (docstringLine text).toList =
      occurrences lineBreak (dropBreaks text.toList) :=
    occurrences_docstringLine (by decide) isBlank_eq_false_of_mem_lineBreak text
  rw [← infix_dropBreaks_iff, ← not_iff_not, ← occurrences_eq_zero_iff, ← occurrences_eq_zero_iff,
    hcount]

/-- **Line breaks in a docstring.** The wrapper of a scheme with entries documents it with one line
for the title and one for each line of the summary. Such a line holds a line break of the
documentation tool exactly when a backslash and an `n` stand in its text with nothing but such
breaks, and at least one, between them. -/
theorem dropped_break_survives_iff {s : Scheme} (hne : s.entries ≠ []) :
    ∃ w, wrapper s = .ok w ∧ w = unlines (wrapperLinesWith s s.summaryLines) ∧
      (∀ text ∈ s.title :: s.summaryLines,
        (lineBreak <:+: (docstringLine text).toList ↔ FormsBreak text.toList)) ∧
      ((∀ line ∈ (s.title :: s.summaryLines).map docstringLine, ¬ lineBreak <:+: line.toList) ↔
        ∀ text ∈ s.title :: s.summaryLines, ¬ FormsBreak text.toList) := by
  refine ⟨_, wrapper_eq hne, by rw [wrapperLines_eq_with], fun _ _ => infix_docstringLine_iff, ?_⟩
  simp only [List.forall_mem_map, infix_docstringLine_iff]

/-- Breaks at both ends and in a row, backslashes in front of one, and a tab in the place of the
character behind it. -/
theorem dropped_break_survives_iff_backslashes :
    let text := "/// Input arguments \\\\n of f\\n [fIn]\n/// \\n\\n a\\\\n\tn \\\n" ++
      "enum fIn \x7b\n/// the x [x]\nF_X,\n\x7d;"
    let s : Scheme :=
      { role := .input, name := "fIn", title := "Input arguments \\\\n of f\\n"
        summary := "\\n\\n a\\\\n\tn \\", group := "fIn", entries := [⟨"x", "the x", "F_X"⟩] }
    .ok s ∈ Checker.parse {} text ∧ s.entries ≠ [] ∧ ∃ w, wrapper s = .ok w ∧
      (s.title :: s.summaryLines).map docstringLine =
        ["  Input arguments \\ of f", "   a\\\tn \\"] ∧
      ∀ line ∈ (s.title :: s.summaryLines).map docstringLine, ¬ lineBreak <:+: line.toList := by
  intro text s
  have hne : s.entries ≠ [] := List.cons_ne_nil _ _
  obtain ⟨w, hw, -, -, hlines⟩ := dropped_break_survives_iff hne
  exact ⟨by decide +kernel, hne, w, hw, by decide +kernel, hlines.mpr (by decide +kernel)⟩

/-- **A dropped break can leave another one behind**, where a backslash stands in front of it and an
`n` behind it. -/
theorem dropped_break_forms_another :
    let text := "/// Input arguments of f\\\\nn [fIn]\nenum fIn \x7b\n/// the x [x]\nF_X,\n\x7d;\n"
    let s : Scheme :=
      { role := .input, name := "fIn", title := "Input arguments of f\\\\nn", summary := ""
        group := "fIn", entries := [⟨"x", "the x", "F_X"⟩] }
    .ok s ∈ Checker.parse {} text ∧ docstringLine s.title = "  Input arguments of f\\n" ∧
      lineBreak <:+: (docstringLine s.title).toList ∧
      wrapper s = .ok ("def fIn(x=[]):\n  \"\"\"\n  Helper function for 'fIn'\n\n" ++
        "  Input arguments of f\\n\n\n  Keyword arguments:\n    x -- the x [F_X]\n  \"\"\"\n" ++
        "  return [x]\n") := by
  intro text s
  exact ⟨by decide +kernel, by decide +kernel, by decide +kernel, by decide +kernel⟩

end ArgumentSchemes.Emit
