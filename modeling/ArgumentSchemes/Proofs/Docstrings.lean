import ArgumentSchemes.Proofs.CopiedTexts

/-!
# The docstring of a wrapper

A reader of the script language knows a docstring by its quotes alone: it begins behind the first
three in a row and goes up to the next three (`readDocstring?`). Behind the head of a wrapper the
first ones are those that open the docstring. The next ones are those that close it, unless the
title, the summary or the documentation of an entry holds three quotes in a row, of its own or
because a line break of the documentation tool is dropped between them: nothing keeps these out.

Main statement: a wrapper has the quotes of its docstring and no others, and the docstring is found
whole, exactly when no copied text holds three quotes in a row (`docstring_whole_iff`).
-/

namespace ArgumentSchemes.Emit

open Text
open Header (Checker Printable printable_of_mem_parse)

/-- The mark that opens and closes a docstring. -/
def tripleQuote : String := "\"\"\""

/-- What stands in front of the docstring of a function, what stands in it and what stands behind
it. -/
structure DocstringReading where
  front : String
  inside : String
  behind : String
deriving DecidableEq, Repr

/-- The docstring in a function. -/
def readDocstring? (text : String) : Option DocstringReading := do
  let (front, rest) ← cutAt? tripleQuote text
  let (inside, behind) ← cutAt? tripleQuote rest
  return { front, inside, behind }

/-- The wrapper of a scheme with its whole docstring set apart: the head of the function is in front
of it, and nothing but the line that returns behind it. -/
def docstringReading (s : Scheme) : DocstringReading where
  front := headLine s ++ "\n  "
  inside := "\n" ++ unlines (docstringBody s) ++ "  "
  behind := "\n" ++ returnLine s ++ "\n"

theorem foreign_tripleQuote : Foreign tripleQuote.toList :=
  ⟨by decide, List.any_eq_false.mp (by decide)⟩

/-- A wrapper is its docstring between quotes with the two lines of code around it. -/
theorem unlines_wrapperLines (s : Scheme) :
    unlines (wrapperLines s) =
      (docstringReading s).front ++ tripleQuote ++
        ((docstringReading s).inside ++ tripleQuote ++ (docstringReading s).behind) := by
  rw [← String.toList_inj]
  simp [wrapperLines, docstring_eq, docstringReading, quotesLine, tripleQuote, toList_unlines]

section Accepted

variable {checker : Checker} {s : Scheme} (h : Printable checker s)

include h

/-- The first quotes of a wrapper are those that open the docstring. -/
theorem cutAt?_front (rest : String) :
    cutAt? tripleQuote ((docstringReading s).front ++ tripleQuote ++ rest) =
      some ((docstringReading s).front, rest) := by
  have hfront : IsFrame (docstringReading s).front.toList := by
    rw [docstringReading, String.toList_append, isFrame_append]
    exact ⟨isFrame_headLine h, by decide⟩
  refine cutAt?_append (m := '"') (fun hquote => ?_) tripleQuote (by decide) rest
  exact absurd (hfront _ hquote) (by decide)

/-- Between the quotes there are others as often as in the copied texts. -/
theorem occurrences_inside :
    occurrences tripleQuote.toList (docstringReading s).inside.toList =
      ((copiedTexts s).map (occurrences tripleQuote.toList)).sum := by
  rw [docstringReading, String.toList_append, String.toList_append, List.append_assoc,
    foreign_tripleQuote.occurrences_between (by decide) (by decide),
    occurrences_docstringBody h foreign_tripleQuote]

/-- **The docstring of a wrapper** is found whole when no copied text holds three quotes. -/
theorem readDocstring?_wrapper_iff :
    readDocstring? (unlines (wrapperLines s)) = some (docstringReading s) ↔
      ∀ text ∈ copiedTexts s, ¬ tripleQuote.toList <:+: text := by
  -- the docstring ends in the indentation of its last line, so no quotes go over its end
  have hlast : ∀ c ∈ (docstringReading s).inside.toList.getLast?,
      c ∉ tripleQuote.toList.dropLast := by
    have hspaces : (docstringReading s).inside.toList.getLast? = some ' ' := by
      rw [docstringReading, String.toList_append, List.getLast?_append_of_ne_nil _ (by decide)]
      decide
    rw [hspaces]
    rintro _ ⟨⟩
    decide
  rw [← sum_occurrences_eq_zero_iff, ← occurrences_inside h, occurrences_eq_zero_iff,
    ← cutAt?_append_iff (by decide) hlast (docstringReading s).behind, readDocstring?,
    unlines_wrapperLines, cutAt?_front h]
  simp only [Option.bind_eq_bind, Option.bind_some]
  rcases hcut : cutAt? tripleQuote ((docstringReading s).inside ++ tripleQuote ++
    (docstringReading s).behind) with _ | ⟨inside, behind⟩
  · simp
  · simp [docstringReading]

end Accepted

/-- **Three quotes in a row** stand in the wrapper of an accepted scheme at the two ends of its
docstring, and once for every place where a copied text holds them. The first and the second place
are the ends of the whole docstring exactly when there are no others. -/
theorem docstring_whole_iff {checker : Checker} {text : String} {s : Scheme}
    (h : .ok s ∈ checker.parse text) (hne : s.entries ≠ []) :
    ∃ w, wrapper s = .ok w ∧
      occurrences tripleQuote.toList w.toList =
        2 + ((copiedTexts s).map (occurrences tripleQuote.toList)).sum ∧
      (occurrences tripleQuote.toList w.toList = 2 ↔
        ∀ text ∈ copiedTexts s, ¬ tripleQuote.toList <:+: text) ∧
      (readDocstring? w = some (docstringReading s) ↔
        ∀ text ∈ copiedTexts s, ¬ tripleQuote.toList <:+: text) := by
  have hprintable := printable_of_mem_parse h
  have hquotes : occurrences tripleQuote.toList quotesLine.toList = 1 := by decide
  have hcount := occurrences_wrapper hprintable foreign_tripleQuote
  rw [hquotes, Nat.mul_one] at hcount
  refine ⟨_, wrapper_eq hne, hcount, ?_, readDocstring?_wrapper_iff hprintable⟩
  rw [hcount, ← sum_occurrences_eq_zero_iff]
  omega

/-- Quotes that are not three in a row, also not after a line break of the documentation tool is
dropped between them. -/
theorem docstring_whole_iff_two_quotes :
    let text := "/// Input arguments \"\" of \"f\" [fIn]\n/// \"\\n\"\nenum fIn \x7b\n" ++
      "/// \"\"\\n\" [x]\nX,\n\x7d;"
    let s : Scheme :=
      { role := .input, name := "fIn", title := "Input arguments \"\" of \"f\""
        summary := "\"\\n\"", group := "fIn", entries := [⟨"x", "\"\"\\n\"", "X"⟩] }
    .ok s ∈ Checker.parse {} text ∧ s.entries ≠ [] ∧ ∃ w, wrapper s = .ok w ∧
      occurrences tripleQuote.toList w.toList = 2 ∧
        readDocstring? w =
          some { front := "def fIn(x=[]):\n  "
                 inside := "\n  Helper function for 'fIn'\n\n  Input arguments \"\" of \"f\"\n" ++
                   "  \"\"\n\n  Keyword arguments:\n    x -- \"\"\\n\" [X]\n  "
                 behind := "\n  return [x]\n" } := by
  intro text s
  have htext : .ok s ∈ Checker.parse {} text := by decide +kernel
  have hne : s.entries ≠ [] := List.cons_ne_nil _ _
  have hcopied : ∀ text ∈ copiedTexts s, ¬ tripleQuote.toList <:+: text := by decide +kernel
  obtain ⟨w, hw, -, hcount, hread⟩ := docstring_whole_iff htext hne
  refine ⟨htext, hne, w, hw, hcount.mpr hcopied, (hread.mpr hcopied).trans ?_⟩
  decide +kernel

/-- **Documentation can end its docstring**: the summary holds three quotes here, and all behind
them stands outside of the docstring. -/
theorem documentation_ends_docstring :
    let text := "/// Input arguments of f [fIn]\n/// a \"\"\" b\nenum fIn \x7b\n/// the x [x]\n" ++
      "X,\n\x7d;\n"
    let s : Scheme :=
      { role := .input, name := "fIn", title := "Input arguments of f"
        summary := "a \"\"\" b", group := "fIn", entries := [⟨"x", "the x", "X"⟩] }
    .ok s ∈ Checker.parse {} text ∧ s.entries ≠ [] ∧ ∃ w, wrapper s = .ok w ∧
      occurrences tripleQuote.toList w.toList = 3 ∧
        readDocstring? w ≠ some (docstringReading s) := by
  intro text s
  have htext : .ok s ∈ Checker.parse {} text := by decide +kernel
  have hne : s.entries ≠ [] := List.cons_ne_nil _ _
  have hprintable := printable_of_mem_parse htext
  refine ⟨htext, hne, _, wrapper_eq hne, ?_, fun hwhole => ?_⟩
  · rw [occurrences_wrapper hprintable foreign_tripleQuote]
    decide +kernel
  · have hcopied : "a \"\"\" b".toList ∈ copiedTexts s := by decide +kernel
    exact (readDocstring?_wrapper_iff hprintable).mp hwhole _ hcopied
      ⟨"a ".toList, " b".toList, rfl⟩

end ArgumentSchemes.Emit
