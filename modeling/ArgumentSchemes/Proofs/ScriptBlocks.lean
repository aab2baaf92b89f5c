import ArgumentSchemes.Proofs.CopiedTexts

/-!
# The script blocks of the binding interface

A reader of the binding interface knows a script block by its marks alone: it begins behind a line
`%pythoncode %{` and goes up to the first `%}` (`scriptBlocks`). The mark that closes a block is not
kept out of what is copied into a docstring, so the title, the lines of the summary and the
documentation of the entries decide whether a wrapper is found whole (`closing_infix_wrapper_iff`).

Main statement: for accepted schemes there is one block each, and the blocks are the wrappers
exactly when none of the copied texts holds the closing mark (`script_blocks_give_wrappers_iff`).
-/

namespace ArgumentSchemes

namespace Emit

open Text
open Header (Checker Printable printable_of_mem_parse)

/-! ### Reading script blocks -/

/-- The line that opens a script block. -/
def scriptOpening : String := "%pythoncode %\x7b"

/-- The mark that closes a script block. -/
def scriptClosing : List Char := ['%', '\x7d']

/-- What stands behind each line that opens a script block, as far as the next closing mark, if
there is one. -/
def blocksIn : List (List Char) → List (Option (List Char))
  | [] => []
  | l :: rest =>
    if l = scriptOpening.toList then
      (cutChars? scriptClosing (['\n'].intercalate rest)).map (·.1) :: blocksIn rest
    else blocksIn rest

/-- The **script blocks** of a text. -/
def scriptBlocks (text : String) : List (Option String) :=
  (blocksIn (text.toList.splitOn '\n')).map (Option.map String.ofList)

/-- A text that is written line by line is split into its lines and an empty one. -/
theorem splitOn_flatMap {ls : List (List Char)} (h : ∀ l ∈ ls, '\n' ∉ l) :
    (ls.flatMap (· ++ ['\n'])).splitOn '\n' = ls ++ [[]] := by
  have htext : ls.flatMap (· ++ ['\n']) = ['\n'].intercalate (ls ++ [[]]) := by
    rw [intercalate_append (List.cons_ne_nil _ _)]
    simp
  rw [htext, List.splitOn_intercalate]
  · intro l hl
    rcases List.mem_append.mp hl with hl | hl
    · exact h l hl
    · rw [List.mem_singleton.mp hl]
      exact List.not_mem_nil
  · simp

theorem blocksIn_append {ls : List (List Char)} (h : scriptOpening.toList ∉ ls)
    (rest : List (List Char)) : blocksIn (ls ++ rest) = blocksIn rest := by
  induction ls with
  | nil => rfl
  | cons l ls ih =>
    rw [List.mem_cons, not_or] at h
    rw [List.cons_append, blocksIn, if_neg (Ne.symm h.1), ih h.2]

/-! ### The lines of the binding interface -/

/-- The lines behind the wrapper of a scheme, as far as the next one. -/
def linesBehindWrapper (b : BindingSettings) (s : Scheme) : List String :=
  "%\x7d" :: "#ifndef SWIGPYTHON" :: bindingLines b s ++ ["#endif //SWIGPYTHON"]

/-- The lines of the block of a scheme. -/
def blockLines (b : BindingSettings) (s : Scheme) : List String :=
  scriptOpening :: wrapperLines s ++ linesBehindWrapper b s

/-- The lines in front of the blocks. -/
def firstLines : List String :=
  ["/** All edits to this file will be lost - autogenerated by schemegen */",
    "%include \"casadi/autogenerated.hpp\""]

theorem blockText_eq (b : BindingSettings) (s : Scheme) :
    blockText b s = unlines (blockLines b s) := by
  unfold blockText blockLines linesBehindWrapper scriptOpening
  simp [← String.toList_inj, toList_unlines]

/-- The binding interface is the lines in front of the blocks and then the lines of the blocks. -/
theorem bindingFile_eq (schemes : List Scheme) :
    ArtifactOptions.bindingFile {} (schemes.map (blockText {})) =
      unlines (firstLines ++ schemes.flatMap (blockLines {})) := by
  have hfirst : ArtifactOptions.bindingFile {} (schemes.map (blockText {})) =
      unlines firstLines ++ String.join (schemes.map (blockText {})) := rfl
  rw [hfirst, ← String.toList_inj]
  simp [toList_unlines, String.toList_join, blockText_eq, List.flatMap_map, List.flatMap_assoc,
    List.map_flatMap]

section Accepted

variable {checker : Checker} {s : Scheme} (h : Printable checker s)

include h

theorem newline_not_mem_of_mem_blockLines {l : String} (hl : l ∈ blockLines {} s) :
    '\n' ∉ l.toList := by
  rw [blockLines, List.mem_append, List.mem_cons] at hl
  rcases hl with (rfl | hl) | hl
  · decide
  · exact (isLine_of_mem_wrapperLines h hl).oneLine
  · simp only [linesBehindWrapper, List.mem_append, List.mem_cons, List.not_mem_nil,
      or_false] at hl
    rcases hl with (rfl | rfl | hl) | rfl
    · decide
    · decide
    · exact (isLine_of_mem_bindingLines h (by decide) (by decide) hl).oneLine
    · decide

end Accepted

theorem scriptOpening_not_mem_wrapperLines (s : Scheme) : scriptOpening ∉ wrapperLines s := by
  intro h
  rw [wrapperLines, List.mem_append, List.mem_cons, List.mem_singleton] at h
  rcases h with (h | h) | h
  · unfold headLine at h
    simpa [scriptOpening, toString] using congrArg (·.toList.head?) h
  · rcases eq_empty_or_indented h with h | ⟨cs, h⟩
    · exact absurd h (by decide)
    · exact absurd (congrArg List.head? h) (by simp [scriptOpening])
  · unfold returnLine at h
    simpa [scriptOpening, toString] using congrArg (·.toList.head?) h

theorem scriptOpening_not_mem_linesBehindWrapper (b : BindingSettings) (s : Scheme) :
    scriptOpening ∉ linesBehindWrapper b s := by
  intro h
  simp only [linesBehindWrapper, bindingLines, List.mem_append, List.mem_map, List.mem_cons,
    List.not_mem_nil, or_false] at h
  rcases h with (h | h | (h | ⟨type, -, h⟩) | h) | h
  · exact absurd h (by decide)
  · exact absurd h (by decide)
  · simpa [scriptOpening, toString] using congrArg (·.toList.head?) h
  · unfold templateLine at h
    simpa [scriptOpening, toString] using congrArg (·.toList.take 2) h
  · exact absurd h (by decide)
  · exact absurd h (by decide)

theorem scriptOpening_not_mem_map {ls : List String} (h : scriptOpening ∉ ls) :
    scriptOpening.toList ∉ ls.map String.toList := by
  intro hmem
  obtain ⟨l, hl, heq⟩ := List.mem_map.mp hmem
  exact h (String.toList_inj.mp heq ▸ hl)

/-- Behind the line that opens the block of a scheme comes the wrapper, and then the closing
mark. -/
theorem blocksIn_blockLines (b : BindingSettings) (s : Scheme) (rest : List (List Char)) :
    ∃ behind, blocksIn ((blockLines b s).map String.toList ++ rest) =
      (cutChars? scriptClosing ((unlines (wrapperLines s)).toList ++ scriptClosing ++ behind)).map
        (·.1) :: blocksIn rest := by
  have hclosing : (linesBehindWrapper b s).map String.toList ++ rest =
      scriptClosing :: "#ifndef SWIGPYTHON".toList ::
        ((bindingLines b s ++ ["#endif //SWIGPYTHON"]).map String.toList ++ rest) := rfl
  rw [blockLines, List.map_append, List.append_assoc, List.map_cons, List.cons_append, blocksIn,
    if_pos rfl, blocksIn_append (scriptOpening_not_mem_map (scriptOpening_not_mem_wrapperLines s)),
    blocksIn_append (scriptOpening_not_mem_map (scriptOpening_not_mem_linesBehindWrapper b s)),
    hclosing, intercalate_append (List.cons_ne_nil _ _), ← toList_unlines,
    List.intercalate_cons_cons, List.append_assoc scriptClosing,
    ← List.append_assoc _ scriptClosing]
  exact ⟨_, rfl⟩

/-! ### The closing mark in a wrapper -/

theorem foreign_scriptClosing : Foreign scriptClosing :=
  ⟨by decide, List.any_eq_false.mp (by decide)⟩

/-- **The closing mark in a wrapper** comes from a text that is copied into the docstring. -/
theorem closing_infix_wrapper_iff {checker : Checker} {s : Scheme} (h : Printable checker s) :
    scriptClosing <:+: (unlines (wrapperLines s)).toList ↔
      ∃ text ∈ copiedTexts s, scriptClosing <:+: text := by
  have hquotes : occurrences scriptClosing quotesLine.toList = 0 := by decide
  have hcount := occurrences_wrapper h foreign_scriptClosing
  rw [hquotes, Nat.mul_zero, Nat.zero_add] at hcount
  rw [← not_iff_not, ← occurrences_eq_zero_iff, hcount, sum_occurrences_eq_zero_iff]
  simp only [not_exists, not_and]

/-! ### The blocks of accepted schemes -/

/-- Each scheme has its block among those behind its lines. -/
theorem forall₂_blocksIn {schemes : List Scheme}
    (h : ∀ s ∈ schemes, ∃ checker, Printable checker s) :
    List.Forall₂
      (fun block s => block = some (unlines (wrapperLines s)).toList ↔
        ∀ text ∈ copiedTexts s, ¬ scriptClosing <:+: text)
      (blocksIn ((schemes.flatMap (blockLines {})).map String.toList ++ [[]])) schemes := by
  induction schemes with
  | nil => exact .nil
  | cons s schemes ih =>
    obtain ⟨checker, hprintable⟩ := h s List.mem_cons_self
    obtain ⟨behind, hblocks⟩ := blocksIn_blockLines {} s
      ((schemes.flatMap (blockLines {})).map String.toList ++ [[]])
    -- a wrapper ends in a newline, so no mark begins in it and ends behind it
    have hlast : ∀ c ∈ (unlines (wrapperLines s)).toList.getLast?,
        c ∉ scriptClosing.dropLast := by
      rw [toList_unlines, wrapperLines, List.map_append, List.flatMap_append, List.map_singleton,
        List.flatMap_singleton, ← List.append_assoc, List.getLast?_concat]
      rintro _ ⟨⟩
      decide
    rw [List.flatMap_cons, List.map_append, List.append_assoc, hblocks]
    refine .cons ?_ (ih fun s hs => h s (List.mem_cons_of_mem _ hs))
    rw [map_fst_cutChars?_iff, cutChars?_append_iff (by decide) hlast behind,
      closing_infix_wrapper_iff hprintable]
    simp only [not_exists, not_and]

/-- **Each accepted scheme has its script block**, which is its wrapper exactly when no text that is
copied into the docstring holds the closing mark. -/
theorem forall₂_scriptBlocks {schemes : List Scheme}
    (h : ∀ s ∈ schemes, ∃ checker, Printable checker s) :
    List.Forall₂
      (fun block s => block = some (unlines (wrapperLines s)) ↔
        ∀ text ∈ copiedTexts s, ¬ scriptClosing <:+: text)
      (scriptBlocks (ArtifactOptions.bindingFile {} (schemes.map (blockText {})))) schemes := by
  have hfirst : scriptOpening.toList ∉ firstLines.map String.toList := by decide
  have hlines : ∀ l ∈ (firstLines ++ schemes.flatMap (blockLines {})).map String.toList,
      '\n' ∉ l := by
    intro cs hcs
    obtain ⟨l, hl, rfl⟩ := List.mem_map.mp hcs
    rcases List.mem_append.mp hl with hl | hl
    · exact (show ∀ l ∈ firstLines, '\n' ∉ l.toList by decide) l hl
    · obtain ⟨s, hs, hl⟩ := List.mem_flatMap.mp hl
      obtain ⟨checker, hprintable⟩ := h s hs
      exact newline_not_mem_of_mem_blockLines hprintable hl
  rw [scriptBlocks, bindingFile_eq, toList_unlines, splitOn_flatMap hlines, List.map_append,
    List.append_assoc, blocksIn_append hfirst, List.forall₂_map_left_iff]
  refine (forall₂_blocksIn h).imp fun block s hblock => ?_
  rw [← hblock, Option.map_eq_some_iff]
  constructor
  · rintro ⟨cs, rfl, hcs⟩
    rw [← hcs, String.toList_ofList]
  · rintro rfl
    exact ⟨_, rfl, String.ofList_toList⟩

theorem eq_map_iff_of_forall₂ {α β : Type} {f : β → α} {p : β → Prop} {xs : List α} {ys : List β}
    (h : List.Forall₂ (fun x y => x = f y ↔ p y) xs ys) : xs = ys.map f ↔ ∀ y ∈ ys, p y := by
  induction h with
  | nil => simp
  | cons hxy _ ih => simp [hxy, ih]

/-- **The script blocks give back the wrappers** of accepted schemes exactly when no text that is
copied into a docstring holds the closing mark. There is one block each, in any case. -/
theorem script_blocks_give_wrappers_iff {schemes : List Scheme}
    (h : ∀ s ∈ schemes,
      (∃ (checker : Checker) (text : String), .ok s ∈ checker.parse text) ∧ s.entries ≠ []) :
    ∃ (a : Artifacts) (wrappers : List String),
      assemble schemes {} {} = .ok a ∧
      List.Forall₂ (fun w s => wrapper s = .ok w) wrappers schemes ∧
      (scriptBlocks a.binding).length = schemes.length ∧
      (scriptBlocks a.binding = wrappers.map some ↔
        ∀ s ∈ schemes, ∀ text ∈ copiedTexts s, ¬ scriptClosing <:+: text) := by
  have hprintable : ∀ s ∈ schemes, ∃ checker, Printable checker s := by
    intro s hs
    obtain ⟨⟨checker, text, htext⟩, -⟩ := h s hs
    exact ⟨checker, printable_of_mem_parse htext⟩
  have hblocks := forall₂_scriptBlocks hprintable
  refine ⟨_, schemes.map fun s => unlines (wrapperLines s),
    assemble_eq (fun s hs => (h s hs).2) {} {}, ?_, hblocks.length_eq, ?_⟩
  · rw [List.forall₂_map_left_iff, List.forall₂_same]
    exact fun s hs => wrapper_eq (h s hs).2
  · rw [List.map_map]
    exact eq_map_iff_of_forall₂ hblocks

/-- A scheme of a header with percent signs and braces in its texts, none of them a closing mark,
also not after the line break of the documentation tool is dropped from the summary. -/
theorem script_blocks_give_wrappers_iff_percent :
    let text := "/// Input arguments % \x7d [fIn]\n/// %\x7b 5%\\n\nenum fIn \x7b\n" ++
      "/// %\\n\x7d [x]\nX,\n\x7d;"
    let s : Scheme :=
      { role := .input, name := "fIn", title := "Input arguments % \x7d", summary := "%\x7b 5%\\n"
        group := "fIn", entries := [⟨"x", "%\\n\x7d", "X"⟩] }
    .ok s ∈ Checker.parse {} text ∧
      (∀ text ∈ copiedTexts s, ¬ scriptClosing <:+: text) ∧
      ∃ (a : Artifacts) (wrappers : List String),
        assemble [s] {} {} = .ok a ∧ List.Forall₂ (fun w s => wrapper s = .ok w) wrappers [s] ∧
        scriptBlocks a.binding = wrappers.map some := by
  intro text s
  have haccepted : .ok s ∈ Checker.parse {} text := by decide +kernel
  have hcopied : ∀ text ∈ copiedTexts s, ¬ scriptClosing <:+: text := by decide +kernel
  have hs : ∀ t ∈ [s],
      (∃ (checker : Checker) (text : String), .ok t ∈ checker.parse text) ∧ t.entries ≠ [] := by
    intro t ht
    rw [List.mem_singleton.mp ht]
    exact ⟨⟨{}, text, haccepted⟩, List.cons_ne_nil _ _⟩
  obtain ⟨a, wrappers, hassemble, hwrappers, -, hblocks⟩ := script_blocks_give_wrappers_iff hs
  refine ⟨haccepted, hcopied, a, wrappers, hassemble, hwrappers, hblocks.mpr fun t ht => ?_⟩
  rw [List.mem_singleton.mp ht]
  exact hcopied

/-- **Documentation can end its script block**: here the wrapper of an accepted scheme is not what
stands up to the closing mark. -/
theorem documentation_ends_script_block :
    let text := "/// Input arguments [fIn]\nenum fIn \x7b\n/// 5 %\x7d [x]\nX,\n\x7d;"
    let s : Scheme :=
      { role := .input, name := "fIn", title := "Input arguments", summary := "", group := "fIn"
        entries := [⟨"x", "5 %\x7d", "X"⟩] }
    .ok s ∈ Checker.parse {} text ∧ s.entries ≠ [] ∧
      ∃ (a : Artifacts) (w : String),
        assemble [s] {} {} = .ok a ∧ wrapper s = .ok w ∧ scriptBlocks a.binding ≠ [some w] := by
  intro text s
  have haccepted : .ok s ∈ Checker.parse {} text := by decide +kernel
  have hentries : s.entries ≠ [] := List.cons_ne_nil _ _
  have hprintable : ∀ t ∈ [s], ∃ checker, Printable checker t := by
    intro t ht
    rw [List.mem_singleton.mp ht]
    exact ⟨{}, printable_of_mem_parse haccepted⟩
  have hblocks := forall₂_scriptBlocks hprintable
  refine ⟨haccepted, hentries, _, _, assemble_eq (by simp [s]) {} {},
    wrapper_eq hentries, fun hwhole => ?_⟩
  have hcopied : "5 %\x7d".toList ∈ copiedTexts s :=
    List.mem_append_right _ (List.mem_map.mpr ⟨_, List.mem_cons_self, rfl⟩)
  have hfree := (eq_map_iff_of_forall₂ hblocks).mp hwhole s List.mem_cons_self
  exact hfree _ hcopied ⟨"5 ".toList, [], rfl⟩

end Emit

end ArgumentSchemes
