import ArgumentSchemes.Proofs.ParameterLists

/-!
# The lines of a summary

The plain documentation right behind an opening line goes into the summary, one line for each. The
scheme holds the summary as one text, with newlines between the lines, and takes it apart again when
a target writes it. A line of documentation is trimmed, so it comes back as it was, also when it is
empty. The exception is an empty line at the end: the text ends in a newline then, behind which
there is no line (`Region.summaryLines_scheme`).

Main statement: a target documents a helper with one line for each line of the summary exactly when
the last of these is not empty (`summary_lines_written_iff`).
-/

namespace ArgumentSchemes

open Text

namespace Header

/-- The lines of a summary come back from the text that a scheme holds. -/
theorem Region.summaryLines_scheme {r : Region} (h : r.WellFormed) :
    r.scheme.summaryLines = withoutLastEmpty r.summary := by
  refine lines_intercalate fun text htext => ?_
  have hdoc := (isDocText_summaryOf (fun line hline => h line (List.mem_cons_of_mem _ hline))
    text htext).1
  exact isLine_of_trimEnd hdoc.oneLine hdoc.trimmed.stop

end Header

namespace Emit

open Header (Checker Region Printable kinds exists_region_of_mem_parse)

/-- The lines of a native helper that is documented with the title of the scheme and the lines
`summary`. -/
def nativeLinesWith (s : Scheme) (summary : List String) : List String :=
  s!"/// Helper function for '{s.group}'" :: docLine s.title :: summary.map docLine ++
    "///" :: s!"/// \\copydoc scheme_{s.group}" :: nativeBody s

/-- The lines of a wrapper that is documented with the title of the scheme and the lines
`summary`. -/
def wrapperLinesWith (s : Scheme) (summary : List String) : List String :=
  headLine s :: "  \"\"\"" :: s!"  Helper function for '{s.group}'" :: "" ::
    docstringLine s.title :: summary.map docstringLine ++
      "" :: "  Keyword arguments:" :: s.entries.map (keywordLine s.widestArgName) ++
        ["  \"\"\"", returnLine s]

theorem nativeLines_eq_with (s : Scheme) : nativeLines s = nativeLinesWith s s.summaryLines := by
  simp [nativeLines, nativeDoc, nativeLinesWith]

theorem wrapperLines_eq_with (s : Scheme) :
    wrapperLines s = wrapperLinesWith s s.summaryLines := by
  simp [wrapperLines, docstring, wrapperLinesWith]

/-- Where each line of a summary has a line of its own, an empty one at the end is missed. -/
theorem with_withoutLastEmpty_iff {linesWith : List String → List String} {others : Nat}
    (hlength : ∀ summary, (linesWith summary).length = summary.length + others)
    (summary : List String) :
    linesWith (withoutLastEmpty summary) = linesWith summary ↔ summary.getLast? ≠ some "" := by
  constructor
  · -- one line less is written than there are
    intro heq hlast
    obtain ⟨init, rfl⟩ := List.getLast?_eq_some_iff.mp hlast
    have hcount := congrArg List.length heq
    rw [hlength, hlength, withoutLastEmpty, if_pos hlast, List.dropLast_concat,
      List.length_append, List.length_singleton] at hcount
    omega
  · intro hlast
    rw [withoutLastEmpty_eq_self_iff.mpr hlast]

theorem length_nativeLinesWith (s : Scheme) (summary : List String) :
    (nativeLinesWith s summary).length = summary.length + 9 := by
  simp [nativeLinesWith, nativeBody]

theorem length_wrapperLinesWith (s : Scheme) (summary : List String) :
    (wrapperLinesWith s summary).length = summary.length + (s.entries.length + 9) := by
  simp [wrapperLinesWith]
  omega

/-- **The summary of an accepted scheme** has the lines of plain documentation right behind the
opening line, in order, without the last one if that is empty. The documentation of the native
helper and the docstring of the wrapper have one line for each line of the summary, and so they have
one for each line of the header exactly when the last of these is not empty. -/
theorem summary_lines_written_iff {checker : Checker} {text : String} {s : Scheme}
    (h : .ok s ∈ checker.parse text) :
    ∃ (r : Region) (before behind : List Header.Line),
      r.StandsIn (kinds text) before behind ∧ s = r.scheme ∧
        s.summaryLines = withoutLastEmpty r.summary ∧
        (s.summaryLines = r.summary ↔ r.summary.getLast? ≠ some "") ∧
      (s.entries ≠ [] → ∃ helper function,
        native s = .ok helper ∧ wrapper s = .ok function ∧
          lines helper = nativeLinesWith s s.summaryLines ∧
          lines function = wrapperLinesWith s s.summaryLines ∧
          (lines helper = nativeLinesWith s r.summary ↔ r.summary.getLast? ≠ some "") ∧
          (lines function = wrapperLinesWith s r.summary ↔ r.summary.getLast? ≠ some "")) := by
  obtain ⟨r, before, behind, hstands, -, rfl⟩ := exists_region_of_mem_parse h
  have hprintable := Header.printable_of_mem_parse h
  have hsummary := Region.summaryLines_scheme hstands.wellFormed
  have hnative : lines (unlines (nativeLines r.scheme)) =
      nativeLinesWith r.scheme r.scheme.summaryLines := by
    rw [lines_native hprintable, nativeLines_eq_with]
  have hwrapper : lines (unlines (wrapperLines r.scheme)) =
      wrapperLinesWith r.scheme r.scheme.summaryLines := by
    rw [lines_wrapper hprintable, wrapperLines_eq_with]
  refine ⟨r, before, behind, hstands, rfl, hsummary, ?_, fun hne => ?_⟩
  · rw [hsummary]
    exact withoutLastEmpty_eq_self_iff
  · refine ⟨_, _, native_eq hne, wrapper_eq hne, hnative, hwrapper, ?_, ?_⟩
    · rw [hnative, hsummary]
      exact with_withoutLastEmpty_iff (length_nativeLinesWith r.scheme) r.summary
    · rw [hwrapper, hsummary]
      exact with_withoutLastEmpty_iff (length_wrapperLinesWith r.scheme) r.summary

/-- Empty lines in front and between, a carriage return in a line, and a line that the wrapper
empties. -/
theorem summary_lines_written_iff_blanks :
    let text := "/// Input arguments of f [fIn]\n///\n///a\rb  \n/// \n///\n/// \\n\n" ++
      "enum fIn \x7b\n/// the x [x]\nF_X,\n\x7d;"
    let s : Scheme :=
      { role := .input, name := "fIn", title := "Input arguments of f"
        summary := "\na\rb\n\n\n\\n", group := "fIn", entries := [⟨"x", "the x", "F_X"⟩] }
    .ok s ∈ Checker.parse {} text ∧ s.summaryLines = ["", "a\rb", "", "", "\\n"] ∧
      ∃ helper function, native s = .ok helper ∧ wrapper s = .ok function ∧
        lines helper = nativeLinesWith s ["", "a\rb", "", "", "\\n"] ∧
        lines function = wrapperLinesWith s ["", "a\rb", "", "", "\\n"] := by
  intro text s
  have htext : .ok s ∈ Checker.parse {} text := by decide +kernel
  obtain ⟨r, before, behind, hstands, -, -, hsummary, htargets⟩ := summary_lines_written_iff htext
  have hsegments : Header.segments 1 (kinds text) =
      [.closed ⟨1, .input, "Input arguments of f", "fIn",
        [.doc "", .doc "a\rb", .doc "", .doc "", .doc "\\n", .enumHeader "fIn",
          .entryDoc "the x" "x", .enumEntry "F_X"]⟩] := by decide +kernel
  have hr := hstands.mem_segments
  rw [hsegments, List.mem_singleton] at hr
  obtain rfl := Header.Segment.closed.inj hr
  have hlast : some "\\n" ≠ some "" := by decide
  obtain ⟨helper, function, hnative, hwrapper, -, -, hhelper, hfunction⟩ :=
    htargets (List.cons_ne_nil _ _)
  exact ⟨htext, hsummary.mpr hlast, helper, function, hnative, hwrapper, hhelper.mpr hlast,
    hfunction.mpr hlast⟩

/-- **A line of a summary can get lost**: the last one, when it is empty. -/
theorem last_summary_line_lost :
    let text := "/// Input arguments of f [fIn]\n/// does f\n///\nenum fIn \x7b\n/// the x [x]\n" ++
      "F_X,\n\x7d;\n"
    let s : Scheme :=
      { role := .input, name := "fIn", title := "Input arguments of f", summary := "does f\n"
        group := "fIn", entries := [⟨"x", "the x", "F_X"⟩] }
    .ok s ∈ Checker.parse {} text ∧
      kinds text =
        [.schemeStart .input "Input arguments of f" "fIn", .doc "does f", .doc "",
          .enumHeader "fIn", .entryDoc "the x" "x", .enumEntry "F_X", .terminator] ∧
      s.summaryLines = ["does f"] := by
  decide +kernel

end Emit

end ArgumentSchemes
