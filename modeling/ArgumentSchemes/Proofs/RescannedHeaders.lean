import ArgumentSchemes.Proofs.Accounting
import ArgumentSchemes.Proofs.Layout
import ArgumentSchemes.Proofs.TargetLines

/-!
# Generated headers that are read again

A native header that is moved, or that was written for other outputs, lies among the headers of a
later run. Nothing in it closes a scheme (`classify_ne_terminator_of_mem_nativeLines`), and of its
lines only a copied title can open one: the tag of the annotation is not copied, but a title may end
in a tag of its own, and the marker in front of it is still there (`classify_docLine_tagged`).

Main statement: a native header gives no item, unless a title ends in a tag; then it leaves open a
scheme that is called like the first such tag (`parse_generated_header`).
-/

namespace ArgumentSchemes

namespace Header

open Text

/-! ### Lines that open or close nothing -/

theorem segments_append {before : List Line} (h : ∀ line ∈ before, line.isOpening = false)
    (number : Nat) (ls : List Line) :
    segments number (before ++ ls) = segments (number + before.length) ls := by
  induction before generalizing number with
  | nil => rfl
  | cons line before ih =>
    have hline : line.isOpening = false := h line List.mem_cons_self
    rw [List.cons_append, segments_cons hline, ih fun l hl => h l (List.mem_cons_of_mem _ hl),
      List.length_cons]
    congr 1
    omega

/-- Without an opening line there are no segments. -/
theorem segments_eq_nil {ls : List Line} (h : ∀ line ∈ ls, line.isOpening = false)
    (number : Nat) : segments number ls = [] := by
  have hsegments := segments_append h number []
  rw [List.append_nil] at hsegments
  rw [hsegments, segments]

/-- Without a terminator the first opening line leaves its scheme open. -/
theorem segments_opening {rest : List Line} (h : .terminator ∉ rest) (number : Nat) (role : Role)
    (title name : String) :
    segments number (.schemeStart role title name :: rest) =
      [.unclosed ⟨number, role, title, name, rest⟩] := by
  have hsplit := splitAtTerminator?_eq_none_iff.mpr h
  rw [segments]
  split
  · next hsome => rw [hsplit] at hsome; cases hsome
  · rfl

namespace Line

theorem ofComment_ne_terminator (cs : List Char) : ofComment cs ≠ terminator := by
  rw [ofComment]
  split
  · simp only
    split
    · exact Line.noConfusion
    · split <;> exact Line.noConfusion
  · split <;> exact Line.noConfusion

/-- Documentation without a tag opens nothing. -/
theorem isOpening_ofComment {cs : List Char} (h : splitTag? cs = none) :
    (ofComment cs).isOpening = false := by
  rw [ofComment, h]
  simp only
  split <;> rfl

theorem isOpening_ofCode (cs : List Char) : (ofCode cs).isOpening = false := by
  rw [ofCode.eq_def]
  split
  · split <;> rfl
  · split
    · rfl
    · split <;> rfl

/-- Only a closing brace can begin a terminator. -/
theorem ofCode_ne_terminator {c : Char} (hc : c ≠ '\x7d') (cs : List Char) :
    ofCode (c :: cs) ≠ terminator := by
  rw [ofCode.eq_def]
  split
  · next heq => exact absurd (List.cons.inj heq).1 hc
  · split
    · exact Line.noConfusion
    · split <;> exact Line.noConfusion

/-- A line that opens and closes nothing. -/
structure Inert (line : Line) : Prop where
  isOpening : line.isOpening = false
  ne_terminator : line ≠ terminator

instance (line : Line) : Decidable line.Inert :=
  decidable_of_iff (line.isOpening = false ∧ line ≠ terminator)
    ⟨fun h => ⟨h.1, h.2⟩, fun h => ⟨h.isOpening, h.ne_terminator⟩⟩

/-- Code is inert when it does not begin like a terminator. -/
theorem inert_of_code {front : String} (rest : String) {c : Char}
    (h : (trimStart front.toList).head? = some c) (hslash : c ≠ '/') (hbrace : c ≠ '\x7d') :
    (classify (front ++ rest)).Inert := by
  obtain ⟨cs, hcs⟩ := List.head?_eq_some_iff.mp h
  have hblank : isBlank c = false :=
    trimStart_cons_eq_self_iff.mp (hcs ▸ trimStart_trimStart front.toList)
  have hchars : trimStart (front ++ rest).toList = c :: (cs ++ rest.toList) := by
    rw [trimStart] at hcs
    rw [String.toList_append, trimStart, List.dropWhile_append, hcs]
    rfl
  have hcode : classify (front ++ rest) = ofCode (c :: (cs ++ rest.toList)) := by
    rw [classify, ← ofChars_cons hblank hslash, ← hchars]
    simp only [ofChars, trimStart_trimStart]
  rw [hcode]
  exact ⟨isOpening_ofCode _, ofCode_ne_terminator hbrace _⟩

/-- Documentation that does not end in a bracket is inert. -/
theorem inert_of_getLast? {l : String} {cs : List Char} {last : Char}
    (h : l.toList = '/' :: '/' :: '/' :: (cs ++ [last])) (hblank : isBlank last = false)
    (hbracket : last ≠ ']') : (classify l).Inert := by
  have htag : splitTag? (cs ++ [last]) = none := by
    rw [Option.eq_none_iff_forall_ne_some]
    rintro ⟨before, tag⟩ hsome
    obtain ⟨hchars, -⟩ := splitTag?_eq_some_iff.mp hsome
    rw [trimEnd_concat_eq_self_iff.mpr hblank, ← List.cons_append, ← List.append_assoc] at hchars
    exact hbracket (List.singleton_inj.mp (List.append_inj' hchars rfl).2)
  rw [classify, h, ofChars_slashes]
  exact ⟨isOpening_ofComment htag, ofComment_ne_terminator _⟩

end Line

/-! ### Lines that are ended -/

/-- A newline behind a last line adds no line. -/
theorem map_ofChars_linesAfter_append_newline (line : List Char) {cs : List Char}
    (hne : line ≠ [] ∨ cs ≠ []) (hcs : cs.getLast? ≠ some '\n') :
    (linesAfter line (cs ++ ['\n'])).map Line.ofChars = (linesAfter line cs).map Line.ofChars := by
  induction cs generalizing line with
  | nil =>
    have hline : line ≠ [] := hne.resolve_right fun h => h rfl
    have hreturn := Line.ofChars_withoutReturn line.reverse
    rw [List.reverse_reverse] at hreturn
    simp [linesAfter, hline, hreturn]
  | cons c cs ih =>
    rw [List.cons_append, linesAfter, linesAfter]
    split
    · next hc =>
      have hrest : cs ≠ [] := by
        rintro rfl
        exact hcs (by simp [hc])
      rw [List.map_cons, List.map_cons, ih [] (.inr hrest)]
      rwa [List.getLast?_cons_of_ne_nil hrest] at hcs
    · next hc =>
      refine ih (c :: line) (.inl (List.cons_ne_nil _ _)) ?_
      cases cs with
      | nil => simp
      | cons d cs => rwa [List.getLast?_cons_cons] at hcs

/-- The lines of a text say the same when the last one is ended. -/
theorem kinds_append_newline_of_getLast? {text : String} (hne : text ≠ "")
    (htext : text.toList.getLast? ≠ some '\n') : kinds (text ++ "\n") = kinds text := by
  have hchars := map_ofChars_linesAfter_append_newline []
    (.inr fun h => hne (String.toList_eq_nil_iff.mp h)) htext
  have hkinds : ∀ text : String, kinds text = (linesAfter [] text.toList).map Line.ofChars := by
    intro text
    simp [kinds, lines, Line.classify, Function.comp_def]
  rw [hkinds, hkinds, String.toList_append, ← hchars]
  rfl

/-- What is separated by newlines has no other lines. -/
theorem mem_of_mem_linesAfter_intercalate {ls : List (List Char)} (h : ∀ l ∈ ls, IsLine l)
    {l : List Char} (hl : l ∈ linesAfter [] (['\n'].intercalate ls)) : l ∈ ls := by
  induction ls with
  | nil => simp [linesAfter] at hl
  | cons first ls ih =>
    have hfirst : IsLine first := h first List.mem_cons_self
    cases ls with
    | nil =>
      rw [List.intercalate_singleton, linesAfter_of_newline_not_mem hfirst.oneLine] at hl
      split at hl
      · cases hl
      · simpa using hl
    | cons next ls =>
      rw [List.intercalate_cons_cons, List.append_assoc, List.singleton_append,
        linesAfter_append hfirst.oneLine, List.append_nil, hfirst.withoutReturn_reverse,
        List.reverse_reverse, List.mem_cons] at hl
      rcases hl with rfl | hl
      · exact List.mem_cons_self
      · exact List.mem_cons_of_mem _ (ih (fun l' hl' => h l' (List.mem_cons_of_mem _ hl')) hl)

theorem kinds_append {a : String} (ha : Ended a) (b : String) :
    kinds (a ++ b) = kinds a ++ kinds b := by
  rw [kinds, lines_append ha, List.map_append, kinds, kinds]

/-! ### Titles with a tag of their own -/

/-- The text ends in the word `tag` in brackets. -/
def EndsInTag (text tag : String) : Prop :=
  IsWord tag.toList ∧ ∃ before, text = before ++ "[" ++ tag ++ "]"

/-- The tag of a trimmed text. -/
theorem endsInTag_iff {text tag : String} (h : Trimmed text.toList) :
    EndsInTag text tag ↔ ∃ before, splitTag? text.toList = some (before, tag.toList) := by
  simp only [splitTag?_eq_some_iff, h.stop]
  constructor
  · rintro ⟨hword, before, rfl⟩
    exact ⟨before.toList, by simp, hword⟩
  · rintro ⟨before, htext, hword⟩
    refine ⟨hword, String.ofList before, ?_⟩
    rw [← String.toList_inj, htext]
    simp

theorem splitTag?_eq_none_of_forall {text : String} (h : Trimmed text.toList)
    (hnot : ∀ tag, ¬ EndsInTag text tag) : splitTag? text.toList = none := by
  rw [Option.eq_none_iff_forall_ne_some]
  rintro ⟨before, tag⟩ hsome
  exact hnot (String.ofList tag) ((endsInTag_iff h).mpr ⟨before, by simpa using hsome⟩)

/-- The marker of a title stands in front of its tag, and is still one when the tag is taken off. -/
theorem markerRole?_trim_of_splitTag? {cs before tag : List Char} {role : Role}
    (hrole : markerRole? cs = some role) (htag : splitTag? cs = some (before, tag)) :
    markerRole? (trim before) = some role := by
  obtain ⟨rest, rfl, hends⟩ := markerRole?_eq_some_iff.mp hrole
  rw [splitTag?_append (bracket_not_mem_marker role), Option.map_eq_some_iff] at htag
  obtain ⟨⟨behind, tag'⟩, hrest, hparts⟩ := htag
  obtain ⟨rfl, rfl⟩ := Prod.mk.inj hparts
  obtain ⟨-, bs, -, rfl⟩ := splitTag?_eq_some_iff_blanks.mp hrest
  rw [trim_marker_append, markerRole?_eq_some_iff]
  -- what remains behind the marker begins like what stood there
  have hprefix : trimEnd behind <+: behind ++ '[' :: (tag' ++ ']' :: bs) :=
    (trimEnd_isPrefix behind).trans (List.prefix_append behind _)
  exact ⟨trimEnd behind, rfl, wordEnds_of_isPrefix hprefix hends⟩

end Header

namespace Emit

open Text
open Header (Checker Line EndsInTag IsDocText Printable kinds markerRole? printable_of_mem_parse
  splitTag?)

/-! ### The lines of a native header -/

/-- A copied text is read as documentation with a blank in front of it. -/
theorem classify_docLine {text : String} (h : IsDocText text) :
    Line.classify (docLine text) = Line.ofComment (' ' :: text.toList) := by
  obtain ⟨blanks, hblanks, hchars⟩ := exists_eq_trimEnd_append (' ' :: text.toList)
  have hline : '\n' ∉ blanks := fun hmem => by
    have hmem' : '\n' ∈ ' ' :: text.toList := hchars ▸ List.mem_append_right _ hmem
    simp [h.oneLine] at hmem'
  rw [Line.classify, toList_docLine, Line.ofChars_slashes,
    ← Line.ofComment_append_blanks hblanks hline, ← hchars]

theorem inert_docLine {text : String} (h : IsDocText text) (htag : splitTag? text.toList = none) :
    (Line.classify (docLine text)).Inert := by
  rw [classify_docLine h, Line.ofComment_untagged h htag]
  exact ⟨rfl, Line.noConfusion⟩

/-- **A copied title with a tag** opens a scheme that is called like the tag. -/
theorem classify_docLine_tagged {title tag : String} {role : Role} (h : IsDocText title)
    (hrole : markerRole? title.toList = some role) (htag : EndsInTag title tag) :
    ∃ text, Line.classify (docLine title) = .schemeStart role text tag := by
  obtain ⟨before, hsplit⟩ := (Header.endsInTag_iff h.trimmed).mp htag
  obtain ⟨hchars, hword⟩ := Header.splitTag?_eq_some_iff.mp hsplit
  rw [h.trimmed.stop] at hchars
  have hspaced : splitTag? (' ' :: title.toList) = some (' ' :: before, tag.toList) := by
    rw [← List.singleton_append, Header.splitTag?_append (by decide), hsplit]
    rfl
  have htrim : trim (' ' :: before) = trim before :=
    congrArg trimEnd (trimStart_append isBlank_of_mem_space before)
  have hline : '\n' ∉ trim before := fun hmem =>
    h.oneLine (hchars ▸ List.mem_append_left _ (mem_of_mem_trim hmem))
  have hmarked := Header.markerRole?_trim_of_splitTag? hrole hsplit
  refine ⟨String.ofList (trim before), ?_⟩
  rw [classify_docLine h, Line.ofComment, hspaced]
  simp only [htrim, hline, hmarked, if_false, String.ofList_toList]

/-- The line in front of the title of a native helper. -/
def groupLine (s : Scheme) : String := s!"/// Helper function for '{s.group}'"

/-- The lines behind the title of a native helper. -/
def linesBehindTitle (s : Scheme) : List String :=
  s.summaryLines.map docLine ++ ["///", s!"/// \\copydoc scheme_{s.group}"] ++ nativeBody s

theorem nativeLines_eq (s : Scheme) :
    nativeLines s = groupLine s :: docLine s.title :: linesBehindTitle s := by
  unfold nativeLines nativeDoc groupLine linesBehindTitle
  simp only [List.map_cons, List.cons_append, List.nil_append]

theorem inert_groupLine (s : Scheme) : (Line.classify (groupLine s)).Inert := by
  have hchars : (groupLine s).toList =
      '/' :: '/' :: '/' :: (" Helper function for '".toList ++ s.group.toList ++ ['\'']) := by
    unfold groupLine
    simp [toString]
  exact Line.inert_of_getLast? hchars (by decide) (by decide)

theorem inert_of_mem_nativeBody {s : Scheme} {l : String} (h : l ∈ nativeBody s) :
    (Line.classify l).Inert := by
  simp only [nativeBody, List.mem_cons, List.not_mem_nil, or_false] at h
  rcases h with rfl | rfl | rfl | rfl | rfl
  · decide +kernel
  · simp only [String.append_assoc]
    exact Line.inert_of_code (c := 's') _ (by decide) (by decide) (by decide)
  · simp only [String.append_assoc]
    exact Line.inert_of_code (c := 'M') _ (by decide) (by decide) (by decide)
  · simp only [String.append_assoc]
    exact Line.inert_of_code (c := 'r') _ (by decide) (by decide) (by decide)
  · decide +kernel

theorem inert_copydocLine {group : String} (h : IsWord group.toList) :
    (Line.classify s!"/// \\copydoc scheme_{group}").Inert := by
  obtain ⟨init, last, hgroup⟩ := (List.eq_nil_or_concat' group.toList).resolve_left h.ne_nil
  have hlast : isWordChar last = true := h.all last (by simp [hgroup])
  have hchars : (s!"/// \\copydoc scheme_{group}").toList =
      '/' :: '/' :: '/' :: (" \\copydoc scheme_".toList ++ init ++ [last]) := by
    simp [toString, hgroup]
  refine Line.inert_of_getLast? hchars (isBlank_eq_false_of_isWordChar hlast) ?_
  rintro rfl
  exact absurd hlast (by decide)

theorem mem_pieces_of_mem_summaryLines {checker : Checker} {s : Scheme} (h : Printable checker s)
    {text : String} (htext : text ∈ s.summaryLines) : text ∈ Header.pieces s.summary := by
  have hpieces : ∀ l ∈ (Header.pieces s.summary).map String.toList, IsLine l := by
    intro l hl
    obtain ⟨piece, hpiece, rfl⟩ := List.mem_map.mp hl
    have hdoc := (h.summary piece hpiece).1
    exact isLine_of_trimEnd hdoc.oneLine hdoc.trimmed.stop
  rw [Scheme.summaryLines, lines, ← Header.intercalate_pieces s.summary,
    String.toList_intercalate] at htext
  obtain ⟨l, hl, rfl⟩ := List.mem_map.mp htext
  obtain ⟨piece, hpiece, rfl⟩ :=
    List.mem_map.mp (Header.mem_of_mem_linesAfter_intercalate hpieces hl)
  rwa [String.ofList_toList]

theorem inert_of_mem_linesBehindTitle {checker : Checker} {s : Scheme} (h : Printable checker s)
    {l : String} (hl : l ∈ linesBehindTitle s) : (Line.classify l).Inert := by
  simp only [linesBehindTitle, List.mem_append, List.mem_map, List.mem_cons, List.not_mem_nil,
    or_false] at hl
  rcases hl with (⟨text, htext, rfl⟩ | rfl | rfl) | hl
  · obtain ⟨hdoc, htag⟩ := h.summary text (mem_pieces_of_mem_summaryLines h htext)
    exact inert_docLine hdoc htag
  · decide
  · exact inert_copydocLine h.group
  · exact inert_of_mem_nativeBody hl

/-- No line of a native helper closes a scheme. -/
theorem classify_ne_terminator_of_mem_nativeLines {checker : Checker} {s : Scheme}
    (h : Printable checker s) {l : String} (hl : l ∈ nativeLines s) :
    Line.classify l ≠ .terminator := by
  rw [nativeLines_eq, List.mem_cons, List.mem_cons] at hl
  rcases hl with rfl | rfl | hl
  · exact (inert_groupLine s).ne_terminator
  · rw [classify_docLine h.title]
    exact Line.ofComment_ne_terminator _
  · exact (inert_of_mem_linesBehindTitle h hl).ne_terminator

/-- No line of a native helper opens a scheme when the title has no tag. -/
theorem isOpening_of_mem_nativeLines {checker : Checker} {s : Scheme} (h : Printable checker s)
    (htag : ∀ tag, ¬ EndsInTag s.title tag) {l : String} (hl : l ∈ nativeLines s) :
    (Line.classify l).isOpening = false := by
  rw [nativeLines_eq, List.mem_cons, List.mem_cons] at hl
  rcases hl with rfl | rfl | hl
  · exact (inert_groupLine s).isOpening
  · have hnone := Header.splitTag?_eq_none_of_forall h.title.trimmed htag
    exact (inert_docLine h.title hnone).isOpening
  · exact (inert_of_mem_linesBehindTitle h hl).isOpening

/-! ### The lines of the whole header -/

/-- The lines of a native header in front of the helpers, as far as they are fixed. -/
def linesBeforeHelpers : List String :=
  ["/** All edits to this file will be lost - autogenerated by schemegen */",
    "#ifndef AUTOGENERATED_HPP", "#define AUTOGENERATED_HPP", "#include <vector>",
    "namespace CasADi\x7b"]

/-- The lines of a native header behind the helpers. -/
def linesBehindHelpers : List String := ["\x7d", "#endif //AUTOGENERATED_HPP"]

/-- The banner of a native header. -/
def banner (license : String) : String :=
  if license.isEmpty || license.toList.getLast? == some '\n' then license else license ++ "\n"

theorem ended_banner (license : String) : Ended (banner license) := by
  rw [banner]
  split
  · next h => simpa [Ended] using h
  · exact .inr (by simp)

theorem kinds_banner (license : String) : kinds (banner license) = kinds license := by
  rw [banner]
  split
  · rfl
  · next h =>
    simp only [Bool.or_eq_true, String.isEmpty_iff, beq_iff_eq, not_or] at h
    exact Header.kinds_append_newline_of_getLast? h.1 h.2

theorem nativeFile_eq (license : String) (schemes : List Scheme) :
    ArtifactOptions.nativeFile { license } (schemes.map fun s => unlines (nativeLines s)) =
      banner license ++
        unlines (linesBeforeHelpers ++ schemes.flatMap nativeLines ++ linesBehindHelpers) := by
  have hfile : ArtifactOptions.nativeFile { license }
      (schemes.map fun s => unlines (nativeLines s)) =
        banner license ++ unlines [linesBeforeHelpers.head (by decide)] ++
          unlines linesBeforeHelpers.tail ++
            String.join (schemes.map fun s => unlines (nativeLines s)) ++
              unlines linesBehindHelpers := rfl
  rw [hfile, ← String.toList_inj]
  simp [toList_unlines, String.toList_join, List.flatMap_map, List.flatMap_assoc,
    List.map_flatMap, linesBeforeHelpers]

/-- **The lines of a native header**, read one by one. -/
theorem kinds_nativeFile {schemes : List Scheme}
    (h : ∀ s ∈ schemes, ∃ checker, Printable checker s) (license : String) :
    kinds (ArtifactOptions.nativeFile { license } (schemes.map fun s => unlines (nativeLines s))) =
      kinds license ++ (linesBeforeHelpers ++ schemes.flatMap nativeLines ++
        linesBehindHelpers).map Line.classify := by
  have hlines : ∀ l ∈ linesBeforeHelpers ++ schemes.flatMap nativeLines ++ linesBehindHelpers,
      IsLine l.toList := by
    intro l hl
    simp only [List.mem_append, List.mem_flatMap] at hl
    rcases hl with (hl | ⟨s, hs, hl⟩) | hl
    · have hall : ∀ l ∈ linesBeforeHelpers, IsLine l.toList := by decide
      exact hall l hl
    · obtain ⟨checker, hprintable⟩ := h s hs
      exact isLine_of_mem_nativeLines hprintable hl
    · have hall : ∀ l ∈ linesBehindHelpers, IsLine l.toList := by decide
      exact hall l hl
  rw [nativeFile_eq, Header.kinds_append (ended_banner license), kinds_banner]
  simp only [kinds, lines_unlines hlines]

theorem inert_of_mem_linesBeforeHelpers :
    ∀ l ∈ linesBeforeHelpers, (Line.classify l).Inert := by
  decide +kernel

theorem inert_of_mem_linesBehindHelpers :
    ∀ l ∈ linesBehindHelpers, (Line.classify l).Inert := by
  decide +kernel

/-! ### Reading it again -/

/-- If some title ends in a tag, one of them is the first. -/
theorem exists_first_tagged {schemes : List Scheme}
    (h : ¬ ∀ s ∈ schemes, ∀ tag, ¬ EndsInTag s.title tag) :
    ∃ before s behind tag, schemes = before ++ s :: behind ∧
      (∀ s' ∈ before, ∀ tag', ¬ EndsInTag s'.title tag') ∧ EndsInTag s.title tag := by
  classical
  rcases hfind : schemes.find? fun s => decide (∃ tag, EndsInTag s.title tag) with _ | s
  · have hnone := List.find?_eq_none.mp hfind
    exact absurd (fun s hs tag htag => hnone s hs (decide_eq_true ⟨tag, htag⟩)) h
  · obtain ⟨htag, before, behind, hsplit, hbefore⟩ := List.find?_eq_some_iff_append.mp hfind
    obtain ⟨tag, htag⟩ := of_decide_eq_true htag
    refine ⟨before, s, behind, tag, hsplit, fun s' hs' tag' htag' => ?_, htag⟩
    simpa [show ∃ tag, EndsInTag s'.title tag from ⟨tag', htag'⟩] using hbefore s' hs'

section Rescanned

variable {schemes : List Scheme} (h : ∀ s ∈ schemes, ∃ checker, Printable checker s)

include h

/-- Up to the first title with a tag nothing is opened. -/
theorem isOpening_of_untagged {license : String}
    (hlicense : ∀ line ∈ kinds license, line.isOpening = false)
    (htag : ∀ s ∈ schemes, ∀ tag, ¬ EndsInTag s.title tag) :
    ∀ line ∈ kinds license ++ (linesBeforeHelpers ++ schemes.flatMap nativeLines).map Line.classify,
      line.isOpening = false := by
  intro line hline
  rcases List.mem_append.mp hline with hline | hline
  · exact hlicense line hline
  · obtain ⟨l, hl, rfl⟩ := List.mem_map.mp hline
    rcases List.mem_append.mp hl with hl | hl
    · exact (inert_of_mem_linesBeforeHelpers l hl).isOpening
    · obtain ⟨s, hs, hl⟩ := List.mem_flatMap.mp hl
      obtain ⟨checker, hprintable⟩ := h s hs
      exact isOpening_of_mem_nativeLines hprintable (htag s hs) hl

/-- Nothing behind the banner closes a scheme. -/
theorem terminator_not_mem_flatMap_nativeLines :
    .terminator ∉ (schemes.flatMap nativeLines).map Line.classify := by
  intro hmem
  obtain ⟨l, hl, hterminator⟩ := List.mem_map.mp hmem
  obtain ⟨s, hs, hl⟩ := List.mem_flatMap.mp hl
  obtain ⟨checker, hprintable⟩ := h s hs
  exact classify_ne_terminator_of_mem_nativeLines hprintable hl hterminator

variable {license : String} (hlicense : ∀ line ∈ kinds license, line.isOpening = false)

include hlicense

/-- Without tags in the titles there is no item. -/
theorem parse_nativeFile_of_untagged (htag : ∀ s ∈ schemes, ∀ tag, ¬ EndsInTag s.title tag)
    (checker : Checker) :
    checker.parse
      (ArtifactOptions.nativeFile { license } (schemes.map fun s => unlines (nativeLines s))) =
        [] := by
  have hopening : ∀ line ∈ kinds license ++ (linesBeforeHelpers ++ schemes.flatMap nativeLines ++
      linesBehindHelpers).map Line.classify, line.isOpening = false := by
    intro line hline
    rw [List.map_append, ← List.append_assoc, List.mem_append] at hline
    rcases hline with hline | hline
    · exact isOpening_of_untagged h hlicense htag line hline
    · obtain ⟨l, hl, rfl⟩ := List.mem_map.mp hline
      exact (inert_of_mem_linesBehindHelpers l hl).isOpening
  rw [checker.parse_eq_map_segments, kinds_nativeFile h, Header.segments_eq_nil hopening,
    List.map_nil]

/-- The first title with a tag opens a scheme that nothing closes. -/
theorem parse_nativeFile_of_tagged {before behind : List Scheme} {s : Scheme} {tag : String}
    (hsplit : schemes = before ++ s :: behind)
    (hbefore : ∀ s' ∈ before, ∀ tag', ¬ EndsInTag s'.title tag') (htag : EndsInTag s.title tag)
    (checker : Checker) :
    checker.parse
      (ArtifactOptions.nativeFile { license } (schemes.map fun s => unlines (nativeLines s))) =
        [.error (.unterminated tag
          ((lines license).length + (before.flatMap nativeLines).length + 7))] := by
  obtain ⟨checker', hs⟩ := h s (by simp [hsplit])
  obtain ⟨text, htitle⟩ := classify_docLine_tagged hs.title hs.marked htag
  let front : List Line :=
    kinds license ++ (linesBeforeHelpers ++ before.flatMap nativeLines).map Line.classify ++
      [Line.classify (groupLine s)]
  let rest : List Line :=
    (linesBehindTitle s).map Line.classify ++
      (behind.flatMap nativeLines).map Line.classify ++ linesBehindHelpers.map Line.classify
  have hkinds : kinds (ArtifactOptions.nativeFile { license }
      (schemes.map fun s => unlines (nativeLines s))) =
        front ++ .schemeStart s.role text tag :: rest := by
    rw [kinds_nativeFile h]
    simp [front, rest, hsplit, nativeLines_eq s, htitle]
  have hfront : ∀ line ∈ front, line.isOpening = false := by
    intro line hline
    rcases List.mem_append.mp hline with hline | hline
    · exact isOpening_of_untagged (fun s' hs' => h s' (by simp [hsplit, hs'])) hlicense hbefore
        line hline
    · rw [List.mem_singleton.mp hline]
      exact (inert_groupLine s).isOpening
  have hrest : .terminator ∉ rest := by
    simp only [rest, List.mem_append, not_or]
    refine ⟨⟨?_, ?_⟩, ?_⟩
    · intro hmem
      obtain ⟨l, hl, hterminator⟩ := List.mem_map.mp hmem
      exact (inert_of_mem_linesBehindTitle hs hl).ne_terminator hterminator
    · exact terminator_not_mem_flatMap_nativeLines fun s' hs' => h s' (by simp [hsplit, hs'])
    · decide +kernel
  have hnumber : 1 + front.length =
      (lines license).length + (before.flatMap nativeLines).length + 7 := by
    simp [front, linesBeforeHelpers, kinds]
    omega
  rw [checker.parse_eq_map_segments, hkinds, Header.segments_append hfront,
    Header.segments_opening hrest, hnumber]
  rfl

end Rescanned

/-- **Native headers that are read again.** Behind a banner that opens no scheme, the native header
of accepted schemes gives no item exactly when no title ends in a tag; then it counts as a file of a
run and changes nothing else. The first title that does end in a tag opens a scheme of that name,
which nothing closes, and the run ends there. -/
theorem parse_generated_header (checker : Checker) {license : String}
    (hlicense : ∀ line ∈ kinds license, line.isOpening = false) (b : BindingSettings)
    {schemes : List Scheme}
    (hschemes : ∀ s ∈ schemes,
      (∃ (c : Checker) (text : String), .ok s ∈ c.parse text) ∧ s.entries ≠ []) :
    ∃ a, assemble schemes { license } b = .ok a ∧
      (checker.parse a.native = [] ↔ ∀ s ∈ schemes, ∀ tag, ¬ EndsInTag s.title tag) ∧
      (checker.parse a.native = [] → ∀ (c : Run.Collection) path,
        c.add checker path a.native =
          { collection := { c with filesScanned := c.filesScanned + 1 } }) ∧
      ∀ before s behind tag, schemes = before ++ s :: behind →
        (∀ s' ∈ before, ∀ tag', ¬ EndsInTag s'.title tag') → EndsInTag s.title tag →
          let fault : SchemeFault := .unterminated tag
            ((lines license).length + (before.flatMap nativeLines).length + 7)
          checker.parse a.native = [.error fault] ∧ ∀ (c : Run.Collection) path,
            (c.add checker path a.native).fatal = some ⟨path, fault, c.rejections⟩ := by
  have hprintable : ∀ s ∈ schemes, ∃ checker, Printable checker s := by
    intro s hs
    obtain ⟨⟨c, text, htext⟩, -⟩ := hschemes s hs
    exact ⟨c, printable_of_mem_parse htext⟩
  refine ⟨_, assemble_eq (fun s hs => (hschemes s hs).2) _ b, ⟨?_, ?_⟩, ?_, ?_⟩
  · intro hnil
    by_contra hnot
    obtain ⟨before, s, behind, tag, hsplit, hbefore, htag⟩ := exists_first_tagged hnot
    rw [parse_nativeFile_of_tagged hprintable hlicense hsplit hbefore htag checker] at hnil
    cases hnil
  · exact fun htag => parse_nativeFile_of_untagged hprintable hlicense htag checker
  · intro hnil c path
    rw [Run.Collection.add, hnil]
    rfl
  · intro before s behind tag hsplit hbefore htag fault
    have hparse := parse_nativeFile_of_tagged hprintable hlicense hsplit hbefore htag checker
    refine ⟨hparse, fun c path => ?_⟩
    rw [Run.Collection.add, hparse]
    rfl

/-- A header of two schemes, the second of which has a title with a tag. -/
theorem parse_generated_header_second_tagged :
    let text := "/// Input arguments of f [fIn]\nenum fIn \x7b\n/// the x [x]\nX,\n\x7d;\n" ++
      "/// Output arguments[y] [gOut]\n/// of g\nenum gOut \x7b\n/// the y [y]\nY,\n\x7d;"
    let f : Scheme :=
      { role := .input, name := "fIn", title := "Input arguments of f", summary := ""
        group := "fIn", entries := [⟨"x", "the x", "X"⟩] }
    let g : Scheme :=
      { role := .output, name := "gOut", title := "Output arguments[y]", summary := "of g"
        group := "gOut", entries := [⟨"y", "the y", "Y"⟩] }
    Checker.parse {} text = [.ok f, .ok g] ∧
      ∃ a, assemble [f, g] { license := "// L\n\x7d;" } {} = .ok a ∧
        Checker.parse {} a.native = [.error (.unterminated "y" 18)] := by
  intro text f g
  have htext : Checker.parse {} text = [.ok f, .ok g] := by decide +kernel
  have hlicense : ∀ line ∈ kinds "// L\n\x7d;", line.isOpening = false := by decide +kernel
  have hschemes : ∀ s ∈ [f, g],
      (∃ (c : Checker) (text : String), .ok s ∈ c.parse text) ∧ s.entries ≠ [] := by
    intro s hs
    refine ⟨⟨{}, text, by simpa [htext] using hs⟩, ?_⟩
    rcases List.mem_pair.mp hs with rfl | rfl <;> exact List.cons_ne_nil _ _
  have huntagged : ∀ s ∈ [f], ∀ tag, ¬ EndsInTag s.title tag := by
    intro s hs tag htag
    obtain rfl := List.mem_singleton.mp hs
    have hnone : splitTag? f.title.toList = none := by decide +kernel
    obtain ⟨before, hsome⟩ := (Header.endsInTag_iff ⟨by decide, by decide⟩).mp htag
    rw [hnone] at hsome
    cases hsome
  have hword : IsWord "y".toList := ⟨by decide, List.all_eq_true.mp (by decide)⟩
  have htagged : EndsInTag g.title "y" := ⟨hword, "Output arguments", by decide⟩
  obtain ⟨a, ha, -, -, hrest⟩ := parse_generated_header {} hlicense {} hschemes
  have hline : (lines "// L\n\x7d;").length + ([f].flatMap nativeLines).length + 7 = 18 := by
    decide +kernel
  have hparse := (hrest [f] g [] "y" rfl huntagged htagged).1
  rw [hline] at hparse
  exact ⟨htext, a, ha, hparse⟩

/-- **A generated header can end a run**: what stands in front of the tag of a title is a title
again. -/
theorem generated_header_left_open :
    let text := "/// Input arguments of f [a] [fIn]\nenum fIn \x7b\n/// the x [x]\nX,\n\x7d;"
    let s : Scheme :=
      { role := .input, name := "fIn", title := "Input arguments of f [a]", summary := ""
        group := "fIn", entries := [⟨"x", "the x", "X"⟩] }
    Checker.parse {} text = [.ok s] ∧ (∀ line ∈ kinds "// L\n", line.isOpening = false) ∧
      ∃ a, assemble [s] { license := "// L\n" } {} = .ok a ∧
        Checker.parse {} a.native = [.error (.unterminated "a" 8)] := by
  intro text s
  have htext : Checker.parse {} text = [.ok s] := by decide +kernel
  have hlicense : ∀ line ∈ kinds "// L\n", line.isOpening = false := by decide +kernel
  have hprintable : ∀ s' ∈ [s], ∃ checker, Printable checker s' := by
    intro s' hs'
    have hmem : .ok s' ∈ Checker.parse {} text := by simpa [htext] using hs'
    exact ⟨{}, printable_of_mem_parse hmem⟩
  have hword : IsWord "a".toList := ⟨by decide, List.all_eq_true.mp (by decide)⟩
  have htagged : EndsInTag s.title "a" := ⟨hword, "Input arguments of f ", by decide⟩
  have hentries : ∀ s' ∈ [s], s'.entries ≠ [] := by simp [s]
  refine ⟨htext, hlicense, _, assemble_eq hentries _ _, ?_⟩
  have hsplit : [s] = [] ++ s :: [] := rfl
  exact parse_nativeFile_of_tagged hprintable hlicense hsplit (by simp) htagged {}

end Emit

end ArgumentSchemes
