import ArgumentSchemes.Proofs.Acceptance
import ArgumentSchemes.Proofs.LineBreaks

/-!
# Schemes that are printed and read again

`printed` prints a scheme as a header holds it, with every entry in the shape that names its
constant. An accepted scheme carries along what its lines were like: texts that are trimmed and in
one line, names that are words, a title that begins with the marker of the role, and a summary
without tags (`Printable`). So each printed line is read as the line that was meant
(`kinds_unlines_write`), whatever the texts hold besides.

Main statement: the annotation of an accepted scheme gives that scheme and nothing else
(`parse_printed`).
-/

namespace ArgumentSchemes.Header

open Text

/-! ### Printing -/

/-- The lines of a summary. The empty summary is one empty line. -/
def pieces (summary : String) : List String := (summary.split '\n').toList.map (·.copy)

/-- The lines of the annotation of a scheme. -/
def printedLines (s : Scheme) : List String :=
  ["/// " ++ s.title ++ " [" ++ s.name ++ "]"] ++ (pieces s.summary).map ("/// " ++ ·) ++
    ["enum " ++ s.group ++ " \x7b"] ++
    s.entries.flatMap (fun e => ["/// " ++ e.describe, e.constant ++ ","]) ++ ["\x7d;"]

/-- The annotation of a scheme as a header holds it. -/
def printed (s : Scheme) : String := unlines (printedLines s)

theorem pieces_eq (summary : String) :
    pieces summary = (summary.toList.splitOn '\n').map String.ofList :=
  String.toList_split_char

/-- The lines of a summary make up the summary. -/
theorem intercalate_pieces (summary : String) : "\n".intercalate (pieces summary) = summary := by
  rw [← String.toList_inj, String.toList_intercalate, pieces_eq, List.map_map]
  simp [Function.comp_def]

/-- A summary is taken apart into the lines that it was put together from. -/
theorem pieces_intercalate {texts : List String} (h : ∀ t ∈ texts, '\n' ∉ t.toList) :
    pieces ("\n".intercalate texts) = if texts = [] then [""] else texts :=
  String.toList_split_intercalate h

/-! ### What accepted schemes carry along -/

/-- What the entries of an accepted scheme are like. -/
structure Entry.Printable (e : Entry) : Prop where
  argName : IsWord e.argName.toList
  doc : IsDocText e.doc
  documented : e.doc ≠ ""
  constant : IsWord e.constant.toList

/-- What an accepted scheme is like. -/
structure Printable (checker : Checker) (s : Scheme) : Prop where
  title : IsDocText s.title
  marked : markerRole? s.title.toList = some s.role
  name : IsWord s.name.toList
  summary : ∀ piece ∈ pieces s.summary, IsDocText piece ∧ splitTag? piece.toList = none
  group : IsWord s.group.toList
  suffixed : s.role.acceptsGroup s.group = true
  entries : ∀ e ∈ s.entries, Entry.Printable e
  unreserved : checker.reservedMarker ≠ "" →
    ∀ e ∈ s.entries, ¬ checker.reservedMarker.toList <:+: e.constant.toList

theorem isDocText_summaryOf {ls : List Line} (h : ∀ line ∈ ls, line.WellFormed) :
    ∀ text ∈ summaryOf ls, IsDocText text ∧ splitTag? text.toList = none := by
  intro text htext
  have hmem : .doc text ∈ (summaryOf ls).map Line.doc ++ bodyOf ls :=
    List.mem_append_left _ (List.mem_map_of_mem htext)
  rw [map_doc_summaryOf_append_bodyOf] at hmem
  exact h _ hmem

/-- The lines of the summary of a region are like documentation without a tag. -/
theorem Region.isDocText_pieces {r : Region} (h : r.WellFormed) :
    ∀ piece ∈ pieces ("\n".intercalate r.summary),
      IsDocText piece ∧ splitTag? piece.toList = none := by
  have hsummary : ∀ t ∈ r.summary, IsDocText t ∧ splitTag? t.toList = none :=
    isDocText_summaryOf fun line hline => h line (List.mem_cons_of_mem _ hline)
  intro piece hpiece
  rw [pieces_intercalate fun t ht => (hsummary t ht).1.oneLine] at hpiece
  split at hpiece
  · obtain rfl := List.mem_singleton.mp hpiece
    exact ⟨⟨⟨rfl, rfl⟩, List.not_mem_nil⟩, rfl⟩
  · exact hsummary piece hpiece

/-- A spelled entry is like those of accepted schemes. -/
theorem Spelling.printable_entry {p : Spelling} (htext : IsDocText p.text)
    (htag : IsWord p.tag.toList) (hconstant : IsWord p.constant.toList) (hsound : p.Sound) :
    Entry.Printable p.entry := by
  refine ⟨?_, ?_, hsound.documented, hconstant⟩
  · -- either shape of documentation gives a word for the name
    rw [entry, nameOf]
    split
    · next hsplit => exact (shape_of_splitNamedDoc? hsplit).1
    · exact htag
  · rw [entry, docOf]
    split
    · next hsplit => exact (shape_of_splitNamedDoc? hsplit).2
    · exact htext

/-- The scheme of a region with a body that conforms is like an accepted scheme. -/
theorem Region.printable_scheme {r : Region} (h : r.WellFormed) {checker : Checker}
    (hconforms : Conforms r.role checker.reservedMarker r.body) :
    Printable checker r.scheme := by
  obtain ⟨htitle, hmarked, hname⟩ : (opening r).WellFormed := h _ List.mem_cons_self
  obtain ⟨⟨group, hgroups, haccepts⟩, ps, hps, hsound, hunreserved⟩ := conforms_iff.mp hconforms
  have hgroup : r.scheme.group = group := by
    rw [scheme, hgroups]
    rfl
  have hentries : r.scheme.entries = ps.map Spelling.entry := by
    rw [scheme, hps, entriesOf_flatMap]
  refine ⟨htitle, hmarked, hname, isDocText_pieces h, ?_, hgroup ▸ haccepts, ?_, ?_⟩
  · rw [hgroup]
    exact isWord_of_mem_groups h (hgroups ▸ List.mem_singleton_self group)
  · intro e he
    rw [hentries] at he
    obtain ⟨p, hp, rfl⟩ := List.mem_map.mp he
    have hdoc : .doc p.text p.tag ∈ marks r.body :=
      hps ▸ doc_mem_flatMap_iff.mpr ⟨p, hp, rfl, rfl⟩
    have hconstant : .constant p.constant ∈ marks r.body :=
      hps ▸ constant_mem_flatMap_iff.mpr ⟨p, hp, rfl⟩
    obtain ⟨htext, htag⟩ : Mark.WellFormed (.doc p.text p.tag) := wellFormed_of_mem_marks h hdoc
    exact p.printable_entry htext htag (wellFormed_of_mem_marks h hconstant) (hsound p hp)
  · intro hne e he
    rw [hentries] at he
    obtain ⟨p, hp, rfl⟩ := List.mem_map.mp he
    exact hunreserved hne p hp

/-- The regions of well-formed lines are well-formed. -/
theorem wellFormed_of_mem_segments {number : Nat} {ls : List Line}
    (h : ∀ line ∈ ls, line.WellFormed) {seg : Segment} (hseg : seg ∈ segments number ls) :
    seg.region.WellFormed := by
  fun_induction segments number ls with
  | case1 => cases hseg
  | case2 number role title name rest inside behind hsplit ih =>
    obtain ⟨rfl, -⟩ := splitAtTerminator?_eq_some hsplit
    rcases List.mem_cons.mp hseg with rfl | hseg
    · intro line hline
      refine h line ?_
      rw [← List.cons_append]
      exact List.mem_append_left _ hline
    · exact ih (fun line hline => h line (by simp [hline])) hseg
  | case3 number role title name rest hsplit =>
    obtain rfl := List.mem_singleton.mp hseg
    exact h
  | case4 number line rest hline ih =>
    exact ih (fun l hl => h l (List.mem_cons_of_mem _ hl)) hseg

/-- **What every accepted scheme carries along** from its lines. -/
theorem printable_of_mem_parse {checker : Checker} {text : String} {s : Scheme}
    (h : .ok s ∈ checker.parse text) : Printable checker s := by
  rw [checker.parse_eq_map_segments] at h
  obtain ⟨seg, hseg, hitem⟩ := List.mem_map.mp h
  have hlines : ∀ line ∈ kinds text, line.WellFormed := by
    intro line hline
    obtain ⟨l, -, rfl⟩ := List.mem_map.mp hline
    exact Line.wellFormed_classify l
  have hshape := wellFormed_of_mem_segments hlines hseg
  cases seg with
  | closed r =>
    obtain ⟨hconforms, rfl⟩ := (Region.check_draft_eq_ok_iff hshape).mp hitem
    exact r.printable_scheme hshape hconforms
  | unclosed r => cases hitem

/-! ### Printed lines -/

/-- The printed form of an entry. -/
def spellingOf (e : Entry) : Spelling :=
  { text := e.argName ++ " -- " ++ e.doc, tag := e.constant, constant := e.constant }

/-- The two lines of an entry. -/
def linesOf (e : Entry) : List Line :=
  [.entryDoc (spellingOf e).text e.constant, .enumEntry e.constant]

/-- The region that the annotation of a scheme is. -/
def regionOf (s : Scheme) : Region where
  number := 1
  role := s.role
  title := s.title
  name := s.name
  inside := (pieces s.summary).map .doc ++ .enumHeader s.group :: s.entries.flatMap linesOf

/-- A named documentation never begins with the marker of a role: behind the word comes a hyphen
there, and another word in the marker. -/
theorem markerRole?_named {name doc : List Char} (hname : ∀ c ∈ name, isWordChar c = true) :
    markerRole? (name ++ ' ' :: '-' :: '-' :: ' ' :: doc) = none := by
  have hspan := spanWord_append_of_all hname
    (wordEnds_cons (by decide) ('-' :: '-' :: ' ' :: doc) : WordEnds (' ' :: _))
  rw [markerRole?, List.find?_eq_none]
  intro role _
  rcases hrest : afterPrefix? role.marker.toList (name ++ ' ' :: '-' :: '-' :: ' ' :: doc) with
    _ | rest
  · simp
  · obtain ⟨word, next, more, hmarker, hword, hnext⟩ : ∃ word next more,
        role.marker.toList = word ++ ' ' :: next :: more ∧ (∀ c ∈ word, isWordChar c = true) ∧
          next ≠ '-' := by
      cases role with
      | input =>
        exact ⟨"Input".toList, 'a', "rguments".toList, by decide,
          List.all_eq_true.mp (by decide), by decide⟩
      | output =>
        exact ⟨"Output".toList, 'a', "rguments".toList, by decide,
          List.all_eq_true.mp (by decide), by decide⟩
    rw [afterPrefix?_eq_some_iff.mp hrest, hmarker, List.append_assoc,
      List.cons_append, List.cons_append,
      spanWord_append_of_all hword (wordEnds_cons (by decide) _)] at hspan
    obtain ⟨-, hbehind⟩ := Prod.mk.inj hspan
    exact absurd (List.cons.inj (List.cons.inj hbehind).2).1 hnext

theorem isDocText_spellingOf {e : Entry} (h : Entry.Printable e) :
    IsDocText (spellingOf e).text := by
  have hchars : (spellingOf e).text.toList =
      e.argName.toList ++ (" -- ".toList ++ e.doc.toList) := by simp [spellingOf]
  have hdoc : e.doc.toList ≠ [] := fun hnil => h.documented (String.toList_eq_nil_iff.mp hnil)
  refine ⟨⟨?_, ?_⟩, ?_⟩
  · rw [hchars]
    exact trimStart_append_of_ne_nil h.argName.ne_nil h.argName.trimmed.start _
  · rw [hchars, ← List.append_assoc]
    exact trimEnd_append_of_ne_nil hdoc h.doc.trimmed.stop _
  · rw [hchars]
    simp [h.argName.newline_not_mem, h.doc.oneLine]

/-- All lines of a printed scheme are well-formed. -/
theorem wellFormed_regionOf {checker : Checker} {s : Scheme} (h : Printable checker s) :
    (regionOf s).WellFormed := by
  intro line hline
  rcases List.mem_cons.mp hline with rfl | hline
  · exact ⟨h.title, h.marked, h.name⟩
  rcases List.mem_append.mp hline with hline | hline
  · obtain ⟨piece, hpiece, rfl⟩ := List.mem_map.mp hline
    exact h.summary piece hpiece
  rcases List.mem_cons.mp hline with rfl | hline
  · exact h.group
  · obtain ⟨e, he, hline⟩ := List.mem_flatMap.mp hline
    have hentry := h.entries e he
    rcases List.mem_pair.mp hline with rfl | rfl
    · refine ⟨isDocText_spellingOf hentry, ?_, hentry.constant⟩
      simpa [spellingOf] using markerRole?_named hentry.argName.all
    · exact hentry.constant

/-- The annotation is written line by line. -/
theorem printedLines_eq (s : Scheme) :
    printedLines s =
      ((regionOf s).opening :: ((regionOf s).inside ++ [.terminator])).map Line.write := by
  have hdescribe : ∀ e : Entry,
      e.describe = e.argName ++ " -- " ++ e.doc ++ " [" ++ e.constant ++ "]" := fun _ => rfl
  simp [printedLines, regionOf, Region.opening, linesOf, spellingOf, Line.write, hdescribe,
    List.map_flatMap, String.append_assoc, Function.comp_def]

theorem isLine_tagged {text tag : String} (htext : IsDocText text) (htag : IsWord tag.toList) :
    IsLine ("/// " ++ text ++ " [" ++ tag ++ "]").toList := by
  have hchars : ("/// " ++ text ++ " [" ++ tag ++ "]").toList =
      ("/// ".toList ++ text.toList ++ " [".toList ++ tag.toList) ++ [']'] := by simp
  rw [hchars]
  refine isLine_concat ?_ (by decide) (by decide)
  simp [htext.oneLine, htag.newline_not_mem]

/-- A well-formed line is written in one line. -/
theorem Line.isLine_write {line : Line} (h : line.WellFormed) : IsLine line.write.toList := by
  cases line with
  | schemeStart role title name => exact isLine_tagged h.1 h.2.2
  | entryDoc text tag => exact isLine_tagged h.1 h.2.2
  | doc text =>
    rcases eq_or_ne text.toList [] with hnil | hne
    · rw [write, String.toList_append, hnil]
      exact ⟨by decide, by decide⟩
    · exact IsLine.append (by decide) text hne (isLine_of_trimEnd h.1.oneLine h.1.trimmed.stop)
  | enumHeader name =>
    have hchars : (write (enumHeader name)).toList =
        ("enum ".toList ++ name.toList ++ [' ']) ++ ['{'] := by
      simp [write]
    rw [hchars]
    refine isLine_concat ?_ (by decide) (by decide)
    simp [IsWord.newline_not_mem h]
  | enumEntry name =>
    have hchars : (write (enumEntry name)).toList = name.toList ++ [','] := by
      simp [write]
    rw [hchars]
    exact isLine_concat (IsWord.newline_not_mem h) (by decide) (by decide)
  | terminator => exact ⟨by decide, by decide⟩
  | other => exact ⟨by decide, by decide⟩

/-- **Well-formed lines are found again** in the text that they are written to. -/
theorem kinds_unlines_write {ls : List Line} (h : ∀ line ∈ ls, line.WellFormed) :
    kinds (unlines (ls.map Line.write)) = ls := by
  have hlines : ∀ l ∈ ls.map Line.write, IsLine l.toList := by
    intro l hl
    obtain ⟨line, hline, rfl⟩ := List.mem_map.mp hl
    exact Line.isLine_write (h line hline)
  have hclassify : ∀ line ∈ ls, (Line.classify ∘ Line.write) line = id line :=
    fun line hline => Line.classify_write (h line hline)
  rw [kinds, lines_unlines hlines, List.map_map, List.map_congr_left hclassify, List.map_id]

/-! ### The printed scheme -/

/-- A printed entry spells the entry, and its documentation names the constant it gets. -/
theorem entry_spellingOf {e : Entry} (h : Entry.Printable e) :
    (spellingOf e).entry = e ∧ (spellingOf e).Sound := by
  have hsplit : splitNamedDoc? (spellingOf e).text = some (e.argName, e.doc) :=
    splitNamedDoc?_write h.argName h.doc
  have hdoc : docOf (spellingOf e).text = e.doc := by rw [docOf, hsplit]
  have hname : nameOf (spellingOf e).text (spellingOf e).tag = e.argName := by rw [nameOf, hsplit]
  constructor
  · rw [Spelling.entry, hdoc, hname]
    rfl
  · exact ⟨hdoc ▸ h.documented, fun _ => rfl⟩

theorem map_entry_spellingOf {es : List Entry} (h : ∀ e ∈ es, Entry.Printable e) :
    (es.map spellingOf).map Spelling.entry = es := by
  have hentry : ∀ e ∈ es, (Spelling.entry ∘ spellingOf) e = id e :=
    fun e he => (entry_spellingOf (h e he)).1
  rw [List.map_map, List.map_congr_left hentry, List.map_id]

theorem summaryOf_map_doc_append (texts : List String) (ls : List Line) :
    summaryOf (texts.map .doc ++ ls) = texts ++ summaryOf ls := by
  induction texts with
  | nil => rfl
  | cons t texts ih => exact congrArg (t :: ·) ih

theorem bodyOf_map_doc_append (texts : List String) (ls : List Line) :
    bodyOf (texts.map .doc ++ ls) = bodyOf ls := by
  induction texts with
  | nil => rfl
  | cons t texts ih => exact ih

@[simp] theorem summary_regionOf (s : Scheme) : (regionOf s).summary = pieces s.summary := by
  rw [Region.summary, regionOf, summaryOf_map_doc_append]
  exact List.append_nil _

@[simp] theorem body_regionOf (s : Scheme) :
    (regionOf s).body = .enumHeader s.group :: s.entries.flatMap linesOf := by
  rw [Region.body, regionOf, bodyOf_map_doc_append]
  rfl

theorem groups_body_regionOf (s : Scheme) : groups (regionOf s).body = [s.group] := by
  have hquiet : ∀ es : List Entry, groups (es.flatMap linesOf) = [] := by
    intro es
    induction es with
    | nil => rfl
    | cons e es ih =>
      rw [List.flatMap_cons, groups_append, ih]
      rfl
  rw [body_regionOf]
  exact congrArg (s.group :: ·) (hquiet s.entries)

theorem marks_body_regionOf (s : Scheme) :
    marks (regionOf s).body = (s.entries.map spellingOf).flatMap Spelling.marks := by
  have hmarks : ∀ es : List Entry,
      marks (es.flatMap linesOf) = (es.map spellingOf).flatMap Spelling.marks := by
    intro es
    induction es with
    | nil => rfl
    | cons e es ih =>
      rw [List.flatMap_cons, marks_append, ih]
      rfl
  rw [body_regionOf]
  exact hmarks s.entries

/-- The region of a printed scheme spells the scheme. -/
theorem scheme_regionOf {checker : Checker} {s : Scheme} (h : Printable checker s) :
    (regionOf s).scheme = s := by
  rw [Region.scheme, summary_regionOf, intercalate_pieces, groups_body_regionOf,
    marks_body_regionOf, entriesOf_flatMap, map_entry_spellingOf h.entries]
  rfl

/-- The body of a printed scheme conforms to the grammar. -/
theorem conforms_regionOf {checker : Checker} {s : Scheme} (h : Printable checker s) :
    Conforms (regionOf s).role checker.reservedMarker (regionOf s).body := by
  refine conforms_iff.mpr ⟨⟨s.group, groups_body_regionOf s, h.suffixed⟩, s.entries.map spellingOf,
    marks_body_regionOf s, ?_, ?_⟩
  · intro p hp
    obtain ⟨e, he, rfl⟩ := List.mem_map.mp hp
    exact (entry_spellingOf (h.entries e he)).2
  · intro hne p hp
    obtain ⟨e, he, rfl⟩ := List.mem_map.mp hp
    exact h.unreserved hne e he

/-- An annotation is read as the region of its scheme and nothing else. -/
theorem standsIn_printed {checker : Checker} {s : Scheme} (h : Printable checker s) :
    (regionOf s).StandsIn (kinds (printed s)) [] [] := by
  have hshape := wellFormed_regionOf h
  refine ⟨?_, rfl, rfl, ?_⟩
  · rw [printed, printedLines_eq]
    refine kinds_unlines_write fun line hline => ?_
    rw [← List.cons_append] at hline
    rcases List.mem_append.mp hline with hline | hline
    · exact hshape line hline
    · obtain rfl := List.mem_singleton.mp hline
      trivial
  · simp [regionOf, linesOf]

/-- **Printing an accepted scheme and reading it gives it back**: whatever header text the scheme
was accepted from, its annotation gives the scheme and nothing else. -/
theorem parse_printed {checker : Checker} {text : String} {s : Scheme}
    (h : .ok s ∈ checker.parse text) : checker.parse (printed s) = [.ok s] := by
  have hs := printable_of_mem_parse h
  have hcheck : checker.check (regionOf s).draft = .ok s :=
    (Region.check_draft_eq_ok_iff (wellFormed_regionOf hs)).mpr
      ⟨conforms_regionOf hs, (scheme_regionOf hs).symm⟩
  rw [(standsIn_printed hs).parse_eq checker, hcheck]
  simp [segments]

/-- A scheme in the shape `description [name]`, with brackets and hyphens in its texts and without a
summary, and its annotation. -/
theorem parse_printed_tagged_name :
    let text := "/// Output arguments of [f] -- all [fOut]\nenum f_Out \x7b /// more\n" ++
      "/// a - b -- [c] \r d [x]\nF_X, // [y]\n\x7d;"
    let s : Scheme :=
      { role := .output, name := "fOut", title := "Output arguments of [f] -- all", summary := ""
        group := "f_Out", entries := [⟨"x", "a - b -- [c] \r d", "F_X"⟩] }
    .ok s ∈ Checker.parse {} text ∧ Checker.parse {} (printed s) = [.ok s] := by
  intro text s
  have h : .ok s ∈ Checker.parse {} text := by decide +kernel
  exact ⟨h, parse_printed h⟩

end ArgumentSchemes.Header
