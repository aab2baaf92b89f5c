import ArgumentSchemes.Proofs.Layout
import ArgumentSchemes.Proofs.LineGrammar
import ArgumentSchemes.Proofs.Matching

/-!
# Lines by patterns

The kinds of header lines can be given by regular expressions that are tried in turn: the first that
fits tells the kind, and its groups hold the texts. The patterns of documentation overlap, and the
preference among the ways to fit settles where a text ends: the blanks behind the slashes go to the
greedy repetition, and the text is the shortest that leaves a tag
(`LinePattern.captures?_group_tag`). Of the patterns of code one fits at most
(`LineRule.findSome?_codes_iff`).

Main statement: the grammar tells of a line without a newline what is read, and so do the patterns,
in whatever order those of code are tried (`Line.classify_exact`).
-/

namespace ArgumentSchemes.Header

open Text

/-! ### The patterns of lines -/

namespace LinePattern

/-- Whether a character stands within a line, as `.` asks. -/
def inLine (c : Char) : Bool := c != '\n'

/-- `^\s*///`, and a pattern for what is behind it. -/
def comment (p : LinePattern) : LinePattern := seq blanks <| seq (chars "///".toList) p

/-- `\s*\[(\w+)\]\s*$` -/
def tag : LinePattern :=
  seq blanks <| seq (chars ['[']) <| seq (group word) <| seq (chars [']']) <| seq blanks stop

/-- `(Input|Output) arguments\b.*?` -/
def title : LinePattern :=
  seq (group <| alt (chars "Input".toList) (chars "Output".toList)) <|
    seq (chars " arguments".toList) <| seq boundary <| fewest inLine

/-- `^\s*///\s*((Input|Output) arguments\b.*?)\s*\[(\w+)\]\s*$` -/
def schemeStart : LinePattern := comment <| seq blanks <| seq (group title) tag

/-- `^\s*///\s*(.*?)\s*\[(\w+)\]\s*$` -/
def entryDoc : LinePattern := comment <| seq blanks <| seq (group <| fewest inLine) tag

/-- `^\s*///(.*)$` -/
def doc : LinePattern := comment <| seq (group <| most inLine) stop

/-- `^\s*\}\s*;` -/
def terminator : LinePattern :=
  seq blanks <| seq (chars ['\x7d']) <| seq blanks <| chars [';']

/-- `^\s*enum\s+(\w+)\s*\{` -/
def enumHeader : LinePattern :=
  seq blanks <| seq (chars "enum".toList) <| seq (many isBlank) <| seq (group word) <| seq blanks <|
    chars ['\x7b']

/-- `^\s*(\w+)\s*,` -/
def enumEntry : LinePattern := seq blanks <| seq (group word) <| seq blanks <| chars [',']

end LinePattern

/-- A pattern, and the line that its groups tell. -/
structure LineRule where
  pattern : LinePattern
  line : List (List Char) → Option Line

namespace LineRule

/-- What a rule tells of a line. -/
def read (r : LineRule) (cs : List Char) : Option Line := (r.pattern.captures? [] cs).bind r.line

def schemeStart : LineRule where
  pattern := .schemeStart
  line
    | [title, role, name] => (Role.ofName? (String.ofList role)).map fun role =>
      .schemeStart role (String.ofList title) (String.ofList name)
    | _ => none

def entryDoc : LineRule where
  pattern := .entryDoc
  line
    | [text, tag] => some (.entryDoc (String.ofList text) (String.ofList tag))
    | _ => none

def doc : LineRule where
  pattern := .doc
  line
    | [text] => some (.doc (String.ofList (trim text)))
    | _ => none

def terminator : LineRule where
  pattern := .terminator
  line _ := some .terminator

def enumHeader : LineRule where
  pattern := .enumHeader
  line
    | [name] => some (.enumHeader (String.ofList name))
    | _ => none

def enumEntry : LineRule where
  pattern := .enumEntry
  line
    | [name] => some (.enumEntry (String.ofList name))
    | _ => none

/-- The rules of documentation, in the order in which they are tried. -/
def comments : List LineRule := [schemeStart, entryDoc, doc]

/-- The rules of code. -/
def codes : List LineRule := [terminator, enumHeader, enumEntry]

end LineRule

/-- What the first rule tells that fits. -/
def Line.byRules (rules : List LineRule) (cs : List Char) : Line :=
  (rules.findSome? (·.read cs)).getD .other

namespace LinePattern

variable {behind cs : List Char} {p q : LinePattern} {gs : List (List Char)}

/-! ### Tags -/

/-- Where a tag fits behind a text, it is the tag of both. -/
theorem exists_splitTag?_of_fits_tag (h : tag.Fits behind cs) :
    ∃ bs name, (∀ b ∈ bs, isBlank b = true) ∧
      ∀ text, splitTag? (text ++ cs) = some (text ++ bs, name) := by
  simp only [tag, blanks, word, fits_most_seq, fits_chars_seq, fits_group_seq, fits_many_seq,
    fits_stop] at h
  obtain ⟨bs, _, hbs, rfl, _, rfl, name, _, hne, hall, rfl, _, rfl, bs', _, hbs', rfl, rfl⟩ := h
  refine ⟨bs, name, hbs, fun text => splitTag?_eq_some_iff_blanks.mpr ⟨⟨hne, hall⟩, bs', hbs', ?_⟩⟩
  simp

theorem captures?_tag {bs name bs' : List Char} (hbs : ∀ b ∈ bs, isBlank b = true)
    (hname : IsWord name) (hbs' : ∀ b ∈ bs', isBlank b = true) :
    tag.captures? behind (bs ++ '[' :: (name ++ ']' :: bs')) = some [name] := by
  refine captures?_blanks_seq hbs (trimStart_cons_eq_self_iff.mpr (by decide)) ?_
  refine captures?_chars_seq (s := ['[']) ?_
  refine captures?_word_seq hname (wordEnds_cons (by decide) _) ?_
  refine captures?_chars_seq (s := [']']) ?_
  rw [← List.append_nil bs']
  exact captures?_blanks_seq hbs' rfl rfl

/-- **The shortest text in front of a tag** ends where the blanks in front of the tag begin. -/
theorem captures?_group_tag {front before name : List Char}
    (hp : p.ways behind (front ++ cs) =
      (runs inLine cs).map fun run => ⟨gs, front ++ run.1, run.2⟩)
    (htag : splitTag? cs = some (before, name)) (hline : '\n' ∉ trimEnd before) :
    (seq (group p) tag).captures? behind (front ++ cs) =
      some ((front ++ trimEnd before) :: (gs ++ [name])) := by
  obtain ⟨hname, bs', hbs', hcs⟩ := splitTag?_eq_some_iff_blanks.mp htag
  obtain ⟨bs, hbs, hbefore⟩ := exists_eq_trimEnd_append before
  have hcs' : cs = trimEnd before ++ (bs ++ '[' :: (name ++ ']' :: bs')) := by
    rw [hcs, ← List.append_assoc (trimEnd before), ← hbefore]
  have hall : ∀ c ∈ trimEnd before, inLine c = true := fun c hc => by
    rw [inLine, bne_iff_ne]
    rintro rfl
    exact hline hc
  rw [captures?_seq, ways_group, hp, List.map_map, List.findSome?_map]
  rw [hcs']
  refine findSome?_runs hall ?_ fun taken rest heq hlt => ?_
  · simp only [Function.comp_apply]
    rw [captures?_tag hbs hname hbs']
    rfl
  · -- a shorter text would have the same tag behind it, and would not be shorter
    simp only [Function.comp_apply, Option.map_eq_none_iff, captures?_eq_none_iff]
    intro hfits
    obtain ⟨bs'', name', hbs'', hsplit⟩ := exists_splitTag?_of_fits_tag hfits
    have hparts := hsplit taken
    rw [← heq, ← hcs', htag, Option.some.injEq, Prod.mk.injEq] at hparts
    rw [hparts.1, trimEnd_append hbs''] at hlt
    exact absurd (trimEnd_isPrefix taken).length_le (by omega)

/-! ### Titles -/

theorem any_getLast?_arguments (behind : List Char) :
    (behind ++ " arguments".toList).getLast?.any isWordChar = true := by
  have hlast : " arguments".toList.getLast? = some 's' := by decide
  rw [List.getLast?_append, hlast]
  exact (by decide : isWordChar 's' = true)

/-- What a title may be of a text that begins with a marker. -/
theorem ways_title {rest : List Char} (role : Role) (h : WordEnds rest) :
    title.ways behind (role.marker.toList ++ rest) = (runs inLine rest).map fun run =>
      ⟨[role.name.toList], role.marker.toList ++ run.1, run.2⟩ := by
  have hmarker : role.marker.toList = role.name.toList ++ " arguments".toList := by
    cases role <;> rfl
  have hname (tail : List Char) :
      (alt (chars "Input".toList) (chars "Output".toList)).ways behind
        (role.name.toList ++ tail) = [⟨[], role.name.toList, tail⟩] := by
    cases role <;> simp [afterPrefix?, Role.name]
  have harguments (behind tail : List Char) :
      (chars " arguments".toList).ways behind (" arguments".toList ++ tail) =
        [⟨[], " arguments".toList, tail⟩] := by
    rw [ways_chars, afterPrefix?_eq_some_iff.mpr rfl]
    rfl
  have hboundary (behind : List Char) :
      boundary.ways (behind ++ " arguments".toList) rest = [⟨[], [], rest⟩] := by
    rw [ways_boundary_of_word (any_getLast?_arguments _), wordEnds_iff.mp h]
    rfl
  rw [hmarker, List.append_assoc, title, ways_seq, ways_group, hname]
  simp only [List.map_cons, List.map_nil, List.flatMap_singleton]
  rw [ways_seq, harguments, List.flatMap_singleton, ways_seq, hboundary, List.flatMap_singleton,
    ways_fewest]
  simp [Way.andThen]

/-- Where a title fits, the text is marked, and the title goes on within the line. -/
theorem fits_title_seq :
    (seq title q).Fits behind cs ↔ ∃ (role : Role) (text rest : List Char),
      cs = role.marker.toList ++ (text ++ rest) ∧ WordEnds (text ++ rest) ∧
        (∀ c ∈ text, inLine c = true) ∧
        q.Fits (behind ++ role.name.toList ++ " arguments".toList ++ text) rest := by
  simp only [title, fits_seq_assoc, fits_group_seq, fits_alt_seq, fits_chars_seq,
    fits_boundary_seq (any_getLast?_arguments _), fits_fewest_seq]
  constructor
  · rintro (⟨_, rfl, _, rfl, hends, text, rest, hall, rfl, hq⟩ |
      ⟨_, rfl, _, rfl, hends, text, rest, hall, rfl, hq⟩)
    · exact ⟨.input, text, rest, rfl, hends, hall, hq⟩
    · exact ⟨.output, text, rest, rfl, hends, hall, hq⟩
  · rintro ⟨role, text, rest, rfl, hends, hall, hq⟩
    cases role with
    | input => exact .inl ⟨_, rfl, _, rfl, hends, text, rest, hall, rfl, hq⟩
    | output => exact .inr ⟨_, rfl, _, rfl, hends, text, rest, hall, rfl, hq⟩

/-! ### Documentation -/

theorem captures?_comment {rest : List Char} (hcs : trimStart cs = "///".toList ++ rest)
    (h : ∀ behind, p.captures? behind rest = some gs) :
    (comment p).captures? [] cs = some gs := by
  refine captures?_blanks_trimStart fun behind => ?_
  rw [hcs]
  exact captures?_chars_seq (h _)

/-- The pattern of documentation fits nothing but documentation. -/
theorem exists_of_fits_comment (h : (comment p).Fits behind cs) :
    ∃ behind rest, trimStart cs = "///".toList ++ rest ∧ p.Fits behind rest := by
  rw [comment, blanks, fits_most_seq] at h
  obtain ⟨bs, _, hbs, rfl, h⟩ := h
  obtain ⟨rest, rfl, hp⟩ := fits_chars_seq.mp h
  exact ⟨_, rest, trimStart_append_cons hbs (by decide) _, hp⟩

theorem exists_fits_of_comment {rest : List Char} (hcs : trimStart cs = "///".toList ++ rest)
    (h : (comment p).Fits behind cs) : ∃ behind, p.Fits behind rest := by
  obtain ⟨behind, rest', hcs', hp⟩ := exists_of_fits_comment h
  obtain rfl : rest = rest' := List.append_cancel_left (hcs.symm.trans hcs')
  exact ⟨behind, hp⟩

theorem newline_not_mem_iff : '\n' ∉ cs ↔ ∀ c ∈ cs, inLine c = true := by
  simp only [inLine, bne_iff_ne]
  exact ⟨fun h c hc heq => h (heq ▸ hc), fun h hmem => h '\n' hmem rfl⟩

section Documentation

variable {rest before name : List Char} {role : Role}
  (hcs : trimStart cs = "///".toList ++ rest)
  (htag : splitTag? (trimStart rest) = some (before, name)) (hline : '\n' ∉ trimEnd before)

include hcs htag hline

theorem captures?_entryDoc : entryDoc.captures? [] cs = some [trimEnd before, name] := by
  refine captures?_comment hcs fun _ => captures?_blanks_trimStart fun behind => ?_
  have hways : (fewest inLine).ways behind ([] ++ trimStart rest) =
      (runs inLine (trimStart rest)).map fun run => ⟨[], [] ++ run.1, run.2⟩ := rfl
  exact captures?_group_tag hways htag hline

theorem captures?_schemeStart (hrole : MarkedAs role (trimEnd before)) :
    schemeStart.captures? [] cs = some [trimEnd before, role.name.toList, name] := by
  obtain ⟨text, htext, hends⟩ := hrole
  obtain ⟨hname, bs', hbs', hrest⟩ := splitTag?_eq_some_iff_blanks.mp htag
  obtain ⟨bs, hbs, hbefore⟩ := exists_eq_trimEnd_append before
  have htrim : trimEnd (text ++ bs) = text := by
    have hstop := trimEnd_trimEnd before
    rw [htext, trimEnd_append_of_stop (trimmed_marker role).stop] at hstop
    rw [trimEnd_append hbs]
    exact List.append_cancel_left hstop
  -- what stands behind the marker
  let marked := text ++ bs ++ '[' :: (name ++ ']' :: bs')
  have hmarked : trimStart rest = role.marker.toList ++ marked := by
    rw [hrest, hbefore, htext]
    simp [marked]
  have htag' : splitTag? marked = some (text ++ bs, name) :=
    splitTag?_eq_some_iff_blanks.mpr ⟨hname, bs', hbs', rfl⟩
  have hends' : WordEnds marked := by
    rw [show marked = text ++ (bs ++ '[' :: (name ++ ']' :: bs')) from List.append_assoc _ _ _]
    exact wordEnds_append hends (wordEnds_blanks_append hbs (by decide) _)
  have hline' : '\n' ∉ trimEnd (text ++ bs) := by
    rw [htrim]
    exact fun hmem => hline (htext ▸ List.mem_append_right _ hmem)
  refine captures?_comment hcs fun _ => captures?_blanks_trimStart fun _ => ?_
  rw [hmarked, captures?_group_tag (ways_title role hends') htag' hline', htrim, htext]
  rfl

end Documentation

/-- Documentation that the pattern of an entry's documentation fits is tagged. -/
theorem exists_of_fits_entryDoc {rest : List Char} (hcs : trimStart cs = "///".toList ++ rest)
    (h : entryDoc.Fits behind cs) :
    ∃ before name, splitTag? (trimStart rest) = some (before, name) ∧ '\n' ∉ trimEnd before := by
  obtain ⟨_, h⟩ := exists_fits_of_comment hcs h
  rw [blanks, fits_most_seq] at h
  obtain ⟨bs, rest', hbs, rfl, h⟩ := h
  rw [fits_group_seq, fits_fewest_seq] at h
  obtain ⟨text, rest'', hall, rfl, h⟩ := h
  obtain ⟨bs', name, hbs', htag⟩ := exists_splitTag?_of_fits_tag h
  -- in a way that is not preferred the text may begin or end with blanks
  refine ⟨trimStart (text ++ bs'), name, ?_, ?_⟩
  · rw [trimStart_append hbs]
    exact splitTag?_trimStart (htag text)
  · change '\n' ∉ trim (text ++ bs')
    rw [trim_append_blanks hbs']
    exact fun hmem => newline_not_mem_iff.mpr hall (mem_of_mem_trim hmem)

/-- Documentation that the pattern of an opening line fits is tagged, and its text is marked. -/
theorem exists_of_fits_schemeStart {rest : List Char} (hcs : trimStart cs = "///".toList ++ rest)
    (h : schemeStart.Fits behind cs) :
    ∃ before name role, splitTag? (trimStart rest) = some (before, name) ∧
      '\n' ∉ trimEnd before ∧ MarkedAs role (trimEnd before) := by
  obtain ⟨_, h⟩ := exists_fits_of_comment hcs h
  rw [blanks, fits_most_seq] at h
  obtain ⟨bs, rest', hbs, rfl, h⟩ := h
  rw [fits_group_seq, fits_title_seq] at h
  obtain ⟨role, text, rest'', rfl, hends, hall, h⟩ := h
  obtain ⟨bs', name, hbs', htag⟩ := exists_splitTag?_of_fits_tag h
  have htext : trim (role.marker.toList ++ text ++ bs') = role.marker.toList ++ trimEnd text := by
    rw [trim_append_blanks hbs', trim_marker_append]
  refine ⟨trimStart (role.marker.toList ++ text ++ bs'), name, role, ?_, ?_, ?_⟩
  · rw [trimStart_append hbs, ← List.append_assoc]
    exact splitTag?_trimStart (htag _)
  · change '\n' ∉ trim (role.marker.toList ++ text ++ bs')
    rw [htext, List.mem_append, not_or]
    have hmarker : '\n' ∉ role.marker.toList := by cases role <;> decide
    exact ⟨hmarker, fun hmem =>
      newline_not_mem_iff.mpr hall ((trimEnd_isPrefix text).subset hmem)⟩
  · have hprefix : trimEnd text <+: text ++ rest'' :=
      (trimEnd_isPrefix text).trans (List.prefix_append text rest'')
    exact ⟨trimEnd text, htext, wordEnds_of_isPrefix hprefix hends⟩

theorem newline_not_mem_of_fits_doc {rest : List Char}
    (hcs : trimStart cs = "///".toList ++ rest) (h : doc.Fits behind cs) : '\n' ∉ rest := by
  obtain ⟨_, h⟩ := exists_fits_of_comment hcs h
  simp only [fits_group_seq, fits_most_seq, fits_stop] at h
  obtain ⟨text, _, hall, rfl, rfl⟩ := h
  rw [List.append_nil]
  exact newline_not_mem_iff.mpr hall

theorem captures?_doc {rest : List Char} (hcs : trimStart cs = "///".toList ++ rest)
    (hline : '\n' ∉ rest) : doc.captures? [] cs = some [rest] := by
  refine captures?_comment hcs fun behind => ?_
  have hhead : ((most inLine).ways behind (rest ++ [])).head? = some ⟨[], rest, []⟩ :=
    head?_ways_most (newline_not_mem_iff.mp hline) (by simp)
  rw [List.append_nil] at hhead
  exact captures?_seq_of_head? (head?_ways_group hhead) rfl

/-! ### Code -/

theorem codeForm_of_fits_terminator (h : terminator.Fits behind cs) :
    CodeForm (trimStart cs) .terminator := by
  simp only [terminator, blanks, fits_most_seq, fits_chars_seq, fits_chars] at h
  obtain ⟨bs, _, hbs, rfl, _, rfl, bs', _, hbs', rfl, rest, rfl⟩ := h
  rw [List.singleton_append, trimStart_append_cons hbs (by decide)]
  exact .terminator bs' rest hbs'

theorem codeForm_of_fits_enumHeader (h : enumHeader.Fits behind cs) :
    ∃ name, CodeForm (trimStart cs) (.enumHeader name) := by
  simp only [enumHeader, blanks, word, fits_group_seq, fits_most_seq, fits_many_seq,
    fits_chars_seq, fits_chars] at h
  obtain ⟨bs, _, hbs, rfl, _, rfl, bs₁, _, hne₁, hbs₁, rfl, name, _, hne, hall, rfl, bs₂, _, hbs₂,
    rfl, rest, rfl⟩ := h
  refine ⟨String.ofList name, ?_⟩
  rw [trimStart_append hbs, trimStart_append_of_ne_nil (by simp) (by decide)]
  exact .enumHeader bs₁ name bs₂ rest hne₁ hbs₁ ⟨hne, hall⟩ hbs₂

theorem codeForm_of_fits_enumEntry (h : enumEntry.Fits behind cs) :
    ∃ name, CodeForm (trimStart cs) (.enumEntry name) := by
  simp only [enumEntry, blanks, word, fits_group_seq, fits_most_seq, fits_many_seq,
    fits_chars] at h
  obtain ⟨bs, _, hbs, rfl, name, _, hne, hall, rfl, bs', _, hbs', rfl, rest, rfl⟩ := h
  have hname : IsWord name := ⟨hne, hall⟩
  refine ⟨String.ofList name, ?_⟩
  rw [trimStart_append hbs, trimStart_append_of_ne_nil hne hname.trimmed.start]
  exact .enumEntry name bs' rest hname hbs'

theorem captures?_terminator (h : CodeForm (trimStart cs) .terminator) :
    terminator.captures? behind cs = some [] := by
  refine captures?_blanks_trimStart fun _ => ?_
  generalize trimStart cs = text at h
  cases h with
  | terminator bs rest hbs =>
    exact captures?_chars_seq (s := ['\x7d']) (captures?_blanks_chars hbs (by decide))

theorem captures?_enumHeader {name : String} (h : CodeForm (trimStart cs) (.enumHeader name)) :
    enumHeader.captures? behind cs = some [name.toList] := by
  refine captures?_blanks_trimStart fun _ => ?_
  generalize trimStart cs = text at h
  cases h with
  | enumHeader bs name bs' rest hne hbs hname hbs' =>
    have hstop : ∀ c ∈ (name ++ (bs' ++ '\x7b' :: rest)).head?, isBlank c = false := by
      obtain ⟨c, name, rfl⟩ := List.exists_cons_of_ne_nil hname.ne_nil
      simpa using isBlank_eq_false_of_isWordChar (hname.all c List.mem_cons_self)
    rw [show (String.ofList name).toList = name from String.toList_ofList]
    refine captures?_chars_seq ?_
    refine captures?_seq_of_head? (head?_ways_many hne hbs hstop) ?_
    have hends : WordEnds (bs' ++ '\x7b' :: rest) := wordEnds_blanks_append hbs' (by decide) rest
    exact captures?_word_seq hname hends (captures?_blanks_chars hbs' (by decide))

theorem captures?_enumEntry {name : String} (h : CodeForm (trimStart cs) (.enumEntry name)) :
    enumEntry.captures? behind cs = some [name.toList] := by
  refine captures?_blanks_trimStart fun _ => ?_
  generalize trimStart cs = text at h
  cases h with
  | enumEntry name bs rest hname hbs =>
    rw [String.toList_ofList]
    have hends : WordEnds (bs ++ ',' :: rest) := wordEnds_blanks_append hbs (by decide) rest
    exact captures?_word_seq hname hends (captures?_blanks_chars hbs (by decide))

end LinePattern

/-! ### Rules -/

open LinePattern

variable {cs : List Char} {line : Line}

namespace LineRule

theorem read_eq_none {r : LineRule} (h : ¬ r.pattern.Fits [] cs) : r.read cs = none := by
  rw [read, captures?_eq_none_iff.mpr h]
  rfl

theorem exists_of_read_eq_some {r : LineRule} (h : r.read cs = some line) :
    r.pattern.Fits [] cs ∧ ∃ gs, r.pattern.captures? [] cs = some gs ∧ r.line gs = some line := by
  obtain ⟨gs, hgs, hline⟩ := Option.bind_eq_some_iff.mp h
  refine ⟨?_, gs, hgs, hline⟩
  by_contra hfits
  rw [captures?_eq_none_iff.mpr hfits] at hgs
  cases hgs

/-- A rule of code that fits tells the form that the text has. -/
theorem codeForm_of_read {r : LineRule} (hr : r ∈ codes) (h : r.read cs = some line) :
    CodeForm (trimStart cs) line := by
  obtain ⟨hfits, gs, hgs, hline⟩ := exists_of_read_eq_some h
  simp only [codes, List.mem_cons, List.not_mem_nil, or_false] at hr
  rcases hr with rfl | rfl | rfl
  · obtain rfl := Option.some.inj hline
    exact codeForm_of_fits_terminator hfits
  · obtain ⟨name, hform⟩ := codeForm_of_fits_enumHeader hfits
    obtain rfl := Option.some.inj ((captures?_enumHeader hform).symm.trans hgs)
    obtain rfl := Option.some.inj hline
    rwa [String.ofList_toList]
  · obtain ⟨name, hform⟩ := codeForm_of_fits_enumEntry hfits
    obtain rfl := Option.some.inj ((captures?_enumEntry hform).symm.trans hgs)
    obtain rfl := Option.some.inj hline
    rwa [String.ofList_toList]

/-- For each form of code there is a rule. -/
theorem exists_read_of_codeForm (h : CodeForm (trimStart cs) line) :
    ∃ r ∈ codes, r.read cs = some line := by
  cases line with
  | terminator =>
    refine ⟨terminator, by simp [codes], ?_⟩
    rw [read, show terminator.pattern = .terminator from rfl, captures?_terminator h]
    rfl
  | enumHeader name =>
    refine ⟨enumHeader, by simp [codes], ?_⟩
    rw [read, show enumHeader.pattern = .enumHeader from rfl, captures?_enumHeader h]
    simp [enumHeader]
  | enumEntry name =>
    refine ⟨enumEntry, by simp [codes], ?_⟩
    rw [read, show enumEntry.pattern = .enumEntry from rfl, captures?_enumEntry h]
    simp [enumEntry]
  | _ =>
    generalize trimStart cs = text at h
    cases h

/-- **The order of the rules of code** does not matter. -/
theorem findSome?_codes_iff {rules : List LineRule} (hperm : rules.Perm codes) :
    rules.findSome? (·.read cs) = some line ↔ CodeForm (trimStart cs) line := by
  have hsound {line : Line} (h : rules.findSome? (·.read cs) = some line) :
      CodeForm (trimStart cs) line := by
    obtain ⟨r, hr, hread⟩ := List.exists_of_findSome?_eq_some h
    exact codeForm_of_read (hperm.mem_iff.mp hr) hread
  refine ⟨hsound, fun hform => ?_⟩
  obtain ⟨r, hr, hread⟩ := exists_read_of_codeForm hform
  rcases hfound : rules.findSome? (·.read cs) with _ | line'
  · have hnone := List.findSome?_eq_none_iff.mp hfound r (hperm.mem_iff.mpr hr)
    rw [hnone] at hread
    cases hread
  · rw [hfound, (hsound hfound).unique hform]

section Comments

variable {rest : List Char} (hcs : trimStart cs = "///".toList ++ rest)

include hcs

/-- Without a tag the rules of documentation tell plain documentation. -/
theorem findSome?_comments_of_untagged (hsplit : splitTag? (trimStart rest) = none) :
    (comments.findSome? (·.read cs)).getD .other = Line.ofComment rest := by
  have hstart : schemeStart.read cs = none := read_eq_none fun h => by
    obtain ⟨before, name, role, htag, -⟩ := exists_of_fits_schemeStart hcs h
    rw [hsplit] at htag
    cases htag
  have hentry : entryDoc.read cs = none := read_eq_none fun h => by
    obtain ⟨before, name, htag, -⟩ := exists_of_fits_entryDoc hcs h
    rw [hsplit] at htag
    cases htag
  simp only [comments, List.findSome?_cons, List.findSome?_nil]
  rw [hstart, hentry, ofComment_of_untagged hsplit]
  by_cases hline : '\n' ∈ rest
  · have hdoc : doc.read cs = none :=
      read_eq_none fun h => newline_not_mem_of_fits_doc hcs h hline
    rw [hdoc, if_pos hline]
    rfl
  · have hdoc : doc.read cs = some (.doc (String.ofList (trim rest))) := by
      rw [read, show doc.pattern = .doc from rfl, captures?_doc hcs hline]
      rfl
    rw [hdoc, if_neg hline]
    rfl

/-- With a tag they tell by the marker whether the line opens a scheme. -/
theorem findSome?_comments_of_tagged {before name : List Char}
    (hsplit : splitTag? (trimStart rest) = some (before, name)) :
    (comments.findSome? (·.read cs)).getD .other = Line.ofComment rest := by
  simp only [comments, List.findSome?_cons, List.findSome?_nil]
  rw [ofComment_of_tagged hsplit]
  by_cases hline : '\n' ∈ trimEnd before
  · -- no pattern goes over the end of a line
    have hstart : schemeStart.read cs = none := read_eq_none fun h => by
      obtain ⟨before', name', role, htag, hline', -⟩ := exists_of_fits_schemeStart hcs h
      obtain ⟨rfl, rfl⟩ := Prod.mk.inj (Option.some.inj (hsplit.symm.trans htag))
      exact hline' hline
    have hentry : entryDoc.read cs = none := read_eq_none fun h => by
      obtain ⟨before', name', htag, hline'⟩ := exists_of_fits_entryDoc hcs h
      obtain ⟨rfl, rfl⟩ := Prod.mk.inj (Option.some.inj (hsplit.symm.trans htag))
      exact hline' hline
    have hdoc : doc.read cs = none := read_eq_none fun h => by
      have htag : Tagged (trim rest) before name := tagged_trim_iff.mpr hsplit
      exact htag.newline_not_mem (newline_not_mem_of_fits_doc hcs h) hline
    rw [hstart, hentry, hdoc, if_pos hline]
    rfl
  · rw [if_neg hline]
    rcases hrole : markerRole? (trimEnd before) with _ | role
    · have hstart : schemeStart.read cs = none := read_eq_none fun h => by
        obtain ⟨before', name', role, htag, -, hmarked⟩ := exists_of_fits_schemeStart hcs h
        obtain ⟨rfl, rfl⟩ := Prod.mk.inj (Option.some.inj (hsplit.symm.trans htag))
        exact not_markedAs_iff.mp hrole role hmarked
      rw [hstart, read, show entryDoc.pattern = .entryDoc from rfl,
        captures?_entryDoc hcs hsplit hline]
      rfl
    · rw [read, show schemeStart.pattern = .schemeStart from rfl,
        captures?_schemeStart hcs hsplit hline (markerRole?_eq_some_iff.mp hrole)]
      simp [schemeStart]

/-- The rules of documentation tell what is read behind the slashes. -/
theorem findSome?_comments_of_slashes :
    (comments.findSome? (·.read cs)).getD .other = Line.ofComment rest := by
  rcases hsplit : splitTag? (trimStart rest) with _ | ⟨before, name⟩
  · exact findSome?_comments_of_untagged hcs hsplit
  · exact findSome?_comments_of_tagged hcs hsplit

end Comments

/-- Without the slashes the rules of documentation tell nothing. -/
theorem findSome?_comments_eq_none (h : ¬ "///".toList <+: trimStart cs) :
    comments.findSome? (·.read cs) = none := by
  have hfits {p : LinePattern} : ¬ (comment p).Fits [] cs := fun hp => by
    obtain ⟨_, rest, hcs, -⟩ := exists_of_fits_comment hp
    exact h ⟨rest, hcs.symm⟩
  rw [List.findSome?_eq_none_iff]
  simp only [comments, List.forall_mem_cons]
  exact ⟨read_eq_none hfits, read_eq_none hfits, read_eq_none hfits, by simp⟩

end LineRule

/-! ### Lines -/

/-- No form of code begins with slashes. -/
theorem CodeForm.not_isPrefix (h : CodeForm cs line) : ¬ "///".toList <+: cs := by
  rintro ⟨rest, hrest⟩
  have hhead : cs.head? = some '/' := by
    rw [← hrest]
    rfl
  cases h with
  | terminator => cases hhead
  | enumHeader => cases hhead
  | enumEntry name bs rest hname hbs =>
    obtain ⟨c, name, rfl⟩ := List.exists_cons_of_ne_nil hname.ne_nil
    obtain rfl : c = '/' := Option.some.inj hhead
    exact absurd (hname.all _ List.mem_cons_self) (by decide)

/-- **The rules tell every line**, those of code in any order. -/
theorem Line.ofChars_eq_byRules {codes : List LineRule} (h : codes.Perm LineRule.codes)
    (cs : List Char) : ofChars cs = byRules (LineRule.comments ++ codes) cs := by
  rw [byRules, List.findSome?_append]
  by_cases hslashes : "///".toList <+: trimStart cs
  · obtain ⟨rest, hrest⟩ := hslashes
    have hnone : codes.findSome? (·.read cs) = none := by
      rw [Option.eq_none_iff_forall_ne_some]
      exact fun line hline => ((LineRule.findSome?_codes_iff h).mp hline).not_isPrefix ⟨rest, hrest⟩
    rw [hnone, Option.or_none, LineRule.findSome?_comments_of_slashes hrest.symm,
      ofChars_of_slashes hrest.symm]
  · rw [LineRule.findSome?_comments_eq_none hslashes, Option.none_or,
      ofChars_of_not_slashes hslashes]
    rcases hfound : codes.findSome? (·.read cs) with _ | line
    · rw [hfound, Option.getD_none]
      by_contra hne
      have hform := (LineRule.findSome?_codes_iff h).mpr (codeForm_iff.mpr ⟨rfl, hne⟩)
      rw [hfound] at hform
      cases hform
    · rw [hfound, Option.getD_some]
      exact (codeForm_iff.mp ((LineRule.findSome?_codes_iff h).mp hfound)).1

/-- **A line without a newline is read exactly as the grammar says**: it is read as `l` when the
grammar gives it `l`, and then alone. It has one form of code at most, so its reading is what the
patterns tell when those of documentation come first, in whatever order those of code are tried. -/
theorem Line.classify_exact {line : String} (h : '\n' ∉ line.toList) :
    (∀ l, classify line = l ↔ LineGrammar (trimStart line.toList) l) ∧
      (∀ l l', CodeForm (trimStart line.toList) l → CodeForm (trimStart line.toList) l' →
        l = l') ∧
      ∀ codes : List LineRule, codes.Perm LineRule.codes →
        byRules (LineRule.comments ++ codes) line.toList = classify line :=
  ⟨fun _ => classify_eq_iff h, fun _ _ => CodeForm.unique,
    fun _ hperm => (ofChars_eq_byRules hperm line.toList).symm⟩

/-- The tag is what the last brackets hold, and the title goes up to the blanks before them. -/
theorem Line.classify_exact_brackets :
    let line := " \t/// Output arguments [of] a/b  [fOut]\t"
    let l := schemeStart .output "Output arguments [of] a/b" "fOut"
    '\n' ∉ line.toList ∧ LineGrammar (trimStart line.toList) l ∧
      byRules (LineRule.comments ++ LineRule.codes.reverse) line.toList = l := by
  intro line l
  have hline : '\n' ∉ line.toList := by decide
  have hread : classify line = l := by decide +kernel
  obtain ⟨hgrammar, -, hrules⟩ := classify_exact hline
  exact ⟨hline, (hgrammar l).mp hread, (hrules _ (List.reverse_perm _)).trans hread⟩

end ArgumentSchemes.Header
