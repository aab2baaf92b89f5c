import ArgumentSchemes.Header.Line
import ArgumentSchemes.Proofs.Trimming

/-!
# The shapes of header lines

What `Line.classify` gives is always **well formed** (`Line.wellFormed_classify`): its texts are
trimmed and stand in one line, its names are words, the title of an opening line begins with the
marker of its role, and no plain documentation ends in a tag. Conversely every well-formed line has
a written form, `Line.write`, that is classified as that line again (`Line.classify_write`).
-/

namespace ArgumentSchemes.Header

open Text

/-! ### Tags -/

/-- **Tags**: the text in front of the blanks at the end ends in a word in brackets. -/
theorem splitTag?_eq_some_iff {cs before tag : List Char} :
    splitTag? cs = some (before, tag) ↔
      trimEnd cs = before ++ '[' :: (tag ++ [']']) ∧ IsWord tag := by
  constructor
  · intro h
    rw [splitTag?] at h
    split at h
    · next r hr =>
      split at h
      · next tag' before' hspan =>
        split at h
        · cases h
        · next hne =>
          obtain ⟨rfl, rfl⟩ := Prod.mk.inj (Option.some.inj h)
          have hr' : tag' ++ '[' :: before' = r := by simpa [hspan] using spanWord_append r
          refine ⟨?_, by simpa using hne, fun c hc => ?_⟩
          · rw [← List.reverse_reverse (trimEnd cs), hr, ← hr']
            simp
          · have hmem : c ∈ (spanWord r).1 := by
              rw [hspan]
              exact List.mem_reverse.mp hc
            exact isWordChar_of_mem_spanWord hmem
      · cases h
    · cases h
  · rintro ⟨hcs, hne, hall⟩
    have hspan : spanWord (tag.reverse ++ '[' :: before.reverse) =
        (tag.reverse, '[' :: before.reverse) :=
      spanWord_append_of_all (fun c hc => hall c (List.mem_reverse.mp hc))
        (wordEnds_cons (by decide) _)
    simp [splitTag?, hcs, hspan, hne]

/-- A tag, the blanks behind it included. -/
theorem splitTag?_eq_some_iff_blanks {cs before tag : List Char} :
    splitTag? cs = some (before, tag) ↔ IsWord tag ∧
      ∃ bs, (∀ b ∈ bs, isBlank b = true) ∧ cs = before ++ '[' :: (tag ++ ']' :: bs) := by
  rw [splitTag?_eq_some_iff]
  constructor
  · rintro ⟨hcs, hword⟩
    obtain ⟨bs, hbs, heq⟩ := exists_eq_trimEnd_append cs
    refine ⟨hword, bs, hbs, ?_⟩
    rw [heq, hcs]
    simp
  · rintro ⟨hword, bs, hbs, rfl⟩
    refine ⟨?_, hword⟩
    have hcs : before ++ '[' :: (tag ++ ']' :: bs) = before ++ '[' :: (tag ++ [']']) ++ bs := by
      simp
    have hbracket : trimEnd [']'] = [']'] := by decide
    rw [hcs, trimEnd_append hbs]
    simpa using trimEnd_append_of_ne_nil (by simp) hbracket (before ++ '[' :: tag)

/-- A text with no bracket in front changes nothing about a tag. -/
theorem splitTag?_append {front : List Char} (h : '[' ∉ front) (cs : List Char) :
    splitTag? (front ++ cs) = (splitTag? cs).map fun parts => (front ++ parts.1, parts.2) := by
  ext ⟨before, tag⟩
  simp only [Option.map_eq_some_iff, Prod.exists, Prod.mk.injEq, splitTag?_eq_some_iff_blanks]
  constructor
  · rintro ⟨hword, bs, hbs, hcs⟩
    rcases List.append_eq_append_iff.mp hcs with ⟨as, rfl, hcs'⟩ | ⟨as, hfront, hcs'⟩
    · exact ⟨as, tag, ⟨hword, bs, hbs, hcs'⟩, rfl, rfl⟩
    · -- the bracket does not stand in front
      rcases as with _ | ⟨c, as⟩
      · exact ⟨[], tag, ⟨hword, bs, hbs, hcs'.symm⟩, by simpa using hfront, rfl⟩
      · obtain rfl := (List.cons.inj hcs').1
        exact absurd (hfront ▸ List.mem_append_right _ List.mem_cons_self) h
  · rintro ⟨before, tag, ⟨hword, bs, hbs, rfl⟩, rfl, rfl⟩
    exact ⟨hword, bs, hbs, (List.append_assoc _ _ _).symm⟩

theorem bracket_not_mem_of_isBlank {bs : List Char} (hbs : ∀ b ∈ bs, isBlank b = true) :
    '[' ∉ bs := fun h => absurd (hbs '[' h) (by decide)

/-- Blanks in front of a text are no part of a tag. -/
theorem splitTag?_trimStart_eq_none_iff {cs : List Char} :
    splitTag? (trimStart cs) = none ↔ splitTag? cs = none := by
  obtain ⟨bs, hbs, hcs⟩ := exists_eq_append_trimStart cs
  have hsplit := splitTag?_append (bracket_not_mem_of_isBlank hbs) (trimStart cs)
  rw [← hcs] at hsplit
  rw [hsplit, Option.map_eq_none_iff]

/-- A text without a tag has none when it is trimmed either. -/
theorem splitTag?_trim_eq_none {cs : List Char} (h : splitTag? cs = none) :
    splitTag? (trim cs) = none := by
  rw [← splitTag?_trimStart_eq_none_iff] at h
  rwa [trim, splitTag?, trimEnd_trimEnd]

/-- What stands in front of a tag of a trimmed text does not begin with a blank. -/
theorem trimStart_before {cs before tag : List Char}
    (h : splitTag? (trimStart cs) = some (before, tag)) : trimStart before = before := by
  refine trimStart_eq_self_of_prefix ?_ (trimStart_trimStart cs)
  refine List.IsPrefix.trans ?_ (trimEnd_isPrefix (trimStart cs))
  rw [(splitTag?_eq_some_iff.mp h).1]
  exact List.prefix_append _ _

/-- Blanks in front of a text with a tag stand in front of the tag. -/
theorem splitTag?_trimStart {cs before tag : List Char}
    (h : splitTag? cs = some (before, tag)) :
    splitTag? (trimStart cs) = some (trimStart before, tag) := by
  obtain ⟨bs, hbs, hcs⟩ := exists_eq_append_trimStart cs
  rw [hcs, splitTag?_append (bracket_not_mem_of_isBlank hbs), Option.map_eq_some_iff] at h
  obtain ⟨⟨before', tag'⟩, hsplit, heq⟩ := h
  obtain ⟨rfl, rfl⟩ := Prod.mk.inj heq
  rw [hsplit, trimStart_append hbs, trimStart_before hsplit]

/-! ### Markers -/

/-- **Markers**: the text begins with the marker of the role, and no word goes on behind it. -/
theorem markerRole?_eq_some_iff {cs : List Char} {role : Role} :
    markerRole? cs = some role ↔ ∃ rest, cs = role.marker.toList ++ rest ∧ WordEnds rest := by
  constructor
  · intro h
    have hfound := List.find?_some h
    rcases hrest : afterPrefix? role.marker.toList cs with _ | rest
    · simp [hrest] at hfound
    · refine ⟨rest, afterPrefix?_eq_some_iff.mp hrest, fun c hc => ?_⟩
      simpa [hrest, Option.mem_def.mp hc] using hfound
  · rintro ⟨rest, rfl, hends⟩
    have hrest : afterPrefix? role.marker.toList (role.marker.toList ++ rest) = some rest :=
      afterPrefix?_eq_some_iff.mpr rfl
    have hword : rest.head?.any isWordChar = false := by
      rcases h : rest.head? with _ | c
      · rfl
      · exact hends c h
    cases role with
    | input => simp [markerRole?, Role.all, hrest, hword]
    | output =>
      have hinput : afterPrefix? Role.input.marker.toList (Role.output.marker.toList ++ rest) =
          none := by
        simp [afterPrefix?, Role.marker, List.isPrefixOf]
      simp [markerRole?, Role.all, hrest, hinput, hword]

/-- The marker of a role begins and ends with a letter, and holds no bracket. -/
theorem trimmed_marker (role : Role) : Trimmed role.marker.toList := by
  constructor <;> cases role <;> decide

theorem marker_ne_nil (role : Role) : role.marker.toList ≠ [] := by
  cases role <;> decide

theorem bracket_not_mem_marker (role : Role) : '[' ∉ role.marker.toList := by
  cases role <;> decide

/-- Only what stands behind a marker is trimmed. -/
theorem trim_marker_append (role : Role) (cs : List Char) :
    trim (role.marker.toList ++ cs) = role.marker.toList ++ trimEnd cs := by
  rw [trim, trimStart_append_of_ne_nil (marker_ne_nil role) (trimmed_marker role).start,
    trimEnd_append_of_stop (trimmed_marker role).stop]

/-! ### Well-formed lines -/

/-- What the text of a documentation line is: trimmed and in one line. -/
structure IsDocText (text : String) : Prop where
  trimmed : Trimmed text.toList
  oneLine : '\n' ∉ text.toList

/-- The texts and names of a line are such as a line can have. -/
def Line.WellFormed : Line → Prop
  | schemeStart role title name =>
    IsDocText title ∧ markerRole? title.toList = some role ∧ IsWord name.toList
  | entryDoc text tag =>
    IsDocText text ∧ markerRole? text.toList = none ∧ IsWord tag.toList
  | doc text => IsDocText text ∧ splitTag? text.toList = none
  | enumHeader name | enumEntry name => IsWord name.toList
  | terminator | other => True

theorem isDocText_trim {cs : List Char} (h : '\n' ∉ trim cs) :
    IsDocText (String.ofList (trim cs)) where
  trimmed := by rw [String.toList_ofList]; exact trimmed_trim cs
  oneLine := by rw [String.toList_ofList]; exact h

namespace Line

theorem wellFormed_ofComment (cs : List Char) : (ofComment cs).WellFormed := by
  rw [ofComment]
  split
  · next before tag htag =>
    obtain ⟨-, hword⟩ := splitTag?_eq_some_iff.mp htag
    simp only
    split
    · trivial
    · next hline =>
      split
      · next role hrole =>
        exact ⟨isDocText_trim hline, by simpa using hrole, by simpa using hword⟩
      · next hrole =>
        exact ⟨isDocText_trim hline, by simpa using hrole, by simpa using hword⟩
  · next htag =>
    split
    · trivial
    · next hline =>
      refine ⟨isDocText_trim fun h => hline (mem_of_mem_trim h), ?_⟩
      rw [String.toList_ofList]
      exact splitTag?_trim_eq_none htag

theorem isWord_of_enumHeader? {cs name : List Char} (h : enumHeader? cs = some name) :
    IsWord name := by
  rw [enumHeader?] at h
  split at h
  · next rest hrest =>
    simp only [Option.ite_none_right_eq_some, Bool.and_eq_true, Bool.not_eq_eq_eq_not,
      Bool.not_true, List.isEmpty_eq_false_iff] at h
    obtain ⟨⟨⟨-, hne⟩, -⟩, hname⟩ := h
    obtain rfl := Option.some.inj hname
    exact isWord_spanWord hne
  · cases h

theorem isWord_of_enumEntry? {cs name : List Char} (h : enumEntry? cs = some name) :
    IsWord name := by
  simp only [Option.ite_none_right_eq_some, enumEntry?, Bool.and_eq_true,
    Bool.not_eq_eq_eq_not, Bool.not_true, List.isEmpty_eq_false_iff] at h
  obtain ⟨⟨hne, -⟩, hname⟩ := h
  obtain rfl := Option.some.inj hname
  exact isWord_spanWord hne

theorem wellFormed_ofCode (cs : List Char) : (ofCode cs).WellFormed := by
  rw [ofCode.eq_def]
  split
  · split <;> trivial
  · split
    · next name hname =>
      change IsWord (String.ofList name).toList
      rw [String.toList_ofList]
      exact isWord_of_enumHeader? hname
    · split
      · next name hname =>
        change IsWord (String.ofList name).toList
        rw [String.toList_ofList]
        exact isWord_of_enumEntry? hname
      · trivial

/-- **Every line is read as a well-formed one.** -/
theorem wellFormed_classify (line : String) : (classify line).WellFormed := by
  rw [classify, ofChars]
  split
  · exact wellFormed_ofComment _
  · exact wellFormed_ofCode _

end Line

/-! ### Written lines -/

namespace Line

/-- How a line is written. -/
def write : Line → String
  | schemeStart _ title name => "/// " ++ title ++ " [" ++ name ++ "]"
  | entryDoc text tag => "/// " ++ text ++ " [" ++ tag ++ "]"
  | doc text => "/// " ++ text
  | enumHeader name => "enum " ++ name ++ " \x7b"
  | enumEntry name => name ++ ","
  | terminator => "\x7d;"
  | other => ""

theorem ofChars_slashes (cs : List Char) : ofChars ('/' :: '/' :: '/' :: cs) = ofComment cs := by
  have hrest : afterPrefix? ['/', '/', '/'] ('/' :: '/' :: '/' :: cs) = some cs :=
    afterPrefix?_eq_some_iff.mpr rfl
  rw [ofChars, trimStart_cons_eq_self_iff.mpr (by decide), hrest]

/-- A text that does not begin with a blank or a slash is no documentation. -/
theorem ofChars_cons {c : Char} (hblank : isBlank c = false) (hslash : c ≠ '/') (cs : List Char) :
    ofChars (c :: cs) = ofCode (c :: cs) := by
  have hnone : afterPrefix? ['/', '/', '/'] (c :: cs) = none := by
    rw [Option.eq_none_iff_forall_ne_some]
    intro rest h
    exact hslash (List.cons.inj (afterPrefix?_eq_some_iff.mp h)).1
  rw [ofChars, trimStart_cons_eq_self_iff.mpr hblank, hnone]

/-- A tagged text reads as an opening line or as the documentation of an entry. -/
theorem ofComment_tagged {text tag : String} (htext : IsDocText text) (htag : IsWord tag.toList) :
    ofComment (' ' :: text.toList ++ ' ' :: '[' :: (tag.toList ++ [']'])) =
      match markerRole? text.toList with
      | some role => schemeStart role text tag
      | none => entryDoc text tag := by
  have hsplit : splitTag? (' ' :: text.toList ++ ' ' :: '[' :: (tag.toList ++ [']'])) =
      some (' ' :: text.toList ++ [' '], tag.toList) := by
    rw [splitTag?_eq_some_iff]
    refine ⟨?_, htag⟩
    have hbracket : trimEnd [']'] = [']'] := by decide
    simpa using trimEnd_append_of_ne_nil (by simp) hbracket
      (' ' :: text.toList ++ ' ' :: '[' :: tag.toList)
  have htrim : trim (' ' :: text.toList ++ [' ']) = text.toList :=
    htext.trimmed.trim_append [' '] [' '] isBlank_of_mem_space isBlank_of_mem_space
  rw [ofComment, hsplit]
  rcases hrole : markerRole? text.toList with _ | role
  · simp only [htrim, hrole, htext.oneLine, if_false, String.ofList_toList]
  · simp only [htrim, hrole, htext.oneLine, if_false, String.ofList_toList]

theorem ofComment_untagged {text : String} (htext : IsDocText text)
    (htag : splitTag? text.toList = none) : ofComment (' ' :: text.toList) = doc text := by
  have hsplit : splitTag? (' ' :: text.toList) = none := by
    rw [← List.singleton_append, splitTag?_append (by decide), htag, Option.map_none]
  have htrim : trim (' ' :: text.toList) = text.toList := by
    simpa using htext.trimmed.trim_append [' '] [] isBlank_of_mem_space (by simp)
  have hline : '\n' ∉ ' ' :: text.toList := by simpa using htext.oneLine
  rw [ofComment, hsplit]
  simp only [htrim, hline, if_false, String.ofList_toList]

theorem ofCode_enumHeader {name : String} (h : IsWord name.toList) :
    ofCode ('e' :: 'n' :: 'u' :: 'm' :: ' ' :: (name.toList ++ [' ', '{'])) = enumHeader name := by
  have hrest : afterPrefix? ['e', 'n', 'u', 'm']
      ('e' :: 'n' :: 'u' :: 'm' :: ' ' :: (name.toList ++ [' ', '{'])) =
        some (' ' :: (name.toList ++ [' ', '{'])) := afterPrefix?_eq_some_iff.mpr rfl
  have htrim : trimStart (' ' :: (name.toList ++ [' ', '{'])) = name.toList ++ [' ', '{'] := by
    calc trimStart ([' '] ++ (name.toList ++ [' ', '{']))
        = trimStart (name.toList ++ [' ', '{']) := trimStart_append isBlank_of_mem_space _
      _ = name.toList ++ [' ', '{'] := trimStart_append_of_ne_nil h.ne_nil h.trimmed.start _
  have hspan : spanWord (name.toList ++ [' ', '{']) = (name.toList, [' ', '{']) :=
    spanWord_append_of_all h.all (wordEnds_cons (by decide) _)
  have hname : enumHeader? ('e' :: 'n' :: 'u' :: 'm' :: ' ' :: (name.toList ++ [' ', '{'])) =
      some name.toList := by
    have hfirst : startsBlank (' ' :: (name.toList ++ [' ', '{'])) = true := by
      simp only [startsBlank, List.head?_cons]
      decide
    have hlast : continuesWith '{' [' ', '{'] = true := by decide
    simp only [enumHeader?, hrest, htrim, hspan, hfirst, hlast]
    simp [h.ne_nil]
  simp [ofCode, hname]

theorem ofCode_enumEntry {name : String} (h : IsWord name.toList) :
    ofCode (name.toList ++ [',']) = enumEntry name := by
  have hnone : enumHeader? (name.toList ++ [',']) = none := by
    rw [enumHeader?]
    split
    · next rest hrest =>
      have hsub : ∀ c ∈ rest, isBlank c = false := by
        intro c hc
        have hmem : c ∈ name.toList ++ [','] := by
          rw [afterPrefix?_eq_some_iff.mp hrest]
          exact List.mem_append_right _ hc
        rcases List.mem_append.mp hmem with hc | hc
        · exact isBlank_eq_false_of_isWordChar (h.all c hc)
        · obtain rfl := List.mem_singleton.mp hc
          decide
      have hfirst : startsBlank rest = false := by
        cases rest with
        | nil => rfl
        | cons c rest => simpa [startsBlank] using hsub c List.mem_cons_self
      simp [hfirst]
    · rfl
  have hspan : spanWord (name.toList ++ [',']) = (name.toList, [',']) :=
    spanWord_append_of_all h.all (wordEnds_cons (by decide) _)
  have hname : enumEntry? (name.toList ++ [',']) = some name.toList := by
    have hlast : continuesWith ',' [','] = true := by decide
    simp only [hspan, enumEntry?, hlast]
    simp [h.ne_nil]
  obtain ⟨c, cs, hcs⟩ := List.exists_cons_of_ne_nil h.ne_nil
  have hbrace : c ≠ '}' := by
    rintro rfl
    have hword := h.all '}' (by rw [hcs]; exact List.mem_cons_self)
    exact absurd hword (by decide)
  rw [hcs, List.cons_append] at hnone hname ⊢
  rw [ofCode.eq_def]
  split
  · next heq => exact absurd (List.cons.inj heq).1 hbrace
  · rw [hnone, hname, ← hcs]
    simp

/-- The characters of a tagged documentation line. -/
theorem toList_tagged (text tag : String) :
    ("/// " ++ text ++ " [" ++ tag ++ "]").toList =
      '/' :: '/' :: '/' :: (' ' :: text.toList ++ ' ' :: '[' :: (tag.toList ++ [']'])) := by
  simp

/-- **A well-formed line is found again in its written form.** -/
theorem classify_write {line : Line} (h : line.WellFormed) : classify line.write = line := by
  cases line with
  | schemeStart role title name =>
    obtain ⟨htitle, hrole, hname⟩ := h
    rw [classify, write, toList_tagged, ofChars_slashes, ofComment_tagged htitle hname, hrole]
  | entryDoc text tag =>
    obtain ⟨htext, hrole, htag⟩ := h
    rw [classify, write, toList_tagged, ofChars_slashes, ofComment_tagged htext htag, hrole]
  | doc text =>
    obtain ⟨htext, htag⟩ := h
    have hchars : (write (doc text)).toList = '/' :: '/' :: '/' :: ' ' :: text.toList := by
      simp [write]
    rw [classify, hchars, ofChars_slashes, ofComment_untagged htext htag]
  | enumHeader name =>
    have hchars : (write (enumHeader name)).toList =
        'e' :: 'n' :: 'u' :: 'm' :: ' ' :: (name.toList ++ [' ', '{']) := by
      simp [write]
    rw [classify, hchars, ofChars_cons (by decide) (by decide), ofCode_enumHeader h]
  | enumEntry name =>
    have hchars : (write (enumEntry name)).toList = name.toList ++ [','] := by
      simp [write]
    obtain ⟨c, cs, hcs⟩ := List.exists_cons_of_ne_nil h.ne_nil
    have hc : isWordChar c = true := h.all c (by rw [hcs]; exact List.mem_cons_self)
    have hslash : c ≠ '/' := by
      rintro rfl
      exact absurd hc (by decide)
    rw [classify, hchars, ← ofCode_enumEntry h, hcs, List.cons_append,
      ofChars_cons (isBlank_eq_false_of_isWordChar hc) hslash]
  | terminator => decide
  | other => decide

end Line

/-! ### Named documentation -/

/-- The two parts of a named documentation are a word and a text that is trimmed and in one line. -/
theorem shape_of_splitNamedDoc? {text name doc : String}
    (h : splitNamedDoc? text = some (name, doc)) : IsWord name.toList ∧ IsDocText doc := by
  simp only [splitNamedDoc?] at h
  split at h
  · next rest hrest =>
    simp only [Option.ite_none_right_eq_some, Bool.and_eq_true, Bool.not_eq_eq_eq_not,
      Bool.not_true, List.isEmpty_eq_false_iff, decide_eq_false_iff_not] at h
    obtain ⟨⟨⟨⟨hne, -⟩, -⟩, hline⟩, hparts⟩ := h
    obtain ⟨rfl, rfl⟩ := Prod.mk.inj (Option.some.inj hparts)
    rw [String.toList_ofList]
    exact ⟨isWord_spanWord hne, isDocText_trim fun hmem => hline ((trimEnd_isPrefix _).subset hmem)⟩
  · cases h

/-- A name and a description, written with two hyphens between them, are found again. -/
theorem splitNamedDoc?_write {name doc : String} (hname : IsWord name.toList)
    (hdoc : IsDocText doc) :
    splitNamedDoc? (name ++ " -- " ++ doc) = some (name, doc) := by
  have hchars : (name ++ " -- " ++ doc).toList =
      name.toList ++ ' ' :: '-' :: '-' :: ' ' :: doc.toList := by
    simp
  have hspan : spanWord (name.toList ++ ' ' :: '-' :: '-' :: ' ' :: doc.toList) =
      (name.toList, ' ' :: '-' :: '-' :: ' ' :: doc.toList) :=
    spanWord_append_of_all hname.all (wordEnds_cons (by decide) _)
  have htrim : trimStart (' ' :: '-' :: '-' :: ' ' :: doc.toList) =
      '-' :: '-' :: ' ' :: doc.toList :=
    trimStart_append isBlank_of_mem_space ('-' :: '-' :: ' ' :: doc.toList)
  have hrest : afterPrefix? ['-', '-'] ('-' :: '-' :: ' ' :: doc.toList) =
      some (' ' :: doc.toList) := afterPrefix?_eq_some_iff.mpr rfl
  have hdocTrim : trimStart (' ' :: doc.toList) = doc.toList :=
    (trimStart_append isBlank_of_mem_space doc.toList).trans hdoc.trimmed.start
  have hblank : ∀ cs, startsBlank (' ' :: cs) = true := fun cs => by
    simp only [startsBlank, List.head?_cons]
    decide
  simp only [splitNamedDoc?, hchars, hspan, htrim, hrest, hdocTrim, hblank, hdoc.oneLine,
    hdoc.trimmed.stop]
  simp [hname.ne_nil]

end ArgumentSchemes.Header
