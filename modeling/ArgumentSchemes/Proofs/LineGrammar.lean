import ArgumentSchemes.Proofs.LineShapes

/-!
# The grammar of header lines

What a line without its leading blanks says is told by a relation, `LineGrammar`, that takes the
line apart in all possible ways: documentation into what stands in front of a tag and the tag, and
code into the parts of one of three beginnings (`CodeForm`). A text has one tag at most, because a
word holds no bracket, and it has one of the three beginnings at most, because a name ends where a
blank stands (`CodeForm.unique`).

Main statement: a line without a newline is read as the grammar says, and the grammar gives nothing
else (`Line.classify_eq_iff`).
-/

namespace ArgumentSchemes.Header

open Text

/-! ### The relation -/

/-- A text begins with the marker of a role, and no word goes on behind it. -/
def MarkedAs (role : Role) (text : List Char) : Prop :=
  ∃ rest, text = role.marker.toList ++ rest ∧ WordEnds rest

/-- A text ends in a word in brackets. -/
structure Tagged (text before tag : List Char) : Prop where
  eq : text = before ++ '[' :: (tag ++ [']'])
  isWord : IsWord tag

/-- **The beginnings of code** that count, with what they say. -/
inductive CodeForm : List Char → Line → Prop
  | terminator (bs rest : List Char) (hbs : ∀ b ∈ bs, isBlank b = true) :
      CodeForm ('\x7d' :: (bs ++ ';' :: rest)) .terminator
  | enumHeader (bs name bs' rest : List Char) (hne : bs ≠ []) (hbs : ∀ b ∈ bs, isBlank b = true)
      (hname : IsWord name) (hbs' : ∀ b ∈ bs', isBlank b = true) :
      CodeForm ("enum".toList ++ (bs ++ (name ++ (bs' ++ '\x7b' :: rest))))
        (.enumHeader (String.ofList name))
  | enumEntry (name bs rest : List Char) (hname : IsWord name)
      (hbs : ∀ b ∈ bs, isBlank b = true) :
      CodeForm (name ++ (bs ++ ',' :: rest)) (.enumEntry (String.ofList name))

/-- **The grammar** of a line without its leading blanks. -/
inductive LineGrammar : List Char → Line → Prop
  | schemeStart (rest before tag : List Char) (role : Role)
      (htag : Tagged (trim rest) before tag) (hrole : MarkedAs role (trimEnd before)) :
      LineGrammar ("///".toList ++ rest)
        (.schemeStart role (String.ofList (trimEnd before)) (String.ofList tag))
  | entryDoc (rest before tag : List Char) (htag : Tagged (trim rest) before tag)
      (hrole : ∀ role, ¬ MarkedAs role (trimEnd before)) :
      LineGrammar ("///".toList ++ rest)
        (.entryDoc (String.ofList (trimEnd before)) (String.ofList tag))
  | doc (rest : List Char) (htag : ∀ before tag, ¬ Tagged (trim rest) before tag) :
      LineGrammar ("///".toList ++ rest) (.doc (String.ofList (trim rest)))
  | code (cs : List Char) (line : Line) (hslashes : ¬ "///".toList <+: cs)
      (hform : CodeForm cs line) : LineGrammar cs line
  | other (cs : List Char) (hslashes : ¬ "///".toList <+: cs)
      (hform : ∀ line, ¬ CodeForm cs line) : LineGrammar cs .other

/-! ### Code -/

theorem continuesWith_iff {c : Char} (hc : isBlank c = false) {cs : List Char} :
    continuesWith c cs = true ↔
      ∃ bs rest, (∀ b ∈ bs, isBlank b = true) ∧ cs = bs ++ c :: rest := by
  rw [continuesWith, beq_iff_eq]
  constructor
  · intro h
    obtain ⟨bs, hbs, hcs⟩ := exists_eq_append_trimStart cs
    obtain ⟨rest, hrest⟩ := List.head?_eq_some_iff.mp h
    exact ⟨bs, rest, hbs, hrest ▸ hcs⟩
  · rintro ⟨bs, rest, hbs, rfl⟩
    rw [trimStart_append_cons hbs hc, List.head?_cons]

theorem enumEntry?_eq_some_iff {cs name : List Char} :
    enumEntry? cs = some name ↔ IsWord name ∧
      ∃ bs rest, (∀ b ∈ bs, isBlank b = true) ∧ cs = name ++ (bs ++ ',' :: rest) := by
  have hcomma : isBlank ',' = false := by decide
  constructor
  · intro h
    refine ⟨Line.isWord_of_enumEntry? h, ?_⟩
    simp only [Option.ite_none_right_eq_some, enumEntry?, Bool.and_eq_true] at h
    obtain ⟨⟨-, hlast⟩, hname⟩ := h
    obtain rfl := Option.some.inj hname
    obtain ⟨bs, rest, hbs, hafter⟩ := (continuesWith_iff hcomma).mp hlast
    exact ⟨bs, rest, hbs, by rw [← hafter, spanWord_append]⟩
  · rintro ⟨hname, bs, rest, hbs, rfl⟩
    have hspan := spanWord_append_of_all hname.all
      (wordEnds_blanks_append hbs (show isWordChar ',' = false by decide) rest)
    have hlast : continuesWith ',' (bs ++ ',' :: rest) = true :=
      (continuesWith_iff hcomma).mpr ⟨bs, rest, hbs, rfl⟩
    simp only [hspan, enumEntry?, hlast]
    simp [hname.ne_nil]

theorem startsBlank_append {bs : List Char} (hne : bs ≠ []) (hbs : ∀ b ∈ bs, isBlank b = true)
    (rest : List Char) : startsBlank (bs ++ rest) = true := by
  obtain ⟨b, bs, rfl⟩ := List.exists_cons_of_ne_nil hne
  simpa [startsBlank] using hbs b List.mem_cons_self

theorem enumHeader?_eq_some_iff {cs name : List Char} :
    enumHeader? cs = some name ↔ IsWord name ∧
      ∃ bs bs' rest, bs ≠ [] ∧ (∀ b ∈ bs, isBlank b = true) ∧ (∀ b ∈ bs', isBlank b = true) ∧
        cs = "enum".toList ++ (bs ++ (name ++ (bs' ++ '{' :: rest))) := by
  have hbrace : isBlank '{' = false := by decide
  constructor
  · intro h
    refine ⟨Line.isWord_of_enumHeader? h, ?_⟩
    rw [enumHeader?] at h
    split at h
    · next rest hrest =>
      simp only [Option.ite_none_right_eq_some, Bool.and_eq_true] at h
      obtain ⟨⟨⟨hfirst, -⟩, hlast⟩, hname⟩ := h
      obtain rfl := Option.some.inj hname
      obtain ⟨bs, hbs, hrest'⟩ := exists_eq_append_trimStart rest
      obtain ⟨bs', rest', hbs', hafter⟩ := (continuesWith_iff hbrace).mp hlast
      refine ⟨bs, bs', rest', ?_, hbs, hbs', ?_⟩
      · rintro rfl
        -- a text that starts with a blank is not trimmed
        rw [List.nil_append] at hrest'
        rcases rest with _ | ⟨c, rest⟩
        · cases hfirst
        · rw [startsBlank, List.head?_cons, Option.any_some,
            trimStart_cons_eq_self_iff.mp hrest'.symm] at hfirst
          cases hfirst
      · rw [← hafter, spanWord_append, ← hrest']
        exact afterPrefix?_eq_some_iff.mp hrest
    · cases h
  · rintro ⟨hname, bs, bs', rest, hne, hbs, hbs', rfl⟩
    have hrest : afterPrefix? ['e', 'n', 'u', 'm']
        ("enum".toList ++ (bs ++ (name ++ (bs' ++ '{' :: rest)))) =
          some (bs ++ (name ++ (bs' ++ '{' :: rest))) := afterPrefix?_eq_some_iff.mpr rfl
    have htrim : trimStart (bs ++ (name ++ (bs' ++ '{' :: rest))) =
        name ++ (bs' ++ '{' :: rest) :=
      (trimStart_append hbs _).trans
        (trimStart_append_of_ne_nil hname.ne_nil hname.trimmed.start _)
    have hspan := spanWord_append_of_all hname.all
      (wordEnds_blanks_append hbs' (show isWordChar '{' = false by decide) rest)
    have hfirst := startsBlank_append hne hbs (name ++ (bs' ++ '{' :: rest))
    have hlast : continuesWith '{' (bs' ++ '{' :: rest) = true :=
      (continuesWith_iff hbrace).mpr ⟨bs', rest, hbs', rfl⟩
    simp only [enumHeader?, hrest, htrim, hspan, hfirst, hlast]
    simp [hname.ne_nil]

/-- **The head of an enum is no member of one**: its first word ends at a blank, and behind the
blanks there stands another word where a member has its comma. -/
theorem enumHeader?_eq_none_of_enumEntry? {cs name : List Char} (h : enumEntry? cs = some name) :
    enumHeader? cs = none := by
  obtain ⟨hname, bs, rest, hbs, hcs⟩ := enumEntry?_eq_some_iff.mp h
  rw [Option.eq_none_iff_forall_ne_some]
  intro name' h'
  obtain ⟨hname', bs', bs'', rest', hne, hbs', -, hcs'⟩ := enumHeader?_eq_some_iff.mp h'
  have hends : WordEnds (bs' ++ (name' ++ (bs'' ++ '{' :: rest'))) := by
    obtain ⟨b, bs', rfl⟩ := List.exists_cons_of_ne_nil hne
    exact wordEnds_cons (isWordChar_eq_false_of_isBlank (hbs' b List.mem_cons_self)) _
  have hspan := spanWord_append_of_all hname.all
    (wordEnds_blanks_append hbs (show isWordChar ',' = false by decide) rest)
  have henum : ∀ c ∈ "enum".toList, isWordChar c = true := List.all_eq_true.mp (by decide)
  have hspan' := spanWord_append_of_all henum hends
  rw [← hcs] at hspan
  rw [← hcs', hspan, Prod.mk.injEq] at hspan'
  have htrim : trimStart (bs ++ ',' :: rest) =
      trimStart (bs' ++ (name' ++ (bs'' ++ '{' :: rest'))) := congrArg trimStart hspan'.2
  rw [trimStart_append_cons hbs (by decide), trimStart_append hbs',
    trimStart_append_of_ne_nil hname'.ne_nil hname'.trimmed.start] at htrim
  obtain ⟨c, cs', rfl⟩ := List.exists_cons_of_ne_nil hname'.ne_nil
  obtain rfl := (List.cons.inj htrim).1
  exact absurd (hname'.all ',' List.mem_cons_self) (by decide)

/-- What begins with no brace is the head of an enum or a member of one, if anything. -/
theorem ofCode_of_head?_ne {cs : List Char} (h : cs.head? ≠ some '\x7d') :
    Line.ofCode cs =
      match enumHeader? cs, enumEntry? cs with
      | some name, _ => .enumHeader (String.ofList name)
      | none, some name => .enumEntry (String.ofList name)
      | none, none => .other := by
  rw [Line.ofCode.eq_def]
  split
  · exact absurd rfl h
  · rcases enumHeader? cs with _ | name
    · rcases enumEntry? cs with _ | name <;> rfl
    · rfl

/-- Code is read as the form says that it has, and what has no form is nothing. -/
theorem codeForm_iff {cs : List Char} {line : Line} :
    CodeForm cs line ↔ Line.ofCode cs = line ∧ line ≠ .other := by
  have hsemicolon : isBlank ';' = false := by decide
  constructor
  · rintro (⟨bs, rest, hbs⟩ | ⟨bs, name, bs', rest, hne, hbs, hname, hbs'⟩ |
      ⟨name, bs, rest, hname, hbs⟩)
    · have hlast : continuesWith ';' (bs ++ ';' :: rest) = true :=
        (continuesWith_iff hsemicolon).mpr ⟨bs, rest, hbs, rfl⟩
      simp [Line.ofCode, hlast]
    · have hheader := enumHeader?_eq_some_iff.mpr ⟨hname, bs, bs', rest, hne, hbs, hbs', rfl⟩
      refine ⟨?_, by simp⟩
      rw [ofCode_of_head?_ne (by simp), hheader]
    · -- the head of an enum is looked for first, but a member is none
      have hentry := enumEntry?_eq_some_iff.mpr ⟨hname, bs, rest, hbs, rfl⟩
      refine ⟨?_, by simp⟩
      rw [ofCode_of_head?_ne, enumHeader?_eq_none_of_enumEntry? hentry, hentry]
      obtain ⟨c, cs', rfl⟩ := List.exists_cons_of_ne_nil hname.ne_nil
      rintro hbrace
      obtain rfl : c = '\x7d' := Option.some.inj hbrace
      exact absurd (hname.all _ List.mem_cons_self) (by decide)
  · rintro ⟨rfl, hne⟩
    by_cases hbrace : cs.head? = some '\x7d'
    · obtain ⟨rest, rfl⟩ := List.head?_eq_some_iff.mp hbrace
      rw [Line.ofCode] at hne ⊢
      split at hne
      · next hlast =>
        obtain ⟨bs, rest, hbs, rfl⟩ := (continuesWith_iff hsemicolon).mp hlast
        rw [if_pos hlast]
        exact .terminator bs rest hbs
      · exact absurd rfl hne
    · rw [ofCode_of_head?_ne hbrace] at hne ⊢
      rcases hheader : enumHeader? cs with _ | name
      · rcases hentry : enumEntry? cs with _ | name
        · simp [hheader, hentry] at hne
        · obtain ⟨hname, bs, rest, hbs, rfl⟩ := enumEntry?_eq_some_iff.mp hentry
          exact .enumEntry name bs rest hname hbs
      · obtain ⟨hname, bs, bs', rest, hblank, hbs, hbs', rfl⟩ :=
          enumHeader?_eq_some_iff.mp hheader
        exact .enumHeader bs name bs' rest hblank hbs hname hbs'

/-- **A text has one of the forms at most.** -/
theorem CodeForm.unique {cs : List Char} {line line' : Line} (h : CodeForm cs line)
    (h' : CodeForm cs line') : line = line' :=
  (codeForm_iff.mp h).1.symm.trans (codeForm_iff.mp h').1

/-! ### Documentation -/

theorem tagged_trim_iff {rest before tag : List Char} :
    Tagged (trim rest) before tag ↔ splitTag? (trimStart rest) = some (before, tag) := by
  rw [splitTag?_eq_some_iff]
  exact ⟨fun h => ⟨h.eq, h.isWord⟩, fun h => ⟨h.1, h.2⟩⟩

/-- Documentation with a tag opens a scheme, when its text is marked, or documents an entry. -/
theorem ofComment_of_tagged {rest before tag : List Char}
    (h : splitTag? (trimStart rest) = some (before, tag)) :
    Line.ofComment rest =
      if '\n' ∈ trimEnd before then .other
      else match markerRole? (trimEnd before) with
        | some role =>
          .schemeStart role (String.ofList (trimEnd before)) (String.ofList tag)
        | none => .entryDoc (String.ofList (trimEnd before)) (String.ofList tag) := by
  obtain ⟨bs, hbs, hrest⟩ := exists_eq_append_trimStart rest
  have hsplit : splitTag? rest = some (bs ++ before, tag) := by
    rw [hrest, splitTag?_append (bracket_not_mem_of_isBlank hbs), h, Option.map_some]
  have htrim : trim (bs ++ before) = trimEnd before := by
    rw [trim, trimStart_append hbs, trimStart_before h]
  by_cases hline : '\n' ∈ trimEnd before
  · simp [Line.ofComment, hsplit, htrim, hline]
  · rcases hrole : markerRole? (trimEnd before) with _ | role
    · simp [Line.ofComment, hsplit, htrim, hline, hrole]
    · simp [Line.ofComment, hsplit, htrim, hline, hrole]

/-- Documentation without a tag is plain. -/
theorem ofComment_of_untagged {rest : List Char} (h : splitTag? (trimStart rest) = none) :
    Line.ofComment rest =
      if '\n' ∈ rest then .other else .doc (String.ofList (trim rest)) := by
  rw [Line.ofComment, splitTag?_trimStart_eq_none_iff.mp h]

theorem not_markedAs_iff {text : List Char} :
    markerRole? text = none ↔ ∀ role, ¬ MarkedAs role text := by
  rw [Option.eq_none_iff_forall_ne_some]
  exact forall_congr' fun role => not_congr markerRole?_eq_some_iff

/-! ### Lines -/

theorem ofChars_of_slashes {cs rest : List Char} (h : trimStart cs = "///".toList ++ rest) :
    Line.ofChars cs = Line.ofComment rest := by
  have hrest : afterPrefix? ['/', '/', '/'] (trimStart cs) = some rest :=
    afterPrefix?_eq_some_iff.mpr h
  rw [Line.ofChars, hrest]

theorem ofChars_of_not_slashes {cs : List Char} (h : ¬ "///".toList <+: trimStart cs) :
    Line.ofChars cs = Line.ofCode (trimStart cs) := by
  have hnone : afterPrefix? ['/', '/', '/'] (trimStart cs) = none := by
    rw [Option.eq_none_iff_forall_ne_some]
    exact fun rest hrest => h ⟨rest, (afterPrefix?_eq_some_iff.mp hrest).symm⟩
  rw [Line.ofChars, hnone]

/-- In a line, what stands in front of a tag holds no newline. -/
theorem Tagged.newline_not_mem {rest before tag : List Char} (h : Tagged (trim rest) before tag)
    (hline : '\n' ∉ rest) : '\n' ∉ trimEnd before := by
  intro hmem
  have htrim : '\n' ∈ trim rest := by
    rw [h.eq]
    exact List.mem_append_left _ ((trimEnd_isPrefix before).subset hmem)
  exact hline (mem_of_mem_trim htrim)

/-- Documentation in one line is read as the grammar says. -/
theorem lineGrammar_ofComment {rest : List Char} (h : '\n' ∉ rest) :
    LineGrammar ("///".toList ++ rest) (Line.ofComment rest) := by
  rcases hsplit : splitTag? (trimStart rest) with _ | ⟨before, tag⟩
  · rw [ofComment_of_untagged hsplit, if_neg h]
    refine .doc rest fun before tag htag => ?_
    rw [tagged_trim_iff, hsplit] at htag
    cases htag
  · have htag : Tagged (trim rest) before tag := tagged_trim_iff.mpr hsplit
    rw [ofComment_of_tagged hsplit, if_neg (htag.newline_not_mem h)]
    rcases hrole : markerRole? (trimEnd before) with _ | role
    · exact .entryDoc rest before tag htag (not_markedAs_iff.mp hrole)
    · exact .schemeStart rest before tag role htag (markerRole?_eq_some_iff.mp hrole)

/-- Code is read as the grammar says. -/
theorem lineGrammar_ofCode {cs : List Char} (h : ¬ "///".toList <+: cs) :
    LineGrammar cs (Line.ofCode cs) := by
  by_cases hother : Line.ofCode cs = .other
  · rw [hother]
    exact .other cs h fun line hform => (codeForm_iff.mp hform).2
      ((codeForm_iff.mp hform).1.symm.trans hother)
  · exact .code cs _ h (codeForm_iff.mpr ⟨rfl, hother⟩)

/-- The grammar gives a line nothing but its reading. -/
theorem LineGrammar.eq_ofChars {cs : List Char} {line : Line}
    (h : LineGrammar (trimStart cs) line) (hline : '\n' ∉ cs) : line = Line.ofChars cs := by
  have hrest : ∀ {rest}, "///".toList ++ rest = trimStart cs → '\n' ∉ rest := fun heq hmem =>
    hline ((trimStart_suffix cs).subset (heq ▸ List.mem_append_right _ hmem))
  generalize hcs : trimStart cs = text at h
  cases h with
  | schemeStart rest before tag role htag hrole =>
    rw [ofChars_of_slashes hcs, ofComment_of_tagged (tagged_trim_iff.mp htag),
      if_neg (htag.newline_not_mem (hrest hcs.symm)), markerRole?_eq_some_iff.mpr hrole]
  | entryDoc rest before tag htag hrole =>
    rw [ofChars_of_slashes hcs, ofComment_of_tagged (tagged_trim_iff.mp htag),
      if_neg (htag.newline_not_mem (hrest hcs.symm)), not_markedAs_iff.mpr hrole]
  | doc rest htag =>
    have hsplit : splitTag? (trimStart rest) = none := by
      rw [Option.eq_none_iff_forall_ne_some]
      exact fun parts hparts => htag parts.1 parts.2 (tagged_trim_iff.mpr hparts)
    rw [ofChars_of_slashes hcs, ofComment_of_untagged hsplit, if_neg (hrest hcs.symm)]
  | code _ _ hslashes hform =>
    rw [ofChars_of_not_slashes (hcs ▸ hslashes), hcs, (codeForm_iff.mp hform).1]
  | other _ hslashes hform =>
    rw [ofChars_of_not_slashes (hcs ▸ hslashes), hcs]
    by_contra hother
    exact hform _ (codeForm_iff.mpr ⟨rfl, Ne.symm hother⟩)

/-- **A line is read as the grammar says**, and the grammar says nothing else of it. -/
theorem Line.classify_eq_iff {line : String} (h : '\n' ∉ line.toList) {l : Line} :
    classify line = l ↔ LineGrammar (trimStart line.toList) l := by
  constructor
  · rintro rfl
    by_cases hslashes : "///".toList <+: trimStart line.toList
    · obtain ⟨rest, hrest⟩ := hslashes
      have hline : '\n' ∉ rest := fun hmem =>
        h ((trimStart_suffix _).subset (hrest ▸ List.mem_append_right _ hmem))
      rw [classify, ofChars_of_slashes hrest.symm, ← hrest]
      exact lineGrammar_ofComment hline
    · rw [classify, ofChars_of_not_slashes hslashes]
      exact lineGrammar_ofCode hslashes
  · exact fun hgrammar => (hgrammar.eq_ofChars h).symm

end ArgumentSchemes.Header
