import ArgumentSchemes.Proofs.HelperReading

/-!
# The parameter lists of the helpers

A helper has two heads that list the arguments of its scheme: the signature of the native one, and
the first line of the wrapper. Their names are the words that the lines of the annotation give,
taken over as they stand (`Region.names_scheme`), and the arguments are those of the
documentation lines, in order (`Region.argNames_scheme`). Nothing asks whether a name was given
before, so a head can list the same parameter twice.

Main statement: the heads of an accepted scheme are valid exactly when the names in them begin as
identifiers do and no two of its documentation lines give the same name
(`accepted_heads_valid_iff`).
-/

namespace ArgumentSchemes

open Text

/-! ### Names -/

/-- The name begins with a character of the given class, unless it is empty. -/
def Begins (canBegin : Char → Bool) (name : String) : Prop :=
  ∀ c ∈ name.toList.head?, canBegin c = true

instance (canBegin : Char → Bool) (name : String) : Decidable (Begins canBegin name) :=
  decidable_of_iff (name.toList.head?.all canBegin = true) (Option.all_eq_true _ _)

/-- A word that begins with a character of the given class. -/
structure IsIdentifier (canBegin : Char → Bool) (name : String) : Prop where
  isWord : IsWord name.toList
  begins : Begins canBegin name

/-- The head of a function is valid when its names are identifiers and no parameter comes twice. -/
structure ValidHead (canBegin : Char → Bool) (name : String) (params : List String) : Prop where
  isIdentifier : IsIdentifier canBegin name
  identifiers : ∀ param ∈ params, IsIdentifier canBegin param
  distinct : params.Nodup

/-- All names of a scheme. -/
def Scheme.names (s : Scheme) : List String :=
  s.name :: s.group :: s.entries.flatMap fun e => [e.argName, e.constant]

/-- The names in the heads of a helper are names of its scheme. -/
theorem Scheme.mem_names_of_mem_head {s : Scheme} {name : String}
    (h : name ∈ s.name :: s.argNames) : name ∈ s.names := by
  rcases List.mem_cons.mp h with rfl | h
  · exact List.mem_cons_self
  · obtain ⟨e, he, rfl⟩ := List.mem_map.mp h
    exact List.mem_cons_of_mem _ (List.mem_cons_of_mem _ (List.mem_flatMap.mpr ⟨e, he, by simp⟩))

/-- A head of words is valid when they begin as identifiers do and the parameters differ. -/
theorem validHead_iff {canBegin : Char → Bool} {name : String} {params : List String}
    (h : ∀ word ∈ name :: params, IsWord word.toList) :
    ValidHead canBegin name params ↔
      (∀ word ∈ name :: params, Begins canBegin word) ∧ params.Nodup := by
  constructor
  · intro hvalid
    refine ⟨fun word hword => ?_, hvalid.distinct⟩
    rcases List.mem_cons.mp hword with rfl | hword
    · exact hvalid.isIdentifier.begins
    · exact (hvalid.identifiers word hword).begins
  · rintro ⟨hbegins, hdistinct⟩
    have hidentifier : ∀ word ∈ name :: params, IsIdentifier canBegin word :=
      fun word hword => ⟨h word hword, hbegins word hword⟩
    exact ⟨hidentifier name List.mem_cons_self,
      fun param hparam => hidentifier param (List.mem_cons_of_mem name hparam), hdistinct⟩

namespace Header

/-- The name that a mark gives. -/
def Mark.name : Mark → String
  | doc text tag => nameOf text tag
  | constant name => name

/-- The argument that a mark names. -/
def Mark.argument? : Mark → Option String
  | doc text tag => some (nameOf text tag)
  | constant _ => none

namespace Region

/-- The names that the lines of a region give. -/
def names (r : Region) : List String := r.name :: groups r.body ++ (marks r.body).map Mark.name

/-- The arguments that the documentation lines of a region name. -/
def arguments (r : Region) : List String := (marks r.body).filterMap Mark.argument?

end Region

theorem argNames_map_entry (ps : List Spelling) :
    (ps.map Spelling.entry).map (·.argName) =
      (ps.flatMap Spelling.marks).filterMap Mark.argument? := by
  induction ps with
  | nil => rfl
  | cons p ps ih => exact congrArg (p.entry.argName :: ·) ih

theorem names_map_entry (ps : List Spelling) :
    ((ps.map Spelling.entry).flatMap fun e => [e.argName, e.constant]) =
      (ps.flatMap Spelling.marks).map Mark.name := by
  induction ps with
  | nil => rfl
  | cons p ps ih => exact congrArg (p.entry.argName :: p.entry.constant :: ·) ih

namespace Region

variable {r : Region} {marker : String} (h : Conforms r.role marker r.body)

include h

/-- The arguments of a scheme are those that its documentation lines name. -/
theorem argNames_scheme : r.scheme.argNames = r.arguments := by
  obtain ⟨-, ps, hps, -, -⟩ := conforms_iff.mp h
  rw [Scheme.argNames, scheme, arguments, hps, entriesOf_flatMap, argNames_map_entry]

/-- **The names of a scheme** are those that its lines give, in their order. -/
theorem names_scheme : r.scheme.names = r.names := by
  obtain ⟨⟨group, hgroups, -⟩, ps, hps, -, -⟩ := conforms_iff.mp h
  rw [Scheme.names, scheme, names, hgroups, hps, entriesOf_flatMap, names_map_entry]
  rfl

end Region

/-- Every item is that of a region which stands in the header, or the fault of a scheme that is left
open. -/
theorem exists_standsIn_of_mem_parse {checker : Checker} {text : String} {item : Item}
    (h : item ∈ checker.parse text) :
    (∃ (r : Region) (before behind : List Line), r.StandsIn (kinds text) before behind ∧
      checker.check r.draft = item) ∨ ∃ name line, item = .error (.unterminated name line) := by
  obtain ⟨front, back, hitems⟩ := List.append_of_mem h
  refine (Region.exists_standsIn_of_parse_eq hitems).imp_left ?_
  rintro ⟨r, before, behind, hstands, hitem, -⟩
  exact ⟨r, before, behind, hstands, hitem⟩

/-- Every accepted scheme is that of a region which stands in the header. -/
theorem exists_region_of_mem_parse {checker : Checker} {text : String} {s : Scheme}
    (h : .ok s ∈ checker.parse text) :
    ∃ (r : Region) (before behind : List Line), r.StandsIn (kinds text) before behind ∧
      Conforms r.role checker.reservedMarker r.body ∧ s = r.scheme := by
  obtain ⟨r, before, behind, hstands, hitem⟩ | ⟨_, _, hitem⟩ := exists_standsIn_of_mem_parse h
  · obtain ⟨hconforms, rfl⟩ := (Region.check_draft_eq_ok_iff hstands.wellFormed).mp hitem
    exact ⟨r, before, behind, hstands, hconforms, rfl⟩
  · cases hitem

theorem Printable.isWord_of_mem_names {checker : Checker} {s : Scheme} (h : Printable checker s)
    {name : String} (hname : name ∈ s.names) : IsWord name.toList := by
  simp only [Scheme.names, List.mem_cons, List.mem_flatMap, List.not_mem_nil, or_false] at hname
  rcases hname with rfl | rfl | ⟨e, he, rfl | rfl⟩
  · exact h.name
  · exact h.group
  · exact (h.entries e he).argName
  · exact (h.entries e he).constant

end Header

namespace Emit

open Header (Checker Region kinds)

/-- **The heads of a helper** are made of the names that the lines of its scheme give. Every name of
an accepted scheme is a word. The signature of the native helper and the head of the wrapper are
valid exactly when the name of the scheme and the arguments begin as identifiers do and no two
documentation lines give the same argument. So where the lines give identifiers, the names are
identifiers, and the heads are valid exactly when the arguments differ. -/
theorem accepted_heads_valid_iff {checker : Checker} {text : String} {s : Scheme}
    (h : .ok s ∈ checker.parse text) :
    (∀ name ∈ s.names, IsWord name.toList) ∧
      ∃ (r : Region) (before behind : List Header.Line),
        r.StandsIn (kinds text) before behind ∧ s = r.scheme ∧ s.names = r.names ∧
          s.argNames = r.arguments ∧
        ∀ canBegin : Char → Bool,
          ((∀ name ∈ r.names, Begins canBegin name) → ∀ name ∈ s.names,
            IsIdentifier canBegin name) ∧
          (s.entries ≠ [] → ∃ helper function,
            (∃ text, native s = .ok text ∧ readNative? text = some helper) ∧
            (∃ text, wrapper s = .ok text ∧ readWrapper? text = some function) ∧
            (ValidHead canBegin helper.name helper.params ↔
              (∀ name ∈ r.name :: r.arguments, Begins canBegin name) ∧ r.arguments.Nodup) ∧
            (ValidHead canBegin function.name function.params ↔
              (∀ name ∈ r.name :: r.arguments, Begins canBegin name) ∧ r.arguments.Nodup) ∧
            ((∀ name ∈ r.names, Begins canBegin name) →
              (ValidHead canBegin helper.name helper.params ↔ r.arguments.Nodup) ∧
              (ValidHead canBegin function.name function.params ↔ r.arguments.Nodup))) := by
  obtain ⟨r, before, behind, hstands, hconforms, rfl⟩ := Header.exists_region_of_mem_parse h
  have hprintable := Header.printable_of_mem_parse h
  have hword : ∀ name ∈ r.scheme.names, IsWord name.toList :=
    fun name => hprintable.isWord_of_mem_names
  have hnames := Region.names_scheme hconforms
  have hargNames := Region.argNames_scheme hconforms
  refine ⟨hword, r, before, behind, hstands, rfl, hnames, hargNames, fun canBegin => ⟨?_, ?_⟩⟩
  · exact fun hbegins name hname => ⟨hword name hname, hbegins name (hnames ▸ hname)⟩
  intro hne
  have hwords : ∀ name ∈ r.scheme.name :: r.scheme.argNames, IsWord name.toList :=
    fun name hname => hword name (Scheme.mem_names_of_mem_head hname)
  have hvalid : ValidHead canBegin r.scheme.name r.scheme.argNames ↔
      (∀ name ∈ r.name :: r.arguments, Begins canBegin name) ∧ r.arguments.Nodup := by
    rw [validHead_iff hwords, hargNames]
    rfl
  -- where all names begin as identifiers, so do those in the heads
  have hvalid' : (∀ name ∈ r.names, Begins canBegin name) →
      (ValidHead canBegin r.scheme.name r.scheme.argNames ↔ r.arguments.Nodup) := by
    intro hbegins
    rw [hvalid, and_iff_right]
    intro name hname
    refine hbegins name (hnames ▸ Scheme.mem_names_of_mem_head ?_)
    rw [hargNames]
    exact hname
  exact ⟨_, _, ⟨_, native_eq hne, readNative?_native hprintable hne⟩,
    ⟨_, wrapper_eq hne, readWrapper?_wrapper hprintable hne⟩, hvalid, hvalid,
    fun hbegins => ⟨hvalid' hbegins, hvalid' hbegins⟩⟩

/-- Two arguments that are named in either way, the first of them like the scheme itself. -/
theorem accepted_heads_valid_iff_both_shapes :
    let text := "/// Input arguments of f [fIn]\nenum fIn \x7b\n/// fIn -- the one [F_A]\nF_A,\n" ++
      "/// the other [_2]\nF_B,\n\x7d;"
    let s : Scheme :=
      { role := .input, name := "fIn", title := "Input arguments of f", summary := ""
        group := "fIn", entries := [⟨"fIn", "the one", "F_A"⟩, ⟨"_2", "the other", "F_B"⟩] }
    let canBegin : Char → Bool := fun c => c.isAlpha || c == '_'
    .ok s ∈ Checker.parse {} text ∧ (∀ name ∈ s.names, IsIdentifier canBegin name) ∧
      ∃ helper function,
        (∃ text, native s = .ok text ∧ readNative? text = some helper) ∧
        (∃ text, wrapper s = .ok text ∧ readWrapper? text = some function) ∧
        ValidHead canBegin helper.name helper.params ∧
        ValidHead canBegin function.name function.params := by
  intro text s canBegin
  have htext : .ok s ∈ Checker.parse {} text := by decide +kernel
  obtain ⟨-, r, -, -, -, -, hnames, harguments, hheads⟩ := accepted_heads_valid_iff htext
  have hbegins : ∀ name ∈ r.names, Begins canBegin name := by
    rw [← hnames]
    decide +kernel
  have hdistinct : r.arguments.Nodup := by
    rw [← harguments]
    decide +kernel
  obtain ⟨hidentifiers, hheads⟩ := hheads canBegin
  obtain ⟨helper, function, hhelper, hfunction, -, -, hvalid⟩ := hheads (List.cons_ne_nil _ _)
  obtain ⟨hnative, hwrapper⟩ := hvalid hbegins
  exact ⟨htext, hidentifiers hbegins, helper, function, hhelper, hfunction,
    hnative.mpr hdistinct, hwrapper.mpr hdistinct⟩

/-- **A parameter can come twice**: nothing keeps two documentation lines from giving the same
name. -/
theorem argument_named_twice :
    let text := "/// Input arguments of f [fIn]\nenum fIn \x7b\n/// the x [x]\nF_X,\n" ++
      "/// the other x [x]\nF_Y,\n\x7d;"
    let s : Scheme :=
      { role := .input, name := "fIn", title := "Input arguments of f", summary := ""
        group := "fIn", entries := [⟨"x", "the x", "F_X"⟩, ⟨"x", "the other x", "F_Y"⟩] }
    .ok s ∈ Checker.parse {} text ∧ ¬ s.argNames.Nodup ∧
      signatureLine s = "std::vector<M> fIn(const M& x=M(),const M& x=M())\x7b" ∧
      headLine s = "def fIn(x=[],x=[]):" := by
  decide +kernel

/-- **A parameter can begin with a digit**: a name is any word, so the heads are valid only where
the lines give names that begin as identifiers do. -/
theorem argument_begins_with_digit :
    let text := "/// Input arguments of f [fIn]\nenum fIn \x7b\n/// the x [2x]\nF_X,\n\x7d;"
    let s : Scheme :=
      { role := .input, name := "fIn", title := "Input arguments of f", summary := ""
        group := "fIn", entries := [⟨"2x", "the x", "F_X"⟩] }
    .ok s ∈ Checker.parse {} text ∧ ¬ Begins (fun c => c.isAlpha || c == '_') "2x" ∧
      signatureLine s = "std::vector<M> fIn(const M& 2x=M())\x7b" ∧
      headLine s = "def fIn(2x=[]):" := by
  decide +kernel

end Emit

end ArgumentSchemes
