import ArgumentSchemes.Emit.Artifact
import ArgumentSchemes.Proofs.Delimiters
import ArgumentSchemes.Proofs.Printing

/-!
# The lines of the targets

What a target writes for a scheme is a list of lines (`native_eq`, `wrapper_eq`, `binding_eq`). The
texts of an accepted scheme stand in one line each, and its names are words, so none of these lines
can be taken for two, and the texts are read as the lines they were written from
(`lines_native`, `lines_wrapper`, `lines_binding`).

Documentation never gets among the code: every line of it begins with three slashes in the native
header (`isDoc_of_mem_nativeDoc`), and with a blank in a wrapper, unless it is empty
(`eq_empty_or_indented`).
-/

namespace ArgumentSchemes

namespace Text

theorem mem_joinWith {separator : String} {texts : List String} {c : Char}
    (h : c ∈ (joinWith separator texts).toList) :
    c ∈ separator.toList ∨ ∃ text ∈ texts, c ∈ text.toList := by
  rw [joinWith, String.toList_intercalate] at h
  induction texts with
  | nil => simp at h
  | cons text texts ih =>
    cases texts with
    | nil => exact .inr ⟨text, List.mem_cons_self, by simpa using h⟩
    | cons next texts =>
      rw [List.map_cons, List.map_cons, List.intercalate_cons_cons] at h
      rcases List.mem_append.mp h with h | h
      · rcases List.mem_append.mp h with h | h
        · exact .inr ⟨text, List.mem_cons_self, h⟩
        · exact .inl h
      · rcases ih (by simpa using h) with h | ⟨text', htext', h⟩
        · exact .inl h
        · exact .inr ⟨text', List.mem_cons_of_mem _ htext', h⟩

theorem not_mem_joinWith {separator : String} {texts : List String} {c : Char}
    (hseparator : c ∉ separator.toList) (htexts : ∀ text ∈ texts, c ∉ text.toList) :
    c ∉ (joinWith separator texts).toList := by
  intro h
  rcases mem_joinWith h with h | ⟨text, htext, h⟩
  · exact hseparator h
  · exact htexts text htext h

end Text

namespace Emit

open Text
open Header (Checker Printable IsDocText)

/-! ### The lines of a scheme -/

/-- The lines of a native helper. -/
def nativeLines (s : Scheme) : List String := nativeDoc s ++ nativeBody s

/-- The head of a native helper. -/
def signatureLine (s : Scheme) : String :=
  let params := joinWith "," (s.argNames.map fun name => s!"const M& {name}=M()")
  s!"std::vector<M> {s.name}({params})\x7b"

/-- The array that holds the arguments of a native helper. -/
def arrayLine (s : Scheme) : String :=
  let args := joinWith "," s.argNames
  s!"  M ret[{s.arity}] = \x7b{args}\x7d;"

/-- What a native helper returns. -/
def resultLine (s : Scheme) : String := s!"  return std::vector<M>(ret,ret+{s.arity});"

/-- The head of a wrapper. -/
def headLine (s : Scheme) : String :=
  let params := joinWith "," (s.argNames.map fun name => s!"{name}=[]")
  s!"def {s.name}({params}):"

/-- What a wrapper returns. -/
def returnLine (s : Scheme) : String :=
  let args := joinWith "," s.argNames
  s!"  return [{args}]"

/-- The lines of a wrapper. -/
def wrapperLines (s : Scheme) : List String := headLine s :: docstring s ++ [returnLine s]

/-- The line that instantiates the helper of a scheme for a type. -/
def templateLine (s : Scheme) (type : String) : String := s!"%template({s.name}) {s.name}<{type}>;"

/-- The lines of the instantiations. -/
def bindingLines (b : BindingSettings) (s : Scheme) : List String :=
  s!"namespace {b.scope} \x7b" :: b.valueTypes.map (templateLine s) ++ ["\x7d"]

theorem linesFor_of_ne_nil {s : Scheme} (h : s.entries ≠ []) (ls : List String) :
    linesFor s ls = .ok (unlines ls) := by
  rw [linesFor, if_neg (by simpa using h)]

section Written

variable {s : Scheme} (h : s.entries ≠ [])

include h

theorem native_eq : native s = .ok (unlines (nativeLines s)) := linesFor_of_ne_nil h _

theorem wrapper_eq : wrapper s = .ok (unlines (wrapperLines s)) := linesFor_of_ne_nil h _

theorem binding_eq (b : BindingSettings) : b.binding s = .ok (unlines (bindingLines b s)) :=
  linesFor_of_ne_nil h _

end Written

/-! ### The lines of the artifacts -/

/-- The block of a scheme in the binding interface. -/
def blockText (b : BindingSettings) (s : Scheme) : String :=
  "%pythoncode %\x7b\n" ++ unlines (wrapperLines s) ++ "%\x7d\n" ++ "#ifndef SWIGPYTHON\n" ++
    unlines (bindingLines b s) ++ "#endif //SWIGPYTHON\n"

theorem bindingBlock_eq {s : Scheme} (h : s.entries ≠ []) (b : BindingSettings) :
    bindingBlock b s = .ok (blockText b s) := by
  rw [bindingBlock, wrapper_eq h, binding_eq h]
  rfl

/-- **The artifacts** hold the texts of all schemes, in order. -/
theorem assemble_eq {schemes : List Scheme} (h : ∀ s ∈ schemes, s.entries ≠ [])
    (o : ArtifactOptions) (b : BindingSettings) :
    assemble schemes o b =
      .ok { native := o.nativeFile (schemes.map fun s => unlines (nativeLines s))
            binding := o.bindingFile (schemes.map (blockText b)) } := by
  rw [assemble, mapM_eq_pure fun s hs => native_eq (h s hs),
    mapM_eq_pure fun s hs => bindingBlock_eq (h s hs) b]
  rfl

/-! ### Documentation -/

/-- Whether a line of a native header is documentation. -/
def isDoc (line : String) : Bool := ['/', '/', '/'].isPrefixOf line.toList

theorem toList_docLine (text : String) :
    (docLine text).toList = '/' :: '/' :: '/' :: trimEnd (' ' :: text.toList) := by
  have hchars : ("/// " ++ text).toList = ['/', '/', '/'] ++ ' ' :: text.toList := by simp
  rw [docLine, String.toList_ofList, hchars, trimEnd_append_of_stop (by decide)]
  rfl

theorem isDoc_of_mem_nativeDoc {s : Scheme} {l : String} (h : l ∈ nativeDoc s) :
    isDoc l = true := by
  simp only [nativeDoc, List.mem_append, List.mem_map, List.mem_cons, List.not_mem_nil,
    or_false] at h
  rcases h with (rfl | ⟨text, -, rfl⟩) | rfl | rfl
  · simp [isDoc, toString]
  · simp [isDoc, toList_docLine]
  · decide
  · simp [isDoc, toString]

theorem isDoc_of_mem_nativeBody {s : Scheme} {l : String} (h : l ∈ nativeBody s) :
    isDoc l = false := by
  simp only [nativeBody, List.mem_cons, List.not_mem_nil, or_false] at h
  rcases h with rfl | rfl | rfl | rfl | rfl
  · decide
  · simp [isDoc, List.isPrefixOf, toString]
  · simp [isDoc, List.isPrefixOf, toString]
  · simp [isDoc, List.isPrefixOf, toString]
  · decide

theorem mem_of_mem_dropBreaks {cs : List Char} {c : Char} (h : c ∈ dropBreaks cs) : c ∈ cs := by
  fun_induction dropBreaks cs with
  | case1 rest ih => exact List.mem_cons_of_mem _ (List.mem_cons_of_mem _ (ih h))
  | case2 d rest hbreak ih =>
    rcases List.mem_cons.mp h with rfl | h
    · exact List.mem_cons_self
    · exact List.mem_cons_of_mem _ (ih h)
  | case3 => cases h

theorem toList_docstringLine (text : String) :
    (docstringLine text).toList = trimEnd (' ' :: ' ' :: dropBreaks text.toList) := by
  rw [docstringLine, String.toList_ofList]

/-- **The lines of a docstring** are the fixed ones, those of the copied documentation and those of
the entries. -/
theorem mem_docstring_iff {s : Scheme} {l : String} :
    l ∈ docstring s ↔
      l ∈ ["  \"\"\"", s!"  Helper function for '{s.group}'", "", "  Keyword arguments:"] ∨
        (∃ text ∈ s.title :: s.summaryLines, docstringLine text = l) ∨
          ∃ e ∈ s.entries, keywordLine s.widestArgName e = l := by
  simp only [docstring, List.mem_append, List.mem_map, List.mem_cons, List.not_mem_nil, or_false]
  constructor
  · rintro (((((h | h | h) | h) | h | h) | h) | h)
    · exact .inl (.inl h)
    · exact .inl (.inr (.inl h))
    · exact .inl (.inr (.inr (.inl h)))
    · exact .inr (.inl h)
    · exact .inl (.inr (.inr (.inl h)))
    · exact .inl (.inr (.inr (.inr h)))
    · exact .inr (.inr h)
    · exact .inl (.inl h)
  · rintro ((h | h | h | h) | h | h)
    · exact .inr h
    · exact .inl (.inl (.inl (.inl (.inr (.inl h)))))
    · exact .inl (.inl (.inl (.inl (.inr (.inr h)))))
    · exact .inl (.inl (.inr (.inr h)))
    · exact .inl (.inl (.inl (.inr h)))
    · exact .inl (.inr h)

/-- A line of a docstring begins with a blank, if it is not empty. -/
theorem eq_empty_or_indented {s : Scheme} {l : String} (h : l ∈ docstring s) :
    l = "" ∨ ∃ cs, l.toList = ' ' :: cs := by
  rcases mem_docstring_iff.mp h with h | ⟨text, -, rfl⟩ | ⟨e, -, rfl⟩
  · simp only [List.mem_cons, List.not_mem_nil, or_false] at h
    rcases h with rfl | rfl | rfl | rfl
    · exact .inr ⟨_, rfl⟩
    · exact .inr ⟨_, by simp [toString]; rfl⟩
    · exact .inl rfl
    · exact .inr ⟨_, rfl⟩
  · -- what is left of an indented text begins like it
    have hprefix := trimEnd_isPrefix (' ' :: ' ' :: dropBreaks text.toList)
    rw [← toList_docstringLine] at hprefix
    rcases List.prefix_cons_iff.mp hprefix with hnil | ⟨cs, hcs, -⟩
    · exact .inl (String.toList_eq_nil_iff.mp hnil)
    · exact .inr ⟨cs, hcs⟩
  · exact .inr ⟨_, by simp [keywordLine, toString]; rfl⟩

/-! ### Reading the lines again -/

section Accepted

variable {checker : Checker} {s : Scheme} (h : Printable checker s)

include h

theorem isWord_of_mem_argNames {name : String} (hname : name ∈ s.argNames) :
    IsWord name.toList := by
  obtain ⟨e, he, rfl⟩ := List.mem_map.mp hname
  exact (h.entries e he).argName

/-- No text that a target repeats holds a newline. -/
theorem newline_not_mem_of_mem_texts {text : String} (htext : text ∈ s.title :: s.summaryLines) :
    '\n' ∉ text.toList := by
  rcases List.mem_cons.mp htext with rfl | htext
  · exact h.title.oneLine
  · exact newline_not_mem_of_mem_lines htext

theorem newline_not_mem_params (front back : String) (hfront : '\n' ∉ front.toList)
    (hback : '\n' ∉ back.toList) :
    '\n' ∉ (joinWith "," (s.argNames.map fun name => front ++ name ++ back)).toList := by
  refine not_mem_joinWith (by decide) fun text htext => ?_
  obtain ⟨name, hname, rfl⟩ := List.mem_map.mp htext
  simp [hfront, hback, (isWord_of_mem_argNames h hname).newline_not_mem]

theorem newline_not_mem_args : '\n' ∉ (joinWith "," s.argNames).toList :=
  not_mem_joinWith (by decide) fun _ hname => (isWord_of_mem_argNames h hname).newline_not_mem

theorem isLine_of_mem_nativeLines {l : String} (hl : l ∈ nativeLines s) : IsLine l.toList := by
  have hname := h.name.newline_not_mem
  have hgroup := h.group.newline_not_mem
  have hparams := newline_not_mem_params h "const M& " "=M()" (by decide) (by decide)
  have hargs := newline_not_mem_args h
  have hcount : '\n' ∉ Nat.toDigits 10 s.arity := not_mem_toDigits (by decide) _
  simp only [nativeLines, nativeDoc, nativeBody, List.mem_append, List.mem_map, List.mem_cons,
    List.not_mem_nil, or_false] at hl
  rcases hl with ((rfl | ⟨text, htext, rfl⟩) | rfl | rfl) | rfl | rfl | rfl | rfl | rfl
  · exact IsLine.append (by simp [toString, hgroup]) "'" (by decide) (by decide)
  · have hline := newline_not_mem_of_mem_texts h (by simpa using htext)
    rw [docLine, String.toList_ofList]
    refine isLine_of_trimEnd (fun hmem => ?_) (trimEnd_trimEnd _)
    exact absurd ((trimEnd_isPrefix _).subset hmem) (by simp [hline])
  · decide
  · exact IsLine.append (by decide) s.group h.group.ne_nil h.group.isLine
  · decide
  · exact IsLine.append (by simp [toString, hname, hparams]) ")\x7b" (by decide)
      (by decide)
  · exact IsLine.append (by simp [toString, hcount, hargs]) "\x7d;" (by decide)
      (by decide)
  · exact IsLine.append (by simp [toString, hcount]) ");" (by decide) (by decide)
  · decide

theorem isLine_of_mem_docstring {l : String} (hl : l ∈ docstring s) : IsLine l.toList := by
  rcases mem_docstring_iff.mp hl with hl | ⟨text, htext, rfl⟩ | ⟨e, he, rfl⟩
  · have hgroup := h.group.newline_not_mem
    simp only [List.mem_cons, List.not_mem_nil, or_false] at hl
    rcases hl with rfl | rfl | rfl | rfl
    · decide
    · exact IsLine.append (by simp [toString, hgroup]) "'" (by decide) (by decide)
    · decide
    · decide
  · have hline := newline_not_mem_of_mem_texts h htext
    rw [toList_docstringLine]
    refine isLine_of_trimEnd (fun hmem => ?_) (trimEnd_trimEnd _)
    have hmem := (trimEnd_isPrefix _).subset hmem
    simp only [List.mem_cons, Char.reduceEq, false_or] at hmem
    exact hline (mem_of_mem_dropBreaks hmem)
  · obtain ⟨hname, hdoc, -, hconstant⟩ := h.entries e he
    refine IsLine.append ?_ "]" (by decide) (by decide)
    simp [toString, padRight, hname.newline_not_mem, hdoc.oneLine, hconstant.newline_not_mem]

theorem isLine_of_mem_wrapperLines {l : String} (hl : l ∈ wrapperLines s) : IsLine l.toList := by
  have hname := h.name.newline_not_mem
  have hparams : '\n' ∉ (joinWith "," (s.argNames.map fun name => name ++ "=[]")).toList := by
    simpa using newline_not_mem_params h "" "=[]" (by decide) (by decide)
  have hargs := newline_not_mem_args h
  rw [wrapperLines, List.mem_append, List.mem_cons, List.mem_singleton] at hl
  rcases hl with (rfl | hl) | rfl
  · unfold headLine
    exact IsLine.append (by simp [toString, hname, hparams]) "):" (by decide)
      (by decide)
  · exact isLine_of_mem_docstring h hl
  · unfold returnLine
    exact IsLine.append (by simp [toString, hargs]) "]" (by decide) (by decide)

theorem isLine_of_mem_bindingLines {b : BindingSettings} (hscope : '\n' ∉ b.scope.toList)
    (htypes : ∀ type ∈ b.valueTypes, '\n' ∉ type.toList) {l : String}
    (hl : l ∈ bindingLines b s) : IsLine l.toList := by
  have hname := h.name.newline_not_mem
  simp only [bindingLines, List.mem_append, List.mem_map, List.mem_cons, List.not_mem_nil,
    or_false] at hl
  rcases hl with (rfl | ⟨type, htype, rfl⟩) | rfl
  · exact IsLine.append (by simp [toString, hscope]) " \x7b" (by decide)
      (by decide)
  · exact IsLine.append (by simp [toString, hname, htypes type htype]) ">;" (by decide)
      (by decide)
  · decide

/-- **The text of a native helper** is read as its lines. -/
theorem lines_native : lines (unlines (nativeLines s)) = nativeLines s :=
  lines_unlines fun _ hl => isLine_of_mem_nativeLines h hl

/-- **The text of a wrapper** is read as its lines. -/
theorem lines_wrapper : lines (unlines (wrapperLines s)) = wrapperLines s :=
  lines_unlines fun _ hl => isLine_of_mem_wrapperLines h hl

end Accepted

end Emit

end ArgumentSchemes
