import ArgumentSchemes.Config.Settings
import ArgumentSchemes.Proofs.PathSteps
import Mathlib

/-!
# Include guards

The include guard of the native header is the name of that file, taken over character by
character: a letter in upper case, a digit as it is, and an underscore for everything else, where
only ASCII has letters and digits. A path that ends in no name gives the guard of the default one.
So every guard is a text of characters that macro names are made of, and two guards are equal
exactly when the names are alike (`includeGuard_eq_iff`).

Nothing looks at where a character stands. A digit that the file name begins with is the first
character of the guard, which then names no macro (`isMacroName_includeGuard_iff`).

Main statement: the include guard of the settings is made of the characters of macro names, it is a
macro name unless the file name begins with a digit, and it does not tell alike names apart
(`include_guard_is_macro_name_iff`).
-/

namespace ArgumentSchemes

namespace Emit

/-! ### Letters, digits and the case of letters -/

theorem isDigit_eq_false_of_isAlpha {c : Char} (h : c.isAlpha = true) : c.isDigit = false := by
  rw [Bool.eq_false_iff, ne_eq, Char.isDigit_iff_toNat]
  simp only [Char.isAlpha, Char.isUpper, Char.isLower, Bool.or_eq_true, Bool.and_eq_true,
    decide_eq_true_eq, ge_iff_le, UInt32.le_iff_toNat_le, Char.toNat_val] at h
  have hzero : '0'.toNat = 48 := rfl
  have hnine : '9'.toNat = 57 := rfl
  have hA : 'A'.toNat = 65 := rfl
  have ha : 'a'.toNat = 97 := rfl
  omega

theorem isDigit_toUpper (c : Char) : c.toUpper.isDigit = c.isDigit := by
  by_cases hc : c.isAlpha
  · have hupper : c.toUpper.isAlpha = true := by rw [Char.isAlpha_toUpper_eq_isAlpha, hc]
    rw [isDigit_eq_false_of_isAlpha hc, isDigit_eq_false_of_isAlpha hupper]
  · have hlower : ¬ c.isLower = true := fun h => hc (by rw [Char.isAlpha, h, Bool.or_true])
    rw [Char.toUpper_eq_of_not_isLower hlower]

theorem isAlphanum_toUpper (c : Char) : c.toUpper.isAlphanum = c.isAlphanum := by
  rw [Char.isAlphanum, Char.isAlphanum, Char.isAlpha_toUpper_eq_isAlpha, isDigit_toUpper]

theorem toLower_eq_toLower_iff {c d : Char} : c.toLower = d.toLower ↔ c.toUpper = d.toUpper := by
  constructor
  · intro h
    rw [← Char.toUpper_toLower_eq_toUpper c, h, Char.toUpper_toLower_eq_toUpper]
  · intro h
    rw [← Char.toLower_toUpper_eq_toLower c, h, Char.toLower_toUpper_eq_toLower]

theorem toUpper_ne_toUpper {c d : Char} (hc : c.isAlphanum = true) (hd : d.isAlphanum = false) :
    c.toUpper ≠ d.toUpper := by
  intro h
  have halphanum := congrArg Char.isAlphanum h
  rw [isAlphanum_toUpper, isAlphanum_toUpper, hc, hd] at halphanum
  cases halphanum

/-! ### Macro names -/

/-- A character that the names of include guards are made of. -/
def IsMacroChar (c : Char) : Prop := c.isUpper = true ∨ c.isDigit = true ∨ c = '_'

/-- A text of upper-case letters, digits and underscores. -/
structure IsMacroText (text : String) : Prop where
  ne_empty : text ≠ ""
  isMacroChar : ∀ c ∈ text.toList, IsMacroChar c

/-- A text that the preprocessor takes for a name: it does not begin with a digit. -/
structure IsMacroName (text : String) : Prop extends IsMacroText text where
  begins : ∀ c ∈ text.toList.head?, c.isDigit = false

/-! ### One character of a guard -/

/-- The character of an include guard that a character of the file name becomes. -/
def guardChar (c : Char) : Char := if c.isAlphanum then c.toUpper else '_'

/-- Two characters that differ in nothing but the case of a letter, or neither of which is a letter
or a digit. -/
def Alike (c d : Char) : Prop :=
  c.toLower = d.toLower ∨ c.isAlphanum = false ∧ d.isAlphanum = false

theorem isMacroChar_guardChar (c : Char) : IsMacroChar (guardChar c) := by
  rw [guardChar]
  split
  · next hc =>
    rw [Char.isAlphanum, Bool.or_eq_true] at hc
    rcases hc with hletter | hdigit
    · exact .inl (by rw [Char.isUpper_toUpper_eq_isAlpha, hletter])
    · exact .inr (.inl (by rw [isDigit_toUpper, hdigit]))
  · exact .inr (.inr rfl)

/-- Digits stay, and nothing else becomes one. -/
theorem isDigit_guardChar (c : Char) : (guardChar c).isDigit = c.isDigit := by
  rw [guardChar]
  split
  · exact isDigit_toUpper c
  · next hc =>
    rw [Char.isAlphanum, Bool.or_eq_true, not_or, Bool.not_eq_true, Bool.not_eq_true] at hc
    exact hc.2.symm

theorem guardChar_eq_iff {c d : Char} : guardChar c = guardChar d ↔ Alike c d := by
  rw [Alike, toLower_eq_toLower_iff, guardChar, guardChar]
  -- the underscore is its own upper case, so that it is no letter or digit in upper case
  cases hc : c.isAlphanum with
  | true =>
    cases hd : d.isAlphanum with
    | true => simp
    | false =>
      have hunderscore : c.toUpper ≠ '_' := toUpper_ne_toUpper (d := '_') hc rfl
      simp [hunderscore, toUpper_ne_toUpper hc hd]
  | false =>
    cases hd : d.isAlphanum with
    | true =>
      have hunderscore : d.toUpper ≠ '_' := toUpper_ne_toUpper (d := '_') hd rfl
      simp [hunderscore.symm, (toUpper_ne_toUpper hd hc).symm]
    | false => simp

/-! ### Guards -/

theorem toList_includeGuard (name : String) :
    (includeGuard name).toList = name.toList.map guardChar :=
  String.toList_ofList

/-- **Two guards are equal** exactly when the names are alike, character by character. -/
theorem includeGuard_eq_iff {name name' : String} :
    includeGuard name = includeGuard name' ↔ List.Forall₂ Alike name.toList name'.toList := by
  rw [← String.toList_inj, toList_includeGuard, toList_includeGuard, ← List.forall₂_eq_eq_eq,
    List.forall₂_map_left_iff, List.forall₂_map_right_iff]
  simp only [guardChar_eq_iff]

variable {name : String} (hne : name ≠ "")

include hne

theorem isMacroText_includeGuard : IsMacroText (includeGuard name) where
  ne_empty := by
    rw [ne_eq, ← String.toList_inj, toList_includeGuard]
    simpa using hne
  isMacroChar c hc := by
    rw [toList_includeGuard] at hc
    obtain ⟨d, -, rfl⟩ := List.mem_map.mp hc
    exact isMacroChar_guardChar d

theorem isMacroName_includeGuard_iff :
    IsMacroName (includeGuard name) ↔ ∀ c ∈ name.toList.head?, c.isDigit = false := by
  have hhead : (∀ c ∈ (includeGuard name).toList.head?, c.isDigit = false) ↔
      ∀ c ∈ name.toList.head?, c.isDigit = false := by
    rw [toList_includeGuard, List.head?_map]
    simp [isDigit_guardChar]
  exact ⟨fun h => hhead.mp h.begins, fun h => ⟨isMacroText_includeGuard hne, hhead.mpr h⟩⟩

end Emit

/-! ### The name of the native header -/

theorem Files.Path.fileName?_eq_some_iff {p : Path} {n : String} :
    p.fileName? = some n ↔ p.components.getLast? = some (.name n) := by
  rw [fileName?]
  split <;> simp_all

theorem Files.Path.ne_empty_of_fileName? {p : Path} {n : String} (h : p.fileName? = some n) :
    n ≠ "" := by
  have hmem : .name n ∈ p.components := List.mem_of_getLast? (fileName?_eq_some_iff.mp h)
  rw [components_eq_tidy, Component.mem_tidy (by simp)] at hmem
  obtain ⟨segment, hsegment, hstep⟩ := exists_segment_of_mem_rawSteps hmem
  exact (stepOfSegment?_eq_name hstep).2.1

namespace Config

open Emit (Alike IsMacroName IsMacroText)

namespace Settings

/-- The name that the include guard is made from: that of the native header, or the default one when
its path ends in no name. -/
def headerName (s : Settings) : String := s.nativeOutput.fileName?.getD Emit.defaultHeaderName

theorem headerName_ne_empty (s : Settings) : s.headerName ≠ "" := by
  rw [headerName]
  rcases h : s.nativeOutput.fileName? with _ | n
  · decide
  · exact Files.Path.ne_empty_of_fileName? h

end Settings

/-- **The include guard is a macro name** unless the name of the native header begins with a digit.
It is always made of the characters of macro names, and two settings have the same guard exactly
when the names of their headers are alike. -/
theorem include_guard_is_macro_name_iff (l : Layer) (license : String) :
    let guard := (l.settings.artifactOptions license).includeGuard
    IsMacroText guard ∧
    (IsMacroName guard ↔ ∀ c ∈ l.settings.headerName.toList.head?, c.isDigit = false) ∧
    ∀ (m : Layer) (license' : String),
      (m.settings.artifactOptions license').includeGuard = guard ↔
        List.Forall₂ Alike m.settings.headerName.toList l.settings.headerName.toList := by
  intro guard
  have hname := l.settings.headerName_ne_empty
  exact ⟨Emit.isMacroText_includeGuard hname, Emit.isMacroName_includeGuard_iff hname,
    fun m license' => Emit.includeGuard_eq_iff⟩

/-- **A guard can begin with a digit**, and is no macro name then. -/
theorem include_guard_begins_with_digit :
    let l : Layer := { nativeOutput := some ⟨"include/3d.hpp"⟩ }
    let guard := (l.settings.artifactOptions "").includeGuard
    guard = "3D_HPP" ∧ ¬ IsMacroName guard :=
  ⟨by decide, fun h => absurd (h.begins '3' (by decide)) (by decide)⟩

end Config

end ArgumentSchemes
