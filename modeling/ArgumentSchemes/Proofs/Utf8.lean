import ArgumentSchemes.Text.Utf8
import Mathlib.Data.List.Basic
import Mathlib.Tactic.IntervalCases

/-!
# Texts written as UTF-8 are read back

The bytes of a character bring a reading from between two characters to between two characters, with
that character read and no flaw (`Decoding.foldl_push_utf8EncodeChar`): by the number of its bytes,
the first one opens a character that owes the others, and each of these lies in the bounds that are
owed.

Main statement: the UTF-8 form of a text is read as that text (`decode?_encode`).
-/

namespace ArgumentSchemes.Text

/-! ### First bytes -/

namespace Lead

theorem ofByte_of_two {b : Nat} (h : 0xC2 ≤ b) (h' : b < 0xE0) :
    ofByte b = .opens ⟨0, 0x80, 0xBF, b - 0xC0⟩ := by
  rw [ofByte, if_neg (by omega), if_neg (by omega), if_pos h']

theorem ofByte_of_three {b : Nat} (h : 0xE0 ≤ b) (h' : b < 0xF0) :
    ofByte b = .opens
      ⟨1, if b = 0xE0 then 0xA0 else 0x80, if b = 0xED then 0x9F else 0xBF, b - 0xE0⟩ := by
  interval_cases b <;> rfl

theorem ofByte_of_four {b : Nat} (h : 0xF0 ≤ b) (h' : b < 0xF5) :
    ofByte b = .opens
      ⟨2, if b = 0xF0 then 0x90 else 0x80, if b = 0xF4 then 0x8F else 0xBF, b - 0xF0⟩ := by
  interval_cases b <;> rfl

end Lead

/-! ### Characters -/

namespace Decoding

/-- A byte between two characters that begins a longer one. -/
theorem push_of_opens {read : List (Option Char)} {byte : UInt8} {p : Pending}
    (h : Lead.ofByte byte.toNat = .opens p) : push ⟨read, none⟩ byte = ⟨read, some p⟩ := by
  simp only [push, start, h]

/-- A byte in the bounds that are owed, after which more is owed. -/
theorem push_of_more {read : List (Option Char)} {byte : UInt8} {more low high bits : Nat}
    (h : low ≤ byte.toNat ∧ byte.toNat ≤ high) :
    push ⟨read, some ⟨more + 1, low, high, bits⟩⟩ byte =
      ⟨read, some ⟨more, 0x80, 0xBF, bits * 64 + (byte.toNat - 0x80)⟩⟩ := by
  simp only [push, if_pos h]

/-- The last byte of a character. -/
theorem push_of_last {read : List (Option Char)} {byte : UInt8} {low high bits : Nat}
    (h : low ≤ byte.toNat ∧ byte.toNat ≤ high) :
    push ⟨read, some ⟨0, low, high, bits⟩⟩ byte =
      ⟨some (Char.ofNat (bits * 64 + (byte.toNat - 0x80))) :: read, none⟩ := by
  simp only [push, if_pos h]

/-- The bytes of a character are read as that character. -/
theorem foldl_push_utf8EncodeChar (read : List (Option Char)) (c : Char) :
    (String.utf8EncodeChar c).foldl push ⟨read, none⟩ = ⟨some c :: read, none⟩ := by
  have hvalid : c.val.toNat < 0xD800 ∨ 0xDFFF < c.val.toNat ∧ c.val.toNat < 0x110000 := c.valid
  have hchar : Char.ofNat c.val.toNat = c := Char.ofNat_toNat c
  rw [String.utf8EncodeChar]
  generalize c.val.toNat = v at hvalid hchar ⊢
  have hbyte : ∀ n, n < 256 → (UInt8.ofNat n).toNat = n := fun n hn =>
    UInt8.toNat_ofNat_of_lt hn
  have hnext : ∀ n, (UInt8.ofNat (n % 64 + 0x80)).toNat = n % 64 + 0x80 := fun n =>
    hbyte _ (by omega)
  split
  · next h1 =>
    have hlead : Lead.ofByte (UInt8.ofNat v).toNat = .char c := by
      rw [hbyte v (by omega), Lead.ofByte, if_pos (by omega), hchar]
    simp only [List.foldl, push, start, hlead]
  split
  · next h1 h2 =>
    have hlead : Lead.ofByte (UInt8.ofNat (v / 64 % 0x20 + 0xc0)).toNat =
        .opens ⟨0, 0x80, 0xBF, v / 64⟩ := by
      have hbits : v / 64 % 0x20 + 0xc0 - 0xC0 = v / 64 := by omega
      rw [hbyte _ (by omega), Lead.ofByte_of_two (by omega) (by omega), hbits]
    have hbits : v / 64 * 64 + (v % 64 + 0x80 - 0x80) = v := by omega
    simp only [List.foldl]
    rw [push_of_opens hlead, push_of_last (by rw [hnext]; omega), hnext, hbits, hchar]
  split
  · next h1 h2 h3 =>
    have hlead : Lead.ofByte (UInt8.ofNat (v / 4096 % 0x10 + 0xe0)).toNat =
        .opens ⟨1, if v / 4096 % 0x10 + 0xe0 = 0xE0 then 0xA0 else 0x80,
          if v / 4096 % 0x10 + 0xe0 = 0xED then 0x9F else 0xBF, v / 4096⟩ := by
      have hbits : v / 4096 % 0x10 + 0xe0 - 0xE0 = v / 4096 := by omega
      rw [hbyte _ (by omega), Lead.ofByte_of_three (by omega) (by omega), hbits]
    have hbits :
        (v / 4096 * 64 + (v / 64 % 64 + 0x80 - 0x80)) * 64 + (v % 64 + 0x80 - 0x80) = v := by
      omega
    simp only [List.foldl]
    rw [push_of_opens hlead, push_of_more (by rw [hnext]; constructor <;> split <;> omega),
      push_of_last (by rw [hnext]; omega), hnext, hnext, hbits, hchar]
  · next h1 h2 h3 =>
    have hlead : Lead.ofByte (UInt8.ofNat (v / 262144 % 0x08 + 0xf0)).toNat =
        .opens ⟨2, if v / 262144 % 0x08 + 0xf0 = 0xF0 then 0x90 else 0x80,
          if v / 262144 % 0x08 + 0xf0 = 0xF4 then 0x8F else 0xBF, v / 262144⟩ := by
      have hbits : v / 262144 % 0x08 + 0xf0 - 0xF0 = v / 262144 := by omega
      rw [hbyte _ (by omega), Lead.ofByte_of_four (by omega) (by omega), hbits]
    have hbits : ((v / 262144 * 64 + (v / 4096 % 64 + 0x80 - 0x80)) * 64 +
        (v / 64 % 64 + 0x80 - 0x80)) * 64 + (v % 64 + 0x80 - 0x80) = v := by omega
    simp only [List.foldl]
    rw [push_of_opens hlead, push_of_more (by rw [hnext]; constructor <;> split <;> omega),
      push_of_more (by rw [hnext]; omega), push_of_last (by rw [hnext]; omega), hnext, hnext,
      hnext, hbits, hchar]

/-- The bytes of characters are read as these characters. -/
theorem foldl_push_flatMap (read : List (Option Char)) (cs : List Char) :
    (cs.flatMap String.utf8EncodeChar).foldl push ⟨read, none⟩ =
      ⟨(cs.map some).reverse ++ read, none⟩ := by
  induction cs generalizing read with
  | nil => rfl
  | cons c cs ih =>
    rw [List.flatMap_cons, List.foldl_append, foldl_push_utf8EncodeChar, ih]
    simp

end Decoding

/-! ### Texts -/

/-- The bytes of an array from a place on are collected in their order. -/
theorem toList_loop_eq (bytes : ByteArray) (i : Nat) (collected : List UInt8) :
    ByteArray.toList.loop bytes i collected = collected.reverse ++ bytes.data.toList.drop i := by
  fun_induction ByteArray.toList.loop bytes i collected with
  | case1 i collected hi ih =>
    have hlength : i < bytes.data.toList.length := hi
    rw [ih, List.drop_eq_getElem_cons hlength, List.reverse_cons, List.append_assoc]
    simp [ByteArray.get!, hi]
  | case2 i collected hi =>
    rw [List.drop_eq_nil_of_le (Nat.le_of_not_lt hi), List.append_nil]

/-- The UTF-8 form of a text is that of its characters, one after the other. -/
theorem encode_eq (s : String) : encode s = s.toList.flatMap String.utf8EncodeChar := by
  have hbytes : s.toUTF8 = (s.toList.flatMap String.utf8EncodeChar).toByteArray :=
    String.utf8Encode_toList.symm
  rw [encode, hbytes, ByteArray.toList, toList_loop_eq, List.toList_data_toByteArray]
  rfl

/-- **The UTF-8 form of a text is read as that text.** -/
theorem decode?_encode (s : String) : decode? (encode s) = some s := by
  have hpieces : decodePieces (encode s) = s.toList.map some := by
    rw [decodePieces, encode_eq, Decoding.foldl_push_flatMap]
    simp [Decoding.finish]
  have hall : ∀ cs : List Char, (cs.map some).mapM id = some cs := by
    intro cs
    induction cs with
    | nil => rfl
    | cons c cs ih => simp [List.mapM_cons, ih]
  rw [decode?, hpieces, hall, Option.map_some, String.ofList_toList]

end ArgumentSchemes.Text
