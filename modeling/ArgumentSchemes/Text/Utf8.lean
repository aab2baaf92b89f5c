/-!
# Reading bytes as UTF-8

A byte sequence is read one byte at a time. `Pending` is what an unfinished character still owes:
how many bytes follow the next one, and in which interval the next one must lie. The interval of
the second byte is narrower than that of a later one where a wider one would admit an overlong
form, a surrogate or a value above U+10FFFF.

A byte that does not fit closes the unfinished character as one **flaw** and is then read afresh,
so each maximal beginning of a character that is not completed is one flaw. `decodeLossy` puts
U+FFFD in place of every flaw; `decode?` accepts a byte sequence without flaws only.
-/

namespace ArgumentSchemes.Text

/-- What an unfinished character owes: `more` bytes after the next one, the bounds of the next
one, and the bits read so far. -/
structure Pending where
  more : Nat
  low : Nat
  high : Nat
  bits : Nat
deriving Repr, DecidableEq

/-- What a byte means between two characters: a character of its own, the beginning of a longer
one, or a flaw. -/
inductive Lead where
  | char (c : Char)
  | opens (p : Pending)
  | flaw
deriving Repr, DecidableEq

/-- Reads a byte between two characters. -/
def Lead.ofByte (b : Nat) : Lead :=
  if b < 0x80 then .char (Char.ofNat b)
  else if b < 0xC2 then .flaw
  else if b < 0xE0 then .opens ⟨0, 0x80, 0xBF, b - 0xC0⟩
  else if b = 0xE0 then .opens ⟨1, 0xA0, 0xBF, 0⟩
  else if b = 0xED then .opens ⟨1, 0x80, 0x9F, 0xD⟩
  else if b < 0xF0 then .opens ⟨1, 0x80, 0xBF, b - 0xE0⟩
  else if b = 0xF0 then .opens ⟨2, 0x90, 0xBF, 0⟩
  else if b < 0xF4 then .opens ⟨2, 0x80, 0xBF, b - 0xF0⟩
  else if b = 0xF4 then .opens ⟨2, 0x80, 0x8F, 4⟩
  else .flaw

/-- A reading in progress: the characters read so far, the last one first and a flaw as `none`,
and the unfinished character, if any. -/
structure Decoding where
  read : List (Option Char) := []
  pending : Option Pending := none
deriving Repr, DecidableEq

namespace Decoding

/-- Reads a byte between two characters. -/
def start (read : List (Option Char)) (b : Nat) : Decoding :=
  match Lead.ofByte b with
  | .char c => ⟨some c :: read, none⟩
  | .opens p => ⟨read, some p⟩
  | .flaw => ⟨none :: read, none⟩

/-- Reads one byte. -/
def push (d : Decoding) (byte : UInt8) : Decoding :=
  let b := byte.toNat
  match d.pending with
  | none => start d.read b
  | some p =>
    if p.low ≤ b ∧ b ≤ p.high then
      let bits := p.bits * 64 + (b - 0x80)
      match p.more with
      | 0 => ⟨some (Char.ofNat bits) :: d.read, none⟩
      | more + 1 => ⟨d.read, some ⟨more, 0x80, 0xBF, bits⟩⟩
    else start (none :: d.read) b

/-- Ends the reading: an unfinished character is a flaw. -/
def finish (d : Decoding) : List (Option Char) :=
  match d.pending with
  | none => d.read.reverse
  | some _ => (none :: d.read).reverse

end Decoding

/-- The characters of a byte sequence in order, with `none` for each flaw. -/
def decodePieces (bytes : List UInt8) : List (Option Char) :=
  (bytes.foldl Decoding.push {}).finish

/-- Reads a byte sequence with U+FFFD in place of every flaw. -/
def decodeLossy (bytes : List UInt8) : String :=
  String.ofList ((decodePieces bytes).map (·.getD '\uFFFD'))

/-- Reads a byte sequence that has no flaw. -/
def decode? (bytes : List UInt8) : Option String :=
  ((decodePieces bytes).mapM id).map String.ofList

/-- The UTF-8 form of a text. -/
def encode (text : String) : List UInt8 := text.toUTF8.toList

end ArgumentSchemes.Text
