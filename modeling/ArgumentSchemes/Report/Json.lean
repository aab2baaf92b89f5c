/-!
# JSON output

The values that a listing consists of, and their text: two spaces of indentation per level, every
member on a line of its own, and empty lists and objects on one line.
-/

namespace ArgumentSchemes.Report

/-- A value of a listing. -/
inductive Json where
  | text (s : String)
  | list (items : List Json)
  | object (fields : List (String × Json))

namespace Json

/-- A hexadecimal digit in lower case. -/
def hexDigit (n : Nat) : Char := "0123456789abcdef".toList.getD n '0'

/-- The form of a character inside a text: quotes, backslashes and control characters are
escaped. -/
def escape (c : Char) : List Char :=
  match c with
  | '"' => ['\\', '"']
  | '\\' => ['\\', '\\']
  | '\x08' => ['\\', 'b']
  | '\t' => ['\\', 't']
  | '\n' => ['\\', 'n']
  | '\x0c' => ['\\', 'f']
  | '\r' => ['\\', 'r']
  | c =>
    if c.toNat < 0x20 then ['\\', 'u', '0', '0', hexDigit (c.toNat / 16), hexDigit (c.toNat % 16)]
    else [c]

/-- A text in quotes. -/
def quote (s : String) : String := "\"" ++ String.ofList (s.toList.flatMap escape) ++ "\""

/-- The indentation of a level. -/
def indentation (level : Nat) : String := String.ofList (List.replicate (2 * level) ' ')

mutual

/-- The text of a value that begins on a line of the given level. -/
def render (level : Nat) : Json → String
  | .text s => quote s
  | .list [] => "[]"
  | .list (item :: items) =>
    "[\n" ++ indentation (level + 1) ++ render (level + 1) item ++ renderItems (level + 1) items
      ++ "\n" ++ indentation level ++ "]"
  | .object [] => "\x7b\x7d"
  | .object ((key, value) :: fields) =>
    "\x7b\n" ++ indentation (level + 1) ++ quote key ++ ": " ++ render (level + 1) value
      ++ renderFields (level + 1) fields ++ "\n" ++ indentation level ++ "\x7d"

/-- The text of the further items of a list. -/
def renderItems (level : Nat) : List Json → String
  | [] => ""
  | item :: items => ",\n" ++ indentation level ++ render level item ++ renderItems level items

/-- The text of the further fields of an object. -/
def renderFields (level : Nat) : List (String × Json) → String
  | [] => ""
  | (key, value) :: fields =>
    ",\n" ++ indentation level ++ quote key ++ ": " ++ render level value
      ++ renderFields level fields

end

/-- The text of a value. -/
def pretty (j : Json) : String := render 0 j

end Json

end ArgumentSchemes.Report
