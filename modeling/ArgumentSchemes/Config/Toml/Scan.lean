/-!
# TOML: blanks, strings and keys

The small parts of a TOML document: blanks and comments, line endings, the four kinds of strings,
and keys. Every reader takes the characters from its part on and gives what it read together with
the characters behind it, or nothing if the part is malformed.
-/

namespace ArgumentSchemes.Config.Toml

/-- What a reader found: a value and the characters behind it. -/
abbrev Found (α : Type) := α × List Char

/-- A reader of one part of a document. -/
abbrev Reader (α : Type) := List Char → Option (Found α)

/-! ### Blanks, comments, line endings -/

/-- A blank inside a line. -/
def isSpace (c : Char) : Bool := c == ' ' || c == '\t'

/-- A character of a comment or string: any but the control characters, tabs excepted. -/
def isPrintable (c : Char) : Bool := c == '\t' || (' ' ≤ c && c != '\x7f')

/-- The characters behind the blanks. -/
def skipSpaces (cs : List Char) : List Char := cs.dropWhile isSpace

/-- The characters behind a line ending. -/
def newline? : List Char → Option (List Char)
  | '\n' :: rest => some rest
  | '\r' :: '\n' :: rest => some rest
  | _ => none

/-- The characters behind the rest of a line that holds no more than blanks and a comment. -/
def endLine? (cs : List Char) : Option (List Char) :=
  let behind := match skipSpaces cs with
    | '#' :: rest => rest.dropWhile isPrintable
    | rest => rest
  if behind.isEmpty then some [] else newline? behind

/-- The characters behind any blanks, line endings and comments. Every comment is ended by its
line. -/
def skipFiller (inComment : Bool) : List Char → Option (List Char)
  | [] => if inComment then none else some []
  | c :: rest =>
    if c = '\n' then skipFiller false rest
    else if c = '\r' then
      if rest.head? = some '\n' then skipFiller false rest
      else if inComment then none
      else some (c :: rest)
    else if inComment then if isPrintable c then skipFiller true rest else none
    else if isSpace c then skipFiller false rest
    else if c = '#' then skipFiller true rest
    else some (c :: rest)

/-! ### Strings -/

/-- The value of a hexadecimal digit. -/
def hexDigit? (c : Char) : Option Nat :=
  if '0' ≤ c ∧ c ≤ '9' then some (c.toNat - '0'.toNat)
  else if 'a' ≤ c ∧ c ≤ 'f' then some (c.toNat - 'a'.toNat + 10)
  else if 'A' ≤ c ∧ c ≤ 'F' then some (c.toNat - 'A'.toNat + 10)
  else none

/-- The character whose code point is written in hexadecimal digits. -/
def hexChar? (digits : List Char) : Option Char := do
  let values ← digits.mapM hexDigit?
  let n := values.foldl (fun n d => n * 16 + d) 0
  if h : n.isValidChar then some (Char.ofNatAux n h) else none

/-- The character that a backslash and the given one stand for. -/
def escaped? : Char → Option Char
  | 'b' => some '\x08'
  | 't' => some '\t'
  | 'n' => some '\n'
  | 'f' => some '\x0c'
  | 'r' => some '\r'
  | '"' => some '"'
  | '\\' => some '\\'
  | _ => none

/-- Puts a character in front of the text that a reader gives. -/
def consRead (c : Char) (r : Option (Found (List Char))) : Option (Found (List Char)) :=
  r.map fun (text, rest) => (c :: text, rest)

/-- Reads a string behind its opening quote `"`. -/
def basicString? : List Char → Option (Found (List Char))
  | [] => none
  | '"' :: rest => some ([], rest)
  | '\\' :: 'u' :: a :: b :: c :: d :: rest => do
    consRead (← hexChar? [a, b, c, d]) (basicString? rest)
  | '\\' :: 'U' :: a :: b :: c :: d :: e :: f :: g :: h :: rest => do
    consRead (← hexChar? [a, b, c, d, e, f, g, h]) (basicString? rest)
  | '\\' :: c :: rest => do consRead (← escaped? c) (basicString? rest)
  | c :: rest => if isPrintable c ∧ c ≠ '\\' then consRead c (basicString? rest) else none

/-- Reads a string behind its opening apostrophe. -/
def literalString? : List Char → Option (Found (List Char))
  | [] => none
  | '\'' :: rest => some ([], rest)
  | c :: rest => if isPrintable c then consRead c (literalString? rest) else none

/-- The number of quotes that a text begins with. -/
def quoteRun (quote : Char) (cs : List Char) : Nat := (cs.takeWhile (· == quote)).length

/-- Ends a string of several lines where a run of at least three quotes begins: the last three of
the first five close it. -/
def closeQuotes (quote : Char) (cs : List Char) : List Char × List Char :=
  let inner := min (quoteRun quote cs - 3) 2
  (List.replicate inner quote, cs.drop (inner + 3))

/-- Whether a line ending follows, after blanks. -/
def endsLine (cs : List Char) : Bool := (newline? (skipSpaces cs)).isSome

/-- Reads a string of several lines behind its opening quotes `"""`. While `joining`, blanks and
line endings are left out, as a backslash at the end of a line asks for. -/
def basicText? (joining : Bool) : List Char → Option (Found (List Char))
  | [] => none
  | '\\' :: 'u' :: a :: b :: c :: d :: rest => do
    consRead (← hexChar? [a, b, c, d]) (basicText? false rest)
  | '\\' :: 'U' :: a :: b :: c :: d :: e :: f :: g :: h :: rest => do
    consRead (← hexChar? [a, b, c, d, e, f, g, h]) (basicText? false rest)
  | '\\' :: c :: rest =>
    if endsLine (c :: rest) then basicText? true (c :: rest)
    else do consRead (← escaped? c) (basicText? false rest)
  | '\r' :: '\n' :: rest =>
    if joining then basicText? true rest else consRead '\n' (basicText? false rest)
  | c :: rest =>
    if joining ∧ (isSpace c ∨ c = '\n') then basicText? true rest
    else if c = '\n' then consRead c (basicText? false rest)
    else if c = '"' then
      if 3 ≤ quoteRun '"' (c :: rest) then some (closeQuotes '"' (c :: rest))
      else consRead c (basicText? false rest)
    else if isPrintable c ∧ c ≠ '\\' then consRead c (basicText? false rest)
    else none

/-- Reads a string of several lines behind its opening apostrophes. -/
def literalText? : List Char → Option (Found (List Char))
  | [] => none
  | '\r' :: '\n' :: rest => consRead '\n' (literalText? rest)
  | c :: rest =>
    if c = '\'' then
      if 3 ≤ quoteRun '\'' (c :: rest) then some (closeQuotes '\'' (c :: rest))
      else consRead c (literalText? rest)
    else if isPrintable c ∨ c = '\n' then consRead c (literalText? rest)
    else none

/-- The characters behind a line ending, if one comes first. -/
def dropNewline (cs : List Char) : List Char := (newline? cs).getD cs

/-- Reads a string of any kind. -/
def string? : List Char → Option (Found String)
  | '"' :: '"' :: '"' :: rest => text (basicText? false (dropNewline rest))
  | '"' :: rest => text (basicString? rest)
  | '\'' :: '\'' :: '\'' :: rest => text (literalText? (dropNewline rest))
  | '\'' :: rest => text (literalString? rest)
  | _ => none
where
  /-- The characters that were read as a text. -/
  text (r : Option (Found (List Char))) : Option (Found String) :=
    r.map fun (cs, rest) => (String.ofList cs, rest)

/-! ### Keys -/

/-- A character of a key without quotes. -/
def isKeyChar (c : Char) : Bool := c.isAlphanum || c == '-' || c == '_'

/-- Reads one part of a key. -/
def keyPart? : List Char → Option (Found String)
  | '"' :: rest => (basicString? rest).map fun (cs, rest) => (String.ofList cs, rest)
  | '\'' :: rest => (literalString? rest).map fun (cs, rest) => (String.ofList cs, rest)
  | cs =>
    match cs.takeWhile isKeyChar with
    | [] => none
    | part => some (String.ofList part, cs.dropWhile isKeyChar)

/-- Reads at most `parts` parts of a key with dots between them and blanks around them. -/
def keyParts? : Nat → List Char → Option (Found (List String))
  | 0, _ => none
  | parts + 1, cs => do
    let (part, cs) ← keyPart? (skipSpaces cs)
    match skipSpaces cs with
    | '.' :: rest =>
      let (others, rest) ← keyParts? parts rest
      return (part :: others, rest)
    | rest => return ([part], rest)

/-- The most parts that a key may have, and the most values that may be nested. -/
def depthLimit : Nat := 79

/-- Reads a key. -/
def key? (cs : List Char) : Option (Found (List String)) := keyParts? depthLimit cs

end ArgumentSchemes.Config.Toml
