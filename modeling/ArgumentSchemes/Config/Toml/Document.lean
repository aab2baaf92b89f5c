import ArgumentSchemes.Config.Toml.Number
import ArgumentSchemes.Config.Toml.Table

/-!
# TOML documents

A document is read line by line. A line is blank, opens a table by a header, or gives a value to a
key of the table that was opened last. Values are read with a bound on their nesting, which is what
the recursion is on; the elements of one value are bounded by the number of its characters.
-/

namespace ArgumentSchemes.Config.Toml

/-! ### Values -/

/-- Reads a number, a date or a time. -/
def number? (cs : List Char) : Option (Found Value) :=
  match datetime? cs with
  | some rest => some (.datetime, rest)
  | none =>
    match finiteFloat? cs <|> specialFloat? cs with
    | some rest => some (.float, rest)
    | none => (integer? cs).map fun (n, rest) => (.integer n, rest)

/-- Reads the elements of an array up to its closing bracket; at most `elements` of them. -/
def elements? (value? : Reader Value) : Nat → Reader (List Value)
  | 0, _ => none
  | elements + 1, cs => do
    match ← skipFiller false cs with
    | ']' :: rest => return ([], rest)
    | cs =>
      let (value, cs) ← value? cs
      match ← skipFiller false cs with
      | ']' :: rest => return ([value], rest)
      | ',' :: rest =>
        let (others, rest) ← elements? value? elements rest
        return (value :: others, rest)
      | _ => none

/-- Reads a key, the sign `=` and a value. -/
def pair? (value? : Reader Value) (cs : List Char) : Option (Found (List String × Value)) := do
  let (path, cs) ← key? cs
  let cs ← after? '=' cs
  let (value, rest) ← value? (skipSpaces cs)
  return ((path, value), rest)

/-- Reads the pairs of a table in braces up to the closing one; at most `pairs` of them. -/
def pairs? (value? : Reader Value) (fields : Fields) : Nat → Reader Fields
  | 0, _ => none
  | pairs + 1, cs => do
    let ((path, value), cs) ← pair? value? cs
    let fields ← fields.addDotted path value
    match skipSpaces cs with
    | '}' :: rest => return (fields, rest)
    | ',' :: rest => pairs? value? fields pairs rest
    | _ => none

/-- Reads a table behind its opening brace. -/
def braces? (value? : Reader Value) (cs : List Char) : Option (Found Fields) :=
  match skipSpaces cs with
  | '}' :: rest => some ([], rest)
  | cs => pairs? value? [] (cs.length + 1) cs

/-- Reads a value in which at most `depth` arrays and tables are nested. -/
def value? : Nat → Reader Value
  | depth, cs =>
    match cs with
    | '"' :: _ | '\'' :: _ => (string? cs).map fun (text, rest) => (.string text, rest)
    | 't' :: 'r' :: 'u' :: 'e' :: rest => some (.boolean true, rest)
    | 'f' :: 'a' :: 'l' :: 's' :: 'e' :: rest => some (.boolean false, rest)
    | '[' :: rest =>
      match depth with
      | 0 => none
      | depth + 1 =>
        (elements? (value? depth) (rest.length + 1) rest).map fun (items, rest) =>
          (.array items, rest)
    | '{' :: rest =>
      match depth with
      | 0 => none
      | depth + 1 =>
        (braces? (value? depth) rest).map fun (fields, rest) => (.table .braces fields, rest)
    | _ => number? cs

/-! ### Lines -/

/-- A document that has been read in part. -/
structure Draft where
  fields : Fields := []
  /-- The path of the table that was opened last. -/
  opened : List String := []

/-- Adds a pair to the table that was opened last. -/
def Draft.addPair (d : Draft) (path : List String) (value : Value) : Option Draft :=
  (d.fields.changeAt false (fun _ sub => sub.addDotted path value) d.opened .header).map
    fun fields => { d with fields }

/-- Reads one line of a document and what belongs to it. -/
def line? (d : Draft) (cs : List Char) : Option (Found Draft) := do
  match skipSpaces cs with
  | '[' :: '[' :: rest =>
    let (path, cs) ← key? rest
    let rest ← endLine? (← after? ']' (← after? ']' cs))
    return ({ fields := ← d.fields.addHeaderItem path, opened := path }, rest)
  | '[' :: rest =>
    let (path, cs) ← key? rest
    let rest ← endLine? (← after? ']' cs)
    return ({ fields := ← d.fields.addHeader path, opened := path }, rest)
  | cs =>
    match endLine? cs with
    | some rest => return (d, rest)
    | none =>
      let ((path, value), cs) ← pair? (value? depthLimit) cs
      let rest ← endLine? cs
      return (← d.addPair path value, rest)

/-- Reads at most `count` lines. -/
def lines? (d : Draft) : Nat → List Char → Option Fields
  | 0, _ => none
  | count + 1, cs =>
    if cs.isEmpty then some d.fields
    else do
      let (d, rest) ← line? d cs
      lines? d count rest

/-- Reads a document. A byte order mark at its beginning does not count. -/
def document? (text : String) : Option Fields :=
  let cs := match text.toList with
    | '\uFEFF' :: rest => rest
    | cs => cs
  lines? {} (cs.length + 1) cs

end ArgumentSchemes.Config.Toml
