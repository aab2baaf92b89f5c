/-!
# The lines of a text

`lines` takes a text apart as a reader of source files sees it: a line ends at a newline, a
carriage return right before that newline belongs to the line ending, and what follows the last
newline is a line of its own unless it is empty. A carriage return anywhere else, also at the very
end of the text, is an ordinary character.
-/

namespace ArgumentSchemes.Text

/-- A line read backwards, without the carriage return that stood before its newline. -/
def withoutReturn : List Char → List Char
  | '\r' :: line => line
  | line => line

/-- The lines of a text whose first line has already been read as far as `line`, backwards. -/
def linesAfter (line : List Char) : List Char → List (List Char)
  | [] => if line.isEmpty then [] else [line.reverse]
  | c :: rest =>
    if c = '\n' then (withoutReturn line).reverse :: linesAfter [] rest
    else linesAfter (c :: line) rest

/-- The **lines** of a text. -/
def lines (text : String) : List String :=
  (linesAfter [] text.toList).map String.ofList

@[simp] theorem lines_empty : lines "" = [] := rfl

/-- Writes every line with a newline behind it. -/
def unlines (ls : List String) : String :=
  String.join (ls.map (· ++ "\n"))

/-- The texts, separated by `separator`. -/
def joinWith (separator : String) (texts : List String) : String :=
  separator.intercalate texts

/-- The text followed by as many spaces as it needs to be `width` characters long. -/
def padRight (width : Nat) (text : String) : String :=
  text ++ String.ofList (List.replicate (width - text.length) ' ')

/-- The text preceded by as many spaces as it needs to be `width` characters long. -/
def padLeft (width : Nat) (text : String) : String :=
  String.ofList (List.replicate (width - text.length) ' ') ++ text

end ArgumentSchemes.Text
