import ArgumentSchemes.Scheme.Role
import ArgumentSchemes.Text.CharClass

/-!
# Lines of a header

Every line of a header is read on its own, as one of seven kinds of `Line`. Leading blanks never
count. What begins with `///` is documentation: with a word in brackets at its end, the **tag**, it
opens a scheme or documents an entry, and without a tag it is plain. Of the remaining lines those
count that begin like the parts of an enum declaration; whatever follows that beginning is ignored.
-/

namespace ArgumentSchemes.Header

open Text

/-- What a line of a header says. -/
inductive Line where
  /-- `/// Input arguments of f [fIn]` -/
  | schemeStart (role : Role) (title name : String)
  /-- `/// some text [tag]` -/
  | entryDoc (text tag : String)
  /-- `/// some text`, without a tag. -/
  | doc (text : String)
  /-- `enum Name {` -/
  | enumHeader (name : String)
  /-- `NAME,` -/
  | enumEntry (name : String)
  /-- The line that closes an enum. -/
  | terminator
  /-- Anything else. -/
  | other
deriving DecidableEq, Repr

/-- Whether the text, after any blanks, goes on with the character `c`. -/
def continuesWith (c : Char) (cs : List Char) : Bool := (trimStart cs).head? == some c

/-- Whether the first character of the text, if there is one, is blank. -/
def startsBlank (cs : List Char) : Bool := cs.head?.any isBlank

/-- Takes a text that ends in a bracketed word apart into what stands before the bracket and the
word. Blanks after the closing bracket do not count. -/
def splitTag? (cs : List Char) : Option (List Char × List Char) :=
  match (trimEnd cs).reverse with
  | ']' :: r =>
    match spanWord r with
    | (tag, '[' :: before) => if tag.isEmpty then none else some (before.reverse, tag.reverse)
    | _ => none
  | _ => none

/-- The role whose marker the text begins with, as words of their own. -/
def markerRole? (cs : List Char) : Option Role :=
  Role.all.find? fun role =>
    match afterPrefix? role.marker.toList cs with
    | some rest => !rest.head?.any isWordChar
    | none => false

/-- The name in a text that begins like the head of an enum declaration. -/
def enumHeader? (cs : List Char) : Option (List Char) :=
  match afterPrefix? ['e', 'n', 'u', 'm'] cs with
  | some rest =>
    let (name, after) := spanWord (trimStart rest)
    if startsBlank rest && !name.isEmpty && continuesWith '{' after then some name else none
  | none => none

/-- The name in a text that begins like a member of an enum declaration. -/
def enumEntry? (cs : List Char) : Option (List Char) :=
  let (name, after) := spanWord cs
  if !name.isEmpty && continuesWith ',' after then some name else none

namespace Line

/-- Reads what follows `///`. A text that goes over a line ending is no documentation. -/
def ofComment (cs : List Char) : Line :=
  match splitTag? cs with
  | some (before, tag) =>
    let text := trim before
    if '\n' ∈ text then other
    else match markerRole? text with
      | some role => schemeStart role (String.ofList text) (String.ofList tag)
      | none => entryDoc (String.ofList text) (String.ofList tag)
  | none => if '\n' ∈ cs then other else doc (String.ofList (trim cs))

/-- Reads a line that is not documentation and does not begin with a blank. -/
def ofCode : List Char → Line
  | '}' :: rest => if continuesWith ';' rest then terminator else other
  | cs =>
    match enumHeader? cs with
    | some name => enumHeader (String.ofList name)
    | none =>
      match enumEntry? cs with
      | some name => enumEntry (String.ofList name)
      | none => other

/-- Reads a line given by its characters. -/
def ofChars (cs : List Char) : Line :=
  match afterPrefix? ['/', '/', '/'] (trimStart cs) with
  | some rest => ofComment rest
  | none => ofCode (trimStart cs)

/-- Reads one line of a header. -/
def classify (line : String) : Line := ofChars line.toList

end Line

/-- Takes the text of an entry's documentation apart into a name and a description when it has the
shape `name -- description`: a word, and two hyphens with blanks before and behind them. -/
def splitNamedDoc? (text : String) : Option (String × String) :=
  let (name, after) := spanWord text.toList
  match afterPrefix? ['-', '-'] (trimStart after) with
  | some rest =>
    let doc := trimStart rest
    if !name.isEmpty && startsBlank after && startsBlank rest && !('\n' ∈ doc) then
      some (String.ofList name, String.ofList (trimEnd doc))
    else none
  | none => none

end ArgumentSchemes.Header
