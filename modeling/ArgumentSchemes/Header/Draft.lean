import ArgumentSchemes.Header.Line
import ArgumentSchemes.Scheme.Fault

/-!
# Drafts

A **draft** is a scheme as it is collected line by line, before it is known to be complete. A line
that contradicts an earlier one leaves the draft as it is, apart from the failure that is noted;
only the first failure is kept.
-/

namespace ArgumentSchemes.Header

open Text

/-- The trimmed text, unless nothing remains. -/
def nonBlank? (text : String) : Option String :=
  match trim text.toList with
  | [] => none
  | cs => some (String.ofList cs)

/-- An entry as collected so far. -/
structure EntryDraft where
  argName : Option String := none
  doc : Option String := none
  /-- The constant that the documentation names. -/
  declared : Option String := none
  /-- The constant that the enum declaration gives. -/
  constant : Option String := none
deriving DecidableEq, Repr

namespace EntryDraft

/-- The entry that a documented line begins: in the shape `name -- description [CONSTANT]` the tag
is the constant, in any other the tag is the name. -/
def ofDoc (text tag : String) : EntryDraft :=
  match splitNamedDoc? text with
  | some (name, doc) => { argName := some name, doc := nonBlank? doc, declared := some tag }
  | none => { argName := some tag, doc := nonBlank? text }

/-- What the entry can be called by in a message. -/
def label (e : EntryDraft) : Option String :=
  e.argName <|> e.constant <|> e.declared

/-- The constant that stands in the way of binding the entry to `constant`: the one it is bound to
already, or else a declared one that differs. -/
def conflict? (e : EntryDraft) (constant : String) : Option String :=
  e.constant <|> e.declared.filter (· != constant)

end EntryDraft

/-- A scheme as collected so far. -/
structure Draft where
  role : Role
  name : String
  title : String
  /-- The number of the line that opened the scheme. -/
  startLine : Nat
  summary : List String := []
  group : Option String := none
  entries : List EntryDraft := []
  /-- The first failure among the lines of the body. -/
  failure : Option SchemeFault := none
deriving DecidableEq, Repr

namespace Draft

/-- The draft that a scheme starts with. -/
def start (role : Role) (title name : String) (line : Nat) : Draft :=
  { role, name, title := String.ofList (trim title.toList), startLine := line }

/-- Notes a failure, unless there is one already. -/
def fail (d : Draft) (fault : SchemeFault) : Draft :=
  { d with failure := d.failure <|> some fault }

/-- Adds a line to the summary. -/
def addSummary (d : Draft) (text : String) : Draft :=
  { d with summary := d.summary ++ [text] }

/-- Takes the name of the enum. A second name is a failure. -/
def setGroup (d : Draft) (group : String) : Draft :=
  match d.group with
  | none => { d with group := some group }
  | some existing =>
    d.fail (.malformedGroup d.name group d.role s!"enum group already set to `{existing}`")

/-- Binds the last entry to a constant given on line `line`. Without any entry the constant makes
one of its own, which lacks a name and documentation. -/
def bindConstant (d : Draft) (constant : String) (line : Nat) : Draft :=
  match d.entries.getLast? with
  | none => { d with entries := [{ constant := some constant }] }
  | some entry =>
    match entry.conflict? constant with
    | some existing =>
      d.fail (.duplicateConstant d.name (entry.label.getD constant) existing constant line)
    | none => { d with entries := d.entries.dropLast ++ [{ entry with constant := some constant }] }

/-- Takes in one line of the body. The start of another scheme reads as one more entry. -/
def absorb (d : Draft) (line : Nat) : Line → Draft
  | .entryDoc text tag => { d with entries := d.entries ++ [EntryDraft.ofDoc text tag] }
  | .schemeStart _ title name => { d with entries := d.entries ++ [EntryDraft.ofDoc title name] }
  | .enumHeader group => d.setGroup group
  | .enumEntry constant => d.bindConstant constant line
  | .doc _ | .terminator | .other => d

end Draft

end ArgumentSchemes.Header
