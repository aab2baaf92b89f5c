import ArgumentSchemes.Header.Draft
import ArgumentSchemes.Scheme.Basic

/-!
# Checking a draft

A draft becomes a scheme when nothing failed while it was collected, all of its entries are
complete, its enum has a suffix of its role, and none of its constants holds the marker that is
reserved for count sentinels. The checks are made in this order and the first that fails is
reported. A draft without entries passes.
-/

namespace ArgumentSchemes.Header

/-- What drafts are checked against. -/
structure Checker where
  /-- The marker that no documented constant may hold; the empty marker forbids nothing. -/
  reservedMarker : String := "_NUM_"
deriving DecidableEq, Repr

/-- Whether `part` stands somewhere in `text`. -/
def containsText (part text : List Char) : Bool :=
  match text with
  | [] => part.isEmpty
  | _ :: rest => part.isPrefixOf text || containsText part rest

/-- The complete entry of number `index` in the scheme `scheme`, or the first part that it
lacks. -/
def EntryDraft.complete (scheme : String) (index : Nat) (e : EntryDraft) :
    Except SchemeFault Entry :=
  match e.argName, e.doc, e.constant with
  | none, _, _ => .error (.incompleteEntry scheme index e.label .argName)
  | some _, none, _ => .error (.incompleteEntry scheme index e.label .doc)
  | some _, some _, none => .error (.incompleteEntry scheme index e.label .constant)
  | some argName, some doc, some constant => .ok { argName, doc, constant }

/-- Completes entries that are numbered from `index`. -/
def completeEntries (scheme : String) (index : Nat) :
    List EntryDraft → Except SchemeFault (List Entry)
  | [] => .ok []
  | e :: rest =>
    match e.complete scheme index with
    | .error fault => .error fault
    | .ok entry =>
      match completeEntries scheme (index + 1) rest with
      | .error fault => .error fault
      | .ok entries => .ok (entry :: entries)

/-- What is wrong with the enum of a draft, if anything is. -/
def Draft.groupFault? (d : Draft) : Option SchemeFault :=
  let group := d.group.getD ""
  if group.isEmpty then
    some (.malformedGroup d.name group d.role "no `enum <name> \x7b` line before the terminator")
  else if d.role.acceptsGroup group then none
  else
    some (.malformedGroup d.name group d.role
      s!"`{group}` does not end in an {d.role.name} suffix")

namespace Checker

/-- Whether a constant holds the reserved marker. -/
def reserves (c : Checker) (constant : String) : Bool :=
  !c.reservedMarker.isEmpty && containsText c.reservedMarker.toList constant.toList

/-- Checks a draft. -/
def check (c : Checker) (d : Draft) : Except SchemeFault Scheme :=
  match d.failure with
  | some fault => .error fault
  | none =>
    match completeEntries d.name 1 d.entries with
    | .error fault => .error fault
    | .ok entries =>
      match d.groupFault? with
      | some fault => .error fault
      | none =>
        match entries.find? (c.reserves ·.constant) with
        | some entry => .error (.reservedName d.name entry.constant c.reservedMarker)
        | none =>
          .ok { role := d.role, name := d.name, title := d.title
                summary := "\n".intercalate d.summary, group := d.group.getD "", entries }

end Checker

end ArgumentSchemes.Header
