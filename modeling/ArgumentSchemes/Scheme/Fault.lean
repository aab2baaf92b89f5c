import ArgumentSchemes.Report.Diagnostic
import ArgumentSchemes.Scheme.Role

/-!
# What can be wrong with a scheme

`SchemeFault` lists the causes for which a scheme is refused, by the parser, by the checker or by
an emitter. The wording of every cause is in `SchemeFault.message` and
`SchemeFault.toDiagnostic`.
-/

namespace ArgumentSchemes

open Report (Diagnostic)

/-- A part that every entry must have. -/
inductive EntryField where
  | argName
  | doc
  | constant
deriving DecidableEq, Repr

/-- The part as a message names it. -/
def EntryField.label : EntryField → String
  | argName => "argument name"
  | doc => "documentation"
  | constant => "enum constant"

/-- Why a scheme is refused. Every cause names its scheme. -/
inductive SchemeFault where
  /-- The text ended before the scheme that was opened on this line. -/
  | unterminated (scheme : String) (line : Nat)
  /-- The entry of this number, counted from 1, lacks a part; `label` is what it can be called
  by. -/
  | incompleteEntry (scheme : String) (index : Nat) (label : Option String)
      (missing : EntryField)
  /-- The enum of the scheme does not fit its role. -/
  | malformedGroup (scheme group : String) (role : Role) (reason : String)
  /-- A documented constant holds the marker of the count sentinels. -/
  | reservedName (scheme constant marker : String)
  /-- An entry that is bound to `existing` is given another constant on this line. -/
  | duplicateConstant (scheme entry existing constant : String) (line : Nat)
  /-- The scheme has no entries, so there is no helper to write. -/
  | emptyScheme (scheme : String)
deriving DecidableEq, Repr

namespace SchemeFault

/-- The name of the scheme that the fault belongs to. -/
def scheme : SchemeFault → String
  | unterminated s _ => s
  | incompleteEntry s _ _ _ => s
  | malformedGroup s _ _ _ => s
  | reservedName s _ _ => s
  | duplicateConstant s _ _ _ _ => s
  | emptyScheme s => s

/-- Whether the fault ends the whole run; any other one only drops its scheme. -/
def isFatal : SchemeFault → Bool
  | unterminated .. => true
  | emptyScheme .. => true
  | _ => false

/-- The fault in one sentence. -/
def message : SchemeFault → String
  | unterminated s line => s!"scheme `{s}` opened on line {line} is never terminated"
  | incompleteEntry s index _ missing => s!"entry #{index} of scheme `{s}` has no {missing.label}"
  | malformedGroup s group role _ =>
    s!"enum group `{group}` of scheme `{s}` does not match role {role.name}"
  | reservedName s constant marker =>
    s!"enum constant `{constant}` of scheme `{s}` contains reserved marker `{marker}`"
  | duplicateConstant s entry _ _ _ =>
    s!"enum constant for entry `{entry}` of scheme `{s}` already given"
  | emptyScheme s => s!"scheme `{s}` has no entries"

/-- The code under which the fault is documented. -/
def code : SchemeFault → String
  | unterminated .. => "schemegen::parse::unterminated"
  | incompleteEntry .. => "schemegen::check::incomplete_entry"
  | malformedGroup .. => "schemegen::check::malformed_enum_group"
  | reservedName .. => "schemegen::check::reserved_name"
  | duplicateConstant .. => "schemegen::parse::duplicate_enum"
  | emptyScheme .. => "schemegen::emit::empty_scheme"

/-- The hint that goes with the code of the fault, if it has one. -/
def help : SchemeFault → Option String
  | unterminated .. => some "close the enum with `\x7d;` before the end of the file"
  | reservedName .. => some "count sentinels must stay outside the documented entries"
  | _ => none

/-- The line that says which part of an entry or of a scheme fails. -/
def failingField (field : String) : String := s!"failing field: {field}"

/-- The details of the fault, for the lines under the message. -/
def context : SchemeFault → List String
  | unterminated _ line => [s!"scheme starts on line {line}"]
  | incompleteEntry _ _ label missing =>
    (label.toList.map fun l => s!"entry: `{l}`") ++ [failingField missing.label]
  | malformedGroup _ _ _ reason => [reason, failingField "enum group"]
  | reservedName _ constant _ => [failingField s!"enum constant `{constant}`"]
  | duplicateConstant _ _ existing constant line =>
    [s!"`{constant}` on line {line} but the entry is already bound to `{existing}`",
      failingField "enum constant"]
  | emptyScheme _ => ["a helper without arguments is never emitted"]

/-- What the author of the header may do about the fault. -/
def suggestion : SchemeFault → String
  | unterminated .. => "Add the closing `\x7d;` of the scheme's enum"
  | incompleteEntry _ _ _ .constant =>
    "Follow the entry's `/// doc [name]` line with an `ENUM_CONSTANT,` line"
  | incompleteEntry .. => "Precede the enum constant with a `/// doc [name]` line"
  | malformedGroup _ _ role _ =>
    let suffixes := "` or `".intercalate role.suffixes
    s!"Name the enum so that it ends in `{suffixes}`"
  | reservedName _ _ marker => s!"Leave constants containing `{marker}` undocumented"
  | duplicateConstant .. => "Give every `ENUM_CONSTANT,` line its own `/// doc [name]` line"
  | emptyScheme .. => "Document at least one enum entry"

/-- The fault as a diagnostic that is not tied to a file. -/
def toDiagnostic (fault : SchemeFault) : Diagnostic :=
  { message := fault.message, context := fault.context, suggestions := [fault.suggestion] }

/-- The diagnostic for a fault found in the file `path`: a warning unless the fault is fatal. -/
def diagnosticAt (fault : SchemeFault) (path : Files.Path) : Diagnostic :=
  { fault.toDiagnostic with
    severity := if fault.isFatal then .error else .warning
    context := fault.context ++ [s!"scheme: `{fault.scheme}`"]
    location := some path }

end SchemeFault

end ArgumentSchemes
