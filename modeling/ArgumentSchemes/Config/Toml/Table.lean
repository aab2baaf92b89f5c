/-!
# TOML: values and tables

A document is a table: a list of keys with their values, which may be tables again. How a table came
about decides what may still be added to it. A table that a header names is complete but for
sub-tables; one that only a longer header implies can still get a header of its own; one that a
dotted key implies grows by dotted keys alone; and one in braces is closed.
-/

namespace ArgumentSchemes.Config.Toml

/-- How a table came about. -/
inductive Origin where
  /-- It has a header of its own, or is the whole document. -/
  | header
  /-- It is a part of a longer header. -/
  | implied
  /-- It is a part of a dotted key. -/
  | dotted
  /-- It is written in braces. -/
  | braces
deriving DecidableEq, Repr

/-- A value of a document. -/
inductive Value where
  | string (text : String)
  | integer (n : Int)
  | float
  | boolean (b : Bool)
  | datetime
  | array (items : List Value)
  | table (origin : Origin) (fields : List (String × Value))
  /-- The tables of headers in double brackets. -/
  | tables (items : List Value)
deriving Repr

/-- The keys of a table with their values. -/
abbrev Fields := List (String × Value)

namespace Fields

/-- The value of a key. -/
def get? (fields : Fields) (key : String) : Option Value := List.lookup key fields

/-- The fields with a value for a key that has none yet. -/
def add (fields : Fields) (key : String) (value : Value) : Fields := fields ++ [(key, value)]

/-- The fields with another value for a key. -/
def replace (fields : Fields) (key : String) (value : Value) : Fields :=
  fields.map fun field => if field.1 = key then (key, value) else field

/-- Changes the table that a path of keys leads to. Missing tables are added on the way, and of
several tables for one key the last is taken. A dotted path does not lead into a table with a header
of its own, and no path leads into braces or to what is not a table. -/
def changeAt (dotted : Bool) (change : Origin → Fields → Option Fields) :
    List String → Origin → Fields → Option Fields
  | [], origin, fields => change origin fields
  | key :: path, _, fields =>
    match get? fields key with
    | none =>
      let origin := if dotted then Origin.dotted else Origin.implied
      (changeAt dotted change path origin []).map fun sub => add fields key (.table origin sub)
    | some (.table origin sub) =>
      if origin = .braces ∨ (dotted ∧ origin = .header) then none
      else
        (changeAt dotted change path origin sub).map fun sub =>
          replace fields key (.table origin sub)
    | some (.tables items) =>
      match items.getLast? with
      | some (.table origin sub) =>
        (changeAt dotted change path origin sub).map fun sub =>
          replace fields key (.tables (items.dropLast ++ [.table origin sub]))
      | _ => none
    | some _ => none

/-- Adds a value under a key that must be new. -/
def addNew (fields : Fields) (key : String) (value : Value) : Option Fields :=
  match get? fields key with
  | none => some (add fields key value)
  | some _ => none

/-- Adds a value under a dotted key. The table that gets it must have come about by dotted keys,
unless the key has no dot. -/
def addDotted (fields : Fields) (path : List String) (value : Value) : Option Fields :=
  match path.getLast? with
  | none => none
  | some key =>
    match path.dropLast with
    | [] => addNew fields key value
    | front =>
      changeAt true (fun origin sub => if origin = .dotted then addNew sub key value else none)
        front .header fields

/-- Adds the table of a header. -/
def addHeader (fields : Fields) (path : List String) : Option Fields :=
  match path.getLast? with
  | none => none
  | some key =>
    changeAt false
      (fun _ sub =>
        match get? sub key with
        | none => some (add sub key (.table .header []))
        | some (.table .implied inner) => some (replace sub key (.table .header inner))
        | some _ => none)
      path.dropLast .header fields

/-- Adds a table for a header in double brackets. -/
def addHeaderItem (fields : Fields) (path : List String) : Option Fields :=
  match path.getLast? with
  | none => none
  | some key =>
    changeAt false
      (fun _ sub =>
        match get? sub key with
        | none => some (add sub key (.tables [.table .header []]))
        | some (.tables items) => some (replace sub key (.tables (items ++ [.table .header []])))
        | some _ => none)
      path.dropLast .header fields

end Fields

end ArgumentSchemes.Config.Toml
