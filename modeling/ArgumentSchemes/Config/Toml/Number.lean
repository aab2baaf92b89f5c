import ArgumentSchemes.Config.Toml.Scan

/-!
# TOML: numbers and dates

Integers, floating-point numbers, dates and times. Nothing in a configuration is a number, so their
values are not kept; but a document whose numbers are out of range is malformed, so they are
checked.
-/

namespace ArgumentSchemes.Config.Toml

/-! ### Digits -/

/-- The value of a digit in the given base. -/
def digit? (base : Nat) (c : Char) : Option Nat := (hexDigit? c).filter (· < base)

/-- Reads the digits behind a digit; one underscore may stand before each of them. -/
def moreDigits (base : Nat) : List Char → List Nat × List Char
  | '_' :: c :: rest =>
    match digit? base c with
    | some d =>
      let (ds, rest) := moreDigits base rest
      (d :: ds, rest)
    | none => ([], '_' :: c :: rest)
  | c :: rest =>
    match digit? base c with
    | some d =>
      let (ds, rest) := moreDigits base rest
      (d :: ds, rest)
    | none => ([], c :: rest)
  | [] => ([], [])

/-- Reads at least one digit. -/
def digits? (base : Nat) : List Char → Option (Found (List Nat))
  | [] => none
  | c :: rest => do
    let d ← digit? base c
    let (ds, rest) := moreDigits base rest
    return (d :: ds, rest)

/-- The number that digits write in the given base. -/
def ofDigits (base : Nat) (ds : List Nat) : Nat := ds.foldl (fun n d => n * base + d) 0

/-- Reads a sign: whether it is a minus. -/
def sign : List Char → Bool × List Char
  | '+' :: rest => (false, rest)
  | '-' :: rest => (true, rest)
  | rest => (false, rest)

/-- Reads decimal digits that do not begin with a superfluous zero. -/
def wholeDigits? : List Char → Option (Found (List Nat))
  | '0' :: rest => some ([0], rest)
  | cs => digits? 10 cs

/-! ### Numbers -/

/-- Reads an integer, which must fit into 64 bits. -/
def integer? (cs : List Char) : Option (Found Int) :=
  match cs with
  | '0' :: 'x' :: rest => unsigned 16 rest
  | '0' :: 'o' :: rest => unsigned 8 rest
  | '0' :: 'b' :: rest => unsigned 2 rest
  | _ => do
    let (negative, cs) := sign cs
    let (ds, rest) ← wholeDigits? cs
    let n : Int := ofDigits 10 ds
    inRange (if negative then -n else n) rest
where
  /-- Keeps a number of 64 bits. -/
  inRange (n : Int) (rest : List Char) : Option (Found Int) :=
    if Int64.minValue.toInt ≤ n ∧ n ≤ Int64.maxValue.toInt then some (n, rest) else none
  /-- Reads digits in another base. -/
  unsigned (base : Nat) (cs : List Char) : Option (Found Int) := do
    let (ds, rest) ← digits? base cs
    inRange (ofDigits base ds) rest

/-- Whether the number `digits` · 10 ^ `exponent` is too large for a floating-point number of 64
bits: it is when it reaches the middle between the largest one and 2 ^ 1024. Far from there the
number of its digits decides. -/
def overflows (digits : List Nat) (exponent : Int) : Bool :=
  let significant := digits.dropWhile (· == 0)
  let size : Int := significant.length + exponent
  if significant.isEmpty ∨ size < 300 then false
  else if 320 < size then true
  else
    let n := ofDigits 10 significant
    let bound := Nat.pow 2 1024 - Nat.pow 2 970
    if 0 ≤ exponent then bound ≤ n * Nat.pow 10 exponent.toNat
    else bound * Nat.pow 10 (-exponent).toNat ≤ n

/-- Reads the exponent of a floating-point number. -/
def exponent? : List Char → Option (Found Int)
  | c :: rest =>
    if c = 'e' ∨ c = 'E' then do
      let (negative, cs) := sign rest
      let (ds, rest) ← digits? 10 cs
      let n : Int := ofDigits 10 ds
      return (if negative then -n else n, rest)
    else none
  | [] => none

/-- Reads a finite floating-point number: it has a fraction or an exponent. A positive one must not
be too large. -/
def finiteFloat? (cs : List Char) : Option (List Char) := do
  let (negative, cs) := sign cs
  let (whole, cs) ← wholeDigits? cs
  let (fraction, cs, hasFraction) ← match cs with
    | '.' :: rest => (digits? 10 rest).map fun (ds, rest) => (ds, rest, true)
    | _ => some ([], cs, false)
  let (exponent, rest) ← match exponent? cs with
    | some found => some found
    | none => if hasFraction then some (0, cs) else none
  if !negative && overflows (whole ++ fraction) (exponent - fraction.length) then none
  else some rest

/-- Reads the name of a number that is not finite. -/
def specialFloat? (cs : List Char) : Option (List Char) :=
  match (sign cs).2 with
  | 'i' :: 'n' :: 'f' :: rest => some rest
  | 'n' :: 'a' :: 'n' :: rest => some rest
  | _ => none

/-! ### Dates and times -/

/-- Reads two digits that write a number between the given ones. -/
def twoDigits? (low high : Nat) : List Char → Option (Found Nat)
  | a :: b :: rest => do
    let n := (← digit? 10 a) * 10 + (← digit? 10 b)
    if low ≤ n ∧ n ≤ high then some (n, rest) else none
  | _ => none

/-- The characters behind a given one. -/
def after? (c : Char) : List Char → Option (List Char)
  | d :: rest => if c = d then some rest else none
  | [] => none

/-- How many days a month has. -/
def daysIn (year month : Nat) : Nat :=
  if month = 2 then
    if year % 4 = 0 ∧ (year % 100 ≠ 0 ∨ year % 400 = 0) then 29 else 28
  else if month = 4 ∨ month = 6 ∨ month = 9 ∨ month = 11 then 30
  else 31

/-- Reads a date. -/
def date? (cs : List Char) : Option (List Char) := do
  let (century, cs) ← twoDigits? 0 99 cs
  let (years, cs) ← twoDigits? 0 99 cs
  let (month, cs) ← twoDigits? 1 12 (← after? '-' cs)
  let (_, rest) ← twoDigits? 1 (daysIn (century * 100 + years) month) (← after? '-' cs)
  return rest

/-- Reads a time of day; its last minute may have a leap second. -/
def time? (cs : List Char) : Option (List Char) := do
  let (_, cs) ← twoDigits? 0 23 cs
  let (_, cs) ← twoDigits? 0 59 (← after? ':' cs)
  let (_, cs) ← twoDigits? 0 60 (← after? ':' cs)
  match cs with
  | '.' :: rest =>
    if rest.head?.any Char.isDigit then some (rest.dropWhile Char.isDigit) else some cs
  | _ => some cs

/-- Reads the distance of a time zone. -/
def offset? : List Char → Option (List Char)
  | 'Z' :: rest | 'z' :: rest => some rest
  | c :: rest =>
    if c = '+' ∨ c = '-' then do
      let (_, cs) ← twoDigits? 0 23 rest
      let (_, rest) ← twoDigits? 0 59 (← after? ':' cs)
      return rest
    else none
  | [] => none

/-- Reads a date with a time, a date, or a time. -/
def datetime? (cs : List Char) : Option (List Char) :=
  match date? cs with
  | none => time? cs
  | some rest =>
    match rest with
    | c :: behind =>
      if c = 'T' ∨ c = 't' ∨ c = ' ' then
        match time? behind with
        | some rest' => some ((offset? rest').getD rest')
        | none => some rest
      else some rest
    | [] => some []

end ArgumentSchemes.Config.Toml
