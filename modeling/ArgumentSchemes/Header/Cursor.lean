import ArgumentSchemes.Header.Checker
import ArgumentSchemes.Header.State
import ArgumentSchemes.Text.Lines

/-!
# The schemes of a header

`Checker.parse` gives the items of a header in order: for each closed scheme the checked scheme or
the reason why it is refused, and at the end a fault if a scheme is left open. A `Cursor` gives the
same items one at a time and reads no further than it has to.

Main statement: what `Cursor.items` lists is what `Cursor.next` gives step by step
(`Cursor.items_of_next`), and nothing follows the end (`Cursor.next_eq_none`).
-/

namespace ArgumentSchemes.Header

/-- What a header gives for one scheme. -/
abbrev Item := Except SchemeFault Scheme

/-- A position in the lines of a header. -/
structure Cursor where
  checker : Checker
  /-- The lines that are not read yet. -/
  rest : List String
  /-- The number of the next line. -/
  number : Nat := 1
  state : State := .idle
  /-- Whether the end has been reported. -/
  done : Bool := false

namespace Cursor

/-- Reads lines up to the next item. -/
def advance (checker : Checker) (state : State) (number : Nat) :
    List String → Option Item × Cursor
  | [] =>
    (state.finish.map .error, { checker, rest := [], number, state := .idle, done := true })
  | line :: rest =>
    match state.feed number line with
    | (state', none) => advance checker state' (number + 1) rest
    | (state', some draft) =>
      (some (checker.check draft), { checker, rest, number := number + 1, state := state' })

/-- The next item, if there is one, and the position behind it. -/
def next (c : Cursor) : Option Item × Cursor :=
  if c.done then (none, c) else advance c.checker c.state c.number c.rest

/-- The items of the given lines, which are read from `state` on. -/
def itemsFrom (checker : Checker) (state : State) (number : Nat) : List String → List Item
  | [] => state.finish.toList.map .error
  | line :: rest =>
    match state.feed number line with
    | (state', none) => itemsFrom checker state' (number + 1) rest
    | (state', some draft) =>
      checker.check draft :: itemsFrom checker state' (number + 1) rest

/-- All items from a position on. -/
def items (c : Cursor) : List Item :=
  if c.done then [] else itemsFrom c.checker c.state c.number c.rest

theorem itemsFrom_of_advance (checker : Checker) (state : State) (number : Nat)
    (ls : List String) :
    itemsFrom checker state number ls =
      match advance checker state number ls with
      | (none, _) => []
      | (some item, c) => item :: c.items := by
  induction ls generalizing state number with
  | nil => cases h : state.finish <;> simp [itemsFrom, advance, items, h]
  | cons line rest ih =>
    simp only [itemsFrom, advance]
    split
    · exact ih _ _
    · simp [items]

/-- The list of items is what the steps give one after the other. -/
theorem items_of_next (c : Cursor) :
    c.items =
      match c.next with
      | (none, _) => []
      | (some item, c') => item :: c'.items := by
  by_cases h : c.done = true
  · simp [items, next, h]
  · simp only [items, next, h]
    exact itemsFrom_of_advance ..

private theorem done_of_advance {checker : Checker} {state : State} {number : Nat}
    {ls : List String} {c : Cursor} (h : advance checker state number ls = (none, c)) :
    c.done = true := by
  induction ls generalizing state number with
  | nil =>
    simp only [advance, Prod.mk.injEq] at h
    exact h.2 ▸ rfl
  | cons line rest ih =>
    simp only [advance] at h
    split at h
    · exact ih h
    · simp at h

/-- Nothing follows the end. -/
theorem next_eq_none {c c' : Cursor} (h : c.next = (none, c')) : c'.next = (none, c') := by
  have hdone : c'.done = true := by
    by_cases hd : c.done = true
    · simp only [next, hd, if_true, Prod.mk.injEq, true_and] at h
      exact h ▸ hd
    · simp only [next, hd] at h
      exact done_of_advance h
  simp [next, hdone]

end Cursor

namespace Checker

/-- The start of a header text. -/
def cursor (checker : Checker) (text : String) : Cursor := { checker, rest := Text.lines text }

/-- The items of a header text in order. -/
def parse (checker : Checker) (text : String) : List Item := (checker.cursor text).items

end Checker

end ArgumentSchemes.Header
