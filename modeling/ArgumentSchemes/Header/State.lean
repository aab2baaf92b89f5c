import ArgumentSchemes.Header.Draft

/-!
# Reading line by line

The lines of a header are read one after the other. Outside a scheme only the line that opens one
counts. The plain documentation lines right after it are the summary of the scheme, and all further
lines up to the terminator are its body.

While a scheme is open, a line that would open another one does not: it is part of the body.
-/

namespace ArgumentSchemes.Header

/-- Where the reading of a header stands between two lines. -/
inductive State where
  /-- Outside any scheme. -/
  | idle
  /-- Among the documentation lines right after the start of a scheme. -/
  | inSummary (draft : Draft)
  /-- Behind these lines. -/
  | inBody (draft : Draft)
deriving DecidableEq, Repr

namespace State

/-- Whether no scheme is open. -/
def isIdle : State → Bool
  | idle => true
  | _ => false

/-- Reads a line of the body, or one that ends the summary. The draft comes out when the line is
the terminator. -/
def bodyStep (draft : Draft) (number : Nat) : Line → State × Option Draft
  | .terminator => (idle, some draft)
  | line => (inBody (draft.absorb number line), none)

/-- Reads the line of number `number`, of which the kind is known. -/
def step (number : Nat) (line : Line) : State → State × Option Draft
  | idle =>
    match line with
    | .schemeStart role title name => (inSummary (Draft.start role title name number), none)
    | _ => (idle, none)
  | inSummary draft =>
    match line with
    | .doc text => (inSummary (draft.addSummary text), none)
    | _ => bodyStep draft number line
  | inBody draft => bodyStep draft number line

/-- Reads the line of number `number`; when it closes a scheme, the draft of that scheme comes
out. -/
def feed (s : State) (number : Nat) (line : String) : State × Option Draft :=
  s.step number (Line.classify line)

/-- What is wrong when the lines end here: a scheme that is still open has no terminator. -/
def finish : State → Option SchemeFault
  | idle => none
  | inSummary draft | inBody draft => some (.unterminated draft.name draft.startLine)

end State

end ArgumentSchemes.Header
