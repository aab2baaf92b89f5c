/-!
# Patterns of file names

A pattern is a text in which `?` stands for any character, `*` for any run of characters, and
`[…]` for one character out of a class, or with `!` behind the bracket for one outside of it. Two
stars in a row stand for any directories and must be a path component of their own; more than two
are refused.

A match is searched from left to right. A search can fail in two ways: the tokens at hand do not fit
here but may fit further on, or the text is used up, so that no longer run can help.
-/

namespace ArgumentSchemes.Files

/-- A part of a class of characters. -/
inductive CharSpec where
  | single (c : Char)
  /-- The characters between two others, these included. -/
  | range (first last : Char)
deriving DecidableEq, Repr

/-- Whether a character belongs to a part of a class. -/
def CharSpec.holds (c : Char) : CharSpec → Bool
  | single d => c == d
  | range first last => first ≤ c && c ≤ last

/-- A part of a pattern. -/
inductive PatternToken where
  | char (c : Char)
  | anyChar
  | anyRun
  | anyDirectories
  | within (specs : List CharSpec)
  | except (specs : List CharSpec)
deriving DecidableEq, Repr

/-- A pattern of file names. -/
structure Pattern where
  tokens : List PatternToken
deriving DecidableEq, Repr

/-- What is wrong with the text of a pattern. -/
inductive PatternFault where
  /-- More than two stars in a row. -/
  | wildcards
  /-- Two stars beside something else than a slash. -/
  | recursiveWildcards
  /-- A bracket that opens no class. -/
  | invalidRange
deriving DecidableEq, Repr

/-- The fault in one phrase. -/
def PatternFault.message : PatternFault → String
  | wildcards => "wildcards are either regular `*` or recursive `**`"
  | recursiveWildcards => "recursive wildcards must form a single path component"
  | invalidRange => "invalid range pattern"

/-- A fault at the character of the given number, counted from 0. -/
structure PatternError where
  position : Nat
  fault : PatternFault
deriving DecidableEq, Repr

/-- The error in one sentence. -/
def PatternError.message (e : PatternError) : String :=
  s!"Pattern syntax error near position {e.position}: {e.fault.message}"

namespace Pattern

/-! ### Reading a pattern -/

/-- The parts of a class: a character, a hyphen and a character are a range. -/
def classSpecs : List Char → List CharSpec
  | first :: '-' :: last :: rest => .range first last :: classSpecs rest
  | c :: rest => .single c :: classSpecs rest
  | [] => []

/-- Reads the class whose opening bracket stands right before the text. Gives the token and how many
characters of the text belong to it. The first character of a class may be a closing bracket. -/
def classToken? : List Char → Option (PatternToken × Nat)
  | '!' :: first :: rest =>
    if ']' ∈ rest then
      let inner := first :: rest.takeWhile (· != ']')
      some (.except (classSpecs inner), inner.length + 2)
    else none
  | first :: rest =>
    if first ≠ '!' ∧ ']' ∈ rest then
      let inner := first :: rest.takeWhile (· != ']')
      some (.within (classSpecs inner), inner.length + 1)
    else none
  | [] => none

/-- Adds the token for any directories, the last token first. It is not repeated behind another one,
unless that one begins the pattern. -/
def pushDirectories (tokens : List PatternToken) : List PatternToken :=
  match tokens with
  | .anyDirectories :: _ :: _ => tokens
  | _ => .anyDirectories :: tokens

/-- Reads a pattern from its character of number `position` on, with `before` in front of it. The
first `skip` characters belong to a token that has been read; `tokens` are those read so far, the
last one first. -/
def tokensFrom (tokens : List PatternToken) (before : Option Char) (position skip : Nat) :
    List Char → Except PatternError (List PatternToken)
  | [] => .ok tokens.reverse
  | c :: rest =>
    match skip with
    | skip + 1 => tokensFrom tokens (some c) (position + 1) skip rest
    | 0 =>
      if c = '?' then tokensFrom (.anyChar :: tokens) (some c) (position + 1) 0 rest
      else if c = '*' then
        match rest.takeWhile (· == '*') with
        | [] => tokensFrom (.anyRun :: tokens) (some c) (position + 1) 0 rest
        | [_] =>
          if before = none ∨ before = some '/' then
            match rest.drop 1 with
            | [] => tokensFrom (pushDirectories tokens) (some c) (position + 1) 1 rest
            | '/' :: _ => tokensFrom (pushDirectories tokens) (some c) (position + 1) 2 rest
            | _ => .error ⟨position + 2, .recursiveWildcards⟩
          else .error ⟨position - 1, .recursiveWildcards⟩
        | _ => .error ⟨position + 2, .wildcards⟩
      else if c = '[' then
        match classToken? rest with
        | some (token, size) => tokensFrom (token :: tokens) (some c) (position + 1) size rest
        | none => .error ⟨position, .invalidRange⟩
      else tokensFrom (.char c :: tokens) (some c) (position + 1) 0 rest

/-- Reads the text of a pattern. -/
def parse (text : String) : Except PatternError Pattern :=
  (tokensFrom [] none 0 0 text.toList).map Pattern.mk

/-! ### Matching -/

/-- How a search ends. -/
inductive Verdict where
  | fits
  /-- The tokens do not fit here. -/
  | misses
  /-- The text is used up before the tokens are. -/
  | exhausted
deriving DecidableEq, Repr

/-- Tries the text and then all of its ends, the longest first. -/
def tryEnds (search : List Char → Verdict) : List Char → Verdict
  | [] => search []
  | c :: rest =>
    match search (c :: rest) with
    | .misses => tryEnds search rest
    | verdict => verdict

/-- Tries all ends of the text that follow a slash, the longest first, and then the empty one. -/
def tryBehindSlashes (search : List Char → Verdict) : List Char → Verdict
  | [] => search []
  | c :: rest =>
    if c = '/' then
      match search rest with
      | .misses => tryBehindSlashes search rest
      | verdict => verdict
    else tryBehindSlashes search rest

/-- Matches one character against a token that stands for one. -/
def tokenFits (c : Char) : PatternToken → Bool
  | .char d => c == d
  | .within specs => specs.any (·.holds c)
  | .except specs => !specs.any (·.holds c)
  | .anyChar | .anyRun | .anyDirectories => true

/-- Matches a text against tokens. -/
def search : List PatternToken → List Char → Verdict
  | [], [] => .fits
  | [], _ :: _ => .misses
  | .anyRun :: tokens, cs => tryEnds (search tokens) cs
  | .anyDirectories :: tokens, cs =>
    match search tokens cs with
    | .misses => tryBehindSlashes (search tokens) cs
    | verdict => verdict
  | _ :: _, [] => .exhausted
  | token :: tokens, c :: cs => if tokenFits c token then search tokens cs else .misses

/-- Whether a file name matches the pattern. -/
def accepts (p : Pattern) (name : String) : Bool := search p.tokens name.toList == .fits

end Pattern

end ArgumentSchemes.Files
