import ReplCore.Text.Basic

/-!
# Matching of brackets

Brackets, quotes and template substitutions are matched in one scan from left to right, with a
stack of what is open. The scan does not cut the text into tokens, so it works on text that is still
being typed: an opener without a closer stays open, and a closer closes the nearest opener that it
fits and drops those above it.
-/

namespace ReplCore

/-- What a pair consists of. -/
inductive PairKind where
  | round
  | square
  | curly
  | singleQuote
  | doubleQuote
  | backtick
  /-- A substitution in a template, from its dollar sign to its closing brace. -/
  | substitution
deriving Repr, DecidableEq

namespace PairKind

/-- The character that opens a pair. -/
def opening : PairKind → Char
  | round => '('
  | square => '['
  | curly => '\x7b'
  | singleQuote => '\''
  | doubleQuote => '\x22'
  | backtick => '`'
  | substitution => '$'

/-- The character that closes a pair. -/
def closing : PairKind → Char
  | round => ')'
  | square => ']'
  | curly => '\x7d'
  | singleQuote => '\''
  | doubleQuote => '\x22'
  | backtick => '`'
  | substitution => '\x7d'

def isQuote : PairKind → Bool
  | singleQuote | doubleQuote | backtick => true
  | _ => false

/-- The pair that a character opens outside of quotes. -/
def ofOpening? (c : Char) : Option PairKind :=
  [round, square, curly, singleQuote, doubleQuote, backtick].find? fun k => k.opening = c

/-- Whether a character closes brackets or substitutions. -/
def closesBracket (c : Char) : Bool := c = ')' || c = ']' || c = '\x7d'

/-- Every character that takes part in a pair. -/
def characters : Text := "()[]\x7b\x7d'\x22`$".toList

end PairKind

/-- An open span: its kind, where it starts, and the starts of the spans that were open when it was
opened, innermost first. -/
structure OpenSpan where
  kind : PairKind
  start : Nat
  around : List Nat
deriving Repr, DecidableEq

/-- A matched pair. -/
structure BracketSpan where
  kind : PairKind
  start : Nat
  stop : Nat
  around : List Nat
deriving Repr, DecidableEq

namespace OpenSpan

/-- The span closed at an index. -/
def close (s : OpenSpan) (stop : Nat) : BracketSpan := ⟨s.kind, s.start, stop, s.around⟩

end OpenSpan

namespace Brackets

/-- Which pairs are reported: all, or only those that close the innermost opener. -/
inductive Mode where
  | includingMismatches
  | ignoringMismatches
deriving Repr, DecidableEq

/-- What the scan remembers: the index of the next character, the number of backslashes just before
it, whether to pass over it, and what is open, innermost first. -/
structure State where
  index : Nat
  backslashes : Nat
  passOver : Bool
  opened : List OpenSpan
deriving Repr, DecidableEq

namespace State

def initial : State := ⟨0, 0, false, []⟩

/-- The state after a character. -/
def advance (s : State) (c : Char) (opened : List OpenSpan) : State :=
  ⟨s.index + 1, if c = '\\' then s.backslashes + 1 else 0, false, opened⟩

/-- The starts of what is open, innermost first: that of the innermost span and those around it. -/
def openStarts (s : State) : List Nat :=
  match s.opened with
  | [] => []
  | o :: _ => o.start :: o.around

/-- What is open once a span was opened. -/
def withOpened (s : State) (kind : PairKind) : List OpenSpan :=
  ⟨kind, s.index, s.openStarts⟩ :: s.opened

end State

/-- Inside quotes, a character closes them or opens a substitution, unless it is escaped. -/
def stepInQuotes (s : State) (quotes : OpenSpan) (rest : List OpenSpan) (c : Char)
    (next : Option Char) : List BracketSpan × State :=
  if s.backslashes % 2 = 1 then ([], s.advance c s.opened)
  else if c = quotes.kind.closing then ([quotes.close s.index], s.advance c rest)
  else if c = '$' ∧ quotes.kind = .backtick ∧ next = some '\x7b' then
    ([], { s.advance c (s.withOpened .substitution) with passOver := true })
  else ([], s.advance c s.opened)

/-- Outside of quotes, a character opens a pair or closes the nearest bracket that it fits. -/
def stepOutside (mode : Mode) (s : State) (c : Char) : List BracketSpan × State :=
  match PairKind.ofOpening? c with
  | some kind => ([], s.advance c (s.withOpened kind))
  | none =>
    if PairKind.closesBracket c then
      match s.opened.dropWhile fun o => o.kind.closing ≠ c with
      | [] => ([], s.advance c s.opened)
      | o :: rest =>
        let innermost := s.opened.head?.any fun p => p.start = o.start
        (if mode = .includingMismatches ∨ innermost then [o.close s.index] else [],
          s.advance c rest)
    else ([], s.advance c s.opened)

/-- One character of the scan, with the character after it: the pairs closed and the next
state. -/
def step (mode : Mode) (s : State) (c : Char) (next : Option Char) : List BracketSpan × State :=
  if s.passOver then ([], s.advance c s.opened)
  else
    match s.opened with
    | o :: rest => if o.kind.isQuote then stepInQuotes s o rest c next else stepOutside mode s c
    | [] => stepOutside mode s c

/-- The pairs of the remaining text, in the order in which they are closed. -/
def scan (mode : Mode) : State → Text → List BracketSpan
  | _, [] => []
  | s, c :: rest =>
    let (closed, s) := step mode s c rest.head?
    closed ++ scan mode s rest

/-- The matched pairs of a text, in the order in which they are closed. -/
def spans (mode : Mode) (t : Text) : List BracketSpan := scan mode .initial t

/-- The index of the other end of the pair that has an end at `position`. -/
def matching? (t : Text) (position : Int) : Option Nat :=
  ((spans .includingMismatches t).find? fun s => position = s.start ∨ position = s.stop).map
    fun s => if position = s.start then s.stop else s.start

end Brackets

end ReplCore
