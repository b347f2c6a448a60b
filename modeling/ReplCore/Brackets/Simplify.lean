import ReplCore.Brackets.Scan

/-!
# Leaving complete pairs out

Pairs that are complete do not matter for how a line goes on, so they can be left out of it. A pair
of parentheses that was closed last stays, unless it is inside another complete pair: an argument
list decides whether the word before it reads as a call.
-/

namespace ReplCore.Brackets

/-- Whether one of the spans around a span was closed. -/
def hasClosedAround (spans : List BracketSpan) (s : BracketSpan) : Bool :=
  s.around.any fun start => spans.any fun t => t.start = start

/-- Whether the nearest span around a span was closed. -/
def hasClosedParent (spans : List BracketSpan) (s : BracketSpan) : Bool :=
  s.around.head?.any fun start => spans.any fun t => t.start = start

/-- The pairs without a last pair of parentheses that stays. -/
def withoutLastCall (spans : List BracketSpan) : List BracketSpan :=
  match spans.getLast? with
  | some s => if s.kind = .round ∧ !hasClosedParent spans s then spans.dropLast else spans
  | none => spans

/-- The pairs to leave out: the outermost complete ones. -/
def removable (spans : List BracketSpan) : List BracketSpan :=
  (withoutLastCall spans).filter fun s => !hasClosedAround spans s

/-- The text without one span. -/
def removeSpan (t : Text) (s : BracketSpan) : Text := t.take s.start ++ t.drop (s.stop + 1)

/-- The text without its complete pairs, removed from the right so that offsets stay valid. -/
def simplify (t : Text) : Text :=
  ((removable (spans .ignoringMismatches t)).mergeSort fun a b => b.start ≤ a.start).foldl
    removeSpan t

end ReplCore.Brackets
