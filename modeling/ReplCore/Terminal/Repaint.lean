import ReplCore.Terminal.Escape

/-!
# Repainting

The least to write so that a line shown by one text shows another: back over what follows the
common start of the two, set the formatting that was in force there, and write the rest of the new
text. The common start is never inside an escape sequence.
-/

namespace ReplCore.Repaint

/-- The number of characters that two texts have in common from the left, with escape sequences
counted whole. The text `bound` only bounds the number of steps. -/
def commonFrom : (bound : Text) → (before after : Text) → Nat
  | [], _, _ => 0
  | _, [], _ => 0
  | _, _, [] => 0
  | _ :: bound, b :: before, a :: after =>
    if b ≠ a then 0
    else
      let s := Escape.startingAt (b :: before) 0
      let t := Escape.startingAt (a :: after) 0
      if s.isEmpty && t.isEmpty then commonFrom bound before after + 1
      else if s = t then
        commonFrom bound ((b :: before).drop s.length) ((a :: after).drop s.length) + s.length
      else 0

/-- The length of the common start of two texts. -/
def commonLength (before after : Text) : Nat := commonFrom before before after

/-- The index of the last element of a class. -/
def lastIndex? {α : Type} (p : α → Bool) (xs : List α) : Option Nat :=
  (xs.zipIdx.filter fun x => p x.1).getLast?.map (·.2)

/-- Whether position `i` comes before the last element of a class. -/
def isBeforeLast {α : Type} (p : α → Bool) (xs : List α) (i : Nat) : Bool :=
  (lastIndex? p xs).any (i < ·)

/-- The sequences that are still in force: those not taken back by a later reset. -/
def inForce (sequences : List Text) : List Text :=
  (sequences.zipIdx.filter fun (s, i) =>
    !isBeforeLast Escape.isFullReset sequences i
      && !(isBeforeLast (· == Escape.foregroundReset) sequences i && Escape.setsForeground s)
      && !(isBeforeLast (· == Escape.backgroundReset) sequences i && Escape.setsBackground s)).map
    (·.1)

/-- The escape sequences of a text that are in force at its end. -/
def carried (t : Text) : List Text := inForce (Escape.sequences t)

/-- The number of characters shown after an offset. -/
def backtrackLength (before : Text) (offset : Nat) : Nat :=
  Escape.characterCount (before.drop offset)

/-- What to write after a text to show another in its place. -/
def write (before after : Text) : Text :=
  if before = after then []
  else
    let n := commonLength before after
    List.replicate (backtrackLength before n) '\x08' ++ (carried (before.take n)).flatten
      ++ after.drop n

end ReplCore.Repaint
