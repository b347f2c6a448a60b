import ReplCore.Style.Color
import ReplCore.Terminal.Repaint

/-!
# Sequences in force

Whether a sequence is in force is told by it and the sequences after it, so the sequences in force
can be found from left to right.

* `inForce_cons`: a sequence stays unless a later one takes it back.
* `inForce_append_reset`: nothing before a full reset stays.
-/

namespace ReplCore

/-! ## Places before the last element of a class -/

namespace Repaint

section LastIndex

variable {α : Type} (p : α → Bool) (x : α) (xs : List α)

theorem lastIndex?_cons : lastIndex? p (x :: xs) =
    ((lastIndex? p xs).map (· + 1)).or (if p x then some 0 else none) := by
  have hshift : ((xs.zipIdx 1).filter fun y => p y.1) =
      (xs.zipIdx.filter fun y => p y.1).map fun y => (y.1, y.2 + 1) := by
    rw [List.zipIdx_succ, List.filter_map]
    rfl
  rw [lastIndex?, lastIndex?, List.zipIdx_cons, List.filter_cons, hshift]
  generalize xs.zipIdx.filter (fun y => p y.1) = found
  cases hfound : found.getLast? with
  | none =>
    obtain rfl := List.getLast?_eq_none_iff.mp hfound
    cases p x <;> rfl
  | some y => cases p x <;> simp [List.getLast?_cons, List.getLast?_map, hfound]

theorem isSome_lastIndex? : (lastIndex? p xs).isSome = xs.any p := by
  induction xs with
  | nil => rfl
  | cons x xs ih =>
    rw [lastIndex?_cons, Option.isSome_or, Option.isSome_map, ih, List.any_cons, Bool.or_comm]
    cases p x <;> rfl

theorem isBeforeLast_zero : isBeforeLast p (x :: xs) 0 = xs.any p := by
  rw [isBeforeLast, lastIndex?_cons, ← isSome_lastIndex?]
  cases lastIndex? p xs with
  | none => cases p x <;> rfl
  | some i => simp

theorem isBeforeLast_succ (i : Nat) :
    isBeforeLast p (x :: xs) (i + 1) = isBeforeLast p xs i := by
  rw [isBeforeLast, isBeforeLast, lastIndex?_cons]
  cases lastIndex? p xs with
  | none => cases p x <;> simp
  | some j => simp

end LastIndex

end Repaint

/-! ## Colors and their resets -/

namespace Escape

theorem exists_ground {p : Ground → Prop} :
    (∃ ground, p ground) ↔ p .foreground ∨ p .background := by
  constructor
  · rintro ⟨_ | _, h⟩
    · exact .inl h
    · exact .inr h
  · rintro (h | h)
    · exact ⟨_, h⟩
    · exact ⟨_, h⟩

/-- Whether a sequence does nothing but set the color in front or behind. -/
def setsColor : Ground → Text → Bool
  | .foreground => setsForeground
  | .background => setsBackground

/-- The sequence that takes back the color in front or behind. -/
def colorReset : Ground → Text
  | .foreground => foregroundReset
  | .background => backgroundReset

variable {s : Text}

theorem eq_of_isFullReset (h : isFullReset s = true) :
    s = "\x1b[0m".toList ∨ s = "\x1b[m".toList := by
  simpa [isFullReset] using h

theorem setsColor_of_isFullReset (h : isFullReset s = true) (ground : Ground) :
    setsColor ground s = false := by
  rcases eq_of_isFullReset h with rfl | rfl <;> cases ground <;> decide

end Escape

/-! ## Sequences in force -/

namespace Repaint

open Escape

variable {s : Text} {ss later : List Text}

/-- Whether later sequences take a sequence back: a full reset takes back any, and the reset of a
color those that do nothing but set it. -/
def isTakenBack (s : Text) (later : List Text) : Bool :=
  later.any isFullReset
    || (later.any (· == foregroundReset) && setsForeground s)
    || (later.any (· == backgroundReset) && setsBackground s)

theorem isTakenBack_iff : isTakenBack s later = true ↔ (∃ r ∈ later, isFullReset r = true) ∨
    ∃ ground, colorReset ground ∈ later ∧ setsColor ground s = true := by
  rw [exists_ground]
  simp [isTakenBack, colorReset, setsColor, or_assoc]

theorem inForce_nil : inForce [] = [] := rfl

/-- A sequence is in force unless a later one takes it back. -/
theorem inForce_cons (s : Text) (later : List Text) : inForce (s :: later) =
    if isTakenBack s later then inForce later else s :: inForce later := by
  rw [inForce, inForce, List.zipIdx_cons, List.zipIdx_succ, List.filter_cons, List.filter_map]
  simp only [Function.comp_def, isBeforeLast_succ, isBeforeLast_zero]
  have hkept : (!later.any isFullReset
      && !(later.any (· == foregroundReset) && setsForeground s)
      && !(later.any (· == backgroundReset) && setsBackground s)) = !isTakenBack s later := by
    rw [isTakenBack, Bool.not_or, Bool.not_or]
  rw [hkept]
  cases isTakenBack s later <;> simp [List.map_map, Function.comp_def]

theorem inForce_single (s : Text) : inForce [s] = [s] := by
  simp [inForce_cons, isTakenBack, inForce_nil]

/-- Of the sequences before a full reset none is in force. -/
theorem inForce_append_reset {r : Text} (hr : isFullReset r = true) (ss : List Text)
    (hlater : ∀ s ∈ later, isFullReset s = false) :
    inForce (ss ++ r :: later) = r :: inForce later := by
  induction ss with
  | nil =>
    refine (inForce_cons r later).trans (if_neg fun htaken => ?_)
    rcases isTakenBack_iff.mp htaken with ⟨s, hs, hreset⟩ | ⟨ground, -, hcolor⟩
    · rw [hlater s hs] at hreset
      cases hreset
    · rw [setsColor_of_isFullReset hr] at hcolor
      cases hcolor
  | cons s ss ih =>
    have htaken : isTakenBack s (ss ++ r :: later) = true :=
      isTakenBack_iff.mpr (.inl ⟨r, by simp, hr⟩)
    rw [List.cons_append, inForce_cons, if_pos htaken, ih]

theorem mem_of_mem_inForce (h : s ∈ inForce ss) : s ∈ ss := by
  obtain ⟨x, hx, rfl⟩ := List.mem_map.mp h
  exact List.fst_mem_of_mem_zipIdx (List.mem_filter.mp hx).1

end Repaint

end ReplCore
