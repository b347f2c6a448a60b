import Mathlib.Data.List.Forall2
import ReplCore.Proofs.Pattern.Ends

/-!
# What stands before a match

Only a condition on places can tell what stands before a match. Once a match has passed over a
character, that character is what stands before the rest of it. So the ends of a pattern with no
condition ahead of its first character depend on the text from the place on alone.

* `ends_eq_of_rest_eq`: such a pattern has the same ends wherever the same text follows.
-/

namespace ReplCore.Pattern

variable {c d : Cursor} {p : Pattern} {es fs : List Cursor}

/-- Whether no condition on places comes ahead of the first character of a match. -/
def ignoresBefore : Pattern → Bool
  | empty | one _ => true
  | place _ => false
  | ahead p | many p | few p => ignoresBefore p
  | seq p q => ignoresBefore p && (consumes p || ignoresBefore q)
  | or p q => ignoresBefore p && ignoresBefore q

/-- Of two matches, from `c` and from `d`: they are at the same place, or neither has moved. -/
def SameOrStill (c d e f : Cursor) : Prop := e = f ∨ e = c ∧ f = d

theorem forall₂_self (es : List Cursor) : List.Forall₂ (SameOrStill c d) es es :=
  List.forall₂_same.mpr fun _ _ => Or.inl rfl

theorem forall₂_still (c d : Cursor) : List.Forall₂ (SameOrStill c d) [c] [d] :=
  .cons (Or.inr ⟨rfl, rfl⟩) .nil

/-- Where no match stays where it is, all come to the same places. -/
theorem eq_of_forall₂ (h : List.Forall₂ (SameOrStill c d) es fs) (hmoved : c ∉ es) : es = fs := by
  induction h with
  | nil => rfl
  | cons head _ ih =>
    rw [List.mem_cons, not_or] at hmoved
    rcases head with rfl | ⟨rfl, -⟩
    · rw [ih hmoved.2]
    · exact absurd rfl hmoved.1

theorem isEmpty_eq_of_forall₂ (h : List.Forall₂ (SameOrStill c d) es fs) :
    es.isEmpty = fs.isEmpty := by
  cases h with
  | nil => rfl
  | cons => rfl

theorem forall₂_flatMap {step : Cursor → List Cursor}
    (hes : List.Forall₂ (SameOrStill c d) es fs)
    (hstep : List.Forall₂ (SameOrStill c d) (step c) (step d)) :
    List.Forall₂ (SameOrStill c d) (es.flatMap step) (fs.flatMap step) := by
  induction hes with
  | nil => exact .nil
  | cons head _ ih =>
    rw [List.flatMap_cons, List.flatMap_cons]
    refine List.rel_append ?_ ih
    rcases head with rfl | ⟨rfl, rfl⟩
    · exact forall₂_self _
    · exact hstep

section Repetition

variable {step : Cursor → List Cursor}
  (hstep : List.Forall₂ (SameOrStill c d) (step c) (step d))

include hstep

theorem forall₂_repeatEnds (bound : Text) :
    List.Forall₂ (SameOrStill c d) (repeatEnds step bound c) (repeatEnds step bound d) := by
  induction bound with
  | nil => exact forall₂_still c d
  | cons x bound ih =>
    rw [repeatEnds_cons, repeatEnds_cons]
    exact List.rel_append (forall₂_flatMap hstep ih) (forall₂_still c d)

theorem forall₂_repeatEndsFew (bound : Text) :
    List.Forall₂ (SameOrStill c d) (repeatEndsFew step bound c) (repeatEndsFew step bound d) := by
  induction bound with
  | nil => exact forall₂_still c d
  | cons x bound ih => exact .cons (Or.inr ⟨rfl, rfl⟩) (forall₂_flatMap hstep ih)

end Repetition

/-- Matches of a pattern that consumes text have moved. -/
theorem not_mem_ends_self (hp : p.consumes = true) : c ∉ p.ends c :=
  fun h => Nat.lt_irrefl _ (length_lt_of_consumes p hp c c h)

/-- The ends of a pattern without a leading condition, one by one, wherever the same text
follows. -/
theorem forall₂_ends (hp : p.ignoresBefore = true) (h : c.rest = d.rest) :
    List.Forall₂ (SameOrStill c d) (p.ends c) (p.ends d) := by
  induction p with
  | empty => exact forall₂_still c d
  | one accept =>
    simp only [ends, h]
    exact forall₂_self _
  | place condition => cases hp
  | ahead p ih =>
    simp only [ends, isEmpty_eq_of_forall₂ (ih hp)]
    split
    · exact .nil
    · exact forall₂_still c d
  | seq p q ihp ihq =>
    rw [ignoresBefore, Bool.and_eq_true, Bool.or_eq_true] at hp
    obtain ⟨hp, hconsumes | hq⟩ := hp
    · -- After the first part the two matches are at the same places.
      simp only [ends, eq_of_forall₂ (ihp hp) (not_mem_ends_self hconsumes)]
      exact forall₂_self _
    · exact forall₂_flatMap (ihp hp) (ihq hq)
  | or p q ihp ihq =>
    rw [ignoresBefore, Bool.and_eq_true] at hp
    exact List.rel_append (ihp hp.1) (ihq hp.2)
  | many p ih =>
    simp only [ends, h]
    exact forall₂_repeatEnds (ih hp) d.rest
  | few p ih =>
    simp only [ends, h]
    exact forall₂_repeatEndsFew (ih hp) d.rest

/-- A pattern that passes over a character before any condition on places has the same ends wherever
the same text follows. -/
theorem ends_eq_of_rest_eq (hp : p.ignoresBefore = true) (hconsumes : p.consumes = true)
    (h : c.rest = d.rest) : p.ends c = p.ends d :=
  eq_of_forall₂ (forall₂_ends hp h) (not_mem_ends_self hconsumes)

/-- A condition ahead of a pattern decides whether it is tried. -/
theorem ends_place_seq (condition : Cursor → Bool) (p : Pattern) (c : Cursor) :
    (seq (place condition) p).ends c = if condition c then p.ends c else [] := by
  simp only [ends]
  split
  · exact List.flatMap_singleton p.ends c
  · rfl

end ReplCore.Pattern
