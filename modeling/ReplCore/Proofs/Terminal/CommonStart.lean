import Mathlib.Order.Bounds.Basic
import ReplCore.Proofs.Terminal.Cuts
import ReplCore.Terminal.Repaint

/-!
# The common start of two texts

The common start that a repaint keeps is found by walking along two texts as long as they have the
same pieces. It is the longest one that cuts no escape sequence of either: a cut between the pieces
of both texts leaves the same pieces before it in both.

* `exists_common_pieces`, `le_commonFrom`: the common start is made of the pieces that the texts have
  in common.
* `isGreatest_commonLength`: the common start is the longest one that cuts no sequence.
-/

namespace ReplCore.Repaint

open Escape

/-! ## Walking along two texts -/

section Walk

variable {x c : Char} {bound before after before' after' s : Text}

theorem startingAt_zero (t : Text) : startingAt t 0 = ((leading? t).map (·.1)).getD [] := rfl

theorem commonFrom_char (hb : leading? (c :: before) = none) (ha : leading? (c :: after) = none) :
    commonFrom (x :: bound) (c :: before) (c :: after) = commonFrom bound before after + 1 := by
  simp [commonFrom, startingAt_zero, hb, ha]

theorem commonFrom_sequence (hb : leading? before = some (s, before'))
    (ha : leading? after = some (s, after')) :
    commonFrom (x :: bound) before after = commonFrom bound before' after' + s.length := by
  have hne := ne_nil_of_leading? hb
  obtain ⟨rfl, -⟩ := leading?_eq_some hb
  obtain ⟨rfl, -⟩ := leading?_eq_some ha
  obtain ⟨c, s, rfl⟩ := List.exists_cons_of_ne_nil hne
  rw [List.cons_append] at ha hb ⊢
  simp [commonFrom, startingAt_zero, hb, ha]

/-- The walk ends where the texts differ in the sequence that starts there. -/
theorem commonFrom_of_ne (h : startingAt (c :: before) 0 ≠ startingAt (c :: after) 0) :
    commonFrom (x :: bound) (c :: before) (c :: after) = 0 := by
  have hsome : ((startingAt (c :: before) 0).isEmpty && (startingAt (c :: after) 0).isEmpty) =
      false := by
    refine Bool.eq_false_iff.mpr fun hempty => h ?_
    rw [Bool.and_eq_true, List.isEmpty_iff, List.isEmpty_iff] at hempty
    rw [hempty.1, hempty.2]
  simp [commonFrom, hsome, h]

end Walk

/-- The common start of two texts is made of whole pieces, the same ones in both. -/
theorem exists_common_pieces (bound : Text) : ∀ before after : Text, ∃ common ps qs,
    pieces before = common ++ ps ∧ pieces after = common ++ qs ∧
      commonFrom bound before after = widthOf common := by
  have hnone : ∀ before after : Text, ∃ common ps qs : List Piece, pieces before = common ++ ps ∧
      pieces after = common ++ qs ∧ 0 = widthOf common :=
    fun before after => ⟨[], pieces before, pieces after, rfl, rfl, rfl⟩
  induction bound with
  | nil => exact hnone
  | cons x bound ih =>
    intro before after
    cases before with
    | nil => exact hnone [] after
    | cons b before =>
    cases after with
    | nil => exact hnone (b :: before) []
    | cons a after =>
    by_cases hba : b = a
    · subst hba
      by_cases hsame : startingAt (b :: before) 0 = startingAt (b :: after) 0
      · rw [startingAt_zero, startingAt_zero] at hsame
        cases hb : leading? (b :: before) with
        | none =>
          cases ha : leading? (b :: after) with
          | none =>
            obtain ⟨common, ps, qs, hps, hqs, hlength⟩ := ih before after
            refine ⟨.char b :: common, ps, qs, ?_, ?_, ?_⟩
            · rw [pieces_of_leading?_none hb, hps, List.cons_append]
            · rw [pieces_of_leading?_none ha, hqs, List.cons_append]
            · rw [commonFrom_char hb ha, hlength, widthOf_cons, Nat.add_comm]
              rfl
          | some found =>
            rw [hb, ha] at hsame
            exact absurd hsame.symm (ne_nil_of_leading? ha)
        | some found =>
          cases ha : leading? (b :: after) with
          | none =>
            rw [hb, ha] at hsame
            exact absurd hsame (ne_nil_of_leading? hb)
          | some found' =>
            obtain ⟨s, before'⟩ := found
            obtain ⟨t, after'⟩ := found'
            rw [hb, ha] at hsame
            obtain rfl : s = t := hsame
            obtain ⟨common, ps, qs, hps, hqs, hlength⟩ := ih before' after'
            refine ⟨.sequence s :: common, ps, qs, ?_, ?_, ?_⟩
            · rw [pieces_of_leading? hb, hps, List.cons_append]
            · rw [pieces_of_leading? ha, hqs, List.cons_append]
            · rw [commonFrom_sequence hb ha, hlength, widthOf_cons, Nat.add_comm]
              rfl
      · rw [commonFrom_of_ne hsame]
        exact hnone _ _
    · simp only [commonFrom, ne_eq, hba, not_false_eq_true, if_true]
      exact hnone _ _

/-- Pieces that two texts start with are part of their common start. -/
theorem le_commonFrom {common ps qs : List Piece} : ∀ {bound before after : Text},
    pieces before = common ++ ps → pieces after = common ++ qs → before.length ≤ bound.length →
      widthOf common ≤ commonFrom bound before after := by
  induction common with
  | nil => exact fun _ _ _ => Nat.zero_le _
  | cons p common ih =>
    intro bound before after hbefore hafter hbound
    rw [widthOf_cons, Nat.add_comm]
    rcases pieces_eq_cons hbefore with ⟨c, before', rfl, rfl, hb, hps⟩ |
      ⟨s, before', rfl, -, hb, hps⟩ <;>
    rcases pieces_eq_cons hafter with ⟨d, after', hd, rfl, ha, hqs⟩ | ⟨t, after', ht, -, ha, hqs⟩
    · cases hd
      obtain ⟨x, bound, rfl⟩ := List.exists_cons_of_length_pos (Nat.lt_of_lt_of_le (by simp) hbound)
      rw [commonFrom_char hb ha]
      exact Nat.succ_le_succ (ih hps hqs (Nat.le_of_succ_le_succ hbound))
    · cases ht
    · cases hd
    · cases ht
      have hlt := (leading?_eq_some hb).2
      obtain ⟨x, bound, rfl⟩ := List.exists_cons_of_length_pos (l := bound) (by omega)
      rw [List.length_cons] at hbound
      rw [commonFrom_sequence hb ha]
      exact Nat.add_le_add_right (ih hps hqs (by omega)) _

/-! ## The longest common start that cuts no sequence -/

/-- A common start of two texts that cuts no escape sequence of either. -/
structure IsCommonStart (before after : Text) (n : Nat) : Prop where
  le_before : n ≤ before.length
  le_after : n ≤ after.length
  take_eq : before.take n = after.take n
  outside_before : ¬ IsInside before n
  outside_after : ¬ IsInside after n

namespace IsCommonStart

variable {before after : Text} {n : Nat}

theorem symm (h : IsCommonStart before after n) : IsCommonStart after before n :=
  ⟨h.le_after, h.le_before, h.take_eq.symm, h.outside_after, h.outside_before⟩

theorem of_pieces {common ps qs : List Piece} (hps : pieces before = common ++ ps)
    (hqs : pieces after = common ++ qs) : IsCommonStart before after (widthOf common) where
  le_before := by
    rw [← flatMap_text_pieces before, hps, List.flatMap_append, List.length_append]
    exact Nat.le_add_right _ _
  le_after := by
    rw [← flatMap_text_pieces after, hqs, List.flatMap_append, List.length_append]
    exact Nat.le_add_right _ _
  take_eq := by rw [take_widthOf hps, take_widthOf hqs]
  outside_before := not_isInside hps
  outside_after := not_isInside hqs

/-- Before a common start both texts have the same pieces. -/
theorem exists_pieces (h : IsCommonStart before after n) : ∃ common ps qs,
    pieces before = common ++ ps ∧ pieces after = common ++ qs ∧ widthOf common = n := by
  obtain ⟨common, ps, hps, hcommon⟩ := (not_isInside_iff h.le_before).mp h.outside_before
  obtain ⟨common', qs, hqs, hcommon'⟩ := (not_isInside_iff h.le_after).mp h.outside_after
  have hsame : common = common' := by
    rw [← (pieces_of_append hps).1, ← (pieces_of_append hqs).1, ← take_widthOf hps,
      ← take_widthOf hqs, hcommon, hcommon', h.take_eq]
  exact ⟨common, ps, qs, hps, hsame ▸ hqs, hcommon⟩

end IsCommonStart

theorem isGreatest_commonLength_pieces (before after : Text) :
    IsGreatest {n | IsCommonStart before after n} (commonLength before after) := by
  constructor
  · obtain ⟨common, ps, qs, hps, hqs, hlength⟩ := exists_common_pieces before before after
    show IsCommonStart before after (commonFrom before before after)
    rw [hlength]
    exact .of_pieces hps hqs
  · intro n hn
    obtain ⟨common, ps, qs, hps, hqs, rfl⟩ := IsCommonStart.exists_pieces hn
    exact le_commonFrom hps hqs (Nat.le_refl _)

/-- The common start of two texts is the longest one that cuts no escape sequence of either, and it
is the same whichever text is taken first. The sequences in it are those of the text that end there
or before, and the characters of the text are those in it and those after it. -/
theorem isGreatest_commonLength (before after : Text) :
    let n := commonLength before after
    IsGreatest {n | IsCommonStart before after n} n ∧
      commonLength after before = n ∧
      occurrences (before.take n) = (occurrences before).filter (·.stop ≤ n) ∧
      characterCount before = characterCount (before.take n) + backtrackLength before n := by
  intro n
  have hgreatest := isGreatest_commonLength_pieces before after
  obtain ⟨common, ps, qs, hps, hqs, hlength⟩ := hgreatest.1.exists_pieces
  have hn : n = widthOf common := hlength.symm
  refine ⟨hgreatest, ?_, ?_, ?_⟩
  · refine (isGreatest_commonLength_pieces after before).unique ?_
    exact ⟨hgreatest.1.symm, fun m hm => hgreatest.2 hm.symm⟩
  · rw [hn, filter_occurrences hps, take_widthOf hps, occurrences, (pieces_of_append hps).1]
  · rw [hn]
    exact characterCount_cut hps

end ReplCore.Repaint
