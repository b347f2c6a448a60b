import ReplCore.Proofs.Brackets.Removing

/-!
# The context that a simplified text leaves

What follows a text is read in the context of what the text has left open. Removing a complete pair
keeps that context: the spans that are open are of the same kinds, and whatever follows, the pairs
that are closed in it are the same ones.

* `SameContext`: two texts leave the same context for the text after them.
* `sameContext_removeSpan`: so do a text and the text without a pair.
* `context_simplify`: so do a text and the simplified text, if no two dollar signs are in a row.
-/

namespace ReplCore

/-- A pair as it looks from a place on: its kind, its start if that is there, and its end. -/
def BracketSpan.seenFrom (b : BracketSpan) (place : Nat) : PairKind × Option Nat × Nat :=
  (b.kind, if place ≤ b.start then some (b.start - place) else none, b.stop - place)

namespace Brackets

/-- The pairs of a text that are closed after its first part are those that stop there. -/
theorem filter_spans_append (mode : Mode) (t v : Text) :
    ((spans mode (t ++ v)).filter fun b => t.length ≤ b.stop) =
      scan mode (stateBefore mode (t ++ v) t.length) v := by
  obtain ⟨hspans, hbefore, hafter⟩ := spans_append mode t v
  have hnone : (spans mode t).filter (fun b => t.length ≤ b.stop) = [] := by
    refine List.filter_eq_nil_iff.mpr fun b hb => ?_
    have := hbefore b hb
    simp only [decide_eq_true_eq]
    omega
  have hall : (scan mode (stateBefore mode (t ++ v) t.length) v).filter
      (fun b => t.length ≤ b.stop) = scan mode (stateBefore mode (t ++ v) t.length) v :=
    List.filter_eq_self.mpr fun b hb => decide_eq_true (hafter b hb)
  rw [hspans, List.filter_append, hnone, hall, List.nil_append]

/-- The state at a later place is that after the characters up to it. -/
theorem stateBefore_add (mode : Mode) {t v rest : Text} {i : Nat} (h : t.drop i = v ++ rest) :
    stateBefore mode t (i + v.length) = stateAfter mode (stateBefore mode t i) v rest := by
  have htake : t.take (i + v.length) = t.take i ++ v := by
    rw [List.take_add, h, List.take_left]
  have hdrop : t.drop (i + v.length) = rest := by
    rw [← List.drop_drop, h, List.drop_left]
  rw [stateBefore, htake, hdrop, stateAfter_append, stateBefore, h]

/-! ## The same context -/

/-- Two texts leave the same context for the text `v` after them: the spans that are open are of
the same kinds, and the pairs closed in `v` look the same from its start. -/
structure SameContext (mode : Mode) (t t' v : Text) : Prop where
  kinds_eq : (stateBefore mode (t' ++ v) t'.length).opened.map OpenSpan.kind =
    (stateBefore mode (t ++ v) t.length).opened.map OpenSpan.kind
  later_eq : (scan mode (stateBefore mode (t' ++ v) t'.length) v).map
      (BracketSpan.seenFrom · t'.length) =
    (scan mode (stateBefore mode (t ++ v) t.length) v).map (BracketSpan.seenFrom · t.length)

namespace SameContext

variable {mode : Mode} {t t' t'' v : Text}

theorem refl (mode : Mode) (t v : Text) : SameContext mode t t v := ⟨rfl, rfl⟩

theorem trans (h : SameContext mode t t' v) (h' : SameContext mode t' t'' v) :
    SameContext mode t t'' v :=
  ⟨h'.kinds_eq.trans h.kinds_eq, h'.later_eq.trans h.later_eq⟩

end SameContext

variable {mode : Mode} {t : Text} {b : BracketSpan}

theorem length_removeSpan (hb : b ∈ spans mode t) :
    (removeSpan t b).length = t.length - (b.stop + 1 - b.start) := by
  have hlt := start_lt_stop_of_mem_spans b hb
  have hstop := stop_lt_of_mem_spans b hb
  rw [removeSpan, List.length_append, List.length_take_of_le (by omega), List.length_drop]
  omega

/-- Removing a pair moves the state after the whole text. -/
theorem moved_after_text (mode' : Mode) (hb : b ∈ spans mode t) {v : Text}
    (hjoin : ¬ OpensAcross (t.take b.start) (t.drop (b.stop + 1) ++ v)) :
    Moved (placeWithout b) (stateBefore mode' (t ++ v) t.length)
      (stateBefore mode' (removeSpan t b ++ v) (removeSpan t b).length) := by
  have hlt := start_lt_stop_of_mem_spans b hb
  have hstop := stop_lt_of_mem_spans b hb
  have htake : (t ++ v).take b.start = t.take b.start :=
    List.take_append_of_le_length (by omega)
  have hdrop : (t ++ v).drop (b.stop + 1) = t.drop (b.stop + 1) ++ v :=
    List.drop_append_of_le_length hstop
  have hremoved : removeSpan (t ++ v) b = removeSpan t b ++ v := by
    rw [removeSpan, removeSpan, htake, hdrop, List.append_assoc]
  have hdropped : (removeSpan t b ++ v).drop b.start = t.drop (b.stop + 1) ++ v := by
    rw [removeSpan, List.append_assoc]
    exact List.drop_left' (List.length_take_of_le (by omega))
  have hwhole : b.stop + 1 + (t.drop (b.stop + 1)).length = t.length := by
    rw [List.length_drop]
    omega
  have hlength : b.start + (t.drop (b.stop + 1)).length = (removeSpan t b).length := by
    rw [length_removeSpan hb, List.length_drop]
    omega
  -- Both texts go on with the same characters from the place of the pair on.
  have hmoved := moved_after_pair mode' (mem_spans_append hb v) (by rwa [htake, hdrop])
  rw [hremoved] at hmoved
  have hlater := stateAfter_moved mode' v (t.drop (b.stop + 1)) hmoved
    (stacked_stateBefore mode' _ _) (stacked_stateBefore mode' _ _)
  rwa [← stateBefore_add mode' hdrop, ← stateBefore_add mode' hdropped, hwhole, hlength] at hlater

/-- A moved pair that stops after the text looks the same from its end. -/
theorem seenFrom_move (hb : b ∈ spans mode t) {p : BracketSpan}
    (hstart : p.start < b.start ∨ b.stop < p.start) (hstop : t.length ≤ p.stop) :
    (p.move (placeWithout b)).seenFrom (removeSpan t b).length = p.seenFrom t.length := by
  have hlt := start_lt_stop_of_mem_spans b hb
  have hbstop := stop_lt_of_mem_spans b hb
  have hlength := length_removeSpan hb
  have hplace : (removeSpan t b).length ≤ placeWithout b p.start ↔ t.length ≤ p.start := by
    unfold placeWithout
    split <;> omega
  have hstartFrom : t.length ≤ p.start →
      placeWithout b p.start - (removeSpan t b).length = p.start - t.length := by
    unfold placeWithout
    split <;> omega
  have hstopFrom : placeWithout b p.stop - (removeSpan t b).length = p.stop - t.length := by
    unfold placeWithout
    split <;> omega
  simp only [BracketSpan.seenFrom, BracketSpan.move, hplace, hstopFrom]
  split
  · next hle => rw [hstartFrom hle]
  · rfl

/-- Removing a pair keeps the context, unless that joins a dollar sign before it to a brace after
it. -/
theorem sameContext_removeSpan (mode' : Mode) (hb : b ∈ spans mode t) {v : Text}
    (hjoin : ¬ OpensAcross (t.take b.start) (t.drop (b.stop + 1) ++ v)) :
    SameContext mode' t (removeSpan t b) v := by
  have hmoved := moved_after_text mode' hb hjoin
  refine ⟨?_, ?_⟩
  · rw [hmoved.opened_eq, List.map_map]
    rfl
  · rw [scan_moved mode' v hmoved (stacked_stateBefore mode' _ _) (stacked_stateBefore mode' _ _),
      List.map_map]
    obtain ⟨hspans, -, hafter⟩ := spans_append mode' t v
    refine List.map_congr_left fun p hp => seenFrom_move hb ?_ (hafter p hp)
    have hp' : p ∈ spans mode' (t ++ v) := hspans ▸ List.mem_append_right _ hp
    exact start_of_stop_lt_stop (mem_spans_append hb v) hp'
      (Nat.lt_of_lt_of_le (stop_lt_of_mem_spans b hb) (hafter p hp))

/-- Removing several pairs from the right keeps the context. -/
theorem sameContext_foldl (mode' : Mode) {v : Text} : ∀ {bs : List BracketSpan} {t : Text},
    FromTheRight bs → (∀ b ∈ bs, b ∈ spans mode t) → KeepsDollars t bs v →
      SameContext mode' t (bs.foldl removeSpan t) v
  | [], t, _, _, _ => .refl mode' t v
  | b :: bs, t, hright, hmem, hkeeps => by
    have hb := hmem b List.mem_cons_self
    have hrest := hkeeps.tail hright (Nat.le_of_lt (start_lt_of_mem_spans b hb))
    exact (sameContext_removeSpan mode' hb (hkeeps [] b bs rfl)).trans
      (sameContext_foldl mode' hright.tail (hright.mem_spans_removeSpan hmem) hrest)

/-! ## Simplification -/

/-- Simplification keeps the context of what follows. In a text without two dollar signs in a row,
followed by any other text, the spans that it leaves open are of the same kinds, in the same order,
as those that the simplified text leaves open, and the pairs that are closed in the other text are,
in order and in either mode, of the same kinds with the same ends and the same starts, where these
are in the other text. -/
theorem context_simplify (mode : Mode) (ht : ¬ "$$".toList <:+: t) (v : Text) :
    (openBefore mode (simplify t) (simplify t).length).map OpenSpan.kind =
        (openBefore mode t t.length).map OpenSpan.kind ∧
      ((spans mode (simplify t ++ v)).filter fun b => (simplify t).length ≤ b.stop).map
          (BracketSpan.seenFrom · (simplify t).length) =
        ((spans mode (t ++ v)).filter fun b => t.length ≤ b.stop).map
          (BracketSpan.seenFrom · t.length) := by
  have hmem : ∀ b ∈ removed t, b ∈ spans .ignoringMismatches t :=
    fun b hb => (mem_removed_iff.mp hb).1.mem
  have hcontext (v : Text) : SameContext mode t (simplify t) v := by
    rw [simplify_eq]
    refine sameContext_foldl mode (fromTheRight_removed t) hmem ?_
    intro done b rest hremoved hopens
    refine not_endsInDollar_of_mem_spans ht (hmem b ?_) hopens.1
    rw [hremoved]
    exact List.mem_append_right _ List.mem_cons_self
  constructor
  · have hkinds := (hcontext []).kinds_eq
    rwa [List.append_nil, List.append_nil] at hkinds
  · rw [filter_spans_append, filter_spans_append]
    exact (hcontext v).later_eq

/-- An open call and an open template literal, each after a complete pair, and a text that closes
both of them with a substitution in front. -/
theorem context_simplify_template :
    ¬ "$$".toList <:+: "[1]f(`$\x7bx\x7d\\\\".toList ∧
      simplify "[1]f(`$\x7bx\x7d\\\\".toList = "f(`\\\\".toList ∧
      (openBefore .ignoringMismatches "f(`\\\\".toList 5).map OpenSpan.kind =
        [.backtick, .round] ∧
      ((spans .ignoringMismatches "f(`\\\\$\x7by\x7d`)".toList).filter fun b => 5 ≤ b.stop).map
          (BracketSpan.seenFrom · 5) =
        [(.substitution, some 0, 3), (.backtick, none, 4), (.round, none, 5)] := by
  have hdollars : ¬ "$$".toList <:+: "[1]f(`$\x7bx\x7d\\\\".toList := by decide +kernel
  have hsimplify : simplify "[1]f(`$\x7bx\x7d\\\\".toList = "f(`\\\\".toList :=
    (simplify_eq_keptFrom _).trans (by decide +kernel)
  obtain ⟨hkinds, hlater⟩ := context_simplify .ignoringMismatches hdollars "$\x7by\x7d`)".toList
  rw [hsimplify] at hkinds hlater
  exact ⟨hdollars, hsimplify, hkinds.trans (by decide +kernel), hlater.trans (by decide +kernel)⟩

end Brackets

end ReplCore
