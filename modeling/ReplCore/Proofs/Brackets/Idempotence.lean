import ReplCore.Proofs.Brackets.Removing

/-!
# Simplifying twice

The simplified text has no outermost pairs but a last call that stayed, unless the removal has made
a new one: where it joins a dollar sign in a template literal to a brace, that opens a substitution.

* `exists_of_isOutermost_foldl`: the outermost pairs of a text without some of its pairs.
* `simplify_eq_self_iff`: the texts that simplification leaves as they are.
* `keepsDollars_removed`: no dollar sign meets a brace while the pairs are removed one by one if
  none does in the end.
* `simplify_simplify`: when simplifying twice is simplifying once.
-/

namespace ReplCore.Brackets

variable {mode : Mode} {t : Text} {b p q : BracketSpan}

/-! ## Outermost pairs -/

/-- What encloses a pair that does not stop in another one does not stop in that one either. -/
theorem stop_of_encloses (hb : b ∈ spans mode t) (hp : p ∈ spans mode t) (hq : q ∈ spans mode t)
    (hencloses : q.Encloses p) (hstop : p.stop < b.start ∨ b.stop < p.stop) :
    q.stop < b.start ∨ b.stop < q.stop := by
  obtain ⟨hstart, hlt⟩ := hencloses
  have hstops := start_lt_stop_of_mem_spans p hp
  rcases hstop with hstop | hstop
  · rcases eq_or_precedes (pairwise_spans mode t) hq hb with rfl | h | h
    · omega
    · cases h with
      | before stop_lt _ => exact Or.inl stop_lt
      | inside encloses _ =>
        have := encloses.1
        omega
    · exact Or.inr (h.stop_lt_stop (standsIn_of_mem_spans q hq))
  · exact Or.inr (Nat.lt_trans hstop hlt)

/-- The outermost pairs of a text without one of its pairs were outermost before. -/
theorem exists_of_isOutermost_removeSpan (hb : b ∈ spans mode t)
    (hjoin : ¬ OpensAcross (t.take b.start) (t.drop (b.stop + 1)))
    (hq : IsOutermost (spans mode (removeSpan t b)) q) :
    ∃ p, IsOutermost (spans mode t) p ∧ p ≠ b ∧ q = p.move (placeWithout b) := by
  obtain ⟨hmem, hclosed⟩ := hq
  rw [spans_removeSpan hb hjoin] at hmem hclosed
  obtain ⟨p, hp, rfl⟩ := List.mem_map.mp hmem
  obtain ⟨hp, hstop⟩ := List.mem_filter.mp hp
  have hstop := of_decide_eq_true hstop
  refine ⟨p, ⟨hp, fun r hr haround => ?_⟩, ?_, rfl⟩
  · -- A closed span around it is still there.
    have hkept := stop_of_encloses hb hp hr (encloses_of_mem_around hp hr haround) hstop
    refine hclosed (r.move (placeWithout b)) ?_ (List.mem_map_of_mem haround)
    exact List.mem_map_of_mem (List.mem_filter.mpr ⟨hr, decide_eq_true hkept⟩)
  · rintro rfl
    have := start_lt_stop_of_mem_spans p hb
    omega

/-- The outermost pairs of a text without some of its pairs are others that were outermost before,
moved. -/
theorem exists_of_isOutermost_foldl : ∀ {bs : List BracketSpan} {t : Text}, FromTheRight bs →
    (∀ b ∈ bs, b ∈ spans mode t) → KeepsDollars t bs [] →
      ∃ f, ∀ q, IsOutermost (spans mode (bs.foldl removeSpan t)) q →
        ∃ p, IsOutermost (spans mode t) p ∧ p ∉ bs ∧ q = p.move f
  | [], t, _, _, _ => by
    refine ⟨id, fun q hq => ⟨q, hq, List.not_mem_nil, ?_⟩⟩
    rw [BracketSpan.move, List.map_id]
    rfl
  | b :: bs, t, hright, hmem, hkeeps => by
    have hb := hmem b List.mem_cons_self
    have hrest := hkeeps.tail hright (Nat.le_of_lt (start_lt_of_mem_spans b hb))
    have hjoin := hkeeps [] b bs rfl
    rw [List.append_nil] at hjoin
    obtain ⟨f, hf⟩ :=
      exists_of_isOutermost_foldl hright.tail (hright.mem_spans_removeSpan hmem) hrest
    refine ⟨f ∘ placeWithout b, fun q hq => ?_⟩
    obtain ⟨p', hp', hother, rfl⟩ := hf q hq
    obtain ⟨p, hp, hne, rfl⟩ := exists_of_isOutermost_removeSpan hb hjoin hp'
    refine ⟨p, hp, fun hpmem => ?_, BracketSpan.move_move p _ _⟩
    rcases List.mem_cons.mp hpmem with heq | hpmem
    · exact hne heq
    · -- The pairs that are removed later are to the left and have not moved.
      rw [(standsIn_of_mem_spans p hp.mem).move_eq (hright.stop_lt p hpmem)
        fun i hi => placeWithout_of_lt hi] at hother
      exact hother hpmem

/-! ## Texts that are simple already -/

/-- Simplification leaves a text as it is if nothing is outermost in it but a last call. -/
theorem simplify_eq_self_iff : simplify t = t ↔ ∀ b,
    IsOutermost (spans .ignoringMismatches t) b → IsLastCall (spans .ignoringMismatches t) b := by
  constructor
  · intro hsame b hb
    refine Classical.byContradiction fun hlast => ?_
    have hlt := start_lt_stop_of_mem_spans b hb.mem
    have hstart := start_lt_of_mem_spans b hb.mem
    have hcount : (List.range' 0 t.length).countP (fun i => !decide (IsLeftOut t i)) =
        (List.range' 0 t.length).length := by
      rw [← length_keptFrom, ← simplify_eq_keptFrom, hsame, List.length_range']
    have hplace : b.start ∈ List.range' 0 t.length := by
      rw [List.mem_range'_1]
      omega
    have hkept := List.countP_eq_length.mp hcount b.start hplace
    have hleftOut : IsLeftOut t b.start := ⟨b, hb, hlast, Nat.le_refl _, Nat.le_of_lt hlt⟩
    rw [decide_eq_true hleftOut] at hkept
    cases hkept
  · intro hlast
    have hnone : removed t = [] := by
      refine List.eq_nil_iff_forall_not_mem.mpr fun b hb => ?_
      obtain ⟨houtermost, hnot⟩ := mem_removed_iff.mp hb
      exact hnot (hlast b houtermost)
    rw [simplify_eq, hnone, List.foldl_nil]

/-! ## Joined dollar signs -/

/-- Leaving out what is between them joins the dollar sign at `i`, which stands directly in a
template literal, to the brace at `j`. -/
structure JoinsDollar (t : Text) (i j : Nat) : Prop where
  dollar : EndsInDollar (t.take (i + 1))
  brace : t[j]? = some '\x7b'
  dollar_kept : ¬ IsLeftOut t i
  brace_kept : ¬ IsLeftOut t j
  apart : i + 1 < j
  leftOut : ∀ k, i < k → k < j → IsLeftOut t k

/-- The first character that is kept comes after ones that are left out. -/
theorem exists_of_head?_keptFrom {leftOut : Nat → Bool} {c : Char} : ∀ {v : Text} {i : Nat},
    (keptFrom leftOut i v).head? = some c →
      ∃ n, v[n]? = some c ∧ leftOut (i + n) = false ∧ ∀ k < n, leftOut (i + k) = true
  | [], _, h => by cases h
  | d :: v, i, h => by
    rw [keptFrom, List.zipIdx_cons, List.filter_cons] at h
    cases hfirst : leftOut i with
    | false =>
      simp only [hfirst, Bool.not_false, if_true, List.map_cons, List.head?_cons] at h
      exact ⟨0, h, hfirst, fun k hk => absurd hk (Nat.not_lt_zero k)⟩
    | true =>
      simp only [hfirst, Bool.not_true, Bool.false_eq_true, if_false] at h
      obtain ⟨n, hn, hkept, hbefore⟩ := exists_of_head?_keptFrom (i := i + 1) h
      have hplace (k : Nat) : i + (k + 1) = i + 1 + k := by omega
      refine ⟨n + 1, hn, hplace n ▸ hkept, fun k hk => ?_⟩
      cases k with
      | zero => exact hfirst
      | succ k => exact hplace k ▸ hbefore k (Nat.lt_of_succ_lt_succ hk)

/-- How a pair lies to those that are removed before it and those that are removed after it. -/
theorem FromTheRight.of_append {done rest : List BracketSpan}
    (h : FromTheRight (done ++ b :: rest)) : FromTheRight done ∧ b.start < b.stop ∧
      (∀ p ∈ done, b.stop < p.start) ∧ ∀ p ∈ rest, p.stop < b.start := by
  obtain ⟨hdone, hrest, hacross⟩ := List.pairwise_append.mp h.1
  exact ⟨⟨hdone, fun p hp => h.2 p (List.mem_append_left _ hp)⟩,
    h.2 b (List.mem_append_right _ List.mem_cons_self),
    fun p hp => hacross p hp b List.mem_cons_self, (List.pairwise_cons.mp hrest).1⟩

/-- Removing pairs leaves the text in front of them as it is. -/
theorem drop_foldl_removeSpan {bs : List BracketSpan} (h : FromTheRight bs)
    (hstop : ∀ p ∈ bs, p.stop < t.length) {n : Nat} (hn : n ≤ t.length)
    (hstart : ∀ p ∈ bs, n ≤ p.start) :
    (bs.foldl removeSpan t).drop n = keptFrom (covers bs) n (t.drop n) := by
  have hlength : (t.take n).length = n := List.length_take_of_le hn
  have hbefore : keptFrom (covers bs) 0 (t.take n) = t.take n := by
    refine keptFrom_eq_self fun j _ hj => covers_eq_false fun p hp => Or.inl ?_
    have := hstart p hp
    omega
  calc (bs.foldl removeSpan t).drop n
      = (keptFrom (covers bs) 0 (t.take n ++ t.drop n)).drop n := by
        rw [foldl_removeSpan_eq h hstop, List.take_append_drop]
    _ = (t.take n ++ keptFrom (covers bs) n (t.drop n)).drop n := by
        rw [keptFrom_append, hbefore, hlength, Nat.zero_add]
    _ = keptFrom (covers bs) n (t.drop n) := List.drop_left' hlength

/-- If no dollar sign is joined to a brace in the end, none is while the pairs are removed. -/
theorem keepsDollars_removed (h : ∀ i j, ¬ JoinsDollar t i j) : KeepsDollars t (removed t) [] := by
  rintro done b rest hremoved ⟨hdollar, hbrace⟩
  have hmem {p : BracketSpan} : p ∈ removed t ↔ p ∈ done ∨ p = b ∨ p ∈ rest := by
    rw [hremoved, List.mem_append, List.mem_cons]
  have hspans : ∀ p ∈ removed t, p ∈ spans .ignoringMismatches t :=
    fun p hp => (mem_removed_iff.mp hp).1.mem
  have hstop := stop_lt_of_mem_spans b (hspans b (hmem.mpr (Or.inr (Or.inl rfl))))
  obtain ⟨hdone, hlt, hright, hleft⟩ := (hremoved ▸ fromTheRight_removed t).of_append
  have hleftOut {k : Nat} : IsLeftOut t k ↔ covers done k = true ∨
      (b.start ≤ k ∧ k ≤ b.stop) ∨ ∃ p ∈ rest, p.start ≤ k ∧ k ≤ p.stop := by
    simp only [← covers_removed_iff, covers_iff, hmem, or_and_right, exists_or, exists_eq_left]
  rw [List.append_nil, drop_foldl_removeSpan hdone
    (fun p hp => stop_lt_of_mem_spans p (hspans p (hmem.mpr (Or.inl hp)))) hstop hright] at hbrace
  obtain ⟨n, hn, hkept, hbetween⟩ := exists_of_head?_keptFrom hbrace
  rw [List.getElem?_drop] at hn
  have hpos : 0 < b.start := by
    refine Nat.pos_of_ne_zero fun hzero => ?_
    rw [hzero] at hdollar
    cases hdollar.1
  have hplace : b.start - 1 + 1 = b.start := Nat.sub_add_cancel hpos
  refine h (b.start - 1) (b.stop + 1 + n) ⟨hplace.symm ▸ hdollar, hn, ?_, ?_, by omega, ?_⟩
  · rw [hleftOut, covers_iff]
    rintro (⟨p, hp, hle, -⟩ | ⟨hle, -⟩ | ⟨p, hp, -, hle⟩)
    · have := hright p hp
      omega
    · omega
    · -- A pair does not stop at a dollar sign.
      have hend : p.stop = b.start - 1 := by
        have := hleft p hp
        omega
      have hcloser := (standsIn_of_mem_spans p (hspans p (hmem.mpr (Or.inr (Or.inr hp))))).closer
      have hlast := hdollar.1
      rw [List.getLast?_eq_getElem?, List.length_take_of_le (by omega), ← hend,
        List.getElem?_take_of_lt (by omega), hcloser, Option.some.injEq] at hlast
      revert hlast
      cases p.kind <;> decide
  · rw [hleftOut]
    rintro (hcovered | ⟨-, hle⟩ | ⟨p, hp, -, hle⟩)
    · rw [hkept] at hcovered
      cases hcovered
    · omega
    · have := hleft p hp
      omega
  · intro k hlow hhigh
    rw [hleftOut]
    rcases Nat.lt_or_ge b.stop k with hk | hk
    · have hcovered := hbetween (k - (b.stop + 1)) (by omega)
      rw [Nat.add_sub_cancel' hk] at hcovered
      exact Or.inl hcovered
    · exact Or.inr (Or.inl ⟨by omega, hk⟩)

/-- A dollar sign can only be joined to a brace if another one comes after it. -/
theorem not_joinsDollar (ht : ¬ "$$".toList <:+: t) (i j : Nat) : ¬ JoinsDollar t i j := by
  intro h
  obtain ⟨b, hb, hlast, hle, hstop⟩ := h.leftOut (i + 1) (Nat.lt_succ_self i) h.apart
  have hstart : b.start = i + 1 := by
    refine Nat.le_antisymm hle (Nat.lt_of_not_le fun hi => ?_)
    exact h.dollar_kept ⟨b, hb, hlast, hi, Nat.le_of_succ_le hstop⟩
  exact not_endsInDollar_of_mem_spans ht hb.mem (hstart ▸ h.dollar)

/-! ## Simplifying twice -/

/-- Simplifying a text twice is simplifying it once just if nothing is outermost in the simplified
text but a last call. It is if no dollar sign, directly in a template literal, is joined to a brace
by leaving out what is between them, so in particular if no two dollar signs are in a row. -/
theorem simplify_simplify (t : Text) :
    (simplify (simplify t) = simplify t ↔
      ∀ b, IsOutermost (spans .ignoringMismatches (simplify t)) b →
        IsLastCall (spans .ignoringMismatches (simplify t)) b) ∧
    ((∀ i j, ¬ JoinsDollar t i j) → simplify (simplify t) = simplify t) ∧
    (¬ "$$".toList <:+: t → simplify (simplify t) = simplify t) := by
  have hkeeps (hjoins : ∀ i j, ¬ JoinsDollar t i j) : simplify (simplify t) = simplify t := by
    have hmem : ∀ b ∈ removed t, b ∈ spans .ignoringMismatches t :=
      fun b hb => (mem_removed_iff.mp hb).1.mem
    obtain ⟨f, hf⟩ :=
      exists_of_isOutermost_foldl (fromTheRight_removed t) hmem (keepsDollars_removed hjoins)
    rw [← simplify_eq] at hf
    -- What is still outermost was the last call before.
    have hcall : ∀ q, IsOutermost (spans .ignoringMismatches (simplify t)) q →
        ∃ p, IsLastCall (spans .ignoringMismatches t) p ∧ q = p.move f := by
      intro q hq
      obtain ⟨p, hp, hother, heq⟩ := hf q hq
      refine ⟨p, Classical.byContradiction fun hnot => ?_, heq⟩
      exact hother (mem_removed_iff.mpr ⟨hp, hnot⟩)
    refine simplify_eq_self_iff.mpr fun q hq => ?_
    obtain ⟨p, hp, rfl⟩ := hcall q hq
    refine ⟨?_, hp.2⟩
    cases hlast : (spans .ignoringMismatches (simplify t)).getLast? with
    | none =>
      have hmem := hq.mem
      rw [List.getLast?_eq_none_iff.mp hlast] at hmem
      cases hmem
    | some q' =>
      obtain ⟨p', hp', rfl⟩ := hcall q' (isOutermost_of_getLast? hlast)
      have hsame : some p' = some p := hp'.1.symm.trans hp.1
      rw [Option.some.inj hsame]
  exact ⟨simplify_eq_self_iff, hkeeps, fun ht => hkeeps (not_joinsDollar ht)⟩

/-- Without the substitution, the dollar sign before it and the brace after it open another one,
which is removed the second time. In the other text no dollar sign meets a brace, and the second
time there is nothing to remove. -/
theorem simplify_simplify_dollars :
    simplify "`$$\x7b\x7d\x7b\x7d".toList = "`$\x7b\x7d".toList ∧
      simplify "`$\x7b\x7d".toList = "`".toList ∧
      ¬ "$$".toList <:+: "[a]`$(\\`\x7b$\x7bb\x7d\x7d$".toList ∧
      simplify (simplify "[a]`$(\\`\x7b$\x7bb\x7d\x7d$".toList) =
        simplify "[a]`$(\\`\x7b$\x7bb\x7d\x7d$".toList ∧
      simplify "[a]`$(\\`\x7b$\x7bb\x7d\x7d$".toList = "`$(\\`\x7b\x7d$".toList := by
  have hdollars : ¬ "$$".toList <:+: "[a]`$(\\`\x7b$\x7bb\x7d\x7d$".toList := by decide +kernel
  exact ⟨(simplify_eq_keptFrom _).trans (by decide +kernel),
    (simplify_eq_keptFrom _).trans (by decide +kernel), hdollars,
    (simplify_simplify _).2.2 hdollars, (simplify_eq_keptFrom _).trans (by decide +kernel)⟩

end ReplCore.Brackets
