import ReplCore.Proofs.Brackets.States

/-!
# The pairs that are left out

A complete pair is outermost if no span around it is closed. Outermost pairs lie apart from each
other, so leaving them out one by one from the right is leaving out their places all at once.
Parentheses that were closed last are outermost and stay.

* `mem_removable_iff`: the pairs that are left out.
* `foldl_removeSpan_eq`: removing pairs one by one removes their places.
* `simplify_eq_kept`: what is left of a text.
-/

namespace ReplCore.Brackets

/-! ## Outermost pairs -/

/-- One of the pairs, and no span around it is closed. -/
structure IsOutermost (ps : List BracketSpan) (b : BracketSpan) : Prop where
  mem : b ∈ ps
  not_closed : ∀ q ∈ ps, q.start ∉ b.around

/-- The pair that was closed last, if it is a pair of parentheses. -/
def IsLastCall (ps : List BracketSpan) (b : BracketSpan) : Prop :=
  ps.getLast? = some b ∧ b.kind = .round

theorem hasClosedAround_eq_false_iff {ps : List BracketSpan} {b : BracketSpan} :
    hasClosedAround ps b = false ↔ ∀ q ∈ ps, q.start ∉ b.around := by
  simp only [hasClosedAround, List.any_eq_false, List.any_eq_true, decide_eq_true_eq, not_exists,
    not_and]
  exact ⟨fun h q hq ha => h _ ha q hq rfl, fun h a ha q hq heq => h q hq (heq ▸ ha)⟩

variable {mode : Mode} {t : Text} {b p q : BracketSpan}

/-- A pair inside of another is closed first and has the other among the spans around it. -/
theorem IsOutermost.stop_lt_start_of_precedes (hp : IsOutermost (spans mode t) p)
    (hq : q ∈ spans mode t) (h : Precedes p q) : p.stop < q.start := by
  cases h with
  | before stop_lt _ => exact stop_lt
  | inside _ around_eq =>
    refine absurd ?_ (hp.not_closed q hq)
    rw [around_eq]
    exact List.mem_append_right _ List.mem_cons_self

/-- Outermost pairs lie apart from each other. -/
theorem IsOutermost.apart (hp : IsOutermost (spans mode t) p) (hq : IsOutermost (spans mode t) q)
    (hne : p ≠ q) : p.stop < q.start ∨ q.stop < p.start := by
  rcases eq_or_precedes (pairwise_spans mode t) hp.mem hq.mem with h | h | h
  · exact absurd h hne
  · exact Or.inl (hp.stop_lt_start_of_precedes hq.mem h)
  · exact Or.inr (hq.stop_lt_start_of_precedes hp.mem h)

/-- If a span around a pair is closed, it encloses the pair. -/
theorem encloses_of_mem_around (hp : p ∈ spans mode t) (hq : q ∈ spans mode t)
    (haround : q.start ∈ p.around) : q.Encloses p := by
  have hstart : q.start < p.start := (standsIn_of_mem_spans p hp).around_lt _ haround
  rcases eq_or_precedes (pairwise_spans mode t) hp hq with rfl | h | h
  · exact absurd hstart (Nat.lt_irrefl _)
  · cases h with
    | before stop_lt _ =>
      have := start_lt_stop_of_mem_spans p hp
      omega
    | inside encloses _ => exact encloses
  · cases h with
    | before _ not_around => exact absurd haround not_around
    | inside encloses _ =>
      have := encloses.1
      omega

/-- The other pairs stop before the one that was closed last. -/
theorem exists_eq_concat_of_getLast? (h : (spans mode t).getLast? = some b) :
    ∃ before, spans mode t = before ++ [b] ∧ ∀ p ∈ before, p.stop < b.stop := by
  obtain ⟨before, hspans⟩ := List.getLast?_eq_some_iff.mp h
  have hprecedes := pairwise_spans mode t
  rw [hspans] at hprecedes
  refine ⟨before, hspans, fun p hp => ?_⟩
  have hlast := (List.pairwise_append.mp hprecedes).2.2 p hp b List.mem_cons_self
  exact hlast.stop_lt_stop (standsIn_of_mem_spans b (List.mem_of_getLast? h))

/-- What was closed last is outermost. -/
theorem isOutermost_of_getLast? (h : (spans mode t).getLast? = some b) :
    IsOutermost (spans mode t) b := by
  have hmem := List.mem_of_getLast? h
  refine ⟨hmem, fun q hq haround => ?_⟩
  have hstop := (encloses_of_mem_around hmem hq haround).2
  obtain ⟨before, hspans, hbefore⟩ := exists_eq_concat_of_getLast? h
  rw [hspans] at hq
  rcases List.mem_append.mp hq with hq | hq
  · exact Nat.lt_asymm hstop (hbefore q hq)
  · obtain rfl := List.mem_singleton.mp hq
    exact Nat.lt_irrefl _ hstop

theorem IsOutermost.hasClosedParent_eq (h : IsOutermost (spans mode t) b) :
    hasClosedParent (spans mode t) b = false := by
  rw [hasClosedParent]
  cases haround : b.around.head? with
  | none => rfl
  | some a =>
    have ha := List.mem_of_head? haround
    simp only [Option.any_some, List.any_eq_false, decide_eq_true_eq]
    rintro q hq rfl
    exact h.not_closed q hq ha

theorem mem_withoutLastCall_iff :
    b ∈ withoutLastCall (spans mode t) ↔ b ∈ spans mode t ∧ ¬ IsLastCall (spans mode t) b := by
  unfold withoutLastCall
  cases hlast : (spans mode t).getLast? with
  | none => simp [IsLastCall, hlast]
  | some s =>
    have hparent := (isOutermost_of_getLast? hlast).hasClosedParent_eq
    obtain ⟨before, hspans, hbefore⟩ := exists_eq_concat_of_getLast? hlast
    simp only [hparent, Bool.not_false, and_true, IsLastCall, hlast, Option.some.injEq]
    split
    · next hround =>
      rw [hspans, List.dropLast_concat, List.mem_append, List.mem_singleton]
      constructor
      · intro hb
        refine ⟨Or.inl hb, ?_⟩
        rintro ⟨rfl, -⟩
        exact Nat.lt_irrefl _ (hbefore s hb)
      · rintro ⟨hb | rfl, hother⟩
        · exact hb
        · exact absurd ⟨rfl, hround⟩ hother
    · next hround =>
      refine ⟨fun hb => ⟨hb, ?_⟩, And.left⟩
      rintro ⟨rfl, h⟩
      exact hround h

/-- The pairs that are left out are the outermost ones but for a last pair of parentheses. -/
theorem mem_removable_iff : b ∈ removable (spans mode t) ↔
    IsOutermost (spans mode t) b ∧ ¬ IsLastCall (spans mode t) b := by
  rw [removable, List.mem_filter, mem_withoutLastCall_iff, Bool.not_eq_true',
    hasClosedAround_eq_false_iff]
  exact ⟨fun ⟨⟨hmem, hlast⟩, hclosed⟩ => ⟨⟨hmem, hclosed⟩, hlast⟩,
    fun ⟨⟨hmem, hclosed⟩, hlast⟩ => ⟨⟨hmem, hlast⟩, hclosed⟩⟩

/-! ## Removing pairs -/

/-- Pairs in the order in which they are removed: from the right, each before the ones to the left
of it. -/
def FromTheRight (bs : List BracketSpan) : Prop :=
  (bs.Pairwise fun p q => q.stop < p.start) ∧ ∀ b ∈ bs, b.start < b.stop

theorem FromTheRight.tail {bs : List BracketSpan} (h : FromTheRight (b :: bs)) :
    FromTheRight bs :=
  ⟨(List.pairwise_cons.mp h.1).2, fun p hp => h.2 p (List.mem_cons_of_mem b hp)⟩

theorem FromTheRight.stop_lt {bs : List BracketSpan}
    (h : FromTheRight (b :: bs)) : ∀ p ∈ bs, p.stop < b.start :=
  (List.pairwise_cons.mp h.1).1

/-- The pairs of a text that are left out, from the right. -/
def removed (t : Text) : List BracketSpan :=
  (removable (spans .ignoringMismatches t)).mergeSort fun a b => b.start ≤ a.start

theorem simplify_eq (t : Text) : simplify t = (removed t).foldl removeSpan t := rfl

theorem mem_removed_iff : b ∈ removed t ↔ IsOutermost (spans .ignoringMismatches t) b ∧
    ¬ IsLastCall (spans .ignoringMismatches t) b := by
  rw [removed, List.mem_mergeSort, mem_removable_iff]

/-- The pairs that are left out lie apart, and they are removed from the right. -/
theorem fromTheRight_removed (t : Text) : FromTheRight (removed t) := by
  have hmem : ∀ b ∈ removed t, IsOutermost (spans .ignoringMismatches t) b :=
    fun b hb => (mem_removed_iff.mp hb).1
  have hlt : ∀ b ∈ removed t, b.start < b.stop :=
    fun b hb => start_lt_stop_of_mem_spans b (hmem b hb).mem
  have hapart : (removable (spans .ignoringMismatches t)).Pairwise
      fun p q => p.stop < q.start ∨ q.stop < p.start := by
    refine ((pairwise_spans _ t).sublist (removable_sublist _)).imp_of_mem fun hp hq h => ?_
    exact Or.inl ((mem_removable_iff.mp hp).1.stop_lt_start_of_precedes
      (mem_removable_iff.mp hq).1.mem h)
  have hsorted : (removed t).Pairwise fun p q => decide (q.start ≤ p.start) = true := by
    refine List.pairwise_mergeSort (fun a b c hab hbc => ?_) (fun a b => ?_) _
    · rw [decide_eq_true_eq] at hab hbc ⊢
      exact Nat.le_trans hbc hab
    · rw [Bool.or_eq_true, decide_eq_true_eq, decide_eq_true_eq]
      exact Nat.le_total _ _
  refine ⟨((hapart.perm (List.mergeSort_perm _ _).symm Or.symm).and hsorted).imp_of_mem
    fun {p q} hp hq h => ?_, hlt⟩
  have hle : q.start ≤ p.start := of_decide_eq_true h.2
  have := hlt p hp
  have := h.1
  omega

/-! ## What is left -/

/-- Whether a place is in one of the pairs. -/
def covers (bs : List BracketSpan) (i : Nat) : Bool := bs.any fun b => b.start ≤ i ∧ i ≤ b.stop

theorem covers_iff {bs : List BracketSpan} {i : Nat} :
    covers bs i = true ↔ ∃ b ∈ bs, b.start ≤ i ∧ i ≤ b.stop := by
  simp [covers]

/-- Pairs that lie before or after a place do not cover it. -/
theorem covers_eq_false {bs : List BracketSpan} {i : Nat}
    (h : ∀ b ∈ bs, i < b.start ∨ b.stop < i) : covers bs i = false := by
  rw [← Bool.not_eq_true, covers_iff]
  rintro ⟨b, hb, hle, hle'⟩
  have := h b hb
  omega

/-- The characters of a text that starts at the place `i`, without those at the places left out. -/
def keptFrom (leftOut : Nat → Bool) (i : Nat) (t : Text) : Text :=
  ((t.zipIdx i).filter fun x => !leftOut x.2).map Prod.fst

section KeptFrom

variable {leftOut leftOut' : Nat → Bool} {i : Nat} {u v : Text}

theorem keptFrom_append : keptFrom leftOut i (u ++ v) =
    keptFrom leftOut i u ++ keptFrom leftOut (i + u.length) v := by
  rw [keptFrom, List.zipIdx_append, List.filter_append, List.map_append]
  rfl

theorem keptFrom_congr (h : ∀ j, i ≤ j → j < i + t.length → leftOut j = leftOut' j) :
    keptFrom leftOut i t = keptFrom leftOut' i t := by
  refine congrArg _ (List.filter_congr fun x hx => ?_)
  obtain ⟨hle, hlt, -⟩ := List.mem_zipIdx hx
  rw [h x.2 hle hlt]

theorem keptFrom_eq_self (h : ∀ j, i ≤ j → j < i + t.length → leftOut j = false) :
    keptFrom leftOut i t = t := by
  have hall : (t.zipIdx i).filter (fun x => !leftOut x.2) = t.zipIdx i := by
    refine List.filter_eq_self.mpr fun x hx => ?_
    obtain ⟨hle, hlt, -⟩ := List.mem_zipIdx hx
    rw [h x.2 hle hlt]
    rfl
  rw [keptFrom, hall, List.zipIdx_map_fst]

theorem keptFrom_eq_nil (h : ∀ j, i ≤ j → j < i + t.length → leftOut j = true) :
    keptFrom leftOut i t = [] := by
  have hnone : (t.zipIdx i).filter (fun x => !leftOut x.2) = [] := by
    refine List.filter_eq_nil_iff.mpr fun x hx => ?_
    obtain ⟨hle, hlt, -⟩ := List.mem_zipIdx hx
    simp [h x.2 hle hlt]
  rw [keptFrom, hnone, List.map_nil]

theorem length_keptFrom : (keptFrom leftOut i t).length =
    (List.range' i t.length).countP fun j => !leftOut j := by
  rw [keptFrom, List.length_map, ← List.countP_eq_length_filter, ← List.zipIdx_map_snd i t,
    List.countP_map]
  rfl

/-- A character that is kept stands after those that are kept before it. -/
theorem getElem?_keptFrom {j : Nat} (hj : j < t.length) (hkept : leftOut j = false) :
    (keptFrom leftOut 0 t)[(List.range j).countP fun k => !leftOut k]? = t[j]? := by
  have hlength : (keptFrom leftOut 0 (t.take j)).length =
      (List.range j).countP fun k => !leftOut k := by
    rw [length_keptFrom, List.length_take_of_le (Nat.le_of_lt hj), List.range_eq_range']
  have hsplit : t = t.take j ++ ([t[j]] ++ t.drop (j + 1)) := by
    rw [List.singleton_append, ← List.drop_eq_getElem_cons hj, List.take_append_drop]
  have hsingle : keptFrom leftOut (0 + (t.take j).length) [t[j]] = [t[j]] := by
    refine keptFrom_eq_self fun k hle hlt => ?_
    rw [List.length_take_of_le (Nat.le_of_lt hj), List.length_singleton] at hlt
    rw [List.length_take_of_le (Nat.le_of_lt hj)] at hle
    rwa [show k = j by omega]
  rw [← hlength, hsplit, keptFrom_append, keptFrom_append, hsingle, ← hsplit]
  rw [List.getElem?_append_right (Nat.le_refl _), Nat.sub_self, List.singleton_append,
    List.getElem?_cons_zero, List.getElem?_eq_getElem hj]

end KeptFrom

/-- A text cut before a pair and after it. -/
theorem exists_cut_around (h : b.start < b.stop) (hstop : b.stop < t.length) : ∃ w : Text,
    t = t.take b.start ++ (w ++ t.drop (b.stop + 1)) ∧ (t.take b.start).length = b.start ∧
      b.start + w.length = b.stop + 1 := by
  refine ⟨(t.drop b.start).take (b.stop + 1 - b.start), ?_, List.length_take_of_le (by omega), ?_⟩
  · have hrest : (t.drop b.start).drop (b.stop + 1 - b.start) = t.drop (b.stop + 1) := by
      rw [List.drop_drop, show b.start + (b.stop + 1 - b.start) = b.stop + 1 by omega]
    rw [← hrest, List.take_append_drop, List.take_append_drop]
  · rw [List.length_take, List.length_drop]
    omega

/-- Leaving out a pair and others to the left of it removes the pair. -/
theorem keptFrom_covers_cons {bs : List BracketSpan} (h : b.start < b.stop)
    (hstop : b.stop < t.length) (hleft : ∀ p ∈ bs, p.stop < b.start) :
    keptFrom (covers (b :: bs)) 0 t =
      keptFrom (covers bs) 0 (t.take b.start) ++ t.drop (b.stop + 1) := by
  obtain ⟨w, ht, hu, hw⟩ := exists_cut_around h hstop
  have hfirst (j : Nat) :
      covers (b :: bs) j = (decide (b.start ≤ j ∧ j ≤ b.stop) || covers bs j) :=
    List.any_cons
  have hbefore : keptFrom (covers (b :: bs)) 0 (t.take b.start) =
      keptFrom (covers bs) 0 (t.take b.start) := by
    refine keptFrom_congr fun j _ hj => ?_
    have hnot : ¬ (b.start ≤ j ∧ j ≤ b.stop) := by omega
    rw [hfirst, decide_eq_false hnot, Bool.false_or]
  have hinside : keptFrom (covers (b :: bs)) b.start w = [] := by
    refine keptFrom_eq_nil fun j hle hj => ?_
    have hin : b.start ≤ j ∧ j ≤ b.stop := by omega
    rw [hfirst, decide_eq_true hin, Bool.true_or]
  have hafter : keptFrom (covers (b :: bs)) (b.stop + 1) (t.drop (b.stop + 1)) =
      t.drop (b.stop + 1) := by
    refine keptFrom_eq_self fun j hle _ => covers_eq_false fun p hp => Or.inr ?_
    rcases List.mem_cons.mp hp with rfl | hp
    · omega
    · have := hleft p hp
      omega
  have hwhole := congrArg (keptFrom (covers (b :: bs)) 0) ht
  rwa [keptFrom_append, keptFrom_append, Nat.zero_add, hu, hw, hbefore, hinside, hafter,
    List.nil_append] at hwhole

/-- Removing pairs one by one from the right removes their places. -/
theorem foldl_removeSpan_eq {bs : List BracketSpan} : FromTheRight bs → ∀ {t : Text},
    (∀ b ∈ bs, b.stop < t.length) → bs.foldl removeSpan t = keptFrom (covers bs) 0 t := by
  induction bs with
  | nil => exact fun _ t _ => (keptFrom_eq_self fun _ _ _ => rfl).symm
  | cons b bs ih =>
    intro hright t hstop
    have hb := hright.2 b List.mem_cons_self
    have hbstop := hstop b List.mem_cons_self
    have hlength : (t.take b.start).length = b.start := List.length_take_of_le (by omega)
    have hrest : ∀ p ∈ bs, p.stop < (removeSpan t b).length := by
      intro p hp
      have := hright.stop_lt p hp
      rw [removeSpan, List.length_append, hlength]
      omega
    -- What is after the first pair is to the right of all the others.
    have hafter : keptFrom (covers bs) b.start (t.drop (b.stop + 1)) = t.drop (b.stop + 1) := by
      refine keptFrom_eq_self fun j hle _ => covers_eq_false fun p hp => Or.inr ?_
      exact Nat.lt_of_lt_of_le (hright.stop_lt p hp) hle
    rw [List.foldl_cons, ih hright.tail hrest, keptFrom_covers_cons hb hbstop hright.stop_lt,
      removeSpan, keptFrom_append, hlength, Nat.zero_add, hafter]

/-! ## Simplification -/

/-- A place is in an outermost pair that is not a last pair of parentheses. -/
def IsLeftOut (t : Text) (i : Nat) : Prop :=
  ∃ b, IsOutermost (spans .ignoringMismatches t) b ∧
    ¬ IsLastCall (spans .ignoringMismatches t) b ∧ b.start ≤ i ∧ i ≤ b.stop

theorem covers_removed_iff {i : Nat} : covers (removed t) i = true ↔ IsLeftOut t i := by
  simp only [covers_iff, mem_removed_iff, IsLeftOut, and_assoc]

theorem covers_removable_iff {i : Nat} :
    covers (removable (spans .ignoringMismatches t)) i = true ↔ IsLeftOut t i := by
  simp only [covers_iff, mem_removable_iff, IsLeftOut, and_assoc]

instance (t : Text) (i : Nat) : Decidable (IsLeftOut t i) :=
  decidable_of_iff _ covers_removable_iff

theorem simplify_eq_keptFrom (t : Text) :
    simplify t = keptFrom (fun i => decide (IsLeftOut t i)) 0 t := by
  have hcovers : covers (removed t) = fun i => decide (IsLeftOut t i) := by
    funext i
    rw [Bool.eq_iff_iff, covers_removed_iff, decide_eq_true_iff]
  rw [← hcovers, simplify_eq, foldl_removeSpan_eq (fromTheRight_removed t)]
  exact fun b hb => stop_lt_of_mem_spans b (mem_removed_iff.mp hb).1.mem

/-- Where a place of a text is in the simplified text: after the places before it that are kept. -/
def placeInSimplified (t : Text) (i : Nat) : Nat :=
  (List.range i).countP fun j => !decide (IsLeftOut t j)

/-- The simplified text is the text without the places in the outermost complete pairs, a last pair
of parentheses apart, which is always outermost. These pairs lie apart from each other, so removing
them one by one is removing all of these places at once. Whatever was opened in front of the other
places, and was not closed or not closed properly, is still there, and so is the rest. -/
theorem simplify_eq_kept (t : Text) :
    simplify t = (t.zipIdx.filter fun x => !decide (IsLeftOut t x.2)).map Prod.fst ∧
    (∀ b, IsLastCall (spans .ignoringMismatches t) b →
      IsOutermost (spans .ignoringMismatches t) b) ∧
    (∀ p q, IsOutermost (spans .ignoringMismatches t) p →
      IsOutermost (spans .ignoringMismatches t) q → p ≠ q →
        p.stop < q.start ∨ q.stop < p.start) ∧
    (∀ i < t.length, ¬ IsLeftOut t i → (simplify t)[placeInSimplified t i]? = t[i]?) ∧
    ∀ mode i, ∀ o ∈ openBefore mode t i, ¬ IsLeftOut t o.start →
      (simplify t)[placeInSimplified t o.start]? = some o.kind.opening := by
  have hkept : ∀ i < t.length, ¬ IsLeftOut t i →
      (simplify t)[placeInSimplified t i]? = t[i]? := by
    intro i hi hnot
    rw [simplify_eq_keptFrom]
    exact getElem?_keptFrom hi (decide_eq_false hnot)
  refine ⟨simplify_eq_keptFrom t, fun b hb => isOutermost_of_getLast? hb.1,
    fun p q hp hq hne => hp.apart hq hne, hkept, fun mode i o ho hnot => ?_⟩
  obtain ⟨more, hmore⟩ := (reading_stateBefore mode t i).openers o ho
  obtain ⟨extra, hextra⟩ := o.kind.opener_eq
  have hopening : t[o.start]? = some o.kind.opening := by
    rw [← List.head?_drop, ← hmore, hextra, List.cons_append, List.head?_cons]
  obtain ⟨hlt, -⟩ := List.getElem?_eq_some_iff.mp hopening
  rw [hkept o.start hlt hnot, hopening]

/-- A pair of braces is left out; a bracket that closes over a parenthesis, that parenthesis and a
call that was closed last, with braces inside of it, stay. -/
theorem simplify_eq_kept_mismatch :
    simplify "\x7ba\x7d[(]f(\x7bb\x7d)".toList = "[(]f(\x7bb\x7d)".toList ∧
      IsLastCall (spans .ignoringMismatches "\x7ba\x7d[(]f(\x7bb\x7d)".toList) ⟨.round, 7, 11, []⟩ ∧
      IsOutermost (spans .ignoringMismatches "\x7ba\x7d[(]f(\x7bb\x7d)".toList)
        ⟨.round, 7, 11, []⟩ ∧
      ¬ IsLeftOut "\x7ba\x7d[(]f(\x7bb\x7d)".toList 4 ∧
      (simplify "\x7ba\x7d[(]f(\x7bb\x7d)".toList)[1]? = some '(' := by
  obtain ⟨hsimplify, hlast, -, hkept, -⟩ := simplify_eq_kept "\x7ba\x7d[(]f(\x7bb\x7d)".toList
  have hcall : IsLastCall (spans .ignoringMismatches "\x7ba\x7d[(]f(\x7bb\x7d)".toList)
      ⟨.round, 7, 11, []⟩ := ⟨by decide, rfl⟩
  have hparenthesis : ¬ IsLeftOut "\x7ba\x7d[(]f(\x7bb\x7d)".toList 4 := by decide +kernel
  refine ⟨hsimplify.trans (by decide +kernel), hcall, hlast _ hcall, hparenthesis, ?_⟩
  have hplace : placeInSimplified "\x7ba\x7d[(]f(\x7bb\x7d)".toList 4 = 1 := by decide +kernel
  exact hplace ▸ hkept 4 (by decide) hparenthesis

end ReplCore.Brackets
