import ReplCore.Proofs.Brackets.Continuing
import ReplCore.Proofs.Brackets.Outermost

/-!
# Removing a pair

After the closer of a reported pair the scan has open what it had open before the opener, so without
the pair it goes on in the same way, with the places after the pair moved. The one exception is a
dollar sign before the pair that the removal joins to a brace after it.

* `step_moved`, `scan_moved`: the scan from states that differ by a move of places.
* `moved_after_pair`: removing a pair moves the state after it.
* `spans_removeSpan`: the pairs of the text without a pair are the other ones, moved.
-/

namespace ReplCore

/-- An open span with its places moved. -/
def OpenSpan.move (f : Nat → Nat) (o : OpenSpan) : OpenSpan :=
  ⟨o.kind, f o.start, o.around.map f⟩

/-- A pair with its places moved. -/
def BracketSpan.move (f : Nat → Nat) (b : BracketSpan) : BracketSpan :=
  ⟨b.kind, f b.start, f b.stop, b.around.map f⟩

theorem BracketSpan.move_move (b : BracketSpan) (f g : Nat → Nat) :
    (b.move f).move g = b.move (g ∘ f) := by
  simp only [BracketSpan.move, List.map_map, Function.comp_apply]

namespace Brackets

/-! ## Moved states -/

/-- Two states differ by a move of places: the places from the next one on are shifted, and a
backslash before the next character counts only in quotes. -/
structure Moved (f : Nat → Nat) (s s' : State) : Prop where
  index_eq : s'.index = f s.index
  shifts : ∀ n, s.index ≤ n → f (n + 1) = f n + 1
  passOver_eq : s'.passOver = s.passOver
  parity_eq : (placeOf s.opened).isQuoted = true → s'.backslashes % 2 = s.backslashes % 2
  opened_eq : s'.opened = s.opened.map (OpenSpan.move f)

namespace Moved

variable {f : Nat → Nat} {s s' : State}

theorem withOpened_eq (h : Moved f s s') (k : PairKind) :
    s'.withOpened k = (s.withOpened k).map (OpenSpan.move f) := by
  have hstarts : s'.openStarts = s.openStarts.map f := by
    rw [State.openStarts, State.openStarts, h.opened_eq]
    cases s.opened <;> rfl
  rw [State.withOpened, State.withOpened, h.opened_eq, h.index_eq, hstarts]
  rfl

theorem close_eq (h : Moved f s s') (o : OpenSpan) :
    (o.move f).close s'.index = (o.close s.index).move f := by
  rw [h.index_eq]
  rfl

/-- The states after a character differ by the move if what is open then does. Only a backslash
counts for the next character, and it neither opens nor closes anything. -/
theorem advance (h : Moved f s s') {c : Char} (opened : List OpenSpan)
    (hescape : c = '\\' → placeOf opened = placeOf s.opened) (passOver : Bool) :
    Moved f { s.advance c opened with passOver }
      { s'.advance c (opened.map (OpenSpan.move f)) with passOver } := by
  refine ⟨?_, fun n hn => h.shifts n (Nat.le_of_succ_le hn), rfl, fun hquoted => ?_, rfl⟩
  · show s'.index + 1 = f (s.index + 1)
    rw [h.index_eq, h.shifts s.index (Nat.le_refl _)]
  · by_cases hc : c = '\\'
    · have hparity := h.parity_eq (hescape hc ▸ hquoted)
      simp only [State.advance, if_pos hc]
      omega
    · simp only [State.advance, if_neg hc]

theorem stays (h : Moved f s s') (c : Char) :
    Moved f (s.advance c s.opened) (s'.advance c s'.opened) := by
  have hstays := h.advance s.opened (c := c) (fun _ => rfl) false
  rwa [← h.opened_eq] at hstays

end Moved

section Steps

variable {f : Nat → Nat} {s s' : State} {c : Char} {next : Option Char}

/-- In quotes, moved states take the same step. -/
theorem stepInQuotes_moved (h : Moved f s s') {o : OpenSpan} {rest : List OpenSpan}
    (hopened : s.opened = o :: rest) (hquote : o.kind.isQuote = true) :
    (stepInQuotes s' (o.move f) (rest.map (OpenSpan.move f)) c next).1 =
        (stepInQuotes s o rest c next).1.map (BracketSpan.move f) ∧
      Moved f (stepInQuotes s o rest c next).2
        (stepInQuotes s' (o.move f) (rest.map (OpenSpan.move f)) c next).2 := by
  have hparity : s'.backslashes % 2 = s.backslashes % 2 := by
    refine h.parity_eq ?_
    rw [hopened, placeOf, ← isQuote_iff, hquote]
  unfold stepInQuotes
  simp only [hparity, show (o.move f).kind = o.kind from rfl]
  split
  · exact ⟨rfl, h.stays c⟩
  split
  · next hc =>
    have hescape : c ≠ '\\' := by
      rw [hc]
      cases o.kind <;> decide
    refine ⟨?_, h.advance rest (fun hc => absurd hc hescape) false⟩
    rw [h.close_eq, List.map_singleton]
  split
  · next hc =>
    have hescape : c ≠ '\\' := by
      rw [hc.1]
      decide
    have hsubstitution :=
      h.advance (s.withOpened .substitution) (fun hc => absurd hc hescape) true
    rw [← h.withOpened_eq] at hsubstitution
    exact ⟨rfl, hsubstitution⟩
  · exact ⟨rfl, h.stays c⟩

/-- Outside of quotes, moved states take the same step. -/
theorem stepOutside_moved (mode : Mode) (h : Moved f s s') (hs : Stacked s.index s.opened)
    (hs' : Stacked s'.index s'.opened) :
    (stepOutside mode s' c).1 = (stepOutside mode s c).1.map (BracketSpan.move f) ∧
      Moved f (stepOutside mode s c).2 (stepOutside mode s' c).2 := by
  unfold stepOutside
  cases hopens : PairKind.ofOpening? c with
  | some k =>
    have hescape : c ≠ '\\' := by
      rintro rfl
      exact absurd hopens (by simp [show PairKind.ofOpening? '\\' = none from rfl])
    have hopened := h.advance (s.withOpened k) (fun hc => absurd hc hescape) false
    rw [← h.withOpened_eq] at hopened
    exact ⟨rfl, hopened⟩
  | none =>
    dsimp only
    split
    · next hcloses =>
      have hescape : c ≠ '\\' := by
        rintro rfl
        exact absurd hcloses (by decide)
      have hfound' : (s'.opened.dropWhile fun o => o.kind.closing ≠ c) =
          (s.opened.dropWhile fun o => o.kind.closing ≠ c).map (OpenSpan.move f) := by
        rw [h.opened_eq, List.dropWhile_map]
        rfl
      rw [hfound']
      cases hfound : s.opened.dropWhile fun o => o.kind.closing ≠ c with
      | nil => exact ⟨rfl, h.stays c⟩
      | cons o rest =>
        obtain ⟨dropped, hdropped⟩ : ∃ dropped, s.opened = dropped ++ o :: rest :=
          ⟨_, by rw [← hfound, List.takeWhile_append_dropWhile]⟩
        have hdropped' : s'.opened = dropped.map (OpenSpan.move f) ++
            o.move f :: rest.map (OpenSpan.move f) := by
          rw [h.opened_eq, hdropped, List.map_append, List.map_cons]
        -- A span is dropped in one of the states just if one is dropped in the other.
        have hinnermost : (s'.opened.head?.any fun p => p.start = (o.move f).start) =
            (s.opened.head?.any fun p => p.start = o.start) := by
          rw [hdropped] at hs ⊢
          rw [hdropped'] at hs' ⊢
          rw [Bool.eq_iff_iff, hs.head?_any_iff, hs'.head?_any_iff, List.map_eq_nil_iff]
        simp only [List.map_cons, hinnermost]
        refine ⟨?_, h.advance rest (fun hc => absurd hc hescape) false⟩
        split
        · rw [h.close_eq, List.map_singleton]
        · rfl
    · exact ⟨rfl, h.stays c⟩

/-- Moved states take the same step: it closes the same pairs, moved, and the states after it are
moved again. -/
theorem step_moved (mode : Mode) (h : Moved f s s') (hs : Stacked s.index s.opened)
    (hs' : Stacked s'.index s'.opened) (c : Char) (next : Option Char) :
    (step mode s' c next).1 = (step mode s c next).1.map (BracketSpan.move f) ∧
      Moved f (step mode s c next).2 (step mode s' c next).2 := by
  unfold step
  rw [h.passOver_eq]
  split
  · exact ⟨rfl, h.stays c⟩
  cases hopened : s.opened with
  | nil =>
    have hopened' : s'.opened = [] := by rw [h.opened_eq, hopened, List.map_nil]
    rw [hopened']
    exact stepOutside_moved mode h hs hs'
  | cons o rest =>
    have hopened' : s'.opened = o.move f :: rest.map (OpenSpan.move f) := by
      rw [h.opened_eq, hopened, List.map_cons]
    rw [hopened']
    simp only [show (o.move f).kind = o.kind from rfl]
    split
    · next hquote => exact stepInQuotes_moved h hopened hquote
    · exact stepOutside_moved mode h hs hs'

end Steps

/-- The scan goes on from moved states in the same way. -/
theorem scan_moved (mode : Mode) {f : Nat → Nat} : ∀ (v : Text) {s s' : State}, Moved f s s' →
    Stacked s.index s.opened → Stacked s'.index s'.opened →
      scan mode s' v = (scan mode s v).map (BracketSpan.move f)
  | [], _, _, _, _, _ => rfl
  | c :: v, _, _, h, hs, hs' => by
    obtain ⟨hclosed, hnext⟩ := step_moved mode h hs hs' c v.head?
    rw [scan_cons, scan_cons, List.map_append, hclosed,
      scan_moved mode v hnext (stacked_step mode hs _ _) (stacked_step mode hs' _ _)]

theorem stateAfter_moved (mode : Mode) {f : Nat → Nat} (rest : Text) : ∀ (read : Text)
    {s s' : State}, Moved f s s' → Stacked s.index s.opened → Stacked s'.index s'.opened →
      Moved f (stateAfter mode s read rest) (stateAfter mode s' read rest)
  | [], _, _, h, _, _ => h
  | c :: read, _, _, h, hs, hs' =>
    stateAfter_moved mode rest read (step_moved mode h hs hs' c _).2 (stacked_step mode hs _ _)
      (stacked_step mode hs' _ _)

/-- Open spans that start before the places that are moved stay as they are. -/
theorem map_move_of_stacked {f : Nat → Nat} {n : Nat} {opened : List OpenSpan}
    (h : Stacked n opened) (hf : ∀ i < n, f i = i) : opened.map (OpenSpan.move f) = opened := by
  induction h with
  | nil => rfl
  | @cons n o rest start_lt around_eq below ih =>
    have haround : o.around.map f = o.around := by
      rw [around_eq, List.map_map]
      refine List.map_congr_left fun p hp => ?_
      exact hf p.start (Nat.lt_trans (below.start_lt p hp) start_lt)
    rw [List.map_cons, ih fun i hi => hf i (Nat.lt_trans hi start_lt), OpenSpan.move,
      hf o.start start_lt, haround]

/-- So do pairs that stop before them. -/
theorem StandsIn.move_eq {f : Nat → Nat} {n : Nat} {t : Text} {b : BracketSpan}
    (h : StandsIn t b) (hstop : b.stop < n) (hf : ∀ i < n, f i = i) : b.move f = b := by
  have hstart : b.start < n := Nat.lt_trans h.start_lt_stop hstop
  have haround : b.around.map f = b.around := by
    refine (List.map_congr_left fun a ha => ?_).trans (List.map_id _)
    exact hf a (Nat.lt_trans (h.around_lt a ha) hstart)
  rw [BracketSpan.move, hf b.start hstart, hf b.stop hstop, haround]

/-! ## The text without a pair -/

/-- Where a place is once a pair that it is not in is removed. -/
def placeWithout (b : BracketSpan) (i : Nat) : Nat :=
  if i < b.start then i else i - (b.stop + 1 - b.start)

section Removed

variable {mode : Mode} {t : Text} {b : BracketSpan}

theorem placeWithout_of_lt {i : Nat} (h : i < b.start) : placeWithout b i = i := if_pos h

/-- Removing a pair moves the state after it, unless that joins a dollar sign before it to a brace
after it. -/
theorem moved_after_pair (mode' : Mode) (hb : b ∈ spans mode t)
    (hjoin : ¬ OpensAcross (t.take b.start) (t.drop (b.stop + 1))) :
    Moved (placeWithout b) (stateBefore mode' t (b.stop + 1))
      (stateBefore mode' (removeSpan t b) b.start) := by
  have hlt := start_lt_stop_of_mem_spans b hb
  have hstart : b.start ≤ t.length := Nat.le_of_lt (start_lt_of_mem_spans b hb)
  have hsame : stateBefore mode' (removeSpan t b) b.start = stateBefore mode' t b.start := by
    have hborder := stateBefore_append_congr mode' hjoin (not_opensAcross_of_mem_spans hb).1
    rwa [List.take_append_drop, List.length_take_of_le hstart] at hborder
  obtain ⟨hready, -, -⟩ := opened_of_mem_spans mode' hb
  have hstacked := stacked_stateBefore mode' t b.start
  have hindex := index_stateBefore mode' hstart
  rw [hindex] at hstacked
  rw [hsame, stateBefore_of_mem_spans mode' hb]
  refine ⟨?_, fun n hn => ?_, hready.passOver, fun hquoted => hready.even hquoted, ?_⟩
  · show _ = placeWithout b (b.stop + 1)
    rw [hindex, placeWithout, if_neg (by omega)]
    omega
  · have hle : b.stop + 1 ≤ n := hn
    rw [placeWithout, placeWithout, if_neg (by omega), if_neg (by omega)]
    omega
  · exact (map_move_of_stacked hstacked fun i hi => placeWithout_of_lt hi).symm

/-- A pair that stops after another one, in either mode, does not start in it. -/
theorem start_of_stop_lt_stop {mode' : Mode} {p : BracketSpan} (hb : b ∈ spans mode t)
    (hp : p ∈ spans mode' t) (hlt : b.stop < p.stop) : p.start < b.start ∨ b.stop < p.start := by
  have hstacked := stacked_stateBefore mode' t b.start
  rw [index_stateBefore mode' (Nat.le_of_lt (start_lt_of_mem_spans b hb))] at hstacked
  obtain ⟨hspans, hbefore, -⟩ :=
    spans_eq_append mode' (t := t) (i := b.stop + 1) (stop_lt_of_mem_spans b hb)
  rw [hspans] at hp
  have hafter := (List.mem_append.mp hp).resolve_left fun hp => by
    have := hbefore p hp
    omega
  have hcloses := (closesFrom_of_mem_scan (stacked_stateBefore mode' t _) p hafter).2
  rw [stateBefore_of_mem_spans mode' hb] at hcloses
  cases hcloses with
  | @opened upper rest o n opened_eq eq_close =>
    rw [show (stateBefore mode' t b.start).opened = _ from opened_eq] at hstacked
    rw [eq_close]
    exact Or.inl (hstacked.start_lt o (by simp))
  | later le_start _ => exact Or.inr le_start

/-- The pairs of a text are those before one of them, those that stop in it, and those after it. -/
theorem exists_spans_eq_around (hb : b ∈ spans mode t) : ∃ inside,
    spans mode t = spans mode (t.take b.start) ++
        (inside ++ scan mode (stateBefore mode t (b.stop + 1)) (t.drop (b.stop + 1))) ∧
      (∀ p ∈ spans mode (t.take b.start), p.stop < b.start) ∧
      (∀ p ∈ inside, b.start ≤ p.stop ∧ p.stop ≤ b.stop) ∧
      ∀ p ∈ scan mode (stateBefore mode t (b.stop + 1)) (t.drop (b.stop + 1)), b.stop < p.stop := by
  have hlt := start_lt_stop_of_mem_spans b hb
  have hstop := stop_lt_of_mem_spans b hb
  obtain ⟨hspans, hupTo, hafter⟩ := spans_eq_append mode (t := t) (i := b.stop + 1) hstop
  obtain ⟨hfirst, hbefore, hinside⟩ := spans_eq_append mode (t := t.take (b.stop + 1))
    (i := b.start) (by rw [List.length_take_of_le hstop]; omega)
  rw [List.take_take, Nat.min_eq_left (by omega)] at hfirst hbefore
  rw [hfirst, List.append_assoc] at hspans
  refine ⟨_, hspans, hbefore, fun p hp => ?_, hafter⟩
  have hle := hupTo p (hfirst ▸ List.mem_append_right _ hp)
  exact ⟨hinside p hp, Nat.le_of_lt_succ hle⟩

/-- The pairs of the text without a pair are those that do not stop in it, moved. -/
theorem spans_removeSpan (hb : b ∈ spans mode t)
    (hjoin : ¬ OpensAcross (t.take b.start) (t.drop (b.stop + 1))) :
    spans mode (removeSpan t b) = ((spans mode t).filter fun p =>
      p.stop < b.start ∨ b.stop < p.stop).map (BracketSpan.move (placeWithout b)) := by
  have hlength : (t.take b.start).length = b.start :=
    List.length_take_of_le (Nat.le_of_lt (start_lt_of_mem_spans b hb))
  obtain ⟨inside, hspans, hbefore, hinside, hafter⟩ := exists_spans_eq_around hb
  obtain ⟨hremoved, -, -⟩ := spans_eq_append mode (t := removeSpan t b) (i := b.start)
    (by rw [removeSpan, List.length_append, hlength]; omega)
  have htake : (removeSpan t b).take b.start = t.take b.start := List.take_left' hlength
  have hdrop : (removeSpan t b).drop b.start = t.drop (b.stop + 1) := List.drop_left' hlength
  rw [htake, hdrop, scan_moved mode _ (moved_after_pair mode hb hjoin)
    (stacked_stateBefore mode _ _) (stacked_stateBefore mode _ _)] at hremoved
  have hkeptBefore : (spans mode (t.take b.start)).filter
      (fun p => p.stop < b.start ∨ b.stop < p.stop) = spans mode (t.take b.start) :=
    List.filter_eq_self.mpr fun p hp => decide_eq_true (Or.inl (hbefore p hp))
  have hkeptAfter : ∀ p ∈ scan mode (stateBefore mode t (b.stop + 1)) (t.drop (b.stop + 1)),
      decide (p.stop < b.start ∨ b.stop < p.stop) = true :=
    fun p hp => decide_eq_true (Or.inr (hafter p hp))
  have hnotInside : ∀ p ∈ inside, ¬ decide (p.stop < b.start ∨ b.stop < p.stop) = true := by
    intro p hp hstops
    have := hinside p hp
    have := of_decide_eq_true hstops
    omega
  have hfixed : (spans mode (t.take b.start)).map (BracketSpan.move (placeWithout b)) =
      spans mode (t.take b.start) := by
    refine (List.map_congr_left fun p hp => ?_).trans (List.map_id _)
    exact (standsIn_of_mem_spans p hp).move_eq (hbefore p hp) fun i hi => placeWithout_of_lt hi
  rw [hremoved, hspans, List.filter_append, List.filter_append, hkeptBefore,
    List.filter_eq_nil_iff.mpr hnotInside, List.filter_eq_self.mpr hkeptAfter, List.nil_append,
    List.map_append, hfixed]

/-- The pairs before a removed one stay pairs. -/
theorem mem_spans_removeSpan_of_lt {p : BracketSpan} (hb : b.start ≤ t.length)
    (hp : p ∈ spans mode t) (hlt : p.stop < b.start) : p ∈ spans mode (removeSpan t b) := by
  obtain ⟨hspans, -, hafter⟩ := spans_eq_append mode hb
  rw [hspans] at hp
  have hbefore := (List.mem_append.mp hp).resolve_right fun hp => by
    have := hafter p hp
    omega
  exact mem_spans_append hbefore _

end Removed

/-! ## The text without several pairs -/

/-- Removing pairs from the right never joins a dollar sign before a pair to a brace after it, when
the text is followed by `v`. -/
def KeepsDollars (t : Text) (bs : List BracketSpan) (v : Text) : Prop :=
  ∀ done b rest, bs = done ++ b :: rest →
    ¬ OpensAcross (t.take b.start) ((done.foldl removeSpan t).drop (b.stop + 1) ++ v)

/-- The pairs to the left of one that is removed are still there. -/
theorem FromTheRight.mem_spans_removeSpan {mode : Mode} {t : Text} {b : BracketSpan}
    {bs : List BracketSpan} (h : FromTheRight (b :: bs))
    (hmem : ∀ p ∈ b :: bs, p ∈ spans mode t) : ∀ p ∈ bs, p ∈ spans mode (removeSpan t b) := by
  have hstart := start_lt_of_mem_spans b (hmem b List.mem_cons_self)
  exact fun p hp => mem_spans_removeSpan_of_lt (Nat.le_of_lt hstart)
    (hmem p (List.mem_cons_of_mem b hp)) (h.stop_lt p hp)

theorem KeepsDollars.tail {t v : Text} {b : BracketSpan} {bs : List BracketSpan}
    (h : KeepsDollars t (b :: bs) v) (hright : FromTheRight (b :: bs)) (hb : b.start ≤ t.length) :
    KeepsDollars (removeSpan t b) bs v := by
  rintro done p rest rfl
  have hp : p.start < b.start := by
    have hmem : p ∈ done ++ p :: rest := List.mem_append_right _ List.mem_cons_self
    exact Nat.lt_trans (hright.2 p (List.mem_cons_of_mem b hmem)) (hright.stop_lt p hmem)
  have htake : (removeSpan t b).take p.start = t.take p.start := by
    rw [removeSpan, List.take_append_of_le_length, List.take_take,
      Nat.min_eq_left (Nat.le_of_lt hp)]
    rw [List.length_take_of_le hb]
    exact Nat.le_of_lt hp
  rw [htake]
  exact h (b :: done) p rest rfl

end Brackets

end ReplCore
