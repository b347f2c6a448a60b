import ReplCore.Proofs.Brackets.States

/-!
# The two modes

The scan has the same open in both modes, whatever part of a text it has read. So the pairs that it
reports when it ignores mismatches are those of the other mode that had nothing open inside when
they were closed. Quotes are among them, and pairs with well-nested text inside.

* `scan_ignoringMismatches`: one list of pairs is a part of the other, told without the mode.
* `mem_spans_of_isProperlyNested`: pairs with well-nested text inside are reported in every mode.
-/

namespace ReplCore.Brackets

/-! ## Pairs with nothing open inside -/

/-- No span that was opened inside of a pair is open when the closer of the pair is read. -/
def nothingOpenInside (mode : Mode) (t : Text) (b : BracketSpan) : Bool :=
  (openBefore mode t b.stop).all fun o => o.start ≤ b.start

/-- Of stacked spans one is the innermost just if none starts after it. -/
theorem all_start_le_iff {n : Nat} {dropped rest : List OpenSpan} {o : OpenSpan}
    (h : Stacked n (dropped ++ o :: rest)) :
    ((dropped ++ o :: rest).all fun p => p.start ≤ o.start) = true ↔ dropped = [] := by
  rw [List.all_eq_true]
  constructor
  · intro hall
    refine List.eq_nil_iff_forall_not_mem.mpr fun p hp => ?_
    have hlt := h.lt_start p hp
    have hle : p.start ≤ o.start := of_decide_eq_true (hall p (List.mem_append_left _ hp))
    omega
  · rintro rfl p hp
    rcases List.mem_cons.mp hp with rfl | hp
    · exact decide_eq_true (Nat.le_refl _)
    · exact decide_eq_true (Nat.le_of_lt (h.of_append.2.start_lt p hp))

/-- What a character closes when mismatches are ignored is what had nothing open inside. -/
theorem Moves.closed_ignoringMismatches {s s' : State} {c : Char} {next : Option Char}
    {closed : Mode → List BracketSpan} (h : Stacked s.index s.opened)
    (hmoves : Moves s c next closed s') {p : BracketSpan → Bool}
    (hp : ∀ b, b.stop = s.index → p b = s.opened.all fun o => o.start ≤ b.start) :
    closed .ignoringMismatches = (closed .includingMismatches).filter p := by
  cases hmoves with
  | stays | opens => rfl
  | @closes dropped rest o opened_eq _ _ =>
    have hinside : p (o.close s.index) = decide (dropped = []) := by
      rw [hp _ rfl, Bool.eq_iff_iff, decide_eq_true_iff, opened_eq]
      exact all_start_le_iff (opened_eq ▸ h)
    by_cases hdropped : dropped = [] <;> simp [hinside, hdropped]

/-- From any part of a text on, the pairs that are reported when mismatches are ignored are those of
the other mode that had nothing open inside. -/
theorem scan_ignoringMismatches (mode : Mode) : ∀ (v u : Text),
    scan .ignoringMismatches (stateAfter mode .initial u v) v =
      (scan .includingMismatches (stateAfter mode .initial u v) v).filter
        (nothingOpenInside mode (u ++ v))
  | [], _ => rfl
  | c :: v, u => by
    obtain ⟨hstacked, hindex⟩ := stacked_stateAfter_initial mode u (c :: v)
    have hopen := openBefore_append mode u (c :: v)
    have hnext := stateAfter_append mode u [c] v .initial
    have ih := scan_ignoringMismatches mode v (u ++ [c])
    rw [hnext, List.append_assoc, List.singleton_append] at ih
    generalize stateAfter mode .initial u (c :: v) = s at *
    obtain ⟨closed, s', hmoves, hstep⟩ := exists_moves hstacked c v.head?
    have hs' : stateAfter mode s [c] v = s' := by
      rw [stateAfter, List.nil_append, hstep]
      rfl
    have hclosed := hmoves.closed_ignoringMismatches hstacked
      (p := nothingOpenInside mode (u ++ c :: v)) fun b hb => by
        rw [nothingOpenInside, hb, hindex, hopen]
    rw [hs'] at ih
    rw [scan, scan, hstep, hstep, List.filter_append, ← hclosed, ← ih]

/-! ## Quotes and properly nested pairs -/

/-- Quotes that a character closes are reported in every mode. -/
theorem Moves.mem_closed_of_isQuote {s s' : State} {c : Char} {next : Option Char}
    {closed : Mode → List BracketSpan} (hmoves : Moves s c next closed s') {mode : Mode}
    (mode' : Mode) {b : BracketSpan} (hb : b ∈ closed mode) (hquote : b.kind.isQuote = true) :
    b ∈ closed mode' := by
  cases hmoves with
  | stays | opens => cases hb
  | closes opened_eq closing_eq quotes =>
    dsimp only at hb ⊢
    split at hb
    · obtain rfl := List.mem_singleton.mp hb
      rw [if_pos (Or.inr (quotes hquote))]
      exact List.mem_singleton_self _
    · cases hb

theorem mem_scan_of_isQuote {mode : Mode} (mode' : Mode) : ∀ {t : Text} {s : State},
    Stacked s.index s.opened → ∀ b ∈ scan mode s t, b.kind.isQuote = true → b ∈ scan mode' s t
  | [], _, _, _, hb, _ => by cases hb
  | c :: t, s, h, b, hb, hquote => by
    obtain ⟨closed, s', hmoves, hscan⟩ := exists_scan_cons h c t
    rw [hscan] at hb ⊢
    rcases List.mem_append.mp hb with hb | hb
    · exact List.mem_append_left _ (hmoves.mem_closed_of_isQuote mode' hb hquote)
    · exact List.mem_append_right _ (mem_scan_of_isQuote mode' (h.of_moves hmoves) b hb hquote)

/-- The text between the opener and the closer of a pair is well nested. -/
def IsProperlyNested (t : Text) (b : BracketSpan) : Prop :=
  ∃ ps, WellNested b.kind.inside (b.start + b.kind.opener.length) (b.start :: b.around)
    (Text.slice t (b.start + b.kind.opener.length) b.stop) ps

theorem StandsIn.length_opener_le {t : Text} {b : BracketSpan} (h : StandsIn t b) :
    b.start + b.kind.opener.length ≤ b.stop := by
  have hlt := h.start_lt_stop
  obtain ⟨-, hclosing, hbrace⟩ := h.characters
  by_cases hkind : b.kind = .substitution
  · -- The brace after the dollar sign is not the one that closes the substitution.
    have hne : b.stop ≠ b.start + 1 := by
      intro hstop
      rw [hstop, hbrace hkind, hkind] at hclosing
      exact absurd hclosing (by decide)
    have hlength : b.kind.opener.length = 2 := by rw [hkind]; rfl
    omega
  · have hlength : b.kind.opener.length = 1 := by
      revert hkind
      cases b.kind <;> decide
    omega

/-- The text from the start of a pair on: its opener, the text inside of it, its closer and the
rest. -/
theorem StandsIn.drop_start_eq {t : Text} {b : BracketSpan} (h : StandsIn t b) :
    t.drop b.start = b.kind.opener ++ (Text.slice t (b.start + b.kind.opener.length) b.stop ++
      b.kind.closing :: t.drop (b.stop + 1)) := by
  obtain ⟨hstop, hget⟩ := List.getElem?_eq_some_iff.mp h.closer
  obtain ⟨more, hmore⟩ := h.opener
  have hinner : more = t.drop (b.start + b.kind.opener.length) := by
    rw [← List.drop_drop, ← hmore, List.drop_left]
  have hsplit : t.drop (b.start + b.kind.opener.length) =
      Text.slice t (b.start + b.kind.opener.length) b.stop ++ t.drop b.stop := by
    have hle : b.start + b.kind.opener.length ≤ (t.take b.stop).length := by
      rw [List.length_take_of_le (Nat.le_of_lt hstop)]
      exact h.length_opener_le
    rw [Text.slice, ← List.drop_append_of_le_length hle, List.take_append_drop]
  rw [← hmore, hinner, hsplit, List.drop_eq_getElem_cons hstop, hget]

/-- A pair with well-nested text inside is reported in every mode. -/
theorem mem_spans_of_isProperlyNested {mode : Mode} (mode' : Mode) {t : Text} {b : BracketSpan}
    (hb : b ∈ spans mode t) (hnested : IsProperlyNested t b) : b ∈ spans mode' t := by
  obtain ⟨ps, hnested⟩ := hnested
  have hstands := standsIn_of_mem_spans b hb
  have hstart : b.start ≤ t.length :=
    Nat.le_of_lt (Nat.lt_trans hstands.start_lt_stop (stop_lt_of_mem_spans b hb))
  obtain ⟨hready, hpairs, haround⟩ := opened_of_mem_spans mode' hb
  have hspans := (spans_eq_append mode' hstart).1
  have hindex := index_stateBefore mode' hstart
  generalize stateBefore mode' t b.start = s at *
  rw [haround, ← hindex] at hnested
  obtain ⟨s', hscan, -, -, -⟩ := exists_scan_pair mode' hready hpairs
    (exists_scan_append mode' hnested) (t.drop (b.stop + 1))
  have hlength : b.start + b.kind.opener.length +
      (Text.slice t (b.start + b.kind.opener.length) b.stop).length = b.stop := by
    have := hstands.length_opener_le
    have := stop_lt_of_mem_spans b hb
    rw [Text.slice, List.length_drop, List.length_take]
    omega
  rw [hindex, hlength, ← haround] at hscan
  rw [hspans, hstands.drop_start_eq, hscan]
  exact List.mem_append_right _ (List.mem_append_right _ List.mem_cons_self)

/-- A pair whose opener is the innermost open span when its closer is read has nothing open
inside. -/
theorem nothingOpenInside_of_head? {mode : Mode} {t : Text} {b : BracketSpan}
    (h : (openBefore mode t b.stop).head?.map OpenSpan.start = some b.start) :
    nothingOpenInside mode t b = true := by
  have hstacked := (stacked_stateAfter_initial mode (t.take b.stop) (t.drop b.stop)).1
  obtain ⟨o, ho, hstart⟩ := Option.map_eq_some_iff.mp h
  obtain ⟨rest, hopened⟩ := List.head?_eq_some_iff.mp ho
  rw [openBefore] at hopened
  rw [nothingOpenInside, openBefore, hopened, ← hstart]
  rw [hopened] at hstacked
  exact (all_start_le_iff (show Stacked _ ([] ++ o :: rest) from hstacked)).mpr rfl

/-- What is open before a place does not depend on the mode, and the pairs that are reported when
mismatches are ignored are, in order, those of the other mode inside of which no span was open when
their closer was read. So quotes are reported in both modes, and so are properly nested pairs: those
whose opener was the innermost open span when their closer was read, such as those with well-nested
text inside. -/
theorem spans_ignoringMismatches_eq (mode : Mode) (t : Text) :
    (∀ mode' i, openBefore mode' t i = openBefore mode t i) ∧
    spans .ignoringMismatches t =
      (spans .includingMismatches t).filter (nothingOpenInside mode t) ∧
    ∀ b ∈ spans .includingMismatches t, b.kind.isQuote = true ∨
      (openBefore mode t b.stop).head?.map OpenSpan.start = some b.start ∨ IsProperlyNested t b →
        b ∈ spans .ignoringMismatches t := by
  have hfilter := scan_ignoringMismatches mode t []
  refine ⟨fun mode' i => openBefore_eq mode' mode t i, hfilter, fun b hb h => ?_⟩
  rcases h with hquote | hinnermost | hnested
  · exact mem_scan_of_isQuote .ignoringMismatches stacked_initial b hb hquote
  · rw [show spans .ignoringMismatches t = _ from hfilter]
    exact List.mem_filter.mpr ⟨hb, nothingOpenInside_of_head? hinnermost⟩
  · exact mem_spans_of_isProperlyNested .ignoringMismatches hb hnested

/-- Parentheses around an opener without a closer are reported in one mode only, and the braces
after them in both. -/
theorem spans_ignoringMismatches_eq_mismatch :
    spans .includingMismatches "([)\x7b\x7d".toList = [⟨.round, 0, 2, []⟩, ⟨.curly, 3, 4, []⟩] ∧
      spans .ignoringMismatches "([)\x7b\x7d".toList = [⟨.curly, 3, 4, []⟩] ∧
      ⟨.curly, 3, 4, []⟩ ∈ spans .ignoringMismatches "([)\x7b\x7d".toList := by
  obtain ⟨-, hfilter, hmem⟩ := spans_ignoringMismatches_eq .includingMismatches
    "([)\x7b\x7d".toList
  have hspans : spans .includingMismatches "([)\x7b\x7d".toList =
      [⟨.round, 0, 2, []⟩, ⟨.curly, 3, 4, []⟩] := by decide
  rw [hspans] at hfilter hmem
  refine ⟨hspans, hfilter.trans (by decide), hmem _ (by simp) (Or.inr (Or.inr ⟨[], ?_⟩))⟩
  exact .nil

end ReplCore.Brackets
