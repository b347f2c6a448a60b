import ReplCore.Proofs.Brackets.WellNested

/-!
# What one character of the scan does

A character leaves what is open as it is, opens a span, or closes one and drops those above it. What
is open afterwards does not depend on the mode: the modes differ only in whether a span that was not
the innermost is reported.

* `exists_moves`, `exists_scan_cons`: these are all the moves of the scan, in both modes at once.
* `Stacked.of_moves`: the open spans stay stacked, each inside the one below it.
-/

namespace ReplCore

/-- A character that opens a pair is all of the text that opens it. -/
theorem PairKind.opener_of_ofOpening? {c : Char} {k : PairKind}
    (h : ofOpening? c = some k) : k.opener = [c] := by
  have hopening : k.opening = c := by simpa using List.find?_some h
  have hmem := List.mem_of_find?_eq_some h
  rw [← hopening]
  revert hmem
  cases k <;> decide

namespace Brackets

/-! ## The open spans -/

/-- Open spans before an index, innermost first: each starts after the one below it, and the spans
around it are those below it. -/
inductive Stacked : Nat → List OpenSpan → Prop
  | nil {n : Nat} : Stacked n []
  | cons {n : Nat} {o : OpenSpan} {rest : List OpenSpan} (start_lt : o.start < n)
      (around_eq : o.around = rest.map OpenSpan.start) (below : Stacked o.start rest) :
      Stacked n (o :: rest)

namespace Stacked

variable {m n : Nat} {o : OpenSpan} {upper opened rest : List OpenSpan}

theorem mono (h : Stacked m opened) (hle : m ≤ n) : Stacked n opened := by
  cases h with
  | nil => exact .nil
  | cons start_lt around_eq below => exact .cons (Nat.lt_of_lt_of_le start_lt hle) around_eq below

theorem start_lt (h : Stacked n opened) : ∀ o ∈ opened, o.start < n := by
  induction h with
  | nil => exact nofun
  | cons start_lt _ _ ih =>
    intro p hp
    rcases List.mem_cons.mp hp with rfl | hp
    · exact start_lt
    · exact Nat.lt_trans (ih p hp) start_lt

/-- Below a span, what is open is stacked before its start. -/
theorem of_append (h : Stacked n (upper ++ o :: rest)) :
    o.around = rest.map OpenSpan.start ∧ Stacked o.start rest := by
  induction upper generalizing n with
  | nil =>
    cases h with
    | cons _ around_eq below => exact ⟨around_eq, below⟩
  | cons p upper ih =>
    cases h with
    | cons _ _ below => exact ih below

/-- What is above a span starts after it. -/
theorem lt_start (h : Stacked n (upper ++ o :: rest)) : ∀ p ∈ upper, o.start < p.start := by
  induction upper generalizing n with
  | nil => exact nofun
  | cons q upper ih =>
    cases h with
    | cons _ _ below =>
      intro p hp
      rcases List.mem_cons.mp hp with rfl | hp
      · exact below.start_lt o (by simp)
      · exact ih below p hp

/-- Spans are told apart by their starts, so the innermost one is the first. -/
theorem head?_any_iff (h : Stacked n (upper ++ o :: rest)) :
    ((upper ++ o :: rest).head?.any fun p => p.start = o.start) = true ↔ upper = [] := by
  cases upper with
  | nil => simp
  | cons p upper =>
    have := h.lt_start p List.mem_cons_self
    simp only [List.cons_append, List.head?_cons, Option.any_some, decide_eq_true_eq,
      reduceCtorEq, iff_false]
    omega

/-- The spans around what is opened next are those that are open. -/
theorem openStarts_eq {s : State} (h : Stacked n s.opened) :
    s.openStarts = s.opened.map OpenSpan.start := by
  unfold State.openStarts
  cases hopened : s.opened with
  | nil => rfl
  | cons o rest =>
    rw [hopened] at h
    exact congrArg _ (of_append (show Stacked n ([] ++ o :: rest) from h)).1

end Stacked

theorem stacked_initial : Stacked State.initial.index State.initial.opened := .nil

/-! ## The moves -/

/-- What a character does to what is open, with the pairs that are reported in each mode and the
next state. -/
inductive Moves (s : State) (c : Char) (next : Option Char) :
    (Mode → List BracketSpan) → State → Prop
  | stays : Moves s c next (fun _ => []) (s.advance c s.opened)
  | opens {k : PairKind} (passOver : Bool) (ready : Ready (placeOf s.opened) s)
      (stands : k ∈ (placeOf s.opened).pairs) (opener : k.opener <+: c :: next.toList) :
      Moves s c next (fun _ => []) { s.advance c (s.withOpened k) with passOver }
  | closes {dropped rest : List OpenSpan} {o : OpenSpan}
      (opened_eq : s.opened = dropped ++ o :: rest) (closing_eq : o.kind.closing = c)
      (quotes : o.kind.isQuote = true → dropped = []) :
      Moves s c next
        (fun mode => if mode = .includingMismatches ∨ dropped = [] then [o.close s.index] else [])
        (s.advance c rest)

variable {s : State}

theorem exists_moves_inQuotes {o : OpenSpan} {rest : List OpenSpan}
    (hopened : s.opened = o :: rest) (hpassOver : s.passOver = false) (c : Char)
    (next : Option Char) : ∃ closed s', Moves s c next closed s' ∧
      ∀ mode : Mode, stepInQuotes s o rest c next = (closed mode, s') := by
  unfold stepInQuotes
  split
  · exact ⟨_, _, .stays, fun _ => rfl⟩
  next heven =>
  split
  · next hclosing =>
    have hinnermost : s.opened = [] ++ o :: rest := hopened
    exact ⟨_, _, .closes hinnermost hclosing.symm fun _ => rfl, fun mode => by simp⟩
  split
  · next hsubstitution =>
    obtain ⟨rfl, hbacktick, rfl⟩ := hsubstitution
    have hplace : placeOf s.opened = .template := by
      rw [hopened, placeOf, hbacktick]
      rfl
    have hready : Ready (placeOf s.opened) s :=
      ⟨hpassOver, rfl, fun _ => (Nat.mod_two_eq_zero_or_one _).resolve_right heven⟩
    have hstands : .substitution ∈ (placeOf s.opened).pairs := by
      rw [hplace]
      exact List.mem_singleton_self _
    exact ⟨_, _, .opens true hready hstands (List.prefix_refl _), fun _ => rfl⟩
  · exact ⟨_, _, .stays, fun _ => rfl⟩

theorem exists_moves_outside (h : Stacked s.index s.opened) (hready : Ready .outside s) (c : Char)
    (next : Option Char) : ∃ closed s', Moves s c next closed s' ∧
      ∀ mode, stepOutside mode s c = (closed mode, s') := by
  unfold stepOutside
  cases hopens : PairKind.ofOpening? c with
  | some k =>
    have hopener : k.opener <+: c :: next.toList := by
      rw [PairKind.opener_of_ofOpening? hopens]
      exact ⟨next.toList, rfl⟩
    have hplace := hready.place_eq
    have hstands : k ∈ (placeOf s.opened).pairs := by
      rw [hplace]
      exact List.mem_of_find?_eq_some hopens
    exact ⟨_, _, .opens false (hplace.symm ▸ hready) hstands hopener, fun _ => rfl⟩
  | none =>
    by_cases hcloses : PairKind.closesBracket c = true
    · simp only [hcloses, if_true]
      cases hfound : s.opened.dropWhile fun o => o.kind.closing ≠ c with
      | nil => exact ⟨_, _, .stays, fun _ => rfl⟩
      | cons o rest =>
        obtain ⟨dropped, hdropped⟩ : ∃ dropped, s.opened = dropped ++ o :: rest :=
          ⟨_, by rw [← hfound, List.takeWhile_append_dropWhile]⟩
        have hclosing : o.kind.closing = c := by
          have := List.head?_dropWhile_not (fun o : OpenSpan => o.kind.closing ≠ c) s.opened
          rw [hfound] at this
          simpa using this
        have hquotes : o.kind.isQuote = true → dropped = [] := by
          rw [← hclosing] at hcloses
          revert hcloses
          cases o.kind <;> simp [PairKind.isQuote, PairKind.closing, PairKind.closesBracket]
        have hinnermost : (s.opened.head?.any fun p => p.start = o.start) = true ↔
            dropped = [] := by
          rw [hdropped] at h ⊢
          exact h.head?_any_iff
        refine ⟨_, _, .closes hdropped hclosing hquotes, fun mode => ?_⟩
        simp only [hinnermost]
    · simp only [hcloses]
      exact ⟨_, _, .stays, fun _ => rfl⟩

/-- One of the moves is what a character does, and in both modes it is the same. -/
theorem exists_moves (h : Stacked s.index s.opened) (c : Char) (next : Option Char) :
    ∃ closed s', Moves s c next closed s' ∧ ∀ mode, step mode s c next = (closed mode, s') := by
  unfold step
  split
  · exact ⟨_, _, .stays, fun _ => rfl⟩
  next hpassOver =>
  have hpassOver : s.passOver = false := by simpa using hpassOver
  have hready (hplace : placeOf s.opened = .outside) : Ready .outside s :=
    ⟨hpassOver, hplace, nofun⟩
  split
  · next o rest hopened =>
    split
    · exact exists_moves_inQuotes hopened hpassOver c next
    · next hquote =>
      refine exists_moves_outside h (hready ?_) c next
      rw [isQuote_iff] at hquote
      rw [hopened, placeOf]
      simpa [Place.isQuoted] using hquote
  · next hopened =>
    refine exists_moves_outside h (hready ?_) c next
    rw [hopened]
    rfl

/-- The scan goes on after a move, in both modes from the same state. -/
theorem exists_scan_cons (h : Stacked s.index s.opened) (c : Char) (t : Text) :
    ∃ closed s', Moves s c t.head? closed s' ∧
      ∀ mode, scan mode s (c :: t) = closed mode ++ scan mode s' t := by
  obtain ⟨closed, s', hmoves, hstep⟩ := exists_moves h c t.head?
  exact ⟨closed, s', hmoves, fun mode => by rw [scan, hstep]⟩

namespace Moves

variable {c : Char} {next : Option Char} {closed : Mode → List BracketSpan} {s' : State}

theorem index_eq (h : Moves s c next closed s') : s'.index = s.index + 1 := by
  cases h <;> rfl

/-- A pair that a character closes is one of the open spans, and those below it stay open. -/
theorem of_mem_closed (h : Moves s c next closed s') {mode : Mode} {b : BracketSpan}
    (hb : b ∈ closed mode) : ∃ dropped o rest, s.opened = dropped ++ o :: rest ∧
      o.kind.closing = c ∧ b = o.close s.index ∧ s' = s.advance c rest := by
  cases h with
  | stays | opens => cases hb
  | @closes dropped rest o opened_eq closing_eq _ =>
    refine ⟨dropped, o, rest, opened_eq, closing_eq, ?_, rfl⟩
    dsimp only at hb
    split at hb
    · exact List.mem_singleton.mp hb
    · cases hb

end Moves

/-- The open spans stay stacked. -/
theorem Stacked.of_moves {c : Char} {next : Option Char} {closed : Mode → List BracketSpan}
    {s' : State} (h : Stacked s.index s.opened) (hmoves : Moves s c next closed s') :
    Stacked s'.index s'.opened := by
  rw [hmoves.index_eq]
  cases hmoves with
  | stays => exact h.mono (Nat.le_succ _)
  | opens => exact .cons (Nat.lt_succ_self _) h.openStarts_eq h
  | @closes dropped rest o opened_eq _ _ =>
    rw [opened_eq] at h
    have hlt : o.start < s.index := h.start_lt o (by simp)
    exact h.of_append.2.mono (by omega)

theorem stacked_step (mode : Mode) (h : Stacked s.index s.opened) (c : Char)
    (next : Option Char) :
    Stacked (step mode s c next).2.index (step mode s c next).2.opened := by
  obtain ⟨closed, s', hmoves, hstep⟩ := exists_moves h c next
  rw [hstep]
  exact h.of_moves hmoves

end Brackets

end ReplCore
