import Mathlib.Data.List.Pairwise
import ReplCore.Proofs.Brackets.Spans

/-!
# The reported pairs form a forest

Whatever the text, of two pairs that the scan reports either one is over before the other starts, or
one is strictly inside the other. The spans around a pair are those that were open at its start, and
those of them that are closed enclose the pair.

* `pairwise_spans`: how a pair lies to those that are closed after it.
* `isForest_spans`: the reported pairs form a forest, on every text and in either mode.
-/

namespace ReplCore.Brackets

/-! ## What is closed from a state on -/

/-- A pair that is closed from a state on was open there, or it starts later and the spans around it
were open there or start later too. -/
inductive ClosesFrom (s : State) (b : BracketSpan) : Prop
  | opened {upper rest : List OpenSpan} {o : OpenSpan} {n : Nat}
      (opened_eq : s.opened = upper ++ o :: rest) (eq_close : b = o.close n)
  | later (le_start : s.index ≤ b.start)
      (around : ∀ a ∈ b.around, s.index ≤ a ∨ ∃ o ∈ s.opened, o.start = a)

/-- What is closed after a move was open before it or starts at the character or later. -/
theorem ClosesFrom.of_moves {s s' : State} {c : Char} {next : Option Char}
    {closed : Mode → List BracketSpan} (h : Stacked s.index s.opened)
    (hmoves : Moves s c next closed s') {b : BracketSpan} (hb : ClosesFrom s' b) :
    ClosesFrom s b := by
  have hindex := hmoves.index_eq
  cases hmoves with
  | stays =>
    cases hb with
    | opened opened_eq eq_close => exact .opened opened_eq eq_close
    | later le_start around =>
      rw [hindex] at le_start around
      exact .later (Nat.le_of_succ_le le_start) fun a ha =>
        (around a ha).imp_left Nat.le_of_succ_le
  | @opens k =>
    cases hb with
    | @opened upper rest o n opened_eq eq_close =>
      cases upper with
      | nil =>
        -- It is the pair that the character opens.
        obtain ⟨rfl, rfl⟩ := List.cons.inj opened_eq
        rw [eq_close]
        refine .later (Nat.le_refl _) fun a ha => Or.inr ?_
        rw [OpenSpan.close, h.openStarts_eq] at ha
        exact List.mem_map.mp ha
      | cons p upper => exact .opened (List.cons.inj opened_eq).2 eq_close
    | later le_start around =>
      rw [hindex] at le_start around
      refine .later (Nat.le_of_succ_le le_start) fun a ha => ?_
      rcases around a ha with hle | ⟨o, ho, rfl⟩
      · exact Or.inl (Nat.le_of_succ_le hle)
      rcases List.mem_cons.mp ho with rfl | ho
      · exact Or.inl (Nat.le_refl _)
      · exact Or.inr ⟨o, ho, rfl⟩
  | @closes dropped rest o opened_eq closing_eq quotes =>
    cases hb with
    | @opened upper rest' o' n opened_eq' eq_close =>
      have hopened : s.opened = (dropped ++ o :: upper) ++ o' :: rest' := by
        rw [opened_eq, show rest = upper ++ o' :: rest' from opened_eq', List.append_assoc,
          List.cons_append]
      exact .opened hopened eq_close
    | later le_start around =>
      rw [hindex] at le_start around
      refine .later (Nat.le_of_succ_le le_start) fun a ha => ?_
      rcases around a ha with hle | ⟨p, hp, rfl⟩
      · exact Or.inl (Nat.le_of_succ_le hle)
      · refine Or.inr ⟨p, ?_, rfl⟩
        rw [opened_eq]
        exact List.mem_append_right _ (List.mem_cons_of_mem o hp)

theorem closesFrom_of_mem_scan {mode : Mode} : ∀ {t : Text} {s : State}, Stacked s.index s.opened →
    ∀ b ∈ scan mode s t, s.index ≤ b.stop ∧ ClosesFrom s b
  | [], _, _, _, hb => by cases hb
  | c :: t, s, h, b, hb => by
    obtain ⟨closed, s', hmoves, hscan⟩ := exists_scan_cons h c t
    rw [hscan] at hb
    rcases List.mem_append.mp hb with hb | hb
    · obtain ⟨dropped, o, rest, hopened, -, rfl, -⟩ := hmoves.of_mem_closed hb
      exact ⟨Nat.le_refl _, .opened hopened rfl⟩
    · obtain ⟨hstop, hcloses⟩ := closesFrom_of_mem_scan (h.of_moves hmoves) b hb
      rw [hmoves.index_eq] at hstop
      exact ⟨Nat.le_of_succ_le hstop, hcloses.of_moves h hmoves⟩

/-! ## Two pairs -/

/-- How a pair lies to one that is closed after it: it is over before that one starts, or that one
encloses it and is among the spans around it, with its own spans around it after it. -/
inductive Precedes (p q : BracketSpan) : Prop
  | before (stop_lt : p.stop < q.start) (not_around : p.start ∉ q.around)
  | inside (encloses : q.Encloses p) {nearer : List Nat}
      (around_eq : p.around = nearer ++ q.start :: q.around)

/-- A pair that a character closes precedes those that are closed later. -/
theorem Moves.precedes {s s' : State} {c : Char} {next : Option Char}
    {closed : Mode → List BracketSpan} (h : Stacked s.index s.opened)
    (hmoves : Moves s c next closed s') {mode : Mode} {p q : BracketSpan} (hp : p ∈ closed mode)
    (hstop : s'.index ≤ q.stop) (hq : ClosesFrom s' q) : Precedes p q := by
  obtain ⟨dropped, o, rest, hopened, -, rfl, rfl⟩ := hmoves.of_mem_closed hp
  have ho : o.start < s.index := h.start_lt o (by simp [hopened])
  obtain ⟨haround, hbelow⟩ := (hopened ▸ h).of_append
  cases hq with
  | @opened upper rest' o' n opened_eq eq_close =>
    obtain rfl : rest = upper ++ o' :: rest' := opened_eq
    have hlt : o'.start < o.start := hbelow.start_lt o' (by simp)
    obtain ⟨haround', -⟩ := hbelow.of_append
    have hparent : o.around = upper.map OpenSpan.start ++ o'.start :: o'.around := by
      rw [haround, haround', List.map_append, List.map_cons]
    rw [eq_close] at hstop ⊢
    exact .inside ⟨hlt, Nat.lt_of_succ_le hstop⟩ hparent
  | later le_start around =>
    refine .before (Nat.lt_of_succ_le le_start) fun hmem => ?_
    rcases around _ hmem with hle | ⟨p, hp, hstart⟩
    · have : s.index + 1 ≤ o.start := hle
      omega
    · have : p.start < o.start := hbelow.start_lt p hp
      have : p.start = o.start := hstart
      omega

theorem pairwise_scan {mode : Mode} : ∀ {t : Text} {s : State}, Stacked s.index s.opened →
    (scan mode s t).Pairwise Precedes
  | [], _, _ => .nil
  | c :: t, s, h => by
    obtain ⟨closed, s', hmoves, hscan⟩ := exists_scan_cons h c t
    have h' := h.of_moves hmoves
    rw [hscan]
    refine List.pairwise_append.mpr ⟨?_, pairwise_scan h', fun p hp q hq => ?_⟩
    · cases hmoves with
      | stays | opens => exact .nil
      | closes =>
        dsimp only
        split
        · exact List.pairwise_singleton _ _
        · exact .nil
    · obtain ⟨hstop, hcloses⟩ := closesFrom_of_mem_scan h' q hq
      exact hmoves.precedes h hp hstop hcloses

/-- Each pair precedes those that are reported after it. -/
theorem pairwise_spans (mode : Mode) (t : Text) : (spans mode t).Pairwise Precedes :=
  pairwise_scan stacked_initial

namespace Precedes

variable {t : Text} {p q : BracketSpan}

theorem stop_lt_stop (h : Precedes p q) (hq : StandsIn t q) : p.stop < q.stop := by
  cases h with
  | before stop_lt _ => exact Nat.lt_trans stop_lt hq.start_lt_stop
  | inside encloses _ => exact encloses.2

/-- Two pairs have no end in common. -/
theorem ends_ne (h : Precedes p q) (hp : StandsIn t p) (hq : StandsIn t q) :
    p.start ≠ q.start ∧ p.start ≠ q.stop ∧ p.stop ≠ q.start ∧ p.stop ≠ q.stop := by
  have hp := hp.start_lt_stop
  have hq := hq.start_lt_stop
  cases h with
  | before stop_lt _ => omega
  | inside encloses _ =>
    obtain ⟨hstart, hstop⟩ := encloses
    omega

end Precedes

theorem eq_or_precedes {ps : List BracketSpan} (h : ps.Pairwise Precedes) :
    ∀ ⦃p⦄, p ∈ ps → ∀ ⦃q⦄, q ∈ ps → p = q ∨ Precedes p q ∨ Precedes q p := by
  have hsymm : Std.Symm fun p q => p = q ∨ Precedes p q ∨ Precedes q p :=
    ⟨fun p q hpq => hpq.imp Eq.symm Or.symm⟩
  exact (h.imp fun hpq => Or.inr (Or.inl hpq)).forall_of_forall fun _ _ => Or.inl rfl

/-! ## The forest -/

/-- Pairs, in the order in which they are closed, that form a forest over a text. -/
structure IsForest (t : Text) (ps : List BracketSpan) : Prop where
  bounds : ∀ p ∈ ps, p.start < p.stop ∧ p.stop < t.length
  /-- A pair starts at the character of its kind and stops at the one that closes it; a substitution
  starts at a dollar sign with a brace after it. -/
  characters : ∀ p ∈ ps, t[p.start]? = some p.kind.opening ∧ t[p.stop]? = some p.kind.closing ∧
    (p.kind = .substitution → t[p.start + 1]? = some '\x7b')
  increasing : ps.Pairwise fun p q => p.stop < q.stop
  /-- No place is an end of two pairs. -/
  ends_ne : ps.Pairwise fun p q =>
    p.start ≠ q.start ∧ p.start ≠ q.stop ∧ p.stop ≠ q.start ∧ p.stop ≠ q.stop
  disjoint_or_nested : ps.Pairwise fun p q =>
    p.stop < q.start ∨ q.stop < p.start ∨ p.Encloses q ∨ q.Encloses p
  /-- A pair that encloses another is among the spans around it, and after it come those that are
  around both. -/
  around_of_encloses : ∀ p ∈ ps, ∀ q ∈ ps, q.Encloses p →
    ∃ nearer, p.around = nearer ++ q.start :: q.around
  /-- If a span around a pair is closed, it encloses the pair. -/
  encloses_of_around : ∀ p ∈ ps, ∀ q ∈ ps, q.start ∈ p.around → q.Encloses p

theorem StandsIn.characters {t : Text} {p : BracketSpan} (h : StandsIn t p) :
    t[p.start]? = some p.kind.opening ∧ t[p.stop]? = some p.kind.closing ∧
      (p.kind = .substitution → t[p.start + 1]? = some '\x7b') := by
  obtain ⟨more, hmore⟩ := h.opener
  refine ⟨?_, h.closer, fun hkind => ?_⟩
  · obtain ⟨extra, hextra⟩ := p.kind.opener_eq
    rw [← List.head?_drop, ← hmore, hextra, List.cons_append, List.head?_cons]
  · rw [hkind] at hmore
    rw [← List.head?_drop, ← List.drop_drop, ← hmore]
    rfl

/-- The reported pairs form a forest: each starts and stops at its characters, they come in the
order of their closers, no two of them share an end or overlap without one enclosing the other, and
the closed spans around a pair are the pairs that enclose it. -/
theorem isForest_spans (mode : Mode) (t : Text) : IsForest t (spans mode t) := by
  have hstands : ∀ p ∈ spans mode t, StandsIn t p := standsIn_of_mem_spans
  have hpairwise := pairwise_spans mode t
  have hpairwise' : (spans mode t).Pairwise fun p q =>
      StandsIn t p ∧ StandsIn t q ∧ Precedes p q :=
    hpairwise.imp_of_mem fun hp hq h => ⟨hstands _ hp, hstands _ hq, h⟩
  refine ⟨fun p hp => ⟨(hstands p hp).start_lt_stop, stop_lt_of_mem_spans p hp⟩,
    fun p hp => (hstands p hp).characters, hpairwise'.imp fun ⟨_, hq, h⟩ => h.stop_lt_stop hq,
    hpairwise'.imp fun ⟨hp, hq, h⟩ => h.ends_ne hp hq, hpairwise.imp fun h => ?_,
    fun p hp q hq hencloses => ?_, fun p hp q hq haround => ?_⟩
  · cases h with
    | before stop_lt _ => exact Or.inl stop_lt
    | inside encloses _ => exact Or.inr (Or.inr (Or.inr encloses))
  · obtain ⟨hstart, hstop⟩ := hencloses
    rcases eq_or_precedes hpairwise hp hq with rfl | h | h
    · exact absurd hstart (Nat.lt_irrefl _)
    · cases h with
      | before stop_lt _ =>
        have := (hstands p hp).start_lt_stop
        omega
      | inside _ around_eq => exact ⟨_, around_eq⟩
    · have := h.stop_lt_stop (hstands p hp)
      omega
  · have hstart : q.start < p.start := (hstands p hp).around_lt _ haround
    rcases eq_or_precedes hpairwise hp hq with rfl | h | h
    · exact absurd hstart (Nat.lt_irrefl _)
    · cases h with
      | before stop_lt _ =>
        have := (hstands p hp).start_lt_stop
        omega
      | inside encloses _ => exact encloses
    · cases h with
      | before _ not_around => exact absurd haround not_around
      | inside encloses _ =>
        have := encloses.1
        omega

end ReplCore.Brackets
