import ReplCore.Proofs.Brackets.States

/-!
# Text that goes on

The scan reads one character ahead, so what it has open after a part of a text may depend on the
next character. It does so in one case only: a dollar sign in a template literal opens a
substitution if a brace follows. The pairs that are closed in that part do not depend on it, since
a dollar sign closes nothing.

* `spans_append`: the pairs of a text that goes on are those of its first part and those that are
  closed later.
* `spans_prefix_append`: no reported pair is ever revised.
* `stateBefore_append_congr`: what follows matters only across a dollar sign.
-/

namespace ReplCore.Brackets

/-! ## Pairs -/

/-- Whatever follows a text, the pairs that are reported for it stay, with the same spans around
them, and come first. They are those of the longer text that are closed within it. -/
theorem spans_prefix_append (mode : Mode) (t v : Text) :
    spans mode t <+: spans mode (t ++ v) ∧
      ∀ b ∈ spans mode (t ++ v), b ∈ spans mode t ↔ b.stop < t.length := by
  obtain ⟨hspans, hbefore, hafter⟩ := spans_append mode t v
  refine ⟨⟨_, hspans.symm⟩, fun b hb => ⟨hbefore b, fun hlt => ?_⟩⟩
  rw [hspans] at hb
  refine (List.mem_append.mp hb).resolve_right fun hb => ?_
  have := hafter b hb
  omega

/-! ## The character after a part of a text -/

/-- A text ends in a dollar sign that stands, without an escape, directly in a template literal. -/
def EndsInDollar (t : Text) : Prop :=
  t.getLast? = some '$' ∧ Ready .template (stateBefore .ignoringMismatches t (t.length - 1))

/-- A text and the one after it open a substitution across their border. -/
def OpensAcross (t v : Text) : Prop := EndsInDollar t ∧ v.head? = some '\x7b'

/-- The next character matters only to a dollar sign. -/
theorem step_next_congr (mode : Mode) {s : State} {c : Char} {next : Option Char}
    (h : ¬ (c = '$' ∧ Ready .template s ∧ next = some '\x7b')) :
    step mode s c next = step mode s c none := by
  unfold step
  split
  · rfl
  next hpassOver =>
  split
  · next o rest hopened =>
    split
    · unfold stepInQuotes
      split
      · rfl
      next heven =>
      split
      · rfl
      have hnot : ¬ (c = '$' ∧ o.kind = .backtick ∧ next = some '\x7b') := by
        rintro ⟨rfl, hkind, rfl⟩
        refine h ⟨rfl, ⟨by simpa using hpassOver, ?_, fun _ => ?_⟩, rfl⟩
        · rw [hopened, placeOf, hkind]
          rfl
        · exact (Nat.mod_two_eq_zero_or_one _).resolve_right heven
      rw [if_neg hnot, if_neg (by simp)]
    · rfl
  · rfl

/-- After a part of a text, the scan has seen no more than one further character. -/
theorem stateAfter_head_congr (mode : Mode) {v w : Text} (h : v.head? = w.head?) :
    ∀ (read : Text) (s : State), stateAfter mode s read v = stateAfter mode s read w
  | [], _ => rfl
  | c :: read, s => by
    have hnext : (read ++ v).head? = (read ++ w).head? := by
      cases read with
      | nil => exact h
      | cons d read => rfl
    rw [stateAfter, stateAfter, hnext, stateAfter_head_congr mode h read]

theorem stateBefore_snoc (mode : Mode) (u v : Text) (c : Char) :
    stateBefore mode (u ++ [c] ++ v) (u ++ [c]).length =
      (step mode (stateBefore mode (u ++ [c]) u.length) c v.head?).2 := by
  have hhead : stateAfter mode .initial u ([c] ++ v) = stateAfter mode .initial u [c] :=
    stateAfter_head_congr mode (by simp) u .initial
  rw [stateBefore_append, stateBefore_append, stateAfter_append, hhead]
  rfl

theorem endsInDollar_snoc_iff {u : Text} {c : Char} : EndsInDollar (u ++ [c]) ↔
    c = '$' ∧ Ready .template (stateBefore .ignoringMismatches (u ++ [c]) u.length) := by
  rw [EndsInDollar, List.getLast?_concat, List.length_append, List.length_singleton,
    Nat.add_sub_cancel, Option.some.injEq]

/-- The state after a part of a text does not depend on what follows, unless that opens a
substitution across the border. -/
theorem stateBefore_append_congr (mode : Mode) {u v w : Text} (hv : ¬ OpensAcross u v)
    (hw : ¬ OpensAcross u w) :
    stateBefore mode (u ++ v) u.length = stateBefore mode (u ++ w) u.length := by
  rcases List.eq_nil_or_concat u with rfl | ⟨u, c, rfl⟩
  · rfl
  rw [List.concat_eq_append] at hv hw ⊢
  have halone (rest : Text) (hrest : ¬ OpensAcross (u ++ [c]) rest) :
      stateBefore mode (u ++ [c] ++ rest) (u ++ [c]).length =
        (step mode (stateBefore mode (u ++ [c]) u.length) c none).2 := by
    rw [stateBefore_snoc, step_next_congr]
    rintro ⟨hc, hready, hbrace⟩
    rw [stateBefore_eq mode .ignoringMismatches] at hready
    exact hrest ⟨endsInDollar_snoc_iff.mpr ⟨hc, hready⟩, hbrace⟩
  rw [halone v hv, halone w hw]

/-- The state after a dollar sign in a template literal: it opens a substitution if a brace
follows, and otherwise the text goes on in the template literal. -/
theorem stateBefore_of_endsInDollar (mode : Mode) {u v : Text} (h : EndsInDollar u) :
    (v.head? = some '\x7b' → (stateBefore mode (u ++ v) u.length).passOver = true) ∧
      (v.head? ≠ some '\x7b' →
        placeOf (stateBefore mode (u ++ v) u.length).opened = .template) := by
  rcases List.eq_nil_or_concat u with rfl | ⟨u, c, rfl⟩
  · cases h.1
  rw [List.concat_eq_append] at h ⊢
  obtain ⟨rfl, hready⟩ := endsInDollar_snoc_iff.mp h
  rw [stateBefore_eq _ mode] at hready
  rw [stateBefore_snoc]
  refine ⟨fun hbrace => ?_, fun hbrace => ?_⟩
  · rw [hbrace, step_substitution mode hready]
  · rw [step_dollar hready hbrace]
    exact hready.place_eq

/-- No pair starts with a brace that belongs to the dollar sign before it, and right after a dollar
sign in a template literal only a substitution can start. -/
theorem not_opensAcross_of_mem_spans {mode : Mode} {t : Text} {b : BracketSpan}
    (hb : b ∈ spans mode t) : ¬ OpensAcross (t.take b.start) (t.drop b.start) ∧
      (EndsInDollar (t.take b.start) → b.kind = .substitution) := by
  have hlength : (t.take b.start).length = b.start :=
    List.length_take_of_le (Nat.le_of_lt (start_lt_of_mem_spans b hb))
  obtain ⟨hready, hpairs, -⟩ := opened_of_mem_spans mode hb
  have hstate := stateBefore_of_endsInDollar mode (u := t.take b.start) (v := t.drop b.start)
  rw [List.take_append_drop, hlength] at hstate
  have hnot : ¬ OpensAcross (t.take b.start) (t.drop b.start) := by
    rintro ⟨hdollar, hbrace⟩
    have hpassOver := (hstate hdollar).1 hbrace
    rw [hready.passOver] at hpassOver
    cases hpassOver
  refine ⟨hnot, fun hdollar => ?_⟩
  have hplace := (hstate hdollar).2 fun hbrace => hnot ⟨hdollar, hbrace⟩
  rw [hplace] at hpairs
  exact List.mem_singleton.mp hpairs

/-- In a text without two dollar signs in a row, no dollar sign stands before a substitution, and
before another pair it does not stand in a template literal. -/
theorem not_endsInDollar_of_mem_spans {mode : Mode} {t : Text} {b : BracketSpan}
    (ht : ¬ "$$".toList <:+: t) (hb : b ∈ spans mode t) :
    ¬ EndsInDollar (t.take b.start) := by
  intro hdollar
  have hkind := (not_opensAcross_of_mem_spans hb).2 hdollar
  obtain ⟨more, hmore⟩ := (standsIn_of_mem_spans b hb).opener
  obtain ⟨before, hbefore⟩ := List.getLast?_eq_some_iff.mp hdollar.1
  rw [hkind] at hmore
  refine ht ⟨before, '\x7b' :: more, ?_⟩
  calc before ++ "$$".toList ++ '\x7b' :: more
      = before ++ ['$'] ++ (PairKind.substitution.opener ++ more) := by simp [PairKind.opener]
    _ = t := by rw [hmore, ← hbefore, List.take_append_drop]

end ReplCore.Brackets
