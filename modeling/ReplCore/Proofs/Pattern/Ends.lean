import ReplCore.Pattern

/-!
# Where matches end

Every end of a match is the place just after a piece of text. What the piece looks like follows from
the pattern, and the preferred end of a repetition is the one that cannot go on.

* `spans_of_mem_ends`: an end of a match is reached by passing over a text.
* `first?_many_stops`: the preferred end of a repetition is one where the body does not match.
-/

namespace ReplCore

/-- `d` is the place just after the text `t`, which stands at `c`. -/
structure Cursor.Spans (c : Cursor) (t : Text) (d : Cursor) : Prop where
  rest_eq : c.rest = t ++ d.rest
  before_eq : d.before = t.getLast?.or c.before

namespace Cursor.Spans

variable {c d e : Cursor} {t u : Text}

theorem refl (c : Cursor) : Spans c [] c := ⟨rfl, rfl⟩

theorem trans (ht : Spans c t d) (hu : Spans d u e) : Spans c (t ++ u) e := by
  refine ⟨?_, ?_⟩
  · rw [ht.rest_eq, hu.rest_eq, List.append_assoc]
  · rw [hu.before_eq, ht.before_eq, List.getLast?_append, Option.or_assoc]

theorem cons {x : Char} {xs : Text} (h : c.rest = x :: xs) : Spans c [x] ⟨some x, xs⟩ :=
  ⟨h, rfl⟩

theorem advance {n : Nat} : ∀ {c : Cursor}, Spans c (c.rest.take n) (c.advance n) := by
  induction n with
  | zero => exact fun {c} => refl c
  | succ n ih =>
    intro c
    unfold Cursor.advance
    split
    · next h =>
      rw [h]
      exact refl c
    · next x xs h =>
      rw [h]
      exact (cons h).trans ih

theorem upTo_eq (h : Spans c t d) : c.upTo d = t := by
  rw [Cursor.upTo, h.rest_eq, List.length_append, Nat.add_sub_cancel, List.take_left]

/-- The two ends of a piece of text determine each other. -/
theorem unique (ht : Spans c t d) (hu : Spans c t e) : d = e := by
  cases d
  cases e
  obtain ⟨hrest, hbefore⟩ := ht
  obtain ⟨hrest', hbefore'⟩ := hu
  simp only [Cursor.mk.injEq]
  refine ⟨hbefore.trans hbefore'.symm, ?_⟩
  exact List.append_cancel_left (hrest.symm.trans hrest')

/-- No text leads back to where it stands. -/
theorem eq_nil_of_back (ht : Spans c t d) (hu : Spans d u c) : u = [] := by
  have hlen := congrArg List.length (ht.trans hu).rest_eq
  simp only [List.length_append] at hlen
  exact List.eq_nil_of_length_eq_zero (by omega)

theorem of_append (h : Spans c (t ++ u) e) : ∃ d, Spans c t d ∧ Spans d u e := by
  refine ⟨⟨t.getLast?.or c.before, u ++ e.rest⟩, ⟨?_, rfl⟩, ⟨rfl, ?_⟩⟩
  · rw [h.rest_eq, List.append_assoc]
  · rw [h.before_eq, List.getLast?_append, Option.or_assoc]

theorem isAt_eq {x : Char} (h : Spans c (x :: t) d) (p : Char → Bool) : c.isAt p = p x := by
  rw [Cursor.isAt, h.rest_eq]
  rfl

theorem head_eq {x y : Char} (hx : Spans c (x :: t) d) (hy : Spans c (y :: u) e) : x = y :=
  (List.cons.inj (hx.rest_eq.symm.trans hy.rest_eq)).1

theorem before_some {x : Char} (h : Spans c t d) (hx : t.getLast? = some x) :
    d.before = some x := by
  rw [h.before_eq, hx]
  rfl

theorem before_ne_none (h : Spans c t d) (hne : t ≠ []) : d.before ≠ none := by
  rw [h.before_some (List.getLast?_eq_some_getLast hne)]
  exact Option.some_ne_none _

end Cursor.Spans

namespace Pattern

open Cursor

variable {c d : Cursor}

/-! ## The ends of each pattern -/

theorem mem_ends_one {p : Char → Bool} :
    d ∈ (one p).ends c ↔ ∃ x, p x = true ∧ Spans c [x] d := by
  simp only [ends]
  constructor
  · intro h
    split at h
    · cases h
    · next x xs hrest =>
      split at h
      · next hx =>
        rw [List.mem_singleton.mp h]
        exact ⟨x, hx, .cons hrest⟩
      · cases h
  · rintro ⟨x, hx, hspans⟩
    have hrest : c.rest = x :: d.rest := hspans.rest_eq
    simp only [hrest, hx, if_true, List.mem_singleton]
    exact hspans.unique (.cons hrest)

theorem mem_ends_place {condition : Cursor → Bool} :
    d ∈ (place condition).ends c ↔ condition c = true ∧ d = c := by
  simp only [ends]
  split <;> simp [*]

theorem mem_ends_ahead {p : Pattern} : d ∈ (ahead p).ends c ↔ p.ends c ≠ [] ∧ d = c := by
  simp only [ends]
  split <;> simp_all

theorem mem_ends_seq {p q : Pattern} :
    d ∈ (seq p q).ends c ↔ ∃ e, e ∈ p.ends c ∧ d ∈ q.ends e := by
  simp only [ends, List.mem_flatMap]

theorem mem_ends_or {p q : Pattern} :
    d ∈ (or p q).ends c ↔ d ∈ p.ends c ∨ d ∈ q.ends c := by
  simp only [ends, List.mem_append]

theorem mem_ends_opt {p : Pattern} : d ∈ (opt p).ends c ↔ d ∈ p.ends c ∨ d = c := by
  rw [opt, mem_ends_or]
  simp [ends]

theorem mem_ends_chars {t : Text} : d ∈ (chars t).ends c ↔ Spans c t d := by
  induction t generalizing c with
  | nil =>
    simp only [chars, ends, List.mem_singleton]
    constructor
    · rintro rfl
      exact .refl d
    · intro h
      exact h.unique (.refl c)
  | cons x xs ih =>
    have hone : ∀ e, e ∈ (one (· == x)).ends c ↔ Spans c [x] e := by
      intro e
      simp [mem_ends_one]
    cases xs with
    | nil => exact hone d
    | cons y ys =>
      simp only [chars, mem_ends_seq]
      constructor
      · rintro ⟨e, he, hd⟩
        exact ((hone e).mp he).trans (ih.mp hd)
      · intro h
        obtain ⟨e, hx, hxs⟩ := Spans.of_append (t := [x]) h
        exact ⟨e, (hone e).mpr hx, ih.mpr hxs⟩

theorem mem_ends_lit {s : String} : d ∈ (lit s).ends c ↔ Spans c s.toList d := mem_ends_chars

theorem mem_ends_firstOf {ps : List Pattern} :
    d ∈ (firstOf ps).ends c ↔ ∃ p ∈ ps, d ∈ p.ends c := by
  induction ps with
  | nil => simp [firstOf, ends]
  | cons p ps ih =>
    cases ps with
    | nil => simp [firstOf]
    | cons q qs =>
      rw [firstOf, mem_ends_or, ih]
      · simp
      · simp

theorem mem_ends_oneWordOf {ws : List String} :
    d ∈ (oneWordOf ws).ends c ↔ ∃ w ∈ ws, Spans c w.toList d := by
  rw [oneWordOf, mem_ends_firstOf]
  constructor
  · rintro ⟨p, hp, hd⟩
    obtain ⟨w, hw, rfl⟩ := List.mem_map.mp hp
    exact ⟨w, hw, mem_ends_lit.mp hd⟩
  · rintro ⟨w, hw, hd⟩
    exact ⟨lit w, List.mem_map_of_mem hw, mem_ends_lit.mpr hd⟩

theorem mem_ends_wholeWordOf {ws : List String} :
    d ∈ (wholeWordOf ws).ends c ↔ (∃ w ∈ ws, Spans c w.toList d) ∧ d.isWordEdge = true := by
  simp only [wholeWordOf, wordEdge, mem_ends_seq, mem_ends_oneWordOf, mem_ends_place]
  constructor
  · rintro ⟨e, hw, hedge, rfl⟩
    exact ⟨hw, hedge⟩
  · exact fun ⟨hw, hedge⟩ => ⟨d, hw, hedge, rfl⟩

/-! ## Repetitions -/

theorem repeatEnds_bound {step : Cursor → List Cursor}
    (hstep : ∀ c d, d ∈ step c → d.rest.length < c.rest.length) : ∀ {b b' : Text} {c : Cursor},
      c.rest.length ≤ b.length → c.rest.length ≤ b'.length →
        repeatEnds step b c = repeatEnds step b' c := by
  have hnil : ∀ c : Cursor, c.rest.length ≤ 0 → step c = [] := by
    intro c hc
    refine List.eq_nil_iff_forall_not_mem.mpr fun d hd => ?_
    have := hstep c d hd
    omega
  intro b
  induction b with
  | nil =>
    intro b' c hb hb'
    cases b' with
    | nil => rfl
    | cons y b' => rw [repeatEnds_nil, repeatEnds_cons, hnil c hb]; rfl
  | cons x b ih =>
    intro b' c hb hb'
    cases b' with
    | nil => rw [repeatEnds_nil, repeatEnds_cons, hnil c hb']; rfl
    | cons y b' =>
      rw [repeatEnds_cons, repeatEnds_cons]
      rw [List.flatMap_def, List.flatMap_def, List.map_congr_left fun d hd => ?_]
      have := hstep c d hd
      simp only [List.length_cons] at hb hb'
      exact ih (by omega) (by omega)

/-- A repetition goes on from each end of its body, and may also stop where it is. -/
theorem ends_many {p : Pattern} (hp : p.consumes = true) (c : Cursor) :
    (many p).ends c = (p.ends c).flatMap (many p).ends ++ [c] := by
  have hstep := length_lt_of_consumes p hp
  have hc : (many p).ends c = repeatEnds p.ends ('x' :: c.rest) c :=
    repeatEnds_bound hstep (Nat.le_refl _) (Nat.le_succ _)
  rw [hc, repeatEnds_cons]
  rw [List.flatMap_def, List.flatMap_def, List.map_congr_left fun d hd => ?_]
  exact repeatEnds_bound hstep (Nat.le_of_lt (hstep c d hd)) (Nat.le_refl _)

theorem mem_ends_many_one {p : Char → Bool} :
    d ∈ (many (one p)).ends c ↔ ∃ t, (∀ x ∈ t, p x = true) ∧ Spans c t d := by
  constructor
  · intro h
    obtain ⟨n, hn⟩ : ∃ n, c.rest.length = n := ⟨_, rfl⟩
    induction n using Nat.strongRecOn generalizing c with
    | ind n ih =>
      rw [ends_many rfl] at h
      rcases List.mem_append.mp h with h | h
      · obtain ⟨e, he, hd⟩ := List.mem_flatMap.mp h
        obtain ⟨x, hx, hspans⟩ := mem_ends_one.mp he
        have hlen := length_lt_of_consumes (one p) rfl c e he
        obtain ⟨t, ht, hspans'⟩ := ih _ (hn ▸ hlen) hd rfl
        refine ⟨x :: t, ?_, hspans.trans hspans'⟩
        simpa [hx] using ht
      · rw [List.mem_singleton.mp h]
        exact ⟨[], by simp, .refl c⟩
  · rintro ⟨t, ht, hspans⟩
    induction t generalizing c with
    | nil =>
      rw [ends_many rfl, hspans.unique (.refl c)]
      simp
    | cons x t ih =>
      obtain ⟨e, hx, hrest⟩ := Spans.of_append (t := [x]) hspans
      rw [ends_many rfl]
      refine List.mem_append_left _ (List.mem_flatMap.mpr ⟨e, ?_, ?_⟩)
      · exact mem_ends_one.mpr ⟨x, ht x List.mem_cons_self, hx⟩
      · exact ih (fun y hy => ht y (List.mem_cons_of_mem x hy)) hrest

theorem mem_ends_some1_one {p : Char → Bool} :
    d ∈ (some1 (one p)).ends c ↔ ∃ t, t ≠ [] ∧ (∀ x ∈ t, p x = true) ∧ Spans c t d := by
  simp only [some1, mem_ends_seq, mem_ends_one, mem_ends_many_one]
  constructor
  · rintro ⟨e, ⟨x, hx, hspans⟩, t, ht, hspans'⟩
    exact ⟨x :: t, by simp, by simpa [hx] using ht, hspans.trans hspans'⟩
  · rintro ⟨t, hne, ht, hspans⟩
    obtain ⟨x, t, rfl⟩ := List.exists_cons_of_ne_nil hne
    obtain ⟨e, hx, hrest⟩ := Spans.of_append (t := [x]) hspans
    exact ⟨e, ⟨x, ht x List.mem_cons_self, hx⟩, t,
      fun y hy => ht y (List.mem_cons_of_mem x hy), hrest⟩

/-! ## Passing over text -/

/-- What holds of the text of every step, of no text and of texts one after the other, holds of the
text of a repetition. -/
theorem spans_of_mem_repeatEnds {step : Cursor → List Cursor} {Q : Text → Prop} (hnil : Q [])
    (happend : ∀ t u, Q t → Q u → Q (t ++ u)) (hstep : ∀ c d, d ∈ step c → ∃ t, Spans c t d ∧ Q t) :
    ∀ (bound : Text) (c d : Cursor), d ∈ repeatEnds step bound c → ∃ t, Spans c t d ∧ Q t
  | [], c, d, h => by
    rw [List.mem_singleton.mp h]
    exact ⟨[], .refl c, hnil⟩
  | x :: bound, c, d, h => by
    rw [repeatEnds_cons] at h
    rcases List.mem_append.mp h with h | h
    · obtain ⟨e, he, hd⟩ := List.mem_flatMap.mp h
      obtain ⟨t, ht, hQt⟩ := hstep c e he
      obtain ⟨u, hu, hQu⟩ := spans_of_mem_repeatEnds hnil happend hstep bound e d hd
      exact ⟨t ++ u, ht.trans hu, happend t u hQt hQu⟩
    · rw [List.mem_singleton.mp h]
      exact ⟨[], .refl c, hnil⟩

theorem spans_of_mem_repeatEndsFew {step : Cursor → List Cursor} {Q : Text → Prop} (hnil : Q [])
    (happend : ∀ t u, Q t → Q u → Q (t ++ u)) (hstep : ∀ c d, d ∈ step c → ∃ t, Spans c t d ∧ Q t) :
    ∀ (bound : Text) (c d : Cursor), d ∈ repeatEndsFew step bound c → ∃ t, Spans c t d ∧ Q t
  | [], c, d, h => by
    rw [List.mem_singleton.mp h]
    exact ⟨[], .refl c, hnil⟩
  | _ :: bound, c, d, h => by
    rcases List.mem_cons.mp h with h | h
    · rw [h]
      exact ⟨[], .refl c, hnil⟩
    · obtain ⟨e, he, hd⟩ := List.mem_flatMap.mp h
      obtain ⟨t, ht, hQt⟩ := hstep c e he
      obtain ⟨u, hu, hQu⟩ := spans_of_mem_repeatEndsFew hnil happend hstep bound e d hd
      exact ⟨t ++ u, ht.trans hu, happend t u hQt hQu⟩

/-- An end of a match is the place just after some text. -/
theorem spans_of_mem_ends (p : Pattern) : ∀ c d, d ∈ p.ends c → ∃ t, Spans c t d := by
  induction p with
  | empty =>
    intro c d h
    rw [List.mem_singleton.mp h]
    exact ⟨[], .refl c⟩
  | one accept =>
    intro c d h
    obtain ⟨x, -, hx⟩ := mem_ends_one.mp h
    exact ⟨[x], hx⟩
  | place condition =>
    intro c d h
    obtain ⟨-, rfl⟩ := mem_ends_place.mp h
    exact ⟨[], .refl d⟩
  | ahead p _ =>
    intro c d h
    obtain ⟨-, rfl⟩ := mem_ends_ahead.mp h
    exact ⟨[], .refl d⟩
  | seq p q ihp ihq =>
    intro c d h
    obtain ⟨e, he, hd⟩ := mem_ends_seq.mp h
    obtain ⟨t, ht⟩ := ihp c e he
    obtain ⟨u, hu⟩ := ihq e d hd
    exact ⟨t ++ u, ht.trans hu⟩
  | or p q ihp ihq =>
    intro c d h
    rcases mem_ends_or.mp h with h | h
    · exact ihp c d h
    · exact ihq c d h
  | many p ih =>
    intro c d h
    obtain ⟨t, ht, -⟩ := spans_of_mem_repeatEnds (Q := fun _ => True) trivial
      (fun _ _ _ _ => trivial) (by simpa using ih) c.rest c d h
    exact ⟨t, ht⟩
  | few p ih =>
    intro c d h
    obtain ⟨t, ht, -⟩ := spans_of_mem_repeatEndsFew (Q := fun _ => True) trivial
      (fun _ _ _ _ => trivial) (by simpa using ih) c.rest c d h
    exact ⟨t, ht⟩

/-! ## The preferred end -/

theorem first?_mem {p : Pattern} (h : p.first? c = some d) : d ∈ p.ends c :=
  List.mem_of_mem_head? h

theorem first?_seq (p q : Pattern) (c : Cursor) :
    (seq p q).first? c = (p.ends c).findSome? q.first? := by
  simp only [first?, ends, List.head?_flatMap]
  rfl

/-- Where the preferred end of the first part can go on, the whole goes on from there. -/
theorem first?_seq_of_some {p q : Pattern} {e : Cursor} (hp : p.first? c = some e)
    (hq : q.first? e = some d) : (seq p q).first? c = some d := by
  obtain ⟨es, hes⟩ := List.head?_eq_some_iff.mp hp
  rw [first?_seq, hes, List.findSome?_cons, hq]

theorem first?_seq_of_none {p q : Pattern} (hp : p.first? c = none) :
    (seq p q).first? c = none := by
  rw [first?_seq, List.head?_eq_none_iff.mp hp, List.findSome?_nil]

theorem first?_or_left {p q : Pattern} (h : p.first? c = some d) : (or p q).first? c = some d := by
  simp only [first?] at h
  simp [first?, ends, List.head?_append, h]

theorem first?_or_right {p q : Pattern} (h : p.first? c = none) :
    (or p q).first? c = q.first? c := by
  simp [first?, ends, List.head?_eq_none_iff.mp h]

theorem first?_one {p : Char → Bool} {x : Char} (hx : p x = true) (h : Spans c [x] d) :
    (one p).first? c = some d := by
  have hrest : c.rest = x :: d.rest := h.rest_eq
  simp only [first?, ends, hrest, hx, if_true, List.head?_cons]
  exact congrArg some (Spans.unique (.cons hrest) h)

theorem first?_one_of_not {p : Char → Bool} (h : c.isAt p = false) : (one p).first? c = none := by
  unfold isAt at h
  simp only [first?, ends]
  cases hrest : c.rest with
  | nil => rfl
  | cons x xs =>
    rw [hrest] at h
    have hx : p x = false := h
    simp [hx]

theorem exists_of_first?_seq {p q : Pattern} (h : (seq p q).first? c = some d) :
    ∃ e ∈ p.ends c, q.first? e = some d := by
  rw [first?_seq] at h
  exact List.exists_of_findSome?_eq_some h

theorem first?_many_of_some {p : Pattern} (hp : p.consumes = true) {e : Cursor}
    (h : p.first? c = some e) : (many p).first? c = (many p).first? e := by
  obtain ⟨es, hes⟩ := List.head?_eq_some_iff.mp h
  have hne : (many p).ends e ≠ [] := by simp [ends_many hp e]
  obtain ⟨d, ds, hds⟩ := List.exists_cons_of_ne_nil hne
  simp only [first?, ends_many hp c, hes, List.flatMap_cons, hds, List.cons_append,
    List.head?_cons]

theorem first?_many_of_none {p : Pattern} (hp : p.consumes = true) (h : p.first? c = none) :
    (many p).first? c = some c := by
  simp [first?, ends_many hp c, List.head?_eq_none_iff.mp h]

/-- The preferred end of a repetition is a place where its body does not match. -/
theorem first?_many_stops {p : Pattern} (hp : p.consumes = true)
    (h : (many p).first? c = some d) : p.first? d = none := by
  obtain ⟨n, hn⟩ : ∃ n, c.rest.length = n := ⟨_, rfl⟩
  induction n using Nat.strongRecOn generalizing c with
  | ind n ih =>
    cases hfirst : p.first? c with
    | none =>
      rw [first?_many_of_none hp hfirst] at h
      rwa [← Option.some.inj h]
    | some e =>
      rw [first?_many_of_some hp hfirst] at h
      have hlen := length_lt_of_consumes p hp c e (first?_mem hfirst)
      exact ih _ (hn ▸ hlen) h rfl

/-- A run of characters of a class, up to where it does not go on. -/
theorem first?_many_one {p : Char → Bool} {t : Text} (ht : ∀ x ∈ t, p x = true)
    (hspans : Spans c t d) (hstop : d.isAt p = false) : (many (one p)).first? c = some d := by
  induction t generalizing c with
  | nil =>
    rw [hspans.unique (.refl c)] at hstop ⊢
    exact first?_many_of_none rfl (first?_one_of_not hstop)
  | cons x t ih =>
    obtain ⟨e, hx, hrest⟩ := Spans.of_append (t := [x]) hspans
    rw [first?_many_of_some rfl (first?_one (ht x List.mem_cons_self) hx)]
    exact ih (fun y hy => ht y (List.mem_cons_of_mem x hy)) hrest

theorem first?_atMost_one {p : Char → Bool} : ∀ {n : Nat} {t : Text} {c : Cursor},
    t.length ≤ n → (∀ x ∈ t, p x = true) → Spans c t d → d.isAt p = false →
      (atMost n (one p)).first? c = some d
  | 0, t, c, hlen, _, hspans, _ => by
    obtain rfl := List.eq_nil_of_length_eq_zero (Nat.le_zero.mp hlen)
    rw [hspans.unique (.refl c)]
    rfl
  | n + 1, [], c, _, _, hspans, hstop => by
    rw [hspans.unique (.refl c)] at hstop ⊢
    rw [atMost, opt, first?_or_right (first?_seq_of_none (first?_one_of_not hstop))]
    rfl
  | n + 1, x :: t, c, hlen, ht, hspans, hstop => by
    obtain ⟨e, hx, hrest⟩ := Spans.of_append (t := [x]) hspans
    rw [atMost, opt]
    refine first?_or_left (first?_seq_of_some (first?_one (ht x List.mem_cons_self) hx) ?_)
    refine first?_atMost_one (Nat.le_of_succ_le_succ hlen) ?_ hrest hstop
    exact fun y hy => ht y (List.mem_cons_of_mem x hy)

theorem isAt_of_first?_one {p : Char → Bool} (h : (one p).first? c = none) :
    c.isAt p = false := by
  unfold isAt
  cases hrest : c.rest with
  | nil => rfl
  | cons x xs =>
    have hnot : ¬ p x = true := by
      intro hx
      have hmem : (⟨some x, xs⟩ : Cursor) ∈ (one p).ends c :=
        mem_ends_one.mpr ⟨x, hx, .cons hrest⟩
      rw [List.head?_eq_none_iff.mp h] at hmem
      cases hmem
    simpa using hnot

/-- As few characters as possible before a match of `q`: there is none from any place before. -/
theorem exists_of_first?_seq_few {q : Pattern} (h : (seq (few any) q).first? c = some d) :
    ∃ t e, Spans c t e ∧ q.first? e = some d ∧
      ∀ u v f, Spans c u f → Spans f v e → v ≠ [] → q.ends f = [] := by
  simp only [first?, ends] at h
  generalize c.rest = bound at h
  induction bound generalizing c with
  | nil =>
    rw [repeatEndsFew, List.flatMap_singleton] at h
    exact ⟨[], c, .refl c, h, fun u v f hu hv hne => absurd (hu.eq_nil_of_back hv) hne⟩
  | cons x bound ih =>
    rw [repeatEndsFew, List.flatMap_cons, List.head?_append, Option.or_eq_some_iff] at h
    rcases h with h | ⟨hnone, h⟩
    · exact ⟨[], c, .refl c, h, fun u v f hu hv hne => absurd (hu.eq_nil_of_back hv) hne⟩
    · rw [List.flatMap_assoc, List.head?_flatMap] at h
      obtain ⟨e, he, hd⟩ := List.exists_of_findSome?_eq_some h
      obtain ⟨y, -, hy⟩ := mem_ends_one.mp he
      obtain ⟨t, g, ht, hq, hbefore⟩ := ih hd
      refine ⟨y :: t, g, hy.trans ht, hq, fun u v f hu hv hne => ?_⟩
      cases u with
      | nil =>
        rw [hu.unique (.refl c)]
        exact List.head?_eq_none_iff.mp hnone
      | cons z u =>
        obtain ⟨e', hz, hu⟩ := Spans.of_append (t := [z]) hu
        obtain rfl := hz.head_eq hy
        rw [hz.unique hy] at hu
        exact hbefore u v f hu hv hne

/-- As few characters as possible before the end of a line are those of the line. -/
theorem first?_lineEnd (h : (seq (few any) lineEnd).first? c = some d) :
    ∃ t, '\n' ∉ t ∧ Spans c t d ∧ d.isLineEnd = true := by
  obtain ⟨t, e, hspans, hfirst, hbefore⟩ := exists_of_first?_seq_few h
  obtain ⟨hend, rfl⟩ := mem_ends_place.mp (first?_mem hfirst)
  refine ⟨t, fun hmem => ?_, hspans, hend⟩
  obtain ⟨u, v, rfl⟩ := List.append_of_mem hmem
  obtain ⟨f, hu, hv⟩ := hspans.of_append
  have hnot := hbefore u _ f hu hv (by simp)
  simp [lineEnd, ends, isLineEnd, hv.rest_eq] at hnot

/-- As few characters as possible before a text do not hold that text. -/
theorem first?_few_lit {s : String} (hs : s.toList ≠ [])
    (h : (seq (few any) (lit s)).first? c = some d) :
    ∃ t e, ¬ s.toList <:+: t ∧ Spans c t e ∧ Spans e s.toList d := by
  obtain ⟨t, e, hspans, hfirst, hbefore⟩ := exists_of_first?_seq_few h
  refine ⟨t, e, ?_, hspans, mem_ends_lit.mp (first?_mem hfirst)⟩
  rintro ⟨u, v, rfl⟩
  rw [List.append_assoc] at hspans
  obtain ⟨f, hu, hv⟩ := hspans.of_append
  obtain ⟨g, hg, -⟩ := hv.of_append
  have hmem := mem_ends_lit.mpr hg
  rw [hbefore u _ f hu hv (by simp [hs])] at hmem
  cases hmem

end Pattern

end ReplCore
