import ReplCore.Proofs.Pattern.Within
import ReplCore.Proofs.Terminal.Sequences

/-!
# Cuts between escape sequences

Which sequence starts at a place is decided by the text that the sequence passes over and by no text
after it. So a text that is cut anywhere but inside a sequence has the pieces of its two parts.

* `leading?_of_append`: the sequence at the start of a text is that of every longer start of it.
* `pieces_of_append`: the parts of a text that is cut between its pieces have these pieces.
* `not_isInside_iff`: the offsets between pieces are those that are not inside a sequence.
-/

namespace ReplCore.Escape

open Pattern

/-! ## The sequence at the start of a text -/

theorem leading?_eq (t : Text) :
    leading? t = (sequence.lengths t).head?.map fun n => (t.take n, t.drop n) := by
  rw [leading?, first?, lengths, List.head?_map, Option.map_map]
  cases h : (sequence.ends (.start t)).head? with
  | none => rfl
  | some d =>
    have hrest := rest_eq_drop_of_mem_ends (List.mem_of_mem_head? h)
    exact congrArg (fun rest => some (t.take _, rest)) hrest

/-- The matches within the start of a text are all those of the start. -/
theorem lengths_start (u v : Text) :
    sequence.lengths u = (sequence.lengths (u ++ v)).filter (· ≤ u.length) := by
  have hwithin := filter_lengths_append (show sequence.isSelfContained = true by decide) u [] v
  rw [List.append_nil, List.filter_eq_self.mpr] at hwithin
  · exact hwithin
  · exact fun n hn => decide_eq_true (distance_le_of_mem_lengths hn)

/-- The sequence at the start of a text is also that of a start of the text that is long enough. -/
theorem leading?_of_append {u v s after : Text} (h : leading? (u ++ v) = some (s, after))
    (hs : s.length ≤ u.length) : leading? u = some (s, u.drop s.length) := by
  rw [leading?_eq] at h
  obtain ⟨n, hn, hpair⟩ := Option.map_eq_some_iff.mp h
  obtain ⟨rfl, rfl⟩ := Prod.mk.inj hpair
  obtain ⟨ns, hns⟩ := List.head?_eq_some_iff.mp hn
  have hlength : ((u ++ v).take n).length = n := by
    have := distance_le_of_mem_lengths (List.mem_of_mem_head? hn)
    rw [List.length_take_of_le this]
  rw [hlength] at hs
  rw [leading?_eq, lengths_start u v, hns, List.filter_cons_of_pos (by simpa using hs), hlength,
    List.take_append_of_le_length hs]
  rfl

/-- Where a text starts with no sequence, no start of it does. -/
theorem leading?_of_append_none {u v : Text} (h : leading? (u ++ v) = none) :
    leading? u = none := by
  rw [leading?_eq, Option.map_eq_none_iff, List.head?_eq_none_iff] at h
  rw [leading?_eq, lengths_start u v, h]
  rfl

/-! ## Cuts -/

theorem ne_nil_of_leading? {t s after : Text} (h : leading? t = some (s, after)) : s ≠ [] := by
  rintro rfl
  obtain ⟨htext, hlt⟩ := leading?_eq_some h
  rw [List.nil_append] at htext
  rw [htext] at hlt
  omega

/-- The first piece of a text is its first character or the sequence that it starts with. -/
theorem pieces_eq_cons {t : Text} {p : Piece} {ps : List Piece} (h : pieces t = p :: ps) :
    (∃ c rest, p = .char c ∧ t = c :: rest ∧ leading? t = none ∧ pieces rest = ps) ∨
      ∃ s after, p = .sequence s ∧ t = s ++ after ∧ leading? t = some (s, after) ∧
        pieces after = ps := by
  cases t with
  | nil => cases h
  | cons c rest =>
    cases hleading : leading? (c :: rest) with
    | none =>
      rw [pieces_of_leading?_none hleading] at h
      obtain ⟨rfl, rfl⟩ := List.cons.inj h
      exact Or.inl ⟨c, rest, rfl, rfl, rfl, rfl⟩
    | some found =>
      obtain ⟨s, after⟩ := found
      rw [pieces_of_leading? hleading] at h
      obtain ⟨rfl, rfl⟩ := List.cons.inj h
      exact Or.inr ⟨s, after, rfl, (leading?_eq_some hleading).1.symm, rfl, rfl⟩

theorem ne_nil_of_mem_pieces {s : Text} {ps : List Piece} (hs : .sequence s ∈ ps) :
    ∀ {t : Text}, pieces t = ps → s ≠ [] := by
  induction ps with
  | nil => cases hs
  | cons p ps ih =>
    intro t h
    rcases pieces_eq_cons h with ⟨c, rest, rfl, -, -, hrest⟩ | ⟨s', after, rfl, -, hs', hafter⟩
    · exact ih (by simpa using hs) hrest
    · rcases List.mem_cons.mp hs with hs | hs
      · cases hs
        exact ne_nil_of_leading? hs'
      · exact ih hs hafter

/-- The parts of a text that is cut between its pieces have these pieces. -/
theorem pieces_of_append {ps qs : List Piece} : ∀ {t : Text}, pieces t = ps ++ qs →
    pieces (ps.flatMap Piece.text) = ps ∧ pieces (qs.flatMap Piece.text) = qs := by
  induction ps with
  | nil =>
    intro t h
    rw [List.nil_append] at h
    rw [← h, flatMap_text_pieces]
    exact ⟨rfl, rfl⟩
  | cons p ps ih =>
    intro t h
    have htext : t = (p :: ps).flatMap Piece.text ++ qs.flatMap Piece.text := by
      rw [← List.flatMap_append, ← h, flatMap_text_pieces]
    rcases pieces_eq_cons h with ⟨c, rest, rfl, -, hnone, hrest⟩ | ⟨s, after, rfl, -, hs, hafter⟩
    · obtain ⟨hps, hqs⟩ := ih hrest
      rw [htext] at hnone
      exact ⟨(pieces_of_leading?_none (leading?_of_append_none hnone)).trans (congrArg _ hps), hqs⟩
    · obtain ⟨hps, hqs⟩ := ih hafter
      rw [htext] at hs
      have hstart := leading?_of_append hs (by simp [Piece.text])
      rw [List.flatMap_cons, Piece.text, List.drop_left] at hstart
      exact ⟨(pieces_of_leading? hstart).trans (congrArg _ hps), hqs⟩

/-! ## Where the sequences are -/

/-- An escape sequence with its place in a text. -/
structure Occurrence where
  start : Nat
  text : Text
deriving Repr, DecidableEq

/-- The offset just past the sequence. -/
def Occurrence.stop (o : Occurrence) : Nat := o.start + o.text.length

/-- The sequences among some pieces, the first of which is at the given offset. -/
def occurrencesFrom : Nat → List Piece → List Occurrence
  | _, [] => []
  | n, .char _ :: ps => occurrencesFrom (n + 1) ps
  | n, .sequence s :: ps => ⟨n, s⟩ :: occurrencesFrom (n + s.length) ps

/-- The escape sequences of a text with their places. -/
def occurrences (t : Text) : List Occurrence := occurrencesFrom 0 (pieces t)

/-- Whether an offset is strictly inside an escape sequence of a text. -/
def IsInside (t : Text) (n : Nat) : Prop := ∃ o ∈ occurrences t, o.start < n ∧ n < o.stop

/-- The offset just past some pieces. -/
def widthOf (ps : List Piece) : Nat := (ps.flatMap Piece.text).length

theorem widthOf_cons (p : Piece) (ps : List Piece) :
    widthOf (p :: ps) = p.text.length + widthOf ps := by
  rw [widthOf, List.flatMap_cons, List.length_append, widthOf]

theorem widthOf_pieces (t : Text) : widthOf (pieces t) = t.length := by
  rw [widthOf, flatMap_text_pieces]

theorem occurrencesFrom_append (ps qs : List Piece) : ∀ n : Nat,
    occurrencesFrom n (ps ++ qs) = occurrencesFrom n ps ++ occurrencesFrom (n + widthOf ps) qs := by
  induction ps with
  | nil => exact fun _ => rfl
  | cons p ps ih =>
    intro n
    rw [widthOf_cons, ← Nat.add_assoc]
    cases p with
    | char c => exact ih (n + 1)
    | sequence s => exact congrArg (_ :: ·) (ih (n + s.length))

/-- A sequence lies between the offsets where its pieces start and end. -/
theorem bounds_of_mem_occurrencesFrom {ps : List Piece} {o : Occurrence} : ∀ {n : Nat},
    o ∈ occurrencesFrom n ps → n ≤ o.start ∧ o.stop ≤ n + widthOf ps ∧ .sequence o.text ∈ ps := by
  induction ps with
  | nil => exact nofun
  | cons p ps ih =>
    intro n h
    rw [widthOf_cons]
    cases p with
    | char c =>
      obtain ⟨hstart, hstop, hmem⟩ := ih h
      simp only [Piece.text, List.length_singleton]
      exact ⟨by omega, by omega, List.mem_cons_of_mem _ hmem⟩
    | sequence s =>
      rcases List.mem_cons.mp h with rfl | h
      · simp only [Occurrence.stop, Piece.text]
        exact ⟨Nat.le_refl _, by omega, List.mem_cons_self⟩
      · obtain ⟨hstart, hstop, hmem⟩ := ih h
        simp only [Piece.text]
        exact ⟨by omega, by omega, List.mem_cons_of_mem _ hmem⟩

/-- An offset that is not inside a sequence is one where a piece starts or the last one ends. -/
theorem exists_append_of_not_inside {ps : List Piece} : ∀ {n m : Nat},
    (∀ o ∈ occurrencesFrom n ps, ¬ (o.start < m ∧ m < o.stop)) → n ≤ m → m ≤ n + widthOf ps →
      ∃ qs rs, ps = qs ++ rs ∧ n + widthOf qs = m := by
  induction ps with
  | nil => exact fun {n m} _ hle hle' => ⟨[], [], rfl, Nat.le_antisymm hle hle'⟩
  | cons p ps ih =>
    intro n m houtside hle hle'
    by_cases hm : n = m
    · exact ⟨[], p :: ps, rfl, hm⟩
    rw [widthOf_cons] at hle'
    have hnext : n + p.text.length ≤ m ∧
        ∀ o ∈ occurrencesFrom (n + p.text.length) ps, ¬ (o.start < m ∧ m < o.stop) := by
      cases p with
      | char c => exact ⟨by simp only [Piece.text, List.length_singleton]; omega, houtside⟩
      | sequence s =>
        have hfirst := houtside ⟨n, s⟩ List.mem_cons_self
        simp only [Occurrence.stop, not_and, Nat.not_lt] at hfirst
        exact ⟨hfirst (by omega), fun o ho => houtside o (List.mem_cons_of_mem _ ho)⟩
    obtain ⟨qs, rs, rfl, hqs⟩ := ih hnext.2 hnext.1 (by omega)
    exact ⟨p :: qs, rs, rfl, by rw [widthOf_cons, ← hqs, Nat.add_assoc]⟩

section Cut

variable {t : Text} {ps qs : List Piece}

/-- The sequences of a text before a cut between its pieces are those that end there or before. -/
theorem filter_occurrences (h : pieces t = ps ++ qs) :
    (occurrences t).filter (·.stop ≤ widthOf ps) = occurrencesFrom 0 ps := by
  rw [occurrences, h, occurrencesFrom_append, Nat.zero_add, List.filter_append,
    List.filter_eq_self.mpr, List.filter_eq_nil_iff.mpr, List.append_nil]
  · intro o ho
    obtain ⟨hstart, -, hmem⟩ := bounds_of_mem_occurrencesFrom ho
    have hpos := List.length_pos_iff.mpr
      (ne_nil_of_mem_pieces (List.mem_append_right ps hmem) h)
    have hstop : widthOf ps < o.stop := by
      rw [Occurrence.stop]
      omega
    simpa using hstop
  · intro o ho
    have := (bounds_of_mem_occurrencesFrom ho).2.1
    rw [Nat.zero_add] at this
    exact decide_eq_true this

theorem not_isInside (h : pieces t = ps ++ qs) : ¬ IsInside t (widthOf ps) := by
  rintro ⟨o, ho, hstart, hstop⟩
  rw [occurrences, h, occurrencesFrom_append] at ho
  rcases List.mem_append.mp ho with ho | ho
  · have := (bounds_of_mem_occurrencesFrom ho).2.1
    omega
  · have := (bounds_of_mem_occurrencesFrom ho).1
    omega

/-- The offsets between the pieces of a text are those that are not inside a sequence. -/
theorem not_isInside_iff {n : Nat} (hn : n ≤ t.length) :
    ¬ IsInside t n ↔ ∃ ps qs, pieces t = ps ++ qs ∧ widthOf ps = n := by
  constructor
  · intro h
    have houtside : ∀ o ∈ occurrencesFrom 0 (pieces t), ¬ (o.start < n ∧ n < o.stop) :=
      fun o ho hinside => h ⟨o, ho, hinside⟩
    have hle : n ≤ 0 + widthOf (pieces t) := by rwa [Nat.zero_add, widthOf_pieces]
    obtain ⟨ps, qs, hpieces, hwidth⟩ := exists_append_of_not_inside houtside (Nat.zero_le n) hle
    exact ⟨ps, qs, hpieces, by rw [← hwidth, Nat.zero_add]⟩
  · rintro ⟨ps, qs, hpieces, rfl⟩
    exact not_isInside hpieces

theorem take_widthOf (h : pieces t = ps ++ qs) : t.take (widthOf ps) = ps.flatMap Piece.text := by
  rw [← flatMap_text_pieces t, h, List.flatMap_append, widthOf, List.take_left]

theorem drop_widthOf (h : pieces t = ps ++ qs) : t.drop (widthOf ps) = qs.flatMap Piece.text := by
  rw [← flatMap_text_pieces t, h, List.flatMap_append, widthOf, List.drop_left]

/-- A cut between pieces divides the characters. -/
theorem characterCount_cut (h : pieces t = ps ++ qs) : characterCount t =
    characterCount (t.take (widthOf ps)) + characterCount (t.drop (widthOf ps)) := by
  obtain ⟨hps, hqs⟩ := pieces_of_append h
  rw [take_widthOf h, drop_widthOf h, characterCount, characterCount, characterCount, strip, strip,
    strip, h, hps, hqs, List.filterMap_append, List.length_append]

end Cut

end ReplCore.Escape
