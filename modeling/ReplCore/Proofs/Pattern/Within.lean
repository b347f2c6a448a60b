import ReplCore.Proofs.Pattern.Before

/-!
# Matches within a common start

A pattern without conditions on places and without looks ahead reads nothing but the text that its
matches pass over. So two texts with a common start have the same matches within it, in the same
order of preference.

* `filter_lengths_append`: the lengths of the matches within a common start.
-/

namespace ReplCore

/-- The number of characters between two places of one text. -/
def Cursor.distance (c d : Cursor) : Nat := c.rest.length - d.rest.length

namespace Pattern

open Cursor

variable {p q : Pattern} {c d : Cursor}

/-- Whether a match depends on nothing but the text that it passes over. -/
def isSelfContained : Pattern → Bool
  | empty | one _ => true
  | place _ | ahead _ | few _ => false
  | seq p q | or p q => isSelfContained p && isSelfContained q
  | many p => consumes p && isSelfContained p

theorem ignoresBefore_of_isSelfContained (hp : p.isSelfContained = true) :
    p.ignoresBefore = true := by
  induction p with
  | empty | one => rfl
  | place | ahead | few => cases hp
  | seq p q ihp ihq =>
    rw [isSelfContained, Bool.and_eq_true] at hp
    rw [ignoresBefore, ihp hp.1, ihq hp.2, Bool.or_true, Bool.and_self]
  | or p q ihp ihq =>
    rw [isSelfContained, Bool.and_eq_true] at hp
    rw [ignoresBefore, ihp hp.1, ihq hp.2, Bool.and_self]
  | many p ih =>
    rw [isSelfContained, Bool.and_eq_true] at hp
    exact ih hp.2

/-! ## Lengths of matches -/

/-- The lengths of the matches at the start of a text, in order of preference. -/
def lengths (p : Pattern) (t : Text) : List Nat := (p.ends (.start t)).map (distance (.start t))

theorem rest_eq_drop_of_mem_ends (h : d ∈ p.ends c) : d.rest = c.rest.drop (distance c d) := by
  obtain ⟨t, ht⟩ := passes_of_mem_ends p c d h
  rw [distance, ht, List.length_append, Nat.add_sub_cancel, List.drop_left]

theorem distance_le_of_mem_lengths {t : Text} {n : Nat} (h : n ∈ p.lengths t) : n ≤ t.length := by
  obtain ⟨d, -, rfl⟩ := List.mem_map.mp h
  exact Nat.sub_le _ _

theorem pos_of_mem_lengths (hp : p.consumes = true) {t : Text} {n : Nat} (h : n ∈ p.lengths t) :
    0 < n := by
  obtain ⟨d, hd, rfl⟩ := List.mem_map.mp h
  exact Nat.sub_pos_of_lt (length_lt_of_consumes p hp _ d hd)

/-- The lengths of the matches do not depend on what stands before them. -/
theorem map_distance_ends (hp : p.isSelfContained = true) (c : Cursor) :
    (p.ends c).map (distance c) = p.lengths c.rest := by
  have hends := forall₂_ends (ignoresBefore_of_isSelfContained hp)
    (show c.rest = (Cursor.start c.rest).rest from rfl)
  have hdistance : ∀ {es fs : List Cursor},
      List.Forall₂ (SameOrStill c (.start c.rest)) es fs →
        es.map (distance c) = fs.map (distance (.start c.rest)) := by
    intro es fs h
    induction h with
    | nil => rfl
    | cons head _ ih =>
      rw [List.map_cons, List.map_cons, ih]
      rcases head with rfl | ⟨rfl, rfl⟩
      · rfl
      · exact congrArg (· :: _) ((Nat.sub_self _).trans (Nat.sub_self _).symm)
  exact hdistance hends

/-- The lengths of the matches of one pattern after another, given those of the first. -/
def lengthsAfter (q : Pattern) (t : Text) (n : Nat) : List Nat :=
  (q.lengths (t.drop n)).map (n + ·)

theorem map_distance_flatMap (hq : q.isSelfContained = true) (c : Cursor) :
    ((p.ends c).flatMap q.ends).map (distance c) =
      ((p.ends c).map (distance c)).flatMap (lengthsAfter q c.rest) := by
  rw [List.map_flatMap, List.flatMap_map, List.flatMap_def, List.flatMap_def]
  refine congrArg List.flatten (List.map_congr_left fun d hd => ?_)
  rw [lengthsAfter, ← rest_eq_drop_of_mem_ends hd, ← map_distance_ends hq, List.map_map]
  refine List.map_congr_left fun e he => ?_
  have hde := (passes_of_mem_ends q d e he).length_le
  have hcd := (passes_of_mem_ends p c d hd).length_le
  simp only [distance, Function.comp_apply]
  omega

theorem lengths_seq (hq : q.isSelfContained = true) (t : Text) :
    (seq p q).lengths t = (p.lengths t).flatMap (lengthsAfter q t) :=
  map_distance_flatMap hq (.start t)

theorem lengths_or (t : Text) : (or p q).lengths t = p.lengths t ++ q.lengths t := List.map_append

theorem lengths_many (hp : (many p).isSelfContained = true) (t : Text) :
    (many p).lengths t = (p.lengths t).flatMap (lengthsAfter (many p) t) ++ [0] := by
  have hconsumes : p.consumes = true := ((Bool.and_eq_true _ _).mp hp).1
  rw [lengths, ends_many hconsumes, List.map_append, map_distance_flatMap hp]
  exact congrArg (_ ++ [·]) (Nat.sub_self _)

/-! ## Lengths up to a bound -/

theorem filter_flatMap_lengthsAfter (q : Pattern) (t : Text) (ns : List Nat) (bound : Nat) :
    (ns.flatMap (lengthsAfter q t)).filter (· ≤ bound) =
      (ns.filter (· ≤ bound)).flatMap fun n =>
        ((q.lengths (t.drop n)).filter (· ≤ bound - n)).map (n + ·) := by
  induction ns with
  | nil => rfl
  | cons n ns ih =>
    rw [List.flatMap_cons, List.filter_append, ih, lengthsAfter, List.filter_map]
    by_cases hn : n ≤ bound
    · have hsame : ((fun m => decide (m ≤ bound)) ∘ fun m => n + m) =
          fun m => decide (m ≤ bound - n) := by
        funext m
        have hle : n + m ≤ bound ↔ m ≤ bound - n := by omega
        exact decide_eq_decide.mpr hle
      rw [List.filter_cons_of_pos (by simpa using hn), List.flatMap_cons, hsame]
    · have hnone : (q.lengths (t.drop n)).filter
          ((fun m => decide (m ≤ bound)) ∘ fun m => n + m) = [] := by
        refine List.filter_eq_nil_iff.mpr fun m _ => ?_
        simp only [Function.comp_apply, decide_eq_true_eq]
        omega
      rw [List.filter_cons_of_neg (by simpa using hn), hnone]
      rfl

/-- One pattern after another has the same matches within a common start, if each has. -/
theorem filter_flatMap_eq {ns ms : List Nat} {u v w : Text}
    (hns : ns.filter (· ≤ u.length) = ms.filter (· ≤ u.length))
    (hq : ∀ n ∈ ns, n ≤ u.length →
      (q.lengths (u.drop n ++ v)).filter (· ≤ (u.drop n).length) =
        (q.lengths (u.drop n ++ w)).filter (· ≤ (u.drop n).length)) :
    (ns.flatMap (lengthsAfter q (u ++ v))).filter (· ≤ u.length) =
      (ms.flatMap (lengthsAfter q (u ++ w))).filter (· ≤ u.length) := by
  rw [filter_flatMap_lengthsAfter, filter_flatMap_lengthsAfter, ← hns, List.flatMap_def,
    List.flatMap_def]
  refine congrArg List.flatten (List.map_congr_left fun n hn => ?_)
  obtain ⟨hmem, hle⟩ := List.mem_filter.mp hn
  have hle : n ≤ u.length := of_decide_eq_true hle
  have hsame := hq n hmem hle
  rw [List.length_drop] at hsame
  rw [List.drop_append_of_le_length hle, List.drop_append_of_le_length hle, hsame]

/-- Two texts with a common start have the same matches within it. -/
theorem filter_lengths_append (hp : p.isSelfContained = true) : ∀ u v w : Text,
    (p.lengths (u ++ v)).filter (· ≤ u.length) = (p.lengths (u ++ w)).filter (· ≤ u.length) := by
  induction p with
  | empty =>
    intro u v w
    simp [lengths, ends, distance]
  | one accept =>
    intro u v w
    cases u with
    | nil =>
      -- A match of one character is not within the empty text.
      have hnone : ∀ t, ((one accept).lengths t).filter (· ≤ 0) = [] := by
        intro t
        refine List.filter_eq_nil_iff.mpr fun n hn => ?_
        have := pos_of_mem_lengths (p := one accept) rfl hn
        simp only [decide_eq_true_eq]
        omega
      exact (hnone v).trans (hnone w).symm
    | cons x u =>
      by_cases hx : accept x = true
      · simp [lengths, ends, Cursor.start, distance, hx]
      · simp [lengths, ends, Cursor.start, hx]
  | place | ahead | few => cases hp
  | seq p q ihp ihq =>
    rw [isSelfContained, Bool.and_eq_true] at hp
    intro u v w
    rw [lengths_seq hp.2, lengths_seq hp.2]
    exact filter_flatMap_eq (ihp hp.1 u v w) fun n _ _ => ihq hp.2 (u.drop n) v w
  | or p q ihp ihq =>
    rw [isSelfContained, Bool.and_eq_true] at hp
    intro u v w
    rw [lengths_or, lengths_or, List.filter_append, List.filter_append, ihp hp.1 u v w,
      ihq hp.2 u v w]
  | many p ih =>
    obtain ⟨hconsumes, hp'⟩ := (Bool.and_eq_true _ _).mp hp
    intro u
    -- After a match of the body less of the common start is left.
    obtain ⟨n, hn⟩ : ∃ n, u.length = n := ⟨_, rfl⟩
    induction n using Nat.strongRecOn generalizing u with
    | ind n ihn =>
      intro v w
      rw [lengths_many hp, lengths_many hp, List.filter_append, List.filter_append]
      refine congrArg (· ++ _) (filter_flatMap_eq (ih hp' u v w) fun m hm hle => ?_)
      have hpos := pos_of_mem_lengths hconsumes hm
      exact ihn (n - m) (by omega) (u.drop m) (by rw [List.length_drop, hn]) v w

end Pattern

end ReplCore
