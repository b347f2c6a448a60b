import ReplCore.Proofs.Pattern.Ends

/-!
# What matches begin and end with and what they leave alone

Which characters a match can begin or end with, and which it can never pass over, shows in the
pattern.

* `canBegin_of_spans`, `canEnd_of_spans`: a match begins and ends with characters that the pattern
  can begin and end with.
* `not_mem_of_avoids`: a match passes over none of the characters that the pattern avoids.
-/

namespace ReplCore.Pattern

open Cursor

/-- Whether a match may begin with the character `x`. -/
def canBegin (x : Char) : Pattern → Bool
  | empty | place _ | ahead _ => false
  | one accept => accept x
  | seq p q => canBegin x p || (!consumes p && canBegin x q)
  | or p q => canBegin x p || canBegin x q
  | many p | few p => canBegin x p

/-- Whether a match may end with the character `x`. -/
def canEnd (x : Char) : Pattern → Bool
  | empty | place _ | ahead _ => false
  | one accept => accept x
  | seq p q => canEnd x q || (!consumes q && canEnd x p)
  | or p q => canEnd x p || canEnd x q
  | many p | few p => canEnd x p

/-- Whether matches pass over none of the characters `xs`. -/
def avoids (xs : Text) : Pattern → Bool
  | empty | place _ | ahead _ => true
  | one accept => xs.all fun x => !accept x
  | seq p q | or p q => avoids xs p && avoids xs q
  | many p | few p => avoids xs p

theorem exists_spans_of_avoids {xs : Text} {p : Pattern} (hp : p.avoids xs = true) :
    ∀ c d, d ∈ p.ends c → ∃ t, Spans c t d ∧ ∀ x ∈ t, x ∉ xs := by
  have happend : ∀ t u : Text, (∀ x ∈ t, x ∉ xs) → (∀ x ∈ u, x ∉ xs) → ∀ x ∈ t ++ u, x ∉ xs :=
    fun t u ht hu x hx => (List.mem_append.mp hx).elim (ht x) (hu x)
  induction p with
  | empty =>
    intro c d h
    rw [List.mem_singleton.mp h]
    exact ⟨[], .refl c, by simp⟩
  | one accept =>
    intro c d h
    obtain ⟨x, hx, hspans⟩ := mem_ends_one.mp h
    refine ⟨[x], hspans, fun y hy hmem => ?_⟩
    rw [List.mem_singleton.mp hy] at hmem
    simpa [hx] using List.all_eq_true.mp hp x hmem
  | place condition =>
    intro c d h
    obtain ⟨-, rfl⟩ := mem_ends_place.mp h
    exact ⟨[], .refl d, by simp⟩
  | ahead p _ =>
    intro c d h
    obtain ⟨-, rfl⟩ := mem_ends_ahead.mp h
    exact ⟨[], .refl d, by simp⟩
  | seq p q ihp ihq =>
    intro c d h
    rw [avoids, Bool.and_eq_true] at hp
    obtain ⟨e, he, hd⟩ := mem_ends_seq.mp h
    obtain ⟨t, ht, hxs⟩ := ihp hp.1 c e he
    obtain ⟨u, hu, hxs'⟩ := ihq hp.2 e d hd
    exact ⟨t ++ u, ht.trans hu, happend t u hxs hxs'⟩
  | or p q ihp ihq =>
    intro c d h
    rw [avoids, Bool.and_eq_true] at hp
    rcases mem_ends_or.mp h with h | h
    · exact ihp hp.1 c d h
    · exact ihq hp.2 c d h
  | many p ih => exact fun c d => spans_of_mem_repeatEnds (by simp) happend (ih hp) c.rest c d
  | few p ih => exact fun c d => spans_of_mem_repeatEndsFew (by simp) happend (ih hp) c.rest c d

theorem head?_append {P : Char → Prop} {t u : Text} (ht : ∀ x ∈ t.head?, P x)
    (hu : ∀ x ∈ u.head?, P x) : ∀ x ∈ (t ++ u).head?, P x := by
  cases t with
  | nil => exact hu
  | cons y t => exact ht

/-- A pattern that matches the empty text does not consume text everywhere. -/
theorem consumes_eq_false_of_spans_nil {p : Pattern} {c d : Cursor} (h : d ∈ p.ends c)
    (hspans : Spans c [] d) : p.consumes = false := by
  refine Bool.eq_false_iff.mpr fun hp => ?_
  have hlt := length_lt_of_consumes p hp c d h
  rw [hspans.unique (.refl c)] at hlt
  exact Nat.lt_irrefl _ hlt

theorem exists_spans_of_canBegin (p : Pattern) :
    ∀ c d, d ∈ p.ends c → ∃ t, Spans c t d ∧ ∀ x ∈ t.head?, p.canBegin x = true := by
  induction p with
  | empty =>
    intro c d h
    rw [List.mem_singleton.mp h]
    exact ⟨[], .refl c, by simp⟩
  | one accept =>
    intro c d h
    obtain ⟨x, hx, hspans⟩ := mem_ends_one.mp h
    exact ⟨[x], hspans, by simpa [canBegin] using hx⟩
  | place condition =>
    intro c d h
    obtain ⟨-, rfl⟩ := mem_ends_place.mp h
    exact ⟨[], .refl d, by simp⟩
  | ahead p _ =>
    intro c d h
    obtain ⟨-, rfl⟩ := mem_ends_ahead.mp h
    exact ⟨[], .refl d, by simp⟩
  | seq p q ihp ihq =>
    intro c d h
    obtain ⟨e, he, hd⟩ := mem_ends_seq.mp h
    obtain ⟨t, ht, hbegin⟩ := ihp c e he
    obtain ⟨u, hu, hbegin'⟩ := ihq e d hd
    refine ⟨t ++ u, ht.trans hu, fun x hx => ?_⟩
    cases t with
    | nil => simp [canBegin, consumes_eq_false_of_spans_nil he ht, hbegin' x hx]
    | cons y t => simp [canBegin, hbegin x (by simpa using hx)]
  | or p q ihp ihq =>
    intro c d h
    rcases mem_ends_or.mp h with h | h
    · obtain ⟨t, ht, hbegin⟩ := ihp c d h
      exact ⟨t, ht, fun x hx => by simp [canBegin, hbegin x hx]⟩
    · obtain ⟨t, ht, hbegin⟩ := ihq c d h
      exact ⟨t, ht, fun x hx => by simp [canBegin, hbegin x hx]⟩
  | many p ih =>
    exact fun c d => spans_of_mem_repeatEnds (by simp) (fun t u => head?_append) ih c.rest c d
  | few p ih =>
    exact fun c d => spans_of_mem_repeatEndsFew (by simp) (fun t u => head?_append) ih c.rest c d

/-- A match begins with a character that the pattern can begin with. -/
theorem canBegin_of_spans {p : Pattern} {c d : Cursor} {x : Char} {t : Text} (h : d ∈ p.ends c)
    (hspans : Spans c (x :: t) d) : p.canBegin x = true := by
  obtain ⟨u, hu, hbegin⟩ := exists_spans_of_canBegin p c d h
  rw [← hu.upTo_eq, hspans.upTo_eq] at hbegin
  exact hbegin x rfl

theorem getLast?_append {P : Char → Prop} {t u : Text} (ht : ∀ x ∈ t.getLast?, P x)
    (hu : ∀ x ∈ u.getLast?, P x) : ∀ x ∈ (t ++ u).getLast?, P x := by
  intro x hx
  rw [List.getLast?_append] at hx
  rcases Option.or_eq_some_iff.mp hx with hx | ⟨-, hx⟩
  · exact hu x hx
  · exact ht x hx

theorem exists_spans_of_canEnd (p : Pattern) :
    ∀ c d, d ∈ p.ends c → ∃ t, Spans c t d ∧ ∀ x ∈ t.getLast?, p.canEnd x = true := by
  induction p with
  | empty =>
    intro c d h
    rw [List.mem_singleton.mp h]
    exact ⟨[], .refl c, by simp⟩
  | one accept =>
    intro c d h
    obtain ⟨x, hx, hspans⟩ := mem_ends_one.mp h
    exact ⟨[x], hspans, by simpa [canEnd] using hx⟩
  | place condition =>
    intro c d h
    obtain ⟨-, rfl⟩ := mem_ends_place.mp h
    exact ⟨[], .refl d, by simp⟩
  | ahead p _ =>
    intro c d h
    obtain ⟨-, rfl⟩ := mem_ends_ahead.mp h
    exact ⟨[], .refl d, by simp⟩
  | seq p q ihp ihq =>
    intro c d h
    obtain ⟨e, he, hd⟩ := mem_ends_seq.mp h
    obtain ⟨t, ht, hend⟩ := ihp c e he
    obtain ⟨u, hu, hend'⟩ := ihq e d hd
    refine ⟨t ++ u, ht.trans hu, fun x hx => ?_⟩
    rw [List.getLast?_append] at hx
    rcases Option.or_eq_some_iff.mp hx with hx | ⟨hnone, hx⟩
    · simp [canEnd, hend' x hx]
    · rw [List.getLast?_eq_none_iff.mp hnone] at hu
      simp [canEnd, consumes_eq_false_of_spans_nil hd hu, hend x hx]
  | or p q ihp ihq =>
    intro c d h
    rcases mem_ends_or.mp h with h | h
    · obtain ⟨t, ht, hend⟩ := ihp c d h
      exact ⟨t, ht, fun x hx => by simp [canEnd, hend x hx]⟩
    · obtain ⟨t, ht, hend⟩ := ihq c d h
      exact ⟨t, ht, fun x hx => by simp [canEnd, hend x hx]⟩
  | many p ih =>
    exact fun c d => spans_of_mem_repeatEnds (by simp) (fun t u => getLast?_append) ih c.rest c d
  | few p ih =>
    exact fun c d =>
      spans_of_mem_repeatEndsFew (by simp) (fun t u => getLast?_append) ih c.rest c d

/-- A match ends with a character that the pattern can end with. -/
theorem canEnd_of_spans {p : Pattern} {c d : Cursor} {x : Char} {t : Text} (h : d ∈ p.ends c)
    (hspans : Spans c t d) (hx : t.getLast? = some x) : p.canEnd x = true := by
  obtain ⟨u, hu, hend⟩ := exists_spans_of_canEnd p c d h
  rw [← hu.upTo_eq, hspans.upTo_eq] at hend
  exact hend x hx

/-- A match passes over none of the characters that the pattern avoids. -/
theorem not_mem_of_avoids {xs : Text} {p : Pattern} (hp : p.avoids xs = true) {c d : Cursor}
    {t : Text} (h : d ∈ p.ends c) (hspans : Spans c t d) : ∀ x ∈ t, x ∉ xs := by
  obtain ⟨u, hu, havoids⟩ := exists_spans_of_avoids hp c d h
  rw [← hu.upTo_eq, hspans.upTo_eq] at havoids
  exact havoids

end ReplCore.Pattern
