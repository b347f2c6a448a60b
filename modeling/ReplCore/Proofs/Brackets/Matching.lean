import ReplCore.Proofs.Brackets.Forest

/-!
# The other end of a pair

No place is an end of two pairs, so the first pair that is found at a place is the only one there,
and each end of it leads to the other.

* `matching?_eq_some_iff`: two places match just if they are the ends of a reported pair.
* `matching?_involutive`: matching leads back to where it started.
-/

namespace ReplCore

/-- Both characters of a pair take part in pairs. -/
theorem PairKind.mem_characters (k : PairKind) :
    k.opening ∈ characters ∧ k.closing ∈ characters := by
  cases k <;> decide

namespace Brackets

variable {t : Text}

/-- A place is an end of one pair only. -/
theorem eq_of_end {mode : Mode} {position : Int} {p q : BracketSpan} (hp : p ∈ spans mode t)
    (hq : q ∈ spans mode t) (hpend : position = p.start ∨ position = p.stop)
    (hqend : position = q.start ∨ position = q.stop) : p = q := by
  have hpstands := standsIn_of_mem_spans p hp
  have hqstands := standsIn_of_mem_spans q hq
  rcases eq_or_precedes (pairwise_spans mode t) hp hq with h | h | h
  · exact h
  · have := h.ends_ne hpstands hqstands
    omega
  · have := h.ends_ne hqstands hpstands
    omega

theorem matching?_eq_some_iff {position : Int} {q : Nat} : matching? t position = some q ↔
    ∃ b ∈ spans .includingMismatches t,
      (position = b.start ∧ q = b.stop) ∨ (position = b.stop ∧ q = b.start) := by
  rw [matching?, Option.map_eq_some_iff]
  constructor
  · rintro ⟨b, hb, rfl⟩
    refine ⟨b, List.mem_of_find?_eq_some hb, ?_⟩
    have hend : position = b.start ∨ position = b.stop := by simpa using List.find?_some hb
    split
    · next hstart => exact Or.inl ⟨hstart, rfl⟩
    · next hstart => exact Or.inr ⟨hend.resolve_left hstart, rfl⟩
  · rintro ⟨b, hb, hends⟩
    have hend : position = b.start ∨ position = b.stop := hends.imp And.left And.left
    obtain ⟨b', hb'⟩ : ∃ b', (spans .includingMismatches t).find? (fun s =>
        position = s.start ∨ position = s.stop) = some b' :=
      Option.isSome_iff_exists.mp (List.find?_isSome.mpr ⟨b, hb, decide_eq_true hend⟩)
    have hend' : position = b'.start ∨ position = b'.stop := by simpa using List.find?_some hb'
    obtain rfl := eq_of_end (List.mem_of_find?_eq_some hb') hb hend' hend
    refine ⟨b', hb', ?_⟩
    have hlt := start_lt_stop_of_mem_spans b' hb
    rcases hends with ⟨hposition, rfl⟩ | ⟨hposition, rfl⟩
    · rw [if_pos hposition]
    · rw [if_neg (by omega)]

/-- The place that matches another one is another place of the text, both have characters that take
part in pairs, and it is matched by the first place. A place outside of the text has no match. -/
theorem matching?_involutive (t : Text) (position : Int) :
    (∀ q : Nat, matching? t position = some q → ∃ p : Nat, position = p ∧ p ≠ q ∧
      (∃ c ∈ PairKind.characters, t[p]? = some c) ∧
      (∃ c ∈ PairKind.characters, t[q]? = some c) ∧ matching? t q = some p) ∧
    (position < 0 ∨ t.length ≤ position → matching? t position = none) := by
  constructor
  · intro q hq
    obtain ⟨b, hb, hends⟩ := matching?_eq_some_iff.mp hq
    have hlt := start_lt_stop_of_mem_spans b hb
    obtain ⟨hopening, hclosing, -⟩ := (standsIn_of_mem_spans b hb).characters
    have hstart := And.intro b.kind.mem_characters.1 hopening
    have hstop := And.intro b.kind.mem_characters.2 hclosing
    rcases hends with ⟨rfl, rfl⟩ | ⟨rfl, rfl⟩
    · exact ⟨b.start, rfl, Nat.ne_of_lt hlt, ⟨_, hstart⟩, ⟨_, hstop⟩,
        matching?_eq_some_iff.mpr ⟨b, hb, Or.inr ⟨rfl, rfl⟩⟩⟩
    · exact ⟨b.stop, rfl, Nat.ne_of_gt hlt, ⟨_, hstop⟩, ⟨_, hstart⟩,
        matching?_eq_some_iff.mpr ⟨b, hb, Or.inl ⟨rfl, rfl⟩⟩⟩
  · intro houtside
    refine Option.eq_none_iff_forall_ne_some.mpr fun q hq => ?_
    obtain ⟨b, hb, hends⟩ := matching?_eq_some_iff.mp hq
    have hlt := start_lt_stop_of_mem_spans b hb
    have hstop := stop_lt_of_mem_spans b hb
    omega

/-- The brackets of a pair that closes over one without a closer. -/
theorem matching?_involutive_mismatch :
    matching? "([)]".toList 0 = some 2 ∧ matching? "([)]".toList 2 = some 0 ∧
      matching? "([)]".toList 4 = none := by
  have h : matching? "([)]".toList 0 = some 2 := by decide
  obtain ⟨p, hp, -, -, -, hback⟩ := (matching?_involutive "([)]".toList 0).1 2 h
  obtain rfl : p = 0 := by omega
  exact ⟨h, hback, (matching?_involutive "([)]".toList 4).2 (Or.inr (by decide))⟩

end Brackets

end ReplCore
