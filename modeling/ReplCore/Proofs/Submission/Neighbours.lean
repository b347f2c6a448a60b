import ReplCore.Proofs.Submission.Cutting

/-!
# What stands next to the tokens of a statement

A statement drops the white space and the comments between its tokens. So next to one of its tokens
in the source stands the one that is next to it in the statement, or a token that separates.

* `Cuts.standsApart`: a statement has nothing but separating tokens next to it.
* `StandsApart.exists_neighbours`: what stands before and after a token of a statement.
-/

namespace ReplCore.Submission

/-! ## Around a statement -/

/-- A statement is a stretch of the tokens with nothing but a separating token next to it. -/
def StandsApart (ts group : List Token) : Prop :=
  ∃ earlier raw later, ts = earlier ++ (raw ++ later) ∧ Stretch raw group ∧
    (∀ p ∈ earlier.getLast?, p.separates = true) ∧ ∀ q ∈ later.head?, q.separates = true

theorem Gap.separates_of_getLast? {gap : List Token} (h : Gap gap) :
    ∀ p ∈ gap.getLast?, p.separates = true := fun p hp => h p (List.mem_of_getLast? hp)

theorem Gap.separates_of_head? {gap : List Token} (h : Gap gap) :
    ∀ q ∈ gap.head?, q.separates = true := fun q hq => h q (List.mem_of_head? hq)

/-- The last element of two lists is that of the second, or of the first if that is empty. -/
theorem forall_getLast?_append {α : Type} {P : α → Prop} {as bs : List α}
    (has : bs = [] → ∀ a ∈ as.getLast?, P a) (hbs : ∀ b ∈ bs.getLast?, P b) :
    ∀ a ∈ (as ++ bs).getLast?, P a := by
  cases bs with
  | nil => simpa using has rfl
  | cons b bs => simpa [List.getLast?_append, List.getLast?_cons] using hbs

/-- The first element of two lists is that of the first, or of the second if that is empty. -/
theorem forall_head?_append {α : Type} {P : α → Prop} {as bs : List α}
    (has : ∀ a ∈ as.head?, P a) (hbs : as = [] → ∀ b ∈ bs.head?, P b) :
    ∀ a ∈ (as ++ bs).head?, P a := by
  cases as with
  | nil => simpa using hbs rfl
  | cons a as => simpa using has

theorem Interleaved.standsApart {ts : List Token} {groups : List (List Token)}
    (h : Interleaved ts groups) : ∀ group ∈ groups, StandsApart ts group := by
  induction h with
  | nil => simp
  | @cons raw gap rest group groups stretch isGap nonempty _ ih =>
    intro group' hgroup
    rcases List.mem_cons.mp hgroup with rfl | hgroup
    · refine ⟨[], raw, gap ++ rest, rfl, stretch, by simp, ?_⟩
      refine forall_head?_append isGap.separates_of_head? fun hgap => ?_
      rw [nonempty hgap]
      simp
    · obtain ⟨earlier, raw', later, rfl, hstretch, hearlier, hlater⟩ := ih group' hgroup
      refine ⟨raw ++ (gap ++ earlier), raw', later, by simp, hstretch, ?_, hlater⟩
      rw [← List.append_assoc]
      refine forall_getLast?_append (fun _ => ?_) hearlier
      refine forall_getLast?_append (fun hgap => ?_) isGap.separates_of_getLast?
      have := nonempty hgap
      simp [hstretch.raw_ne_nil] at this

theorem Cuts.standsApart {ts : List Token} {groups : List (List Token)} (h : Cuts ts groups)
    {group : List Token} (hgroup : group ∈ groups) : StandsApart ts group := by
  obtain ⟨gap, rest, rfl, hgap, hrest⟩ := h.exists_append
  obtain ⟨earlier, raw, later, rfl, hstretch, hearlier, hlater⟩ := hrest.standsApart group hgroup
  refine ⟨gap ++ earlier, raw, later, by simp, hstretch, ?_, hlater⟩
  exact forall_getLast?_append (fun _ => hgap.separates_of_getLast?) hearlier

/-! ## Within a statement -/

/-- The tokens of a statement keep their order. -/
theorem StandsApart.sublist {ts group : List Token} (h : StandsApart ts group) :
    group.Sublist ts := by
  obtain ⟨earlier, raw, later, rfl, hstretch, -, -⟩ := h
  rw [← hstretch.kept]
  exact (List.filter_sublist.trans (List.sublist_append_left raw later)).trans
    (List.sublist_append_right earlier _)

theorem StandsApart.ne_nil {ts group : List Token} (h : StandsApart ts group) : group ≠ [] := by
  obtain ⟨earlier, raw, later, -, hstretch, -, -⟩ := h
  exact hstretch.ne_nil

/-- Next to a token of a statement stands its neighbour in the statement, a token that separates, or
nothing. -/
theorem StandsApart.exists_neighbours {ts a b : List Token} {t : Token}
    (h : StandsApart ts (a ++ t :: b)) : ∃ before after, ts = before ++ t :: after ∧
      (∀ p ∈ before.getLast?, p.separates = true ∨ a.getLast? = some p) ∧
      ∀ q ∈ after.head?, q.separates = true ∨ b.head? = some q := by
  obtain ⟨earlier, raw, later, rfl, hstretch, hearlier, hlater⟩ := h
  obtain ⟨us, vs, rfl, hus, hvs⟩ := List.filter_eq_append_iff.mp hstretch.kept
  obtain ⟨gap, ws, rfl, hgap, -, hws⟩ := List.filter_eq_cons_iff.mp hvs
  refine ⟨earlier ++ (us ++ gap), ws ++ later, by simp, ?_, ?_⟩
  · refine forall_getLast?_append (fun _ p hp => Or.inl (hearlier p hp)) ?_
    refine forall_getLast?_append (fun _ p hp => ?_) fun p hp => ?_
    · obtain ⟨us', rfl⟩ := List.getLast?_eq_some_iff.mp hp
      by_cases hignored : p.isIgnored = true
      · exact Or.inl (Token.separates_of_isIgnored hignored)
      · right
        rw [← hus]
        simp [List.filter_append, hignored]
    · have := hgap p (List.mem_of_getLast? hp)
      exact Or.inl (Token.separates_of_isIgnored (by simpa using this))
  · refine forall_head?_append (fun q hq => ?_) fun _ q hq => Or.inl (hlater q hq)
    obtain ⟨ws', rfl⟩ := List.head?_eq_some_iff.mp hq
    by_cases hignored : q.isIgnored = true
    · exact Or.inl (Token.separates_of_isIgnored hignored)
    · right
      rw [← hws]
      simp [hignored]

end ReplCore.Submission
