import ReplCore.Proofs.Submission.Balance

/-!
# Targets of declarations

What a declaration binds is a name or a pattern in braces or square brackets. The reader of a
pattern counts the brackets of that kind alone. In tokens that close all that they open that is
enough: it passes over everything balanced, so it stops at the bracket that belongs to the first.

* `closing_append_of_balanced`: the reader passes over balanced tokens.
* `takesTarget_of_bindingTarget`: what it takes for a target is a whole name or a whole pattern.
-/

namespace ReplCore

namespace Opener

variable {o o' : Opener} {t : Token}

/-- A token is written at the beginning of one thing only. -/
theorem eq_of_opens (h : o.opens t = true) (h' : o'.opens t = true) : o = o' := by
  cases o <;> cases o' <;> first | rfl | skip
  all_goals
    simp only [opens, Token.isSymbol, Bool.and_eq_true, decide_eq_true_eq] at h h'
    simp_all

theorem eq_of_closes (h : o.closes t = true) (h' : o'.closes t = true) : o = o' := by
  cases o <;> cases o' <;> first | rfl | skip
  all_goals
    simp only [closes, Token.isSymbol, Bool.and_eq_true, decide_eq_true_eq] at h h'
    simp_all

/-- Only a backtick is written both at a beginning and at an end. -/
theorem eq_template_of_opens_of_closes (h : o.opens t = true) (h' : o'.closes t = true) :
    o = .template ∧ o' = .template := by
  cases o <;> cases o' <;> first | exact ⟨rfl, rfl⟩ | skip
  all_goals
    simp only [opens, closes, Token.isSymbol, Bool.and_eq_true, Bool.not_eq_true',
      decide_eq_true_eq] at h h'
    simp_all

end Opener

namespace Balanced

variable {o : Opener} {outer : Option Opener} {t : Token} {ts : List Token}

theorem of_neutral_cons (h : Balanced outer (t :: ts)) (ht : t.IsNeutral) : Balanced outer ts := by
  cases h with
  | neutral _ more => exact more
  | enclosed _ opens => simp [(ht _).1] at opens

/-- Balanced tokens that begin with an opener have the closer that belongs to it. -/
theorem exists_of_opens_cons (h : Balanced outer (t :: ts)) (ht : o.opens t = true) :
    ∃ inner u rest, ts = inner ++ u :: rest ∧ Balanced (some o) inner ∧ o.closes u = true ∧
      Balanced outer rest := by
  cases h with
  | neutral isNeutral => simp [(isNeutral o).1] at ht
  | enclosed _ opens within closes more =>
    obtain rfl := Opener.eq_of_opens ht opens
    exact ⟨_, _, _, rfl, within, closes, more⟩

end Balanced

namespace Submission

/-! ## Counting brackets of one kind -/

section

variable {opens closes : Token → Bool} {t : Token} {ts rest : List Token} {n : Nat}

theorem closing_of_opens (h : opens t = true) :
    closing opens closes n (t :: ts) = closing opens closes (n + 1) ts := by
  simp [closing, h]

theorem closing_of_closes (hopens : opens t = false) (h : closes t = true) (hn : 0 < n) :
    closing opens closes (n + 1) (t :: ts) = closing opens closes n ts := by
  simp [closing, hopens, h, Nat.ne_of_gt hn]

theorem closing_of_neither (hopens : opens t = false) (h : closes t = false) (hn : 0 < n) :
    closing opens closes n (t :: ts) = closing opens closes n ts := by
  simp [closing, hopens, h, Nat.ne_of_gt hn]

theorem closing_of_last (hopens : opens t = false) (h : closes t = true) :
    closing opens closes 1 (t :: ts) = some (t, ts) := by
  simp [closing, hopens, h]

end

variable {o : Opener} {outer : Option Opener} {ts us rest : List Token}

theorem opens_eq_false_of_closes {u : Token} (ho : o ≠ .template) (h : o.closes u = true) :
    o.opens u = false := by
  by_contra hopens
  exact ho (Opener.eq_template_of_opens_of_closes (by simpa using hopens) h).1

/-- The reader passes over balanced tokens with as many brackets open as before them. By induction
on the derivation: what is enclosed in the brackets that are counted is one level deeper. -/
theorem closing_append_of_balanced (ho : o ≠ .template) (h : Balanced outer ts) :
    ∀ {n : Nat}, 0 < n → ∀ rest,
      closing o.opens o.closes n (ts ++ rest) = closing o.opens o.closes n rest := by
  induction h with
  | nil => exact fun _ _ => rfl
  | neutral isNeutral _ ih =>
    intro n hn rest
    rw [List.cons_append, closing_of_neither (isNeutral o).1 (isNeutral o).2 hn]
    exact ih hn rest
  | @enclosed outer o' t inner u ts begins opens within closes more ihinner ih =>
    intro n hn rest
    rw [List.cons_append, List.append_assoc, List.cons_append]
    by_cases hkind : o' = o
    · subst hkind
      rw [closing_of_opens opens, ihinner (Nat.succ_pos n),
        closing_of_closes (opens_eq_false_of_closes ho closes) closes hn]
      exact ih hn rest
    · have hopens : o.opens t = false := by
        by_contra hopens
        exact hkind (Opener.eq_of_opens opens (by simpa using hopens))
      have hcloses : o.closes t = false := by
        by_contra hcloses
        exact ho (Opener.eq_template_of_opens_of_closes opens (by simpa using hcloses)).2
      have hopens' : o.opens u = false := by
        by_contra hopens'
        exact ho (Opener.eq_template_of_opens_of_closes (by simpa using hopens') closes).1
      have hcloses' : o.closes u = false := by
        by_contra hcloses'
        exact hkind (Opener.eq_of_closes closes (by simpa using hcloses'))
      rw [closing_of_neither hopens hcloses hn, ihinner hn, closing_of_neither hopens' hcloses' hn]
      exact ih hn rest

/-- A pattern, from its first bracket to the closer of that. -/
theorem bracketed_of_balanced {opener closer : String} {t u : Token}
    {inner : List Token}
    (hopens : ∀ t : Token, t.isSymbol opener = o.opens t)
    (hcloses : ∀ t : Token, t.isSymbol closer = o.closes t) (ho : o ≠ .template)
    (ht : o.opens t = true) (hinner : Balanced (some o) inner) (hu : o.closes u = true) :
    bracketed opener closer (t :: (inner ++ u :: rest)) = some ((t, u), rest) := by
  have htake : takeSymbol opener (t :: (inner ++ u :: rest)) = some (t, inner ++ u :: rest) := by
    have hsymbol : t.isSymbol opener = true := (hopens t).trans ht
    simpa [takeSymbol, takeKind, take, Token.isSymbol] using hsymbol
  have hclosing : closing (·.isSymbol opener) (·.isSymbol closer) 1 (inner ++ u :: rest) =
      some (u, rest) := by
    rw [funext hopens, funext hcloses, closing_append_of_balanced ho hinner Nat.one_pos,
      closing_of_last (opens_eq_false_of_closes ho hu) hu]
  simp [bracketed, htake, hclosing]

/-! ## Targets -/

/-- A name, or a pattern from its first bracket to the one that belongs to it. -/
inductive IsTarget : List Token → Prop
  | name {t : Token} (kind : t.kind = .name) : IsTarget [t]
  | pattern {o : Opener} {first last : Token} {inner : List Token}
      (isPattern : o = .curly ∨ o = .square) (opens : o.opens first = true)
      (within : Balanced (some o) inner) (closes : o.closes last = true) :
      IsTarget (first :: (inner ++ [last]))

theorem IsTarget.ne_nil {bound : List Token} (h : IsTarget bound) : bound ≠ [] := by
  cases h <;> exact List.cons_ne_nil _ _

/-- The target that was taken, with its ends, and the tokens after it. -/
def TakesTarget (ts : List Token) (ends : Token × Token) (rest : List Token) : Prop :=
  ∃ bound, ts = bound ++ rest ∧ IsTarget bound ∧ bound.head? = some ends.1 ∧
    bound.getLast? = some ends.2 ∧ Balanced none rest

theorem takesTarget_of_bracketed {opener closer : String} {ends : Token × Token}
    (hopens : ∀ t : Token, t.isSymbol opener = o.opens t)
    (hcloses : ∀ t : Token, t.isSymbol closer = o.closes t) (ho : o = .curly ∨ o = .square)
    (h : bracketed opener closer ts = some (ends, rest)) (hts : Balanced none ts) :
    TakesTarget ts ends rest := by
  obtain ⟨⟨first, us⟩, hfirst, -⟩ := Option.bind_eq_some_iff.mp h
  obtain ⟨rfl, hkind⟩ := takeSymbol_eq_some_iff.mp hfirst
  have hne : o ≠ .template := by rcases ho with rfl | rfl <;> decide
  have hbegins : o.opens first = true := by
    rw [← hopens, Token.isSymbol, hkind]
    exact decide_eq_true rfl
  obtain ⟨inner, u, more, rfl, hwithin, hends, hmore⟩ := hts.exists_of_opens_cons hbegins
  rw [bracketed_of_balanced hopens hcloses hne hbegins hwithin hends] at h
  obtain ⟨rfl, rfl⟩ := Prod.mk.inj (Option.some.inj h)
  refine ⟨first :: (inner ++ [u]), by simp, .pattern ho hbegins hwithin hends, rfl, ?_, hmore⟩
  rw [← List.cons_append]
  exact List.getLast?_concat

/-- What the reader takes for a target, in tokens that close all that they open, is a whole name or
a whole pattern. -/
theorem takesTarget_of_bindingTarget {ends : Token × Token}
    (h : bindingTarget ts = some (ends, rest)) (hts : Balanced none ts) :
    TakesTarget ts ends rest := by
  unfold bindingTarget at h
  split at h
  · next name rest' hname =>
    obtain ⟨rfl, rfl⟩ := Prod.mk.inj (Option.some.inj h)
    obtain ⟨rfl, hkind⟩ := takeKind_eq_some_iff.mp hname
    have hneutral : name.IsNeutral :=
      Token.isNeutral_of_kind (by simp [hkind]) (by simp [hkind]) (by simp [hkind])
    exact ⟨[name], rfl, .name hkind, rfl, rfl, hts.of_neutral_cons hneutral⟩
  · rcases Option.or_eq_some_iff.mp h with h | ⟨-, h⟩
    · exact takesTarget_of_bracketed (o := .curly) (fun _ => rfl) (fun _ => rfl) (.inl rfl) h hts
    · exact takesTarget_of_bracketed (o := .square) (fun _ => rfl) (fun _ => rfl) (.inr rfl) h hts

end Submission

end ReplCore
