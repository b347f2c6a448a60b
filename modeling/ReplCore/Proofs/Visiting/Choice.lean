import Mathlib.Data.List.Forall2
import ReplCore.Visiting.Visitor

/-!
# Choices between visitors

A choice tries its visitors in order up to the first that is not refused, each in the state that
those before it leave. If they are refused without an effect, the choice is that visitor.

* `alt_of_refused`, `alt_of_ne_refused`: which visitor decides.
* `forall₂_each`: visiting several nodes gives a result for each and keeps what every visit keeps.
-/

namespace ReplCore.Visitor

variable {σ ε ν α : Type}

/-! ## Several nodes -/

/-- A visit of nodes whose first visit gives a result. -/
theorem each_cons {v : Visitor σ ε ν α} {n : ν} {ns : List ν} {a : α} {as : List α} {s s' s'' : σ}
    (h : v n s = (.result a, s')) (hmore : v.each ns s' = (.result as, s'')) :
    v.each (n :: ns) s = (.result (a :: as), s'') := by
  simp only [each, h, hmore, Outcome.map]

/-- A visit of nodes that all give results without an effect. -/
theorem each_eq_map {v : Visitor σ ε ν α} {f : ν → α} {s : σ} :
    ∀ {ns : List ν}, (∀ n ∈ ns, v n s = (.result (f n), s)) →
      v.each ns s = (.result (ns.map f), s)
  | [], _ => rfl
  | n :: _, h =>
    each_cons (h n List.mem_cons_self) (each_eq_map fun m hm => h m (List.mem_cons_of_mem n hm))

/-- If every visit gives a result and keeps `I`, so does a visit of several nodes, and what holds of
each node and its result holds of all. -/
theorem forall₂_each {I : σ → Prop} {P : ν → α → Prop} {v : Visitor σ ε ν α}
    (h : ∀ n s, I s → ∃ a s', v n s = (.result a, s') ∧ P n a ∧ I s') :
    ∀ (ns : List ν) (s : σ), I s →
      ∃ as s', v.each ns s = (.result as, s') ∧ List.Forall₂ P ns as ∧ I s'
  | [], s, hs => ⟨[], s, rfl, .nil, hs⟩
  | n :: ns, s, hs => by
    obtain ⟨a, s₁, hvisit, ha, hs₁⟩ := h n s hs
    obtain ⟨as, s₂, hmore, has, hs₂⟩ := forall₂_each h ns s₁ hs₁
    exact ⟨a :: as, s₂, each_cons hvisit hmore, .cons ha has, hs₂⟩

/-! ## Several visitors -/

/-- Visitors that come to the same at a node may be tried in place of each other. -/
theorem alt_congr {n : ν} {s s' : σ} {ws : List (Visitor σ ε ν α)} :
    ∀ {v v' : Visitor σ ε ν α}, v n s = v' n s' → v.alt ws n s = v'.alt ws n s' := by
  induction ws with
  | nil => exact fun h => h
  | cons w ws ih =>
    intro v v' h
    refine ih ?_
    rw [choice, choice, h]

/-- The visitors after one that is refused are tried in the state that it leaves. -/
theorem alt_cons_of_refused {v w : Visitor σ ε ν α} {ws : List (Visitor σ ε ν α)} {n : ν}
    {s s' : σ} (h : v n s = (.refused, s')) : v.alt (w :: ws) n s = w.alt ws n s' := by
  have hchoice : v.choice w n s = w n s' := by rw [choice, h]
  exact alt_congr hchoice

theorem alt_of_refused {v w : Visitor σ ε ν α} {ws : List (Visitor σ ε ν α)} {n : ν} {s : σ}
    (h : v n s = (.refused, s)) : v.alt (w :: ws) n s = w.alt ws n s := alt_cons_of_refused h

/-- A visitor that is not refused decides. -/
theorem alt_of_ne_refused {n : ν} {s : σ} {ws : List (Visitor σ ε ν α)} :
    ∀ {v : Visitor σ ε ν α}, (v n s).1 ≠ .refused → v.alt ws n s = v n s := by
  induction ws with
  | nil => exact fun _ => rfl
  | cons w ws ih =>
    intro v h
    have hchoice : v.choice w n s = v n s := by
      unfold choice
      split
      · next s' hrefused => exact absurd (congrArg Prod.fst hrefused) h
      · rfl
    exact (ih (hchoice ▸ h)).trans hchoice

theorem alt_of_result {v : Visitor σ ε ν α} {n : ν} {s s' : σ} {a : α}
    {ws : List (Visitor σ ε ν α)} (h : v n s = (.result a, s')) :
    v.alt ws n s = (.result a, s') := by
  rw [alt_of_ne_refused (by simp [h]), h]

end ReplCore.Visitor
