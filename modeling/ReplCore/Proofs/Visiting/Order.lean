import ReplCore.Proofs.Visiting.Choice

/-!
# The order of visits

A choice between several visitors is built from choices between two, and however these are nested it
is a search for the first visitor that is not refused. A visit of all children of a node goes on up
to the first that gives no result. Which visits are made is told by a record to which every visit
adds.

* `alt_eq_of_search`, `each_eq_of_traversal`: what a choice and a visit of several nodes come to.
* `toVisitor_eq_alt`: how a choice is nested does not matter.
* `search_alt`: the order of visits in a choice and in a visit of all children.
-/

namespace ReplCore

/-- How a visit of several nodes ends after that of one of them gave no result. -/
inductive Outcome.Passed {ε α β : Type} : Outcome ε α → Outcome ε β → Prop
  | refused : Passed .refused .refused
  | failed (e : ε) : Passed (.failed e) (.failed e)

namespace Visitor

variable {σ ε ν μ α ι : Type}

/-- A visitor whose visits add a mark to a record. -/
def recording (mark : ν → ι) (v : Visitor σ ε ν α) : Visitor (σ × List ι) ε ν α := fun n s =>
  ((v n s.1).1, (v n s.1).2, s.2 ++ [mark n])

theorem recording_of_eq {mark : ν → ι} {v : Visitor σ ε ν α} {n : ν} {s s' : σ} {o : Outcome ε α}
    (h : v n s = (o, s')) (record : List ι) :
    v.recording mark n (s, record) = (o, s', record ++ [mark n]) := by
  rw [recording, h]

/-! ## Searches -/

/-- The visitors are all refused, one after the other, from the first state to the second. -/
inductive Refused (n : ν) : List (Visitor σ ε ν α) → σ → σ → Prop
  | nil {s} : Refused n [] s s
  | cons {v vs s s' s''} (refused : v n s = (.refused, s')) (more : Refused n vs s' s'') :
      Refused n (v :: vs) s s''

/-- A search among visitors, with the number of those that are visited: they are visited in order,
and the first that is not refused decides. -/
inductive Search (n : ν) : List (Visitor σ ε ν α) → σ → (visited : Nat) → Outcome ε α → σ → Prop
  | exhausted {s} : Search n [] s 0 .refused s
  | decided {v vs s o s'} (visit : v n s = (o, s')) (decides : o ≠ .refused) :
      Search n (v :: vs) s 1 o s'
  | next {v vs s s' visited o s''} (refused : v n s = (.refused, s'))
      (more : Search n vs s' visited o s'') : Search n (v :: vs) s (visited + 1) o s''

/-- Visitors that record their places, from the given one on. -/
def numbered : (first : Nat) → List (Visitor σ ε ν α) → List (Visitor (σ × List Nat) ε ν α)
  | _, [] => []
  | first, v :: vs => v.recording (fun _ => first) :: numbered (first + 1) vs

section

variable {n : ν} {s s' : σ} {visited : Nat} {o : Outcome ε α}

theorem exists_search (n : ν) (vs : List (Visitor σ ε ν α)) :
    ∀ s : σ, ∃ visited o s', Search n vs s visited o s' := by
  induction vs with
  | nil => exact fun s => ⟨0, _, _, .exhausted⟩
  | cons v vs ih =>
    intro s
    by_cases h : (v n s).1 = .refused
    · obtain ⟨visited, o, s', hmore⟩ := ih (v n s).2
      exact ⟨visited + 1, o, s', .next (Prod.ext h rfl) hmore⟩
    · exact ⟨1, _, _, .decided rfl h⟩

/-- A choice comes to what the search comes to. By induction on the visitors after the first, since
the first is nested most deeply. -/
theorem alt_eq_of_search {ws : List (Visitor σ ε ν α)} : ∀ {v : Visitor σ ε ν α} {s visited},
    Search n (v :: ws) s visited o s' → v.alt ws n s = (o, s') := by
  induction ws with
  | nil =>
    intro v s visited h
    cases h with
    | decided visit => exact visit
    | next refused more =>
      cases more
      exact refused
  | cons w ws ih =>
    intro v s visited h
    cases h with
    | decided visit decides => exact visit ▸ alt_of_ne_refused (by rwa [visit])
    | next refused more => exact (alt_cons_of_refused refused).trans (ih more)

theorem refused_iff_of_search {vs : List (Visitor σ ε ν α)} (h : Search n vs s visited o s') :
    o = .refused ↔ ∃ s', Refused n vs s s' := by
  induction h with
  | exhausted => exact iff_of_true rfl ⟨_, .nil⟩
  | decided visit decides =>
    refine iff_of_false decides ?_
    rintro ⟨s', hrefused⟩
    cases hrefused with
    | cons refused => exact decides (Prod.mk.inj (visit.symm.trans refused)).1
  | next refused _ ih =>
    rw [ih]
    constructor
    · rintro ⟨s', hmore⟩
      exact ⟨s', .cons refused hmore⟩
    · rintro ⟨s', hrefused⟩
      cases hrefused with
      | cons refused' more =>
        obtain ⟨-, rfl⟩ := Prod.mk.inj (refused.symm.trans refused')
        exact ⟨s', more⟩

/-- The visits of a search are recorded in order. -/
theorem search_numbered {vs : List (Visitor σ ε ν α)} (h : Search n vs s visited o s') :
    ∀ first record, Search n (numbered first vs) (s, record) visited o
      (s', record ++ List.range' first visited) := by
  induction h with
  | exhausted =>
    intro first record
    rw [List.range'_zero, List.append_nil]
    exact .exhausted
  | decided visit decides =>
    intro first record
    exact .decided (recording_of_eq visit record) decides
  | next refused _ ih =>
    intro first record
    refine .next (recording_of_eq refused record) ?_
    simpa [List.range'_succ] using ih (first + 1) (record ++ [first])

end

/-! ## Nested choices -/

/-- A choice between visitors, nested in any way. -/
inductive Bracketing (σ ε ν α : Type) where
  | single (v : Visitor σ ε ν α)
  | choice (first second : Bracketing σ ε ν α)

namespace Bracketing

/-- The visitors in order. -/
def visitors : Bracketing σ ε ν α → List (Visitor σ ε ν α)
  | single v => [v]
  | choice first second => first.visitors ++ second.visitors

def toVisitor : Bracketing σ ε ν α → Visitor σ ε ν α
  | single v => v
  | choice first second => first.toVisitor.choice second.toVisitor

theorem visitors_ne_nil : ∀ b : Bracketing σ ε ν α, b.visitors ≠ []
  | single _ => List.cons_ne_nil _ _
  | choice first _ => List.append_ne_nil_of_left_ne_nil first.visitors_ne_nil _

end Bracketing

theorem alt_choice (u : Visitor σ ε ν α) (ws : List (Visitor σ ε ν α)) :
    ∀ v : Visitor σ ε ν α, (u.choice v).alt ws = u.choice (v.alt ws) := by
  induction ws with
  | nil => exact fun _ => rfl
  | cons w ws ih =>
    intro v
    change ((u.choice v).choice w).alt ws = u.choice ((v.choice w).alt ws)
    rw [choice_assoc, ih]

theorem alt_append (v u : Visitor σ ε ν α) (ws us : List (Visitor σ ε ν α)) :
    v.alt (ws ++ u :: us) = (v.alt ws).choice (u.alt us) := by
  rw [← alt_choice, alt, List.foldl_append, List.foldl_cons]
  rfl

/-- How a choice is nested does not matter. -/
theorem toVisitor_eq_alt (b : Bracketing σ ε ν α) : ∀ {v ws}, b.visitors = v :: ws →
    b.toVisitor = v.alt ws := by
  induction b with
  | single u =>
    intro v ws h
    obtain ⟨rfl, rfl⟩ := List.cons.inj h
    rfl
  | choice first second ihfirst ihsecond =>
    intro v ws h
    obtain ⟨u, us, hsecond⟩ := List.exists_cons_of_ne_nil second.visitors_ne_nil
    obtain ⟨v', ws', hfirst⟩ := List.exists_cons_of_ne_nil first.visitors_ne_nil
    rw [Bracketing.visitors, hfirst, hsecond] at h
    obtain ⟨rfl, rfl⟩ := List.cons.inj h
    rw [Bracketing.toVisitor, ihfirst hfirst, ihsecond hsecond]
    exact (alt_append v' u ws' us).symm

/-! ## All children -/

/-- A visit of several nodes, with those that are visited: they are visited in order up to the first
whose visit gives no result. -/
inductive Traversal (v : Visitor σ ε ν α) :
    List ν → σ → (visited : List ν) → Outcome ε (List α) → σ → Prop
  | nil {s} : Traversal v [] s [] (.result []) s
  | stopped {n ns s s' o stop} (visit : v n s = (o, s')) (passed : o.Passed stop) :
      Traversal v (n :: ns) s [n] stop s'
  | next {n ns s a s' visited o s''} (visit : v n s = (.result a, s'))
      (more : Traversal v ns s' visited o s'') :
      Traversal v (n :: ns) s (n :: visited) (o.map (a :: ·)) s''

section

variable {v : Visitor σ ε ν α} {ns visited : List ν} {s s' : σ} {o : Outcome ε (List α)}

theorem exists_traversal (v : Visitor σ ε ν α) (ns : List ν) :
    ∀ s : σ, ∃ visited o s', Traversal v ns s visited o s' := by
  induction ns with
  | nil => exact fun s => ⟨[], _, _, .nil⟩
  | cons n ns ih =>
    intro s
    match h : v n s with
    | (.result a, s') =>
      obtain ⟨visited, o, s'', hmore⟩ := ih s'
      exact ⟨_, _, _, .next h hmore⟩
    | (.refused, s') => exact ⟨_, _, _, .stopped h .refused⟩
    | (.failed e, s') => exact ⟨_, _, _, .stopped h (.failed e)⟩

theorem each_eq_of_traversal (h : Traversal v ns s visited o s') : v.each ns s = (o, s') := by
  induction h with
  | nil => rfl
  | stopped visit passed => cases passed <;> simp [each, visit]
  | next visit _ ih => simp [each, visit, ih]

theorem traversal_recording (h : Traversal v ns s visited o s') :
    ∀ record, Traversal (v.recording id) ns (s, record) visited o (s', record ++ visited) := by
  induction h with
  | nil =>
    intro record
    rw [List.append_nil]
    exact .nil
  | stopped visit passed => exact fun record => .stopped (recording_of_eq visit record) passed
  | @next n _ _ _ _ visited _ _ visit _ ih =>
    intro record
    refine .next (recording_of_eq visit record) ?_
    simpa using ih (record ++ [n])

end

/-- A choice visits its visitors in order up to the first that is not refused and ends as that does;
it is refused just if all of them are, each in the state that those before it leave. It is the same
however these visitors are nested in choices between two. A visit of all children with it goes
through the children in order up to the first whose visit gives no result. -/
theorem search_alt (v : Visitor σ ε ν α) (ws : List (Visitor σ ε ν α)) (n : ν) (s : σ) :
    (∃ visited o s', Search n (v :: ws) s visited o s' ∧ v.alt ws n s = (o, s') ∧
      (v.recording fun _ => 0).alt (numbered 1 ws) n (s, []) = (o, s', List.range visited)) ∧
    ((v.alt ws n s).1 = .refused ↔ ∃ s', Refused n (v :: ws) s s') ∧
    (∀ b : Bracketing σ ε ν α, b.visitors = v :: ws → b.toVisitor = v.alt ws) ∧
    ∀ (children : μ → List ν) (m : μ), ∃ visited o s',
      Traversal (v.alt ws) (children m) s visited o s' ∧
      (v.alt ws).all children m s = (o, s') ∧
      ((v.alt ws).recording id).all children m (s, []) = (o, s', visited) := by
  obtain ⟨visited, o, s', hsearch⟩ := exists_search n (v :: ws) s
  have halt := alt_eq_of_search hsearch
  refine ⟨⟨visited, o, s', hsearch, halt, ?_⟩, ?_, fun b => toVisitor_eq_alt b,
    fun children m => ?_⟩
  · have hnumbered := alt_eq_of_search (search_numbered hsearch 0 [])
    rwa [List.nil_append, ← List.range_eq_range'] at hnumbered
  · rw [halt]
    exact refused_iff_of_search hsearch
  · obtain ⟨visited, o, s', htraversal⟩ := exists_traversal (v.alt ws) (children m) s
    exact ⟨visited, o, s', htraversal, each_eq_of_traversal htraversal,
      each_eq_of_traversal (traversal_recording htraversal [])⟩

/-- The first of three visitors is refused and counts that. The second decides, also where it is
nested with the third, and the third is not visited. -/
theorem search_alt_second :
    let u : Visitor Nat Unit Nat Nat := fun _ s => (.refused, s + 1)
    let v : Visitor Nat Unit Nat Nat := fun n s => (.result (n * s), s + 10)
    let w : Visitor Nat Unit Nat Nat := fun _ s => (.failed (), s + 100)
    u.alt [v, w] 7 1 = (.result 14, 12) ∧ u.choice (v.choice w) = u.alt [v, w] ∧
      ∃ visited, (u.recording fun _ => 0).alt (numbered 1 [v, w]) 7 (1, []) =
        (.result 14, 12, List.range visited) ∧ visited = 2 := by
  intro u v w
  obtain ⟨⟨visited, o, s', hsearch, halt, hrecord⟩, -, hnested, -⟩ :=
    search_alt (μ := Unit) u [v, w] 7 1
  obtain ⟨rfl, rfl⟩ : (.result 14, 12) = (o, s') := halt
  refine ⟨rfl, hnested (.choice (.single u) (.choice (.single v) (.single w))) rfl, visited,
    hrecord, ?_⟩
  cases hsearch with
  | decided visit decides => exact absurd (Prod.mk.inj visit).1.symm decides
  | next _ more =>
    cases more with
    | decided => rfl
    | next refused => cases (Prod.mk.inj refused).1

end Visitor

end ReplCore
