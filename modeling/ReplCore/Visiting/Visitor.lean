/-!
# Visitors

A visitor is a partial function on nodes with effects: a visit ends with a result, is refused since
the visitor does not apply, or fails. Only a refusal lets another visitor be tried instead; the
effects of a visit stay whatever its outcome.

* `choice_assoc`: how choices are bracketed does not matter.
-/

namespace ReplCore

/-- How a visit ends. -/
inductive Outcome (ε α : Type) where
  | result (a : α)
  /-- The visitor does not apply to the node. -/
  | refused
  | failed (e : ε)
deriving Repr, DecidableEq

namespace Outcome

variable {ε α β : Type}

/-- The outcome with the result changed. -/
def map (f : α → β) : Outcome ε α → Outcome ε β
  | result a => result (f a)
  | refused => refused
  | failed e => failed e

end Outcome

/-- A visitor of nodes `ν` with results `α`, failures `ε` and effects on a state `σ`. -/
def Visitor (σ ε ν α : Type) := ν → σ → Outcome ε α × σ

namespace Visitor

variable {σ ε ν μ α β : Type}

/-- The node itself. -/
def identity : Visitor σ ε ν ν := fun n s => (.result n, s)

/-- A visitor that never applies. -/
def refuse : Visitor σ ε ν α := fun _ s => (.refused, s)

/-- The visitor with its result changed. -/
def map (f : α → β) (v : Visitor σ ε ν α) : Visitor σ ε ν β := fun n s =>
  let (outcome, s) := v n s
  (outcome.map f, s)

/-- The first visitor or, if it is refused, the second. -/
def choice (v w : Visitor σ ε ν α) : Visitor σ ε ν α := fun n s =>
  match v n s with
  | (.refused, s) => w n s
  | done => done

/-- The first of several visitors that is not refused. -/
def alt (v : Visitor σ ε ν α) (ws : List (Visitor σ ε ν α)) : Visitor σ ε ν α := ws.foldl choice v

/-- The first visitor, then the second, for the result of the second. -/
def andThen (v : Visitor σ ε ν α) (w : Visitor σ ε ν β) : Visitor σ ε ν β := fun n s =>
  match v n s with
  | (.result _, s) => w n s
  | (.refused, s) => (.refused, s)
  | (.failed e, s) => (.failed e, s)

/-- Visit the nodes in order, up to the first whose visit is refused or fails. -/
def each (v : Visitor σ ε ν α) : Visitor σ ε (List ν) (List α)
  | [], s => (.result [], s)
  | n :: ns, s =>
    match v n s with
    | (.result a, s) =>
      let (outcome, s) := each v ns s
      (outcome.map (a :: ·), s)
    | (.refused, s) => (.refused, s)
    | (.failed e, s) => (.failed e, s)

/-- Visit every child of a node. -/
def all (children : μ → List ν) (v : Visitor σ ε ν α) : Visitor σ ε μ (List α) := fun n s =>
  each v (children n) s

/-- Visit only the nodes of one type, as values of that type. -/
def only (cast : μ → Option ν) (v : Visitor σ ε ν α) : Visitor σ ε μ α := fun n s =>
  match cast n with
  | some m => v m s
  | none => (.refused, s)

theorem choice_assoc (u v w : Visitor σ ε ν α) :
    choice (choice u v) w = choice u (choice v w) := by
  funext n s
  simp only [choice]
  rcases u n s with ⟨_ | _ | _, s'⟩ <;> rfl

end Visitor

end ReplCore
