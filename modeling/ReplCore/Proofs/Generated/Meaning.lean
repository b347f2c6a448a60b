import ReplCore.Generated.Statement

/-!
# What generated code does

The value that a generated expression has when it runs, and what a generated statement binds. What
generated code cannot see is left to a host: the modules that there are, the properties of values,
and what the user's own text makes of the promise it stands around.

A promise is represented by the value it settles with, and a callback runs as soon as it is passed
to a promise. A promise that is resolved with a thenable settles with what the thenable settles
with, and so does `await`.

* `Expression.eval`: what an expression stands for, and the globals it leaves.
* `Expression.eval_andThen`: a promise continued with a callback is a promise again.
* `Expression.run_settle_none`, `Expression.run_settle_some`: the value of a module once it is there,
  without and with a callback.
-/

namespace ReplCore

namespace Script

/-- A value of running code. -/
inductive Val where
  | undefined
  | null
  | text (t : Text)
  | array (elements : List Val)
  /-- A promise that settles with the value. -/
  | promise (settled : Val)
  /-- Any other value, known by its identity. -/
  | other (identity : Nat)

/-- The properties of the global object, by their names. -/
abbrev Globals := Text → Option Val

def Globals.store (g : Globals) (key : Text) (v : Val) : Globals :=
  fun k => if k = key then some v else g k

@[simp] theorem Globals.store_self (g : Globals) (key : Text) (v : Val) :
    g.store key v key = some v :=
  if_pos rfl

/-- What generated code runs in. -/
structure Host where
  /-- A property of a value that has properties. -/
  property : Val → Text → Val
  /-- What a value with a method `then` of its own settles with. -/
  thenable : Nat → Option Val
  /-- The module under a URL, imported with the text after the URL. -/
  module : Text → Text → Val
  /-- What the user's text before and after a value makes of it, unless that fails. -/
  around : Text → Text → Val → Globals → Option (Val × Globals)

def Val.isNullish : Val → Bool
  | undefined | null => true
  | _ => false

namespace Host

variable (h : Host)

/-- What a promise that is resolved with the value settles with. -/
def settled : Val → Val
  | .promise v => v
  | .other i => (h.thenable i).getD (.other i)
  | v => v

/-- The property that an optional access gives. -/
def optional (v : Val) (name : Text) : Val :=
  if v.isNullish then .undefined else h.property v name

/-- The default export of a module that has one, and else the module. -/
def unwrapped (v : Val) : Val :=
  if (h.optional v "default".toList).isNullish then v else h.optional v "default".toList

end Host

/-- What an expression stands for before its value is taken. -/
inductive Operand where
  | value (v : Val)
  | globalObject
  /-- The property of the global object with the given name. -/
  | global (key : Text)
  | promiseConstructor
  /-- The function that makes a promise for a value. -/
  | resolve
  /-- The method of a promise that continues it. -/
  | continuation (settled : Val)
  | function (f : Val → Globals → Option (Val × Globals))

namespace Operand

/-- The operand as it is from now on, whatever is stored later. -/
def read (g : Globals) : Operand → Operand
  | global key => value ((g key).getD .undefined)
  | o => o

def value? (g : Globals) (o : Operand) : Option Val :=
  match o.read g with
  | value v => some v
  | _ => none

@[simp] theorem read_value (g : Globals) (v : Val) : (value v).read g = value v := rfl

@[simp] theorem value?_value (g : Globals) (v : Val) : (value v).value? g = some v := rfl

theorem value?_read (g g' : Globals) (o : Operand) : (o.read g).value? g' = o.value? g := by
  cases o <;> rfl

def member (h : Host) (g : Globals) (o : Operand) (name : Text) (isOptional : Bool) :
    Option Operand :=
  match o.read g with
  | promiseConstructor => if name = "resolve".toList then some resolve else none
  | value (.promise v) =>
    if name = "then".toList then some (continuation v)
    else some (value (h.property (.promise v) name))
  | o => do
    let v ← o.value? g
    if v.isNullish ∧ !isOptional then none else some (value (h.optional v name))

theorem member_value {h : Host} {g : Globals} {v : Val} {name : Text}
    (hname : name ≠ "then".toList) :
    (value v).member h g name true = some (value (h.optional v name)) := by
  cases v with
  | promise w => exact if_neg hname
  | _ => rfl

/-- An operand called with another as its only argument. -/
def apply (h : Host) (g : Globals) : Operand → Operand → Option (Operand × Globals)
  | resolve, o => do
    let v ← o.value? g
    some (value (.promise (h.settled v)), g)
  | continuation v, function f => do
    let (w, g) ← f v g
    some (value (.promise (h.settled w)), g)
  | function f, o => do
    let v ← o.value? g
    let (w, g) ← f v g
    some (value w, g)
  | _, _ => none

end Operand

/-- A declaration binds the names of its target to what they match in the value. -/
structure Binding where
  kind : Text
  target : Text
  value : Val

/-- The values of the parameters in scope. -/
abbrev Parameters := List (Text × Val)

def named (ps : Parameters) (name : Text) : Option Operand :=
  match ps.lookup name with
  | some v => some (.value v)
  | none =>
    if name = "globalThis".toList then some .globalObject
    else if name = "Promise".toList then some .promiseConstructor
    else none

end Script

namespace Expression

open Script

mutual

/-- What an expression stands for, and the globals after it was evaluated, unless it fails or is
not of a form that generated code has. -/
@[simp] def eval (h : Host) (ps : Parameters) (g : Globals) : Expression → Option (Operand × Globals)
  | raw text => (named ps text).map (·, g)
  | string value => some (.value (.text value), g)
  | member object property isOptional => do
    let (o, g) ← object.eval h ps g
    let m ← o.member h g property isOptional
    some (m, g)
  -- Only properties of the global object are written in brackets.
  | index object key => do
    let (o, g) ← object.eval h ps g
    let (k, g) ← key.eval h ps g
    match o, k.value? g with
    | .globalObject, some (.text name) => some (.global name, g)
    | _, _ => none
  | call callee arguments => do
    let (f, g) ← callee.eval h ps g
    let (os, g) ← evalAll h ps g arguments
    match os with
    | [o] => f.apply h g o
    | _ => none
  | importCall source options => do
    let (o, g) ← source.eval h ps g
    match o.value? g with
    | some (.text url) => some (.value (.promise (h.settled (h.module url options))), g)
    | _ => none
  | await argument => do
    let (o, g) ← argument.eval h ps g
    let v ← o.value? g
    some (.value (h.settled v), g)
  | void argument => do
    let (_, g) ← argument.eval h ps g
    some (.value .undefined, g)
  | paren inner => inner.eval h ps g
  | arrow parameters body =>
    match parameters with
    | [x] =>
      some (.function fun v g => do
        let (o, g) ← body.eval h ((x, v) :: ps) g
        let w ← o.value? g
        some (w, g), g)
    | _ => none
  -- The target is found before the value is computed, and stored to after it.
  | assign target value => do
    let (t, g) ← target.eval h ps g
    let (o, g) ← value.eval h ps g
    let v ← o.value? g
    match t with
    | .global key => some (.value v, g.store key v)
    | _ => none
  | array elements => do
    let (os, g) ← evalAll h ps g elements
    let vs ← os.mapM (·.value? g)
    some (.value (.array vs), g)
  | nullish left right => do
    let (o, g) ← left.eval h ps g
    let v ← o.value? g
    if v.isNullish then right.eval h ps g else some (.value v, g)
  -- The user's text comes before and after the promise for the module.
  | spliced parts =>
    match parts with
    | [raw lead, e, raw tail] => do
      let (o, g) ← e.eval h ps g
      let v ← o.value? g
      let (w, g) ← h.around lead tail v g
      some (.value w, g)
    | _ => none

/-- Several expressions, from left to right. -/
@[simp] def evalAll (h : Host) (ps : Parameters) (g : Globals) :
    List Expression → Option (List Operand × Globals)
  | [] => some ([], g)
  | e :: es => do
    let (o, g) ← e.eval h ps g
    let (os, g') ← evalAll h ps g es
    some (o.read g :: os, g')

end

/-- The value of an expression, and the globals after it was evaluated. -/
def run (h : Host) (ps : Parameters) (g : Globals) (e : Expression) : Option (Val × Globals) := do
  let (o, g) ← e.eval h ps g
  let v ← o.value? g
  some (v, g)

variable {h : Host} {e p f : Expression} {ps : Parameters} {g g' : Globals} {v : Val}

theorem run_eq_some_iff : e.run h ps g = some (v, g') ↔
    ∃ o, e.eval h ps g = some (o, g') ∧ o.value? g' = some v := by
  simp only [run, Option.bind_eq_bind, Option.bind_eq_some_iff, Prod.exists, Option.some.injEq,
    Prod.mk.injEq]
  constructor
  · rintro ⟨o, g₁, he, w, hw, rfl, rfl⟩
    exact ⟨o, he, hw⟩
  · rintro ⟨o, he, hv⟩
    exact ⟨o, g', he, v, hv, rfl, rfl⟩

theorem run_of_eval (he : e.eval h ps g = some (.value v, g')) : e.run h ps g = some (v, g') :=
  run_eq_some_iff.mpr ⟨_, he, rfl⟩

theorem eval_globalLookup (hps : ps.lookup "globalThis".toList = none) (g : Globals) (key : Text) :
    (globalLookup key).eval h ps g = some (.global key, g) := by
  have hobject : globalThis.eval h ps g = some (.globalObject, g) := by
    simp only [globalThis, eval, named, hps]
    rfl
  rw [globalLookup, eval, hobject]
  rfl

theorem run_globalLookup {key : Text} (hstored : g key = some v) :
    (globalLookup key).run h [] g = some (v, g) := by
  have hvalue : (Operand.global key).value? g = some v := by
    simp only [Operand.value?, Operand.read, hstored, Option.getD_some]
  rw [run, eval_globalLookup rfl]
  simp only [Option.bind_eq_bind, Option.bind_some, hvalue]

/-! ## Callbacks -/

/-- The value and the globals that a callback gives for an argument. -/
def Maps (h : Host) (f : Expression) (result : Val → Globals → Val × Globals) : Prop :=
  ∀ g, ∃ φ, f.eval h [] g = some (.function φ, g) ∧ ∀ v g', φ v g' = some (result v g')

abbrev parameter (v : Val) : Parameters := [("res".toList, v)]

theorem maps_callback {body : Expression} {result : Val → Globals → Val × Globals}
    (hbody : ∀ v g, body.run h (parameter v) g = some (result v g)) :
    (callback body).Maps h result :=
  fun _ => ⟨_, rfl, hbody⟩

theorem eval_result (v : Val) (g : Globals) :
    Expression.result.eval h (parameter v) g = some (.value v, g) := rfl

theorem eval_unwrapDefault (v : Val) (g : Globals) :
    (unwrapDefault Expression.result).eval h (parameter v) g = some (.value (h.unwrapped v), g) := by
  have hdefault : (Expression.result.member "default".toList true).eval h (parameter v) g =
      some (.value (h.optional v "default".toList), g) := by
    have hname : "default".toList ≠ "then".toList := by decide
    rw [eval, eval_result]
    simp only [Option.bind_eq_bind, Option.bind_some, Operand.member_value hname]
  rw [unwrapDefault, eval, hdefault, Host.unwrapped]
  simp only [Option.bind_eq_bind, Option.bind_some, Operand.value?_value]
  -- The right side of `??` is evaluated just where the unwrapped value is the module itself.
  split
  · exact eval_result v g
  · rfl

theorem maps_unwrapCallback : unwrapCallback.Maps h fun v g => (h.unwrapped v, g) :=
  maps_callback fun v g => run_of_eval (eval_unwrapDefault v g)

theorem maps_pairCallback :
    pairCallback.Maps h fun v g => (.array [v, h.unwrapped v], g) := by
  refine maps_callback fun v g => run_of_eval ?_
  simp [eval_result, eval_unwrapDefault]

theorem maps_storeCallback (key : Text) :
    (storeCallback key).Maps h fun v g => (v, g.store key v) := by
  refine maps_callback fun v g => run_of_eval ?_
  have hglobal : (globalLookup key).eval h (parameter v) g = some (.global key, g) :=
    eval_globalLookup rfl g key
  rw [eval, eval, hglobal]
  simp only [Option.bind_eq_bind, Option.bind_some, eval_result, Operand.value?_value]

/-! ## Promises -/

/-- A promise continued with a callback settles with what the callback's value settles with. -/
theorem eval_andThen {result : Val → Globals → Val × Globals}
    (hp : p.eval h [] g = some (.value (.promise v), g')) (hf : f.Maps h result) :
    (andThen p f).eval h [] g =
      some (.value (.promise (h.settled (result v g').1)), (result v g').2) := by
  obtain ⟨φ, hφ, happly⟩ := hf g'
  simp [andThen, hp, hφ, happly, Operand.member, Operand.read, Operand.apply]

theorem run_await (he : e.run h ps g = some (v, g')) :
    (await e).run h ps g = some (h.settled v, g') := by
  obtain ⟨o, ho, hv⟩ := run_eq_some_iff.mp he
  refine run_of_eval ?_
  rw [eval, ho]
  simp only [Option.bind_eq_bind, Option.bind_some, hv]

theorem evalAll_singleton {o : Operand} (he : e.eval h ps g = some (o, g')) :
    evalAll h ps g [e] = some ([o.read g'], g') := by
  simp only [evalAll, he, Option.bind_eq_bind, Option.bind_some]

/-- A promise for a value settles with what the value settles with. -/
theorem eval_promiseFor (he : e.run h [] g = some (v, g')) :
    (promiseFor e).eval h [] g = some (.value (.promise (h.settled v)), g') := by
  obtain ⟨o, ho, hv⟩ := run_eq_some_iff.mp he
  have hresolve : (member (.raw "Promise".toList) "resolve".toList false).eval h [] g =
      some (.resolve, g) := rfl
  rw [promiseFor, eval, hresolve]
  simp only [Option.bind_eq_bind, Option.bind_some, evalAll_singleton ho, Operand.apply,
    Operand.value?_read, hv]

/-- A callback that is called gives its value, whether or not that is a thenable. -/
theorem run_call_paren {result : Val → Globals → Val × Globals}
    (he : e.run h [] g = some (v, g')) (hf : f.Maps h result) :
    (call (paren f) [e]).run h [] g = some (result v g') := by
  obtain ⟨o, ho, hv⟩ := run_eq_some_iff.mp he
  obtain ⟨φ, hφ, happly⟩ := hf g
  refine run_of_eval ?_
  rw [eval, eval, hφ]
  simp only [Option.bind_eq_bind, Option.bind_some, evalAll_singleton ho, Operand.apply,
    Operand.value?_read, hv, happly]

/-! ## Sources -/

namespace Source

/-- The module is there, as a promise or itself, and `g'` are the globals after it was read. -/
def Provides (h : Host) (s : Source) (m : Val) (g g' : Globals) : Prop :=
  match s with
  | promise e => e.eval h [] g = some (.value (.promise m), g')
  | loaded e => e.run h [] g = some (m, g')

/-- What becomes of the value of a callback: a promise settles with it. -/
def received (h : Host) (s : Source) (v : Val) : Val :=
  match s with
  | promise _ => h.settled v
  | loaded _ => v

end Source

variable {s : Source} {m : Val}

theorem run_settle_none (hs : s.Provides h m g g') :
    (settle s none).run h [] g = some (m, g') := by
  cases s with
  | promise e => exact run_await (run_of_eval hs)
  | loaded e => exact hs

theorem run_settle_some {result : Val → Globals → Val × Globals} (hs : s.Provides h m g g')
    (hf : f.Maps h result) :
    (settle s (some f)).run h [] g =
      some (s.received h (result m g').1, (result m g').2) := by
  cases s with
  | promise e =>
    have hawaited := run_await (run_of_eval (eval_andThen hs hf))
    exact hawaited
  | loaded e =>
    have hloaded : e.run h [] g = some (m, g') := hs
    have hcalled := run_call_paren hloaded hf
    exact hcalled

end Expression

namespace GeneratedStatement

open Script

/-- What the statement binds, if it binds anything, and the globals after it ran. -/
def run (h : Host) (g : Globals) : GeneratedStatement → Option (Option Binding × Globals)
  | declaration kind target initializer =>
    (initializer.run h [] g).map fun (v, g) => (some ⟨kind, target, v⟩, g)
  | expression e => (e.run h [] g).map fun (_, g) => (none, g)
  | raw _ => none

end GeneratedStatement

end ReplCore
