import ReplCore.Text.Quoted

/-!
# The module cache

Specifiers that were redirected to a URL, in the order in which they were. An entry is written once:
its target never changes and it is never removed. The code that loads a module stores it as a global
under its URL, so a namespace with that key shows that the module was fetched.
-/

namespace ReplCore

/-- A redirected specifier. -/
structure CachedModule where
  specifier : Text
  target : Text
  /-- Whether the module was seen to be loaded. -/
  fetched : Bool
deriving Repr, DecidableEq

/-- The redirected specifiers, oldest first. -/
structure ModuleCache where
  modules : List CachedModule
deriving Repr, DecidableEq

namespace ModuleCache

/-- What an operation on the cache can be refused for. -/
inductive Error where
  | alreadyResolved (specifier : Text)
  | unknown (specifier : Text)
  /-- The target of a module is written only once. -/
  | targetIsFixed (specifier : Text)
  /-- There is no module to write the target of. -/
  | noTarget (specifier : Text)
deriving Repr, DecidableEq

def Error.message : Error → Text
  | alreadyResolved s => Quoted.shown s ++ " is already resolved".toList
  | unknown s => s
  | targetIsFixed _ => "the target of a module cannot be set more than once".toList
  | noTarget _ => "there is no such module".toList

def empty : ModuleCache := ⟨[]⟩

/-- The entry of a specifier. -/
def get? (c : ModuleCache) (s : Text) : Option CachedModule :=
  c.modules.find? fun m => m.specifier = s

/-- Whether a specifier was redirected. -/
def contains (c : ModuleCache) (s : Text) : Bool := (c.get? s).isSome

def size (c : ModuleCache) : Nat := c.modules.length

/-- Redirect a specifier that was not redirected before. -/
def record (c : ModuleCache) (s target : Text) : Except Error ModuleCache :=
  if c.contains s then .error (.alreadyResolved s) else .ok ⟨c.modules ++ [⟨s, target, false⟩]⟩

/-- The cache with one entry noted as fetched. -/
def note (c : ModuleCache) (s : Text) : ModuleCache :=
  ⟨c.modules.map fun m => if m.specifier = s then { m with fetched := true } else m⟩

/-- Note that a module was fetched. -/
def markFetched (c : ModuleCache) (s : Text) : Except Error ModuleCache :=
  if c.contains s then .ok (c.note s) else .error (.unknown s)

/-- Whether a module was fetched. A namespace, given by its keys, that holds the module's URL shows
that it was, and this is remembered. -/
def isFetched (c : ModuleCache) (s : Text) (namespaceKeys : Option (List Text)) :
    Bool × ModuleCache :=
  match c.get? s with
  | none => (false, c)
  | some m =>
    if m.fetched then (true, c)
    else if namespaceKeys.any (m.target ∈ ·) then (true, c.note s)
    else (false, c)

/-- Note every module whose URL is a key of the namespace. -/
def confirm (c : ModuleCache) (namespaceKeys : List Text) : ModuleCache :=
  c.modules.foldl (fun c m => (c.isFetched m.specifier (some namespaceKeys)).2) c

/-! ## Operations as data -/

/-- A request to a cache. -/
inductive Request where
  | record (specifier target : Text)
  | get (specifier : Text)
  | markFetched (specifier : Text)
  | isFetched (specifier : Text) (namespaceKeys : Option (List Text))
  | contains (specifier : Text)
  | size
  | setTarget (specifier target : Text)
deriving Repr

/-- The answer to a request. -/
inductive Answer where
  | done
  | target (t : Text)
  | entry (m : Option CachedModule)
  | flag (b : Bool)
  | count (n : Nat)
deriving Repr, DecidableEq

/-- What is stored in a field that may be written once: nothing is stored over another value. -/
def writeOnce {α : Type} (stored : Option α) (value : α) : Option α :=
  if stored.isSome then none else some value

/-- The entry with a target written to it. An entry was made with a target. -/
def withTarget? (m : CachedModule) (target : Text) : Option CachedModule :=
  (writeOnce (some m.target) target).map fun t => { m with target := t }

/-- What a request does, step by step. A refusal ends it, and what was changed before stays
changed. -/
def perform : Request → ExceptT Error (StateM ModuleCache) Answer
  | .record s target => do
    if (← get).contains s then throw (.alreadyResolved s)
    modify fun c => ⟨c.modules ++ [⟨s, target, false⟩]⟩
    return .target target
  | .get s => return .entry ((← get).get? s)
  | .markFetched s => do
    if !(← get).contains s then throw (.unknown s)
    modify (·.note s)
    return .done
  | .isFetched s keys => do
    match (← get).get? s with
    | none => return .flag false
    | some m =>
      if !m.fetched && keys.any (m.target ∈ ·) then modify (·.note s)
      return .flag (((← get).get? s).any (·.fetched))
  | .contains s => return .flag ((← get).contains s)
  | .size => return .count (← get).size
  | .setTarget s target => do
    match (← get).get? s with
    | none => throw (.noTarget s)
    | some m =>
      match withTarget? m target with
      | none => throw (.targetIsFixed s)
      | some m' =>
        modify fun c => ⟨c.modules.map fun x => if x.specifier = s then m' else x⟩
        return .done

/-- The answer to a request and the cache after it. -/
def serve (c : ModuleCache) (r : Request) : Except Error Answer × ModuleCache :=
  Id.run ((perform r).run.run c)

end ModuleCache

end ReplCore
