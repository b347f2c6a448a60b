import ReplCore.Modules.Cache
import ReplCore.Modules.Lookup

/-!
# Resolution

A package that is not found locally is redirected to a content delivery network. Each redirect is
recorded in the cache and announced once; modules of the host, paths and URLs are never redirected.
A resolver may lack the address of the network, and then only a redirect fails.

* `resolve_def`: resolution where looking a module up has no effects.
-/

namespace ReplCore

/-- Whether a module is found locally, or why the lookup failed. -/
abbrev LocalLookup := Text → Except LookupError Bool

namespace LocalLookup

/-- Whether an answer says that the module is found; a failing lookup does not find it. -/
def isFound : Except LookupError Bool → Bool
  | .ok b => b
  | .error _ => false

/-- Whether the lookup finds the module. -/
def finds (lookup : LocalLookup) (s : Text) : Bool := isFound (lookup s)

/-- The lookup in a file tree, as seen from a directory. -/
def inTree (t : FileTree) (directory : Path) : LocalLookup :=
  fun s => (LocalModule.find t directory s).map (·.isSome)

end LocalLookup

/-- The redirects of one run and what was announced, oldest first. -/
structure Resolver where
  /-- The address that packages are loaded from. -/
  cdnBase : Option Text
  cache : ModuleCache
  notices : List Text
deriving Repr, DecidableEq

namespace Resolver

/-- The network that packages come from unless another is chosen. -/
def defaultCdnBase : Text := "https://cdn.jsdelivr.net/npm".toList

/-- A resolver that has redirected nothing. -/
def fresh (cdnBase : Option Text) : Resolver := ⟨cdnBase, .empty, []⟩

/-- Why a specifier is not resolved. -/
inductive Error where
  | cache (e : ModuleCache.Error)
  /-- The module has to be redirected, but there is no address to load it from. -/
  | noAddress
deriving Repr, DecidableEq

/-- What is announced when a specifier is redirected. -/
def notice (s : Text) : Text :=
  "automatically resolving \x22".toList ++ s ++ "\x22 from cdn...".toList

/-- Whether a specifier is never redirected. -/
def isFixed (s : Text) : Bool :=
  Specifier.isBuiltin s || Specifier.isPath s || Specifier.isUrl s

/-- Load a package from the network from now on. -/
def redirectNew (r : Resolver) (s : Text) : Except Error (Text × Resolver) :=
  match r.cdnBase with
  | none => .error .noAddress
  | some base =>
    let target := Specifier.cdnUrl base s
    match r.cache.record s target with
    | .error e => .error (.cache e)
    | .ok cache => .ok (target, { r with cache := cache, notices := r.notices ++ [notice s] })

/-- The specifier to import in place of the given one, where looking a module up may have effects.
A module is looked up only if it may be redirected and has no entry. -/
def resolveIn {m : Type → Type} [Monad m] (r : Resolver)
    (lookup : Text → m (Except LookupError Bool)) (s : Text) (enabled : Bool) :
    m (Except Error (Text × Resolver)) :=
  if !enabled || isFixed s then pure (.ok (s, r))
  else
    match r.cache.get? s with
    | some entry => pure (.ok (entry.target, r))
    | none => do
      let answer ← lookup s
      return if LocalLookup.isFound answer then .ok (s, r) else r.redirectNew s

/-- The specifier to import in place of the given one. -/
def resolve (r : Resolver) (lookup : LocalLookup) (s : Text) (enabled : Bool) :
    Except Error (Text × Resolver) :=
  Id.run (r.resolveIn lookup s enabled)

theorem resolve_def (r : Resolver) (lookup : LocalLookup) (s : Text) (enabled : Bool) :
    r.resolve lookup s enabled =
      if !enabled || isFixed s then .ok (s, r)
      else
        match r.cache.get? s with
        | some entry => .ok (entry.target, r)
        | none => if lookup.finds s then .ok (s, r) else r.redirectNew s := by
  unfold resolve resolveIn
  split
  · rfl
  · split <;> rfl

/-- Whether a specifier was redirected. -/
def isRemote (r : Resolver) (s : Text) : Bool := r.cache.contains s

end Resolver

end ReplCore
