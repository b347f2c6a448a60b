import Mathlib.Data.List.Nodup
import ReplCore.Proofs.Rewriting.Effects

/-!
# The redirects of a transpiler over time

Whatever happens to a transpiler that started without redirects, and whatever the local lookup
answers in the meantime, its redirects are settled, and what comes later only adds to them.

* `Event.steps_apply`: every event changes redirects by steps alone.
* `redirects_after`: one target, one notice and no further lookup for each redirected package.
-/

namespace ReplCore.Transpiler

open Resolver

/-- Something that happens to a transpiler. The local lookup answers anew every time. -/
inductive Event where
  | transpile (lookup : LocalLookup) (source : Text) (namespaceKeys : Option (List Text))
      (label : Text)
  /-- One statement of a submission is rewritten. A submission whose statements get different
  answers from the local lookup is a run of these. -/
  | rewrite (lookup : LocalLookup) (namespaceKeys : Option (List Text)) (st : Statement)
  | confirm (namespaceKeys : List Text)
  | resolve (lookup : LocalLookup) (specifier : Text) (enabled : Bool)
  | isRemote (specifier : Text)
  | markFetched (specifier : Text)

/-- A lookup that finds nothing. -/
def findsNothing : LocalLookup := fun _ => .ok false

/-- The transpiler after an event. -/
def Event.apply (t : Transpiler) : Event → Transpiler
  | transpile lookup source keys label => (t.serve lookup (.transpile source keys label)).2
  | rewrite lookup keys st =>
    { t with resolver := (Rewriting.statement ⟨t.options, lookup, keys⟩ st t.resolver).2 }
  | confirm keys => (t.serve findsNothing (.confirm keys)).2
  | resolve lookup s enabled => (t.serve lookup (.resolve s enabled)).2
  | isRemote s => (t.serve findsNothing (.isRemote s)).2
  | markFetched s => (t.serve findsNothing (.markFetched s)).2

/-- The transpiler after several events. -/
def after (t : Transpiler) (events : List Event) : Transpiler := events.foldl Event.apply t

variable {t : Transpiler} {base : Text}

/-- Every event changes redirects by steps alone. -/
theorem Event.steps_apply (hbase : t.resolver.cdnBase = some base) (event : Event) :
    Steps t.resolver (event.apply t).resolver := by
  cases event with
  | transpile lookup source keys label =>
    obtain ⟨out, t', htranspile, hsteps, -⟩ := exists_transpile hbase lookup source keys label
    simpa only [apply, serve, htranspile] using hsteps
  | rewrite lookup keys st =>
    obtain ⟨p, r', hstatement, hsteps⟩ :=
      Rewriting.exists_statement hbase ⟨t.options, lookup, keys⟩ st
    simpa only [apply, hstatement] using hsteps
  | confirm keys => exact steps_confirm t.resolver keys
  | resolve lookup s enabled =>
    obtain ⟨target, r', hresolve⟩ := exists_resolve_eq_ok hbase lookup s enabled
    have hsteps := steps_of_resolve hresolve
    simpa only [apply, serve, hresolve] using hsteps
  | isRemote s => exact .refl
  | markFetched s =>
    simp only [apply, serve]
    split
    · next c hmark => exact steps_markFetched hmark
    · exact .refl

/-- So does every run of events. -/
theorem steps_after (events : List Event) :
    ∀ {t : Transpiler}, t.resolver.cdnBase = some base →
      Steps t.resolver (t.after events).resolver := by
  induction events with
  | nil => exact fun _ => .refl
  | cons event events ih =>
    intro t hbase
    have hsteps := event.steps_apply hbase
    exact hsteps.trans (ih (hsteps.cdnBase_eq.trans hbase))

theorem settled_after (options : RewriteOptions) (base : Text) (stripper : Option TypeStripper)
    (events : List Event) :
    Settled base ((fresh options (some base) stripper).after events).resolver := by
  have hfresh : Settled base (fresh options (some base) stripper).resolver := Settled.fresh base
  exact hfresh.of_steps (steps_after events hfresh.cdnBase_eq)

/-- At every moment a redirected specifier names a package, its target is the one that the address
gives, no two have one target, and each was announced once, in order. At every later moment it is
still redirected to its target, was fetched if it was before, and resolves without a lookup. -/
theorem redirects_after (options : RewriteOptions) (base : Text) (stripper : Option TypeStripper)
    (earlier later : List Event) :
    let t := (fresh options (some base) stripper).after earlier
    let t' := t.after later
    let modules := t.resolver.cache.modules
    (∀ m ∈ modules, Specifier.isBuiltin m.specifier = false ∧ Specifier.isPath m.specifier = false ∧
        Specifier.isUrl m.specifier = false ∧ m.target = Specifier.cdnUrl base m.specifier) ∧
      (modules.map CachedModule.specifier).Nodup ∧ (modules.map CachedModule.target).Nodup ∧
      t.resolver.notices = modules.map (fun m => notice m.specifier) ∧
      Later t.resolver t'.resolver ∧
      (∀ m ∈ modules, ∀ lookup : LocalLookup,
        t'.resolver.resolve lookup m.specifier true = .ok (m.target, t'.resolver)) ∧
      ∀ m ∈ modules, ∀ (M : Type → Type) [Monad M]
        (lookup : Text → M (Except LookupError Bool)),
        t'.resolver.resolveIn lookup m.specifier true = pure (.ok (m.target, t'.resolver)) := by
  intro t t' modules
  have hsettled : Settled base t.resolver := settled_after options base stripper earlier
  have hsteps : Steps t.resolver t'.resolver := steps_after later hsettled.cdnBase_eq
  have hlater : Later t.resolver t'.resolver := later_of_steps hsteps
  have hsettled' : Settled base t'.resolver := hsettled.of_steps hsteps
  -- The entry at the later moment, with the target that it had.
  have hentry : ∀ m ∈ modules, ∃ m' : CachedModule,
      t'.resolver.cache.get? m.specifier = some m' ∧ m'.target = m.target := by
    intro m hm
    obtain ⟨i, hi⟩ := List.mem_iff_getElem?.mp hm
    obtain ⟨m', hm', hspecifier, htarget, -⟩ := hlater i m hi
    refine ⟨m', ?_, htarget⟩
    rw [← hspecifier]
    exact hsettled'.get?_eq (List.mem_of_getElem? hm')
  refine ⟨?_, hsettled.nodup, ?_, ?_, hlater, ?_, ?_⟩
  · intro m hm
    have hfree := hsettled.isPackage m hm
    simp only [isFixed, Bool.or_eq_false_iff] at hfree
    exact ⟨hfree.1.1, hfree.1.2, hfree.2, hsettled.target_eq m hm⟩
  · have htargets : modules.map CachedModule.target =
        (modules.map CachedModule.specifier).map (Specifier.cdnUrl base) := by
      rw [List.map_map]
      exact List.map_congr_left hsettled.target_eq
    rw [htargets]
    exact List.Nodup.map (Specifier.cdnUrl_injective base) hsettled.nodup
  · rw [hsettled.notices_eq, List.map_map]
    rfl
  · intro m hm lookup
    obtain ⟨m', hm', htarget⟩ := hentry m hm
    rw [resolve_of_get? (hsettled.isPackage m hm) hm' lookup, htarget]
  · intro m hm M _ lookup
    obtain ⟨m', hm', htarget⟩ := hentry m hm
    rw [resolveIn_of_get? (hsettled.isPackage m hm) hm' lookup, htarget]

/-- A package that is not found, and stays redirected when it is found later. -/
theorem redirects_after_change :
    let t := (fresh .default (some "https://cdn/".toList) none).after
      [.resolve findsNothing "x".toList true]
    let t' := t.after [.resolve (fun _ => .ok true) "x".toList true, .markFetched "x".toList]
    (⟨"x".toList, "https://cdn/x/+esm".toList, false⟩ : CachedModule) ∈ t.resolver.cache.modules ∧
      t'.resolver.resolve (fun _ => .ok true) "x".toList true =
        .ok ("https://cdn/x/+esm".toList, t'.resolver) := by
  intro t t'
  have hmem : (⟨"x".toList, "https://cdn/x/+esm".toList, false⟩ : CachedModule) ∈
      t.resolver.cache.modules := by decide +kernel
  have hall := redirects_after .default "https://cdn/".toList none
    [.resolve findsNothing "x".toList true]
    [.resolve (fun _ => .ok true) "x".toList true, .markFetched "x".toList]
  exact ⟨hmem, hall.2.2.2.2.2.1 _ hmem _⟩

end ReplCore.Transpiler
