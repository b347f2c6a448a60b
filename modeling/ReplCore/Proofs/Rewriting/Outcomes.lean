import ReplCore.Proofs.Modules.Flags
import ReplCore.Proofs.Rewriting.Fetched
import ReplCore.Proofs.Rewriting.Redirecting

/-!
# What becomes of each statement

The statements of a submission pass a resolver on, and each may leave an entry or a flag in it. None
of that reaches the text of the others. Whether a specifier is redirected was settled before the
submission, since a lookup gives the same answer each time, and a flag is set only where the
namespace has the URL, which the other statements see for themselves. So what becomes of a statement
is a function of the resolver before the submission.

* `wasFetched_loaded`, `redirectsTo_loaded`: what loading a specifier notes, and where it loads from.
* `load_eq_sourceOf`: where the module of a plan comes from.
* `outcome_loaded`: what a statement becomes is the same after another one has loaded its module.
* `each_eq_outcomes`: what becomes of several statements.
-/

namespace ReplCore

open Resolver

variable {r : Resolver} {base x : Text} {k : RewriteContext}

namespace Resolver

variable {lookup : LocalLookup} {s : Text}

theorem isRemote_eq_true_iff : r.isRemote s = true ↔ ∃ m, r.cache.get? s = some m := by
  rw [isRemote, ModuleCache.contains, Option.isSome_iff_exists]

theorem Settled.target_of_get? (h : Settled base r) {m : CachedModule}
    (hm : r.cache.get? s = some m) : m.target = Specifier.cdnUrl base s := by
  rw [h.target_eq m (ModuleCache.mem_of_get? hm), ModuleCache.specifier_of_get? hm]

theorem Settled.isFixed_of_isRemote (h : Settled base r) (hremote : r.isRemote s = true) :
    isFixed s = false := by
  obtain ⟨m, hm⟩ := isRemote_eq_true_iff.mp hremote
  rw [← ModuleCache.specifier_of_get? hm]
  exact h.isPackage m (ModuleCache.mem_of_get? hm)

theorem Settled.resolved (h : Settled base r) : Settled base (r.resolved lookup base s) := by
  obtain ⟨target, hresolve⟩ := resolve_eq h.cdnBase_eq lookup s
  exact h.of_steps (steps_of_resolve hresolve)

/-- Resolving notes no module. -/
theorem wasFetched_resolved (r : Resolver) (lookup : LocalLookup) (base s x : Text) :
    (r.resolved lookup base s).cache.wasFetched x = r.cache.wasFetched x := by
  unfold Resolver.resolved
  split
  · exact ModuleCache.wasFetched_append
  · rfl

/-- Whether a specifier is redirected once it is loaded. -/
def redirects (r : Resolver) (lookup : LocalLookup) (s : Text) : Bool :=
  r.isRemote s || r.isDue lookup s

/-- A redirect that is made when it is due changes no answer. -/
theorem Redirects.redirects_eq {r' : Resolver} {new : List Text} (h : Redirects base r r' new)
    (hdue : ∀ x ∈ new, r.isDue lookup x = true) : r'.redirects lookup s = r.redirects lookup s := by
  rw [Bool.eq_iff_iff, Resolver.redirects, Resolver.redirects, Bool.or_eq_true, Bool.or_eq_true,
    h.isRemote_iff, h.isDue_eq, Bool.and_eq_true, decide_eq_true_iff]
  constructor
  · rintro ((hremote | hnew) | ⟨hs, -⟩)
    · exact .inl hremote
    · exact .inr (hdue s hnew)
    · exact .inr hs
  · rintro (hremote | hs)
    · exact .inl (.inl hremote)
    · by_cases hnew : s ∈ new
      · exact .inl (.inr hnew)
      · exact .inr ⟨hs, hnew⟩

/-- A specifier that is not redirected is resolved as it is. -/
theorem kept_of_redirects (h : r.redirects lookup s = false) :
    r.isRemote s = false ∧ (isFixed s = true ∨ lookup.finds s = true) := by
  rw [redirects, Bool.or_eq_false_iff] at h
  obtain ⟨hremote, hdue⟩ := h
  refine ⟨hremote, ?_⟩
  rw [isDue, hremote] at hdue
  cases hfixed : isFixed s with
  | true => exact .inl rfl
  | false => exact .inr (by simpa [hfixed] using hdue)

/-- Modules of the host, paths and URLs are never redirected. -/
theorem Settled.redirects_of_isFixed (h : Settled base r) (hfixed : isFixed s = true) :
    r.redirects lookup s = false := by
  have hremote : r.isRemote s = false := by
    by_contra hremote
    have hfree := h.isFixed_of_isRemote (s := s) (by simpa using hremote)
    rw [hfixed] at hfree
    cases hfree
  simp [redirects, isDue, hremote, hfixed]

theorem redirects_of_finds (hremote : r.isRemote s = false) (hfinds : lookup.finds s = true) :
    r.redirects lookup s = false := by
  simp [redirects, isDue, hremote, hfinds]

end Resolver

namespace Rewriting

open Expression

/-! ## Loading a specifier -/

theorem isRemote_loaded {s : Text} : (loaded k base r s).isRemote x = true ↔
    (r.resolved k.lookup base s).isRemote x = true := by
  have hasked := redirects_isFetched (r.resolved k.lookup base s) base s k.namespaceKeys
  have hremote := hasked.isRemote_iff (s := x)
  rwa [List.mem_nil_iff, or_false] at hremote

theorem settled_loaded (h : Settled base r) (k : RewriteContext) (s : Text) :
    Settled base (loaded k base r s) :=
  h.resolved.of_steps (steps_isFetched _ s k.namespaceKeys)

/-- Loading another specifier does not change whether one is redirected. -/
theorem redirects_loaded_eq (k : RewriteContext) (base : Text) (r : Resolver) (x y : Text) :
    (loaded k base r y).redirects k.lookup x = r.redirects k.lookup x := by
  refine (redirects_loaded k base r y).redirects_eq fun z hz => ?_
  exact (List.mem_filter.mp hz).2

/-- A specifier that was loaded is remote just if it was to be redirected. -/
theorem isRemote_loaded_self (k : RewriteContext) (base : Text) (r : Resolver) (x : Text) :
    (loaded k base r x).isRemote x = r.redirects k.lookup x := by
  rw [Bool.eq_iff_iff, (redirects_loaded k base r x).isRemote_iff, Resolver.redirects,
    Bool.or_eq_true, List.mem_filter]
  exact or_congr_right (and_iff_right (List.mem_singleton_self x))

/-- Whether a namespace, if its keys are known, has the URL of a specifier. -/
def hasUrl (keys : Option (List Text)) (base s : Text) : Bool :=
  keys.any fun keys => keys.contains (Specifier.cdnUrl base s)

theorem hasUrl_eq (keys : Option (List Text)) (base s : Text) :
    hasUrl keys base s = keys.any (Specifier.cdnUrl base s ∈ ·) := by
  cases keys <;> simp [hasUrl]

/-- Loading a specifier notes its module just if it is redirected to a URL that the namespace
has. -/
theorem wasFetched_loaded (h : Settled base r) (s : Text) :
    (loaded k base r s).cache.wasFetched x = true ↔ r.cache.wasFetched x = true ∨
      x = s ∧ (loaded k base r s).isRemote x = true ∧ hasUrl k.namespaceKeys base x = true := by
  have hresolved : Settled base (r.resolved k.lookup base s) := h.resolved
  rw [isRemote_loaded, ← wasFetched_resolved r k.lookup base s x, loaded]
  cases hentry : (r.resolved k.lookup base s).cache.get? s with
  | none =>
    have hne : ¬ (x = s ∧ (r.resolved k.lookup base s).isRemote x = true ∧
        hasUrl k.namespaceKeys base x = true) := by
      rintro ⟨rfl, hremote, -⟩
      simp [isRemote, ModuleCache.contains, hentry] at hremote
    simp [ModuleCache.isFetched, hentry, hne]
  | some m =>
    rw [ModuleCache.wasFetched_isFetched _ hentry, hresolved.target_of_get? hentry]
    refine or_congr_right (and_congr_right ?_)
    rintro rfl
    rw [and_iff_right (isRemote_eq_true_iff.mpr ⟨m, hentry⟩), hasUrl_eq]

/-! ## Where a module comes from -/

/-- Whether a module is read from the globals if it is redirected. -/
def isStored (k : RewriteContext) (base : Text) (r : Resolver) (s : Text) : Bool :=
  r.cache.wasFetched s || hasUrl k.namespaceKeys base s

/-- What is noted is in the namespace, so it changes nothing for a module that asks there. -/
theorem isStored_loaded (h : Settled base r) (y : Text) :
    isStored k base (loaded k base r y) x = isStored k base r x := by
  rw [Bool.eq_iff_iff, isStored, isStored, Bool.or_eq_true, Bool.or_eq_true, wasFetched_loaded h]
  tauto

/-- A redirected specifier is loaded from its URL, or from the globals if its module was fetched or
the namespace has it. -/
theorem redirectsTo_loaded (h : Settled base r) (hremote : (loaded k base r x).isRemote x = true) :
    RedirectsTo k r (loaded k base r x) x (Specifier.cdnUrl base x) (isStored k base r x) := by
  have hresolved : Settled base (r.resolved k.lookup base x) := h.resolved
  have hremote := isRemote_loaded.mp hremote
  have hfree := hresolved.isFixed_of_isRemote hremote
  obtain ⟨target, hresolve⟩ := resolve_eq h.cdnBase_eq k.lookup x
  obtain ⟨m, hentry, rfl⟩ := get?_of_resolve hfree hresolve hremote
  have htarget := hresolved.target_of_get? hentry
  refine ⟨_, htarget ▸ hresolve, hremote, ?_, rfl⟩
  rw [ModuleCache.fst_isFetched _ hentry, htarget, isStored, hasUrl_eq,
    ← wasFetched_resolved r k.lookup base x x, ModuleCache.wasFetched,
    hentry, Option.any_some]

/-- Where the module of a plan comes from. -/
def sourceOf (k : RewriteContext) (base : Text) (r : Resolver) (plan : LoadPlan) : Source :=
  if r.redirects k.lookup plan.specifier then
    redirected (Specifier.cdnUrl base plan.specifier) plan.importOptions
      (isStored k base r plan.specifier)
  else unredirected plan.specifier plan.literal plan.importOptions

theorem load_eq_sourceOf (h : Settled base r) (plan : LoadPlan) :
    load k r plan.specifier plan.literal plan.importOptions =
      .ok (sourceOf k base r plan, loaded k base r plan.specifier) := by
  obtain ⟨source, hload⟩ := load_eq h.cdnBase_eq k plan.specifier plan.literal plan.importOptions
  cases hredirects : r.redirects k.lookup plan.specifier with
  | true =>
    have hremote := (isRemote_loaded_self k base r plan.specifier).trans hredirects
    rw [load_of_redirectsTo (redirectsTo_loaded h hremote), sourceOf, if_pos hredirects]
  | false =>
    obtain ⟨hremote, hkept⟩ := kept_of_redirects hredirects
    have hstays := load_of_kept hremote hkept plan.literal plan.importOptions
    have hsame : r = loaded k base r plan.specifier :=
      (Prod.mk.inj (Except.ok.inj (hstays.symm.trans hload))).2
    rw [hstays, sourceOf, hredirects, ← hsame]
    rfl

/-! ## What becomes of statements -/

/-- What becomes of a statement. -/
def outcome (k : RewriteContext) (base : Text) (r : Resolver) (st : Statement) :
    PrintableStatement :=
  match loadPlan? k.options st with
  | none => rewritten k.options st
  | some plan => .generated (plan.build (sourceOf k base r plan))

/-- Where a module comes from does not depend on what was loaded before. -/
theorem sourceOf_loaded (h : Settled base r) (y : Text) (plan : LoadPlan) :
    sourceOf k base (loaded k base r y) plan = sourceOf k base r plan := by
  rw [sourceOf, sourceOf, redirects_loaded_eq, isStored_loaded h]

theorem outcome_loaded (h : Settled base r) (y : Text) (st : Statement) :
    outcome k base (loaded k base r y) st = outcome k base r st := by
  unfold outcome
  split
  · rfl
  · rw [sourceOf_loaded h]

theorem statement_of_settled (h : Settled base r) (st : Statement) :
    statement k st r = (.result (outcome k base r st),
      ((loadedSpecifier? k.options st).elim r (loaded k base r))) := by
  rw [outcome, ← map_specifier_loadPlan?]
  cases hplan : loadPlan? k.options st with
  | none => exact statement_of_loadPlan?_eq_none hplan r
  | some plan => rw [statement_of_loadPlan? hplan, loading, load_eq_sourceOf h]; rfl

/-- Every statement becomes what it would become by itself. -/
theorem each_eq_outcomes (k : RewriteContext) (statements : List Statement) :
    ∀ {r : Resolver}, Settled base r → (statement k).each statements r =
      (.result (statements.map (outcome k base r)),
        (statements.filterMap (loadedSpecifier? k.options)).foldl (loaded k base) r) := by
  induction statements with
  | nil => exact fun _ => rfl
  | cons st statements ih =>
    intro r h
    have hfirst := statement_of_settled (k := k) h st
    cases hspecifier : loadedSpecifier? k.options st with
    | none =>
      rw [hspecifier] at hfirst
      rw [List.filterMap_cons_none hspecifier]
      exact Visitor.each_cons hfirst (ih h)
    | some y =>
      rw [hspecifier] at hfirst
      have hsame : statements.map (outcome k base (loaded k base r y)) =
          statements.map (outcome k base r) :=
        List.map_congr_left fun st _ => outcome_loaded h y st
      rw [List.filterMap_cons_some hspecifier, List.map_cons, ← hsame]
      exact Visitor.each_cons hfirst (ih (settled_loaded h k y))

end Rewriting

end ReplCore
