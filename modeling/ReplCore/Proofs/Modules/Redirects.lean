import Mathlib.Logic.Relation
import ReplCore.Modules.Resolver

/-!
# What can happen to redirects

A resolver changes in two ways only: a package without an entry is redirected and announced, or an
entry is noted as fetched. Whatever the operations on it and whatever the local lookup answers, what
holds of every resolver that such steps lead to holds of it.

* `steps_of_resolve`, `steps_isFetched`, `steps_confirm`, `steps_markFetched`: each operation is a
  number of steps.
* `Settled.of_steps`: entries are packages, each with the target that its address gives and with one
  notice.
* `later_of_steps`: entries stay, with their targets, and fetched modules stay fetched.
-/

namespace ReplCore

namespace Specifier

/-- Different packages have different URLs on one network. -/
theorem cdnUrl_injective (base : Text) : Function.Injective (cdnUrl base) := by
  intro s s' h
  have h : Text.trimEnd (· = '/') base ++ "/".toList ++ (s ++ "/+esm".toList) =
      Text.trimEnd (· = '/') base ++ "/".toList ++ (s' ++ "/+esm".toList) := by
    simpa only [cdnUrl, List.append_assoc] using h
  exact List.append_cancel_right (List.append_cancel_left h)

end Specifier

namespace ModuleCache

/-! ## Entries -/

theorem get?_eq_none_iff {c : ModuleCache} {s : Text} :
    c.get? s = none ↔ s ∉ c.modules.map CachedModule.specifier := by
  simp [get?, List.find?_eq_none]

/-- With one entry for each specifier, an entry is found under its specifier. -/
theorem get?_of_mem {c : ModuleCache} (hnodup : (c.modules.map CachedModule.specifier).Nodup)
    {m : CachedModule} (hm : m ∈ c.modules) : c.get? m.specifier = some m := by
  obtain ⟨before, after, hmodules⟩ := List.append_of_mem hm
  rw [hmodules, List.map_append, List.nodup_append] at hnodup
  rw [get?, hmodules, List.find?_append, List.find?_eq_none.mpr, Option.none_or,
    List.find?_cons_of_pos (by simp)]
  intro other hother
  have hne := hnodup.2.2 _ (List.mem_map_of_mem hother) m.specifier (by simp)
  simpa using hne

@[simp] theorem specifiers_note (c : ModuleCache) (s : Text) :
    (c.note s).modules.map CachedModule.specifier = c.modules.map CachedModule.specifier := by
  rw [note, List.map_map]
  refine List.map_congr_left fun m _ => ?_
  rw [Function.comp]
  split <;> rfl

/-- Noting that a module was fetched keeps the specifier and the target of every entry. -/
theorem mem_note {c : ModuleCache} {s : Text} {m : CachedModule} (hm : m ∈ (c.note s).modules) :
    ∃ m' ∈ c.modules, m.specifier = m'.specifier ∧ m.target = m'.target := by
  obtain ⟨m', hm', rfl⟩ := List.mem_map.mp hm
  refine ⟨m', hm', ?_⟩
  split <;> exact ⟨rfl, rfl⟩

end ModuleCache

namespace Resolver

/-! ## Steps -/

/-- One change of a resolver. -/
inductive Step : Resolver → Resolver → Prop
  /-- A package without an entry is redirected and announced. -/
  | redirect {r : Resolver} {base s : Text} (address : r.cdnBase = some base)
      (isPackage : isFixed s = false) (isNew : r.cache.get? s = none) :
      Step r { r with
        cache := ⟨r.cache.modules ++ [⟨s, Specifier.cdnUrl base s, false⟩]⟩
        notices := r.notices ++ [notice s] }
  /-- A module is noted as fetched. -/
  | note (r : Resolver) (s : Text) : Step r { r with cache := r.cache.note s }

/-- Any number of changes. -/
abbrev Steps : Resolver → Resolver → Prop := Relation.ReflTransGen Step

theorem Step.cdnBase_eq {r r' : Resolver} (h : Step r r') : r'.cdnBase = r.cdnBase := by
  cases h <;> rfl

theorem Steps.cdnBase_eq {r r' : Resolver} (h : Steps r r') : r'.cdnBase = r.cdnBase := by
  induction h with
  | refl => rfl
  | tail _ step ih => rw [step.cdnBase_eq, ih]

/-! ## Operations -/

/-- The resolver once a package was redirected and announced. -/
def redirect (r : Resolver) (base s : Text) : Resolver :=
  { r with
    cache := ⟨r.cache.modules ++ [⟨s, Specifier.cdnUrl base s, false⟩]⟩
    notices := r.notices ++ [notice s] }

theorem redirectNew_eq {r : Resolver} {base s : Text} (hnew : r.cache.get? s = none)
    (hbase : r.cdnBase = some base) :
    r.redirectNew s = .ok (Specifier.cdnUrl base s, r.redirect base s) := by
  simp [redirectNew, redirect, hbase, ModuleCache.record, ModuleCache.contains, hnew]

theorem exists_of_redirectNew {r r' : Resolver} {s target : Text} (hnew : r.cache.get? s = none)
    (h : r.redirectNew s = .ok (target, r')) : ∃ base, r.cdnBase = some base ∧
      target = Specifier.cdnUrl base s ∧ r' = r.redirect base s := by
  rcases Option.eq_none_or_eq_some r.cdnBase with hbase | ⟨base, hbase⟩
  · rw [redirectNew, hbase] at h
    cases h
  · rw [redirectNew_eq hnew hbase] at h
    obtain ⟨rfl, rfl⟩ := Prod.mk.inj (Except.ok.inj h)
    exact ⟨base, hbase, rfl, rfl⟩

theorem get?_redirect {r : Resolver} {s : Text} (hnew : r.cache.get? s = none) (base : Text) :
    (r.redirect base s).cache.get? s = some ⟨s, Specifier.cdnUrl base s, false⟩ := by
  rw [ModuleCache.get?] at hnew
  simp [ModuleCache.get?, redirect, List.find?_append, hnew]

/-- Resolving a specifier redirects it or has no effect. -/
theorem steps_of_resolve {r r' : Resolver} {lookup : LocalLookup} {s target : Text}
    {enabled : Bool} (h : r.resolve lookup s enabled = .ok (target, r')) : Steps r r' := by
  rw [resolve_def] at h
  split at h
  · cases h
    exact .refl
  · next hfree =>
    split at h
    · cases h
      exact .refl
    · next hnew =>
      split at h
      · cases h
        exact .refl
      obtain ⟨base, hbase, -, rfl⟩ := exists_of_redirectNew hnew h
      refine .single (.redirect hbase ?_ hnew)
      simp only [Bool.or_eq_true, not_or, Bool.not_eq_true] at hfree
      exact hfree.2

/-- A resolver with an address resolves every specifier. -/
theorem exists_resolve_eq_ok {r : Resolver} {base : Text} (hbase : r.cdnBase = some base)
    (lookup : LocalLookup) (s : Text) (enabled : Bool) :
    ∃ target r', r.resolve lookup s enabled = .ok (target, r') := by
  rw [resolve_def]
  split
  · exact ⟨_, _, rfl⟩
  · split
    · exact ⟨_, _, rfl⟩
    · next hnew =>
      split
      · exact ⟨_, _, rfl⟩
      · exact ⟨_, _, redirectNew_eq hnew hbase⟩

theorem steps_isFetched (r : Resolver) (s : Text) (keys : Option (List Text)) :
    Steps r { r with cache := (r.cache.isFetched s keys).2 } := by
  unfold ModuleCache.isFetched
  split
  · exact .refl
  · split
    · exact .refl
    split
    · exact .single (.note r s)
    · exact .refl

theorem steps_confirm (r : Resolver) (keys : List Text) :
    Steps r { r with cache := r.cache.confirm keys } := by
  have hfold : ∀ (ms : List CachedModule) (c : ModuleCache),
      Steps { r with cache := c } { r with
        cache := ms.foldl (fun c m => (c.isFetched m.specifier (some keys)).2) c } := by
    intro ms
    induction ms with
    | nil => exact fun c => .refl
    | cons m ms ih =>
      intro c
      exact (steps_isFetched { r with cache := c } m.specifier (some keys)).trans (ih _)
  exact hfold r.cache.modules r.cache

theorem steps_markFetched {r : Resolver} {c : ModuleCache} {s : Text}
    (h : r.cache.markFetched s = .ok c) : Steps r { r with cache := c } := by
  unfold ModuleCache.markFetched at h
  split at h
  · cases h
    exact .single (.note r s)
  · cases h

/-- The target of an entry is the answer whatever the lookup says. -/
theorem resolve_of_get? {r : Resolver} {s : Text} {m : CachedModule} (hfree : isFixed s = false)
    (hm : r.cache.get? s = some m) (lookup : LocalLookup) :
    r.resolve lookup s true = .ok (m.target, r) := by
  simp [resolve_def, hfree, hm]

/-- There is no lookup, nor any effect of one, for a specifier with an entry. -/
theorem resolveIn_of_get? {m : Type → Type} [Monad m] {r : Resolver} {s : Text}
    {entry : CachedModule} (hfree : isFixed s = false) (hentry : r.cache.get? s = some entry)
    (lookup : Text → m (Except LookupError Bool)) :
    r.resolveIn lookup s true = pure (.ok (entry.target, r)) := by
  simp [resolveIn, hfree, hentry]

/-! ## What holds at every moment -/

/-- The entries are packages, one for each, with the targets that the address gives, and each was
announced once, in order. -/
structure Settled (base : Text) (r : Resolver) : Prop where
  cdnBase_eq : r.cdnBase = some base
  isPackage : ∀ m ∈ r.cache.modules, isFixed m.specifier = false
  target_eq : ∀ m ∈ r.cache.modules, m.target = Specifier.cdnUrl base m.specifier
  nodup : (r.cache.modules.map CachedModule.specifier).Nodup
  notices_eq : r.notices = (r.cache.modules.map CachedModule.specifier).map notice

namespace Settled

variable {base : Text} {r r' : Resolver}

theorem fresh (base : Text) : Settled base (.fresh (some base)) where
  cdnBase_eq := rfl
  isPackage := by simp [Resolver.fresh, ModuleCache.empty]
  target_eq := by simp [Resolver.fresh, ModuleCache.empty]
  nodup := by simp [Resolver.fresh, ModuleCache.empty]
  notices_eq := rfl

theorem of_step (h : Settled base r) (hstep : Step r r') : Settled base r' := by
  cases hstep with
  | @redirect base' s address isPackage isNew =>
    obtain rfl : base' = base := Option.some.inj (address.symm.trans h.cdnBase_eq)
    refine ⟨h.cdnBase_eq, ?_, ?_, ?_, ?_⟩
    · intro m hm
      rcases List.mem_append.mp hm with hm | hm
      · exact h.isPackage m hm
      · rw [List.mem_singleton.mp hm]
        exact isPackage
    · intro m hm
      rcases List.mem_append.mp hm with hm | hm
      · exact h.target_eq m hm
      · rw [List.mem_singleton.mp hm]
    · have hnotin := ModuleCache.get?_eq_none_iff.mp isNew
      rw [List.map_append, List.nodup_append]
      refine ⟨h.nodup, by simp, ?_⟩
      intro a ha b hb hab
      obtain rfl : a = s := hab.trans (List.mem_singleton.mp hb)
      exact hnotin ha
    · simp [h.notices_eq]
  | note s =>
    refine ⟨h.cdnBase_eq, ?_, ?_, ?_, ?_⟩
    · intro m hm
      obtain ⟨m', hm', hspecifier, -⟩ := ModuleCache.mem_note hm
      rw [hspecifier]
      exact h.isPackage m' hm'
    · intro m hm
      obtain ⟨m', hm', hspecifier, htarget⟩ := ModuleCache.mem_note hm
      rw [hspecifier, htarget]
      exact h.target_eq m' hm'
    · rw [ModuleCache.specifiers_note]
      exact h.nodup
    · rw [ModuleCache.specifiers_note]
      exact h.notices_eq

theorem of_steps (h : Settled base r) (hsteps : Steps r r') : Settled base r' := by
  induction hsteps with
  | refl => exact h
  | tail _ step ih => exact ih.of_step step

theorem get?_eq (h : Settled base r) {m : CachedModule} (hm : m ∈ r.cache.modules) :
    r.cache.get? m.specifier = some m := ModuleCache.get?_of_mem h.nodup hm

end Settled

/-! ## What holds between two moments -/

/-- Every entry is still there, in its place and with its target, and it is fetched if it was. -/
def Later (r r' : Resolver) : Prop :=
  ∀ (i : Nat) (m : CachedModule), r.cache.modules[i]? = some m →
    ∃ m' : CachedModule, r'.cache.modules[i]? = some m' ∧ m'.specifier = m.specifier ∧
      m'.target = m.target ∧ (m.fetched = true → m'.fetched = true)

theorem Later.refl (r : Resolver) : Later r r := fun _ m hm => ⟨m, hm, rfl, rfl, id⟩

theorem Later.trans {r r' r'' : Resolver} (h : Later r r') (h' : Later r' r'') : Later r r'' := by
  intro i m hm
  obtain ⟨m', hm', hspecifier, htarget, hfetched⟩ := h i m hm
  obtain ⟨m'', hm'', hspecifier', htarget', hfetched'⟩ := h' i m' hm'
  exact ⟨m'', hm'', hspecifier'.trans hspecifier, htarget'.trans htarget, hfetched' ∘ hfetched⟩

theorem later_of_step {r r' : Resolver} (h : Step r r') : Later r r' := by
  intro i m hm
  cases h with
  | redirect =>
    refine ⟨m, ?_, rfl, rfl, id⟩
    rw [List.getElem?_append_left (List.getElem?_eq_some_iff.mp hm).1, hm]
  | note s =>
    refine ⟨if m.specifier = s then { m with fetched := true } else m, ?_, ?_⟩
    · rw [ModuleCache.note, List.getElem?_map, hm]
      rfl
    · split
      · exact ⟨rfl, rfl, fun _ => rfl⟩
      · exact ⟨rfl, rfl, id⟩

theorem later_of_steps {r r' : Resolver} (h : Steps r r') : Later r r' := by
  induction h with
  | refl => exact .refl r
  | tail _ step ih => exact ih.trans (later_of_step step)

end Resolver

end ReplCore
