import Mathlib.Data.List.Nodup
import ReplCore.Proofs.Modules.Redirects

/-!
# Which modules were fetched

The flag of an entry is set when the module is marked, and when it is asked for or confirmed with a
namespace that has its URL. Nothing else changes a flag, and an entry starts without one.

* `wasFetched_note`, `wasFetched_isFetched`: the flags after a module is noted or asked for.
* `modules_confirm`: all entries after they are confirmed.
-/

namespace ReplCore

namespace CachedModule

/-- The entry once it was confirmed with the keys of a namespace. -/
def confirmed (keys : List Text) (m : CachedModule) : CachedModule :=
  { m with fetched := m.fetched || keys.contains m.target }

variable {keys : List Text} {m : CachedModule}

@[simp] theorem specifier_confirmed : (m.confirmed keys).specifier = m.specifier := rfl

theorem confirmed_of_fetched (h : m.fetched = true) : m.confirmed keys = m := by
  rw [confirmed, h, Bool.true_or, ← h]

theorem confirmed_of_notMem (h : m.target ∉ keys) : m.confirmed keys = m := by
  simp [confirmed, h]

end CachedModule

namespace ModuleCache

variable {c : ModuleCache} {s x target : Text} {m : CachedModule} {keys : List Text}

theorem specifier_of_get? (h : c.get? s = some m) : m.specifier = s := by
  simpa using List.find?_some h

theorem mem_of_get? (h : c.get? s = some m) : m ∈ c.modules := List.mem_of_find?_eq_some h

/-- A change of the entries that keeps specifiers changes what is found. -/
theorem get?_map {f : CachedModule → CachedModule} (hf : ∀ m, (f m).specifier = m.specifier) :
    ModuleCache.get? ⟨c.modules.map f⟩ s = (c.get? s).map f := by
  simp only [get?, List.find?_map, Function.comp_def, hf]

/-- Whether a specifier has an entry for a module that was fetched. -/
def wasFetched (c : ModuleCache) (s : Text) : Bool := (c.get? s).any CachedModule.fetched

/-- A new entry is not one for a module that was fetched. -/
theorem wasFetched_append : ModuleCache.wasFetched ⟨c.modules ++ [⟨s, target, false⟩]⟩ x =
    c.wasFetched x := by
  rw [wasFetched, wasFetched, get?, get?, List.find?_append]
  cases c.modules.find? fun m => m.specifier = x with
  | some m => rfl
  | none => by_cases hs : s = x <;> simp [hs]

theorem wasFetched_note : (c.note s).wasFetched x = true ↔
    c.wasFetched x = true ∨ x = s ∧ c.contains s = true := by
  have hnote : (c.note s).get? x = (c.get? x).map fun m =>
      if m.specifier = s then { m with fetched := true } else m :=
    get?_map fun m => by split <;> rfl
  rw [wasFetched, wasFetched, hnote]
  cases hentry : c.get? x with
  | none =>
    have hne : ¬ (x = s ∧ c.contains s = true) := by
      rintro ⟨rfl, hcontains⟩
      simp [contains, hentry] at hcontains
    simp [hne]
  | some m =>
    obtain rfl := specifier_of_get? hentry
    by_cases hs : m.specifier = s
    · subst hs
      simp [contains, hentry]
    · simp [hs]

theorem isFetched_of_get? (keys : Option (List Text)) (hentry : c.get? s = some m) :
    c.isFetched s keys =
      if m.fetched = true then (true, c)
      else if keys.any (m.target ∈ ·) = true then (true, c.note s) else (false, c) := by
  simp only [isFetched, hentry]

theorem fst_isFetched (keys : Option (List Text)) (hentry : c.get? s = some m) :
    (c.isFetched s keys).1 = (m.fetched || keys.any (m.target ∈ ·)) := by
  rw [isFetched_of_get? keys hentry]
  cases m.fetched <;> cases keys.any (m.target ∈ ·) <;> rfl

/-- Asking for a module notes it just if the namespace has its URL. -/
theorem wasFetched_isFetched (keys : Option (List Text)) (hentry : c.get? s = some m) :
    (c.isFetched s keys).2.wasFetched x = true ↔
      c.wasFetched x = true ∨ x = s ∧ keys.any (m.target ∈ ·) = true := by
  have hcontains : c.contains s = true := by simp [contains, hentry]
  rw [isFetched_of_get? keys hentry]
  cases hfetched : m.fetched with
  | true =>
    have hwas : x = s → c.wasFetched x = true := by
      rintro rfl
      rw [wasFetched, hentry, Option.any_some, hfetched]
    simpa using fun hx _ => hwas hx
  | false =>
    cases hkeys : keys.any (m.target ∈ ·) with
    | true => simp [wasFetched_note, hcontains]
    | false => simp

/-! ## Confirming all entries -/

/-- Asking for the module of an entry confirms that entry. -/
theorem isFetched_entry {before after : List CachedModule}
    (hnodup : ((before ++ m :: after).map CachedModule.specifier).Nodup) :
    (ModuleCache.isFetched ⟨before ++ m :: after⟩ m.specifier (some keys)).2 =
      ⟨before ++ m.confirmed keys :: after⟩ := by
  have hentry : ModuleCache.get? ⟨before ++ m :: after⟩ m.specifier = some m :=
    get?_of_mem hnodup (by simp)
  rw [isFetched_of_get? _ hentry]
  cases hfetched : m.fetched with
  | true => simp [CachedModule.confirmed_of_fetched hfetched]
  | false =>
    by_cases hkeys : m.target ∈ keys
    · have hother : ∀ m' ∈ before ++ after, m'.specifier ≠ m.specifier := by
        rw [List.map_append, List.map_cons, List.nodup_middle, List.nodup_cons,
          ← List.map_append] at hnodup
        intro m' hm' heq
        exact hnodup.1 (heq ▸ List.mem_map_of_mem hm')
      have hkeep : ∀ ms : List CachedModule, (∀ m' ∈ ms, m'.specifier ≠ m.specifier) →
          (ms.map fun m' => if m'.specifier = m.specifier then { m' with fetched := true } else m') =
            ms :=
        fun ms hms => (List.map_congr_left fun m' hm' => if_neg (hms m' hm')).trans ms.map_id
      have hbefore := hkeep before fun m' hm' => hother m' (List.mem_append_left _ hm')
      have hafter := hkeep after fun m' hm' => hother m' (List.mem_append_right _ hm')
      simp [hkeys, note, hbefore, hafter, CachedModule.confirmed]
    · simp [hkeys, CachedModule.confirmed_of_notMem hkeys]

/-- Confirming sets the flag of just the entries whose URL is among the keys. -/
theorem modules_confirm (hnodup : (c.modules.map CachedModule.specifier).Nodup)
    (keys : List Text) : (c.confirm keys).modules = c.modules.map (CachedModule.confirmed keys) := by
  -- The entries before the one that is asked for are confirmed already.
  have hfold : ∀ after before : List CachedModule,
      ((before ++ after).map CachedModule.specifier).Nodup →
        after.foldl (fun c m => (c.isFetched m.specifier (some keys)).2) ⟨before ++ after⟩ =
          (⟨before ++ after.map (CachedModule.confirmed keys)⟩ : ModuleCache) := by
    intro after
    induction after with
    | nil => exact fun before _ => rfl
    | cons m after ih =>
      intro before hnodup
      have hmore := ih (before ++ [m.confirmed keys]) (by simpa using hnodup)
      rw [List.append_assoc, List.singleton_append] at hmore
      rw [List.foldl_cons, isFetched_entry hnodup, hmore, List.append_assoc, List.map_cons,
        List.singleton_append]
  exact congrArg modules (hfold c.modules [] hnodup)

theorem wasFetched_confirm (hnodup : (c.modules.map CachedModule.specifier).Nodup) :
    (c.confirm keys).wasFetched x = true ↔
      c.wasFetched x = true ∨ ∃ m, c.get? x = some m ∧ m.target ∈ keys := by
  have hmodules : c.confirm keys = ⟨c.modules.map (CachedModule.confirmed keys)⟩ := by
    rw [← modules_confirm hnodup]
  rw [wasFetched, wasFetched, hmodules, get?_map fun _ => CachedModule.specifier_confirmed]
  cases c.get? x <;> simp [CachedModule.confirmed]

end ModuleCache

end ReplCore
