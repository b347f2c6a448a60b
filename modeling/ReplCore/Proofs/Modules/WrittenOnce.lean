import ReplCore.Proofs.Modules.Flags
import ReplCore.Proofs.Values.Fields

/-!
# Entries are written once

A request adds at most the entry that it records and sets at most flags, whatever the cache. So the
cache after any number of requests is known from the requests: its entries are the specifiers that
were recorded, in the order in which they were recorded first, with their first targets, and an
entry has its flag just if a request noted it after it was recorded.

* `modules_serve`: the entries after one request.
* `serve_eq_error_iff`: which requests are refused, and that they change nothing.
* `serve_after`: the cache after a number of requests, and what a further request does to it.
-/

namespace ReplCore.ModuleCache

variable {c : ModuleCache} {s target : Text} {m : CachedModule}

/-! ## What a request may change -/

namespace Request

/-- The specifier and the target that a request is to record. -/
def recording? : Request → Option (Text × Text)
  | record s target => some (s, target)
  | _ => none

/-- Whether a request notes the module of an entry as fetched. -/
def notes (m : CachedModule) : Request → Bool
  | markFetched s => m.specifier = s
  | isFetched s keys => m.specifier = s ∧ keys.any (·.contains m.target)
  | _ => false

/-- An entry after a request. -/
def noted (r : Request) (m : CachedModule) : CachedModule :=
  { m with fetched := m.fetched || r.notes m }

/-- The entry that a request adds to those with the given specifiers. -/
def added (specifiers : List Text) : Request → List CachedModule
  | record s target => if specifiers.contains s then [] else [⟨s, target, false⟩]
  | _ => []

/-- Whether a request is refused where there are entries with the given specifiers. -/
def IsRefused (specifiers : List Text) : Request → Prop
  | record s _ => s ∈ specifiers
  | markFetched s => s ∉ specifiers
  | setTarget _ _ => True
  | _ => False

@[simp] theorem specifier_noted (r : Request) : (r.noted m).specifier = m.specifier := rfl

@[simp] theorem target_noted (r : Request) : (r.noted m).target = m.target := rfl

@[simp] theorem fetched_noted (r : Request) : (r.noted m).fetched = (m.fetched || r.notes m) := rfl

end Request

theorem contains_iff : c.contains s = true ↔ s ∈ c.modules.map CachedModule.specifier := by
  rw [contains, Option.isSome_iff_ne_none, Ne, get?_eq_none_iff, not_not]

/-! ## The steps of a request -/

/-- What is looked at is the cache at that moment. -/
theorem run_get_bind {α : Type} (f : ModuleCache → ExceptT Error (StateM ModuleCache) α) :
    (get >>= f).run.run c = (f c).run.run c := rfl

theorem serve_record : c.serve (.record s target) =
    match c.record s target with
    | .ok c' => (.ok (.target target), c')
    | .error e => (.error e, c) := by
  rw [serve, perform, run_get_bind, record]
  cases c.contains s <;> rfl

theorem serve_markFetched : c.serve (.markFetched s) =
    match c.markFetched s with
    | .ok c' => (.ok .done, c')
    | .error e => (.error e, c) := by
  rw [serve, perform, run_get_bind, markFetched]
  cases c.contains s <;> rfl

theorem serve_isFetched (keys : Option (List Text)) : c.serve (.isFetched s keys) =
    (.ok (.flag (c.isFetched s keys).1), (c.isFetched s keys).2) := by
  rw [serve, perform, run_get_bind]
  cases hentry : c.get? s with
  | none =>
    rw [isFetched, hentry]
    rfl
  | some m =>
    -- The flag is looked at again after it may have been set.
    have hnoted : ((c.note s).get? s).any CachedModule.fetched = true := by
      have hcontains : c.contains s = true := by rw [contains, hentry, Option.isSome_some]
      exact wasFetched_note.mpr (Or.inr ⟨rfl, hcontains⟩)
    rw [isFetched_of_get? keys hentry]
    dsimp only
    cases hfetched : m.fetched <;> cases keys.any (m.target ∈ ·)
    · change (Except.ok (Answer.flag ((c.get? s).any CachedModule.fetched)), c) = _
      rw [hentry, Option.any_some, hfetched]
      rfl
    · change (Except.ok (Answer.flag (((c.note s).get? s).any CachedModule.fetched)), c.note s) = _
      rw [hnoted]
      rfl
    all_goals
      change (Except.ok (Answer.flag ((c.get? s).any CachedModule.fetched)), c) = _
      rw [hentry, Option.any_some, hfetched]
      rfl

theorem serve_setTarget : c.serve (.setTarget s target) =
    (.error (if c.contains s then .targetIsFixed s else .noTarget s), c) := by
  rw [serve, perform, run_get_bind, contains]
  cases c.get? s <;> rfl

/-! ## One request -/

namespace Request

theorem noted_eq_self {r : Request} (h : r.notes m = true → m.fetched = true) : r.noted m = m := by
  have hfetched : (m.fetched || r.notes m) = m.fetched := Bool.or_eq_left_iff_imp.mpr h
  rw [noted, hfetched]

/-- Entries with flags that a request does not set are as they were. -/
theorem map_noted_eq_self {r : Request}
    (h : ∀ m ∈ c.modules, r.notes m = true → m.fetched = true) :
    c.modules.map r.noted = c.modules :=
  (List.map_congr_left fun m hm => noted_eq_self (h m hm)).trans c.modules.map_id

end Request

theorem modules_note {r : Request}
    (h : ∀ m ∈ c.modules, r.notes m = true ↔ m.specifier = s) :
    (c.note s).modules = c.modules.map r.noted := by
  refine List.map_congr_left fun m hm => ?_
  split
  · next hs => simp [Request.noted, (h m hm).mpr hs]
  · next hs => exact (Request.noted_eq_self fun hnotes => absurd ((h m hm).mp hnotes) hs).symm

/-- The entries after a request: the ones before it, each with its flag set if the request notes it,
and then the one that it adds. -/
theorem modules_serve (hnodup : (c.modules.map CachedModule.specifier).Nodup) (r : Request) :
    (c.serve r).2.modules =
      c.modules.map r.noted ++ r.added (c.modules.map CachedModule.specifier) := by
  have hsilent : ∀ {r : Request}, (∀ m, r.notes m = false) → c.modules.map r.noted = c.modules :=
    fun hr => Request.map_noted_eq_self fun m _ hnotes =>
      absurd ((hr m).symm.trans hnotes) Bool.false_ne_true
  cases r with
  | record s target =>
    rw [serve_record, record, hsilent fun _ => rfl]
    by_cases hs : s ∈ c.modules.map CachedModule.specifier
    · rw [if_pos (contains_iff.mpr hs), Request.added, if_pos (List.contains_iff_mem.mpr hs),
        List.append_nil]
    · rw [if_neg (mt contains_iff.mp hs), Request.added, if_neg (mt List.contains_iff_mem.mp hs)]
  | markFetched s =>
    refine Eq.trans ?_ (List.append_nil _).symm
    rw [serve_markFetched, markFetched]
    by_cases hs : s ∈ c.modules.map CachedModule.specifier
    · rw [if_pos (contains_iff.mpr hs)]
      exact modules_note fun m _ => decide_eq_true_iff
    · rw [if_neg (mt contains_iff.mp hs), Request.map_noted_eq_self]
      intro m hm hnotes
      have hspecifier : m.specifier = s := of_decide_eq_true hnotes
      exact absurd (hspecifier ▸ List.mem_map_of_mem hm) hs
  | isFetched s keys =>
    refine Eq.trans ?_ (List.append_nil _).symm
    rw [serve_isFetched]
    cases hentry : c.get? s with
    | none =>
      rw [isFetched, hentry, Request.map_noted_eq_self]
      intro m hm hnotes
      have hspecifier : m.specifier = s := (of_decide_eq_true hnotes).1
      exact absurd (hspecifier ▸ List.mem_map_of_mem hm) (get?_eq_none_iff.mp hentry)
    | some m =>
      -- The entry that is looked at is the only one of the specifier.
      have honly : ∀ m' ∈ c.modules, m'.specifier = s → m' = m := by
        rintro m' hm' rfl
        exact Option.some.inj ((get?_of_mem hnodup hm').symm.trans hentry)
      rw [isFetched_of_get? keys hentry]
      by_cases hfetched : m.fetched = true
      · rw [if_pos hfetched, Request.map_noted_eq_self]
        intro m' hm' hnotes
        rw [honly m' hm' (of_decide_eq_true hnotes).1, hfetched]
      have hany : (keys.any fun names => m.target ∈ names) = keys.any (·.contains m.target) := by
        simp only [List.contains_eq_mem]
      rw [if_neg hfetched, hany]
      by_cases hkeys : keys.any (·.contains m.target) = true
      · rw [if_pos hkeys]
        refine modules_note fun m' hm' => ⟨fun hnotes => (of_decide_eq_true hnotes).1, fun hs => ?_⟩
        obtain rfl := honly m' hm' hs
        exact decide_eq_true ⟨hs, hkeys⟩
      · rw [if_neg hkeys, Request.map_noted_eq_self]
        intro m' hm' hnotes
        obtain ⟨hs, hkeys'⟩ := of_decide_eq_true hnotes
        rw [honly m' hm' hs] at hkeys'
        exact absurd hkeys' hkeys
  | setTarget s target =>
    rw [serve_setTarget, hsilent fun _ => rfl]
    exact (List.append_nil _).symm
  | get s | contains s | size =>
    rw [hsilent fun _ => rfl]
    exact (List.append_nil _).symm

/-- A request is refused just if it records what is there, marks what is not, or writes a target. A
refused request changes nothing. -/
theorem serve_eq_error_iff {r : Request} :
    ((∃ e, (c.serve r).1 = .error e) ↔ r.IsRefused (c.modules.map CachedModule.specifier)) ∧
      (r.IsRefused (c.modules.map CachedModule.specifier) → (c.serve r).2 = c) := by
  cases r with
  | record s target =>
    rw [serve_record, record, Request.IsRefused, ← contains_iff]
    cases c.contains s <;> simp
  | markFetched s =>
    rw [serve_markFetched, markFetched, Request.IsRefused, ← contains_iff]
    cases c.contains s <;> simp
  | isFetched s keys =>
    rw [serve_isFetched]
    simp [Request.IsRefused]
  | setTarget s target =>
    rw [serve_setTarget]
    simp [Request.IsRefused]
  | get s | contains s | size =>
    refine ⟨⟨?_, False.elim⟩, False.elim⟩
    rintro ⟨e, h⟩
    cases h

/-! ## Any number of requests -/

/-- The cache after requests to an empty one. -/
def after (requests : List Request) : ModuleCache := requests.foldl (fun c r => (c.serve r).2) empty

theorem after_append_singleton (requests : List Request) (r : Request) :
    after (requests ++ [r]) = ((after requests).serve r).2 := List.foldl_append

/-- What requests are to record, in order. -/
def recordings (requests : List Request) : List (Text × Text) :=
  requests.filterMap Request.recording?

theorem recordings_append (requests more : List Request) :
    recordings (requests ++ more) = recordings requests ++ recordings more := List.filterMap_append

theorem map_specifier_added (specifiers : List Text) (r : Request) :
    (r.added specifiers).map CachedModule.specifier =
      ((recordings [r]).map (·.1)).filter (· ∉ specifiers) := by
  cases r with
  | record s target =>
    by_cases hs : s ∈ specifiers <;> simp [Request.added, recordings, Request.recording?, hs]
  | _ => rfl

/-- There is one entry for each recorded specifier, in the order of their first recordings. By
induction on the requests, from the last of them. -/
theorem specifiers_after (requests : List Request) :
    (after requests).modules.map CachedModule.specifier =
      ((recordings requests).map (·.1)).eraseDups := by
  induction requests using List.reverseRecOn with
  | nil => rfl
  | append_singleton requests r ih =>
    have hnodup : ((after requests).modules.map CachedModule.specifier).Nodup :=
      ih ▸ nodup_eraseDups _
    have hspecifiers : (after (requests ++ [r])).modules.map CachedModule.specifier =
        ((recordings requests).map (·.1)).eraseDups ++
          ((recordings [r]).map (·.1)).filter (· ∉ (recordings requests).map (·.1)) := by
      have hold : (after requests).modules.map (CachedModule.specifier ∘ r.noted) =
          (after requests).modules.map CachedModule.specifier := rfl
      rw [after_append_singleton, modules_serve hnodup, List.map_append, List.map_map, hold,
        map_specifier_added, ih]
      simp only [List.mem_eraseDups]
    rw [hspecifiers, recordings_append, List.map_append]
    cases hr : r.recording? with
    | none => simp [recordings, hr]
    | some e =>
      have hone : (recordings [r]).map (·.1) = [e.1] := by simp [recordings, hr]
      rw [hone, eraseDups_append_singleton]
      split
      · next he =>
        rw [List.filter_cons_of_neg (by simpa using he), List.filter_nil, List.append_nil]
      · next he => rw [List.filter_cons_of_pos (by simpa using he), List.filter_nil]

theorem nodup_specifiers_after (requests : List Request) :
    ((after requests).modules.map CachedModule.specifier).Nodup := by
  rw [specifiers_after]
  exact nodup_eraseDups _

/-- Whether some of the requests noted the module of an entry when it was recorded. -/
def WasNoted (requests : List Request) (m : CachedModule) : Prop :=
  ∃ earlier r later, requests = earlier ++ r :: later ∧
    m.specifier ∈ (recordings earlier).map (·.1) ∧ r.notes m = true

theorem wasNoted_append_singleton {requests : List Request} {r : Request} :
    WasNoted (requests ++ [r]) m ↔ WasNoted requests m ∨
      m.specifier ∈ (recordings requests).map (·.1) ∧ r.notes m = true := by
  constructor
  · rintro ⟨earlier, r', later, heq, hrecorded, hnotes⟩
    rcases List.eq_nil_or_concat later with rfl | ⟨later, r'', rfl⟩
    · obtain ⟨rfl, hlast⟩ := List.append_inj' heq rfl
      obtain rfl := List.singleton_inj.mp hlast
      exact Or.inr ⟨hrecorded, hnotes⟩
    · rw [List.concat_eq_append, ← List.cons_append, ← List.append_assoc] at heq
      exact Or.inl ⟨earlier, r', later, (List.append_inj' heq rfl).1, hrecorded, hnotes⟩
  · rintro (⟨earlier, r', later, rfl, hrecorded, hnotes⟩ | ⟨hrecorded, hnotes⟩)
    · exact ⟨earlier, r', later ++ [r], by simp, hrecorded, hnotes⟩
    · exact ⟨requests, r, [], rfl, hrecorded, hnotes⟩

theorem WasNoted.recorded {requests : List Request} (h : WasNoted requests m) :
    m.specifier ∈ (recordings requests).map (·.1) := by
  obtain ⟨earlier, r, later, rfl, hrecorded, -⟩ := h
  rw [recordings_append, List.map_append]
  exact List.mem_append_left _ hrecorded

/-- What an added entry shows: it was not recorded before, and is recorded by the request. -/
theorem mem_added {specifiers : List Text} {r : Request} (hm : m ∈ r.added specifiers) :
    m.specifier ∉ specifiers ∧ m.fetched = false ∧
      recordings [r] = [(m.specifier, m.target)] := by
  cases r with
  | record s target =>
    rw [Request.added] at hm
    split at hm
    · cases hm
    · next hs =>
      rw [List.mem_singleton.mp hm]
      exact ⟨mt List.contains_iff_mem.mpr hs, rfl, rfl⟩
  | _ => cases hm

/-- An entry has the target that was recorded first, and its flag just if it was noted. By induction
on the requests, from the last of them. -/
theorem entry_after {requests : List Request} (hm : m ∈ (after requests).modules) :
    firstField? (recordings requests) m.specifier = some m.target ∧
      (m.fetched = true ↔ WasNoted requests m) := by
  induction requests using List.reverseRecOn generalizing m with
  | nil => cases hm
  | append_singleton requests r ih =>
    rw [after_append_singleton, modules_serve (nodup_specifiers_after requests)] at hm
    rw [recordings_append, firstField?_append, wasNoted_append_singleton]
    rcases List.mem_append.mp hm with hm | hm
    · obtain ⟨m, hentry, rfl⟩ := List.mem_map.mp hm
      obtain ⟨htarget, hfetched⟩ := ih hentry
      have hrecorded : m.specifier ∈ (recordings requests).map (·.1) := by
        rw [← List.mem_eraseDups, ← specifiers_after]
        exact List.mem_map_of_mem hentry
      have hnoted : WasNoted requests (r.noted m) ↔ WasNoted requests m := Iff.rfl
      rw [Request.specifier_noted, Request.target_noted, htarget, Option.some_or, hnoted,
        ← hfetched, Request.fetched_noted, Bool.or_eq_true]
      have hnotes : r.notes (r.noted m) = r.notes m := rfl
      simp [hrecorded, hnotes]
    · obtain ⟨hnew, hfetched, hrecording⟩ := mem_added hm
      rw [specifiers_after, List.mem_eraseDups] at hnew
      have hunnoted : ¬ WasNoted requests m := fun h => hnew h.recorded
      rw [firstField?_eq_none_iff.mpr hnew, Option.none_or, hrecording, firstField?_cons,
        if_pos rfl]
      simp [hfetched, hnew, hunnoted]

/-- After any number of requests to an empty cache, its entries are the specifiers that were
recorded, in the order in which they were recorded first, each with the target that it was recorded
with first and fetched just if it was noted since. A further request leaves the entries in their
places and with their targets, sets the flags that it notes, and adds an entry just if it records a
specifier that is not there. It is refused just if it records what is there, marks what is not, or
writes a target, and then nothing changes. -/
theorem serve_after (requests : List Request) (r : Request) :
    let c := after requests
    let specifiers := c.modules.map CachedModule.specifier
    specifiers = ((recordings requests).map (·.1)).eraseDups ∧
      (∀ m ∈ c.modules, firstField? (recordings requests) m.specifier = some m.target ∧
        (m.fetched = true ↔ WasNoted requests m)) ∧
      (c.serve r).2.modules = c.modules.map r.noted ++ r.added specifiers ∧
      ((∃ e, (c.serve r).1 = .error e) ↔ r.IsRefused specifiers) ∧
      (r.IsRefused specifiers → (c.serve r).2 = c) := by
  intro c specifiers
  exact ⟨specifiers_after requests, fun m hm => entry_after hm,
    modules_serve (nodup_specifiers_after requests) r, serve_eq_error_iff⟩

end ReplCore.ModuleCache
