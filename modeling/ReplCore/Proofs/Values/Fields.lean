import Mathlib.Data.List.Induction
import Mathlib.Data.List.Nodup
import ReplCore.Value

/-!
# Fields that are written one after the other

Of several fields with one key the first gives the place and the last gives the value. A record that
is read field by field keeps, of everything that was written to one of its parts, what was written
last.

* `map_fst_putFields`, `firstField?_putFields`: the keys and the values after several fields are
  written.
* `filter_putFields`: the fields with some of the keys do not depend on the others.
* `get_foldl`: what a reader of entries leaves in one of its parts.
-/

namespace ReplCore

/-! ## Lists -/

theorem nodup_eraseDups {α : Type} [BEq α] [LawfulBEq α] : ∀ l : List α, l.eraseDups.Nodup
  | [] => List.nodup_nil
  | a :: l => by
    have hlt : (l.filter fun b => !b == a).length < (a :: l).length :=
      Nat.lt_succ_of_le (List.length_filter_le _ l)
    have ih := nodup_eraseDups (l.filter fun b => !b == a)
    rw [List.eraseDups_cons, List.nodup_cons]
    exact ⟨by simp [List.mem_eraseDups], ih⟩
termination_by l => l.length
decreasing_by exact hlt

/-- An element that comes after others is new if it is not among them. -/
theorem eraseDups_append_singleton {α : Type} [BEq α] [LawfulBEq α] (l : List α) (a : α) :
    (l ++ [a]).eraseDups = if a ∈ l then l.eraseDups else l.eraseDups ++ [a] := by
  rw [List.eraseDups_append]
  by_cases h : a ∈ l <;> simp [List.removeAll, h, List.eraseDups_cons]

/-- Where the keys of a table differ, what is found under a key is the entry with that key. -/
theorem map_find?_eq_some_iff {α β κ : Type} [DecidableEq κ] {table : List α} {key : α → κ}
    {value : α → β} (hnodup : (table.map key).Nodup) {k : κ} {b : β} :
    (table.find? fun a => key a = k).map value = some b ↔
      ∃ a ∈ table, key a = k ∧ value a = b := by
  rw [Option.map_eq_some_iff]
  constructor
  · rintro ⟨a, ha, rfl⟩
    exact ⟨a, List.mem_of_find?_eq_some ha, by simpa using List.find?_some ha, rfl⟩
  · rintro ⟨a, ha, rfl, rfl⟩
    obtain ⟨a', ha'⟩ : ∃ a', table.find? (fun x => key x = key a) = some a' :=
      Option.isSome_iff_exists.mp (List.find?_isSome.mpr ⟨a, ha, decide_eq_true rfl⟩)
    have hkey : key a' = key a := by simpa using List.find?_some ha'
    obtain rfl := List.inj_on_of_nodup_map hnodup (List.mem_of_find?_eq_some ha') ha hkey
    exact ⟨a', ha', rfl⟩

/-! ## Readers of entries -/

/-- A part of what is read that an entry either writes or leaves alone has the value that was
written last. -/
theorem get_foldl {σ ε β : Type} {read : σ → ε → σ} (get : σ → β) (written? : ε → Option β)
    (hread : ∀ s e, get (read s e) = (written? e).getD (get s)) (entries : List ε) (s : σ) :
    get (entries.foldl read s) = ((entries.filterMap written?).getLast?).getD (get s) := by
  induction entries using List.reverseRecOn with
  | nil => rfl
  | append_singleton entries e ih =>
    rw [List.foldl_append, List.foldl_cons, List.foldl_nil, hread, ih, List.filterMap_append,
      List.getLast?_append]
    cases he : written? e <;> simp [he]

/-! ## Fields -/

section Fields

variable {α : Type} {fields more : List (Text × α)} {key k : Text} {value : α}

/-- The value of the first field with a key. -/
def firstField? (fields : List (Text × α)) (key : Text) : Option α :=
  (fields.find? fun f => f.1 = key).map (·.2)

/-- The value of the last field with a key. -/
def lastField? (fields : List (Text × α)) (key : Text) : Option α :=
  (fields.filterMap fun f => if f.1 = key then some f.2 else none).getLast?

/-- Fields after others were written to them. -/
def putFields (fields more : List (Text × α)) : List (Text × α) :=
  more.foldl (fun fields f => putField fields f.1 f.2) fields

theorem lastField?_append (fields more : List (Text × α)) (key : Text) :
    lastField? (fields ++ more) key = (lastField? more key).or (lastField? fields key) := by
  rw [lastField?, List.filterMap_append, List.getLast?_append]
  rfl

theorem lastField?_append_singleton : lastField? (fields ++ [(k, value)]) key =
    if k = key then some value else lastField? fields key := by
  rw [lastField?_append]
  by_cases h : k = key <;> simp [lastField?, h]

theorem isSome_lastField? : (lastField? fields key).isSome ↔ key ∈ fields.map (·.1) := by
  induction fields using List.reverseRecOn with
  | nil => simp [lastField?]
  | append_singleton fields f ih =>
    rw [lastField?_append_singleton, List.map_append, List.mem_append, ← ih, List.map_singleton,
      List.mem_singleton]
    by_cases h : f.1 = key
    · simp [h]
    · simp [h, Ne.symm h]

theorem putFields_append_singleton :
    putFields fields (more ++ [(k, value)]) = putField (putFields fields more) k value :=
  List.foldl_append

/-- The fields with a value written over those with a key. -/
def overwrite (fields : List (Text × α)) (k : Text) (value : α) : List (Text × α) :=
  fields.map fun f => if f.1 = k then (k, value) else f

/-- A field is written over the fields with its key, or else after the others. -/
theorem putField_eq : putField fields k value =
    if k ∈ fields.map (·.1) then overwrite fields k value else fields ++ [(k, value)] := by
  have hany : fields.any (fun f => f.1 = k) = true ↔ k ∈ fields.map (·.1) := by
    rw [List.any_eq_true, List.mem_map]
    simp only [decide_eq_true_eq]
  simp only [putField, hany, overwrite]

theorem firstField?_cons (f : Text × α) (fields : List (Text × α)) (key : Text) :
    firstField? (f :: fields) key = if f.1 = key then some f.2 else firstField? fields key := by
  rw [firstField?, List.find?_cons]
  by_cases h : f.1 = key <;> simp [h, firstField?]

theorem firstField?_eq_none_iff : firstField? fields key = none ↔ key ∉ fields.map (·.1) := by
  induction fields with
  | nil => simp [firstField?]
  | cons f fields ih =>
    rw [firstField?_cons, List.map_cons, List.mem_cons, not_or, ← ih]
    by_cases h : f.1 = key
    · simp [h]
    · simp [h, Ne.symm h]

theorem firstField?_overwrite : firstField? (overwrite fields k value) key =
    if k = key then (firstField? fields key).map fun _ => value else firstField? fields key := by
  induction fields with
  | nil => simp [firstField?, overwrite]
  | cons f fields ih =>
    rw [overwrite, List.map_cons, ← overwrite, firstField?_cons, firstField?_cons, ih]
    by_cases hf : f.1 = k
    · subst hf
      by_cases h : f.1 = key <;> simp [h]
    · by_cases h : k = key
      · subst h
        simp [hf]
      · simp [hf, h]

theorem firstField?_append (fields more : List (Text × α)) (key : Text) :
    firstField? (fields ++ more) key = (firstField? fields key).or (firstField? more key) := by
  rw [firstField?, List.find?_append, Option.map_or]
  rfl

/-- The value of a field is what was written to it last. -/
theorem firstField?_putField : firstField? (putField fields k value) key =
    if k = key then some value else firstField? fields key := by
  rw [putField_eq]
  split
  · next h =>
    rw [firstField?_overwrite]
    split
    · next hkey =>
      subst hkey
      obtain ⟨v, hv⟩ :=
        Option.ne_none_iff_exists'.mp (mt firstField?_eq_none_iff.mp (not_not.mpr h))
      rw [hv, Option.map_some]
    · rfl
  · next h =>
    rw [firstField?_append, firstField?_cons]
    split
    · next hkey =>
      subst hkey
      rw [firstField?_eq_none_iff.mpr h, Option.none_or]
    · exact Option.or_none

theorem mem_putField {f : Text × α} (hf : f ∈ putField fields k value) :
    f = (k, value) ∨ f ∈ fields ∧ f.1 ≠ k := by
  rw [putField_eq] at hf
  split at hf
  · obtain ⟨g, hg, rfl⟩ := List.mem_map.mp hf
    split
    · exact Or.inl rfl
    · next hne => exact Or.inr ⟨hg, hne⟩
  · next h =>
    rcases List.mem_append.mp hf with hf | hf
    · exact Or.inr ⟨hf, fun hk => h (hk ▸ List.mem_map_of_mem hf)⟩
    · exact Or.inl (List.mem_singleton.mp hf)

theorem nodup_putField (h : (fields.map (·.1)).Nodup) :
    ((putField fields k value).map (·.1)).Nodup := by
  rw [keys_putField]
  split
  · exact h
  · next hk =>
    refine List.nodup_append.mpr ⟨h, List.nodup_singleton k, ?_⟩
    rintro a ha b hb rfl
    exact hk (List.mem_singleton.mp hb ▸ ha)

/-- Where no key is repeated the first field with a key is the last one. -/
theorem lastField?_eq_firstField? (h : (fields.map (·.1)).Nodup) :
    lastField? fields key = firstField? fields key := by
  induction fields using List.reverseRecOn with
  | nil => rfl
  | append_singleton fields f ih =>
    rw [List.map_append, List.map_singleton, List.nodup_append] at h
    rw [lastField?_append_singleton, firstField?_append, firstField?_cons, ih h.1]
    by_cases hf : f.1 = key
    · have hnone : firstField? fields key = none := by
        rw [firstField?_eq_none_iff]
        exact fun hkey => h.2.2 key hkey f.1 List.mem_cons_self hf.symm
      rw [if_pos hf, if_pos hf, hnone, Option.none_or]
    · rw [if_neg hf, if_neg hf]
      exact Option.or_none.symm

theorem filter_overwrite (p : Text → Bool) :
    (overwrite fields k value).filter (fun f => p f.1) =
      overwrite (fields.filter fun f => p f.1) k value := by
  rw [overwrite, List.filter_map, overwrite]
  refine congrArg (List.map _) (List.filter_congr fun f _ => ?_)
  dsimp only [Function.comp]
  split
  · next h => rw [h]
  · rfl

/-- Writing a field does not change the fields with other keys. -/
theorem filter_putField (p : Text → Bool) : (putField fields k value).filter (fun f => p f.1) =
    if p k then putField (fields.filter fun f => p f.1) k value
    else fields.filter fun f => p f.1 := by
  have hmem : k ∈ (fields.filter fun f => p f.1).map (·.1) ↔ k ∈ fields.map (·.1) ∧ p k = true := by
    simp
  rw [putField_eq, putField_eq]
  simp only [hmem]
  by_cases hp : p k = true
  · rw [if_pos hp]
    by_cases hk : k ∈ fields.map (·.1)
    · rw [if_pos hk, if_pos ⟨hk, hp⟩, filter_overwrite]
    · rw [if_neg hk, if_neg fun h => hk h.1, List.filter_append]
      simp [hp]
  · rw [if_neg hp]
    by_cases hk : k ∈ fields.map (·.1)
    · rw [if_pos hk, filter_overwrite]
      refine (List.map_congr_left fun f hf => if_neg fun heq => hp ?_).trans (List.map_id _)
      rw [← heq]
      exact (List.mem_filter.mp hf).2
    · rw [if_neg hk, List.filter_append]
      simp [hp]

/-! ## Several fields -/

/-- There is one field for each key, in the order in which the keys come first. -/
theorem map_fst_putFields (more : List (Text × α)) :
    (putFields [] more).map (·.1) = (more.map (·.1)).eraseDups := by
  induction more using List.reverseRecOn with
  | nil => rfl
  | append_singleton more f ih =>
    rw [putFields_append_singleton, keys_putField, ih, List.map_append, List.map_singleton,
      eraseDups_append_singleton]
    simp only [List.mem_eraseDups]

theorem firstField?_putFields (more : List (Text × α)) (key : Text) :
    firstField? (putFields [] more) key = lastField? more key := by
  induction more using List.reverseRecOn with
  | nil => rfl
  | append_singleton more f ih =>
    rw [putFields_append_singleton, firstField?_putField, ih, lastField?_append_singleton]

/-- A field that is left has the value that was written last under its key. -/
theorem lastField?_of_mem_putFields {f : Text × α} (hf : f ∈ putFields [] more) :
    lastField? more f.1 = some f.2 := by
  induction more using List.reverseRecOn with
  | nil => cases hf
  | append_singleton more e ih =>
    rw [putFields_append_singleton] at hf
    rw [lastField?_append_singleton]
    rcases mem_putField hf with rfl | ⟨hf, hne⟩
    · exact if_pos rfl
    · rw [if_neg hne.symm, ih hf]

/-- The fields with some of the keys are as if the others had not been written. -/
theorem filter_putFields (p : Text → Bool) (more : List (Text × α)) :
    (putFields [] more).filter (fun f => p f.1) =
      putFields [] (more.filter fun f => p f.1) := by
  induction more using List.reverseRecOn with
  | nil => rfl
  | append_singleton more f ih =>
    rw [putFields_append_singleton, filter_putField, ih, List.filter_append, List.filter_singleton]
    cases p f.1 with
    | true => exact putFields_append_singleton.symm
    | false => exact congrArg (putFields []) (List.append_nil _).symm

end Fields

end ReplCore
