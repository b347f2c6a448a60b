import ReplCore.Config
import ReplCore.Proofs.Values.Fields

/-!
# What was written last

A field of a configuration has the value that was written to it last, under whichever of its names.
The options of rewriting are merged before they are read: an option that is repeated keeps its place
and takes the new value, so the order in which options count is that of the merged record.

* `get_ofMapping`, `get_rewrite_ofMapping`: the value of a field.
* `ofMapping_eq_of_edit`: unknown entries and the order of entries for different fields do not
  matter.
-/

namespace ReplCore

/-! ## What an entry writes -/

namespace RewriteField

/-- The names of a field. -/
def keys (f : RewriteField) : List Text :=
  (RewriteSettings.names.filter fun n => n.2 = f).map fun n => n.1.toList

/-- Whether a field switches a rule that loads modules. -/
def loadsModules : RewriteField → Bool
  | staticImports | requireCalls | dynamicImports => true
  | redeclaration | stripTypes | shellTag => false

/-- Whether an option is written to a field. -/
def hasKey (f : RewriteField) (key : Text) : Bool :=
  if key = RewriteSettings.cdnKey then f.loadsModules else f.keys.contains key

/-- What an option writes to a field: its value, or the truth of it if it switches several rules. -/
def written? (f : RewriteField) (e : Text × Value) : Option Value :=
  if f.hasKey e.1 then
    some (if e.1 = RewriteSettings.cdnKey then .bool e.2.isTrue else e.2)
  else none

theorem written?_eq_none_iff {f : RewriteField} {e : Text × Value} :
    f.written? e = none ↔ f.hasKey e.1 = false := by
  simp [written?]

end RewriteField

namespace ConfigField

/-- The names of a field. -/
def keys (f : ConfigField) : List Text :=
  (ReplConfig.names.filter fun n => n.2 = f).map fun n => n.1.toList

/-- What an entry writes to a field. -/
def written? (f : ConfigField) (e : Text × Value) : Option Value :=
  if f.keys.contains e.1 then some e.2 else none

end ConfigField

/-! ## The options of rewriting -/

namespace RewriteSettings

variable {s s' : RewriteSettings}

theorem ext_get (h : ∀ f, s.get f = s'.get f) : s = s' := by
  obtain ⟨⟩ := s
  obtain ⟨⟩ := s'
  simp only [mk.injEq]
  exact ⟨h .staticImports, h .requireCalls, h .dynamicImports, h .redeclaration, h .stripTypes,
    h .shellTag⟩

theorem get_set (f g : RewriteField) (v : Value) :
    (s.set f v).get g = if f = g then v else s.get g := by
  cases f <;> cases g <;> rfl

theorem field?_eq_some_iff {key : Text} {f : RewriteField} :
    field? key = some f ↔ key ∈ f.keys := by
  have hnodup : (names.map fun n => n.1.toList).Nodup := by decide
  rw [field?, map_find?_eq_some_iff hnodup]
  simp [RewriteField.keys, and_comm, and_assoc]

theorem get_read (s : RewriteSettings) (e : Text × Value) (f : RewriteField) :
    (s.read e.1 e.2).get f = (f.written? e).getD (s.get f) := by
  rw [read, RewriteField.written?, RewriteField.hasKey]
  by_cases hcdn : e.1 = cdnKey
  · simp only [if_pos hcdn, get_set]
    cases f <;> rfl
  · simp only [if_neg hcdn]
    cases hfield : field? e.1 with
    | none =>
      have hkey : e.1 ∉ f.keys := fun h => by
        rw [field?_eq_some_iff.mpr h] at hfield
        cases hfield
      simp [hkey]
    | some g =>
      have hkey : e.1 ∈ f.keys ↔ g = f := by
        rw [← field?_eq_some_iff, hfield, Option.some.injEq]
      by_cases h : g = f <;> simp [hkey, h, get_set]

/-- A field has the value that the last of the options writes to it. -/
theorem get_ofEntries (entries : List (Text × Value)) (f : RewriteField) :
    (ofEntries entries).get f = ((entries.filterMap f.written?).getLast?).getD (default.get f) :=
  get_foldl (get · f) f.written? (fun s e => get_read s e f) entries default

end RewriteSettings

/-! ## Configurations -/

namespace ReplConfig

variable {c c' : ReplConfig} {mapping mapping' : List (Text × Value)}

theorem ext_get (h : ∀ f, c.get f = c'.get f) (hrewrite : ∀ f, c.rewrite.get f = c'.rewrite.get f) :
    c = c' := by
  have hrewrite := RewriteSettings.ext_get hrewrite
  obtain ⟨⟩ := c
  obtain ⟨⟩ := c'
  simp only [mk.injEq]
  exact ⟨h .theme, h .sheet, h .bracketEmphasis, h .cdnBase, h .prompt, hrewrite⟩

theorem get_set (f g : ConfigField) (v : Value) :
    (c.set f v).get g = if f = g then v else c.get g := by
  cases f <;> cases g <;> rfl

theorem field?_eq_some_iff {key : Text} {f : ConfigField} :
    field? key = some f ↔ key ∈ f.keys := by
  have hnodup : (names.map fun n => n.1.toList).Nodup := by decide
  rw [field?, map_find?_eq_some_iff hnodup]
  simp [ConfigField.keys, and_comm, and_assoc]

theorem get_read (c : ReplConfig) (e : Text × Value) (f : ConfigField) :
    (c.read e.1 e.2).get f = (f.written? e).getD (c.get f) := by
  rw [read, ConfigField.written?]
  cases hfield : field? e.1 with
  | none =>
    have hkey : e.1 ∉ f.keys := fun h => by
      rw [field?_eq_some_iff.mpr h] at hfield
      cases hfield
    simp [hkey]
  | some g =>
    have hkey : e.1 ∈ f.keys ↔ g = f := by
      rw [← field?_eq_some_iff, hfield, Option.some.injEq]
    by_cases h : g = f <;> simp [hkey, h, get_set]

theorem get_ofMapping (mapping : List (Text × Value)) (f : ConfigField) :
    (ofMapping mapping).get f = ((mapping.filterMap f.written?).getLast?).getD (default.get f) := by
  have hget : (ofMapping mapping).get f =
      (mapping.foldl (fun c e => c.read e.1 e.2) default).get f := by
    cases f <;> rfl
  rw [hget]
  exact get_foldl (get · f) f.written? (fun c e => get_read c e f) mapping default

/-! ## Merged options -/

/-- The options of rewriting that an entry holds. -/
def options (e : Text × Value) : List (Text × Value) :=
  match e.2 with
  | .record entries => if rewriteKeys.contains e.1 then entries else []
  | _ => []

/-- The options of rewriting are those of all records of them, written one after the other. -/
theorem rewriteEntries_eq (mapping : List (Text × Value)) :
    rewriteEntries mapping = putFields [] (mapping.flatMap options) := by
  rw [putFields, List.foldl_flatMap, rewriteEntries]
  congr 1
  funext merged e
  obtain ⟨key, v⟩ := e
  cases v with
  | record entries =>
    by_cases h : key ∈ rewriteKeys <;> simp [options, h]
  | _ => rfl

theorem get_rewrite_ofMapping (mapping : List (Text × Value)) (f : RewriteField) :
    (ofMapping mapping).rewrite.get f =
      (((rewriteEntries mapping).filterMap f.written?).getLast?).getD
        (RewriteSettings.default.get f) :=
  RewriteSettings.get_ofEntries (rewriteEntries mapping) f

/-- What is written to a field of the options does not depend on the options for other fields. -/
theorem filterMap_written?_rewriteEntries (mapping : List (Text × Value)) (f : RewriteField) :
    (rewriteEntries mapping).filterMap f.written? =
      (putFields [] ((mapping.flatMap options).filter fun x => f.hasKey x.1)).filterMap
        f.written? := by
  rw [rewriteEntries_eq, ← filter_putFields, List.filterMap_filter]
  refine List.filterMap_congr fun x _ => ?_
  cases h : f.hasKey x.1 with
  | true => rfl
  | false => exact RewriteField.written?_eq_none_iff.mpr h

/-- Configurations are equal if each field is written by the same entries. -/
theorem ofMapping_congr
    (hfields : ∀ f : ConfigField, mapping.filterMap f.written? = mapping'.filterMap f.written?)
    (hoptions : ∀ f : RewriteField, (mapping.flatMap options).filter (fun x => f.hasKey x.1) =
      (mapping'.flatMap options).filter fun x => f.hasKey x.1) :
    ofMapping mapping = ofMapping mapping' := by
  refine ext_get (fun f => ?_) fun f => ?_
  · rw [get_ofMapping, get_ofMapping, hfields f]
  · rw [get_rewrite_ofMapping, get_rewrite_ofMapping, filterMap_written?_rewriteEntries,
      filterMap_written?_rewriteEntries, hoptions f]

/-! ## Edits without an effect -/

/-- An entry that writes to no field. -/
def IsUnknown (e : Text × Value) : Prop :=
  (∀ f : ConfigField, f.written? e = none) ∧
    ∀ x ∈ options e, ∀ f : RewriteField, f.written? x = none

/-- Two entries that write to different fields. -/
def Apart (e e' : Text × Value) : Prop :=
  (∀ f : ConfigField, f.written? e = none ∨ f.written? e' = none) ∧
    ∀ f : RewriteField,
      (∀ x ∈ options e, f.written? x = none) ∨ ∀ x ∈ options e', f.written? x = none

/-- Unknown entries and options are left out, and neighbours that write to different fields are
exchanged. -/
inductive Edit : List (Text × Value) → List (Text × Value) → Prop
  | remove {before after : List (Text × Value)} {e : Text × Value} (unknown : IsUnknown e) :
      Edit (before ++ e :: after) (before ++ after)
  | exchange {before after : List (Text × Value)} {e e' : Text × Value} (apart : Apart e e') :
      Edit (before ++ e :: e' :: after) (before ++ e' :: e :: after)
  | removeOption {before after xs ys : List (Text × Value)} {key : Text} {x : Text × Value}
      (holds : key ∈ rewriteKeys) (unknown : ∀ f : RewriteField, f.written? x = none) :
      Edit (before ++ (key, .record (xs ++ x :: ys)) :: after)
        (before ++ (key, .record (xs ++ ys)) :: after)
  | exchangeOptions {before after xs ys : List (Text × Value)} {key : Text} {x x' : Text × Value}
      (holds : key ∈ rewriteKeys)
      (apart : ∀ f : RewriteField, f.written? x = none ∨ f.written? x' = none) :
      Edit (before ++ (key, .record (xs ++ x :: x' :: ys)) :: after)
        (before ++ (key, .record (xs ++ x' :: x :: ys)) :: after)

theorem filter_options_eq_nil {e : Text × Value} {f : RewriteField}
    (h : ∀ x ∈ options e, f.written? x = none) :
    (options e).filter (fun x => f.hasKey x.1) = [] := by
  rw [List.filter_eq_nil_iff]
  intro x hx
  rw [RewriteField.written?_eq_none_iff.mp (h x hx)]
  exact Bool.false_ne_true

theorem options_record {key : Text} (holds : key ∈ rewriteKeys) (xs : List (Text × Value)) :
    options (key, .record xs) = xs := if_pos (List.contains_iff_mem.mpr holds)

/-- A record of options writes to no field besides them. -/
theorem written?_of_mem_rewriteKeys {key : Text} (holds : key ∈ rewriteKeys) (v : Value)
    (f : ConfigField) : f.written? (key, v) = none := by
  have hkeys : ∀ k ∈ rewriteKeys, k ∉ f.keys := by
    cases f <;> decide
  exact if_neg (mt List.contains_iff_mem.mp (hkeys key holds))

/-- Unknown keys and the order of what is written to different fields do not matter. -/
theorem ofMapping_eq_of_edit (h : Edit mapping mapping') :
    ofMapping mapping' = ofMapping mapping := by
  cases h with
  | @remove before after e unknown =>
    refine ofMapping_congr (fun f => ?_) fun f => ?_
    · rw [List.filterMap_append, List.filterMap_append, List.filterMap_cons_none (unknown.1 f)]
    · have hnone := filter_options_eq_nil (f := f) fun x hx => unknown.2 x hx f
      simp only [List.flatMap_append, List.flatMap_cons, List.filter_append, hnone,
        List.nil_append]
  | @exchange before after e e' apart =>
    refine ofMapping_congr (fun f => ?_) fun f => ?_
    · rcases apart.1 f with hnone | hnone <;>
        simp only [List.filterMap_append, List.filterMap_cons, hnone]
    · rcases apart.2 f with hnone | hnone <;>
        simp only [List.flatMap_append, List.flatMap_cons, List.filter_append,
          filter_options_eq_nil hnone, List.nil_append]
  | @removeOption before after xs ys key x holds unknown =>
    refine ofMapping_congr (fun f => ?_) fun f => ?_
    · simp only [List.filterMap_append, List.filterMap_cons, written?_of_mem_rewriteKeys holds]
    · have hkey := RewriteField.written?_eq_none_iff.mp (unknown f)
      simp [options_record holds, hkey]
  | @exchangeOptions before after xs ys key x x' holds apart =>
    refine ofMapping_congr (fun f => ?_) fun f => ?_
    · simp only [List.filterMap_append, List.filterMap_cons, written?_of_mem_rewriteKeys holds]
    · rcases apart f with hnone | hnone <;>
        simp [options_record holds, RewriteField.written?_eq_none_iff.mp hnone, List.filter_cons]

/-- The options of rewriting are merged so that each keeps its first place and has its last value.
Every field has the value that the last entry writes to it, under any of its names, or its default
if none does; for the fields of the options, the entries are the merged ones. So unknown keys and
the order of what is written to different fields do not matter. -/
theorem ofMapping_lastWritten (mapping : List (Text × Value)) :
    let written := mapping.flatMap options
    let merged := rewriteEntries mapping
    (merged.map (·.1) = (written.map (·.1)).eraseDups ∧
        ∀ x ∈ merged, lastField? written x.1 = some x.2) ∧
      (∀ f : ConfigField, (ofMapping mapping).get f =
        ((mapping.filterMap f.written?).getLast?).getD (default.get f)) ∧
      (∀ f : RewriteField, (ofMapping mapping).rewrite.get f =
        ((merged.filterMap f.written?).getLast?).getD (RewriteSettings.default.get f)) ∧
      ∀ mapping', Edit mapping mapping' → ofMapping mapping' = ofMapping mapping := by
  intro written merged
  have hmerged : merged = putFields [] written := rewriteEntries_eq mapping
  refine ⟨⟨?_, fun x hx => ?_⟩, get_ofMapping mapping, get_rewrite_ofMapping mapping,
    fun mapping' => ofMapping_eq_of_edit⟩
  · rw [hmerged, map_fst_putFields]
  · rw [hmerged] at hx
    exact lastField?_of_mem_putFields hx

/-- An option keeps its place before the switch that overrides it, though it is repeated after it;
an unknown key between them is left out. -/
theorem ofMapping_lastWritten_repeated :
    let once : Text × Value := ("staticImports".toList, .bool true)
    let switch : Text × Value := ("cdn".toList, .integer 0)
    let unknown : Text × Value := ("jsx".toList, .bool true)
    let extensions : Text × Value := ("extensions".toList, .record [once, unknown, switch])
    let rewrite : Text × Value := ("rewrite".toList, .record [once])
    let shorter : Text × Value := ("extensions".toList, .record [once, switch])
    (ofMapping [extensions, rewrite]).rewrite.get .staticImports = .bool false ∧
      ofMapping [shorter, rewrite] = ofMapping [extensions, rewrite] := by
  intro once switch unknown extensions rewrite shorter
  obtain ⟨-, -, hrewrite, hedit⟩ := ofMapping_lastWritten [extensions, rewrite]
  have hunknown : ∀ f : RewriteField, f.written? unknown = none := fun f => by
    rw [RewriteField.written?_eq_none_iff]
    cases f <;> decide
  exact ⟨(hrewrite .staticImports).trans rfl,
    hedit _ (@Edit.removeOption [] [rewrite] [once] [switch] _ unknown (by decide) hunknown)⟩

end ReplConfig

end ReplCore
