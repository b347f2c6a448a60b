import ReplCore.Proofs.Values.Fields
import ReplCore.Proofs.Values.Results
import ReplCore.Style.Sheet

/-!
# One sheet decides

Within a theme the values of all rules for a class add up. Between sheets they do not: the style of
a class is composed from the values of the one sheet of highest precedence that has the class, and
the base of all styles comes in the same way from one sheet.

* `values?_ofRules`: what a theme gives to a class.
* `values?_merge`: which sheet gives the values of a class.
* `compose_eq`: values that describe no style are passed over.
* `get?_layered`: the style of a class.
-/

namespace ReplCore

/-! ## Sums of styles -/

namespace Style

variable {s t : Style}

/-- The attributes of a style are in the order of their codes. -/
def Ordered (s : Style) : Prop := s.attributes = Attribute.all.filter (· ∈ s.attributes)

theorem add_none (h : s.Ordered) : s + none = s := by
  obtain ⟨foreground, background, attributes⟩ := s
  have hattributes : Attribute.all.filter (fun a => a ∈ attributes ∨ a ∈ ([] : List Attribute)) =
      attributes := by
    simpa using h.symm
  change Style.mk (Option.none.or foreground) (Option.none.or background) _ = _
  rw [Option.none_or, Option.none_or]
  exact congrArg (Style.mk foreground background) hattributes

theorem ordered_add (s t : Style) : (s + t).Ordered := by
  change Attribute.all.filter (fun a => a ∈ s.attributes ∨ a ∈ t.attributes) = _
  refine List.filter_congr fun a ha => ?_
  have hmem : a ∈ (s + t).attributes ↔ a ∈ s.attributes ∨ a ∈ t.attributes :=
    List.mem_filter.trans (by simp [ha])
  exact decide_eq_decide.mpr hmem.symm

theorem ordered_none : Style.none.Ordered := rfl

theorem ordered_of_map {f : Color → Style} (hf : ∀ c, (f c).Ordered) {v : Text}
    (h : (Color.ofText? v).map f = some s) : s.Ordered := by
  obtain ⟨c, -, rfl⟩ := Option.map_eq_some_iff.mp h
  exact hf c

/-- A written style has one attribute or none. -/
theorem ordered_of_ofValue? {v : Text} (h : ofValue? v = some s) : s.Ordered := by
  have hcolored : ∀ {v : Text}, (Color.ofText? v).map colored = some s → s.Ordered :=
    ordered_of_map (f := colored) fun _ => rfl
  unfold ofValue? at h
  dsimp only at h
  split at h
  · next a _ =>
    cases h
    cases a <;> rfl
  split at h
  · exact hcolored h
  split at h
  · split at h
    · exact hcolored h
    · cases h
  split at h
  · split at h
    · exact ordered_of_map (f := onColor) (fun _ => rfl) h
    · exact hcolored h
  · exact hcolored h

end Style

/-! ## Themes -/

namespace Sheet

variable {s : Sheet} {key k : Text} {values : List Text}

/-- The classes that a rule is about, one for each of its selectors that has one. -/
def classes (r : StyleRule) : List Text := r.selectors.filterMap selectorKey

/-- Whether a rule gives values to a class. -/
def gives (key : Text) (r : StyleRule) : Bool := !(ruleValues r).isEmpty && (classes r).contains key

/-- The values that a rule gives to a class, once for each selector of the class. -/
def valuesFor (key : Text) (r : StyleRule) : List Text :=
  ((classes r).filter (· = key)).flatMap fun _ => ruleValues r

theorem valuesFor_eq_nil {r : StyleRule} (h : gives key r = false) : valuesFor key r = [] := by
  rw [gives, Bool.and_eq_false_iff] at h
  rcases h with hvalues | hclass
  · have hnil : ruleValues r = [] := by simpa using hvalues
    simp [valuesFor, hnil]
  · have hnil : (classes r).filter (· = key) = [] := by
      rw [List.filter_eq_nil_iff]
      rintro k hk heq
      rw [of_decide_eq_true heq, ← List.contains_iff_mem, hclass] at hk
      cases hk
    rw [valuesFor, hnil, List.flatMap_nil]

theorem values?_eq (s : Sheet) (key : Text) : s.values? key = firstField? s key := rfl

theorem values?_extend : (s.extend k values).values? key =
    if k = key then some ((s.values? key).getD [] ++ values) else s.values? key := by
  rw [values?_eq, extend, firstField?_putField]
  by_cases h : k = key
  · rw [if_pos h, if_pos h, h]
  · rw [if_neg h, if_neg h, values?_eq]

/-- The values are added once for each time that the class is named. By induction on the names. -/
theorem values?_foldl_extend (values : List Text) (keys : List Text) (s : Sheet) :
    (keys.foldl (fun s k => s.extend k values) s).values? key =
      if key ∈ keys then
        some ((s.values? key).getD [] ++ (keys.filter (· = key)).flatMap fun _ => values)
      else s.values? key := by
  induction keys using List.reverseRecOn with
  | nil => simp
  | append_singleton keys k ih =>
    rw [List.foldl_append, List.foldl_cons, List.foldl_nil, values?_extend, ih]
    by_cases hk : k = key
    · by_cases hkey : key ∈ keys
      · simp [hk, hkey]
      · have hnil : keys.filter (· = key) = [] := by
          rw [List.filter_eq_nil_iff]
          rintro k' hk' heq
          exact hkey (of_decide_eq_true heq ▸ hk')
        simp [hk, hkey, hnil]
    · simp [hk, Ne.symm hk]

theorem values?_addRule (s : Sheet) (r : StyleRule) : (s.addRule r).values? key =
    if gives key r then some ((s.values? key).getD [] ++ valuesFor key r) else s.values? key := by
  rw [gives]
  cases hvalues : (ruleValues r).isEmpty with
  | true =>
    have hadd : s.addRule r = s := if_pos hvalues
    rw [hadd]
    rfl
  | false =>
    have hadd : s.addRule r = (classes r).foldl (fun s k => s.extend k (ruleValues r)) s :=
      if_neg (by simp [hvalues])
    rw [hadd, values?_foldl_extend, Bool.not_false, Bool.true_and]
    simp only [List.contains_iff_mem]
    rfl

/-- A theme has a class if a rule gives values to it, and then it has the values of all its rules.
By induction on the rules. -/
theorem values?_ofRules (rules : List StyleRule) : (ofRules rules).values? key =
    if rules.any (gives key) then some (rules.flatMap (valuesFor key)) else none := by
  induction rules using List.reverseRecOn with
  | nil => rfl
  | append_singleton rules r ih =>
    have hstep : ofRules (rules ++ [r]) = (ofRules rules).addRule r := List.foldl_append
    have hbefore : rules.any (gives key) = false → rules.flatMap (valuesFor key) = [] := by
      intro hany
      rw [List.flatMap_eq_nil_iff]
      intro r' hr'
      exact valuesFor_eq_nil (by simpa using List.any_eq_false.mp hany r' hr')
    rw [hstep, values?_addRule, ih, List.any_append, List.flatMap_append, List.flatMap_singleton]
    cases hr : gives key r with
    | true =>
      cases hany : rules.any (gives key) <;> simp [hr, hbefore, hany]
    | false => simp [hr, valuesFor_eq_nil hr]

theorem nodup_addRule (hs : (s.map (·.1)).Nodup) (r : StyleRule) :
    ((s.addRule r).map (·.1)).Nodup := by
  rw [addRule]
  split
  · exact hs
  · exact List.foldlRecOn (motive := fun s : Sheet => (s.map (·.1)).Nodup) _ _ hs
      fun s hs k _ => nodup_putField hs

theorem nodup_ofRules (rules : List StyleRule) : ((ofRules rules).map (·.1)).Nodup := by
  have hempty : (([] : Sheet).map (·.1)).Nodup := List.nodup_nil
  exact List.foldlRecOn (motive := fun s : Sheet => (s.map (·.1)).Nodup) rules addRule hempty
    fun _ hs r _ => nodup_addRule hs r

theorem lastField?_ofRules (rules : List StyleRule) :
    lastField? (ofRules rules) key =
      if rules.any (gives key) then some (rules.flatMap (valuesFor key)) else none := by
  rw [lastField?_eq_firstField? (nodup_ofRules rules), ← values?_eq, values?_ofRules]

/-! ## Several sheets -/

theorem merge_eq {α : Type} (sheets : List (List (Text × α))) :
    merge sheets = putFields [] sheets.flatten := List.foldl_flatten.symm

/-- The values of a class are those of the last sheet that has it. -/
theorem values?_merge (lowest theme user : Sheet) :
    values? (merge [lowest, theme, user]) key =
      (lastField? user key).or ((lastField? theme key).or (lastField? lowest key)) := by
  rw [values?_eq, merge_eq, firstField?_putFields]
  simp [lastField?_append, Option.or_assoc]

end Sheet

namespace StyleSheet

variable {key : Text}

/-- Values that describe no style are passed over. -/
theorem compose_eq {base : Style} (hbase : base.Ordered) (values : List Text) :
    compose base values = (values.filterMap Style.ofValue?).foldl (· + ·) base := by
  rw [compose]
  induction values generalizing base with
  | nil => rfl
  | cons v values ih =>
    rw [List.foldl_cons, ih (Style.ordered_add _ _)]
    cases hv : Style.ofValue? v with
    | none => rw [List.filterMap_cons_none hv, Option.getD_none, Style.add_none hbase]
    | some s => rw [List.filterMap_cons_some hv, List.foldl_cons, Option.getD_some]

/-- The style of a color in hexadecimal. -/
def hexStyle? (v : Text) : Option Style := if v.head? = some '#' then Style.ofValue? v else none

theorem baseOf_eq (s : Sheet) : baseOf s =
    (((s.values? Sheet.baseKey).bind List.head?).bind hexStyle?).getD .none := by
  rw [baseOf]
  cases s.values? Sheet.baseKey with
  | none => rfl
  | some values =>
    cases values with
    | nil => rfl
    | cons v values =>
      by_cases hv : v.head? = some '#' <;> simp [hexStyle?, hv]

theorem ordered_baseOf (s : Sheet) : (baseOf s).Ordered := by
  rw [baseOf_eq]
  cases hbase : ((s.values? Sheet.baseKey).bind List.head?).bind hexStyle? with
  | none => exact Style.ordered_none
  | some style =>
    obtain ⟨v, -, hv⟩ := Option.bind_eq_some_iff.mp hbase
    rw [hexStyle?] at hv
    split at hv
    · exact Style.ordered_of_ofValue? hv
    · cases hv

/-- A class besides the base has the style of its values. -/
theorem get?_ofSheet (s : Sheet) (hkey : key ≠ Sheet.baseKey) :
    (ofSheet s).get? key = (s.values? key).map (compose (baseOf s)) := by
  have hfind : (s.find? fun e => decide (e.1 ≠ Sheet.baseKey) = true ∧ decide (e.1 = key) = true) =
      s.find? fun e => e.1 = key := by
    congr 1
    funext e
    by_cases he : e.1 = key <;> simp [he, hkey]
  rw [get?, ofSheet, List.find?_map, List.find?_filter, Sheet.values?, Option.map_map,
    Option.map_map]
  simp only [Function.comp_def]
  rw [hfind]

end StyleSheet

/-! ## Written sheets -/

/-- What a sheet gives to a class: one style value or a list of them. -/
inductive ClassValues where
  | one (value : Text)
  | several (values : List Text)

namespace ClassValues

/-- The style values, in order. -/
def all : ClassValues → List Text
  | one v => [v]
  | several vs => vs

/-- The values as they are written. -/
def value : ClassValues → Value
  | one v => .text v
  | several vs => .list (vs.map .text)

end ClassValues

namespace Sheet

/-- A sheet as it is written. -/
def record (s : List (Text × ClassValues)) : Value := .record (s.map fun e => (e.1, e.2.value))

/-- Of the base only the first value is read. -/
def entryOf (e : Text × ClassValues) : Text × List Text :=
  (e.1, if e.1 = baseKey then e.2.all.take 1 else e.2.all)

/-- Every written sheet is read. -/
theorem ofValue?_record (s : List (Text × ClassValues)) :
    ofValue? (record s) = .ok (s.map entryOf) := by
  have helements : ∀ e : Text × ClassValues,
      (elements? e.2.value).map (fun vs => (e.1, vs)) = .ok (e.1, e.2.all.map .text) := by
    rintro ⟨key, v⟩
    cases v <;> rfl
  have htexts : ∀ vs : List Text, (vs.map .text).mapM text? = .ok vs := fun vs =>
    (mapM_map_eq_ok (g := Value.text) (h := id) (fun _ => rfl) vs).trans (congrArg _ vs.map_id)
  have hentry : ∀ e : Text × ClassValues, textsOf? (e.1, e.2.all.map .text) = .ok (entryOf e) := by
    intro e
    rw [textsOf?, entryOf]
    by_cases h : e.1 = baseKey
    · simp only [if_pos h, ← List.map_take, htexts]
      rfl
    · simp only [if_neg h, htexts]
      rfl
  have hwritten : written? (s.map fun e => (e.1, e.2.value)) =
      .ok (s.map fun e => (e.1, e.2.all.map .text)) := mapM_map_eq_ok helements s
  change (written? (s.map fun e => (e.1, e.2.value)) >>= fun entries => entries.mapM textsOf?) = _
  rw [hwritten]
  exact mapM_map_eq_ok hentry s

theorem lastField?_map_entryOf (s : List (Text × ClassValues)) (key : Text) :
    lastField? (s.map entryOf) key =
      (lastField? s key).map fun v => if key = baseKey then v.all.take 1 else v.all := by
  induction s using List.reverseRecOn with
  | nil => rfl
  | append_singleton s e ih =>
    rw [List.map_append, List.map_singleton, entryOf, lastField?_append_singleton,
      lastField?_append_singleton, ih]
    split
    · next h => rw [Option.map_some, h]
    · rfl

section Deciding

variable (lowest user : List (Text × ClassValues)) (rules : List StyleRule)

/-- The values that decide on a class: those of the user's sheet if it has the class, or else all
those of the rules of the theme for the class if there are any, or else those of the lowest
sheet. -/
def deciding (key : Text) : Option (List Text) :=
  ((lastField? user key).map ClassValues.all).or
    ((if rules.any (gives key) then some (rules.flatMap (valuesFor key)) else none).or
      ((lastField? lowest key).map ClassValues.all))

theorem isSome_deciding {key : Text} : (deciding lowest user rules key).isSome ↔
    key ∈ user.map (·.1) ∨ (∃ r ∈ rules, gives key r = true) ∨ key ∈ lowest.map (·.1) := by
  have htheme :
      (if rules.any (gives key) then some (rules.flatMap (valuesFor key)) else none).isSome = true ↔
        ∃ r ∈ rules, gives key r = true := by
    rw [← List.any_eq_true]
    cases rules.any (gives key) <;> simp
  rw [deciding, Option.isSome_or, Option.isSome_or, Option.isSome_map, Option.isSome_map,
    Bool.or_eq_true, Bool.or_eq_true, isSome_lastField?, isSome_lastField?, htheme]

/-- What the three sheets have for a class are the values that decide on it. -/
theorem values?_merge_entryOf {key : Text} (hkey : key ≠ baseKey) :
    values? (merge [lowest.map entryOf, ofRules rules, user.map entryOf]) key =
      deciding lowest user rules key := by
  rw [values?_merge, lastField?_map_entryOf, lastField?_map_entryOf, lastField?_ofRules, deciding]
  simp only [if_neg hkey]

/-- What they have for the base begins with the value that decides on it. -/
theorem head?_values?_merge_entryOf :
    (values? (merge [lowest.map entryOf, ofRules rules, user.map entryOf]) baseKey).bind
        List.head? =
      (deciding lowest user rules baseKey).bind List.head? := by
  rw [values?_merge, lastField?_map_entryOf, lastField?_map_entryOf, lastField?_ofRules, deciding]
  cases lastField? user baseKey <;> cases rules.any (gives baseKey) <;>
    cases lastField? lowest baseKey <;> simp [List.head?_take]

end Deciding

end Sheet

namespace StyleSheet

open Sheet

/-- A class has a style just if a sheet has the class. The style is composed, from the left and
onto the base, from the values of the sheet that decides on the class, the ones that describe no
style aside; the base is the first value of the sheet that decides on it if that is a color in
hexadecimal, and the style that leaves everything open if not. -/
theorem get?_layered (lowest user : List (Text × ClassValues)) (rules : List StyleRule) :
    ∃ l u, ofValue? (record lowest) = .ok l ∧ ofValue? (record user) = .ok u ∧
      let styles := layered l (ofRules rules) u
      styles.base =
          (((deciding lowest user rules baseKey).bind List.head?).bind hexStyle?).getD .none ∧
        ∀ key ≠ baseKey,
          ((styles.get? key).isSome ↔ key ∈ user.map (·.1) ∨
            (∃ r ∈ rules, gives key r = true) ∨ key ∈ lowest.map (·.1)) ∧
          styles.get? key = (deciding lowest user rules key).map fun values =>
            (values.filterMap Style.ofValue?).foldl (· + ·) styles.base := by
  refine ⟨lowest.map entryOf, user.map entryOf, ofValue?_record lowest, ofValue?_record user, ?_⟩
  intro styles
  have hget : ∀ key ≠ baseKey, styles.get? key =
      (deciding lowest user rules key).map fun values =>
        (values.filterMap Style.ofValue?).foldl (· + ·) styles.base := by
    intro key hkey
    have hcompose : compose styles.base = fun values =>
        (values.filterMap Style.ofValue?).foldl (· + ·) styles.base :=
      funext (compose_eq (ordered_baseOf _))
    rw [← values?_merge_entryOf lowest user rules hkey, ← hcompose]
    exact get?_ofSheet _ hkey
  refine ⟨?_, fun key hkey => ⟨?_, hget key hkey⟩⟩
  · rw [← head?_values?_merge_entryOf]
    exact baseOf_eq _
  · rw [hget key hkey, Option.isSome_map, isSome_deciding]

/-- The values of two rules of a theme add up, and take the place of those of the lowest sheet. -/
theorem get?_layered_theme :
    let lowest := [("keyword".toList, ClassValues.one "bgBlue".toList)]
    let rules : List StyleRule :=
      [⟨[".hljs-keyword".toList, ".hljs .k".toList], [("color".toList, "red".toList)]⟩,
       ⟨[".hljs-keyword".toList], [("font-weight".toList, "700".toList)]⟩]
    ∃ l u, ofValue? (record lowest) = .ok l ∧ ofValue? (record []) = .ok u ∧
      (layered l (ofRules rules) u).get? "keyword".toList =
        some ⟨some (.numbered 1), none, [.bold]⟩ := by
  intro lowest rules
  obtain ⟨l, u, hl, hu, hbase, hget⟩ := get?_layered lowest [] rules
  refine ⟨l, u, hl, hu, ?_⟩
  have hkeyword := (hget "keyword".toList (by decide)).2
  rw [hbase] at hkeyword
  exact hkeyword.trans (by decide +kernel)

end StyleSheet

end ReplCore
