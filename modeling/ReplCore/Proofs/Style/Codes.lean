import ReplCore.Style.Sheet

/-!
# The codes of styles

Colors are numbered and mixed from numbers up to 255, however they are written. So every style that
a sheet describes has codes of at most three digits, and the first of them is not zero.

* `isCodes_styleFor`: the codes of the styles of a sheet.
-/

namespace ReplCore

theorem exists_of_mem_mapM {α β : Type} {f : α → Option β} : ∀ {as : List α} {bs : List β},
    as.mapM f = some bs → ∀ b ∈ bs, ∃ a ∈ as, f a = some b
  | [], bs, h, b, hb => by
    rw [List.mapM_nil] at h
    rw [← Option.some.inj h] at hb
    cases hb
  | a :: as, bs, h, b, hb => by
    rw [List.mapM_cons] at h
    obtain ⟨b', hb', hrest⟩ := Option.bind_eq_some_iff.mp h
    obtain ⟨bs', hbs', hout⟩ := Option.bind_eq_some_iff.mp hrest
    rw [← Option.some.inj hout] at hb
    rcases List.mem_cons.mp hb with rfl | hb
    · exact ⟨a, List.mem_cons_self, hb'⟩
    · obtain ⟨a', ha', hfa⟩ := exists_of_mem_mapM hbs' b hb
      exact ⟨a', List.mem_cons_of_mem a ha', hfa⟩

/-- Numbers up to 255, the first of which is not zero. -/
structure IsCodes (ns : List Nat) : Prop where
  le : ∀ n ∈ ns, n ≤ 255
  head_pos : ∀ n, ns.head? = some n → 0 < n

theorem isCodes_nil : IsCodes [] := ⟨nofun, nofun⟩

theorem IsCodes.append {ns ms : List Nat} (hns : IsCodes ns) (hms : IsCodes ms) :
    IsCodes (ns ++ ms) := by
  refine ⟨fun n hn => ?_, fun n hn => ?_⟩
  · rcases List.mem_append.mp hn with hn | hn
    · exact hns.le n hn
    · exact hms.le n hn
  · rw [List.head?_append] at hn
    rcases Option.or_eq_some_iff.mp hn with hn | ⟨-, hn⟩
    · exact hns.head_pos n hn
    · exact hms.head_pos n hn

/-! ## Colors -/

namespace Color

/-- A color of numbers up to 255. -/
def IsSmall : Color → Prop
  | default => True
  | numbered n => n ≤ 255
  | mixed r g b => r ≤ 255 ∧ g ≤ 255 ∧ b ≤ 255

theorem le_of_number? {t : Text} {n : Nat} (h : number? t = some n) : n ≤ 255 := by
  obtain ⟨p, hp, rfl⟩ := Option.map_eq_some_iff.mp h
  have hall : (names.all fun n => decide (n.2 ≤ 255)) = true := by decide +kernel
  exact of_decide_eq_true (List.all_eq_true.mp hall p (List.mem_of_find?_eq_some hp))

theorem hexValue?_le {c : Char} {n : Nat} (h : hexValue? c = some n) : n ≤ 15 := by
  unfold hexValue? at h
  split at h
  · next hc =>
    obtain rfl := Option.some.inj h
    have : c.toNat ≤ 57 := hc.2
    omega
  · split at h
    · next hc =>
      obtain rfl := Option.some.inj h
      have : c.toNat ≤ 102 := hc.2
      omega
    · cases h

theorem isSmall_of_hexadecimal? {t : Text} {c : Color} (h : hexadecimal? t = some c) :
    c.IsSmall := by
  obtain ⟨ds, hds, hrest⟩ := Option.bind_eq_some_iff.mp h
  have hle : ∀ d ∈ ds, d ≤ 15 := by
    intro d hd
    obtain ⟨x, -, hx⟩ := exists_of_mem_mapM hds d hd
    exact hexValue?_le hx
  split at hrest
  · next a b c d e f =>
    obtain rfl := Option.some.inj hrest
    simp only [List.mem_cons, List.not_mem_nil, or_false, forall_eq_or_imp, forall_eq] at hle
    simp only [IsSmall]
    omega
  · cases hrest

theorem isSmall_of_colorNumber? {t : Text} {c : Color} (h : colorNumber? t = some c) :
    c.IsSmall := by
  unfold colorNumber? at h
  split at h
  · obtain ⟨n, -, hrest⟩ := Option.bind_eq_some_iff.mp h
    split at hrest
    · next hn =>
      obtain rfl := Option.some.inj hrest
      exact hn
    · cases hrest
  · cases h

theorem isSmall_of_triple? {t : Text} {c : Color} (h : triple? t = some c) : c.IsSmall := by
  obtain ⟨ns, -, hrest⟩ := Option.bind_eq_some_iff.mp h
  split at hrest
  · split at hrest
    · next hn =>
      obtain rfl := Option.some.inj hrest
      exact hn
    · cases hrest
  · cases hrest

/-- However a color is written, its numbers are small. -/
theorem isSmall_of_ofText? {t : Text} {c : Color} (h : ofText? t = some c) : c.IsSmall := by
  unfold ofText? at h
  dsimp only at h
  split at h
  · cases h
    trivial
  split at h
  · next n hn =>
    cases h
    exact le_of_number? hn
  split at h
  · exact isSmall_of_hexadecimal? h
  rcases Option.or_eq_some_iff.mp h with h | ⟨-, h⟩
  · obtain ⟨u, -, hu⟩ := Option.bind_eq_some_iff.mp h
    exact isSmall_of_colorNumber? hu
  · obtain ⟨u, -, hu⟩ := Option.bind_eq_some_iff.mp h
    exact isSmall_of_triple? hu

theorem isCodes_codes {c : Color} (h : c.IsSmall) (g : Ground) : IsCodes (c.codes g) := by
  cases c with
  | default => cases g <;> exact ⟨by decide, by decide⟩
  | numbered n =>
    have hn : n ≤ 255 := h
    cases g <;> simp only [codes] <;> split <;> try split
    all_goals exact ⟨by simp; omega, by simp; try omega⟩
  | mixed r g b =>
    have hrgb : r ≤ 255 ∧ g ≤ 255 ∧ b ≤ 255 := h
    cases ‹Ground› <;> exact ⟨by simp [codes]; omega, by simp [codes]⟩

end Color

/-! ## Styles -/

namespace Style

/-- A style of small colors. -/
structure IsSmall (s : Style) : Prop where
  foreground : ∀ c, s.foreground = some c → c.IsSmall
  background : ∀ c, s.background = some c → c.IsSmall

theorem isSmall_none : IsSmall Style.none :=
  ⟨nofun, nofun⟩

theorem isSmall_colored {c : Color} (h : c.IsSmall) : IsSmall (colored c) :=
  ⟨fun _ hc => Option.some.inj hc ▸ h, nofun⟩

theorem isSmall_onColor {c : Color} (h : c.IsSmall) : IsSmall (onColor c) :=
  ⟨nofun, fun _ hc => Option.some.inj hc ▸ h⟩

theorem IsSmall.add {s t : Style} (hs : s.IsSmall) (ht : t.IsSmall) : (s + t).IsSmall := by
  refine ⟨fun c hc => ?_, fun c hc => ?_⟩
  · rcases Option.or_eq_some_iff.mp hc with hc | ⟨-, hc⟩
    · exact ht.foreground c hc
    · exact hs.foreground c hc
  · rcases Option.or_eq_some_iff.mp hc with hc | ⟨-, hc⟩
    · exact ht.background c hc
    · exact hs.background c hc

theorem isSmall_of_map {f : Color → Style} (hf : ∀ c : Color, c.IsSmall → (f c).IsSmall) {t : Text}
    {s : Style} (h : (Color.ofText? t).map f = some s) : s.IsSmall := by
  obtain ⟨c, hc, rfl⟩ := Option.map_eq_some_iff.mp h
  exact hf c (Color.isSmall_of_ofText? hc)

/-- However a style is written, its colors are small. -/
theorem isSmall_of_ofValue? {t : Text} {s : Style} (h : ofValue? t = some s) : s.IsSmall := by
  have hcolored {t : Text} := isSmall_of_map (t := t) (s := s) fun c => isSmall_colored (c := c)
  have honColor {t : Text} := isSmall_of_map (t := t) (s := s) fun c => isSmall_onColor (c := c)
  unfold ofValue? at h
  dsimp only at h
  split at h
  · cases h
    exact ⟨nofun, nofun⟩
  split at h
  · exact hcolored h
  split at h
  · split at h
    · exact hcolored h
    · cases h
  split at h
  · split at h
    · exact honColor h
    · exact hcolored h
  · exact hcolored h

theorem isCodes_of_option {c : Option Color} (hc : ∀ d, c = some d → d.IsSmall) (g : Ground) :
    IsCodes ((c.map fun d => d.codes g).getD []) := by
  cases c with
  | none => exact isCodes_nil
  | some d => exact Color.isCodes_codes (hc d rfl) g

theorem isCodes_attributes (as : List Attribute) : IsCodes (as.map Attribute.code) := by
  have hcode : ∀ a : Attribute, a.code ≤ 255 ∧ 0 < a.code := by
    intro a
    cases a <;> decide
  refine ⟨?_, ?_⟩
  · intro n hn
    obtain ⟨a, -, rfl⟩ := List.mem_map.mp hn
    exact (hcode a).1
  · intro n hn
    rw [List.head?_map] at hn
    obtain ⟨a, -, rfl⟩ := Option.map_eq_some_iff.mp hn
    exact (hcode a).2

theorem isCodes_codes {s : Style} (h : s.IsSmall) : IsCodes s.codes :=
  ((isCodes_attributes s.attributes).append (isCodes_of_option h.foreground .foreground)).append
    (isCodes_of_option h.background .background)

end Style

/-! ## Sheets -/

namespace StyleSheet

theorem isSmall_baseOf (s : Sheet) : (baseOf s).IsSmall := by
  unfold baseOf
  split
  · next v _ _ =>
    split
    · cases hv : Style.ofValue? v with
      | none => exact Style.isSmall_none
      | some s => exact Style.isSmall_of_ofValue? hv
    · exact Style.isSmall_none
  · exact Style.isSmall_none

theorem isSmall_compose {base : Style} (hbase : base.IsSmall) (values : List Text) :
    (compose base values).IsSmall := by
  unfold compose
  induction values generalizing base with
  | nil => exact hbase
  | cons v values ih =>
    refine ih (hbase.add ?_)
    cases hv : Style.ofValue? v with
    | none => exact Style.isSmall_none
    | some s => exact Style.isSmall_of_ofValue? hv

/-- Whatever a sheet says, its styles have codes of at most three digits, the first not zero. -/
theorem isCodes_styleFor {sheet : Sheet} {t : TokenType} {s : Style}
    (h : (ofSheet sheet).styleFor t = some s) : IsCodes s.codes := by
  obtain ⟨key, -, hget⟩ := Option.bind_eq_some_iff.mp h
  obtain ⟨e, he, rfl⟩ := Option.map_eq_some_iff.mp hget
  obtain ⟨e', -, rfl⟩ := List.mem_map.mp (List.mem_of_find?_eq_some he)
  exact Style.isCodes_codes (isSmall_compose (isSmall_baseOf sheet) e'.2)

end StyleSheet

end ReplCore
