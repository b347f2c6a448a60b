import ReplCore.Proofs.Terminal.Painting
import ReplCore.Proofs.Terminal.Styling

/-!
# Underlined text

The sequence of a style switches its attributes on and none off. So text stays underlined up to the
next reset, and it is not underlined as long as no style underlines it.

* `underlines_select_codes`: what the sequence of a style does to the underline.
* `underlines_paint`: cells that no style underlines.
* `paint_congr`: the other looks do not depend on the underline.
* `underlines_head_paint`: underlined lexemes start with an underlined cell.
-/

namespace ReplCore.Terminal

open Escape

namespace Formatting

/-- Whether text is underlined. -/
def underlines (f : Formatting) : Bool := decide (.underline ∈ f.attributes)

/-! ## The sequences of styles -/

theorem underlines_switchOn (f : Formatting) (a : Attribute) :
    (f.switchOn a).underlines = (decide (.underline = a) || f.underlines) := by
  rw [Bool.eq_iff_iff]
  simp [underlines, switchOn, Attribute.all]

theorem underlines_foldl_switchOn (as : List Attribute) : ∀ f : Formatting,
    (as.foldl switchOn f).underlines = (decide (.underline ∈ as) || f.underlines) := by
  induction as with
  | nil => exact fun _ => rfl
  | cons a as ih =>
    intro f
    rw [List.foldl_cons, ih, underlines_switchOn, Bool.eq_iff_iff]
    simp only [Bool.or_eq_true, decide_eq_true_iff, List.mem_cons]
    rw [or_left_comm, or_assoc]

theorem underlines_select_codes (f : Formatting) (s : Style) :
    (f.select s.codes).underlines = (decide (.underline ∈ s.attributes) || f.underlines) := by
  rw [select_codes, ← underlines_foldl_switchOn]
  rfl

end Formatting

/-! ## Pieces that do not underline -/

/-- Text after the piece is underlined only if text before it was. -/
def IsPlain (p : Piece) : Prop :=
  ∀ f : Formatting, f.underlines = false → (f.after p.text).underlines = false

/-- No token is underlined. -/
def NeverUnderlines (styles : StyleSheet) : Prop :=
  ∀ type s, styles.styleFor type = some s → .underline ∉ s.attributes

/-- It is enough to look at the styles of the classes. -/
theorem neverUnderlines_of_styles {styles : StyleSheet}
    (h : ∀ e ∈ styles.styles, .underline ∉ e.2.attributes) : NeverUnderlines styles := by
  intro type s hs
  obtain ⟨key, -, hget⟩ := Option.bind_eq_some_iff.mp hs
  obtain ⟨e, he, rfl⟩ := Option.map_eq_some_iff.mp hget
  exact h e (List.mem_of_find?_eq_some he)

theorem isPlain_char {c : Char} (hc : isControl c = false) : IsPlain (.char c) := by
  intro f hf
  rwa [Piece.text, Formatting.after_char hc]

theorem Formatting.underlines_after_reset (f : Formatting) :
    (f.after Style.reset).underlines = false := by
  rw [after_reset]
  rfl

theorem isPlain_reset : IsPlain (.sequence Style.reset) := fun f _ => f.underlines_after_reset

theorem isPlain_sequence {s : Style} (hcodes : s.codes ≠ []) (hs : .underline ∉ s.attributes) :
    IsPlain (.sequence (Style.sequence s.codes)) := by
  intro f hf
  rw [Piece.text, Formatting.after_sequence hcodes, Formatting.underlines_select_codes, hf]
  simpa using hs

theorem isPlain_of_mem_lexemePieces {styles : StyleSheet} (hstyles : NeverUnderlines styles)
    {l : Lexeme} (hl : ∀ c ∈ l.text, isControl c = false) :
    ∀ p ∈ lexemePieces styles l, IsPlain p := by
  intro p hp
  rcases mem_lexemePieces hp with ⟨c, hc, rfl⟩ | rfl | ⟨s, hs, rfl⟩
  · exact isPlain_char (hl c hc)
  · exact isPlain_reset
  · obtain ⟨hstyle, -, hcodes⟩ := shownStyle?_eq_some hs
    exact isPlain_sequence hcodes (hstyles l.type s hstyle)

theorem isPlain_of_mem_flatMap {styles : StyleSheet} (hstyles : NeverUnderlines styles)
    {ls : List Lexeme} (hls : ∀ c ∈ ls.flatMap Lexeme.text, isControl c = false) :
    ∀ p ∈ ls.flatMap (lexemePieces styles), IsPlain p := by
  intro p hp
  obtain ⟨l, hl, hp⟩ := List.mem_flatMap.mp hp
  exact isPlain_of_mem_lexemePieces hstyles
    (fun c hc => hls c (List.mem_flatMap.mpr ⟨l, hl, hc⟩)) p hp

namespace Formatting

theorem underlines_through {ps : List Piece} (h : ∀ p ∈ ps, IsPlain p) : ∀ {f : Formatting},
    f.underlines = false → (f.through ps).underlines = false := by
  induction ps with
  | nil => exact fun hf => hf
  | cons p ps ih =>
    intro f hf
    exact ih (fun q hq => h q (List.mem_cons_of_mem p hq)) (h p List.mem_cons_self f hf)

/-- Cells that no style underlines. -/
theorem underlines_paint {ps : List Piece} (h : ∀ p ∈ ps, IsPlain p) : ∀ {f : Formatting},
    f.underlines = false → ∀ x ∈ f.paint ps, x.formatting.underlines = false := by
  induction ps with
  | nil => exact fun _ _ hx => nomatch hx
  | cons p ps ih =>
    intro f hf x hx
    have hps : ∀ p ∈ ps, IsPlain p := fun q hq => h q (List.mem_cons_of_mem p hq)
    cases p with
    | char c =>
      rcases List.mem_cons.mp hx with rfl | hx
      · exact hf
      · exact ih hps hf x hx
    | sequence s => exact ih hps (h _ List.mem_cons_self f hf) x hx

/-- The sequence of a style does not end an underline that is there before it. -/
theorem underlines_head_paint (styles : StyleSheet) (ls : List Lexeme) {f : Formatting}
    (hf : f.underlines = true) :
    ∀ x ∈ (f.paint (ls.flatMap (lexemePieces styles))).head?, x.formatting.underlines = true := by
  induction ls with
  | nil => exact fun _ hx => nomatch hx
  | cons l ls ih =>
    rw [List.flatMap_cons, lexemePieces]
    split
    · next s hs =>
      obtain ⟨-, hne, hcodes⟩ := shownStyle?_eq_some hs
      obtain ⟨c, t, ht⟩ := List.exists_cons_of_ne_nil hne
      rw [ht]
      intro x hx
      cases hx
      rw [after_sequence hcodes, underlines_select_codes, hf, Bool.or_true]
    · cases ht : l.text with
      | nil => exact ih
      | cons c t =>
        intro x hx
        cases hx
        exact hf

end Formatting

/-! ## Looks aside from the underline -/

namespace Formatting

/-- The formatting without its underline. -/
def withoutUnderline (f : Formatting) : Formatting :=
  { f with attributes := Attribute.all.filter fun a => a ≠ .underline ∧ a ∈ f.attributes }

theorem mem_withoutUnderline {f : Formatting} {a : Attribute} :
    a ∈ f.withoutUnderline.attributes ↔ a ≠ .underline ∧ a ∈ f.attributes := by
  have ha : a ∈ Attribute.all := by cases a <;> decide
  simp [withoutUnderline, ha]

theorem withoutUnderline_ext {f g : Formatting} (hforeground : f.foreground = g.foreground)
    (hbackground : f.background = g.background)
    (h : ∀ a, a ≠ .underline → (a ∈ f.attributes ↔ a ∈ g.attributes)) :
    f.withoutUnderline = g.withoutUnderline := by
  rw [withoutUnderline, withoutUnderline, hforeground, hbackground]
  refine congrArg _ (List.filter_congr fun a _ => decide_eq_decide.mpr ?_)
  exact and_congr_right (h a)

theorem withoutUnderline_idem (f : Formatting) :
    f.withoutUnderline.withoutUnderline = f.withoutUnderline :=
  withoutUnderline_ext rfl rfl fun _ ha => by simp [mem_withoutUnderline, ha]

theorem withoutUnderline_switchOff (f : Formatting) (as : List Attribute) :
    (f.withoutUnderline.switchOff as).withoutUnderline = (f.switchOff as).withoutUnderline :=
  withoutUnderline_ext rfl rfl fun _ ha => by simp [switchOff, mem_withoutUnderline, ha]

theorem withoutUnderline_switchOn (f : Formatting) (a : Attribute) :
    (f.withoutUnderline.switchOn a).withoutUnderline = (f.switchOn a).withoutUnderline :=
  withoutUnderline_ext rfl rfl fun _ ha => by simp [switchOn, mem_withoutUnderline, ha]

theorem withoutUnderline_switchOn_underline (f : Formatting) :
    (f.switchOn .underline).withoutUnderline = f.withoutUnderline := by
  refine withoutUnderline_ext rfl rfl fun a ha => ?_
  have hmem : a ∈ Attribute.all := by cases a <;> decide
  simp [switchOn, ha, hmem]

theorem withoutUnderline_colored (f : Formatting) (c : Color) (g : Ground) :
    (f.withoutUnderline.colored c g).withoutUnderline = (f.colored c g).withoutUnderline := by
  cases g <;>
    exact withoutUnderline_ext rfl rfl fun _ ha => by simp [colored, mem_withoutUnderline, ha]

/-- A number does the same to the other looks, whether there is an underline or not. -/
theorem withoutUnderline_set (f : Formatting) (n : Nat) :
    (f.withoutUnderline.set n).withoutUnderline = (f.set n).withoutUnderline := by
  have hforeground := f.withoutUnderline_colored (g := .foreground)
  have hbackground := f.withoutUnderline_colored (g := .background)
  simp only [colored] at hforeground hbackground
  -- A number without a case of its own may be that of an attribute.
  cases hfound : Attribute.all.find? fun a => a.code = n <;>
    simp only [set, apply_ite withoutUnderline, hfound, withoutUnderline_idem,
      withoutUnderline_switchOff, withoutUnderline_switchOn] <;>
    simp only [hforeground, hbackground]

section Congr

variable {f g : Formatting}

theorem select_congr (h : f.withoutUnderline = g.withoutUnderline) (ns : List Nat) :
    (f.select ns).withoutUnderline = (g.select ns).withoutUnderline :=
  select_congr_of withoutUnderline withoutUnderline_set withoutUnderline_colored h ns

theorem after_congr (h : f.withoutUnderline = g.withoutUnderline) {p : Piece} (hp : p.IsStyled) :
    (f.after p.text).withoutUnderline = (g.after p.text).withoutUnderline := by
  cases p with
  | char c =>
    rw [Piece.text, after_char hp, after_char hp]
    exact h
  | sequence s =>
    obtain ⟨ns, hne, -, rfl⟩ := hp
    rw [Piece.text, after_sequence hne, after_sequence hne]
    exact select_congr h ns

end Congr

end Formatting

/-- The cell without its underline. -/
def Cell.withoutUnderline (x : Cell) : Cell :=
  { x with formatting := x.formatting.withoutUnderline }

/-- An underline changes nothing in the other looks of what comes after it. -/
theorem Formatting.paint_congr {ps : List Piece} (hps : ∀ p ∈ ps, p.IsStyled) :
    ∀ {f g : Formatting}, f.withoutUnderline = g.withoutUnderline →
      (f.paint ps).map Cell.withoutUnderline = (g.paint ps).map Cell.withoutUnderline := by
  induction ps with
  | nil => exact fun _ => rfl
  | cons p ps ih =>
    intro f g h
    have ih {f g : Formatting} := @ih (fun q hq => hps q (List.mem_cons_of_mem p hq)) f g
    cases p with
    | char c =>
      have hcell : Cell.withoutUnderline ⟨c, f⟩ = Cell.withoutUnderline ⟨c, g⟩ :=
        congrArg (Cell.mk c) h
      rw [paint, paint, List.map_cons, List.map_cons, hcell, ih h]
    | sequence s => exact ih (after_congr h (hps _ List.mem_cons_self))

/-! ## Underlined cells -/

/-- Whether the cell at a place is underlined. -/
def Row.isUnderlined (r : Row) (i : Nat) : Bool := r.cells[i]?.any fun x => x.formatting.underlines

/-- Where all cells but one are not underlined, that one decides. -/
theorem any_underlines_append_cons {before after : List Cell} {x : Cell}
    (hbefore : ∀ y ∈ before, y.formatting.underlines = false)
    (hafter : ∀ y ∈ after, y.formatting.underlines = false) (i : Nat) :
    ((before ++ x :: after)[i]?.any fun y => y.formatting.underlines) = true ↔
      i = before.length ∧ x.formatting.underlines = true := by
  rw [Option.any_eq_true]
  constructor
  · rintro ⟨y, hy, hunderlines⟩
    rcases Nat.lt_trichotomy i before.length with hi | rfl | hi
    · rw [List.getElem?_append_left hi] at hy
      rw [hbefore y (List.mem_of_getElem? hy)] at hunderlines
      cases hunderlines
    · rw [List.getElem?_append_right (Nat.le_refl _), Nat.sub_self] at hy
      cases hy
      exact ⟨rfl, hunderlines⟩
    · obtain ⟨n, hn⟩ := Nat.exists_eq_add_of_lt hi
      rw [hn, Nat.add_assoc, List.getElem?_append_right (Nat.le_add_right _ _),
        Nat.add_sub_cancel_left, List.getElem?_cons_succ] at hy
      rw [hafter y (List.mem_of_getElem? hy)] at hunderlines
      cases hunderlines
  · rintro ⟨rfl, hunderlines⟩
    refine ⟨x, ?_, hunderlines⟩
    rw [List.getElem?_append_right (Nat.le_refl _), Nat.sub_self]
    rfl

end ReplCore.Terminal
