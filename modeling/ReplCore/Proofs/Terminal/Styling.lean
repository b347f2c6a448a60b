import Mathlib.Tactic.IntervalCases
import ReplCore.Proofs.Terminal.Row

/-!
# The formatting that a style sets

The numbers of a style switch its attributes on and set its colors. What the style leaves open stays
as it was, so in default formatting the style is all that there is.

* `select_congr_of`: parts of the looks that the other looks do not matter to.
* `select_codes`: what the numbers of a style set.
* `styled_default`: in default formatting text looks as the style says.
-/

namespace ReplCore.Terminal.Formatting

/-- The formatting with a color in front or behind. -/
def colored (f : Formatting) (c : Color) : Ground → Formatting
  | .foreground => { f with foreground := c }
  | .background => { f with background := c }

/-- The color in front or behind. -/
def color (f : Formatting) : Ground → Color
  | .foreground => f.foreground
  | .background => f.background

/-- The formatting with a style on top of it. -/
def styled (f : Formatting) (s : Style) : Formatting where
  foreground := s.foreground.getD f.foreground
  background := s.background.getD f.background
  attributes := (s.attributes.foldl switchOn f).attributes

/-- If one number and one color do the same to a part of the looks, whatever the other looks are, so
do all numbers. -/
theorem select_congr_of (part : Formatting → Formatting)
    (hset : ∀ f n, part ((part f).set n) = part (f.set n))
    (hcolored : ∀ f c ground, part ((part f).colored c ground) = part (f.colored c ground))
    {f g : Formatting} (h : part f = part g) (ns : List Nat) :
    part (f.select ns) = part (g.select ns) := by
  have hcolor {f g : Formatting} (h : part f = part g) (c : Color) (ground : Ground) :
      part (f.colored c ground) = part (g.colored c ground) := by
    rw [← hcolored f, h, hcolored]
  fun_induction select f ns generalizing g with
  | case1 => exact h
  | case2 f n rest ih => exact ih (hcolor h (.numbered n) .foreground)
  | case3 f red green blue rest ih => exact ih (hcolor h (.mixed red green blue) .foreground)
  | case4 f n rest ih => exact ih (hcolor h (.numbered n) .background)
  | case5 f red green blue rest ih => exact ih (hcolor h (.mixed red green blue) .background)
  | case6 f n rest h₁ h₂ h₃ h₄ ih =>
    rw [select.eq_6 g n rest h₁ h₂ h₃ h₄]
    refine ih ?_
    rw [← hset f, h, hset]

/-! ## The numbers of a style -/

theorem foreground_foldl_switchOn (as : List Attribute) : ∀ f : Formatting,
    (as.foldl switchOn f).foreground = f.foreground := by
  induction as with
  | nil => exact fun _ => rfl
  | cons a as ih => exact fun f => ih (f.switchOn a)

theorem background_foldl_switchOn (as : List Attribute) : ∀ f : Formatting,
    (as.foldl switchOn f).background = f.background := by
  induction as with
  | nil => exact fun _ => rfl
  | cons a as ih => exact fun f => ih (f.switchOn a)

theorem select_attributes (as : List Attribute) (ns : List Nat) : ∀ f : Formatting,
    f.select (as.map Attribute.code ++ ns) = (as.foldl switchOn f).select ns := by
  induction as with
  | nil => exact fun _ => rfl
  | cons a as ih =>
    intro f
    have hcode : f.select (a.code :: (as.map Attribute.code ++ ns)) =
        (f.switchOn a).select (as.map Attribute.code ++ ns) := by
      cases a <;> rfl
    rw [List.map_cons, List.cons_append, hcode, ih, List.foldl_cons]

theorem select_color (f : Formatting) (c : Color) (g : Ground) (ns : List Nat) :
    f.select (c.codes g ++ ns) = (f.colored c g).select ns := by
  cases c with
  | default => cases g <;> rfl
  | mixed red green blue => cases g <;> rfl
  | numbered n =>
    by_cases hdark : n < 8
    · interval_cases n <;> cases g <;> rfl
    by_cases hbright : n < 16
    · interval_cases n <;> cases g <;> rfl
    cases g <;> simp only [Color.codes, if_neg hdark, if_neg hbright] <;> rfl

theorem select_color? (f : Formatting) (c : Option Color) (g : Ground) (ns : List Nat) :
    f.select ((c.map fun d => d.codes g).getD [] ++ ns) =
      ((c.map fun d => f.colored d g).getD f).select ns := by
  cases c with
  | none => rfl
  | some c => exact select_color f c g ns

/-- The numbers of a style set what the style says and leave the rest as it was. -/
theorem select_codes (f : Formatting) (s : Style) : f.select s.codes = f.styled s := by
  rw [Style.codes, List.append_assoc, select_attributes, select_color?, ← List.append_nil
    ((s.background.map fun c => c.codes .background).getD []), select_color?, select, styled,
    ← foreground_foldl_switchOn s.attributes, ← background_foldl_switchOn s.attributes f]
  cases s.foreground <;> cases s.background <;> rfl

/-! ## In default formatting -/

/-- How text looks that is in a style and nothing else. -/
def ofStyle (s : Style) : Formatting where
  foreground := s.foreground.getD .default
  background := s.background.getD .default
  attributes := Attribute.all.filter (· ∈ s.attributes)

/-- Attributes that are switched on one after the other are all on. -/
theorem attributes_foldl_switchOn (as : List Attribute) : ∀ {f : Formatting},
    f.attributes = Attribute.all.filter (· ∈ f.attributes) →
      (as.foldl switchOn f).attributes =
        Attribute.all.filter fun a => a ∈ as ∨ a ∈ f.attributes := by
  induction as with
  | nil =>
    intro f hf
    simpa using hf
  | cons a as ih =>
    intro f hf
    have hmem : ∀ b, b ∈ (f.switchOn a).attributes ↔ b = a ∨ b ∈ f.attributes := by
      intro b
      have hb : b ∈ Attribute.all := by cases b <;> decide
      simp [switchOn, hb]
    rw [List.foldl_cons, ih]
    · refine List.filter_congr fun b _ => decide_eq_decide.mpr ?_
      rw [hmem, List.mem_cons, or_left_comm, or_assoc]
    · refine List.filter_congr fun b _ => decide_eq_decide.mpr ?_
      rw [hmem]

theorem styled_default (s : Style) : default.styled s = ofStyle s := by
  rw [styled, ofStyle, attributes_foldl_switchOn s.attributes (f := default) rfl]
  simp [default]

end ReplCore.Terminal.Formatting
