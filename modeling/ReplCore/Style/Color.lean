import ReplCore.Style.ColorName

/-!
# Colors

A color is the terminal's own, one of its 256 numbered colors, or a mixture of red, green and blue.
`Color.ofText?` reads the written forms, and `Color.codes` gives the numbers that select a color.
-/

namespace ReplCore

/-- A color of text or of what is behind it. -/
inductive Color where
  | default
  | numbered (n : Nat)
  | mixed (red green blue : Nat)
deriving Repr, DecidableEq

/-- What a color is applied to. -/
inductive Ground where
  | foreground
  | background
deriving Repr, DecidableEq

namespace Color

/-- The number that a text of decimal digits stands for, white space around it aside. The
information separators are no white space here. -/
def naturalNumber? (t : Text) : Option Nat :=
  let digits := Text.trimBy CharClass.isPlainBlank t
  if digits.isEmpty then none
  else (digits.mapM CharClass.digitValue?).map fun ds => ds.foldl (fun n d => 10 * n + d) 0

/-- The value of a small hexadecimal digit. -/
def hexValue? (c : Char) : Option Nat :=
  if '0' ≤ c ∧ c ≤ '9' then some (c.toNat - 48)
  else if 'a' ≤ c ∧ c ≤ 'f' then some (c.toNat - 87) else none

/-- Six hexadecimal digits. -/
def hexadecimal? (t : Text) : Option Color := do
  match ← t.mapM hexValue? with
  | [a, b, c, d, e, f] => some (.mixed (16 * a + b) (16 * c + d) (16 * e + f))
  | _ => none

/-- The text between an opening and a closing text. -/
def between? (opening closing t : Text) : Option Text :=
  if opening.isPrefixOf t ∧ closing.isSuffixOf t ∧ opening.length + closing.length ≤ t.length then
    some (Text.slice t opening.length (t.length - closing.length))
  else none

/-- The number of a color: one to three ASCII digits. -/
def colorNumber? (t : Text) : Option Color := do
  if t.length ≤ 3 ∧ t.all fun c => '0' ≤ c ∧ c ≤ '9' then
    let n ← naturalNumber? t
    if n ≤ 255 then some (.numbered n) else none
  else none

/-- Three numbers between commas. -/
def triple? (t : Text) : Option Color := do
  match ← (Text.splitOn ',' t).mapM naturalNumber? with
  | [r, g, b] => if r ≤ 255 ∧ g ≤ 255 ∧ b ≤ 255 then some (.mixed r g b) else none
  | _ => none

/-- The color that a text names. Capitals and the white space around do not matter. -/
def ofText? (t : Text) : Option Color :=
  let t := Text.trim (Text.foldCase t)
  if t = "default".toList then some .default
  else
    match number? t with
    | some n => some (.numbered n)
    | none =>
      match t with
      | '#' :: digits => hexadecimal? digits
      | _ =>
        ((between? "color(".toList ")".toList t).bind colorNumber?).or
          ((between? "rgb(".toList ")".toList t).bind triple?)

/-- The numbers that select a color. -/
def codes : Color → Ground → List Nat
  | default, .foreground => [39]
  | default, .background => [49]
  | numbered n, .foreground => if n < 8 then [30 + n] else if n < 16 then [82 + n] else [38, 5, n]
  | numbered n, .background => if n < 8 then [40 + n] else if n < 16 then [92 + n] else [48, 5, n]
  | mixed r g b, .foreground => [38, 2, r, g, b]
  | mixed r g b, .background => [48, 2, r, g, b]

end Color

end ReplCore
