import ReplCore.Style.Color

/-!
# Styles

A style gives text a color, a color behind it, and attributes, any of which it may leave open.
Styles add up: a later color takes the place of an earlier one, and attributes are united.
-/

namespace ReplCore

/-- An attribute of text. -/
inductive Attribute where
  | bold
  | dim
  | italic
  | underline
  | blink
  | reverse
  | conceal
  | strike
deriving Repr, DecidableEq

namespace Attribute

def all : List Attribute := [bold, dim, italic, underline, blink, reverse, conceal, strike]

/-- The number that selects an attribute. -/
def code : Attribute → Nat
  | bold => 1
  | dim => 2
  | italic => 3
  | underline => 4
  | blink => 5
  | reverse => 7
  | conceal => 8
  | strike => 9

end Attribute

/-- How text looks. Attributes are kept in the order of their codes. -/
structure Style where
  foreground : Option Color
  background : Option Color
  attributes : List Attribute
deriving Repr, DecidableEq

namespace Style

/-- The style that leaves everything open. -/
def none : Style := ⟨.none, .none, []⟩

/-- The first style with the second on top of it. -/
def add (s t : Style) : Style where
  foreground := t.foreground.or s.foreground
  background := t.background.or s.background
  attributes := Attribute.all.filter fun a => a ∈ s.attributes ∨ a ∈ t.attributes

instance : Add Style := ⟨add⟩

/-- The numbers that select a style. -/
def codes (s : Style) : List Nat :=
  s.attributes.map Attribute.code
    ++ ((s.foreground.map fun c => c.codes .foreground).getD [])
    ++ ((s.background.map fun c => c.codes .background).getD [])

/-- The escape sequence that sets the given numbers. -/
def sequence (codes : List Nat) : Text :=
  "\x1b[".toList ++ Text.join [';'] (codes.map Text.ofNat) ++ "m".toList

/-- The escape sequence that takes back every style. -/
def reset : Text := "\x1b[0m".toList

/-- Text in a style; a style that leaves everything open adds nothing to it. -/
def render (s : Style) (t : Text) : Text :=
  if t.isEmpty ∨ s.codes.isEmpty then t else sequence s.codes ++ t ++ reset

/-! ## Written styles -/

/-- The attributes that can be written as a style. -/
def attributeNames : List (String × Attribute) :=
  [("bold", .bold), ("dim", .dim), ("italic", .italic), ("underline", .underline),
   ("strikethrough", .strike), ("strike", .strike), ("inverse", .reverse), ("reverse", .reverse),
   ("hidden", .conceal), ("blink", .blink)]

/-- Three hexadecimal digits written twice each. -/
def expandHex (t : Text) : Text :=
  if t.length = 4 then '#' :: (t.drop 1).flatMap fun c => [c, c] else t

/-- The terminal's name of a color written in camel case. -/
def terminalName (t : Text) : Text :=
  if t = "gray".toList ∨ t = "grey".toList ∨ t = "blackBright".toList then "bright_black".toList
  else if Text.endsWith t "Bright".toList then "bright_".toList ++ t.take (t.length - 6)
  else t

/-- The maximal runs of decimal digits. -/
def digitRuns (t : Text) : List Text :=
  (t.foldr (fun c acc =>
    if !CharClass.isDigit c then [] :: acc
    else match acc with
      | [] => [[c]]
      | w :: ws => (c :: w) :: ws) [[]]).filter (· ≠ [])

/-- The style that colors text. -/
def colored (c : Color) : Style := ⟨some c, .none, []⟩

/-- The style that colors what is behind text. -/
def onColor (c : Color) : Style := ⟨.none, some c, []⟩

/-- The style that a value describes: an attribute, a color in hexadecimal or decimal numbers, or a
color by name, with `bg` before a capital for the color behind text. -/
def ofValue? (value : Text) : Option Style :=
  let value := Text.trim value
  match (attributeNames.find? fun n => n.1.toList = value).map (·.2) with
  | some a => some ⟨.none, .none, [a]⟩
  | Option.none =>
    if value.head? = some '#' then (Color.ofText? (expandHex value)).map colored
    else if "rgb".toList.isPrefixOf value then
      match digitRuns value with
      | r :: g :: b :: _ =>
        (Color.ofText? ("rgb(".toList ++ Text.join [','] [r, g, b] ++ ")".toList)).map colored
      | _ => Option.none
    else
      match value with
      | 'b' :: 'g' :: c :: rest =>
        match CharClass.smallLetter? c with
        | some small => (Color.ofText? (terminalName (small :: rest))).map onColor
        | Option.none => (Color.ofText? (terminalName value)).map colored
      | _ => (Color.ofText? (terminalName value)).map colored

end Style

end ReplCore
