import ReplCore.Text.Basic

/-!
# Font weights

A weight is a word or a number, and a terminal has only bold and dim type. A number is written with
optional sign, point and exponent, single low lines between digits, and decimal digits of any
script. It is compared as the nearest floating-point number of double precision, so that a decimal
fraction just above the threshold still counts as the threshold.
-/

namespace ReplCore.Weight

/-- A written number: the digits, as one natural number, times ten to the power of the exponent,
or infinity. -/
inductive Numeral where
  | finite (negative : Bool) (digits : Nat) (exponent : Int)
  | infinite (negative : Bool)
  | notANumber
deriving Repr, DecidableEq

/-- The text without its low lines, each of which must stand between two digits. -/
def withoutLowLines? (before : Option Char) : Text → Option Text
  | [] => if before = some '_' then none else some []
  | c :: rest =>
    if c = '_' then
      if before.any CharClass.isDigit then withoutLowLines? (some '_') rest else none
    else if before = some '_' ∧ !CharClass.isDigit c then none
    else (withoutLowLines? (some c) rest).map (c :: ·)

/-- The values of the digits at the start of a text, and the rest of the text. -/
def digitRun : Text → List Nat × Text
  | [] => ([], [])
  | c :: rest =>
    match CharClass.digitValue? c with
    | none => ([], c :: rest)
    | some d =>
      let (ds, r) := digitRun rest
      (d :: ds, r)

/-- The number with the given decimal digits. -/
def ofDigits (ds : List Nat) : Nat := ds.foldl (fun n d => 10 * n + d) 0

/-- A sign at the start of a text. -/
def sign (t : Text) : Bool × Text :=
  match t with
  | '-' :: rest => (true, rest)
  | '+' :: rest => (false, rest)
  | _ => (false, t)

/-- The exponent that a whole text stands for. -/
def exponent? (t : Text) : Option Int :=
  match t with
  | [] => some 0
  | 'e' :: rest =>
    let (negative, rest) := sign rest
    match digitRun rest with
    | (d :: ds, []) =>
      let n : Int := ofDigits (d :: ds)
      some (if negative then -n else n)
    | _ => none
  | _ => none

/-- The number that a text of small letters without low lines stands for. -/
def plainNumeral? (t : Text) : Option Numeral :=
  let (negative, t) := sign t
  if t = "inf".toList ∨ t = "infinity".toList then some (.infinite negative)
  else if t = "nan".toList then some .notANumber
  else
    let (whole, rest) := digitRun t
    let (part, rest) :=
      match rest with
      | '.' :: r => digitRun r
      | _ => ([], rest)
    if whole.isEmpty ∧ part.isEmpty then none
    else
      (exponent? rest).map fun e => .finite negative (ofDigits (whole ++ part)) (e - part.length)

/-- The number that a text of small letters stands for. -/
def numeral? (t : Text) : Option Numeral := (withoutLowLines? none t).bind plainNumeral?

/-- The weight above which type is bold. -/
def threshold : Nat := 400

/-- Whether the nearest double is above the threshold. The next double above 400 is larger by
2⁻⁴⁴, and a number halfway between the two rounds to 400, whose significand is even. -/
def Numeral.isHeavy : Numeral → Bool
  | infinite negative => !negative
  | notANumber => false
  | finite true _ _ => false
  | finite false digits exponent =>
    let size : Int := (Nat.toDigits 10 digits).length + exponent
    if digits = 0 then false
    else if size > 4 then true
    else if size < 1 then false
    else if 0 ≤ exponent then threshold < digits * Nat.pow 10 exponent.toNat
    else (threshold * Nat.pow 2 45 + 1) * Nat.pow 10 exponent.natAbs < digits * Nat.pow 2 45

/-- The style value of a font weight. -/
def styleValue (value : Text) : Text :=
  let value := Text.foldCase (Text.trim value)
  if value = "bold".toList ∨ value = "bolder".toList then "bold".toList
  else if (numeral? value).any Numeral.isHeavy then "bold".toList
  else "dim".toList

end ReplCore.Weight
