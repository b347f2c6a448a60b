import ReplCore.Log.Template.Error
import ReplCore.Value

/-!
# Templates with percent signs

Percent signs mark the places of arguments in order. The letter of a place says how its argument is
written, and before it may stand flags, a width and a precision.

    place = "%" flag* [width] ["." precision] letter

Two percent signs, with nothing between them, stand for one.
-/

namespace ReplCore.Log.Percent

/-- What stands between a percent sign and the letter of a place. -/
structure Layout where
  /-- `-`: the argument stands on the left of its width. -/
  left : Bool
  /-- `+`: a number that is not negative has a sign. -/
  signed : Bool
  /-- A blank: a number that is not negative has a blank for a sign. -/
  spaced : Bool
  /-- `0`: a number is filled up with zeros. -/
  zeros : Bool
  width : Nat
  precision : Option Nat
deriving Repr, DecidableEq

namespace Layout

def default : Layout := ⟨false, false, false, false, 0, none⟩

/-- The layout with a flag, if the character is one. -/
def withFlag? (l : Layout) : Char → Option Layout
  | '-' => some { l with left := true }
  | '+' => some { l with signed := true }
  | ' ' => some { l with spaced := true }
  | '0' => some { l with zeros := true }
  | '#' => some l
  | _ => none

/-- The layout with the flags at the start of a text, and the text after them. -/
def flags : Layout → Text → Layout × Text
  | l, [] => (l, [])
  | l, c :: rest =>
    match l.withFlag? c with
    | some l => flags l rest
    | none => (l, c :: rest)

/-- The number at the start of a text, and the text after it. -/
def number (t : Text) : Nat × Text :=
  ((t.takeWhile Char.isDigit).foldl (fun n d => 10 * n + (d.toNat - '0'.toNat)) 0,
    t.dropWhile Char.isDigit)

/-- The layout at the start of a text, and the text after it. -/
def read (t : Text) : Layout × Text :=
  let (l, t) := default.flags t
  let (width, t) := number t
  let (precision, t) :=
    match t with
    | '.' :: t => ((some (number t).1 : Option Nat), (number t).2)
    | t => (none, t)
  let t :=
    match t with
    | c :: rest => if c ∈ ['h', 'l', 'L'] then rest else c :: rest
    | [] => []
  ({ l with width := width, precision := precision }, t)

/-- A text in its width. -/
def place (l : Layout) (t : Text) : Text :=
  let blanks := List.replicate (l.width - t.length) ' '
  if l.left then t ++ blanks else blanks ++ t

/-- A text cut to the precision, in its width. -/
def text (l : Layout) (t : Text) : Text := l.place ((l.precision.map t.take).getD t)

/-- An integer with zeros up to the precision, in its width. -/
def integer (l : Layout) (n : Int) : Text :=
  let digits := Text.ofNat n.natAbs
  let digits := List.replicate (l.precision.getD 0 - digits.length) '0' ++ digits
  let sign : Text :=
    if n < 0 then ['-'] else if l.signed then ['+'] else if l.spaced then [' '] else []
  let zeros := if l.zeros ∧ ¬l.left then l.width - sign.length - digits.length else 0
  l.place (sign ++ List.replicate zeros '0' ++ digits)

end Layout

/-- The integer that a value stands for; a fraction is cut off. -/
def integer? (v : Value) : Option Int := v.ratio?.map fun (n, d) => n.tdiv d

/-- A value as the letter of a place says, or nothing if it does not fit. The offset is that of the
letter. -/
def write (l : Layout) (letter : Char) (offset : Nat) (v : Value) : Except TemplateError Text :=
  match letter with
  | 's' => .ok (l.text v.plain)
  | 'r' => .ok (l.text v.shown)
  | 'a' => .ok (l.text (Quoted.inAscii v.shown))
  | 'd' | 'i' | 'u' => ((integer? v).map l.integer).elim (.error .mismatch) .ok
  | c => .error (.illFormed (.unknownLetter c offset))

/-- A template with its arguments filled in; all of them must have a place. The text `bound` only
bounds the number of steps. -/
def fillFrom (size : Nat) : (bound : Text) → Text → List Value → Except TemplateError Text
  | [], _, arguments => if arguments.isEmpty then .ok [] else .error .mismatch
  | _, [], arguments => if arguments.isEmpty then .ok [] else .error .mismatch
  | _ :: bound, c :: rest, arguments =>
    if c ≠ '%' then (fillFrom size bound rest arguments).map (c :: ·)
    else if rest.head? = some '%' then (fillFrom size bound rest.tail arguments).map ('%' :: ·)
    else if rest.head? = some '(' then .error .mismatch
    else
      match Layout.read rest with
      | (_, []) => .error (.illFormed .incomplete)
      | (l, letter :: rest) =>
        match arguments with
        | [] => .error .mismatch
        | a :: arguments => do
          let t ← write l letter (size - rest.length - 1) a
          return t ++ (← fillFrom size bound rest arguments)

/-- A template with its arguments filled in. -/
def fill (template : Text) (arguments : List Value) : Except TemplateError Text :=
  fillFrom template.length template template arguments

end ReplCore.Log.Percent
