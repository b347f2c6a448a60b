import ReplCore.Log.Template.Error
import ReplCore.Value

/-!
# Templates in braces

Braces mark the places of arguments, by number or one after the other, and two braces stand for
one. A place may go on to an element of its argument, in brackets, and may say how the argument is
shown: `!s` as it is, `!r` as a message shows a value, `!a` the same in ASCII.

    place = "{" [number] member* ["!" letter] [":" layout] "}"
-/

namespace ReplCore.Log

/-- A place in a template. -/
structure Place where
  /-- Which argument, and which element of it. -/
  name : Text
  /-- How the argument is shown. -/
  conversion : Option Char
  layout : Text
deriving Repr, DecidableEq

/-- A piece of a template. What is ill-formed is a piece too, as the pieces before it are filled in
first. -/
inductive Part where
  | char (c : Char)
  | place (p : Place)
  | fault (f : TemplateFault)
deriving Repr, DecidableEq

namespace Place

/-- The name of a place, the character that ends it, and the text after that. Between brackets
every character belongs to the name. -/
def nameFrom : (bracketed : Bool) → Text → Except TemplateFault (Text × Char × Text)
  | _, [] => .error .openPlace
  | true, c :: rest => (nameFrom (c ≠ ']') rest).map fun (name, r) => (c :: name, r)
  | false, c :: rest =>
    if c = '\x7b' then .error .braceInPlace
    else if c = '\x7d' ∨ c = ':' ∨ c = '!' then .ok ([], c, rest)
    else (nameFrom (c = '[') rest).map fun (name, r) => (c :: name, r)

/-- The layout of a place and the text after the place, inside a number of braces. -/
def layoutFrom : (depth : Nat) → Text → Except TemplateFault (Text × Text)
  | _, [] => .error .openLayout
  | depth, c :: rest =>
    if c = '\x7d' ∧ depth = 0 then .ok ([], rest)
    else
      let deeper := if c = '\x7b' then depth + 1 else if c = '\x7d' then depth - 1 else depth
      (layoutFrom deeper rest).map fun (layout, r) => (c :: layout, r)

/-- A place and the text after it, given the text after the opening brace. -/
def read (t : Text) : Except TemplateFault (Place × Text) := do
  let (name, ending, rest) ← nameFrom false t
  if ending = '\x7d' then return (⟨name, none, []⟩, rest)
  else if ending = ':' then
    let (layout, rest) ← layoutFrom 0 rest
    return (⟨name, none, layout⟩, rest)
  else
    match rest with
    | [] => throw .noConversion
    | [_] => throw .openLayout
    | letter :: c :: rest =>
      if c = '\x7d' then return (⟨name, some letter, []⟩, rest)
      else if c = ':' then
        let (layout, rest) ← layoutFrom 0 rest
        return (⟨name, some letter, layout⟩, rest)
      else throw .afterConversion

end Place

/-- The parts of a template. The text `bound` only bounds their number. -/
def partsFrom : (bound : Text) → Text → List Part
  | [], _ => []
  | _, [] => []
  | _ :: bound, c :: rest =>
    if c ≠ '\x7b' ∧ c ≠ '\x7d' then .char c :: partsFrom bound rest
    else if rest.head? = some c then .char c :: partsFrom bound rest.tail
    else if c = '\x7d' then [.fault .loneClosing]
    else if rest.isEmpty then [.fault .loneOpening]
    else
      match Place.read rest with
      | .ok (p, rest) => .place p :: partsFrom bound rest
      | .error f => [.fault f]

/-- The parts of a template. -/
def parts (template : Text) : List Part := partsFrom template template

/-! ## Filling in -/

/-- How the places of a template were numbered so far. -/
inductive Numbering where
  | undecided
  /-- One after the other; the next one has a number. -/
  | automatic (next : Nat)
  | explicit
deriving Repr, DecidableEq

/-- The greatest number that a template may hold. -/
def largestNumber : Nat := Nat.pow 2 63 - 1

/-- The number that decimal digits of any script write, after some that were read. A text with
another character in it is not a number. -/
def numberAfter : (read : Nat) → Text → Except TemplateError (Option Nat)
  | n, [] => .ok (some n)
  | n, c :: rest =>
    match CharClass.digitValue? c with
    | none => .ok none
    | some d =>
      if 10 * n + d ≤ largestNumber then numberAfter (10 * n + d) rest
      else .error (.illFormed .largeNumber)

/-- The number that a text writes. -/
def number? (t : Text) : Except TemplateError (Option Nat) :=
  if t.isEmpty then .ok none else numberAfter 0 t

/-- The element of a value that a text in brackets names. -/
def element (v : Value) (name : Text) : Except TemplateError Value := do
  let number ← number? name
  if name.isEmpty then throw (.illFormed .emptyMember)
  match v, number with
  | .text t, some n => (t[n]?.map fun c => .text [c]).elim (.error .missing) .ok
  | .list vs, some n => vs[n]?.elim (.error .missing) .ok
  | .record fields, none =>
    ((fields.find? fun f => f.1 = name).map (·.2)).elim (.error (.unknownName name)) .ok
  | .record _, some n => throw (.unknownNumber n)
  | _, _ => throw .mismatch

/-- What the members after an argument lead to. The text `bound` only bounds their number. -/
def membersOf : (bound : Text) → Value → Text → Except TemplateError Value
  | _, v, [] => .ok v
  | [], v, _ => .ok v
  | _ :: bound, v, c :: rest =>
    if c = '[' then do
      let v ← element v (rest.takeWhile (· ≠ ']'))
      membersOf bound v (rest.dropWhile (· ≠ ']')).tail
    else if c = '.' then
      if rest.head?.all fun d => d = '.' ∨ d = '[' then .error (.illFormed .emptyMember)
      else .error .noAttribute
    else .error (.illFormed .afterMember)

/-- The number of the argument of a place, given the name of the place up to its members, and how
places are numbered from there on. -/
def Numbering.next (n : Numbering) (name : Text) : Except TemplateError (Nat × Numbering) := do
  match ← number? name, n with
  | some _, automatic _ => throw (.illFormed .numberAfterNone)
  | some i, _ => return (i, explicit)
  | none, n =>
    if !name.isEmpty then throw (.unknownName name)
    else
      match n with
      | undecided => return (0, automatic 1)
      | automatic i => return (i, automatic (i + 1))
      | explicit => throw (.illFormed .noneAfterNumber)

/-- A value as the letter of a place says. -/
def shownAs (v : Value) : Option Char → Except TemplateError Text
  | none => .ok v.plain
  | some 's' => .ok v.plain
  | some 'r' => .ok v.shown
  | some 'a' => .ok (Quoted.inAscii v.shown)
  | some c => .error (.illFormed (.unknownConversion c))

/-- The text for a place, and how places are numbered from there on. -/
def Place.fill (p : Place) (arguments : List Value) (n : Numbering) :
    Except TemplateError (Text × Numbering) := do
  let isMember (c : Char) : Bool := c = '.' ∨ c = '['
  let (i, n) ← n.next (p.name.takeWhile fun c => !isMember c)
  match arguments[i]? with
  | none => throw .missing
  | some v =>
    let members := p.name.dropWhile fun c => !isMember c
    let t ← shownAs (← membersOf members v members) p.conversion
    if p.layout.isEmpty then return (t, n) else throw (.illFormed .unknownLayout)

/-- The text of the parts. -/
def fillParts (arguments : List Value) : Numbering → List Part → Except TemplateError Text
  | _, [] => .ok []
  | n, .char c :: ps => (fillParts arguments n ps).map (c :: ·)
  | n, .place p :: ps => do
    let (t, n) ← p.fill arguments n
    return t ++ (← fillParts arguments n ps)
  | _, .fault f :: _ => .error (.illFormed f)

/-- A template in braces with its arguments filled in. -/
def fill (template : Text) (arguments : List Value) : Except TemplateError Text :=
  fillParts arguments .undecided (parts template)

end ReplCore.Log
