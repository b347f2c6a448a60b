import ReplCore.Pattern

/-!
# Stylesheets

The part of the stylesheet language that themes need: rules with a list of selectors and
declarations, comments, and at-rules, which are skipped with their blocks. A stylesheet is read as a
whole or not at all.

A reader takes a text and gives what it read and the rest of the text. Readers skip the white space
and the comments after what they read. In selectors and values, comments are taken out afterwards.
-/

namespace ReplCore

/-- A rule: what it applies to and what it declares. -/
structure StyleRule where
  selectors : List Text
  declarations : List (Text × Text)
deriving Repr, DecidableEq

namespace Stylesheet

/-! ## White space and comments -/

/-- The text after the end of a comment whose start was read. -/
def afterComment? : Text → Option Text
  | [] => none
  | '*' :: '/' :: rest => some rest
  | _ :: rest => afterComment? rest

/-- The text after a comment at the start. -/
def comment? : Text → Option Text
  | '/' :: '*' :: rest => afterComment? rest
  | _ => none

/-- The text after the white space and the comments at its start. The text `bound` only bounds
their number. -/
def skipFrom : (bound : Text) → Text → Text
  | _, [] => []
  | [], t => t
  | _ :: bound, c :: rest =>
    if CharClass.isBlank c then skipFrom bound rest
    else
      match comment? (c :: rest) with
      | some rest => skipFrom bound rest
      | none => c :: rest

/-- The text after the white space and the comments at its start. -/
def skip (t : Text) : Text := skipFrom t t

/-- The text without its comments. The text `bound` only bounds their number. -/
def withoutCommentsFrom : (bound : Text) → Text → Text
  | _, [] => []
  | [], t => t
  | _ :: bound, c :: rest =>
    match comment? (c :: rest) with
    | some rest => withoutCommentsFrom bound rest
    | none => c :: withoutCommentsFrom bound rest

/-- The text without its comments. -/
def withoutComments (t : Text) : Text := withoutCommentsFrom t t

/-! ## Readers -/

/-- A single character. -/
def symbol (c : Char) : Text → Option Text
  | [] => none
  | x :: rest => if x = c then some (skip rest) else none

/-- Characters of a class, as many as there are. -/
def run (p : Char → Bool) (t : Text) : Text × Text := (t.takeWhile p, skip (t.dropWhile p))

/-- A selector, with single spaces inside and none around. -/
def selector (t : Text) : Option (Text × Text) :=
  match run (fun c => c ≠ ',' ∧ c ≠ '\x7b' ∧ c ≠ '\x7d') t with
  | ([], _) => none
  | (s, rest) => some (Text.join [' '] (Text.words (withoutComments s)), rest)

/-- The selectors that follow, each after a comma. -/
def moreSelectors : (bound : Text) → Text → List Text × Text
  | [], t => ([], t)
  | _ :: bound, t =>
    match symbol ',' t >>= selector with
    | none => ([], t)
    | some (s, rest) =>
      let (more, rest) := moreSelectors bound rest
      (s :: more, rest)

/-- One selector or more. -/
def selectors (t : Text) : Option (List Text × Text) :=
  (selector t).map fun (s, rest) =>
    let (more, rest) := moreSelectors rest rest
    (s :: more, rest)

/-- Whether a character may begin the name of a property. -/
def beginsProperty (c : Char) : Bool := c = '_' || ('a' ≤ c && c ≤ 'z') || ('A' ≤ c && c ≤ 'Z')

/-- Whether a character may continue the name of a property. -/
def continuesProperty (c : Char) : Bool :=
  beginsProperty c || c = '-' || ('0' ≤ c && c ≤ '9')

/-- The name of a property, in small letters. -/
def propertyName (t : Text) : Option (Text × Text) :=
  let name : Text :=
    match t with
    | '-' :: c :: rest =>
      if beginsProperty c then '-' :: c :: rest.takeWhile continuesProperty else []
    | c :: rest => if beginsProperty c then c :: rest.takeWhile continuesProperty else []
    | [] => []
  if name.isEmpty then none else some (Text.foldCase name, skip (t.drop name.length))

/-- The value of a property. -/
def propertyValue (t : Text) : Text × Text :=
  let (v, rest) := run (fun c => c ≠ ';' ∧ c ≠ '\x7d') t
  (Text.trim (withoutComments v), rest)

/-- A property with its value. -/
def declaration (t : Text) : Option ((Text × Text) × Text) := do
  let (name, rest) ← propertyName t
  let rest ← symbol ':' rest
  let (value, rest) := propertyValue rest
  return ((name, value), rest)

/-- Declarations, each with a semicolon after it or not. -/
def declarations : (bound : Text) → Text → List (Text × Text) × Text
  | [], t => ([], t)
  | _ :: bound, t =>
    match declaration t with
    | none => ([], t)
    | some (d, rest) =>
      let (more, rest) := declarations bound ((symbol ';' rest).getD rest)
      (d :: more, rest)

/-- What is in a block: text and further blocks, up to a brace that belongs to neither. -/
def blockItems : (bound : Text) → Text → Text
  | [], t => t
  | _, [] => []
  | _ :: bound, c :: rest =>
    if c = '\x7b' then
      match symbol '\x7d' (blockItems bound (skip rest)) with
      | some after => blockItems bound after
      | none => c :: rest
    else if c = '\x7d' then c :: rest
    else blockItems bound (skip ((c :: rest).dropWhile fun x => x ≠ '\x7b' ∧ x ≠ '\x7d'))

/-- A block in braces. -/
def block (t : Text) : Option Text := do
  let rest ← symbol '\x7b' t
  symbol '\x7d' (blockItems rest rest)

/-- An at-rule, which ends with a semicolon or a block. -/
def atRule (t : Text) : Option Text :=
  if t.head? = some '@' then
    let (_, rest) := run (fun c => c ≠ '\x7b' ∧ c ≠ ';') t
    (symbol ';' rest).or (block rest)
  else none

/-- A rule. -/
def rule (t : Text) : Option (StyleRule × Text) := do
  let (ss, rest) ← selectors t
  let rest ← symbol '\x7b' rest
  let (ds, rest) := declarations rest rest
  let rest ← symbol '\x7d' rest
  return (⟨ss, ds⟩, rest)

/-- Rules and at-rules, as many as there are; at-rules are left out. -/
def rules : (bound : Text) → Text → List StyleRule × Text
  | [], t => ([], t)
  | _ :: bound, t =>
    match atRule t with
    | some rest => rules bound rest
    | none =>
      match rule t with
      | none => ([], t)
      | some (r, rest) =>
        let (more, rest) := rules bound rest
        (r :: more, rest)

/-- The rules of a stylesheet, if it can be read to its end. -/
def read? (t : Text) : Option (List StyleRule) :=
  let t := skip t
  match rules t t with
  | (rs, []) => some rs
  | _ => none

end Stylesheet

end ReplCore
