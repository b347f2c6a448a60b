import ReplCore.Text.Quoted

/-!
# Errors of message templates

A template is filled in from left to right, and the first thing that is wrong ends it: the template
may be ill-formed, or an argument may be missing or not fit its place.
-/

namespace ReplCore.Log

/-- How a template is ill-formed. -/
inductive TemplateFault where
  /-- A closing brace stands alone. -/
  | loneClosing
  /-- The template ends with an opening brace. -/
  | loneOpening
  /-- The template ends in the name of a place. -/
  | openPlace
  /-- There is an opening brace in the name of a place. -/
  | braceInPlace
  /-- The template ends where a place should say how its argument is shown. -/
  | noConversion
  /-- Something other than the layout follows the letter that says how an argument is shown. -/
  | afterConversion
  | unknownConversion (c : Char)
  /-- The template ends in the layout of a place. -/
  | openLayout
  | unknownLayout
  /-- A number does not fit a machine word. -/
  | largeNumber
  /-- A place with a number follows one without. -/
  | numberAfterNone
  /-- A place without a number follows one with a number. -/
  | noneAfterNumber
  /-- The name of a member is empty. -/
  | emptyMember
  /-- Neither the end nor another member follows a member in brackets. -/
  | afterMember
  /-- The template ends after a percent sign. -/
  | incomplete
  /-- The character at an offset after a percent sign is no letter of a conversion. -/
  | unknownLetter (c : Char) (offset : Nat)
deriving Repr, DecidableEq

/-- What is wrong with a template or its arguments. -/
inductive TemplateError where
  | illFormed (f : TemplateFault)
  /-- The template has a place for an argument, or an element, that is not there. -/
  | missing
  /-- A place has a name, but arguments have none; or a record lacks a field. -/
  | unknownName (name : Text)
  /-- A place asks for a number of a record, whose fields have names. -/
  | unknownNumber (n : Nat)
  /-- An argument has no attributes. -/
  | noAttribute
  /-- An argument does not fit its place, or has none. -/
  | mismatch
deriving Repr, DecidableEq

namespace TemplateFault

/-- A number in hexadecimal digits, with none of them to spare. -/
def hexDigits (n : Nat) : Text :=
  let digits := (Quoted.hex 6 n).dropWhile (· = '0')
  if digits.isEmpty then ['0'] else digits

/-- What is said about an ill-formed template. -/
def message : TemplateFault → Text
  | loneClosing => "Single '\x7d' encountered in format string".toList
  | loneOpening => "Single '\x7b' encountered in format string".toList
  | openPlace => "expected '\x7d' before end of string".toList
  | braceInPlace => "unexpected '\x7b' in field name".toList
  | noConversion => "end of string while looking for conversion specifier".toList
  | afterConversion => "expected ':' after conversion specifier".toList
  | unknownConversion c =>
    "Unknown conversion specifier ".toList
      ++ if '!' ≤ c ∧ c ≤ '~' then [c] else "\\x".toList ++ hexDigits c.toNat
  | openLayout => "unmatched '\x7b' in format spec".toList
  | unknownLayout => "Invalid format specifier".toList
  | largeNumber => "Too many decimal digits in format string".toList
  | numberAfterNone =>
    "cannot switch from automatic field numbering to manual field specification".toList
  | noneAfterNumber =>
    "cannot switch from manual field specification to automatic field numbering".toList
  | emptyMember => "Empty attribute in format string".toList
  | afterMember => "Only '.' or '[' may follow ']' in format field specifier".toList
  | incomplete => "incomplete format".toList
  | unknownLetter c offset =>
    "unsupported format character '".toList ++ [if '\x1f' ≤ c ∧ c ≤ '~' then c else '?']
      ++ "' (0x".toList ++ hexDigits c.toNat ++ ") at index ".toList ++ Text.ofNat offset

end TemplateFault

end ReplCore.Log
