import ReplCore.Code.Token
import ReplCore.Text.Quoted

/-!
# Nesting

Brackets, template literals and substitutions are tracked with a stack of what is open. A backtick
closes the template literal it stands in and opens one elsewhere.
-/

namespace ReplCore

/-- What can be open around a token. -/
inductive Opener where
  | round
  | square
  | curly
  | template
  | substitution
deriving Repr, DecidableEq

namespace Opener

def spelling : Opener → Text
  | round => "(".toList
  | square => "[".toList
  | curly => "\x7b".toList
  | template => "`".toList
  | substitution => "$\x7b".toList

/-- The brackets, with their openers and closers. -/
def brackets : List (Opener × Text × Text) :=
  [(round, "(".toList, ")".toList), (square, "[".toList, "]".toList),
   (curly, "\x7b".toList, "\x7d".toList)]

/-- The bracket a token opens. -/
def ofOpening? (t : Token) : Option Opener :=
  (brackets.find? fun b => t.kind = .symbol b.2.1).map (·.1)

/-- The bracket a token closes. -/
def ofClosing? (t : Token) : Option Opener :=
  (brackets.find? fun b => t.kind = .symbol b.2.2).map (·.1)

end Opener

namespace Nesting

/-- Why tokens are not properly nested, with an offset in the source. -/
inductive Error where
  /-- The innermost opener has no closer; the offset is where the last token ends. -/
  | unclosed (opener : Opener) (position : Nat)
  /-- The closer does not close the innermost opener; the offset is where it starts. -/
  | unexpected (closer : Text) (position : Nat)
deriving Repr, DecidableEq

namespace Error

def position : Error → Nat
  | unclosed _ p => p
  | unexpected _ p => p

def message : Error → Text
  | unclosed o p =>
    "unclosed ".toList ++ Quoted.shown o.spelling ++ " at offset ".toList ++ Text.ofNat p
  | unexpected c p =>
    "unexpected ".toList ++ Quoted.shown c ++ " at offset ".toList ++ Text.ofNat p

end Error

/-- Whether the token ends a substitution or starts one. -/
def startsSubstitution (t : Token) : Bool := t.text = Opener.substitution.spelling

/-- What is open after a token, innermost first. -/
def track (opened : List Opener) (t : Token) : Except Error (List Opener) :=
  match Opener.ofOpening? t with
  | some o => .ok (o :: opened)
  | none =>
    match Opener.ofClosing? t with
    | some o =>
      if opened.head? = some o then .ok opened.tail else .error (.unexpected t.kind.toText t.start)
    | none =>
      match t.kind with
      | .backtick =>
        if opened.head? = some .template then .ok opened.tail else .ok (.template :: opened)
      | .interpolation =>
        if startsSubstitution t then .ok (.substitution :: opened)
        else if opened.head? = some .substitution then .ok opened.tail
        else .error (.unexpected "\x7d".toList t.start)
      | _ => .ok opened

end Nesting

end ReplCore
