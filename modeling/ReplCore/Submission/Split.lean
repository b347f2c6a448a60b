import ReplCore.Submission.Nesting

/-!
# Statement boundaries

A submission is cut into statements at semicolons and at line breaks, both outside of everything
that is open. A line break only ends a statement if the token before it can end one and the token
after it can start one; it continues the statement otherwise. White space and comments are dropped.
-/

namespace ReplCore

namespace Token

/-- Whether a line break after the token can end a statement. -/
def endsStatement (t : Token) : Bool :=
  match t.kind with
  | .name | .number | .string | .regex | .backtick => true
  | .symbol s => [")", "]", "\x7d", "++", "--"].any fun e => e.toList = s
  | _ => false

/-- Whether a line break before the token can end a statement. -/
def startsStatement (t : Token) : Bool :=
  match t.kind with
  | .name | .number | .string => true
  | .keyword .fromWord | .keyword .asWord => false
  | .keyword _ => true
  | _ => false

end Token

namespace Submission

/-- What the cutter remembers: what is open, innermost first, the statement so far, and whether a
line break outside of everything open came just before. -/
structure Cutting where
  opened : List Opener
  current : List Token
  lineBroken : Bool

namespace Cutting

def initial : Cutting := ⟨[], [], false⟩

/-- Whether the statement so far ends before the token. -/
def endsBefore (s : Cutting) (t : Token) : Bool :=
  s.lineBroken && s.current.getLast?.any Token.endsStatement && t.startsStatement

end Cutting

/-- The statement so far, if it has a token, before the statements that follow. -/
def flush (current : List Token) (rest : List (List Token)) : List (List Token) :=
  if current.isEmpty then rest else current :: rest

/-- Cut the remaining tokens into statements. -/
def cut (s : Cutting) : List Token → Except Nesting.Error (List (List Token))
  | [] =>
    match s.opened with
    | o :: _ => .error (.unclosed o ((s.current.getLast?.map (·.stop)).getD 0))
    | [] => .ok (flush s.current [])
  | t :: ts =>
    if t.kind = .newline ∧ s.opened = [] then cut { s with lineBroken := true } ts
    else if t.isIgnored then cut s ts
    else
      let done := if s.endsBefore t then s.current else []
      let current := if s.endsBefore t then [] else s.current
      if t.isSymbol ";" ∧ s.opened = [] then
        (cut ⟨[], [], false⟩ ts).map fun rest => flush done (flush current rest)
      else
        match Nesting.track s.opened t with
        | .error e => .error e
        | .ok opened => (cut ⟨opened, current ++ [t], false⟩ ts).map (flush done)

/-- The statements of a list of tokens, or the first fault in their nesting. -/
def splitStatements (tokens : List Token) : Except Nesting.Error (List (List Token)) :=
  cut .initial tokens

end Submission

end ReplCore
