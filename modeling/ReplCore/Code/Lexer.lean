import ReplCore.Code.Grammar

/-!
# The lexer

`Lexer.lex` cuts source text into typed lexemes by the rules of `Grammar`. It never fails: a
character that no rule matches is a lexeme of type `error`.

Outside template literals a slash is read in one of three ways. Where an operand is expected, also
at the start of a line, it starts a comment or a regular expression; elsewhere it starts a comment
or divides. Where it should have started a regular expression but did not, it and the rest of its
line are errors.
-/

namespace ReplCore

/-- A piece of source text with its type. -/
structure Lexeme where
  type : TokenType
  text : Text
deriving Repr, DecidableEq

/-- How a slash is read. -/
inductive SlashReading where
  | divides
  | startsRegex
  /-- The line holds a regular expression without an end. -/
  | unterminated
deriving Repr, DecidableEq

/-- What the lexer remembers: how a slash is read and what encloses the text, innermost first. -/
structure LexState where
  slash : SlashReading
  enclosing : List Enclosure
deriving Repr, DecidableEq

namespace LexState

def initial : LexState := ⟨.divides, []⟩

/-- The state after a move. -/
def move (s : LexState) : Move → LexState
  | .stay => s
  | .expectOperand => { s with slash := .startsRegex }
  | .expectOperator => { s with slash := .divides }
  | .enter e => ⟨.divides, e :: s.enclosing⟩
  | .leave => ⟨.divides, s.enclosing.tail⟩

end LexState

namespace LexRule

/-- Match parts one after the other, backtracking between them; empty parts give no lexeme. -/
def matchParts : List (TokenType × Pattern) → Cursor → Option (List Lexeme × Cursor)
  | [], c => some ([], c)
  | (type, p) :: parts, c =>
    (p.ends c).findSome? fun d =>
      (matchParts parts d).map fun (lexemes, e) =>
        (if c.upTo d = [] then lexemes else ⟨type, c.upTo d⟩ :: lexemes, e)

/-- The lexemes of the rule's match, with the place where it ends. -/
def match? (r : LexRule) (c : Cursor) : Option (List Lexeme × Cursor) := matchParts r.parts c

end LexRule

namespace Lexer

/-- What one step reads. -/
structure Reading where
  lexemes : List Lexeme
  state : LexState
  next : Cursor
deriving Repr, DecidableEq

/-- The reading by the first of the rules that matches. -/
def byRules (rules : List LexRule) (s : LexState) (c : Cursor) : Option Reading :=
  rules.findSome? fun r => (r.match? c).map fun (lexemes, d) => ⟨lexemes, s.move r.move, d⟩

/-- A lexeme of one character. -/
def single (type : TokenType) (s : LexState) (c : Cursor) : Option Reading :=
  c.rest.head?.map fun x => ⟨[⟨type, [x]⟩], s, c.advance 1⟩

/-- Whether white space or a slash comment begins a line, after which an operand is expected. -/
def beginsLine (c : Cursor) : Bool :=
  c.isLineStart &&
    (c.isAt CharClass.isBlank || c.isAt (· == '/') || "<!--".toList.isPrefixOf c.rest)

/-- The rules where the innermost enclosure is known, if a slash divides. -/
def rulesIn : List Enclosure → List LexRule
  | .template :: _ => Grammar.template
  | .substitution :: _ => Grammar.substitutionEnd :: Grammar.code
  | [] => Grammar.code

/-- Read by the given rules, or one character as an error. -/
def orError (rules : List LexRule) (s : LexState) (c : Cursor) : Option Reading :=
  (byRules rules s c).or (single .error s c)

/-- Where a slash starts a regular expression: white space, comments and regular expressions
first, then a slash without a regular expression, then code. -/
def expectingOperand (s : LexState) (c : Cursor) : Option Reading :=
  (byRules Grammar.operand s c).or
    (if c.isAt (· == '/') then single .error { s with slash := .unterminated } c
     else orError (rulesIn s.enclosing) { s with slash := .divides } c)

/-- The rest of a line after a slash that starts no regular expression. -/
def afterBadSlash (s : LexState) (c : Cursor) : Option Reading :=
  if c.isAt (· == '\n') then single .whitespace { s with slash := .divides } c
  else single .error s c

/-- One step of the lexer; none at the end of the text. -/
def step (s : LexState) (c : Cursor) : Option Reading :=
  match s.slash with
  | .unterminated => afterBadSlash s c
  | .startsRegex => expectingOperand s c
  | .divides =>
    if s.enclosing.head? ≠ some .template ∧ beginsLine c then
      expectingOperand { s with slash := .startsRegex } c
    else orError (rulesIn s.enclosing) s c

/-- The lexemes from a place on. Every step consumes text, so the text that was left at the start
bounds their number. -/
def run : (bound : Text) → LexState → Cursor → List Lexeme
  | [], _, _ => []
  | _ :: bound, s, c =>
    match step s c with
    | none => []
    | some r => r.lexemes ++ run bound r.state r.next

/-- The lexemes of a source text. -/
def lex (source : Text) : List Lexeme := run source .initial (.start source)

end Lexer

end ReplCore
