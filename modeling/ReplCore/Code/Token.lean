import ReplCore.Code.Lexer

/-!
# Tokens

The tokens that statements are read from: lexemes with the kind that matters for reading and their
offsets in the source.
-/

namespace ReplCore

/-- The words with a meaning of their own at the start or inside of the statements read here. -/
inductive Keyword where
  | importWord
  | fromWord
  | asWord
  | letWord
  | constWord
  | varWord
  | awaitWord
deriving Repr, DecidableEq

namespace Keyword

def all : List Keyword := [importWord, fromWord, asWord, letWord, constWord, varWord, awaitWord]

/-- The word as it is written in source text. -/
def spelling : Keyword → Text
  | importWord => "import".toList
  | fromWord => "from".toList
  | asWord => "as".toList
  | letWord => "let".toList
  | constWord => "const".toList
  | varWord => "var".toList
  | awaitWord => "await".toList

/-- The name of the keyword as a kind of token: its spelling in capitals. -/
def kindName : Keyword → Text
  | importWord => "IMPORT".toList
  | fromWord => "FROM".toList
  | asWord => "AS".toList
  | letWord => "LET".toList
  | constWord => "CONST".toList
  | varWord => "VAR".toList
  | awaitWord => "AWAIT".toList

/-- The keyword with the given spelling. -/
def ofSpelling? (t : Text) : Option Keyword := all.find? fun k => k.spelling = t

end Keyword

/-- What a token is for the reader of statements. -/
inductive TokenKind where
  | newline
  | whitespace
  | comment
  | backtick
  | templateText
  | interpolation
  | regex
  | string
  | number
  | name
  | keyword (k : Keyword)
  | error
  /-- Any other token is of a kind of its own, named by its text. -/
  | symbol (text : Text)
deriving Repr, DecidableEq

namespace TokenKind

/-- The kinds that are neither keywords nor symbols, with their names. -/
def named : List (TokenKind × Text) :=
  [(newline, "NEWLINE".toList), (whitespace, "WHITESPACE".toList), (comment, "COMMENT".toList),
   (backtick, "BACKTICK".toList), (templateText, "TEMPLATE_TEXT".toList),
   (interpolation, "INTERPOLATION".toList), (regex, "REGEX".toList), (string, "STRING".toList),
   (number, "NUMBER".toList), (name, "NAME".toList), (error, "ERROR".toList)]

/-- The name of a kind. -/
def toText : TokenKind → Text
  | newline => "NEWLINE".toList
  | whitespace => "WHITESPACE".toList
  | comment => "COMMENT".toList
  | backtick => "BACKTICK".toList
  | templateText => "TEMPLATE_TEXT".toList
  | interpolation => "INTERPOLATION".toList
  | regex => "REGEX".toList
  | string => "STRING".toList
  | number => "NUMBER".toList
  | name => "NAME".toList
  | keyword k => k.kindName
  | error => "ERROR".toList
  | symbol t => t

/-- The kind with the given name. -/
def ofText (t : Text) : TokenKind :=
  match (named.find? fun p => p.2 = t).map (·.1) with
  | some kind => kind
  | none =>
    match Keyword.all.find? fun k => k.kindName = t with
    | some k => keyword k
    | none => symbol t

/-- Whether a text reads as one word: word characters and dollar signs. -/
def isWordLike : Text → Bool
  | [] => false
  | t => t.all fun c => c = '$' || CharClass.isWord c

/-- The kind of a lexeme. -/
def ofLexeme (l : Lexeme) : TokenKind :=
  if l.text.all CharClass.isBlank && !l.text.isEmpty then
    if '\n' ∈ l.text then newline else whitespace
  else if l.type.isA .comment then comment
  else if l.type.isA .stringBacktick then
    if l.text = "`".toList then backtick else templateText
  else if l.type.isA .stringInterpol then interpolation
  else if l.type.isA .stringRegex then regex
  else if l.type.isA .string then string
  else if l.type.isA .number then number
  else if (l.type.isA .keyword || l.type.isA .name) && isWordLike l.text then
    match Keyword.ofSpelling? l.text with
    | some k => keyword k
    | none => name
  else if l.type.isA .error then error
  else symbol l.text

end TokenKind

/-- A token with its place in the source: `start` is the offset of its first character and `stop`
the offset just past its last one. -/
structure Token where
  kind : TokenKind
  text : Text
  start : Nat
  stop : Nat
deriving Repr, DecidableEq

namespace Token

/-- Lexemes as tokens, the first of them at the given offset. -/
def place : Nat → List Lexeme → List Token
  | _, [] => []
  | offset, l :: rest =>
    ⟨.ofLexeme l, l.text, offset, offset + l.text.length⟩ :: place (offset + l.text.length) rest

/-- The tokens of a source text. -/
def tokenize (source : Text) : List Token := place 0 (Lexer.lex source)

/-- Whether the token is of no account for statements: white space or a comment. -/
def isIgnored (t : Token) : Bool :=
  t.kind = .whitespace || t.kind = .newline || t.kind = .comment

/-- Whether the token is of the kind of the symbol `s`. -/
def isSymbol (s : String) (t : Token) : Bool := t.kind = .symbol s.toList

end Token

end ReplCore
