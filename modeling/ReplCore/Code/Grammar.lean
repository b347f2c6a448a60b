import ReplCore.Code.TokenType
import ReplCore.Pattern

/-!
# The lexical grammar of TypeScript

The rules by which source text is cut into typed tokens. A rule matches one part after another,
each with its own type, and then moves the lexer. A slash starts a regular expression where an
operand is expected and divides elsewhere, so many rules leave the lexer expecting an operand.

* `consumes_code`, `consumes_template`, `consumes_operand`: every rule consumes text.
-/

namespace ReplCore

/-- What surrounds the text being read: a template literal or a substitution in one. -/
inductive Enclosure where
  | template
  | substitution
deriving Repr, DecidableEq

/-- How the lexer goes on after a token. -/
inductive Move where
  | stay
  /-- A slash that follows starts a regular expression. -/
  | expectOperand
  /-- A slash that follows divides. -/
  | expectOperator
  | enter (e : Enclosure)
  | leave
deriving Repr, DecidableEq

/-- A rule of the lexical grammar: what to match, with the types of the parts, and the move. -/
structure LexRule where
  parts : List (TokenType × Pattern)
  move : Move

/-- Whether every match of the rule consumes text. -/
def LexRule.consumes (r : LexRule) : Bool := r.parts.any fun p => p.2.consumes

namespace Grammar

open Pattern TokenType

/-! ## Pieces of patterns -/

/-- An escape of a code unit by four hexadecimal digits. -/
def codeUnitEscape : Pattern :=
  let digit := one fun c => ('0' ≤ c && c ≤ '9') || ('a' ≤ c && c ≤ 'f') || ('A' ≤ c && c ≤ 'F')
  all [lit "\\u", digit, digit, digit, digit]

/-- An identifier; escapes may stand for its characters. -/
def identifier : Pattern :=
  seq (or (one CharClass.beginsIdentifier) codeUnitEscape)
    (many (or (one CharClass.continuesIdentifier) codeUnitEscape))

def isDecimal (c : Char) : Bool := '0' ≤ c && c ≤ '9'

/-- A letter of ASCII. -/
def isLatin (c : Char) : Bool := ('a' ≤ c && c ≤ 'z') || ('A' ≤ c && c ≤ 'Z')

/-- A character of a dotted, possibly optional, name. -/
def isDotted (c : Char) : Bool := CharClass.isWord c || c = '?' || c = '.' || c = '$'

/-- What may begin a dotted name before an opening parenthesis. -/
def beginsDotted (c : Char) : Bool := isLatin c || c = '_' || c = '?' || c = '.' || c = '$'

/-- A dotted name. -/
def dotted : Pattern := some1 (one isDotted)

private def decimals : Pattern := some1 (one isDecimal)

/-- Everything up to the end of the line. -/
def restOfLine : Pattern := seq (few any) lineEnd

/-- A string literal between the given quotes; a backslash escapes any one character. -/
def quotedBy (q : Char) : Pattern :=
  all [one (· == q),
    many (firstOf [lit "\\\\", seq (lit "\\") (one (· != '\\')), one fun c => c != q && c != '\\']),
    one (· == q)]

/-- A regular expression literal with its flags. -/
private def regexLiteral : Pattern :=
  let escaped := seq (lit "\\") any
  let set := all [lit "[", many (or escaped (noneOf "]\\\n")), lit "]"]
  all [lit "/", some1 (firstOf [escaped, noneOf "[/\\\n", set]), lit "/",
    or (seq (some1 (oneOf "gimuysd")) wordEdge) noWordEdge]

private def operators : Pattern :=
  firstOf [lit "++", lit "--", lit "~", seq (lit "??") (opt (lit "=")), lit "?", lit ":",
    seq (lit "\\") (ahead (lit "\n")),
    seq (firstOf [lit "<<", seq (lit ">>") (opt (lit ">")), seq (lit "=") (opt (lit "=")),
        seq (lit "!") (opt (lit "=")), lit "**", lit "||", lit "&&", oneOf "-<>+*%&|^/"])
      (opt (lit "="))]

private def floats : Pattern :=
  seq (firstOf [seq (lit ".") decimals, all [decimals, lit ".", many (one isDecimal)], decimals])
    (opt (all [oneOf "eE", opt (oneOf "-+"), decimals]))

/-! ## Rules -/

/-- A rule with one part that leaves the state of the lexer as it is. -/
def rule (type : TokenType) (p : Pattern) : LexRule := ⟨[(type, p)], .stay⟩

/-- A rule with one part and a move. -/
def ruleTo (move : Move) (type : TokenType) (p : Pattern) : LexRule := ⟨[(type, p)], move⟩

/-- White space and comments. -/
def trivia : List LexRule :=
  [rule whitespace (some1 (one CharClass.isBlank)),
   rule comment (lit "<!--"),
   rule commentSingle (seq (lit "//") restOfLine),
   rule commentMultiline (all [lit "/*", few any, lit "*/"])]

/-- The rules where an operand is expected, tried before those of code. -/
def operand : List LexRule := trivia ++ [ruleTo .expectOperator stringRegex regexLiteral]

/-- The word `module` and the dotted name after it. -/
def moduleRule : LexRule :=
  ⟨[(keywordReserved, seq wordEdge (lit "module")), (whitespace, some1 (one CharClass.isBlank)),
     (nameOther, dotted), (whitespace, blanks)], .expectOperand⟩

/-- A dotted name with a colon and another dotted name, its type, after it. -/
def annotationRule : LexRule :=
  ⟨[(nameOther, dotted), (whitespace, blanks), (TokenType.operator, lit ":"), (whitespace, blanks),
     (keywordType, dotted)], .stay⟩

/-- A comment in the very first line of a text. -/
def hashbangRule : LexRule :=
  rule commentHashbang (all [place (·.before.isNone), lit "#!", opt (lit " "), lit "/",
    restOfLine])

/-- A dotted name before the parentheses and the brace of a body. -/
def bodyRule : LexRule :=
  ruleTo .expectOperand nameOther (all [one beginsDotted, many (one isDotted),
    ahead (lit "() \x7b")])

/-- A name that is no other word. -/
def identifierRule : LexRule := rule nameOther identifier

/-- The rules of code that are tried before that of identifiers. -/
def wordsAndSigns : List LexRule :=
  [ruleTo .expectOperand keyword (wholeWordOf ["abstract", "implements", "private", "protected",
      "public", "readonly"]),
   ruleTo .expectOperand keywordDeclaration (wholeWordOf ["enum", "interface", "override"]),
   rule keywordReserved (seq wordEdge (wholeWordOf ["declare", "type"])),
   rule keywordType (seq wordEdge (wholeWordOf ["string", "boolean", "number"])),
   moduleRule,
   annotationRule,
   rule keywordDeclaration (seq (lit "@") identifier),
   hashbangRule]
  ++ trivia ++
  [rule numberBin (all [lit "0", oneOf "bB", some1 (oneOf "01"), opt (lit "n")]),
   rule numberOct (all [lit "0", opt (oneOf "oO"), some1 (oneOf "01234567"), opt (lit "n")]),
   rule numberHex (all [lit "0", oneOf "xX", some1 (oneOf "0123456789abcdefABCDEF"),
      opt (lit "n")]),
   rule numberInteger (seq decimals (lit "n")),
   rule numberFloat floats,
   rule punctuation (or (lit "...") (lit "=>")),
   ruleTo .expectOperand TokenType.operator operators,
   ruleTo .expectOperand punctuation (oneOf "\x7b([;,"),
   rule punctuation (oneOf "\x7d)]."),
   ruleTo .expectOperand operatorWord (wholeWordOf ["typeof", "instanceof", "in", "void",
      "delete", "new"]),
   rule keywordReserved (seq wordEdge (wholeWordOf ["constructor", "from", "as"])),
   ruleTo .expectOperand keyword (wholeWordOf ["for", "in", "while", "do", "break", "return",
      "continue", "switch", "case", "default", "if", "else", "throw", "try", "catch", "finally",
      "yield", "await", "async", "this", "of", "static", "export", "import", "debugger", "extends",
      "super"]),
   ruleTo .expectOperand keywordDeclaration (wholeWordOf ["var", "let", "const", "with",
      "function", "class"]),
   rule keywordReserved (wholeWordOf ["abstract", "boolean", "byte", "char", "double", "enum",
      "final", "float", "goto", "implements", "int", "interface", "long", "native", "package",
      "private", "protected", "public", "short", "synchronized", "throws", "transient",
      "volatile"]),
   rule keywordConstant (wholeWordOf ["true", "false", "null", "NaN", "Infinity", "undefined"]),
   rule nameBuiltin (wholeWordOf ["Array", "Boolean", "Date", "BigInt", "Function", "Math",
      "ArrayBuffer", "Number", "Object", "RegExp", "String", "Promise", "Proxy", "decodeURI",
      "decodeURIComponent", "encodeURI", "encodeURIComponent", "eval", "isFinite", "isNaN",
      "parseFloat", "parseInt", "DataView", "document", "window", "globalThis", "global",
      "arguments", "Symbol", "Intl", "WeakSet", "WeakMap", "Set", "Map", "Reflect", "JSON",
      "Atomics", "Int8Array", "Int16Array", "Int32Array", "BigInt64Array", "Float32Array",
      "Float64Array", "Uint8ClampedArray", "Uint8Array", "Uint16Array", "Uint32Array",
      "BigUint64Array"]),
   rule nameException (wholeWordOf ["EvalError", "InternalError", "RangeError", "ReferenceError",
      "SyntaxError", "TypeError", "URIError", "Error"]),
   bodyRule]

/-- The rules of code that are tried after that of identifiers. -/
def literals : List LexRule :=
  [rule stringDouble (quotedBy '\x22'),
   rule stringSingle (quotedBy '\''),
   ruleTo (.enter .template) stringBacktick (lit "`"),
   rule name (all [lit "#", one fun c => isLatin c || c = '_', many (one CharClass.isWord)])]

/-- The rules of code. -/
def code : List LexRule := wordsAndSigns ++ identifierRule :: literals

/-- The rule that ends a substitution, tried before those of code. -/
def substitutionEnd : LexRule := ruleTo .leave stringInterpol (lit "\x7d")

/-- The rules inside a template literal. -/
def template : List LexRule :=
  [ruleTo .leave stringBacktick (lit "`"),
   rule stringBacktick (seq (lit "\\") any),
   ruleTo (.enter .substitution) stringInterpol (lit "$\x7b"),
   rule stringBacktick (lit "$"),
   rule stringBacktick (some1 (noneOf "`\\$"))]

/-! ## Every rule consumes text -/

theorem consumes_code : code.all LexRule.consumes = true := by decide

theorem consumes_template : template.all LexRule.consumes = true := by decide

theorem consumes_operand : operand.all LexRule.consumes = true := by decide

end Grammar

end ReplCore
