import ReplCore.Text.Basic

/-!
# Token types

The types of tokens form a tree: a type is the path from the root to it, and every type below a
type is also of that type. Styles are given to some types and hold for all below them.
-/

namespace ReplCore

/-- A type of token, as the path of names from the root. -/
structure TokenType where
  path : List String
deriving Repr, DecidableEq

namespace TokenType

/-- Whether `t` is `ancestor` or lies below it. -/
def isA (t ancestor : TokenType) : Bool := ancestor.path.isPrefixOf t.path

/-- The type itself and all above it, nearest first. -/
def lineage (t : TokenType) : List TokenType :=
  ((List.range (t.path.length + 1)).reverse).map fun n => ⟨t.path.take n⟩

def root : TokenType := ⟨[]⟩
def whitespace : TokenType := ⟨["Text", "Whitespace"]⟩
def error : TokenType := ⟨["Error"]⟩

def comment : TokenType := ⟨["Comment"]⟩
def commentHashbang : TokenType := ⟨["Comment", "Hashbang"]⟩
def commentMultiline : TokenType := ⟨["Comment", "Multiline"]⟩
def commentSingle : TokenType := ⟨["Comment", "Single"]⟩

def keyword : TokenType := ⟨["Keyword"]⟩
def keywordConstant : TokenType := ⟨["Keyword", "Constant"]⟩
def keywordDeclaration : TokenType := ⟨["Keyword", "Declaration"]⟩
def keywordReserved : TokenType := ⟨["Keyword", "Reserved"]⟩
def keywordType : TokenType := ⟨["Keyword", "Type"]⟩

def name : TokenType := ⟨["Name"]⟩
def nameAttribute : TokenType := ⟨["Name", "Attribute"]⟩
def nameBuiltin : TokenType := ⟨["Name", "Builtin"]⟩
def nameClass : TokenType := ⟨["Name", "Class"]⟩
def nameDecorator : TokenType := ⟨["Name", "Decorator"]⟩
def nameException : TokenType := ⟨["Name", "Exception"]⟩
def nameFunction : TokenType := ⟨["Name", "Function"]⟩
def nameOther : TokenType := ⟨["Name", "Other"]⟩
def nameTag : TokenType := ⟨["Name", "Tag"]⟩
def nameVariable : TokenType := ⟨["Name", "Variable"]⟩

def number : TokenType := ⟨["Literal", "Number"]⟩
def numberBin : TokenType := ⟨["Literal", "Number", "Bin"]⟩
def numberFloat : TokenType := ⟨["Literal", "Number", "Float"]⟩
def numberHex : TokenType := ⟨["Literal", "Number", "Hex"]⟩
def numberInteger : TokenType := ⟨["Literal", "Number", "Integer"]⟩
def numberOct : TokenType := ⟨["Literal", "Number", "Oct"]⟩

def string : TokenType := ⟨["Literal", "String"]⟩
def stringBacktick : TokenType := ⟨["Literal", "String", "Backtick"]⟩
def stringDouble : TokenType := ⟨["Literal", "String", "Double"]⟩
def stringEscape : TokenType := ⟨["Literal", "String", "Escape"]⟩
def stringInterpol : TokenType := ⟨["Literal", "String", "Interpol"]⟩
def stringRegex : TokenType := ⟨["Literal", "String", "Regex"]⟩
def stringSingle : TokenType := ⟨["Literal", "String", "Single"]⟩

def operator : TokenType := ⟨["Operator"]⟩
def operatorWord : TokenType := ⟨["Operator", "Word"]⟩
def punctuation : TokenType := ⟨["Punctuation"]⟩

/-- The type of a name below another. A name starts with a capital. Directly below the root, `Token`
is the root itself, and `String` and `Number` are the types of that name below `Literal`. -/
def below? (t : TokenType) (name : Text) : Option TokenType :=
  if !name.head?.any CharClass.isCapital then none
  else if t = root ∧ name = "Token".toList then some root
  else if t = root ∧ name = "String".toList then some string
  else if t = root ∧ name = "Number".toList then some number
  else some ⟨t.path ++ [String.ofList name]⟩

/-- The type of a dotted name, which leads down from the root. The empty name is that of the
root. -/
def ofName? (dotted : Text) : Option TokenType :=
  if dotted.isEmpty then some root else (Text.splitOn '.' dotted).foldlM below? root

end TokenType

end ReplCore
