import ReplCore.Submission.Split
import ReplCore.Submission.Statement

/-!
# Reading statements

The grammar of the statements that are modelled, over tokens. A reader returns what it read with
the tokens it left; a statement must be read to its end. What no reader takes is a plain statement.

```
statement   = importing | declaration | shell
importing   = IMPORT (STRING | clause FROM STRING)
clause      = NAME ["," (namespace | named)] | namespace | named
namespace   = "*" AS NAME
named       = "{" [specifier ("," specifier)*] [","] "}"
specifier   = NAME [AS NAME] | STRING AS NAME
declaration = (LET | CONST | VAR) (target "=" (require | dynamic) | token*)
target      = NAME | "{" balanced "}" | "[" balanced "]"
require     = ["global" "."] "require" "(" STRING ")"
dynamic     = [AWAIT] IMPORT "(" STRING token* ")" token*
shell       = NAME template
```
-/

namespace ReplCore

namespace Token

/-- The text of a string literal: between its quotes, each escape stands for the character it
escapes. -/
def stringValue (t : Token) : Text :=
  unescape (t.text.drop 1).dropLast
where
  /-- Take the backslash away from before every escaped character. -/
  unescape : Text → Text
    | '\\' :: c :: rest => c :: unescape rest
    | c :: rest => c :: unescape rest
    | [] => []

end Token

namespace Submission

/-! ## Single tokens -/

/-- The first token, if it satisfies a condition. -/
def take (p : Token → Bool) : List Token → Option (Token × List Token)
  | [] => none
  | t :: ts => if p t then some (t, ts) else none

/-- The first token, if it is of the given kind. -/
def takeKind (k : TokenKind) : List Token → Option (Token × List Token) := take fun t => t.kind = k

/-- The first token, if it is the given keyword. -/
def takeKeyword (k : Keyword) : List Token → Option (Token × List Token) := takeKind (.keyword k)

/-- The first token, if it is the given symbol. -/
def takeSymbol (s : String) : List Token → Option (Token × List Token) :=
  takeKind (.symbol s.toList)

/-- The first token, if it is the given name. -/
def takeName (s : String) : List Token → Option (Token × List Token) :=
  take fun t => t.kind = .name ∧ t.text = s.toList

/-- Read, if possible, and stay in place otherwise. -/
def optional {α : Type} (read : List Token → Option (α × List Token)) (ts : List Token) :
    Option α × List Token :=
  match read ts with
  | some (a, rest) => (some a, rest)
  | none => (none, ts)

/-- Succeed at the end of the statement. -/
def atEnd : List Token → Option Unit
  | [] => some ()
  | _ :: _ => none

/-- The stretch from the start of one token to the end of another. -/
def spanOf (first last : Token) : Span := ⟨first.start, last.stop⟩

/-- The source from the start of one token to the end of another. -/
def textOf (source : Text) (first last : Token) : Text := Text.slice source first.start last.stop

/-! ## Imports -/

/-- A specifier of named imports. A string must be renamed. -/
def specifier (ts : List Token) : Option (ImportSpecifier × List Token) := do
  let (imported, rest) ← take (fun t => t.kind = .name ∨ t.kind = .string) ts
  let newName := fun ts => takeKeyword .asWord ts >>= fun (_, ts) => takeKind .name ts
  match optional newName rest with
  | (some bound, rest) =>
    let exported := if imported.kind = .string then imported.stringValue else imported.text
    some (⟨exported, bound.text, spanOf imported bound⟩, rest)
  | (none, rest) =>
    if imported.kind = .string then none
    else some (⟨imported.text, imported.text, spanOf imported imported⟩, rest)

/-- The specifiers that follow, each after a comma. The list of tokens `bound` only bounds their
number. -/
def moreSpecifiers : (bound : List Token) → List Token → List ImportSpecifier × List Token
  | [], ts => ([], ts)
  | _ :: bound, ts =>
    match takeSymbol "," ts >>= fun (_, ts) => specifier ts with
    | none => ([], ts)
    | some (s, rest) =>
      let (more, rest) := moreSpecifiers bound rest
      (s :: more, rest)

/-- Named imports in braces. -/
def namedImports (ts : List Token) : Option (List ImportSpecifier × List Token) := do
  let (_, ts) ← takeSymbol "\x7b" ts
  let (specifiers, ts) :=
    match specifier ts with
    | none => ([], ts)
    | some (s, rest) =>
      let (more, rest) := moreSpecifiers rest rest
      (s :: more, rest)
  let (_, ts) := optional (takeSymbol ",") ts
  let (_, ts) ← takeSymbol "\x7d" ts
  return (specifiers, ts)

/-- The binding of the whole module. -/
def namespaceImport (ts : List Token) : Option (Text × List Token) := do
  let (_, ts) ← takeSymbol "*" ts
  let (_, ts) ← takeKeyword .asWord ts
  let (name, ts) ← takeKind .name ts
  return (name.text, ts)

/-- What an import takes besides the default export. -/
def importBindings (ts : List Token) : Option (ImportBindings × List Token) :=
  match namespaceImport ts with
  | some (name, rest) => some (.namespaceAs name, rest)
  | none => (namedImports ts).map fun (specifiers, rest) => (.named specifiers, rest)

/-- The clause of an import statement between its first word and `from`. -/
def importClause (ts : List Token) : Option (ImportClause × List Token) :=
  match takeKind .name ts with
  | none => (importBindings ts).map fun (b, rest) => (.bindings b, rest)
  | some (name, rest) =>
    match takeSymbol "," rest >>= fun (_, ts) => importBindings ts with
    | some (b, rest) => some (.both name.text b, rest)
    | none => some (.default name.text, rest)

/-- The clause and the module string of an import statement. -/
def importSource (ts : List Token) : Option ((ImportClause × Token) × List Token) :=
  match takeKind .string ts with
  | some (module, rest) => some ((.nothing, module), rest)
  | none => do
    let (clause, ts) ← importClause ts
    let (_, ts) ← takeKeyword .fromWord ts
    let (module, ts) ← takeKind .string ts
    return ((clause, module), ts)

/-- An import statement. -/
def importStatement (source : Text) (ts : List Token) : Option Statement := do
  let (word, ts) ← takeKeyword .importWord ts
  let ((clause, module), ts) ← importSource ts
  atEnd ts
  return ⟨spanOf word module, textOf source word module, .importing module.stringValue clause⟩

/-! ## Declarations -/

/-- The token at which `depth` open brackets are all closed, with the tokens after it. -/
def closing (opens closes : Token → Bool) : (depth : Nat) → List Token → Option (Token × List Token)
  | _, [] => none
  | depth, t :: ts =>
    let depth := if opens t then depth + 1 else if closes t then depth - 1 else depth
    if depth = 0 then some (t, ts) else closing opens closes depth ts

/-- A pattern between two brackets; brackets of other kinds do not count. -/
def bracketed (opener closer : String) (ts : List Token) :
    Option ((Token × Token) × List Token) := do
  let (first, ts) ← takeSymbol opener ts
  let (last, ts) ← closing (·.isSymbol opener) (·.isSymbol closer) 1 ts
  return ((first, last), ts)

/-- What a declaration binds: its first and its last token. -/
def bindingTarget (ts : List Token) : Option ((Token × Token) × List Token) :=
  match takeKind .name ts with
  | some (name, rest) => some ((name, name), rest)
  | none => (bracketed "\x7b" "\x7d" ts).or (bracketed "[" "]" ts)

/-- A call of `require` that ends the statement. -/
def requireCall (ts : List Token) : Option ModuleLoad := do
  let qualifier := optional (fun ts => do
    let (g, ts) ← takeName "global" ts
    let (_, ts) ← takeSymbol "." ts
    return (g, ts)) ts
  let (callee, ts) ← takeName "require" qualifier.2
  let (_, ts) ← takeSymbol "(" ts
  let (module, ts) ← takeKind .string ts
  let (close, ts) ← takeSymbol ")" ts
  atEnd ts
  return .require (spanOf (qualifier.1.getD callee) close) module.stringValue

/-- Whether the token opens a bracket of any kind. -/
def opensBracket (t : Token) : Bool := (Opener.ofOpening? t).isSome

/-- Whether the token closes a bracket of any kind. -/
def closesBracket (t : Token) : Bool := (Opener.ofClosing? t).isSome

/-- A dynamic import and the rest of its statement. -/
def dynamicImport (source : Text) (ts : List Token) : Option ModuleLoad := do
  let (awaited, ts) := optional (takeKeyword .awaitWord) ts
  let (word, ts) ← takeKeyword .importWord ts
  let (_, ts) ← takeSymbol "(" ts
  let (module, ts) ← takeKind .string ts
  let (close, rest) ← closing opensBracket closesBracket 1 ts
  let first := awaited.getD word
  let last := rest.getLast?.getD close
  return .dynamicImport (spanOf first last) module.stringValue module.text
    (Text.slice source first.start word.start) (Text.slice source module.stop close.start)
    (Text.slice source close.stop last.stop)

/-- The word that starts a declaration. -/
def declarationWord (ts : List Token) : Option ((DeclarationKind × Token) × List Token) :=
  match ts with
  | [] => none
  | t :: rest =>
    match t.kind with
    | .keyword .letWord => some ((.letKind, t), rest)
    | .keyword .constWord => some ((.constKind, t), rest)
    | .keyword .varWord => some ((.varKind, t), rest)
    | _ => none

/-- The single declarator that loads a module. -/
def moduleDeclarator (source : Text) (ts : List Token) :
    Option ((Token × Token) × ModuleLoad) := do
  let (target, ts) ← bindingTarget ts
  let (_, ts) ← takeSymbol "=" ts
  let load ← (requireCall ts).or (dynamicImport source ts)
  return (target, load)

/-- A declaration. -/
def declaration (source : Text) (ts : List Token) : Option Statement := do
  let ((kind, word), ts) ← declarationWord ts
  match moduleDeclarator source ts with
  | some ((first, last), load) =>
    return ⟨⟨word.start, load.span.stop⟩, Text.slice source word.start load.span.stop,
      .declaration kind (Text.slice source word.stop load.span.stop)
        (some ⟨textOf source first last, load⟩)⟩
  | none =>
    let last := ts.getLast?.getD word
    return ⟨spanOf word last, textOf source word last,
      .declaration kind (Text.slice source word.stop last.stop) none⟩

/-! ## Shell commands -/

/-- The token that closes the template literals and substitutions that are open, with the tokens
after it; brackets do not count. -/
def templateEnd : List Opener → List Token →
    Except Nesting.Error (Option (Token × List Token))
  | _, [] => .ok none
  | opened, t :: ts => do
    let opened ←
      if t.kind = .backtick ∨ t.kind = .interpolation then Nesting.track opened t else .ok opened
    if opened.isEmpty then return some (t, ts) else templateEnd opened ts

/-- A template literal with a tag that is a whole statement. -/
def shellCommand (source : Text) (ts : List Token) : Except Nesting.Error (Option Statement) :=
  match takeKind .name ts >>= fun (tag, ts) => (takeKind .backtick ts).map fun (_, ts) => (tag, ts)
  with
  | none => .ok none
  | some (tag, ts) =>
    (templateEnd [.template] ts).map fun
      | some (last, []) =>
        some ⟨spanOf tag last, textOf source tag last, .shellCommand tag.text⟩
      | _ => none

/-! ## Statements -/

/-- The tokens as a statement that keeps its text alone. -/
def plainStatement (source : Text) (ts : List Token) : Statement :=
  let start := (ts.head?.map (·.start)).getD 0
  let stop := (ts.getLast?.map (·.stop)).getD 0
  ⟨⟨start, stop⟩, Text.slice source start stop, .plain⟩

/-- Read the tokens of one statement. -/
def readStatement (source : Text) (ts : List Token) : Except Nesting.Error Statement :=
  match (importStatement source ts).or (declaration source ts) with
  | some s => .ok s
  | none => (shellCommand source ts).map fun s => s.getD (plainStatement source ts)

/-- Read a submission, or find the first fault in its nesting. -/
def read (source : Text) : Except Nesting.Error Submission := do
  let groups ← splitStatements (Token.tokenize source)
  let statements ← groups.mapM (readStatement source)
  return ⟨source, statements⟩

end Submission

end ReplCore
