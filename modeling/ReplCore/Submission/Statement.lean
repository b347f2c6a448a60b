import ReplCore.Text.Basic

/-!
# Statements

Only the statements that may be rewritten are modelled in detail: imports, declarations that load a
module, and shell commands. Everything else keeps its text alone. A statement has the place it was
read from, so that the text around it can be kept.

* `Submission.length_separators`: there is one separator more than there are statements.
-/

namespace ReplCore

/-- A stretch of a source, from offset `start` up to, and without, offset `stop`. -/
structure Span where
  start : Nat
  stop : Nat
deriving Repr, DecidableEq

/-- One name of a list of named imports: the name the module exports and the name it is bound
to. -/
structure ImportSpecifier where
  imported : Text
  boundAs : Text
  span : Span
deriving Repr, DecidableEq

/-- What an import takes from a module besides its default export. -/
inductive ImportBindings where
  | namespaceAs (name : Text)
  | named (specifiers : List ImportSpecifier)
deriving Repr, DecidableEq

/-- What an import statement binds. -/
inductive ImportClause where
  /-- The module is loaded for its effects. -/
  | nothing
  | default (name : Text)
  | bindings (b : ImportBindings)
  | both (default : Text) (b : ImportBindings)
deriving Repr, DecidableEq

namespace ImportClause

/-- The name the default export is bound to. -/
def default? : ImportClause → Option Text
  | nothing | bindings _ => none
  | default name | both name _ => some name

/-- What else is bound. -/
def bindings? : ImportClause → Option ImportBindings
  | nothing | default _ => none
  | bindings b | both _ b => some b

/-- The name the whole module is bound to. -/
def namespace? (c : ImportClause) : Option Text :=
  match c.bindings? with
  | some (.namespaceAs name) => some name
  | _ => none

/-- The named imports. -/
def named? (c : ImportClause) : Option (List ImportSpecifier) :=
  match c.bindings? with
  | some (.named specifiers) => some specifiers
  | _ => none

end ImportClause

/-- The words that start a declaration. -/
inductive DeclarationKind where
  | letKind
  | constKind
  | varKind
deriving Repr, DecidableEq

/-- The word as it is written. -/
def DeclarationKind.spelling : DeclarationKind → Text
  | letKind => "let".toList
  | constKind => "const".toList
  | varKind => "var".toList

/-- An expression that loads a module. -/
inductive ModuleLoad where
  /-- A call of `require` with the given specifier. -/
  | require (span : Span) (specifier : Text)
  /-- An expression around one dynamic import: the text `lead`, the call of `import` with the
  string `literal` and the text `options` after it, and the text `tail`. -/
  | dynamicImport (span : Span) (specifier literal lead options tail : Text)
deriving Repr, DecidableEq

namespace ModuleLoad

def span : ModuleLoad → Span
  | require s _ => s
  | dynamicImport s .. => s

def specifier : ModuleLoad → Text
  | require _ x => x
  | dynamicImport _ x .. => x

end ModuleLoad

/-- The single declarator of a declaration that loads a module. -/
structure ModuleBinding where
  target : Text
  load : ModuleLoad
deriving Repr, DecidableEq

/-- What a statement is. -/
inductive StatementForm where
  | importing (source : Text) (clause : ImportClause)
  /-- A declaration, with the text after its first word. -/
  | declaration (kind : DeclarationKind) (body : Text) (binding : Option ModuleBinding)
  /-- A single template literal with a tag. -/
  | shellCommand (tag : Text)
  | plain
deriving Repr, DecidableEq

/-- A statement with its place and its text. -/
structure Statement where
  span : Span
  text : Text
  form : StatementForm
deriving Repr, DecidableEq

/-- A source text with its statements in order. -/
structure Submission where
  source : Text
  statements : List Statement
deriving Repr, DecidableEq

namespace Submission

/-- The text around the statements, from an offset on. -/
def separatorsFrom (source : Text) : Nat → List Statement → List Text
  | position, [] => [source.drop position]
  | position, s :: rest =>
    Text.slice source position s.span.start :: separatorsFrom source s.span.stop rest

/-- The text before the first statement, between each two, and after the last. -/
def separators (s : Submission) : List Text := separatorsFrom s.source 0 s.statements

theorem length_separatorsFrom (source : Text) (position : Nat) (statements : List Statement) :
    (separatorsFrom source position statements).length = statements.length + 1 := by
  induction statements generalizing position with
  | nil => rfl
  | cons s rest ih => simp [separatorsFrom, ih]

theorem length_separators (s : Submission) : s.separators.length = s.statements.length + 1 :=
  length_separatorsFrom s.source 0 s.statements

end Submission

end ReplCore
