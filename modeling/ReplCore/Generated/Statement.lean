import ReplCore.Generated.Expression
import ReplCore.Submission.Statement

/-!
# Generated statements

Statements that take the place of the user's, the patterns in which they bind names, and the
printing of a whole submission: statements that were not rewritten and the text between statements
come out as they were.
-/

namespace ReplCore

/-- A statement in place of one of the user's. -/
inductive GeneratedStatement where
  | declaration (kind target : Text) (initializer : Expression)
  | expression (e : Expression)
  | raw (text : Text)
deriving Repr, Inhabited

/-- A statement of the user's that is kept, or one in place of it. -/
inductive PrintableStatement where
  | kept (s : Statement)
  | generated (g : GeneratedStatement)
deriving Repr

namespace BindingPattern

/-- A property name in an object pattern: itself if it is a name, and else a string. -/
def propertyName (name : Text) : Text :=
  if CharClass.isName name then name else Quoted.json name

/-- One property of an object pattern. -/
def property (imported boundAs : Text) : Text :=
  if imported = boundAs then boundAs else propertyName imported ++ ": ".toList ++ boundAs

/-- The object pattern that binds the specifiers. -/
def object (specifiers : List ImportSpecifier) : Text :=
  if specifiers.isEmpty then "\x7b\x7d".toList
  else "\x7b ".toList ++
    Text.join ", ".toList (specifiers.map fun s => property s.imported s.boundAs) ++ " \x7d".toList

/-- The array pattern with the given elements. -/
def array (elements : List Text) : Text :=
  "[".toList ++ Text.join ", ".toList elements ++ "]".toList

end BindingPattern

namespace GeneratedStatement

/-- The source text of a generated statement. -/
def print : GeneratedStatement → Text
  | declaration kind target initializer =>
    kind ++ " ".toList ++ target ++ " = ".toList ++ initializer.print
  | expression e => e.print
  | raw text => text

end GeneratedStatement

namespace PrintableStatement

/-- A kept statement prints as the text it was read from. -/
def print : PrintableStatement → Text
  | kept s => s.text
  | generated g => g.print

end PrintableStatement

namespace Submission

/-- Each statement followed by the separator after it. -/
def weave : List PrintableStatement → List Text → Text
  | s :: statements, separator :: separators => s.print ++ separator ++ weave statements separators
  | _, _ => []

/-- Why statements cannot be printed in place of those of a submission. -/
inductive PrintError where
  | statementCount
deriving Repr, DecidableEq

def PrintError.message : PrintError → Text
  | statementCount => "one statement is needed per parsed statement".toList

/-- The submission with other statements in place of its own. -/
def print (s : Submission) (statements : List PrintableStatement) : Except PrintError Text :=
  if statements.length = s.statements.length then
    .ok (s.separators.headD [] ++ weave statements s.separators.tail)
  else .error .statementCount

end Submission

end ReplCore
