import ReplCore.Code.Lexer
import ReplCore.Style.Sheet

/-!
# Highlighting

Source text with every lexeme in the style of its type.
-/

namespace ReplCore.Highlight

/-- A lexeme in its style. -/
def renderLexeme (sheet : StyleSheet) (l : Lexeme) : Text :=
  match sheet.styleFor l.type with
  | some s => s.render l.text
  | none => l.text

/-- Source text in the styles of a sheet. -/
def highlight (sheet : StyleSheet) (code : Text) : Text :=
  (Lexer.lex code).flatMap (renderLexeme sheet)

end ReplCore.Highlight
