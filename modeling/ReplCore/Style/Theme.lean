import ReplCore.Modules.FileTree
import ReplCore.Style.Builtin

/-!
# Themes

A theme is named, or is the path of a stylesheet. A theme that is unknown, cannot be read or is not
a stylesheet is an empty sheet. Only what can be no name at all is an error.
-/

namespace ReplCore.Theme

/-- The sheet of the text of a stylesheet. -/
def ofText (t : Text) : Sheet := ((Stylesheet.read? t).map Sheet.ofRules).getD []

/-- Why a theme cannot be looked for. -/
inductive Fault where
  /-- The theme is not a text. -/
  | notText
  /-- The path of a file holds a null character. -/
  | nullCharacter
deriving Repr, DecidableEq

/-- The sheet of a theme; what counts as false is no theme. Files are read through `contents?`. -/
def load (contents? : Text → Option ByteArray) (theme : Value) : Except Fault Sheet :=
  match theme with
  | .text name =>
    if Text.endsWith name ".css".toList then
      if '\x00' ∈ name then .error .nullCharacter
      else .ok ((((contents? name).bind Document.decode?).map ofText).getD [])
    else .ok ((builtin? name).getD [])
  | v => if v.isTrue then .error .notText else .ok []

end ReplCore.Theme
