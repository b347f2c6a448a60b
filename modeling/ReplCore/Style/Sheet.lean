import ReplCore.Code.TokenType
import ReplCore.Style.Style
import ReplCore.Style.Stylesheet
import ReplCore.Style.Weight
import ReplCore.Value

/-!
# Sheets

A sheet gives style values to classes of tokens. Sheets are merged by precedence: a class of a later
sheet takes the place of that class in every earlier one. A theme is a stylesheet whose selectors
name classes.
-/

namespace ReplCore

/-- Classes of tokens with their style values. -/
abbrev Sheet := List (Text × List Text)

/-- The classes of token types. -/
def TokenType.classes : List (TokenType × String) :=
  [(.keyword, "keyword"), (.keywordConstant, "literal"), (.keywordType, "type"),
   (.operatorWord, "keyword"), (.nameBuiltin, "built_in"), (.nameException, "title.class"),
   (.nameClass, "title.class"), (.nameFunction, "title.function"), (.nameDecorator, "meta"),
   (.nameAttribute, "attr"), (.nameTag, "tag"), (.nameVariable, "variable"), (.string, "string"),
   (.stringRegex, "regexp"), (.stringInterpol, "subst"), (.stringEscape, "char.escape"),
   (.number, "number"), (.operator, "operator"), (.punctuation, "punctuation"),
   (.comment, "comment")]

/-- The class of a token type: its own, or that of the nearest type above it that has one. -/
def TokenType.class? (t : TokenType) : Option Text :=
  (t.lineage.findSome? fun u => classes.find? fun c => c.1 = u).map fun c => c.2.toList

namespace Sheet

def ofStrings (entries : List (String × List String)) : Sheet :=
  entries.map fun e => (e.1.toList, e.2.map String.toList)

/-- The values of a class. -/
def values? (s : Sheet) (key : Text) : Option (List Text) :=
  (s.find? fun e => e.1 = key).map (·.2)

/-- The sheet that holds under every theme. -/
def default : Sheet :=
  ofStrings
    [("keyword", ["magenta"]), ("built_in", ["cyan"]), ("type", ["cyan"]), ("literal", ["blue"]),
     ("number", ["yellow"]), ("regexp", ["red"]), ("string", ["green"]),
     ("char.escape", ["yellow"]), ("comment", ["gray"]), ("title.function", ["blue"]),
     ("title.class", ["yellow"]), ("meta", ["gray"]), ("attr", ["yellow"]), ("tag", ["red"]),
     ("variable", ["red"])]

/-- The sheet with values added to those of a class. -/
def extend (s : Sheet) (key : Text) (values : List Text) : Sheet :=
  putField s key ((s.values? key).getD [] ++ values)

/-- Several sheets as one, in increasing order of precedence. -/
def merge {α : Type} (sheets : List (List (Text × α))) : List (Text × α) :=
  sheets.foldl (fun merged s => s.foldl (fun m e => putField m e.1 e.2) merged) []

/-! ## Sheets written as values -/

/-- What is wrong with a value as a sheet. -/
inductive Fault where
  /-- The value has no fields. -/
  | notRecord
  /-- The value of a class is neither a text nor a list. -/
  | notList
  /-- A style value is not a text. -/
  | notText
deriving Repr, DecidableEq

/-- The class whose first value is the base of all styles. -/
def baseKey : Text := "default".toList

/-- The fields of a value; what counts as false has none. -/
def fields? : Value → Except Fault (List (Text × Value))
  | .record fields => .ok fields
  | v => if v.isTrue then .error .notRecord else .ok []

/-- The elements of a value that is a list, or stands for one: a text for itself, a record for its
keys. -/
def elements? : Value → Except Fault (List Value)
  | .null => .ok []
  | .text t => .ok [.text t]
  | .list vs => .ok vs
  | .record fields => .ok (fields.map fun f => .text f.1)
  | _ => .error .notList

/-- Fields with a list of values each. -/
def written? (fields : List (Text × Value)) : Except Fault (List (Text × List Value)) :=
  fields.mapM fun f => (elements? f.2).map fun vs => (f.1, vs)

/-- The text of a value. -/
def text? : Value → Except Fault Text
  | .text t => .ok t
  | _ => .error .notText

/-- A class with its style values. Only the first value of the base has to be a text, as the others
are not looked at. -/
def textsOf? (e : Text × List Value) : Except Fault (Text × List Text) :=
  ((if e.1 = baseKey then e.2.take 1 else e.2).mapM text?).map fun ts => (e.1, ts)

/-- The sheet that a value describes. -/
def ofValue? (v : Value) : Except Fault Sheet := do
  (← written? (← fields? v)).mapM textsOf?

/-- The sheet that fields describe, read one by one and the base first. -/
def ofFields? (fields : List (Text × Value)) : Except Fault Sheet :=
  (fields.filter (·.1 = baseKey) ++ fields.filter (·.1 ≠ baseKey)).mapM fun f => do
    textsOf? (f.1, ← elements? f.2)

/-! ## Stylesheets as sheets -/

/-- The short names of token types in selectors, with their classes. -/
def shortClasses : List (String × String) :=
  [("k", "keyword"), ("kc", "literal"), ("kt", "type"), ("ow", "keyword"), ("nb", "built_in"),
   ("ne", "title.class"), ("nc", "title.class"), ("nf", "title.function"), ("nd", "meta"),
   ("na", "attr"), ("nt", "tag"), ("nv", "variable"), ("s", "string"), ("sr", "regexp"),
   ("si", "subst"), ("se", "char.escape"), ("m", "number"), ("o", "operator"),
   ("p", "punctuation"), ("c", "comment")]

/-- What every selector of a theme has in it. -/
def marker : Text := ".hljs".toList

/-- The text without the marker and a hyphen after it, wherever they stand. The text `bound` only
bounds their number. -/
def withoutMarkers : (bound : Text) → Text → Text
  | _, [] => []
  | [], t => t
  | _ :: bound, c :: rest =>
    if marker.isPrefixOf (c :: rest) then
      match (c :: rest).drop marker.length with
      | '-' :: rest => withoutMarkers bound rest
      | rest => withoutMarkers bound rest
    else c :: withoutMarkers bound rest

/-- The class of tokens that a selector of a theme is about. -/
def selectorKey (selector : Text) : Option Text :=
  if !Text.occursIn marker selector then none
  else
    let key := (Text.trim (withoutMarkers selector selector)).dropWhile (· = '.')
    if key.isEmpty then some "default".toList
    else
      match shortClasses.find? fun c => c.1.toList = key with
      | some c => some c.2.toList
      | none => some (Text.join ['.'] ((Text.splitOn '.' key).map (Text.trimEnd (· = '_'))))

/-- The style values of a rule: its colors and its font weights. -/
def ruleValues (r : StyleRule) : List Text :=
  r.declarations.filterMap fun (property, value) =>
    if property = "color".toList then some value
    else if property = "font-weight".toList then some (Weight.styleValue value)
    else none

/-- The sheet with the values of a rule added to every class that it is about. -/
def addRule (s : Sheet) (r : StyleRule) : Sheet :=
  if (ruleValues r).isEmpty then s
  else (r.selectors.filterMap selectorKey).foldl (fun s key => s.extend key (ruleValues r)) s

/-- The sheet of the rules of a stylesheet. -/
def ofRules (rules : List StyleRule) : Sheet := rules.foldl addRule []

end Sheet

/-- The styles of classes of tokens, composed from a sheet. -/
structure StyleSheet where
  base : Style
  styles : List (Text × Style)
deriving Repr, DecidableEq

namespace StyleSheet

/-- The base of all styles: a color in hexadecimal, or nothing. -/
def baseOf (s : Sheet) : Style :=
  match s.values? Sheet.baseKey with
  | some (v :: _) => if v.head? = some '#' then (Style.ofValue? v).getD .none else .none
  | _ => .none

/-- The values on top of a base, in order; those that describe no style are passed over. -/
def compose (base : Style) (values : List Text) : Style :=
  values.foldl (fun s v => s + (Style.ofValue? v).getD .none) base

/-- The styles that a sheet describes. -/
def ofSheet (s : Sheet) : StyleSheet where
  base := baseOf s
  styles := (s.filter fun e => e.1 ≠ Sheet.baseKey).map fun e => (e.1, compose (baseOf s) e.2)

/-- The styles of three sheets, in increasing order of precedence. -/
def layered (lowest theme user : Sheet) : StyleSheet := ofSheet (Sheet.merge [lowest, theme, user])

/-- The styles of a theme and a user's sheet over the default sheet. -/
def resolve (theme user : Sheet) : StyleSheet := layered Sheet.default theme user

/-- The style of a class. -/
def get? (s : StyleSheet) (key : Text) : Option Style :=
  (s.styles.find? fun e => e.1 = key).map (·.2)

/-- The style of a token type. -/
def styleFor (s : StyleSheet) (t : TokenType) : Option Style := t.class?.bind s.get?

end StyleSheet

end ReplCore
