import ReplCore.Modules.Resolver
import ReplCore.Rewriting.Options
import ReplCore.Value

/-!
# Configuration

Options are read from a record of values. A field takes the value that was written to it last, under
either of its names, and keeps it as it is. The options of rewriting come in records of their own,
which are merged first; one of them, `cdn`, switches every rule that loads modules.
-/

namespace ReplCore

/-- The fields of the options of rewriting. -/
inductive RewriteField where
  | staticImports
  | requireCalls
  | dynamicImports
  | redeclaration
  | stripTypes
  | shellTag
deriving Repr, DecidableEq

/-- The options of rewriting as they were written. -/
structure RewriteSettings where
  staticImports : Value
  requireCalls : Value
  dynamicImports : Value
  redeclaration : Value
  stripTypes : Value
  shellTag : Value
deriving Repr

namespace RewriteSettings

def default : RewriteSettings :=
  ⟨.bool true, .bool true, .bool true, .bool true, .bool true, .text "$".toList⟩

/-- The value of a field. -/
def get (s : RewriteSettings) : RewriteField → Value
  | .staticImports => s.staticImports
  | .requireCalls => s.requireCalls
  | .dynamicImports => s.dynamicImports
  | .redeclaration => s.redeclaration
  | .stripTypes => s.stripTypes
  | .shellTag => s.shellTag

/-- The settings with a value written to a field. -/
def set (s : RewriteSettings) (f : RewriteField) (v : Value) : RewriteSettings :=
  match f with
  | .staticImports => { s with staticImports := v }
  | .requireCalls => { s with requireCalls := v }
  | .dynamicImports => { s with dynamicImports := v }
  | .redeclaration => { s with redeclaration := v }
  | .stripTypes => { s with stripTypes := v }
  | .shellTag => { s with shellTag := v }

/-- The names of the fields. -/
def names : List (String × RewriteField) :=
  [("resolve_static_imports", .staticImports), ("staticImports", .staticImports),
   ("resolve_require_calls", .requireCalls), ("requireCalls", .requireCalls),
   ("resolve_dynamic_imports", .dynamicImports), ("dynamicImports", .dynamicImports),
   ("allow_redeclaration", .redeclaration), ("redeclarations", .redeclaration),
   ("strip_types", .stripTypes), ("typescript", .stripTypes),
   ("shell_tag", .shellTag), ("shellTag", .shellTag)]

/-- The field of a name. -/
def field? (key : Text) : Option RewriteField :=
  (names.find? fun n => n.1.toList = key).map (·.2)

/-- The switch for every rule that loads modules. -/
def cdnKey : Text := "cdn".toList

/-- The settings with one entry read. -/
def read (s : RewriteSettings) (key : Text) (v : Value) : RewriteSettings :=
  if key = cdnKey then
    ((s.set .staticImports (.bool v.isTrue)).set .requireCalls (.bool v.isTrue)).set
      .dynamicImports (.bool v.isTrue)
  else
    match field? key with
    | some f => s.set f v
    | none => s

/-- The settings after all entries of a record. -/
def ofEntries (entries : List (Text × Value)) : RewriteSettings :=
  entries.foldl (fun s e => s.read e.1 e.2) default

/-- Whether the tag of shell commands is a text or missing, as it should be. -/
def tagIsText (s : RewriteSettings) : Bool :=
  match s.shellTag with
  | .text _ | .null => true
  | _ => false

/-- What tells whether some rule that loads modules applies: the first of their values that counts
as true, or else the last. -/
def resolvesModules (s : RewriteSettings) : Value :=
  (s.staticImports.either s.requireCalls).either s.dynamicImports

/-- What tells whether some rule on statements applies: the first of the values of those rules that
counts as true, or else whether there is a tag. -/
def rewritesAnything (s : RewriteSettings) : Value :=
  (s.resolvesModules.either s.redeclaration).either (.bool !(s.shellTag matches .null))

/-- The options that the settings stand for. A tag that is not a text is no tag of any statement. -/
def options (s : RewriteSettings) : RewriteOptions where
  staticImports := s.staticImports.isTrue
  requireCalls := s.requireCalls.isTrue
  dynamicImports := s.dynamicImports.isTrue
  redeclaration := s.redeclaration.isTrue
  stripTypes := s.stripTypes.isTrue
  shellTag :=
    match s.shellTag with
    | .text t => some t
    | _ => none

end RewriteSettings

/-- The fields of a configuration besides the options of rewriting. -/
inductive ConfigField where
  | theme
  | sheet
  | prompt
  | bracketEmphasis
  | cdnBase
deriving Repr, DecidableEq

/-- A configuration, with its values as they were written. -/
structure ReplConfig where
  theme : Value
  sheet : Value
  bracketEmphasis : Value
  cdnBase : Value
  prompt : Value
  rewrite : RewriteSettings
deriving Repr

namespace ReplConfig

def defaultTheme : Text := "one-dark".toList

def default : ReplConfig where
  theme := .text defaultTheme
  sheet := .record []
  bracketEmphasis := .bool true
  cdnBase := .text Resolver.defaultCdnBase
  prompt := .text "> ".toList
  rewrite := .default

/-- The value of a field. -/
def get (c : ReplConfig) : ConfigField → Value
  | .theme => c.theme
  | .sheet => c.sheet
  | .prompt => c.prompt
  | .bracketEmphasis => c.bracketEmphasis
  | .cdnBase => c.cdnBase

/-- The configuration with a value written to a field. -/
def set (c : ReplConfig) (f : ConfigField) (v : Value) : ReplConfig :=
  match f with
  | .theme => { c with theme := v }
  | .sheet => { c with sheet := v }
  | .prompt => { c with prompt := v }
  | .bracketEmphasis => { c with bracketEmphasis := v }
  | .cdnBase => { c with cdnBase := v }

/-- The names of the fields. -/
def names : List (String × ConfigField) :=
  [("theme", .theme), ("sheet", .sheet), ("prompt", .prompt),
   ("bracket_emphasis", .bracketEmphasis), ("bracketEmphasis", .bracketEmphasis),
   ("cdn_base", .cdnBase), ("cdnBase", .cdnBase)]

/-- The field of a name. -/
def field? (key : Text) : Option ConfigField :=
  (names.find? fun n => n.1.toList = key).map (·.2)

/-- The keys whose records hold options of rewriting. -/
def rewriteKeys : List Text := ["extensions".toList, "rewrite".toList]

/-- The entries of the options of rewriting: those of every record of them, a later value in the
place of an earlier one with its key. -/
def rewriteEntries (mapping : List (Text × Value)) : List (Text × Value) :=
  mapping.foldl (fun merged e =>
    match e.2 with
    | .record entries =>
      if rewriteKeys.contains e.1 then entries.foldl (fun m x => putField m x.1 x.2) merged
      else merged
    | _ => merged) []

/-- The configuration with one entry read. -/
def read (c : ReplConfig) (key : Text) (v : Value) : ReplConfig :=
  match field? key with
  | some f => c.set f v
  | none => c

/-- The configuration that a record of options describes. -/
def ofMapping (mapping : List (Text × Value)) : ReplConfig :=
  { mapping.foldl (fun c e => c.read e.1 e.2) default with
    rewrite := .ofEntries (rewriteEntries mapping) }

/-- Whether a value is the given text. -/
def isText (v : Value) (t : Text) : Bool :=
  match v with
  | .text u => u = t
  | _ => false

/-- Whether the configuration equals the default one; a number equal to one counts as true. -/
def isDefault (c : ReplConfig) : Bool :=
  isText c.theme defaultTheme && (c.sheet matches .record [])
    && isText c.cdnBase Resolver.defaultCdnBase && isText c.prompt "> ".toList
    && isText c.rewrite.shellTag "$".toList
    && [c.bracketEmphasis, c.rewrite.staticImports, c.rewrite.requireCalls,
        c.rewrite.dynamicImports, c.rewrite.redeclaration, c.rewrite.stripTypes].all
        fun v => v.sameNumber (.bool true)

/-- The address that packages are loaded from, if it is a text. -/
def cdnBase? (c : ReplConfig) : Option Text :=
  match c.cdnBase with
  | .text t => some t
  | _ => none

end ReplConfig

end ReplCore
