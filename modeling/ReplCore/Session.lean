import ReplCore.Config
import ReplCore.Rewriting.Transpiler
import ReplCore.Style.Theme

/-!
# Sessions

What a configuration sets up: the styles of the line being edited, and a transpiler that remembers
the modules it redirected. The values of a configuration are looked at only when they are needed, so
one that does not fit is an error of the first step that needs it: the theme and the sheet of the
start, the address of packages of the first redirect, and the tag of shell commands of the first
source that has to be searched for it.
-/

namespace ReplCore

/-- A transpiler that was set up from settings. -/
structure Session where
  transpiler : Transpiler
  /-- Whether the tag of shell commands is a text or missing. -/
  tagIsText : Bool

namespace Session

/-- Why a session cannot be started. -/
inductive Error where
  | theme (f : Theme.Fault)
  | sheet (f : Sheet.Fault)
deriving Repr, DecidableEq

/-- The styles of a theme and a user's sheet over the default sheet. -/
def styles? (contents? : Text → Option ByteArray) (theme sheet : Value) :
    Except Error StyleSheet := do
  let base ← (Theme.load contents? theme).mapError .theme
  let user ← (Sheet.ofValue? sheet).mapError .sheet
  return .resolve base user

/-- A session with the given settings that has seen nothing. -/
def fresh (settings : RewriteSettings) (cdnBase : Option Text) (stripper : Option TypeStripper) :
    Session :=
  ⟨.fresh settings.options cdnBase stripper, settings.tagIsText⟩

/-- The session that a configuration describes, if its styles can be set up. -/
def ofConfig? (contents? : Text → Option ByteArray) (c : ReplConfig)
    (stripper : Option TypeStripper) : Except Error Session :=
  (styles? contents? c.theme c.sheet).map fun _ => fresh c.rewrite c.cdnBase? stripper

/-- Why a step of a session fails. -/
inductive StepError where
  | transpiler (e : Transpiler.Error)
  /-- The tag of shell commands is not a text, so the source cannot be searched for it. -/
  | tagNotText
deriving Repr, DecidableEq

/-- What to evaluate in place of a source. A source with a trigger word is read without searching it
for the tag. -/
def transpile (s : Session) (lookup : LocalLookup) (source : Text)
    (namespaceKeys : Option (List Text)) (label : Text) :
    Except StepError Text × Session :=
  let (text, t) := s.transpiler.stripTypes source label
  if s.tagIsText || t.options.isTriggered text then
    let (result, t) := t.transpileStripped lookup text namespaceKeys
    (result.mapError .transpiler, { s with transpiler := t })
  else (.error .tagNotText, { s with transpiler := t })

/-- The answer to a request and the session after it. -/
def serve (s : Session) (lookup : LocalLookup) :
    Transpiler.Request → Except StepError Transpiler.Answer × Session
  | .transpile source keys label =>
    let (result, s) := s.transpile lookup source keys label
    (result.map .text, s)
  | request =>
    let (answer, t) := s.transpiler.serve lookup request
    (answer.mapError .transpiler, { s with transpiler := t })

end Session

/-- Whether no rule that is switched on could apply to a source, or nothing if that cannot be told
since the tag of shell commands is not a text. -/
def RewriteSettings.shouldSkip? (s : RewriteSettings) (source : Text) : Option Bool :=
  if s.tagIsText || s.options.isTriggered source then some (s.options.shouldSkip source) else none

end ReplCore
