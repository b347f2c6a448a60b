import ReplCore.Rewriting.Rules
import ReplCore.Submission.Reader

/-!
# Transpiling

What happens to a submission before it is evaluated: types are stripped, the statements are read and
rewritten, and the result is printed. A text that no rule could apply to is not read at all, and a
text whose nesting is wrong is left for the evaluator to complain about.
-/

namespace ReplCore

/-- Takes the type annotations out of a source, given its label, or fails. -/
abbrev TypeStripper := (source label : Text) → Option Text

namespace RewriteOptions

/-- The words without one of which no rule on modules or declarations applies. -/
def triggerWords (o : RewriteOptions) : List String :=
  (if o.staticImports || o.dynamicImports then ["import"] else [])
    ++ (if o.requireCalls then ["require"] else [])
    ++ (if o.redeclaration then ["let", "const"] else [])

/-- Whether one of the words stands somewhere in a text from the place on. -/
def hasWord (words : List String) : (before : Option Char) → Text → Bool
  | _, [] => false
  | before, c :: rest =>
    !(Pattern.ends (.seq .wordEdge (.wholeWordOf words)) ⟨before, c :: rest⟩).isEmpty
      || hasWord words (some c) rest

/-- Whether a source has one of the trigger words. -/
def isTriggered (o : RewriteOptions) (source : Text) : Bool := hasWord o.triggerWords none source

/-- Whether no rule that is switched on could apply to a source. -/
def shouldSkip (o : RewriteOptions) (source : Text) : Bool :=
  !o.isTriggered source &&
    match o.shellTag with
    | none => true
    | some tag => !Text.occursIn (tag ++ "`".toList) source

end RewriteOptions

/-- The state of one transpiler: what it is set up with, its resolver, and the labels of the sources
whose types it had stripped, oldest first. -/
structure Transpiler where
  options : RewriteOptions
  stripper : Option TypeStripper
  resolver : Resolver
  stripped : List Text

namespace Transpiler

/-- A transpiler that has seen nothing. -/
def fresh (options : RewriteOptions) (cdnBase : Option Text) (stripper : Option TypeStripper) :
    Transpiler :=
  ⟨options, stripper, .fresh cdnBase, []⟩

/-- Why transpiling fails. -/
inductive Error where
  | resolver (e : Resolver.Error)
  /-- No rule applied to a statement, not even the one that keeps it. -/
  | noRule
  | print (e : Submission.PrintError)
deriving Repr, DecidableEq

/-- The source without its types, if they are to be stripped and can be. -/
def stripTypes (t : Transpiler) (source label : Text) : Text × Transpiler :=
  match t.options.stripTypes, t.stripper with
  | true, some strip =>
    ((strip source label).getD source, { t with stripped := t.stripped ++ [label] })
  | _, _ => (source, t)

/-- The text of a submission with its statements rewritten. -/
def rewriteSubmission (t : Transpiler) (lookup : LocalLookup) (namespaceKeys : Option (List Text))
    (s : Submission) : Except Error Text × Transpiler :=
  match Rewriting.submission ⟨t.options, lookup, namespaceKeys⟩ s t.resolver with
  | (.result statements, r) =>
    match s.print statements with
    | .ok text => (.ok text, { t with resolver := r })
    | .error e => (.error (.print e), { t with resolver := r })
  | (.refused, r) => (.error .noRule, { t with resolver := r })
  | (.failed e, r) => (.error (.resolver e), { t with resolver := r })

/-- What to evaluate in place of a text without types. -/
def transpileStripped (t : Transpiler) (lookup : LocalLookup) (text : Text)
    (namespaceKeys : Option (List Text)) : Except Error Text × Transpiler :=
  if !t.options.rewritesAnything || t.options.shouldSkip text then (.ok text, t)
  else
    match Submission.read text with
    | .error _ => (.ok text, t)
    | .ok s => t.rewriteSubmission lookup namespaceKeys s

/-- What to evaluate in place of a source. -/
def transpile (t : Transpiler) (lookup : LocalLookup) (source : Text)
    (namespaceKeys : Option (List Text)) (label : Text) : Except Error Text × Transpiler :=
  let (text, t) := t.stripTypes source label
  t.transpileStripped lookup text namespaceKeys

/-- Note which redirected modules a namespace, given by its keys, shows to be fetched. -/
def confirm (t : Transpiler) (namespaceKeys : List Text) : Transpiler :=
  { t with resolver := { t.resolver with cache := t.resolver.cache.confirm namespaceKeys } }

/-! ## Steps as data -/

/-- A request to a transpiler. -/
inductive Request where
  | transpile (source : Text) (namespaceKeys : Option (List Text)) (label : Text)
  | confirm (namespaceKeys : List Text)
  | resolve (specifier : Text) (enabled : Bool)
  | isRemote (specifier : Text)
  | record (specifier target : Text)
  | markFetched (specifier : Text)
deriving Repr

/-- The answer to a request. -/
inductive Answer where
  | done
  | text (t : Text)
  | flag (b : Bool)
deriving Repr, DecidableEq

/-- The transpiler with another cache. -/
def withCache (t : Transpiler) (c : ModuleCache) : Transpiler :=
  { t with resolver := { t.resolver with cache := c } }

/-- The answer to a request and the transpiler after it. -/
def serve (t : Transpiler) (lookup : LocalLookup) : Request → Except Error Answer × Transpiler
  | .transpile source keys label =>
    let (result, t) := t.transpile lookup source keys label
    (result.map .text, t)
  | .confirm keys => (.ok .done, t.confirm keys)
  | .resolve s enabled =>
    match t.resolver.resolve lookup s enabled with
    | .ok (target, r) => (.ok (.text target), { t with resolver := r })
    | .error e => (.error (.resolver e), t)
  | .isRemote s => (.ok (.flag (t.resolver.isRemote s)), t)
  | .record s target =>
    match t.resolver.cache.record s target with
    | .ok c => (.ok (.text target), t.withCache c)
    | .error e => (.error (.resolver (.cache e)), t)
  | .markFetched s =>
    match t.resolver.cache.markFetched s with
    | .ok c => (.ok .done, t.withCache c)
    | .error e => (.error (.resolver (.cache e)), t)

end Transpiler

end ReplCore
