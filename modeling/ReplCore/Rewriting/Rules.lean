import ReplCore.Generated.Statement
import ReplCore.Modules.Resolver
import ReplCore.Rewriting.Options
import ReplCore.Visiting.Visitor

/-!
# The rules of rewriting

Each rule is a visitor that is refused if its switch is off or the statement is not of its shape.
The rules are tried in order, and a statement that none applies to is kept.

Static imports and calls of `require` become declarations that await a dynamic import. The code that
fetches a redirected module also stores it as a global under its URL, and once it was fetched it is
read from there.
-/

namespace ReplCore

/-- What rewriting depends on: the options, the local lookup, and the keys of the namespace in
which the code will run, if they are known. -/
structure RewriteContext where
  options : RewriteOptions
  lookup : LocalLookup
  namespaceKeys : Option (List Text)

/-- A rewriting rule. -/
abbrev RewriteRule := Visitor Resolver Resolver.Error Statement PrintableStatement

namespace Rewriting

open Expression

/-- Where a module comes from. A literal is used again if the specifier stands for itself, and the
text after it is kept. -/
def load (k : RewriteContext) (r : Resolver) (specifier : Text) (literal : Option Text)
    (importOptions : Text) : Except Resolver.Error (Source × Resolver) :=
  (r.resolve k.lookup specifier true).map fun (target, r) =>
    if !r.isRemote specifier then
      let source := match literal with
        | some l => if target = specifier then raw l else .string target
        | none => .string target
      (.promise (.importCall source importOptions), r)
    else
      let (fetched, cache) := r.cache.isFetched specifier k.namespaceKeys
      let r := { r with cache := cache }
      if fetched then (.loaded (globalLookup target), r)
      else
        (.promise (andThen (.importCall (.string target) importOptions) (storeCallback target)), r)

/-- The statement that uses a module once its source is known. -/
def loading (k : RewriteContext) (specifier : Text) (literal : Option Text) (importOptions : Text)
    (build : Source → GeneratedStatement) : RewriteRule := fun _ r =>
  match load k r specifier literal importOptions with
  | .ok (source, r) => (.result (.generated (build source)), r)
  | .error e => (.failed e, r)

/-- What an import becomes, given where its module comes from. -/
def importing (clause : ImportClause) (source : Source) : GeneratedStatement :=
  let declare := GeneratedStatement.declaration DeclarationKind.varKind.spelling
  match clause with
  | .nothing => .expression (settle source none)
  | .bindings (.namespaceAs name) => declare name (settle source none)
  | .bindings (.named specifiers) => declare (BindingPattern.object specifiers) (settle source none)
  | .default name => declare name (settle source (some unwrapCallback))
  | .both name (.namespaceAs module) =>
    declare (BindingPattern.array [module, name]) (settle source (some pairCallback))
  | .both name (.named specifiers) =>
    declare (BindingPattern.array [BindingPattern.object specifiers, name])
      (settle source (some pairCallback))

/-- The word that a rewritten declaration starts with. -/
def declarationWord (o : RewriteOptions) (kind : DeclarationKind) : Text :=
  if o.redeclaration then DeclarationKind.varKind.spelling else kind.spelling

/-- The value of a module as a promise. -/
def asPromise : Source → Expression
  | .promise e => e
  | .loaded e => promiseFor e

/-- `import d from 'x'` awaits a dynamic import. -/
def staticImport (k : RewriteContext) : RewriteRule := fun s r =>
  match s.form with
  | .importing source clause =>
    if k.options.staticImports then loading k source none [] (importing clause) s r
    else (.refused, r)
  | _ => (.refused, r)

/-- `const d = require('x')` awaits a dynamic import. -/
def requireCall (k : RewriteContext) : RewriteRule := fun s r =>
  match s.form with
  | .declaration kind _ (some ⟨target, .require _ specifier⟩) =>
    if k.options.requireCalls then
      loading k specifier none [] (fun source =>
        .declaration (declarationWord k.options kind) target
          (settle source (some unwrapCallback))) s r
    else (.refused, r)
  | _ => (.refused, r)

/-- `const d = await import('x')` imports from where the module is. -/
def dynamicImport (k : RewriteContext) : RewriteRule := fun s r =>
  match s.form with
  | .declaration kind _ (some ⟨target, .dynamicImport _ specifier literal lead options tail⟩) =>
    if k.options.dynamicImports then
      loading k specifier (some literal) options (fun source =>
        .declaration (declarationWord k.options kind) target
          (.spliced [raw lead, asPromise source, raw tail])) s r
    else (.refused, r)
  | _ => (.refused, r)

/-- `let x = 1` becomes `var x = 1`. -/
def redeclaration (k : RewriteContext) : RewriteRule := fun s r =>
  match s.form with
  | .declaration kind body _ =>
    if k.options.redeclaration ∧ kind ≠ .varKind then
      (.result (.generated (.raw (DeclarationKind.varKind.spelling ++ body))), r)
    else (.refused, r)
  | _ => (.refused, r)

/-- A shell command is awaited and its value dropped. -/
def shellCommand (k : RewriteContext) : RewriteRule := fun s r =>
  match s.form with
  | .shellCommand tag =>
    if k.options.shellTag = some tag then
      (.result (.generated (.expression (.void (.paren (.await (raw s.text)))))), r)
    else (.refused, r)
  | _ => (.refused, r)

/-- The statement as it is. -/
def keep : RewriteRule := Visitor.identity.map .kept

/-- All rules in order. -/
def statement (k : RewriteContext) : RewriteRule :=
  (staticImport k).alt [requireCall k, dynamicImport k, redeclaration k, shellCommand k, keep]

/-- Rewrite every statement of a submission in order. -/
def submission (k : RewriteContext) :
    Visitor Resolver Resolver.Error Submission (List PrintableStatement) :=
  (statement k).all Submission.statements

end Rewriting

end ReplCore
