import ReplCore.Text.Basic

/-!
# Options of rewriting

The rules of rewriting are switched independently of each other.
-/

namespace ReplCore

/-- Which rules apply. -/
structure RewriteOptions where
  staticImports : Bool
  requireCalls : Bool
  dynamicImports : Bool
  /-- Whether `let` and `const` become `var`, so that names can be declared again. -/
  redeclaration : Bool
  stripTypes : Bool
  /-- The tag of templates that are shell commands, if there is one. -/
  shellTag : Option Text
deriving Repr, DecidableEq

namespace RewriteOptions

/-- Every rule applies, and a dollar sign marks shell commands. -/
def default : RewriteOptions := ⟨true, true, true, true, true, some "$".toList⟩

/-- Whether some rule that loads modules applies. -/
def resolvesModules (o : RewriteOptions) : Bool :=
  o.staticImports || o.requireCalls || o.dynamicImports

/-- Whether some rule on statements applies. -/
def rewritesAnything (o : RewriteOptions) : Bool :=
  o.resolvesModules || o.redeclaration || o.shellTag.isSome

end RewriteOptions

end ReplCore
