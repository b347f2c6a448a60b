import ReplCore.Proofs.Rewriting.Shortcut

/-!
# Statements that load a module

At most one rule on modules applies to a statement. It loads one specifier, once, and builds a
statement from where the module is. Every other statement is rewritten without an effect.

* `statement_of_loadPlan?`, `statement_of_loadPlan?_eq_none`: what becomes of a statement by its
  plan.
* `load_of_kept`: where a module that is not redirected comes from.
-/

namespace ReplCore.Rewriting

open Expression

/-- How a rule loads a module: the specifier with its literal, where that may be used again, the
text after it, and the statement to build from where the module is. -/
structure LoadPlan where
  specifier : Text
  literal : Option Text
  importOptions : Text
  build : Source → GeneratedStatement

/-- The plan of the rule on modules that applies to a statement. -/
def loadPlan? (o : RewriteOptions) (st : Statement) : Option LoadPlan :=
  match st.form with
  | .importing specifier clause =>
    if o.staticImports then some ⟨specifier, none, [], importing clause⟩ else none
  | .declaration kind _ (some ⟨target, .require _ specifier⟩) =>
    if o.requireCalls then
      some ⟨specifier, none, [], fun source =>
        .declaration (declarationWord o kind) target (settle source (some unwrapCallback))⟩
    else none
  | .declaration kind _ (some ⟨target, .dynamicImport _ specifier literal lead options tail⟩) =>
    if o.dynamicImports then
      some ⟨specifier, some literal, options, fun source =>
        .declaration (declarationWord o kind) target
          (.spliced [raw lead, asPromise source, raw tail])⟩
    else none
  | _ => none

variable {k : RewriteContext} {st : Statement}

theorem isSome_loadPlan? (o : RewriteOptions) (st : Statement) :
    (loadPlan? o st).isSome = appliesToLoad o st := by
  unfold loadPlan? appliesToLoad
  cases st.form with
  | importing specifier clause => cases o.staticImports <;> rfl
  | declaration kind body binding =>
    rcases binding with - | ⟨target, load⟩
    · rfl
    · cases load with
      | require place specifier => cases o.requireCalls <;> rfl
      | dynamicImport place specifier literal lead options tail => cases o.dynamicImports <;> rfl
  | shellCommand tag => rfl
  | plain => rfl

/-- The specifier that a statement loads, if the rule for its form is switched on. -/
def loadedSpecifier? (o : RewriteOptions) (st : Statement) : Option Text :=
  match st.form with
  | .importing specifier _ => if o.staticImports then some specifier else none
  | .declaration _ _ (some ⟨_, .require _ specifier⟩) =>
    if o.requireCalls then some specifier else none
  | .declaration _ _ (some ⟨_, .dynamicImport _ specifier _ _ _ _⟩) =>
    if o.dynamicImports then some specifier else none
  | _ => none

theorem map_specifier_loadPlan? (o : RewriteOptions) (st : Statement) :
    (loadPlan? o st).map LoadPlan.specifier = loadedSpecifier? o st := by
  unfold loadPlan? loadedSpecifier?
  cases st.form with
  | importing specifier clause => cases o.staticImports <;> rfl
  | declaration kind body binding =>
    rcases binding with - | ⟨target, load⟩
    · rfl
    · cases load with
      | require place specifier => cases o.requireCalls <;> rfl
      | dynamicImport place specifier literal lead options tail => cases o.dynamicImports <;> rfl
  | shellCommand tag => rfl
  | plain => rfl

/-- A statement without a plan is rewritten without an effect. -/
theorem statement_of_loadPlan?_eq_none (h : loadPlan? k.options st = none) (r : Resolver) :
    statement k st r = (.result (rewritten k.options st), r) := by
  refine statement_eq ?_ r
  rw [← isSome_loadPlan?, h, Option.isSome_none]

theorem loading_ne_refused (k : RewriteContext) (plan : LoadPlan) (st : Statement) (r : Resolver) :
    (loading k plan.specifier plan.literal plan.importOptions plan.build st r).1 ≠ .refused := by
  unfold loading
  split <;> simp

/-- A statement with a plan is rewritten by loading what the plan says. -/
theorem statement_of_loadPlan? {plan : LoadPlan} (h : loadPlan? k.options st = some plan)
    (r : Resolver) : statement k st r =
      loading k plan.specifier plan.literal plan.importOptions plan.build st r := by
  have hdecides := loading_ne_refused k plan st r
  -- The rules before the one that applies are refused, since the statement is not of their shape.
  unfold loadPlan? at h
  split at h
  · next specifier clause hform =>
    split at h
    · next hrule =>
      have happlies : staticImport k st r =
          loading k plan.specifier plan.literal plan.importOptions plan.build st r := by
        rw [← Option.some.inj h]
        simp only [staticImport, hform, hrule, if_true]
      exact (Visitor.alt_of_ne_refused (happlies ▸ hdecides)).trans happlies
    · cases h
  · next kind body target place specifier hform =>
    split at h
    · next hrule =>
      have hstatic : staticImport k st r = (.refused, r) := by simp only [staticImport, hform]
      have happlies : requireCall k st r =
          loading k plan.specifier plan.literal plan.importOptions plan.build st r := by
        rw [← Option.some.inj h]
        simp only [requireCall, hform, hrule, if_true]
      rw [statement, Visitor.alt_of_refused hstatic]
      exact (Visitor.alt_of_ne_refused (happlies ▸ hdecides)).trans happlies
    · cases h
  · next kind body target place specifier literal lead options tail hform =>
    split at h
    · next hrule =>
      have hstatic : staticImport k st r = (.refused, r) := by simp only [staticImport, hform]
      have hrequire : requireCall k st r = (.refused, r) := by simp only [requireCall, hform]
      have happlies : dynamicImport k st r =
          loading k plan.specifier plan.literal plan.importOptions plan.build st r := by
        rw [← Option.some.inj h]
        simp only [dynamicImport, hform, hrule, if_true]
      rw [statement, Visitor.alt_of_refused hstatic, Visitor.alt_of_refused hrequire]
      exact (Visitor.alt_of_ne_refused (happlies ▸ hdecides)).trans happlies
    · cases h
  · cases h

/-- Where a module that stays where it is comes from. A literal is used again. -/
def unredirected (specifier : Text) (literal : Option Text) (importOptions : Text) : Source :=
  .promise (.importCall (literal.elim (.string specifier) raw) importOptions)

/-- A specifier that is not redirected is imported as it is. -/
theorem load_of_kept {r : Resolver} {x : Text} (hremote : r.isRemote x = false)
    (hkept : Resolver.isFixed x = true ∨ k.lookup.finds x = true) (literal : Option Text)
    (importOptions : Text) :
    load k r x literal importOptions = .ok (unredirected x literal importOptions, r) := by
  have hnone : r.cache.get? x = none := by
    simpa [Resolver.isRemote, ModuleCache.contains] using hremote
  have hresolve : r.resolve k.lookup x true = .ok (x, r) := by
    rcases hkept with hfixed | hfinds
    · simp [Resolver.resolve_def, hfixed]
    · simp [Resolver.resolve_def, hnone, hfinds]
  cases literal <;> simp [load, hresolve, Except.map, hremote, unredirected]

end ReplCore.Rewriting
