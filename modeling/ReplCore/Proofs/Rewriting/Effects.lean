import ReplCore.Proofs.Modules.Redirects
import ReplCore.Proofs.Rewriting.Loading

/-!
# What rewriting does to redirects

A statement with a plan is rewritten by resolving one specifier, and any other without an effect. So
with an address for packages every statement is rewritten and every submission that can be read is
printed.

* `Rewriting.exists_statement`, `Rewriting.forall₂_submission`: some rule applies to every statement.
* `Transpiler.exists_transpile`: transpiling gives a text, and redirects change by steps alone.
-/

namespace ReplCore

namespace Rewriting

open Resolver

variable {r : Resolver} {base : Text}

/-- Loading a module resolves its specifier and may note that it was fetched. -/
theorem exists_load (hbase : r.cdnBase = some base) (k : RewriteContext) (specifier : Text)
    (literal : Option Text) (importOptions : Text) :
    ∃ source r', load k r specifier literal importOptions = .ok (source, r') ∧ Steps r r' := by
  obtain ⟨target, r₁, hresolve⟩ := exists_resolve_eq_ok hbase k.lookup specifier true
  have hsteps := steps_of_resolve hresolve
  have hfetched := hsteps.trans (steps_isFetched r₁ specifier k.namespaceKeys)
  simp only [load, hresolve, Except.map]
  by_cases hremote : r₁.isRemote specifier = true
  · by_cases hseen : (r₁.cache.isFetched specifier k.namespaceKeys).1 = true
    · exact ⟨.loaded (Expression.globalLookup target), _, by simp [hremote, hseen], hfetched⟩
    · exact ⟨.promise _, _, by simp only [hremote, hseen]; rfl, hfetched⟩
  · exact ⟨.promise _, r₁, by simp only [hremote]; rfl, hsteps⟩

theorem exists_loading (hbase : r.cdnBase = some base) (k : RewriteContext) (specifier : Text)
    (literal : Option Text) (importOptions : Text) (build : Expression.Source → GeneratedStatement)
    (st : Statement) :
    ∃ p r', loading k specifier literal importOptions build st r = (.result p, r') ∧
      Steps r r' := by
  obtain ⟨source, r', hload, hsteps⟩ := exists_load hbase k specifier literal importOptions
  exact ⟨_, r', by rw [loading, hload], hsteps⟩

/-- Some rule applies to every statement. -/
theorem exists_statement (hbase : r.cdnBase = some base) (k : RewriteContext) (st : Statement) :
    ∃ p r', statement k st r = (.result p, r') ∧ Steps r r' := by
  cases hplan : loadPlan? k.options st with
  | none => exact ⟨_, r, statement_of_loadPlan?_eq_none hplan r, .refl⟩
  | some plan =>
    rw [statement_of_loadPlan? hplan]
    exact exists_loading hbase k plan.specifier plan.literal plan.importOptions plan.build st

/-- Every submission is rewritten, each statement at some moment that steps lead to. -/
theorem forall₂_submission (hbase : r.cdnBase = some base) (k : RewriteContext) (s : Submission) :
    ∃ ps r', submission k s r = (.result ps, r') ∧
      List.Forall₂ (fun st p => ∃ r₁ r₂, Steps r r₁ ∧ statement k st r₁ = (.result p, r₂))
        s.statements ps ∧ Steps r r' := by
  refine Visitor.forall₂_each (I := Steps r) (fun st r₁ hsteps => ?_) s.statements r .refl
  have hbase₁ := hsteps.cdnBase_eq.trans hbase
  obtain ⟨p, r₂, hstatement, hmore⟩ := exists_statement hbase₁ k st
  exact ⟨p, r₂, hstatement, ⟨r₁, r₂, hsteps, hstatement⟩, hsteps.trans hmore⟩

/-- There is one statement for each of a submission's own. -/
theorem exists_submission (hbase : r.cdnBase = some base) (k : RewriteContext) (s : Submission) :
    ∃ ps r', submission k s r = (.result ps, r') ∧ ps.length = s.statements.length ∧
      Steps r r' := by
  obtain ⟨ps, r', hsubmission, hps, hsteps⟩ := forall₂_submission hbase k s
  exact ⟨ps, r', hsubmission, hps.length_eq.symm, hsteps⟩

end Rewriting

namespace Transpiler

open Resolver

variable {t : Transpiler} {base : Text}

/-- Stripping types has no effect on redirects. -/
theorem resolver_stripTypes (t : Transpiler) (source label : Text) :
    (t.stripTypes source label).2.resolver = t.resolver := by
  unfold stripTypes
  split <;> rfl

theorem exists_rewriteSubmission (hbase : t.resolver.cdnBase = some base) (lookup : LocalLookup)
    (keys : Option (List Text)) (s : Submission) :
    ∃ text r', t.rewriteSubmission lookup keys s = (.ok text, { t with resolver := r' }) ∧
      Steps t.resolver r' := by
  obtain ⟨ps, r', hsubmission, hlength, hsteps⟩ :=
    Rewriting.exists_submission hbase ⟨t.options, lookup, keys⟩ s
  obtain ⟨text, hprint⟩ : ∃ text, s.print ps = .ok text := ⟨_, Submission.print_eq hlength⟩
  exact ⟨text, r', by simp only [rewriteSubmission, hsubmission, hprint], hsteps⟩

/-- A text without types is transpiled to a text, which is the text itself if it cannot be read. -/
theorem exists_transpileStripped (hbase : t.resolver.cdnBase = some base) (lookup : LocalLookup)
    (text : Text) (keys : Option (List Text)) :
    ∃ out r', t.transpileStripped lookup text keys = (.ok out, { t with resolver := r' }) ∧
      Steps t.resolver r' ∧
      ∀ e, Submission.read text = .error e → out = text ∧ r' = t.resolver := by
  unfold transpileStripped
  split
  · exact ⟨text, t.resolver, rfl, .refl, fun _ _ => ⟨rfl, rfl⟩⟩
  · split
    · exact ⟨text, t.resolver, rfl, .refl, fun _ _ => ⟨rfl, rfl⟩⟩
    · next s hread =>
      obtain ⟨out, r', hout, hsteps⟩ := exists_rewriteSubmission hbase lookup keys s
      refine ⟨out, r', hout, hsteps, fun e he => ?_⟩
      rw [hread] at he
      cases he

/-- Transpiling gives a text, and redirects change by steps alone. -/
theorem exists_transpile (hbase : t.resolver.cdnBase = some base) (lookup : LocalLookup)
    (source : Text) (keys : Option (List Text)) (label : Text) :
    ∃ out t', t.transpile lookup source keys label = (.ok out, t') ∧
      Steps t.resolver t'.resolver ∧
      ∀ e, Submission.read (t.stripTypes source label).1 = .error e →
        out = (t.stripTypes source label).1 ∧ t' = (t.stripTypes source label).2 := by
  have hresolver := resolver_stripTypes t source label
  rw [← hresolver] at hbase ⊢
  obtain ⟨out, r', hout, hsteps, hread⟩ :=
    exists_transpileStripped hbase lookup (t.stripTypes source label).1 keys
  refine ⟨out, _, hout, hsteps, fun e he => ?_⟩
  obtain ⟨rfl, rfl⟩ := hread e he
  exact ⟨rfl, rfl⟩

end Transpiler

end ReplCore
