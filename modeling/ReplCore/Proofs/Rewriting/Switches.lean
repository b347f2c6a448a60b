import ReplCore.Proofs.Rewriting.Outcomes
import ReplCore.Proofs.Submission.Reading

/-!
# Switches are independent

A switch decides about the statements of one form. Two values of the options that differ in one
switch plan, redeclare and await all other statements alike, and what a plan comes to depends on the
resolver before the submission alone. So the other statements print the same text, although the two
runs may redirect and note different modules.

* `outcome_eq_of_agreeExcept`: a statement that the switch does not govern becomes the same.
* `prints_eq_of_agreeExcept`: the two runs over a submission.
-/

namespace ReplCore

/-- A switch of rewriting. -/
inductive Switch where
  | staticImports
  | requireCalls
  | dynamicImports
  | redeclaration
  | stripTypes
  | shellTag
deriving Repr, DecidableEq

namespace Switch

/-- Whether a switch decides about statements of a form. The types are taken out of the source before
it has statements. -/
def governs : Switch → StatementForm → Bool
  | staticImports, .importing .. => true
  | requireCalls, .declaration _ _ (some ⟨_, .require ..⟩) => true
  | dynamicImports, .declaration _ _ (some ⟨_, .dynamicImport ..⟩) => true
  | redeclaration, .declaration kind _ _ => kind != .varKind
  | shellTag, .shellCommand _ => true
  | _, _ => false

/-- The options differ in one switch at most. -/
structure AgreeExcept (w : Switch) (o o' : RewriteOptions) : Prop where
  staticImports : w ≠ .staticImports → o.staticImports = o'.staticImports
  requireCalls : w ≠ .requireCalls → o.requireCalls = o'.requireCalls
  dynamicImports : w ≠ .dynamicImports → o.dynamicImports = o'.dynamicImports
  redeclaration : w ≠ .redeclaration → o.redeclaration = o'.redeclaration
  stripTypes : w ≠ .stripTypes → o.stripTypes = o'.stripTypes
  shellTag : w ≠ .shellTag → o.shellTag = o'.shellTag

end Switch

namespace Rewriting

open Resolver Switch

variable {w : Switch} {o o' : RewriteOptions} {st : Statement} {kind : DeclarationKind} {body : Text}
  {binding : Option ModuleBinding}

/-! ## One statement -/

/-- Unless the switch governs the declaration, it keeps its word or is written with `var` in both. -/
theorem redeclares_eq (ho : AgreeExcept w o o')
    (hfree : w.governs (.declaration kind body binding) = false) :
    (o.redeclaration && kind != .varKind) = (o'.redeclaration && kind != .varKind) := by
  by_cases hw : w = .redeclaration
  · subst hw
    have hvar : (kind != .varKind) = false := by
      rcases binding with - | ⟨target, _ | _⟩ <;> exact hfree
    rw [hvar, Bool.and_false, Bool.and_false]
  · rw [ho.redeclaration hw]

theorem declarationWord_eq (ho : AgreeExcept w o o')
    (hfree : w.governs (.declaration kind body binding) = false) :
    declarationWord o kind = declarationWord o' kind := by
  have hsame := redeclares_eq ho hfree
  cases kind with
  | varKind => rw [declarationWord, declarationWord, ite_self, ite_self]
  | letKind | constKind =>
    have hredeclaration : o.redeclaration = o'.redeclaration :=
      (Bool.and_true _).symm.trans (hsame.trans (Bool.and_true _))
    rw [declarationWord, declarationWord, hredeclaration]

theorem loadPlan?_eq_of_agreeExcept (ho : AgreeExcept w o o') (hfree : w.governs st.form = false) :
    loadPlan? o st = loadPlan? o' st := by
  unfold loadPlan?
  cases hform : st.form with
  | importing specifier clause =>
    rw [hform] at hfree
    have hw : w ≠ .staticImports := by
      rintro rfl
      cases hfree
    simp only [ho.staticImports hw]
  | declaration kind body binding =>
    rw [hform] at hfree
    have hword := declarationWord_eq ho hfree
    rcases binding with - | ⟨target, load⟩
    · rfl
    cases load with
    | require span specifier =>
      have hw : w ≠ .requireCalls := by
        rintro rfl
        cases hfree
      simp only [ho.requireCalls hw, hword]
    | dynamicImport span specifier literal lead options tail =>
      have hw : w ≠ .dynamicImports := by
        rintro rfl
        cases hfree
      simp only [ho.dynamicImports hw, hword]
  | shellCommand tag => rfl
  | plain => rfl

theorem rewritten_eq_of_agreeExcept (ho : AgreeExcept w o o') (hfree : w.governs st.form = false) :
    rewritten o st = rewritten o' st := by
  have happlies : applies o st = applies o' st := by
    unfold applies
    cases hform : st.form with
    | importing specifier clause => rfl
    | declaration kind body binding => exact redeclares_eq ho (hform ▸ hfree)
    | shellCommand tag =>
      have hw : w ≠ .shellTag := by
        rintro rfl
        rw [hform] at hfree
        cases hfree
      simp only [ho.shellTag hw]
    | plain => rfl
  rw [rewritten, rewritten, happlies]

/-- Rewriting a statement that the switch does not govern is the same, effects included. -/
theorem statement_eq_of_agreeExcept (ho : AgreeExcept w o o') (hfree : w.governs st.form = false)
    (lookup : LocalLookup) (keys : Option (List Text)) (r : Resolver) :
    statement ⟨o, lookup, keys⟩ st r = statement ⟨o', lookup, keys⟩ st r := by
  have hplan := loadPlan?_eq_of_agreeExcept ho hfree
  cases hload : loadPlan? o st with
  | none =>
    rw [statement_of_loadPlan?_eq_none hload, statement_of_loadPlan?_eq_none (hplan ▸ hload),
      rewritten_eq_of_agreeExcept ho hfree]
  | some plan =>
    rw [statement_of_loadPlan? hload, statement_of_loadPlan? (hplan ▸ hload)]
    rfl

/-- A statement that the switch does not govern becomes the same. -/
theorem outcome_eq_of_agreeExcept (ho : AgreeExcept w o o') (hfree : w.governs st.form = false)
    (lookup : LocalLookup) (keys : Option (List Text)) (base : Text) (r : Resolver) :
    outcome ⟨o, lookup, keys⟩ base r st = outcome ⟨o', lookup, keys⟩ base r st := by
  unfold outcome
  rw [loadPlan?_eq_of_agreeExcept ho hfree, rewritten_eq_of_agreeExcept ho hfree]
  rfl

/-! ## Two runs -/

/-- Whatever was resolved and noted before, two runs whose options differ in one switch rewrite every
statement of a submission, and each statement that the switch does not govern prints the same
text. -/
theorem prints_eq_of_agreeExcept (ho : AgreeExcept w o o') (lookup : LocalLookup)
    (keys : Option (List Text)) {base : Text} {r : Resolver}
    (hr : Steps (.fresh (some base)) r) (s : Submission) :
    ∃ ps ps' r₁ r₂, submission ⟨o, lookup, keys⟩ s r = (.result ps, r₁) ∧
      submission ⟨o', lookup, keys⟩ s r = (.result ps', r₂) ∧
      ps.length = s.statements.length ∧ ps'.length = s.statements.length ∧
      ∀ (i : Nat) (st : Statement) (p p' : PrintableStatement), s.statements[i]? = some st →
        ps[i]? = some p → ps'[i]? = some p' → w.governs st.form = false → p.print = p'.print := by
  have hsettled : Settled base r := (Settled.fresh base).of_steps hr
  refine ⟨_, _, _, _, each_eq_outcomes ⟨o, lookup, keys⟩ s.statements hsettled,
    each_eq_outcomes ⟨o', lookup, keys⟩ s.statements hsettled, List.length_map _,
    List.length_map _, ?_⟩
  intro i st p p' hst hp hp' hfree
  rw [List.getElem?_map, hst] at hp hp'
  rw [← Option.some.inj hp, ← Option.some.inj hp', outcome_eq_of_agreeExcept ho hfree]

/-- The runs with and without calls of `require`, after one package was redirected and seen. Only one
of them redirects the package that is required, and both import the other package alike. -/
theorem prints_eq_of_agreeExcept_require :
    let o : RewriteOptions := .default
    let o' : RewriteOptions := { o with requireCalls := false }
    let lookup : LocalLookup := fun _ => .ok false
    let r : Resolver := ⟨some "cdn".toList, ⟨[⟨"x".toList, "cdn/x/+esm".toList, true⟩]⟩,
      [notice "x".toList]⟩
    ∃ s ps ps' r₁ r₂, Submission.read "const a = require('z')\nimport 'x'".toList = .ok s ∧
      submission ⟨o, lookup, none⟩ s r = (.result ps, r₁) ∧
      submission ⟨o', lookup, none⟩ s r = (.result ps', r₂) ∧
      r₁.cache.modules.map CachedModule.specifier = ["x".toList, "z".toList] ∧
      r₂.cache.modules.map CachedModule.specifier = ["x".toList] ∧
      ∃ p p', ps[1]? = some p ∧ ps'[1]? = some p' ∧ p.print = p'.print := by
  intro o o' lookup r
  let source := "const a = require('z')\nimport 'x'".toList
  let s : Submission := ⟨source,
    [⟨⟨0, 22⟩, source.take 22, .declaration .constKind " a = require('z')".toList
        (some ⟨"a".toList, .require ⟨10, 22⟩ "z".toList⟩)⟩,
      ⟨⟨23, 33⟩, source.drop 23, .importing "x".toList .nothing⟩]⟩
  have hread : (Submission.read source).toOption = some s := by decide +kernel
  have ho : AgreeExcept .requireCalls o o' := by constructor <;> simp [o, o']
  have hr : Steps (.fresh (some "cdn".toList)) r := by
    have hurl : Specifier.cdnUrl "cdn".toList "x".toList = "cdn/x/+esm".toList := by decide +kernel
    have hredirect : Step (.fresh (some "cdn".toList)) _ :=
      .redirect rfl (s := "x".toList) (by decide +kernel) rfl
    have hnote := Relation.ReflTransGen.tail (.single hredirect) (.note _ "x".toList)
    rw [hurl] at hnote
    exact hnote
  have hredirects : (submission ⟨o, lookup, none⟩ s r).2.cache.modules.map CachedModule.specifier =
      ["x".toList, "z".toList] := by decide +kernel
  have hredirects' : (submission ⟨o', lookup, none⟩ s r).2.cache.modules.map CachedModule.specifier =
      ["x".toList] := by decide +kernel
  obtain ⟨ps, ps', r₁, r₂, hrun, hrun', hlength, hlength', hprints⟩ :=
    prints_eq_of_agreeExcept ho lookup none hr s
  rw [hrun] at hredirects
  rw [hrun'] at hredirects'
  obtain ⟨p₀, p, rfl⟩ := List.length_eq_two.mp hlength
  obtain ⟨p₀', p', rfl⟩ := List.length_eq_two.mp hlength'
  exact ⟨s, _, _, r₁, r₂, eq_ok_of_toOption hread, hrun, hrun', hredirects, hredirects',
    p, p', rfl, rfl, hprints 1 _ p p' rfl rfl rfl rfl⟩

end Rewriting

end ReplCore
