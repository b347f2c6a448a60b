import ReplCore.Proofs.Rewriting.Effects
import ReplCore.Proofs.Submission.Tracking

/-!
# Transpiling never fails

Only the nesting of a source can be at fault, and such a source is left as it is without its types.
Every statement that is cut from another source can be read, some rule applies to it, and as many
statements are printed as were read.

* `transpile_total`: every source is transpiled to a text.
-/

namespace ReplCore

/-- A clause that binds something has a name for the default export or something else to bind. -/
theorem ImportClause.exists_bindings {clause : ImportClause} (h : clause ≠ .nothing)
    (hdefault : clause.default? = none) : ∃ b, clause.bindings? = some b := by
  cases clause with
  | nothing => exact absurd rfl h
  | default name => cases hdefault
  | bindings b => exact ⟨b, rfl⟩
  | both name b => cases hdefault

namespace Transpiler

open Submission

/-- With an address for packages, whatever its state, its type stripper and the local lookup, a
transpiler gives a text for every source: the source without types if that cannot be read. Nothing
but a fault in nesting keeps a text from being read: every statement that was cut has a token and
can be read, its clause is complete, and some rule gives a statement in its place. -/
theorem transpile_total (options : RewriteOptions) (stripper : Option TypeStripper) (base : Text)
    (cache : ModuleCache) (notices stripped : List Text) (lookup : LocalLookup) (source : Text)
    (keys : Option (List Text)) (label : Text) :
    let t : Transpiler := ⟨options, stripper, ⟨some base, cache, notices⟩, stripped⟩
    (∃ out t', t.transpile lookup source keys label = (.ok out, t') ∧
      ∀ e, read (t.stripTypes source label).1 = .error e → out = (t.stripTypes source label).1) ∧
    (∀ text e, read text = .error e ↔ splitStatements (Token.tokenize text) = .error e) ∧
    (∀ text groups, splitStatements (Token.tokenize text) = .ok groups →
      ∀ g ∈ groups, g ≠ [] ∧ ∃ st, readStatement text g = .ok st) ∧
    (∀ clause : ImportClause, clause ≠ .nothing → clause.default? = none →
      ∃ b, clause.bindings? = some b) ∧
    ∀ (st : Statement) (cache' : ModuleCache) (notices' : List Text), ∃ p r',
      Rewriting.statement ⟨options, lookup, keys⟩ st ⟨some base, cache', notices'⟩ =
        (.result p, r') := by
  intro t
  refine ⟨?_, fun _ _ => read_error_iff, fun _ _ => exists_readStatement,
    fun _ => ImportClause.exists_bindings, ?_⟩
  · obtain ⟨out, t', htranspile, -, hread⟩ :=
      exists_transpile (t := t) rfl lookup source keys label
    exact ⟨out, t', htranspile, fun e he => (hread e he).1⟩
  · intro st cache' notices'
    obtain ⟨p, r', hstatement, -⟩ := Rewriting.exists_statement
      (r := ⟨some base, cache', notices'⟩) rfl ⟨options, lookup, keys⟩ st
    exact ⟨p, r', hstatement⟩

/-- A shell command with a substitution inside, whose types could not be stripped, and a lookup that
always fails. -/
theorem transpile_total_shell_command :
    (∃ groups, splitStatements (Token.tokenize "$`ls $\x7b[d]\x7d`".toList) = .ok groups ∧
      groups.length = 1 ∧ ∀ g ∈ groups, ∃ st, readStatement "$`ls $\x7b[d]\x7d`".toList g = .ok st) ∧
    ∃ out t', (fresh .default (some "https://cdn".toList) (some fun _ _ => none)).transpile
      (fun s => .error (.specifier (.noPackageName s))) "$`ls $\x7b[d]\x7d`".toList none [] =
        (.ok out, t') := by
  have htotal := transpile_total .default (some fun _ _ => none) "https://cdn".toList .empty [] []
    (fun s => .error (.specifier (.noPackageName s))) "$`ls $\x7b[d]\x7d`".toList none []
  have hcut : (splitStatements (Token.tokenize "$`ls $\x7b[d]\x7d`".toList)).toOption.map
      List.length = some 1 := by
    decide +kernel
  obtain ⟨groups, hgroups, hlength⟩ := Option.map_eq_some_iff.mp hcut
  have hsplit := eq_ok_of_toOption hgroups
  refine ⟨⟨groups, hsplit, hlength, fun g hg => ?_⟩, ?_⟩
  · exact (htotal.2.2.1 _ groups hsplit g hg).2
  · obtain ⟨out, t', hout, -⟩ := htotal.1
    exact ⟨out, t', hout⟩

end Transpiler

end ReplCore
