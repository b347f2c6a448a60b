import ReplCore.Proofs.Submission.Boundaries

/-!
# Faults in the nesting of tokens

The cutter finds a fault just if the tokens are not balanced. It is either the first closer after
which no completion is possible, or that something is left open at the end; then the statement so
far has a token, so that the fault has a place.

* `faults_of_splitStatements`: when the cutter finds a fault, and which.
-/

namespace ReplCore.Submission

open Nesting

/-- What is wrong with tokens that are not balanced. -/
inductive Fault (ts : List Token) : Nesting.Error → Prop
  /-- The tokens can be completed up to a closer and no longer with it. -/
  | unexpected {before t after} {o : Opener} (place : ts = before ++ t :: after)
      (closes : o.closes t = true) (notTemplate : o ≠ .template) (completable : Completable before)
      (stuck : ¬ Completable (before ++ [t])) : Fault ts (.unexpected (closerText t) t.start)
  /-- The tokens can be completed and leave something open. -/
  | unclosed {o opened last} (completable : ∀ before, before <+: ts → Completable before)
      (leavesOpen : LeavesOpen (o :: opened) (significant ts))
      (place : (kept ts).getLast? = some last) : Fault ts (.unclosed o last.stop)

variable {ts before after : List Token} {t : Token} {s : Cutting} {done : List (List Token)}
  {e : Nesting.Error}

theorem completable_of_prefix (h : Completable ts) (hle : before <+: ts) : Completable before := by
  obtain ⟨us, rfl⟩ := hle
  obtain ⟨more, hmore⟩ := h
  refine ⟨significant us ++ more, ?_⟩
  rwa [significant_append, List.append_assoc] at hmore

theorem Holds.completable (h : Holds before done s) : Completable before :=
  completable_iff.mpr ⟨s.opened, h.tracked⟩

/-- A token at which tracking finds a fault is a closer without a completion. -/
theorem fault_of_track (h : Holds before done s) (htrack : track s.opened t = .error e) :
    Fault (before ++ t :: after) e := by
  have hstuck : ¬ Completable (before ++ [t]) := by
    rw [completable_iff, trackAll_append, h.tracked]
    rintro ⟨opened, hopened⟩
    change trackAll s.opened [t] = _ at hopened
    rw [trackAll_cons, htrack] at hopened
    cases hopened
  have heffect := effect_track s.opened t
  rw [htrack] at heffect
  cases heffect with
  | fails closes notTemplate => exact .unexpected rfl closes notTemplate h.completable hstuck

/-- What is still open at the end of the tokens was opened by a token of the last statement. -/
theorem fault_of_cut_nil (h : Holds ts done s) (hcut : cut s [] = .error e) : Fault ts e := by
  unfold cut at hcut
  split at hcut
  · next o opened hopened =>
    have hcurrent : s.current ≠ [] := h.begun (by simp [hopened])
    obtain ⟨earlier, last, hlast⟩ := (List.eq_nil_or_concat s.current).resolve_left hcurrent
    have hplace : (kept ts).getLast? = some last := by
      rw [← h.kept_eq, hlast]
      simp
    have hleaves : LeavesOpen (o :: opened) (significant ts) := by
      rw [← trackAll_eq_ok_iff, trackAll_significant, h.tracked, hopened]
    have hfault := Fault.unclosed (fun _ => completable_of_prefix h.completable) hleaves hplace
    rw [← Except.error.inj hcut, hlast]
    simpa using hfault
  · cases hcut

/-- Tokens can be cut into statements just if they are balanced; otherwise the cutter finds the
fault in them. -/
theorem faults_of_splitStatements (ts : List Token) :
    ((∃ groups, splitStatements ts = .ok groups) ↔ Balanced none (significant ts)) ∧
      ∀ e, splitStatements ts = .error e → Fault ts e := by
  refine ⟨exists_splitStatements_iff.trans balanced_significant_iff.symm, fun e h => ?_⟩
  rcases runs_of_cut ts .initial with
    ⟨done, s, hrun, hcut⟩ | ⟨before, t, after, done, s, e', rfl, hrun, htrack, hcut⟩
  · have hend := hcut []
    rw [List.append_nil, ← splitStatements, h] at hend
    cases hnil : cut s [] with
    | ok rest =>
      rw [hnil] at hend
      cases hend
    | error e' =>
      rw [hnil] at hend
      rw [Except.error.inj hend]
      exact fault_of_cut_nil (holds_initial.run hrun) hnil
  · rw [splitStatements, hcut] at h
    rw [← Except.error.inj h]
    exact fault_of_track (holds_initial.run hrun) htrack

/-- A parenthesis that is left open: the comment is no token of the statement, and the fault is
where the name before it ends. -/
theorem faults_of_splitStatements_comment :
    splitStatements (Token.tokenize "(a // b".toList) = .error (.unclosed .round 2) ∧
      Fault (Token.tokenize "(a // b".toList) (.unclosed .round 2) := by
  have h : splitStatements (Token.tokenize "(a // b".toList) = .error (.unclosed .round 2) := by
    decide +kernel
  exact ⟨h, (faults_of_splitStatements _).2 _ h⟩

end ReplCore.Submission
