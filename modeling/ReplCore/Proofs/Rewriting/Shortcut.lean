import ReplCore.Proofs.Rewriting.Triggers
import ReplCore.Proofs.Visiting.Choice

/-!
# When the shortcut is right

A text without any word or tag that a rule goes by is not read at all. Reading and rewriting it
would mostly give it back, since no rule on modules applies to it, and would never change the
transpiler. But the search overlooks two kinds of statements, and each of them is rewritten: a
declaration whose first word a character that identifiers do not know follows at once, as in
`let² = 1`, and a shell command with a gap between its tag and its template.

* `Transpiler.rewriteSubmission_of_shouldSkip`: the shortcut is right unless it overlooks a
  statement.
-/

namespace ReplCore

namespace Rewriting

/-! ## What becomes of statements that load nothing -/

/-- Whether a rule on modules applies to a statement. -/
def appliesToLoad (o : RewriteOptions) (st : Statement) : Bool :=
  match st.form with
  | .importing .. => o.staticImports
  | .declaration _ _ (some ⟨_, .require ..⟩) => o.requireCalls
  | .declaration _ _ (some ⟨_, .dynamicImport ..⟩) => o.dynamicImports
  | _ => false

/-- Whether one of the other rules applies to a statement. -/
def applies (o : RewriteOptions) (st : Statement) : Bool :=
  match st.form with
  | .declaration kind _ _ => o.redeclaration && kind != .varKind
  | .shellCommand tag => o.shellTag == some tag
  | _ => false

/-- What becomes of a statement to which no rule on modules applies. -/
def rewritten (o : RewriteOptions) (st : Statement) : PrintableStatement :=
  if applies o st then
    match st.form with
    | .declaration _ body _ => .generated (.raw (DeclarationKind.varKind.spelling ++ body))
    | _ => .generated (.expression (.void (.paren (.await (.raw st.text)))))
  else .kept st

section

variable {k : RewriteContext} {st : Statement} (h : appliesToLoad k.options st = false)
include h

theorem staticImport_refused (r : Resolver) : staticImport k st r = (.refused, r) := by
  unfold staticImport
  split
  · next hform =>
    simp only [appliesToLoad, hform] at h
    simp [h]
  · rfl

theorem requireCall_refused (r : Resolver) : requireCall k st r = (.refused, r) := by
  unfold requireCall
  split
  · next hform =>
    simp only [appliesToLoad, hform] at h
    simp [h]
  · rfl

theorem dynamicImport_refused (r : Resolver) : dynamicImport k st r = (.refused, r) := by
  unfold dynamicImport
  split
  · next hform =>
    simp only [appliesToLoad, hform] at h
    simp [h]
  · rfl

/-- Rewriting a statement that loads nothing has no effect. -/
theorem statement_eq (r : Resolver) :
    statement k st r = (.result (rewritten k.options st), r) := by
  rw [statement, Visitor.alt_of_refused (staticImport_refused h r),
    Visitor.alt_of_refused (requireCall_refused h r),
    Visitor.alt_of_refused (dynamicImport_refused h r)]
  have hkeep : keep st r = (.result (.kept st), r) := rfl
  cases hform : st.form with
  | importing | plain =>
    rw [Visitor.alt_of_refused (by simp [redeclaration, hform]),
      Visitor.alt_of_refused (by simp [shellCommand, hform]), Visitor.alt_of_result hkeep]
    simp [rewritten, applies, hform]
  | declaration kind body binding =>
    by_cases hrule : k.options.redeclaration = true ∧ kind ≠ .varKind
    · have hresult : redeclaration k st r =
          (.result (.generated (.raw (DeclarationKind.varKind.spelling ++ body))), r) := by
        simp [redeclaration, hform, hrule]
      rw [Visitor.alt_of_result hresult]
      simp [rewritten, applies, hform, hrule]
    · rw [Visitor.alt_of_refused (by simp [redeclaration, hform, hrule]),
        Visitor.alt_of_refused (by simp [shellCommand, hform]), Visitor.alt_of_result hkeep]
      have happlies : applies k.options st = false := by
        simpa [applies, hform] using hrule
      simp [rewritten, happlies]
  | shellCommand tag =>
    rw [Visitor.alt_of_refused (by simp [redeclaration, hform])]
    by_cases hrule : k.options.shellTag = some tag
    · have hresult : shellCommand k st r =
          (.result (.generated (.expression (.void (.paren (.await (.raw st.text)))))), r) := by
        simp [shellCommand, hform, hrule]
      rw [Visitor.alt_of_result hresult]
      simp [rewritten, applies, hform, hrule]
    · rw [Visitor.alt_of_refused (by simp [shellCommand, hform, hrule]),
        Visitor.alt_of_result hkeep]
      simp [rewritten, applies, hform, hrule]

end

/-- Rewriting a submission that loads nothing has no effect. -/
theorem submission_eq {k : RewriteContext} {s : Submission}
    (h : ∀ st ∈ s.statements, appliesToLoad k.options st = false) (r : Resolver) :
    submission k s r = (.result (s.statements.map (rewritten k.options)), r) :=
  Visitor.each_eq_map fun st hst => statement_eq (h st hst) r

/-- A statement that is rewritten has one letter v more. -/
theorem count_print_rewritten {o : RewriteOptions} {source : Text} {ts : List Token}
    {st : Statement} (h : Submission.StandsApart (Token.tokenize source) ts)
    (hread : Submission.readStatement source ts = .ok st) : (rewritten o st).print.count 'v' =
      st.text.count 'v' + if applies o st then 1 else 0 := by
  unfold rewritten
  split
  · next happlies =>
    unfold applies at happlies
    split at happlies
    · next kind body binding hform =>
      obtain ⟨word, us, k, -, -, -, -, htext, -⟩ := Submission.exists_of_declaration h hread hform
      have hkind : kind.spelling.count 'v' = 0 := by
        cases kind with
        | letKind | constKind => decide
        | varKind => simp at happlies
      have hvar : DeclarationKind.varKind.spelling.count 'v' = 1 := by decide
      simp only [hform, PrintableStatement.print, GeneratedStatement.print, htext,
        List.count_append, hkind, hvar]
      omega
    · next tag hform =>
      have hprint : (Expression.void (.paren (.await (.raw st.text)))).print =
          "void (await ".toList ++ st.text ++ ")".toList := by
        rw [List.append_assoc]
        rfl
      have hbefore : "void (await ".toList.count 'v' = 1 := by decide
      have hafter : ")".toList.count 'v' = 0 := by decide
      simp only [hform, PrintableStatement.print, GeneratedStatement.print, hprint,
        List.count_append, hbefore, hafter]
      omega
    · cases happlies
  · rfl

end Rewriting

namespace RewriteOptions

/-! ## What the search overlooks -/

/-- Whether a rule applies to a statement though the search may find nothing of it: its word goes on
in a character that identifiers do not know, or its tag is not next to its template. -/
def overlooks (o : RewriteOptions) (st : Statement) : Bool :=
  match st.form with
  | .declaration kind body _ =>
    o.redeclaration && kind != .varKind && body.head?.any CharClass.isWord
  | .shellCommand tag => o.shellTag == some tag && !(tag ++ "`".toList).isPrefixOf st.text
  | _ => false

section

variable {o : RewriteOptions} {source : Text} {ts : List Token} {st : Statement}

theorem hasWord_of_shouldSkip (h : o.shouldSkip source = true) :
    hasWord o.triggerWords none source = false := by
  rw [shouldSkip, Bool.and_eq_true] at h
  simpa [isTriggered] using h.1

theorem occursIn_of_shouldSkip (h : o.shouldSkip source = true) {tag : Text}
    (htag : o.shellTag = some tag) : Text.occursIn (tag ++ "`".toList) source = false := by
  rw [shouldSkip, Bool.and_eq_true, htag] at h
  simpa using h.2

variable (hskip : o.shouldSkip source = true)
  (h : Submission.StandsApart (Token.tokenize source) ts)
  (hread : Submission.readStatement source ts = .ok st)
include hskip h hread

/-- No rule on modules applies where the search finds no word. -/
theorem appliesToLoad_of_shouldSkip : Rewriting.appliesToLoad o st = false := by
  have hnone := hasWord_of_shouldSkip hskip
  unfold Rewriting.appliesToLoad
  split
  · next hform =>
    refine Bool.eq_false_iff.mpr fun hrule => ?_
    have hfound : hasWord o.triggerWords none source = true :=
      Submission.hasWord_of_importing h hread hform (by simp [triggerWords, hrule])
    simp [hnone] at hfound
  · next hform =>
    refine Bool.eq_false_iff.mpr fun hrule => ?_
    have hfound : hasWord o.triggerWords none source = true :=
      Submission.hasWord_of_binding h hread hform
        (by simp [triggerWords, Submission.loadingWord, hrule])
    simp [hnone] at hfound
  · next hform =>
    refine Bool.eq_false_iff.mpr fun hrule => ?_
    have hfound : hasWord o.triggerWords none source = true :=
      Submission.hasWord_of_binding h hread hform
        (by simp [triggerWords, Submission.loadingWord, hrule])
    simp [hnone] at hfound
  · rfl

/-- Where the search finds nothing, the other rules apply to the statements that it overlooks. -/
theorem applies_eq_overlooks : Rewriting.applies o st = o.overlooks st := by
  unfold Rewriting.applies overlooks
  split
  · next kind body binding hform =>
    have hbody : (o.redeclaration && kind != .varKind) = true →
        body.head?.any CharClass.isWord = true := by
      intro hrule
      by_contra hbody
      rw [Bool.not_eq_true] at hbody
      have hfound : ∀ w, w ∈ o.triggerWords → LexRule.areWords [w] = true →
          kind.spelling ≠ w.toList := fun w hw hlatin hspelling => by
        have := Submission.hasWord_of_declaration h hread hform hbody hw hlatin hspelling
        simp [hasWord_of_shouldSkip hskip] at this
      rw [Bool.and_eq_true] at hrule
      cases kind with
      | letKind =>
        have hletters := Submission.areWords_of_mem (w := "let") (by simp)
        exact hfound "let" (by simp [triggerWords, hrule]) hletters rfl
      | constKind =>
        have hletters := Submission.areWords_of_mem (w := "const") (by simp)
        exact hfound "const" (by simp [triggerWords, hrule]) hletters rfl
      | varKind => simp at hrule
    exact (Bool.and_eq_left_iff_imp.mpr hbody).symm
  · next tag hform =>
    have htext : (o.shellTag == some tag) = true →
        (!(tag ++ "`".toList).isPrefixOf st.text) = true := by
      intro hrule
      rw [Bool.not_eq_true', Bool.eq_false_iff]
      intro hprefix
      have hinfix := Submission.text_isInfix hread h.ne_nil
      have hoccurs := Text.occursIn_of_isInfix
        ((List.isPrefixOf_iff_prefix.mp hprefix).isInfix.trans hinfix)
      rw [occursIn_of_shouldSkip hskip (by simpa using hrule)] at hoccurs
      cases hoccurs
    exact (Bool.and_eq_left_iff_imp.mpr htext).symm
  · rfl

end

end RewriteOptions

/-! ## The shortcut -/

namespace Submission

/-- How often a character occurs in a woven text, if some of the texts have one more of it. -/
theorem count_zipWith_separators {x : Char} {f g : Statement → Text} {p : Statement → Bool} :
    ∀ {statements : List Statement} {separators : List Text},
      (∀ st ∈ statements, (f st).count x = (g st).count x + if p st then 1 else 0) →
      separators.length = statements.length + 1 →
      (List.zipWith (· ++ ·) separators (statements.map f ++ [[]])).flatten.count x =
        (List.zipWith (· ++ ·) separators (statements.map g ++ [[]])).flatten.count x +
          statements.countP p
  | [], separators, _, _ => by simp
  | st :: statements, [], _, h => by simp at h
  | st :: statements, separator :: separators, hcount, h => by
    have ih := count_zipWith_separators (fun u hu => hcount u (List.mem_cons_of_mem st hu))
      (show separators.length = statements.length + 1 by simpa using h)
    simp only [List.map_cons, List.cons_append, List.zipWith_cons_cons, List.flatten_cons,
      List.count_append, List.countP_cons, ih, hcount st List.mem_cons_self]
    omega

/-- If the statements are printed with one more of some character, but for those that are kept, then
the source comes out just if all are kept. -/
theorem print_map_eq_source_iff {s : Submission} {x : Char} {f : Statement → PrintableStatement}
    {p : Statement → Bool} (hkeeps : s.print (s.statements.map .kept) = .ok s.source)
    (hcount : ∀ st ∈ s.statements,
      (f st).print.count x = st.text.count x + if p st then 1 else 0)
    (hkept : ∀ st ∈ s.statements, p st = false → f st = .kept st) :
    s.print (s.statements.map f) = .ok s.source ↔ ∀ st ∈ s.statements, p st = false := by
  have hsource : (List.zipWith (· ++ ·) s.separators
      (s.statements.map Statement.text ++ [[]])).flatten = s.source := by
    rw [print_eq (by simp), List.map_map, Except.ok.injEq] at hkeeps
    exact hkeeps
  rw [print_eq (by simp), List.map_map, Except.ok.injEq]
  constructor
  · intro heq
    have hwoven := count_zipWith_separators (f := PrintableStatement.print ∘ f) hcount
      s.length_separators
    rw [heq, hsource] at hwoven
    have hnone : s.statements.countP p = 0 := by omega
    simpa using List.countP_eq_zero.mp hnone
  · intro hnone
    have hmap : s.statements.map (PrintableStatement.print ∘ f) =
        s.statements.map Statement.text :=
      List.map_congr_left fun st hst => by
        rw [Function.comp, hkept st hst (hnone st hst), PrintableStatement.print]
    rw [hmap, hsource]

end Submission

namespace Transpiler

/-- Where the shortcut is taken, reading and rewriting the text would change nothing in the
transpiler, and it would give the text back just if no statement of it is overlooked. -/
theorem rewriteSubmission_of_shouldSkip {t : Transpiler} {source : Text} {s : Submission}
    (hskip : t.options.shouldSkip source = true) (hread : Submission.read source = .ok s)
    (lookup : LocalLookup) (keys : Option (List Text)) :
    t.transpileStripped lookup source keys = (.ok source, t) ∧
      ∃ text, t.rewriteSubmission lookup keys s = (.ok text, t) ∧
        (text = source ↔ ∀ st ∈ s.statements, t.options.overlooks st = false) := by
  refine ⟨by rw [transpileStripped, hskip, Bool.or_true, if_pos rfl], ?_⟩
  obtain ⟨rfl, groups, -, hlossless⟩ := Submission.lossless_of_read hread
  have hstatements : ∀ st ∈ s.statements, Rewriting.appliesToLoad t.options st = false ∧
      Rewriting.applies t.options st = t.options.overlooks st ∧
      (Rewriting.rewritten t.options st).print.count 'v' =
        st.text.count 'v' + if Rewriting.applies t.options st then 1 else 0 := by
    intro st hst
    obtain ⟨ts, hapart, hstatement⟩ := Submission.exists_of_mem_statements hread hst
    exact ⟨RewriteOptions.appliesToLoad_of_shouldSkip hskip hapart hstatement,
      RewriteOptions.applies_eq_overlooks hskip hapart hstatement,
      Rewriting.count_print_rewritten hapart hstatement⟩
  obtain ⟨text, hprint⟩ : ∃ text,
      s.print (s.statements.map (Rewriting.rewritten t.options)) = .ok text :=
    ⟨_, Submission.print_eq (by simp)⟩
  refine ⟨text, ?_, ?_⟩
  · have hvisit := Rewriting.submission_eq (k := ⟨t.options, lookup, keys⟩)
      (fun st hst => (hstatements st hst).1) t.resolver
    simp only [rewriteSubmission, hvisit, hprint]
  · have hiff := Submission.print_map_eq_source_iff hlossless.print_kept
      (fun st hst => (hstatements st hst).2.2) (f := Rewriting.rewritten t.options) ?_
    · rw [hprint, Except.ok.injEq] at hiff
      rw [hiff]
      refine forall₂_congr fun st hst => ?_
      rw [(hstatements st hst).2.1]
    · intro st hst happlies
      rw [Rewriting.rewritten, happlies]
      rfl

/-- A shell command with a gap after its tag is overlooked. -/
theorem rewriteSubmission_of_gap : ∃ s, Submission.read "$ `ls`".toList = .ok s ∧
    RewriteOptions.default.shouldSkip "$ `ls`".toList = true ∧
    ∃ text, (fresh .default none none).rewriteSubmission (fun _ => .ok false) none s =
      (.ok text, fresh .default none none) ∧ text ≠ "$ `ls`".toList := by
  have hread : (Submission.read "$ `ls`".toList).toOption = some ⟨"$ `ls`".toList,
      [⟨⟨0, 6⟩, "$ `ls`".toList, .shellCommand "$".toList⟩]⟩ := by
    decide +kernel
  have hskip : RewriteOptions.default.shouldSkip "$ `ls`".toList = true := by decide +kernel
  obtain ⟨-, text, htext, hiff⟩ := rewriteSubmission_of_shouldSkip
    (t := fresh .default none none) hskip (eq_ok_of_toOption hread)
    (fun _ => .ok false) none
  refine ⟨_, eq_ok_of_toOption hread, hskip, text, htext, fun heq => ?_⟩
  have hnone := hiff.mp heq _ List.mem_cons_self
  have hoverlooks : RewriteOptions.default.overlooks
      ⟨⟨0, 6⟩, "$ `ls`".toList, .shellCommand "$".toList⟩ = true := by decide
  exact absurd (hoverlooks.symm.trans hnone) (by decide)

end Transpiler

end ReplCore
