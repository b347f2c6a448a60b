import ReplCore.Proofs.Rewriting.Effects
import ReplCore.Proofs.Rewriting.Switches
import ReplCore.Proofs.Submission.Lossless

/-!
# Redeclaration

Whatever follows the word `let`, `const` or `var` at the start of a statement, the statement is read
as a declaration of that kind. It becomes a declaration of its target if a rule on modules applies,
and the rule on redeclaration is there for the rest, so with that rule no `let` or `const` is left.

* `form_of_keyword`: what starts with the word of a declaration is a declaration.
* `becomes_of_declaration`: what becomes of a declaration.
* `redeclared_of_read`: redeclaration in a submission.
-/

namespace ReplCore

/-- The keyword that starts a declaration. -/
def DeclarationKind.keyword : DeclarationKind → Keyword
  | letKind => .letWord
  | constKind => .constWord
  | varKind => .varWord

theorem DeclarationKind.keyword_injective : Function.Injective keyword := by
  intro kind kind' h
  cases kind <;> cases kind' <;> first | rfl | cases h

namespace Submission

variable {source : Text} {ts rest : List Token} {word : Token} {st : Statement}
  {kind : DeclarationKind} {body : Text} {binding : Option ModuleBinding}

/-! ## Words that start a declaration -/

theorem declarationWord_eq_some_iff : declarationWord ts = some ((kind, word), rest) ↔
    ts = word :: rest ∧ word.kind = .keyword kind.keyword := by
  constructor
  · intro h
    unfold declarationWord at h
    split at h
    · cases h
    · split at h
      · next hkind =>
        cases h
        exact ⟨rfl, hkind⟩
      · next hkind =>
        cases h
        exact ⟨rfl, hkind⟩
      · next hkind =>
        cases h
        exact ⟨rfl, hkind⟩
      · cases h
  · rintro ⟨rfl, hkind⟩
    cases kind <;> simp only [declarationWord, hkind, DeclarationKind.keyword]

/-- A declaration starts with the word of its kind and has all that follows it as its body. -/
theorem word_of_declaration (h : declaration source ts = some st) :
    ∃ kind word rest last binding, ts = word :: rest ∧ word.kind = .keyword kind.keyword ∧
      ts.getLast? = some last ∧ st.text = textOf source word last ∧
      st.form = .declaration kind (Text.slice source word.stop last.stop) binding := by
  obtain ⟨⟨⟨kind, word⟩, rest⟩, hword, hrest⟩ := Option.bind_eq_some_iff.mp h
  obtain ⟨rfl, hkeyword⟩ := declarationWord_eq_some_iff.mp hword
  obtain ⟨kind', word', k, us, last, binding, hts, hkind, hspelling, hlast, -, rfl⟩ :=
    declaration_eq_some h
  obtain ⟨rfl, rfl⟩ := List.cons.inj hts
  obtain rfl : kind' = kind := by
    obtain rfl := TokenKind.keyword.inj (hkind.symm.trans hkeyword)
    have hsame : kind.keyword.spelling = kind'.spelling → kind' = kind := by
      cases kind <;> cases kind' <;> decide
    exact hsame hspelling
  exact ⟨kind', word, rest, last, binding, rfl, hkeyword, hlast, rfl, rfl⟩

theorem exists_declaration_eq (h : word.kind = .keyword kind.keyword) :
    ∃ st, declaration source (word :: rest) = some st := by
  have hword : declarationWord (word :: rest) = some ((kind, word), rest) :=
    declarationWord_eq_some_iff.mpr ⟨rfl, h⟩
  unfold declaration
  simp only [hword, Option.bind_eq_bind, Option.bind_some]
  split <;> exact ⟨_, rfl⟩

/-- Whatever follows it, the word of a declaration at the start makes the statement one. -/
theorem form_of_keyword (hread : readStatement source (word :: rest) = .ok st)
    (h : word.kind = .keyword kind.keyword) :
    ∃ last binding, (word :: rest).getLast? = some last ∧ st.text = textOf source word last ∧
      st.form = .declaration kind (Text.slice source word.stop last.stop) binding := by
  obtain ⟨st', hdeclaration⟩ : ∃ st', declaration source (word :: rest) = some st' :=
    exists_declaration_eq h
  have himport : importStatement source (word :: rest) = none := by
    have hne : word.kind ≠ .keyword .importWord := by
      rw [h]
      cases kind <;> decide
    simp [importStatement, takeKeyword, takeKind, take, hne]
  have hst : readStatement source (word :: rest) = .ok st' := by
    simp only [readStatement, himport, hdeclaration, Option.none_or]
  obtain rfl := Except.ok.inj (hst.symm.trans hread)
  obtain ⟨kind', word', rest', last, binding, hts, hkeyword, hlast, htext, hform⟩ :=
    word_of_declaration hdeclaration
  obtain ⟨rfl, rfl⟩ := List.cons.inj hts
  obtain rfl := DeclarationKind.keyword_injective (TokenKind.keyword.inj (hkeyword.symm.trans h))
  exact ⟨last, binding, hlast, htext, hform⟩

/-- A statement that was read as a declaration starts with the word of its kind. -/
theorem keyword_of_form (hread : readStatement source ts = .ok st)
    (hform : st.form = .declaration kind body binding) :
    ∃ word rest, ts = word :: rest ∧ word.kind = .keyword kind.keyword := by
  have hdeclaration := readStatement_form hread
  rw [hform] at hdeclaration
  obtain ⟨kind', word, rest, last, binding', hts, hkeyword, -, -, hform'⟩ :=
    word_of_declaration hdeclaration
  obtain ⟨rfl, -⟩ := StatementForm.declaration.inj (hform'.symm.trans hform)
  exact ⟨word, rest, hts, hkeyword⟩

end Submission

namespace Rewriting

open Expression Resolver Submission

variable {k : RewriteContext} {r r₁ r₂ : Resolver} {st : Statement} {p : PrintableStatement}
  {kind : DeclarationKind} {body target : Text} {binding : Option ModuleBinding} {load : ModuleLoad}

/-! ## What becomes of a declaration -/

/-- The literal of a load that may be used again. -/
def literal? : ModuleLoad → Option Text
  | .require .. => none
  | .dynamicImport _ _ literal _ _ _ => some literal

/-- The text after the module in the call of `import`. -/
def importOptions : ModuleLoad → Text
  | .require .. => []
  | .dynamicImport _ _ _ _ options _ => options

/-- What is bound to the target in place of a load, given where the module comes from. -/
def initializer : ModuleLoad → Source → Expression
  | .require .., source => settle source (some unwrapCallback)
  | .dynamicImport _ _ _ lead _ tail, source => .spliced [raw lead, asPromise source, raw tail]

theorem loadPlan?_of_declaration {o : RewriteOptions}
    (hform : st.form = .declaration kind body (some ⟨target, load⟩))
    (happlies : appliesToLoad o st = true) :
    loadPlan? o st = some ⟨load.specifier, literal? load, importOptions load, fun source =>
      .declaration (declarationWord o kind) target (initializer load source)⟩ := by
  cases load <;>
  · simp only [appliesToLoad, hform] at happlies
    simp only [loadPlan?, hform, happlies, if_true]
    rfl

theorem rewritten_of_declaration {o : RewriteOptions}
    (hform : st.form = .declaration kind body binding) :
    rewritten o st = if o.redeclaration && kind != .varKind then
      .generated (.raw (DeclarationKind.varKind.spelling ++ body)) else .kept st := by
  simp only [rewritten, applies, hform]

/-- The module of a load comes from where its specifier leads to at some moment of a submission. -/
def LoadsFrom (k : RewriteContext) (r : Resolver) (load : ModuleLoad) (source : Source) : Prop :=
  ∃ r₁ r₂, Steps r r₁ ∧
    Rewriting.load k r₁ load.specifier (literal? load) (importOptions load) = .ok (source, r₂)

/-- A declaration is bound anew if a rule on modules applies, and else it is redeclared or kept. -/
theorem becomes_of_declaration (hform : st.form = .declaration kind body binding)
    (hsteps : Steps r r₁) (hst : statement k st r₁ = (.result p, r₂)) :
    (appliesToLoad k.options st = true ∧ ∃ target load source, binding = some ⟨target, load⟩ ∧
      LoadsFrom k r load source ∧ p = .generated
        (.declaration (declarationWord k.options kind) target (initializer load source))) ∨
    appliesToLoad k.options st = false ∧
      p = if k.options.redeclaration && kind != .varKind then
        .generated (.raw (DeclarationKind.varKind.spelling ++ body)) else .kept st := by
  cases happlies : appliesToLoad k.options st with
  | false =>
    have hresult := (statement_eq happlies r₁).symm.trans hst
    rw [rewritten_of_declaration hform] at hresult
    exact .inr ⟨rfl, (Outcome.result.inj (Prod.mk.inj hresult).1).symm⟩
  | true =>
    rcases binding with - | ⟨target, load⟩
    · simp [appliesToLoad, hform] at happlies
    rw [statement_of_loadPlan? (loadPlan?_of_declaration hform happlies)] at hst
    unfold loading at hst
    split at hst
    · next source r' hload =>
      obtain ⟨hp, -⟩ := Prod.mk.inj hst
      exact .inl ⟨rfl, target, load, source, rfl, ⟨r₁, r', hsteps, hload⟩,
        (Outcome.result.inj hp).symm⟩
    · cases hst

/-- What is kept is the statement itself. -/
theorem eq_of_kept {st' : Statement} (hst : statement k st r₁ = (.result (.kept st'), r₂)) :
    st' = st := by
  cases happlies : appliesToLoad k.options st with
  | false =>
    have hresult := (statement_eq happlies r₁).symm.trans hst
    have hkept := Outcome.result.inj (Prod.mk.inj hresult).1
    unfold rewritten at hkept
    split at hkept
    · split at hkept <;> cases hkept
    · exact (PrintableStatement.kept.inj hkept).symm
  | true =>
    rw [← isSome_loadPlan?] at happlies
    obtain ⟨plan, hplan⟩ := Option.isSome_iff_exists.mp happlies
    rw [statement_of_loadPlan? hplan] at hst
    unfold loading at hst
    split at hst <;> cases hst

theorem redeclaration_refused (hkind : ∀ kind body binding,
    st.form = .declaration kind body binding → kind = .varKind) (r : Resolver) :
    redeclaration k st r = (.refused, r) := by
  unfold redeclaration
  split
  · next kind body binding hform =>
    rw [if_neg]
    exact fun h => h.2 (hkind kind body binding hform)
  · rfl

/-! ## Redeclaration in a submission -/

/-- What redeclaration does to a statement that was read from `ts` and becomes `p`. -/
structure Redeclared (source : Text) (k : RewriteContext) (r : Resolver) (ts : List Token)
    (st : Statement) (p : PrintableStatement) : Prop where
  /-- With the switch on, `let` and `const` become `var`, before the target and the initializer if a
  rule on modules applies and else before the rest of the statement. -/
  becomesVar : k.options.redeclaration = true → ∀ (kind : DeclarationKind) word rest,
    ts = word :: rest → word.kind = .keyword kind.keyword → kind ≠ .varKind →
      ∃ g last, p = .generated g ∧ ts.getLast? = some last ∧
        ((appliesToLoad k.options st = true ∧ ∃ body target load source,
          st.form = .declaration kind body (some ⟨target, load⟩) ∧ LoadsFrom k r load source ∧
          g.print = "var ".toList ++ target ++ " = ".toList ++ (initializer load source).print) ∨
        appliesToLoad k.options st = false ∧
          g.print = "var".toList ++ Text.slice source word.stop last.stop)
  /-- With the switch on, no declaration of another kind is left. -/
  leavesVar : k.options.redeclaration = true → ∀ st' kind body binding, p = .kept st' →
    st'.form = .declaration kind body binding → kind = .varKind
  /-- A statement that starts with another token is not for this rule, and becomes the same whether
  the switch is on or off. -/
  untouched : (∀ (kind : DeclarationKind) word rest, ts = word :: rest →
      word.kind = .keyword kind.keyword → kind = .varKind) →
    (∀ r₁, redeclaration k st r₁ = (.refused, r₁)) ∧
    ∀ on r₁, statement { k with options := { k.options with redeclaration := on } } st r₁ =
      statement k st r₁
  /-- With the switch off, a declaration keeps its kind, and its text if no rule on modules
  applies. -/
  keepsKind : k.options.redeclaration = false → ∀ (kind : DeclarationKind) word rest,
    ts = word :: rest → word.kind = .keyword kind.keyword → ∃ last, ts.getLast? = some last ∧
      ((appliesToLoad k.options st = true ∧ ∃ body target load source,
        st.form = .declaration kind body (some ⟨target, load⟩) ∧ LoadsFrom k r load source ∧
        p.print = kind.spelling ++ " ".toList ++ target ++ " = ".toList ++
          (initializer load source).print) ∨
      appliesToLoad k.options st = false ∧ p = .kept st ∧ p.print = textOf source word last)

theorem redeclared_of_statement {source : Text} {ts : List Token}
    (hread : readStatement source ts = .ok st) (hsteps : Steps r r₁)
    (hst : statement k st r₁ = (.result p, r₂)) : Redeclared source k r ts st p where
  becomesVar := by
    rintro hon kind word rest rfl hkeyword hkind
    obtain ⟨last, binding, hlast, -, hform⟩ := form_of_keyword hread hkeyword
    rcases becomes_of_declaration hform hsteps hst with
      ⟨happlies, target, load, src, rfl, hload, rfl⟩ | ⟨happlies, rfl⟩
    · refine ⟨_, last, rfl, hlast, .inl ⟨happlies, _, target, load, src, hform, hload, ?_⟩⟩
      rw [declarationWord, if_pos hon]
      rfl
    · have hrule : (k.options.redeclaration && kind != .varKind) = true := by simp [hon, hkind]
      rw [if_pos hrule]
      exact ⟨_, last, rfl, hlast, .inr ⟨happlies, rfl⟩⟩
  leavesVar := by
    rintro hon st' kind body binding rfl hform
    obtain rfl := eq_of_kept hst
    rcases becomes_of_declaration hform hsteps hst with ⟨-, _, _, _, -, -, heq⟩ | ⟨-, heq⟩
    · cases heq
    · split at heq
      · cases heq
      · next hrule =>
        by_contra hkind
        exact hrule (by simp [hon, hkind])
  untouched := by
    intro hvar
    have hkind : ∀ kind body binding, st.form = .declaration kind body binding →
        kind = .varKind := by
      intro kind body binding hform
      obtain ⟨word, rest, hts, hkeyword⟩ := keyword_of_form hread hform
      exact hvar kind word rest hts hkeyword
    have hfree : Switch.redeclaration.governs st.form = false := by
      cases hform : st.form with
      | declaration kind body binding =>
        obtain rfl := hkind kind body binding hform
        rcases binding with - | ⟨target, _ | _⟩ <;> rfl
      | importing | shellCommand | plain => rfl
    refine ⟨redeclaration_refused hkind, fun on r₁ => ?_⟩
    exact statement_eq_of_agreeExcept (w := .redeclaration) (by constructor <;> simp) hfree _ _ r₁
  keepsKind := by
    rintro hoff kind word rest rfl hkeyword
    obtain ⟨last, binding, hlast, htext, hform⟩ := form_of_keyword hread hkeyword
    refine ⟨last, hlast, ?_⟩
    rcases becomes_of_declaration hform hsteps hst with
      ⟨happlies, target, load, src, rfl, hload, rfl⟩ | ⟨happlies, rfl⟩
    · refine .inl ⟨happlies, _, target, load, src, hform, hload, ?_⟩
      rw [declarationWord, if_neg (by simp [hoff])]
      rfl
    · have hrule : (k.options.redeclaration && kind != .varKind) = false := by simp [hoff]
      rw [hrule]
      exact .inr ⟨happlies, rfl, htext⟩

/-- Whatever the options, the resolver and the namespace, every statement of a submission is
redeclared as its first token asks for. -/
theorem redeclared_of_read {source : Text} {s : Submission}
    (hread : Submission.read source = .ok s) (k : RewriteContext) {r : Resolver} {base : Text}
    (hbase : r.cdnBase = some base) :
    ∃ groups ps r', splitStatements (Token.tokenize source) = .ok groups ∧
      submission k s r = (.result ps, r') ∧ groups.length = s.statements.length ∧
      ps.length = s.statements.length ∧
      ∀ (i : Nat) (ts : List Token) (st : Statement) (p : PrintableStatement),
        groups[i]? = some ts → s.statements[i]? = some st → ps[i]? = some p →
          Redeclared source k r ts st p := by
  obtain ⟨-, groups, hgroups, hstatements⟩ := exists_of_read hread
  obtain ⟨ps, r', hsubmission, hps, -⟩ := forall₂_submission hbase k s
  refine ⟨groups, ps, r', hgroups, hsubmission, hstatements.length_eq, hps.length_eq.symm, ?_⟩
  intro i ts st p hts hst hp
  obtain ⟨-, hread⟩ := rel_of_forall₂ hstatements hts hst
  obtain ⟨r₁, r₂, hsteps, hstatement⟩ := rel_of_forall₂ hps hst hp
  exact redeclared_of_statement hread hsteps hstatement

/-- Names that are declared with a value and names without one. -/
theorem redeclared_of_read_let : ∃ s ps r' g,
    Submission.read "let a = 1; var b".toList = .ok s ∧
    submission ⟨.default, fun _ => .ok false, none⟩ s (.fresh (some "cdn".toList)) =
      (.result ps, r') ∧
    ps[0]? = some (.generated g) ∧ g.print = "var a = 1".toList := by
  let source := "let a = 1; var b".toList
  let word : Token := ⟨.keyword .letWord, "let".toList, 0, 3⟩
  let rest : List Token := [⟨.name, "a".toList, 4, 5⟩, ⟨.symbol "=".toList, "=".toList, 6, 7⟩,
    ⟨.number, "1".toList, 8, 9⟩]
  let st : Statement := ⟨⟨0, 9⟩, source.take 9, .declaration .letKind " a = 1".toList none⟩
  let s : Submission :=
    ⟨source, [st, ⟨⟨11, 16⟩, source.drop 11, .declaration .varKind " b".toList none⟩]⟩
  have hread : (Submission.read source).toOption = some s := by decide +kernel
  have hsplit : ((splitStatements (Token.tokenize source)).toOption.map (·[0]?)) =
      some (some (word :: rest)) := by
    decide +kernel
  obtain ⟨groups, ps, r', hgroups, hsubmission, -, hlength, hall⟩ :=
    redeclared_of_read (eq_ok_of_toOption hread) ⟨.default, fun _ => .ok false, none⟩
      (r := .fresh (some "cdn".toList)) rfl
  rw [hgroups] at hsplit
  obtain ⟨p, q, rfl⟩ := List.length_eq_two.mp hlength
  have hfirst := hall 0 (word :: rest) st p (Option.some.inj hsplit) rfl rfl
  obtain ⟨g, last, rfl, hlast, hprint⟩ :=
    hfirst.becomesVar rfl .letKind word rest rfl rfl (by decide)
  obtain rfl := Option.some.inj hlast
  rcases hprint with ⟨happlies, -⟩ | ⟨-, hprint⟩
  · cases happlies
  · exact ⟨s, _, r', g, eq_ok_of_toOption hread, hsubmission, rfl, hprint.trans (by decide +kernel)⟩

end Rewriting

end ReplCore
