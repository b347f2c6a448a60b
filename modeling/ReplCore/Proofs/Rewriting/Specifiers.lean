import ReplCore.Proofs.Rewriting.Fetched
import ReplCore.Proofs.Rewriting.Loading
import ReplCore.Proofs.Text.Literals

/-!
# Specifiers in generated code

A static import and a call of `require` name their module with a string literal. If the module is not
redirected, the generated statement imports it by a new literal, for the text that is left of the old
one without its quotes and backslashes. The two literals denote the same string just if every escape
in the old one stands for the character that it escapes; any other escape names another module.

* `specifier?_of_moduleToken?`: the specifier of a statement, by its tokens.
* `value?_printed_iff`: what the literal in the generated statement denotes.
-/

namespace ReplCore

/-- The string that a static import or a call of `require` names its module with: the last token of
an import, and the last but one of a declaration. -/
def StatementForm.moduleToken? (form : StatementForm) (ts : List Token) : Option Token :=
  match form with
  | .importing .. => ts.getLast?
  | .declaration _ _ (some ⟨_, .require ..⟩) => ts.dropLast.getLast?
  | _ => none

namespace Submission

variable {source : Text} {ts : List Token} {st : Statement} {module : Token}

theorem exists_module_of_declaration {kind : DeclarationKind} {body target specifier : Text}
    {span : Span} (h : declaration source ts = some st)
    (hform : st.form = .declaration kind body (some ⟨target, .require span specifier⟩)) :
    ∃ before module close, ts = before ++ [module, close] ∧ specifier = module.stringValue := by
  obtain ⟨word, bound, ends, equals, call, rfl, -, -, hload⟩ :=
    declaration_eq_some_of_load h hform
  rcases hload with hload | hload
  · obtain ⟨a, callee, paren, module, close, _, rfl, -, -, -, -, heq⟩ := requireCall_eq_some hload
    refine ⟨word :: (bound ++ equals :: (a ++ [callee, paren])), module, close, by simp, ?_⟩
    exact (ModuleLoad.require.inj heq).2
  · obtain ⟨_, _, _, _, _, _, _, _, _, _, _, _, -, -, -, -, -, -, -, heq⟩ :=
      dynamicImport_eq_some hload
    cases heq

/-- The specifier of a static import or a call of `require` is the value of its string. -/
theorem specifier?_of_moduleToken? (hread : readStatement source ts = .ok st)
    (hmodule : st.form.moduleToken? ts = some module) :
    st.form.specifier? = some module.stringValue := by
  have hform := readStatement_form hread
  unfold StatementForm.moduleToken? at hmodule
  split at hmodule
  · next x clause heq =>
    rw [heq] at hform
    obtain ⟨word, t, us, module', clause', -, -, -, hlast, rfl⟩ := importStatement_eq_some hform
    obtain rfl := Option.some.inj (hlast.symm.trans hmodule)
    rfl
  · next kind body target span x heq =>
    rw [heq] at hform
    obtain ⟨before, module', close, rfl, rfl⟩ := exists_module_of_declaration hform heq
    have hlast : (before ++ [module', close]).dropLast.getLast? = some module' := by
      rw [List.dropLast_append_of_ne_nil (by simp)]
      simp
    obtain rfl := Option.some.inj (hlast.symm.trans hmodule)
    rw [heq]
    rfl
  · cases hmodule

end Submission

namespace Rewriting

open Expression Submission

variable {k : RewriteContext} {r : Resolver} {x : Text} {st : Statement}

/-! ## The place of the import -/

/-- The text of a statement has that of the promise in it that it is built from. -/
def PrintsAround (build : Source → GeneratedStatement) : Prop :=
  ∃ lead tail, ∀ e, (build (.promise e)).print = lead ++ e.print ++ tail

theorem print_settle (f : Option Expression) :
    ∃ lead tail, ∀ e, (settle (.promise e) f).print = lead ++ e.print ++ tail := by
  cases f with
  | none =>
    have hprint : ∀ e, (Expression.await e).print = "await ".toList ++ e.print := fun _ => rfl
    exact ⟨"await ".toList, [], fun e => by rw [settle, hprint, List.append_nil]⟩
  | some f =>
    have hprint : ∀ e, (Expression.await (andThen e f)).print = "await ".toList ++
        (e.print ++ ".".toList ++ "then".toList ++ "(".toList ++ f.print ++ ")".toList) :=
      fun _ => rfl
    refine ⟨"await ".toList, ".".toList ++ "then".toList ++ "(".toList ++ f.print ++ ")".toList,
      fun e => ?_⟩
    rw [settle, hprint]
    simp only [List.append_assoc]

theorem printsAround_declaration (kind target : Text) (f : Option Expression) :
    PrintsAround fun source => .declaration kind target (settle source f) := by
  obtain ⟨lead, tail, h⟩ := print_settle f
  refine ⟨kind ++ " ".toList ++ target ++ " = ".toList ++ lead, tail, fun e => ?_⟩
  rw [GeneratedStatement.print, h]
  simp only [List.append_assoc]

theorem printsAround_importing (clause : ImportClause) : PrintsAround (importing clause) := by
  cases clause with
  | nothing => exact print_settle none
  | default name => exact printsAround_declaration _ _ _
  | bindings b => cases b <;> exact printsAround_declaration _ _ _
  | both name b => cases b <;> exact printsAround_declaration _ _ _

/-- How a static import or a call of `require` loads its module: without a literal to use again, and
with nothing but the module in the call of `import`. -/
theorem plan_of_moduleToken? {source : Text} {ts : List Token} {module : Token}
    (hread : readStatement source ts = .ok st) (hmodule : st.form.moduleToken? ts = some module)
    (happlies : appliesToLoad k.options st = true) :
    ∃ build, loadPlan? k.options st = some ⟨module.stringValue, none, [], build⟩ ∧
      PrintsAround build := by
  have hspecifier := specifier?_of_moduleToken? hread hmodule
  cases hform : st.form with
  | importing specifier clause =>
    rw [hform] at hspecifier
    obtain rfl : specifier = module.stringValue := Option.some.inj hspecifier
    simp only [appliesToLoad, hform] at happlies
    exact ⟨importing clause, by simp only [loadPlan?, hform, happlies, if_true],
      printsAround_importing clause⟩
  | declaration kind body binding =>
    rw [hform] at hspecifier
    rcases binding with - | ⟨target, load⟩
    · cases hspecifier
    cases load with
    | require span specifier =>
      obtain rfl : specifier = module.stringValue := Option.some.inj hspecifier
      simp only [appliesToLoad, hform] at happlies
      exact ⟨fun source => .declaration (declarationWord k.options kind) target
        (settle source (some unwrapCallback)), by simp only [loadPlan?, hform, happlies, if_true],
        printsAround_declaration _ _ _⟩
    | dynamicImport span specifier literal lead options tail =>
      rw [hform] at hmodule
      cases hmodule
  | shellCommand tag =>
    rw [hform] at hmodule
    cases hmodule
  | plain =>
    rw [hform] at hmodule
    cases hmodule

/-! ## What the literals denote -/

/-- A static import or a call of `require` whose module is not redirected becomes a statement that
imports the module by one string literal. It denotes the value of the string token, which is what the
literal in the source denotes just if every escape there stands for the character that it escapes. -/
theorem value?_printed_iff {source : Text} {ts : List Token} {module : Token} {us : List Nat}
    (hread : readStatement source ts = .ok st) (hmodule : st.form.moduleToken? ts = some module)
    (happlies : appliesToLoad k.options st = true)
    (hremote : r.isRemote module.stringValue = false)
    (hkept : Resolver.isFixed module.stringValue = true ∨
      k.lookup.finds module.stringValue = true)
    (hdenotes : Literal.value? module.text = some us) :
    ∃ g lead literal tail, statement k st r = (.result (.generated g), r) ∧
      g.print = lead ++ ("import(".toList ++ literal ++ ")".toList) ++ tail ∧
      Literal.value? literal = some (Literal.unitsOf module.stringValue) ∧
      (Literal.value? literal = some us ↔
        Literal.isPlain (module.text.drop 1).dropLast = true) := by
  obtain ⟨build, hplan, lead, tail, hprint⟩ := plan_of_moduleToken? hread hmodule happlies
  have hload := load_of_kept hremote hkept none []
  have hvalue := Literal.value?_json module.stringValue
  have hstatement : statement k st r = (.result (.generated
      (build (.promise (.importCall (.string module.stringValue) [])))), r) := by
    rw [statement_of_loadPlan? hplan, loading, hload]
    rfl
  have himport : (Expression.importCall (.string module.stringValue) []).print =
      "import(".toList ++ Quoted.json module.stringValue ++ [] ++ ")".toList := rfl
  refine ⟨_, lead, Quoted.json module.stringValue, tail, hstatement, ?_, hvalue, ?_⟩
  · rw [hprint, himport, List.append_nil]
  · rw [hvalue, Option.some.injEq, eq_comm, ← Literal.value?_eq_iff hdenotes]
    rfl

/-- The module string with the number of a letter in it: the escape is lost with its backslash, and
another module is imported. -/
theorem value?_printed_ne_hexadecimal :
    let source := "import './a\\x62.js'".toList
    let literal := "'./a\\x62.js'".toList
    let ts : List Token := [⟨.keyword .importWord, "import".toList, 0, 6⟩, ⟨.string, literal, 7, 19⟩]
    splitStatements (Token.tokenize source) = .ok [ts] ∧
    ∃ st g lead printed tail, readStatement source ts = .ok st ∧
      statement ⟨.default, fun _ => .ok false, none⟩ st (.fresh none) =
        (.result (.generated g), .fresh none) ∧
      g.print = lead ++ ("import(".toList ++ printed ++ ")".toList) ++ tail ∧
      Literal.value? literal = some (Literal.unitsOf "./ab.js".toList) ∧
      Literal.value? printed = some (Literal.unitsOf "./ax62.js".toList) ∧
      Literal.value? printed ≠ Literal.value? literal := by
  intro source literal ts
  let st : Statement := ⟨⟨0, 19⟩, source, .importing "./ax62.js".toList .nothing⟩
  let module : Token := ⟨.string, literal, 7, 19⟩
  have hsplit : (splitStatements (Token.tokenize source)).toOption = some [ts] := by decide +kernel
  have hread : (readStatement source ts).toOption = some st := by decide +kernel
  have hvalue : module.stringValue = "./ax62.js".toList := by decide +kernel
  have hdenotes : Literal.value? module.text = some (Literal.unitsOf "./ab.js".toList) := by
    decide +kernel
  have hplain : Literal.isPlain (module.text.drop 1).dropLast = false := by decide +kernel
  have hmodule : st.form.moduleToken? ts = some module := rfl
  have hremote : (Resolver.fresh none).isRemote module.stringValue = false := rfl
  have hfixed : Resolver.isFixed module.stringValue = true := by decide +kernel
  obtain ⟨g, lead, printed, tail, hstatement, hprint, hprinted, hiff⟩ :=
    value?_printed_iff (k := ⟨.default, fun _ => .ok false, none⟩) (eq_ok_of_toOption hread)
      hmodule rfl hremote (.inl hfixed) hdenotes
  refine ⟨eq_ok_of_toOption hsplit, st, g, lead, printed, tail, eq_ok_of_toOption hread, hstatement,
    hprint, hdenotes, by rw [hprinted, hvalue], fun heq => ?_⟩
  have hplain' := hiff.mp (heq.trans hdenotes)
  rw [hplain] at hplain'
  cases hplain'

end Rewriting

end ReplCore
