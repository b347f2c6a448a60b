import ReplCore.Proofs.Rewriting.Redeclared
import ReplCore.Proofs.Submission.DynamicImports
import ReplCore.Proofs.Submission.Extents
import ReplCore.Proofs.Submission.Targets

/-!
# Dynamic imports that are not redirected

A declaration that imports a module which is not redirected is put together again from pieces of its
source: the target, the initializer up to the word `import`, and the initializer from the module
string on. Between these pieces the source has the word of the declaration, the equals sign, the
parenthesis, and nothing else but white space and comments.

* `extent_throughWord`, `extent_fromModule`: the slices that were cut out are such pieces.
* `keepsCode_of_dynamicImport`: what is printed, and what the source has in place of it.
-/

namespace ReplCore

open Submission

namespace ImportCall

/-- The tokens of the call up to the word `import`. -/
def throughWord (c : ImportCall) : List Token := c.awaited ++ [c.word]

/-- The tokens of the call, and those after it, from the module string on. -/
def fromModule (c : ImportCall) : List Token := c.module :: (c.inner ++ c.close :: c.tail)

theorem tokens_eq (c : ImportCall) : c.tokens = c.throughWord ++ ([c.paren] ++ c.fromModule) := by
  simp [tokens, throughWord, fromModule]

variable {source : Text} {c : ImportCall}

/-- The text before the word, with the word. -/
theorem extent_throughWord (h : IsRun source c.throughWord) : extent source c.throughWord =
    Text.slice source (c.awaited.head?.getD c.word).start c.word.start ++ "import".toList := by
  have hword : Text.slice source c.word.start c.word.stop = "import".toList := by
    rw [h.slice_eq (by simp [throughWord]),
      text_of_keyword (h.mem_tokenize (by simp [throughWord])) c.word_kind]
    rfl
  have hlast : c.throughWord.getLast? = some c.word := List.getLast?_concat
  have hfirst : c.throughWord.head? = some (c.awaited.head?.getD c.word) := by
    rw [throughWord, List.head?_append]
    cases c.awaited <;> rfl
  have hle : (c.awaited.head?.getD c.word).start ≤ c.word.start := by
    rcases c.awaited_eq with hnil | ⟨t, hone, -⟩
    · rw [hnil]
      exact Nat.le_refl _
    · rw [throughWord, hone] at h
      have hpairwise := (List.pairwise_cons.mp h.pairwise).1 c.word (by simp)
      have hawaited := h.start_le_stop (t := t) (by simp)
      rw [hone]
      exact Nat.le_trans hawaited hpairwise
  have hword' := h.start_le_stop (t := c.word) (by simp [throughWord])
  rw [extent_of_ends hfirst hlast, textOf, ← hword, Text.slice_append_slice source hle hword']

/-- The string, the text in the call after it, the parenthesis, and the text after the call. -/
theorem extent_fromModule (h : IsRun source c.fromModule)
    (hclose : c.close.kind = .symbol ")".toList) :
    extent source c.fromModule = c.module.text ++ Text.slice source c.module.stop c.close.start ++
      ")".toList ++ Text.slice source c.close.stop (c.tail.getLast?.getD c.close).stop := by
  have hmem : c.close ∈ c.fromModule := by simp [fromModule]
  have hmodule := h.slice_eq (t := c.module) List.mem_cons_self
  have hcloseText : Text.slice source c.close.start c.close.stop = ")".toList := by
    obtain ⟨_, _, hread⟩ := exists_tokenRead_of_mem (h.mem_tokenize hmem)
    rw [h.slice_eq hmem]
    exact hread.of_kind hclose
  have hlast : c.fromModule.getLast? = some (c.tail.getLast?.getD c.close) := by
    simp [fromModule, List.getLast?_cons, List.getLast?_append]
  have hbetween := (List.pairwise_cons.mp h.pairwise).1 c.close (by simp)
  have hall : IsRun source ((c.module :: c.inner) ++ c.close :: c.tail) := h
  have hrun : IsRun source (c.close :: c.tail) := hall.right
  have hends : c.close.stop ≤ (c.tail.getLast?.getD c.close).stop := by
    cases htail : c.tail.getLast? with
    | none => exact Nat.le_refl _
    | some last =>
      have hlastMem := List.mem_of_getLast? htail
      have hle := (List.pairwise_cons.mp hrun.pairwise).1 last hlastMem
      exact Nat.le_trans hle (hrun.start_le_stop (List.mem_cons_of_mem _ hlastMem))
  have hmoduleLe := h.start_le_stop (t := c.module) List.mem_cons_self
  have hcloseLe := h.start_le_stop hmem
  rw [extent_of_ends rfl hlast, textOf, ← hmodule, ← hcloseText,
    Text.slice_append_slice source hmoduleLe hbetween,
    Text.slice_append_slice source (Nat.le_trans hmoduleLe hbetween) hcloseLe,
    Text.slice_append_slice source (by omega) hends]

end ImportCall

namespace Rewriting

open Expression Resolver

/-! ## The pieces of a declaration -/

/-- A declaration that binds a target to a dynamic import, cut into pieces. -/
structure ImportPieces (source : Text) (kind : DeclarationKind) (st : Statement) where
  first : Token
  bound : List Token
  equals : Token
  call : ImportCall
  beforeTarget : Text
  beforeEquals : Text
  beforeCall : Text
  beforeParen : Text
  beforeModule : Text
  isRun : IsRun source (first :: (bound ++ equals :: call.tokens))
  covers : Covers source (first :: (bound ++ equals :: call.tokens)) st
  first_kind : first.kind = .keyword kind.keyword
  isTarget : IsTarget bound
  equals_kind : equals.kind = .symbol "=".toList
  isIgnorable : ∀ gap ∈ [beforeTarget, beforeEquals, beforeCall, beforeParen, beforeModule],
    IsIgnorable gap
  text_eq : st.text = kind.spelling ++ beforeTarget ++ extent source bound ++ beforeEquals ++
    "=".toList ++ beforeCall ++ extent source call.tokens
  initializer_eq : extent source call.tokens = extent source call.throughWord ++ beforeParen ++
    "(".toList ++ beforeModule ++ extent source call.fromModule

variable {source : Text} {ts : List Token} {st : Statement} {kind : DeclarationKind}
  {body target x literal lead options tail : Text} {span : Span}

/-- The text of a token of a run by its kind. -/
theorem extent_of_symbol {t : Token} {sign : Text} (h : IsRun source [t])
    (hkind : t.kind = .symbol sign) : extent source [t] = sign := by
  obtain ⟨_, _, hread⟩ := exists_tokenRead_of_mem (h.mem_tokenize (List.mem_singleton_self t))
  exact h.extent_single.trans (hread.of_kind hkind)

/-- A declaration that was read as a dynamic import is cut into pieces, and its parts are made of
them. -/
theorem exists_pieces (hrun : IsRun source ts) (hcovers : Covers source ts st)
    (hbalanced : Nesting.trackAll [] ts = .ok []) (hread : readStatement source ts = .ok st)
    (hform : st.form = .declaration kind body
      (some ⟨target, .dynamicImport span x literal lead options tail⟩)) :
    ∃ q : ImportPieces source kind st, x = q.call.module.stringValue ∧
      target = extent source q.bound ∧ lead ++ "import".toList = extent source q.call.throughWord ∧
      literal ++ options ++ ")".toList ++ tail = extent source q.call.fromModule := by
  have hdeclaration := readStatement_form hread
  rw [hform] at hdeclaration
  obtain ⟨first, us, ends, rfl, hdeclarator, rfl⟩ :=
    moduleDeclarator_of_declaration hdeclaration hform
  obtain ⟨bound', equals, call, rfl, htarget, hequals, hload⟩ :=
    parts_of_moduleDeclarator hdeclarator
  obtain ⟨word, rest, hts, hkeyword⟩ := keyword_of_form hread hform
  obtain ⟨rfl, -⟩ := List.cons.inj hts
  -- The target is a whole one, since the statement closes all that it opens.
  have hall : Balanced none (first :: (bound' ++ equals :: call)) := by
    cases Nesting.trackAll_eq_ok_iff.mp hbalanced with
    | none balanced => exact balanced
  have hneutral : first.IsNeutral :=
    Token.isNeutral_of_kind (by simp [hkeyword]) (by simp [hkeyword]) (by simp [hkeyword])
  obtain ⟨bound, hbound, hisTarget, hfirst, hlast, -⟩ :=
    takesTarget_of_bindingTarget htarget (hall.of_neutral_cons hneutral)
  obtain rfl : bound' = bound := List.append_cancel_right hbound
  rcases hload with hrequire | hload
  · obtain ⟨_, _, _, _, _, _, -, -, -, -, -, heq⟩ := requireCall_eq_some hrequire
    cases heq
  obtain ⟨c, rfl, heq⟩ := exists_importCall_slices hload
  obtain ⟨-, rfl, rfl, rfl, rfl, rfl⟩ := ModuleLoad.dynamicImport.inj heq
  -- The call is closed by a parenthesis, which the slices leave out.
  have hclose : c.close.kind = .symbol ")".toList := by
    have hpaired : Token.Paired (c.module :: c.inner) :=
      c.paired.cons (Token.depth_of_kind (by simp [c.module_kind]))
    have htracked : Nesting.trackAll [] ((first :: (bound' ++ equals :: c.awaited ++ [c.word])) ++
        c.paren :: ((c.module :: c.inner) ++ c.close :: c.tail)) = .ok [] := by
      simpa [ImportCall.tokens] using hbalanced
    exact Nesting.symbol_of_closesBracket htracked c.paren_kind hpaired c.closesBracket_close
  have hinitializer : IsRun source c.tokens :=
    hrun.of_infix ⟨first :: (bound' ++ [equals]), [], by simp⟩
  have hcall : IsRun source (c.throughWord ++ ([c.paren] ++ c.fromModule)) :=
    c.tokens_eq ▸ hinitializer
  have hthrough := c.extent_throughWord hcall.left
  have hfrom := c.extent_fromModule hcall.right.right hclose
  -- The text of the statement is cut between its pieces from the left.
  obtain ⟨g₁, hg₁, h₁⟩ := (show IsRun source ([first] ++ (bound' ++ equals :: c.tokens)) from
    hrun).exists_extent_append (by simp) (by simp)
  have hrun₂ : IsRun source (bound' ++ ([equals] ++ c.tokens)) := hrun.tail
  obtain ⟨g₂, hg₂, h₂⟩ := hrun₂.exists_extent_append hisTarget.ne_nil (by simp)
  obtain ⟨g₃, hg₃, h₃⟩ := hrun₂.right.exists_extent_append (by simp) (by simp [c.tokens_eq])
  obtain ⟨g₄, hg₄, h₄⟩ := hcall.exists_extent_append (by simp [ImportCall.throughWord]) (by simp)
  obtain ⟨g₅, hg₅, h₅⟩ :=
    hcall.right.exists_extent_append (by simp) (by simp [ImportCall.fromModule])
  have hword : extent source [first] = kind.spelling := by
    have hmem := hrun.mem_tokenize (t := first) List.mem_cons_self
    have hfirst : IsRun source [first] := hrun.of_infix ⟨[], bound' ++ equals :: c.tokens, rfl⟩
    rw [hfirst.extent_single, text_of_keyword hmem hkeyword]
    cases kind <;> rfl
  have hequalsText := extent_of_symbol hrun₂.right.left hequals
  have hparenText := extent_of_symbol hcall.right.left c.paren_kind
  refine ⟨⟨first, bound', equals, c, g₁, g₂, g₃, g₄, g₅, hrun, hcovers, hkeyword, hisTarget,
    hequals, ?_, ?_, ?_⟩, rfl, (extent_of_ends hfirst hlast).symm, hthrough.symm, hfrom.symm⟩
  · simpa using ⟨hg₁, hg₂, hg₃, hg₄, hg₅⟩
  · calc st.text
        = extent source [first] ++ g₁ ++ extent source (bound' ++ ([equals] ++ c.tokens)) :=
          hcovers.extent_eq.trans h₁
      _ = kind.spelling ++ g₁ ++ (extent source bound' ++ g₂ ++
            ("=".toList ++ g₃ ++ extent source c.tokens)) := by rw [h₂, h₃, hword, hequalsText]
      _ = _ := by simp only [List.append_assoc]
  · rw [c.tokens_eq, h₄, h₅, hparenText]
    simp only [List.append_assoc]

/-! ## What is printed -/

/-- A dynamic import of a module of the host, a path, a URL or a package that is found locally and
was not redirected keeps its code: the statement starts with its word, or with `var` if it is
redeclared, and has the target and the initializer as they stand in the source, with a parenthesis in
place of what is between the word `import` and the module string. Of the rest of the source nothing
but white space and comments is left out. -/
theorem keepsCode_of_dynamicImport {s : Submission} (hread : Submission.read source = .ok s)
    {k : RewriteContext} (hrule : k.options.dynamicImports = true) {base : Text} {r : Resolver}
    (hr : Steps (.fresh (some base)) r) {i : Nat} (hst : s.statements[i]? = some st)
    (hform : st.form = .declaration kind body
      (some ⟨target, .dynamicImport span x literal lead options tail⟩))
    (hkept : Specifier.isBuiltin x = true ∨ Specifier.isPath x = true ∨ Specifier.isUrl x = true ∨
      k.lookup.finds x = true ∧ r.isRemote x = false) :
    ∃ ps r' p, ∃ q : ImportPieces source kind st, submission k s r = (.result ps, r') ∧
      ps[i]? = some p ∧ x = q.call.module.stringValue ∧ target = extent source q.bound ∧
      p.print = (if k.options.redeclaration then "var".toList else kind.spelling) ++ " ".toList ++
        extent source q.bound ++ " = ".toList ++ (extent source q.call.throughWord ++
          "(".toList ++ extent source q.call.fromModule) := by
  have hsettled : Settled base r := (Settled.fresh base).of_steps hr
  obtain ⟨-, groups, hgroups, hstatements⟩ := exists_of_read hread
  obtain ⟨ts, hts, hne, hstatement⟩ :=
    exists_of_forall₂_mem hstatements (List.mem_of_getElem? hst)
  have hrun : IsRun source ts :=
    ⟨ts, (cuts_of_splitStatements hgroups).standsApart hts, List.infix_refl ts⟩
  obtain ⟨q, hx, htarget, hlead, hmodule⟩ := exists_pieces hrun
    (covers_of_readStatement hne hstatement) (trackAll_of_splitStatements hgroups ts hts) hstatement
    hform
  have hstays : r.redirects k.lookup x = false := by
    rcases hkept with h | h | h | ⟨hfinds, hremote⟩
    · exact hsettled.redirects_of_isFixed (by simp [isFixed, h])
    · exact hsettled.redirects_of_isFixed (by simp [isFixed, h])
    · exact hsettled.redirects_of_isFixed (by simp [isFixed, h])
    · exact redirects_of_finds hremote hfinds
  have houtcome : outcome k base r st = .generated (.declaration (declarationWord k.options kind)
      target (.spliced [raw lead, .importCall (raw literal) options, raw tail])) := by
    have happlies : appliesToLoad k.options st = true := by
      simp only [appliesToLoad, hform]
      exact hrule
    rw [outcome, loadPlan?_of_declaration hform happlies]
    simp only [sourceOf, ModuleLoad.specifier, hstays, Bool.false_eq_true, if_false]
    rfl
  have hprint : (Expression.spliced [raw lead, .importCall (raw literal) options, raw tail]).print =
      (lead ++ "import".toList) ++ "(".toList ++ (literal ++ options ++ ")".toList ++ tail) := by
    have hparts :
        (Expression.spliced [raw lead, .importCall (raw literal) options, raw tail]).print =
          lead ++ ("import".toList ++ "(".toList ++ literal ++ options ++ ")".toList ++
            (tail ++ [])) := rfl
    rw [hparts]
    simp only [List.append_assoc, List.append_nil]
  refine ⟨_, _, outcome k base r st, q, each_eq_outcomes k s.statements hsettled, ?_, hx, htarget,
    ?_⟩
  · rw [List.getElem?_map, hst, Option.map_some]
  · rw [houtcome, PrintableStatement.print, GeneratedStatement.print, hprint, hlead, hmodule,
      htarget]
    rfl

/-- A comment is left out, and the options and the rest of the statement are kept. -/
theorem keepsCode_of_dynamicImport_options :
    let source := "const m = import(/* a */'./a.js', x).then(f)".toList
    let st : Statement := ⟨⟨0, 44⟩, source, .declaration .constKind (source.drop 5)
      (some ⟨"m".toList, .dynamicImport ⟨10, 44⟩ "./a.js".toList "'./a.js'".toList []
        ", x".toList ".then(f)".toList⟩)⟩
    let k : RewriteContext := ⟨.default, fun _ => .ok false, none⟩
    ∃ ps r' p, ∃ q : ImportPieces source .constKind st,
      Submission.read source = .ok ⟨source, [st]⟩ ∧
      submission k ⟨source, [st]⟩ (.fresh (some "cdn".toList)) = (.result ps, r') ∧
      ps[0]? = some p ∧ p.print = "var m = import('./a.js', x).then(f)".toList ∧
      "import('./a.js', x).then(f)".toList = extent source q.call.throughWord ++ "(".toList ++
        extent source q.call.fromModule := by
  intro source st k
  have hread : (Submission.read source).toOption = some ⟨source, [st]⟩ := by decide +kernel
  have hpath : Specifier.isPath "./a.js".toList = true := by decide
  have hrun : submission k ⟨source, [st]⟩ (.fresh (some "cdn".toList)) =
      (.result [outcome k "cdn".toList (.fresh (some "cdn".toList)) st],
        loaded k "cdn".toList (.fresh (some "cdn".toList)) "./a.js".toList) :=
    each_eq_outcomes k [st] (Settled.fresh "cdn".toList)
  have hprinted : (outcome k "cdn".toList (.fresh (some "cdn".toList)) st).print =
      "var m = import('./a.js', x).then(f)".toList := by
    decide +kernel
  obtain ⟨ps, r', p, q, hsubmission, hp, -, htarget, hprint⟩ :=
    keepsCode_of_dynamicImport (i := 0) (k := k) (eq_ok_of_toOption hread) rfl
      (Relation.ReflTransGen.refl (a := Resolver.fresh (some "cdn".toList))) rfl rfl
      (.inr (.inl hpath))
  have hps := Outcome.result.inj (Prod.mk.inj (hrun.symm.trans hsubmission)).1
  rw [← hps] at hp
  rw [← Option.some.inj hp, hprinted, ← htarget] at hprint
  have hinitializer : "var m = ".toList ++ "import('./a.js', x).then(f)".toList =
      "var m = ".toList ++ (extent source q.call.throughWord ++ "(".toList ++
        extent source q.call.fromModule) := hprint
  exact ⟨ps, r', _, q, eq_ok_of_toOption hread, hsubmission, hps ▸ rfl, hprinted,
    List.append_cancel_left hinitializer⟩

end Rewriting

end ReplCore
