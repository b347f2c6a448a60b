import ReplCore.Proofs.Submission.Cutting
import ReplCore.Submission.Reader

/-!
# What the readers take

Every reader takes tokens from the front and leaves the rest, and a statement is read to its end. So
a statement reaches from its first token to its last, whatever its form.

* `declaration_eq_some_of_load`: how a declaration that loads a module is written.
* `dynamicImport_slices`: what is cut out of the source for a dynamic import.
* `covers_of_readStatement`: a statement has the place and the text of its tokens.
-/

namespace ReplCore.Submission

/-! ## Single tokens -/

theorem take_eq_some_iff {p : Token → Bool} {ts rest : List Token} {t : Token} :
    take p ts = some (t, rest) ↔ ts = t :: rest ∧ p t = true := by
  cases ts with
  | nil => simp [take]
  | cons u us =>
    by_cases hu : p u = true
    · simp only [take, hu, if_true, Option.some.injEq, Prod.mk.injEq, List.cons.injEq]
      constructor
      · rintro ⟨rfl, rfl⟩
        exact ⟨⟨rfl, rfl⟩, hu⟩
      · exact fun h => h.1
    · simp only [take, hu, if_false, reduceCtorEq, List.cons.injEq, false_iff, Bool.false_eq_true]
      rintro ⟨⟨rfl, rfl⟩, h⟩
      exact hu h

theorem takeKind_eq_some_iff {k : TokenKind} {ts rest : List Token} {t : Token} :
    takeKind k ts = some (t, rest) ↔ ts = t :: rest ∧ t.kind = k := by
  rw [takeKind, take_eq_some_iff, decide_eq_true_iff]

theorem takeKeyword_eq_some_iff {k : Keyword} {ts rest : List Token} {t : Token} :
    takeKeyword k ts = some (t, rest) ↔ ts = t :: rest ∧ t.kind = .keyword k :=
  takeKind_eq_some_iff

theorem takeSymbol_eq_some_iff {s : String} {ts rest : List Token} {t : Token} :
    takeSymbol s ts = some (t, rest) ↔ ts = t :: rest ∧ t.kind = .symbol s.toList :=
  takeKind_eq_some_iff

theorem takeName_eq_some_iff {s : String} {ts rest : List Token} {t : Token} :
    takeName s ts = some (t, rest) ↔ ts = t :: rest ∧ t.kind = .name ∧ t.text = s.toList := by
  rw [takeName, take_eq_some_iff, decide_eq_true_iff]

theorem optional_cases {α : Type} (read : List Token → Option (α × List Token))
    (ts : List Token) :
    (optional read ts).2 = ts ∨ ∃ a, read ts = some (a, (optional read ts).2) := by
  unfold optional
  split
  · next a rest h => exact Or.inr ⟨a, h⟩
  · exact Or.inl rfl

theorem optional_suffix {α : Type} {read : List Token → Option (α × List Token)}
    (hread : ∀ ts a rest, read ts = some (a, rest) → rest <:+ ts) (ts : List Token) :
    (optional read ts).2 <:+ ts := by
  rcases optional_cases read ts with h | ⟨a, h⟩
  · exact h.symm ▸ List.suffix_refl ts
  · exact hread ts a _ h

theorem suffix_of_optional {α : Type} {read : List Token → Option (α × List Token)}
    (hread : ∀ ts a rest, read ts = some (a, rest) → rest <:+ ts) {ts rest : List Token}
    {a : Option α} (h : optional read ts = (a, rest)) : rest <:+ ts := by
  have := optional_suffix hread ts
  rwa [h] at this

theorem takeKind_suffix {k : TokenKind} {ts rest : List Token} {t : Token}
    (h : takeKind k ts = some (t, rest)) : rest <:+ ts := by
  rw [(takeKind_eq_some_iff.mp h).1]
  exact List.suffix_cons t rest

theorem atEnd_eq_some {ts : List Token} (h : atEnd ts = some ()) : ts = [] := by
  cases ts with
  | nil => rfl
  | cons t ts => cases h

/-! ## Imports -/

theorem specifier_suffix {ts rest : List Token} {s : ImportSpecifier}
    (h : specifier ts = some (s, rest)) : rest <:+ ts := by
  obtain ⟨⟨imported, us⟩, himported, hbound⟩ := Option.bind_eq_some_iff.mp h
  rw [(take_eq_some_iff.mp himported).1]
  refine List.IsSuffix.trans ?_ (List.suffix_cons imported us)
  have hnewName : ∀ ts a rest, (takeKeyword .asWord ts >>= fun found => takeKind .name found.2) =
      some (a, rest) → rest <:+ ts := by
    intro ts a rest h
    obtain ⟨⟨word, vs⟩, hword, hname⟩ := Option.bind_eq_some_iff.mp h
    exact (takeKind_suffix hname).trans (takeKind_suffix hword)
  dsimp only at hbound
  split at hbound
  · next name vs heq =>
    cases hbound
    exact suffix_of_optional hnewName heq
  · next vs heq =>
    split at hbound
    · cases hbound
    · cases hbound
      exact suffix_of_optional hnewName heq

theorem moreSpecifiers_suffix (bound ts : List Token) : (moreSpecifiers bound ts).2 <:+ ts := by
  induction bound generalizing ts with
  | nil => exact List.suffix_refl ts
  | cons _ bound ih =>
    unfold moreSpecifiers
    split
    · exact List.suffix_refl ts
    · next s rest h =>
      obtain ⟨⟨comma, us⟩, hcomma, hs⟩ := Option.bind_eq_some_iff.mp h
      exact ((ih rest).trans (specifier_suffix hs)).trans (takeKind_suffix hcomma)

/-- Named imports start with a brace. -/
theorem namedImports_eq_some {ts rest : List Token} {ss : List ImportSpecifier}
    (h : namedImports ts = some (ss, rest)) :
    ∃ brace us, ts = brace :: us ∧ brace.kind = .symbol "\x7b".toList ∧ rest <:+ us := by
  obtain ⟨⟨brace, us⟩, hbrace, hrest⟩ := Option.bind_eq_some_iff.mp h
  obtain ⟨hts, hkind⟩ := takeSymbol_eq_some_iff.mp hbrace
  refine ⟨brace, us, hts, hkind, ?_⟩
  dsimp only at hrest
  obtain ⟨⟨closing, vs⟩, hclosing, hresult⟩ := Option.bind_eq_some_iff.mp hrest
  obtain ⟨-, rfl⟩ := Prod.mk.inj (Option.some.inj hresult)
  have hcomma := optional_suffix fun _ _ _ => takeKind_suffix (k := .symbol ",".toList)
  refine (takeKind_suffix hclosing).trans ((hcomma _).trans ?_)
  split
  · exact List.suffix_refl us
  · next s rest hs => exact (moreSpecifiers_suffix rest rest).trans (specifier_suffix hs)

/-- The binding of a whole module starts with a star. -/
theorem namespaceImport_eq_some {ts rest : List Token} {name : Text}
    (h : namespaceImport ts = some (name, rest)) :
    ∃ star us, ts = star :: us ∧ star.kind = .symbol "*".toList ∧ rest <:+ us := by
  obtain ⟨⟨star, us⟩, hstar, hrest⟩ := Option.bind_eq_some_iff.mp h
  obtain ⟨hts, hkind⟩ := takeSymbol_eq_some_iff.mp hstar
  obtain ⟨⟨word, vs⟩, hword, hrest⟩ := Option.bind_eq_some_iff.mp hrest
  obtain ⟨⟨bound, ws⟩, hbound, hrest⟩ := Option.bind_eq_some_iff.mp hrest
  obtain ⟨-, rfl⟩ := Prod.mk.inj (Option.some.inj hrest)
  exact ⟨star, us, hts, hkind, (takeKind_suffix hbound).trans (takeKind_suffix hword)⟩

/-- Whether a token can begin the clause of an import. -/
def beginsClause (t : Token) : Prop :=
  t.kind = .name ∨ t.kind = .symbol "*".toList ∨ t.kind = .symbol "\x7b".toList

theorem importBindings_eq_some {ts rest : List Token} {b : ImportBindings}
    (h : importBindings ts = some (b, rest)) :
    ∃ t us, ts = t :: us ∧ beginsClause t ∧ rest <:+ us := by
  unfold importBindings at h
  split at h
  · next hnamespace =>
    cases h
    obtain ⟨star, us, hts, hkind, hrest⟩ := namespaceImport_eq_some hnamespace
    exact ⟨star, us, hts, Or.inr (Or.inl hkind), hrest⟩
  · obtain ⟨⟨ss, vs⟩, hnamed, heq⟩ := Option.map_eq_some_iff.mp h
    cases heq
    obtain ⟨brace, us, hts, hkind, hrest⟩ := namedImports_eq_some hnamed
    exact ⟨brace, us, hts, Or.inr (Or.inr hkind), hrest⟩

theorem importClause_eq_some {ts rest : List Token} {c : ImportClause}
    (h : importClause ts = some (c, rest)) :
    ∃ t us, ts = t :: us ∧ beginsClause t ∧ rest <:+ us := by
  unfold importClause at h
  split at h
  · obtain ⟨⟨b, vs⟩, hb, heq⟩ := Option.map_eq_some_iff.mp h
    cases heq
    exact importBindings_eq_some hb
  · next name us hname =>
    obtain ⟨hts, hkind⟩ := takeKind_eq_some_iff.mp hname
    refine ⟨name, us, hts, Or.inl hkind, ?_⟩
    split at h
    · next b vs hb =>
      cases h
      obtain ⟨⟨comma, ws⟩, hcomma, hb⟩ := Option.bind_eq_some_iff.mp hb
      obtain ⟨t, xs, rfl, -, hrest⟩ := importBindings_eq_some hb
      exact (hrest.trans (List.suffix_cons t xs)).trans (takeKind_suffix hcomma)
    · cases h
      exact List.suffix_refl _

/-- What is read after the word `import` ends with the module string and starts with it or with a
clause. -/
theorem importSource_eq_some {ts rest : List Token} {c : ImportClause} {module : Token}
    (h : importSource ts = some ((c, module), rest)) :
    ∃ t us, ts = t :: us ∧ (t.kind = .string ∨ beginsClause t) ∧ module :: rest <:+ ts := by
  unfold importSource at h
  split at h
  · next hmodule =>
    cases h
    obtain ⟨hts, hkind⟩ := takeKind_eq_some_iff.mp hmodule
    exact ⟨module, rest, hts, Or.inl hkind, hts ▸ List.suffix_refl _⟩
  · obtain ⟨⟨clause, us⟩, hclause, hrest⟩ := Option.bind_eq_some_iff.mp h
    obtain ⟨⟨word, vs⟩, hword, hrest⟩ := Option.bind_eq_some_iff.mp hrest
    obtain ⟨⟨string, ws⟩, hstring, hrest⟩ := Option.bind_eq_some_iff.mp hrest
    cases hrest
    obtain ⟨t, xs, hts, hbegins, hus⟩ := importClause_eq_some hclause
    obtain ⟨hvs, -⟩ := takeKind_eq_some_iff.mp hstring
    refine ⟨t, xs, hts, Or.inr hbegins, ?_⟩
    rw [← hvs, hts]
    exact ((takeKind_suffix hword).trans hus).trans (List.suffix_cons t xs)

/-- An import statement is the word `import` and all that follows, up to the module string. -/
theorem importStatement_eq_some {source : Text} {ts : List Token} {s : Statement}
    (h : importStatement source ts = some s) :
    ∃ word t us module clause, ts = word :: t :: us ∧ word.kind = .keyword .importWord ∧
      (t.kind = .string ∨ beginsClause t) ∧ ts.getLast? = some module ∧
      s = ⟨spanOf word module, textOf source word module,
        .importing module.stringValue clause⟩ := by
  obtain ⟨⟨word, us⟩, hword, hrest⟩ := Option.bind_eq_some_iff.mp h
  obtain ⟨⟨⟨clause, module⟩, rest⟩, hsource, hrest⟩ := Option.bind_eq_some_iff.mp hrest
  obtain ⟨⟨⟩, hend, hrest⟩ := Option.bind_eq_some_iff.mp hrest
  obtain rfl := Option.some.inj hrest
  obtain ⟨rfl, hkind⟩ := takeKeyword_eq_some_iff.mp hword
  obtain rfl := atEnd_eq_some hend
  obtain ⟨t, vs, rfl, hbegins, ⟨before, hbefore⟩⟩ := importSource_eq_some hsource
  refine ⟨word, t, vs, module, clause, rfl, hkind, hbegins, ?_, rfl⟩
  rw [← hbefore, ← List.cons_append]
  exact List.getLast?_concat

/-! ## Declarations -/

theorem closing_suffix {opens closes : Token → Bool} {ts rest : List Token} {t : Token} :
    ∀ {depth : Nat}, closing opens closes depth ts = some (t, rest) → t :: rest <:+ ts := by
  induction ts with
  | nil =>
    intro depth h
    cases h
  | cons u us ih =>
    intro depth h
    unfold closing at h
    dsimp only at h
    generalize (if opens u then depth + 1 else if closes u then depth - 1 else depth) = next at h
    split at h
    · obtain ⟨rfl, rfl⟩ := Prod.mk.inj (Option.some.inj h)
      exact List.suffix_refl _
    · exact (ih h).trans (List.suffix_cons u us)

theorem bracketed_suffix {opener closer : String} {ts rest : List Token} {ends : Token × Token}
    (h : bracketed opener closer ts = some (ends, rest)) : rest <:+ ts := by
  obtain ⟨⟨first, us⟩, hfirst, hrest⟩ := Option.bind_eq_some_iff.mp h
  obtain ⟨⟨last, vs⟩, hlast, hrest⟩ := Option.bind_eq_some_iff.mp hrest
  obtain ⟨-, rfl⟩ := Prod.mk.inj (Option.some.inj hrest)
  have := (List.suffix_cons last vs).trans (closing_suffix hlast)
  exact this.trans (takeKind_suffix hfirst)

theorem bindingTarget_suffix {ts rest : List Token} {ends : Token × Token}
    (h : bindingTarget ts = some (ends, rest)) : rest <:+ ts := by
  unfold bindingTarget at h
  split at h
  · next hname =>
    cases h
    exact takeKind_suffix hname
  · rcases Option.or_eq_some_iff.mp h with h | ⟨-, h⟩
    · exact bracketed_suffix h
    · exact bracketed_suffix h

/-- A call of `require` reaches to the last token, and its specifier is that of the token before
it. -/
theorem requireCall_eq_some {ts : List Token} {load : ModuleLoad} (h : requireCall ts = some load) :
    ∃ a callee paren module close first, ts = a ++ callee :: paren :: [module, close] ∧
      (a = [] ∨ ∃ g dot, a = [g, dot] ∧ dot.kind = .symbol ".".toList) ∧
      callee.kind = .name ∧ callee.text = "require".toList ∧ paren.kind = .symbol "(".toList ∧
      load = .require (spanOf first close) module.stringValue := by
  unfold requireCall at h
  dsimp only at h
  obtain ⟨⟨callee, us⟩, hcallee, hrest⟩ := Option.bind_eq_some_iff.mp h
  obtain ⟨⟨paren, vs⟩, hparen, hrest⟩ := Option.bind_eq_some_iff.mp hrest
  obtain ⟨⟨module, ws⟩, hmodule, hrest⟩ := Option.bind_eq_some_iff.mp hrest
  obtain ⟨⟨close, xs⟩, hclose, hrest⟩ := Option.bind_eq_some_iff.mp hrest
  obtain ⟨⟨⟩, hend, hrest⟩ := Option.bind_eq_some_iff.mp hrest
  obtain ⟨hts, hcalleeKind, hcalleeText⟩ := takeName_eq_some_iff.mp hcallee
  obtain ⟨hus, hparenKind⟩ := takeSymbol_eq_some_iff.mp hparen
  obtain ⟨hvs, -⟩ := takeKind_eq_some_iff.mp hmodule
  obtain ⟨hws, -⟩ := takeSymbol_eq_some_iff.mp hclose
  have hxs := atEnd_eq_some hend
  dsimp only at hus hvs hws hxs
  rw [hus, hvs, hws, hxs] at hts
  obtain rfl := Option.some.inj hrest
  have hqualifier : ∃ a, ts = a ++ callee :: paren :: [module, close] ∧
      (a = [] ∨ ∃ g dot, a = [g, dot] ∧ dot.kind = .symbol ".".toList) := by
    rcases optional_cases _ ts with hq | ⟨g, hq⟩
    · exact ⟨[], hq.symm.trans hts, Or.inl rfl⟩
    · obtain ⟨⟨global, ys⟩, hglobal, hq⟩ := Option.bind_eq_some_iff.mp hq
      obtain ⟨⟨dot, zs⟩, hdot, hq⟩ := Option.bind_eq_some_iff.mp hq
      obtain ⟨-, hzs⟩ := Prod.mk.inj (Option.some.inj hq)
      obtain ⟨hglobal, -⟩ := takeName_eq_some_iff.mp hglobal
      obtain ⟨hdot, hkind⟩ := takeSymbol_eq_some_iff.mp hdot
      dsimp only at hzs hdot
      refine ⟨[global, dot], ?_, Or.inr ⟨global, dot, rfl, hkind⟩⟩
      rw [hglobal, hdot, hzs, hts]
      rfl
  obtain ⟨a, rfl, ha⟩ := hqualifier
  exact ⟨a, callee, paren, module, close, _, rfl, ha, hcalleeKind, hcalleeText, hparenKind, rfl⟩

/-- A dynamic import is `import`, perhaps after `await`, with a parenthesis and a string, and all that
follows. The text before the word, that in the call after the string and that after the call are cut
out of the source. -/
theorem dynamicImport_slices {source : Text} {ts : List Token} {load : ModuleLoad}
    (h : dynamicImport source ts = some load) :
    ∃ a word paren module us close rest, ts = a ++ word :: paren :: module :: us ∧
      (a = [] ∨ ∃ t, a = [t] ∧ t.kind = .keyword .awaitWord) ∧
      word.kind = .keyword .importWord ∧ paren.kind = .symbol "(".toList ∧ module.kind = .string ∧
      closing opensBracket closesBracket 1 us = some (close, rest) ∧
      load = .dynamicImport (spanOf (a.head?.getD word) (rest.getLast?.getD close))
        module.stringValue module.text (Text.slice source (a.head?.getD word).start word.start)
        (Text.slice source module.stop close.start)
        (Text.slice source close.stop (rest.getLast?.getD close).stop) := by
  unfold dynamicImport at h
  dsimp only at h
  obtain ⟨⟨word, us⟩, hword, hrest⟩ := Option.bind_eq_some_iff.mp h
  obtain ⟨⟨paren, vs⟩, hparen, hrest⟩ := Option.bind_eq_some_iff.mp hrest
  obtain ⟨⟨module, ws⟩, hmodule, hrest⟩ := Option.bind_eq_some_iff.mp hrest
  obtain ⟨⟨close, rest⟩, hclose, hrest⟩ := Option.bind_eq_some_iff.mp hrest
  obtain ⟨hts, hwordKind⟩ := takeKeyword_eq_some_iff.mp hword
  obtain ⟨hus, hparenKind⟩ := takeSymbol_eq_some_iff.mp hparen
  obtain ⟨hvs, hmoduleKind⟩ := takeKind_eq_some_iff.mp hmodule
  dsimp only at hus hvs
  rw [hus, hvs] at hts
  obtain rfl := Option.some.inj hrest
  cases hawaited : takeKeyword .awaitWord ts with
  | none =>
    have hsame : optional (takeKeyword .awaitWord) ts = (none, ts) := by rw [optional, hawaited]
    rw [hsame] at hts ⊢
    exact ⟨[], word, paren, module, ws, close, rest, hts, .inl rfl, hwordKind, hparenKind,
      hmoduleKind, hclose, rfl⟩
  | some found =>
    obtain ⟨t, rest'⟩ := found
    obtain ⟨rfl, hkind⟩ := takeKeyword_eq_some_iff.mp hawaited
    have hsame : optional (takeKeyword .awaitWord) (t :: rest') = (some t, rest') := by
      rw [optional, hawaited]
    rw [hsame] at hts ⊢
    obtain rfl : rest' = _ := hts
    exact ⟨[t], word, paren, module, ws, close, rest, rfl, .inr ⟨t, rfl, hkind⟩, hwordKind,
      hparenKind, hmoduleKind, hclose, rfl⟩

/-- A dynamic import takes all that follows it, and its specifier is that of the string after the
parenthesis. -/
theorem dynamicImport_eq_some {source : Text} {ts : List Token} {load : ModuleLoad}
    (h : dynamicImport source ts = some load) :
    ∃ a word paren module us close rest last first lead options tail,
      ts = a ++ word :: paren :: module :: us ∧
      (a = [] ∨ ∃ t, a = [t] ∧ t.kind = .keyword .awaitWord) ∧
      word.kind = .keyword .importWord ∧ paren.kind = .symbol "(".toList ∧ module.kind = .string ∧
      closing opensBracket closesBracket 1 us = some (close, rest) ∧ ts.getLast? = some last ∧
      load =
        .dynamicImport (spanOf first last) module.stringValue module.text lead options tail := by
  obtain ⟨a, word, paren, module, us, close, rest, rfl, ha, hword, hparen, hmodule, hclose, rfl⟩ :=
    dynamicImport_slices h
  obtain ⟨between, rfl⟩ := closing_suffix hclose
  refine ⟨a, word, paren, module, _, close, rest, _, _, _, _, _, rfl, ha, hword, hparen, hmodule,
    hclose, ?_, rfl⟩
  simp [List.getLast?_append, List.getLast?_cons]

theorem declarationWord_eq_some {ts rest : List Token} {kind : DeclarationKind} {word : Token}
    (h : declarationWord ts = some ((kind, word), rest)) :
    ts = word :: rest ∧ ∃ k, word.kind = .keyword k ∧ k.spelling = kind.spelling := by
  unfold declarationWord at h
  split at h
  · cases h
  · split at h
    · next hkind =>
      cases h
      exact ⟨rfl, .letWord, hkind, rfl⟩
    · next hkind =>
      cases h
      exact ⟨rfl, .constWord, hkind, rfl⟩
    · next hkind =>
      cases h
      exact ⟨rfl, .varWord, hkind, rfl⟩
    · cases h

/-- The tokens hold the call that loads a module: of `require` after an equals sign or a dot, or of
`import` after an equals sign or `await`. -/
def Loads (ts : List Token) (load : ModuleLoad) : Prop :=
  ∃ a p callee paren b, ts = a ++ p :: callee :: paren :: b ∧ paren.kind = .symbol "(".toList ∧
    match load with
    | .require .. => callee.kind = .name ∧ callee.text = "require".toList ∧
        (p.kind = .symbol "=".toList ∨ p.kind = .symbol ".".toList)
    | .dynamicImport .. => callee.kind = .keyword .importWord ∧
        (p.kind = .symbol "=".toList ∨ p.kind = .keyword .awaitWord)

/-- A declarator that loads a module is what it binds, an equals sign and the call that loads the
module. -/
theorem parts_of_moduleDeclarator {source : Text} {ts : List Token} {ends : Token × Token}
    {load : ModuleLoad} (h : moduleDeclarator source ts = some (ends, load)) :
    ∃ bound equals call, ts = bound ++ equals :: call ∧
      bindingTarget (bound ++ equals :: call) = some (ends, equals :: call) ∧
      equals.kind = .symbol "=".toList ∧
      (requireCall call = some load ∨ dynamicImport source call = some load) := by
  obtain ⟨⟨ends', vs⟩, hbound, hrest⟩ := Option.bind_eq_some_iff.mp h
  obtain ⟨⟨equals, call⟩, hequals, hrest⟩ := Option.bind_eq_some_iff.mp hrest
  obtain ⟨loaded, hload, hrest⟩ := Option.bind_eq_some_iff.mp hrest
  obtain ⟨rfl, rfl⟩ := Prod.mk.inj (Option.some.inj hrest)
  obtain ⟨bound, rfl⟩ := bindingTarget_suffix hbound
  obtain ⟨rfl, hkind⟩ := takeSymbol_eq_some_iff.mp hequals
  exact ⟨bound, equals, call, rfl, hbound, hkind,
    (Option.or_eq_some_iff.mp hload).imp_right And.right⟩

theorem moduleDeclarator_eq_some {source : Text} {ts : List Token} {target : Token × Token}
    {load : ModuleLoad} (h : moduleDeclarator source ts = some (target, load)) :
    Loads ts load ∧ ∃ last, ts.getLast? = some last ∧ load.span.stop = last.stop := by
  obtain ⟨before, equals, vs, rfl, -, hkind, hload⟩ := parts_of_moduleDeclarator h
  have hlast : ∀ last, vs.getLast? = some last →
      (before ++ equals :: vs).getLast? = some last := by
    intro last hlast
    simp [List.getLast?_append, List.getLast?_cons, hlast]
  rcases hload with hload | hload
  · obtain ⟨a, callee, paren, module, close, first, rfl, ha, hcallee, htext, hparen, rfl⟩ :=
      requireCall_eq_some hload
    refine ⟨?_, close, hlast close (by simp), rfl⟩
    rcases ha with rfl | ⟨g, dot, rfl, hdot⟩
    · exact ⟨before, equals, callee, paren, _, rfl, hparen, hcallee, htext, Or.inl hkind⟩
    · exact ⟨before ++ [equals, g], dot, callee, paren, [module, close], by simp, hparen, hcallee,
        htext, Or.inr hdot⟩
  · obtain ⟨a, word, paren, module, us, close, rest, last, first, lead, options, tail, rfl, ha,
      hword, hparen, -, -, hl, rfl⟩ := dynamicImport_eq_some hload
    refine ⟨?_, last, hlast last hl, rfl⟩
    rcases ha with rfl | ⟨t, rfl, ht⟩
    · exact ⟨before, equals, word, paren, _, rfl, hparen, hword, Or.inl hkind⟩
    · exact ⟨before ++ [equals], t, word, paren, module :: us, by simp, hparen, hword, Or.inr ht⟩

/-- A declaration is its first word and all that follows. -/
theorem declaration_eq_some {source : Text} {ts : List Token} {s : Statement}
    (h : declaration source ts = some s) :
    ∃ kind word k us last binding, ts = word :: us ∧ word.kind = .keyword k ∧
      k.spelling = kind.spelling ∧ ts.getLast? = some last ∧
      (∀ b, binding = some b → Loads us b.load) ∧
      s = ⟨spanOf word last, textOf source word last,
        .declaration kind (Text.slice source word.stop last.stop) binding⟩ := by
  obtain ⟨⟨⟨kind, word⟩, us⟩, hword, hrest⟩ := Option.bind_eq_some_iff.mp h
  obtain ⟨rfl, k, hkind, hspelling⟩ := declarationWord_eq_some hword
  dsimp only at hrest
  split at hrest
  · next first end' load hload =>
    obtain ⟨hloads, last, hlast, hstop⟩ := moduleDeclarator_eq_some hload
    have hgetLast : (word :: us).getLast? = some last := by
      simp [List.getLast?_cons, hlast]
    refine ⟨kind, word, k, us, last, some ⟨textOf source first end', load⟩, rfl, hkind, hspelling,
      hgetLast, ?_, ?_⟩
    · intro b hb
      rwa [← Option.some.inj hb]
    · rw [← Option.some.inj hrest, hstop]
      rfl
  · refine ⟨kind, word, k, us, us.getLast?.getD word, none, rfl, hkind, hspelling, ?_, ?_, ?_⟩
    · rw [List.getLast?_cons]
    · intro b hb
      cases hb
    · exact (Option.some.inj hrest).symm

/-- A declaration that loads a module is its first word and a single declarator, the target of which
is cut out of the source. -/
theorem moduleDeclarator_of_declaration {source : Text} {ts : List Token} {s : Statement}
    {kind : DeclarationKind} {body target : Text} {load : ModuleLoad}
    (h : declaration source ts = some s)
    (hform : s.form = .declaration kind body (some ⟨target, load⟩)) :
    ∃ word us ends, ts = word :: us ∧ moduleDeclarator source us = some (ends, load) ∧
      target = textOf source ends.1 ends.2 := by
  obtain ⟨⟨⟨kind', word⟩, us⟩, hword, hrest⟩ := Option.bind_eq_some_iff.mp h
  obtain ⟨rfl, -⟩ := declarationWord_eq_some hword
  dsimp only at hrest
  split at hrest
  · next hdeclarator =>
    rw [← Option.some.inj hrest] at hform
    simp only [StatementForm.declaration.injEq, Option.some.injEq, ModuleBinding.mk.injEq] at hform
    obtain ⟨-, -, rfl, rfl⟩ := hform
    exact ⟨word, us, _, rfl, hdeclarator, rfl⟩
  · rw [← Option.some.inj hrest] at hform
    simp at hform

/-- A declaration that loads a module is its first word, what it binds, an equals sign and the call
that loads the module. -/
theorem declaration_eq_some_of_load {source : Text} {ts : List Token} {s : Statement}
    {kind : DeclarationKind} {body target : Text} {load : ModuleLoad}
    (h : declaration source ts = some s)
    (hform : s.form = .declaration kind body (some ⟨target, load⟩)) :
    ∃ word bound ends equals call, ts = word :: (bound ++ equals :: call) ∧
      bindingTarget (bound ++ equals :: call) = some (ends, equals :: call) ∧
      equals.kind = .symbol "=".toList ∧
      (requireCall call = some load ∨ dynamicImport source call = some load) := by
  obtain ⟨word, us, ends, rfl, hdeclarator, -⟩ := moduleDeclarator_of_declaration h hform
  obtain ⟨bound, equals, call, rfl, hbound, hequals, hload⟩ := parts_of_moduleDeclarator hdeclarator
  exact ⟨word, bound, ends, equals, call, rfl, hbound, hequals, hload⟩

/-! ## Shell commands -/

theorem templateEnd_suffix {ts rest : List Token} {t : Token} : ∀ {opened : List Opener},
    templateEnd opened ts = .ok (some (t, rest)) → t :: rest <:+ ts := by
  induction ts with
  | nil =>
    intro opened h
    cases h
  | cons u us ih =>
    intro opened h
    unfold templateEnd at h
    have hnext : ∃ next : List Opener, (if next.isEmpty then .ok (some (u, us))
        else templateEnd next us) = Except.ok (some (t, rest)) := by
      split at h
      · obtain ⟨next, -, hnext⟩ := exists_of_bind_eq_ok h
        exact ⟨next, hnext⟩
      · exact ⟨opened, h⟩
    obtain ⟨next, hnext⟩ := hnext
    split at hnext
    · obtain ⟨rfl, rfl⟩ := Prod.mk.inj (Option.some.inj (Except.ok.inj hnext))
      exact List.suffix_refl _
    · exact (ih hnext).trans (List.suffix_cons u us)

/-- A shell command is a name and a template literal, the last token of which it ends with. -/
theorem shellCommand_eq_ok_some {source : Text} {ts : List Token} {s : Statement}
    (h : shellCommand source ts = .ok (some s)) :
    ∃ tag backtick us last, ts = tag :: backtick :: us ∧ tag.kind = .name ∧
      backtick.kind = .backtick ∧ ts.getLast? = some last ∧
      s = ⟨spanOf tag last, textOf source tag last, .shellCommand tag.text⟩ := by
  unfold shellCommand at h
  split at h
  · cases h
  · next tag us htag =>
    obtain ⟨⟨tag', vs⟩, hname, hliteral⟩ := Option.bind_eq_some_iff.mp htag
    obtain ⟨⟨backtick, ws⟩, hbacktick, heq⟩ := Option.map_eq_some_iff.mp hliteral
    obtain ⟨rfl, rfl⟩ := Prod.mk.inj heq
    obtain ⟨hts, htagKind⟩ := takeKind_eq_some_iff.mp hname
    obtain ⟨hvs, hbacktickKind⟩ := takeKind_eq_some_iff.mp hbacktick
    obtain ⟨ended, hended, heq⟩ := exists_of_map_eq_ok h
    split at heq
    · next last =>
      obtain ⟨before, hbefore⟩ := templateEnd_suffix hended
      refine ⟨tag', backtick, ws, last, by rw [hts, hvs], htagKind, hbacktickKind, ?_, ?_⟩
      · rw [hts, hvs, ← hbefore]
        simp [List.getLast?_cons]
      · exact (Option.some.inj heq).symm
    · cases heq

/-! ## Statements -/

/-- A statement reaches from its first token to its last. -/
structure Covers (source : Text) (ts : List Token) (s : Statement) : Prop where
  start_eq : ts.head?.map Token.start = some s.span.start
  stop_eq : ts.getLast?.map Token.stop = some s.span.stop
  text_eq : s.text = Text.slice source s.span.start s.span.stop

theorem covers_of_ends {source : Text} {ts : List Token} {first last : Token} {form : StatementForm}
    (hfirst : ts.head? = some first) (hlast : ts.getLast? = some last) :
    Covers source ts ⟨spanOf first last, textOf source first last, form⟩ :=
  ⟨by rw [hfirst]; rfl, by rw [hlast]; rfl, rfl⟩

theorem covers_plainStatement (source : Text) {ts : List Token} (hne : ts ≠ []) :
    Covers source ts (plainStatement source ts) := by
  have hfirst := List.head?_eq_some_head hne
  have hlast := List.getLast?_eq_some_getLast hne
  refine ⟨?_, ?_, rfl⟩
  · simp [plainStatement, hfirst]
  · simp [plainStatement, hlast]

/-- A statement was read by one of the readers, or else as a plain statement. -/
theorem readStatement_cases {source : Text} {ts : List Token} {s : Statement}
    (h : readStatement source ts = .ok s) : importStatement source ts = some s ∨
      declaration source ts = some s ∨ shellCommand source ts = .ok (some s) ∨
      s = plainStatement source ts := by
  unfold readStatement at h
  split at h
  · next hread =>
    cases h
    rcases Option.or_eq_some_iff.mp hread with himport | ⟨-, hdeclaration⟩
    · exact Or.inl himport
    · exact Or.inr (Or.inl hdeclaration)
  · obtain ⟨shell, hshell, rfl⟩ := exists_of_map_eq_ok h
    cases shell with
    | none => exact Or.inr (Or.inr (Or.inr rfl))
    | some s => exact Or.inr (Or.inr (Or.inl hshell))

/-- The form of a statement tells which reader read it. -/
theorem readStatement_form {source : Text} {ts : List Token} {s : Statement}
    (h : readStatement source ts = .ok s) :
    match s.form with
    | .importing .. => importStatement source ts = some s
    | .declaration .. => declaration source ts = some s
    | .shellCommand _ => shellCommand source ts = .ok (some s)
    | .plain => s = plainStatement source ts := by
  rcases readStatement_cases h with himport | hdeclaration | hshell | rfl
  · obtain ⟨word, t, us, module, clause, -, -, -, -, rfl⟩ := importStatement_eq_some himport
    exact himport
  · obtain ⟨kind, word, k, us, last, binding, -, -, -, -, -, rfl⟩ :=
      declaration_eq_some hdeclaration
    exact hdeclaration
  · obtain ⟨tag, backtick, us, last, -, -, -, -, rfl⟩ := shellCommand_eq_ok_some hshell
    exact hshell
  · exact rfl

/-- Whatever a statement was read as, it has the place and the text of its tokens. -/
theorem covers_of_readStatement {source : Text} {ts : List Token} {s : Statement} (hne : ts ≠ [])
    (h : readStatement source ts = .ok s) : Covers source ts s := by
  rcases readStatement_cases h with himport | hdeclaration | hshell | rfl
  · obtain ⟨word, t, us, module, clause, rfl, -, -, hlast, rfl⟩ := importStatement_eq_some himport
    exact covers_of_ends rfl hlast
  · obtain ⟨kind, word, k, us, last, binding, rfl, -, -, hlast, -, rfl⟩ :=
      declaration_eq_some hdeclaration
    exact covers_of_ends rfl hlast
  · obtain ⟨tag, backtick, us, last, rfl, -, -, hlast, rfl⟩ := shellCommand_eq_ok_some hshell
    exact covers_of_ends rfl hlast
  · exact covers_plainStatement source hne

end ReplCore.Submission
