import ReplCore.Proofs.Imports.Forms
import ReplCore.Proofs.Submission.Lossless

/-!
# Which imports are read

An import is read if it is written in one of the forms with names for all identifiers. A word that
the lexer keeps apart from names is none of them, wherever it stands, and an import with one is a
plain statement. Between braces a comma alone is read as well, though no form of the grammar has it.

* `readStatement_written`: what a written import is read as.
* `importing_iff_written`: what is read as an import is written as one.
-/

namespace ReplCore.Submission

open Token

/-! ## Single tokens -/

theorem takeKind_cons {k : TokenKind} {t : Token} (h : t.kind = k) (ts : List Token) :
    takeKind k (t :: ts) = some (t, ts) := takeKind_eq_some_iff.mpr ⟨rfl, h⟩

theorem takeKind_cons_ne {k : TokenKind} {t : Token} (h : t.kind ≠ k) (ts : List Token) :
    takeKind k (t :: ts) = none := by
  simp [takeKind, take, h]

theorem takeKeyword_cons {k : Keyword} (word : OfKind (.keyword k)) (ts : List Token) :
    takeKeyword k (word.1 :: ts) = some (word.1, ts) := takeKind_cons word.2 ts

theorem takeSymbol_cons {s : String} (sign : Sign s) (ts : List Token) :
    takeSymbol s (sign.1 :: ts) = some (sign.1, ts) := takeKind_cons sign.2 ts

theorem takeSymbol_cons_ne {s : String} {t : Token} (h : t.kind ≠ .symbol s.toList)
    (ts : List Token) : takeSymbol s (t :: ts) = none := takeKind_cons_ne h ts

theorem takeKeyword_as_of_endsName {ts : List Token} (h : EndsName ts) :
    takeKeyword .asWord ts = none := by
  cases ts with
  | nil => rfl
  | cons t ts => exact takeKind_cons_ne (h t rfl) ts

/-! ## Specifiers -/

/-- After a name or a string, a specifier is what `as` and another name make of it. -/
theorem specifier_cons {t : Token} (ht : t.kind = .name ∨ t.kind = .string) (ts : List Token) :
    specifier (t :: ts) =
      match takeKeyword .asWord ts >>= fun found => takeKind .name found.2 with
      | some (bound, rest) =>
        some (⟨if t.kind = .string then t.stringValue else t.text, bound.text, spanOf t bound⟩,
          rest)
      | none =>
        if t.kind = .string then none else some (⟨t.text, t.text, spanOf t t⟩, ts) := by
  simp only [specifier, take, ht, decide_true, if_true, optional, Option.bind_eq_bind,
    Option.bind_some]
  cases h : (takeKeyword .asWord ts).bind fun found => takeKind .name found.2 <;> rfl

theorem specifier_eq_none {t : Token} (ht : t.kind ≠ .name) (ht' : t.kind ≠ .string)
    (ts : List Token) : specifier (t :: ts) = none := by
  simp [specifier, take, ht, ht']

theorem specifier_tokens (x : WrittenSpecifier) {ts : List Token}
    (hnames : ∀ t ∈ x.names, t.kind = .name) (hts : EndsName ts) :
    specifier (x.tokens ++ ts) = some (x.specifier, ts) := by
  cases x with
  | plain name =>
    have hname : name.1.kind = .name := hnames _ (by simp [WrittenSpecifier.names])
    have hread := specifier_cons (Or.inl hname) ts
    rw [takeKeyword_as_of_endsName hts] at hread
    simpa [hname, WrittenSpecifier.tokens, WrittenSpecifier.specifier] using hread
  | renamed exported word name =>
    have hname : name.1.kind = .name := hnames _ (by
      simp only [WrittenSpecifier.names]
      split <;> simp)
    have hexported : exported.1.kind = .name ∨ exported.1.kind = .string := by
      by_cases hstring : exported.1.kind = .string
      · exact Or.inr hstring
      · exact Or.inl (hnames _ (by simp [WrittenSpecifier.names, hstring]))
    have hread := specifier_cons hexported (word.1 :: name.1 :: ts)
    rw [takeKeyword_cons word] at hread
    simpa [takeKind_cons hname, WrittenSpecifier.tokens, WrittenSpecifier.specifier] using hread

/-- What is read as a specifier is written as one with names. -/
theorem exists_of_specifier {ts rest : List Token} {s : ImportSpecifier}
    (h : specifier ts = some (s, rest)) : ∃ x : WrittenSpecifier,
      (∀ t ∈ x.names, t.kind = .name) ∧ ts = x.tokens ++ rest ∧ x.specifier = s := by
  obtain ⟨⟨t, us⟩, ht, -⟩ := Option.bind_eq_some_iff.mp h
  obtain ⟨rfl, hkind⟩ := take_eq_some_iff.mp ht
  replace hkind : t.kind = .name ∨ t.kind = .string := by simpa using hkind
  rw [specifier_cons hkind] at h
  split at h
  · next bound vs hrenamed =>
    obtain ⟨⟨word, ws⟩, hword, hbound⟩ := Option.bind_eq_some_iff.mp hrenamed
    obtain ⟨rfl, hwordKind⟩ := takeKeyword_eq_some_iff.mp hword
    obtain ⟨rfl, hboundKind⟩ := takeKind_eq_some_iff.mp hbound
    obtain ⟨rfl, rfl⟩ := Prod.mk.inj (Option.some.inj h)
    refine ⟨.renamed ⟨t, ?_⟩ ⟨word, hwordKind⟩ ⟨bound, ?_⟩, ?_, rfl, rfl⟩
    · exact hkind.imp_left fun hname => by simp [isIdentifier, hname]
    · simp [isBindable, hboundKind]
    · by_cases hstring : t.kind = .string
      · simpa [WrittenSpecifier.names, hstring] using hboundKind
      · simpa [WrittenSpecifier.names, hstring] using ⟨hkind.resolve_right hstring, hboundKind⟩
  · split at h
    · cases h
    · next hstring =>
      obtain ⟨rfl, rfl⟩ := Prod.mk.inj (Option.some.inj h)
      have hname := hkind.resolve_right hstring
      refine ⟨.plain ⟨t, ?_⟩, ?_, rfl, rfl⟩
      · simp [isBindable, hname]
      · simpa [WrittenSpecifier.names] using hname

theorem specifier_sign {s : String} (sign : Sign s) (ts : List Token) :
    specifier (sign.1 :: ts) = none :=
  specifier_eq_none (by simp [sign.2]) (by simp [sign.2]) ts

/-! ## Between braces -/

/-- After the specifiers, no other is read: a comma that is left is followed by the brace. -/
theorem no_specifier_of_rest (trailing : Option (Sign ",")) (closing : Sign "\x7d")
    (ts : List Token) :
    (takeSymbol "," (trailing.toList.map (·.1) ++ closing.1 :: ts) >>= fun found =>
      specifier found.2) = none := by
  cases trailing with
  | none =>
    have hclosing : takeSymbol "," (closing.1 :: ts) = none :=
      takeSymbol_cons_ne (by simp [closing.2]) ts
    simp [hclosing]
  | some comma =>
    simp [takeSymbol_cons comma, specifier_sign closing]

theorem moreSpecifiers_tokens (trailing : Option (Sign ",")) (closing : Sign "\x7d")
    (ts : List Token) : ∀ (more : List (Sign "," × WrittenSpecifier)) (bound : List Token),
      more.length ≤ bound.length → (∀ p ∈ more, ∀ t ∈ p.2.names, t.kind = .name) →
      moreSpecifiers bound
          (WrittenNames.tokensOf more ++ (trailing.toList.map (·.1) ++ closing.1 :: ts)) =
        (more.map fun p => p.2.specifier, trailing.toList.map (·.1) ++ closing.1 :: ts)
  | [], [], _, _ => rfl
  | [], _ :: _, _, _ => by
    simp only [WrittenNames.tokensOf, List.flatMap_nil, List.nil_append, moreSpecifiers,
      no_specifier_of_rest, List.map_nil]
  | p :: more, [], h, _ => absurd h (by simp)
  | p :: more, _ :: bound, h, hnames => by
    have ih := moreSpecifiers_tokens trailing closing ts more bound (by simpa using h)
      fun q hq => hnames q (List.mem_cons_of_mem p hq)
    have hp := specifier_tokens p.2 (hnames p (by simp))
      (WrittenNames.endsName_rest more trailing closing ts)
    simp only [WrittenNames.tokensOf_cons, List.cons_append, List.append_assoc, moreSpecifiers,
      takeSymbol_cons p.1, Option.bind_eq_bind, Option.bind_some, hp, ih,
      List.map_cons]

/-- What is read as further specifiers is written so, with names. -/
theorem exists_of_moreSpecifiers : ∀ bound ts : List Token,
    ∃ more : List (Sign "," × WrittenSpecifier), (∀ p ∈ more, ∀ t ∈ p.2.names, t.kind = .name) ∧
      ts = WrittenNames.tokensOf more ++ (moreSpecifiers bound ts).2 ∧
        more.map (fun p => p.2.specifier) = (moreSpecifiers bound ts).1
  | [], ts => ⟨[], by simp, rfl, rfl⟩
  | _ :: bound, ts => by
    rw [moreSpecifiers]
    split
    · exact ⟨[], by simp, rfl, rfl⟩
    · next s us hs =>
      obtain ⟨⟨comma, vs⟩, hcomma, hspecifier⟩ := Option.bind_eq_some_iff.mp hs
      obtain ⟨rfl, hcommaKind⟩ := takeSymbol_eq_some_iff.mp hcomma
      obtain ⟨x, hx, rfl, rfl⟩ := exists_of_specifier hspecifier
      obtain ⟨more, hmore, hus, hss⟩ := exists_of_moreSpecifiers bound us
      refine ⟨(⟨comma, hcommaKind⟩, x) :: more, List.forall_mem_cons.mpr ⟨hx, hmore⟩, ?_, ?_⟩
      · rw [WrittenNames.tokensOf_cons, List.cons_append, List.append_assoc, ← hus]
      · rw [List.map_cons, hss]

theorem length_le_length_tokensOf (more : List (Sign "," × WrittenSpecifier)) :
    more.length ≤ (WrittenNames.tokensOf more).length := by
  induction more with
  | nil => exact Nat.le_refl 0
  | cons p more ih =>
    rw [WrittenNames.tokensOf_cons, List.length_cons, List.length_cons, List.length_append]
    omega

theorem optional_comma (trailing : Option (Sign ",")) (closing : Sign "\x7d")
    (ts : List Token) :
    (optional (takeSymbol ",") (trailing.toList.map (·.1) ++ closing.1 :: ts)).2 =
      closing.1 :: ts := by
  cases trailing with
  | none =>
    have hclosing : takeSymbol "," (closing.1 :: ts) = none :=
      takeSymbol_cons_ne (by simp [closing.2]) ts
    simp [optional, hclosing]
  | some comma =>
    simp [optional, takeSymbol_cons comma]

theorem namedImports_tokens (opening : Sign "\x7b") {x : WrittenNames} (closing : Sign "\x7d")
    (ts : List Token) (hnames : ∀ t ∈ x.names, t.kind = .name) :
    namedImports (opening.1 :: (x.tokens ++ closing.1 :: ts)) = some (x.specifiers, ts) := by
  simp only [namedImports, takeSymbol_cons opening, Option.bind_eq_bind, Option.bind_some]
  cases x with
  | nothing =>
    have hcomma := optional_comma none closing ts
    simp only [Option.toList_none, List.map_nil, List.nil_append] at hcomma
    simp only [WrittenNames.tokens, List.nil_append, specifier_sign, hcomma,
      takeSymbol_cons closing, Option.bind_some, WrittenNames.specifiers, Option.pure_def]
  | loneComma comma =>
    have hcomma := optional_comma (some comma) closing ts
    simp only [Option.toList_some, List.map_cons, List.map_nil, List.cons_append,
      List.nil_append] at hcomma
    simp only [WrittenNames.tokens, List.cons_append, List.nil_append, specifier_sign, hcomma,
      takeSymbol_cons closing, Option.bind_some, WrittenNames.specifiers, Option.pure_def]
  | list first more trailing =>
    have hfirst := specifier_tokens first
      (fun t ht => hnames t (List.mem_append_left _ ht))
      (WrittenNames.endsName_rest more trailing closing ts)
    have hmore := moreSpecifiers_tokens trailing closing ts more
      (WrittenNames.tokensOf more ++ (trailing.toList.map (·.1) ++ closing.1 :: ts))
      (by
        have := length_le_length_tokensOf more
        rw [List.length_append]
        omega)
      fun p hp t ht => hnames t (List.mem_append_right _ (List.mem_flatMap.mpr ⟨p, hp, ht⟩))
    simp only [WrittenNames.tokens, List.append_assoc, hfirst, hmore, optional_comma,
      takeSymbol_cons closing, Option.bind_some, WrittenNames.specifiers, Option.pure_def]

theorem exists_of_optional_comma (ts : List Token) : ∃ trailing : Option (Sign ","),
    ts = trailing.toList.map (·.1) ++ (optional (takeSymbol ",") ts).2 := by
  rcases optional_cases (takeSymbol ",") ts with h | ⟨comma, h⟩
  · exact ⟨none, h.symm⟩
  · obtain ⟨hts, hkind⟩ := takeSymbol_eq_some_iff.mp h
    exact ⟨some ⟨comma, hkind⟩, hts⟩

/-- What is read as named imports is written so, with names. -/
theorem exists_of_namedImports {ts rest : List Token} {ss : List ImportSpecifier}
    (h : namedImports ts = some (ss, rest)) :
    ∃ (opening : Sign "\x7b") (x : WrittenNames) (closing : Sign "\x7d"),
      (∀ t ∈ x.names, t.kind = .name) ∧ ts = opening.1 :: (x.tokens ++ closing.1 :: rest) ∧
        x.specifiers = ss := by
  obtain ⟨⟨opening, us⟩, hopening, hbraces⟩ := Option.bind_eq_some_iff.mp h
  obtain ⟨rfl, hopeningKind⟩ := takeSymbol_eq_some_iff.mp hopening
  dsimp only at hbraces
  split at hbraces
  · next hnone =>
    obtain ⟨⟨closing, vs⟩, hclosing, hrest⟩ := Option.bind_eq_some_iff.mp hbraces
    obtain ⟨hus, hclosingKind⟩ := takeSymbol_eq_some_iff.mp hclosing
    obtain ⟨rfl, rfl⟩ := Prod.mk.inj (Option.some.inj hrest)
    obtain ⟨trailing, htrailing⟩ := exists_of_optional_comma us
    rw [hus] at htrailing
    cases trailing with
    | none =>
      refine ⟨⟨opening, hopeningKind⟩, .nothing, ⟨closing, hclosingKind⟩, ?_, ?_, rfl⟩
      · simp [WrittenNames.names]
      · rw [htrailing]
        rfl
    | some comma =>
      refine ⟨⟨opening, hopeningKind⟩, .loneComma comma, ⟨closing, hclosingKind⟩, ?_, ?_, rfl⟩
      · simp [WrittenNames.names]
      · rw [htrailing]
        rfl
  · next s vs hfirst =>
    obtain ⟨first, hfirstNames, rfl, rfl⟩ := exists_of_specifier hfirst
    obtain ⟨more, hmoreNames, hvs, hmore⟩ := exists_of_moreSpecifiers vs vs
    obtain ⟨⟨closing, ws⟩, hclosing, hrest⟩ := Option.bind_eq_some_iff.mp hbraces
    obtain ⟨hws, hclosingKind⟩ := takeSymbol_eq_some_iff.mp hclosing
    obtain ⟨rfl, rfl⟩ := Prod.mk.inj (Option.some.inj hrest)
    obtain ⟨trailing, htrailing⟩ := exists_of_optional_comma (moreSpecifiers vs vs).2
    rw [hws] at htrailing
    refine ⟨⟨opening, hopeningKind⟩, .list first more trailing, ⟨closing, hclosingKind⟩,
      ?_, ?_, ?_⟩
    · intro t ht
      rcases List.mem_append.mp ht with ht | ht
      · exact hfirstNames t ht
      · obtain ⟨p, hp, ht⟩ := List.mem_flatMap.mp ht
        exact hmoreNames p hp t ht
    · conv => lhs; rw [hvs, htrailing]
      simp [WrittenNames.tokens]
    · rw [WrittenNames.specifiers, hmore]

/-! ## Clauses -/

theorem importBindings_tokens (b : WrittenBindings) (ts : List Token)
    (hnames : ∀ t ∈ b.names, t.kind = .name) :
    importBindings (b.tokens ++ ts) = some (b.bindings, ts) := by
  cases b with
  | namespaceAs star word name =>
    have hname : name.1.kind = .name := hnames _ (by simp [WrittenBindings.names])
    have hread : namespaceImport (star.1 :: word.1 :: name.1 :: ts) = some (name.1.text, ts) := by
      simp [namespaceImport, takeSymbol_cons star, takeKeyword_cons word, takeKind_cons hname]
    simp [importBindings, WrittenBindings.tokens, WrittenBindings.bindings, hread]
  | named opening names closing =>
    have hstar : takeSymbol "*" (opening.1 :: (names.tokens ++ closing.1 :: ts)) = none :=
      takeSymbol_cons_ne (by simp [opening.2]) _
    have hread := namedImports_tokens opening closing ts hnames
    simp [importBindings, namespaceImport, hstar, hread, WrittenBindings.tokens,
      WrittenBindings.bindings]

theorem exists_of_importBindings {ts rest : List Token} {b : ImportBindings}
    (h : importBindings ts = some (b, rest)) : ∃ x : WrittenBindings,
      (∀ t ∈ x.names, t.kind = .name) ∧ ts = x.tokens ++ rest ∧ x.bindings = b := by
  rw [importBindings] at h
  split at h
  · next name us hnamespace =>
    obtain ⟨rfl, rfl⟩ := Prod.mk.inj (Option.some.inj h)
    obtain ⟨⟨star, vs⟩, hstar, hword⟩ := Option.bind_eq_some_iff.mp hnamespace
    obtain ⟨rfl, hstarKind⟩ := takeSymbol_eq_some_iff.mp hstar
    obtain ⟨⟨word, ws⟩, hword, hname⟩ := Option.bind_eq_some_iff.mp hword
    obtain ⟨rfl, hwordKind⟩ := takeKeyword_eq_some_iff.mp hword
    obtain ⟨⟨bound, xs⟩, hname, hrest⟩ := Option.bind_eq_some_iff.mp hname
    obtain ⟨rfl, hboundKind⟩ := takeKind_eq_some_iff.mp hname
    obtain ⟨rfl, rfl⟩ := Prod.mk.inj (Option.some.inj hrest)
    refine ⟨.namespaceAs ⟨star, hstarKind⟩ ⟨word, hwordKind⟩ ⟨bound, ?_⟩, ?_, rfl, rfl⟩
    · simp [isBindable, hboundKind]
    · simpa [WrittenBindings.names] using hboundKind
  · obtain ⟨⟨specifiers, us⟩, hnamed, hrest⟩ := Option.map_eq_some_iff.mp h
    obtain ⟨rfl, rfl⟩ := Prod.mk.inj hrest
    obtain ⟨opening, x, closing, hx, rfl, rfl⟩ := exists_of_namedImports hnamed
    exact ⟨.named opening x closing, hx, by simp [WrittenBindings.tokens], rfl⟩

theorem importClause_tokens {c : WrittenClause} (hnames : ∀ t ∈ c.names, t.kind = .name)
    (word : OfKind (.keyword .fromWord)) (ts : List Token) :
    importClause (c.tokens ++ word.1 :: ts) = some (c.clause, word.1 :: ts) := by
  cases c with
  | default name =>
    have hname : name.1.kind = .name := hnames _ (by simp [WrittenClause.names])
    have hcomma : takeSymbol "," (word.1 :: ts) = none :=
      takeSymbol_cons_ne (by simp [word.2]) ts
    simp [importClause, WrittenClause.tokens, WrittenClause.clause, takeKind_cons hname, hcomma]
  | bindings b =>
    have hname : takeKind .name (b.tokens ++ word.1 :: ts) = none := by
      obtain ⟨t, us, hb, s, ht⟩ := b.exists_head
      rw [hb]
      exact takeKind_cons_ne (by simp [ht]) _
    have hb := importBindings_tokens b (word.1 :: ts) hnames
    simp [importClause, WrittenClause.tokens, WrittenClause.clause, hname, hb]
  | both name comma b =>
    obtain ⟨hname, hrest⟩ := List.forall_mem_cons.mp hnames
    have hb := importBindings_tokens b (word.1 :: ts) hrest
    simp [importClause, WrittenClause.tokens, WrittenClause.clause, takeKind_cons hname,
      takeSymbol_cons comma, hb]

theorem exists_of_importClause {ts rest : List Token} {c : ImportClause}
    (h : importClause ts = some (c, rest)) : ∃ x : WrittenClause,
      (∀ t ∈ x.names, t.kind = .name) ∧ ts = x.tokens ++ rest ∧ x.clause = c := by
  rw [importClause] at h
  split at h
  · obtain ⟨⟨b, us⟩, hb, hrest⟩ := Option.map_eq_some_iff.mp h
    obtain ⟨rfl, rfl⟩ := Prod.mk.inj hrest
    obtain ⟨x, hx, rfl, rfl⟩ := exists_of_importBindings hb
    exact ⟨.bindings x, hx, rfl, rfl⟩
  · next name us hname =>
    obtain ⟨rfl, hnameKind⟩ := takeKind_eq_some_iff.mp hname
    have hbound : name.isBindable = true := by simp [isBindable, hnameKind]
    split at h
    · next b vs hboth =>
      obtain ⟨rfl, rfl⟩ := Prod.mk.inj (Option.some.inj h)
      obtain ⟨⟨comma, ws⟩, hcomma, hb⟩ := Option.bind_eq_some_iff.mp hboth
      obtain ⟨rfl, hcommaKind⟩ := takeSymbol_eq_some_iff.mp hcomma
      obtain ⟨x, hx, rfl, rfl⟩ := exists_of_importBindings hb
      exact ⟨.both ⟨name, hbound⟩ ⟨comma, hcommaKind⟩ x, List.forall_mem_cons.mpr ⟨hnameKind, hx⟩,
        rfl, rfl⟩
    · obtain ⟨rfl, rfl⟩ := Prod.mk.inj (Option.some.inj h)
      exact ⟨.default ⟨name, hbound⟩, List.forall_mem_singleton.mpr hnameKind, rfl, rfl⟩

/-! ## Imports -/

/-- A clause does not start with a string. -/
theorem WrittenClause.takeKind_string (c : WrittenClause) (ts : List Token) :
    takeKind .string (c.tokens ++ ts) = none := by
  have hbound : ∀ name : BoundName, name.1.kind ≠ .string := by
    intro name h
    have := name.2
    simp [isBindable, h] at this
  cases c with
  | default name => exact takeKind_cons_ne (hbound name) ts
  | bindings b =>
    obtain ⟨t, us, hb, s, ht⟩ := b.exists_head
    rw [WrittenClause.tokens, hb]
    exact takeKind_cons_ne (by simp [ht]) _
  | both name => exact takeKind_cons_ne (hbound name) _

theorem importStatement_tokens (source : Text) {x : WrittenImport} (h : x.UsesNames) :
    importStatement source x.tokens = some (x.statement source) := by
  obtain ⟨word, clause, module⟩ := x
  cases clause with
  | none =>
    simp [importStatement, importSource, WrittenImport.tokens, WrittenImport.statement,
      takeKeyword_cons word, takeKind_cons module.2, atEnd]
  | some c =>
    obtain ⟨clause, fromWord⟩ := c
    have hclause := importClause_tokens h fromWord [module.1]
    simp [importStatement, importSource, WrittenImport.tokens, WrittenImport.statement,
      takeKeyword_cons word, takeKeyword_cons fromWord, takeKind_cons module.2,
      WrittenClause.takeKind_string, hclause, atEnd]

theorem exists_of_importSource {ts rest : List Token} {clause : ImportClause} {module : Token}
    (word : OfKind (.keyword .importWord))
    (h : importSource ts = some ((clause, module), rest)) : ∃ x : WrittenImport,
      x.UsesNames ∧ x.word = word ∧ word.1 :: ts = x.tokens ++ rest ∧ x.module.1 = module ∧
        x.clause.elim .nothing (fun c => c.1.clause) = clause := by
  rw [importSource] at h
  split at h
  · next hmodule =>
    obtain ⟨rfl, hmoduleKind⟩ := takeKind_eq_some_iff.mp hmodule
    obtain ⟨hread, rfl⟩ := Prod.mk.inj (Option.some.inj h)
    obtain ⟨rfl, rfl⟩ := Prod.mk.inj hread
    refine ⟨⟨word, none, ⟨_, hmoduleKind⟩⟩, ?_, rfl, rfl, rfl, rfl⟩
    simp [WrittenImport.UsesNames, WrittenImport.names]
  · obtain ⟨⟨c, us⟩, hclause, hfrom⟩ := Option.bind_eq_some_iff.mp h
    obtain ⟨x, hx, rfl, rfl⟩ := exists_of_importClause hclause
    obtain ⟨⟨fromWord, vs⟩, hfrom, hmodule⟩ := Option.bind_eq_some_iff.mp hfrom
    obtain ⟨rfl, hfromKind⟩ := takeKeyword_eq_some_iff.mp hfrom
    obtain ⟨⟨last, ws⟩, hmodule, hrest⟩ := Option.bind_eq_some_iff.mp hmodule
    obtain ⟨rfl, hlastKind⟩ := takeKind_eq_some_iff.mp hmodule
    obtain ⟨hread, rfl⟩ := Prod.mk.inj (Option.some.inj hrest)
    obtain ⟨rfl, rfl⟩ := Prod.mk.inj hread
    refine ⟨⟨word, some (x, ⟨fromWord, hfromKind⟩), ⟨last, hlastKind⟩⟩, hx, rfl, ?_, rfl, rfl⟩
    simp [WrittenImport.tokens]

/-- An import is read just where one is written with names for all identifiers. -/
theorem importStatement_eq_some_iff {source : Text} {ts : List Token} {s : Statement} :
    importStatement source ts = some s ↔
      ∃ x : WrittenImport, x.UsesNames ∧ x.tokens = ts ∧ x.statement source = s := by
  constructor
  · intro h
    obtain ⟨⟨word, us⟩, hword, hrest⟩ := Option.bind_eq_some_iff.mp h
    obtain ⟨rfl, hwordKind⟩ := takeKeyword_eq_some_iff.mp hword
    obtain ⟨⟨⟨clause, module⟩, vs⟩, hsource, hend⟩ := Option.bind_eq_some_iff.mp hrest
    obtain ⟨-, hend, hs⟩ := Option.bind_eq_some_iff.mp hend
    obtain ⟨x, hx, hxWord, htokens, rfl, rfl⟩ := exists_of_importSource ⟨word, hwordKind⟩ hsource
    cases vs with
    | nil =>
      refine ⟨x, hx, by simpa using htokens.symm, ?_⟩
      rw [← Option.some.inj hs, WrittenImport.statement, hxWord]
    | cons => cases hend
  · rintro ⟨x, hx, rfl, rfl⟩
    exact importStatement_tokens source hx

/-- A written import is read as it is meant if it has names for all identifiers, and as a plain
statement if the lexer keeps one of them apart as a word of its own. -/
theorem readStatement_written (source : Text) (x : WrittenImport) :
    readStatement source x.tokens =
      .ok (if x.UsesNames then x.statement source else plainStatement source x.tokens) := by
  by_cases hx : x.UsesNames
  · rw [readStatement, importStatement_tokens source hx, Option.some_or, if_pos hx]
  · have himport : importStatement source x.tokens = none := by
      by_contra hread
      obtain ⟨s, hs⟩ := Option.ne_none_iff_exists'.mp hread
      obtain ⟨y, hy, htokens, -⟩ := importStatement_eq_some_iff.mp hs
      exact hx (WrittenImport.tokens_injective htokens ▸ hy)
    -- the first word starts neither a declaration nor a shell command
    have hdeclaration : declaration source x.tokens = none := by
      simp [declaration, declarationWord, WrittenImport.tokens, x.word.2]
    have htag : takeKind .name x.tokens = none := takeKind_cons_ne (by simp [x.word.2]) _
    have hshell : shellCommand source x.tokens = .ok none := by simp [shellCommand, htag]
    rw [readStatement, himport, hdeclaration, hshell, if_neg hx]
    rfl

/-- The word `from` as the name of an export: what is meant is an import, what is read is a plain
statement. -/
theorem readStatement_written_from : ∃ x : WrittenImport,
    splitStatements (tokenize "import \x7b from \x7d from 'm'".toList) = .ok [x.tokens] ∧
      (x.statement "import \x7b from \x7d from 'm'".toList).form =
        .importing "m".toList (.bindings (.named [⟨"from".toList, "from".toList, ⟨9, 13⟩⟩])) ∧
      readStatement "import \x7b from \x7d from 'm'".toList x.tokens =
        .ok ⟨⟨0, 24⟩, "import \x7b from \x7d from 'm'".toList, .plain⟩ := by
  let x : WrittenImport :=
    { word := ⟨⟨.keyword .importWord, "import".toList, 0, 6⟩, rfl⟩
      clause := some
        (.bindings (.named ⟨⟨.symbol "\x7b".toList, "\x7b".toList, 7, 8⟩, rfl⟩
          (.list (.plain ⟨⟨.keyword .fromWord, "from".toList, 9, 13⟩, rfl⟩) [] none)
          ⟨⟨.symbol "\x7d".toList, "\x7d".toList, 14, 15⟩, rfl⟩),
        ⟨⟨.keyword .fromWord, "from".toList, 16, 20⟩, rfl⟩)
      module := ⟨⟨.string, "'m'".toList, 21, 24⟩, rfl⟩ }
  have hsplit : (splitStatements (tokenize "import \x7b from \x7d from 'm'".toList)).toOption =
      some [x.tokens] := by
    decide +kernel
  refine ⟨x, eq_ok_of_toOption hsplit, by decide, ?_⟩
  rw [readStatement_written, if_neg (by decide)]
  decide +kernel

/-- The tokens are an import by the grammar: between braces, a comma follows a specifier. -/
def IsImport (ts : List Token) : Prop :=
  ∃ x : WrittenImport, x.tokens = ts ∧ x.UsesNames ∧ x.hasLoneComma = false

/-- What is read as an import is written as one, with nothing left over, and read as it is meant. It
is one by the grammar unless it has a comma alone between its braces. -/
theorem importing_iff_written (source : Text) (ts : List Token) (s : Statement) :
    (readStatement source ts = .ok s ∧ ∃ module clause, s.form = .importing module clause) ↔
      ∃ x : WrittenImport, x.tokens = ts ∧ x.UsesNames ∧ x.statement source = s ∧
        (IsImport ts ↔ x.hasLoneComma = false) := by
  constructor
  · rintro ⟨hread, module, clause, hform⟩
    have himport := readStatement_form hread
    rw [hform] at himport
    obtain ⟨x, hx, rfl, hs⟩ := importStatement_eq_some_iff.mp himport
    refine ⟨x, rfl, hx, hs, ?_, fun hcomma => ⟨x, rfl, hx, hcomma⟩⟩
    rintro ⟨y, htokens, -, hcomma⟩
    rwa [← WrittenImport.tokens_injective htokens]
  · rintro ⟨x, rfl, hx, rfl, -⟩
    refine ⟨?_, _, _, rfl⟩
    rw [readStatement, importStatement_tokens source hx]
    rfl

/-- A comma alone between braces is no list of names, and is read as one without names. -/
theorem importing_iff_written_lone_comma : ∃ ts s,
    splitStatements (tokenize "import \x7b,\x7d from 'm'".toList) = .ok [ts] ∧
      readStatement "import \x7b,\x7d from 'm'".toList ts = .ok s ∧
      s.form = .importing "m".toList (.bindings (.named [])) ∧ ¬ IsImport ts := by
  let x : WrittenImport :=
    { word := ⟨⟨.keyword .importWord, "import".toList, 0, 6⟩, rfl⟩
      clause := some
        (.bindings (.named ⟨⟨.symbol "\x7b".toList, "\x7b".toList, 7, 8⟩, rfl⟩
          (.loneComma ⟨⟨.symbol ",".toList, ",".toList, 8, 9⟩, rfl⟩)
          ⟨⟨.symbol "\x7d".toList, "\x7d".toList, 9, 10⟩, rfl⟩),
        ⟨⟨.keyword .fromWord, "from".toList, 11, 15⟩, rfl⟩)
      module := ⟨⟨.string, "'m'".toList, 16, 19⟩, rfl⟩ }
  have hsplit : (splitStatements (tokenize "import \x7b,\x7d from 'm'".toList)).toOption =
      some [x.tokens] := by
    decide +kernel
  have hread : (readStatement "import \x7b,\x7d from 'm'".toList x.tokens).toOption =
      some (x.statement "import \x7b,\x7d from 'm'".toList) := by
    decide +kernel
  obtain ⟨y, htokens, -, -, hgrammar⟩ :=
    (importing_iff_written _ _ _).mp ⟨eq_ok_of_toOption hread, _, _, rfl⟩
  rw [WrittenImport.tokens_injective htokens] at hgrammar
  refine ⟨x.tokens, _, eq_ok_of_toOption hsplit, eq_ok_of_toOption hread, by decide, ?_⟩
  rw [hgrammar]
  decide

end ReplCore.Submission
