import ReplCore.Proofs.Submission.Boundaries
import ReplCore.Proofs.Submission.DynamicImports
import ReplCore.Proofs.Submission.Targets

/-!
# Brackets that belong together

Nesting is told in three ways: the cutter keeps a stack of all that is open, the reader of a pattern
counts brackets of one kind, and the reader of a dynamic import counts brackets of all kinds as one.
Neither of the counters sees template literals and substitutions. In a statement that was cut, all
three find the same closer for an opener.

* `exists_trackAll_of_isPrefix`: balanced tokens never close what was open before them.
* `exists_closer`: every opener in balanced tokens has a closer, with balanced tokens between.
* `closing_iff_pairs`: the counters stop at the closer that the stack pairs with the opener.
-/

namespace ReplCore

/-! ## Openers inside of balanced tokens -/

namespace Balanced

variable {o : Opener} {outer : Option Opener} {t : Token} {ts before after : List Token}

/-- An opener in balanced tokens is followed by balanced tokens and its closer. By induction on the
derivation: the opener is the first of something enclosed, or inside of it, or after it. -/
theorem exists_closer (ho : o ≠ .template) (ht : o.opens t = true) (h : Balanced outer ts) :
    ∀ {before after}, ts = before ++ t :: after →
      ∃ inner u rest, after = inner ++ u :: rest ∧ Balanced (some o) inner ∧ o.closes u = true := by
  induction h with
  | nil =>
    intro before after h
    simp at h
  | @neutral outer x ts isNeutral _ ih =>
    intro before after h
    cases before with
    | nil =>
      obtain ⟨rfl, -⟩ := List.cons.inj h
      simp [(isNeutral o).1] at ht
    | cons y before => exact ih (List.cons.inj h).2
  | @enclosed outer o' x inner u ts _ opens within closes _ ihinner ih =>
    have hne : t ≠ u := by
      rintro rfl
      exact ho (Opener.eq_template_of_opens_of_closes ht closes).1
    intro before after h
    cases before with
    | nil =>
      obtain ⟨rfl, rfl⟩ := List.cons.inj h
      obtain rfl := Opener.eq_of_opens ht opens
      exact ⟨inner, u, ts, rfl, within, closes⟩
    | cons y before =>
      rcases List.append_eq_append_iff.mp (List.cons.inj h).2 with
        ⟨c, rfl, hc⟩ | ⟨c, rfl, hc⟩
      · cases c with
        | nil => exact absurd (List.cons.inj hc).1.symm hne
        | cons z c => exact ih (List.cons.inj hc).2
      · cases c with
        | nil => exact absurd (List.cons.inj hc).1 hne
        | cons z c =>
          obtain ⟨rfl, rfl⟩ := List.cons.inj hc
          obtain ⟨inner, v, rest, rfl, hinner, hv⟩ := ihinner rfl
          exact ⟨inner, v, rest ++ u :: ts, by simp, hinner, hv⟩

/-- Balanced tokens never close what was open before them. -/
theorem exists_trackAll_of_isPrefix (h : Balanced outer ts) :
    ∀ {opened front}, opened.head? = outer → front <+: ts →
      ∃ more, Nesting.trackAll opened front = .ok (more ++ opened) := by
  induction h with
  | nil =>
    intro opened front _ hfront
    exact ⟨[], by rw [List.prefix_nil.mp hfront]; rfl⟩
  | neutral isNeutral _ ih =>
    intro opened front hhead hfront
    rcases List.prefix_cons_iff.mp hfront with rfl | ⟨front, rfl, hrest⟩
    · exact ⟨[], rfl⟩
    · rw [Nesting.trackAll_cons, Nesting.track_of_isNeutral_token isNeutral]
      exact ih hhead hrest
  | @enclosed outer o t inner u ts begins opens within closes _ ihinner ih =>
    intro opened front hhead hfront
    have hopens := Nesting.track_of_opens (fun h => begins (hhead ▸ h)) opens
    rcases List.prefix_cons_iff.mp hfront with rfl | ⟨front, rfl, tail, hrest⟩
    · exact ⟨[], rfl⟩
    rw [Nesting.trackAll_cons, hopens]
    change ∃ more, Nesting.trackAll (o :: opened) front = _
    -- Up to the closer, the opener is still there, and after the closer it is gone.
    have hwithin : ∀ {front}, front <+: inner →
        ∃ more, Nesting.trackAll (o :: opened) front = .ok (more ++ opened) := by
      intro front hfront
      obtain ⟨more, hmore⟩ := @ihinner (o :: opened) front rfl hfront
      exact ⟨more ++ [o], by simpa using hmore⟩
    rcases List.append_eq_append_iff.mp hrest with ⟨c, rfl, -⟩ | ⟨c, rfl, hc⟩
    · exact hwithin (List.prefix_append front c)
    · cases c with
      | nil => exact hwithin (by simp)
      | cons x c =>
        obtain ⟨rfl, rfl⟩ := List.cons.inj hc
        rw [Nesting.trackAll_append, Nesting.trackAll_of_balanced within rfl]
        change ∃ more, Nesting.trackAll (o :: opened) (u :: c) = _
        rw [Nesting.trackAll_cons, Nesting.track_of_closes closes]
        exact ih hhead (List.prefix_append c tail)

end Balanced

/-! ## What the stack pairs -/

namespace Nesting

variable {before after inner rest rest' : List Token} {t u u' : Token} {o : Opener}

/-- After `before`, the token `t` adds an opener to what is open, which stays there through `inner`
until `u` takes it away. -/
def StaysUntil (before : List Token) (t : Token) (inner : List Token) (u : Token) : Prop :=
  ∃ opened o, trackAll [] before = .ok opened ∧ track opened t = .ok (o :: opened) ∧
    (∀ front, front <+: inner → ∃ more, trackAll (o :: opened) front = .ok (more ++ o :: opened)) ∧
    trackAll (o :: opened) (inner ++ [u]) = .ok opened

/-- Of the tokens `after` an opener `t`, tracking pairs it with `u`, which has `rest` after it. -/
def Pairs (before : List Token) (t : Token) (after : List Token) (u : Token)
    (rest : List Token) : Prop :=
  ∃ inner, after = inner ++ u :: rest ∧ StaysUntil before t inner u

theorem StaysUntil.not_isPrefix {inner' : List Token} (h : StaysUntil before t inner u)
    (h' : StaysUntil before t inner' u') : ¬ inner ++ [u] <+: inner' := by
  obtain ⟨opened, o, hbefore, ht, -, hu⟩ := h
  obtain ⟨opened', o', hbefore', ht', hstays, -⟩ := h'
  obtain rfl := Except.ok.inj (hbefore.symm.trans hbefore')
  obtain ⟨rfl, -⟩ := List.cons.inj (Except.ok.inj (ht.symm.trans ht'))
  intro hprefix
  obtain ⟨more, hmore⟩ := hstays _ hprefix
  have hlength := congrArg List.length (Except.ok.inj (hu.symm.trans hmore))
  rw [List.length_append, List.length_cons] at hlength
  omega

/-- An opener is paired with one token only. -/
theorem Pairs.unique (h : Pairs before t after u rest) (h' : Pairs before t after u' rest') :
    u = u' ∧ rest = rest' := by
  obtain ⟨inner, rfl, hstays⟩ := h
  obtain ⟨inner', heq, hstays'⟩ := h'
  rcases List.append_eq_append_iff.mp heq with ⟨c, rfl, hc⟩ | ⟨c, rfl, hc⟩
  · cases c with
    | nil => exact List.cons.inj hc
    | cons x c =>
      obtain ⟨rfl, -⟩ := List.cons.inj hc
      exact absurd ⟨c, by simp⟩ (hstays.not_isPrefix hstays')
  · cases c with
    | nil => exact List.cons.inj hc.symm
    | cons x c =>
      obtain ⟨rfl, -⟩ := List.cons.inj hc
      exact absurd ⟨c, by simp⟩ (hstays'.not_isPrefix hstays)

/-- The closer of an opener is what tracking pairs with it. -/
theorem pairs_of_balanced (h : trackAll [] (before ++ t :: after) = .ok []) (ho : o ≠ .template)
    (ht : o.opens t = true) (hafter : after = inner ++ u :: rest) (hinner : Balanced (some o) inner)
    (hu : o.closes u = true) : Pairs before t after u rest := by
  rw [trackAll_append] at h
  obtain ⟨opened, hbefore, -⟩ := exists_of_bind_eq_ok h
  refine ⟨inner, hafter, opened, o, hbefore, track_of_opens (fun _ => ho) ht,
    fun front hfront => hinner.exists_trackAll_of_isPrefix rfl hfront, ?_⟩
  rw [trackAll_append, trackAll_of_balanced hinner rfl]
  change trackAll (o :: opened) [u] = _
  rw [trackAll_cons, track_of_closes hu]
  rfl

/-- The number of brackets that are open changes by the depth. -/
theorem countP_of_trackAll {ts : List Token} : ∀ {opened opened' : List Opener},
    trackAll opened ts = .ok opened' →
      (opened'.countP isBracket : Int) = opened.countP isBracket + Token.depth ts := by
  induction ts with
  | nil =>
    intro opened opened' h
    rw [← Except.ok.inj h, Token.depth_nil, Int.add_zero]
  | cons t ts ih =>
    intro opened opened' h
    rw [trackAll_cons] at h
    obtain ⟨next, hnext, hmore⟩ := exists_of_bind_eq_ok h
    rw [ih hmore, Token.depth_cons t ts, ← Int.add_assoc]
    rcases track_cases hnext with ⟨hdepth, x, hx, rfl⟩ | ⟨hdepth, b, hb, -, rfl⟩ |
      ⟨hdepth, rfl | ⟨x, hx, rfl | rfl⟩⟩
    · rw [List.countP_cons_of_pos hx]
      omega
    · rw [List.countP_cons_of_pos (isBracket_of_mem hb)]
      omega
    · omega
    · rw [List.countP_cons_of_neg (by simp [hx])]
      omega
    · rw [List.countP_cons_of_neg (by simp [hx])]
      omega

end Nesting

/-- Balanced tokens are balanced for a counter that does not tell brackets apart. -/
theorem Balanced.paired {outer : Option Opener} {ts : List Token} (h : Balanced outer ts) :
    Token.Paired ts := by
  have hhead : (outer.toList).head? = outer := by cases outer <;> rfl
  constructor
  · intro front hfront
    obtain ⟨more, hmore⟩ := h.exists_trackAll_of_isPrefix hhead hfront
    have hcount := Nesting.countP_of_trackAll hmore
    rw [List.countP_append] at hcount
    omega
  · have hcount := Nesting.countP_of_trackAll (Nesting.trackAll_of_balanced h hhead)
    omega

/-! ## What the counters find -/

namespace Submission

open Nesting

variable {before after inner rest : List Token} {t u : Token} {o : Opener}

theorem closing_of_balanced (hinner : Balanced (some .round) inner)
    (hu : Opener.round.closes u = true) :
    closing opensBracket closesBracket 1 (inner ++ u :: rest) = some (u, rest) := by
  have hcloses : closesBracket u = true := Token.closesBracket_iff.mpr
    ⟨(.round, "(".toList, ")".toList), by decide, by simpa [Opener.closes, Token.isSymbol] using hu⟩
  exact closing_eq_some_iff.mpr ⟨inner, rfl, hcloses, hinner.paired⟩

/-- A pattern in a statement is read up to the closer that tracking pairs with its first bracket. -/
theorem bracketed_iff_pairs {opener closer : String} (h : Balanced none (before ++ t :: after))
    (hopens : ∀ t : Token, t.isSymbol opener = o.opens t)
    (hcloses : ∀ t : Token, t.isSymbol closer = o.closes t) (ho : o ≠ .template)
    (ht : t.isSymbol opener = true) :
    (∃ last rest, bracketed opener closer (t :: after) = some ((t, last), rest)) ∧
      ∀ last rest, bracketed opener closer (t :: after) = some ((t, last), rest) ↔
        Pairs before t after last rest := by
  have htrack : trackAll [] (before ++ t :: after) = .ok [] := trackAll_of_balanced h rfl
  rw [hopens] at ht
  obtain ⟨inner, u, rest, rfl, hinner, hu⟩ := h.exists_closer ho ht rfl
  have hpairs := pairs_of_balanced htrack ho ht rfl hinner hu
  have hread : bracketed opener closer (t :: (inner ++ u :: rest)) = some ((t, u), rest) :=
    bracketed_of_balanced hopens hcloses ho ht hinner hu
  refine ⟨⟨u, rest, hread⟩, fun last rest' => ?_⟩
  rw [hread]
  refine ⟨fun heq => ?_, fun hpairs' => ?_⟩
  · simp only [Option.some.injEq, Prod.mk.injEq, true_and] at heq
    exact heq.1 ▸ heq.2 ▸ hpairs
  · obtain ⟨rfl, rfl⟩ := hpairs.unique hpairs'
    rfl

/-- A call of `import` with a string in a statement is closed by the parenthesis that tracking pairs
with its opening one. -/
theorem closing_iff_pairs_of_call {paren module : Token}
    (h : Balanced none (before ++ paren :: module :: after))
    (hparen : paren.kind = .symbol "(".toList) (hmodule : module.kind = .string) :
    (∃ inner close tail, after = inner ++ close :: tail ∧ Token.Paired inner ∧
      closesBracket close = true) ∧
      ∀ close tail, closing opensBracket closesBracket 1 after = some (close, tail) ↔
        close.kind = .symbol ")".toList ∧ Pairs before paren (module :: after) close tail := by
  have htrack : trackAll [] (before ++ paren :: module :: after) = .ok [] :=
    trackAll_of_balanced h rfl
  have hround : Opener.round.opens paren = true := by
    simp [Opener.opens, Token.isSymbol, hparen]
  have hneutral : module.IsNeutral :=
    Token.isNeutral_of_kind (by simp [hmodule]) (by simp [hmodule]) (by simp [hmodule])
  obtain ⟨inner, u, rest, hafter, hinner, hu⟩ := h.exists_closer (by decide) hround rfl
  have hpairs := pairs_of_balanced htrack (by decide) hround hafter hinner hu
  cases inner with
  | nil =>
    obtain ⟨rfl, -⟩ := List.cons.inj hafter
    simp [(hneutral _).2] at hu
  | cons x inner =>
    rw [List.cons_append, List.cons.injEq] at hafter
    obtain ⟨rfl, rfl⟩ := hafter
    have hoptions := hinner.of_neutral_cons hneutral
    have hclosing : closing opensBracket closesBracket 1 (inner ++ u :: rest) = some (u, rest) :=
      closing_of_balanced hoptions hu
    have hkind : u.kind = .symbol ")".toList := by
      simpa [Opener.closes, Token.isSymbol] using hu
    refine ⟨⟨inner, u, rest, rfl, hoptions.paired, ?_⟩, fun close tail => ?_⟩
    · exact Token.closesBracket_iff.mpr ⟨(.round, "(".toList, ")".toList), by decide, hkind⟩
    rw [hclosing]
    refine ⟨fun heq => ?_, fun hpairs' => ?_⟩
    · obtain ⟨rfl, rfl⟩ := Prod.mk.inj (Option.some.inj heq)
      exact ⟨hkind, hpairs⟩
    · obtain ⟨rfl, rfl⟩ := hpairs.unique hpairs'.2
      rfl

/-- In a statement that was cut, the reader of a pattern finds a closer for every brace and every
square bracket, and the reader of a dynamic import, after the word, the parenthesis and the string,
one for the parenthesis. Both are just the tokens that tracking pairs with the openers, though one
counts brackets of one kind alone and the other takes brackets of all kinds for one. -/
theorem closing_iff_pairs {ts : List Token} {groups : List (List Token)}
    (h : splitStatements ts = .ok groups) : ∀ g ∈ groups,
    (∀ brackets ∈ [("\x7b", "\x7d"), ("[", "]")], ∀ before t after, g = before ++ t :: after →
      t.isSymbol brackets.1 = true →
        (∃ last rest, bracketed brackets.1 brackets.2 (t :: after) = some ((t, last), rest)) ∧
        ∀ last rest, bracketed brackets.1 brackets.2 (t :: after) = some ((t, last), rest) ↔
          Pairs before t after last rest) ∧
    ∀ source before awaited word paren module after,
      g = before ++ (awaited ++ word :: paren :: module :: after) →
      (awaited = [] ∨ ∃ t, awaited = [t] ∧ t.kind = .keyword .awaitWord) →
      word.kind = .keyword .importWord → paren.kind = .symbol "(".toList → module.kind = .string →
        (dynamicImport source (awaited ++ word :: paren :: module :: after)).isSome = true ∧
        (∃ close tail, closing opensBracket closesBracket 1 after = some (close, tail)) ∧
        ∀ close tail, closing opensBracket closesBracket 1 after = some (close, tail) ↔
          close.kind = .symbol ")".toList ∧
            Pairs (before ++ awaited ++ [word]) paren (module :: after) close tail := by
  intro g hg
  have hbalanced := (division_of_splitStatements h).balanced g hg
  constructor
  · intro brackets hbrackets before t after heq ht
    rw [heq] at hbalanced
    simp only [List.mem_cons, List.not_mem_nil, or_false] at hbrackets
    rcases hbrackets with rfl | rfl
    · exact bracketed_iff_pairs (o := .curly) hbalanced (fun _ => rfl) (fun _ => rfl) (by decide) ht
    · exact bracketed_iff_pairs (o := .square) hbalanced (fun _ => rfl) (fun _ => rfl) (by decide)
        ht
  · intro source before awaited word paren module after heq hawaited hword hparen hmodule
    rw [heq] at hbalanced
    have hcall : Balanced none ((before ++ awaited ++ [word]) ++ paren :: module :: after) := by
      simpa using hbalanced
    obtain ⟨⟨inner, close, tail, rfl, hinner, hclose⟩, hiff⟩ :=
      closing_iff_pairs_of_call hcall hparen hmodule
    refine ⟨isSome_dynamicImport_iff.mpr ?_, ⟨close, tail, ?_⟩, hiff⟩
    · exact ⟨⟨awaited, word, paren, module, inner, close, tail, hawaited, hword, hparen, hmodule,
        hinner, hclose⟩, rfl⟩
    · exact closing_eq_some_iff.mpr ⟨inner, rfl, hclose, hinner⟩

/-- A pattern with a template literal in it, and a call with parentheses in its options. -/
theorem closing_iff_pairs_template :
    ∃ word brace inner last equals call paren module options close,
      splitStatements (Token.tokenize
        "let \x7ba=`$\x7b[b]\x7d`\x7d=import('c',(d))".toList) =
          .ok [word :: brace :: (inner ++ last :: equals :: call :: paren :: module ::
            (options ++ [close]))] ∧
      [brace, last, paren, close].map Token.start = [4, 15, 23, 31] ∧
      Pairs [word] brace
        (inner ++ last :: equals :: call :: paren :: module :: (options ++ [close])) last
        (equals :: call :: paren :: module :: (options ++ [close])) ∧
      Pairs (word :: brace :: (inner ++ [last, equals, call])) paren
        (module :: (options ++ [close])) close [] := by
  let word : Token := ⟨.keyword .letWord, "let".toList, 0, 3⟩
  let brace : Token := ⟨.symbol "\x7b".toList, "\x7b".toList, 4, 5⟩
  let inner : List Token :=
    [⟨.name, "a".toList, 5, 6⟩, ⟨.symbol "=".toList, "=".toList, 6, 7⟩,
      ⟨.backtick, "`".toList, 7, 8⟩, ⟨.interpolation, "$\x7b".toList, 8, 10⟩,
      ⟨.symbol "[".toList, "[".toList, 10, 11⟩, ⟨.name, "b".toList, 11, 12⟩,
      ⟨.symbol "]".toList, "]".toList, 12, 13⟩, ⟨.interpolation, "\x7d".toList, 13, 14⟩,
      ⟨.backtick, "`".toList, 14, 15⟩]
  let last : Token := ⟨.symbol "\x7d".toList, "\x7d".toList, 15, 16⟩
  let equals : Token := ⟨.symbol "=".toList, "=".toList, 16, 17⟩
  let call : Token := ⟨.keyword .importWord, "import".toList, 17, 23⟩
  let paren : Token := ⟨.symbol "(".toList, "(".toList, 23, 24⟩
  let module : Token := ⟨.string, "'c'".toList, 24, 27⟩
  let options : List Token :=
    [⟨.symbol ",".toList, ",".toList, 27, 28⟩, ⟨.symbol "(".toList, "(".toList, 28, 29⟩,
      ⟨.name, "d".toList, 29, 30⟩, ⟨.symbol ")".toList, ")".toList, 30, 31⟩]
  let close : Token := ⟨.symbol ")".toList, ")".toList, 31, 32⟩
  have hsplit : (splitStatements (Token.tokenize
      "let \x7ba=`$\x7b[b]\x7d`\x7d=import('c',(d))".toList)).toOption =
        some [word :: brace :: (inner ++ last :: equals :: call :: paren :: module ::
          (options ++ [close]))] := by
    decide +kernel
  obtain ⟨hpattern, hcall⟩ :=
    closing_iff_pairs (eq_ok_of_toOption hsplit) _ (List.mem_singleton_self _)
  obtain ⟨-, hpattern⟩ :=
    hpattern ("\x7b", "\x7d") (by simp) [word] brace _ rfl (by decide)
  obtain ⟨-, -, hcall⟩ := hcall [] (word :: brace :: (inner ++ [last, equals])) [] call paren module
    (options ++ [close]) rfl (Or.inl rfl) rfl rfl rfl
  refine ⟨word, brace, inner, last, equals, call, paren, module, options, close,
    eq_ok_of_toOption hsplit, rfl, ?_, ?_⟩
  · exact (hpattern last _).mp rfl
  · exact ((hcall close []).mp rfl).2

end Submission

end ReplCore
