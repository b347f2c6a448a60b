import ReplCore.Proofs.Submission.Lossless
import ReplCore.Proofs.Submission.Neighbours
import ReplCore.Rewriting.Transpiler

/-!
# Words that the search finds

A statement that a rule may apply to has a keyword or a name in it that the rule goes by. The search
for words finds it in the source as long as no word goes on next to it, and the token before it and
the one after it see to that.

* `hasWord_of_importing`, `hasWord_of_binding`, `hasWord_of_declaration`: the word that a statement
  has in it is found.
-/

namespace ReplCore

open Cursor

/-! ## The search for words -/

namespace RewriteOptions

/-- A word with its edges on both sides is found from any place before it. -/
theorem hasWord_of_spans {words : List String} {w : String} (hw : w ∈ words) {d e : Cursor}
    (hspans : Spans d w.toList e) (hd : d.isWordEdge = true) (he : e.isWordEdge = true)
    (hne : w.toList ≠ []) {t : Text} : ∀ {c : Cursor}, Spans c t d →
      hasWord words c.before c.rest = true := by
  induction t with
  | nil =>
    intro c hc
    obtain rfl := hc.unique (.refl c)
    obtain ⟨x, xs, hrest⟩ := List.exists_cons_of_ne_nil
      (show d.rest ≠ [] by simp [hspans.rest_eq, hne])
    have hmem : e ∈ (Pattern.seq .wordEdge (.wholeWordOf words)).ends ⟨d.before, x :: xs⟩ := by
      rw [← hrest]
      exact Pattern.mem_ends_seq.mpr ⟨d, Pattern.mem_ends_place.mpr ⟨hd, rfl⟩,
        Pattern.mem_ends_wholeWordOf.mpr ⟨⟨w, hw, hspans⟩, he⟩⟩
    have hends := List.ne_nil_of_mem hmem
    rw [hrest, hasWord, Bool.or_eq_true]
    left
    simpa using hends
  | cons x t ih =>
    intro c hc
    obtain ⟨c', hx, ht⟩ := Spans.of_append (t := [x]) hc
    have hbefore : c'.before = some x := hx.before_some rfl
    have := ih ht
    rw [hbefore] at this
    rw [hx.rest_eq, List.singleton_append, hasWord, this, Bool.or_true]

end RewriteOptions

theorem Text.occursIn_of_isInfix {needle : Text} : ∀ {t : Text}, needle <:+: t →
    occursIn needle t = true
  | [], h => by
    rw [List.infix_nil.mp h]
    rfl
  | c :: rest, h => by
    rw [occursIn, Bool.or_eq_true, List.isPrefixOf_iff_prefix]
    rcases List.infix_cons_iff.mp h with h | h
    · exact Or.inl h
    · exact Or.inr (occursIn_of_isInfix h)

/-! ## Tokens next to a word -/

namespace Token

/-- Whether a word may start right after the token. -/
def Leads (t : Token) : Prop :=
  t.separates = true ∨ t.kind = .symbol "=".toList ∨ t.kind = .symbol ".".toList ∨
    t.kind = .keyword .awaitWord

/-- Whether a word may end right before the token. -/
def Follows (t : Token) : Prop :=
  t.separates = true ∨ t.kind = .string ∨ t.kind = .name ∨ t.kind = .symbol "*".toList ∨
    t.kind = .symbol "\x7b".toList ∨ t.kind = .symbol "(".toList

end Token

namespace TokenRead

variable {b c d e : Cursor} {t u : Token}

/-- The character before a place after a token is the last of the token. -/
theorem before_eq (h : TokenRead b t c) : c.before = t.text.getLast? := by
  rw [h.spans.before_eq, List.getLast?_eq_some_getLast h.ne_nil]
  rfl

/-- The character at a place before a token is the first of the token. -/
theorem isAt_eq (h : TokenRead b t c) (p : Char → Bool) : b.isAt p = t.text.head?.any p := by
  obtain ⟨x, xs, htext⟩ := List.exists_cons_of_ne_nil h.ne_nil
  have hspans := h.spans
  rw [htext] at hspans
  rw [htext, hspans.isAt_eq]
  rfl

/-- What separates ends with no character of a word, unless a line ends there. -/
theorem before_of_separates (h : TokenRead b t c) (ht : t.separates = true) :
    c.before.any CharClass.isWord = false ∨ c.isLineEnd = true := by
  rw [h.before_eq]
  have hblank : (∀ x ∈ t.text, CharClass.isBlank x = true) →
      t.text.getLast?.any CharClass.isWord = false := by
    intro hall
    rw [List.getLast?_eq_some_getLast h.ne_nil]
    exact CharClass.isWord_of_isBlank (hall _ (List.getLast_mem h.ne_nil))
  simp only [Token.separates, Token.isIgnored, Token.isSymbol, Bool.or_eq_true,
    decide_eq_true_eq] at ht
  rcases ht with ((hkind | hkind) | hkind) | hkind
  · exact Or.inl (hblank (h.of_kind hkind))
  · exact Or.inl (hblank (h.of_kind hkind))
  · refine (h.of_kind hkind).2.imp_left fun hlast => ?_
    rw [List.getLast?_eq_some_getLast h.ne_nil] at hlast ⊢
    simpa using hlast
  · rw [show t.text = ";".toList from h.of_kind hkind]
    exact Or.inl (CharClass.isWord_of_mem_aroundWords (c := ';') (by decide))

/-- What separates begins with no character of a word. -/
theorem isAt_of_separates (h : TokenRead b t c) (ht : t.separates = true) :
    b.isAt CharClass.isWord = false := by
  rw [h.isAt_eq]
  obtain ⟨x, xs, htext⟩ := List.exists_cons_of_ne_nil h.ne_nil
  rcases h.piece_of_separates ht with hblank | hsemicolon | hcomment
  · rw [htext] at hblank ⊢
    exact CharClass.isWord_of_isBlank (hblank x List.mem_cons_self)
  · rw [hsemicolon]
    exact CharClass.isWord_of_mem_aroundWords (c := ';') (by decide)
  · obtain ⟨y, ys, heq, hy⟩ := hcomment.isWord_head
    rw [heq]
    exact hy

theorem wordRead (h : TokenRead c t d) (ht : t.kind = .name ∨ ∃ k, t.kind = .keyword k) :
    WordRead c t.text d := by
  rcases ht with ht | ⟨k, ht⟩
  · exact (h.of_kind ht).2
  · exact (h.of_kind ht).2

/-- No word goes on from a token that leads. -/
theorem before_of_leads (h : TokenRead b t c) (ht : t.Leads) {x : Char}
    (hx : c.rest.head? = some x) (hlatin : (Grammar.isLatin x || Grammar.isDecimal x) = true) :
    c.before.any CharClass.isWord = false := by
  obtain ⟨hword, hcontinues⟩ := CharClass.isWord_of_isLatin hlatin
  have hat : ∀ p : Char → Bool, c.isAt p = p x := fun p => by rw [Cursor.isAt, hx]; rfl
  rcases ht with hseparates | hequals | hdot | hawait
  · refine (h.before_of_separates hseparates).resolve_right fun hend => ?_
    rw [Cursor.isLineEnd, hx] at hend
    obtain rfl : x = '\n' := by simpa using hend
    rw [CharClass.isWord_of_mem_aroundWords (by decide)] at hword
    cases hword
  · rw [h.before_eq, show t.text = "=".toList from h.of_kind hequals]
    exact CharClass.isWord_of_mem_aroundWords (c := '=') (by decide)
  · rw [h.before_eq, show t.text = ".".toList from h.of_kind hdot]
    exact CharClass.isWord_of_mem_aroundWords (c := '.') (by decide)
  · -- The word `await` would have gone on over the character.
    rcases (h.wordRead (Or.inr ⟨_, hawait⟩)).ends with hends | ⟨hends, -⟩
    · rw [hat, hword] at hends
      cases hends
    · rw [hat, hcontinues] at hends
      cases hends

/-- A name does not start where a word has just ended, if that goes on in it. -/
theorem isAt_of_name (h : TokenRead c t d) (ht : t.kind = .name ∨ ∃ k, t.kind = .keyword k)
    (hword : ∀ x ∈ t.text, CharClass.isWord x = true) (hu : TokenRead d u e)
    (hname : u.kind = .name) : d.isAt CharClass.isWord = false := by
  rcases (h.wordRead ht).ends with hends | ⟨hends, huntyped⟩
  · exact hends
  rcases (hu.of_kind hname).2.starts with hcontinues | hbefore | htyped
  · rw [← hu.isAt_eq, hends] at hcontinues
    cases hcontinues
  · rw [h.before_eq, List.getLast?_eq_some_getLast h.ne_nil] at hbefore
    have hlast := hword _ (List.getLast_mem h.ne_nil)
    simp only [Option.any_some, Bool.or_eq_true, beq_iff_eq] at hbefore
    rcases hbefore with hblank | hcolon
    · rw [CharClass.isWord_of_isBlank hblank] at hlast
      cases hlast
    · rw [hcolon, CharClass.isWord_of_mem_aroundWords (by decide)] at hlast
      cases hlast
  · -- What is annotated here would be so from the start of the word on.
    have hdotted : ∀ x ∈ t.text, Grammar.isDotted x = true := fun x hx => by
      simp [Grammar.isDotted, hword x hx]
    have := LexRule.annotation_of_spans h.spans hdotted htyped
    rw [huntyped] at this
    cases this

/-- No word goes on to a token that follows. -/
theorem isAt_of_follows (h : TokenRead c t d) (ht : t.kind = .name ∨ ∃ k, t.kind = .keyword k)
    (hword : ∀ x ∈ t.text, CharClass.isWord x = true) (hu : TokenRead d u e)
    (hfollows : u.Follows) : d.isAt CharClass.isWord = false := by
  rcases hfollows with hseparates | hstring | hname | hstar | hbrace | hparen
  · exact hu.isAt_of_separates hseparates
  · obtain ⟨x, hx, hquote⟩ := (Option.any_eq_true _ _).mp (hu.of_kind hstring)
    rw [hu.isAt_eq, hx, Option.any_some]
    rw [Bool.or_eq_true, beq_iff_eq, beq_iff_eq] at hquote
    rcases hquote with rfl | rfl
    · exact CharClass.isWord_of_mem_aroundWords (by decide)
    · exact CharClass.isWord_of_mem_aroundWords (by decide)
  · exact h.isAt_of_name ht hword hu hname
  · rw [hu.isAt_eq, show u.text = "*".toList from hu.of_kind hstar]
    exact CharClass.isWord_of_mem_aroundWords (c := '*') (by decide)
  · rw [hu.isAt_eq, show u.text = "\x7b".toList from hu.of_kind hbrace]
    exact CharClass.isWord_of_mem_aroundWords (c := '\x7b') (by decide)
  · rw [hu.isAt_eq, show u.text = "(".toList from hu.of_kind hparen]
    exact CharClass.isWord_of_mem_aroundWords (c := '(') (by decide)

end TokenRead

/-! ## Words of statements -/

namespace Submission

open RewriteOptions

/-- A token of a source with the places around it. The text goes on after it as the source does. -/
theorem exists_tokenRead {source : Text} {before after : List Token} {t : Token}
    (h : Token.tokenize source = before ++ t :: after) : ∃ c d e,
      Chain TokenRead (.start source) before c ∧ TokenRead c t d ∧ Chain TokenRead d after e ∧
        d.rest = source.drop t.stop ∧ e.rest = [] := by
  obtain ⟨e, hchain⟩ := chain_tokenize source
  have hstanding := Token.standing_tokenize source
  have hsource : source = (Token.tokenize source).flatMap Token.text ++ e.rest :=
    (spans_of_chain hchain).rest_eq
  rw [h] at hchain hstanding
  obtain ⟨c, hbefore, hrest⟩ := hchain.of_append
  obtain ⟨d, ht, hafter⟩ := hrest.of_cons
  refine ⟨c, d, e, hbefore, ht, hafter, ?_, ?_⟩
  · have hstart : source = (before.flatMap Token.text ++ t.text) ++ d.rest :=
      ((spans_of_chain hbefore).trans ht.spans).rest_eq
    have hstop : t.stop = (before.flatMap Token.text ++ t.text).length := by
      have := (Token.contiguous_append.mp hstanding.contiguous).2.2.1
      rw [this, List.length_append, Token.width]
      omega
    rw [hstop]
    conv => rhs; rw [hstart]
    rw [List.drop_left]
  · rw [Token.flatMap_text_tokenize] at hsource
    simpa using hsource

/-- No word goes on to a place after tokens the last of which leads. -/
theorem before_of_chain {source : Text} {before : List Token} {c : Cursor}
    (h : Chain TokenRead (.start source) before c) (hleads : ∀ p ∈ before.getLast?, p.Leads)
    {x : Char} (hx : c.rest.head? = some x)
    (hlatin : (Grammar.isLatin x || Grammar.isDecimal x) = true) :
    c.before.any CharClass.isWord = false := by
  rcases List.eq_nil_or_concat before with rfl | ⟨earlier, p, rfl⟩
  · cases h
    rfl
  · rw [List.concat_eq_append] at h hleads
    obtain ⟨b, -, hlast⟩ := h.of_append
    obtain ⟨c', hp, hnil⟩ := hlast.of_cons
    cases hnil
    exact hp.before_of_leads (hleads p (by simp)) hx hlatin

/-- The words that the search looks for, but for the tag of shell commands, have letters alone. -/
theorem areWords_of_mem {w : String} (hw : w ∈ ["import", "require", "let", "const"]) :
    LexRule.areWords [w] = true := by
  have hall : (["import", "require", "let", "const"].all fun w => LexRule.areWords [w]) = true := by
    decide +kernel
  exact List.all_eq_true.mp hall w hw

/-- A word is found if the token before it leads and the one after it follows, or the source goes on
with no character of a word. -/
theorem hasWord_of_standsApart {source : Text} {words : List String} {w : String} (hw : w ∈ words)
    (hlatin : LexRule.areWords [w] = true) {a b : List Token} {t : Token}
    (h : StandsApart (Token.tokenize source) (a ++ t :: b)) (htext : t.text = w.toList)
    (hkind : t.kind = .name ∨ ∃ k, t.kind = .keyword k) (ha : ∀ p ∈ a.getLast?, p.Leads)
    (hb : ∀ q ∈ b.head?, q.Follows ∨ (source.drop t.stop).head?.any CharClass.isWord = false) :
    hasWord words none source = true := by
  obtain ⟨before, after, htokens, hbefore, hafter⟩ := h.exists_neighbours
  obtain ⟨c, d, e, hchain, ht, hmore, hrest, hend⟩ := exists_tokenRead htokens
  have hletter : ∀ x ∈ t.text, (Grammar.isLatin x || Grammar.isDecimal x) = true := by
    rw [LexRule.areWords, List.all_cons, Bool.and_eq_true, Bool.and_eq_true] at hlatin
    rw [htext]
    exact List.all_eq_true.mp hlatin.1.2
  have hword : ∀ x ∈ t.text, CharClass.isWord x = true := fun x hx =>
    (CharClass.isWord_of_isLatin (hletter x hx)).1
  obtain ⟨x, xs, hx⟩ := List.exists_cons_of_ne_nil ht.ne_nil
  have hmem : x ∈ t.text := by simp [hx]
  have hfirst : c.before.any CharClass.isWord = false := by
    have hleads : ∀ p ∈ before.getLast?, p.Leads := fun p hp =>
      (hbefore p hp).elim Or.inl (ha p)
    have hhead : c.rest.head? = some x := by rw [ht.spans.rest_eq, hx]; rfl
    exact before_of_chain hchain hleads hhead (hletter x hmem)
  have hlast : d.isAt CharClass.isWord = false := by
    cases hmore with
    | nil =>
      rw [Cursor.isAt, hend]
      rfl
    | @cons _ d' _ q _ hq _ =>
      rcases hafter q (by simp) with hseparates | hhead
      · exact hq.isAt_of_separates hseparates
      · rcases hb q hhead with hfollows | hsource
        · exact ht.isAt_of_follows hkind hword hq hfollows
        · rwa [Cursor.isAt, hrest]
  refine hasWord_of_spans hw (htext ▸ ht.spans) ?_ ?_ (htext ▸ ht.ne_nil) (spans_of_chain hchain)
  · rw [Cursor.isWordEdge, hfirst, ht.isAt_eq, hx]
    simpa using hword x hmem
  · rw [Cursor.isWordEdge, hlast, ht.before_eq, List.getLast?_eq_some_getLast ht.ne_nil]
    simpa using hword _ (List.getLast_mem ht.ne_nil)

theorem exists_of_forall₂_mem {α β : Type} {R : α → β → Prop} {as : List α} {bs : List β}
    (h : List.Forall₂ R as bs) {b : β} (hb : b ∈ bs) : ∃ a ∈ as, R a b := by
  induction h with
  | nil => cases hb
  | @cons a _ _ _ head _ ih =>
    rcases List.mem_cons.mp hb with rfl | hb
    · exact ⟨a, List.mem_cons_self, head⟩
    · obtain ⟨a, ha, hab⟩ := ih hb
      exact ⟨a, List.mem_cons_of_mem _ ha, hab⟩

/-- The statements that were read, with their tokens. -/
theorem exists_of_mem_statements {source : Text} {s : Submission} (h : read source = .ok s)
    {st : Statement} (hst : st ∈ s.statements) : ∃ ts, StandsApart (Token.tokenize source) ts ∧
      readStatement source ts = .ok st := by
  obtain ⟨-, groups, hgroups, hread⟩ := exists_of_read h
  obtain ⟨ts, hts, -, hstatement⟩ := exists_of_forall₂_mem hread hst
  exact ⟨ts, (cuts_of_splitStatements hgroups).standsApart hts, hstatement⟩

section

variable {source : Text} {ts : List Token} {st : Statement} {words : List String}

theorem hasWord_of_importing (h : StandsApart (Token.tokenize source) ts)
    (hread : readStatement source ts = .ok st) {specifier : Text} {clause : ImportClause}
    (hform : st.form = .importing specifier clause) (hw : "import" ∈ words) :
    hasWord words none source = true := by
  have himport := readStatement_form hread
  rw [hform] at himport
  obtain ⟨word, t, us, module, clause, rfl, hword, hnext, -⟩ := importStatement_eq_some himport
  have htext := text_of_keyword (h.sublist.subset List.mem_cons_self) hword
  refine hasWord_of_standsApart (a := []) hw (areWords_of_mem (by simp)) h htext (Or.inr ⟨_, hword⟩)
    (by simp) ?_
  intro q hq
  obtain rfl : t = q := by simpa using hq
  rcases hnext with hstring | hname | hstar | hbrace
  · exact Or.inl (Or.inr (Or.inl hstring))
  · exact Or.inl (Or.inr (Or.inr (Or.inl hname)))
  · exact Or.inl (Or.inr (Or.inr (Or.inr (Or.inl hstar))))
  · exact Or.inl (Or.inr (Or.inr (Or.inr (Or.inr (Or.inl hbrace)))))

/-- The first token of a statement stops before the last, if it is another one. -/
theorem stop_lt_of_getLast? {word last : Token} {us : List Token}
    (h : StandsApart (Token.tokenize source) (word :: us))
    (hlast : (word :: us).getLast? = some last) (hne : us ≠ []) : word.stop < last.stop := by
  have hcontiguous := (Token.standing_tokenize source).contiguous
  have hmem : last ∈ us := by
    obtain ⟨u, us, rfl⟩ := List.exists_cons_of_ne_nil hne
    rw [List.getLast?_cons_cons] at hlast
    exact List.mem_of_getLast? hlast
  have horder := (List.pairwise_cons.mp (hcontiguous.pairwise.sublist h.sublist)).1 last hmem
  have hpos := hcontiguous.start_lt_stop last (h.sublist.subset (List.mem_cons_of_mem word hmem))
  omega

/-- A declaration is its word and its body, which starts where the word stops. -/
theorem exists_of_declaration (h : StandsApart (Token.tokenize source) ts)
    (hread : readStatement source ts = .ok st) {kind : DeclarationKind} {body : Text}
    {binding : Option ModuleBinding} (hform : st.form = .declaration kind body binding) :
    ∃ word us k, ts = word :: us ∧ word.kind = .keyword k ∧ word.text = kind.spelling ∧
      (∀ b, binding = some b → Loads us b.load) ∧ st.text = kind.spelling ++ body ∧
      (us ≠ [] → body.head? = (source.drop word.stop).head?) := by
  have hdeclaration := readStatement_form hread
  rw [hform] at hdeclaration
  obtain ⟨kind, word, k, us, last, binding, rfl, hword, hspelling, hlast, hloads, rfl⟩ :=
    declaration_eq_some hdeclaration
  cases hform
  have hmem : word ∈ Token.tokenize source := h.sublist.subset List.mem_cons_self
  have hstanding := Token.standing_tokenize source
  have htext : word.text = kind.spelling := by rw [text_of_keyword hmem hword, hspelling]
  have hle : word.stop ≤ last.stop := by
    cases us with
    | nil =>
      obtain rfl : word = last := by simpa using hlast
      exact Nat.le_refl _
    | cons u us => exact Nat.le_of_lt (stop_lt_of_getLast? h hlast (by simp))
  refine ⟨word, us, k, rfl, hword, htext, hloads, ?_, ?_⟩
  · have hpos := (hstanding.contiguous.start_lt_stop word hmem).2
    rw [← htext, ← hstanding.slice_of_mem hmem,
      Text.slice_append_slice source (Nat.le_of_lt hpos) hle]
    rfl
  · intro hne
    have hlt := stop_lt_of_getLast? h hlast hne
    rw [Text.slice, List.head?_drop, List.head?_drop, List.getElem?_take, if_pos hlt]

/-- The word with which a module is loaded. -/
def loadingWord : ModuleLoad → String
  | .require .. => "require"
  | .dynamicImport .. => "import"

theorem hasWord_of_binding (h : StandsApart (Token.tokenize source) ts)
    (hread : readStatement source ts = .ok st) {kind : DeclarationKind} {body : Text}
    {b : ModuleBinding} (hform : st.form = .declaration kind body (some b))
    (hw : loadingWord b.load ∈ words) : hasWord words none source = true := by
  obtain ⟨word, us, k, rfl, -, -, hloads, -, -⟩ := exists_of_declaration h hread hform
  obtain ⟨a, p, callee, paren, rest, rfl, hparen, hcallee⟩ := hloads b rfl
  have h : StandsApart (Token.tokenize source)
      ((word :: (a ++ [p])) ++ callee :: paren :: rest) := by
    simpa using h
  have hlast : ∀ q ∈ (word :: (a ++ [p])).getLast?, q = p := by simp [List.getLast?_cons, eq_comm]
  have hnext : ∀ q ∈ (paren :: rest).head?,
      q.Follows ∨ (source.drop callee.stop).head?.any CharClass.isWord = false := by
    intro q hq
    obtain rfl : paren = q := by simpa using hq
    exact Or.inl (Or.inr (Or.inr (Or.inr (Or.inr (Or.inr hparen)))))
  cases hload : b.load with
  | require span specifier =>
    rw [hload] at hw hcallee
    obtain ⟨hkind, htext, hp⟩ := hcallee
    refine hasWord_of_standsApart (w := "require") hw (areWords_of_mem (by simp)) h htext
      (Or.inl hkind)
      ?_ hnext
    intro q hq
    rw [hlast q hq]
    rcases hp with hp | hp
    · exact Or.inr (Or.inl hp)
    · exact Or.inr (Or.inr (Or.inl hp))
  | dynamicImport span specifier literal lead options tail =>
    rw [hload] at hw hcallee
    obtain ⟨hkind, hp⟩ := hcallee
    have htext := text_of_keyword (h.sublist.subset (by simp)) hkind
    refine hasWord_of_standsApart (w := "import") hw (areWords_of_mem (by simp)) h htext
      (Or.inr ⟨_, hkind⟩) ?_ hnext
    intro q hq
    rw [hlast q hq]
    rcases hp with hp | hp
    · exact Or.inr (Or.inl hp)
    · exact Or.inr (Or.inr (Or.inr hp))

/-- The word of a declaration is found, unless a character of a word follows it at once. -/
theorem hasWord_of_declaration (h : StandsApart (Token.tokenize source) ts)
    (hread : readStatement source ts = .ok st) {kind : DeclarationKind} {body : Text}
    {binding : Option ModuleBinding} (hform : st.form = .declaration kind body binding)
    (hbody : body.head?.any CharClass.isWord = false) {w : String} (hw : w ∈ words)
    (hlatin : LexRule.areWords [w] = true) (hspelling : kind.spelling = w.toList) :
    hasWord words none source = true := by
  obtain ⟨word, us, k, rfl, hword, htext, -, -, hhead⟩ := exists_of_declaration h hread hform
  refine hasWord_of_standsApart (a := []) hw hlatin h (htext.trans hspelling)
    (Or.inr ⟨k, hword⟩) (by simp) ?_
  intro q hq
  right
  rwa [← hhead (by rintro rfl; simp at hq)]

/-- The text of a statement stands in the source. -/
theorem text_isInfix (hread : readStatement source ts = .ok st) (hne : ts ≠ []) :
    st.text <:+: source := by
  rw [(covers_of_readStatement hne hread).text_eq, Text.slice]
  exact (List.drop_suffix _ _).isInfix.trans (List.take_prefix _ _).isInfix

end

end Submission

end ReplCore
