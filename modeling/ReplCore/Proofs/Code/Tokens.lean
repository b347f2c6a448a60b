import ReplCore.Code.Lexer.Lemmas
import ReplCore.Proofs.Code.Rules

/-!
# What tokens look like

Whatever state the lexer is in, it reads by the rules of the grammar or takes a single character, so
the tokens of a source follow one another from its start, each as its kind promises.

* `chain_tokenize`: every token of a source is as its kind promises.
-/

namespace ReplCore

open Cursor

namespace Lexer

/-! ## Lexemes -/

theorem chain_of_byRules {rules : List LexRule} (hrules : ∀ r ∈ rules, r.Reads) {s : LexState}
    {c : Cursor} {r : Reading} (h : byRules rules s c = some r) :
    Chain LexemeRead c r.lexemes r.next := by
  obtain ⟨rule, hmem, hmap⟩ := List.exists_of_findSome?_eq_some h
  obtain ⟨⟨ls, d⟩, hls, rfl⟩ := Option.map_eq_some_iff.mp hmap
  exact hrules rule hmem c ls d hls

theorem chain_of_single {type : TokenType} (htype : type.isPlain = true) {s : LexState} {c : Cursor}
    {r : Reading} (h : single type s c = some r) : Chain LexemeRead c r.lexemes r.next := by
  obtain ⟨x, hx, rfl⟩ := Option.map_eq_some_iff.mp h
  obtain ⟨xs, hrest⟩ := List.head?_eq_some_iff.mp hx
  have hspans : Spans c [x] (c.advance 1) := by
    have := Spans.advance (n := 1) (c := c)
    simpa [hrest] using this
  exact .single (.plain hspans htype)

theorem chain_of_or {a b : Option Reading} {c : Cursor}
    (ha : ∀ r, a = some r → Chain LexemeRead c r.lexemes r.next)
    (hb : a = none → ∀ r, b = some r → Chain LexemeRead c r.lexemes r.next) {r : Reading}
    (h : a.or b = some r) : Chain LexemeRead c r.lexemes r.next := by
  rcases Option.or_eq_some_iff.mp h with h | ⟨ha, h⟩
  · exact ha r h
  · exact hb ha r h

theorem byRules_append (rules rules' : List LexRule) (s : LexState) (c : Cursor) :
    byRules (rules ++ rules') s c = (byRules rules s c).or (byRules rules' s c) :=
  List.findSome?_append

/-- The rule for identifiers is tried where a name is not annotated with a type. -/
theorem chain_of_code {s : LexState} {c : Cursor} {r : Reading}
    (h : byRules Grammar.code s c = some r) : Chain LexemeRead c r.lexemes r.next := by
  rw [Grammar.code, byRules_append] at h
  refine chain_of_or (fun _ => chain_of_byRules LexRule.reads_wordsAndSigns)
    (fun hnone r hr => ?_) h
  have huntyped : Grammar.annotationRule.match? c = none := by
    have := List.findSome?_eq_none_iff.mp hnone Grammar.annotationRule
      (by simp [Grammar.wordsAndSigns])
    exact Option.map_eq_none_iff.mp this
  rw [byRules, List.findSome?_cons] at hr
  split at hr
  · next hidentifier =>
    obtain ⟨⟨ls, d⟩, hls, hreading⟩ := Option.map_eq_some_iff.mp hidentifier
    obtain rfl := Option.some.inj hr
    obtain rfl := hreading
    exact LexRule.chain_of_identifier huntyped hls
  · exact chain_of_byRules LexRule.reads_literals hr

theorem chain_of_rulesIn {enclosing : List Enclosure} {s : LexState} {c : Cursor} {r : Reading}
    (h : byRules (rulesIn enclosing) s c = some r) : Chain LexemeRead c r.lexemes r.next := by
  unfold rulesIn at h
  split at h
  · exact chain_of_byRules LexRule.reads_template h
  · rw [← List.singleton_append, byRules_append] at h
    refine chain_of_or (fun _ => chain_of_byRules fun rule hrule => ?_) (fun _ _ => chain_of_code) h
    rw [List.mem_singleton.mp hrule]
    exact LexRule.reads_of_plain rfl
  · exact chain_of_code h

theorem chain_of_orError {enclosing : List Enclosure} {s : LexState} {c : Cursor} {r : Reading}
    (h : orError (rulesIn enclosing) s c = some r) : Chain LexemeRead c r.lexemes r.next :=
  chain_of_or (fun _ => chain_of_rulesIn) (fun _ _ => chain_of_single rfl) h

theorem chain_of_expectingOperand {s : LexState} {c : Cursor} {r : Reading}
    (h : expectingOperand s c = some r) : Chain LexemeRead c r.lexemes r.next := by
  refine chain_of_or (fun _ => chain_of_byRules LexRule.reads_operand) (fun _ r hr => ?_) h
  split at hr
  · exact chain_of_single rfl hr
  · exact chain_of_orError hr

theorem chain_of_step {s : LexState} {c : Cursor} {r : Reading} (h : step s c = some r) :
    Chain LexemeRead c r.lexemes r.next := by
  unfold step at h
  split at h
  · unfold afterBadSlash at h
    split at h
    · exact chain_of_single rfl h
    · exact chain_of_single rfl h
  · exact chain_of_expectingOperand h
  · split at h
    · exact chain_of_expectingOperand h
    · exact chain_of_orError h

theorem chain_run : ∀ (bound : Text) (s : LexState) (c : Cursor),
    ∃ d, Chain LexemeRead c (run bound s c) d
  | [], _, c => ⟨c, .nil c⟩
  | _ :: bound, s, c => by
    unfold run
    split
    · exact ⟨c, .nil c⟩
    · next r hr =>
      obtain ⟨d, hd⟩ := chain_run bound r.state r.next
      exact ⟨d, (chain_of_step hr).append hd⟩

/-- Every lexeme of a source is as its type promises. -/
theorem chain_lex (source : Text) : ∃ d, Chain LexemeRead (.start source) (lex source) d :=
  chain_run source .initial (.start source)

end Lexer

/-! ## Tokens -/

/-- What a kind promises of the text of a token and of the places before and after it. -/
def TokenKind.Promises (c : Cursor) (t : Text) (d : Cursor) : TokenKind → Prop
  | .whitespace | .newline => ∀ x ∈ t, CharClass.isBlank x = true
  | .comment => IsCommentAt c t ∧
    (t.getLast?.all (fun x => !CharClass.isWord x) = true ∨ d.isLineEnd = true)
  | .backtick => t = "`".toList
  | .string => t.head?.any (fun x => x == '\x22' || x == '\'') = true
  | .name => isWordLike t = true ∧ WordRead c t d
  | .keyword k => t = k.spelling ∧ WordRead c t d
  | .symbol s => t = s
  | .templateText | .interpolation | .regex | .number | .error => True

/-- A token between two places is as its kind promises. -/
structure TokenRead (c : Cursor) (t : Token) (d : Cursor) : Prop where
  spans : Spans c t.text d
  ne_nil : t.text ≠ []
  promises : t.kind.Promises c t.text d

theorem TokenRead.of_kind {c d : Cursor} {t : Token} (h : TokenRead c t d) {k : TokenKind}
    (hk : t.kind = k) : k.Promises c t.text d := hk ▸ h.promises

/-- Tokens one after the other pass over their texts. -/
theorem spans_of_chain {c d : Cursor} {ts : List Token} (h : Chain TokenRead c ts d) :
    Spans c (ts.flatMap Token.text) d := h.spans fun h => h.spans

theorem Keyword.spelling_of_ofSpelling? {t : Text} {k : Keyword} (h : ofSpelling? t = some k) :
    t = k.spelling := by
  have := List.find?_some h
  exact (of_decide_eq_true this).symm

theorem promises_ofLexeme {c d : Cursor} {l : Lexeme} (h : LexemeRead c l d) :
    (TokenKind.ofLexeme l).Promises c l.text d := by
  unfold TokenKind.ofLexeme
  split
  · next hblank =>
    rw [Bool.and_eq_true, List.all_eq_true] at hblank
    split
    · exact hblank.1
    · exact hblank.1
  split
  · next hcomment => exact h.comment hcomment
  split
  · split
    · next htick => exact htick
    · trivial
  next htick =>
  split
  · trivial
  next hinterpolation =>
  split
  · trivial
  next hregex =>
  split
  · next hstring =>
    rw [Bool.not_eq_true] at htick hinterpolation hregex
    exact h.literal (by simp [TokenType.isLiteral, hstring, htick, hinterpolation, hregex])
  split
  · trivial
  split
  · next hword =>
    rw [Bool.and_eq_true] at hword
    split
    · next k hk => exact ⟨Keyword.spelling_of_ofSpelling? hk, h.word hword.1 hword.2⟩
    · exact ⟨hword.2, h.word hword.1 hword.2⟩
  split
  · trivial
  · rfl

theorem chain_place {ls : List Lexeme} {c d : Cursor} (h : Chain LexemeRead c ls d)
    (hne : ∀ l ∈ ls, l.text ≠ []) (offset : Nat) :
    Chain TokenRead c (Token.place offset ls) d := by
  induction h generalizing offset with
  | nil c => exact .nil c
  | cons head _ ih =>
    refine .cons ⟨head.spans, hne _ List.mem_cons_self, promises_ofLexeme head⟩ ?_
    exact ih (fun l hl => hne l (List.mem_cons_of_mem _ hl)) _

/-- Every token of a source is as its kind promises. -/
theorem chain_tokenize (source : Text) :
    ∃ d, Chain TokenRead (.start source) (Token.tokenize source) d := by
  obtain ⟨d, hd⟩ := Lexer.chain_lex source
  exact ⟨d, chain_place hd (Lexer.text_ne_nil_of_mem_lex source) 0⟩

theorem exists_tokenRead_of_mem {source : Text} {t : Token} (ht : t ∈ Token.tokenize source) :
    ∃ c d, TokenRead c t d := by
  obtain ⟨e, hchain⟩ := chain_tokenize source
  exact hchain.exists_of_mem ht

/-- Every token but the first stands after some character. -/
theorem exists_tokenRead_of_mem_tail {source : Text} {t : Token}
    (ht : t ∈ (Token.tokenize source).tail) : ∃ c d, TokenRead c t d ∧ c.before ≠ none := by
  obtain ⟨e, hchain⟩ := chain_tokenize source
  cases htokens : Token.tokenize source with
  | nil =>
    rw [htokens] at ht
    cases ht
  | cons u us =>
    rw [htokens] at ht hchain
    obtain ⟨before, after, rfl⟩ := List.append_of_mem ht
    obtain ⟨c, hfirst, hmore⟩ := hchain.of_cons
    obtain ⟨d, hbefore, hrest⟩ := hmore.of_append
    obtain ⟨d', hread, -⟩ := hrest.of_cons
    have hspans := hfirst.spans.trans (spans_of_chain hbefore)
    exact ⟨d, d', hread, hspans.before_ne_none (by simp [hfirst.ne_nil])⟩

theorem text_of_keyword {source : Text} {t : Token} (ht : t ∈ Token.tokenize source) {k : Keyword}
    (hk : t.kind = .keyword k) : t.text = k.spelling := by
  obtain ⟨c, d, h⟩ := exists_tokenRead_of_mem ht
  exact (h.of_kind hk).1

end ReplCore
