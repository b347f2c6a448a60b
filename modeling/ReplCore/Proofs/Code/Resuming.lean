import ReplCore.Proofs.Code.Signs
import ReplCore.Proofs.Pattern.Before

/-!
# Reading on from a place

What the lexer reads from a place on depends on the text from there on and on very little else. Of
what stands before, it matters whether anything does, whether a line begins there, and, if the text
goes on with a word character, whether there is one before it too. Of the state, it matters what
encloses the text and, where white space, a slash or a comment follows, how a slash is read. So the
readings of two texts that once come to places and states that are alike are the same from there on.

* `step_eq_of_alike`: from places and in states that are alike the lexer takes the same step.
* `typesAfter_eq_of_meetBefore`: where two readings meet before some text, each of its characters is
  of the same type in both.
-/

namespace ReplCore

/-- Places with the same text after them that no rule of the grammar can tell apart by what stands
before. -/
structure Cursor.Alike (c d : Cursor) : Prop where
  rest_eq : c.rest = d.rest
  isNone_eq : c.before.isNone = d.before.isNone
  isLineStart_eq : c.isLineStart = d.isLineStart
  isWord_eq : c.isAt CharClass.isWord = true →
    c.before.any CharClass.isWord = d.before.any CharClass.isWord

namespace Cursor.Alike

variable {c d : Cursor} (h : c.Alike d)

include h

theorem isAt_eq (p : Char → Bool) : c.isAt p = d.isAt p := by rw [isAt, isAt, h.rest_eq]

theorem upTo_eq (e : Cursor) : c.upTo e = d.upTo e := by rw [upTo, upTo, h.rest_eq]

end Cursor.Alike

namespace LexRule

open Cursor Pattern

variable {c d : Cursor}

/-! ## Rules -/

/-- The rule reads the same from places that are alike. -/
def IsLocal (r : LexRule) : Prop := ∀ c d : Cursor, c.Alike d → r.match? c = r.match? d

theorem isLocal_of_head {type : TokenType} {p : Pattern} {parts : List (TokenType × Pattern)}
    {m : Move} (hp : ∀ c d : Cursor, c.Alike d → p.ends c = p.ends d) :
    IsLocal ⟨(type, p) :: parts, m⟩ := by
  intro c d h
  simp only [match?, matchParts, hp c d h, h.upTo_eq]

/-- Whether a match of the rule passes over a character before any condition on places. -/
def ignoresBefore (r : LexRule) : Bool :=
  r.parts.head?.any fun part => part.2.ignoresBefore && part.2.consumes

theorem isLocal_of_ignoresBefore {r : LexRule} (h : r.ignoresBefore = true) : r.IsLocal := by
  obtain ⟨parts, m⟩ := r
  cases parts with
  | nil => cases h
  | cons part parts =>
    obtain ⟨hp, hconsumes⟩ := (Bool.and_eq_true _ _).mp h
    exact isLocal_of_head fun c d h => ends_eq_of_rest_eq hp hconsumes h.rest_eq

/-- A condition that does not tell the places apart may come ahead of the first character. -/
theorem ends_place_seq_eq {condition : Cursor → Bool} {p : Pattern}
    (hcondition : condition c = condition d)
    (hp : (p.ignoresBefore && p.consumes) = true) (h : c.Alike d) :
    (seq (place condition) p).ends c = (seq (place condition) p).ends d := by
  rw [Bool.and_eq_true] at hp
  rw [ends_place_seq, ends_place_seq, hcondition, ends_eq_of_rest_eq hp.1 hp.2 h.rest_eq]

/-- The edge of a word may come ahead of a word. Where no word goes on, what stands before decides
about the edge, but then the word does not follow. -/
theorem ends_wordEdge_seq_eq {p : Pattern} (hp : (p.ignoresBefore && p.consumes) = true)
    (hword : ∀ c e : Cursor, e ∈ p.ends c → c.isAt CharClass.isWord = true) (h : c.Alike d) :
    (seq wordEdge p).ends c = (seq wordEdge p).ends d := by
  by_cases hat : c.isAt CharClass.isWord = true
  · have hedge : c.isWordEdge = d.isWordEdge := by
      rw [isWordEdge, isWordEdge, h.isWord_eq hat, h.isAt_eq]
    exact ends_place_seq_eq hedge hp h
  · have hnone : ∀ c : Cursor, ¬ c.isAt CharClass.isWord = true →
        (seq wordEdge p).ends c = [] := by
      intro c hat
      have hends : p.ends c = [] :=
        List.eq_nil_iff_forall_not_mem.mpr fun e he => hat (hword c e he)
      rw [wordEdge, ends_place_seq, hends, ite_self]
    rw [hnone c hat, hnone d (h.isAt_eq _ ▸ hat)]

theorem isAt_isWord_of_areWords {ws : List String} (hws : areWords ws = true) {w : String}
    (hw : w ∈ ws) {c d : Cursor} (hspans : Spans c w.toList d) :
    c.isAt CharClass.isWord = true := by
  obtain ⟨hne, hall⟩ := (Bool.and_eq_true _ _).mp (List.all_eq_true.mp hws w hw)
  obtain ⟨x, t, ht⟩ := List.exists_cons_of_ne_nil (show w.toList ≠ [] by simpa using hne)
  rw [ht] at hspans hall
  rw [hspans.isAt_eq]
  exact (CharClass.isWord_of_isLatin (List.all_eq_true.mp hall x List.mem_cons_self)).1

theorem isLocal_wordsAtEdge {type : TokenType} {m : Move} {ws : List String}
    (hws : (areWords ws && ((wholeWordOf ws).ignoresBefore && (wholeWordOf ws).consumes)) = true) :
    IsLocal ⟨[(type, seq wordEdge (wholeWordOf ws))], m⟩ := by
  rw [Bool.and_eq_true] at hws
  refine isLocal_of_head fun c d => ends_wordEdge_seq_eq hws.2 fun c e he => ?_
  obtain ⟨⟨w, hw, hspans⟩, -⟩ := mem_ends_wholeWordOf.mp he
  exact isAt_isWord_of_areWords hws.1 hw hspans

theorem isLocal_module : IsLocal Grammar.moduleRule := by
  refine isLocal_of_head fun c d => ends_wordEdge_seq_eq (by decide) fun c e he => ?_
  have hws : areWords ["module"] = true := by decide
  exact isAt_isWord_of_areWords hws List.mem_cons_self (mem_ends_lit.mp he)

theorem isLocal_hashbang : IsLocal Grammar.hashbangRule :=
  isLocal_of_head fun _ _ h => ends_place_seq_eq h.isNone_eq (by decide) h

theorem isLocal_operand : ∀ r ∈ Grammar.operand, IsLocal r := by
  have hall : Grammar.operand.all ignoresBefore = true := by decide
  exact fun r hr => isLocal_of_ignoresBefore (List.all_eq_true.mp hall r hr)

theorem isLocal_template : ∀ r ∈ Grammar.template, IsLocal r := by
  have hall : Grammar.template.all ignoresBefore = true := by decide
  exact fun r hr => isLocal_of_ignoresBefore (List.all_eq_true.mp hall r hr)

theorem isLocal_trivia : ∀ r ∈ Grammar.trivia, IsLocal r :=
  fun r hr => isLocal_operand r (List.mem_append_left _ hr)

theorem isLocal_wordsAndSigns : ∀ r ∈ Grammar.wordsAndSigns, IsLocal r := by
  intro r hr
  simp only [Grammar.wordsAndSigns, List.mem_append, List.mem_cons, List.not_mem_nil,
    or_false] at hr
  rcases hr with (hr | hr) | hr
  · rcases hr with rfl | rfl | rfl | rfl | rfl | rfl | rfl | rfl
    all_goals first
      | exact isLocal_of_ignoresBefore (by decide)
      | exact isLocal_wordsAtEdge (by decide)
      | exact isLocal_module
      | exact isLocal_hashbang
  · exact isLocal_trivia r hr
  · rcases hr with rfl | rfl | rfl | rfl | rfl | rfl | rfl | rfl | rfl | rfl | rfl | rfl | rfl |
      rfl | rfl | rfl | rfl | rfl
    all_goals first
      | exact isLocal_of_ignoresBefore (by decide)
      | exact isLocal_wordsAtEdge (by decide)

theorem isLocal_code : ∀ r ∈ Grammar.code, IsLocal r := by
  intro r hr
  have hall : (Grammar.identifierRule :: Grammar.literals).all ignoresBefore = true := by decide
  rcases List.mem_append.mp hr with hr | hr
  · exact isLocal_wordsAndSigns r hr
  · exact isLocal_of_ignoresBefore (List.all_eq_true.mp hall r hr)

end LexRule

namespace Lexer

variable {s s' : LexState} {c c' d : Cursor} {r : Reading}

theorem isLocal_rulesIn (enclosing : List Enclosure) : ∀ r ∈ rulesIn enclosing, r.IsLocal := by
  unfold rulesIn
  split
  · exact LexRule.isLocal_template
  · intro r hr
    rcases List.mem_cons.mp hr with rfl | hr
    · exact LexRule.isLocal_of_ignoresBefore (by decide)
    · exact LexRule.isLocal_code r hr
  · exact LexRule.isLocal_code

/-! ## Steps -/

theorem byRules_of_alike {rules : List LexRule} (hrules : ∀ r ∈ rules, r.IsLocal)
    (h : c.Alike d) (s : LexState) : byRules rules s c = byRules rules s d := by
  unfold byRules
  induction rules with
  | nil => rfl
  | cons r rules ih =>
    rw [List.findSome?_cons, List.findSome?_cons, hrules r List.mem_cons_self c d h,
      ih fun r hr => hrules r (List.mem_cons_of_mem _ hr)]

theorem single_of_alike (h : c.Alike d) (type : TokenType) (s : LexState) :
    single type s c = single type s d := by
  unfold single Cursor.advance
  rw [h.rest_eq]
  cases d.rest with
  | nil => rfl
  | cons x xs => rfl

theorem orError_of_alike (h : c.Alike d) (enclosing : List Enclosure) (s : LexState) :
    orError (rulesIn enclosing) s c = orError (rulesIn enclosing) s d := by
  rw [orError, orError, byRules_of_alike (isLocal_rulesIn enclosing) h, single_of_alike h]

theorem expectingOperand_of_alike (h : c.Alike d) (s : LexState) :
    expectingOperand s c = expectingOperand s d := by
  rw [expectingOperand, expectingOperand, byRules_of_alike LexRule.isLocal_operand h,
    single_of_alike h, orError_of_alike h, h.isAt_eq]

theorem beginsLine_of_alike (h : c.Alike d) : beginsLine c = beginsLine d := by
  rw [beginsLine, beginsLine, h.isLineStart_eq, h.isAt_eq, h.isAt_eq, h.rest_eq]

/-- From places that are alike the lexer takes the same step, to the same place. -/
theorem step_of_alike (h : c.Alike d) (s : LexState) : step s c = step s d := by
  unfold step afterBadSlash
  rw [expectingOperand_of_alike h, expectingOperand_of_alike h, orError_of_alike h,
    beginsLine_of_alike h, single_of_alike h, single_of_alike h, h.isAt_eq]

/-! ## How a slash is read -/

/-- Whether a character may begin white space, a comment or a regular expression. -/
def beginsOperandRule (x : Char) : Bool := CharClass.isBlank x || x == '/' || x == '<'

theorem beginsOperandRule_of_canBegin {x : Char} : ∀ rule ∈ Grammar.operand,
    rule.canBegin x = true → beginsOperandRule x = true := by
  intro rule hrule hx
  simp only [beginsOperandRule, Bool.or_eq_true, beq_iff_eq]
  rcases List.mem_append.mp hrule with hrule | hrule
  · simp only [Grammar.trivia, List.mem_cons, List.not_mem_nil, or_false] at hrule
    rcases hrule with rfl | rfl | rfl | rfl
    all_goals rw [LexRule.canBegin_rule] at hx
    · refine Or.inl (Or.inl ?_)
      simpa [Pattern.canBegin, Pattern.some1, Pattern.consumes] using hx
    · refine Or.inr ?_
      simpa [Pattern.canBegin, Pattern.lit, Pattern.chars, Pattern.consumes] using hx
    · refine Or.inl (Or.inr ?_)
      simpa [Pattern.canBegin, Pattern.lit, Pattern.chars, Pattern.consumes] using hx
    · refine Or.inl (Or.inr ?_)
      simpa [Pattern.canBegin, Pattern.all, Pattern.lit, Pattern.chars, Pattern.consumes] using hx
  · rw [List.mem_singleton.mp hrule, LexRule.canBegin_ruleTo] at hx
    have hbegin : (Pattern.canBegin x (.lit "/") || (!Pattern.consumes (.lit "/") && _)) = true :=
      hx
    refine Or.inl (Or.inr ?_)
    simpa [Pattern.canBegin, Pattern.lit, Pattern.chars, Pattern.consumes] using hbegin

section Elsewhere

variable (hc : c.isAt beginsOperandRule = false)

include hc

theorem byRules_operand_eq_none (s : LexState) : byRules Grammar.operand s c = none := by
  cases hrest : c.rest with
  | nil =>
    refine Option.eq_none_iff_forall_not_mem.mpr fun r hr => ?_
    have hlt := (from_of_byRules Grammar.consumes_operand hr).length_lt
    rw [hrest] at hlt
    exact absurd hlt (Nat.not_lt_zero _)
  | cons x xs =>
    rw [Cursor.isAt, hrest] at hc
    refine byRules_of_not_canBegin Grammar.consumes_operand ?_ hrest s
    refine List.all_eq_true.mpr fun rule hrule => ?_
    rw [Bool.not_eq_true']
    exact Bool.eq_false_iff.mpr fun hx =>
      absurd (beginsOperandRule_of_canBegin rule hrule hx) (Bool.eq_false_iff.mp hc)

theorem isAt_slash_eq_false : c.isAt (· == '/') = false := by
  cases hrest : c.rest with
  | nil => simp [Cursor.isAt, hrest]
  | cons x xs =>
    simp only [Cursor.isAt, hrest, List.head?_cons, Option.any_some, beginsOperandRule,
      Bool.or_eq_false_iff] at hc ⊢
    exact hc.1.2

theorem beginsLine_eq_false : beginsLine c = false := by
  cases hrest : c.rest with
  | nil => simp [beginsLine, Cursor.isAt, hrest]
  | cons x xs =>
    simp only [Cursor.isAt, hrest, List.head?_cons, Option.any_some, beginsOperandRule,
      Bool.or_eq_false_iff, beq_eq_false_iff_ne] at hc
    obtain ⟨⟨hblank, hslash⟩, hangle⟩ := hc
    simp [beginsLine, Cursor.isAt, hrest, hblank, hslash, Ne.symm hangle, List.isPrefixOf]

/-- Where neither white space nor a slash nor a comment begins, it does not matter whether a slash
would start a regular expression. -/
theorem step_elsewhere (hs : s.slash ≠ .unterminated) :
    step s c = orError (rulesIn s.enclosing) { s with slash := .divides } c := by
  obtain ⟨slash, enclosing⟩ := s
  cases slash with
  | unterminated => exact absurd rfl hs
  | startsRegex =>
    simp [step, expectingOperand, byRules_operand_eq_none hc, isAt_slash_eq_false hc]
  | divides => simp [step, beginsLine_eq_false hc]

end Elsewhere

end Lexer

/-- States that the lexer reads on from alike at a place. -/
structure LexState.AlikeAt (c : Cursor) (s t : LexState) : Prop where
  enclosing_eq : s.enclosing = t.enclosing
  slash : s.slash = t.slash ∨ s.slash ≠ .unterminated ∧ t.slash ≠ .unterminated ∧
    c.isAt Lexer.beginsOperandRule = false

namespace Lexer

variable {s s' t : LexState} {c c' d : Cursor} {r : Reading}

/-- From places and in states that are alike the lexer takes the same step. -/
theorem step_eq_of_alike (h : c.Alike d) (hs : LexState.AlikeAt c s t) : step s c = step t d := by
  rw [← step_of_alike h]
  rcases hs.slash with hslash | ⟨hs', ht', hc⟩
  · have hst : s = t := by
      cases s
      cases t
      exact congr (congrArg LexState.mk hslash) hs.enclosing_eq
    rw [hst]
  · rw [step_elsewhere hc hs', step_elsewhere hc ht', hs.enclosing_eq]

/-! ## From a place on -/

/-- What the lexer reads from a place on. -/
def readFrom (s : LexState) (c : Cursor) : List Lexeme := run c.rest s c

theorem run_nil (hc : c.rest = []) (bound : Text) (s : LexState) : run bound s c = [] := by
  cases bound with
  | nil => rfl
  | cons x bound =>
    unfold run
    split
    · rfl
    · next r hr =>
      have := (from_of_step hr).length_lt
      rw [hc] at this
      cases this

/-- A text that is long enough bounds nothing. -/
theorem run_bound : ∀ {b b' : Text} (s : LexState) {c : Cursor}, c.rest.length ≤ b.length →
    c.rest.length ≤ b'.length → run b s c = run b' s c
  | [], b', s, c, hb, _ => by
    have hc := List.eq_nil_of_length_eq_zero (Nat.le_zero.mp hb)
    rw [run_nil hc, run_nil hc]
  | b, [], s, c, _, hb' => by
    have hc := List.eq_nil_of_length_eq_zero (Nat.le_zero.mp hb')
    rw [run_nil hc, run_nil hc]
  | x :: b, y :: b', s, c, hb, hb' => by
    unfold run
    split
    · rfl
    · next r hr =>
      have hlt := (from_of_step hr).length_lt
      rw [List.length_cons] at hb hb'
      have hrest : run b r.state r.next = run b' r.state r.next :=
        run_bound r.state (by omega) (by omega)
      rw [hrest]

/-- What is read from a place on is what a step reads, and then what is read from its end on. -/
theorem readFrom_of_step (h : step s c = some r) :
    readFrom s c = r.lexemes ++ readFrom r.state r.next := by
  have hlt := (from_of_step h).length_lt
  unfold readFrom
  cases hc : c.rest with
  | nil =>
    rw [hc] at hlt
    cases hlt
  | cons x xs =>
    rw [hc, List.length_cons] at hlt
    rw [run]
    simp only [h]
    rw [run_bound r.state (Nat.le_of_lt_succ hlt) (Nat.le_refl _)]

theorem readFrom_eq_of_alike (h : c.Alike d) (hs : LexState.AlikeAt c s t) :
    readFrom s c = readFrom t d := by
  unfold readFrom
  rw [h.rest_eq]
  cases d.rest with
  | nil => rfl
  | cons x xs => rw [run, run, step_eq_of_alike h hs]

/-- The state and the place after some steps. -/
def walk : Nat → LexState → Cursor → Option (LexState × Cursor)
  | 0, s, c => some (s, c)
  | n + 1, s, c => (step s c).bind fun r => walk n r.state r.next

/-- What is read from a place on is what some steps read, and then what is read from where they come
to. -/
theorem exists_readFrom_of_walk {n : Nat} (h : walk n s c = some (s', c')) :
    ∃ ls, readFrom s c = ls ++ readFrom s' c' ∧ ls.flatMap Lexeme.text ++ c'.rest = c.rest := by
  induction n generalizing s c with
  | zero =>
    obtain ⟨rfl, rfl⟩ := Prod.mk.inj (Option.some.inj h)
    exact ⟨[], rfl, rfl⟩
  | succ n ih =>
    obtain ⟨r, hr, hwalk⟩ := Option.bind_eq_some_iff.mp h
    obtain ⟨ls, hls, htext⟩ := ih hwalk
    refine ⟨r.lexemes ++ ls, ?_, ?_⟩
    · rw [readFrom_of_step hr, hls, List.append_assoc]
    · rw [List.flatMap_append, List.append_assoc, htext]
      exact (from_of_step hr).tiles.text_append

/-! ## Types of characters -/

/-- The types of the characters of some lexemes, one by one. -/
def characterTypes (ls : List Lexeme) : List TokenType :=
  ls.flatMap fun l => l.text.map fun _ => l.type

theorem characterTypes_append (ls ms : List Lexeme) :
    characterTypes (ls ++ ms) = characterTypes ls ++ characterTypes ms := List.flatMap_append

@[simp] theorem length_characterTypes (ls : List Lexeme) :
    (characterTypes ls).length = (ls.flatMap Lexeme.text).length := by
  simp [characterTypes, List.length_flatMap]

/-- The types of the characters of `typed` where it stands after `t`. -/
def typesAfter (t typed : Text) : List TokenType :=
  (characterTypes (lex (t ++ typed))).drop t.length

theorem length_typesAfter (t typed : Text) : (typesAfter t typed).length = typed.length := by
  simp [typesAfter, flatMap_text_lex]

/-- The readings of `t` and `u`, both with `typed` after them, come to places and states that are
alike before they are in `typed`. -/
def MeetBefore (typed t u : Text) : Prop :=
  ∃ m n s s' c d, walk m .initial (.start (t ++ typed)) = some (s, c) ∧
    walk n .initial (.start (u ++ typed)) = some (s', d) ∧ c.Alike d ∧ LexState.AlikeAt c s s' ∧
    typed.length ≤ c.rest.length

/-- The types of what stands at the end of a text are found from any place that comes before it. -/
theorem typesAfter_eq_of_walk {t typed : Text} {n : Nat}
    (h : walk n .initial (.start (t ++ typed)) = some (s, c))
    (hbefore : typed.length ≤ c.rest.length) :
    typesAfter t typed = (characterTypes (readFrom s c)).drop (c.rest.length - typed.length) := by
  obtain ⟨ls, hread, htext⟩ := exists_readFrom_of_walk h
  have hlength : (ls.flatMap Lexeme.text).length + c.rest.length = t.length + typed.length := by
    rw [← List.length_append, htext, ← List.length_append]
    rfl
  have hdrop : t.length =
      (characterTypes ls).length + (c.rest.length - typed.length) := by
    rw [length_characterTypes]
    omega
  rw [typesAfter, show lex (t ++ typed) = ls ++ readFrom s c from hread, characterTypes_append,
    hdrop, List.drop_append, Nat.add_sub_cancel_left,
    List.drop_eq_nil_of_le (Nat.le_add_right _ _), List.nil_append]

/-- Where two readings meet before some text, each of its characters is of the same type in both. -/
theorem typesAfter_eq_of_meetBefore {typed t u : Text} (h : MeetBefore typed t u) :
    typesAfter t typed = typesAfter u typed := by
  obtain ⟨m, n, s, s', c, d, ht, hu, halike, hs, hbefore⟩ := h
  rw [typesAfter_eq_of_walk ht hbefore, typesAfter_eq_of_walk hu (halike.rest_eq ▸ hbefore),
    readFrom_eq_of_alike halike hs, halike.rest_eq]

end Lexer

end ReplCore
