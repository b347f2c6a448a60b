import ReplCore.Proofs.Code.Tokens
import ReplCore.Submission.Nesting

/-!
# What encloses a token

The lexer remembers which template literals and substitutions enclose the text it reads. The tokens
alone tell as much: a backtick closes the template literal it stands in and opens one elsewhere, and
only interpolations open and close substitutions. Directly inside a template literal there is
nothing but its text, substitutions and errors.

* `Lexer.stepsTo_of_step`: what one step of the lexer can do.
* `Lexer.isPart_of_mem_lex`: every lexeme is a part of a rule, or a single character.
* `Lexer.marksEnclosure_of_mem_lex`: without a backtick there are no template literals.
* `Token.isSome_enclose_tokenize`: the tokens of every source enclose one another.
-/

namespace ReplCore

open Cursor

/-! ## Enclosures by tokens -/

/-- What encloses the text after a token, innermost first, if such a token may stand there. -/
def Token.enclose (enclosing : List Enclosure) (t : Token) : Option (List Enclosure) :=
  match t.kind with
  | .backtick =>
    if enclosing.head? = some .template then some enclosing.tail
    else some (.template :: enclosing)
  | .interpolation =>
    if Nesting.startsSubstitution t then
      if enclosing.head? = some .template then some (.substitution :: enclosing) else none
    else if enclosing.head? = some .substitution then some enclosing.tail
    else none
  | .templateText | .whitespace | .newline | .error => some enclosing
  | _ => if enclosing.head? = some .template then none else some enclosing

namespace TokenType

/-- Whether lexemes of the type may open or close an enclosure. -/
def marksEnclosure (t : TokenType) : Bool := t.isA .stringBacktick || t.isA .stringInterpol

end TokenType

namespace TokenKind

variable {type : TokenType} {t : Text}

/-- Of the kinds that open or close an enclosure there are only lexemes of such types. -/
theorem ofLexeme_of_not_marksEnclosure (h : type.marksEnclosure = false) :
    ofLexeme ⟨type, t⟩ ≠ .backtick ∧ ofLexeme ⟨type, t⟩ ≠ .interpolation := by
  rw [TokenType.marksEnclosure, Bool.or_eq_false_iff] at h
  unfold ofLexeme
  split
  · split <;> simp
  split
  · simp
  rw [if_neg (by simp [h.1]), if_neg (by simp [h.2])]
  split
  · simp
  split
  · simp
  split
  · simp
  split
  · split <;> simp
  split <;> simp

/-- The text of a template literal, or a piece of it that is blank. -/
theorem ofLexeme_of_stringBacktick (h : t ≠ "`".toList) :
    ofLexeme ⟨.stringBacktick, t⟩ = .templateText ∨ ofLexeme ⟨.stringBacktick, t⟩ = .whitespace ∨
      ofLexeme ⟨.stringBacktick, t⟩ = .newline := by
  unfold ofLexeme
  dsimp only
  split
  · split
    · exact Or.inr (Or.inr rfl)
    · exact Or.inr (Or.inl rfl)
  · rw [if_neg (by decide), if_pos (by decide)]
    exact Or.inl rfl

theorem ofLexeme_of_error : ofLexeme ⟨.error, t⟩ = .error ∨
    ofLexeme ⟨.error, t⟩ = .whitespace ∨ ofLexeme ⟨.error, t⟩ = .newline := by
  have hword : (TokenType.error.isA .keyword || TokenType.error.isA .name) = false := by decide
  unfold ofLexeme
  dsimp only
  split
  · split
    · exact Or.inr (Or.inr rfl)
    · exact Or.inr (Or.inl rfl)
  · rw [if_neg (by decide), if_neg (by decide), if_neg (by decide), if_neg (by decide),
      if_neg (by decide), if_neg (by decide), if_neg (by simp [hword]), if_pos (by decide)]
    exact Or.inl rfl

end TokenKind

namespace Token

variable {enclosing : List Enclosure} {type : TokenType} {t : Text} {offset stop : Nat}

/-- Outside of template literals only lexemes that mark enclosures change them. -/
theorem enclose_of_outside (hout : enclosing.head? ≠ some .template)
    (h : type.marksEnclosure = false) :
    enclose enclosing ⟨.ofLexeme ⟨type, t⟩, t, offset, stop⟩ = some enclosing := by
  obtain ⟨hbacktick, hinterpolation⟩ := TokenKind.ofLexeme_of_not_marksEnclosure (t := t) h
  unfold enclose
  split
  · contradiction
  · contradiction
  · rfl
  · rfl
  · rfl
  · rfl
  · rw [if_neg hout]

theorem enclose_of_templateText (h : t ≠ "`".toList) :
    enclose enclosing ⟨.ofLexeme ⟨.stringBacktick, t⟩, t, offset, stop⟩ = some enclosing := by
  rcases TokenKind.ofLexeme_of_stringBacktick h with h | h | h <;> simp only [enclose, h]

theorem enclose_of_error :
    enclose enclosing ⟨.ofLexeme ⟨.error, t⟩, t, offset, stop⟩ = some enclosing := by
  rcases TokenKind.ofLexeme_of_error (t := t) with h | h | h <;> simp only [enclose, h]

theorem enclose_place_of_outside (hout : enclosing.head? ≠ some .template) :
    ∀ (ls : List Lexeme) (offset : Nat), (∀ l ∈ ls, l.type.marksEnclosure = false) →
      (place offset ls).foldlM enclose enclosing = some enclosing
  | [], _, _ => rfl
  | l :: ls, offset, h => by
    rw [place, List.foldlM_cons, enclose_of_outside hout (h l List.mem_cons_self)]
    exact enclose_place_of_outside hout ls _ fun m hm => h m (List.mem_cons_of_mem l hm)

theorem enclose_place_single (l : Lexeme) (offset : Nat) :
    (place offset [l]).foldlM enclose enclosing =
      enclose enclosing ⟨.ofLexeme l, l.text, offset, offset + l.text.length⟩ := by
  rw [place, place, List.foldlM_cons]
  exact bind_pure _

theorem place_append (ls ms : List Lexeme) : ∀ offset : Nat, place offset (ls ++ ms) =
    place offset ls ++ place (offset + (ls.flatMap Lexeme.text).length) ms := by
  induction ls with
  | nil => exact fun _ => rfl
  | cons l ls ih =>
    intro offset
    rw [List.cons_append, place, place, ih, List.flatMap_cons, List.length_append, Nat.add_assoc,
      List.cons_append]

end Token

/-! ## Steps of the lexer -/

namespace LexState

/-- Directly inside a template literal a slash is read as any other character. -/
def Regular (s : LexState) : Prop := s.enclosing.head? = some .template → s.slash = .divides

theorem regular_of_outside {s : LexState} (h : s.enclosing.head? ≠ some .template) : s.Regular :=
  fun h' => absurd h' h

end LexState

namespace Lexer

/-- The state in which a step reads: with the same around it, and in a line that can still be read
unless the character at the place is a slash or it could not be read before. -/
structure ReadsIn (s : LexState) (c : Cursor) (s' : LexState) : Prop where
  regular : s'.Regular
  same : s'.enclosing = s.enclosing
  calm : s.slash ≠ .unterminated → c.rest.head? ≠ some '/' → s'.slash ≠ .unterminated

/-- What one step can read: by a rule that is tried where an operand is expected, by a rule for what
encloses the text, or a single character. -/
inductive StepsTo (s : LexState) (c : Cursor) : Reading → Prop
  | operand {s' : LexState} {r : Reading} (outside : s.enclosing.head? ≠ some .template)
      (state : ReadsIn s c s') (read : byRules Grammar.operand s' c = some r) : StepsTo s c r
  | rules {s' : LexState} {r : Reading} (state : ReadsIn s c s')
      (read : byRules (rulesIn s.enclosing) s' c = some r) : StepsTo s c r
  | character {s' : LexState} {type : TokenType} {x : Char} (state : ReadsIn s c s')
      (isError : type = .error ∨ type = .whitespace ∧ s.enclosing.head? ≠ some .template)
      (here : c.rest.head? = some x)
      (unread : x = '/' ∨ s.slash = .unterminated ∨ byRules (rulesIn s.enclosing) s' c = none) :
      StepsTo s c ⟨[⟨type, [x]⟩], s', c.advance 1⟩

theorem stepsTo_of_single {s s' : LexState} {type : TokenType} {c : Cursor} {r : Reading}
    (h : single type s' c = some r) (hstate : ReadsIn s c s')
    (htype : type = .error ∨ type = .whitespace ∧ s.enclosing.head? ≠ some .template)
    (hunread : c.rest.head? = some '/' ∨ s.slash = .unterminated ∨
      byRules (rulesIn s.enclosing) s' c = none) : StepsTo s c r := by
  obtain ⟨x, hx, rfl⟩ := Option.map_eq_some_iff.mp h
  refine .character hstate htype hx (hunread.imp_left fun hat => ?_)
  exact Option.some.inj (hx.symm.trans hat)

theorem stepsTo_of_orError {s s' : LexState} {c : Cursor} {r : Reading}
    (h : orError (rulesIn s.enclosing) s' c = some r) (hstate : ReadsIn s c s') :
    StepsTo s c r := by
  rcases Option.or_eq_some_iff.mp h with h | ⟨hnone, h⟩
  · exact .rules hstate h
  · exact stepsTo_of_single h hstate (Or.inl rfl) (Or.inr (Or.inr hnone))

theorem stepsTo_of_expectingOperand {s s' : LexState} {c : Cursor} {r : Reading}
    (h : expectingOperand s' c = some r) (hstate : ReadsIn s c s')
    (hout : s.enclosing.head? ≠ some .template) : StepsTo s c r := by
  have hregular : ∀ slash, LexState.Regular ⟨slash, s.enclosing⟩ := fun _ =>
    LexState.regular_of_outside hout
  rcases Option.or_eq_some_iff.mp h with h | ⟨-, h⟩
  · exact .operand hout hstate h
  · rw [hstate.same] at h
    split at h
    · next hat =>
      have hslash : c.rest.head? = some '/' := by simpa [isAt, Option.any_eq_true] using hat
      exact stepsTo_of_single h ⟨hregular _, rfl, fun _ hne => absurd hslash hne⟩ (Or.inl rfl)
        (Or.inl hslash)
    · exact stepsTo_of_orError h ⟨hregular _, rfl, by simp⟩

/-- What one step of the lexer can do. -/
theorem stepsTo_of_step {s : LexState} {c : Cursor} {r : Reading} (hs : s.Regular)
    (h : step s c = some r) : StepsTo s c r := by
  -- Wherever a slash does not divide there is no template literal directly around.
  have hout : s.slash ≠ .divides → s.enclosing.head? ≠ some .template := fun hslash hin =>
    hslash (hs hin)
  have hsame : ReadsIn s c s := ⟨hs, rfl, fun h _ => h⟩
  unfold step at h
  split at h
  · next hslash =>
    have houtside := hout (by simp [hslash])
    unfold afterBadSlash at h
    split at h
    · exact stepsTo_of_single h ⟨LexState.regular_of_outside houtside, rfl, by simp⟩
        (Or.inr ⟨rfl, houtside⟩) (Or.inr (Or.inl hslash))
    · exact stepsTo_of_single h hsame (Or.inl rfl) (Or.inr (Or.inl hslash))
  · next hslash => exact stepsTo_of_expectingOperand h hsame (hout (by simp [hslash]))
  · split at h
    · next hbegins =>
      have hstate : ReadsIn s c { s with slash := .startsRegex } :=
        ⟨LexState.regular_of_outside hbegins.1, rfl, by simp⟩
      exact stepsTo_of_expectingOperand h hstate hbegins.1
    · exact stepsTo_of_orError h hsame

/-! ## Rules -/

/-- Whether a rule leaves what encloses the text as it is. -/
def keepsEnclosure (rule : LexRule) : Bool :=
  rule.parts.all (fun part => !part.1.marksEnclosure) &&
    match rule.move with
    | .enter _ | .leave => false
    | _ => true

theorem keepsEnclosure_operand : Grammar.operand.all keepsEnclosure = true := by decide

theorem keepsEnclosure_wordsAndSigns : Grammar.wordsAndSigns.all keepsEnclosure = true := by decide

/-- Of the rules of code only that for a backtick changes what encloses the text. -/
theorem keepsEnclosure_of_mem_code {rule : LexRule} (hrule : rule ∈ Grammar.code) :
    keepsEnclosure rule = true ∨
      rule = Grammar.ruleTo (.enter .template) .stringBacktick (.lit "`") := by
  rcases List.mem_append.mp hrule with hrule | hrule
  · exact Or.inl (List.all_eq_true.mp keepsEnclosure_wordsAndSigns rule hrule)
  · simp only [Grammar.literals, List.mem_cons, List.not_mem_nil, or_false] at hrule
    rcases hrule with rfl | rfl | rfl | rfl | rfl
    · exact Or.inl (by decide)
    · exact Or.inl (by decide)
    · exact Or.inl (by decide)
    · exact Or.inr rfl
    · exact Or.inl (by decide)

/-- A lexeme is what a part of a rule matches, with the type of the part. -/
def IsPart (parts : List (TokenType × Pattern)) (l : Lexeme) : Prop :=
  ∃ part ∈ parts, l.type = part.1 ∧ ∃ c d, d ∈ part.2.ends c ∧ Spans c l.text d

theorem isPart_of_mem_matchParts : ∀ {parts : List (TokenType × Pattern)} {c d : Cursor}
    {ls : List Lexeme}, LexRule.matchParts parts c = some (ls, d) → ∀ l ∈ ls, IsPart parts l
  | [], _, _, _, h, l, hl => by
    obtain ⟨rfl, -⟩ := Prod.mk.inj (Option.some.inj h)
    cases hl
  | (type, p) :: parts, c, d, ls, h, l, hl => by
    obtain ⟨e, t, more, hmem, hspans, hmore, rfl, -⟩ := LexRule.matchParts_cons h
    have htail : ∀ l ∈ more, IsPart ((type, p) :: parts) l := fun m hm => by
      obtain ⟨part, hpart, hm⟩ := isPart_of_mem_matchParts hmore m hm
      exact ⟨part, List.mem_cons_of_mem _ hpart, hm⟩
    split at hl
    · exact htail l hl
    · rcases List.mem_cons.mp hl with rfl | hl
      · exact ⟨(type, p), List.mem_cons_self, rfl, c, e, hmem, hspans⟩
      · exact htail l hl

/-- What a match of a rule with one part reads. -/
theorem match?_single {type : TokenType} {p : Pattern} {move : Move} {c d : Cursor}
    {ls : List Lexeme} (hp : p.consumes = true)
    (h : LexRule.match? ⟨[(type, p)], move⟩ c = some (ls, d)) :
    ∃ t, ls = [⟨type, t⟩] ∧ Spans c t d ∧ d ∈ p.ends c := by
  obtain ⟨e, t, more, hmem, hspans, hmore, rfl, -⟩ := LexRule.matchParts_cons h
  obtain ⟨rfl, rfl⟩ := Prod.mk.inj (Option.some.inj hmore)
  refine ⟨t, if_neg fun hnil => ?_, hspans, hmem⟩
  have hlt := Pattern.length_lt_of_consumes p hp c e hmem
  rw [hnil] at hspans
  rw [hspans.unique (.refl c)] at hlt
  exact Nat.lt_irrefl _ hlt

/-- A rule for a fixed text reads that text. -/
theorem match?_lit {type : TokenType} {s : String} {move : Move} {c d : Cursor} {ls : List Lexeme}
    (hs : (Pattern.lit s).consumes = true)
    (h : LexRule.match? ⟨[(type, Pattern.lit s)], move⟩ c = some (ls, d)) :
    ls = [⟨type, s.toList⟩] ∧ Spans c s.toList d := by
  obtain ⟨t, rfl, ht, hmem⟩ := match?_single hs h
  have hspans := Pattern.mem_ends_lit.mp hmem
  rw [← ht.upTo_eq, hspans.upTo_eq]
  exact ⟨rfl, hspans⟩

/-! ## Every step encloses -/

/-- The tokens of a reading lead from what encloses the text before it to what does after it. -/
structure Reading.Encloses (enclosing : List Enclosure) (r : Reading) : Prop where
  regular : r.state.Regular
  fold : ∀ offset, (Token.place offset r.lexemes).foldlM Token.enclose enclosing =
    some r.state.enclosing

variable {s s' : LexState} {c d : Cursor} {ls : List Lexeme} {rule : LexRule}

theorem encloses_of_keeps (hrule : keepsEnclosure rule = true)
    (hout : s.enclosing.head? ≠ some .template)
    (hmatch : rule.match? c = some (ls, d)) :
    Reading.Encloses s.enclosing ⟨ls, s.move rule.move, d⟩ := by
  rw [keepsEnclosure, Bool.and_eq_true] at hrule
  have henclosing : (s.move rule.move).enclosing = s.enclosing := by
    cases hmove : rule.move with
    | stay | expectOperand | expectOperator => rfl
    | enter | leave => simp [hmove] at hrule
  refine ⟨LexState.regular_of_outside (by rw [henclosing]; exact hout), fun offset => ?_⟩
  rw [henclosing]
  refine Token.enclose_place_of_outside hout ls offset fun l hl => ?_
  obtain ⟨part, hpart, htype, -⟩ := isPart_of_mem_matchParts hmatch l hl
  simpa [htype] using List.all_eq_true.mp hrule.1 part hpart

/-- A backtick outside of template literals opens one. -/
theorem encloses_of_open (hout : s.enclosing.head? ≠ some .template)
    (hmatch : (Grammar.ruleTo (.enter .template) .stringBacktick (.lit "`")).match? c =
      some (ls, d)) :
    Reading.Encloses s.enclosing ⟨ls, s.move (.enter .template), d⟩ := by
  obtain ⟨rfl, -⟩ := match?_lit (by decide) hmatch
  refine ⟨fun _ => rfl, fun offset => ?_⟩
  have hkind : TokenKind.ofLexeme ⟨.stringBacktick, "`".toList⟩ = .backtick := by decide
  rw [Token.enclose_place_single]
  simp only [Token.enclose, hkind, hout, if_false]
  rfl

/-- A closing brace in a substitution ends it. -/
theorem encloses_of_substitutionEnd (hin : s.enclosing.head? = some .substitution)
    (hmatch : Grammar.substitutionEnd.match? c = some (ls, d)) :
    Reading.Encloses s.enclosing ⟨ls, s.move .leave, d⟩ := by
  obtain ⟨rfl, -⟩ := match?_lit (by decide) hmatch
  refine ⟨fun _ => rfl, fun offset => ?_⟩
  have hkind : TokenKind.ofLexeme ⟨.stringInterpol, "\x7d".toList⟩ = .interpolation := by decide
  have hstarts : ¬("\x7d".toList = Opener.substitution.spelling) := by decide
  rw [Token.enclose_place_single]
  simp only [Token.enclose, hkind, Nesting.startsSubstitution, hstarts, decide_false,
    Bool.false_eq_true, if_false, hin, if_true]
  rfl

theorem encloses_of_code (hout : s.enclosing.head? ≠ some .template) (hrule : rule ∈ Grammar.code)
    (hmatch : rule.match? c = some (ls, d)) :
    Reading.Encloses s.enclosing ⟨ls, s.move rule.move, d⟩ := by
  rcases keepsEnclosure_of_mem_code hrule with hkeeps | rfl
  · exact encloses_of_keeps hkeeps hout hmatch
  · exact encloses_of_open hout hmatch

/-- The text of a template literal leaves what encloses it as it is. -/
theorem encloses_of_templateText {p : Pattern} (hs : s.Regular) (hp : p.consumes = true)
    (hne : ∀ t, Spans c t d → d ∈ p.ends c → t ≠ "`".toList)
    (hmatch : (Grammar.rule .stringBacktick p).match? c = some (ls, d)) :
    Reading.Encloses s.enclosing ⟨ls, s, d⟩ := by
  obtain ⟨t, rfl, hspans, hmem⟩ := match?_single hp hmatch
  refine ⟨hs, fun offset => ?_⟩
  rw [Token.enclose_place_single]
  exact Token.enclose_of_templateText (hne t hspans hmem)

/-- The rules inside a template literal close it, open a substitution or read a piece of text. -/
theorem encloses_of_template (hs : s.Regular) (hin : s.enclosing.head? = some .template)
    (hrule : rule ∈ Grammar.template) (hmatch : rule.match? c = some (ls, d)) :
    Reading.Encloses s.enclosing ⟨ls, s.move rule.move, d⟩ := by
  simp only [Grammar.template, List.mem_cons, List.not_mem_nil, or_false] at hrule
  rcases hrule with rfl | rfl | rfl | rfl | rfl
  · obtain ⟨rfl, -⟩ := match?_lit (by decide) hmatch
    refine ⟨fun _ => rfl, fun offset => ?_⟩
    have hkind : TokenKind.ofLexeme ⟨.stringBacktick, "`".toList⟩ = .backtick := by decide
    rw [Token.enclose_place_single]
    simp only [Token.enclose, hkind, hin, if_true]
    rfl
  · refine encloses_of_templateText hs (by decide) (fun t hspans hmem => ?_) hmatch
    obtain ⟨e, hbackslash, hany⟩ := Pattern.mem_ends_seq.mp hmem
    have hhead := Pattern.mem_ends_lit.mp hbackslash
    rintro rfl
    exact absurd (hhead.head_eq hspans) (by decide)
  · obtain ⟨rfl, -⟩ := match?_lit (by decide) hmatch
    refine ⟨fun h => absurd h (by simp [LexState.move, Grammar.ruleTo]), fun offset => ?_⟩
    have hstarts : "$\x7b".toList = Opener.substitution.spelling := rfl
    rw [Token.enclose_place_single]
    simp only [Token.enclose, Nesting.startsSubstitution, hstarts, decide_true, if_true, hin]
    rfl
  · refine encloses_of_templateText hs (by decide) (fun t hspans hmem => ?_) hmatch
    have hdollar := Pattern.mem_ends_lit.mp hmem
    rintro rfl
    exact absurd (hdollar.head_eq hspans) (by decide)
  · refine encloses_of_templateText hs (by decide) (fun t hspans hmem => ?_) hmatch
    obtain ⟨e, hfirst, hmore⟩ := Pattern.mem_ends_seq.mp hmem
    obtain ⟨x, hx, hone⟩ := Pattern.mem_ends_one.mp hfirst
    rintro rfl
    rw [hone.head_eq hspans] at hx
    exact absurd hx (by decide)

/-- Every step of the lexer leads on from what encloses the text. -/
theorem encloses_of_stepsTo {r : Reading} (h : StepsTo s c r) : r.Encloses s.enclosing := by
  cases h with
  | operand outside state read =>
    obtain ⟨rule, hmem, hmap⟩ := List.exists_of_findSome?_eq_some read
    obtain ⟨⟨ls, d⟩, hmatch, rfl⟩ := Option.map_eq_some_iff.mp hmap
    rw [← state.same] at outside ⊢
    exact encloses_of_keeps (List.all_eq_true.mp keepsEnclosure_operand rule hmem) outside hmatch
  | rules state read =>
    obtain ⟨rule, hmem, hmap⟩ := List.exists_of_findSome?_eq_some read
    obtain ⟨⟨ls, d⟩, hmatch, rfl⟩ := Option.map_eq_some_iff.mp hmap
    rw [← state.same] at hmem ⊢
    rename_i s'
    match henclosing : s'.enclosing with
    | [] =>
      rw [henclosing] at hmem
      rw [← henclosing]
      exact encloses_of_code (by simp [henclosing]) hmem hmatch
    | .template :: outer =>
      rw [henclosing] at hmem
      rw [← henclosing]
      exact encloses_of_template state.regular (by simp [henclosing]) hmem hmatch
    | .substitution :: outer =>
      rw [henclosing] at hmem
      rw [← henclosing]
      rcases List.mem_cons.mp hmem with rfl | hmem
      · exact encloses_of_substitutionEnd (by simp [henclosing]) hmatch
      · exact encloses_of_code (by simp [henclosing]) hmem hmatch
  | character state isError here unread =>
    refine ⟨state.regular, fun offset => ?_⟩
    rw [Token.enclose_place_single, state.same]
    rcases isError with rfl | ⟨rfl, hout⟩
    · exact Token.enclose_of_error
    · exact Token.enclose_of_outside hout (by decide)

/-- The lexemes from a place on lead on from what encloses it. -/
theorem isSome_enclose_run : ∀ (bound : Text) (s : LexState) (c : Cursor) (offset : Nat),
    s.Regular →
      ((Token.place offset (run bound s c)).foldlM Token.enclose s.enclosing).isSome = true
  | [], _, _, _, _ => rfl
  | _ :: bound, s, c, offset, hs => by
    unfold run
    split
    · rfl
    · next r hr =>
      have hencloses := encloses_of_stepsTo (stepsTo_of_step hs hr)
      rw [Token.place_append, List.foldlM_append, hencloses.fold offset]
      exact isSome_enclose_run bound r.state r.next _ hencloses.regular

/-! ## All lexemes -/

/-- What holds of the lexemes of every step that the lexer takes holds of all its lexemes. -/
theorem forall_mem_run {P : Lexeme → Prop} {I : LexState → Cursor → Prop}
    (hstep : ∀ {s c r}, I s c → step s c = some r → StepsTo s c r →
      (∀ l ∈ r.lexemes, P l) ∧ I r.state r.next) :
    ∀ (bound : Text) (s : LexState) (c : Cursor), s.Regular → I s c → ∀ l ∈ run bound s c, P l
  | [], _, _, _, _, _, hl => by cases hl
  | _ :: bound, s, c, hs, hI, l, hl => by
    unfold run at hl
    split at hl
    · cases hl
    · next r hr =>
      have hsteps := stepsTo_of_step hs hr
      obtain ⟨hlexemes, hnext⟩ := hstep hI hr hsteps
      rcases List.mem_append.mp hl with hl | hl
      · exact hlexemes l hl
      · exact forall_mem_run hstep bound _ _ (encloses_of_stepsTo hsteps).regular hnext l hl

theorem regular_initial : LexState.initial.Regular := LexState.regular_of_outside (by decide)

/-- A lexeme of a step is a part of a rule, or a single character. -/
theorem StepsTo.isPart {r : Reading} (h : StepsTo s c r) : ∀ l ∈ r.lexemes,
    (∃ rule ∈ Grammar.operand ++ rulesIn s.enclosing, IsPart rule.parts l) ∨
      l.type = .error ∨ l.type = .whitespace := by
  have hread {rules : List LexRule} {s' : LexState} {r : Reading}
      (hread : byRules rules s' c = some r) :
      ∀ l ∈ r.lexemes, ∃ rule ∈ rules, IsPart rule.parts l := by
    intro l hl
    obtain ⟨rule, hmem, hmap⟩ := List.exists_of_findSome?_eq_some hread
    obtain ⟨⟨ls, d⟩, hmatch, rfl⟩ := Option.map_eq_some_iff.mp hmap
    exact ⟨rule, hmem, isPart_of_mem_matchParts hmatch l hl⟩
  intro l hl
  cases h with
  | operand outside state read =>
    obtain ⟨rule, hmem, hpart⟩ := hread read l hl
    exact Or.inl ⟨rule, List.mem_append_left _ hmem, hpart⟩
  | rules state read =>
    obtain ⟨rule, hmem, hpart⟩ := hread read l hl
    exact Or.inl ⟨rule, List.mem_append_right _ hmem, hpart⟩
  | character state isError here unread =>
    rw [List.mem_singleton.mp hl]
    exact Or.inr (isError.imp_right And.left)

/-- Every lexeme is a part of a rule of the grammar, or a single character. -/
theorem isPart_of_mem_lex {source : Text} : ∀ l ∈ lex source,
    (∃ rule ∈ Grammar.operand ++ (Grammar.substitutionEnd :: Grammar.code ++ Grammar.template),
      IsPart rule.parts l) ∨ l.type = .error ∨ l.type = .whitespace := by
  have hrules : ∀ enclosing, ∀ rule ∈ rulesIn enclosing,
      rule ∈ Grammar.substitutionEnd :: Grammar.code ++ Grammar.template := by
    intro enclosing rule hrule
    unfold rulesIn at hrule
    split at hrule
    · exact List.mem_append_right _ hrule
    · exact List.mem_append_left _ hrule
    · exact List.mem_append_left _ (List.mem_cons_of_mem _ hrule)
  refine forall_mem_run (I := fun _ _ => True) (fun _ _ hsteps => ⟨fun l hl => ?_, trivial⟩)
    source .initial (.start source) regular_initial trivial
  refine (hsteps.isPart l hl).imp_left fun ⟨rule, hrule, hpart⟩ => ⟨rule, ?_, hpart⟩
  exact (List.mem_append.mp hrule).elim (List.mem_append_left _)
    fun hrule => List.mem_append_right _ (hrules _ rule hrule)

/-- Outside of template literals, where no backtick is, nothing marks an enclosure. -/
theorem marksEnclosure_of_mem_lexemes {r : Reading} (henclosing : s.enclosing = [])
    (h : StepsTo s c r) {l : Lexeme} (hl : l ∈ r.lexemes) (hbacktick : '\x60' ∉ l.text) :
    l.type.marksEnclosure = false := by
  rcases h.isPart l hl with ⟨rule, hrule, part, hpart, htype, c', d', hmem, hspans⟩ | htype | htype
  · have hkeeps (hrule : keepsEnclosure rule = true) : l.type.marksEnclosure = false := by
      rw [keepsEnclosure, Bool.and_eq_true] at hrule
      simpa [htype] using List.all_eq_true.mp hrule.1 part hpart
    rw [henclosing] at hrule
    rcases List.mem_append.mp hrule with hrule | hrule
    · exact hkeeps (List.all_eq_true.mp keepsEnclosure_operand rule hrule)
    rcases keepsEnclosure_of_mem_code hrule with hrule | rfl
    · exact hkeeps hrule
    · rw [List.mem_singleton.mp hpart] at hmem
      rw [← hspans.upTo_eq, (Pattern.mem_ends_lit.mp hmem).upTo_eq] at hbacktick
      exact absurd (by decide) hbacktick
  · rw [htype]
    decide
  · rw [htype]
    decide

/-- Without a backtick there are no template literals and nothing in one. -/
theorem marksEnclosure_of_mem_lex {source : Text} (hsource : '\x60' ∉ source) :
    ∀ l ∈ lex source, l.type.marksEnclosure = false := by
  refine forall_mem_run (I := fun s c => s.enclosing = [] ∧ '\x60' ∉ c.rest)
    (fun {s c r} hI hr hsteps => ?_) source .initial (.start source) regular_initial ⟨rfl, hsource⟩
  obtain ⟨henclosing, hrest⟩ := hI
  rw [← (from_of_step hr).tiles.text_append, List.mem_append, not_or] at hrest
  have hlexemes : ∀ l ∈ r.lexemes, l.type.marksEnclosure = false := fun l hl =>
    marksEnclosure_of_mem_lexemes henclosing hsteps hl fun hmem =>
      hrest.1 (List.mem_flatMap.mpr ⟨l, hl, hmem⟩)
  refine ⟨hlexemes, ?_, hrest.2⟩
  have hfold := (encloses_of_stepsTo hsteps).fold 0
  rw [henclosing, Token.enclose_place_of_outside (by decide) r.lexemes 0 hlexemes] at hfold
  exact (Option.some.inj hfold).symm

end Lexer

/-- The tokens of every source enclose one another. -/
theorem Token.isSome_enclose_tokenize (source : Text) :
    ((tokenize source).foldlM enclose []).isSome = true :=
  Lexer.isSome_enclose_run source .initial (.start source) 0 Lexer.regular_initial

end ReplCore
