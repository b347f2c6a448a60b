import ReplCore.Proofs.Code.Enclosures
import ReplCore.Proofs.Pattern.Begins

/-!
# What the lexer reads at brackets and at plain characters

Brackets and backticks are read one by one, and the opening of a substitution at once. A letter or
white space begins a piece of text that has none of them.

* `Lexer.step_sign`: a step at a character that a rule for this character alone is the first for.
* `Lexer.step_plain`, `Lexer.step_plain_inside`: a step at a letter or white space.
-/

namespace ReplCore

open Cursor

namespace LexRule

/-! ## What rules begin with -/

/-- Whether a match of the parts may begin with the character `x`. -/
def canBeginParts (x : Char) : List (TokenType × Pattern) → Bool
  | [] => false
  | part :: parts => part.2.canBegin x || (!part.2.consumes && canBeginParts x parts)

/-- Whether a match of the rule may begin with the character `x`. -/
def canBegin (x : Char) (r : LexRule) : Bool := canBeginParts x r.parts

theorem canBegin_ruleTo {x : Char} {type : TokenType} {p : Pattern} {move : Move} :
    (Grammar.ruleTo move type p).canBegin x = p.canBegin x := by
  simp [Grammar.ruleTo, canBegin, canBeginParts]

theorem canBegin_rule {x : Char} {type : TokenType} {p : Pattern} :
    (Grammar.rule type p).canBegin x = p.canBegin x := canBegin_ruleTo

/-- Whether matches of the rule pass over none of the characters `xs`. -/
def avoids (xs : Text) (r : LexRule) : Bool := r.parts.all fun part => part.2.avoids xs

theorem exists_spans_of_matchParts : ∀ {parts : List (TokenType × Pattern)} {c d : Cursor}
    {ls : List Lexeme}, matchParts parts c = some (ls, d) →
      ∃ t, Spans c t d ∧ ∀ x ∈ t.head?, canBeginParts x parts = true
  | [], c, d, ls, h => by
    obtain ⟨rfl, rfl⟩ := Prod.mk.inj (Option.some.inj h)
    exact ⟨[], .refl c, by simp⟩
  | (type, p) :: parts, c, d, ls, h => by
    obtain ⟨e, t, more, hmem, ht, hmore, -, -⟩ := matchParts_cons h
    obtain ⟨u, hu, hbegin⟩ := exists_spans_of_matchParts hmore
    refine ⟨t ++ u, ht.trans hu, fun x hx => ?_⟩
    cases t with
    | nil => simp [canBeginParts, Pattern.consumes_eq_false_of_spans_nil hmem ht, hbegin x hx]
    | cons y t =>
      obtain rfl : y = x := by simpa using hx
      simp [canBeginParts, Pattern.canBegin_of_spans hmem ht]

/-- A rule that consumes text matches only where it can begin. -/
theorem canBegin_of_match? {r : LexRule} {c d : Cursor} {ls : List Lexeme} {x : Char} {v : Text}
    (hr : r.consumes = true) (h : r.match? c = some (ls, d)) (hrest : c.rest = x :: v) :
    r.canBegin x = true := by
  obtain ⟨t, ht, hbegin⟩ := exists_spans_of_matchParts h
  have hlt := length_lt_of_matchParts hr h
  cases t with
  | nil =>
    rw [ht.unique (.refl c)] at hlt
    exact absurd hlt (Nat.lt_irrefl _)
  | cons y t =>
    have hhead := ht.rest_eq
    rw [hrest, List.cons_append] at hhead
    rw [(List.cons.inj hhead).1]
    exact hbegin y rfl

theorem not_mem_of_matchParts {xs : Text} : ∀ {parts : List (TokenType × Pattern)} {c d : Cursor}
    {ls : List Lexeme}, (parts.all fun part => part.2.avoids xs) = true →
      matchParts parts c = some (ls, d) → ∀ l ∈ ls, ∀ y ∈ l.text, y ∉ xs
  | [], _, _, _, _, h, l, hl => by
    obtain ⟨rfl, -⟩ := Prod.mk.inj (Option.some.inj h)
    cases hl
  | (type, p) :: parts, c, d, ls, havoids, h, l, hl => by
    rw [List.all_cons, Bool.and_eq_true] at havoids
    obtain ⟨e, t, more, hmem, ht, hmore, rfl, -⟩ := matchParts_cons h
    have htail := not_mem_of_matchParts havoids.2 hmore
    split at hl
    · exact htail l hl
    · rcases List.mem_cons.mp hl with rfl | hl
      · exact Pattern.not_mem_of_avoids havoids.1 hmem ht
      · exact htail l hl

/-! ## Rules for one character -/

/-- Whether the rule reads the character `x` alone, as a lexeme of the type, and makes the move. -/
def readsOne (x : Char) (type : TokenType) (move : Move) (r : LexRule) : Bool :=
  match r.parts with
  | [(type', .one accept)] => type' = type && r.move = move && accept x
  | _ => false

theorem match?_of_readsOne {x : Char} {type : TokenType} {move : Move} {r : LexRule}
    (h : r.readsOne x type move = true) {c : Cursor} {v : Text} (hrest : c.rest = x :: v) :
    r.match? c = some ([⟨type, [x]⟩], ⟨some x, v⟩) ∧ r.move = move := by
  unfold readsOne at h
  split at h
  · next type' accept hparts =>
    simp only [Bool.and_eq_true, decide_eq_true_eq] at h
    obtain ⟨⟨rfl, hmove⟩, haccept⟩ := h
    have hupTo : c.upTo ⟨some x, v⟩ = [x] := (Spans.cons hrest).upTo_eq
    refine ⟨?_, hmove⟩
    simp [match?, hparts, matchParts, Pattern.ends, hrest, haccept, hupTo]
  · cases h

end LexRule

namespace Lexer

variable {rules : List LexRule} {s : LexState} {c : Cursor} {x : Char} {v : Text}
  {type : TokenType} {move : Move} {r : Reading}

theorem byRules_of_not_canBegin (hrules : rules.all LexRule.consumes = true)
    (hbegin : (rules.all fun rule => !rule.canBegin x) = true) (hrest : c.rest = x :: v)
    (s : LexState) : byRules rules s c = none := by
  rw [byRules, List.findSome?_eq_none_iff]
  intro rule hrule
  rw [Option.map_eq_none_iff, Option.eq_none_iff_forall_ne_some]
  rintro ⟨ls, d⟩ hmatch
  have hnot := List.all_eq_true.mp hbegin rule hrule
  simp [LexRule.canBegin_of_match? (List.all_eq_true.mp hrules rule hrule) hmatch hrest] at hnot

/-- Whether the first of the rules that can begin with `x` reads this character alone. -/
def firstReads (rules : List LexRule) (x : Char) (type : TokenType) (move : Move) : Bool :=
  (rules.find? (LexRule.canBegin x)).any (LexRule.readsOne x type move)

theorem byRules_of_firstReads (hrules : rules.all LexRule.consumes = true)
    (hfirst : firstReads rules x type move = true) (hrest : c.rest = x :: v) (s : LexState) :
    byRules rules s c = some ⟨[⟨type, [x]⟩], s.move move, ⟨some x, v⟩⟩ := by
  obtain ⟨rule, hfind, hreads⟩ := (Option.any_eq_true ..).mp hfirst
  obtain ⟨-, before, after, rfl, hbefore⟩ := List.find?_eq_some_iff_append.mp hfind
  rw [List.all_append, Bool.and_eq_true] at hrules
  obtain ⟨hmatch, rfl⟩ := LexRule.match?_of_readsOne hreads hrest
  -- The rules before it cannot begin with the character, so none of them matches.
  have hnone := byRules_of_not_canBegin hrules.1 (List.all_eq_true.mpr hbefore) hrest s
  rw [byRules_append, hnone, Option.none_or, byRules, List.findSome?_cons, hmatch]
  rfl

/-! ## Steps at signs -/

/-- The lexer can read the line. -/
theorem move_slash_ne {s : LexState} (h : s.slash ≠ .unterminated) (move : Move) :
    (s.move move).slash ≠ .unterminated := by
  cases move <;> simp [LexState.move, h]

/-- A step at a character that a rule for this character alone is the first for. -/
theorem step_sign (hs : s.Regular) (hcalm : s.slash ≠ .unterminated) (hrest : c.rest = x :: v)
    (hx : x ≠ '/') (hoperand : (Grammar.operand.all fun rule => !rule.canBegin x) = true)
    (hfirst : firstReads (rulesIn s.enclosing) x type move = true) (h : step s c = some r) :
    r.lexemes = [⟨type, [x]⟩] ∧ r.next.rest = v ∧ r.state.slash ≠ .unterminated := by
  have hslash : c.rest.head? ≠ some '/' := by simpa [hrest] using hx
  have hread := byRules_of_firstReads (consumes_rulesIn s.enclosing) hfirst hrest
  cases stepsTo_of_step hs h with
  | operand _ state read =>
    rw [byRules_of_not_canBegin Grammar.consumes_operand hoperand hrest] at read
    cases read
  | @rules s' _ state read =>
    rw [hread] at read
    obtain rfl := Option.some.inj read
    exact ⟨rfl, rfl, move_slash_ne (state.calm hcalm hslash) move⟩
  | character state isError here unread =>
    rw [hrest] at here
    rcases unread with rfl | hunterminated | hnone
    · exact absurd (Option.some.inj here) hx
    · exact absurd hunterminated hcalm
    · rw [hread] at hnone
      cases hnone

/-- A step at the opening of a substitution, directly inside a template literal. -/
theorem step_substitution (hs : s.Regular) (hin : s.enclosing.head? = some .template)
    (hrest : c.rest = '$' :: '\x7b' :: v) (h : step s c = some r) :
    r.lexemes = [⟨.stringInterpol, "$\x7b".toList⟩] ∧ r.next.rest = v ∧
      r.state.slash ≠ .unterminated := by
  obtain ⟨outer, henclosing⟩ := List.head?_eq_some_iff.mp hin
  -- The first two rules cannot begin with a dollar sign, and the third is for a substitution.
  have hnone : ∀ state, byRules (Grammar.template.take 2) state c = none :=
    byRules_of_not_canBegin (by decide) (by decide) hrest
  have hspans : Spans c "$\x7b".toList ⟨some '\x7b', v⟩ := ⟨hrest, rfl⟩
  have hopen : ∀ state, byRules (Grammar.template.drop 2) state c =
      some ⟨[⟨.stringInterpol, "$\x7b".toList⟩], state.move (.enter .substitution),
        ⟨some '\x7b', v⟩⟩ := by
    intro state
    have hends : (Pattern.lit "$\x7b").ends c = [⟨some '\x7b', v⟩] := by
      simp [Pattern.lit, Pattern.chars, Pattern.ends, hrest]
    simp [byRules, Grammar.template, Grammar.ruleTo, LexRule.match?, LexRule.matchParts, hends,
      hspans.upTo_eq]
  have hread : ∀ state, byRules (rulesIn s.enclosing) state c =
      some ⟨[⟨.stringInterpol, "$\x7b".toList⟩], state.move (.enter .substitution),
        ⟨some '\x7b', v⟩⟩ := by
    intro state
    rw [henclosing]
    change byRules Grammar.template state c = _
    rw [← List.take_append_drop 2 Grammar.template, byRules_append, hnone, Option.none_or, hopen]
  cases stepsTo_of_step hs h with
  | operand outside => exact absurd hin outside
  | rules state read =>
    rw [hread] at read
    obtain rfl := Option.some.inj read
    exact ⟨rfl, rfl, by simp [LexState.move]⟩
  | character state isError here unread =>
    rw [hrest] at here
    rcases unread with rfl | hunterminated | hnone
    · exact absurd (Option.some.inj here) (by decide)
    · rw [hs hin] at hunterminated
      cases hunterminated
    · rw [hread] at hnone
      cases hnone

/-! ## Steps at plain characters -/

/-- The characters of the text between brackets: letters and white space. -/
def isPlain (x : Char) : Bool := CharClass.isLetter x || CharClass.isBlank x

/-- The brackets and the backtick. -/
def signs : Text := "()[]\x7b\x7d`".toList

/-- What comments, strings, regular expressions, private names and signs begin with. -/
def marks : Text := "/#\x22'`\x7b([;,\x7d)].".toList

/-- Neither a sign nor a mark nor a character with a meaning in template literals is plain. -/
theorem ne_of_isPlain (hx : isPlain x = true) : ∀ y ∈ signs ++ marks ++ "\\$".toList, x ≠ y := by
  have hall : ((signs ++ marks ++ "\\$".toList).all fun y => !isPlain y) = true := by
    decide +kernel
  rintro y hy rfl
  simpa [hx] using List.all_eq_true.mp hall x hy

theorem not_mem_marks (hx : isPlain x = true) : x ∉ marks :=
  fun hmem => ne_of_isPlain hx x (by simp [hmem]) rfl

theorem not_mem_signs (hx : isPlain x = true) : x ∉ signs :=
  fun hmem => ne_of_isPlain hx x (by simp [hmem]) rfl

/-- The rule leaves what encloses the text as it is and passes over no sign, unless it begins with
one of the marks. -/
def KeepsOrBegins (rule : LexRule) : Prop :=
  (keepsEnclosure rule && rule.avoids signs) = true ∨ ∀ x, rule.canBegin x = true → x ∈ marks

/-- A rule with one part that begins with a fixed character. -/
theorem keepsOrBegins_of_head {type : TokenType} {p : Pattern} {move : Move} (y : Char)
    (hy : y ∈ marks) (hp : ∀ x, p.canBegin x = true → x = y) :
    KeepsOrBegins (Grammar.ruleTo move type p) := by
  refine Or.inr fun x hx => ?_
  rw [LexRule.canBegin_ruleTo] at hx
  rw [hp x hx]
  exact hy

theorem keepsOrBegins_trivia : ∀ rule ∈ Grammar.trivia, KeepsOrBegins rule := by
  intro rule hrule
  simp only [Grammar.trivia, List.mem_cons, List.not_mem_nil, or_false] at hrule
  rcases hrule with rfl | rfl | rfl | rfl
  · exact Or.inl (by decide +kernel)
  · exact Or.inl (by decide +kernel)
  · refine keepsOrBegins_of_head '/' (by decide) fun x hx => ?_
    simpa [Pattern.canBegin, Pattern.lit, Pattern.chars, Pattern.consumes] using hx
  · refine keepsOrBegins_of_head '/' (by decide) fun x hx => ?_
    simpa [Pattern.canBegin, Pattern.all, Pattern.lit, Pattern.chars, Pattern.consumes] using hx

theorem keepsOrBegins_operand : ∀ rule ∈ Grammar.operand, KeepsOrBegins rule := by
  intro rule hrule
  rcases List.mem_append.mp hrule with hrule | hrule
  · exact keepsOrBegins_trivia rule hrule
  · rw [List.mem_singleton.mp hrule]
    refine keepsOrBegins_of_head '/' (by decide) fun x hx => ?_
    have hbegin : (Pattern.canBegin x (.lit "/") || (!Pattern.consumes (.lit "/") && _)) = true := hx
    simpa [Pattern.canBegin, Pattern.lit, Pattern.chars, Pattern.consumes] using hbegin

theorem keepsOrBegins_signs {s : String} {move : Move} (hs : (s.toList.all (· ∈ marks)) = true) :
    KeepsOrBegins (Grammar.ruleTo move .punctuation (.oneOf s)) := by
  refine Or.inr fun x hx => ?_
  have hmem : x ∈ s.toList := by
    simpa [LexRule.canBegin_ruleTo, Pattern.canBegin, Pattern.oneOf] using hx
  simpa using List.all_eq_true.mp hs x hmem

theorem keepsOrBegins_wordsAndSigns : ∀ rule ∈ Grammar.wordsAndSigns, KeepsOrBegins rule := by
  intro rule hrule
  simp only [Grammar.wordsAndSigns, List.mem_append, List.mem_cons, List.not_mem_nil,
    or_false] at hrule
  rcases hrule with (hrule | hrule) | hrule
  · rcases hrule with rfl | rfl | rfl | rfl | rfl | rfl | rfl | rfl
    all_goals first
      | exact Or.inl (by decide +kernel)
      | refine keepsOrBegins_of_head '#' (by decide) fun x hx => ?_
        simpa [Pattern.canBegin, Pattern.all, Pattern.lit, Pattern.chars, Pattern.consumes] using hx
  · exact keepsOrBegins_trivia rule hrule
  · rcases hrule with rfl | rfl | rfl | rfl | rfl | rfl | rfl | rfl | rfl | rfl | rfl | rfl | rfl |
      rfl | rfl | rfl | rfl | rfl
    all_goals first
      | exact Or.inl (by decide +kernel)
      | exact keepsOrBegins_signs (by decide)

theorem keepsOrBegins_literals : ∀ rule ∈ Grammar.literals, KeepsOrBegins rule := by
  intro rule hrule
  simp only [Grammar.literals, List.mem_cons, List.not_mem_nil, or_false] at hrule
  rcases hrule with rfl | rfl | rfl | rfl
  · refine keepsOrBegins_of_head '\x22' (by decide) fun x hx => ?_
    simpa [Pattern.canBegin, Grammar.quotedBy, Pattern.all, Pattern.consumes] using hx
  · refine keepsOrBegins_of_head '\'' (by decide) fun x hx => ?_
    simpa [Pattern.canBegin, Grammar.quotedBy, Pattern.all, Pattern.consumes] using hx
  · refine keepsOrBegins_of_head '`' (by decide) fun x hx => ?_
    simpa [Pattern.canBegin, Pattern.lit, Pattern.chars] using hx
  · exact Or.inl (by decide +kernel)

theorem keepsOrBegins_rulesIn {enclosing : List Enclosure}
    (hout : enclosing.head? ≠ some .template) :
    ∀ rule ∈ rulesIn enclosing, KeepsOrBegins rule := by
  have hcode : ∀ rule ∈ Grammar.code, KeepsOrBegins rule := by
    intro rule hrule
    rcases List.mem_append.mp hrule with hrule | hrule
    · exact keepsOrBegins_wordsAndSigns rule hrule
    · rcases List.mem_cons.mp hrule with rfl | hrule
      · exact Or.inl (by decide +kernel)
      · exact keepsOrBegins_literals rule hrule
  intro rule hrule
  unfold rulesIn at hrule
  split at hrule
  · exact absurd rfl hout
  · rcases List.mem_cons.mp hrule with rfl | hrule
    · refine keepsOrBegins_of_head '\x7d' (by decide) fun x hx => ?_
      simpa [Pattern.canBegin, Pattern.lit, Pattern.chars] using hx
    · exact hcode rule hrule
  · exact hcode rule hrule

/-- What a rule reads where none of the marks stands. -/
theorem forall_of_keepsOrBegins {rule : LexRule} {d : Cursor} {ls : List Lexeme}
    (hrule : KeepsOrBegins rule) (hconsumes : rule.consumes = true) (hx : x ∉ marks)
    (hrest : c.rest = x :: v) (hmatch : rule.match? c = some (ls, d)) :
    ∀ l ∈ ls, l.type.marksEnclosure = false ∧ ∀ y ∈ l.text, y ∉ signs := by
  rcases hrule with hkeeps | hbegins
  · rw [Bool.and_eq_true, keepsEnclosure, Bool.and_eq_true] at hkeeps
    intro l hl
    obtain ⟨part, hpart, htype, -⟩ := isPart_of_mem_matchParts hmatch l hl
    refine ⟨?_, LexRule.not_mem_of_matchParts hkeeps.2 hmatch l hl⟩
    simpa [htype] using List.all_eq_true.mp hkeeps.1.1 part hpart
  · exact absurd (hbegins x (LexRule.canBegin_of_match? hconsumes hmatch hrest)) hx

/-- A step at a plain character outside of template literals passes over no sign. -/
theorem step_plain (hs : s.Regular) (hcalm : s.slash ≠ .unterminated)
    (hout : s.enclosing.head? ≠ some .template) (hx : isPlain x = true) (hrest : c.rest = x :: v)
    (h : step s c = some r) : r.state.slash ≠ .unterminated ∧
      ∀ l ∈ r.lexemes, l.type.marksEnclosure = false ∧ ∀ y ∈ l.text, y ∉ signs := by
  have hmarks := not_mem_marks hx
  have hslash : c.rest.head? ≠ some '/' := by
    rw [hrest]
    rintro hslash
    obtain rfl : x = '/' := Option.some.inj hslash
    exact hmarks (by decide)
  cases stepsTo_of_step hs h with
  | operand _ state read =>
    obtain ⟨rule, hmem, hmap⟩ := List.exists_of_findSome?_eq_some read
    obtain ⟨⟨ls, d⟩, hmatch, rfl⟩ := Option.map_eq_some_iff.mp hmap
    exact ⟨move_slash_ne (state.calm hcalm hslash) _,
      forall_of_keepsOrBegins (keepsOrBegins_operand rule hmem)
        (List.all_eq_true.mp Grammar.consumes_operand rule hmem) hmarks hrest hmatch⟩
  | rules state read =>
    obtain ⟨rule, hmem, hmap⟩ := List.exists_of_findSome?_eq_some read
    obtain ⟨⟨ls, d⟩, hmatch, rfl⟩ := Option.map_eq_some_iff.mp hmap
    exact ⟨move_slash_ne (state.calm hcalm hslash) _,
      forall_of_keepsOrBegins (keepsOrBegins_rulesIn hout rule hmem)
        (List.all_eq_true.mp (consumes_rulesIn s.enclosing) rule hmem) hmarks hrest hmatch⟩
  | @character s' type y state isError here unread =>
    refine ⟨state.calm hcalm hslash, fun l hl => ?_⟩
    obtain rfl : x = y := by simpa [hrest] using here
    rw [List.mem_singleton.mp hl]
    have htype : type.marksEnclosure = false := by
      rcases isError with rfl | ⟨rfl, -⟩ <;> decide
    refine ⟨htype, fun z hz hsign => ?_⟩
    rw [List.mem_singleton.mp hz] at hsign
    exact not_mem_signs hx hsign

/-- A step at a plain character directly inside a template literal reads a piece of its text. -/
theorem step_plain_inside (hs : s.Regular) (hin : s.enclosing.head? = some .template)
    (hx : isPlain x = true) (hrest : c.rest = x :: v) (h : step s c = some r) :
    r.state.slash ≠ .unterminated ∧ ∀ l ∈ r.lexemes,
      (l.type = .stringBacktick ∨ l.type = .error) ∧ ∀ y ∈ l.text, y ∉ "`$".toList := by
  obtain ⟨outer, henclosing⟩ := List.head?_eq_some_iff.mp hin
  have hsigns := ne_of_isPlain hx
  have hslash : s.slash ≠ .unterminated := by simp [hs hin]
  have hhead : c.rest.head? ≠ some '/' := by
    simpa [hrest] using hsigns '/' (by decide)
  cases stepsTo_of_step hs h with
  | operand outside => exact absurd hin outside
  | rules state read =>
    obtain ⟨rule, hmem, hmap⟩ := List.exists_of_findSome?_eq_some read
    obtain ⟨⟨ls, d⟩, hmatch, rfl⟩ := Option.map_eq_some_iff.mp hmap
    rw [henclosing] at hmem
    have hbegin := LexRule.canBegin_of_match?
      (List.all_eq_true.mp Grammar.consumes_template rule hmem) hmatch hrest
    refine ⟨move_slash_ne (state.calm hslash hhead) _, ?_⟩
    -- The last rule is the only one that can begin with a plain character.
    have hrule : rule = Grammar.rule .stringBacktick (.some1 (.noneOf "`\\$")) := by
      simp only [rulesIn, Grammar.template, List.mem_cons, List.not_mem_nil, or_false] at hmem
      rcases hmem with rfl | rfl | rfl | rfl | rfl
      all_goals simp only [LexRule.canBegin_rule, LexRule.canBegin_ruleTo] at hbegin
      · exact absurd (by simpa [Pattern.canBegin, Pattern.lit, Pattern.chars] using hbegin)
          (hsigns '`' (by decide))
      · exact absurd (by simpa [Pattern.canBegin, Pattern.lit, Pattern.chars,
          Pattern.consumes] using hbegin) (hsigns '\\' (by decide))
      · exact absurd (by simpa [Pattern.canBegin, Pattern.lit, Pattern.chars,
          Pattern.consumes] using hbegin) (hsigns '$' (by decide))
      · exact absurd (by simpa [Pattern.canBegin, Pattern.lit, Pattern.chars] using hbegin)
          (hsigns '$' (by decide))
      · rfl
    subst hrule
    intro l hl
    obtain ⟨part, hpart, htype, -⟩ := isPart_of_mem_matchParts hmatch l hl
    rw [List.mem_singleton.mp hpart] at htype
    exact ⟨Or.inl htype, LexRule.not_mem_of_matchParts (by decide) hmatch l hl⟩
  | @character s' type y state isError here unread =>
    refine ⟨state.calm hslash hhead, fun l hl => ?_⟩
    obtain rfl : x = y := by simpa [hrest] using here
    rw [List.mem_singleton.mp hl]
    refine ⟨Or.inr (isError.resolve_right fun herror => herror.2 hin), fun z hz hsign => ?_⟩
    rw [List.mem_singleton.mp hz] at hsign
    rcases List.mem_cons.mp hsign with rfl | hsign
    · exact hsigns '`' (by decide) rfl
    · rw [List.mem_singleton.mp hsign] at hsigns
      exact hsigns '$' (by decide) rfl

end Lexer

end ReplCore
