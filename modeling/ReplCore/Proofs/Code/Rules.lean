import ReplCore.Proofs.Code.Lexemes

/-!
# Lexemes rule by rule

Each rule of the grammar gives lexemes that are as their types promise. The rules for words all stop
where no word goes on; that for identifiers stops elsewhere only before a character that identifiers
do not know, and it is not tried where a name is annotated with a type.

* `reads_wordsAndSigns`, `chain_of_identifier`: the lexemes of code are as their types promise.
-/

namespace ReplCore

open Cursor Pattern

namespace LexRule

/-- The rule gives lexemes that are as their types promise. -/
def Reads (r : LexRule) : Prop :=
  ∀ c ls d, r.match? c = some (ls, d) → Chain LexemeRead c ls d

/-! ## Parts -/

/-- A part passes over a text, which is a lexeme if it is not empty. If the parts after it match
everywhere, its end is the preferred one. -/
theorem matchParts_cons {type : TokenType} {p : Pattern} {parts : List (TokenType × Pattern)}
    {c e : Cursor} {ls : List Lexeme} (h : matchParts ((type, p) :: parts) c = some (ls, e)) :
    ∃ d t more, d ∈ p.ends c ∧ Spans c t d ∧ matchParts parts d = some (more, e) ∧
      (ls = if t = [] then more else ⟨type, t⟩ :: more) ∧
      ((∀ d, (matchParts parts d).isSome = true) → p.first? c = some d) := by
  rw [matchParts, List.findSome?_eq_some_iff] at h
  obtain ⟨earlier, d, later, hends, hmatch, hearlier⟩ := h
  obtain ⟨⟨more, e'⟩, hmore, heq⟩ := Option.map_eq_some_iff.mp hmatch
  obtain ⟨rfl, rfl⟩ := Prod.mk.inj heq
  have hmem : d ∈ p.ends c := by simp [hends]
  obtain ⟨t, hspans⟩ := spans_of_mem_ends p c d hmem
  rw [hspans.upTo_eq]
  refine ⟨d, t, more, hmem, hspans, hmore, rfl, fun hall => ?_⟩
  have hnil : earlier = [] := by
    refine List.eq_nil_iff_forall_not_mem.mpr fun x hx => ?_
    obtain ⟨y, hy⟩ := Option.isSome_iff_exists.mp (hall x)
    have := hearlier x hx
    simp [hy] at this
  simp [first?, hends, hnil]

theorem chain_part {type : TokenType} {t : Text} {c d e : Cursor} {more : List Lexeme}
    (hspans : Spans c t d) (hhead : t ≠ [] → LexemeRead c ⟨type, t⟩ d)
    (htail : Chain LexemeRead d more e) :
    Chain LexemeRead c (if t = [] then more else ⟨type, t⟩ :: more) e := by
  split
  · next hnil =>
    rw [hnil] at hspans
    rwa [← hspans.unique (.refl c)]
  · next hne => exact .cons (hhead hne) htail

theorem chain_of_plainParts : ∀ {parts : List (TokenType × Pattern)} {c e : Cursor}
    {ls : List Lexeme}, (parts.all fun part => part.1.isPlain) = true →
      matchParts parts c = some (ls, e) → Chain LexemeRead c ls e
  | [], c, e, ls, _, h => by
    obtain ⟨rfl, rfl⟩ := Prod.mk.inj (Option.some.inj h)
    exact .nil c
  | (type, p) :: parts, c, e, ls, hplain, h => by
    rw [List.all_cons, Bool.and_eq_true] at hplain
    obtain ⟨d, t, more, -, hspans, hmore, rfl, -⟩ := matchParts_cons h
    exact chain_part hspans (fun _ => .plain hspans hplain.1)
      (chain_of_plainParts hplain.2 hmore)

theorem reads_of_plain {r : LexRule} (h : (r.parts.all fun part => part.1.isPlain) = true) :
    Reads r := fun _ _ _ hmatch => chain_of_plainParts h hmatch

/-- A rule with one part ends at the preferred end. -/
theorem reads_of_single {type : TokenType} {p : Pattern} {m : Move}
    (h : ∀ c d t, p.first? c = some d → Spans c t d → t ≠ [] → LexemeRead c ⟨type, t⟩ d) :
    Reads ⟨[(type, p)], m⟩ := by
  intro c ls d hmatch
  obtain ⟨e, t, more, -, hspans, hmore, rfl, hfirst⟩ := matchParts_cons hmatch
  obtain ⟨rfl, rfl⟩ := Prod.mk.inj (Option.some.inj hmore)
  exact chain_part hspans (h c e t (hfirst fun _ => rfl) hspans) (.nil e)

/-! ## Words -/

/-- Whether all are spelled with letters and digits of ASCII. -/
def areWords (ws : List String) : Bool :=
  ws.all fun w =>
    !w.toList.isEmpty && w.toList.all fun x => Grammar.isLatin x || Grammar.isDecimal x

theorem wordRead_of_mem {ws : List String} (hws : areWords ws = true) {w : String} (hw : w ∈ ws)
    {c d : Cursor} (hspans : Spans c w.toList d) (hedge : d.isWordEdge = true) :
    WordRead c w.toList d := by
  have hword := List.all_eq_true.mp hws w hw
  rw [Bool.and_eq_true] at hword
  obtain ⟨hne, hall⟩ := hword
  have hne : w.toList ≠ [] := by simpa using hne
  have hletter : ∀ x ∈ w.toList,
      CharClass.isWord x = true ∧ CharClass.continuesIdentifier x = true :=
    fun x hx => CharClass.isWord_of_isLatin (List.all_eq_true.mp hall x hx)
  refine ⟨Or.inl ?_, Or.inl ?_⟩
  · rw [List.head?_eq_some_head hne]
    exact (hletter _ (List.head_mem hne)).2
  · have hlast := List.getLast?_eq_some_getLast hne
    have hbefore := hspans.before_some hlast
    have := (hletter _ (List.getLast_mem hne)).1
    simpa [isWordEdge, hbefore, this] using hedge

theorem reads_words {type : TokenType} {m : Move} {ws : List String}
    (htype : (type.isA .comment || type.isLiteral) = false) (hws : areWords ws = true) :
    Reads ⟨[(type, wholeWordOf ws)], m⟩ := by
  refine reads_of_single fun c d t hfirst hspans _ => .ofWord hspans htype fun _ => ?_
  obtain ⟨⟨w, hw, hspans'⟩, hedge⟩ := mem_ends_wholeWordOf.mp (first?_mem hfirst)
  rw [← hspans.upTo_eq, hspans'.upTo_eq]
  exact wordRead_of_mem hws hw hspans' hedge

theorem reads_wordsAtEdge {type : TokenType} {m : Move} {ws : List String}
    (htype : (type.isA .comment || type.isLiteral) = false) (hws : areWords ws = true) :
    Reads ⟨[(type, seq wordEdge (wholeWordOf ws))], m⟩ := by
  refine reads_of_single fun c d t hfirst hspans _ => .ofWord hspans htype fun _ => ?_
  obtain ⟨e, he, hd⟩ := mem_ends_seq.mp (first?_mem hfirst)
  obtain ⟨-, rfl⟩ := mem_ends_place.mp he
  obtain ⟨⟨w, hw, hspans'⟩, hedge⟩ := mem_ends_wholeWordOf.mp hd
  rw [← hspans.upTo_eq, hspans'.upTo_eq]
  exact wordRead_of_mem hws hw hspans' hedge

/-- A text that begins with a character of no word is no word. -/
theorem reads_marked {type : TokenType} {s : String} {x : Char} {p : Pattern} {m : Move}
    (htype : (type.isA .comment || type.isLiteral) = false) (hs : s.toList = [x])
    (hx : (x = '$' || CharClass.isWord x) = false) : Reads ⟨[(type, seq (lit s) p)], m⟩ := by
  refine reads_of_single fun c d t hfirst hspans hne => .ofWord hspans htype fun hword => ?_
  obtain ⟨e, he, -⟩ := mem_ends_seq.mp (first?_mem hfirst)
  have hmark := mem_ends_lit.mp he
  rw [hs] at hmark
  obtain ⟨y, t, rfl⟩ := List.exists_cons_of_ne_nil hne
  rw [← hmark.head_eq hspans] at hword
  simp [TokenKind.isWordLike, hx] at hword

/-! ## Dotted names -/

theorem isWord_of_isDotted {x : Char} (h : Grammar.isDotted x = false) :
    CharClass.isWord x = false := by
  simp only [Grammar.isDotted, Bool.or_eq_false_iff] at h
  exact h.1.1.1

theorem isAt_of_isAt_isDotted {d : Cursor} (h : d.isAt Grammar.isDotted = false) :
    d.isAt CharClass.isWord = false := by
  unfold isAt at h ⊢
  cases hrest : d.rest.head? with
  | none => rfl
  | some x =>
    rw [hrest] at h
    exact isWord_of_isDotted h

/-- The preferred end of a dotted name is one where it does not go on. -/
theorem isAt_of_first?_dotted {c d : Cursor} (h : Grammar.dotted.first? c = some d) :
    d.isAt CharClass.isWord = false := by
  obtain ⟨e, -, hmany⟩ := exists_of_first?_seq h
  exact isAt_of_isAt_isDotted (isAt_of_first?_one (first?_many_stops rfl hmany))

/-- Neither white space nor what follows it goes on with a word. -/
theorem isAt_of_blanks {c d : Cursor} {x : Char} (h : d ∈ blanks.ends c)
    (hd : d.isAt (· == x) = true) (hx : CharClass.isWord x = false) :
    c.isAt CharClass.isWord = false := by
  obtain ⟨t, ht, hspans⟩ := mem_ends_many_one.mp h
  cases t with
  | nil =>
    rw [← hspans.unique (.refl c)]
    unfold isAt at hd ⊢
    cases hrest : d.rest.head? with
    | none => rfl
    | some y =>
      rw [hrest] at hd
      rw [show y = x by simpa using hd]
      exact hx
  | cons y t =>
    rw [hspans.isAt_eq]
    exact CharClass.isWord_of_isBlank (ht y List.mem_cons_self)

theorem before_of_blanks {c d : Cursor} {t : Text} (hspans : Spans c t d)
    (ht : ∀ x ∈ t, CharClass.isBlank x = true)
    (hc : c.before.any (fun x => CharClass.isBlank x || x == ':') = true) :
    d.before.any (fun x => CharClass.isBlank x || x == ':') = true := by
  rw [hspans.before_eq]
  cases hlast : t.getLast? with
  | none => exact hc
  | some x => simp [ht x (List.mem_of_getLast? hlast)]

theorem reads_module : Reads Grammar.moduleRule := by
  intro c ls e hmatch
  obtain ⟨d₁, t₁, ls₁, hword, hspans₁, hrest₁, rfl, -⟩ := matchParts_cons hmatch
  obtain ⟨d₂, t₂, ls₂, hblank, hspans₂, hrest₂, rfl, -⟩ := matchParts_cons hrest₁
  obtain ⟨d₃, t₃, ls₃, hdotted, hspans₃, hrest₃, rfl, hfirst⟩ := matchParts_cons hrest₂
  obtain ⟨d₄, t₄, ls₄, -, hspans₄, hrest₄, rfl, -⟩ := matchParts_cons hrest₃
  obtain ⟨rfl, rfl⟩ := Prod.mk.inj (Option.some.inj hrest₄)
  obtain ⟨t, hne, ht, hspans⟩ := mem_ends_some1_one.mp hblank
  obtain rfl : t = t₂ := hspans.upTo_eq.symm.trans hspans₂.upTo_eq
  have hmodule : t₁ = "module".toList := by
    obtain ⟨c', hc', hd⟩ := mem_ends_seq.mp hword
    obtain ⟨-, rfl⟩ := mem_ends_place.mp hc'
    exact hspans₁.upTo_eq.symm.trans (mem_ends_lit.mp hd).upTo_eq
  have hfirst := hfirst fun d => by
    obtain ⟨a, as, hends⟩ := List.exists_cons_of_ne_nil
      (show blanks.ends d ≠ [] by rw [blanks, ends_many rfl]; simp)
    simp [matchParts, hends]
  refine chain_part hspans₁ (fun _ => .ofWord hspans₁ rfl fun _ => ⟨Or.inl ?_, Or.inl ?_⟩)
    (chain_part hspans₂ (fun _ => .plain hspans₂ rfl)
      (chain_part hspans₃ (fun _ => .ofWord hspans₃ rfl fun _ => ⟨Or.inr (Or.inl ?_), Or.inl ?_⟩)
        (chain_part hspans₄ (fun _ => .plain hspans₄ rfl) (.nil _))))
  · rw [hmodule]
    decide
  · obtain ⟨x, t, rfl⟩ := List.exists_cons_of_ne_nil hne
    rw [hspans₂.isAt_eq]
    exact CharClass.isWord_of_isBlank (ht x List.mem_cons_self)
  · have hlast := List.getLast?_eq_some_getLast hne
    rw [hspans₂.before_some hlast]
    simp [ht _ (List.getLast_mem hne)]
  · exact isAt_of_first?_dotted hfirst

theorem reads_annotation : Reads Grammar.annotationRule := by
  intro c ls e hmatch
  obtain ⟨d₁, t₁, ls₁, hdotted, hspans₁, hrest₁, rfl, -⟩ := matchParts_cons hmatch
  obtain ⟨d₂, t₂, ls₂, hblanks, hspans₂, hrest₂, rfl, -⟩ := matchParts_cons hrest₁
  obtain ⟨d₃, t₃, ls₃, hcolon, hspans₃, hrest₃, rfl, -⟩ := matchParts_cons hrest₂
  obtain ⟨d₄, t₄, ls₄, hblanks', hspans₄, hrest₄, rfl, -⟩ := matchParts_cons hrest₃
  obtain ⟨d₅, t₅, ls₅, -, hspans₅, hrest₅, rfl, hfirst⟩ := matchParts_cons hrest₄
  obtain ⟨rfl, rfl⟩ := Prod.mk.inj (Option.some.inj hrest₅)
  have hcolon : Spans d₂ ":".toList d₃ := mem_ends_lit.mp hcolon
  refine chain_part hspans₁ (fun _ => .ofWord hspans₁ rfl fun _ => ⟨Or.inr (Or.inr ?_), Or.inl ?_⟩)
    (chain_part hspans₂ (fun _ => .plain hspans₂ rfl)
      (chain_part hspans₃ (fun _ => .plain hspans₃ rfl)
        (chain_part hspans₄ (fun _ => .plain hspans₄ rfl)
          (chain_part hspans₅ (fun _ => .ofWord hspans₅ rfl
            fun _ => ⟨Or.inr (Or.inl ?_), Or.inl ?_⟩) (.nil _)))))
  · rw [hmatch]
    rfl
  · refine isAt_of_blanks hblanks (x := ':') ?_ (CharClass.isWord_of_mem_aroundWords (by decide))
    rw [hcolon.isAt_eq]
    rfl
  · obtain ⟨t, ht, hspans⟩ := mem_ends_many_one.mp hblanks'
    refine before_of_blanks hspans ht ?_
    rw [hcolon.before_some rfl]
    rfl
  · exact isAt_of_first?_dotted (hfirst fun _ => rfl)

/-- What is annotated is so too from further left, as long as its name goes on there. -/
theorem annotation_of_spans {c d : Cursor} {t : Text} (hspans : Spans c t d)
    (ht : ∀ x ∈ t, Grammar.isDotted x = true)
    (h : (Grammar.annotationRule.match? d).isSome = true) :
    (Grammar.annotationRule.match? c).isSome = true := by
  obtain ⟨⟨ls, e⟩, hmatch⟩ := Option.isSome_iff_exists.mp h
  obtain ⟨d₁, t₁, ls₁, hdotted, hspans₁, hrest, -, -⟩ := matchParts_cons hmatch
  obtain ⟨u, hne, hu, hspans'⟩ := mem_ends_some1_one.mp hdotted
  have hends : d₁ ∈ Grammar.dotted.ends c := by
    refine mem_ends_some1_one.mpr ⟨t ++ u, by simp [hne], ?_, hspans.trans hspans'⟩
    intro x hx
    rcases List.mem_append.mp hx with hx | hx
    · exact ht x hx
    · exact hu x hx
  rw [LexRule.match?, Grammar.annotationRule, matchParts, List.findSome?_isSome_iff]
  exact ⟨d₁, hends, by simp [hrest]⟩

/-! ## Names -/

/-- A text that begins as a name does. -/
theorem head_of_isWordLike {x : Char} {t : Text} (h : TokenKind.isWordLike (x :: t) = true) :
    (x = '$' || CharClass.isWord x) = true := by
  rw [TokenKind.isWordLike, List.all_cons, Bool.and_eq_true] at h
  · exact h.1
  · simp

theorem continuesIdentifier_of_beginsDotted {x : Char} (h : Grammar.beginsDotted x = true)
    (hword : (x = '$' || CharClass.isWord x) = true) : CharClass.continuesIdentifier x = true := by
  simp only [Grammar.beginsDotted, Bool.or_eq_true, decide_eq_true_eq] at h
  rcases h with (((h | rfl) | rfl) | rfl) | rfl
  · exact (CharClass.isWord_of_isLatin (by simp [h])).2
  · decide
  · simp [CharClass.isWord_of_mem_aroundWords (c := '?') (by decide)] at hword
  · simp [CharClass.isWord_of_mem_aroundWords (c := '.') (by decide)] at hword
  · decide

theorem reads_body : Reads Grammar.bodyRule := by
  refine reads_of_single fun c d t hfirst hspans _ => .ofWord hspans rfl fun hword => ?_
  obtain ⟨e, he, hrest⟩ := mem_ends_seq.mp (first?_mem hfirst)
  obtain ⟨f, hf, hahead⟩ := mem_ends_seq.mp hrest
  obtain ⟨hparen, rfl⟩ := mem_ends_ahead.mp hahead
  obtain ⟨x, hx, hspansx⟩ := mem_ends_one.mp he
  obtain ⟨u, hu⟩ := spans_of_mem_ends _ _ _ hf
  have ht : x :: u = t := (hspansx.trans hu).upTo_eq.symm.trans hspans.upTo_eq
  obtain ⟨g, hg⟩ := List.exists_mem_of_ne_nil _ hparen
  refine ⟨Or.inl ?_, Or.inl ?_⟩
  · rw [← ht] at hword ⊢
    exact continuesIdentifier_of_beginsDotted hx (head_of_isWordLike hword)
  · rw [(mem_ends_lit.mp hg).isAt_eq]
    decide

theorem head_of_codeUnitEscape {c d : Cursor} (h : d ∈ Grammar.codeUnitEscape.ends c) :
    c.rest.head? = some '\\' := by
  obtain ⟨e, he, -⟩ := mem_ends_seq.mp h
  rw [(mem_ends_lit.mp he).rest_eq]
  rfl

theorem chain_of_identifier {c d : Cursor} {ls : List Lexeme}
    (huntyped : Grammar.annotationRule.match? c = none)
    (h : Grammar.identifierRule.match? c = some (ls, d)) : Chain LexemeRead c ls d := by
  obtain ⟨e, t, more, hends, hspans, hmore, rfl, hfirst⟩ := matchParts_cons h
  obtain ⟨rfl, rfl⟩ := Prod.mk.inj (Option.some.inj hmore)
  refine chain_part hspans (fun hne => .ofWord hspans rfl fun hword => ⟨Or.inl ?_, Or.inr ?_⟩)
    (.nil e)
  · obtain ⟨x, t, rfl⟩ := List.exists_cons_of_ne_nil hne
    obtain ⟨f, hf, -⟩ := mem_ends_seq.mp hends
    rcases mem_ends_or.mp hf with hf | hf
    · obtain ⟨y, hy, hspansy⟩ := mem_ends_one.mp hf
      obtain rfl := hspansy.head_eq hspans
      exact CharClass.continuesIdentifier_of_beginsIdentifier hy
    · have hhead := head_of_codeUnitEscape hf
      rw [hspans.rest_eq] at hhead
      obtain rfl : x = '\\' := Option.some.inj hhead
      have hhead := head_of_isWordLike hword
      simp [CharClass.isWord_of_mem_aroundWords (c := '\\') (by decide)] at hhead
  · obtain ⟨f, -, hmany⟩ := exists_of_first?_seq (hfirst fun _ => rfl)
    have hstops := first?_many_stops (by decide) hmany
    refine ⟨?_, huntyped⟩
    simp only [first?, ends, List.head?_eq_none_iff, List.append_eq_nil_iff] at hstops
    exact isAt_of_first?_one (List.head?_eq_none_iff.mpr hstops.1)

/-! ## Comments -/

/-- The rest of a line is text without a line break, up to the end of the line. -/
theorem spans_of_restOfLine {c d : Cursor} (h : Grammar.restOfLine.first? c = some d) :
    ∃ t, '\n' ∉ t ∧ Spans c t d ∧ d.isLineEnd = true := first?_lineEnd h

theorem reads_lineComment : Reads (Grammar.rule .commentSingle
    (seq (lit "//") Grammar.restOfLine)) := by
  refine reads_of_single fun c d t hfirst hspans _ => ?_
  obtain ⟨e, he, hrest⟩ := exists_of_first?_seq hfirst
  obtain ⟨body, hbody, hspans', hend⟩ := spans_of_restOfLine hrest
  rw [← hspans.upTo_eq, ((mem_ends_lit.mp he).trans hspans').upTo_eq]
  exact .ofLineComment ((mem_ends_lit.mp he).trans hspans') rfl (.inl (.line hbody)) hend

theorem reads_blockComment : Reads (Grammar.rule .commentMultiline
    (all [lit "/*", few any, lit "*/"])) := by
  refine reads_of_single fun c d t hfirst hspans _ => ?_
  obtain ⟨e, he, hrest⟩ := exists_of_first?_seq hfirst
  obtain ⟨body, f, hbody, hspans₁, hspans₂⟩ := first?_few_lit (by decide) hrest
  have hspans' := (mem_ends_lit.mp he).trans (hspans₁.trans hspans₂)
  rw [← hspans.upTo_eq, hspans'.upTo_eq]
  refine .ofComment hspans' rfl (.block hbody) ?_
  have hlast : "*/".toList.getLast? = some '/' := rfl
  rw [← List.append_assoc, List.getLast?_append, hlast, Option.some_or]
  decide

theorem reads_openComment : Reads (Grammar.rule .comment (lit "<!--")) := by
  refine reads_of_single fun c d t hfirst hspans _ => ?_
  have hspans' := mem_ends_lit.mp (first?_mem hfirst)
  rw [← hspans.upTo_eq, hspans'.upTo_eq]
  exact .ofComment hspans' rfl .html (by decide)

theorem reads_hashbang : Reads Grammar.hashbangRule := by
  refine reads_of_single fun c d t hfirst hspans _ => ?_
  obtain ⟨c', hc', hfirst'⟩ := exists_of_first?_seq hfirst
  obtain ⟨hstart, rfl⟩ := mem_ends_place.mp hc'
  obtain ⟨e, he, hrest⟩ := exists_of_first?_seq hfirst'
  obtain ⟨f, hf, hrest'⟩ := exists_of_first?_seq hrest
  obtain ⟨g, hg, hline⟩ := exists_of_first?_seq hrest'
  obtain ⟨body, hbody, hspans₃, hend⟩ := spans_of_restOfLine hline
  obtain ⟨space, hspace, hspans₁⟩ :
      ∃ space, (space = " ".toList ∨ space = []) ∧ Spans e space f := by
    rcases mem_ends_opt.mp hf with hf | rfl
    · exact ⟨_, .inl rfl, mem_ends_lit.mp hf⟩
    · exact ⟨[], .inr rfl, .refl f⟩
  have hspans' := (mem_ends_lit.mp he).trans
    (hspans₁.trans ((mem_ends_lit.mp hg).trans hspans₃))
  rw [← hspans.upTo_eq, hspans'.upTo_eq]
  exact .ofLineComment hspans' rfl
    (.inr ⟨Option.isNone_iff_eq_none.mp hstart, .intro hspace hbody⟩) hend

/-! ## Strings -/

theorem reads_quoted {type : TokenType} {q : Char}
    (htype : (type.isA .comment || type.isA .keyword || type.isA .name) = false)
    (hq : (q == '\x22' || q == '\'') = true) : Reads (Grammar.rule type (Grammar.quotedBy q)) := by
  refine reads_of_single fun c d t hfirst hspans hne => ?_
  obtain ⟨e, he, -⟩ := mem_ends_seq.mp (first?_mem hfirst)
  obtain ⟨x, hx, hspans'⟩ := mem_ends_one.mp he
  obtain ⟨y, t, rfl⟩ := List.exists_cons_of_ne_nil hne
  obtain rfl := hspans'.head_eq hspans
  rw [Bool.or_eq_false_iff, Bool.or_eq_false_iff] at htype
  refine ⟨hspans, ?_, fun hline => ?_, ?_, ?_⟩
  · simp [htype.1.1]
  · simp [TokenType.isA_comment_of_endsLine hline] at htype
  · simp [htype.1.2, htype.2]
  · intro _
    rw [show x = q by simpa using hx]
    exact hq

/-! ## All rules -/

theorem reads_trivia : ∀ r ∈ Grammar.trivia, Reads r := by
  intro r hr
  simp only [Grammar.trivia, List.mem_cons, List.not_mem_nil, or_false] at hr
  rcases hr with rfl | rfl | rfl | rfl
  · exact reads_of_plain rfl
  · exact reads_openComment
  · exact reads_lineComment
  · exact reads_blockComment

theorem reads_operand : ∀ r ∈ Grammar.operand, Reads r := by
  intro r hr
  rcases List.mem_append.mp hr with hr | hr
  · exact reads_trivia r hr
  · rw [List.mem_singleton.mp hr]
    exact reads_of_plain rfl

theorem reads_template : ∀ r ∈ Grammar.template, Reads r := by
  intro r hr
  have hplain : (Grammar.template.all fun r => r.parts.all fun part => part.1.isPlain) = true := rfl
  exact reads_of_plain (List.all_eq_true.mp hplain r hr)

theorem reads_literals : ∀ r ∈ Grammar.literals, Reads r := by
  intro r hr
  simp only [Grammar.literals, List.mem_cons, List.not_mem_nil, or_false] at hr
  rcases hr with rfl | rfl | rfl | rfl
  · exact reads_quoted rfl rfl
  · exact reads_quoted rfl rfl
  · exact reads_of_plain rfl
  · exact reads_marked rfl rfl (by decide +kernel)

theorem reads_wordsAndSigns : ∀ r ∈ Grammar.wordsAndSigns, Reads r := by
  intro r hr
  simp only [Grammar.wordsAndSigns, List.mem_append, List.mem_cons, List.not_mem_nil,
    or_false] at hr
  rcases hr with (hr | hr) | hr
  · rcases hr with rfl | rfl | rfl | rfl | rfl | rfl | rfl | rfl
    · exact reads_words rfl (by decide +kernel)
    · exact reads_words rfl (by decide +kernel)
    · exact reads_wordsAtEdge rfl (by decide +kernel)
    · exact reads_wordsAtEdge rfl (by decide +kernel)
    · exact reads_module
    · exact reads_annotation
    · exact reads_marked rfl rfl (by decide +kernel)
    · exact reads_hashbang
  · exact reads_trivia r hr
  · rcases hr with rfl | rfl | rfl | rfl | rfl | rfl | rfl | rfl | rfl | rfl | rfl | rfl | rfl |
      rfl | rfl | rfl | rfl | rfl
    all_goals first
      | exact reads_of_plain rfl
      | exact reads_words rfl (by decide +kernel)
      | exact reads_wordsAtEdge rfl (by decide +kernel)
      | exact reads_body

end LexRule

end ReplCore
