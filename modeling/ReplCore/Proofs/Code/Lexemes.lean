import ReplCore.Code.Token
import ReplCore.Proofs.Pattern.Ends

/-!
# What lexemes look like

The rules of the grammar decide what may stand in a lexeme and just after it. A word is read up to
where no word goes on, with two exceptions: a name also stops before a word character that
identifiers do not know, and a name before a colon may start anywhere.

* `LexemeRead`: what a type promises of a lexeme and of the places around it.
-/

namespace ReplCore

open Cursor

/-! ## Classes of characters -/

/-- The code points of a set, one by one. -/
def CodeRanges.members (r : CodeRanges) : List Nat :=
  r.flatMap fun a => List.range' a.1 (a.2 + 1 - a.1)

theorem CodeRanges.mem_members_of_covers {r : CodeRanges} {n : Nat} (h : r.covers n = true) :
    n ∈ r.members := by
  induction r with
  | nil => cases h
  | cons a r ih =>
    simp only [covers] at h
    simp only [members, List.flatMap_cons, List.mem_append, List.mem_range'_1]
    split at h
    · cases h
    · rcases Bool.or_eq_true_iff.mp h with h | h
      · have := of_decide_eq_true h
        exact Or.inl (by omega)
      · exact Or.inr (ih h)

namespace CharClass

open GeneralCategory

/-- What holds of the white space in the table holds of all white space. -/
theorem of_isBlank {p : Char → Bool} {c : Char} (h : isBlank c = true)
    (hall : (CodeRanges.members [(0x9, 0xD), (0x1C, 0x20), (0x85, 0x85), (0xA0, 0xA0),
      (0x1680, 0x1680), (0x2000, 0x200A), (0x2028, 0x2029), (0x202F, 0x202F), (0x205F, 0x205F),
      (0x3000, 0x3000)]).all (fun n => p (Char.ofNat n)) = true) : p c = true := by
  have hmem := CodeRanges.mem_members_of_covers h
  simpa using List.all_eq_true.mp hall c.toNat hmem

/-- White space is not part of a word. -/
theorem isWord_of_isBlank {c : Char} (h : isBlank c = true) : isWord c = false := by
  have := of_isBlank (p := fun c => !isWord c) h (by decide +kernel)
  simpa using this

theorem continuesIdentifier_of_beginsIdentifier {c : Char} (h : beginsIdentifier c = true) :
    continuesIdentifier c = true := by
  simp only [beginsIdentifier, Bool.or_eq_true, Bool.and_eq_true, decide_eq_true_eq] at h
  rcases h with (rfl | rfl) | ⟨⟨hletter, hadded⟩, -⟩
  · rfl
  · decide
  · have hany : (isLetter c || isLetterNumber c || isDigit c || combiningMark.covers c.toNat
        || connector.covers c.toNat) = true := by
      simp only [Bool.or_eq_true]
      exact Or.inl (Or.inl (Or.inl hletter))
    simp [continuesIdentifier, hany, hadded]

/-- The signs that stand next to words. -/
def aroundWords : Text := "\n;:=.?*\\\x22'\x7b(".toList

theorem isWord_of_mem_aroundWords {c : Char} (h : c ∈ aroundWords) : isWord c = false := by
  have hall : (aroundWords.all fun c => !isWord c) = true := by decide +kernel
  simpa using List.all_eq_true.mp hall c h

/-- What words are spelled with goes on in words and in identifiers. -/
theorem isWord_of_isLatin {c : Char} (h : (Grammar.isLatin c || Grammar.isDecimal c) = true) :
    isWord c = true ∧ continuesIdentifier c = true := by
  have hmem : c.toNat ∈ CodeRanges.members [(0x30, 0x39), (0x41, 0x5A), (0x61, 0x7A)] := by
    apply CodeRanges.mem_members_of_covers
    simp only [Grammar.isLatin, Grammar.isDecimal, Bool.or_eq_true, Bool.and_eq_true,
      decide_eq_true_eq, Char.le_def, UInt32.le_iff_toNat_le] at h
    simp only [CodeRanges.covers]
    change ((97 ≤ c.toNat ∧ c.toNat ≤ 122) ∨ (65 ≤ c.toNat ∧ c.toNat ≤ 90)) ∨
      (48 ≤ c.toNat ∧ c.toNat ≤ 57) at h
    grind
  have hall : (CodeRanges.members [(0x30, 0x39), (0x41, 0x5A), (0x61, 0x7A)]).all (fun n =>
      isWord (Char.ofNat n) && continuesIdentifier (Char.ofNat n)) = true := by
    decide +kernel
  have := List.all_eq_true.mp hall c.toNat hmem
  simpa using this

end CharClass

/-! ## Pieces between places -/

/-- Pieces one after the other, each in the relation `P` to the places before and after it. -/
inductive Chain {α : Type} (P : Cursor → α → Cursor → Prop) : Cursor → List α → Cursor → Prop
  | nil (c : Cursor) : Chain P c [] c
  | cons {c d e : Cursor} {a : α} {as : List α} (head : P c a d) (tail : Chain P d as e) :
      Chain P c (a :: as) e

namespace Chain

variable {α : Type} {P : Cursor → α → Cursor → Prop} {c d e : Cursor} {as bs : List α}

theorem single {a : α} (h : P c a d) : Chain P c [a] d := .cons h (.nil d)

theorem append (has : Chain P c as d) (hbs : Chain P d bs e) : Chain P c (as ++ bs) e := by
  induction has with
  | nil => exact hbs
  | cons head _ ih => exact .cons head (ih hbs)

theorem of_append (h : Chain P c (as ++ bs) e) : ∃ d, Chain P c as d ∧ Chain P d bs e := by
  induction as generalizing c with
  | nil => exact ⟨c, .nil c, h⟩
  | cons a as ih =>
    cases h with
    | cons head tail =>
      obtain ⟨d, has, hbs⟩ := ih tail
      exact ⟨d, .cons head has, hbs⟩

theorem of_cons {a : α} (h : Chain P c (a :: as) e) : ∃ d, P c a d ∧ Chain P d as e := by
  cases h with
  | cons head tail => exact ⟨_, head, tail⟩

theorem exists_of_mem (h : Chain P c as e) {a : α} (ha : a ∈ as) : ∃ c d, P c a d := by
  obtain ⟨before, after, rfl⟩ := List.append_of_mem ha
  obtain ⟨d, -, hafter⟩ := h.of_append
  obtain ⟨d', ha, -⟩ := hafter.of_cons
  exact ⟨d, d', ha⟩

/-- The pieces pass over their texts. -/
theorem spans {text : α → Text} (hP : ∀ {c a d}, P c a d → Spans c (text a) d)
    (h : Chain P c as d) : Spans c (as.flatMap text) d := by
  induction h with
  | nil c => exact .refl c
  | cons head _ ih => exact (hP head).trans ih

end Chain

/-! ## Comments, words and strings -/

/-- The comments that may stand anywhere. One in a block goes on to the first end of a block. -/
inductive IsComment : Text → Prop
  | line {body : Text} (h : '\n' ∉ body) : IsComment ("//".toList ++ body)
  | block {body : Text} (h : ¬ "*/".toList <:+: body) :
      IsComment ("/*".toList ++ (body ++ "*/".toList))
  | html : IsComment "<!--".toList

/-- The comment that names an interpreter. It may only stand at the start of a source. -/
inductive IsHashbang : Text → Prop
  | intro {space body : Text} (hspace : space = " ".toList ∨ space = []) (h : '\n' ∉ body) :
      IsHashbang ("#!".toList ++ (space ++ ("/".toList ++ body)))

/-- A comment as it may stand at a place. -/
def IsCommentAt (c : Cursor) (t : Text) : Prop := IsComment t ∨ c.before = none ∧ IsHashbang t

theorem IsCommentAt.isComment {c : Cursor} {t : Text} (h : IsCommentAt c t)
    (hc : c.before ≠ none) : IsComment t := h.resolve_right fun h => hc h.1

/-- No word begins with the first character of a comment. -/
theorem IsCommentAt.isWord_head {c : Cursor} {t : Text} (h : IsCommentAt c t) :
    ∃ x xs, t = x :: xs ∧ CharClass.isWord x = false := by
  rcases h with h | ⟨-, h⟩
  · cases h with
    | line | block => exact ⟨'/', _, rfl, by decide⟩
    | html => exact ⟨'<', _, rfl, by decide⟩
  · cases h with
    | intro => exact ⟨'#', _, rfl, by decide⟩

/-- A word `w` between two places: it begins as a name does, unless a rule for dotted names put it
there, and ends where no word goes on, unless it is a name before a character that identifiers do
not know. -/
structure WordRead (c : Cursor) (w : Text) (d : Cursor) : Prop where
  starts : w.head?.any CharClass.continuesIdentifier = true ∨
    c.before.any (fun x => CharClass.isBlank x || x == ':') = true ∨
    (Grammar.annotationRule.match? c).isSome = true
  ends : d.isAt CharClass.isWord = false ∨
    (d.isAt CharClass.continuesIdentifier = false ∧ Grammar.annotationRule.match? c = none)

namespace TokenType

/-- Whether lexemes of the type are string literals. -/
def isLiteral (t : TokenType) : Bool :=
  t.isA .string && !(t.isA .stringBacktick || t.isA .stringInterpol || t.isA .stringRegex)

/-- Whether lexemes of the type go on to the end of the line. -/
def endsLine (t : TokenType) : Bool := t.isA .commentSingle || t.isA .commentHashbang

/-- Whether nothing is said about lexemes of the type. -/
def isPlain (t : TokenType) : Bool :=
  !(t.isA .comment || t.isA .keyword || t.isA .name || t.isLiteral)

theorem isA_comment_of_endsLine {t : TokenType} (h : t.endsLine = true) :
    t.isA .comment = true := by
  have hsingle : TokenType.comment.path <+: TokenType.commentSingle.path := by decide
  have hhashbang : TokenType.comment.path <+: TokenType.commentHashbang.path := by decide
  rw [isA, List.isPrefixOf_iff_prefix]
  rcases (Bool.or_eq_true _ _).mp h with h | h
  · exact hsingle.trans (List.isPrefixOf_iff_prefix.mp h)
  · exact hhashbang.trans (List.isPrefixOf_iff_prefix.mp h)

end TokenType

/-- A lexeme between two places is as its type promises. -/
structure LexemeRead (c : Cursor) (l : Lexeme) (d : Cursor) : Prop where
  spans : Spans c l.text d
  comment : l.type.isA .comment = true → IsCommentAt c l.text ∧
    (l.text.getLast?.all (fun x => !CharClass.isWord x) = true ∨ d.isLineEnd = true)
  line : l.type.endsLine = true → d.isLineEnd = true
  word : (l.type.isA .keyword || l.type.isA .name) = true → TokenKind.isWordLike l.text = true →
    WordRead c l.text d
  literal : l.type.isLiteral = true → l.text.head?.any (fun x => x == '\x22' || x == '\'') = true

namespace LexemeRead

variable {c d : Cursor} {type : TokenType} {t : Text}

theorem plain (hspans : Spans c t d) (htype : type.isPlain = true) :
    LexemeRead c ⟨type, t⟩ d := by
  simp only [TokenType.isPlain, Bool.not_eq_true', Bool.or_eq_false_iff] at htype
  obtain ⟨⟨⟨hcomment, hkeyword⟩, hname⟩, hliteral⟩ := htype
  refine ⟨hspans, ?_, ?_, ?_, ?_⟩
  · simp [hcomment]
  · exact fun hline => by simp [TokenType.isA_comment_of_endsLine hline] at hcomment
  · simp [hkeyword, hname]
  · simp [hliteral]

/-- Of a word nothing else is asked. -/
theorem ofWord (hspans : Spans c t d)
    (htype : (type.isA .comment || type.isLiteral) = false)
    (hword : TokenKind.isWordLike t = true → WordRead c t d) : LexemeRead c ⟨type, t⟩ d := by
  rw [Bool.or_eq_false_iff] at htype
  refine ⟨hspans, ?_, fun hline => ?_, fun _ => hword, ?_⟩
  · simp [htype.1]
  · simp [TokenType.isA_comment_of_endsLine hline] at htype
  · simp [htype.2]

theorem ofComment (hspans : Spans c t d)
    (htype : (type.isA .keyword || type.isA .name || type.isLiteral || type.endsLine) = false)
    (hcomment : IsComment t) (hend : t.getLast?.all (fun x => !CharClass.isWord x) = true) :
    LexemeRead c ⟨type, t⟩ d := by
  simp only [Bool.or_eq_false_iff] at htype
  refine ⟨hspans, fun _ => ⟨.inl hcomment, .inl hend⟩, ?_, ?_, ?_⟩
  · simp [htype.2]
  · simp [htype.1.1]
  · simp [htype.1.2]

theorem ofLineComment (hspans : Spans c t d)
    (htype : (type.isA .keyword || type.isA .name || type.isLiteral) = false)
    (hcomment : IsCommentAt c t) (hend : d.isLineEnd = true) : LexemeRead c ⟨type, t⟩ d := by
  rw [Bool.or_eq_false_iff] at htype
  refine ⟨hspans, fun _ => ⟨hcomment, Or.inr hend⟩, fun _ => hend, ?_, ?_⟩
  · simp [htype.1]
  · simp [htype.2]

end LexemeRead

end ReplCore
