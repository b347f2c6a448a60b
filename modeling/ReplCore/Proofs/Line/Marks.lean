import ReplCore.Line.Renderer
import ReplCore.Proofs.Code.Enclosures
import ReplCore.Proofs.Pattern.Begins
import ReplCore.Proofs.Terminal.Underline

/-!
# Marks in highlighted text

The bracket to be emphasized is found by the marks around it, which are highlighted with the line.
If the mark before the bracket is the end of a token in a style, the reset after that token comes
between the start of the emphasis and the bracket.

* `exists_highlightedPieces_mark`: whether an underline that starts at the mark reaches the bracket.
* `isCutOff_eq_false`: it does in every line without template literals.
-/

namespace ReplCore.Line

open Escape Terminal

/-! ## Marks -/

section Marks

variable {a b d : Text}

theorem dropWhile_mark (ha : sentinel ∉ a) :
    (a ++ sentinel :: d).dropWhile (· ≠ sentinel) = sentinel :: d := by
  rw [List.dropWhile_append_of_pos (by simpa using fun c hc => ne_of_mem_of_not_mem hc ha)]
  simp

/-- The stretch between the first two marks is found. -/
theorem marked?_eq_some (ha : sentinel ∉ a) (hb : sentinel ∉ b) (hne : b ≠ []) :
    marked? (a ++ sentinel :: (b ++ sentinel :: d)) = some ⟨a, b, d⟩ := by
  obtain ⟨c, b, rfl⟩ := List.exists_cons_of_ne_nil hne
  have hb : sentinel ∉ b := fun h => hb (List.mem_cons_of_mem c h)
  rw [marked?, dropWhile_mark ha, List.cons_append]
  simp only [dropWhile_mark hb, takeWhile_ne_append_cons hb, takeWhile_ne_append_cons ha]

theorem mark_eq {t : Text} {q : Nat} (hq : q < t.length) :
    mark t q = t.take q ++ sentinel :: t[q] :: sentinel :: t.drop (q + 1) := by
  have hnext : (q : Int) + 1 = (q + 1 : Nat) := rfl
  have hslice : Text.slice t q (q + 1) = [t[q]] := by
    rw [Text.slice, List.take_succ_eq_append_getElem hq]
    exact List.drop_left' (List.length_take_of_le (Nat.le_of_lt hq))
  rw [mark, hnext, Text.offset_natCast, Text.offset_natCast, hslice, List.append_assoc]
  rfl

end Marks

/-! ## Where the first mark is -/

/-- Whether the start of an emphasis is taken back before the character that it is for. So it is if
the mark before the character is the last character of a token that is shown in a style. -/
def isCutOff (styles : StyleSheet) (line : Text) (position : Nat) : Bool :=
  ((Lexer.lex (mark line position)).find? fun l => sentinel ∈ l.text).any fun l =>
    decide (l.text.dropWhile (· ≠ sentinel) = [sentinel]) && (shownStyle? styles l).isSome

section Lexemes

variable (styles : StyleSheet) {t : Text} {q : Nat}

/-- The pieces of a lexeme before and after its first mark. -/
theorem exists_lexemePieces {l : Lexeme} {a d : Text} (hl : l.text = a ++ sentinel :: d) :
    ∃ ps qs, lexemePieces styles l = ps ++ .char sentinel :: (d.map Piece.char ++ qs) ∧
      characters ps = a ∧
      qs = if (shownStyle? styles l).isSome then [.sequence Style.reset] else [] := by
  unfold lexemePieces
  cases shownStyle? styles l with
  | none => exact ⟨a.map Piece.char, [], by simp [hl], characters_map_char a, rfl⟩
  | some s =>
    exact ⟨.sequence (Style.sequence s.codes) :: a.map Piece.char, [.sequence Style.reset],
      by simp [hl], characters_map_char a, rfl⟩

/-- Marking adds nothing but marks. -/
theorem forall_mem_mark {P : Char → Prop} (hq : q < t.length) (hsentinel : P sentinel)
    (hline : ∀ c ∈ t, P c) : ∀ c ∈ mark t q, P c := by
  intro c hc
  rw [mark_eq hq] at hc
  rcases List.mem_append.mp hc with hc | hc
  · exact hline c (List.mem_of_mem_take hc)
  rcases List.mem_cons.mp hc with rfl | hc
  · exact hsentinel
  rcases List.mem_cons.mp hc with rfl | hc
  · exact hline _ (List.getElem_mem hq)
  rcases List.mem_cons.mp hc with rfl | hc
  · exact hsentinel
  · exact hline c (List.mem_of_mem_drop hc)

theorem isControl_mark (hq : q < t.length) (hline : ∀ c ∈ t, isControl c = false) :
    ∀ c ∈ mark t q, isControl c = false := forall_mem_mark hq (by decide) hline

/-- The first lexeme with a mark in it has the mark before the character in it. -/
theorem exists_lexemes_mark (hq : q < t.length) (hline : sentinel ∉ t) :
    ∃ (ls ms : List Lexeme) (l : Lexeme) (a d : Text),
      Lexer.lex (mark t q) = ls ++ l :: ms ∧ l.text = a ++ sentinel :: d ∧
      ls.flatMap Lexeme.text ++ a = t.take q ∧
      d ++ ms.flatMap Lexeme.text = t[q] :: sentinel :: t.drop (q + 1) ∧
      isCutOff styles t q = (decide (d = []) && (shownStyle? styles l).isSome) := by
  have hlexemes : (Lexer.lex (mark t q)).flatMap Lexeme.text =
      t.take q ++ sentinel :: t[q] :: sentinel :: t.drop (q + 1) := by
    rw [Lexer.flatMap_text_lex, mark_eq hq]
  obtain ⟨l, hl⟩ : ∃ l, (Lexer.lex (mark t q)).find? (fun l => sentinel ∈ l.text) = some l := by
    rw [← Option.isSome_iff_exists, List.find?_isSome]
    have hmem : sentinel ∈ (Lexer.lex (mark t q)).flatMap Lexeme.text := by
      rw [hlexemes]
      simp
    obtain ⟨l, hl, hmem⟩ := List.mem_flatMap.mp hmem
    exact ⟨l, hl, decide_eq_true hmem⟩
  obtain ⟨hmem, ls, ms, hsplit, hls⟩ := List.find?_eq_some_iff_append.mp hl
  obtain ⟨a, d, htext, ha⟩ := List.eq_append_cons_of_mem (of_decide_eq_true hmem)
  have hbefore : sentinel ∉ ls.flatMap Lexeme.text ++ a := by
    intro hmem
    rcases List.mem_append.mp hmem with hmem | hmem
    · obtain ⟨l', hl', hmem⟩ := List.mem_flatMap.mp hmem
      simpa [hmem] using hls l' hl'
    · exact ha hmem
  have htake : sentinel ∉ t.take q := fun h => hline (List.mem_of_mem_take h)
  have hsame : (ls.flatMap Lexeme.text ++ a) ++ sentinel :: (d ++ ms.flatMap Lexeme.text) =
      t.take q ++ sentinel :: t[q] :: sentinel :: t.drop (q + 1) := by
    rw [← hlexemes, hsplit]
    simp [htext]
  refine ⟨ls, ms, l, a, d, hsplit, htext, ?_, ?_, ?_⟩
  · have := congrArg (List.takeWhile (· ≠ sentinel)) hsame
    rwa [takeWhile_ne_append_cons hbefore, takeWhile_ne_append_cons htake] at this
  · have := congrArg (List.dropWhile (· ≠ sentinel)) hsame
    rw [dropWhile_mark hbefore, dropWhile_mark htake] at this
    exact (List.cons.inj this).2
  · have hend : l.text.dropWhile (· ≠ sentinel) = sentinel :: d := by rw [htext, dropWhile_mark ha]
    rw [isCutOff, hl, Option.any_some, hend]
    simp

/-- What comes after the mark before a character starts with an underlined cell if the underline was
started there, unless the start is taken back. -/
theorem exists_highlightedPieces_mark (hstyles : NeverUnderlines styles) (hq : q < t.length)
    (hcontrol : ∀ c ∈ t, isControl c = false) (hline : sentinel ∉ t) :
    ∃ ps qs, highlightedPieces styles (mark t q) = ps ++ .char sentinel :: qs ∧
      characters ps = t.take q ∧ characters qs = t[q] :: sentinel :: t.drop (q + 1) ∧
      ∀ f : Formatting, f.underlines = true → ∀ x ∈ (f.paint qs).head?,
        x.formatting.underlines = !isCutOff styles t q := by
  obtain ⟨ls, ms, l, a, d, hsplit, htext, hbefore, hafter, hcut⟩ :=
    exists_lexemes_mark styles hq hline
  obtain ⟨ps, qs, hpieces, hps, hqs⟩ := exists_lexemePieces styles htext
  have hplain : ∀ p ∈ ms.flatMap (lexemePieces styles), IsPlain p := by
    refine isPlain_of_mem_flatMap hstyles fun c hc => isControl_mark hq hcontrol c ?_
    rw [← Lexer.flatMap_text_lex (mark t q), hsplit, List.flatMap_append, List.flatMap_cons]
    exact List.mem_append_right _ (List.mem_append_right _ hc)
  refine ⟨ls.flatMap (lexemePieces styles) ++ ps,
    d.map Piece.char ++ (qs ++ ms.flatMap (lexemePieces styles)), ?_, ?_, ?_, ?_⟩
  · rw [highlightedPieces, hsplit]
    simp [hpieces]
  · rw [characters_append, characters_flatMap_lexemePieces, hps, hbefore]
  · have hcharacters : characters qs = [] := by
      rw [hqs]
      split <;> rfl
    rw [characters_append, characters_append, characters_map_char, hcharacters, List.nil_append,
      characters_flatMap_lexemePieces, hafter]
  · intro f hf x hx
    rw [hcut]
    cases d with
    | cons c d =>
      cases hx
      exact hf
    | nil =>
      cases hshown : (shownStyle? styles l).isSome with
      | true =>
        rw [hqs, hshown, if_pos rfl] at hx
        exact Formatting.underlines_paint hplain f.underlines_after_reset x
          (List.mem_of_mem_head? hx)
      | false =>
        rw [hqs, hshown, if_neg Bool.false_ne_true] at hx
        exact Formatting.underlines_head_paint styles ms hf x hx

/-! ## When an emphasis is taken back -/

/-- Only single characters, line comments and the text of template literals end with a mark. -/
theorem type_of_last_sentinel {source : Text} {l : Lexeme} (hl : l ∈ Lexer.lex source)
    (hlast : l.text.getLast? = some sentinel) :
    l.type.class? = none ∨ l.type.endsLine = true ∨ l.type = .stringBacktick := by
  have hrules : ((Grammar.operand ++ (Grammar.substitutionEnd :: Grammar.code ++
      Grammar.template)).all fun rule => rule.parts.all fun part =>
        !part.2.canEnd sentinel || (part.1.endsLine || part.1 = .stringBacktick)) = true := by
    decide +kernel
  rcases Lexer.isPart_of_mem_lex l hl with ⟨rule, hrule, part, hpart, htype, c, d, hmem, hspans⟩ |
    htype | htype
  · have hpart := List.all_eq_true.mp (List.all_eq_true.mp hrules rule hrule) part hpart
    rw [Pattern.canEnd_of_spans hmem hspans hlast] at hpart
    simpa [htype] using Or.inr hpart
  · rw [htype]
    exact Or.inl (by decide)
  · rw [htype]
    exact Or.inl (by decide)

/-- An emphasis is taken back only where there are template literals. -/
theorem exists_stringBacktick_of_isCutOff (hq : q < t.length)
    (hcontrol : ∀ c ∈ t, isControl c = false) (hline : sentinel ∉ t)
    (h : isCutOff styles t q = true) :
    ∃ l ∈ Lexer.lex (mark t q), l.type = .stringBacktick := by
  obtain ⟨ls, ms, l, a, d, hsplit, htext, -, hafter, hcut⟩ := exists_lexemes_mark styles hq hline
  rw [hcut, Bool.and_eq_true, decide_eq_true_iff] at h
  obtain ⟨rfl, hshown⟩ := h
  have hmem : l ∈ Lexer.lex (mark t q) := by simp [hsplit]
  have hlast : l.text.getLast? = some sentinel := by rw [htext, List.getLast?_concat]
  rcases type_of_last_sentinel hmem hlast with htype | htype | htype
  · obtain ⟨s, hs⟩ := Option.isSome_iff_exists.mp hshown
    have hstyle := (shownStyle?_eq_some hs).1
    rw [StyleSheet.styleFor, htype] at hstyle
    cases hstyle
  · -- After a line comment there is no more of the line.
    obtain ⟨e, hchain⟩ := Lexer.chain_lex (mark t q)
    rw [hsplit] at hchain
    obtain ⟨c, -, hrest⟩ := hchain.of_append
    obtain ⟨d, hread, hrest⟩ := hrest.of_cons
    have hend := hread.line htype
    have hnext := (Chain.spans (fun h => h.spans) hrest).rest_eq
    rw [← List.nil_append (ms.flatMap Lexeme.text), hafter] at hnext
    rw [Cursor.isLineEnd, hnext, List.cons_append, List.head?_cons, Option.all_some, beq_iff_eq]
      at hend
    exact absurd hend (ne_of_isControl (hcontrol _ (List.getElem_mem hq)) rfl)
  · exact ⟨l, hmem, htype⟩

/-- In a line without a backtick no emphasis is taken back. -/
theorem isCutOff_eq_false (hq : q < t.length) (hcontrol : ∀ c ∈ t, isControl c = false)
    (hline : sentinel ∉ t) (hbacktick : '\x60' ∉ t) : isCutOff styles t q = false := by
  refine Bool.eq_false_iff.mpr fun h => ?_
  obtain ⟨l, hl, htype⟩ := exists_stringBacktick_of_isCutOff styles hq hcontrol hline h
  have hmark : ∀ c ∈ mark t q, c ≠ '\x60' :=
    forall_mem_mark hq (by decide) fun c hc => ne_of_mem_of_not_mem hc hbacktick
  have hkeeps := Lexer.marksEnclosure_of_mem_lex (fun hmem => hmark _ hmem rfl) l hl
  rw [htype] at hkeeps
  exact absurd hkeeps (by decide)

end Lexemes

end ReplCore.Line
