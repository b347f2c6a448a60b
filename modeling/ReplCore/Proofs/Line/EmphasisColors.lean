import ReplCore.Proofs.Line.Colors
import ReplCore.Proofs.Line.Emphasis

/-!
# The colors of a line with an emphasis

The colors that an emphasis takes back are set again after it, so in a redrawn line every character
has the color of its token, and the emphasized one is underlined. But these are the tokens of the
line with marks in it. A mark is a sign that the language does not know, and a slash after it
divides, where after a bracket it may start a regular expression.

* `looks_renderFullLine`: the characters of a redrawn line have the colors of the marked line.
* `colors_of_emphasized`: when these are the colors of the line.
-/

namespace ReplCore.Line

open Escape Terminal

/-! ## Leaving out the marks -/

section Unmark

variable {α β γ : Type} {q : Nat}

/-- What is left of a list when the elements around the one after the first `q` are left out. -/
def unmark (q : Nat) (xs : List α) : List α :=
  xs.take q ++ ((xs.drop (q + 1)).take 1 ++ xs.drop (q + 3))

theorem unmark_append {before after : List α} {x m m' : α} (h : before.length = q) :
    unmark q (before ++ m :: x :: m' :: after) = before ++ x :: after := by
  subst h
  simp [unmark, List.drop_append, List.drop_eq_nil_of_le]

theorem map_unmark (f : α → β) (xs : List α) : (unmark q xs).map f = unmark q (xs.map f) := by
  simp [unmark, List.map_take, List.map_drop]

theorem unmark_zipWith (f : α → β → γ) {xs : List α} {ys : List β} (h : xs.length = ys.length) :
    unmark q (List.zipWith f xs ys) = List.zipWith f (unmark q xs) (unmark q ys) := by
  rw [unmark, unmark, unmark, List.zipWith_append (by simp [h]), List.zipWith_append (by simp [h]),
    List.take_zipWith, List.drop_zipWith, List.take_zipWith, List.drop_zipWith]

theorem drop_unmark {xs : List α} (h : q + 1 < xs.length) :
    (unmark q xs).drop (q + 1) = xs.drop (q + 3) := by
  rw [unmark, ← List.append_assoc]
  refine List.drop_left' ?_
  simp only [List.length_append, List.length_take, List.length_drop]
  omega

theorem length_unmark {xs : List α} (h : q + 3 ≤ xs.length) :
    (unmark q xs).length + 2 = xs.length := by
  simp only [unmark, List.length_append, List.length_take, List.length_drop]
  omega

theorem length_mark {t : Text} (hq : q < t.length) : (mark t q).length = t.length + 2 := by
  rw [mark_eq hq]
  simp
  omega

theorem unmark_mark {t : Text} (hq : q < t.length) : unmark q (mark t q) = t := by
  rw [mark_eq hq, unmark_append (List.length_take_of_le (Nat.le_of_lt hq)),
    ← List.drop_eq_getElem_cons hq, List.take_append_drop]

end Unmark

/-! ## The colors of the marked line -/

/-- The cells that text is shown in, without underlines. -/
def looks (written : Text) : List Cell :=
  (Row.blank.play written).cells.map Cell.withoutUnderline

theorem after_sentinel (f : Formatting) : f.after [sentinel] = f := Formatting.after_char (by decide)

theorem withoutUnderline_after_emphasis (f : Formatting) :
    (f.after (Style.sequence emphasis.codes)).withoutUnderline = f.withoutUnderline := by
  rw [Formatting.after_sequence (by decide), Formatting.select_codes]
  exact f.withoutUnderline_switchOn_underline

section Pieces

variable {ps inside qs : List Piece}

theorem paint_markedPieces (h : ∀ p ∈ markedPieces ps inside qs, p.IsStyled) (f : Formatting) :
    f.paint (markedPieces ps inside qs) = f.paint ps ++ ⟨sentinel, f.through ps⟩ ::
      ((f.through ps).paint inside ++ ⟨sentinel, (f.through ps).through inside⟩ ::
        ((f.through ps).through inside).paint qs) := by
  obtain ⟨hps, hinside, -⟩ := forall_mem_parts h
  rw [markedPieces, Formatting.paint_append hps, Formatting.paint,
    Formatting.paint_append hinside, Formatting.paint]

theorem paint_restored (h : Painted (markedPieces ps inside qs)) :
    Formatting.default.paint (restored ps inside ++ qs) =
      ((Formatting.default.through ps).through inside).paint qs := by
  have hstyled : ∀ p ∈ restored ps inside, p.IsStyled :=
    fun p hp => h.isStyled p (mem_of_mem_restored h.isWhole hp)
  have hnone : Formatting.default.paint (restored ps inside) = [] :=
    List.map_eq_nil_iff.mp ((Formatting.map_char_paint _ _).trans (characters_map_sequence _))
  have hcut : Painted (markedPieces ps inside [] ++ qs) := by
    simpa [markedPieces] using h
  have hplayed := play_carried hcut (r := Row.blank) rfl rfl
  rw [← flatMap_text_map_sequence] at hplayed
  have hthrough : Formatting.default.through (restored ps inside) =
      Formatting.default.through (markedPieces ps inside []) :=
    congrArg Row.formatting ((play_flatMap_text hstyled .default [] []).symm.trans hplayed)
  -- The marks are characters, which leave the looks as they are.
  rw [Formatting.paint_append hstyled, hnone, hthrough, List.nil_append, markedPieces,
    Formatting.through_append, Formatting.through_cons, Piece.text, after_sentinel,
    Formatting.through_append, Formatting.through_cons, Piece.text, after_sentinel]
  rfl

/-- The cells are those of the pieces with marks, without the cells of the marks, and with an
underline that was not there before. -/
theorem map_withoutUnderline_paint (h : Painted (markedPieces ps inside qs)) {c : Char}
    (hinside : characters inside = [c]) :
    (Formatting.default.paint (emphasizedPieces ps inside qs)).map Cell.withoutUnderline =
      (unmark (characters ps).length (Formatting.default.paint (markedPieces ps inside qs))).map
        Cell.withoutUnderline := by
  obtain ⟨-, hinsideStyled, -⟩ := forall_mem_parts h.isStyled
  obtain ⟨x, hx⟩ :=
    Formatting.exists_paint_eq_singleton hinside (Formatting.default.through ps)
  have hlength : (Formatting.default.paint ps).length = (characters ps).length := by
    rw [← Formatting.map_char_paint ps .default, List.length_map]
  have hemphasis := Formatting.paint_congr hinsideStyled
    (withoutUnderline_after_emphasis (Formatting.default.through ps))
  rw [paint_emphasizedPieces h.isStyled, paint_restored h, paint_markedPieces h.isStyled,
    List.map_append, List.map_append, hemphasis, hx, List.singleton_append, unmark_append hlength,
    List.map_append]
  rfl

end Pieces

section Line

variable {t : Text} {q : Nat}

/-- The classes of the characters of a line where there are marks around the one at `q`. -/
def markedClasses (t : Text) (q : Nat) : List (Option Text) := unmark q (lineClasses (mark t q))

theorem looks_highlight (sheet : Sheet) (hcontrol : ∀ c ∈ t, isControl c = false) :
    looks (Highlight.highlight (.ofSheet sheet) t) =
      (List.zipWith (classCell (.ofSheet sheet)) t (lineClasses t)).map Cell.withoutUnderline := by
  rw [looks, cells_play_highlight sheet hcontrol]

/-- A redrawn line has the colors of the line with marks in it. -/
theorem looks_renderFullLine (sheet : Sheet) (hq : q < t.length)
    (hcontrol : ∀ c ∈ t, isControl c = false) (hline : sentinel ∉ t) :
    looks (renderFullLine (.ofSheet sheet) (some q) t) =
      (List.zipWith (classCell (.ofSheet sheet)) t (markedClasses t q)).map
        Cell.withoutUnderline := by
  obtain ⟨ps, inside, qs, hpieces, hps, hinside, hqs⟩ :=
    exists_markedPieces (t := t) (.ofSheet sheet) hq
  have hmarked := isControl_mark hq hcontrol
  have hpainted : Painted (markedPieces ps inside qs) :=
    hpieces ▸ painted_highlightedPieces sheet hmarked
  obtain ⟨-, hwritten⟩ := renderFullLine_eq sheet hq hline hpainted.isWhole hpieces hps hinside hqs
  have hlength : (characters ps).length = q := by
    rw [hps, List.length_take_of_le (Nat.le_of_lt hq)]
  rw [looks, hwritten, cells_play_flatMap_text (isStyled_emphasizedPieces hpainted.isStyled),
    map_withoutUnderline_paint hpainted hinside, ← hpieces, paint_highlightedPieces sheet hmarked,
    hlength, unmark_zipWith _ (length_lineClasses _).symm, unmark_mark hq]
  rfl

/-! ## When the colors are those of the line -/

theorem drop_lineClasses {t : Text} {n : Nat} (hn : n ≤ t.length) :
    (lineClasses t).drop n = typedClasses (t.take n) (t.drop n) := by
  rw [typedClasses, Lexer.typesAfter, List.take_append_drop, List.map_drop, lineClasses,
    List.length_take_of_le hn]

theorem drop_markedClasses (hq : q < t.length) : (markedClasses t q).drop (q + 1) =
    typedClasses ((mark t q).take (q + 3)) (t.drop (q + 1)) := by
  have hlength := length_mark hq
  have hdrop : (mark t q).drop (q + 3) = t.drop (q + 1) := by
    rw [mark_eq hq, List.drop_append]
    simp [Nat.min_eq_left (Nat.le_of_lt hq)]
  have hlt : q + 1 < (lineClasses (mark t q)).length := by
    rw [length_lineClasses, hlength]
    omega
  have hle : q + 3 ≤ (mark t q).length := by omega
  rw [markedClasses, drop_unmark hlt, drop_lineClasses hle, hdrop]

theorem length_markedClasses (hq : q < t.length) : (markedClasses t q).length = t.length := by
  have hlength := length_mark hq
  have hclasses := length_lineClasses (mark t q)
  have hunmark : (markedClasses t q).length + 2 = _ := length_unmark (by omega)
  omega

theorem map_formatting_looks (sheet : Sheet) {keys : List (Option Text)}
    (h : keys.length = t.length) :
    ((List.zipWith (classCell (.ofSheet sheet)) t keys).map Cell.withoutUnderline).map
      Cell.formatting =
        (keys.map (classFormatting (.ofSheet sheet))).map Formatting.withoutUnderline := by
  rw [← map_formatting_zipWith_classCell _ (Nat.le_of_eq h), List.map_map, List.map_map]
  rfl

/-- The colors that are set again after an emphasis are those of the tokens of the marked line. They
are the colors of the line, whatever the styles, just if every character is in the same class in
both. What comes after the emphasized character is if the readings of the two lines meet before
it. -/
theorem colors_of_emphasized (hq : q < t.length) (hcontrol : ∀ c ∈ t, isControl c = false)
    (hline : sentinel ∉ t) :
    (∀ sheet, looks (renderFullLine (.ofSheet sheet) (some q) t) =
      (List.zipWith (classCell (.ofSheet sheet)) t (markedClasses t q)).map
        Cell.withoutUnderline) ∧
    ((∀ sheet, looks (renderFullLine (.ofSheet sheet) (some q) t) =
      looks (Highlight.highlight (.ofSheet sheet) t)) ↔ markedClasses t q = lineClasses t) ∧
    (Lexer.MeetBefore (t.drop (q + 1)) ((mark t q).take (q + 3)) (t.take (q + 1)) →
      ∀ sheet, (looks (renderFullLine (.ofSheet sheet) (some q) t)).drop (q + 1) =
        (looks (Highlight.highlight (.ofSheet sheet) t)).drop (q + 1)) := by
  have hmarked (sheet) := looks_renderFullLine sheet hq hcontrol hline
  have hplain (sheet) := looks_highlight sheet hcontrol
  refine ⟨hmarked, ⟨fun h => ?_, fun h sheet => ?_⟩, fun hmeet sheet => ?_⟩
  · -- Sheets that show one class in bold tell the classes apart, also without underlines.
    have htypes : markedClasses t q = (unmark q (Lexer.characterTypes
        (Lexer.lex (mark t q)))).map TokenType.class? := (map_unmark _ _).symm
    rw [htypes, lineClasses]
    refine map_class?_eq_of_look Formatting.withoutUnderline (by decide) fun sheet => ?_
    have hlook := congrArg (List.map Cell.formatting) (h sheet)
    rw [hmarked, hplain, map_formatting_looks sheet (length_markedClasses hq),
      map_formatting_looks sheet (length_lineClasses t)] at hlook
    rwa [htypes] at hlook
  · rw [hmarked, hplain, h]
  · rw [hmarked, hplain, ← List.map_drop, ← List.map_drop, List.drop_zipWith, List.drop_zipWith,
      drop_markedClasses hq, drop_lineClasses hq, typedClasses, typedClasses,
      Lexer.typesAfter_eq_of_meetBefore hmeet]

end Line

/-- What comes after a bracket before a name has the same colors whether the bracket is emphasized or
not. After an emphasized parenthesis slashes divide that are shown as a regular expression
without it. -/
theorem colors_of_emphasized_brackets :
    (∀ sheet, (looks (renderFullLine (.ofSheet sheet) (some 0) "[a]".toList)).drop 1 =
      (looks (Highlight.highlight (.ofSheet sheet) "[a]".toList)).drop 1) ∧
    Brackets.matching? "(/x/)".toList 4 = some 0 ∧
    ¬ ∀ sheet, looks (renderFullLine (.ofSheet sheet) (some 0) "(/x/)".toList) =
      looks (Highlight.highlight (.ofSheet sheet) "(/x/)".toList) := by
  have hmeet : Lexer.MeetBefore ("[a]".toList.drop 1) ((mark "[a]".toList 0).take 3)
      ("[a]".toList.take 1) :=
    ⟨3, 1, ⟨.divides, []⟩, ⟨.startsRegex, []⟩, ⟨some sentinel, "a]".toList⟩,
      ⟨some '[', "a]".toList⟩, by decide +kernel, by decide +kernel,
      ⟨rfl, rfl, rfl, fun _ => by decide +kernel⟩,
      ⟨rfl, Or.inr ⟨nofun, nofun, by decide⟩⟩, by decide⟩
  have hclasses : markedClasses "(/x/)".toList 0 ≠ lineClasses "(/x/)".toList := by
    decide +kernel
  refine ⟨?_, by decide +kernel, fun h => hclasses ?_⟩
  · exact (colors_of_emphasized (by decide) (by simp [isControl]) (by decide)).2.2 hmeet
  · exact (colors_of_emphasized (by decide) (by simp [isControl]) (by decide)).2.1.mp h

end ReplCore.Line
