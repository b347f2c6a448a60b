import ReplCore.Line.Renderer
import ReplCore.Proofs.Brackets.Spans
import ReplCore.Proofs.Terminal.Repaint

/-!
# Typing at the end of a line

What is typed at the end of a line is written as a repaint of the line without its complete pairs.
The repaint goes back over the end of that shorter line and writes it again, although the terminal
shows the whole line. So the line comes out right just if it ends with what is written again, and
otherwise its end is overwritten.

* `render_appended`: what a terminal shows after a character was typed.
-/

namespace ReplCore.Line

open Escape Terminal

/-- The end of the simplified line that is written again when something is typed. -/
def repaintedEnd (styles : StyleSheet) (line typed : Text) : Text :=
  let before := Highlight.highlight styles (Brackets.simplify line)
  let after := Highlight.highlight styles (Brackets.simplify line ++ typed)
  Escape.strip (before.drop (Repaint.commonLength before after))

/-- Backspaces at the end of a row bring the cursor before its last cells. -/
theorem play_backspaces_at_end {r : Row} (hreading : r.reading = .text)
    (hcursor : r.cursor = r.cells.length) {k : Nat} (hk : k ≤ r.cells.length) :
    let n := r.cells.length - k
    r.play (List.replicate k '\x08') =
      ⟨r.cells.take n ++ r.cells.drop n, (r.cells.take n).length, r.formatting, .text⟩ := by
  intro n
  rw [Row.play_backspaces _ hreading, List.take_append_drop, List.length_take, hcursor, hreading]
  simp only [Row.mk.injEq, true_and, and_true]
  omega

/-- A repaint by painted text overwrites the cells before the cursor that it goes back over and goes
on after them, whatever they show. -/
theorem play_write_over {ps qs : List Piece} (hps : Painted ps) (hqs : Painted qs) {typed : Text}
    (hne : typed ≠ []) (hchars : characters qs = characters ps ++ typed) {r : Row}
    (hreading : r.reading = .text) (hcursor : r.cursor = r.cells.length)
    (hlength : (characters ps).length ≤ r.cells.length) :
    ∃ again, again = strip ((ps.flatMap Piece.text).drop
        (Repaint.commonLength (ps.flatMap Piece.text) (qs.flatMap Piece.text))) ∧
      again <:+ characters ps ∧
      ∃ cells f, r.play (Repaint.write (ps.flatMap Piece.text) (qs.flatMap Piece.text)) =
          ⟨cells, cells.length, f, .text⟩ ∧
        cells.map Cell.char = r.text.take (r.text.length - again.length) ++ again ++ typed := by
  have heq : ps.flatMap Piece.text ≠ qs.flatMap Piece.text := by
    intro heq
    have := congrArg strip heq
    rw [strip_flatMap hps.isWhole, strip_flatMap hqs.isWhole, hchars] at this
    exact hne (List.self_eq_append_right.mp this)
  obtain ⟨common, ps', qs', rfl, rfl, hcommon, hwrite⟩ :=
    Repaint.write_eq hps.isWhole hqs.isWhole heq
  have hps' : ∀ p ∈ ps', p.IsWhole := fun p hp => hps.isWhole p (List.mem_append_right _ hp)
  have hqs' : ∀ q ∈ qs', q.IsStyled := fun q hq => hqs.isStyled q (List.mem_append_right _ hq)
  have hcommon' : ∀ p ∈ common, p.IsWhole :=
    fun p hp => hps.isWhole p (List.mem_append_left _ hp)
  refine ⟨characters ps', ?_, ?_, ?_⟩
  · rw [hcommon, List.flatMap_append, List.drop_left, strip_flatMap hps']
  · rw [characters_append]
    exact List.suffix_append _ _
  rw [characters_append, characters_append, List.append_assoc] at hchars
  have hadded := List.append_cancel_left hchars
  rw [characters_append, List.length_append] at hlength
  -- The cells are those before the ones that are gone back over, and these.
  obtain ⟨n, hn⟩ : ∃ n, n = r.cells.length - (characters ps').length := ⟨_, rfl⟩
  have hback := play_backspaces_at_end hreading hcursor
    (show (characters ps').length ≤ r.cells.length by omega)
  rw [← hn] at hback
  have hselects : ∀ s ∈ Repaint.carried (common.flatMap Piece.text), ∃ ns, Selects s ns :=
    fun s hs => (hcommon' _ (Repaint.mem_of_mem_carried hcommon' s hs)).selects
  have hf := play_flatten hselects
    (r := ⟨r.cells.take n ++ r.cells.drop n, (r.cells.take n).length, r.formatting, .text⟩) rfl
  generalize (Repaint.carried (common.flatMap Piece.text)).foldl Formatting.after r.formatting = f
    at hf
  obtain ⟨cells, hcells, hplay⟩ := play_pieces hqs' f
  refine ⟨r.cells.take n ++ cells, f.through qs', ?_, ?_⟩
  · have hcovered : (r.cells.drop n).drop cells.length = [] := by
      have := congrArg List.length hcells
      rw [List.length_map, hadded, List.length_append] at this
      refine List.drop_eq_nil_of_le ?_
      rw [List.length_drop]
      omega
    rw [hwrite, Row.play_append, Row.play_append, hback, hf, hplay, hcovered]
    simp
  · rw [List.map_append, hcells, hadded, Row.text, ← List.map_take, List.length_map, hn,
      List.append_assoc]

/-- What is typed is written as an appended text, unless it is white space. -/
theorem render_startInserting {r : Renderer} {styles : StyleSheet}
    (hstyles : r.styles = some styles) {line typed prompt : Text}
    (hblank : typed.all CharClass.isBlank = false) :
    ((r.startInserting line).render ⟨typed, line ++ typed, prompt⟩).1 =
      renderAppended styles line typed := by
  have hne : typed ≠ [] := by
    rintro rfl
    cases hblank
  have hkind : classify typed (line ++ typed) prompt (some line) true = .appended := by
    simp [classify, hblank]
  simp [Renderer.render, Renderer.startInserting, hne, hstyles, hkind]

section Typing

variable (sheet : Sheet) {r : Renderer} {line typed : Text} (prompt : Text) {row : Row}

theorem play_render (hstyles : r.styles = some (.ofSheet sheet))
    (hline : ∀ c ∈ line, isControl c = false) (htyped : ∀ c ∈ typed, isControl c = false)
    (hblank : typed.all CharClass.isBlank = false) (htext : row.text = line)
    (hcursor : row.cursor = line.length) (hreading : row.reading = .text) :
    repaintedEnd (.ofSheet sheet) line typed <:+ Brackets.simplify line ∧
    ∃ cells f, row.play ((r.startInserting line).render ⟨typed, line ++ typed, prompt⟩).1 =
        ⟨cells, cells.length, f, .text⟩ ∧
      cells.map Cell.char =
        line.take (line.length - (repaintedEnd (.ofSheet sheet) line typed).length) ++
          repaintedEnd (.ofSheet sheet) line typed ++ typed := by
  have hne : typed ≠ [] := by
    rintro rfl
    cases hblank
  have hsimplified : ∀ c ∈ Brackets.simplify line, isControl c = false :=
    fun c hc => hline c ((Brackets.simplify_sublist line).subset hc)
  have hboth : ∀ c ∈ Brackets.simplify line ++ typed, isControl c = false := by
    intro c hc
    rcases List.mem_append.mp hc with hc | hc
    · exact hsimplified c hc
    · exact htyped c hc
  obtain ⟨ps, hps, hbefore, hchars⟩ := painted_highlight sheet hsimplified
  obtain ⟨qs, hqs, hafter, hchars'⟩ := painted_highlight sheet hboth
  have hcells : line.length = row.cells.length := by rw [← htext, Row.text, List.length_map]
  obtain ⟨again, hagain, hsuffix, hplay⟩ := play_write_over hps hqs hne
    (hchars'.trans (by rw [hchars])) hreading (hcursor.trans hcells) (by
      rw [hchars, ← hcells]
      exact (Brackets.simplify_sublist line).length_le)
  have hend : repaintedEnd (.ofSheet sheet) line typed = again := by
    simp only [repaintedEnd, hbefore, hafter, hagain]
  rw [hend, render_startInserting hstyles hblank]
  simp only [renderAppended, hbefore, hafter]
  rw [htext] at hplay
  exact ⟨hchars ▸ hsuffix, hplay⟩

theorem length_repaintedEnd_le {again : Text} (h : again <:+ Brackets.simplify line) :
    again.length ≤ line.length :=
  Nat.le_trans h.length_le (Brackets.simplify_sublist line).length_le

/-- After something was typed at the end of a line, the terminal shows the line up to the end that
is written again, that end, and what was typed, and the cursor is after it. So it shows the line
with what was typed just if the line ends with what is written again. -/
theorem render_appended (hstyles : r.styles = some (.ofSheet sheet))
    (hline : ∀ c ∈ line, isControl c = false) (htyped : ∀ c ∈ typed, isControl c = false)
    (hblank : typed.all CharClass.isBlank = false) (htext : row.text = line)
    (hcursor : row.cursor = line.length) (hreading : row.reading = .text) :
    let shown := row.play ((r.startInserting line).render ⟨typed, line ++ typed, prompt⟩).1
    let again := repaintedEnd (.ofSheet sheet) line typed
    shown.text = line.take (line.length - again.length) ++ again ++ typed ∧
      shown.cursor = (line ++ typed).length ∧
      (shown.text = line ++ typed ↔ again <:+ line) := by
  intro shown again
  obtain ⟨hsuffix, cells, f, hplay, hcells⟩ :=
    play_render sheet prompt hstyles hline htyped hblank htext hcursor hreading
  have hshown : shown.text = line.take (line.length - again.length) ++ again ++ typed := by
    rw [← hcells]
    exact congrArg Row.text hplay
  refine ⟨hshown, ?_, ?_⟩
  · have hcursor' : shown.cursor = cells.length := congrArg Row.cursor hplay
    have hlength := congrArg List.length hcells
    have hle : again.length ≤ line.length := length_repaintedEnd_le hsuffix
    simp only [List.length_map, List.length_append, List.length_take] at hlength
    rw [hcursor', hlength, List.length_append]
    show min (line.length - again.length) line.length + again.length + typed.length = _
    omega
  · rw [hshown, List.append_cancel_right_eq, List.suffix_iff_eq_append]

/-- In `i[0]` the index is left out, so that the name is written again over the bracket. -/
theorem render_appended_after_index :
    let row : Row := ⟨"i[0]".toList.map (Cell.mk · .default), 4, .default, .text⟩
    let r := (Renderer.fresh (some (.ofSheet Sheet.default)) true).startInserting "i[0]".toList
    (row.play (r.render ⟨"f".toList, "i[0]f".toList, []⟩).1).text = "i[0if".toList := by
  have hend : repaintedEnd (.ofSheet Sheet.default) "i[0]".toList "f".toList = "i".toList := by
    decide +kernel
  have hline : (⟨"i[0]".toList.map (Cell.mk · .default), 4, .default, .text⟩ : Row).text =
      "i[0]".toList := by decide
  have hstyles : (Renderer.fresh (some (.ofSheet Sheet.default)) true).styles =
      some (.ofSheet Sheet.default) := rfl
  have hblank : "f".toList.all CharClass.isBlank = false := by decide
  have h := (render_appended Sheet.default [] hstyles (by simp [isControl]) (by simp [isControl])
    hblank hline rfl rfl).1
  rw [hend] at h
  exact h

end Typing

end ReplCore.Line
