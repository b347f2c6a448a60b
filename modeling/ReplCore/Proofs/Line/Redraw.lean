import ReplCore.Proofs.Line.Emphasis
import ReplCore.Proofs.Terminal.Transcript

/-!
# Redrawn lines

A redraw adds sequences of styles to a line and nothing else, whether a bracket is emphasized or
not. The marks around the bracket are the only ones in the highlighted text, and what stands between
them is emphasized in their place.

* `renderFullLine_preserves`: a redraw does not alter the line.
-/

namespace ReplCore.Line

open Escape Terminal

/-- Written text is highlighted text with its one marked stretch emphasized, after which what was in
force before is set again. -/
structure EmphasizesStretch (highlighted written : Text) (m : Marked) : Prop where
  highlighted_eq : highlighted = m.before ++ sentinel :: (m.inside ++ sentinel :: m.after)
  /-- There are no marks but those two. -/
  sentinel_not_mem : sentinel ∉ m.before ++ m.inside ++ m.after
  written_eq : written = m.before ++ emphasis.render m.inside ++
    (Repaint.carried (m.before ++ sentinel :: m.inside ++ [sentinel])).flatten ++ m.after

section Redraw

variable (sheet : Sheet) {t : Text} {q : Nat}

theorem sentinel_not_mem_highlight (ht : ∀ c ∈ t, isMarker c = false) (hline : sentinel ∉ t) :
    sentinel ∉ Highlight.highlight (.ofSheet sheet) t := by
  rw [← flatMap_text_highlightedPieces]
  refine sentinel_not_mem_text (isWhole_of_mem_highlightedPieces sheet ht) ?_
  rwa [characters_highlightedPieces]

theorem exists_emphasizesStretch (hq : q < t.length) (ht : ∀ c ∈ t, isMarker c = false)
    (hline : sentinel ∉ t) :
    let written := renderFullLine (.ofSheet sheet) (some q) t
    (strip written = t ∧ sentinel ∉ written) ∧
      ∃ m, EmphasizesStretch (Highlight.highlight (.ofSheet sheet) (mark t q)) written m ∧
        strip m.inside = [t[q]] := by
  intro written
  obtain ⟨ps, inside, qs, hpieces, hps, hinside, hqs⟩ :=
    exists_markedPieces (t := t) (.ofSheet sheet) hq
  have hwhole : ∀ p ∈ markedPieces ps inside qs, p.IsWhole :=
    hpieces ▸ isWhole_of_mem_highlightedPieces sheet (forall_mem_mark hq (by decide) ht)
  have hemphasized := isWhole_emphasizedPieces hwhole
  obtain ⟨hcharacters, hwritten⟩ := renderFullLine_eq sheet hq hline hwhole hpieces hps hinside hqs
  obtain ⟨hpsText, hinsideText, hqsText, hne⟩ :=
    sentinel_not_mem_parts hq hline hwhole hps hinside hqs
  rw [← flatMap_text_highlightedPieces, hpieces, flatMap_text_markedPieces]
  refine ⟨?_, ⟨ps.flatMap Piece.text, inside.flatMap Piece.text, qs.flatMap Piece.text⟩,
    ⟨rfl, ?_, ?_⟩, ?_⟩
  · rw [show written = _ from hwritten]
    refine ⟨(strip_flatMap hemphasized).trans hcharacters, sentinel_not_mem_text hemphasized ?_⟩
    rwa [hcharacters]
  · simp only [List.mem_append, not_or]
    exact ⟨⟨hpsText, hinsideText⟩, hqsText⟩
  · rw [show written = _ from hwritten, ← emphasizeMarked_flatMap hpsText hinsideText hne,
      flatMap_text_markedPieces, emphasizeMarked, marked?_eq_some hpsText hinsideText hne]
  · rw [strip_flatMap (forall_mem_parts hwhole).2.1, hinside]

/-- A redraw does not alter the line, wherever the bracket to be emphasized is: without the
sequences what is written is the line again, and no mark is left in it. If the bracket is in the
line, one marked stretch is emphasized in place of its marks, and that is the bracket. -/
theorem renderFullLine_preserves (bracket : Option Nat) (ht : ∀ c ∈ t, isMarker c = false)
    (hline : sentinel ∉ t) :
    let written := renderFullLine (.ofSheet sheet) bracket t
    strip written = t ∧ sentinel ∉ written ∧
      ∀ q (hq : q < t.length), bracket = some q →
        ∃ m, EmphasizesStretch (Highlight.highlight (.ofSheet sheet) (mark t q)) written m ∧
          strip m.inside = [t[q]] := by
  intro written
  -- Without a bracket in the line the line is highlighted as it is.
  have hplain : written = Highlight.highlight (.ofSheet sheet) t →
      strip written = t ∧ sentinel ∉ written := by
    intro hwritten
    rw [hwritten]
    exact ⟨strip_highlight sheet ht, sentinel_not_mem_highlight sheet ht hline⟩
  rw [← and_assoc]
  cases bracket with
  | none => exact ⟨hplain rfl, nofun⟩
  | some position =>
    by_cases hposition : position < t.length
    · obtain ⟨hpreserved, hstretch⟩ := exists_emphasizesStretch sheet hposition ht hline
      refine ⟨hpreserved, fun q hq h => ?_⟩
      cases h
      exact hstretch
    · refine ⟨hplain (if_pos (Nat.not_lt.mp hposition)), fun q hq h => ?_⟩
      cases h
      exact absurd hq hposition

/-- In an empty template the backtick at the end is emphasized although its marks are in tokens of
their own. -/
theorem renderFullLine_preserves_template : let t := "``".toList
    let written := renderFullLine (.ofSheet Sheet.default) (some 1) t
    (∀ c ∈ t, isMarker c = false) ∧ sentinel ∉ t ∧ strip written = t ∧ sentinel ∉ written ∧
      ∃ m, EmphasizesStretch (Highlight.highlight (.ofSheet Sheet.default) (mark t 1)) written m ∧
        strip m.inside = "`".toList := by
  intro t written
  have ht : ∀ c ∈ t, isMarker c = false := by simp [t, isMarker]
  have hline : sentinel ∉ t := by decide
  obtain ⟨hstrip, hsentinel, hstretch⟩ :=
    renderFullLine_preserves Sheet.default (some 1) ht hline
  exact ⟨ht, hline, hstrip, hsentinel, hstretch 1 (by decide) rfl⟩

end Redraw

end ReplCore.Line
