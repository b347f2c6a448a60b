import ReplCore.Proofs.Terminal.CommonStart
import ReplCore.Proofs.Terminal.Painting

/-!
# Repainting is exact

The common start of two texts is made of whole pieces. So the rest of the text that is shown is as
many characters as are gone back over, and with the formatting at the end of the common start in
force again, the rest of the new text overwrites them all.

* `play_write`: after a repaint the terminal is as if the new text had been written on its own.
-/

namespace ReplCore

open Escape Terminal

namespace Repaint

/-- What is written, in pieces: back over the characters after the common start, the sequences in
force there, and the rest of the new text. -/
theorem write_eq {ps qs : List Piece} (hps : ∀ p ∈ ps, p.IsWhole) (hqs : ∀ q ∈ qs, q.IsWhole)
    (hne : ps.flatMap Piece.text ≠ qs.flatMap Piece.text) : ∃ common ps' qs',
      ps = common ++ ps' ∧ qs = common ++ qs' ∧
      commonLength (ps.flatMap Piece.text) (qs.flatMap Piece.text) =
        (common.flatMap Piece.text).length ∧
      write (ps.flatMap Piece.text) (qs.flatMap Piece.text) =
        List.replicate (characters ps').length '\x08' ++
          (carried (common.flatMap Piece.text)).flatten ++ qs'.flatMap Piece.text := by
  obtain ⟨common, ps', qs', hps', hqs', hlength⟩ :=
    exists_common_pieces (ps.flatMap Piece.text) (ps.flatMap Piece.text) (qs.flatMap Piece.text)
  rw [pieces_flatMap hps] at hps'
  rw [pieces_flatMap hqs] at hqs'
  refine ⟨common, ps', qs', hps', hqs', hlength, ?_⟩
  have hps'' : ∀ p ∈ ps', p.IsWhole := fun p hp => hps p (hps' ▸ List.mem_append_right _ hp)
  have hcommon : commonLength (ps.flatMap Piece.text) (qs.flatMap Piece.text) =
      (common.flatMap Piece.text).length := hlength
  have hbacktrack : backtrackLength (ps.flatMap Piece.text) (common.flatMap Piece.text).length =
      (characters ps').length := by
    rw [backtrackLength, characterCount, hps', List.flatMap_append, List.drop_left,
      strip_flatMap hps'']
  simp only [write, hne, if_false, hcommon, hbacktrack]
  congr 2
  · rw [hps', List.flatMap_append, List.take_left]
  · rw [hqs', List.flatMap_append, List.drop_left]

end Repaint

namespace Terminal

/-- Played from the start of a row, painted pieces fill it and leave default formatting, and the
pieces before a cut fill the row up to there. -/
theorem play_painted {common ps : List Piece} (h : Painted (common ++ ps)) :
    ∃ shown rest : List Cell, shown.map Cell.char = characters common ∧
      rest.map Cell.char = characters ps ∧
      Row.blank.play (common.flatMap Piece.text) =
        ⟨shown, shown.length, Formatting.default.through common, .text⟩ ∧
      Row.blank.play ((common ++ ps).flatMap Piece.text) =
        ⟨shown ++ rest, (shown ++ rest).length, .default, .text⟩ := by
  have hcommon : ∀ p ∈ common, p.IsStyled := fun p hp => h.isStyled p (List.mem_append_left _ hp)
  have hps : ∀ p ∈ ps, p.IsStyled := fun p hp => h.isStyled p (List.mem_append_right _ hp)
  obtain ⟨shown, hshown, hplay⟩ := play_pieces hcommon .default
  obtain ⟨rest, hrest, hplay'⟩ := play_pieces hps (Formatting.default.through common)
  have hstart : Row.blank.play (common.flatMap Piece.text) =
      ⟨shown, shown.length, Formatting.default.through common, .text⟩ := by
    simpa [Row.blank] using hplay [] []
  refine ⟨shown, rest, hshown, hrest, hstart, ?_⟩
  have hend := hplay' shown []
  rw [← Formatting.through_append, Formatting.through_painted h, List.append_nil] at hend
  rw [List.flatMap_append, Row.play_append, hstart, hend]
  simp

/-- Repainting painted text by painted text that is no shorter is like writing it anew. -/
theorem play_write_painted {ps qs : List Piece} (hps : Painted ps) (hqs : Painted qs)
    (hlength : (characters ps).length ≤ (characters qs).length) :
    (Row.blank.play (ps.flatMap Piece.text)).play
        (Repaint.write (ps.flatMap Piece.text) (qs.flatMap Piece.text)) =
      Row.blank.play (qs.flatMap Piece.text) := by
  by_cases heq : ps.flatMap Piece.text = qs.flatMap Piece.text
  · simp [Repaint.write, heq]
  obtain ⟨common, ps', qs', rfl, rfl, -, hwrite⟩ :=
    Repaint.write_eq hps.isWhole hqs.isWhole heq
  obtain ⟨shown, rest, hshown, hrest, hstart, hbefore⟩ := play_painted hps
  have hcount : (characters ps').length = rest.length := by rw [← hrest, List.length_map]
  have hqs' : ∀ q ∈ qs', q.IsStyled := fun q hq => hqs.isStyled q (List.mem_append_right _ hq)
  obtain ⟨added, hadded, hplay⟩ := play_pieces hqs' (Formatting.default.through common)
  have hcovered : rest.length ≤ added.length := by
    have := congrArg List.length hadded
    rw [List.length_map] at this
    simp only [characters_append, List.length_append] at hlength
    omega
  -- Back at the cut, the row differs from one that shows the common start alone in cells that are
  -- all overwritten.
  have hback : (Row.blank.play ((common ++ ps').flatMap Piece.text)).play
      (List.replicate (characters ps').length '\x08') =
        ⟨shown ++ rest, shown.length, .default, .text⟩ := by
    rw [hbefore, Row.play_backspaces _ rfl, hcount]
    simp
  calc (Row.blank.play ((common ++ ps').flatMap Piece.text)).play (Repaint.write _ _)
      = (⟨shown ++ rest, shown.length, Formatting.default.through common, .text⟩ : Row).play
          (qs'.flatMap Piece.text) := by
        rw [hwrite, Row.play_append, Row.play_append, hback, play_carried hps rfl rfl]
    _ = (⟨shown ++ [], shown.length, Formatting.default.through common, .text⟩ : Row).play
          (qs'.flatMap Piece.text) := by
        rw [hplay, hplay, List.drop_eq_nil_of_le hcovered, List.drop_nil]
    _ = Row.blank.play ((common ++ qs').flatMap Piece.text) := by
        rw [List.flatMap_append, Row.play_append, hstart, List.append_nil]

/-- Repainting highlighted text by that of a text without controls that is no shorter leaves every
cell, the cursor and the formatting as if the new text had been written on its own. -/
theorem play_write (sheet : Sheet) {c₁ c₂ : Text} (h₁ : ∀ c ∈ c₁, isControl c = false)
    (h₂ : ∀ c ∈ c₂, isControl c = false) (hlength : c₁.length ≤ c₂.length) :
    (Row.blank.play (Highlight.highlight (.ofSheet sheet) c₁)).play
        (Repaint.write (Highlight.highlight (.ofSheet sheet) c₁)
          (Highlight.highlight (.ofSheet sheet) c₂)) =
      Row.blank.play (Highlight.highlight (.ofSheet sheet) c₂) := by
  obtain ⟨ps, hps, hbefore, hchars⟩ := painted_highlight sheet h₁
  obtain ⟨qs, hqs, hafter, hchars'⟩ := painted_highlight sheet h₂
  rw [hbefore, hafter]
  exact play_write_painted hps hqs (by rw [hchars, hchars']; exact hlength)

/-- A word grows into a keyword. -/
theorem play_write_keyword : let sheet := Sheet.default
    let before := Highlight.highlight (.ofSheet sheet) "le".toList
    let after := Highlight.highlight (.ofSheet sheet) "let".toList
    before ≠ after ∧ (Row.blank.play before).play (Repaint.write before after) =
      Row.blank.play after := by
  refine ⟨by decide +kernel, ?_⟩
  exact play_write Sheet.default (by simp [isControl]) (by simp [isControl]) (by decide)

end Terminal

end ReplCore
