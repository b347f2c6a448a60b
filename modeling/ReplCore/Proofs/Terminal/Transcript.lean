import ReplCore.Proofs.Terminal.Painting
import ReplCore.Proofs.Terminal.Styling

/-!
# Highlighted text character by character

Highlighting adds nothing but sequences to a text. Every character comes in the style of its token,
whatever comes before it, since each style that is set is taken back at the end of the token. A row
shows that only of text without backspaces, so the characters are noted in the order in which they
come.

* `transcribe_highlight`: every character comes in the style of its token.
* `highlight_preserves`: highlighted text without its sequences is the text.
-/

namespace ReplCore.Terminal

open Escape

/-- How tokens of a type are to look. -/
def tokenFormatting (styles : StyleSheet) (type : TokenType) : Formatting :=
  ((styles.styleFor type).map Formatting.ofStyle).getD .default

/-- The characters of some lexemes in the looks of their types. -/
def tokenCells (styles : StyleSheet) (ls : List Lexeme) : List Cell :=
  ls.flatMap fun l => l.text.map fun c => ⟨c, tokenFormatting styles l.type⟩

namespace Row

/-- The row after one character, where a backspace is noted like any other character. -/
def note (r : Row) (c : Char) : Row :=
  if c = '\x08' ∧ r.reading = .text then r.put c else r.step c

/-- The row after a text of which every character is noted. -/
def transcribe (r : Row) (t : Text) : Row := t.foldl note r

/-- A row with the cursor after its last cell. -/
def filled (cells : List Cell) (f : Formatting) : Row := ⟨cells, cells.length, f, .text⟩

/-! ## Noting text -/

theorem transcribe_append (r : Row) (t u : Text) :
    r.transcribe (t ++ u) = (r.transcribe t).transcribe u := List.foldl_append

/-- Only a backspace is noted otherwise than a row shows it. -/
theorem transcribe_eq_play {t : Text} (ht : '\x08' ∉ t) (r : Row) : r.transcribe t = r.play t := by
  induction t generalizing r with
  | nil => rfl
  | cons c t ih =>
    have hc : ¬ (c = '\x08' ∧ r.reading = .text) := fun h => ht (h.1 ▸ List.mem_cons_self)
    rw [transcribe, List.foldl_cons, note, if_neg hc, play_cons]
    exact ih (fun h => ht (List.mem_cons_of_mem c h)) (r.step c)

theorem note_of_isMarker {c : Char} (hc : isMarker c = false) {r : Row} (hr : r.reading = .text) :
    r.note c = r.put c := by
  have hescape : c ≠ '\x1b' := ne_of_isMarker hc rfl
  have hcontrol : c ≠ '\x9b' := ne_of_isMarker hc rfl
  by_cases hbackspace : c = '\x08'
  · simp [note, hbackspace, hr]
  · simp [note, step, hbackspace, hr, hescape, hcontrol]

theorem transcribe_chars {t : Text} (ht : ∀ c ∈ t, isMarker c = false) (f : Formatting) :
    ∀ cells : List Cell, (filled cells f).transcribe t = filled (cells ++ t.map (Cell.mk · f)) f := by
  induction t with
  | nil => simp [transcribe]
  | cons c t ih =>
    intro cells
    have hput : (filled cells f).note c = filled (cells ++ [⟨c, f⟩]) f := by
      rw [note_of_isMarker (ht c List.mem_cons_self) rfl]
      simp [put, filled]
    rw [transcribe, List.foldl_cons, hput]
    refine (ih (fun d hd => ht d (List.mem_cons_of_mem c hd)) _).trans ?_
    rw [List.append_assoc]
    rfl

theorem transcribe_sequence {ns : List Nat} (hne : ns ≠ []) (cells : List Cell) (f : Formatting) :
    (filled cells f).transcribe (Style.sequence ns) = filled cells (f.select ns) := by
  rw [transcribe_eq_play (not_mem_sequence (by decide) (by decide) ns), play_sequence hne rfl]
  rfl

/-- Text in a style is noted in that style, and default formatting is in force after it. -/
theorem transcribe_render (s : Style) {t : Text} (ht : ∀ c ∈ t, isMarker c = false)
    (cells : List Cell) : (filled cells .default).transcribe (s.render t) =
      filled (cells ++ t.map (Cell.mk · (.ofStyle s))) .default := by
  have hselect : Formatting.default.select s.codes = .ofStyle s := by
    rw [Formatting.select_codes, Formatting.styled_default]
  unfold Style.render
  split
  · next hopen =>
    rw [transcribe_chars ht]
    rcases hopen with htext | hcodes
    · rw [List.isEmpty_iff.mp htext, List.map_nil, List.map_nil]
    · rw [← hselect, List.isEmpty_iff.mp hcodes, Formatting.select]
  · next hshown =>
    have hcodes : s.codes ≠ [] := fun h => hshown (Or.inr (List.isEmpty_iff.mpr h))
    rw [transcribe_append, transcribe_append, transcribe_sequence hcodes, transcribe_chars ht,
      hselect, reset_eq, transcribe_sequence (by simp)]
    rfl

theorem transcribe_renderLexeme (styles : StyleSheet) {l : Lexeme}
    (hl : ∀ c ∈ l.text, isMarker c = false) (cells : List Cell) :
    (filled cells .default).transcribe (Highlight.renderLexeme styles l) =
      filled (cells ++ l.text.map (Cell.mk · (tokenFormatting styles l.type))) .default := by
  unfold Highlight.renderLexeme tokenFormatting
  cases styles.styleFor l.type with
  | none => exact transcribe_chars hl .default cells
  | some s => exact transcribe_render s hl cells

/-- No style leaks from a lexeme into the next one. -/
theorem transcribe_lexemes (styles : StyleSheet) {ls : List Lexeme}
    (hls : ∀ c ∈ ls.flatMap Lexeme.text, isMarker c = false) : ∀ cells : List Cell,
      (filled cells .default).transcribe (ls.flatMap (Highlight.renderLexeme styles)) =
        filled (cells ++ tokenCells styles ls) .default := by
  induction ls with
  | nil => simp [transcribe, tokenCells]
  | cons l ls ih =>
    intro cells
    rw [List.flatMap_cons] at hls ⊢
    rw [transcribe_append, transcribe_renderLexeme styles fun c hc => hls c (by simp [hc]),
      ih fun c hc => hls c (List.mem_append_right _ hc), List.append_assoc]
    rfl

end Row

/-! ## Highlighted text -/

/-- Every character of highlighted text comes in the style of its token, and default formatting is
in force at the end. -/
theorem transcribe_highlight (styles : StyleSheet) {code : Text}
    (hcode : ∀ c ∈ code, isMarker c = false) :
    Row.blank.transcribe (Highlight.highlight styles code) =
      .filled (tokenCells styles (Lexer.lex code)) .default := by
  rw [← Lexer.flatMap_text_lex code] at hcode
  exact Row.transcribe_lexemes styles hcode []

/-- Highlighted text without its sequences is the text. -/
theorem strip_highlight (sheet : Sheet) {code : Text} (hcode : ∀ c ∈ code, isMarker c = false) :
    strip (Highlight.highlight (.ofSheet sheet) code) = code := by
  rw [← flatMap_text_highlightedPieces,
    strip_flatMap (isWhole_of_mem_highlightedPieces sheet hcode), characters_highlightedPieces]

/-- Highlighting a text that no sequence starts in and no command ends in preserves it: without the
sequences the highlighted text is the text again. A terminal is sent each character in the style of
its token, and default formatting is in force at the end. So a row shows it if there are no
backspaces in it. -/
theorem highlight_preserves (sheet : Sheet) {code : Text}
    (hcode : ∀ c ∈ code, isMarker c = false) :
    let highlighted := Highlight.highlight (.ofSheet sheet) code
    let shown := Row.filled (tokenCells (.ofSheet sheet) (Lexer.lex code)) .default
    strip highlighted = code ∧ Row.blank.transcribe highlighted = shown ∧
      ('\x08' ∉ code → Row.blank.play highlighted = shown) := by
  intro highlighted shown
  have hstrip := strip_highlight sheet hcode
  have htranscribe := transcribe_highlight (.ofSheet sheet) hcode
  refine ⟨hstrip, htranscribe, fun hbackspace => ?_⟩
  rw [← Row.transcribe_eq_play, htranscribe]
  rw [show highlighted = _ from (flatMap_text_highlightedPieces _ code).symm]
  refine not_mem_flatMap_text (isWhole_of_mem_highlightedPieces sheet hcode) (by decide)
    (by decide) ?_
  rwa [characters_highlightedPieces]

/-- A backspace between a keyword and a number comes in default formatting. -/
theorem highlight_preserves_backspace : let code := "if\x081".toList
    let highlighted := Highlight.highlight (.ofSheet Sheet.default) code
    let keyword : Formatting := ⟨.numbered 5, .default, []⟩
    let number : Formatting := ⟨.numbered 3, .default, []⟩
    (∀ c ∈ code, isMarker c = false) ∧ strip highlighted = code ∧
      Row.blank.transcribe highlighted =
        .filled [⟨'i', keyword⟩, ⟨'f', keyword⟩, ⟨'\x08', .default⟩, ⟨'1', number⟩] .default := by
  intro code highlighted keyword number
  have hcode : ∀ c ∈ code, isMarker c = false := by simp [code, isMarker]
  have hcells : tokenCells (.ofSheet Sheet.default) (Lexer.lex code) =
      [⟨'i', keyword⟩, ⟨'f', keyword⟩, ⟨'\x08', .default⟩, ⟨'1', number⟩] := by decide +kernel
  obtain ⟨hstrip, htranscribe, -⟩ := highlight_preserves Sheet.default hcode
  rw [hcells] at htranscribe
  exact ⟨hcode, hstrip, htranscribe⟩

end ReplCore.Terminal
