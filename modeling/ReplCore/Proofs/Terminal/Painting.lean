import ReplCore.Code.Highlight
import ReplCore.Code.Lexer.Lemmas
import ReplCore.Proofs.Style.Codes
import ReplCore.Proofs.Terminal.InForce
import ReplCore.Proofs.Terminal.Sequences

/-!
# Highlighted text on a terminal

Highlighted text is characters, in stretches that a sequence opens and a reset closes. Wherever it
is cut, the sequences in force at the cut bring a terminal in default formatting to the formatting
that the text before the cut leaves it in.

* `painted_highlight`: highlighted text is painted.
* `play_pieces`, `play_carried`: what a terminal shows after painted text, and the formatting that
  the sequences carried over bring it to.
-/

namespace ReplCore

namespace Escape

/-! ## Characters and sequences -/

/-- The characters among some pieces. -/
def characters (ps : List Piece) : Text :=
  ps.filterMap fun
    | .char c => some c
    | .sequence _ => none

/-- The sequences among some pieces. -/
def sequencesOf (ps : List Piece) : List Text :=
  ps.filterMap fun
    | .sequence s => some s
    | .char _ => none

theorem characters_append (ps qs : List Piece) :
    characters (ps ++ qs) = characters ps ++ characters qs := List.filterMap_append

theorem sequencesOf_append (ps qs : List Piece) :
    sequencesOf (ps ++ qs) = sequencesOf ps ++ sequencesOf qs := List.filterMap_append

@[simp] theorem characters_map_char (t : Text) : characters (t.map Piece.char) = t := by
  induction t with
  | nil => rfl
  | cons c t ih => exact congrArg (c :: ·) ih

@[simp] theorem sequencesOf_map_char (t : Text) : sequencesOf (t.map Piece.char) = [] := by
  induction t with
  | nil => rfl
  | cons c t ih => exact ih

/-- Pieces can be cut at any of their characters. -/
theorem exists_append_char {ps : List Piece} {t u : Text} {c : Char}
    (h : characters ps = t ++ c :: u) :
    ∃ qs rs, ps = qs ++ .char c :: rs ∧ characters qs = t ∧ characters rs = u := by
  obtain ⟨qs, rest, rfl, hqs, hrest⟩ := List.filterMap_eq_append_iff.mp h
  obtain ⟨ss, p, rs, rfl, hss, hp, hrs⟩ := List.filterMap_eq_cons_iff.mp hrest
  cases p with
  | sequence s => cases hp
  | char d =>
    cases hp
    refine ⟨qs ++ ss, rs, (List.append_assoc ..).symm, ?_, hrs⟩
    rw [characters_append, show characters qs = t from hqs,
      show characters ss = [] from List.filterMap_eq_nil_iff.mpr hss, List.append_nil]

theorem flatMap_text_map_char (t : Text) : (t.map Piece.char).flatMap Piece.text = t := by
  induction t with
  | nil => rfl
  | cons c t ih => exact congrArg (c :: ·) ih

theorem strip_flatMap {ps : List Piece} (h : ∀ p ∈ ps, p.IsWhole) :
    strip (ps.flatMap Piece.text) = characters ps := by
  rw [strip, pieces_flatMap h]
  rfl

theorem sequences_flatMap {ps : List Piece} (h : ∀ p ∈ ps, p.IsWhole) :
    sequences (ps.flatMap Piece.text) = sequencesOf ps := by
  rw [sequences, pieces_flatMap h]
  rfl

/-- The sequences of styles add no characters but those that they are written with. -/
theorem not_mem_flatMap_text {ps : List Piece} (hps : ∀ p ∈ ps, p.IsWhole) {c : Char}
    (hdigit : c.isDigit = false) (hmark : c ∉ "\x1b[;m".toList) (h : c ∉ characters ps) :
    c ∉ ps.flatMap Piece.text := by
  intro hmem
  obtain ⟨p, hp, hmem⟩ := List.mem_flatMap.mp hmem
  cases p with
  | char d =>
    obtain rfl := List.mem_singleton.mp hmem
    exact h (List.mem_filterMap.mpr ⟨_, hp, rfl⟩)
  | sequence s =>
    obtain ⟨ns, -, -, rfl⟩ := hps _ hp
    exact not_mem_sequence hdigit hmark ns hmem

/-! ## Painted pieces -/

/-- A sequence that opens a stretch: it sets some numbers, the first of which is not zero. -/
def IsOpening (s : Text) : Prop :=
  ∃ n ns, 0 < n ∧ (∀ m ∈ n :: ns, m < 10000) ∧ s = Style.sequence (n :: ns)

theorem IsOpening.isStyling {s : Text} (h : IsOpening s) : IsStyling s := by
  obtain ⟨n, ns, -, hns, rfl⟩ := h
  exact ⟨n :: ns, by simp, hns, rfl⟩

theorem reset_eq : Style.reset = Style.sequence [0] := by decide

theorem isFullReset_reset : isFullReset Style.reset = true := by decide

theorem isStyling_reset : IsStyling Style.reset := ⟨[0], by simp, by simp, reset_eq⟩

theorem IsOpening.isFullReset_eq {s : Text} (h : IsOpening s) : isFullReset s = false := by
  obtain ⟨n, ns, hn, -, rfl⟩ := h
  obtain ⟨x, t, ht⟩ := List.exists_cons_of_ne_nil (show Text.ofNat n ≠ [] from Nat.toDigits_ne_nil)
  have hsequence : Style.sequence (n :: ns) = '\x1b' :: '[' :: x ::
      (t ++ ((ns.map Text.ofNat).flatMap fun m => ';' :: m) ++ ['m']) := by
    rw [Style.sequence, List.map_cons, join_eq, ht]
    simp
  have hm : x ≠ 'm' := by
    rintro rfl
    have := isDigit_of_mem_ofNat (n := n) (c := 'm') (by simp [ht])
    exact absurd this (by decide)
  have hzero : x = '0' → t ≠ [] := by
    rintro rfl rfl
    have := Nat.ofDigitChars_ten_toDigits (n := n)
    rw [show Nat.toDigits 10 n = ['0'] from ht] at this
    exact absurd this.symm (Nat.pos_iff_ne_zero.mp hn)
  rw [isFullReset, hsequence, Bool.or_eq_false_iff, decide_eq_false_iff_not,
    decide_eq_false_iff_not]
  refine ⟨fun h => ?_, fun h => ?_⟩
  · have hx : x :: (t ++ ((ns.map Text.ofNat).flatMap fun m => ';' :: m) ++ ['m']) = ['0', 'm'] :=
      (List.cons.inj (List.cons.inj h).2).2
    obtain ⟨rfl, hrest⟩ := List.cons.inj hx
    have := congrArg List.length hrest
    have := List.length_pos_iff.mpr (hzero rfl)
    simp at *
    omega
  · have hx : x :: (t ++ ((ns.map Text.ofNat).flatMap fun m => ';' :: m) ++ ['m']) = ['m'] :=
      (List.cons.inj (List.cons.inj h).2).2
    exact hm (List.cons.inj hx).1

/-- Characters, in stretches that a sequence opens and a reset closes. -/
inductive Painted : List Piece → Prop
  | nil : Painted []
  | char {c : Char} {ps : List Piece} (isChar : Terminal.isControl c = false)
      (more : Painted ps) : Painted (.char c :: ps)
  | colored {s t : Text} {ps : List Piece} (opening : IsOpening s)
      (areChars : ∀ c ∈ t, Terminal.isControl c = false) (more : Painted ps) :
      Painted (.sequence s :: (t.map Piece.char ++ .sequence Style.reset :: ps))

namespace Painted

variable {ps qs : List Piece}

theorem isStyled (h : Painted ps) : ∀ p ∈ ps, p.IsStyled := by
  induction h with
  | nil => simp
  | char isChar _ ih =>
    intro p hp
    rcases List.mem_cons.mp hp with rfl | hp
    · exact isChar
    · exact ih p hp
  | colored opening areChars _ ih =>
    intro p hp
    rcases List.mem_cons.mp hp with rfl | hp
    · exact opening.isStyling
    rcases List.mem_append.mp hp with hp | hp
    · obtain ⟨c, hc, rfl⟩ := List.mem_map.mp hp
      exact areChars c hc
    rcases List.mem_cons.mp hp with rfl | hp
    · exact isStyling_reset
    · exact ih p hp

theorem isWhole (h : Painted ps) : ∀ p ∈ ps, p.IsWhole := fun p hp => (h.isStyled p hp).isWhole

theorem append (hps : Painted ps) (hqs : Painted qs) : Painted (ps ++ qs) := by
  induction hps with
  | nil => exact hqs
  | char isChar _ ih => exact .char isChar ih
  | colored opening areChars _ ih =>
    rw [List.cons_append, List.append_assoc, List.cons_append]
    exact .colored opening areChars ih

theorem chars {t : Text} (ht : ∀ c ∈ t, Terminal.isControl c = false) :
    Painted (t.map Piece.char) := by
  induction t with
  | nil => exact .nil
  | cons c t ih =>
    exact .char (ht c List.mem_cons_self) (ih fun d hd => ht d (List.mem_cons_of_mem c hd))

/-- The sequences of painted pieces end with a reset. -/
theorem sequencesOf_cases (h : Painted ps) :
    sequencesOf ps = [] ∨ ∃ ss, sequencesOf ps = ss ++ [Style.reset] := by
  induction h with
  | nil => exact Or.inl rfl
  | char _ _ ih => exact ih
  | @colored s t ps _ _ _ ih =>
    have hsequences : sequencesOf (.sequence s :: (t.map Piece.char ++
        .sequence Style.reset :: ps)) = s :: Style.reset :: sequencesOf ps := by
      show s :: sequencesOf (t.map Piece.char ++ .sequence Style.reset :: ps) = _
      rw [sequencesOf_append, sequencesOf_map_char]
      rfl
    rw [hsequences]
    rcases ih with ih | ⟨ss, ih⟩
    · exact Or.inr ⟨[s], by rw [ih]; rfl⟩
    · exact Or.inr ⟨s :: Style.reset :: ss, by rw [ih]; rfl⟩

/-- Painted pieces are cut between stretches or within one. -/
theorem of_append (h : Painted (ps ++ qs)) : (Painted ps ∧ Painted qs) ∨
    ∃ (ps' : List Piece) (s t u : Text) (qs' : List Piece),
      Painted ps' ∧ Painted qs' ∧ IsOpening s ∧ (∀ c ∈ t ++ u, Terminal.isControl c = false) ∧
      ps = ps' ++ .sequence s :: t.map Piece.char ∧
      qs = u.map Piece.char ++ .sequence Style.reset :: qs' := by
  generalize hall : ps ++ qs = all at h
  induction h generalizing ps with
  | nil =>
    obtain ⟨rfl, rfl⟩ := List.append_eq_nil_iff.mp hall
    exact Or.inl ⟨.nil, .nil⟩
  | @char c all' isChar more ih =>
    cases ps with
    | nil =>
      obtain rfl : qs = _ := hall
      exact Or.inl ⟨.nil, .char isChar more⟩
    | cons p ps =>
      obtain ⟨rfl, hrest⟩ := List.cons.inj hall
      rcases ih hrest with ⟨hps, hqs⟩ | ⟨ps', s, t, u, qs', hps, hqs, hs, ht, rfl, rfl⟩
      · exact Or.inl ⟨.char isChar hps, hqs⟩
      · exact Or.inr ⟨.char c :: ps', s, t, u, qs', .char isChar hps, hqs, hs, ht, rfl, rfl⟩
  | @colored s t all' opening areChars more ih =>
    cases ps with
    | nil =>
      obtain rfl : qs = _ := hall
      exact Or.inl ⟨.nil, .colored opening areChars more⟩
    | cons p ps =>
      obtain ⟨rfl, hrest⟩ := List.cons.inj hall
      rcases List.append_eq_append_iff.mp hrest with ⟨w, hw, hqs⟩ | ⟨w, hw, hqs⟩
      · -- The cut is within the stretch.
        obtain ⟨t₁, t₂, rfl, rfl, rfl⟩ := List.map_eq_append_iff.mp hw
        exact Or.inr ⟨[], s, t₁, t₂, all', .nil, more, opening, areChars, rfl, hqs⟩
      · cases w with
        | nil =>
          rw [List.append_nil] at hw
          obtain rfl : qs = _ := hqs.symm
          exact Or.inr ⟨[], s, t, [], all', .nil, more, opening, by simpa using areChars,
            by rw [hw]; rfl, rfl⟩
        | cons r w =>
          obtain ⟨rfl, hrest'⟩ := List.cons.inj hqs
          rw [hw]
          rcases ih hrest'.symm with ⟨hw, hqs'⟩ | ⟨ps', s', t', u, qs', hps, hqs', hs, ht, rfl, rfl⟩
          · exact Or.inl ⟨.colored opening areChars hw, hqs'⟩
          · refine Or.inr ⟨_, s', t', u, qs', .colored opening areChars hps, hqs', hs, ht, ?_, rfl⟩
            simp

end Painted

/-! ## Highlighted text -/

/-- The style that a lexeme is shown in, if that takes sequences. -/
def shownStyle? (styles : StyleSheet) (l : Lexeme) : Option Style :=
  (styles.styleFor l.type).filter fun s => !l.text.isEmpty && !s.codes.isEmpty

theorem shownStyle?_eq_some {styles : StyleSheet} {l : Lexeme} {s : Style}
    (h : shownStyle? styles l = some s) :
    styles.styleFor l.type = some s ∧ l.text ≠ [] ∧ s.codes ≠ [] := by
  obtain ⟨hs, hshown⟩ := Option.filter_eq_some_iff.mp h
  simp only [Bool.and_eq_true, Bool.not_eq_true', List.isEmpty_eq_false_iff] at hshown
  exact ⟨hs, hshown⟩

/-- The pieces of a lexeme in its style. -/
def lexemePieces (styles : StyleSheet) (l : Lexeme) : List Piece :=
  match shownStyle? styles l with
  | some s =>
    .sequence (Style.sequence s.codes) :: (l.text.map Piece.char ++ [.sequence Style.reset])
  | none => l.text.map Piece.char

/-- The pieces of highlighted text. -/
def highlightedPieces (styles : StyleSheet) (code : Text) : List Piece :=
  (Lexer.lex code).flatMap (lexemePieces styles)

theorem flatMap_text_lexemePieces (styles : StyleSheet) (l : Lexeme) :
    (lexemePieces styles l).flatMap Piece.text = Highlight.renderLexeme styles l := by
  unfold lexemePieces shownStyle? Highlight.renderLexeme
  cases styles.styleFor l.type with
  | none => exact flatMap_text_map_char l.text
  | some s =>
    simp only [Option.filter, Style.render]
    by_cases h : l.text.isEmpty ∨ s.codes.isEmpty
    · have hshown : (!l.text.isEmpty && !s.codes.isEmpty) = false := by
        rcases h with h | h <;> simp [h]
      rw [if_pos h, if_neg (Bool.eq_false_iff.mp hshown)]
      exact flatMap_text_map_char l.text
    · have hshown : (!l.text.isEmpty && !s.codes.isEmpty) = true := by simpa using h
      rw [if_neg h, if_pos hshown]
      simp [List.flatMap_append, flatMap_text_map_char, Piece.text]

theorem flatMap_text_highlightedPieces (styles : StyleSheet) (code : Text) :
    (highlightedPieces styles code).flatMap Piece.text = Highlight.highlight styles code := by
  rw [highlightedPieces, List.flatMap_assoc]
  exact congrArg (List.flatMap · _) (funext (flatMap_text_lexemePieces styles))

theorem characters_lexemePieces (styles : StyleSheet) (l : Lexeme) :
    characters (lexemePieces styles l) = l.text := by
  unfold lexemePieces
  split
  · show characters (l.text.map Piece.char ++ [.sequence Style.reset]) = l.text
    rw [characters_append, characters_map_char]
    exact List.append_nil _
  · exact characters_map_char _

theorem characters_flatMap_lexemePieces (styles : StyleSheet) (ls : List Lexeme) :
    characters (ls.flatMap (lexemePieces styles)) = ls.flatMap Lexeme.text := by
  induction ls with
  | nil => rfl
  | cons l ls ih =>
    rw [List.flatMap_cons, characters_append, characters_lexemePieces, ih, List.flatMap_cons]

theorem characters_highlightedPieces (styles : StyleSheet) (code : Text) :
    characters (highlightedPieces styles code) = code := by
  rw [highlightedPieces, characters_flatMap_lexemePieces, Lexer.flatMap_text_lex]

theorem mem_lexemePieces {styles : StyleSheet} {l : Lexeme} {p : Piece}
    (h : p ∈ lexemePieces styles l) : (∃ c ∈ l.text, p = .char c) ∨
      p = .sequence Style.reset ∨
      ∃ s, shownStyle? styles l = some s ∧ p = .sequence (Style.sequence s.codes) := by
  have hchars : p ∈ l.text.map Piece.char → ∃ c ∈ l.text, p = .char c := by
    intro hp
    obtain ⟨c, hc, rfl⟩ := List.mem_map.mp hp
    exact ⟨c, hc, rfl⟩
  unfold lexemePieces at h
  split at h
  · next s hs =>
    rcases List.mem_cons.mp h with rfl | h
    · exact Or.inr (Or.inr ⟨s, hs, rfl⟩)
    rcases List.mem_append.mp h with h | h
    · exact Or.inl (hchars h)
    · exact Or.inr (Or.inl (List.mem_singleton.mp h))
  · exact Or.inl (hchars h)

/-- The sequences of a sheet's styles open stretches. -/
theorem isOpening_of_shownStyle? {sheet : Sheet} {l : Lexeme} {s : Style}
    (h : shownStyle? (.ofSheet sheet) l = some s) : IsOpening (Style.sequence s.codes) := by
  obtain ⟨hs, -, hcodes⟩ := shownStyle?_eq_some h
  obtain ⟨hle, hpos⟩ := StyleSheet.isCodes_styleFor hs
  obtain ⟨n, ns, hcodes⟩ := List.exists_cons_of_ne_nil hcodes
  refine ⟨n, ns, hpos n (by rw [hcodes]; rfl), fun m hm => ?_, by rw [hcodes]⟩
  have := hle m (hcodes ▸ hm)
  omega

/-- Highlighted text is made of whole pieces unless it had markers in it before. -/
theorem isWhole_of_mem_highlightedPieces (sheet : Sheet) {code : Text}
    (hcode : ∀ c ∈ code, isMarker c = false) :
    ∀ p ∈ highlightedPieces (.ofSheet sheet) code, p.IsWhole := by
  intro p hp
  obtain ⟨l, hl, hp⟩ := List.mem_flatMap.mp hp
  rcases mem_lexemePieces hp with ⟨c, hc, rfl⟩ | rfl | ⟨s, hs, rfl⟩
  · refine hcode c ?_
    rw [← Lexer.flatMap_text_lex code]
    exact List.mem_flatMap.mpr ⟨l, hl, hc⟩
  · exact isStyling_reset
  · exact (isOpening_of_shownStyle? hs).isStyling

theorem painted_lexemePieces (sheet : Sheet) {l : Lexeme}
    (hl : ∀ c ∈ l.text, Terminal.isControl c = false) :
    Painted (lexemePieces (.ofSheet sheet) l) := by
  unfold lexemePieces
  split
  · next s hs => exact .colored (isOpening_of_shownStyle? hs) hl .nil
  · exact .chars hl

theorem painted_highlightedPieces (sheet : Sheet) {code : Text}
    (hcode : ∀ c ∈ code, Terminal.isControl c = false) :
    Painted (highlightedPieces (.ofSheet sheet) code) := by
  have hlexemes : ∀ ls : List Lexeme, (∀ c ∈ ls.flatMap Lexeme.text, Terminal.isControl c = false) →
      Painted (ls.flatMap (lexemePieces (.ofSheet sheet))) := by
    intro ls
    induction ls with
    | nil => exact fun _ => .nil
    | cons l ls ih =>
      intro h
      rw [List.flatMap_cons] at h ⊢
      exact (painted_lexemePieces sheet fun c hc => h c (List.mem_append_left _ hc)).append
        (ih fun c hc => h c (List.mem_append_right _ hc))
  exact hlexemes _ (by rwa [Lexer.flatMap_text_lex])

/-- Highlighted text is painted, and its characters are the text. -/
theorem painted_highlight (sheet : Sheet) {code : Text}
    (hcode : ∀ c ∈ code, Terminal.isControl c = false) : ∃ ps, Painted ps ∧
      Highlight.highlight (.ofSheet sheet) code = ps.flatMap Piece.text ∧ characters ps = code :=
  ⟨_, painted_highlightedPieces sheet hcode, (flatMap_text_highlightedPieces _ code).symm,
    characters_highlightedPieces _ code⟩

end Escape

namespace Repaint

/-- What is carried over from whole pieces are sequences among them. -/
theorem mem_of_mem_carried {ps : List Escape.Piece} (h : ∀ p ∈ ps, p.IsWhole) :
    ∀ s ∈ carried (ps.flatMap Escape.Piece.text), Escape.Piece.sequence s ∈ ps := by
  intro s hs
  have hmem := mem_of_mem_inForce hs
  rw [Escape.sequences_flatMap h] at hmem
  obtain ⟨p, hp, hsome⟩ := List.mem_filterMap.mp hmem
  cases p with
  | char c => cases hsome
  | sequence t =>
    cases hsome
    exact hp

end Repaint

/-! ## Playing -/

namespace Terminal

open Escape

namespace Formatting

variable {f : Formatting}

/-- The formatting that a text leaves a terminal in. -/
def after (f : Formatting) (t : Text) : Formatting :=
  ((⟨[], 0, f, .text⟩ : Row).play t).formatting

/-- The formatting that some pieces leave a terminal in. -/
def through (f : Formatting) (ps : List Piece) : Formatting :=
  ps.foldl (fun g p => g.after p.text) f

theorem through_cons (f : Formatting) (p : Piece) (ps : List Piece) :
    f.through (p :: ps) = (f.after p.text).through ps := rfl

theorem through_append (f : Formatting) (ps qs : List Piece) :
    f.through (ps ++ qs) = (f.through ps).through qs := List.foldl_append

theorem after_char {c : Char} (hc : isControl c = false) : f.after [c] = f := by
  rw [after, Row.play_cons, Row.step_of_not_isControl rfl hc]
  rfl

theorem after_selects {s : Text} {ns : List Nat} (hs : Selects s ns) : f.after s = f.select ns := by
  rw [after, Row.play_selects hs rfl]

theorem after_sequence {ns : List Nat} (hne : ns ≠ []) :
    f.after (Style.sequence ns) = f.select ns := after_selects (selects_sequence hne)

theorem after_reset : f.after Style.reset = default := by
  rw [reset_eq, after_sequence (by simp)]
  rfl

theorem through_chars {t : Text} (ht : ∀ c ∈ t, isControl c = false) :
    f.through (t.map Piece.char) = f := by
  induction t with
  | nil => rfl
  | cons c t ih =>
    rw [List.map_cons, through_cons, Piece.text, after_char (ht c List.mem_cons_self)]
    exact ih fun d hd => ht d (List.mem_cons_of_mem c hd)

/-- Painted pieces leave a terminal in default formatting. -/
theorem through_painted {ps : List Piece} (h : Painted ps) : default.through ps = default := by
  induction h with
  | nil => rfl
  | char isChar _ ih => rw [through_cons, Piece.text, after_char isChar, ih]
  | colored opening areChars _ ih =>
    rw [through_cons, through_append, through_chars areChars, through_cons]
    exact (congrArg (through · _) after_reset).trans ih

end Formatting

/-- Sequences change nothing but the formatting. -/
theorem play_flatten {ss : List Text} (h : ∀ s ∈ ss, ∃ ns, Selects s ns) {r : Row}
    (hr : r.reading = .text) :
    r.play ss.flatten = { r with formatting := ss.foldl Formatting.after r.formatting } := by
  induction ss generalizing r with
  | nil => rfl
  | cons s ss ih =>
    obtain ⟨ns, hs⟩ := h s List.mem_cons_self
    have ih := ih (fun t ht => h t (List.mem_cons_of_mem s ht))
      (r := { r with formatting := r.formatting.select ns }) hr
    rw [List.flatten_cons, Row.play_append, Row.play_selects hs hr, ih, List.foldl_cons,
      Formatting.after_selects hs]

/-- The cells that some pieces are shown in. -/
def Formatting.paint : Formatting → List Piece → List Cell
  | _, [] => []
  | f, .char c :: ps => ⟨c, f⟩ :: paint f ps
  | f, .sequence s :: ps => paint (f.after s) ps

theorem Formatting.map_char_paint (ps : List Piece) :
    ∀ f : Formatting, (f.paint ps).map Cell.char = characters ps := by
  induction ps with
  | nil => exact fun _ => rfl
  | cons p ps ih =>
    intro f
    cases p with
    | char c => exact congrArg (c :: ·) (ih f)
    | sequence s => exact ih (f.after s)

/-- A character is shown in one cell. -/
theorem Formatting.exists_paint_eq_singleton {ps : List Piece} {c : Char} (h : characters ps = [c])
    (f : Formatting) : ∃ x, f.paint ps = [x] := by
  have hlength := congrArg List.length (map_char_paint ps f)
  rw [List.length_map, h] at hlength
  exact List.length_eq_one_iff.mp hlength

theorem Formatting.paint_append {ps : List Piece} (h : ∀ p ∈ ps, p.IsStyled) (qs : List Piece) :
    ∀ f : Formatting, f.paint (ps ++ qs) = f.paint ps ++ (f.through ps).paint qs := by
  induction ps with
  | nil => exact fun _ => rfl
  | cons p ps ih =>
    intro f
    have ih := ih fun q hq => h q (List.mem_cons_of_mem p hq)
    cases p with
    | char c =>
      have hc : isControl c = false := h _ List.mem_cons_self
      rw [List.cons_append, Formatting.paint, ih, Formatting.through_cons, Piece.text,
        Formatting.after_char hc]
      rfl
    | sequence s => exact ih (f.after s)

/-- Styled pieces overwrite cells from the cursor on. -/
theorem play_flatMap_text {ps : List Piece} (h : ∀ p ∈ ps, p.IsStyled) :
    ∀ (f : Formatting) (before after : List Cell),
      (⟨before ++ after, before.length, f, .text⟩ : Row).play (ps.flatMap Piece.text) =
        ⟨before ++ f.paint ps ++ after.drop (f.paint ps).length,
          before.length + (f.paint ps).length, f.through ps, .text⟩ := by
  induction ps with
  | nil => simp [Formatting.paint, Formatting.through]
  | cons p ps ih =>
    intro f before after
    have ih := ih fun q hq => h q (List.mem_cons_of_mem p hq)
    have hp := h p List.mem_cons_self
    cases p with
    | char c =>
      rw [List.flatMap_cons, Piece.text, List.singleton_append, Row.play_cons,
        Row.step_between hp, ih, Formatting.through_cons, Piece.text, Formatting.after_char hp]
      simp [Formatting.paint, Nat.add_assoc, Nat.add_comm 1]
    | sequence s =>
      obtain ⟨ns, hne, -, rfl⟩ := hp
      rw [List.flatMap_cons, Row.play_append, Piece.text, Row.play_sequence hne rfl, ih,
        Formatting.through_cons, Piece.text, Formatting.paint, Formatting.after_sequence hne]

/-- The cells that styled pieces are shown in on an empty row. -/
theorem cells_play_flatMap_text {ps : List Piece} (h : ∀ p ∈ ps, p.IsStyled) :
    (Row.blank.play (ps.flatMap Piece.text)).cells = Formatting.default.paint ps := by
  refine (congrArg Row.cells (play_flatMap_text h .default [] [])).trans ?_
  simp

/-- Styled pieces overwrite as many cells as there are characters among them, with cells that depend
on nothing but the formatting before. -/
theorem play_pieces {ps : List Piece} (h : ∀ p ∈ ps, p.IsStyled) (f : Formatting) :
    ∃ cells : List Cell, cells.map Cell.char = characters ps ∧ ∀ before after : List Cell,
      (⟨before ++ after, before.length, f, .text⟩ : Row).play (ps.flatMap Piece.text) =
        ⟨before ++ cells ++ after.drop cells.length, before.length + cells.length,
          f.through ps, .text⟩ :=
  ⟨f.paint ps, Formatting.map_char_paint ps f, play_flatMap_text h f⟩

/-- The sequences in force where painted pieces are cut bring a terminal in default formatting to
the formatting at the cut. -/
theorem play_carried {ps qs : List Piece} (h : Painted (ps ++ qs)) {r : Row}
    (hreading : r.reading = .text) (hformatting : r.formatting = .default) :
    r.play (Repaint.carried (ps.flatMap Piece.text)).flatten =
      { r with formatting := Formatting.default.through ps } := by
  have hwhole : ∀ p ∈ ps, p.IsWhole := fun p hp => h.isWhole p (List.mem_append_left _ hp)
  have hreset : r.play Style.reset = { r with formatting := .default } := by
    rw [reset_eq, Row.play_sequence (by simp) hreading]
    rfl
  rw [Repaint.carried, sequences_flatMap hwhole]
  rcases h.of_append with ⟨hps, -⟩ | ⟨ps', s, t, u, qs', hps, -, hs, ht, rfl, -⟩
  · rw [Formatting.through_painted hps]
    rcases hps.sequencesOf_cases with hsequences | ⟨ss, hsequences⟩
    · rw [hsequences]
      simp [Repaint.inForce_nil, ← hformatting]
    · have hlater : ∀ t ∈ ([] : List Text), isFullReset t = false := by simp
      rw [hsequences, Repaint.inForce_append_reset isFullReset_reset ss hlater, Repaint.inForce_nil]
      simpa using hreset
  · have hchars : ∀ c ∈ t, isControl c = false := fun c hc => ht c (List.mem_append_left _ hc)
    have hsequences : sequencesOf (ps' ++ .sequence s :: t.map Piece.char) =
        sequencesOf ps' ++ [s] := by
      rw [sequencesOf_append]
      exact congrArg (fun ss => sequencesOf ps' ++ s :: ss) (sequencesOf_map_char t)
    have hthrough : Formatting.default.through (ps' ++ .sequence s :: t.map Piece.char) =
        Formatting.default.after s := by
      rw [Formatting.through_append, Formatting.through_painted hps, Formatting.through_cons,
        Formatting.through_chars hchars, Piece.text]
    have hopening : ∀ r : Row, r.reading = .text → r.formatting = .default →
        r.play s = { r with formatting := Formatting.default.after s } := by
      intro r hreading hformatting
      obtain ⟨n, ns, -, -, rfl⟩ := hs
      rw [Row.play_sequence (by simp) hreading, Formatting.after_sequence (by simp), hformatting]
    rw [hsequences, hthrough]
    rcases hps.sequencesOf_cases with hps | ⟨ss, hps⟩
    · rw [hps, List.nil_append, Repaint.inForce_single]
      simpa using hopening r hreading hformatting
    · have hlater : ∀ t ∈ [s], isFullReset t = false := by
        simpa using hs.isFullReset_eq
      rw [hps, List.append_assoc, List.singleton_append,
        Repaint.inForce_append_reset isFullReset_reset ss hlater, Repaint.inForce_single]
      simp only [List.flatten_cons, List.flatten_nil, List.append_nil, Row.play_append, hreset]
      exact hopening _ hreading rfl

end Terminal

end ReplCore
