import ReplCore.Proofs.Brackets.Spans
import ReplCore.Proofs.Line.Marks

/-!
# The matching bracket

A redraw underlines the bracket that matches the one under the cursor, and nothing else, unless the
start of the underline is taken back before the bracket.

* `render_emphasized`: which cells of a redrawn line are underlined.
-/

namespace ReplCore.Line

open Escape Terminal

/-! ## Emphasis as pieces -/

theorem sentinel_not_mem_text {ps : List Piece} (hps : ∀ p ∈ ps, p.IsWhole)
    (h : sentinel ∉ characters ps) : sentinel ∉ ps.flatMap Piece.text :=
  not_mem_flatMap_text hps (by decide) (by decide) h

/-- Some pieces with marks around those in the middle. -/
def markedPieces (ps inside qs : List Piece) : List Piece :=
  ps ++ .char sentinel :: (inside ++ .char sentinel :: qs)

/-- Some pieces with those in the middle emphasized. -/
def emphasizedPieces (ps inside qs : List Piece) : List Piece :=
  ps ++ .sequence (Style.sequence emphasis.codes) :: (inside ++ .sequence Style.reset ::
    ((Repaint.carried ((markedPieces ps inside []).flatMap Piece.text)).map Piece.sequence ++ qs))

/-- What is in force at the second mark, as it is set again after the emphasis. -/
def restored (ps inside : List Piece) : List Piece :=
  (Repaint.carried ((markedPieces ps inside []).flatMap Piece.text)).map Piece.sequence

theorem emphasizedPieces_eq (ps inside qs : List Piece) : emphasizedPieces ps inside qs =
    ps ++ .sequence (Style.sequence emphasis.codes) ::
      (inside ++ .sequence Style.reset :: (restored ps inside ++ qs)) := rfl

theorem mem_markedPieces {ps inside qs : List Piece} {p : Piece} :
    p ∈ markedPieces ps inside qs ↔ p ∈ ps ∨ p = .char sentinel ∨ p ∈ inside ∨ p ∈ qs := by
  simp only [markedPieces, List.mem_append, List.mem_cons]
  grind

/-- What all pieces have in common, those of each part have. -/
theorem forall_mem_parts {P : Piece → Prop} {ps inside qs : List Piece}
    (h : ∀ p ∈ markedPieces ps inside qs, P p) :
    (∀ p ∈ ps, P p) ∧ (∀ p ∈ inside, P p) ∧ ∀ p ∈ qs, P p :=
  ⟨fun p hp => h p (mem_markedPieces.mpr (by simp [hp])),
    fun p hp => h p (mem_markedPieces.mpr (by simp [hp])),
    fun p hp => h p (mem_markedPieces.mpr (by simp [hp]))⟩

theorem flatMap_text_map_sequence (ss : List Text) :
    (ss.map Piece.sequence).flatMap Piece.text = ss.flatten := by
  rw [List.flatMap_map]
  exact List.flatMap_id'

theorem characters_map_sequence (ss : List Text) : characters (ss.map Piece.sequence) = [] := by
  induction ss with
  | nil => rfl
  | cons s ss ih => exact ih

theorem characters_emphasizedPieces (ps inside qs : List Piece) :
    characters (emphasizedPieces ps inside qs) =
      characters ps ++ (characters inside ++ characters qs) := by
  rw [emphasizedPieces, characters_append]
  show characters ps ++ characters (inside ++ _) = _
  rw [characters_append]
  show characters ps ++ (characters inside ++ characters (_ ++ qs)) = _
  rw [characters_append, characters_map_sequence, List.nil_append]

theorem flatMap_text_markedPieces (ps inside qs : List Piece) :
    (markedPieces ps inside qs).flatMap Piece.text = ps.flatMap Piece.text ++
      sentinel :: (inside.flatMap Piece.text ++ sentinel :: qs.flatMap Piece.text) := by
  simp [markedPieces, Piece.text]

theorem emphasizeMarked_flatMap {ps inside qs : List Piece}
    (hps : sentinel ∉ ps.flatMap Piece.text) (hinside : sentinel ∉ inside.flatMap Piece.text)
    (hne : inside.flatMap Piece.text ≠ []) :
    emphasizeMarked ((markedPieces ps inside qs).flatMap Piece.text) =
      (emphasizedPieces ps inside qs).flatMap Piece.text := by
  have hcodes : emphasis.codes.isEmpty = false := by decide
  rw [flatMap_text_markedPieces, emphasizeMarked, marked?_eq_some hps hinside hne]
  simp [emphasizedPieces, flatMap_text_markedPieces, Style.render, hne, hcodes, Piece.text,
    flatMap_text_map_sequence]

section Pieces

variable {ps inside qs : List Piece}

/-- Nothing is set again that was not in force before. -/
theorem mem_of_mem_restored (h : ∀ p ∈ markedPieces ps inside qs, p.IsWhole) {p : Piece}
    (hp : p ∈ restored ps inside) : p ∈ markedPieces ps inside qs := by
  have hsubset : ∀ p ∈ markedPieces ps inside [], p ∈ markedPieces ps inside qs := by
    intro p hp
    rw [mem_markedPieces] at hp ⊢
    exact hp.imp_right (Or.imp_right (Or.imp_right nofun))
  obtain ⟨s, hs, rfl⟩ := List.mem_map.mp hp
  exact hsubset _ (Repaint.mem_of_mem_carried (fun p hp => h p (hsubset p hp)) s hs)

/-- Emphasizing adds nothing but sequences of styles. -/
theorem mem_emphasizedPieces (h : ∀ p ∈ markedPieces ps inside qs, p.IsWhole) {p : Piece}
    (hp : p ∈ emphasizedPieces ps inside qs) :
    p ∈ markedPieces ps inside qs ∨ ∃ s, IsStyling s ∧ p = .sequence s := by
  simp only [emphasizedPieces_eq, List.mem_append, List.mem_cons] at hp
  rcases hp with hp | rfl | hp | rfl | hp | hp
  · exact Or.inl (mem_markedPieces.mpr (by simp [hp]))
  · exact Or.inr ⟨_, ⟨emphasis.codes, by decide, by decide, rfl⟩, rfl⟩
  · exact Or.inl (mem_markedPieces.mpr (by simp [hp]))
  · exact Or.inr ⟨_, isStyling_reset, rfl⟩
  · exact Or.inl (mem_of_mem_restored h hp)
  · exact Or.inl (mem_markedPieces.mpr (by simp [hp]))

theorem isWhole_emphasizedPieces (h : ∀ p ∈ markedPieces ps inside qs, p.IsWhole) :
    ∀ p ∈ emphasizedPieces ps inside qs, p.IsWhole := by
  intro p hp
  rcases mem_emphasizedPieces h hp with hp | ⟨s, hs, rfl⟩
  · exact h p hp
  · exact hs

theorem isStyled_emphasizedPieces (h : ∀ p ∈ markedPieces ps inside qs, p.IsStyled) :
    ∀ p ∈ emphasizedPieces ps inside qs, p.IsStyled := by
  intro p hp
  rcases mem_emphasizedPieces (fun p hp => (h p hp).isWhole) hp with hp | ⟨s, hs, rfl⟩
  · exact h p hp
  · exact hs

/-- The emphasis is on what was between the marks, and after it comes what is set again. -/
theorem paint_emphasizedPieces (h : ∀ p ∈ markedPieces ps inside qs, p.IsStyled) (f : Formatting) :
    f.paint (emphasizedPieces ps inside qs) = f.paint ps ++
      (((f.through ps).after (Style.sequence emphasis.codes)).paint inside ++
        Formatting.default.paint (restored ps inside ++ qs)) := by
  obtain ⟨hps, hinside, -⟩ := forall_mem_parts h
  rw [emphasizedPieces_eq, Formatting.paint_append hps, Formatting.paint,
    Formatting.paint_append hinside, Formatting.paint, Formatting.after_reset]

/-- Only what is emphasized is underlined, and the underline ends there. -/
theorem exists_paint_emphasizedPieces (h : ∀ p ∈ markedPieces ps inside qs, p.IsStyled)
    (hplain : ∀ p ∈ markedPieces ps inside qs, IsPlain p) {c : Char}
    (hinside : characters inside = [c]) {f : Formatting} (hf : f.underlines = false) :
    ∃ (g : Formatting) (x : Cell) (after : List Cell), g.underlines = true ∧
      x ∈ (g.paint (inside ++ .char sentinel :: qs)).head? ∧
      f.paint (emphasizedPieces ps inside qs) = f.paint ps ++ x :: after ∧
      (∀ y ∈ f.paint ps, y.formatting.underlines = false) ∧
      (∀ y ∈ after, y.formatting.underlines = false) ∧
      (f.through (emphasizedPieces ps inside qs)).underlines = false := by
  obtain ⟨g, hg⟩ : ∃ g, g = (f.through ps).after (Style.sequence emphasis.codes) := ⟨_, rfl⟩
  obtain ⟨-, hinsideStyled, -⟩ := forall_mem_parts h
  obtain ⟨hplainBefore, -, hplainAfter⟩ := forall_mem_parts hplain
  have hplainRest : ∀ p ∈ restored ps inside ++ qs, IsPlain p := by
    intro p hp
    rcases List.mem_append.mp hp with hp | hp
    · exact hplain p (mem_of_mem_restored (fun p hp => (h p hp).isWhole) hp)
    · exact hplainAfter p hp
  obtain ⟨x, hx⟩ := Formatting.exists_paint_eq_singleton hinside g
  refine ⟨g, x, Formatting.default.paint (restored ps inside ++ qs), ?_, ?_, ?_, ?_, ?_, ?_⟩
  · rw [hg, Formatting.after_sequence (by decide), Formatting.underlines_select_codes]
    rfl
  · rw [Formatting.paint_append hinsideStyled, hx]
    rfl
  · rw [paint_emphasizedPieces h, ← hg, hx]
    rfl
  · exact Formatting.underlines_paint hplainBefore hf
  · exact Formatting.underlines_paint hplainRest rfl
  · rw [emphasizedPieces_eq, Formatting.through_append, Formatting.through_cons,
      Formatting.through_append, Formatting.through_cons]
    exact Formatting.underlines_through hplainRest (Formatting.underlines_after_reset _)

end Pieces

/-! ## What is written -/

section Writing

variable (sheet : Sheet) {t : Text} {q : Nat}

/-- The pieces of a marked line, cut at its two marks. -/
theorem exists_markedPieces (styles : StyleSheet) (hq : q < t.length) : ∃ ps inside qs,
    highlightedPieces styles (mark t q) = markedPieces ps inside qs ∧
      characters ps = t.take q ∧ characters inside = [t[q]] ∧ characters qs = t.drop (q + 1) := by
  obtain ⟨ps, rest, hpieces, hps, hrest⟩ :=
    exists_append_char ((characters_highlightedPieces styles _).trans (mark_eq hq))
  obtain ⟨inside, qs, rfl, hinside, hqs⟩ := exists_append_char (t := [t[q]]) hrest
  exact ⟨ps, inside, qs, hpieces, hps, hinside, hqs⟩

/-- The marks are the only ones, and there is something between them. -/
theorem sentinel_not_mem_parts (hq : q < t.length) (hline : sentinel ∉ t)
    {ps inside qs : List Piece} (h : ∀ p ∈ markedPieces ps inside qs, p.IsWhole)
    (hps : characters ps = t.take q) (hinside : characters inside = [t[q]])
    (hqs : characters qs = t.drop (q + 1)) :
    sentinel ∉ ps.flatMap Piece.text ∧ sentinel ∉ inside.flatMap Piece.text ∧
      sentinel ∉ qs.flatMap Piece.text ∧ inside.flatMap Piece.text ≠ [] := by
  obtain ⟨hpsWhole, hinsideWhole, hqsWhole⟩ := forall_mem_parts h
  refine ⟨?_, ?_, ?_, fun hnil => ?_⟩
  · refine sentinel_not_mem_text hpsWhole ?_
    rw [hps]
    exact fun hmem => hline (List.mem_of_mem_take hmem)
  · refine sentinel_not_mem_text hinsideWhole ?_
    rw [hinside, List.mem_singleton]
    exact fun hmem => hline (hmem ▸ List.getElem_mem hq)
  · refine sentinel_not_mem_text hqsWhole ?_
    rw [hqs]
    exact fun hmem => hline (List.mem_of_mem_drop hmem)
  · have hstrip := strip_flatMap hinsideWhole
    rw [hnil, hinside] at hstrip
    cases hstrip

/-- What is written for a line are the pieces of the marked line with the stretch between the marks
emphasized. -/
theorem renderFullLine_eq (hq : q < t.length) (hline : sentinel ∉ t)
    {ps inside qs : List Piece}
    (h : ∀ p ∈ markedPieces ps inside qs, p.IsWhole)
    (hpieces : highlightedPieces (.ofSheet sheet) (mark t q) = markedPieces ps inside qs)
    (hps : characters ps = t.take q) (hinside : characters inside = [t[q]])
    (hqs : characters qs = t.drop (q + 1)) :
    characters (emphasizedPieces ps inside qs) = t ∧
      renderFullLine (.ofSheet sheet) (some q) t =
        (emphasizedPieces ps inside qs).flatMap Piece.text := by
  have hcharacters : characters (emphasizedPieces ps inside qs) = t := by
    rw [characters_emphasizedPieces, hps, hinside, hqs, List.singleton_append,
      ← List.drop_eq_getElem_cons hq, List.take_append_drop]
  obtain ⟨hpsText, hinsideText, -, hne⟩ := sentinel_not_mem_parts hq hline h hps hinside hqs
  refine ⟨hcharacters, ?_⟩
  rw [renderFullLine, if_neg (Nat.not_le.mpr hq), ← flatMap_text_highlightedPieces, hpieces,
    emphasizeMarked_flatMap hpsText hinsideText hne]
  refine List.filter_eq_self.mpr fun c hc => ?_
  have hout := sentinel_not_mem_text (isWhole_emphasizedPieces h) (hcharacters.symm ▸ hline)
  exact decide_eq_true (ne_of_mem_of_not_mem hc hout)

/-- The line is written after what a row shows, and of it at most the character to be emphasized is
underlined. -/
theorem play_renderFullLine (hstyles : NeverUnderlines (.ofSheet sheet)) (hq : q < t.length)
    (hcontrol : ∀ c ∈ t, isControl c = false) (hline : sentinel ∉ t) {row : Row}
    (hreading : row.reading = .text) (hcursor : row.cursor = row.cells.length)
    (hformatting : row.formatting.underlines = false) :
    ∃ before x after f, row.play (renderFullLine (.ofSheet sheet) (some q) t) =
        ⟨row.cells ++ (before ++ x :: after), row.cells.length + t.length, f, .text⟩ ∧
      (before ++ x :: after).map Cell.char = t ∧ before.length = q ∧
      (∀ y ∈ before, y.formatting.underlines = false) ∧
      x.formatting.underlines = !isCutOff (.ofSheet sheet) t q ∧
      (∀ y ∈ after, y.formatting.underlines = false) ∧ f.underlines = false := by
  obtain ⟨ps, rest, hpieces, hps, hrest, hhead⟩ :=
    exists_highlightedPieces_mark (.ofSheet sheet) hstyles hq hcontrol hline
  obtain ⟨inside, qs, rfl, hinside, hqs⟩ :=
    exists_append_char (t := [t[q]]) hrest
  replace hpieces : highlightedPieces (.ofSheet sheet) (mark t q) = markedPieces ps inside qs :=
    hpieces
  have hmarked := isControl_mark hq hcontrol
  have hstyled : ∀ p ∈ markedPieces ps inside qs, p.IsStyled :=
    hpieces ▸ (painted_highlightedPieces sheet hmarked).isStyled
  have hplain : ∀ p ∈ markedPieces ps inside qs, IsPlain p := by
    rw [← hpieces]
    exact isPlain_of_mem_flatMap hstyles (by rwa [Lexer.flatMap_text_lex])
  obtain ⟨hcharacters, hwritten⟩ :=
    renderFullLine_eq sheet hq hline (fun p hp => (hstyled p hp).isWhole) hpieces hps hinside hqs
  obtain ⟨g, x, after, hg, hx, hpaint, hbefore, hafter, hend⟩ :=
    exists_paint_emphasizedPieces hstyled hplain hinside hformatting
  have hchars := Formatting.map_char_paint (emphasizedPieces ps inside qs) row.formatting
  rw [hcharacters] at hchars
  have hrow : row = ⟨row.cells ++ [], row.cells.length, row.formatting, .text⟩ := by
    rw [List.append_nil, ← hcursor, ← hreading]
  have hplay := play_flatMap_text (isStyled_emphasizedPieces hstyled) row.formatting row.cells []
  have hlength : (row.formatting.paint (emphasizedPieces ps inside qs)).length = t.length := by
    rw [← List.length_map Cell.char, hchars]
  rw [← hrow, ← hwritten, List.drop_nil, List.append_nil, hlength, hpaint] at hplay
  refine ⟨row.formatting.paint ps, x, after, _, hplay, ?_, ?_, hbefore, hhead g hg x hx, hafter,
    hend⟩
  · rw [← hpaint, hchars]
  · have hlength := congrArg List.length (Formatting.map_char_paint ps row.formatting)
    rw [hps, List.length_map, List.length_take_of_le (Nat.le_of_lt hq)] at hlength
    exact hlength

end Writing

/-! ## Redrawing a line -/

section Redrawing

variable {r : Renderer} {line prompt : Text} {cursor : Int} {q : Nat}

theorem render_startRefreshing {styles : StyleSheet} (hstyles : r.styles = some styles)
    (hemphasizes : r.emphasizes = true) (hbefore : r.lineBefore = some [] → prompt ≠ [])
    (hon : isOnBracket line cursor = true) (hmatching : Brackets.matching? line cursor = some q) :
    ((r.startRefreshing line cursor).render ⟨prompt ++ line, line, prompt⟩).1 =
      prompt ++ renderFullLine styles (some q) line := by
  obtain ⟨c, hc, hbracket⟩ := List.any_eq_true.mp hon
  have hmem : c ∈ line := List.mem_of_mem_take (List.mem_of_mem_drop hc)
  have hblank : (prompt ++ line).all CharClass.isBlank = false := by
    have hcharacters : (PairKind.characters.all fun c => !CharClass.isBlank c) = true := by decide
    refine List.all_eq_false.mpr ⟨c, List.mem_append_right _ hmem, ?_⟩
    simpa using List.all_eq_true.mp hcharacters c (of_decide_eq_true hbracket)
  have hne : prompt ++ line ≠ [] := List.ne_nil_of_mem (List.mem_append_right _ hmem)
  have happended : (r.lineBefore.any fun before =>
      decide (before ++ (prompt ++ line) = line)) = false := by
    cases hline : r.lineBefore with
    | none => rfl
    | some before =>
      refine decide_eq_false fun heq => ?_
      rw [← List.append_assoc, List.append_left_eq_self, List.append_eq_nil_iff] at heq
      exact hbefore (hline.trans (congrArg some heq.1)) heq.2
  have hkind : classify (prompt ++ line) line prompt r.lineBefore true = .fullLine := by
    simp [classify, hblank, happended]
  simp [Renderer.render, Renderer.startRefreshing, Renderer.initialized, hne, hstyles, hemphasizes,
    hon, hmatching, hkind]

/-- When a line with the cursor on a bracket is redrawn after the prompt, the terminal shows the
line, and the matching bracket is underlined unless the start of the underline is taken back before
it. No other cell is underlined, and the terminal is left without underline. -/
theorem render_emphasized (sheet : Sheet) {start row : Row}
    (hstyles : r.styles = some (.ofSheet sheet)) (hsheet : NeverUnderlines (.ofSheet sheet))
    (hemphasizes : r.emphasizes = true) (hbefore : r.lineBefore = some [] → prompt ≠ [])
    (hcontrol : ∀ c ∈ line, isControl c = false) (hline : sentinel ∉ line)
    (hon : isOnBracket line cursor = true) (hmatching : Brackets.matching? line cursor = some q)
    (hprompt : start.play prompt = row) (hreading : row.reading = .text)
    (hcursor : row.cursor = row.cells.length)
    (hcells : ∀ x ∈ row.cells, x.formatting.underlines = false)
    (hformatting : row.formatting.underlines = false) :
    let shown := start.play
      ((r.startRefreshing line cursor).render ⟨prompt ++ line, line, prompt⟩).1
    shown.text = row.text ++ line ∧
      (∀ i, shown.isUnderlined i = true ↔
        i = row.cells.length + q ∧ isCutOff (.ofSheet sheet) line q = false) ∧
      shown.formatting.underlines = false := by
  intro shown
  obtain ⟨before, x, after, f, hplay, hchars, hlength, hplainBefore, hx, hplainAfter, hf⟩ :=
    play_renderFullLine sheet hsheet (Brackets.lt_length_of_matching? hmatching) hcontrol hline
      hreading hcursor hformatting
  have hshown : shown = ⟨row.cells ++ (before ++ x :: after), row.cells.length + line.length, f,
      .text⟩ := by
    rw [← hplay, ← hprompt, ← Row.play_append,
      ← render_startRefreshing hstyles hemphasizes hbefore hon hmatching]
  have hplainBefore' : ∀ y ∈ row.cells ++ before, y.formatting.underlines = false :=
    List.forall_mem_append.mpr ⟨hcells, hplainBefore⟩
  rw [hshown]
  refine ⟨?_, fun i => ?_, hf⟩
  · rw [Row.text, List.map_append, hchars]
    rfl
  · rw [Row.isUnderlined, ← List.append_assoc,
      any_underlines_append_cons hplainBefore' hplainAfter, List.length_append, hlength, hx,
      Bool.not_eq_true']

/-- The backtick that closes an empty template is not underlined. -/
theorem render_emphasized_template :
    let line := "``".toList
    let prompt := "> ".toList
    let r := Renderer.fresh (some (.ofSheet Sheet.default)) true
    let shown := Row.blank.play
      ((r.startRefreshing line 0).render ⟨prompt ++ line, line, prompt⟩).1
    Brackets.matching? line 0 = some 1 ∧ shown.text = "> ``".toList ∧
      ∀ i, shown.isUnderlined i = false := by
  intro line prompt r shown
  have hstyles : r.styles = some (.ofSheet Sheet.default) := rfl
  have hsheet : NeverUnderlines (.ofSheet Sheet.default) :=
    neverUnderlines_of_styles (by decide +kernel)
  have hcontrol : ∀ c ∈ line, isControl c = false := by simp [line, isControl]
  have hline : sentinel ∉ line := by decide +kernel
  have hon : isOnBracket line 0 = true := by decide
  have hmatching : Brackets.matching? line 0 = some 1 := by decide +kernel
  have hprompt : Row.blank.play prompt =
      ⟨[⟨'>', .default⟩, ⟨' ', .default⟩], 2, .default, .text⟩ := by decide
  have hcut : isCutOff (.ofSheet Sheet.default) line 1 = true := by decide +kernel
  obtain ⟨htext, hunderlined, -⟩ := render_emphasized Sheet.default hstyles hsheet rfl nofun
    hcontrol hline hon hmatching hprompt rfl rfl (by decide) (by decide)
  refine ⟨hmatching, htext, fun i => ?_⟩
  rw [Bool.eq_false_iff, Ne, hunderlined, hcut]
  exact fun h => Bool.noConfusion h.2

end Redrawing

end ReplCore.Line
