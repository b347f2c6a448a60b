import ReplCore.Proofs.Brackets.Nested
import ReplCore.Proofs.Submission.Tracking

/-!
# Which properly nested texts can be cut

The lexer ends a substitution at the first closing brace in it, also at one that closes a brace. So
the cutter, unlike the scan of brackets, takes a pair of braces inside a substitution for a fault. It
accepts every other properly nested text.

* `exists_splitStatements_render_iff`: the properly nested texts that can be cut.
-/

namespace ReplCore

namespace Bracket

def opener : Bracket → Opener
  | round => .round
  | square => .square
  | curly => .curly

theorem opener_ne (b : Bracket) : b.opener ≠ .template ∧ b.opener ≠ .substitution := by
  cases b <;> decide

end Bracket

mutual

/-- Whether no pair of braces stands inside a substitution; `inside` tells whether the text does. -/
def Nested.isClean (inside : Bool) : Nested → Bool
  | .nil => true
  | .plain _ rest => rest.isClean inside
  | .bracket b inner rest =>
    !(b = .curly && inside) && inner.isClean inside && rest.isClean inside
  | .template contents rest => contents.isClean && rest.isClean inside

def NestedTemplate.isClean : NestedTemplate → Bool
  | .nil => true
  | .plain _ rest => rest.isClean
  | .substitution inner rest => inner.isClean true && rest.isClean

end

/-! ## Texts that close what is open -/

/-- The text closes everything that is open, innermost first. If it does not do so without closing a
brace inside a substitution, then `fine` is false and the text is like that up to this brace. -/
inductive Continues (fine : Bool) : List Opener → Text → Prop
  | done (isFine : fine = true) : Continues fine [] []
  | plain {st : List Opener} {x : Char} {v : Text} (isPlain : Lexer.isPlain x = true)
      (more : Continues fine st v) : Continues fine st (x :: v)
  | opens {st : List Opener} {v : Text} (b : Bracket) (outside : st.head? ≠ some .template)
      (more : Continues fine (b.opener :: st) v) : Continues fine st (b.opening :: v)
  | closes {st : List Opener} {v : Text} (b : Bracket)
      (isClean : b = .curly → .substitution ∉ st) (more : Continues fine st v) :
      Continues fine (b.opener :: st) (b.closing :: v)
  | clashes {st : List Opener} {v : Text} (isFine : fine = false) (inside : .substitution ∈ st) :
      Continues fine (.curly :: st) ('\x7d' :: v)
  | opensTemplate {st : List Opener} {v : Text} (outside : st.head? ≠ some .template)
      (more : Continues fine (.template :: st) v) : Continues fine st ('`' :: v)
  | closesTemplate {st : List Opener} {v : Text} (more : Continues fine st v) :
      Continues fine (.template :: st) ('`' :: v)
  | opensSubstitution {st : List Opener} {v : Text}
      (more : Continues fine (.substitution :: .template :: st) v) :
      Continues fine (.template :: st) ('$' :: '\x7b' :: v)
  | closesSubstitution {st : List Opener} {v : Text} (more : Continues fine st v) :
      Continues fine (.substitution :: st) ('\x7d' :: v)

mutual

/-- A properly nested text leaves what is open as it is, unless it closes a brace inside a
substitution. -/
theorem continues_render : ∀ (n : Nested) {inside fine : Bool} {st : List Opener} {v : Text},
    (inside = true ↔ .substitution ∈ st) → st.head? ≠ some .template → Continues fine st v →
      Continues (n.isClean inside && fine) st (n.render ++ v)
  | .nil, _, _, _, _, _, _, h => h
  | .plain x rest, _, _, _, _, hinside, hout, h => .plain x.2 (continues_render rest hinside hout h)
  | .bracket b inner rest, inside, fine, st, v, hinside, hout, h => by
    have hrest := continues_render rest hinside hout h
    -- Where the closing brace clashes, nothing is said about the text after it.
    have hclose : Continues (!(b = .curly && inside) && (rest.isClean inside && fine))
        (b.opener :: st) (b.closing :: (rest.render ++ v)) := by
      cases hclash : decide (b = .curly) && inside with
      | true =>
        rw [Bool.and_eq_true, decide_eq_true_eq] at hclash
        obtain ⟨rfl, rfl⟩ := hclash
        exact .clashes rfl (hinside.mp rfl)
      | false =>
        refine .closes b (fun hb hmem => ?_) (by simpa using hrest)
        simp [hb, hinside.mpr hmem] at hclash
    have hopened : inside = true ↔ .substitution ∈ b.opener :: st := by
      simp [hinside, b.opener_ne.2.symm]
    have hinner := continues_render inner hopened (by simp [b.opener_ne.1]) hclose
    have hopen := Continues.opens b hout hinner
    have hfine : (Nested.isClean inside (.bracket b inner rest) && fine) = (inner.isClean inside &&
        (!(b = .curly && inside) && (rest.isClean inside && fine))) := by
      rw [Nested.isClean, Bool.and_left_comm, ← Bool.and_assoc, ← Bool.and_assoc]
    rw [hfine]
    simpa [Nested.render] using hopen
  | .template contents rest, _, _, st, v, hinside, hout, h => by
    have hrest := continues_render rest hinside hout h
    have hcontents := continues_render_template contents (.closesTemplate hrest)
    have hopen := Continues.opensTemplate hout hcontents
    rw [Nested.isClean, Bool.and_assoc]
    simpa [Nested.render] using hopen

theorem continues_render_template : ∀ (contents : NestedTemplate) {fine : Bool} {st : List Opener}
    {v : Text}, Continues fine (.template :: st) v →
      Continues (contents.isClean && fine) (.template :: st) (contents.render ++ v)
  | .nil, _, _, _, h => h
  | .plain x rest, _, _, _, h => .plain x.2 (continues_render_template rest h)
  | .substitution inner rest, fine, st, v, h => by
    have hrest := continues_render_template rest h
    have hopened : true = true ↔ .substitution ∈ .substitution :: .template :: st := by simp
    have hinner := continues_render inner hopened (by simp) (.closesSubstitution hrest)
    have hopen := Continues.opensSubstitution hinner
    rw [NestedTemplate.isClean, Bool.and_assoc]
    simpa [NestedTemplate.render] using hopen

end

/-- Outside of template literals no other character than a sign changes what is open. -/
theorem Continues.of_append_outside {fine : Bool} {st : List Opener} {v : Text}
    (hout : st.head? ≠ some .template) : ∀ {t : Text}, (∀ y ∈ t, y ∉ Lexer.signs) →
      Continues fine st (t ++ v) → Continues fine st v
  | [], _, h => h
  | x :: t, ht, h => by
    have hx := ht x List.mem_cons_self
    refine of_append_outside hout (fun y hy => ht y (List.mem_cons_of_mem x hy)) ?_
    generalize hu : x :: t ++ v = u at h
    cases h with
    | done => cases hu
    | plain _ more =>
      cases hu
      exact more
    | opens b => exact absurd (by rw [(List.cons.inj hu).1]; cases b <;> decide) hx
    | closes b => exact absurd (by rw [(List.cons.inj hu).1]; cases b <;> decide) hx
    | clashes | opensTemplate | closesSubstitution =>
      exact absurd (by rw [(List.cons.inj hu).1]; decide) hx
    | closesTemplate | opensSubstitution => exact absurd rfl hout

/-- Directly inside a template literal neither does any other than a backtick or a dollar sign. -/
theorem Continues.of_append_inside {fine : Bool} {st : List Opener} {v : Text} :
    ∀ {t : Text}, (∀ y ∈ t, y ∉ "`$".toList) → Continues fine (.template :: st) (t ++ v) →
      Continues fine (.template :: st) v
  | [], _, h => h
  | x :: t, ht, h => by
    have hx := ht x List.mem_cons_self
    refine of_append_inside (fun y hy => ht y (List.mem_cons_of_mem x hy)) ?_
    generalize hu : x :: t ++ v = u at h
    generalize hst : Opener.template :: st = opened at h
    cases h with
    | done => cases hu
    | plain _ more =>
      cases hu
      exact more
    | opens b outside => exact absurd (by rw [← hst]; rfl) outside
    | closes b => exact absurd (List.cons.inj hst).1.symm b.opener_ne.1
    | clashes => cases hst
    | opensTemplate outside => exact absurd (by rw [← hst]; rfl) outside
    | closesTemplate => exact absurd (by rw [(List.cons.inj hu).1]; decide) hx
    | opensSubstitution => exact absurd (by rw [(List.cons.inj hu).1]; decide) hx
    | closesSubstitution => cases hst

/-! ## Lexemes that change nothing -/

/-- The lexeme opens and closes nothing. -/
structure Lexeme.IsNeutral (l : Lexeme) : Prop where
  not_backtick : TokenKind.ofLexeme l ≠ .backtick
  not_interpolation : TokenKind.ofLexeme l ≠ .interpolation
  not_bracket : ∀ b ∈ Opener.brackets, TokenKind.ofLexeme l ≠ .symbol b.2.1 ∧
    TokenKind.ofLexeme l ≠ .symbol b.2.2

/-- A symbol is named by its text. -/
theorem TokenKind.text_of_symbol {l : Lexeme} {t : Text} (h : ofLexeme l = .symbol t) :
    l.text = t := by
  unfold ofLexeme at h
  split at h
  · split at h <;> cases h
  split at h
  · cases h
  split at h
  · split at h <;> cases h
  split at h
  · cases h
  split at h
  · cases h
  split at h
  · cases h
  split at h
  · cases h
  split at h
  · split at h <;> cases h
  split at h
  · cases h
  · exact symbol.inj h

/-- Outside of template literals, a lexeme without signs is neutral. -/
theorem Lexeme.isNeutral_of_outside {l : Lexeme} (htype : l.type.marksEnclosure = false)
    (htext : ∀ y ∈ l.text, y ∉ Lexer.signs) : l.IsNeutral := by
  obtain ⟨hbacktick, hinterpolation⟩ := TokenKind.ofLexeme_of_not_marksEnclosure (t := l.text) htype
  refine ⟨hbacktick, hinterpolation, fun b hb => ?_⟩
  have hall : (Opener.brackets.all fun b =>
      b.2.1.any (· ∈ Lexer.signs) && b.2.2.any (· ∈ Lexer.signs)) = true := by decide
  have hsigns := List.all_eq_true.mp hall b hb
  simp only [Bool.and_eq_true, List.any_eq_true, decide_eq_true_eq] at hsigns
  obtain ⟨⟨y, hy, hsign⟩, z, hz, hsign'⟩ := hsigns
  constructor <;> intro hkind <;> rw [TokenKind.text_of_symbol hkind] at htext
  · exact htext y hy hsign
  · exact htext z hz hsign'

theorem Lexeme.isNeutral_of_inside {l : Lexeme} (htype : l.type = .stringBacktick ∨ l.type = .error)
    (htext : ∀ y ∈ l.text, y ∉ "`$".toList) : l.IsNeutral := by
  obtain ⟨type, t⟩ := l
  have hkind : TokenKind.ofLexeme ⟨type, t⟩ ∈
      [TokenKind.templateText, .error, .whitespace, .newline] := by
    rcases htype with rfl | rfl
    · have ht : t ≠ "`".toList := by
        rintro rfl
        exact htext '`' (by decide) (by decide)
      rcases TokenKind.ofLexeme_of_stringBacktick ht with h | h | h <;> simp [h]
    · rcases TokenKind.ofLexeme_of_error (t := t) with h | h | h <;> simp [h]
  simp only [List.mem_cons, List.not_mem_nil, or_false] at hkind
  rcases hkind with h | h | h | h <;> exact ⟨by simp [h], by simp [h], by simp [h]⟩

namespace Nesting

variable {st : List Opener} {l : Lexeme} {ls : List Lexeme}

theorem track_of_isNeutral (h : l.IsNeutral) (offset stop : Nat) :
    track st ⟨.ofLexeme l, l.text, offset, stop⟩ = .ok st := by
  obtain ⟨hbacktick, hinterpolation, hbracket⟩ := h
  have hopening : Opener.ofOpening? ⟨.ofLexeme l, l.text, offset, stop⟩ = none := by
    rw [Opener.ofOpening?, Option.map_eq_none_iff, List.find?_eq_none]
    intro b hb
    simpa using (hbracket b hb).1
  have hclosing : Opener.ofClosing? ⟨.ofLexeme l, l.text, offset, stop⟩ = none := by
    rw [Opener.ofClosing?, Option.map_eq_none_iff, List.find?_eq_none]
    intro b hb
    simpa using (hbracket b hb).2
  rw [track, hopening, hclosing]
  dsimp only
  split
  · contradiction
  · contradiction
  · rfl

theorem trackAll_of_isNeutral : ∀ {ls : List Lexeme}, (∀ l ∈ ls, l.IsNeutral) → ∀ offset,
    trackAll st (Token.place offset ls) = .ok st
  | [], _, _ => rfl
  | l :: ls, h, offset => by
    rw [Token.place, trackAll_cons, track_of_isNeutral (h l List.mem_cons_self)]
    exact trackAll_of_isNeutral (fun m hm => h m (List.mem_cons_of_mem l hm)) _

theorem trackAll_single (offset : Nat) : trackAll st (Token.place offset [l]) =
    track st ⟨.ofLexeme l, l.text, offset, offset + l.text.length⟩ := by
  rw [Token.place, Token.place, trackAll_cons]
  exact bind_pure _

end Nesting

/-! ## Reading a text that closes what is open -/

namespace Lexer

open Nesting Submission

variable {s : LexState} {c : Cursor} {r : Reading} {st : List Opener} {fine : Bool}

/-- Where the rules for what encloses the text are those of code, whatever reads a character first
there does so here, unless it ends a substitution. -/
theorem firstReads_rulesIn {enclosing : List Enclosure} {x : Char} {type : TokenType} {move : Move}
    (hout : enclosing.head? ≠ some .template)
    (hx : enclosing.head? = some .substitution → x ≠ '\x7d')
    (h : firstReads Grammar.code x type move = true) :
    firstReads (rulesIn enclosing) x type move = true := by
  unfold rulesIn
  split
  · exact absurd rfl hout
  · have hne : Grammar.substitutionEnd.canBegin x = false := by
      simpa [Grammar.substitutionEnd, LexRule.canBegin_ruleTo, Pattern.canBegin, Pattern.lit,
        Pattern.chars] using hx rfl
    simpa only [firstReads, List.find?_cons, hne] using h
  · exact h

/-- The rules of code read brackets and backticks one by one. -/
theorem firstReads_code : (∀ b : Bracket,
      firstReads Grammar.code b.opening .punctuation .expectOperand = true ∧
      firstReads Grammar.code b.closing .punctuation .stay = true) ∧
    firstReads Grammar.code '`' .stringBacktick (.enter .template) = true := by
  refine ⟨fun b => ?_, by decide +kernel⟩
  cases b <;> exact ⟨by decide +kernel, by decide +kernel⟩

/-- In a substitution a closing brace ends it, whatever it might close otherwise. -/
theorem firstReads_substitutionEnd (outer : List Enclosure) :
    firstReads (rulesIn (.substitution :: outer)) '\x7d' .stringInterpol .leave = true := rfl

/-- What one step does to what is open: it leads on to a text that closes what is open then, or it is
at fault. -/
def Proceeds (fine : Bool) (st : List Opener) (r : Reading) : Prop :=
  (∃ st', (∀ offset, trackAll st (Token.place offset r.lexemes) = .ok st') ∧
    Continues fine st' r.next.rest ∧ r.state.slash ≠ .unterminated) ∨
  fine = false ∧ ∀ offset, ∃ e, trackAll st (Token.place offset r.lexemes) = .error e

/-- A step at a plain character reads a piece of text that changes nothing. -/
theorem proceeds_plain {x : Char} {v : Text} (hs : s.Regular) (hcalm : s.slash ≠ .unterminated)
    (hsynced : Synced s.enclosing st) (hx : isPlain x = true) (hrest : c.rest = x :: v)
    (hc : Continues fine st (x :: v)) (h : step s c = some r) : Proceeds fine st r := by
  have htext := (from_of_step h).tiles.text_append
  rw [hrest] at htext
  rw [← htext] at hc
  by_cases hin : s.enclosing.head? = some .template
  · obtain ⟨hcalm', hlexemes⟩ := step_plain_inside hs hin hx hrest h
    obtain ⟨outer, rfl⟩ := List.head?_eq_some_iff.mp (hsynced.head?_template_iff.mpr hin)
    refine Or.inl ⟨_, trackAll_of_isNeutral fun l hl => ?_, hc.of_append_inside fun y hy => ?_,
      hcalm'⟩
    · exact Lexeme.isNeutral_of_inside (hlexemes l hl).1 (hlexemes l hl).2
    · obtain ⟨l, hl, hyl⟩ := List.mem_flatMap.mp hy
      exact (hlexemes l hl).2 y hyl
  · obtain ⟨hcalm', hlexemes⟩ := step_plain hs hcalm hin hx hrest h
    refine Or.inl ⟨st, trackAll_of_isNeutral fun l hl => ?_,
      hc.of_append_outside (fun hst => hin (hsynced.head?_template_iff.mp hst)) fun y hy => ?_,
      hcalm'⟩
    · exact Lexeme.isNeutral_of_outside (hlexemes l hl).1 (hlexemes l hl).2
    · obtain ⟨l, hl, hyl⟩ := List.mem_flatMap.mp hy
      exact (hlexemes l hl).2 y hyl

/-- A step at a sign reads it alone. -/
theorem proceeds_sign {x : Char} {v : Text} {type : TokenType} {move : Move} (hs : s.Regular)
    (hcalm : s.slash ≠ .unterminated) (hrest : c.rest = x :: v) (hx : x ∈ signs)
    (hfirst : firstReads (rulesIn s.enclosing) x type move = true) (h : step s c = some r)
    (htrack : (∃ st', Continues fine st' v ∧
        ∀ offset stop, track st ⟨.ofLexeme ⟨type, [x]⟩, [x], offset, stop⟩ = .ok st') ∨
      fine = false ∧
        ∀ offset stop, ∃ e, track st ⟨.ofLexeme ⟨type, [x]⟩, [x], offset, stop⟩ = .error e) :
    Proceeds fine st r := by
  have hall : (signs.all fun y =>
      y ≠ '/' && Grammar.operand.all fun rule => !rule.canBegin y) = true := by
    decide +kernel
  have hsign := List.all_eq_true.mp hall x hx
  rw [Bool.and_eq_true, decide_eq_true_eq] at hsign
  obtain ⟨hlexemes, hnext, hcalm'⟩ := step_sign hs hcalm hrest hsign.1 hsign.2 hfirst h
  rw [Proceeds, hlexemes, hnext]
  simp only [trackAll_single]
  exact htrack.imp (fun ⟨st', hmore, htrack⟩ => ⟨st', fun _ => htrack _ _, hmore, hcalm'⟩)
    (fun ⟨hfine, htrack⟩ => ⟨hfine, fun _ => htrack _ _⟩)

/-- Each character of a text that closes what is open is read as what it opens or closes. -/
theorem proceeds_of_step (hs : s.Regular) (hcalm : s.slash ≠ .unterminated)
    (hsynced : Synced s.enclosing st) (hc : Continues fine st c.rest) (h : step s c = some r) :
    Proceeds fine st r := by
  have hin := hsynced.head?_template_iff
  generalize hrest : c.rest = u at hc
  cases hc with
  | done =>
    have hlt := (from_of_step h).length_lt
    rw [hrest] at hlt
    exact absurd hlt (Nat.not_lt_zero _)
  | plain isPlain more => exact proceeds_plain hs hcalm hsynced isPlain hrest (.plain isPlain more) h
  | opens b outside more =>
    have hfirst := firstReads_rulesIn (fun h => outside (hin.mpr h))
      (fun _ => by cases b <;> decide) (firstReads_code.1 b).1
    refine proceeds_sign hs hcalm hrest ?_ hfirst h (Or.inl ⟨_, more, fun _ _ => ?_⟩)
    · cases b <;> decide
    · cases b <;> rfl
  | closes b isClean more =>
    have hout : s.enclosing.head? ≠ some .template := fun h =>
      b.opener_ne.1 (Option.some.inj (hin.mpr h))
    have hfirst := firstReads_rulesIn hout (fun hinside hclosing => ?_) (firstReads_code.1 b).2
    · refine proceeds_sign hs hcalm hrest ?_ hfirst h (Or.inl ⟨_, more, fun _ _ => ?_⟩)
      · cases b <;> decide
      · cases b <;> rfl
    · obtain rfl : b = .curly := by cases b <;> first | rfl | exact absurd hclosing (by decide)
      rw [← hsynced.head?_substitution_iff hout] at hinside
      exact isClean rfl (by simpa [Bracket.opener] using hinside)
  | clashes isFine inside =>
    have hout : s.enclosing.head? ≠ some .template := fun h => by cases hin.mpr h
    have hinside := (hsynced.head?_substitution_iff hout).mp (List.mem_cons_of_mem _ inside)
    obtain ⟨outer, henclosing⟩ := List.head?_eq_some_iff.mp hinside
    have hfirst := firstReads_substitutionEnd outer
    rw [← henclosing] at hfirst
    exact proceeds_sign hs hcalm hrest (by decide) hfirst h
      (Or.inr ⟨isFine, fun _ _ => ⟨_, rfl⟩⟩)
  | opensTemplate outside more =>
    have hfirst := firstReads_rulesIn (fun h => outside (hin.mpr h)) (fun _ => by decide)
      firstReads_code.2
    refine proceeds_sign hs hcalm hrest (by decide) hfirst h (Or.inl ⟨_, more, fun _ _ => ?_⟩)
    · exact if_neg outside
  | closesTemplate more =>
    obtain ⟨outer, henclosing⟩ := List.head?_eq_some_iff.mp (hin.mp rfl)
    have hfirst : firstReads (rulesIn (.template :: outer)) '`' .stringBacktick .leave = true := rfl
    rw [← henclosing] at hfirst
    exact proceeds_sign hs hcalm hrest (by decide) hfirst h (Or.inl ⟨_, more, fun _ _ => rfl⟩)
  | opensSubstitution more =>
    obtain ⟨hlexemes, hnext, hcalm'⟩ := step_substitution hs (hin.mp rfl) hrest h
    rw [Proceeds, hlexemes, hnext]
    exact Or.inl ⟨_, fun _ => rfl, more, hcalm'⟩
  | closesSubstitution more =>
    obtain ⟨outer, henclosing, -⟩ := hsynced.of_substitution
    have hfirst := firstReads_substitutionEnd outer
    rw [← henclosing] at hfirst
    exact proceeds_sign hs hcalm hrest (by decide) hfirst h (Or.inl ⟨_, more, fun _ _ => rfl⟩)

/-- The lexemes from a place on close everything just if no brace clashes. -/
theorem trackAll_run_iff : ∀ (bound : Text) {s : LexState} {c : Cursor} {st : List Opener}
    (offset : Nat), s.Regular → s.slash ≠ .unterminated → Synced s.enclosing st →
      Continues fine st c.rest → c.rest.length ≤ bound.length →
      (trackAll st (Token.place offset (run bound s c)) = .ok [] ↔ fine = true) := by
  have hend : ∀ {c : Cursor} {st : List Opener} {offset : Nat}, c.rest = [] →
      Continues fine st c.rest → (trackAll st (Token.place offset []) = .ok [] ↔ fine = true) := by
    intro c st offset hrest hc
    rw [hrest] at hc
    cases hc with
    | done isFine => simp [isFine, trackAll, Token.place, pure, Except.pure]
  -- By induction on a bound for the text that is left: every step takes some of it.
  intro bound
  induction bound with
  | nil =>
    intro s c st offset hs hcalm hsynced hc hlength
    exact hend (List.eq_nil_of_length_eq_zero (Nat.le_zero.mp hlength)) hc
  | cons x bound ih =>
    intro s c st offset hs hcalm hsynced hc hlength
    unfold run
    split
    · next hnone =>
      refine hend ?_ hc
      by_cases hrest : c.rest = []
      · exact hrest
      · exact absurd hnone (step_ne_none hrest)
    · next r hr =>
      have hencloses := encloses_of_stepsTo (stepsTo_of_step hs hr)
      have hlt := (from_of_step hr).length_lt
      rw [Token.place_append, trackAll_append]
      rcases proceeds_of_step hs hcalm hsynced hc hr with
        ⟨st', htrack, hmore, hcalm'⟩ | ⟨hfine, htrack⟩
      · rw [htrack]
        have hsynced' := hsynced.trackAll (hencloses.fold offset) (htrack offset)
        refine ih _ hencloses.regular hcalm' hsynced' hmore ?_
        rw [List.length_cons] at hlength
        omega
      · obtain ⟨e, he⟩ := htrack offset
        simp [he, hfine, bind, Except.bind]

end Lexer

namespace Submission

/-- A properly nested text can be cut into statements just if it has no pair of braces inside a
substitution. The scan of brackets finds every pair of it closed. -/
theorem exists_splitStatements_render_iff (n : Nested) :
    ((∃ groups, splitStatements (Token.tokenize n.render) = .ok groups) ↔
        n.isClean false = true) ∧
      ∀ mode, (Brackets.spans mode n.render).length = n.pairs := by
  refine ⟨?_, fun mode => Brackets.length_spans_render mode n⟩
  have hdone : Continues true [] [] := .done rfl
  have hrender : Continues (n.isClean false && true) [] (n.render ++ []) :=
    continues_render n (by simp) (by simp) hdone
  rw [List.append_nil, Bool.and_true] at hrender
  rw [exists_splitStatements_iff]
  exact Lexer.trackAll_run_iff n.render 0 (by simp [LexState.Regular, LexState.initial])
    (by decide) .nil hrender (Nat.le_refl _)

end Submission

end ReplCore
