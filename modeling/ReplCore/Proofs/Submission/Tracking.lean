import ReplCore.Proofs.Code.Enclosures
import ReplCore.Proofs.Submission.Lossless

/-!
# Nesting is tracked twice

The cutter tracks brackets, template literals and substitutions, and the reader of shell commands
tracks the last two alone. Both agree with what the lexer remembers: without the brackets, what is
open is what encloses the text. So a statement that the cutter returns, in which nothing is left
open, can always be read.

* `exists_splitStatements_iff`: a submission can be cut just if everything open is closed.
* `Synced.track`: what is open stays in step with what encloses the text.
* `foldlM_of_cut`: a state in step with what is open can follow each statement by itself.
* `exists_readStatement`: every statement that was cut can be read.
-/

namespace ReplCore

/-! ## Single tokens -/

namespace Token

variable {enclosing enclosing' : List Enclosure} {t : Token}

/-- Other tokens than backticks and interpolations leave what encloses the text as it is. -/
theorem enclose_of_kind (hbacktick : t.kind ≠ .backtick) (hinterpolation : t.kind ≠ .interpolation)
    (h : enclose enclosing t = some enclosing') : enclosing' = enclosing := by
  unfold enclose at h
  split at h
  · contradiction
  · contradiction
  · exact (Option.some.inj h).symm
  · exact (Option.some.inj h).symm
  · exact (Option.some.inj h).symm
  · exact (Option.some.inj h).symm
  · split at h
    · cases h
    · exact (Option.some.inj h).symm

theorem enclose_of_separates (ht : t.separates = true)
    (h : enclose enclosing t = some enclosing') : enclosing' = enclosing := by
  refine enclose_of_kind ?_ ?_ h <;> intro hkind <;>
    simp [separates, isIgnored, isSymbol, hkind] at ht

end Token

/-- A state that can follow several tokens can follow the first and then the others. -/
theorem exists_foldlM_cons {σ : Type} {next : σ → Token → Option σ} {x : σ} {t : Token}
    {ts : List Token} (h : ((t :: ts).foldlM next x).isSome = true) :
    ∃ y, next x t = some y ∧ (ts.foldlM next y).isSome = true := by
  rw [List.foldlM_cons] at h
  obtain ⟨last, hlast⟩ := Option.isSome_iff_exists.mp h
  obtain ⟨y, hy, hmore⟩ := Option.bind_eq_some_iff.mp hlast
  exact ⟨y, hy, Option.isSome_iff_exists.mpr ⟨last, hmore⟩⟩

namespace Nesting

/-- What is open after several tokens, innermost first. -/
def trackAll (opened : List Opener) (ts : List Token) : Except Error (List Opener) :=
  ts.foldlM track opened

theorem trackAll_cons {opened : List Opener} {t : Token} {ts : List Token} :
    trackAll opened (t :: ts) = track opened t >>= fun o => trackAll o ts := List.foldlM_cons

theorem trackAll_append {opened : List Opener} {ts us : List Token} :
    trackAll opened (ts ++ us) = trackAll opened ts >>= fun o => trackAll o us :=
  List.foldlM_append

/-- A token of a kind that is no symbol is no bracket. -/
theorem bracket_of_kind {t : Token} (h : ∀ s, t.kind ≠ .symbol s) :
    Opener.ofOpening? t = none ∧ Opener.ofClosing? t = none := by
  constructor <;> simp [Opener.ofOpening?, Opener.ofClosing?, Opener.brackets, h]

theorem track_of_isIgnored {opened : List Opener} {t : Token} (h : t.isIgnored = true) :
    track opened t = .ok opened := by
  simp only [Token.isIgnored, Bool.or_eq_true, decide_eq_true_eq] at h
  rcases h with (h | h) | h
  all_goals
    obtain ⟨hopening, hclosing⟩ := bracket_of_kind (t := t) (by simp [h])
    simp [track, hopening, hclosing, h]

theorem track_of_isSemicolon {opened : List Opener} {t : Token} (h : t.isSymbol ";" = true) :
    track opened t = .ok opened := by
  simp only [Token.isSymbol, decide_eq_true_eq] at h
  simp [track, Opener.ofOpening?, Opener.ofClosing?, Opener.brackets, h]

/-- What a token can open and close. -/
inductive Tracks (opened : List Opener) (t : Token) : List Opener → Prop
  | opens {b : Opener × Text × Text} (isBracket : b ∈ Opener.brackets)
      (kind : t.kind = .symbol b.2.1) : Tracks opened t (b.1 :: opened)
  | closes {b : Opener × Text × Text} {rest : List Opener} (isBracket : b ∈ Opener.brackets)
      (kind : t.kind = .symbol b.2.2) (here : opened = b.1 :: rest) : Tracks opened t rest
  | opensTemplate (kind : t.kind = .backtick) (outside : opened.head? ≠ some .template) :
      Tracks opened t (.template :: opened)
  | closesTemplate {rest : List Opener} (kind : t.kind = .backtick)
      (here : opened = .template :: rest) : Tracks opened t rest
  | opensSubstitution (kind : t.kind = .interpolation) (starts : startsSubstitution t = true) :
      Tracks opened t (.substitution :: opened)
  | closesSubstitution {rest : List Opener} (kind : t.kind = .interpolation)
      (ends : ¬ startsSubstitution t = true) (here : opened = .substitution :: rest) :
      Tracks opened t rest
  | other (notBacktick : t.kind ≠ .backtick) (notInterpolation : t.kind ≠ .interpolation) :
      Tracks opened t opened

theorem tracks_of_track {opened opened' : List Opener} {t : Token}
    (h : track opened t = .ok opened') : Tracks opened t opened' := by
  have hpop : ∀ {o : Opener} {e : Error},
      (if opened.head? = some o then .ok opened.tail else .error e) = Except.ok opened' →
        opened = o :: opened' := by
    intro o e h
    split at h
    · next hhead =>
      obtain ⟨rest, rfl⟩ := List.head?_eq_some_iff.mp hhead
      rw [← Except.ok.inj h, List.tail_cons]
    · cases h
  unfold track at h
  split at h
  · next ho =>
    obtain ⟨b, hb, rfl⟩ := Option.map_eq_some_iff.mp ho
    rw [← Except.ok.inj h]
    exact .opens (List.mem_of_find?_eq_some hb) (by simpa using List.find?_some hb)
  split at h
  · next ho =>
    obtain ⟨b, hb, rfl⟩ := Option.map_eq_some_iff.mp ho
    exact .closes (List.mem_of_find?_eq_some hb) (by simpa using List.find?_some hb) (hpop h)
  split at h
  · next hkind =>
    split at h
    · next hhead =>
      obtain ⟨rest, rfl⟩ := List.head?_eq_some_iff.mp hhead
      exact .closesTemplate hkind (by rw [← Except.ok.inj h, List.tail_cons])
    · next hhead =>
      rw [← Except.ok.inj h]
      exact .opensTemplate hkind hhead
  · next hkind =>
    split at h
    · next hstarts =>
      rw [← Except.ok.inj h]
      exact .opensSubstitution hkind hstarts
    · next hends => exact .closesSubstitution hkind hends (hpop h)
  · next hbacktick hinterpolation =>
    rw [← Except.ok.inj h]
    exact .other hbacktick hinterpolation

end Nesting

namespace Submission

open Nesting

theorem exists_cut_iff : ∀ {ts : List Token} {s : Cutting},
    (∃ groups, cut s ts = .ok groups) ↔ trackAll s.opened ts = .ok []
  | [], s => by
    unfold cut
    cases s.opened with
    | nil => simp [trackAll, pure, Except.pure]
    | cons o opened => simp [trackAll, pure, Except.pure]
  | t :: ts, s => by
    have hmap : ∀ {s' : Cutting} {f : List (List Token) → List (List Token)},
        (∃ groups, (cut s' ts).map f = .ok groups) ↔ trackAll s'.opened ts = .ok [] := by
      intro s' f
      rw [← exists_cut_iff]
      cases cut s' ts <;> simp [Except.map]
    rw [trackAll_cons]
    unfold cut
    dsimp only
    by_cases hnewline : t.kind = .newline ∧ s.opened = []
    · rw [if_pos hnewline, track_of_isIgnored (Token.isIgnored_of_newline hnewline.1)]
      exact exists_cut_iff
    rw [if_neg hnewline]
    by_cases hignored : t.isIgnored = true
    · rw [if_pos hignored, track_of_isIgnored hignored]
      exact exists_cut_iff
    rw [if_neg hignored]
    by_cases hsemicolon : t.isSymbol ";" = true ∧ s.opened = []
    · rw [if_pos hsemicolon, track_of_isSemicolon hsemicolon.1, hsemicolon.2]
      exact hmap
    rw [if_neg hsemicolon]
    cases htrack : track s.opened t with
    | error e => simp [bind, Except.bind]
    | ok opened => exact hmap

/-- A submission can be cut into statements just if everything that its tokens open is closed. -/
theorem exists_splitStatements_iff {ts : List Token} :
    (∃ groups, splitStatements ts = .ok groups) ↔ trackAll [] ts = .ok [] := exists_cut_iff

end Submission

/-! ## Open brackets and enclosures -/

/-- What encloses the text is what is open, without brackets; and no bracket is open directly inside
a template literal. -/
inductive Synced : List Enclosure → List Opener → Prop
  | nil : Synced [] []
  | bracket {enclosing : List Enclosure} {opened : List Opener} {o : Opener}
      (isBracket : o ∈ Opener.brackets.map Prod.fst) (outside : enclosing.head? ≠ some .template)
      (more : Synced enclosing opened) : Synced enclosing (o :: opened)
  | template {enclosing : List Enclosure} {opened : List Opener}
      (outside : enclosing.head? ≠ some .template) (more : Synced enclosing opened) :
      Synced (.template :: enclosing) (.template :: opened)
  | substitution {enclosing : List Enclosure} {opened : List Opener}
      (inside : enclosing.head? = some .template) (more : Synced enclosing opened) :
      Synced (.substitution :: enclosing) (.substitution :: opened)

namespace Opener

/-- The opener of an enclosure. -/
def ofEnclosure : Enclosure → Opener
  | .template => .template
  | .substitution => .substitution

theorem not_mem_brackets : Opener.template ∉ brackets.map Prod.fst ∧
    Opener.substitution ∉ brackets.map Prod.fst := by decide

end Opener

namespace Synced

open Nesting

variable {enclosing enclosing' : List Enclosure} {opened opened' : List Opener} {t : Token}

/-- A template literal is directly around just if it was opened last. -/
theorem head?_template_iff (h : Synced enclosing opened) :
    opened.head? = some .template ↔ enclosing.head? = some .template := by
  cases h with
  | nil => simp
  | @bracket _ _ o isBracket outside =>
    refine ⟨fun h => ?_, fun h => absurd h outside⟩
    rw [Option.some.inj h] at isBracket
    exact absurd isBracket Opener.not_mem_brackets.1
  | template => simp
  | substitution => simp

theorem substitution_mem_iff (h : Synced enclosing opened) :
    .substitution ∈ opened ↔ .substitution ∈ enclosing := by
  induction h with
  | nil => simp
  | @bracket _ _ o isBracket _ _ ih =>
    have hne : Opener.substitution ≠ o := by
      rintro rfl
      exact Opener.not_mem_brackets.2 isBracket
    rw [List.mem_cons, or_iff_right hne, ih]
  | template _ _ ih => simp [ih]
  | substitution => simp

/-- Outside of template literals, a substitution is around just if one is open. -/
theorem head?_substitution_iff (h : Synced enclosing opened)
    (hout : enclosing.head? ≠ some .template) :
    .substitution ∈ opened ↔ enclosing.head? = some .substitution := by
  rw [h.substitution_mem_iff]
  match enclosing, hout with
  | [], _ => simp
  | .template :: _, hout => exact absurd rfl hout
  | .substitution :: _, _ => simp

theorem eq_nil (h : Synced enclosing []) : enclosing = [] := by
  cases h
  rfl

/-- The innermost opener, if it is a bracket, may be closed. -/
theorem of_bracket {o : Opener} (h : Synced enclosing (o :: opened))
    (ho : o ∈ Opener.brackets.map Prod.fst) : Synced enclosing opened := by
  cases h with
  | bracket _ _ more => exact more
  | template => exact absurd ho Opener.not_mem_brackets.1
  | substitution => exact absurd ho Opener.not_mem_brackets.2

theorem of_template (h : Synced (.template :: enclosing) (.template :: opened)) :
    Synced enclosing opened := by
  cases h with
  | bracket isBracket => exact absurd isBracket Opener.not_mem_brackets.1
  | template _ more => exact more

theorem of_substitution (h : Synced enclosing (.substitution :: opened)) :
    ∃ outer, enclosing = .substitution :: outer ∧ Synced outer opened := by
  cases h with
  | bracket isBracket => exact absurd isBracket Opener.not_mem_brackets.2
  | substitution _ more => exact ⟨_, rfl, more⟩

/-- What is open stays in step with what encloses the text. -/
theorem track (h : Synced enclosing opened) (hnext : Token.enclose enclosing t = some enclosing')
    (htrack : Nesting.track opened t = .ok opened') : Synced enclosing' opened' := by
  have hsymbol : ∀ {s}, t.kind = .symbol s →
      enclosing.head? ≠ some .template ∧ enclosing' = enclosing := by
    intro s hkind
    simp only [Token.enclose, hkind] at hnext
    split at hnext
    · cases hnext
    · next hout => exact ⟨hout, (Option.some.inj hnext).symm⟩
  cases tracks_of_track htrack with
  | opens isBracket kind =>
    obtain ⟨hout, rfl⟩ := hsymbol kind
    exact .bracket (List.mem_map_of_mem isBracket) hout h
  | closes isBracket kind here =>
    obtain ⟨-, rfl⟩ := hsymbol kind
    rw [here] at h
    exact h.of_bracket (List.mem_map_of_mem isBracket)
  | opensTemplate kind outside =>
    rw [ne_eq, h.head?_template_iff] at outside
    simp only [Token.enclose, kind, outside, if_false, Option.some.injEq] at hnext
    rw [← hnext]
    exact .template outside h
  | closesTemplate kind here =>
    rw [here] at h
    have hin := h.head?_template_iff.mp rfl
    simp only [Token.enclose, kind, hin, if_true, Option.some.injEq] at hnext
    obtain ⟨outer, rfl⟩ := List.head?_eq_some_iff.mp hin
    rw [← hnext]
    exact h.of_template
  | opensSubstitution kind starts =>
    simp only [Token.enclose, kind, starts, if_true] at hnext
    split at hnext
    · next hin =>
      rw [← Option.some.inj hnext]
      exact .substitution hin h
    · cases hnext
  | closesSubstitution kind ends here =>
    rw [here] at h
    obtain ⟨outer, rfl, hmore⟩ := h.of_substitution
    simp only [Token.enclose, kind, ends, if_false, List.head?_cons, if_true, List.tail_cons,
      Option.some.injEq, Bool.false_eq_true] at hnext
    rw [← hnext]
    exact hmore
  | other notBacktick notInterpolation =>
    rw [Token.enclose_of_kind notBacktick notInterpolation hnext]
    exact h

/-- The same over several tokens. -/
theorem trackAll {ts : List Token} : ∀ {enclosing : List Enclosure} {opened : List Opener},
    Synced enclosing opened → ts.foldlM Token.enclose enclosing = some enclosing' →
      Nesting.trackAll opened ts = .ok opened' → Synced enclosing' opened' := by
  induction ts with
  | nil =>
    intro enclosing opened h hnext htrack
    rw [← Option.some.inj hnext, ← Except.ok.inj htrack]
    exact h
  | cons t ts ih =>
    intro enclosing opened h hnext htrack
    rw [List.foldlM_cons] at hnext
    rw [trackAll_cons] at htrack
    obtain ⟨e, he, hnext⟩ := Option.bind_eq_some_iff.mp hnext
    obtain ⟨o, ho, htrack⟩ := exists_of_bind_eq_ok htrack
    exact ih (h.track he ho) hnext htrack

end Synced

/-! ## Statements that were cut -/

namespace Submission

open Nesting

/-- The tokens enclose one another, and nothing encloses them all. -/
def Enclosed (ts : List Token) : Prop := (ts.foldlM Token.enclose []).isSome = true

theorem forall_flush {P : List Token → Prop} {current : List Token} {rest : List (List Token)}
    (hcurrent : P current) (hrest : ∀ g ∈ rest, P g) : ∀ g ∈ flush current rest, P g := by
  unfold flush
  split
  · exact hrest
  · exact List.forall_mem_cons.mpr ⟨hcurrent, hrest⟩

/-- Let a state follow the tokens in step with what is open, so that it is the first state again
wherever nothing is. Then it can follow each statement by itself, from the first state to the first
state. -/
theorem foldlM_of_cut {σ : Type} {next : σ → Token → Option σ} {first : σ}
    (inStep : σ → List Opener → Prop) (hclosed : ∀ {x}, inStep x [] → x = first)
    (hopened : inStep first [])
    (hseparates : ∀ {x y t}, t.separates = true → next x t = some y → y = x)
    (htrack : ∀ {x y opened opened' t}, inStep x opened → next x t = some y →
      track opened t = .ok opened' → inStep y opened')
    {ts : List Token} : ∀ {s : Cutting} {x : σ} {groups : List (List Token)},
      s.current.foldlM next first = some x → inStep x s.opened →
      (s.lineBroken = true → s.opened = []) → (ts.foldlM next x).isSome = true →
      cut s ts = .ok groups → ∀ g ∈ groups, g.foldlM next first = some first := by
  induction ts with
  | nil =>
    intro s x groups hcurrent hstep hbroken hmore h
    unfold cut at h
    split at h
    · cases h
    · next hnil =>
      rw [hnil] at hstep
      rw [hclosed hstep] at hcurrent
      rw [← Except.ok.inj h]
      exact forall_flush hcurrent (by simp)
  | cons t ts ih =>
    intro s x groups hcurrent hstep hbroken hfold h
    obtain ⟨y, hy, hmore⟩ := exists_foldlM_cons hfold
    unfold cut at h
    dsimp only at h
    by_cases hnewline : t.kind = .newline ∧ s.opened = []
    · rw [if_pos hnewline] at h
      have hignored := Token.separates_of_isIgnored (Token.isIgnored_of_newline hnewline.1)
      obtain rfl := hseparates hignored hy
      exact ih (s := { s with lineBroken := true }) hcurrent hstep (fun _ => hnewline.2) hmore h
    rw [if_neg hnewline] at h
    by_cases hignored : t.isIgnored = true
    · rw [if_pos hignored] at h
      obtain rfl := hseparates (Token.separates_of_isIgnored hignored) hy
      exact ih hcurrent hstep hbroken hmore h
    rw [if_neg hignored] at h
    -- The statement may end before the token; then nothing is open, and another begins here.
    have hends : s.endsBefore t = true → x = first := by
      intro hends
      rw [hbroken (ne_nil_of_endsBefore hends).1] at hstep
      exact hclosed hstep
    have hdone : (if s.endsBefore t then s.current else []).foldlM next first = some first := by
      split
      · next h => rw [hcurrent, hends h]
      · rfl
    have hbegun : (if s.endsBefore t then [] else s.current).foldlM next first = some x := by
      split
      · next h =>
        rw [hends h]
        rfl
      · exact hcurrent
    by_cases hsemicolon : t.isSymbol ";" = true ∧ s.opened = []
    · rw [if_pos hsemicolon] at h
      obtain ⟨more, hcut, rfl⟩ := exists_of_map_eq_ok h
      obtain rfl := hseparates (Token.separates_of_isSymbol hsemicolon.1) hy
      rw [hsemicolon.2] at hstep
      obtain rfl := hclosed hstep
      refine forall_flush hdone (forall_flush hbegun ?_)
      exact ih (s := ⟨[], [], false⟩) rfl hopened (fun _ => rfl) hmore hcut
    rw [if_neg hsemicolon] at h
    split at h
    · cases h
    · next opened hopened' =>
      obtain ⟨more, hcut, rfl⟩ := exists_of_map_eq_ok h
      refine forall_flush hdone ?_
      have hheld : ((if s.endsBefore t then [] else s.current) ++ [t]).foldlM next first =
          some y := by
        rw [List.foldlM_append, hbegun]
        change (next x t).bind _ = _
        rw [hy]
        rfl
      exact ih hheld (htrack hstep hy hopened') (by simp) hmore hcut

/-- Wherever the cutter ends a statement, nothing encloses the text, as nothing is open. -/
theorem enclosed_of_splitStatements {source : Text} {groups : List (List Token)}
    (h : splitStatements (Token.tokenize source) = .ok groups) : ∀ g ∈ groups, Enclosed g := by
  intro g hg
  have hfold := foldlM_of_cut Synced Synced.eq_nil .nil Token.enclose_of_separates
    Synced.track (s := .initial) rfl .nil (fun _ => rfl) (Token.isSome_enclose_tokenize source) h
    g hg
  rw [Enclosed, hfold]
  rfl

theorem trackAll_toOption (ts : List Token) : ∀ opened : List Opener,
    ts.foldlM (fun opened t => (track opened t).toOption) opened =
      (trackAll opened ts).toOption := by
  induction ts with
  | nil => exact fun _ => rfl
  | cons t ts ih =>
    intro opened
    rw [List.foldlM_cons, trackAll_cons]
    cases track opened t with
    | error e => rfl
    | ok opened' => exact ih opened'

/-- In each statement everything that is opened is closed. -/
theorem trackAll_of_splitStatements {ts : List Token} {groups : List (List Token)}
    (h : splitStatements ts = .ok groups) : ∀ g ∈ groups, trackAll [] g = .ok [] := by
  have hall := exists_splitStatements_iff.mp ⟨groups, h⟩
  have hseparates : ∀ {opened opened' : List Opener} {t : Token}, t.separates = true →
      (track opened t).toOption = some opened' → opened' = opened := by
    intro opened opened' t ht hnext
    have hsame : track opened t = .ok opened := by
      rcases Bool.or_eq_true_iff.mp ht with ht | ht
      · exact track_of_isIgnored ht
      · exact track_of_isSemicolon ht
    rw [hsame] at hnext
    exact (Option.some.inj hnext).symm
  have htrack : ∀ {x y opened opened' : List Opener} {t : Token}, x = opened →
      (track x t).toOption = some y → track opened t = .ok opened' → y = opened' := by
    rintro x y opened opened' t rfl hnext htrack
    rw [htrack] at hnext
    exact (Option.some.inj hnext).symm
  intro g hg
  have hfold := foldlM_of_cut Eq id rfl hseparates htrack (s := .initial) rfl rfl
    (fun _ => rfl) (by rw [trackAll_toOption, hall]; rfl) h g hg
  rw [trackAll_toOption] at hfold
  cases hg' : trackAll [] g with
  | error e =>
    rw [hg'] at hfold
    cases hfold
  | ok opened =>
    rw [hg'] at hfold
    exact congrArg Except.ok (Option.some.inj hfold)

/-! ## Reading what was cut -/

/-- Template literals and substitutions alone are tracked without a fault. -/
theorem track_ofEnclosure {enclosing enclosing' : List Enclosure} {t : Token}
    (hkind : t.kind = .backtick ∨ t.kind = .interpolation)
    (h : Token.enclose enclosing t = some enclosing') :
    track (enclosing.map Opener.ofEnclosure) t = .ok (enclosing'.map Opener.ofEnclosure) := by
  have hhead : ∀ e, (enclosing.map Opener.ofEnclosure).head? = some (Opener.ofEnclosure e) ↔
      enclosing.head? = some e := by
    intro e
    cases enclosing with
    | nil => simp
    | cons e' outer => cases e <;> cases e' <;> simp [Opener.ofEnclosure]
  obtain ⟨hopening, hclosing⟩ := bracket_of_kind (t := t) (by rcases hkind with h | h <;> simp [h])
  rw [track, hopening, hclosing]
  rcases hkind with hkind | hkind
  · simp only [Token.enclose, hkind] at h ⊢
    have htemplate := hhead .template
    rw [Opener.ofEnclosure] at htemplate
    simp only [htemplate]
    split at h
    · next hin =>
      rw [if_pos hin, ← Option.some.inj h, List.map_tail]
    · next hout =>
      rw [if_neg hout, ← Option.some.inj h]
      rfl
  · simp only [Token.enclose, hkind] at h ⊢
    have hsubstitution := hhead .substitution
    rw [Opener.ofEnclosure] at hsubstitution
    simp only [hsubstitution]
    split at h
    · next hstarts =>
      rw [if_pos hstarts]
      split at h
      · rw [← Option.some.inj h]
        rfl
      · cases h
    · next hends =>
      rw [if_neg hends]
      split at h
      · next hin =>
        rw [if_pos hin, ← Option.some.inj h, List.map_tail]
      · cases h

theorem exists_templateEnd {ts : List Token} : ∀ {enclosing : List Enclosure},
    (ts.foldlM Token.enclose enclosing).isSome = true →
      ∃ ended, templateEnd (enclosing.map Opener.ofEnclosure) ts = .ok ended := by
  induction ts with
  | nil => exact fun _ => ⟨none, rfl⟩
  | cons t ts ih =>
    intro enclosing h
    obtain ⟨next, hnext, hmore⟩ := exists_foldlM_cons h
    have hstep : templateEnd (enclosing.map Opener.ofEnclosure) (t :: ts) =
        if (next.map Opener.ofEnclosure).isEmpty then .ok (some (t, ts))
        else templateEnd (next.map Opener.ofEnclosure) ts := by
      rw [templateEnd]
      by_cases hkind : t.kind = .backtick ∨ t.kind = .interpolation
      · rw [if_pos hkind, track_ofEnclosure hkind hnext]
        rfl
      · rw [if_neg hkind]
        rw [not_or] at hkind
        rw [Token.enclose_of_kind hkind.1 hkind.2 hnext]
        rfl
    rw [hstep]
    split
    · exact ⟨some (t, ts), rfl⟩
    · exact ih hmore

/-- In a statement that is enclosed by nothing, the end of a template literal can be found. -/
theorem exists_shellCommand (source : Text) {ts : List Token} (h : Enclosed ts) :
    ∃ s, shellCommand source ts = .ok s := by
  unfold shellCommand
  split
  · exact ⟨none, rfl⟩
  · next tag us htag =>
    obtain ⟨⟨tag', vs⟩, hname, hliteral⟩ := Option.bind_eq_some_iff.mp htag
    obtain ⟨⟨backtick, ws⟩, hbacktick, heq⟩ := Option.map_eq_some_iff.mp hliteral
    obtain ⟨rfl, rfl⟩ := Prod.mk.inj heq
    obtain ⟨rfl, htagKind⟩ := takeKind_eq_some_iff.mp hname
    obtain ⟨rfl, hbacktickKind⟩ := takeKind_eq_some_iff.mp hbacktick
    obtain ⟨e, htag', hrest⟩ := exists_foldlM_cons h
    obtain rfl := Token.enclose_of_kind (by simp [htagKind]) (by simp [htagKind]) htag'
    obtain ⟨e, hopens, hrest⟩ := exists_foldlM_cons hrest
    have he : e = [.template] := by simpa [Token.enclose, hbacktickKind] using hopens.symm
    rw [he] at hrest
    obtain ⟨ended, hended⟩ := exists_templateEnd hrest
    rw [show [Opener.template] = [Enclosure.template].map Opener.ofEnclosure from rfl, hended]
    exact ⟨_, rfl⟩

/-- Every statement that was cut has a token and can be read. -/
theorem exists_readStatement {source : Text} {groups : List (List Token)}
    (h : splitStatements (Token.tokenize source) = .ok groups) :
    ∀ g ∈ groups, g ≠ [] ∧ ∃ s, readStatement source g = .ok s := by
  intro g hg
  obtain ⟨gap, rest, -, -, hrest⟩ := (cuts_of_splitStatements h).exists_append
  refine ⟨hrest.ne_nil g hg, ?_⟩
  unfold readStatement
  split
  · exact ⟨_, rfl⟩
  · obtain ⟨s, hs⟩ := exists_shellCommand source (enclosed_of_splitStatements h g hg)
    rw [hs]
    exact ⟨_, rfl⟩

/-- A submission can be read just if it can be cut into statements, with the same fault if not. -/
theorem read_error_iff {source : Text} {e : Nesting.Error} :
    read source = .error e ↔ splitStatements (Token.tokenize source) = .error e := by
  unfold read
  cases hsplit : splitStatements (Token.tokenize source) with
  | error e' => simp [bind, Except.bind]
  | ok groups =>
    have hread := exists_readStatement hsplit
    obtain ⟨statements, hstatements⟩ := exists_mapM fun g hg => (hread g hg).2
    simp [hstatements, bind, Except.bind, pure, Except.pure]

end Submission

end ReplCore
