import Mathlib.Data.List.Induction
import ReplCore.Proofs.Submission.Tracking

/-!
# Balanced tokens

What it means that all brackets, template literals and substitutions are closed, as a grammar of
tokens. A backtick both begins and ends a template literal; which of the two it does follows from
what is directly around it. What is open after the first tokens of a list is as much of a derivation
as they have, and tracking finds just that.

* `trackAll_eq_ok_iff`: tracking tells what the tokens leave open.
* `completable_iff`: it goes on just as long as the tokens are the beginning of balanced ones.
-/

namespace ReplCore

/-! ## What a token opens and closes -/

namespace Opener

/-- Whether the token is written at the beginning of what is named. -/
def opens (o : Opener) (t : Token) : Bool :=
  match o with
  | round => t.isSymbol "("
  | square => t.isSymbol "["
  | curly => t.isSymbol "\x7b"
  | template => t.kind = .backtick
  | substitution => t.kind = .interpolation && Nesting.startsSubstitution t

/-- Whether the token is written at the end of what is named. -/
def closes (o : Opener) (t : Token) : Bool :=
  match o with
  | round => t.isSymbol ")"
  | square => t.isSymbol "]"
  | curly => t.isSymbol "\x7d"
  | template => t.kind = .backtick
  | substitution => t.kind = .interpolation && !Nesting.startsSubstitution t

/-- A token that is written at the end of what is named. -/
def closer : Opener → Token
  | round => ⟨.symbol ")".toList, ")".toList, 0, 1⟩
  | square => ⟨.symbol "]".toList, "]".toList, 0, 1⟩
  | curly => ⟨.symbol "\x7d".toList, "\x7d".toList, 0, 1⟩
  | template => ⟨.backtick, "`".toList, 0, 1⟩
  | substitution => ⟨.interpolation, "\x7d".toList, 0, 1⟩

theorem closes_closer (o : Opener) : o.closes o.closer = true := by cases o <;> decide

end Opener

namespace Token

def IsNeutral (t : Token) : Prop := ∀ o : Opener, o.opens t = false ∧ o.closes t = false

theorem isNeutral_of_kind {t : Token} (hsymbol : ∀ sign, t.kind ≠ .symbol sign)
    (hbacktick : t.kind ≠ .backtick) (hinterpolation : t.kind ≠ .interpolation) : t.IsNeutral := by
  intro o
  cases o <;> simp [Opener.opens, Opener.closes, isSymbol, hsymbol, hbacktick, hinterpolation]

theorem isNeutral_of_isIgnored {t : Token} (h : t.isIgnored = true) : t.IsNeutral := by
  simp only [isIgnored, Bool.or_eq_true, decide_eq_true_eq] at h
  rcases h with (h | h) | h <;> exact isNeutral_of_kind (by simp [h]) (by simp [h]) (by simp [h])

end Token

/-! ## The grammar -/

/-- Tokens that close all that they open, directly inside of `outer`. Directly inside of a template
literal a backtick ends it, so that no other one begins there. -/
inductive Balanced : Option Opener → List Token → Prop
  | nil {outer} : Balanced outer []
  | neutral {outer t ts} (isNeutral : t.IsNeutral) (more : Balanced outer ts) :
      Balanced outer (t :: ts)
  | enclosed {outer o t inner u ts} (begins : outer = some .template → o ≠ .template)
      (opens : o.opens t = true) (within : Balanced (some o) inner) (closes : o.closes u = true)
      (more : Balanced outer ts) : Balanced outer (t :: (inner ++ u :: ts))

/-- Tokens that leave `opened` open, innermost first: everything else in them is balanced. -/
inductive LeavesOpen : List Opener → List Token → Prop
  | none {ts} (balanced : Balanced none ts) : LeavesOpen [] ts
  | some {opened o before t inner} (outside : LeavesOpen opened before)
      (begins : opened.head? = some .template → o ≠ .template) (opens : o.opens t = true)
      (within : Balanced (some o) inner) : LeavesOpen (o :: opened) (before ++ t :: inner)

namespace Balanced

variable {outer : Option Opener} {ts us : List Token}

theorem append (hts : Balanced outer ts) (hus : Balanced outer us) : Balanced outer (ts ++ us) := by
  induction hts with
  | nil => exact hus
  | neutral isNeutral _ ih => exact .neutral isNeutral (ih hus)
  | @enclosed _ _ t inner u ts begins opens within closes _ _ ih =>
    have := Balanced.enclosed begins opens within closes (ih hus)
    simpa [List.append_assoc] using this

theorem single {t : Token} (h : t.IsNeutral) : Balanced outer [t] := .neutral h .nil

theorem pair {o : Opener} {t u : Token} (begins : outer = some .template → o ≠ .template)
    (opens : o.opens t = true) (within : Balanced (some o) ts) (closes : o.closes u = true) :
    Balanced outer (t :: (ts ++ [u])) := .enclosed begins opens within closes .nil

end Balanced

namespace LeavesOpen

variable {opened : List Opener} {ts us : List Token}

/-- What is left open stays so over balanced tokens. -/
theorem append (hts : LeavesOpen opened ts) (hus : Balanced opened.head? us) :
    LeavesOpen opened (ts ++ us) := by
  cases hts with
  | none balanced => exact .none (balanced.append hus)
  | some outside begins opens within =>
    rw [List.append_assoc, List.cons_append]
    exact .some outside begins opens (within.append hus)

theorem opens {o : Opener} {t : Token} (hts : LeavesOpen opened ts)
    (begins : opened.head? = Option.some .template → o ≠ .template) (ht : o.opens t = true) :
    LeavesOpen (o :: opened) (ts ++ [t]) := .some hts begins ht .nil

theorem closes {o : Opener} {t : Token} (hts : LeavesOpen (o :: opened) ts)
    (ht : o.closes t = true) : LeavesOpen opened (ts ++ [t]) := by
  cases hts with
  | some outside begins opens within =>
    rw [List.append_assoc, List.cons_append]
    exact outside.append (.pair begins opens within ht)

end LeavesOpen

/-! ## Tracking -/

namespace Nesting

/-- How the token names itself where it closes nothing. -/
def closerText (t : Token) : Text :=
  if t.kind = .interpolation then "\x7d".toList else t.kind.toText

/-- What a token does to what is open. -/
inductive Effect (opened : List Opener) (t : Token) : Except Error (List Opener) → Prop
  | nothing (isNeutral : t.IsNeutral) : Effect opened t (.ok opened)
  | opens {o} (begins : opened.head? = some .template → o ≠ .template) (opens : o.opens t = true) :
      Effect opened t (.ok (o :: opened))
  | closes {o rest} (innermost : opened = o :: rest) (closes : o.closes t = true) :
      Effect opened t (.ok rest)
  | fails {o} (closes : o.closes t = true) (notTemplate : o ≠ .template)
      (other : opened.head? ≠ some o) :
      Effect opened t (.error (.unexpected (closerText t) t.start))

variable {opened opened' : List Opener} {o : Opener} {t : Token} {ts us : List Token}

theorem opens_of_ofOpening? (h : Opener.ofOpening? t = some o) :
    o.opens t = true ∧ o ≠ .template := by
  obtain ⟨b, hb, rfl⟩ := Option.map_eq_some_iff.mp h
  have hkind : t.kind = .symbol b.2.1 := by simpa using List.find?_some hb
  have hmem := List.mem_of_find?_eq_some hb
  simp only [Opener.brackets, List.mem_cons, List.not_mem_nil, or_false] at hmem
  rcases hmem with rfl | rfl | rfl <;> simp [Opener.opens, Token.isSymbol, hkind]

theorem closes_of_ofClosing? (h : Opener.ofClosing? t = some o) :
    o.closes t = true ∧ o ≠ .template ∧ closerText t = t.kind.toText := by
  obtain ⟨b, hb, rfl⟩ := Option.map_eq_some_iff.mp h
  have hkind : t.kind = .symbol b.2.2 := by simpa using List.find?_some hb
  have hmem := List.mem_of_find?_eq_some hb
  simp only [Opener.brackets, List.mem_cons, List.not_mem_nil, or_false] at hmem
  rcases hmem with rfl | rfl | rfl <;> simp [Opener.closes, Token.isSymbol, hkind, closerText]

theorem isNeutral_of_no_bracket (hopening : Opener.ofOpening? t = none)
    (hclosing : Opener.ofClosing? t = none) (hbacktick : t.kind ≠ .backtick)
    (hinterpolation : t.kind ≠ .interpolation) : t.IsNeutral := by
  simp only [Opener.ofOpening?, Opener.ofClosing?, Opener.brackets, Option.map_eq_none_iff,
    List.find?_eq_none, List.mem_cons, List.not_mem_nil, or_false, decide_eq_true_eq,
    forall_eq_or_imp, forall_eq] at hopening hclosing
  obtain ⟨hround, hsquare, hcurly⟩ := hopening
  obtain ⟨hround', hsquare', hcurly'⟩ := hclosing
  intro o
  cases o <;> simp_all [Opener.opens, Opener.closes, Token.isSymbol]

/-- A token has one of these effects. -/
theorem effect_track (opened : List Opener) (t : Token) : Effect opened t (track opened t) := by
  unfold track
  split
  · next o ho =>
    obtain ⟨hopens, hne⟩ := opens_of_ofOpening? ho
    exact .opens (fun _ => hne) hopens
  · next hopening =>
    split
    · next o ho =>
      obtain ⟨hcloses, hne, htext⟩ := closes_of_ofClosing? ho
      split
      · next hhead =>
        obtain ⟨rest, rfl⟩ := List.head?_eq_some_iff.mp hhead
        exact .closes rfl hcloses
      · next hhead => exact htext ▸ .fails hcloses hne hhead
    · next hclosing =>
      split
      · next hkind =>
        split
        · next hhead =>
          obtain ⟨rest, rfl⟩ := List.head?_eq_some_iff.mp hhead
          exact .closes rfl (by simp [Opener.closes, hkind])
        · next hhead =>
          exact .opens (fun h => absurd h hhead) (by simp [Opener.opens, hkind])
      · next hkind =>
        split
        · next hstarts =>
          exact .opens (o := .substitution) (fun _ => by decide)
            (by simp [Opener.opens, hkind, hstarts])
        · next hstarts =>
          have hcloses : Opener.substitution.closes t = true := by
            simp [Opener.closes, hkind, hstarts]
          split
          · next hhead =>
            obtain ⟨rest, rfl⟩ := List.head?_eq_some_iff.mp hhead
            exact .closes rfl hcloses
          · next hhead =>
            have htext : closerText t = "\x7d".toList := by simp [closerText, hkind]
            exact htext ▸ .fails hcloses (by decide) hhead
      · next hbacktick hinterpolation =>
        exact .nothing (isNeutral_of_no_bracket hopening hclosing hbacktick hinterpolation)

theorem track_of_isNeutral_token (h : t.IsNeutral) : track opened t = .ok opened := by
  have heffect := effect_track opened t
  cases hr : track opened t with
  | error e =>
    rw [hr] at heffect
    cases heffect with
    | fails closes => simp [(h _).2] at closes
  | ok opened' =>
    rw [hr] at heffect
    cases heffect with
    | nothing => rfl
    | opens _ opens => simp [(h _).1] at opens
    | closes _ closes => simp [(h _).2] at closes

theorem track_of_opens (begins : opened.head? = some .template → o ≠ .template)
    (h : o.opens t = true) : track opened t = .ok (o :: opened) := by
  cases o with
  | template =>
    have hkind : t.kind = .backtick := by simpa [Opener.opens] using h
    have hhead : opened.head? ≠ some .template := fun hhead => begins hhead rfl
    obtain ⟨hopening, hclosing⟩ := bracket_of_kind (t := t) (by simp [hkind])
    simp [track, hopening, hclosing, hkind, hhead]
  | substitution =>
    obtain ⟨hkind, hstarts⟩ : t.kind = .interpolation ∧ startsSubstitution t = true := by
      simpa [Opener.opens] using h
    obtain ⟨hopening, hclosing⟩ := bracket_of_kind (t := t) (by simp [hkind])
    simp [track, hopening, hclosing, hkind, hstarts]
  | _ =>
    simp only [Opener.opens, Token.isSymbol, decide_eq_true_eq] at h
    simp [track, Opener.ofOpening?, Opener.brackets, h]

theorem track_of_closes (h : o.closes t = true) : track (o :: opened) t = .ok opened := by
  cases o with
  | template =>
    have hkind : t.kind = .backtick := by simpa [Opener.closes] using h
    obtain ⟨hopening, hclosing⟩ := bracket_of_kind (t := t) (by simp [hkind])
    simp [track, hopening, hclosing, hkind]
  | substitution =>
    obtain ⟨hkind, hends⟩ : t.kind = .interpolation ∧ startsSubstitution t = false := by
      simpa [Opener.closes] using h
    obtain ⟨hopening, hclosing⟩ := bracket_of_kind (t := t) (by simp [hkind])
    simp [track, hopening, hclosing, hkind, hends]
  | _ =>
    simp only [Opener.closes, Token.isSymbol, decide_eq_true_eq] at h
    simp [track, Opener.ofOpening?, Opener.ofClosing?, Opener.brackets, h]

theorem trackAll_of_balanced {outer : Option Opener} (h : Balanced outer ts) :
    ∀ {opened}, opened.head? = outer → trackAll opened ts = .ok opened := by
  induction h with
  | nil => exact fun _ => rfl
  | neutral isNeutral _ ih =>
    intro opened hhead
    rw [trackAll_cons, track_of_isNeutral_token isNeutral]
    exact ih hhead
  | enclosed begins opens _ closes _ ihinner ih =>
    intro opened hhead
    rw [trackAll_cons, track_of_opens (fun h => begins (hhead ▸ h)) opens]
    change trackAll _ _ = _
    rw [trackAll_append, ihinner rfl]
    change trackAll _ _ = _
    rw [trackAll_cons, track_of_closes closes]
    exact ih hhead

theorem trackAll_of_leavesOpen (h : LeavesOpen opened ts) : trackAll [] ts = .ok opened := by
  induction h with
  | none balanced => exact trackAll_of_balanced balanced rfl
  | some _ begins opens within ih =>
    rw [trackAll_append, ih]
    change trackAll _ _ = _
    rw [trackAll_cons, track_of_opens begins opens]
    exact trackAll_of_balanced within rfl

theorem leavesOpen_of_trackAll (ts : List Token) : ∀ {opened},
    trackAll [] ts = .ok opened → LeavesOpen opened ts := by
  -- What the last token does to what is open it does to the derivation.
  induction ts using List.reverseRecOn with
  | nil =>
    intro opened h
    rw [← Except.ok.inj h]
    exact .none .nil
  | append_singleton ts t ih =>
    intro opened' h
    rw [trackAll_append] at h
    obtain ⟨opened, hts, ht⟩ := exists_of_bind_eq_ok h
    have hopen := ih hts
    have heffect := effect_track opened t
    rw [trackAll_cons] at ht
    obtain ⟨next, hnext, hlast⟩ := exists_of_bind_eq_ok ht
    obtain rfl := Except.ok.inj hlast
    rw [hnext] at heffect
    cases heffect with
    | nothing isNeutral => exact hopen.append (.single isNeutral)
    | opens begins opens => exact hopen.opens begins opens
    | closes innermost closes => exact (innermost ▸ hopen).closes closes

/-- Tracking tells what the tokens leave open. -/
theorem trackAll_eq_ok_iff : trackAll [] ts = .ok opened ↔ LeavesOpen opened ts :=
  ⟨leavesOpen_of_trackAll ts, trackAll_of_leavesOpen⟩

/-! ## White space and completions -/

/-- The tokens other than white space and comments. -/
def significant (ts : List Token) : List Token := ts.filter fun t => !t.isIgnored

theorem significant_append : significant (ts ++ us) = significant ts ++ significant us :=
  List.filter_append ..

theorem trackAll_significant : ∀ {ts : List Token} {opened : List Opener},
    trackAll opened (significant ts) = trackAll opened ts
  | [], _ => rfl
  | t :: ts, opened => by
    rw [trackAll_cons, significant, List.filter_cons]
    by_cases ht : t.isIgnored = true
    · rw [if_neg (by simp [ht]), track_of_isNeutral_token (Token.isNeutral_of_isIgnored ht)]
      exact trackAll_significant
    · rw [if_pos (by simp [ht]), trackAll_cons]
      exact congrArg _ (funext fun _ => trackAll_significant)

theorem balanced_significant_iff : Balanced none (significant ts) ↔ trackAll [] ts = .ok [] := by
  rw [← trackAll_significant, trackAll_eq_ok_iff]
  refine ⟨.none, fun h => ?_⟩
  cases h with
  | none balanced => exact balanced

instance : Decidable (Balanced none (significant ts)) :=
  decidable_of_iff _ balanced_significant_iff.symm

/-- The tokens can be continued to balanced ones. -/
def Completable (ts : List Token) : Prop := ∃ more, Balanced none (significant ts ++ more)

theorem trackAll_closers (opened : List Opener) :
    trackAll opened (opened.map Opener.closer) = .ok [] := by
  induction opened with
  | nil => rfl
  | cons o opened ih =>
    rw [List.map_cons, trackAll_cons, track_of_closes o.closes_closer]
    exact ih

/-- Tokens can be completed just as long as tracking finds no fault. -/
theorem completable_iff : Completable ts ↔ ∃ opened, trackAll [] ts = .ok opened := by
  constructor
  · rintro ⟨more, hmore⟩
    have htrack : trackAll [] (significant ts ++ more) = .ok [] := trackAll_of_balanced hmore rfl
    rw [trackAll_append, trackAll_significant] at htrack
    obtain ⟨opened, hopened, -⟩ := exists_of_bind_eq_ok htrack
    exact ⟨opened, hopened⟩
  · rintro ⟨opened, hopened⟩
    refine ⟨opened.map Opener.closer, ?_⟩
    have htrack : trackAll [] (significant ts ++ opened.map Opener.closer) = .ok [] := by
      rw [trackAll_append, trackAll_significant, hopened]
      exact trackAll_closers opened
    cases trackAll_eq_ok_iff.mp htrack with
    | none balanced => exact balanced

end Nesting

end ReplCore
