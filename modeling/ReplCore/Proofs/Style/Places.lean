import ReplCore.Proofs.Style.Remainders

/-!
# Places for comments

A comment can be put into a stylesheet between its tokens, where readers pass it over whatever is in
it, or into a selector, a value or an at-rule, where it must not hold a character at which the text
around it would end. Two texts of which one is the other with comments put in are *aligned* where a
reader stands: the same character is next, and the texts after it are of this kind again.

* `Commented.aligned_skip`: what is passed over.
* `Commented.takeWhile`: what is taken up to a delimiter.
* `Commented.of_leaves_eq_false`: in an at-rule that does not end, comments may stand everywhere.
-/

namespace ReplCore.Stylesheet

/-! ## Places -/

/-- What a character stands in, by the characters before it. -/
inductive Place
  /-- Before a rule or an at-rule. -/
  | outside
  /-- In an at-rule, before its semicolon or its block. -/
  | prelude
  /-- In the block of an at-rule, with so many blocks around it in that block. -/
  | block (depth : Nat)
  | selector
  | beforeSelector
  | beforeProperty
  /-- From the name of a property to the colon. -/
  | property
  | beforeValue
  | value
deriving DecidableEq

namespace Place

/-- The place after a character of an at-rule, a selector, the name of a property or a value. -/
def nextInside : Place → Char → Place
  | prelude, c => if c = ';' then outside else if c = '\x7b' then block 0 else prelude
  | block depth, c =>
    if c = '\x7b' then block (depth + 1)
    else if c = '\x7d' then
      match depth with
      | 0 => outside
      | depth + 1 => block depth
    else block depth
  | selector, c =>
    if c = ',' then beforeSelector else if c = '\x7b' then beforeProperty else selector
  | property, c => if c = ':' then beforeValue else property
  | value, c => if c = ';' then beforeProperty else if c = '\x7d' then outside else value
  | place, _ => place

/-- The place after a character. -/
def next : Place → Char → Place
  | outside, c =>
    if CharClass.isBlank c then outside else if c = '@' then prelude else nextInside selector c
  | beforeSelector, c => if CharClass.isBlank c then beforeSelector else nextInside selector c
  | beforeProperty, c =>
    if CharClass.isBlank c then beforeProperty
    else if c = '\x7d' then outside
    else nextInside property c
  | beforeValue, c => if CharClass.isBlank c then beforeValue else nextInside value c
  | place, c => nextInside place c

/-- Whether a comment at a place may have a character in it. At a place between the tokens of rules
it may have any. -/
def admits : Place → Char → Bool
  | prelude, c | block _, c => !isDelimiter c
  | selector, c => c ≠ ',' ∧ c ≠ '\x7b' ∧ c ≠ '\x7d'
  | value, c => c ≠ ';' ∧ c ≠ '\x7d'
  | _, _ => true

theorem next_of_isBlank (place : Place) {c : Char} (hc : CharClass.isBlank c = true) :
    place.next c = place := by
  have hne : ∀ d, isDelimiter d = true → c ≠ d := fun d =>
    ne_of_isDelimiter (isDelimiter_of_isBlank hc)
  have hcolon : c ≠ ':' := by
    rintro rfl
    exact absurd hc (by decide)
  cases place <;> simp [next, nextInside, hc, hcolon, hne ',' rfl, hne ';' rfl, hne '\x7b' rfl,
    hne '\x7d' rfl]

theorem admits_of_not_isDelimiter (place : Place) {c : Char} (hc : isDelimiter c = false) :
    place.admits c = true := by
  have hne : ∀ d, isDelimiter d = true → c ≠ d := fun d => ne_of_isDelimiter hc
  cases place <;> simp [admits, hc, hne ',' rfl, hne ';' rfl, hne '\x7b' rfl, hne '\x7d' rfl]

theorem next_prelude {c : Char} (hc : c ≠ '\x7b' ∧ c ≠ ';') : prelude.next c = prelude := by
  simp [next, nextInside, hc]

theorem next_block {c : Char} (hc : c ≠ '\x7b' ∧ c ≠ '\x7d') (depth : Nat) :
    (block depth).next c = block depth := by
  simp [next, nextInside, hc]

/-! ### At-rules that do not end -/

/-- Whether a place is in an at-rule. -/
def inAtRule : Place → Bool
  | prelude | block _ => true
  | _ => false

/-- Whether a text leads from a place to the outside. -/
def leaves : Place → Text → Bool
  | _, [] => false
  | place, c :: t => place.next c = outside || leaves (place.next c) t

theorem leaves_cons (place : Place) (c : Char) (t : Text) :
    place.leaves (c :: t) = (decide (place.next c = outside) || (place.next c).leaves t) := rfl

theorem next_eq_outside_or {place : Place} (h : place.inAtRule = true) (c : Char) :
    place.next c = outside ∨ (place.next c).inAtRule = true := by
  cases place with
  | prelude => grind [next, nextInside, inAtRule]
  | block depth => cases depth <;> grind [next, nextInside, inAtRule]
  | _ => cases h

theorem isDelimiter_of_admits {place : Place} (h : place.inAtRule = true) {c : Char}
    (hc : place.admits c = true) : isDelimiter c = false := by
  cases place with
  | prelude | block _ => simpa [admits] using hc
  | _ => cases h

/-- Characters that do not lead away from a place do not matter. -/
theorem leaves_dropWhile {place : Place} (h : place.inAtRule = true) {p : Char → Bool}
    (hnext : ∀ c, p c = true → place.next c = place) (t : Text) :
    place.leaves (t.dropWhile p) = place.leaves t := by
  have hne : place ≠ outside := by
    rintro rfl
    cases h
  induction t with
  | nil => rfl
  | cons c t ih =>
    by_cases hc : p c = true
    · rw [List.dropWhile_cons_of_pos hc, ih, leaves_cons, hnext c hc, decide_eq_false hne,
        Bool.false_or]
    · rw [List.dropWhile_cons_of_neg hc]

end Place

/-! ## Texts with comments put in -/

/-- Whether a comment may stand next to a character. -/
def separates (c : Char) : Bool := CharClass.isBlank c || isDelimiter c || c = ':'

/-- The second text is the first with comments put in, each of them next to a character that
separates and without the characters that the place does not admit. Both texts stand at the place,
after the character. -/
inductive Commented : Place → Option Char → Text → Text → Prop
  | nil {place : Place} {before : Option Char} : Commented place before [] []
  | char {place : Place} {before : Option Char} {c : Char} {t u : Text}
      (more : Commented (place.next c) (some c) t u) : Commented place before (c :: t) (c :: u)
  | comment {place : Place} {before : Option Char} {inside t u : Text}
      (beside : before.any separates = true ∨ t.head?.any separates = true)
      (unclosed : ¬ "*/".toList <:+: inside) (admitted : ∀ c ∈ inside, place.admits c = true)
      (more : Commented place before t u) :
      Commented place before t ('/' :: '*' :: (inside ++ '*' :: '/' :: u))

/-- A text without comments and the same text with comments put in, where a reader stands: neither
white space nor a comment is next. -/
inductive Aligned (place : Place) : Text → Text → Prop
  | nil : Aligned place [] []
  | cons {c : Char} {t u : Text} (notBlank : CharClass.isBlank c = false)
      (noComment : ¬ "/*".toList <:+: c :: t) (more : Commented (place.next c) (some c) t u) :
      Aligned place (c :: t) (c :: u)

/-- Two readers read the same, and the rests are aligned. -/
structure Agree (place : Place) {α : Type} (x y : α × Text) : Prop where
  same : x.1 = y.1
  rest : Aligned place x.2 y.2

section

variable {place : Place} {before : Option Char} {c : Char} {p : Char → Bool} {t u : Text}

theorem not_infix_of_suffix (h : ¬ "/*".toList <:+: t) (hu : u <:+ t) : ¬ "/*".toList <:+: u :=
  fun hcomment => h (hcomment.trans hu.isInfix)

theorem not_infix_tail (h : ¬ "/*".toList <:+: c :: t) : ¬ "/*".toList <:+: t :=
  not_infix_of_suffix h (List.suffix_cons c t)

theorem not_infix_dropWhile (h : ¬ "/*".toList <:+: t) : ¬ "/*".toList <:+: t.dropWhile p :=
  not_infix_of_suffix h (List.dropWhile_suffix p)

/-- A slash is not completed to the start of a comment. -/
theorem head?_ne_star (h : ¬ "/*".toList <:+: c :: t) (hc : c = '/') : t.head? ≠ some '*' := by
  rw [hc] at h
  intro hstar
  obtain ⟨t, rfl⟩ := List.head?_eq_some_iff.mp hstar
  exact h (List.IsPrefix.isInfix ⟨t, rfl⟩)

theorem comment?_cons_eq_none (h : c = '/' → t.head? ≠ some '*') : comment? (c :: t) = none := by
  by_cases hc : c = '/'
  · rw [hc]
    exact comment?_eq_none (w := []) (by decide) (h hc)
  · exact comment?_of_ne hc t

theorem comment?_append {inside : Text} (h : ¬ "*/".toList <:+: inside) (t : Text) :
    comment? ('/' :: '*' :: (inside ++ '*' :: '/' :: t)) = some t :=
  afterComment?_append h t

namespace Commented

/-- What is put in does not complete a slash to the start of a comment. -/
theorem head?_ne (h : Commented place before t u) (ht : t.head? ≠ some '*') :
    u.head? ≠ some '*' := by
  cases h with
  | nil => exact nofun
  | char _ => exact ht
  | comment _ _ _ _ => simp

/-- What is put in after the start of an at-rule that does not end may be put in everywhere. -/
theorem of_leaves_eq_false {start : Place} (h : Commented start before t u)
    (hstart : start.inAtRule = true) (hleaves : start.leaves t = false) (place : Place) :
    Commented place before t u := by
  induction h generalizing place with
  | nil => exact .nil
  | @char start _ c t u _ ih =>
    rw [Place.leaves_cons, Bool.or_eq_false_iff, decide_eq_false_iff_not] at hleaves
    exact .char (ih ((Place.next_eq_outside_or hstart c).resolve_left hleaves.1) hleaves.2 _)
  | comment beside unclosed admitted _ ih =>
    refine .comment beside unclosed (fun c hc => ?_) (ih hstart hleaves _)
    exact place.admits_of_not_isDelimiter (Place.isDelimiter_of_admits hstart (admitted c hc))

/-- White space and comments are passed over in both texts. -/
theorem aligned_skip (h : Commented place before t u) (noComment : ¬ "/*".toList <:+: t) :
    Aligned place (skip t) (skip u) := by
  induction h with
  | nil => exact .nil
  | @char place _ c t u more ih =>
    have ht := head?_ne_star noComment
    by_cases hc : CharClass.isBlank c = true
    · rw [skip_blank hc, skip_blank hc]
      rw [place.next_of_isBlank hc] at ih
      exact ih (not_infix_tail noComment)
    · rw [Bool.not_eq_true] at hc
      rw [skip_cons hc (comment?_cons_eq_none ht),
        skip_cons hc (comment?_cons_eq_none fun hc => more.head?_ne (ht hc))]
      exact .cons hc noComment more
  | comment _ unclosed _ _ ih =>
    rw [skip_comment (comment?_append unclosed _)]
    exact ih noComment

end Commented

namespace Aligned

theorem noComment (h : Aligned place t u) : ¬ "/*".toList <:+: t := by
  cases h with
  | nil => decide
  | cons _ noComment _ => exact noComment

theorem head?_eq (h : Aligned place t u) : t.head? = u.head? := by
  cases h <;> rfl

theorem eq_nil_iff (h : Aligned place t u) : t = [] ↔ u = [] := by
  cases h <;> simp

/-- A place can be taken for another one if they are the same after the next character. -/
theorem commented {start : Place} (h : Aligned start t u)
    (hnext : ∀ c ∈ t.head?, CharClass.isBlank c = false → ∀ {t u},
      Commented (start.next c) (some c) t u → Commented (place.next c) (some c) t u) :
    Commented place none t u := by
  cases h with
  | nil => exact .nil
  | cons notBlank _ more => exact .char (hnext _ rfl notBlank more)

end Aligned

/-! ## Selectors and values -/

theorem head?_takeWhile_ne_star (h : t.head? ≠ some '*') : (t.takeWhile p).head? ≠ some '*' := by
  rw [List.head?_takeWhile]
  intro hstar
  exact h (Option.filter_eq_some_iff.mp hstar).1

/-- Without comments, the same is taken of both texts; it ends before the same character. -/
theorem Commented.takeWhile (h : Commented place before t u) (noComment : ¬ "/*".toList <:+: t)
    (hadmits : ∀ c, place.admits c = true → p c = true)
    (hnext : ∀ c, p c = true → place.next c = place) :
    withoutComments (t.takeWhile p) = withoutComments (u.takeWhile p) ∧
      ∃ b, Commented place b (t.dropWhile p) (u.dropWhile p) := by
  induction h with
  | nil => exact ⟨rfl, none, .nil⟩
  | @char place _ c t u more ih =>
    by_cases hc : p c = true
    · rw [hnext c hc] at ih
      obtain ⟨htake, hdrop⟩ := ih (not_infix_tail noComment) hadmits hnext
      have ht := head?_ne_star noComment
      rw [List.takeWhile_cons_of_pos hc, List.takeWhile_cons_of_pos hc,
        List.dropWhile_cons_of_pos hc, List.dropWhile_cons_of_pos hc,
        withoutComments_cons (comment?_cons_eq_none fun hc => head?_takeWhile_ne_star (ht hc)),
        withoutComments_cons (comment?_cons_eq_none fun hc =>
          head?_takeWhile_ne_star (more.head?_ne (ht hc))), htake]
      exact ⟨rfl, hdrop⟩
    · rw [List.takeWhile_cons_of_neg hc, List.takeWhile_cons_of_neg hc,
        List.dropWhile_cons_of_neg hc, List.dropWhile_cons_of_neg hc]
      exact ⟨rfl, none, .char more⟩
  | @comment place _ inside t u _ unclosed admitted _ ih =>
    obtain ⟨htake, hdrop⟩ := ih noComment hadmits hnext
    -- The whole comment is taken.
    have hinside : ∀ c ∈ inside, p c = true := fun c hc => hadmits c (admitted c hc)
    have hslash : p '/' = true := hadmits '/' (by cases place <;> rfl)
    have hstar : p '*' = true := hadmits '*' (by cases place <;> rfl)
    have htakeComment : ('/' :: '*' :: (inside ++ '*' :: '/' :: u)).takeWhile p =
        '/' :: '*' :: (inside ++ '*' :: '/' :: u.takeWhile p) := by
      simp [List.takeWhile_append_of_pos hinside, hslash, hstar]
    have hdropComment : ('/' :: '*' :: (inside ++ '*' :: '/' :: u)).dropWhile p =
        u.dropWhile p := by
      simp [List.dropWhile_append_of_pos hinside, hslash, hstar]
    rw [htakeComment, hdropComment, withoutComments_comment (comment?_append unclosed _)]
    exact ⟨htake, hdrop⟩

/-- Of aligned texts, both are taken something of or none is. -/
theorem Aligned.takeWhile_eq_nil_iff (h : Aligned place t u) :
    t.takeWhile p = [] ↔ u.takeWhile p = [] := by
  rw [← List.head?_eq_none_iff, ← List.head?_eq_none_iff, List.head?_takeWhile,
    List.head?_takeWhile, h.head?_eq]

/-- What ends at delimiters is followed by one of those it ends at. -/
theorem head?_skip_dropWhile (hp : ∀ c, p c = false → isDelimiter c = true) (t : Text) :
    ∀ c ∈ (skip (t.dropWhile p)).head?, p c = false := by
  cases hdrop : t.dropWhile p with
  | nil => exact nofun
  | cons d rest =>
    have hd := List.head?_dropWhile_not p t
    rw [hdrop] at hd
    have hd : p d = false := hd
    rw [skip_delimiter (hp d hd)]
    rintro c ⟨⟩
    exact hd

end

end ReplCore.Stylesheet
