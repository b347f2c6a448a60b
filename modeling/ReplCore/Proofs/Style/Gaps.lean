import ReplCore.Style.Stylesheet

/-!
# Gaps in stylesheets

Between the tokens of a stylesheet there may be white space and comments. Readers skip what of it
follows a token. The tokens that reach up to a delimiter take what follows them along, and it is
taken out again afterwards.

* `skip_append`: a gap is skipped.
* `words_withoutComments_append`, `trim_withoutComments_append`: a gap after a selector or a value
  is taken out.
-/

namespace ReplCore

/-! ## White space at the end -/

namespace Text

/-- Words and white space from the right: the first of the texts is the word that is being read. -/
def wordStep (c : Char) (ws : List Text) : List Text :=
  if CharClass.isBlank c then [] :: ws
  else
    match ws with
    | [] => [[c]]
    | w :: ws => (c :: w) :: ws

theorem words_eq (t : Text) : words t = (t.foldr wordStep [[]]).filter (· ≠ []) := rfl

theorem exists_foldr_wordStep (t : Text) : ∃ w ws, ∀ more,
    t.foldr wordStep ([] :: more) = w :: (ws ++ more) := by
  induction t with
  | nil => exact ⟨[], [], fun _ => rfl⟩
  | cons c t ih =>
    obtain ⟨w, ws, ih⟩ := ih
    by_cases hc : CharClass.isBlank c = true
    · exact ⟨[], w :: ws, fun more => by rw [List.foldr_cons, ih, wordStep, if_pos hc]; rfl⟩
    · exact ⟨c :: w, ws, fun more => by rw [List.foldr_cons, ih, wordStep, if_neg hc]⟩

theorem words_append {t b : Text} (hb : ∀ c ∈ b, CharClass.isBlank c = true) :
    words (t ++ b) = words t := by
  have hblank : b.foldr wordStep [[]] = [] :: List.replicate b.length [] := by
    induction b with
    | nil => rfl
    | cons c b ih =>
      obtain ⟨hc, hb⟩ := List.forall_mem_cons.mp hb
      rw [List.foldr_cons, ih hb, wordStep, if_pos hc]
      rfl
  obtain ⟨w, ws, ht⟩ := exists_foldr_wordStep t
  rw [words_eq, words_eq, List.foldr_append, hblank, ht, ht, ← List.cons_append, ← List.cons_append,
    List.filter_append, List.filter_append]
  simp

theorem isBlank_of_mem_words {t w : Text} (hw : w ∈ words t) :
    w ≠ [] ∧ ∀ c ∈ w, CharClass.isBlank c = false := by
  rw [words_eq, List.mem_filter] at hw
  refine ⟨by simpa using hw.2, ?_⟩
  replace hw := hw.1
  induction t generalizing w with
  | nil =>
    rw [List.mem_singleton.mp hw]
    exact nofun
  | cons c t ih =>
    obtain ⟨v, vs, ht⟩ := exists_foldr_wordStep t
    rw [List.foldr_cons, ht] at hw
    rw [ht] at ih
    unfold wordStep at hw
    split at hw
    · rcases List.mem_cons.mp hw with rfl | hw
      · exact nofun
      · exact ih hw
    · next hc =>
      rcases List.mem_cons.mp hw with rfl | hw
      · exact List.forall_mem_cons.mpr ⟨by simpa using hc, ih List.mem_cons_self⟩
      · exact ih (List.mem_cons_of_mem v hw)

/-- Text with single spaces between its words does not begin with white space. -/
theorem isBlank_head_of_join_words {t : Text} (h : join [' '] (words t) = t) :
    ∀ c ∈ t.head?, CharClass.isBlank c = false := by
  cases hws : words t with
  | nil =>
    rw [← h, hws]
    exact nofun
  | cons w ws =>
    obtain ⟨hne, hw⟩ := isBlank_of_mem_words (t := t) (w := w) (by simp [hws])
    obtain ⟨c, w, rfl⟩ := List.exists_cons_of_ne_nil hne
    have hhead : t.head? = some c := by
      rw [← h, hws]
      cases ws <;> rfl
    intro c' hc'
    rw [hhead] at hc'
    rw [← Option.some.inj hc']
    exact hw c List.mem_cons_self

theorem trim_append {t b : Text} (hb : ∀ c ∈ b, CharClass.isBlank c = true) :
    trim (t ++ b) = trim t := by
  have hdrop : b.dropWhile CharClass.isBlank = [] := by
    rw [← List.append_nil b, List.dropWhile_append_of_pos hb]
    rfl
  unfold trim trimBy trimEnd
  rw [List.dropWhile_append]
  split
  · next h => rw [hdrop, List.isEmpty_iff.mp h]
  · rw [List.reverse_append, List.dropWhile_append_of_pos (by simpa using hb)]

/-- Text without white space around it does not begin with white space. -/
theorem isBlank_head_of_trim {t : Text} (h : trim t = t) :
    ∀ c ∈ t.head?, CharClass.isBlank c = false := by
  have hprefix : trim t <+: t.dropWhile CharClass.isBlank := by
    rw [← List.reverse_suffix, trim, trimBy, trimEnd, List.reverse_reverse]
    exact List.dropWhile_suffix _
  obtain ⟨more, hmore⟩ := hprefix
  rw [h] at hmore
  intro c hc
  have hhead : (t.dropWhile CharClass.isBlank).head? = some c := by
    rw [← hmore, List.head?_append, hc]
    rfl
  have := List.head?_dropWhile_not CharClass.isBlank t
  rw [hhead] at this
  simpa using this

end Text

/-! ## Comments -/

namespace Stylesheet

theorem afterComment?_append {body : Text} (h : ¬ "*/".toList <:+: body) (t : Text) :
    afterComment? (body ++ '*' :: '/' :: t) = some t := by
  induction body with
  | nil => rfl
  | cons c body ih =>
    have ih := ih fun hbody => h (hbody.trans (List.suffix_cons c body).isInfix)
    unfold afterComment?
    split
    · next hnil => cases hnil
    · next rest hclose =>
      -- The comment cannot be closed here.
      obtain ⟨rfl, hrest⟩ := List.cons.inj hclose
      cases body with
      | nil => cases hrest
      | cons d body =>
        obtain ⟨rfl, -⟩ := List.cons.inj hrest
        exact absurd (List.IsPrefix.isInfix ⟨body, rfl⟩) h
    · next hcons =>
      rw [← (List.cons.inj hcons).2]
      exact ih

theorem length_lt_of_afterComment? {t rest : Text} (h : afterComment? t = some rest) :
    rest.length < t.length := by
  induction t using afterComment?.induct with
  | case1 => cases h
  | case2 rest' =>
    rw [afterComment?] at h
    rw [← Option.some.inj h, List.length_cons, List.length_cons]
    omega
  | case3 c t hopen ih =>
    rw [afterComment?] at h
    · exact Nat.lt_succ_of_lt (ih h)
    · exact hopen

theorem length_lt_of_comment? {t rest : Text} (h : comment? t = some rest) :
    rest.length < t.length := by
  unfold comment? at h
  split at h
  · have := length_lt_of_afterComment? h
    rw [List.length_cons, List.length_cons]
    omega
  · cases h

/-- Where text without comments begins, no comment begins. -/
theorem comment?_eq_none {c : Char} {w x : Text} (hw : ¬ "/*".toList <:+: c :: w)
    (hx : x.head? ≠ some '*') : comment? (c :: (w ++ x)) = none := by
  unfold comment?
  split
  · next rest hopen =>
    obtain ⟨rfl, hrest⟩ := List.cons.inj hopen
    cases w with
    | nil =>
      rw [List.nil_append] at hrest
      rw [hrest] at hx
      exact absurd rfl hx
    | cons d w =>
      obtain ⟨rfl, -⟩ := List.cons.inj hrest
      exact absurd (List.IsPrefix.isInfix ⟨w, rfl⟩) hw
  · rfl

theorem comment?_of_ne {c : Char} (hc : c ≠ '/') (t : Text) : comment? (c :: t) = none := by
  unfold comment?
  split
  · next hopen => exact absurd (List.cons.inj hopen).1 hc
  · rfl

theorem ne_slash_of_isBlank {c : Char} (hc : CharClass.isBlank c = true) : c ≠ '/' := by
  rintro rfl
  exact absurd hc (by decide)

/-! ## Gaps -/

/-- The characters up to which selectors, values and the parts of blocks reach. -/
def isDelimiter (c : Char) : Bool := c = ',' || c = ';' || c = '\x7b' || c = '\x7d'

/-- White space and comments without delimiters. -/
inductive Gap : Text → Prop
  | nil : Gap []
  | blank {c : Char} {g : Text} (isBlank : CharClass.isBlank c = true) (more : Gap g) : Gap (c :: g)
  | comment {body g : Text} (unclosed : ¬ "*/".toList <:+: body)
      (plain : ∀ c ∈ body, isDelimiter c = false) (more : Gap g) :
      Gap ('/' :: '*' :: (body ++ '*' :: '/' :: g))

theorem ne_of_isDelimiter {c d : Char} (hc : isDelimiter c = false) (hd : isDelimiter d = true) :
    c ≠ d := by
  rintro rfl
  rw [hc] at hd
  cases hd

theorem isDelimiter_of_isBlank {c : Char} (hc : CharClass.isBlank c = true) :
    isDelimiter c = false := by
  rw [← Bool.not_eq_true]
  intro hdelimiter
  simp only [isDelimiter, Bool.or_eq_true, decide_eq_true_eq] at hdelimiter
  rcases hdelimiter with ((rfl | rfl) | rfl) | rfl <;> exact absurd hc (by decide)

theorem Gap.isDelimiter_eq_false {g : Text} (h : Gap g) : ∀ c ∈ g, isDelimiter c = false := by
  induction h with
  | nil => exact nofun
  | blank hc _ ih => exact List.forall_mem_cons.mpr ⟨isDelimiter_of_isBlank hc, ih⟩
  | comment _ plain _ ih =>
    intro c hc
    simp only [List.mem_cons, List.mem_append] at hc
    rcases hc with rfl | rfl | hc | rfl | rfl | hc
    · decide
    · decide
    · exact plain c hc
    · decide
    · decide
    · exact ih c hc

/-- What a gap can begin with. -/
theorem Gap.head?_eq_some {g : Text} {c : Char} (h : Gap g) (hc : g.head? = some c) :
    CharClass.isBlank c = true ∨ c = '/' := by
  cases h with
  | nil => cases hc
  | blank isBlank _ => exact Or.inl (Option.some.inj hc ▸ isBlank)
  | comment _ _ _ => exact Or.inr (Option.some.inj hc).symm

/-- A gap does not complete a slash to the start of a comment. -/
theorem Gap.head?_append_ne {g x : Text} (h : Gap g) (hx : x.head? ≠ some '*') :
    (g ++ x).head? ≠ some '*' := by
  intro hstar
  rw [List.head?_append] at hstar
  cases hg : g.head? with
  | none =>
    rw [hg] at hstar
    exact hx hstar
  | some c =>
    rw [hg] at hstar
    obtain rfl := Option.some.inj hstar
    rcases h.head?_eq_some hg with hblank | hslash
    · exact absurd hblank (by decide)
    · exact absurd hslash (by decide)

/-! ## Skipping -/

/-- A bound that is long enough does not matter. -/
theorem skipFrom_eq {t bound bound' : Text} (h : t.length ≤ bound.length)
    (h' : t.length ≤ bound'.length) : skipFrom bound t = skipFrom bound' t := by
  induction bound generalizing t bound' with
  | nil =>
    rw [List.eq_nil_of_length_eq_zero (Nat.le_zero.mp h)]
    cases bound' <;> rfl
  | cons b bound ih =>
    cases t with
    | nil => cases bound' <;> rfl
    | cons c t =>
      obtain ⟨b', bound', rfl⟩ := List.exists_cons_of_ne_nil (List.ne_nil_of_length_pos
        (Nat.lt_of_lt_of_le (Nat.zero_lt_succ t.length) h'))
      simp only [List.length_cons] at h h'
      unfold skipFrom
      split
      · exact ih (by omega) (by omega)
      · split
        · next rest hrest =>
          have hlt := length_lt_of_comment? hrest
          rw [List.length_cons] at hlt
          exact ih (by omega) (by omega)
        · rfl

theorem skip_blank {c : Char} (hc : CharClass.isBlank c = true) (t : Text) :
    skip (c :: t) = skip t := by
  rw [skip, skipFrom, if_pos hc]
  rfl

theorem skip_comment {t rest : Text} (h : comment? t = some rest) : skip t = skip rest := by
  cases t with
  | nil => cases h
  | cons c t =>
    have hc : ¬ CharClass.isBlank c = true := by
      intro hc
      rw [comment?_of_ne (ne_slash_of_isBlank hc)] at h
      cases h
    have hlt := length_lt_of_comment? h
    rw [List.length_cons] at hlt
    rw [skip, skipFrom, if_neg hc, h]
    exact skipFrom_eq (by omega) (Nat.le_refl _)

theorem skip_cons {c : Char} {t : Text} (hc : CharClass.isBlank c = false)
    (hcomment : comment? (c :: t) = none) : skip (c :: t) = c :: t := by
  rw [skip, skipFrom, hcomment]
  simp [hc]

theorem skip_cons_of_ne {c : Char} (hc : CharClass.isBlank c = false) (hslash : c ≠ '/')
    (t : Text) : skip (c :: t) = c :: t :=
  skip_cons hc (comment?_of_ne hslash t)

theorem skip_delimiter {c : Char} (hc : isDelimiter c = true) (t : Text) :
    skip (c :: t) = c :: t := by
  refine skip_cons_of_ne ?_ ?_ t
  · rw [← Bool.not_eq_true]
    intro hblank
    rw [isDelimiter_of_isBlank hblank] at hc
    cases hc
  · rintro rfl
    cases hc

theorem length_skip_le (t : Text) : (skip t).length ≤ t.length := by
  have hfrom : ∀ bound t : Text, (skipFrom bound t).length ≤ t.length := by
    intro bound
    induction bound with
    | nil =>
      intro t
      cases t <;> exact Nat.le_refl _
    | cons b bound ih =>
      intro t
      cases t with
      | nil => exact Nat.le_refl _
      | cons c t =>
        unfold skipFrom
        split
        · exact Nat.le_succ_of_le (ih t)
        · split
          · next rest hrest =>
            exact Nat.le_trans (ih rest) (Nat.le_of_lt (length_lt_of_comment? hrest))
          · exact Nat.le_refl _
  exact hfrom t t

/-- A gap is skipped, with the white space and the comments after it. -/
theorem skip_append {g : Text} (h : Gap g) (t : Text) : skip (g ++ t) = skip t := by
  induction h with
  | nil => rfl
  | blank hc _ ih => rw [List.cons_append, skip_blank hc, ih]
  | @comment body g unclosed _ _ ih =>
    rw [← ih]
    refine skip_comment ?_
    have := afterComment?_append unclosed (g ++ t)
    simpa [comment?] using this

/-- Nothing is skipped at the start of text that begins with neither white space nor a comment. -/
theorem skip_eq_self {w x : Text} (hne : w ≠ [])
    (hblank : ∀ c ∈ w.head?, CharClass.isBlank c = false) (hcomment : ¬ "/*".toList <:+: w)
    (hx : x.head? ≠ some '*') : skip (w ++ x) = w ++ x := by
  obtain ⟨c, w, rfl⟩ := List.exists_cons_of_ne_nil hne
  exact skip_cons (hblank c rfl) (comment?_eq_none hcomment hx)

/-! ## Taking out comments -/

/-- A bound that is long enough does not matter. -/
theorem withoutCommentsFrom_eq {t bound bound' : Text} (h : t.length ≤ bound.length)
    (h' : t.length ≤ bound'.length) :
    withoutCommentsFrom bound t = withoutCommentsFrom bound' t := by
  induction bound generalizing t bound' with
  | nil =>
    rw [List.eq_nil_of_length_eq_zero (Nat.le_zero.mp h)]
    cases bound' <;> rfl
  | cons b bound ih =>
    cases t with
    | nil => cases bound' <;> rfl
    | cons c t =>
      obtain ⟨b', bound', rfl⟩ := List.exists_cons_of_ne_nil (List.ne_nil_of_length_pos
        (Nat.lt_of_lt_of_le (Nat.zero_lt_succ t.length) h'))
      simp only [List.length_cons] at h h'
      unfold withoutCommentsFrom
      split
      · next rest hrest =>
        have hlt := length_lt_of_comment? hrest
        rw [List.length_cons] at hlt
        exact ih (by omega) (by omega)
      · rw [ih (by omega : t.length ≤ bound.length) (by omega : t.length ≤ bound'.length)]

theorem withoutComments_cons {c : Char} {t : Text} (h : comment? (c :: t) = none) :
    withoutComments (c :: t) = c :: withoutComments t := by
  rw [withoutComments, withoutCommentsFrom, h]
  rfl

theorem withoutComments_comment {t rest : Text} (h : comment? t = some rest) :
    withoutComments t = withoutComments rest := by
  cases t with
  | nil => cases h
  | cons c t =>
    have hlt := length_lt_of_comment? h
    rw [List.length_cons] at hlt
    rw [withoutComments, withoutCommentsFrom, h]
    exact withoutCommentsFrom_eq (by omega) (Nat.le_refl _)

theorem withoutComments_append {w x : Text} (hw : ¬ "/*".toList <:+: w)
    (hx : x.head? ≠ some '*') : withoutComments (w ++ x) = w ++ withoutComments x := by
  induction w with
  | nil => rfl
  | cons c w ih =>
    rw [List.cons_append, withoutComments_cons (comment?_eq_none hw hx),
      ih fun h => hw (h.trans (List.suffix_cons c w).isInfix)]
    rfl

/-- Without comments, text with a gap after it is the text with white space after it. -/
theorem exists_withoutComments_append {t g : Text} (ht : ¬ "/*".toList <:+: t) (hg : Gap g) :
    ∃ b, (∀ c ∈ b, CharClass.isBlank c = true) ∧ withoutComments (t ++ g) = t ++ b := by
  have hstar : g.head? ≠ some '*' := by simpa using hg.head?_append_ne (x := []) nofun
  refine ⟨withoutComments g, ?_, withoutComments_append ht hstar⟩
  clear hstar
  induction hg with
  | nil => exact nofun
  | blank hc _ ih =>
    rw [withoutComments_cons (comment?_of_ne (ne_slash_of_isBlank hc) _)]
    exact List.forall_mem_cons.mpr ⟨hc, ih⟩
  | @comment body g unclosed _ _ ih =>
    have hcomment : comment? ('/' :: '*' :: (body ++ '*' :: '/' :: g)) = some g :=
      afterComment?_append unclosed g
    rw [withoutComments_comment hcomment]
    exact ih

theorem words_withoutComments_append {t g : Text} (ht : ¬ "/*".toList <:+: t) (hg : Gap g) :
    Text.words (withoutComments (t ++ g)) = Text.words t := by
  obtain ⟨b, hb, h⟩ := exists_withoutComments_append ht hg
  rw [h, Text.words_append hb]

theorem trim_withoutComments_append {t g : Text} (ht : ¬ "/*".toList <:+: t) (hg : Gap g) :
    Text.trim (withoutComments (t ++ g)) = Text.trim t := by
  obtain ⟨b, hb, h⟩ := exists_withoutComments_append ht hg
  rw [h, Text.trim_append hb]

end Stylesheet

end ReplCore
