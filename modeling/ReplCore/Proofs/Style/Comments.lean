import ReplCore.Proofs.Style.Places

/-!
# Comments in stylesheets

Comments in the right places change nothing, whether the stylesheet can be read or not: of the text
with comments put in, every reader reads the same as of the text, and leaves aligned rests.

* `rel_selectors`, `agree_declarations`, `rel_atRule`: the parts of rules, and at-rules.
* `leaves_block`: what is not read as an at-rule does not end as one, so that it is read as a rule
  with the same comments.
* `read?_of_commented`: the two texts are read as the same rules, or neither of them is read.
-/

namespace ReplCore.Stylesheet

section

variable {place : Place} {before : Option Char} {c : Char} {t u : Text}

/-! ## Readers one after the other -/

theorem rel_bind {α β γ δ : Type} {R : α → β → Prop} {S : γ → δ → Prop} {x : Option α}
    {y : Option β} {f : α → Option γ} {g : β → Option δ} (h : Option.Rel R x y)
    (hf : ∀ a b, R a b → Option.Rel S (f a) (g b)) : Option.Rel S (x >>= f) (y >>= g) := by
  cases h with
  | some h => exact hf _ _ h
  | none => exact .none

/-- A reader, and if it reads nothing another one. -/
theorem rel_or {α β : Type} {R : α → β → Prop} {x x' : Option α} {y y' : Option β}
    (h : Option.Rel R x y) (h' : Option.Rel R x' y') : Option.Rel R (x.or x') (y.or y') := by
  cases h with
  | some h => exact .some h
  | none => exact h'

/-- One more is read before the others. -/
theorem Agree.cons {α : Type} {a a' : α} {x y : List α × Text} (h : Agree place x y)
    (ha : a = a') : Agree place (a :: x.1, x.2) (a' :: y.1, y.2) := by
  refine ⟨?_, h.rest⟩
  show a :: x.1 = a' :: y.1
  rw [ha, h.same]

/-- An induction over aligned texts for readers whose number of rounds is bounded. -/
theorem Aligned.induction {motive : Place → Text → Text → Text → Text → Prop}
    (nil : ∀ place bound bound', motive place bound bound' [] [])
    (step : ∀ place b bound b' bound' t u, Aligned place t u →
      (∀ place' t' u', Aligned place' t' u' → t'.length < t.length → u'.length < u.length →
        motive place' bound bound' t' u') → motive place (b :: bound) (b' :: bound') t u)
    {bound bound' : Text} (h : Aligned place t u) (hbound : t.length ≤ bound.length)
    (hbound' : u.length ≤ bound'.length) : motive place bound bound' t u := by
  induction bound generalizing place bound' t u with
  | nil =>
    obtain rfl := List.eq_nil_of_length_eq_zero (Nat.le_zero.mp hbound)
    obtain rfl := h.eq_nil_iff.mp rfl
    exact nil place [] bound'
  | cons b bound ih =>
    cases bound' with
    | nil =>
      obtain rfl := List.eq_nil_of_length_eq_zero (Nat.le_zero.mp hbound')
      obtain rfl := h.eq_nil_iff.mpr rfl
      exact nil place (b :: bound) []
    | cons b' bound' =>
      rw [List.length_cons] at hbound hbound'
      exact step place b bound b' bound' t u h fun _ _ _ h' ht hu => ih h' (by omega) (by omega)

theorem rel_symbol (d : Char) (h : Aligned place t u) :
    Option.Rel (Aligned (place.next d)) (symbol d t) (symbol d u) := by
  cases h with
  | nil => exact .none
  | @cons c t u _ noComment more =>
    by_cases hc : c = d
    · subst hc
      rw [symbol_cons, symbol_cons]
      exact .some (more.aligned_skip (not_infix_tail noComment))
    · rw [symbol_of_ne hc, symbol_of_ne hc]
      exact .none

/-! ## Selectors -/

theorem rel_selector (h : Aligned .beforeSelector t u) :
    Option.Rel (Agree .selector) (selector t) (selector u) := by
  have hcommented : Commented .selector none t u :=
    h.commented fun c _ hblank _ _ more => by simpa [Place.next, hblank] using more
  obtain ⟨htake, b, hdrop⟩ := hcommented.takeWhile h.noComment (p := Place.selector.admits)
    (fun _ hc => hc) fun c hc => by
      simp only [Place.admits, decide_eq_true_eq] at hc
      simp [Place.next, Place.nextInside, hc]
  have hrest := hdrop.aligned_skip (not_infix_dropWhile h.noComment)
  have hselector : ∀ t, selector t = if t.takeWhile Place.selector.admits = [] then none
      else some (Text.join [' '] (Text.words (withoutComments
        (t.takeWhile Place.selector.admits))), skip (t.dropWhile Place.selector.admits)) :=
    selector_eq
  rw [hselector, hselector, htake]
  simp only [h.takeWhile_eq_nil_iff]
  split
  · exact .none
  · exact .some ⟨rfl, hrest⟩

theorem agree_moreSelectors {bound bound' : Text} (h : Aligned .selector t u)
    (hbound : t.length ≤ bound.length) (hbound' : u.length ≤ bound'.length) :
    Agree .selector (moreSelectors bound t) (moreSelectors bound' u) := by
  refine Aligned.induction (motive := fun place bound bound' t u => place = .selector →
    Agree .selector (moreSelectors bound t) (moreSelectors bound' u)) ?_ ?_ h hbound hbound' rfl
  · intro _ bound bound' _
    cases bound <;> cases bound' <;> exact ⟨rfl, .nil⟩
  · rintro _ b bound b' bound' t u h ih rfl
    have hnext : Option.Rel (Agree .selector) (symbol ',' t >>= selector)
        (symbol ',' u >>= selector) :=
      rel_bind (rel_symbol ',' h) fun _ _ => rel_selector
    rw [moreSelectors, moreSelectors]
    generalize hx : (symbol ',' t >>= selector) = x, hy : (symbol ',' u >>= selector) = y at hnext
    cases hnext with
    | none => exact ⟨rfl, h⟩
    | some hr =>
      have hmore := ih _ _ _ hr.rest (length_lt_of_nextSelector hx)
        (length_lt_of_nextSelector hy) rfl
      exact hmore.cons hr.same

theorem rel_selectors (h : Aligned .beforeSelector t u) :
    Option.Rel (Agree .selector) (selectors t) (selectors u) := by
  have hfirst := rel_selector h
  unfold selectors
  generalize selector t = x, selector u = y at hfirst
  cases hfirst with
  | none => exact .none
  | some hr =>
    have hmore := agree_moreSelectors hr.rest (Nat.le_refl _) (Nat.le_refl _)
    exact .some (hmore.cons hr.same)

/-! ## Declarations -/

theorem separates_of_continuesProperty (h : continuesProperty c = true) :
    separates c = false := by
  rw [← Bool.not_eq_true]
  intro hc
  simp only [separates, isDelimiter, isBlank_of_continuesProperty h, Bool.false_or,
    Bool.or_eq_true, decide_eq_true_eq] at hc
  rcases hc with (((rfl | rfl) | rfl) | rfl) | rfl <;> exact absurd h (by decide)

/-- No comment is put into a name, which has no separating character in it or before it. -/
theorem Commented.takeWhile_name (h : Commented .property before t u)
    (hbefore : before.any separates = false) :
    u.takeWhile continuesProperty = t.takeWhile continuesProperty ∧
      ∃ b, Commented .property b (t.dropWhile continuesProperty)
        (u.dropWhile continuesProperty) := by
  generalize hname : Place.property = place at h
  induction h with
  | nil => exact ⟨rfl, none, .nil⟩
  | @char _ _ c t u more ih =>
    subst hname
    by_cases hc : continuesProperty c = true
    · have hseparates := separates_of_continuesProperty hc
      have hcolon : c ≠ ':' := by
        rintro rfl
        cases hc
      have hplace : Place.property.next c = .property := if_neg hcolon
      rw [hplace] at ih
      obtain ⟨htake, hdrop⟩ := ih hseparates rfl
      rw [List.takeWhile_cons_of_pos hc, List.takeWhile_cons_of_pos hc,
        List.dropWhile_cons_of_pos hc, List.dropWhile_cons_of_pos hc, htake]
      exact ⟨rfl, hdrop⟩
    · rw [List.takeWhile_cons_of_neg hc, List.takeWhile_cons_of_neg hc,
        List.dropWhile_cons_of_neg hc, List.dropWhile_cons_of_neg hc]
      exact ⟨rfl, none, .char more⟩
  | @comment place before inside t u beside unclosed admitted more _ =>
    subst hname
    -- The name ends before the comment, since a character that separates is next.
    have hhead : t.head?.any separates = true := by
      rcases beside with hseparates | hhead
      · rw [hbefore] at hseparates
        cases hseparates
      · exact hhead
    cases t with
    | nil => cases hhead
    | cons c t =>
      have hc : ¬ continuesProperty c = true := by
        intro hc
        rw [List.head?_cons, Option.any_some, separates_of_continuesProperty hc] at hhead
        cases hhead
      have hslash : ¬ continuesProperty '/' = true := by decide
      rw [List.takeWhile_cons_of_neg hc, List.takeWhile_cons_of_neg hslash,
        List.dropWhile_cons_of_neg hc, List.dropWhile_cons_of_neg hslash]
      exact ⟨rfl, before, .comment (Or.inr hhead) unclosed admitted more⟩

theorem rel_propertyName (h : Aligned .beforeProperty t u) :
    Option.Rel (Agree .property) (propertyName t) (propertyName u) := by
  rw [propertyName_eq, propertyName_eq, ← beginsName_takeWhile t, ← beginsName_takeWhile u]
  by_cases hname : ∀ c ∈ t.head?, continuesProperty c = true
  · have hcommented : Commented .property none t u := by
      refine h.commented fun c hc hblank _ _ more => ?_
      have hbrace : c ≠ '\x7d' := by
        rintro rfl
        exact absurd (hname _ hc) (by decide)
      simpa [Place.next, hblank, hbrace] using more
    obtain ⟨htake, b, hdrop⟩ := hcommented.takeWhile_name rfl
    rw [htake]
    split
    · exact .some ⟨rfl, hdrop.aligned_skip (not_infix_dropWhile h.noComment)⟩
    · exact .none
  · -- Neither text begins with a character of a name.
    have hnil : t.takeWhile continuesProperty = [] := by
      cases t with
      | nil => rfl
      | cons c t => exact List.takeWhile_cons_of_neg fun hc => hname (by simpa using hc)
    rw [hnil, h.takeWhile_eq_nil_iff.mp hnil]
    exact .none

/-- A value ends before a semicolon or a brace. -/
theorem head?_propertyValue (t : Text) :
    ∀ c ∈ (propertyValue t).2.head?, c = ';' ∨ c = '\x7d' := by
  intro c hc
  have hstop : Place.value.admits c = false := by
    refine head?_skip_dropWhile (fun c hc => ?_) t c hc
    rw [← Bool.not_eq_false]
    exact fun hplain => absurd (Place.value.admits_of_not_isDelimiter hplain) (by simp [hc])
  exact Decidable.or_iff_not_imp_left.mpr (by simpa [Place.admits] using hstop)

/-- After a value there may be a semicolon, and then another declaration. -/
theorem aligned_getD_symbol (h : Aligned .value t u)
    (hhead : ∀ c ∈ t.head?, c = ';' ∨ c = '\x7d') :
    Aligned .beforeProperty ((symbol ';' t).getD t) ((symbol ';' u).getD u) := by
  cases h with
  | nil => exact .nil
  | @cons c t u notBlank noComment more =>
    rcases hhead c rfl with rfl | rfl
    · rw [symbol_cons, symbol_cons]
      exact more.aligned_skip (not_infix_tail noComment)
    · rw [symbol_of_ne (by decide), symbol_of_ne (by decide)]
      exact .cons notBlank noComment more

theorem agree_propertyValue (h : Aligned .beforeValue t u) :
    Agree .value (propertyValue t) (propertyValue u) := by
  have hcommented : Commented .value none t u :=
    h.commented fun c _ hblank _ _ more => by simpa [Place.next, hblank] using more
  obtain ⟨htake, b, hdrop⟩ := hcommented.takeWhile h.noComment (p := Place.value.admits)
    (fun _ hc => hc) fun c hc => by
      simp only [Place.admits, decide_eq_true_eq] at hc
      simp [Place.next, Place.nextInside, hc]
  exact ⟨congrArg Text.trim htake, hdrop.aligned_skip (not_infix_dropWhile h.noComment)⟩

theorem rel_declaration (h : Aligned .beforeProperty t u) :
    Option.Rel (fun x y => Agree .beforeProperty (x.1, (symbol ';' x.2).getD x.2)
      (y.1, (symbol ';' y.2).getD y.2)) (declaration t) (declaration u) := by
  refine rel_bind (rel_propertyName h) fun x y hname => ?_
  refine rel_bind (rel_symbol ':' hname.rest) fun r r' hr => .some ?_
  obtain ⟨hvalue, hrest⟩ := agree_propertyValue hr
  exact ⟨Prod.ext hname.same hvalue, aligned_getD_symbol hrest (head?_propertyValue r)⟩

theorem agree_declarations {bound bound' : Text} (h : Aligned .beforeProperty t u)
    (hbound : t.length ≤ bound.length) (hbound' : u.length ≤ bound'.length) :
    Agree .beforeProperty (declarations bound t) (declarations bound' u) := by
  refine Aligned.induction (motive := fun place bound bound' t u => place = .beforeProperty →
    Agree .beforeProperty (declarations bound t) (declarations bound' u)) ?_ ?_ h hbound hbound' rfl
  · intro _ bound bound' _
    cases bound <;> cases bound' <;> exact ⟨rfl, .nil⟩
  · rintro _ b bound b' bound' t u h ih rfl
    have hfirst := rel_declaration h
    rw [declarations, declarations]
    generalize hx : declaration t = x, hy : declaration u = y at hfirst
    cases hfirst with
    | none => exact ⟨rfl, h⟩
    | @some r r' hr =>
      have hmore := ih _ _ _ hr.rest
        (Nat.lt_of_le_of_lt (length_getD_symbol_le ';' r.2) (length_lt_of_declaration hx))
        (Nat.lt_of_le_of_lt (length_getD_symbol_le ';' r'.2) (length_lt_of_declaration hy)) rfl
      exact hmore.cons hr.same

/-! ## At-rules -/

theorem aligned_blockItems {bound bound' : Text} {depth : Nat} (h : Aligned (.block depth) t u)
    (hbound : t.length ≤ bound.length) (hbound' : u.length ≤ bound'.length) :
    Aligned (.block depth) (blockItems bound t) (blockItems bound' u) := by
  refine Aligned.induction (motive := fun place bound bound' t u => ∀ depth,
    place = .block depth → Aligned (.block depth) (blockItems bound t) (blockItems bound' u))
    ?_ ?_ h hbound hbound' depth rfl
  · intro _ bound bound' _ _
    cases bound <;> cases bound' <;> exact .nil
  · rintro _ b bound b' bound' t u h ih depth rfl
    cases h with
    | nil => exact .nil
    | @cons c t u notBlank noComment more =>
      by_cases hopen : c = '\x7b'
      · -- A block inside, and what follows it.
        subst hopen
        have hinside := ih _ _ _ (more.aligned_skip (not_infix_tail noComment))
          (Nat.lt_succ_of_le (length_skip_le t)) (Nat.lt_succ_of_le (length_skip_le u)) _ rfl
        have hclose := rel_symbol '\x7d' hinside
        rw [blockItems, blockItems, if_pos rfl, if_pos rfl]
        generalize hx : symbol '\x7d' (blockItems bound (skip t)) = x,
          hy : symbol '\x7d' (blockItems bound' (skip u)) = y at hclose
        cases hclose with
        | none => exact .cons notBlank noComment more
        | some hafter =>
          exact ih _ _ _ hafter (length_lt_of_inside hx) (length_lt_of_inside hy) _ rfl
      · by_cases hclose : c = '\x7d'
        · rw [blockItems, blockItems, if_neg hopen, if_neg hopen, if_pos hclose, if_pos hclose]
          exact .cons notBlank noComment more
        · -- Text up to the next brace.
          have htext : ∀ v, (c :: v).dropWhile (fun c => c ≠ '\x7b' ∧ c ≠ '\x7d') =
              v.dropWhile fun c => c ≠ '\x7b' ∧ c ≠ '\x7d' := fun v =>
            List.dropWhile_cons_of_pos (decide_eq_true ⟨hopen, hclose⟩)
          rw [Place.next_block ⟨hopen, hclose⟩] at more
          obtain ⟨-, before, hdrop⟩ := more.takeWhile (not_infix_tail noComment)
            (p := fun c => c ≠ '\x7b' ∧ c ≠ '\x7d') (fun c hc => decide_eq_true
              ⟨ne_of_isDelimiter (Place.isDelimiter_of_admits rfl hc) rfl,
                ne_of_isDelimiter (Place.isDelimiter_of_admits rfl hc) rfl⟩)
            fun c hc => Place.next_block (of_decide_eq_true hc) depth
          rw [blockItems, blockItems, if_neg hopen, if_neg hopen, if_neg hclose, if_neg hclose,
            htext, htext]
          exact ih _ _ _ (hdrop.aligned_skip (not_infix_dropWhile (not_infix_tail noComment)))
            (Nat.lt_succ_of_le (length_skip_dropWhile_le _ t))
            (Nat.lt_succ_of_le (length_skip_dropWhile_le _ u)) _ rfl

theorem rel_block (h : Aligned .prelude t u) :
    Option.Rel (Aligned .outside) (block t) (block u) :=
  rel_bind (rel_symbol '\x7b' h) fun _ _ hinside =>
    rel_symbol '\x7d' (aligned_blockItems hinside (Nat.le_refl _) (Nat.le_refl _))

theorem rel_atRule (h : Aligned .outside t u) :
    Option.Rel (Aligned .outside) (atRule t) (atRule u) := by
  rw [atRule, atRule, ← h.head?_eq]
  split
  · next hat =>
    have hcommented : Commented .prelude none t u := by
      refine h.commented fun c hc _ _ _ more => ?_
      rw [Option.some.inj (hc.symm.trans hat)] at more ⊢
      exact more
    obtain ⟨-, b, hdrop⟩ := hcommented.takeWhile h.noComment
      (p := fun c => c ≠ '\x7b' ∧ c ≠ ';') (fun c hc => decide_eq_true
        ⟨ne_of_isDelimiter (Place.isDelimiter_of_admits rfl hc) rfl,
          ne_of_isDelimiter (Place.isDelimiter_of_admits rfl hc) rfl⟩)
      fun c hc => Place.next_prelude (of_decide_eq_true hc)
    have hrest := hdrop.aligned_skip (not_infix_dropWhile h.noComment)
    exact rel_or (rel_symbol ';' hrest) (rel_block hrest)
  · exact .none

/-! ## At-rules that do not end -/

/-- Where no comment is, white space alone is passed over. -/
theorem skip_eq_dropWhile (noComment : ¬ "/*".toList <:+: t) :
    skip t = t.dropWhile CharClass.isBlank := by
  induction t with
  | nil => rfl
  | cons c t ih =>
    by_cases hc : CharClass.isBlank c = true
    · rw [skip_blank hc, List.dropWhile_cons_of_pos hc, ih (not_infix_tail noComment)]
    · rw [List.dropWhile_cons_of_neg hc, skip_cons (Bool.eq_false_iff.mpr hc)
        (comment?_cons_eq_none (head?_ne_star noComment))]

theorem leaves_skip (h : place.inAtRule = true) (noComment : ¬ "/*".toList <:+: t) :
    place.leaves (skip t) = place.leaves t := by
  rw [skip_eq_dropWhile noComment]
  exact Place.leaves_dropWhile h (fun _ => place.next_of_isBlank) t

/-- A text leads out of a block just if a brace that closes the block is found. By induction on how
the blocks inside are read. -/
theorem leaves_block (bound t : Text) (noComment : ¬ "/*".toList <:+: t)
    (hbound : t.length ≤ bound.length) : ∀ depth, (Place.block depth).leaves t =
      (symbol '\x7d' (blockItems bound t)).any fun after =>
        (Place.block depth).leaves ('\x7d' :: after) := by
  induction bound, t using blockItems.induct with
  | case1 t =>
    rw [List.eq_nil_of_length_eq_zero (Nat.le_zero.mp hbound)]
    exact fun _ => rfl
  | case2 bound _ =>
    intro depth
    cases bound <;> rfl
  | case3 b bound t after hafter ihInside ihAfter =>
    intro depth
    rw [List.length_cons, List.length_cons] at hbound
    have hskip := not_infix_of_suffix (not_infix_tail noComment) (skip_suffix t)
    have hsuffix : after <:+ skip t :=
      (symbol_suffix hafter).trans (blockItems_suffix bound (skip t))
    have hle := length_skip_le t
    have hlt := hsuffix.length_le
    calc (Place.block depth).leaves ('\x7b' :: t)
      _ = (Place.block (depth + 1)).leaves (skip t) :=
        (leaves_skip rfl (not_infix_tail noComment)).symm
      _ = (Place.block depth).leaves after := by
        rw [ihInside hskip (by omega), hafter]
        rfl
      _ = (symbol '\x7d' (blockItems bound after)).any fun after =>
          (Place.block depth).leaves ('\x7d' :: after) :=
        ihAfter (not_infix_of_suffix hskip hsuffix) (by omega) depth
      _ = _ := by rw [blockItems, if_pos rfl, hafter]
  | case4 b bound t hafter ihInside =>
    intro depth
    rw [List.length_cons, List.length_cons] at hbound
    have hskip := not_infix_of_suffix (not_infix_tail noComment) (skip_suffix t)
    have hle := length_skip_le t
    calc (Place.block depth).leaves ('\x7b' :: t)
      _ = (Place.block (depth + 1)).leaves (skip t) :=
        (leaves_skip rfl (not_infix_tail noComment)).symm
      _ = false := by rw [ihInside hskip (by omega), hafter, Option.any_none]
      _ = _ := by rw [blockItems, if_pos rfl, hafter, symbol_of_ne (by decide), Option.any_none]
  | case5 b bound t hne =>
    intro depth
    rw [blockItems, if_neg hne, if_pos rfl, symbol_cons, Option.any_some]
    cases depth with
    | zero => rfl
    | succ depth => exact (@leaves_skip (.block depth) t rfl (not_infix_tail noComment)).symm
  | case6 b bound c t hopen hclose ih =>
    intro depth
    have hlength := length_skip_dropWhile_le (fun x => x ≠ '\x7b' ∧ x ≠ '\x7d') t
    have htext : (c :: t).dropWhile (fun x => x ≠ '\x7b' ∧ x ≠ '\x7d') =
        t.dropWhile fun x => x ≠ '\x7b' ∧ x ≠ '\x7d' :=
      List.dropWhile_cons_of_pos (decide_eq_true ⟨hopen, hclose⟩)
    have hdrop := not_infix_dropWhile (p := fun x => x ≠ '\x7b' ∧ x ≠ '\x7d') noComment
    rw [List.length_cons, List.length_cons] at hbound
    have ih := ih (not_infix_of_suffix hdrop (skip_suffix _)) (by rw [htext]; omega) depth
    rw [blockItems, if_neg hopen, if_neg hclose, ← ih, leaves_skip rfl hdrop]
    exact (Place.leaves_dropWhile rfl
      (fun c hc => Place.next_block (of_decide_eq_true hc) depth) (c :: t)).symm

/-- What cannot be read as an at-rule leads out of none. -/
theorem leaves_of_atRule_eq_none (noComment : ¬ "/*".toList <:+: t) (hat : t.head? = some '@')
    (h : atRule t = none) : Place.prelude.leaves t = false := by
  rw [atRule, if_pos hat] at h
  obtain ⟨hsemicolon, hblock⟩ := Option.or_eq_none_iff.mp h
  have hhead := head?_skip_dropWhile (p := fun c => c ≠ '\x7b' ∧ c ≠ ';') (fun c hc => by
    simp only [decide_eq_false_iff_not] at hc
    grind [isDelimiter]) t
  have hdrop := not_infix_dropWhile (p := fun c => c ≠ '\x7b' ∧ c ≠ ';') noComment
  have hskip := not_infix_of_suffix hdrop (skip_suffix _)
  have hleaves : Place.prelude.leaves (skip (t.dropWhile fun c => c ≠ '\x7b' ∧ c ≠ ';')) =
      Place.prelude.leaves t := by
    rw [leaves_skip rfl hdrop]
    exact Place.leaves_dropWhile rfl (fun c hc => Place.next_prelude (of_decide_eq_true hc)) t
  rw [← hleaves]
  generalize skip (t.dropWhile fun c => c ≠ '\x7b' ∧ c ≠ ';') = rest at *
  cases rest with
  | nil => rfl
  | cons c rest =>
    have hc : c = '\x7b' ∨ c = ';' := by
      have := hhead c rfl
      simp only [decide_eq_false_iff_not] at this
      grind
    rcases hc with rfl | rfl
    · have hrest := not_infix_tail hskip
      have hopen : symbol '\x7d' (blockItems (skip rest) (skip rest)) = none := by
        simpa [block, symbol_cons] using hblock
      have hblockLeaves := leaves_block _ _ (not_infix_of_suffix hrest (skip_suffix rest))
        (Nat.le_refl _) 0
      rw [hopen, leaves_skip rfl hrest] at hblockLeaves
      exact hblockLeaves
    · rw [symbol_cons] at hsemicolon
      cases hsemicolon

/-! ## Rules -/

theorem Aligned.beforeSelector (h : Aligned .outside t u) (hat : atRule t = none) :
    Aligned .beforeSelector t u := by
  cases h with
  | nil => exact .nil
  | @cons c t u notBlank noComment more =>
    refine .cons notBlank noComment ?_
    by_cases hc : c = '@'
    · subst hc
      have hleaves := leaves_of_atRule_eq_none noComment rfl hat
      exact Commented.of_leaves_eq_false more rfl hleaves _
    · simpa [Place.next, notBlank, hc] using more

theorem rel_rule (h : Aligned .beforeSelector t u) :
    Option.Rel (Agree .outside) (rule t) (rule u) := by
  refine rel_bind (rel_selectors h) fun _ _ hselectors => ?_
  refine rel_bind (rel_symbol '\x7b' hselectors.rest) fun _ _ hbody => ?_
  have hds := agree_declarations hbody (Nat.le_refl _) (Nat.le_refl _)
  refine rel_bind (rel_symbol '\x7d' hds.rest) fun _ _ hafter => .some ⟨?_, hafter⟩
  show StyleRule.mk _ _ = StyleRule.mk _ _
  rw [hselectors.same, hds.same]

theorem agree_rules {bound bound' : Text} (h : Aligned .outside t u)
    (hbound : t.length ≤ bound.length) (hbound' : u.length ≤ bound'.length) :
    Agree .outside (rules bound t) (rules bound' u) := by
  refine Aligned.induction (motive := fun place bound bound' t u => place = .outside →
    Agree .outside (rules bound t) (rules bound' u)) ?_ ?_ h hbound hbound' rfl
  · intro _ bound bound' _
    cases bound <;> cases bound' <;> exact ⟨rfl, .nil⟩
  · rintro _ b bound b' bound' t u h ih rfl
    have hatRule := rel_atRule h
    rw [rules, rules]
    generalize hx : atRule t = x, hy : atRule u = y at hatRule
    cases hatRule with
    | some hrest =>
      exact ih _ _ _ hrest (length_lt_of_atRule hx) (length_lt_of_atRule hy) rfl
    | none =>
      have hrule := rel_rule (h.beforeSelector hx)
      generalize hx : rule t = x, hy : rule u = y at hrule
      cases hrule with
      | none => exact ⟨rfl, h⟩
      | some hr =>
        exact (ih _ _ _ hr.rest (length_lt_of_rule hx) (length_lt_of_rule hy) rfl).cons hr.same

end

/-- A stylesheet without comments is read as the same rules, or cannot be read, when comments are
put in next to white space and to the characters that separate tokens. A comment may have anything
in it between the tokens of rules, all but the characters at which they end in a selector or a
value, and all but the delimiters in an at-rule. -/
theorem read?_of_commented {t u : Text} (noComment : ¬ "/*".toList <:+: t)
    (h : Commented .outside none t u) : read? u = read? t := by
  have hskip := h.aligned_skip noComment
  obtain ⟨hsame, hrest⟩ := agree_rules hskip (Nat.le_refl _) (Nat.le_refl _)
  simp only [read?]
  generalize rules (skip t) (skip t) = x, rules (skip u) (skip u) = y at hsame hrest
  obtain ⟨rs, rest⟩ := x
  obtain ⟨rs', rest'⟩ := y
  cases hrest with
  | nil => exact congrArg some hsame.symm
  | cons _ _ _ => rfl

/-- A comment with delimiters before a rule, one between its selector and its block, and one in its
value. -/
theorem read?_of_commented_rule :
    read? "/* x, y; */\na/* x */\x7bb: c/* y, z */ d\x7d".toList =
        read? "\na\x7bb: c d\x7d".toList ∧
      read? "\na\x7bb: c d\x7d".toList = some [⟨["a".toList], [("b".toList, "c d".toList)]⟩] := by
  have hvalue := @Commented.comment .value (some 'c') " y, z ".toList _ _ (Or.inr rfl)
    (by decide +kernel) (by simp [Place.admits])
    (.char (c := ' ') (.char (c := 'd') (.char (c := '\x7d') .nil)))
  have hrule := @Commented.comment .selector (some 'a') " x ".toList _ _ (Or.inr rfl)
    (by decide +kernel) (by simp [Place.admits])
    (.char (c := '\x7b') (.char (c := 'b') (.char (c := ':')
      (.char (c := ' ') (.char (c := 'c') hvalue)))))
  have hsheet := @Commented.comment .outside none " x, y; ".toList _ _ (Or.inr rfl)
    (by decide +kernel) (by simp [Place.admits]) (.char (c := '\n') (.char (c := 'a') hrule))
  have hof : ∀ {t t' u u' : Text}, Commented .outside none t u → t = t' → u = u' →
      Commented .outside none t' u' := fun h ht hu => ht ▸ hu ▸ h
  have hcommented : Commented .outside none "\na\x7bb: c d\x7d".toList
      "/* x, y; */\na/* x */\x7bb: c/* y, z */ d\x7d".toList :=
    hof hsheet (by decide +kernel) (by decide +kernel)
  exact ⟨read?_of_commented (by decide +kernel) hcommented, by decide +kernel⟩

-- A comma in a comment in a selector ends the selector.
example : read? "a/* , */\x7b\x7d".toList = some [⟨["a/*".toList, "*/".toList], []⟩] := by
  decide +kernel

end ReplCore.Stylesheet
