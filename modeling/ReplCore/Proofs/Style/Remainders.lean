import ReplCore.Proofs.Style.Stylesheets

/-!
# What readers leave

What a reader leaves is a suffix of what it was given and shorter than that: a bound as long as the
text is long enough for every list and block. Selectors and names of properties are what a text
begins with.

* `selector_eq`, `propertyName_eq`: selectors and names, by the characters they are made of.
* `skip_suffix`, `blockItems_suffix`: what is passed over is in front of what is left.
* `length_lt_of_declaration`, `length_lt_of_atRule`, `length_lt_of_rule`: a reader takes something.
-/

namespace ReplCore.Stylesheet

variable {c : Char} {t : Text}

/-! ## Selectors and names -/

theorem selector_eq (t : Text) : selector t =
    if t.takeWhile (fun c => c ≠ ',' ∧ c ≠ '\x7b' ∧ c ≠ '\x7d') = [] then none
    else some (Text.join [' '] (Text.words (withoutComments
        (t.takeWhile fun c => c ≠ ',' ∧ c ≠ '\x7b' ∧ c ≠ '\x7d'))),
      skip (t.dropWhile fun c => c ≠ ',' ∧ c ≠ '\x7b' ∧ c ≠ '\x7d')) := by
  unfold selector run
  split
  · next hnil => rw [if_pos (Prod.mk.inj hnil).1]
  · next s rest hne hrun =>
    obtain ⟨rfl, rfl⟩ := Prod.mk.inj hrun
    rw [if_neg hne]

theorem continuesProperty_of_begins (h : beginsProperty c = true) : continuesProperty c = true := by
  rw [continuesProperty, h]
  rfl

/-- Whether a text begins with a name. -/
def beginsName : Text → Bool
  | '-' :: c :: _ => beginsProperty c
  | c :: _ => beginsProperty c
  | [] => false

/-- The name alone says whether the text begins with one. -/
theorem beginsName_takeWhile (t : Text) :
    beginsName (t.takeWhile continuesProperty) = beginsName t := by
  cases t with
  | nil => rfl
  | cons c t =>
    by_cases hc : continuesProperty c = true
    · rw [List.takeWhile_cons_of_pos hc]
      cases t with
      | nil => rfl
      | cons d t =>
        by_cases hd : continuesProperty d = true
        · rw [List.takeWhile_cons_of_pos hd]
          by_cases hc : c = '-' <;> simp [beginsName, hc]
        · have hbegins : beginsProperty d = false :=
            Bool.eq_false_iff.mpr fun h => hd (continuesProperty_of_begins h)
          rw [List.takeWhile_cons_of_neg hd]
          by_cases hc : c = '-'
          · rw [hc]
            exact hbegins.symm
          · simp [beginsName, hc]
    · have hbegins : beginsProperty c = false :=
        Bool.eq_false_iff.mpr fun h => hc (continuesProperty_of_begins h)
      have hne : c ≠ '-' := fun h => hc (h ▸ rfl)
      rw [List.takeWhile_cons_of_neg hc]
      simp [beginsName, hne, hbegins]

theorem propertyName_eq (t : Text) : propertyName t =
    if beginsName t = true then
      some (Text.foldCase (t.takeWhile continuesProperty), skip (t.dropWhile continuesProperty))
    else none := by
  have hdrop : t.drop (t.takeWhile continuesProperty).length = t.dropWhile continuesProperty :=
    calc t.drop (t.takeWhile continuesProperty).length
      _ = (t.takeWhile continuesProperty ++ t.dropWhile continuesProperty).drop
          (t.takeWhile continuesProperty).length := by rw [List.takeWhile_append_dropWhile]
      _ = t.dropWhile continuesProperty := List.drop_left
  rw [← hdrop]
  unfold propertyName
  split
  · next c rest =>
    have hhyphen : continuesProperty '-' = true := rfl
    by_cases hc : beginsProperty c = true
    · simp [beginsName, hc, hhyphen, continuesProperty_of_begins hc]
    · simp [beginsName, hc]
  · next c rest hne =>
    have hname : beginsName (c :: rest) = beginsProperty c := by
      rw [beginsName]
      exact hne
    by_cases hc : beginsProperty c = true
    · simp [hname, hc, continuesProperty_of_begins hc]
    · simp [hname, hc]
  · rfl

/-! ## Suffixes -/

theorem afterComment?_suffix {rest : Text} (h : afterComment? t = some rest) : rest <:+ t := by
  induction t using afterComment?.induct with
  | case1 => cases h
  | case2 t =>
    rw [afterComment?] at h
    rw [← Option.some.inj h]
    exact List.suffix_append ['*', '/'] t
  | case3 c t hopen ih =>
    rw [afterComment?] at h
    · exact (ih h).trans (List.suffix_cons c t)
    · exact hopen

theorem comment?_suffix {rest : Text} (h : comment? t = some rest) : rest <:+ t := by
  unfold comment? at h
  split at h
  · next t => exact (afterComment?_suffix h).trans (List.suffix_append ['/', '*'] t)
  · cases h

theorem skip_suffix (t : Text) : skip t <:+ t := by
  have hfrom : ∀ bound t : Text, skipFrom bound t <:+ t := by
    intro bound
    induction bound with
    | nil => intro t; cases t <;> exact List.suffix_rfl
    | cons b bound ih =>
      intro t
      cases t with
      | nil => exact List.suffix_rfl
      | cons c t =>
        unfold skipFrom
        split
        · exact (ih t).trans (List.suffix_cons c t)
        · split
          · next rest hrest => exact (ih rest).trans (comment?_suffix hrest)
          · exact List.suffix_rfl
  exact hfrom t t

theorem symbol_suffix {d : Char} {rest : Text} (h : symbol d t = some rest) : rest <:+ t := by
  cases t with
  | nil => cases h
  | cons c t =>
    rw [symbol] at h
    split at h
    · rw [← Option.some.inj h]
      exact (skip_suffix t).trans (List.suffix_cons c t)
    · cases h

theorem blockItems_suffix (bound t : Text) : blockItems bound t <:+ t := by
  induction bound, t using blockItems.induct with
  | case1 t => exact List.suffix_rfl
  | case2 bound => cases bound <;> exact List.suffix_rfl
  | case3 b bound t after hafter ihInside ihAfter =>
    rw [blockItems, if_pos rfl, hafter]
    exact (ihAfter.trans (symbol_suffix hafter)).trans
      (ihInside.trans ((skip_suffix t).trans (List.suffix_cons _ t)))
  | case4 b bound t hafter _ =>
    have hstop : blockItems (b :: bound) ('\x7b' :: t) = '\x7b' :: t := by
      rw [blockItems, if_pos rfl, hafter]
    exact ⟨[], hstop⟩
  | case5 b bound t hne =>
    have hstop : blockItems (b :: bound) ('\x7d' :: t) = '\x7d' :: t := by
      rw [blockItems, if_neg hne, if_pos rfl]
    exact ⟨[], hstop⟩
  | case6 b bound c t hopen hclose ih =>
    rw [blockItems, if_neg hopen, if_neg hclose]
    exact ih.trans ((skip_suffix _).trans (List.dropWhile_suffix _))

/-! ## Lengths -/

theorem length_lt_of_symbol {d : Char} {rest : Text} (h : symbol d t = some rest) :
    rest.length < t.length := by
  cases t with
  | nil => cases h
  | cons c t =>
    rw [symbol] at h
    split at h
    · rw [← Option.some.inj h]
      exact Nat.lt_succ_of_le (length_skip_le t)
    · cases h

theorem length_skip_dropWhile_le (p : Char → Bool) (t : Text) :
    (skip (t.dropWhile p)).length ≤ t.length :=
  Nat.le_trans (length_skip_le _) (List.dropWhile_suffix p).length_le

theorem length_le_of_selector {r : Text × Text} (h : selector t = some r) :
    r.2.length ≤ t.length := by
  rw [selector_eq] at h
  split at h
  · cases h
  · rw [← Option.some.inj h]
    exact length_skip_dropWhile_le _ t

theorem length_lt_of_declaration {r : (Text × Text) × Text} (h : declaration t = some r) :
    r.2.length < t.length := by
  obtain ⟨⟨name, rest⟩, hname, h⟩ := Option.bind_eq_some_iff.mp h
  obtain ⟨rest', hcolon, h⟩ := Option.bind_eq_some_iff.mp h
  have hle : rest.length ≤ t.length := by
    rw [propertyName_eq] at hname
    split at hname
    · rw [← (Prod.mk.inj (Option.some.inj hname)).2]
      exact length_skip_dropWhile_le _ t
    · cases hname
  have hlt := length_lt_of_symbol hcolon
  have hvalue : r.2.length ≤ rest'.length := by
    rw [← Option.some.inj h]
    exact length_skip_dropWhile_le _ rest'
  omega

theorem length_lt_of_inside {bound rest : Text}
    (h : symbol '\x7d' (blockItems bound (skip t)) = some rest) :
    rest.length < (c :: t).length := by
  have hlt := length_lt_of_symbol h
  have hle := (blockItems_suffix bound (skip t)).length_le
  have hskip := length_skip_le t
  rw [List.length_cons]
  omega

theorem length_lt_of_block {rest : Text} (h : block t = some rest) : rest.length < t.length := by
  obtain ⟨inside, hopen, hclose⟩ := Option.bind_eq_some_iff.mp h
  have hle := (blockItems_suffix inside inside).length_le
  have hopen := length_lt_of_symbol hopen
  have hclose := length_lt_of_symbol hclose
  omega

theorem length_lt_of_atRule {rest : Text} (h : atRule t = some rest) : rest.length < t.length := by
  rw [atRule] at h
  split at h
  · have hle : (run (fun c => c ≠ '\x7b' ∧ c ≠ ';') t).2.length ≤ t.length :=
      length_skip_dropWhile_le _ t
    rcases Option.or_eq_some_iff.mp h with hsemicolon | ⟨-, hblock⟩
    · exact Nat.lt_of_lt_of_le (length_lt_of_symbol hsemicolon) hle
    · exact Nat.lt_of_lt_of_le (length_lt_of_block hblock) hle
  · cases h

theorem length_lt_of_nextSelector {r : Text × Text} (h : (symbol ',' t >>= selector) = some r) :
    r.2.length < t.length := by
  obtain ⟨rest, hcomma, hselector⟩ := Option.bind_eq_some_iff.mp h
  exact Nat.lt_of_le_of_lt (length_le_of_selector hselector) (length_lt_of_symbol hcomma)

theorem length_getD_symbol_le (d : Char) (t : Text) :
    ((symbol d t).getD t).length ≤ t.length := by
  cases h : symbol d t with
  | none => exact Nat.le_refl _
  | some rest => exact Nat.le_of_lt (length_lt_of_symbol h)

theorem length_moreSelectors_le (bound t : Text) :
    (moreSelectors bound t).2.length ≤ t.length := by
  induction bound generalizing t with
  | nil => exact Nat.le_refl _
  | cons b bound ih =>
    rw [moreSelectors]
    split
    · exact Nat.le_refl _
    · next s rest hnext =>
      exact Nat.le_trans (ih rest) (Nat.le_of_lt (length_lt_of_nextSelector hnext))

theorem length_declarations_le (bound t : Text) :
    (declarations bound t).2.length ≤ t.length := by
  induction bound generalizing t with
  | nil => exact Nat.le_refl _
  | cons b bound ih =>
    rw [declarations]
    split
    · exact Nat.le_refl _
    · next d rest hd =>
      have hlt : rest.length < t.length := length_lt_of_declaration hd
      have hle := length_getD_symbol_le ';' rest
      have hmore := ih ((symbol ';' rest).getD rest)
      exact Nat.le_trans hmore (by omega)

theorem length_lt_of_rule {r : StyleRule × Text} (h : rule t = some r) : r.2.length < t.length := by
  obtain ⟨⟨ss, inside⟩, hselectors, h⟩ := Option.bind_eq_some_iff.mp h
  obtain ⟨body, hopen, h⟩ := Option.bind_eq_some_iff.mp h
  obtain ⟨after, hclose, h⟩ := Option.bind_eq_some_iff.mp h
  obtain ⟨⟨s, rest⟩, hselector, hmore⟩ := Option.map_eq_some_iff.mp hselectors
  have hs : rest.length ≤ t.length := length_le_of_selector hselector
  have hinside : inside.length ≤ rest.length := by
    rw [← (Prod.mk.inj hmore).2]
    exact length_moreSelectors_le rest rest
  have hbody := length_lt_of_symbol hopen
  have hds := length_declarations_le body body
  have hafter := length_lt_of_symbol hclose
  rw [← Option.some.inj h]
  show after.length < t.length
  omega

end ReplCore.Stylesheet
