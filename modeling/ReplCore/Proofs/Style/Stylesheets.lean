import ReplCore.Proofs.Style.Gaps

/-!
# Written stylesheets are read

A stylesheet is a list of rules and at-rules. It is written with gaps around its tokens, and the
reader gives its rules back, whatever the gaps are. Each relation between what is written and its
text puts a gap before the first token, so that a reader, which skips what follows a token, stands
at the next one.

* `selectors_of_writes`, `declarations_of_writes`, `block_of_writes`: the parts are read.
* `rules_of_writesItem`: what is read of one item.
* `read?_of_writes`: a written stylesheet is read as its rules.
-/

namespace ReplCore.Stylesheet

/-! ## Stylesheets -/

/-- A selector with single spaces inside and none around. -/
structure Selector where
  text : Text
  text_ne_nil : text ≠ []
  join_words : Text.join [' '] (Text.words text) = text
  plain : ∀ c ∈ text, c ≠ ',' ∧ c ≠ '\x7b' ∧ c ≠ '\x7d'
  noComment : ¬ "/*".toList <:+: text

/-- Whether a character may begin the name of a property in small letters. -/
def beginsSmall (c : Char) : Bool := c = '_' || ('a' ≤ c && c ≤ 'z')

/-- Whether a character may continue the name of a property in small letters. -/
def continuesSmall (c : Char) : Bool := beginsSmall c || c = '-' || ('0' ≤ c && c ≤ '9')

/-- Whether a text is the name of a property in small letters. -/
def isPropertyName : Text → Bool
  | '-' :: c :: rest => beginsSmall c && rest.all continuesSmall
  | c :: rest => beginsSmall c && rest.all continuesSmall
  | [] => false

/-- A property with its value, which may be empty. -/
structure Property where
  name : Text
  value : Text
  isPropertyName_name : isPropertyName name = true
  trim_value : Text.trim value = value
  plain : ∀ c ∈ value, c ≠ ';' ∧ c ≠ '\x7d'
  noComment : ¬ "/*".toList <:+: value

/-- What stands in an at-rule before its block or its semicolon. -/
structure Prelude where
  text : Text
  head_text : text.head? = some '@'
  plain : ∀ c ∈ text, c ≠ '\x7b' ∧ c ≠ ';'
  noComment : ¬ "/*".toList <:+: text

/-- What stands in a block between braces. -/
structure BlockText where
  text : Text
  plain : ∀ c ∈ text, c ≠ '\x7b' ∧ c ≠ '\x7d'
  noComment : ¬ "/*".toList <:+: text

/-- What is in a block: a text, and then no more or a block in braces and what follows it. -/
inductive Block
  | last (t : BlockText)
  | nest (t : BlockText) (inner rest : Block)

/-- A rule or an at-rule, which ends with a semicolon if it has no block. -/
inductive Item
  | rule (first : Selector) (more : List Selector) (properties : List Property)
      (isRule : first.text.head? ≠ some '@')
  | atRule (prelude : Prelude) (body : Option Block)

/-- The rule that an item is. -/
def Item.rule? : Item → Option StyleRule
  | rule first more properties _ =>
    some ⟨(first :: more).map Selector.text, properties.map fun p => (p.name, p.value)⟩
  | atRule _ _ => none

/-! ## Their text -/

/-- Selectors with commas between them. -/
inductive WritesSelectors : List Selector → Text → Prop
  | last {s : Selector} {g g' : Text} (before : Gap g) (after : Gap g') :
      WritesSelectors [s] (g ++ s.text ++ g')
  | cons {s : Selector} {ss : List Selector} {g g' t : Text} (before : Gap g) (after : Gap g')
      (more : WritesSelectors ss t) : WritesSelectors (s :: ss) (g ++ s.text ++ g' ++ ',' :: t)

/-- A property with a colon before its value. -/
inductive WritesProperty (p : Property) : Text → Prop
  | intro {g₁ g₂ g₃ g₄ : Text} (before : Gap g₁) (beforeColon : Gap g₂) (afterColon : Gap g₃)
      (after : Gap g₄) : WritesProperty p (g₁ ++ p.name ++ g₂ ++ ':' :: (g₃ ++ p.value ++ g₄))

/-- Properties with semicolons between them, and one after the last of them or not. -/
inductive WritesProperties : List Property → Text → Prop
  | nil {g : Text} (gap : Gap g) : WritesProperties [] g
  | last {p : Property} {t : Text} (first : WritesProperty p t) : WritesProperties [p] t
  | cons {p : Property} {ps : List Property} {t u : Text} (first : WritesProperty p t)
      (more : WritesProperties ps u) : WritesProperties (p :: ps) (t ++ ';' :: u)

/-- What is in a block, with the braces inside it. -/
inductive WritesBlock : Block → Text → Prop
  | last {t : BlockText} {g g' : Text} (before : Gap g) (after : Gap g') :
      WritesBlock (.last t) (g ++ t.text ++ g')
  | nest {t : BlockText} {inner rest : Block} {g g' u v : Text} (before : Gap g) (after : Gap g')
      (inside : WritesBlock inner u) (more : WritesBlock rest v) :
      WritesBlock (.nest t inner rest) (g ++ t.text ++ g' ++ '\x7b' :: (u ++ '\x7d' :: v))

/-- An item up to its semicolon or its last brace. -/
inductive WritesItem : Item → Text → Prop
  | rule {first : Selector} {more : List Selector} {properties : List Property}
      {t u : Text} (isRule : first.text.head? ≠ some '@')
      (selectors : WritesSelectors (first :: more) t) (body : WritesProperties properties u) :
      WritesItem (.rule first more properties isRule) (t ++ '\x7b' :: (u ++ ['\x7d']))
  | statement {p : Prelude} {g g' : Text} (before : Gap g) (after : Gap g') :
      WritesItem (.atRule p none) (g ++ p.text ++ g' ++ [';'])
  | block {p : Prelude} {b : Block} {g g' t : Text} (before : Gap g) (after : Gap g')
      (body : WritesBlock b t) :
      WritesItem (.atRule p (some b)) (g ++ p.text ++ g' ++ '\x7b' :: (t ++ ['\x7d']))

/-- Items one after the other. -/
inductive Writes : List Item → Text → Prop
  | nil {g : Text} (gap : Gap g) : Writes [] g
  | cons {i : Item} {is : List Item} {t u : Text} (first : WritesItem i t) (more : Writes is u) :
      Writes (i :: is) (t ++ u)

/-! ## Tokens -/

theorem run_append {p : Char → Bool} {w rest : Text} (hw : ∀ c ∈ w, p c = true)
    (hrest : ∀ c ∈ rest.head?, p c = false) : run p (w ++ rest) = (w, skip rest) := by
  rw [run, List.takeWhile_append_of_pos hw, List.dropWhile_append_of_pos hw]
  cases rest with
  | nil => simp
  | cons c rest => simp [hrest c rfl]

/-- What reaches up to a delimiter takes the gap before it along. -/
theorem run_gap {p : Char → Bool} {w g : Text} {c : Char} (hw : ∀ d ∈ w, p d = true) (hg : Gap g)
    (hp : ∀ d, isDelimiter d = false → p d = true) (hc : isDelimiter c = true) (hpc : p c = false)
    (rest : Text) : run p (w ++ (g ++ c :: rest)) = (w ++ g, c :: rest) := by
  rw [← List.append_assoc, run_append, skip_delimiter hc]
  · intro d hd
    rcases List.mem_append.mp hd with hd | hd
    · exact hw d hd
    · exact hp d (hg.isDelimiter_eq_false d hd)
  · intro d hd
    rw [← Option.some.inj hd]
    exact hpc

theorem symbol_cons (c : Char) (t : Text) : symbol c (c :: t) = some (skip t) := by
  rw [symbol, if_pos rfl]

theorem symbol_of_ne {c d : Char} (h : d ≠ c) (t : Text) : symbol c (d :: t) = none := by
  rw [symbol, if_neg h]

/-- A gap with a delimiter after it does not complete a slash to the start of a comment. -/
theorem Gap.head?_append_cons_ne {g : Text} (h : Gap g) {c : Char} (hc : isDelimiter c = true)
    (t : Text) : (g ++ c :: t).head? ≠ some '*' := by
  refine h.head?_append_ne ?_
  intro hstar
  rw [Option.some.inj hstar] at hc
  cases hc

/-! ## Selectors -/

section Selectors

variable {s : Selector} {ss : List Selector} {g t : Text}

theorem skip_selector (s : Selector) (hg : Gap g) {x : Text} (hx : x.head? ≠ some '*') :
    skip (g ++ (s.text ++ x)) = s.text ++ x := by
  rw [skip_append hg]
  exact skip_eq_self s.text_ne_nil (Text.isBlank_head_of_join_words s.join_words) s.noComment hx

theorem selector_append (s : Selector) (hg : Gap g) {c : Char} (hc : c = ',' ∨ c = '\x7b')
    (rest : Text) : selector (s.text ++ (g ++ c :: rest)) = some (s.text, c :: rest) := by
  have hrun : run (fun c => c ≠ ',' ∧ c ≠ '\x7b' ∧ c ≠ '\x7d') (s.text ++ (g ++ c :: rest)) =
      (s.text ++ g, c :: rest) := by
    refine run_gap (fun d hd => decide_eq_true (s.plain d hd)) hg (fun d hd => ?_) ?_ ?_ rest
    · exact decide_eq_true ⟨ne_of_isDelimiter hd rfl, ne_of_isDelimiter hd rfl,
        ne_of_isDelimiter hd rfl⟩
    · rcases hc with rfl | rfl <;> rfl
    · rcases hc with rfl | rfl <;> rfl
  have hclean : Text.join [' '] (Text.words (withoutComments (s.text ++ g))) = s.text := by
    rw [words_withoutComments_append s.noComment hg, s.join_words]
  obtain ⟨d, w, hw⟩ := List.exists_cons_of_ne_nil s.text_ne_nil
  rw [selector, hrun]
  rw [hw, List.cons_append] at hclean ⊢
  exact congrArg (fun text => some (text, c :: rest)) hclean

/-- A reader of selectors stands at the first of them. -/
theorem exists_skip_selectors (h : WritesSelectors (s :: ss) t) : ∃ v, ∀ x,
    x.head? ≠ some '*' → skip (t ++ x) = s.text ++ (v ++ x) := by
  generalize hss : s :: ss = all at h
  cases h with
  | @last s' g g' before after =>
    obtain ⟨rfl, -⟩ := List.cons.inj hss
    refine ⟨g', fun x hx => ?_⟩
    rw [List.append_assoc, List.append_assoc]
    exact skip_selector s before (after.head?_append_ne hx)
  | @cons s' ss' g g' t before after more =>
    obtain ⟨rfl, -⟩ := List.cons.inj hss
    refine ⟨g' ++ ',' :: t, fun x _ => ?_⟩
    simp only [List.append_assoc, List.cons_append]
    exact skip_selector s before (after.head?_append_cons_ne rfl (t ++ x))

/-- The first selector is read, and then the others are. By induction on the selectors. -/
theorem exists_selector_of_writes (h : WritesSelectors ss t) (rest : Text) :
    ∃ s more u, ss = s :: more ∧ selector (skip (t ++ '\x7b' :: rest)) = some (s.text, u) ∧
      u.length ≤ (t ++ '\x7b' :: rest).length ∧ ∀ bound : Text, u.length ≤ bound.length →
        moreSelectors bound u = (more.map Selector.text, '\x7b' :: rest) := by
  induction h with
  | @last s g g' before after =>
    refine ⟨s, [], '\x7b' :: rest, rfl, ?_, by simp; omega, fun bound _ => ?_⟩
    · simp only [List.append_assoc]
      rw [skip_selector s before (after.head?_append_cons_ne rfl rest)]
      exact selector_append s after (Or.inr rfl) rest
    · cases bound with
      | nil => rfl
      | cons b bound =>
        rw [moreSelectors, symbol_of_ne (by decide)]
        rfl
  | @cons s ss g g' t before after more ih =>
    obtain ⟨s', more', u, rfl, hselector, hle, hmore⟩ := ih
    refine ⟨s, s' :: more', ',' :: (t ++ '\x7b' :: rest), rfl, ?_, by simp; omega,
      fun bound hbound => ?_⟩
    · simp only [List.append_assoc, List.cons_append]
      rw [skip_selector s before (after.head?_append_cons_ne rfl _)]
      exact selector_append s after (Or.inl rfl) _
    · cases bound with
      | nil => cases hbound
      | cons b bound =>
        rw [List.length_cons, List.length_cons] at hbound
        have hnext : (symbol ',' (',' :: (t ++ '\x7b' :: rest)) >>= selector) =
            some (s'.text, u) := by
          rw [symbol_cons]
          exact hselector
        rw [moreSelectors, hnext]
        simp only [hmore bound (by omega), List.map_cons]

theorem selectors_of_writes (h : WritesSelectors ss t) (rest : Text) :
    selectors (skip (t ++ '\x7b' :: rest)) = some (ss.map Selector.text, '\x7b' :: rest) := by
  obtain ⟨s, more, u, rfl, hselector, -, hmore⟩ := exists_selector_of_writes h rest
  simp only [selectors, hselector, Option.map_some, hmore u (Nat.le_refl _), List.map_cons]

end Selectors

/-! ## Properties -/

section Properties

variable {p : Property} {ps : List Property} {t : Text}

theorem toNat_of_continuesProperty {c : Char} (h : continuesProperty c = true) :
    45 ≤ c.toNat ∧ c.toNat ≤ 122 ∧ c.toNat ≠ 47 := by
  simp only [continuesProperty, beginsProperty, Bool.or_eq_true, Bool.and_eq_true,
    decide_eq_true_eq, Char.le_def, UInt32.le_iff_toNat_le] at h
  rcases h with (((rfl | h) | h) | rfl) | h
  · decide
  · change 97 ≤ c.toNat ∧ c.toNat ≤ 122 at h
    omega
  · change 65 ≤ c.toNat ∧ c.toNat ≤ 90 at h
    omega
  · decide
  · change 48 ≤ c.toNat ∧ c.toNat ≤ 57 at h
    omega

theorem fold_of_continuesSmall {c : Char} (h : continuesSmall c = true) :
    CharClass.fold c = c := by
  have hnone : CharClass.smallLetter? c = none := by
    simp only [continuesSmall, beginsSmall, Bool.or_eq_true, Bool.and_eq_true,
      decide_eq_true_eq, Char.le_def, UInt32.le_iff_toNat_le] at h
    have hsign : c.toNat ≠ 0x212A → c ≠ '\u212a' := by
      rintro hc rfl
      exact hc rfl
    have hcapital : 'A' ≤ c ∧ c ≤ 'Z' ↔ 65 ≤ c.toNat ∧ c.toNat ≤ 90 := by
      simp only [Char.le_def, UInt32.le_iff_toNat_le]
      exact Iff.rfl
    simp only [CharClass.smallLetter?, hcapital]
    rcases h with ((rfl | h) | rfl) | h
    · decide
    · change 97 ≤ c.toNat ∧ c.toNat ≤ 122 at h
      rw [if_neg (by omega), if_neg (hsign (by omega))]
    · decide
    · change 48 ≤ c.toNat ∧ c.toNat ≤ 57 at h
      rw [if_neg (by omega), if_neg (hsign (by omega))]
  rw [CharClass.fold, hnone]
  rfl

theorem isBlank_of_continuesProperty {c : Char} (h : continuesProperty c = true) :
    CharClass.isBlank c = false := by
  obtain ⟨hlo, hhi, -⟩ := toNat_of_continuesProperty h
  grind [CharClass.isBlank, CodeRanges.covers]

/-- A name in small letters begins and goes on as names of properties do. -/
theorem isPropertyName_cases {name : Text} (h : isPropertyName name = true) :
    (∀ c ∈ name, continuesSmall c = true) ∧
      ((∃ c rest, name = c :: rest ∧ c ≠ '-' ∧ beginsProperty c = true) ∨
        ∃ c rest, name = '-' :: c :: rest ∧ beginsProperty c = true) := by
  have hbegins : ∀ {c}, beginsSmall c = true → continuesSmall c = true ∧ beginsProperty c = true ∧
      c ≠ '-' := by
    intro c hc
    refine ⟨by simp [continuesSmall, hc], ?_, ?_⟩
    · rw [beginsProperty, Bool.or_eq_true]
      exact Or.inl hc
    · rintro rfl
      cases hc
  unfold isPropertyName at h
  split at h
  · next c rest =>
    rw [Bool.and_eq_true, List.all_eq_true] at h
    obtain ⟨hcontinues, hc, -⟩ := hbegins h.1
    exact ⟨List.forall_mem_cons.mpr ⟨rfl, List.forall_mem_cons.mpr ⟨hcontinues, h.2⟩⟩,
      Or.inr ⟨c, rest, rfl, hc⟩⟩
  · next c rest _ =>
    rw [Bool.and_eq_true, List.all_eq_true] at h
    obtain ⟨hcontinues, hc, hne⟩ := hbegins h.1
    exact ⟨List.forall_mem_cons.mpr ⟨hcontinues, h.2⟩, Or.inl ⟨c, rest, rfl, hne, hc⟩⟩
  · cases h

theorem continuesProperty_of_mem {name : Text} (h : isPropertyName name = true) :
    ∀ c ∈ name, continuesProperty c = true := by
  intro c hc
  have := (isPropertyName_cases h).1 c hc
  simp only [continuesSmall, beginsSmall, Bool.or_eq_true] at this
  simp only [continuesProperty, beginsProperty, Bool.or_eq_true]
  grind

/-- The name is read up to a character that does not continue it. -/
theorem propertyName_append {name x : Text} (h : isPropertyName name = true)
    (hx : ∀ c ∈ x.head?, continuesProperty c = false) :
    propertyName (name ++ x) = some (name, skip x) := by
  have hall := continuesProperty_of_mem h
  have htake : ∀ rest : Text, (∀ c ∈ rest, continuesProperty c = true) →
      (rest ++ x).takeWhile continuesProperty = rest := by
    intro rest hrest
    rw [List.takeWhile_append_of_pos hrest]
    cases x with
    | nil => simp
    | cons c x => simp [hx c rfl]
  have hfold : Text.foldCase name = name := by
    rw [Text.foldCase, List.map_congr_left fun c hc =>
      fold_of_continuesSmall ((isPropertyName_cases h).1 c hc), List.map_id']
  rcases (isPropertyName_cases h).2 with ⟨c, rest, rfl, hne, hc⟩ | ⟨c, rest, rfl, hc⟩
  · have hrest := htake rest fun d hd => hall d (List.mem_cons_of_mem c hd)
    simpa [propertyName, hne, hc, hrest] using hfold
  · have hrest := htake rest fun d hd => hall d (by simp [hd])
    simpa [propertyName, hc, hrest] using hfold

theorem continuesProperty_head_gap {g : Text} (hg : Gap g) (t : Text) :
    ∀ c ∈ (g ++ ':' :: t).head?, continuesProperty c = false := by
  intro c hc
  rw [List.head?_append] at hc
  cases hhead : g.head? with
  | none =>
    rw [hhead] at hc
    rw [← Option.some.inj hc]
    decide
  | some d =>
    rw [hhead] at hc
    obtain rfl := Option.some.inj hc
    rcases hg.head?_eq_some hhead with hblank | rfl
    · rw [← Bool.not_eq_true]
      intro hcontinues
      rw [isBlank_of_continuesProperty hcontinues] at hblank
      cases hblank
    · decide

theorem skip_name (p : Property) (x : Text) : skip (p.name ++ x) = p.name ++ x := by
  have hall := continuesProperty_of_mem p.isPropertyName_name
  obtain ⟨c, rest, hname⟩ : ∃ c rest, p.name = c :: rest := by
    rcases (isPropertyName_cases p.isPropertyName_name).2 with ⟨c, rest, h, -⟩ | ⟨c, rest, h, -⟩
    · exact ⟨c, rest, h⟩
    · exact ⟨'-', c :: rest, h⟩
  rw [hname] at hall ⊢
  have hc := hall c List.mem_cons_self
  refine skip_cons_of_ne (isBlank_of_continuesProperty hc) ?_ (rest ++ x)
  rintro rfl
  exact (toNat_of_continuesProperty hc).2.2 rfl

/-- A reader of properties stands at the name of the first of them. -/
theorem exists_skip_property (h : WritesProperty p t) : ∃ v, ∀ x,
    skip (t ++ x) = p.name ++ (v ++ x) := by
  obtain @⟨g₁, g₂, g₃, g₄, before, beforeColon, afterColon, after⟩ := h
  refine ⟨g₂ ++ ':' :: (g₃ ++ p.value ++ g₄), fun x => ?_⟩
  simp only [List.append_assoc, List.cons_append]
  rw [skip_append before, skip_name]

/-- A value is read up to the semicolon or the brace after it. -/
theorem propertyValue_append (p : Property) {g g' : Text} (hg : Gap g) (hg' : Gap g') {c : Char}
    (hc : c = ';' ∨ c = '\x7d') (rest : Text) :
    propertyValue (skip (g ++ (p.value ++ (g' ++ c :: rest)))) = (p.value, c :: rest) := by
  have hdelimiter : isDelimiter c = true := by
    rcases hc with rfl | rfl <;> rfl
  -- The gap after an empty value is skipped with the one before it.
  have hskip : ∃ u, Gap u ∧
      skip (g ++ (p.value ++ (g' ++ c :: rest))) = p.value ++ (u ++ c :: rest) := by
    rw [skip_append hg]
    by_cases hvalue : p.value = []
    · refine ⟨[], .nil, ?_⟩
      rw [hvalue, List.nil_append, skip_append hg', skip_delimiter hdelimiter]
      rfl
    · exact ⟨g', hg', skip_eq_self hvalue (Text.isBlank_head_of_trim p.trim_value) p.noComment
        (hg'.head?_append_cons_ne hdelimiter rest)⟩
  obtain ⟨u, hu, hskip⟩ := hskip
  have hrun : run (fun c => c ≠ ';' ∧ c ≠ '\x7d') (p.value ++ (u ++ c :: rest)) =
      (p.value ++ u, c :: rest) := by
    refine run_gap (fun d hd => decide_eq_true (p.plain d hd)) hu (fun d hd => ?_) hdelimiter ?_
      rest
    · exact decide_eq_true ⟨ne_of_isDelimiter hd rfl, ne_of_isDelimiter hd rfl⟩
    · rcases hc with rfl | rfl <;> rfl
  simp only [hskip, propertyValue, hrun, trim_withoutComments_append p.noComment hu, p.trim_value]

theorem declaration_of_writes (h : WritesProperty p t) {c : Char} (hc : c = ';' ∨ c = '\x7d')
    (rest : Text) : declaration (skip (t ++ c :: rest)) = some ((p.name, p.value), c :: rest) := by
  obtain @⟨g₁, g₂, g₃, g₄, before, beforeColon, afterColon, after⟩ := h
  have hskip : skip (g₁ ++ p.name ++ g₂ ++ ':' :: (g₃ ++ p.value ++ g₄) ++ c :: rest) =
      p.name ++ (g₂ ++ ':' :: (g₃ ++ (p.value ++ (g₄ ++ c :: rest)))) := by
    simp only [List.append_assoc, List.cons_append]
    rw [skip_append before, skip_name]
  have hcolon : skip (g₂ ++ ':' :: (g₃ ++ (p.value ++ (g₄ ++ c :: rest)))) =
      ':' :: (g₃ ++ (p.value ++ (g₄ ++ c :: rest))) := by
    rw [skip_append beforeColon]
    exact skip_cons_of_ne (by decide) (by decide) _
  rw [hskip, declaration, propertyName_append p.isPropertyName_name
    (continuesProperty_head_gap beforeColon _), hcolon]
  simp [symbol_cons, propertyValue_append p afterColon after hc rest]

theorem declarations_brace (bound rest : Text) :
    declarations bound ('\x7d' :: rest) = ([], '\x7d' :: rest) := by
  cases bound <;> rfl

/-- Properties are read up to the brace after them. By induction on the properties. -/
theorem declarations_of_writes (h : WritesProperties ps t) (rest : Text) : ∀ bound : Text,
    (skip (t ++ '\x7d' :: rest)).length ≤ bound.length →
      declarations bound (skip (t ++ '\x7d' :: rest)) =
        (ps.map fun p => (p.name, p.value), '\x7d' :: rest) := by
  induction h with
  | nil gap =>
    intro bound _
    rw [skip_append gap, skip_delimiter rfl]
    exact declarations_brace bound rest
  | @last p t first =>
    intro bound hbound
    cases bound with
    | nil =>
      obtain ⟨v, hv⟩ := exists_skip_property first
      rw [hv] at hbound
      simp at hbound
    | cons b bound =>
      rw [declarations, declaration_of_writes first (Or.inr rfl) rest]
      simp only [symbol_of_ne (show '\x7d' ≠ ';' by decide), Option.getD_none, List.map_cons,
        List.map_nil, declarations_brace]
  | @cons p ps t u first more ih =>
    intro bound hbound
    rw [List.append_assoc, List.cons_append] at hbound ⊢
    cases bound with
    | nil =>
      obtain ⟨v, hv⟩ := exists_skip_property first
      rw [hv] at hbound
      simp at hbound
    | cons b bound =>
      rw [declarations, declaration_of_writes first (Or.inl rfl) (u ++ '\x7d' :: rest)]
      have hle := length_skip_le (u ++ '\x7d' :: rest)
      obtain ⟨v, hv⟩ := exists_skip_property first
      rw [hv] at hbound
      simp only [List.length_append, List.length_cons] at hbound hle
      simp only [symbol_cons, Option.getD_some, ih bound (by omega), List.map_cons]

end Properties

/-! ## Blocks -/

section Blocks

variable {g g' t : Text} {b : Char}

/-- The text before a brace is skipped in part; what is left of it has no brace. -/
theorem exists_skip_blockText (t : BlockText) (hg : Gap g) (hg' : Gap g')
    (hb : b = '\x7b' ∨ b = '\x7d') (rest : Text) :
    ∃ w, (∀ c ∈ w, c ≠ '\x7b' ∧ c ≠ '\x7d') ∧
      skip (g ++ (t.text ++ (g' ++ b :: rest))) = w ++ b :: rest := by
  have hdelimiter : isDelimiter b = true := by
    rcases hb with rfl | rfl <;> rfl
  rw [skip_append hg]
  obtain ⟨text, plain, noComment⟩ := t
  induction text with
  | nil =>
    refine ⟨[], nofun, ?_⟩
    rw [List.nil_append, skip_append hg', skip_delimiter hdelimiter]
    rfl
  | cons c text ih =>
    by_cases hc : CharClass.isBlank c = true
    · rw [List.cons_append, skip_blank hc]
      exact ih (fun d hd => plain d (List.mem_cons_of_mem c hd))
        fun h => noComment (h.trans (List.suffix_cons c text).isInfix)
    · refine ⟨c :: text ++ g', fun d hd => ?_, ?_⟩
      · rcases List.mem_append.mp hd with hd | hd
        · exact plain d hd
        · have := hg'.isDelimiter_eq_false d hd
          exact ⟨ne_of_isDelimiter this rfl, ne_of_isDelimiter this rfl⟩
      · rw [skip_eq_self (List.cons_ne_nil c text) (by simpa using hc) noComment
          (hg'.head?_append_cons_ne hdelimiter rest), List.append_assoc]

/-- Text in a block is read up to the next brace. -/
theorem exists_blockItems_append {w : Text} (hw : ∀ c ∈ w, c ≠ '\x7b' ∧ c ≠ '\x7d')
    (hb : b = '\x7b' ∨ b = '\x7d') (rest : Text) {bound : Text}
    (hbound : (w ++ b :: rest).length ≤ bound.length) : ∃ d bound', rest.length ≤ bound'.length ∧
      blockItems bound (w ++ b :: rest) = blockItems (d :: bound') (b :: rest) := by
  obtain ⟨d, bound, rfl⟩ : ∃ d bound', bound = d :: bound' := by
    cases bound with
    | nil => simp at hbound
    | cons d bound => exact ⟨d, bound, rfl⟩
  cases w with
  | nil => exact ⟨d, bound, by simpa using hbound, rfl⟩
  | cons c w =>
    have hc := hw c List.mem_cons_self
    have hdrop : (c :: w ++ b :: rest).dropWhile (fun x => x ≠ '\x7b' ∧ x ≠ '\x7d') =
        b :: rest := by
      rw [List.dropWhile_append_of_pos fun d hd => decide_eq_true (hw d hd)]
      rcases hb with rfl | rfl <;> rfl
    have hskip : skip (b :: rest) = b :: rest :=
      skip_delimiter (by rcases hb with rfl | rfl <;> rfl) rest
    simp only [List.cons_append, List.length_cons, List.length_append] at hbound
    obtain ⟨d', bound, rfl⟩ : ∃ d' bound', bound = d' :: bound' := by
      cases bound with
      | nil => simp at hbound
      | cons d' bound => exact ⟨d', bound, rfl⟩
    rw [List.length_cons] at hbound
    refine ⟨d', bound, by omega, ?_⟩
    rw [List.cons_append] at hdrop ⊢
    rw [blockItems, if_neg hc.1, if_neg hc.2, hdrop, hskip]

/-- What is in a block is read up to the brace that closes it. By induction on the block. -/
theorem blockItems_of_writes {block : Block} (h : WritesBlock block t) : ∀ rest bound : Text,
    (skip (t ++ '\x7d' :: rest)).length ≤ bound.length →
      blockItems bound (skip (t ++ '\x7d' :: rest)) = '\x7d' :: rest := by
  induction h with
  | @last t g g' before after =>
    intro rest bound hbound
    simp only [List.append_assoc] at hbound ⊢
    obtain ⟨w, hw, hskip⟩ := exists_skip_blockText t before after (Or.inr rfl) rest
    rw [hskip] at hbound ⊢
    obtain ⟨d, bound', -, hread⟩ := exists_blockItems_append hw (Or.inr rfl) rest hbound
    rw [hread]
    rfl
  | @nest t inner next g g' u v before after inside more ihInside ihMore =>
    intro rest bound hbound
    simp only [List.append_assoc, List.cons_append] at hbound ⊢
    obtain ⟨w, hw, hskip⟩ := exists_skip_blockText t before after (Or.inl rfl)
      (u ++ '\x7d' :: (v ++ '\x7d' :: rest))
    rw [hskip] at hbound ⊢
    obtain ⟨d, bound', hlength, hread⟩ := exists_blockItems_append hw (Or.inl rfl) _ hbound
    have hinside := length_skip_le (u ++ '\x7d' :: (v ++ '\x7d' :: rest))
    have hmore := length_skip_le (v ++ '\x7d' :: rest)
    have hshorter : (v ++ '\x7d' :: rest).length ≤
        (u ++ '\x7d' :: (v ++ '\x7d' :: rest)).length := by
      simp
      omega
    rw [hread, blockItems, if_pos rfl, ihInside _ bound' (by omega), symbol_cons]
    exact ihMore rest bound' (by omega)

theorem block_of_writes {body : Block} (h : WritesBlock body t) (rest : Text) :
    block ('\x7b' :: (t ++ '\x7d' :: rest)) = some (skip rest) := by
  have hitems := blockItems_of_writes h rest _ (Nat.le_refl _)
  simp [block, symbol_cons, hitems]

end Blocks

/-! ## Items -/

section Items

variable {g t : Text} {i : Item} {is : List Item}

theorem skip_prelude (p : Prelude) (hg : Gap g) (x : Text) :
    skip (g ++ (p.text ++ x)) = p.text ++ x := by
  rw [skip_append hg]
  obtain ⟨rest, hrest⟩ := List.head?_eq_some_iff.mp p.head_text
  rw [hrest]
  exact skip_cons_of_ne (by decide) (by decide) (rest ++ x)

/-- An at-rule is read from what ends its prelude on. -/
theorem atRule_append (p : Prelude) (hg : Gap g) {c : Char} (hc : c = ';' ∨ c = '\x7b')
    (rest : Text) : atRule (p.text ++ (g ++ c :: rest)) =
      (symbol ';' (c :: rest)).or (block (c :: rest)) := by
  have hrun : run (fun c => c ≠ '\x7b' ∧ c ≠ ';') (p.text ++ (g ++ c :: rest)) =
      (p.text ++ g, c :: rest) := by
    refine run_gap (fun d hd => decide_eq_true (p.plain d hd)) hg (fun d hd => ?_) ?_ ?_ rest
    · exact decide_eq_true ⟨ne_of_isDelimiter hd rfl, ne_of_isDelimiter hd rfl⟩
    · rcases hc with rfl | rfl <;> rfl
    · rcases hc with rfl | rfl <;> rfl
  have hhead : (p.text ++ (g ++ c :: rest)).head? = some '@' := by
    rw [List.head?_append, p.head_text]
    rfl
  rw [atRule, if_pos hhead, hrun]

/-- What is left of an item when the gap before it is skipped. -/
theorem exists_skip_item (h : WritesItem i t) :
    ∃ v, v ≠ [] ∧ ∀ rest, skip (t ++ rest) = v ++ rest := by
  cases h with
  | @rule first more properties t u _ selectors body =>
    obtain ⟨v, hv⟩ := exists_skip_selectors selectors
    refine ⟨first.text ++ (v ++ '\x7b' :: (u ++ ['\x7d'])), ?_, fun rest => ?_⟩
    · simp
    · have := hv ('\x7b' :: (u ++ '\x7d' :: rest)) (by simp)
      simpa using this
  | @statement p g g' before after =>
    refine ⟨p.text ++ (g' ++ [';']), by simp, fun rest => ?_⟩
    have := skip_prelude p before (g' ++ ';' :: rest)
    simpa using this
  | @block p b g g' t before after body =>
    refine ⟨p.text ++ (g' ++ '\x7b' :: (t ++ ['\x7d'])), by simp, fun rest => ?_⟩
    have := skip_prelude p before (g' ++ '\x7b' :: (t ++ '\x7d' :: rest))
    simpa using this

theorem rule_of_writes {ss : List Selector} {ps : List Property} {u : Text}
    (hselectors : WritesSelectors ss t) (hbody : WritesProperties ps u) (rest : Text) :
    rule (skip (t ++ '\x7b' :: (u ++ '\x7d' :: rest))) =
      some (⟨ss.map Selector.text, ps.map fun p => (p.name, p.value)⟩, skip rest) := by
  have hproperties := declarations_of_writes hbody rest _ (Nat.le_refl _)
  simp [rule, selectors_of_writes hselectors, symbol_cons, hproperties]

/-- An item is read first: an at-rule is passed over, and a rule comes before the others. -/
theorem rules_of_writesItem (h : WritesItem i t) (b : Char) (bound rest : Text) :
    rules (b :: bound) (skip (t ++ rest)) =
      (i.rule?.toList ++ (rules bound (skip rest)).1, (rules bound (skip rest)).2) := by
  cases h with
  | @rule first more properties t u isRule selectors body =>
    have hread := rule_of_writes selectors body rest
    have hatRule : atRule (skip (t ++ '\x7b' :: (u ++ '\x7d' :: rest))) = none := by
      obtain ⟨v, hv⟩ := exists_skip_selectors selectors
      obtain ⟨c, w, hw⟩ := List.exists_cons_of_ne_nil first.text_ne_nil
      rw [hw] at isRule
      rw [hv _ (by simp), hw]
      exact if_neg isRule
    simp only [List.append_assoc, List.cons_append, List.nil_append]
    rw [rules, hatRule, hread]
    rfl
  | @statement p g g' before after =>
    have hread : atRule (skip (g ++ p.text ++ g' ++ [';'] ++ rest)) = some (skip rest) := by
      simp only [List.append_assoc, List.cons_append, List.nil_append]
      rw [skip_prelude p before, atRule_append p after (Or.inl rfl), symbol_cons]
      rfl
    rw [rules, hread]
    rfl
  | @block p b' g g' t before after body =>
    have hread : atRule (skip (g ++ p.text ++ g' ++ '\x7b' :: (t ++ ['\x7d']) ++ rest)) =
        some (skip rest) := by
      simp only [List.append_assoc, List.cons_append, List.nil_append]
      rw [skip_prelude p before, atRule_append p after (Or.inr rfl), symbol_of_ne (by decide),
        block_of_writes body]
      rfl
    rw [rules, hread]
    rfl

/-- By induction on the items. -/
theorem rules_of_writes (h : Writes is t) : ∀ bound : Text, (skip t).length ≤ bound.length →
    rules bound (skip t) = (is.filterMap Item.rule?, []) := by
  induction h with
  | @nil g gap =>
    intro bound _
    have hskip : skip g = [] := by
      rw [← List.append_nil g, skip_append gap]
      rfl
    rw [hskip]
    cases bound <;> rfl
  | @cons i is t u first more ih =>
    intro bound hbound
    obtain ⟨v, hne, hv⟩ := exists_skip_item first
    have hpos := List.length_pos_iff.mpr hne
    have hle := length_skip_le u
    rw [hv, List.length_append] at hbound
    cases bound with
    | nil =>
      rw [List.length_nil] at hbound
      omega
    | cons b bound =>
      rw [List.length_cons] at hbound
      rw [rules_of_writesItem first, ih bound (by omega)]
      cases hrule : i.rule? <;> simp [hrule]

end Items

/-- A stylesheet is read as its rules, in their order, whatever the gaps between its tokens are;
at-rules are left out. -/
theorem read?_of_writes {items : List Item} {t : Text} (h : Writes items t) :
    read? t = some (items.filterMap Item.rule?) := by
  rw [read?, rules_of_writes h _ (Nat.le_refl _)]

/-- An at-rule with a block in its block, and after a comment a rule with two selectors. -/
theorem read?_of_writes_media : ∃ items,
    Writes items "@media x \x7bp\x7b\x7d\x7d/* y */a,b .c \x7bcolor: red\x7d\n".toList ∧
      read? "@media x \x7bp\x7b\x7d\x7d/* y */a,b .c \x7bcolor: red\x7d\n".toList =
        some [⟨["a".toList, "b .c".toList], [("color".toList, "red".toList)]⟩] := by
  have hspace : Gap [' '] := .blank rfl .nil
  have hcomment : Gap ('/' :: '*' :: (" y ".toList ++ '*' :: '/' :: [])) :=
    .comment (by decide) (by simp [isDelimiter]) .nil
  have hempty : WritesBlock (.last ⟨[], by simp, by decide⟩) [] := .last .nil .nil
  have hmedia := WritesItem.block
    (p := ⟨"@media x".toList, rfl, by simp, by decide +kernel⟩) .nil hspace
    (.nest (t := ⟨"p".toList, by simp, by decide⟩) .nil .nil hempty hempty)
  have hselectors := WritesSelectors.cons
    (s := ⟨"a".toList, by decide, by decide, by simp, by decide⟩) hcomment .nil
    (.last (s := ⟨"b .c".toList, by decide, by decide, by simp, by decide⟩) .nil hspace)
  have hcolor := WritesProperty.intro
    (p := ⟨"color".toList, "red".toList, by decide, by decide, by simp, by decide⟩)
    .nil .nil hspace .nil
  have hrule := WritesItem.rule (by decide) hselectors (.last hcolor)
  have hwrites := Writes.cons hmedia (.cons hrule (.nil (.blank (c := '\n') rfl .nil)))
  have hof : ∀ {items : List Item} {t u : Text}, Writes items t → t = u → Writes items u :=
    fun h ht => ht ▸ h
  have htext : Writes _ "@media x \x7bp\x7b\x7d\x7d/* y */a,b .c \x7bcolor: red\x7d\n".toList :=
    hof hwrites (by decide +kernel)
  exact ⟨_, htext, (read?_of_writes htext).trans (by decide +kernel)⟩

end ReplCore.Stylesheet
