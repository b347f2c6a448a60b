import ReplCore.Brackets.Scan

/-!
# Well-nested text

The grammar of text in which every bracket, quote and substitution is closed, with the pairs of each
derivation. What may stand at a place depends on the innermost pair around it: outside of quotes
brackets and quotes nest, in a string literal nothing does, and directly inside a template literal
substitutions do. A backslash escapes a character inside of quotes and is an ordinary character
outside of them.

* `exists_scan_append`: over well-nested text the scan reports the pairs of the derivation, whatever
  is open before and whatever follows.
* `WellNested.parent`: the pairs around a pair are those that the derivation has there.
* `spans_eq_of_wellNested`: the matched pairs of well-nested text are those of its derivation.
-/

namespace ReplCore

/-! ## The grammar -/

/-- What the innermost pair around a place makes of the text there. -/
inductive Place where
  | outside
  | singleQuoted
  | doubleQuoted
  | template
deriving Repr, DecidableEq

namespace PairKind

/-- The text that opens a pair. -/
def opener : PairKind → Text
  | substitution => "$\x7b".toList
  | k => [k.opening]

/-- The place inside of a pair. -/
def inside : PairKind → Place
  | singleQuote => .singleQuoted
  | doubleQuote => .doubleQuoted
  | backtick => .template
  | _ => .outside

end PairKind

namespace Place

/-- The pairs that may stand at a place. -/
def pairs : Place → List PairKind
  | outside => [.round, .square, .curly, .singleQuote, .doubleQuote, .backtick]
  | template => [.substitution]
  | _ => []

/-- The characters that do not stand for themselves at a place. -/
def marks : Place → Text
  | outside => "()[]\x7b\x7d'\x22`".toList
  | singleQuoted => "'\\".toList
  | doubleQuoted => "\x22\\".toList
  | template => "`\\$".toList

def isQuoted (p : Place) : Bool := p ≠ outside

end Place

/-- The text at a place and an offset, inside of pairs that start at the offsets `around`, innermost
first, is well nested, and the pairs of its derivation are the given ones, in the order of their
closers. -/
inductive WellNested : Place → Nat → List Nat → Text → List BracketSpan → Prop
  | nil {place : Place} {offset : Nat} {around : List Nat} : WellNested place offset around [] []
  | plain {place : Place} {offset : Nat} {around : List Nat} {c : Char} {t : Text}
      {ps : List BracketSpan} (notMark : c ∉ place.marks)
      (rest : WellNested place (offset + 1) around t ps) :
      WellNested place offset around (c :: t) ps
  | escaped {place : Place} {offset : Nat} {around : List Nat} {c : Char} {t : Text}
      {ps : List BracketSpan} (quoted : place.isQuoted = true)
      (rest : WellNested place (offset + 2) around t ps) :
      WellNested place offset around ('\\' :: c :: t) ps
  /-- A dollar sign that opens no substitution. -/
  | dollar {offset : Nat} {around : List Nat} {t : Text} {ps : List BracketSpan}
      (notBrace : t.head? ≠ some '\x7b') (rest : WellNested .template (offset + 1) around t ps) :
      WellNested .template offset around ('$' :: t) ps
  | pair {place : Place} {offset : Nat} {around : List Nat} {k : PairKind} {t u : Text}
      {ps qs : List BracketSpan} (stands : k ∈ place.pairs)
      (inner : WellNested k.inside (offset + k.opener.length) (offset :: around) t ps)
      (rest : WellNested place (offset + k.opener.length + t.length + 1) around u qs) :
      WellNested place offset around (k.opener ++ (t ++ k.closing :: u))
        (ps ++ ⟨k, offset, offset + k.opener.length + t.length, around⟩ :: qs)

/-! ## One character of the scan -/

namespace Brackets

/-- The place that the open spans make. -/
def placeOf : List OpenSpan → Place
  | [] => .outside
  | o :: _ => o.kind.inside

/-- The scan is about to read a character at a place, and the character is not escaped. -/
structure Ready (place : Place) (s : State) : Prop where
  passOver : s.passOver = false
  place_eq : placeOf s.opened = place
  even : place.isQuoted = true → s.backslashes % 2 = 0

variable {mode : Mode} {place : Place} {s : State} {c : Char} {next : Option Char}

theorem isQuote_iff (k : PairKind) : k.isQuote = k.inside.isQuoted := by cases k <;> rfl

theorem step_of_outside (h : Ready .outside s) : step mode s c next = stepOutside mode s c := by
  rw [step, if_neg (by simp [h.passOver])]
  split
  · next o rest hopened =>
    have hinside : o.kind.inside = .outside := by simpa [placeOf, hopened] using h.place_eq
    rw [if_neg (by simp [isQuote_iff, hinside, Place.isQuoted])]
  · rfl

/-- In quotes, the quotes are the innermost span. -/
theorem exists_step_of_quoted (mode : Mode) (hp : s.passOver = false)
    (hq : (placeOf s.opened).isQuoted = true) : ∃ o rest, s.opened = o :: rest ∧
      ∀ c next, step mode s c next = stepInQuotes s o rest c next := by
  cases hopened : s.opened with
  | nil => simp [hopened, placeOf, Place.isQuoted] at hq
  | cons o rest =>
    refine ⟨o, rest, rfl, fun c next => ?_⟩
    rw [hopened, placeOf, ← isQuote_iff] at hq
    rw [step, if_neg (by simp [hp]), hopened]
    simp [hq]

/-- A character that is no quote of its place and no escape leaves the scan ready. -/
theorem ready_advance (h : Ready place s) (hc : place.isQuoted = true → c ≠ '\\') :
    Ready place (s.advance c s.opened) :=
  ⟨rfl, h.place_eq, fun hq => by simp [State.advance, hc hq]⟩

theorem step_plain (h : Ready place s) (hc : c ∉ place.marks) :
    step mode s c next = ([], s.advance c s.opened) := by
  by_cases hquoted : place.isQuoted = true
  · obtain ⟨o, rest, hopened, hstep⟩ :=
      exists_step_of_quoted mode h.passOver (h.place_eq.symm ▸ hquoted)
    have hinside : o.kind.inside = place := by simpa [placeOf, hopened] using h.place_eq
    have hclosing : c ≠ o.kind.closing := by
      rintro rfl
      rw [← hinside] at hc hquoted
      revert hc hquoted
      cases o.kind <;> decide
    have hdollar : ¬ (c = '$' ∧ o.kind = .backtick ∧ next = some '\x7b') := by
      rintro ⟨rfl, hkind, -⟩
      rw [← hinside, hkind] at hc
      exact hc (by decide)
    rw [hstep, stepInQuotes, if_neg (by simp [h.even hquoted]), if_neg hclosing, if_neg hdollar]
  · obtain rfl : place = .outside := by simpa [Place.isQuoted] using hquoted
    have hopening : PairKind.ofOpening? c = none := by
      rw [PairKind.ofOpening?, List.find?_eq_none]
      intro k hk hkc
      rw [← of_decide_eq_true hkc] at hc
      revert hk hc
      cases k <;> decide
    have hcloses : PairKind.closesBracket c = false := by
      have hne : c ≠ ')' ∧ c ≠ ']' ∧ c ≠ '\x7d' := by
        refine ⟨?_, ?_, ?_⟩ <;> rintro rfl <;> exact hc (by decide)
      simp [PairKind.closesBracket, hne]
    rw [step_of_outside h, stepOutside, hopening]
    simp [hcloses]

/-- A dollar sign without a brace after it opens nothing. -/
theorem step_dollar (h : Ready .template s) (hnext : next ≠ some '\x7b') :
    step mode s '$' next = ([], s.advance '$' s.opened) := by
  obtain ⟨o, rest, hopened, hstep⟩ :=
    exists_step_of_quoted mode h.passOver (h.place_eq.symm ▸ rfl)
  have hinside : o.kind.inside = .template := by simpa [placeOf, hopened] using h.place_eq
  have hclosing : '$' ≠ o.kind.closing := by cases o.kind <;> decide
  rw [hstep, stepInQuotes, if_neg (by simp [h.even rfl]), if_neg hclosing,
    if_neg (fun hsubst => hnext hsubst.2.2)]

/-- A dollar sign with a brace after it opens a substitution, and the brace is passed over. -/
theorem step_substitution (mode : Mode) (h : Ready .template s) :
    step mode s '$' (some '\x7b') =
      ([], { s.advance '$' (s.withOpened .substitution) with passOver := true }) := by
  obtain ⟨o, rest, hopened, hstep⟩ :=
    exists_step_of_quoted mode h.passOver (h.place_eq.symm ▸ rfl)
  have hinside : o.kind.inside = .template := by simpa [placeOf, hopened] using h.place_eq
  have hkind : o.kind = .backtick := by
    revert hinside
    cases o.kind <;> decide
  rw [hstep, stepInQuotes, if_neg (by simp [h.even rfl]), hkind, if_neg (by decide),
    if_pos ⟨rfl, rfl, rfl⟩]

/-- An escape and the character after it change nothing that is open. -/
theorem scan_escaped (mode : Mode) (h : Ready place s) (hq : place.isQuoted = true) (t : Text) :
    ∃ s', scan mode s ('\\' :: c :: t) = scan mode s' t ∧ Ready place s' ∧
      s'.index = s.index + 2 ∧ s'.opened = s.opened := by
  obtain ⟨o, rest, hopened, hstep⟩ :=
    exists_step_of_quoted mode h.passOver (h.place_eq.symm ▸ hq)
  have hclosing : '\\' ≠ o.kind.closing := by cases o.kind <;> decide
  have hfirst : ∀ next, step mode s '\\' next = ([], s.advance '\\' s.opened) := by
    intro next
    rw [hstep, stepInQuotes, if_neg (by simp [h.even hq]), if_neg hclosing,
      if_neg (fun hsubst => absurd hsubst.1 (by decide))]
  have hodd : (s.advance '\\' s.opened).backslashes % 2 = 1 := by
    have heven := h.even hq
    simp only [State.advance, if_true]
    omega
  -- The second character comes after an odd number of backslashes, whatever it is.
  have hsecond : ∀ next, step mode (s.advance '\\' s.opened) c next =
      ([], (s.advance '\\' s.opened).advance c s.opened) := by
    intro next
    obtain ⟨o', rest', -, hstep'⟩ := exists_step_of_quoted mode
      (s := s.advance '\\' s.opened) rfl (show (placeOf s.opened).isQuoted = true from
        h.place_eq.symm ▸ hq)
    rw [hstep', stepInQuotes, if_pos hodd]
    rfl
  refine ⟨(s.advance '\\' s.opened).advance c s.opened, ?_, ⟨rfl, h.place_eq, fun _ => ?_⟩, rfl,
    rfl⟩
  · rw [scan, hfirst]
    dsimp only
    rw [List.nil_append, scan, hsecond]
    rfl
  · simp only [State.advance, if_true] at hodd ⊢
    split <;> omega

/-! ## Pairs -/

/-- A pair that may stand at a place is opened there. -/
theorem exists_scan_opener (mode : Mode) {k : PairKind} (h : Ready place s)
    (hk : k ∈ place.pairs) (t : Text) :
    ∃ s', scan mode s (k.opener ++ t) = scan mode s' t ∧ Ready k.inside s' ∧
      s'.index = s.index + k.opener.length ∧ s'.opened = s.withOpened k := by
  have hready : ∀ n : Nat, Ready k.inside ⟨n, 0, false, s.withOpened k⟩ :=
    fun n => ⟨rfl, rfl, fun _ => rfl⟩
  by_cases hsubst : k = .substitution
  · -- The dollar sign opens the substitution, and the brace after it is passed over.
    subst hsubst
    obtain rfl : place = .template := by
      revert hk
      cases place <;> decide
    refine ⟨⟨s.index + 2, 0, false, s.withOpened .substitution⟩, ?_, hready _, rfl, rfl⟩
    change scan mode s ('$' :: '\x7b' :: t) = _
    rw [scan, List.head?_cons, step_substitution mode h]
    rfl
  · obtain rfl : place = .outside := by
      revert hk hsubst
      cases place <;> cases k <;> decide
    have hopener : k.opener = [k.opening] := by
      revert hsubst
      cases k <;> decide
    have hopening : PairKind.ofOpening? k.opening = some k ∧ k.opening ≠ '\\' := by
      revert hsubst
      cases k <;> decide
    have hstep : ∀ next, step mode s k.opening next =
        ([], ⟨s.index + 1, 0, false, s.withOpened k⟩) := by
      intro next
      rw [step_of_outside h, stepOutside, hopening.1]
      simp [State.advance, hopening.2]
    refine ⟨⟨s.index + 1, 0, false, s.withOpened k⟩, ?_, hready _, by rw [hopener]; rfl, rfl⟩
    rw [hopener, List.singleton_append, scan, hstep]
    rfl

/-- The closer of the innermost span closes it. -/
theorem step_closing (mode : Mode) (next : Option Char) {o : OpenSpan} {rest : List OpenSpan}
    (h : Ready o.kind.inside s) (hopened : s.opened = o :: rest) : step mode s o.kind.closing next =
      ([o.close s.index], s.advance o.kind.closing rest) := by
  by_cases hquoted : o.kind.inside.isQuoted = true
  · obtain ⟨o', rest', hopened', hstep⟩ :=
      exists_step_of_quoted mode h.passOver (h.place_eq.symm ▸ hquoted)
    obtain ⟨rfl, rfl⟩ := List.cons.inj (hopened.symm.trans hopened')
    rw [hstep, stepInQuotes, if_neg (by simp [h.even hquoted]), if_pos rfl]
  · have houtside : o.kind.inside = .outside := by simpa [Place.isQuoted] using hquoted
    have hcloses : PairKind.ofOpening? o.kind.closing = none ∧
        PairKind.closesBracket o.kind.closing = true := by
      revert houtside
      cases o.kind <;> decide
    rw [step_of_outside (houtside ▸ h), stepOutside, hcloses.1]
    simp [hcloses.2, hopened]

/-! ## The scan of well-nested text -/

theorem head?_append_ne {t v : Text} (ht : t.head? ≠ some c) (hv : v.head? ≠ some c) :
    (t ++ v).head? ≠ some c := by
  cases t with
  | nil => exact hv
  | cons x t => exact ht

/-- If the scan has the same open before and after the inside of a pair, it reports the pair, and
after its closer has the same open as before its opener. -/
theorem exists_scan_pair (mode : Mode) {k : PairKind} (h : Ready place s) (hk : k ∈ place.pairs)
    {t : Text} {ps : List BracketSpan}
    (hinner : ∀ {s₁ : State}, Ready k.inside s₁ → s₁.index = s.index + k.opener.length →
      s₁.openStarts = s.index :: s.openStarts →
      ∀ v : Text, (k.inside = .template → v.head? ≠ some '\x7b') →
      ∃ s₂, scan mode s₁ (t ++ v) = ps ++ scan mode s₂ v ∧ Ready k.inside s₂ ∧
        s₂.index = s.index + k.opener.length + t.length ∧ s₂.opened = s₁.opened) (v : Text) :
    ∃ s', scan mode s (k.opener ++ (t ++ k.closing :: v)) =
        ps ++ ⟨k, s.index, s.index + k.opener.length + t.length, s.openStarts⟩ :: scan mode s' v ∧
      Ready place s' ∧ s'.index = s.index + k.opener.length + t.length + 1 ∧
      s'.opened = s.opened := by
  obtain ⟨s₁, hscan₁, hs₁, hindex₁, hopened₁⟩ :=
    exists_scan_opener mode h hk (t ++ k.closing :: v)
  have hclosing : k.closing ≠ '\x7b' := by cases k <;> decide
  obtain ⟨s₂, hscan₂, hs₂, hindex₂, hopened₂⟩ := hinner hs₁ hindex₁
    (by rw [State.openStarts, hopened₁]; rfl) (k.closing :: v)
    (fun _ hbrace => hclosing (Option.some.inj hbrace))
  have hstep := step_closing mode v.head?
    (o := ⟨k, s.index, s.openStarts⟩) hs₂ (hopened₂.trans hopened₁)
  refine ⟨s₂.advance k.closing s.opened, ?_, ⟨rfl, h.place_eq, fun _ => by cases k <;> rfl⟩, ?_,
    rfl⟩
  · rw [hscan₁, hscan₂, scan, hstep, ← hindex₂]
    rfl
  · rw [State.advance, hindex₂]

/-- Over well-nested text the scan reports the pairs of the derivation and then has the same open as
before. By induction on the derivation: what is open is the same where the inside of a pair starts
and ends, so its closer finds the pair innermost. -/
theorem exists_scan_append (mode : Mode) {offset : Nat} {around : List Nat} {t : Text}
    {ps : List BracketSpan} (h : WellNested place offset around t ps) : ∀ {s : State},
      Ready place s → s.index = offset → s.openStarts = around →
      ∀ v : Text, (place = .template → v.head? ≠ some '\x7b') →
      ∃ s', scan mode s (t ++ v) = ps ++ scan mode s' v ∧ Ready place s' ∧
        s'.index = offset + t.length ∧ s'.opened = s.opened := by
  induction h with
  | nil => exact fun {s} hs hindex _ v _ => ⟨s, rfl, hs, hindex, rfl⟩
  | @plain place offset around c t ps notMark rest ih =>
    intro s hs hindex haround v hv
    have hescape : place.isQuoted = true → c ≠ '\\' := by
      rintro hq rfl
      revert hq notMark
      cases place <;> decide
    obtain ⟨s', hscan, hs', hindex', hopened⟩ := ih (ready_advance hs hescape)
      (by rw [← hindex]; rfl) haround v hv
    refine ⟨s', ?_, hs', by rw [hindex', List.length_cons]; omega, hopened⟩
    rw [List.cons_append, scan, step_plain hs notMark]
    exact hscan
  | @escaped place offset around c t ps quoted rest ih =>
    intro s hs hindex haround v hv
    obtain ⟨s₁, hscan₁, hs₁, hindex₁, hopened₁⟩ := scan_escaped mode (c := c) hs quoted
      (t ++ v)
    obtain ⟨s', hscan, hs', hindex', hopened⟩ := ih hs₁ (by rw [hindex₁, hindex])
      (by rw [State.openStarts, hopened₁]; exact haround) v hv
    exact ⟨s', hscan₁.trans hscan, hs', by rw [hindex', List.length_cons, List.length_cons]; omega,
      hopened.trans hopened₁⟩
  | @dollar offset around t ps notBrace rest ih =>
    intro s hs hindex haround v hv
    obtain ⟨s', hscan, hs', hindex', hopened⟩ := ih (ready_advance (c := '$') hs (by decide))
      (by rw [← hindex]; rfl) haround v hv
    refine ⟨s', ?_, hs', by rw [hindex', List.length_cons]; omega, hopened⟩
    rw [List.cons_append, scan, step_dollar hs (head?_append_ne notBrace (hv rfl))]
    exact hscan
  | @pair place offset around k t u ps qs stands inner rest ihInner ihRest =>
    intro s hs hindex haround v hv
    subst hindex haround
    obtain ⟨s₁, hscan₁, hs₁, hindex₁, hopened₁⟩ := exists_scan_pair mode hs stands ihInner (u ++ v)
    have hstarts : s₁.openStarts = s.openStarts := by rw [State.openStarts, hopened₁]; rfl
    obtain ⟨s', hscan, hs', hindex', hopened⟩ := ihRest hs₁ hindex₁ hstarts v hv
    refine ⟨s', ?_, hs', ?_, hopened.trans hopened₁⟩
    · have hassoc : k.opener ++ (t ++ k.closing :: u) ++ v =
          k.opener ++ (t ++ k.closing :: (u ++ v)) := by simp
      rw [hassoc, hscan₁, hscan]
      simp
    · simp only [hindex', List.length_append, List.length_cons]
      omega

/-- The scan of a whole text reports the pairs of its derivation. -/
theorem spans_of_derivation (mode : Mode) {t : Text} {ps : List BracketSpan}
    (h : WellNested .outside 0 [] t ps) : spans mode t = ps := by
  obtain ⟨s', hscan, -, -, -⟩ := exists_scan_append mode h (s := .initial)
    ⟨rfl, rfl, by decide⟩ rfl rfl [] nofun
  rw [List.append_nil, scan, List.append_nil] at hscan
  exact hscan

end Brackets

/-! ## The pairs of a derivation -/

namespace BracketSpan

/-- A pair starts before another and stops after it. -/
def Encloses (q p : BracketSpan) : Prop := q.start < p.start ∧ p.stop < q.stop

/-- Of the pairs `ps`, the nearest around `p`. -/
structure IsNearest (ps : List BracketSpan) (q p : BracketSpan) : Prop where
  mem : q ∈ ps
  encloses : q.Encloses p
  innermost : ∀ r ∈ ps, r.Encloses p → r = q ∨ r.Encloses q

end BracketSpan

theorem PairKind.opener_eq (k : PairKind) : ∃ more, k.opener = k.opening :: more := by
  cases k <;> exact ⟨_, rfl⟩

theorem PairKind.length_opener_pos (k : PairKind) : 0 < k.opener.length := by
  obtain ⟨more, hmore⟩ := k.opener_eq
  simp [hmore]

namespace WellNested

variable {place : Place} {offset : Nat} {around : List Nat} {t : Text} {ps : List BracketSpan}

/-- A pair starts and stops in the text. -/
theorem bounds (h : WellNested place offset around t ps) :
    ∀ p ∈ ps, offset ≤ p.start ∧ p.start < p.stop ∧ p.stop < offset + t.length := by
  induction h with
  | nil => exact nofun
  | plain notMark rest ih =>
    intro p hp
    have := ih p hp
    rw [List.length_cons]
    omega
  | escaped quoted rest ih =>
    intro p hp
    have := ih p hp
    rw [List.length_cons, List.length_cons]
    omega
  | dollar notBrace rest ih =>
    intro p hp
    have := ih p hp
    rw [List.length_cons]
    omega
  | @pair place offset around k t u ps qs stands inner rest ihInner ihRest =>
    have hopener := k.length_opener_pos
    intro p hp
    rw [List.length_append, List.length_append, List.length_cons]
    rcases List.mem_append.mp hp with hp | hp
    · have := ihInner p hp
      omega
    · rcases List.mem_cons.mp hp with rfl | hp
      · dsimp only
        omega
      · have := ihRest p hp
        omega

/-- The pairs come in the order of their closers, and none of them twice. -/
theorem pairwise (h : WellNested place offset around t ps) :
    ps.Pairwise fun p q => p.stop < q.stop := by
  induction h with
  | nil => exact .nil
  | plain _ _ ih => exact ih
  | escaped _ _ ih => exact ih
  | dollar _ _ ih => exact ih
  | @pair place offset around k t u ps qs stands inner rest ihInner ihRest =>
    have hinner := inner.bounds
    have hrest := rest.bounds
    refine List.pairwise_append.mpr ⟨ihInner, .cons (fun q hq => ?_) ihRest, fun p hp q hq => ?_⟩
    · have := hrest q hq
      dsimp only
      omega
    · have := hinner p hp
      rcases List.mem_cons.mp hq with rfl | hq
      · exact this.2.2
      · have := hrest q hq
        omega

/-- A pair starts at its opening character and stops at its closing one. -/
theorem getElem?_eq (h : WellNested place offset around t ps) : ∀ before after : Text,
    before.length = offset → ∀ p ∈ ps, (before ++ (t ++ after))[p.start]? = some p.kind.opening ∧
      (before ++ (t ++ after))[p.stop]? = some p.kind.closing := by
  induction h with
  | nil => exact fun _ _ _ => nofun
  | @plain place offset around c t ps notMark rest ih =>
    intro before after hbefore p hp
    simpa using ih (before ++ [c]) after (by simp [hbefore]) p hp
  | @escaped place offset around c t ps quoted rest ih =>
    intro before after hbefore p hp
    simpa using ih (before ++ ['\\', c]) after (by simp [hbefore]) p hp
  | @dollar offset around t ps notBrace rest ih =>
    intro before after hbefore p hp
    simpa using ih (before ++ ['$']) after (by simp [hbefore]) p hp
  | @pair place offset around k t u ps qs stands inner rest ihInner ihRest =>
    intro before after hbefore p hp
    rcases List.mem_append.mp hp with hp | hp
    · simpa using ihInner (before ++ k.opener) (k.closing :: (u ++ after))
        (by simp [hbefore]) p hp
    · rcases List.mem_cons.mp hp with rfl | hp
      · obtain ⟨more, hmore⟩ := k.opener_eq
        have hstop : (before ++ k.opener ++ t).length = offset + k.opener.length + t.length := by
          simp only [List.length_append, hbefore]
        constructor
        · simp [← hbefore, hmore]
        · have hsplit : before ++ (k.opener ++ (t ++ k.closing :: u) ++ after) =
              (before ++ k.opener ++ t) ++ k.closing :: (u ++ after) := by simp
          dsimp only
          rw [hsplit, ← hstop, List.getElem?_append_right (Nat.le_refl _)]
          simp
      · simpa using ihRest (before ++ k.opener ++ t ++ [k.closing]) after
          (by simp only [List.length_append, List.length_singleton, hbefore]) p hp

/-- The spans around a pair are the nearest pair around it and the spans around that one; a pair
with no other around it has the spans that are around the whole text. -/
theorem parent (h : WellNested place offset around t ps) : ∀ p ∈ ps,
    (p.around = around ∧ ∀ q ∈ ps, ¬ q.Encloses p) ∨
      ∃ q : BracketSpan, q.IsNearest ps p ∧ p.around = q.start :: q.around := by
  induction h with
  | nil => exact nofun
  | plain _ _ ih => exact ih
  | escaped _ _ ih => exact ih
  | dollar _ _ ih => exact ih
  | @pair place offset around k t u ps qs stands inner rest ihInner ihRest =>
    have hopener := k.length_opener_pos
    have hinner := inner.bounds
    have hrest := rest.bounds
    generalize hb : (⟨k, offset, offset + k.opener.length + t.length, around⟩ : BracketSpan) = b
    have hstart : b.start = offset := by rw [← hb]
    have hstop : b.stop = offset + k.opener.length + t.length := by rw [← hb]
    have haround : b.around = around := by rw [← hb]
    -- Around a pair on either side there are pairs of that side, and the new pair around the first.
    have hfirst : ∀ r ∈ ps ++ b :: qs, ∀ p ∈ ps, r.Encloses p → r ∈ ps ∨ r = b := by
      intro r hr p hp hencloses
      rcases List.mem_append.mp hr with hr | hr
      · exact Or.inl hr
      rcases List.mem_cons.mp hr with hr | hr
      · exact Or.inr hr
      · have := hinner p hp
        have := hrest r hr
        have := hencloses.1
        omega
    have hsecond : ∀ r ∈ ps ++ b :: qs, ∀ p ∈ qs, r.Encloses p → r ∈ qs := by
      intro r hr p hp hencloses
      have hp := hrest p hp
      have hlt := hencloses.2
      rcases List.mem_append.mp hr with hr | hr
      · have := hinner r hr
        omega
      rcases List.mem_cons.mp hr with hr | hr
      · rw [hr] at hlt
        omega
      · exact hr
    intro p hp
    rcases List.mem_append.mp hp with hp | hp
    · right
      have hpb := hinner p hp
      rcases ihInner p hp with ⟨hparent, hnone⟩ | ⟨q, hq, hparent⟩
      · refine ⟨b, ⟨by simp, ⟨by omega, by omega⟩, fun r hr hrp => ?_⟩,
          by rw [hparent, hstart, haround]⟩
        exact Or.inl ((hfirst r hr p hp hrp).resolve_left fun hr => hnone r hr hrp)
      · refine ⟨q, ⟨List.mem_append_left _ hq.mem, hq.encloses, fun r hr hrp => ?_⟩, hparent⟩
        rcases hfirst r hr p hp hrp with hr | rfl
        · exact hq.innermost r hr hrp
        · have := hinner q hq.mem
          exact Or.inr ⟨by omega, by omega⟩
    rcases List.mem_cons.mp hp with hp | hp
    · refine Or.inl ⟨by rw [hp, haround], fun r hr hrp => ?_⟩
      rw [hp] at hrp
      have hlt := hrp.1
      rcases List.mem_append.mp hr with hr | hr
      · have := hinner r hr
        omega
      rcases List.mem_cons.mp hr with rfl | hr
      · omega
      · have := hrest r hr
        omega
    · rcases ihRest p hp with ⟨hparent, hnone⟩ | ⟨q, hq, hparent⟩
      · exact Or.inl ⟨hparent, fun r hr hrp => hnone r (hsecond r hr p hp hrp) hrp⟩
      · refine Or.inr ⟨q, ⟨by simp [hq.mem], hq.encloses, fun r hr hrp => ?_⟩, hparent⟩
        exact hq.innermost r (hsecond r hr p hp hrp) hrp

end WellNested

namespace Brackets

/-- The matched pairs of well-nested text are the pairs of its derivation in either mode: each of
them once and in the order of their closers, from its opening to its closing character, and with the
nearest pair around it as the innermost of the spans around it. -/
theorem spans_eq_of_wellNested (mode : Mode) {t : Text} {ps : List BracketSpan}
    (h : WellNested .outside 0 [] t ps) :
    spans mode t = ps ∧ (ps.Pairwise fun p q => p.stop < q.stop) ∧
      ∀ p ∈ ps, t[p.start]? = some p.kind.opening ∧ t[p.stop]? = some p.kind.closing ∧
        ((p.around = [] ∧ ∀ q ∈ ps, ¬ q.Encloses p) ∨
          ∃ q : BracketSpan, q.IsNearest ps p ∧ p.around = q.start :: q.around) := by
  refine ⟨spans_of_derivation mode h, h.pairwise, fun p hp => ?_⟩
  have hends := h.getElem?_eq [] [] rfl p hp
  rw [List.nil_append, List.append_nil] at hends
  exact ⟨hends.1, hends.2, h.parent p hp⟩

/-- A template literal in parentheses, with an escaped backtick, a dollar sign that opens nothing
and a closing brace in a string in a substitution. -/
theorem spans_eq_template_in_parentheses :
    WellNested .outside 0 [] "(`\\`$$\x7b'\x7d'\x7d`)".toList
        [⟨.singleQuote, 7, 9, [5, 1, 0]⟩, ⟨.substitution, 5, 10, [1, 0]⟩, ⟨.backtick, 1, 11, [0]⟩,
          ⟨.round, 0, 12, []⟩] ∧
      spans .ignoringMismatches "(`\\`$$\x7b'\x7d'\x7d`)".toList =
        [⟨.singleQuote, 7, 9, [5, 1, 0]⟩, ⟨.substitution, 5, 10, [1, 0]⟩, ⟨.backtick, 1, 11, [0]⟩,
          ⟨.round, 0, 12, []⟩] := by
  have hstring : WellNested .outside 7 [5, 1, 0] "'\x7d'".toList
      [⟨.singleQuote, 7, 9, [5, 1, 0]⟩] :=
    .pair (k := .singleQuote) (by decide) (.plain (by decide) .nil) .nil
  have hcontents : WellNested .template 2 [1, 0] "\\`$$\x7b'\x7d'\x7d".toList
      [⟨.singleQuote, 7, 9, [5, 1, 0]⟩, ⟨.substitution, 5, 10, [1, 0]⟩] :=
    .escaped rfl (.dollar (by decide) (.pair (k := .substitution) (by decide) hstring .nil))
  have htext : WellNested .outside 0 [] "(`\\`$$\x7b'\x7d'\x7d`)".toList
      [⟨.singleQuote, 7, 9, [5, 1, 0]⟩, ⟨.substitution, 5, 10, [1, 0]⟩, ⟨.backtick, 1, 11, [0]⟩,
        ⟨.round, 0, 12, []⟩] :=
    .pair (k := .round) (by decide) (.pair (k := .backtick) (by decide) hcontents .nil) .nil
  exact ⟨htext, (spans_eq_of_wellNested .ignoringMismatches htext).1⟩

end Brackets

end ReplCore
