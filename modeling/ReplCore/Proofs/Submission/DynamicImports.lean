import ReplCore.Proofs.Submission.Tracking

/-!
# The argument of a dynamic import

A dynamic import is documented to have a string as its first argument: after the string comes a
comma or the parenthesis that closes the call. The reader takes the string and then looks for the
closing parenthesis alone, so it takes any expression that begins with a string for a call with that
string.

* `closing_eq_some_iff`: the reader closes the call at the bracket that belongs to its parenthesis.
* `isSome_dynamicImport_iff`: it takes every call whose argument begins with a string.
* `symbol_of_closesBracket`: in a statement that was cut, that bracket is a parenthesis.
* `isDynamicImport_iff_of_declaration`: a declaration that is read as a dynamic import has the
  documented form just if the string is its whole first argument.
-/

namespace ReplCore

open Submission

/-! ## Depth -/

namespace Token

/-- How many more brackets are opened by the tokens than closed. -/
def depth (ts : List Token) : Int := ts.countP opensBracket - ts.countP closesBracket

@[simp] theorem depth_nil : depth [] = 0 := rfl

theorem depth_append (ts us : List Token) : depth (ts ++ us) = depth ts + depth us := by
  simp only [depth, List.countP_append]
  omega

theorem depth_cons (t : Token) (ts : List Token) : depth (t :: ts) = depth [t] + depth ts :=
  depth_append [t] ts

/-- The tokens between a bracket and the one that belongs to it: all that they open they close, and
nowhere do they close more than they opened. -/
structure Paired (ts : List Token) : Prop where
  depth_nonneg : ∀ before, before <+: ts → 0 ≤ depth before
  depth_eq_zero : depth ts = 0

variable {t : Token}

theorem opensBracket_iff :
    opensBracket t = true ↔ ∃ b ∈ Opener.brackets, t.kind = .symbol b.2.1 := by
  simp [opensBracket, Opener.ofOpening?]

theorem closesBracket_iff :
    closesBracket t = true ↔ ∃ b ∈ Opener.brackets, t.kind = .symbol b.2.2 := by
  simp [closesBracket, Opener.ofClosing?]

/-- No token opens one bracket and closes another. -/
theorem closesBracket_of_opensBracket (h : opensBracket t = true) : closesBracket t = false := by
  obtain ⟨b, hb, hkind⟩ := opensBracket_iff.mp h
  have hdisjoint : ∀ b ∈ Opener.brackets, ∀ c ∈ Opener.brackets, b.2.1 ≠ c.2.2 := by decide
  rw [← Bool.not_eq_true, closesBracket_iff]
  rintro ⟨c, hc, hkind'⟩
  exact hdisjoint b hb c hc (TokenKind.symbol.inj (hkind.symm.trans hkind'))

theorem depth_of_opensBracket (h : opensBracket t = true) : depth [t] = 1 := by
  simp [depth, h, closesBracket_of_opensBracket h]

theorem depth_of_closesBracket (h : closesBracket t = true) : depth [t] = -1 := by
  have hopens : opensBracket t = false := by
    by_contra hopens
    rw [closesBracket_of_opensBracket (by simpa using hopens)] at h
    cases h
  simp [depth, h, hopens]

theorem depth_of_neither (hopens : opensBracket t = false) (hcloses : closesBracket t = false) :
    depth [t] = 0 := by
  simp [depth, hopens, hcloses]

theorem depth_of_kind (h : ∀ s, t.kind ≠ .symbol s) : depth [t] = 0 := by
  obtain ⟨hopening, hclosing⟩ := Nesting.bracket_of_kind h
  exact depth_of_neither (by simp [opensBracket, hopening]) (by simp [closesBracket, hclosing])

theorem Paired.cons {ts : List Token} (ht : depth [t] = 0) (hts : Paired ts) :
    Paired (t :: ts) := by
  constructor
  · intro before hle
    rcases List.prefix_cons_iff.mp hle with rfl | ⟨before, rfl, hle'⟩
    · exact Int.le_refl 0
    · rw [depth_cons, ht, Int.zero_add]
      exact hts.depth_nonneg before hle'
  · rw [depth_cons, ht, hts.depth_eq_zero, Int.zero_add]

/-- The bracket that belongs to another can be found in one way only. -/
theorem Paired.unique {ts us rest rest' : List Token} {t u : Token} (hts : Paired ts)
    (hus : Paired us) (ht : closesBracket t = true) (hu : closesBracket u = true)
    (h : ts ++ t :: rest = us ++ u :: rest') : ts = us ∧ t = u := by
  -- A longer list of tokens would have the bracket that closes the shorter one.
  have hnot : ∀ {as bs : List Token} {x : Token}, Paired as → Paired bs → closesBracket x = true →
      ¬ as ++ [x] <+: bs := by
    intro as bs x has hbs hx hle
    have hdepth := hbs.depth_nonneg _ hle
    rw [depth_append, has.depth_eq_zero, depth_of_closesBracket hx] at hdepth
    omega
  rcases List.append_eq_append_iff.mp h with ⟨c, rfl, hc⟩ | ⟨c, rfl, hc⟩
  · cases c with
    | nil => exact ⟨(List.append_nil ts).symm, (List.cons.inj hc).1⟩
    | cons x c =>
      obtain ⟨rfl, -⟩ := List.cons.inj hc
      exact absurd ⟨c, by simp⟩ (hnot hts hus ht)
  · cases c with
    | nil => exact ⟨List.append_nil us, (List.cons.inj hc).1.symm⟩
    | cons x c =>
      obtain ⟨rfl, -⟩ := List.cons.inj hc
      exact absurd ⟨c, by simp⟩ (hnot hus hts hu)

end Token

open Token

/-! ## The documented form -/

/-- `[AWAIT] IMPORT "(" STRING ["," token*] ")" token*`, where the two parentheses belong
together. -/
inductive IsDynamicImport : List Token → Prop
  | intro {awaited options tail : List Token} {word paren module close : Token}
      (awaited_eq : awaited = [] ∨ ∃ t, awaited = [t] ∧ t.kind = .keyword .awaitWord)
      (word_kind : word.kind = .keyword .importWord) (paren_kind : paren.kind = .symbol "(".toList)
      (module_kind : module.kind = .string)
      (options_eq : options = [] ∨
        ∃ comma more, options = comma :: more ∧ comma.kind = .symbol ",".toList)
      (paired : Paired options) (close_kind : close.kind = .symbol ")".toList) :
      IsDynamicImport (awaited ++ word :: paren :: module :: (options ++ close :: tail))

/-- A call of `import` whose argument begins with a string, up to the bracket that belongs to its
parenthesis and with what follows that. -/
structure ImportCall where
  awaited : List Token
  word : Token
  paren : Token
  module : Token
  inner : List Token
  close : Token
  tail : List Token
  awaited_eq : awaited = [] ∨ ∃ t, awaited = [t] ∧ t.kind = .keyword .awaitWord
  word_kind : word.kind = .keyword .importWord
  paren_kind : paren.kind = .symbol "(".toList
  module_kind : module.kind = .string
  paired : Paired inner
  closesBracket_close : closesBracket close = true

namespace ImportCall

def tokens (c : ImportCall) : List Token :=
  c.awaited ++ c.word :: c.paren :: c.module :: (c.inner ++ c.close :: c.tail)

/-- The documented form is that of the calls that a parenthesis closes and in which a comma follows
the string, if anything does. -/
theorem isDynamicImport_iff (c : ImportCall) : IsDynamicImport c.tokens ↔
    c.close.kind = .symbol ")".toList ∧ ∀ t ∈ c.inner.head?, t.kind = .symbol ",".toList := by
  constructor
  · intro h
    generalize hts : c.tokens = ts at h
    cases h with
    | @intro awaited options tail word paren module close awaited_eq word_kind _ _ options_eq paired
        close_kind =>
      have hrest : c.inner ++ c.close :: c.tail = options ++ close :: tail := by
        have hword := c.word_kind
        rw [tokens] at hts
        rcases c.awaited_eq with h | ⟨t, h, ht⟩ <;> rw [h] at hts <;>
          rcases awaited_eq with rfl | ⟨t', rfl, ht'⟩
        · exact (List.cons.inj (List.cons.inj (List.cons.inj hts).2).2).2
        · rw [(List.cons.inj hts).1, ht'] at hword
          cases hword
        · rw [← (List.cons.inj hts).1, ht] at word_kind
          cases word_kind
        · exact (List.cons.inj (List.cons.inj (List.cons.inj (List.cons.inj hts).2).2).2).2
      have hclose : closesBracket close = true :=
        closesBracket_iff.mpr ⟨(.round, "(".toList, ")".toList), by decide, close_kind⟩
      obtain ⟨hinner, rfl⟩ := c.paired.unique paired c.closesBracket_close hclose hrest
      refine ⟨close_kind, fun t ht => ?_⟩
      rw [hinner] at ht
      rcases options_eq with rfl | ⟨comma, more, rfl, hcomma⟩
      · cases ht
      · rwa [← Option.some.inj ht]
  · rintro ⟨hkind, hcomma⟩
    refine .intro c.awaited_eq c.word_kind c.paren_kind c.module_kind ?_ c.paired hkind
    cases hinner : c.inner with
    | nil => exact Or.inl rfl
    | cons comma more =>
      rw [hinner] at hcomma
      exact Or.inr ⟨comma, more, rfl, hcomma comma rfl⟩

end ImportCall

/-! ## What the reader takes -/

namespace Submission

/-- What the reader counts is the depth. -/
theorem depth_of_closing_step {n : Nat} (hn : 0 < n) (t : Token) :
    ((if opensBracket t then n + 1 else if closesBracket t then n - 1 else n : Nat) : Int) =
      n + depth [t] := by
  split
  · next hopens =>
    rw [depth_of_opensBracket hopens]
    omega
  split
  · next hcloses =>
    rw [depth_of_closesBracket hcloses]
    omega
  · next hopens hcloses =>
    rw [depth_of_neither (by simpa using hopens) (by simpa using hcloses)]
    omega

/-- The reader stops at the first token at which all brackets are closed, `n` of which were open
before. -/
theorem exists_of_closing {ts rest : List Token} {close : Token} : ∀ {n : Nat}, 0 < n →
    closing opensBracket closesBracket n ts = some (close, rest) →
    ∃ inner, ts = inner ++ close :: rest ∧ closesBracket close = true ∧
      (∀ before, before <+: inner → 0 < n + depth before) ∧ n + depth inner = 1 := by
  induction ts with
  | nil =>
    intro n _ h
    cases h
  | cons u us ih =>
    intro n hn h
    have hdepth := depth_of_closing_step hn u
    rw [closing] at h
    generalize (if opensBracket u then n + 1 else if closesBracket u then n - 1 else n) = next
      at h hdepth
    split at h
    · next hzero =>
      obtain ⟨rfl, rfl⟩ := Prod.mk.inj (Option.some.inj h)
      have hcloses : closesBracket u = true := by
        by_contra hcloses
        rw [Bool.not_eq_true] at hcloses
        cases hopens : opensBracket u with
        | true =>
          rw [depth_of_opensBracket hopens] at hdepth
          omega
        | false =>
          rw [depth_of_neither hopens hcloses] at hdepth
          omega
      have hdepthu := depth_of_closesBracket hcloses
      refine ⟨[], rfl, hcloses, fun before hbefore => ?_, ?_⟩
      · rw [List.prefix_nil.mp hbefore, depth_nil]
        omega
      · rw [depth_nil]
        omega
    · next hpos =>
      obtain ⟨inner, rfl, hclose, hbefore, hinner⟩ := ih (Nat.pos_of_ne_zero hpos) h
      refine ⟨u :: inner, rfl, hclose, fun before hle => ?_, ?_⟩
      · rcases List.prefix_cons_iff.mp hle with rfl | ⟨before', rfl, hle'⟩
        · rw [depth_nil]
          omega
        · have := hbefore before' hle'
          rw [depth_cons u before']
          omega
      · rw [depth_cons u inner]
        omega

theorem closing_append {rest : List Token} {close : Token} (hclose : closesBracket close = true)
    {inner : List Token} : ∀ {n : Nat}, 0 < n →
      (∀ before, before <+: inner → 0 < n + depth before) → n + depth inner = 1 →
      closing opensBracket closesBracket n (inner ++ close :: rest) = some (close, rest) := by
  induction inner with
  | nil =>
    intro n hn _ hinner
    have hdepth := depth_of_closing_step hn close
    rw [depth_of_closesBracket hclose] at hdepth
    rw [depth_nil] at hinner
    rw [List.nil_append, closing]
    exact if_pos (by omega)
  | cons u us ih =>
    intro n hn hbefore hinner
    have hdepth := depth_of_closing_step hn u
    have hfirst := hbefore [u] (by simp)
    rw [depth_cons u us] at hinner
    rw [List.cons_append, closing]
    generalize (if opensBracket u then n + 1 else if closesBracket u then n - 1 else n) = next
      at hdepth
    rw [if_neg (by omega)]
    refine ih (by omega) (fun before hle => ?_) (by omega)
    have := hbefore (u :: before) (List.cons_prefix_cons.mpr ⟨rfl, hle⟩)
    rw [depth_cons u before] at this
    omega

/-- After a bracket the reader stops at the one that belongs to it. -/
theorem closing_eq_some_iff {ts rest : List Token} {close : Token} :
    closing opensBracket closesBracket 1 ts = some (close, rest) ↔
      ∃ inner, ts = inner ++ close :: rest ∧ closesBracket close = true ∧ Paired inner := by
  constructor
  · intro h
    obtain ⟨inner, hts, hclose, hbefore, hinner⟩ := exists_of_closing Nat.one_pos h
    refine ⟨inner, hts, hclose, fun before hle => ?_, by omega⟩
    have := hbefore before hle
    omega
  · rintro ⟨inner, rfl, hclose, hinner⟩
    have hdepth := hinner.depth_eq_zero
    refine closing_append hclose Nat.one_pos (fun before hle => ?_) (by omega)
    have := hinner.depth_nonneg before hle
    omega

/-- What the reader takes for a dynamic import is a call whose argument begins with a string. It cuts
out of the source what stands before the word, in the call after the string, and after the call. -/
theorem exists_importCall_slices {source : Text} {ts : List Token} {load : ModuleLoad}
    (h : dynamicImport source ts = some load) :
    ∃ c : ImportCall, ts = c.tokens ∧
      load = .dynamicImport (spanOf (c.awaited.head?.getD c.word) (c.tail.getLast?.getD c.close))
        c.module.stringValue c.module.text
        (Text.slice source (c.awaited.head?.getD c.word).start c.word.start)
        (Text.slice source c.module.stop c.close.start)
        (Text.slice source c.close.stop (c.tail.getLast?.getD c.close).stop) := by
  obtain ⟨awaited, word, paren, module, us, close, rest, rfl, hawaited, hword, hparen, hmodule,
    hclose, rfl⟩ := dynamicImport_slices h
  obtain ⟨inner, rfl, hcloses, hpaired⟩ := closing_eq_some_iff.mp hclose
  exact ⟨⟨awaited, word, paren, module, inner, close, rest, hawaited, hword, hparen, hmodule,
    hpaired, hcloses⟩, rfl, rfl⟩

/-- The string is what it takes for the argument. -/
theorem exists_importCall {source : Text} {ts : List Token} {load : ModuleLoad}
    (h : dynamicImport source ts = some load) :
    ∃ (c : ImportCall) (first last : Token) (lead options tail : Text), ts = c.tokens ∧
      load = .dynamicImport (spanOf first last) c.module.stringValue c.module.text lead options
        tail := by
  obtain ⟨c, hts, hload⟩ := exists_importCall_slices h
  exact ⟨c, _, _, _, _, _, hts, hload⟩

/-- Every call of `import` whose argument begins with a string is taken for a dynamic import. -/
theorem isSome_dynamicImport_iff {source : Text} {ts : List Token} :
    (dynamicImport source ts).isSome = true ↔ ∃ c : ImportCall, ts = c.tokens := by
  rw [Option.isSome_iff_exists]
  constructor
  · rintro ⟨load, h⟩
    obtain ⟨c, -, -, -, -, -, hts, -⟩ := exists_importCall h
    exact ⟨c, hts⟩
  · rintro ⟨c, rfl⟩
    have hcall : ∀ awaited us, optional (takeKeyword .awaitWord) us =
        (awaited, c.word :: c.paren :: c.module :: (c.inner ++ c.close :: c.tail)) →
        ∃ load, dynamicImport source us = some load := by
      intro awaited us h
      have hclosing : closing opensBracket closesBracket 1 (c.inner ++ c.close :: c.tail) =
          some (c.close, c.tail) :=
        closing_eq_some_iff.mpr ⟨c.inner, rfl, c.closesBracket_close, c.paired⟩
      simp only [dynamicImport, h]
      simp [takeKeyword, takeSymbol, takeKind, take, c.word_kind, c.paren_kind, c.module_kind,
        hclosing]
    rcases c.awaited_eq with h | ⟨t, h, ht⟩ <;> rw [ImportCall.tokens, h]
    · exact hcall none _ (by simp [optional, takeKeyword, takeKind, take, c.word_kind])
    · exact hcall (some t) _ (by simp [optional, takeKeyword, takeKind, take, ht])

end Submission

/-! ## Brackets of statements that were cut -/

namespace Nesting

/-- Whether brackets and not a template literal or a substitution are open. -/
def isBracket (o : Opener) : Bool := o ∈ Opener.brackets.map Prod.fst

theorem isBracket_of_mem {b : Opener × Text × Text} (h : b ∈ Opener.brackets) :
    isBracket b.1 = true :=
  decide_eq_true (List.mem_map_of_mem h)

/-- A bracket changes what is open. -/
theorem depth_of_track_self {opened : List Opener} {t : Token} (h : track opened t = .ok opened) :
    depth [t] = 0 := by
  unfold track at h
  split at h
  · next o _ => exact absurd (Except.ok.inj h) (List.cons_ne_self o opened)
  next hopening =>
    split at h
    · next o _ =>
      split at h
      · next hhead =>
        obtain ⟨rest, rfl⟩ := List.head?_eq_some_iff.mp hhead
        exact absurd (Except.ok.inj h).symm (List.cons_ne_self o rest)
      · cases h
    · next hclosing =>
      exact depth_of_neither (by simp [opensBracket, hopening]) (by simp [closesBracket, hclosing])

/-- What one token does to the brackets that are open. -/
theorem track_cases {opened opened' : List Opener} {t : Token}
    (h : track opened t = .ok opened') :
    (depth [t] = 1 ∧ ∃ o, isBracket o = true ∧ opened' = o :: opened) ∨
    (depth [t] = -1 ∧ ∃ b ∈ Opener.brackets, t.kind = .symbol b.2.2 ∧ opened = b.1 :: opened') ∨
    (depth [t] = 0 ∧ (opened' = opened ∨
      ∃ o, isBracket o = false ∧ (opened' = o :: opened ∨ opened = o :: opened'))) := by
  cases tracks_of_track h with
  | opens hb kind =>
    exact Or.inl ⟨depth_of_opensBracket (opensBracket_iff.mpr ⟨_, hb, kind⟩), _,
      isBracket_of_mem hb, rfl⟩
  | closes hb kind here =>
    exact Or.inr (Or.inl ⟨depth_of_closesBracket (closesBracket_iff.mpr ⟨_, hb, kind⟩), _, hb, kind,
      here⟩)
  | opensTemplate kind _ =>
    exact Or.inr (Or.inr ⟨depth_of_kind (by simp [kind]), Or.inr ⟨.template, rfl, Or.inl rfl⟩⟩)
  | closesTemplate kind here =>
    exact Or.inr (Or.inr ⟨depth_of_kind (by simp [kind]), Or.inr ⟨.template, rfl, Or.inr here⟩⟩)
  | opensSubstitution kind _ =>
    exact Or.inr (Or.inr ⟨depth_of_kind (by simp [kind]), Or.inr ⟨.substitution, rfl, Or.inl rfl⟩⟩)
  | closesSubstitution kind _ here =>
    exact Or.inr (Or.inr ⟨depth_of_kind (by simp [kind]), Or.inr ⟨.substitution, rfl, Or.inr here⟩⟩)
  | other _ _ => exact Or.inr (Or.inr ⟨depth_of_track_self h, Or.inl rfl⟩)

/-- A bracket stays open over tokens that nowhere close more brackets than they opened after it. By
induction on the tokens: of the brackets `above` it there are never less than none. -/
theorem exists_of_trackAll {o : Opener} {below opened : List Opener} (ho : isBracket o = true)
    {ts : List Token} : ∀ {above : List Opener},
      trackAll (above ++ o :: below) ts = .ok opened →
      (∀ before, before <+: ts → 0 ≤ above.countP isBracket + depth before) →
      ∃ above', opened = above' ++ o :: below ∧
        (above'.countP isBracket : Int) = above.countP isBracket + depth ts := by
  induction ts with
  | nil =>
    intro above h _
    exact ⟨above, (Except.ok.inj h).symm, by simp⟩
  | cons t ts ih =>
    intro above h hbefore
    rw [trackAll_cons] at h
    obtain ⟨next, hnext, hmore⟩ := exists_of_bind_eq_ok h
    have hfirst := hbefore [t] (by simp)
    have hstep : ∃ above', next = above' ++ o :: below ∧
        (above'.countP isBracket : Int) = above.countP isBracket + depth [t] := by
      rcases track_cases hnext with ⟨hdepth, x, hx, rfl⟩ | ⟨hdepth, b, hb, -, hpop⟩ |
        ⟨hdepth, hnext⟩
      · refine ⟨x :: above, rfl, ?_⟩
        rw [List.countP_cons_of_pos hx]
        omega
      · cases above with
        | nil =>
          rw [List.countP_nil] at hfirst
          omega
        | cons y above =>
          obtain ⟨rfl, rfl⟩ := List.cons.inj hpop
          refine ⟨above, rfl, ?_⟩
          rw [List.countP_cons_of_pos (isBracket_of_mem hb)]
          omega
      · rcases hnext with rfl | ⟨x, hx, rfl | hpop⟩
        · exact ⟨above, rfl, by omega⟩
        · refine ⟨x :: above, rfl, ?_⟩
          rw [List.countP_cons_of_neg (by simp [hx])]
          omega
        · cases above with
          | nil =>
            rw [(List.cons.inj hpop).1, hx] at ho
            cases ho
          | cons y above =>
            obtain ⟨rfl, rfl⟩ := List.cons.inj hpop
            refine ⟨above, rfl, ?_⟩
            rw [List.countP_cons_of_neg (by simp [hx])]
            omega
    obtain ⟨above', rfl, hcount⟩ := hstep
    obtain ⟨above'', hopened, hcount'⟩ := ih hmore fun before hle => by
      have := hbefore (t :: before) (List.cons_prefix_cons.mpr ⟨rfl, hle⟩)
      rw [depth_cons t before] at this
      omega
    exact ⟨above'', hopened, by rw [hcount', hcount, depth_cons t ts]; omega⟩

/-- In tokens that close all that they open, what belongs to a round parenthesis is one. -/
theorem symbol_of_closesBracket {before inner rest : List Token} {paren close : Token}
    (h : trackAll [] (before ++ paren :: (inner ++ close :: rest)) = .ok [])
    (hparen : paren.kind = .symbol "(".toList) (hinner : Paired inner)
    (hclose : closesBracket close = true) : close.kind = .symbol ")".toList := by
  rw [trackAll_append] at h
  obtain ⟨below, -, h⟩ := exists_of_bind_eq_ok h
  rw [trackAll_cons] at h
  have hround : track below paren = .ok (.round :: below) := by
    simp [track, Opener.ofOpening?, Opener.brackets, hparen]
  obtain ⟨opened, hopened, h⟩ := exists_of_bind_eq_ok h
  obtain rfl := Except.ok.inj (hround.symm.trans hopened)
  rw [trackAll_append] at h
  obtain ⟨opened, hopened, h⟩ := exists_of_bind_eq_ok h
  have hround : trackAll ([] ++ .round :: below) inner = .ok opened := hopened
  obtain ⟨above, rfl, hcount⟩ := exists_of_trackAll rfl hround
    fun before hle => by simpa using hinner.depth_nonneg before hle
  rw [hinner.depth_eq_zero] at hcount
  rw [trackAll_cons] at h
  obtain ⟨closed, hclosed, -⟩ := exists_of_bind_eq_ok h
  have hdepth := depth_of_closesBracket hclose
  rcases track_cases hclosed with ⟨hone, -⟩ | ⟨-, b, hb, hkind, hpop⟩ | ⟨hzero, -⟩
  · omega
  · cases above with
    | nil =>
      have hsymbol : ∀ b ∈ Opener.brackets, b.1 = .round → b.2.2 = ")".toList := by decide
      rw [hkind, hsymbol b hb (List.cons.inj hpop).1.symm]
    | cons y above =>
      obtain ⟨rfl, -⟩ := List.cons.inj hpop
      rw [List.countP_cons_of_pos (isBracket_of_mem hb), List.countP_nil] at hcount
      omega
  · omega

end Nesting

namespace Submission

/-- The reader takes every call of `import` whose argument begins with a string for a dynamic import
of this string. So a declaration that is read as a dynamic import has the documented form just if
the string is the whole first argument: whatever else follows it is read as the options. The reader
does not ask which bracket closes the call, but where the submission was cut into statements it is a
parenthesis. -/
theorem isDynamicImport_iff_of_declaration (source : Text) :
    (∀ c : ImportCall, (dynamicImport source c.tokens).isSome = true) ∧
    ∀ {ts : List Token} {s : Statement} {kind : DeclarationKind} {body target : Text} {span : Span}
      {string literal lead options tail : Text}, declaration source ts = some s →
      s.form = .declaration kind body
        (some ⟨target, .dynamicImport span string literal lead options tail⟩) →
      ∃ (word : Token) (bound : List Token) (ends : Token × Token) (equals : Token)
        (c : ImportCall), ts = word :: (bound ++ equals :: c.tokens) ∧
        bindingTarget (bound ++ equals :: c.tokens) = some (ends, equals :: c.tokens) ∧
        equals.kind = .symbol "=".toList ∧ string = c.module.stringValue ∧
        literal = c.module.text ∧
        (IsDynamicImport c.tokens ↔
          c.close.kind = .symbol ")".toList ∧ ∀ t ∈ c.inner.head?, t.kind = .symbol ",".toList) ∧
        ∀ {tokens : List Token} {groups : List (List Token)},
          splitStatements tokens = .ok groups → ts ∈ groups →
            c.close.kind = .symbol ")".toList := by
  refine ⟨fun c => isSome_dynamicImport_iff.mpr ⟨c, rfl⟩, fun h hform => ?_⟩
  obtain ⟨word, bound, ends, equals, call, rfl, hbound, hequals, hload⟩ :=
    declaration_eq_some_of_load h hform
  rcases hload with hrequire | hload
  · obtain ⟨a, callee, paren, module, close, first, -, -, -, -, -, hcall⟩ :=
      requireCall_eq_some hrequire
    cases hcall
  · obtain ⟨c, first, last, lead', options', tail', rfl, hcall⟩ := exists_importCall hload
    simp only [ModuleLoad.dynamicImport.injEq] at hcall
    refine ⟨word, bound, ends, equals, c, rfl, hbound, hequals, hcall.2.1, hcall.2.2.1,
      c.isDynamicImport_iff, fun hgroups hmem => ?_⟩
    have hpaired : Paired (c.module :: c.inner) :=
      c.paired.cons (depth_of_kind (by simp [c.module_kind]))
    have htrack : Nesting.trackAll [] (word :: (bound ++ equals :: c.awaited ++ [c.word]) ++
        c.paren :: ((c.module :: c.inner) ++ c.close :: c.tail)) = .ok [] := by
      have := trackAll_of_splitStatements hgroups _ hmem
      simpa [ImportCall.tokens] using this
    exact Nesting.symbol_of_closesBracket htrack c.paren_kind hpaired c.closesBracket_close

/-- A computed argument: the statement `let m=import('a'+b)` is read as an import of `a`. -/
theorem isDynamicImport_iff_of_declaration_computed :
    ∃ ts, splitStatements (Token.tokenize "let m=import('a'+b)".toList) = .ok [ts] ∧
      declaration "let m=import('a'+b)".toList ts =
        some ⟨⟨0, 19⟩, "let m=import('a'+b)".toList,
          .declaration .letKind " m=import('a'+b)".toList (some ⟨"m".toList,
            .dynamicImport ⟨6, 19⟩ "a".toList "'a'".toList [] "+b".toList []⟩)⟩ ∧
      ∃ ends equals call, bindingTarget ts.tail = some (ends, equals :: call) ∧
        ¬ IsDynamicImport call := by
  let first : List Token :=
    [⟨.keyword .letWord, "let".toList, 0, 3⟩, ⟨.name, "m".toList, 4, 5⟩,
      ⟨.symbol "=".toList, "=".toList, 5, 6⟩]
  let call : List Token :=
    [⟨.keyword .importWord, "import".toList, 6, 12⟩, ⟨.symbol "(".toList, "(".toList, 12, 13⟩,
      ⟨.string, "'a'".toList, 13, 16⟩, ⟨.symbol "+".toList, "+".toList, 16, 17⟩,
      ⟨.name, "b".toList, 17, 18⟩, ⟨.symbol ")".toList, ")".toList, 18, 19⟩]
  have hsplit : (splitStatements (Token.tokenize "let m=import('a'+b)".toList)).toOption =
      some [first ++ call] := by
    decide +kernel
  have hdeclaration : declaration "let m=import('a'+b)".toList (first ++ call) = some _ := rfl
  obtain ⟨word, bound, ends, equals, c, hts, hbound, -, -, -, hiff, hclose⟩ :=
    (isDynamicImport_iff_of_declaration _).2 hdeclaration rfl
  rw [← (List.cons.inj hts).2] at hbound
  have htokens : call = c.tokens := (List.cons.inj (Prod.mk.inj (Option.some.inj hbound)).2).2
  refine ⟨first ++ call, eq_ok_of_toOption hsplit, hdeclaration, ends, equals, c.tokens, hbound, ?_⟩
  rw [hiff]
  rintro ⟨hkind, hcomma⟩
  rw [ImportCall.tokens] at htokens
  rcases c.awaited_eq with h | ⟨t, h, ht⟩ <;> rw [h] at htokens
  · have hrest := (List.cons.inj (List.cons.inj (List.cons.inj htokens).2).2).2
    cases hinner : c.inner with
    | nil =>
      rw [hinner] at hrest
      rw [← (List.cons.inj hrest).1] at hkind
      cases hkind
    | cons plus more =>
      rw [hinner] at hrest hcomma
      have hplus := hcomma plus rfl
      rw [← (List.cons.inj hrest).1] at hplus
      cases hplus
  · rw [← (List.cons.inj htokens).1] at ht
    cases ht

end Submission

end ReplCore
