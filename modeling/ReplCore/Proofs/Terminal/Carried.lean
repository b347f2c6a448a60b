import ReplCore.Proofs.Terminal.Painting
import ReplCore.Proofs.Terminal.Styling

/-!
# The formatting that is carried over

A sequence is left out of those in force if a later reset of its kind undoes it. That loses nothing
of a sequence that sets a color and nothing else. But a sequence counts as one by the color it starts
with, and what comes after the color is left out with it.

* `exists_select_eq`: a sequence that counts as a color sets that color, and then the numbers after
  it.
* `foldl_after_of_isFullReset`, `foldl_after_of_colorReset`: what was set before a reset of its kind
  makes no difference in the end.
* `play_carried_eq`: the sequences carried over do what all the sequences of a text do, unless
  numbers that come after a color are lost with it.
-/

namespace ReplCore

open Escape Terminal

/-! ## Sequences that count as a color -/

namespace Escape

open Cursor Pattern

/-- The digits before the last one of the colors that one number gives. -/
def codesOf : Ground → List String
  | .foreground => ["3", "9"]
  | .background => ["4", "10"]

/-- The digits of the number before the arguments of a color. -/
def argumentCode : Ground → String
  | .foreground => "38"
  | .background => "48"

variable {s : Text} {ns : List Nat} {ground : Ground}

/-- What a sequence that counts as a color has between its bracket and its last letter. -/
def IsColorBody (ground : Ground) (body : Text) : Prop :=
  (∃ code ∈ codesOf ground, ∃ x ∈ "01234567".toList, body = code.toList ++ [x]) ∨
    ∃ more, body = (argumentCode ground).toList ++ ';' :: more

/-- What stands between the bracket and the last letter of a text that the pattern of a color
matches. -/
theorem exists_body_of_any {dark bright extended : String} (h : ((all [lit "\x1b[",
    firstOf [seq (lit dark) (oneOf "01234567"), seq (lit bright) (oneOf "01234567"),
      seq (lit extended) (some1 (seq (lit ";") (some1 (one CharClass.isDigit))))],
    lit "m"]).ends (.start s)).any (fun c => c.rest.isEmpty) = true) :
    ∃ body, s = "\x1b[".toList ++ body ++ "m".toList ∧
      ((∃ code ∈ [dark, bright], ∃ x ∈ "01234567".toList, body = code.toList ++ [x]) ∨
        ∃ more, body = extended.toList ++ ';' :: more) := by
  obtain ⟨d, hd, hrest⟩ := List.any_eq_true.mp h
  obtain ⟨a, ha, hd⟩ := mem_ends_seq.mp hd
  obtain ⟨b, hb, hd⟩ := mem_ends_seq.mp hd
  have htext {body : Text} (hbody : Spans a body b) :
      s = "\x1b[".toList ++ body ++ "m".toList := by
    have := (((mem_ends_lit.mp ha).trans hbody).trans (mem_ends_lit.mp hd)).rest_eq
    rwa [List.isEmpty_iff.mp hrest, List.append_nil] at this
  have hcode {code : String} (hmem : code ∈ [dark, bright])
      (hb : b ∈ (seq (lit code) (oneOf "01234567")).ends a) :
      ∃ body, Spans a body b ∧
        ∃ code ∈ [dark, bright], ∃ x ∈ "01234567".toList, body = code.toList ++ [x] := by
    obtain ⟨e, he, hb⟩ := mem_ends_seq.mp hb
    obtain ⟨x, hx, hdigit⟩ := mem_ends_one.mp hb
    exact ⟨_, (mem_ends_lit.mp he).trans hdigit, code, hmem, x, List.contains_iff_mem.mp hx, rfl⟩
  obtain ⟨p, hp, hb⟩ := mem_ends_firstOf.mp hb
  simp only [List.mem_cons, List.not_mem_nil, or_false] at hp
  rcases hp with rfl | rfl | rfl
  · obtain ⟨body, hbody, hcode⟩ := hcode (by simp) hb
    exact ⟨body, htext hbody, .inl hcode⟩
  · obtain ⟨body, hbody, hcode⟩ := hcode (by simp) hb
    exact ⟨body, htext hbody, .inl hcode⟩
  · obtain ⟨e, hextended, hb⟩ := mem_ends_seq.mp hb
    obtain ⟨f, hfirst, hmore⟩ := mem_ends_seq.mp hb
    obtain ⟨g, hsemicolon, hdigits⟩ := mem_ends_seq.mp hfirst
    obtain ⟨t, ht⟩ := spans_of_mem_ends _ _ _ hdigits
    obtain ⟨u, hu⟩ := spans_of_mem_ends _ _ _ hmore
    have hbody := (mem_ends_lit.mp hextended).trans
      (((mem_ends_lit.mp hsemicolon).trans ht).trans hu)
    exact ⟨_, htext hbody, .inr ⟨t ++ u, rfl⟩⟩

theorem exists_body_of_setsColor (h : setsColor ground s = true) :
    ∃ body, s = "\x1b[".toList ++ body ++ "m".toList ∧ IsColorBody ground body := by
  cases ground with
  | foreground => exact exists_body_of_any h
  | background => exact exists_body_of_any h

/-- A sequence that counts as a color is one number, or it starts with the number before the
arguments of a color. -/
theorem numbers_of_setsColor (hs : Selects s ns) (h : setsColor ground s = true) :
    (∃ code ∈ codesOf ground, ∃ x ∈ "01234567".toList, ns = [numberOf (code.toList ++ [x])]) ∨
      ∃ more, ns = numberOf (argumentCode ground).toList :: more := by
  obtain ⟨ds, hne, hds, rfl, rfl⟩ := hs
  obtain ⟨d, ds, rfl⟩ := List.exists_cons_of_ne_nil hne
  obtain ⟨body, hbody, hcolor⟩ := exists_body_of_setsColor h
  have hjoin : Text.join [';'] (d :: ds) = body :=
    List.append_cancel_left (List.append_cancel_right hbody)
  rw [join_eq] at hjoin
  have hd : ';' ∉ d := fun hmem => absurd (hds d List.mem_cons_self _ hmem) (by decide)
  rcases hcolor with ⟨code, hcode, x, hx, rfl⟩ | ⟨more, rfl⟩
  · refine .inl ⟨code, hcode, x, hx, ?_⟩
    cases ds with
    | nil => rw [← hjoin, List.flatMap_nil, List.append_nil, List.map_singleton]
    | cons e ds =>
      have hsemicolon : ∀ code ∈ codesOf ground, ∀ x ∈ "01234567".toList,
          ';' ∉ code.toList ++ [x] := by
        cases ground <;> simp [codesOf]
      refine absurd ?_ (hsemicolon code hcode x hx)
      simp [← hjoin]
  · refine .inr ⟨ds.map numberOf, ?_⟩
    cases ds with
    | nil =>
      rw [List.flatMap_nil, List.append_nil] at hjoin
      refine absurd ?_ hd
      simp [hjoin]
    | cons e ds =>
      have hcode : ';' ∉ (argumentCode ground).toList := by
        cases ground <;> decide
      have := congrArg (List.takeWhile (· ≠ ';')) hjoin
      rw [List.flatMap_cons, List.cons_append, takeWhile_ne_append_cons hd,
        takeWhile_ne_append_cons hcode] at this
      rw [this, List.map_cons]

end Escape

/-! ## Numbers that set a color first -/

namespace Terminal.Formatting

variable {f g : Formatting} {ground : Ground}

/-- The numbers after the arguments of a color. -/
def afterArguments : List Nat → List Nat
  | 5 :: _ :: more => more
  | 2 :: _ :: _ :: _ :: more => more
  | ns => ns

theorem exists_select_digit {code : String} (hcode : code ∈ codesOf ground) {x : Char}
    (hx : x ∈ "01234567".toList) (f : Formatting) :
    ∃ c, f.select [numberOf (code.toList ++ [x])] = f.colored c ground := by
  have hcodes : ((codesOf ground).all fun code => "01234567".toList.all fun x =>
      (List.range 16).any fun n =>
        (Color.numbered n).codes ground == [numberOf (code.toList ++ [x])]) = true := by
    cases ground <;> decide
  simp only [List.all_eq_true, List.any_eq_true, beq_iff_eq] at hcodes
  obtain ⟨n, -, hn⟩ := hcodes code hcode x hx
  refine ⟨.numbered n, ?_⟩
  rw [← hn, ← List.append_nil (Color.codes _ ground), select_color, select]

theorem exists_select_arguments (f : Formatting) (ground : Ground) (ns : List Nat) :
    ∃ c, f.select (numberOf (argumentCode ground).toList :: ns) =
      (f.colored c ground).select (afterArguments ns) := by
  fun_cases afterArguments ns with
  | case1 n more => exact ⟨.numbered n, by cases ground <;> rfl⟩
  | case2 red green blue more => exact ⟨.mixed red green blue, by cases ground <;> rfl⟩
  | case3 _ hnumbered hmixed =>
    -- The number itself sets nothing.
    refine ⟨f.color ground, ?_⟩
    cases ground
    · exact select.eq_6 f 38 ns (fun n more _ => hnumbered n more)
        (fun red green blue more _ => hmixed red green blue more) (by simp) (by simp)
    · exact select.eq_6 f 48 ns (by simp) (by simp) (fun n more _ => hnumbered n more)
        (fun red green blue more _ => hmixed red green blue more)

/-- A sequence that counts as a color sets it, and then the numbers after it. -/
theorem exists_select_eq {s : Text} {n : Nat} {ns : List Nat} (hs : Selects s (n :: ns))
    (h : setsColor ground s = true) (f : Formatting) :
    ∃ c, f.select (n :: ns) = (f.colored c ground).select (afterArguments ns) := by
  rcases numbers_of_setsColor hs h with ⟨code, hcode, x, hx, hns⟩ | ⟨more, hns⟩
  · obtain ⟨rfl, rfl⟩ := List.cons.inj hns
    exact exists_select_digit hcode hx f
  · obtain ⟨rfl, rfl⟩ := List.cons.inj hns
    exact exists_select_arguments f ground ns

/-! ## Looks aside from a color -/

/-- The formatting without its color in front or behind. -/
def withoutColor (ground : Ground) (f : Formatting) : Formatting := f.colored .default ground

theorem withoutColor_colored_self (f : Formatting) (c : Color) :
    (f.colored c ground).withoutColor ground = f.withoutColor ground := by
  cases ground <;> rfl

theorem withoutColor_colored (f : Formatting) (c : Color) (ground' : Ground) :
    ((f.withoutColor ground).colored c ground').withoutColor ground =
      (f.colored c ground').withoutColor ground := by
  cases ground <;> cases ground' <;> rfl

theorem withoutColor_set (f : Formatting) (n : Nat) :
    ((f.withoutColor ground).set n).withoutColor ground = (f.set n).withoutColor ground := by
  -- A number without a case of its own may be that of an attribute.
  cases hfound : Attribute.all.find? fun a => a.code = n <;> cases ground <;>
    simp only [set, apply_ite (withoutColor _), hfound, switchOn, switchOff] <;> rfl

theorem withoutColor_select_congr (h : f.withoutColor ground = g.withoutColor ground)
    (ns : List Nat) : (f.select ns).withoutColor ground = (g.select ns).withoutColor ground :=
  select_congr_of (withoutColor ground) withoutColor_set withoutColor_colored h ns

/-! ## What makes no difference in the end -/

theorem after_isFullReset {s : Text} (h : isFullReset s = true) (f : Formatting) :
    f.after s = default := by
  rcases eq_of_isFullReset h with rfl | rfl <;> rfl

theorem after_colorReset (f : Formatting) (ground : Ground) :
    f.after (colorReset ground) = f.withoutColor ground := by
  cases ground <;> rfl

/-- Before a full reset no formatting makes a difference. -/
theorem foldl_after_of_isFullReset {later : List Text}
    (h : ∃ r ∈ later, isFullReset r = true) (f g : Formatting) :
    later.foldl after f = later.foldl after g := by
  obtain ⟨r, hr, hreset⟩ := h
  induction later generalizing f g with
  | nil => cases hr
  | cons s later ih =>
    rw [List.foldl_cons, List.foldl_cons]
    rcases List.mem_cons.mp hr with rfl | hr
    · rw [after_isFullReset hreset, after_isFullReset hreset]
    · exact ih _ _ hr

/-- Before the reset of a color that color makes no difference. -/
theorem foldl_after_of_colorReset {later : List Text} (hselects : ∀ s ∈ later, ∃ ns, Selects s ns)
    (hreset : colorReset ground ∈ later) (h : f.withoutColor ground = g.withoutColor ground) :
    later.foldl after f = later.foldl after g := by
  induction later generalizing f g with
  | nil => cases hreset
  | cons s later ih =>
    rw [List.foldl_cons, List.foldl_cons]
    rcases List.mem_cons.mp hreset with rfl | hreset
    · rw [after_colorReset, after_colorReset, h]
    · obtain ⟨ns, hs⟩ := hselects s List.mem_cons_self
      refine ih (fun t ht => hselects t (List.mem_cons_of_mem s ht)) hreset ?_
      rw [after_selects hs, after_selects hs]
      exact withoutColor_select_congr h ns

end Terminal.Formatting

/-! ## Playing what is carried over -/

namespace Repaint

open Terminal.Formatting

/-- No numbers are lost with a color: those that come after the color in a sequence that is left out
for the reset of the color make no difference in the end. -/
def LosesNothing : List Text → Prop
  | [] => True
  | s :: later =>
    (∀ ground, colorReset ground ∈ later → setsColor ground s = true →
      ∃ n ns, Selects s (n :: ns) ∧ ∀ f : Formatting,
        later.foldl Formatting.after (f.select (afterArguments ns)) =
          later.foldl Formatting.after f)
    ∧ LosesNothing later

/-- In the end the sequences in force set what all the sequences set. -/
theorem foldl_after_inForce {ss : List Text} (hselects : ∀ s ∈ ss, ∃ ns, Selects s ns)
    (hloses : LosesNothing ss) (f : Formatting) :
    (inForce ss).foldl Formatting.after f = ss.foldl Formatting.after f := by
  induction ss generalizing f with
  | nil => rfl
  | cons s later ih =>
    obtain ⟨hcolors, hloses⟩ := hloses
    have hlater : ∀ t ∈ later, ∃ ns, Selects t ns :=
      fun t ht => hselects t (List.mem_cons_of_mem s ht)
    rw [List.foldl_cons, inForce_cons]
    by_cases htaken : isTakenBack s later = true
    · -- Left out: with the sequence or without it, the later ones end in the same formatting.
      rw [if_pos htaken, ih hlater hloses]
      rcases isTakenBack_iff.mp htaken with hfull | ⟨ground, hreset, hcolor⟩
      · exact foldl_after_of_isFullReset hfull f (f.after s)
      · obtain ⟨n, ns, hs, hlost⟩ := hcolors ground hreset hcolor
        obtain ⟨c, hc⟩ := exists_select_eq hs hcolor f
        rw [after_selects hs, hc, hlost]
        exact foldl_after_of_colorReset hlater hreset (withoutColor_colored_self f c).symm
    · rw [if_neg htaken, List.foldl_cons, ih hlater hloses]

/-- The sequences carried over do what all the sequences of a text do, unless numbers are lost with a
color. -/
theorem play_carried_eq {t : Text} (hselects : ∀ s ∈ sequences t, ∃ ns, Selects s ns)
    (hloses : LosesNothing (sequences t)) {r : Row} (hr : r.reading = .text) :
    r.play (carried t).flatten = r.play (sequences t).flatten := by
  have hcarried : ∀ s ∈ carried t, ∃ ns, Selects s ns :=
    fun s hs => hselects s (mem_of_mem_inForce hs)
  rw [play_flatten hcarried hr, play_flatten hselects hr, carried,
    foldl_after_inForce hselects hloses]

/-- A color that is taken back is left out, and the attributes before it are not. -/
theorem play_carried_eq_color : let t := "\x1b[1;4m\x1b[38;5;1ma\x1b[39mb".toList
    carried t = ["\x1b[1;4m".toList, "\x1b[39m".toList] ∧
      Row.blank.play (carried t).flatten = Row.blank.play (sequences t).flatten := by
  intro t
  have hsequences : sequences t =
      [Style.sequence [1, 4], Style.sequence [38, 5, 1], Style.sequence [39]] := by decide +kernel
  refine ⟨by decide +kernel, play_carried_eq ?_ ?_ rfl⟩
  · rw [hsequences]
    intro s hs
    simp only [List.mem_cons, List.not_mem_nil, or_false] at hs
    rcases hs with rfl | rfl | rfl
    · exact ⟨_, selects_sequence (by simp)⟩
    · exact ⟨_, selects_sequence (by simp)⟩
    · exact ⟨_, selects_sequence (by simp)⟩
  · rw [hsequences]
    refine ⟨fun ground _ hcolor => ?_, fun ground _ _ => ?_, fun ground hreset => ?_, trivial⟩
    · cases ground <;> exact absurd hcolor (by decide)
    · cases ground with
      | foreground => exact ⟨38, [5, 1], selects_sequence (by simp), fun _ => rfl⟩
      | background => contradiction
    · cases hreset

/-- A background that comes after a color is lost with it. -/
example : let t := "\x1b[38;5;200;48;5;100mab\x1b[39mc".toList
    carried t = ["\x1b[39m".toList] ∧
      (Row.blank.play (sequences t).flatten).formatting = ⟨.default, .numbered 100, []⟩ := by
  decide +kernel

end Repaint

end ReplCore
