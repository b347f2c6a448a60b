import ReplCore.Code.Lexer.Lemmas

/-!
# Where tokens stand

The tokens of a source stand one after the other, from its start to its end. So any run of
consecutive tokens is a slice of the source, from the start of the first to the end of the last.

* `standing_tokenize`: the tokens of a source stand in it from offset zero.
* `tiles_tokenize`: the tokens of a source cut it into pieces.
* `Standing.slice_append`: a run of tokens is the slice between its two ends.
-/

namespace ReplCore.Token

/-- The number of code points of a run of tokens. -/
def width (ts : List Token) : Nat := (ts.flatMap Token.text).length

@[simp] theorem width_nil : width [] = 0 := rfl

theorem width_cons (t : Token) (ts : List Token) : width (t :: ts) = t.text.length + width ts := by
  simp [width]

theorem width_append (ts us : List Token) : width (ts ++ us) = width ts + width us := by
  simp [width]

/-- Every token starts where the one before it stops, the first of them at the given offset, and
none of them is empty. -/
def Contiguous : Nat → List Token → Prop
  | _, [] => True
  | offset, t :: ts =>
    t.start = offset ∧ t.stop = offset + t.text.length ∧ t.text ≠ [] ∧ Contiguous t.stop ts

theorem contiguous_append {offset : Nat} {ts us : List Token} :
    Contiguous offset (ts ++ us) ↔ Contiguous offset ts ∧ Contiguous (offset + width ts) us := by
  induction ts generalizing offset with
  | nil => simp [Contiguous]
  | cons t ts ih =>
    simp only [List.cons_append, Contiguous, ih, width_cons, ← Nat.add_assoc]
    constructor
    · rintro ⟨hstart, hstop, hne, hts, hus⟩
      exact ⟨⟨hstart, hstop, hne, hts⟩, by rwa [← hstop]⟩
    · rintro ⟨⟨hstart, hstop, hne, hts⟩, hus⟩
      exact ⟨hstart, hstop, hne, hts, by rwa [hstop]⟩

theorem Contiguous.start_of_head? {offset : Nat} {ts : List Token} (h : Contiguous offset ts)
    {t : Token} (ht : ts.head? = some t) : t.start = offset := by
  cases ts with
  | nil => cases ht
  | cons u us =>
    cases ht
    exact h.1

theorem Contiguous.stop_of_getLast? {offset : Nat} {ts : List Token} (h : Contiguous offset ts)
    {t : Token} (ht : ts.getLast? = some t) : t.stop = offset + width ts := by
  obtain ⟨us, rfl⟩ := List.getLast?_eq_some_iff.mp ht
  obtain ⟨-, hlast⟩ := contiguous_append.mp h
  rw [hlast.2.1, width_append, width_cons, width_nil]
  omega

theorem Contiguous.width_pos {offset : Nat} {ts : List Token} (h : Contiguous offset ts)
    (hne : ts ≠ []) : 0 < width ts := by
  cases ts with
  | nil => exact absurd rfl hne
  | cons t ts =>
    have := List.length_pos_iff.mpr h.2.2.1
    rw [width_cons]
    omega

theorem Contiguous.start_lt_stop {offset : Nat} {ts : List Token} (h : Contiguous offset ts) :
    ∀ t ∈ ts, offset ≤ t.start ∧ t.start < t.stop := by
  induction ts generalizing offset with
  | nil => simp
  | cons u us ih =>
    obtain ⟨hstart, hstop, hne, hmore⟩ := h
    have hpos := List.length_pos_iff.mpr hne
    intro t ht
    rcases List.mem_cons.mp ht with rfl | ht
    · omega
    · have := ih hmore t ht
      omega

theorem Contiguous.stop_eq {offset : Nat} {ts : List Token} (h : Contiguous offset ts) :
    ∀ t ∈ ts, t.stop = t.start + t.text.length ∧ t.text ≠ [] := by
  induction ts generalizing offset with
  | nil => simp
  | cons u us ih =>
    obtain ⟨hstart, hstop, hne, hmore⟩ := h
    intro t ht
    rcases List.mem_cons.mp ht with rfl | ht
    · exact ⟨by rw [hstart, hstop], hne⟩
    · exact ih hmore t ht

/-- Tokens stop before the later ones start. -/
theorem Contiguous.pairwise {offset : Nat} {ts : List Token} (h : Contiguous offset ts) :
    ts.Pairwise fun t u => t.stop ≤ u.start := by
  induction ts generalizing offset with
  | nil => exact .nil
  | cons t ts ih =>
    obtain ⟨-, -, -, hmore⟩ := h
    exact .cons (fun u hu => (hmore.start_lt_stop u hu).1) (ih hmore)

/-- The tokens are what a source holds from an offset on. -/
structure Standing (source : Text) (offset : Nat) (ts : List Token) : Prop where
  contiguous : Contiguous offset ts
  text_eq : ts.flatMap Token.text = source.drop offset

namespace Standing

variable {source : Text} {offset : Nat} {ts us : List Token}

theorem right (h : Standing source offset (ts ++ us)) : Standing source (offset + width ts) us := by
  refine ⟨(contiguous_append.mp h.contiguous).2, ?_⟩
  rw [← List.drop_drop, ← h.text_eq, List.flatMap_append, width, List.drop_left]

/-- A run of tokens is the slice of the source between its two ends. -/
theorem slice_append (h : Standing source offset (ts ++ us)) :
    Text.slice source offset (offset + width ts) = ts.flatMap Token.text := by
  rw [Text.slice, List.drop_take, Nat.add_sub_cancel_left, ← h.text_eq, List.flatMap_append, width,
    List.take_left]

/-- Every token is the slice of the source between its ends. -/
theorem slice_of_mem (h : Standing source offset ts) {t : Token} (ht : t ∈ ts) :
    Text.slice source t.start t.stop = t.text := by
  obtain ⟨before, after, rfl⟩ := List.append_of_mem ht
  have hright := h.right
  obtain ⟨hstart, hstop, -, -⟩ := hright.contiguous
  rw [← List.singleton_append] at hright
  have := hright.slice_append
  rw [width_cons, width_nil, Nat.add_zero] at this
  rw [hstop, hstart, this, List.flatMap_singleton]

/-- The tokens reach to the end of the source. -/
theorem length_eq (h : Standing source offset ts) (hle : offset ≤ source.length) :
    source.length = offset + width ts := by
  have := congrArg List.length h.text_eq
  rw [List.length_drop] at this
  rw [width]
  omega

theorem offset_le (h : Standing source offset (ts ++ us)) (hle : offset ≤ source.length) :
    offset + width ts ≤ source.length := by
  rw [h.length_eq hle, width_append]
  omega

end Standing

/-- The tokens cut the source into pieces: from its start to its end, none of them empty, each of
them from where the one before it stops. -/
structure Tiles (source : Text) (ts : List Token) : Prop where
  text_eq : ts.flatMap Token.text = source
  start_eq_zero : ∀ t ∈ ts.head?, t.start = 0
  start_eq_stop : ∀ before t u after, ts = before ++ t :: u :: after → u.start = t.stop
  stop_eq_length : ∀ t ∈ ts.getLast?, t.stop = source.length
  text_ne_nil : ∀ t ∈ ts, t.text ≠ []
  stop_eq : ∀ t ∈ ts, t.stop = t.start + t.text.length
  slice_eq : ∀ t ∈ ts, Text.slice source t.start t.stop = t.text

theorem Standing.tiles {source : Text} {ts : List Token} (h : Standing source 0 ts) :
    Tiles source ts where
  text_eq := h.text_eq
  start_eq_zero _ ht := h.contiguous.start_of_head? ht
  start_eq_stop before t u after hts := by
    have hright := contiguous_append.mp (hts ▸ h.contiguous)
    exact hright.2.2.2.2.1
  stop_eq_length _ ht := by
    rw [h.contiguous.stop_of_getLast? ht, h.length_eq (Nat.zero_le _)]
  text_ne_nil t ht := (h.contiguous.stop_eq t ht).2
  stop_eq t ht := (h.contiguous.stop_eq t ht).1
  slice_eq _ ht := h.slice_of_mem ht

theorem contiguous_place {ls : List Lexeme} (hne : ∀ l ∈ ls, l.text ≠ []) (offset : Nat) :
    Contiguous offset (place offset ls) := by
  induction ls generalizing offset with
  | nil => trivial
  | cons l ls ih =>
    refine ⟨rfl, rfl, hne l List.mem_cons_self, ?_⟩
    exact ih (fun l hl => hne l (List.mem_cons_of_mem _ hl)) _

/-- The tokens of a source stand in it from its start on. -/
theorem standing_tokenize (source : Text) : Standing source 0 (tokenize source) :=
  ⟨contiguous_place (Lexer.text_ne_nil_of_mem_lex source) 0, flatMap_text_tokenize source⟩

/-- The tokens of a source cut it into pieces. -/
theorem tiles_tokenize (source : Text) : Tiles source (tokenize source) :=
  (standing_tokenize source).tiles

end ReplCore.Token
