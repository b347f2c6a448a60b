import ReplCore.Proofs.Submission.Lossless
import ReplCore.Proofs.Submission.Neighbours

/-!
# Texts of runs of tokens

A run of consecutive tokens of a statement has a text, from the start of its first token to the end
of its last. Between two tokens of a statement the source has nothing but white space and comments,
so the text of a run is that of its parts with such texts between them.

* `IsRun.isIgnorable_slice`: what stands between two neighbours.
* `IsRun.exists_extent_append`: the text of a run that is cut in two.
-/

namespace ReplCore

/-- A text of white space and comments. -/
def IsIgnorable (t : Text) : Prop :=
  ∃ pieces : List Text, t = pieces.flatten ∧ ∀ piece ∈ pieces,
    (∀ x ∈ piece, CharClass.isBlank x = true) ∨ IsComment piece

theorem isIgnorable_of_tokens (source : Text) {gap : List Token}
    (h : ∀ t ∈ gap, t.isIgnored = true) (hmem : ∀ t ∈ gap, t ∈ (Token.tokenize source).tail) :
    IsIgnorable (gap.flatMap Token.text) := by
  refine ⟨gap.map Token.text, by rw [List.flatMap_def], ?_⟩
  intro piece hpiece
  obtain ⟨t, ht, rfl⟩ := List.mem_map.mp hpiece
  obtain ⟨c, d, hread, hbefore⟩ := exists_tokenRead_of_mem_tail (hmem t ht)
  exact (hread.piece_of_isIgnored (h t ht)).imp_right (·.isComment hbefore)

namespace Submission

/-- Consecutive tokens of a statement of the source. -/
def IsRun (source : Text) (ts : List Token) : Prop :=
  ∃ group, StandsApart (Token.tokenize source) group ∧ ts <:+: group

/-- The source from the start of the first of the tokens to the end of the last. -/
def extent (source : Text) (ts : List Token) : Text :=
  match ts.head?, ts.getLast? with
  | some first, some last => textOf source first last
  | _, _ => []

variable {source : Text} {ts us : List Token} {t u : Token}

theorem extent_of_ends {first last : Token} (hfirst : ts.head? = some first)
    (hlast : ts.getLast? = some last) : extent source ts = textOf source first last := by
  rw [extent, hfirst, hlast]

/-- The text of a statement is that of its tokens. -/
theorem Covers.extent_eq {st : Statement} (h : Covers source ts st) :
    st.text = extent source ts := by
  obtain ⟨first, hfirst, hstart⟩ := Option.map_eq_some_iff.mp h.start_eq
  obtain ⟨last, hlast, hstop⟩ := Option.map_eq_some_iff.mp h.stop_eq
  rw [h.text_eq, extent_of_ends hfirst hlast, textOf, hstart, hstop]

namespace IsRun

theorem of_infix (h : IsRun source us) (hts : ts <:+: us) : IsRun source ts := by
  obtain ⟨group, hapart, hus⟩ := h
  exact ⟨group, hapart, hts.trans hus⟩

theorem left (h : IsRun source (ts ++ us)) : IsRun source ts :=
  h.of_infix (List.prefix_append ts us).isInfix

theorem right (h : IsRun source (ts ++ us)) : IsRun source us :=
  h.of_infix (List.suffix_append ts us).isInfix

theorem tail (h : IsRun source (t :: ts)) : IsRun source ts :=
  h.of_infix (List.suffix_cons t ts).isInfix

theorem mem_tokenize (h : IsRun source ts) (ht : t ∈ ts) : t ∈ Token.tokenize source := by
  obtain ⟨group, hapart, hpart⟩ := h
  exact hapart.sublist.subset (hpart.subset ht)

/-- The tokens of a run do not overlap. -/
theorem pairwise (h : IsRun source ts) : ts.Pairwise fun t u => t.stop ≤ u.start := by
  obtain ⟨group, hapart, hpart⟩ := h
  exact (Token.standing_tokenize source).contiguous.pairwise.sublist
    (hpart.sublist.trans hapart.sublist)

theorem start_le_stop (h : IsRun source ts) (ht : t ∈ ts) : t.start ≤ t.stop := by
  have hbounds := (Token.standing_tokenize source).contiguous.start_lt_stop t (h.mem_tokenize ht)
  omega

theorem slice_eq (h : IsRun source ts) (ht : t ∈ ts) :
    Text.slice source t.start t.stop = t.text :=
  (Token.standing_tokenize source).slice_of_mem (h.mem_tokenize ht)

theorem extent_single (h : IsRun source [t]) : extent source [t] = t.text :=
  h.slice_eq (List.mem_singleton_self t)

/-- The ends of a run are in order. -/
theorem start_le_stop_of_ends (h : IsRun source ts) {first last : Token}
    (hfirst : ts.head? = some first) (hlast : ts.getLast? = some last) :
    first.start ≤ last.stop := by
  obtain ⟨us, rfl⟩ := List.getLast?_eq_some_iff.mp hlast
  cases us with
  | nil =>
    obtain rfl := Option.some.inj hfirst
    exact h.start_le_stop (List.mem_singleton_self _)
  | cons u us =>
    obtain rfl := Option.some.inj hfirst
    have hle := (List.pairwise_cons.mp h.pairwise).1 last (by simp)
    have hfirst := h.start_le_stop List.mem_cons_self
    have hlast := h.start_le_stop (t := last) (by simp)
    omega

/-- Between two neighbours there is nothing but white space and comments. -/
theorem isIgnorable_slice (h : IsRun source (ts ++ t :: u :: us)) :
    IsIgnorable (Text.slice source t.stop u.start) := by
  obtain ⟨group, ⟨earlier, raw, later, hraw, hstretch, -, -⟩, before, after, hgroup⟩ := h
  have hkept : raw.filter (fun t => !t.isIgnored) = (before ++ ts ++ [t]) ++ u :: (us ++ after) := by
    rw [hstretch.kept, ← hgroup]
    simp
  obtain ⟨raw₁, raw₂, rfl, hraw₁, hraw₂⟩ := List.filter_eq_append_iff.mp hkept
  obtain ⟨xs, ys, rfl, -, hys⟩ := List.filter_eq_append_iff.mp hraw₁
  obtain ⟨gap₁, gap₂, rfl, -, -, hgap₂⟩ := List.filter_eq_cons_iff.mp hys
  obtain ⟨gap₃, zs, rfl, hgap₃, -, -⟩ := List.filter_eq_cons_iff.mp hraw₂
  -- What the statement leaves out between the two is all ignored.
  have htokens : Token.tokenize source =
      (earlier ++ xs ++ gap₁) ++ (t :: ((gap₂ ++ gap₃) ++ u :: (zs ++ later))) := by
    rw [hraw]
    simp
  have hstanding := Token.standing_tokenize source
  rw [htokens] at hstanding
  have hright := hstanding.right
  obtain ⟨-, hstop, -, -⟩ := hright.contiguous
  have hgap : Token.Standing source t.stop ((gap₂ ++ gap₃) ++ u :: (zs ++ later)) := by
    rw [← List.singleton_append] at hright
    have := hright.right
    rwa [Token.width_cons, Token.width_nil, Nat.add_zero, ← hstop] at this
  have hstart : u.start = t.stop + Token.width (gap₂ ++ gap₃) := hgap.right.contiguous.1
  rw [hstart, hgap.slice_append]
  refine isIgnorable_of_tokens source (fun v hv => ?_) fun v hv => ?_
  · rcases List.mem_append.mp hv with hv | hv
    · have := List.filter_eq_nil_iff.mp hgap₂ v hv
      simpa using this
    · have := hgap₃ v hv
      simpa using this
  · rw [htokens, List.append_cons, List.tail_append_of_ne_nil (by simp)]
    exact List.mem_append_right _ (List.mem_append_left _ hv)

/-- The text of a run that is cut in two is that of its parts with white space and comments
between. -/
theorem exists_extent_append (h : IsRun source (ts ++ us)) (hts : ts ≠ []) (hus : us ≠ []) :
    ∃ gap, IsIgnorable gap ∧
      extent source (ts ++ us) = extent source ts ++ gap ++ extent source us := by
  obtain ⟨xs, t, rfl⟩ : ∃ xs t, ts = xs ++ [t] :=
    ⟨_, _, (List.dropLast_append_getLast hts).symm⟩
  obtain ⟨u, ys, rfl⟩ := List.exists_cons_of_ne_nil hus
  have hrun : IsRun source (xs ++ t :: u :: ys) := by simpa using h
  have hbetween : t.stop ≤ u.start := by
    have hpairwise := (List.pairwise_append.mp hrun.pairwise).2.1
    exact (List.pairwise_cons.mp hpairwise).1 u List.mem_cons_self
  obtain ⟨first, hfirst⟩ : ∃ first, (xs ++ [t]).head? = some first :=
    ⟨_, List.head?_eq_some_head hts⟩
  obtain ⟨last, hlast⟩ : ∃ last, (u :: ys).getLast? = some last :=
    ⟨_, List.getLast?_eq_some_getLast hus⟩
  have ht : (xs ++ [t]).getLast? = some t := List.getLast?_concat
  have hleft := h.left.start_le_stop_of_ends hfirst ht
  have hright := h.right.start_le_stop_of_ends rfl hlast
  have hfirst' : (xs ++ [t] ++ u :: ys).head? = some first := by
    rw [List.head?_append, hfirst, Option.some_or]
  have hlast' : (xs ++ [t] ++ u :: ys).getLast? = some last := by
    rw [List.getLast?_append, hlast, Option.some_or]
  refine ⟨_, hrun.isIgnorable_slice, ?_⟩
  rw [extent_of_ends hfirst' hlast', extent_of_ends hfirst ht, extent_of_ends rfl hlast]
  simp only [textOf]
  rw [Text.slice_append_slice source hleft hbetween,
    Text.slice_append_slice source (Nat.le_trans hleft hbetween) hright]

end IsRun

end Submission

end ReplCore
