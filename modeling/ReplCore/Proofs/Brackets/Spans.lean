import ReplCore.Brackets.Simplify
import ReplCore.Proofs.Brackets.Moves

/-!
# Where spans start and stop

What the scan has open starts with the text that opens its kind, before the next character. So a
pair stops after its start, at a character of the text that closes it.

* `standsIn_of_mem_spans`: where a pair starts and stops.
* `lt_length_of_matching?`: the other end of a pair is in the text.
* `simplify_sublist`: leaving pairs out keeps some of the text, in order.
-/

namespace ReplCore.Brackets

/-- A pair stands in a text: it starts with the text that opens its kind and stops at the character
that closes it, and the spans around it started before. -/
structure StandsIn (t : Text) (b : BracketSpan) : Prop where
  opener : b.kind.opener <+: t.drop b.start
  closer : t[b.stop]? = some b.kind.closing
  start_lt_stop : b.start < b.stop
  around_lt : ∀ a ∈ b.around, a < b.start

/-- What is open when the text `v` is left of a text: the spans are stacked before it, and each
starts with the text that opens its kind. -/
structure Reading (t : Text) (s : State) (v : Text) : Prop where
  rest_eq : t.drop s.index = v
  stacked : Stacked s.index s.opened
  openers : ∀ o ∈ s.opened, o.kind.opener <+: t.drop o.start

namespace Reading

variable {t v : Text} {s s' : State} {c : Char} {closed : Mode → List BracketSpan}

theorem initial (t : Text) : Reading t .initial t := ⟨rfl, stacked_initial, nofun⟩

theorem getElem?_eq (h : Reading t s (c :: v)) : t[s.index]? = some c := by
  rw [← List.head?_drop, h.rest_eq, List.head?_cons]

theorem next (h : Reading t s (c :: v)) (hmoves : Moves s c v.head? closed s') :
    Reading t s' v := by
  refine ⟨?_, h.stacked.of_moves hmoves, ?_⟩
  · rw [hmoves.index_eq, ← List.drop_drop, h.rest_eq, List.drop_one, List.tail_cons]
  cases hmoves with
  | stays => exact h.openers
  | opens _ _ _ opener =>
    intro o ho
    rcases List.mem_cons.mp ho with rfl | ho
    · have hhead : v.head?.toList <+: v := by
        cases v with
        | nil => exact List.prefix_refl _
        | cons x v => exact ⟨v, rfl⟩
      rw [h.rest_eq]
      exact opener.trans ((List.prefix_cons_inj c).mpr hhead)
    · exact h.openers o ho
  | closes opened_eq _ _ =>
    intro o ho
    refine h.openers o ?_
    rw [opened_eq]
    exact List.mem_append_right _ (List.mem_cons_of_mem _ ho)

/-- What a character closes stands in the text and stops at it. -/
theorem standsIn (h : Reading t s (c :: v)) (hmoves : Moves s c v.head? closed s') (mode : Mode) :
    ∀ b ∈ closed mode, StandsIn t b ∧ b.stop = s.index := by
  intro b hb
  obtain ⟨dropped, o, rest, hopened, hclosing, rfl, -⟩ := hmoves.of_mem_closed hb
  have hmem : o ∈ s.opened := by simp [hopened]
  obtain ⟨haround, hbelow⟩ := (hopened ▸ h.stacked).of_append
  refine ⟨⟨h.openers o hmem, ?_, h.stacked.start_lt o hmem, fun a ha => ?_⟩, rfl⟩
  · rw [OpenSpan.close, h.getElem?_eq, hclosing]
  · rw [OpenSpan.close, haround] at ha
    obtain ⟨p, hp, rfl⟩ := List.mem_map.mp ha
    exact hbelow.start_lt p hp

end Reading

theorem standsIn_of_mem_scan {mode : Mode} {t : Text} : ∀ {v : Text} {s : State}, Reading t s v →
    ∀ b ∈ scan mode s v, StandsIn t b
  | [], _, _, _, hb => by cases hb
  | c :: v, s, h, b, hb => by
    obtain ⟨closed, s', hmoves, hscan⟩ := exists_scan_cons h.stacked c v
    rw [hscan] at hb
    rcases List.mem_append.mp hb with hb | hb
    · exact (h.standsIn hmoves mode b hb).1
    · exact standsIn_of_mem_scan (h.next hmoves) b hb

/-- The pairs of a text stand in it. -/
theorem standsIn_of_mem_spans {mode : Mode} {t : Text} : ∀ b ∈ spans mode t, StandsIn t b :=
  standsIn_of_mem_scan (.initial t)

/-- A pair stops after its start. -/
theorem start_lt_stop_of_mem_spans {mode : Mode} {t : Text} :
    ∀ b ∈ spans mode t, b.start < b.stop :=
  fun b hb => (standsIn_of_mem_spans b hb).start_lt_stop

/-- A pair stops in the text. -/
theorem stop_lt_of_mem_spans {mode : Mode} {t : Text} : ∀ b ∈ spans mode t, b.stop < t.length :=
  fun b hb => (List.getElem?_eq_some_iff.mp (standsIn_of_mem_spans b hb).closer).1

/-- A pair starts in the text. -/
theorem start_lt_of_mem_spans {mode : Mode} {t : Text} : ∀ b ∈ spans mode t, b.start < t.length :=
  fun b hb => Nat.lt_trans (start_lt_stop_of_mem_spans b hb) (stop_lt_of_mem_spans b hb)

/-- The other end of a pair is in the text. -/
theorem lt_length_of_matching? {t : Text} {position : Int} {q : Nat}
    (h : matching? t position = some q) : q < t.length := by
  obtain ⟨b, hb, rfl⟩ := Option.map_eq_some_iff.mp h
  have hmem := List.mem_of_find?_eq_some hb
  split
  · exact stop_lt_of_mem_spans b hmem
  · exact start_lt_of_mem_spans b hmem

theorem removeSpan_sublist {t : Text} {b : BracketSpan} (h : b.start < b.stop) :
    List.Sublist (removeSpan t b) t := by
  have hdrop : List.Sublist (t.drop (b.stop + 1)) (t.drop b.start) := by
    rw [show b.stop + 1 = b.start + (b.stop + 1 - b.start) by omega, ← List.drop_drop]
    exact List.drop_sublist _ _
  have := hdrop.append_left (t.take b.start)
  rwa [List.take_append_drop] at this

theorem foldl_removeSpan_sublist {bs : List BracketSpan} (h : ∀ b ∈ bs, b.start < b.stop) :
    ∀ t : Text, List.Sublist (bs.foldl removeSpan t) t := by
  induction bs with
  | nil => exact fun t => List.Sublist.refl t
  | cons b bs ih =>
    intro t
    have hrest := ih (fun b' hb' => h b' (List.mem_cons_of_mem b hb')) (removeSpan t b)
    exact hrest.trans (removeSpan_sublist (h b List.mem_cons_self))

theorem removable_sublist (bs : List BracketSpan) : List.Sublist (removable bs) bs := by
  refine List.filter_sublist.trans ?_
  unfold withoutLastCall
  split
  · split
    · exact List.dropLast_sublist _
    · exact List.Sublist.refl _
  · exact List.Sublist.refl _

/-- Leaving pairs out keeps some of the text, in order. -/
theorem simplify_sublist (t : Text) : List.Sublist (simplify t) t :=
  foldl_removeSpan_sublist (fun b hb => start_lt_stop_of_mem_spans b
    ((removable_sublist _).subset (List.mem_mergeSort.mp hb))) t

end ReplCore.Brackets
