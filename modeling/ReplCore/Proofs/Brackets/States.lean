import ReplCore.Proofs.Brackets.Forest

/-!
# The states of the scan

What the scan remembers before each place of a text. The mode does not matter for it. A reported
pair leaves the scan as it found it: what is open after its closer is what was open before its
opener.

* `stateAfter_eq`: the states do not depend on the mode.
* `spans_eq_append`: the pairs of a text are those closed before a place and those closed from it
  on.
* `opened_of_mem_spans`, `stateBefore_of_mem_spans`: the states before and after a reported pair.
-/

namespace ReplCore

/-- A kind is known by the text that opens it. -/
theorem PairKind.eq_of_opener {k k' : PairKind} {t : Text} (h : k.opener <+: t)
    (h' : k'.opener <+: t) : k = k' := by
  obtain ⟨more, hmore⟩ := k.opener_eq
  obtain ⟨more', hmore'⟩ := k'.opener_eq
  rw [hmore] at h
  rw [hmore'] at h'
  obtain ⟨u, rfl⟩ := h
  have hopening : k'.opening = k.opening := (List.cons_prefix_cons.mp h').1
  revert hopening
  cases k <;> cases k' <;> decide

namespace Brackets

/-! ## After a part of a text -/

/-- The state of the scan after the first part of a text. -/
def stateAfter (mode : Mode) : State → (read rest : Text) → State
  | s, [], _ => s
  | s, c :: read, rest => stateAfter mode (step mode s c (read ++ rest).head?).2 read rest

theorem stateAfter_append (mode : Mode) (u v rest : Text) : ∀ s : State,
    stateAfter mode s (u ++ v) rest =
      stateAfter mode (stateAfter mode s u (v ++ rest)) v rest := by
  induction u with
  | nil => exact fun _ => rfl
  | cons c u ih =>
    intro s
    rw [List.cons_append, stateAfter, stateAfter, ih, List.append_assoc]

/-- After a part of a text, the open spans are stacked before the next index. -/
theorem stacked_stateAfter (mode : Mode) (rest : Text) : ∀ (read : Text) {s : State},
    Stacked s.index s.opened → Stacked (s.index + read.length)
        (stateAfter mode s read rest).opened ∧
      (stateAfter mode s read rest).index = s.index + read.length
  | [], _, h => ⟨h, rfl⟩
  | c :: read, s, h => by
    obtain ⟨closed, s', hmoves, hstep⟩ := exists_moves h c (read ++ rest).head?
    have hlength : s.index + (c :: read).length = s'.index + read.length := by
      rw [hmoves.index_eq, List.length_cons, Nat.add_right_comm, Nat.add_assoc]
    rw [stateAfter, hstep, hlength]
    exact stacked_stateAfter mode rest read (h.of_moves hmoves)

/-- The state after the first part of a text, in which that part has been read. -/
theorem stacked_stateAfter_initial (mode : Mode) (read rest : Text) :
    Stacked (stateAfter mode .initial read rest).index (stateAfter mode .initial read rest).opened ∧
      (stateAfter mode .initial read rest).index = read.length := by
  obtain ⟨hstacked, hindex⟩ := stacked_stateAfter mode rest read stacked_initial
  rw [State.initial, Nat.zero_add] at hindex hstacked
  exact ⟨hindex.symm ▸ hstacked, hindex⟩

/-- The scan is in the same state in both modes. -/
theorem stateAfter_eq (mode mode' : Mode) (rest : Text) : ∀ (read : Text) {s : State},
    Stacked s.index s.opened → stateAfter mode s read rest = stateAfter mode' s read rest
  | [], _, _ => rfl
  | c :: read, s, h => by
    obtain ⟨closed, s', hmoves, hstep⟩ := exists_moves h c (read ++ rest).head?
    rw [stateAfter, stateAfter, hstep, hstep]
    exact stateAfter_eq mode mode' rest read (h.of_moves hmoves)

/-- The pairs that a character closes do not depend on the one after it. -/
theorem step_closed_congr (mode : Mode) (s : State) (c : Char) (next next' : Option Char) :
    (step mode s c next).1 = (step mode s c next').1 := by
  -- In quotes a character that opens a substitution closes nothing, just as any other one.
  have hquotes (o : OpenSpan) (rest : List OpenSpan) (following : Option Char) :
      (stepInQuotes s o rest c following).1 =
        if s.backslashes % 2 = 1 then []
        else if c = o.kind.closing then [o.close s.index] else [] := by
    unfold stepInQuotes
    split
    · rfl
    split
    · rfl
    split <;> rfl
  unfold step
  split
  · rfl
  split
  · next o rest _ =>
    split
    · rw [hquotes, hquotes]
    · rfl
  · rfl

theorem scan_cons (mode : Mode) (s : State) (c : Char) (t : Text) :
    scan mode s (c :: t) = (step mode s c t.head?).1 ++ scan mode (step mode s c t.head?).2 t :=
  rfl

/-- The pairs of a text are those of its first part and those closed from the state after it on. -/
theorem scan_append (mode : Mode) (rest : Text) : ∀ (read : Text) (s : State),
    scan mode s (read ++ rest) = scan mode s read ++ scan mode (stateAfter mode s read rest) rest
  | [], _ => rfl
  | c :: read, s => by
    rw [List.cons_append, scan_cons, stateAfter, scan_append mode rest read]
    cases read with
    | nil =>
      -- The last character of the first part is the only one that has another one after it.
      have hlast : scan mode s [c] = (step mode s c rest.head?).1 := by
        rw [scan_cons, scan, List.append_nil]
        exact step_closed_congr mode s c _ _
      rw [hlast]
      rfl
    | cons d read =>
      rw [scan_cons mode s c (d :: read), List.append_assoc]
      rfl

/-! ## Before a place -/

/-- What is open just before an index of a text. -/
def openBefore (mode : Mode) (t : Text) (i : Nat) : List OpenSpan :=
  (stateAfter mode .initial (t.take i) (t.drop i)).opened

/-- The state of the scan just before an index of a text. -/
def stateBefore (mode : Mode) (t : Text) (i : Nat) : State :=
  stateAfter mode .initial (t.take i) (t.drop i)

theorem openBefore_eq (mode mode' : Mode) (t : Text) (i : Nat) :
    openBefore mode t i = openBefore mode' t i :=
  congrArg State.opened (stateAfter_eq mode mode' _ _ stacked_initial)

theorem openBefore_append (mode : Mode) (u v : Text) : openBefore mode (u ++ v) u.length =
    (stateAfter mode .initial u v).opened := by
  rw [openBefore, List.take_left, List.drop_left]

theorem stateBefore_append (mode : Mode) (t v : Text) :
    stateBefore mode (t ++ v) t.length = stateAfter mode .initial t v := by
  rw [stateBefore, List.take_left, List.drop_left]

theorem stacked_stateBefore (mode : Mode) (t : Text) (i : Nat) :
    Stacked (stateBefore mode t i).index (stateBefore mode t i).opened :=
  (stacked_stateAfter_initial mode _ _).1

theorem index_stateBefore (mode : Mode) {t : Text} {i : Nat} (hi : i ≤ t.length) :
    (stateBefore mode t i).index = i := by
  rw [stateBefore, (stacked_stateAfter_initial mode _ _).2, List.length_take_of_le hi]

theorem stateBefore_eq (mode mode' : Mode) (t : Text) (i : Nat) :
    stateBefore mode t i = stateBefore mode' t i :=
  stateAfter_eq mode mode' _ _ stacked_initial

/-- The state before the next index is that after the character at this one. -/
theorem stateBefore_succ (mode : Mode) {t : Text} {i : Nat} {c : Char} (hc : t[i]? = some c) :
    stateBefore mode t (i + 1) = (step mode (stateBefore mode t i) c t[i + 1]?).2 := by
  obtain ⟨hi, rfl⟩ := List.getElem?_eq_some_iff.mp hc
  have hrest : [t[i]] ++ t.drop (i + 1) = t.drop i := by
    rw [List.singleton_append, ← List.drop_eq_getElem_cons hi]
  rw [stateBefore, List.take_add_one, List.getElem?_eq_getElem hi, Option.toList_some,
    stateAfter_append, hrest, stateAfter, List.nil_append, List.head?_drop]
  rfl

/-- The pairs of a text are those of its part before an index, which are closed before it, and those
closed from the index on. -/
theorem spans_eq_append (mode : Mode) {t : Text} {i : Nat} (hi : i ≤ t.length) :
    spans mode t = spans mode (t.take i) ++ scan mode (stateBefore mode t i) (t.drop i) ∧
      (∀ b ∈ spans mode (t.take i), b.stop < i) ∧
      ∀ b ∈ scan mode (stateBefore mode t i) (t.drop i), i ≤ b.stop := by
  refine ⟨?_, fun b hb => ?_, fun b hb => ?_⟩
  · have hscan := scan_append mode (t.drop i) (t.take i) .initial
    rwa [List.take_append_drop] at hscan
  · have hstop := stop_lt_of_mem_spans b hb
    rwa [List.length_take_of_le hi] at hstop
  · have hstop := (closesFrom_of_mem_scan (stacked_stateBefore mode t i) b hb).1
    rwa [index_stateBefore mode hi] at hstop

/-- The pairs of a text that goes on. -/
theorem spans_append (mode : Mode) (t v : Text) :
    spans mode (t ++ v) = spans mode t ++ scan mode (stateBefore mode (t ++ v) t.length) v ∧
      (∀ b ∈ spans mode t, b.stop < t.length) ∧
      ∀ b ∈ scan mode (stateBefore mode (t ++ v) t.length) v, t.length ≤ b.stop := by
  have hspans := spans_eq_append mode (t := t ++ v) (i := t.length) (by simp)
  rwa [List.take_left, List.drop_left] at hspans

theorem mem_spans_append {mode : Mode} {t : Text} {b : BracketSpan} (hb : b ∈ spans mode t)
    (v : Text) : b ∈ spans mode (t ++ v) := by
  rw [(spans_append mode t v).1]
  exact List.mem_append_left _ hb

/-! ## Around a pair -/

/-- A pair that starts at a character was opened there. -/
theorem Moves.opened_of_closesFrom {s s' : State} {c : Char} {next : Option Char}
    {closed : Mode → List BracketSpan} (h : Stacked s.index s.opened)
    (hmoves : Moves s c next closed s') {b : BracketSpan} (hb : ClosesFrom s' b)
    (hstart : b.start = s.index) : Ready (placeOf s.opened) s ∧
      b.kind ∈ (placeOf s.opened).pairs ∧ b.around = s.openStarts := by
  have hindex := hmoves.index_eq
  have hold : ∀ o ∈ s.opened, ∀ n, b ≠ o.close n := by
    rintro o ho n rfl
    have hlt : o.start < s.index := h.start_lt o ho
    exact absurd hstart (Nat.ne_of_lt hlt)
  cases hb with
  | later le_start _ => omega
  | @opened upper rest o n opened_eq eq_close =>
    cases hmoves with
    | stays => exact absurd eq_close (hold o (by rw [show s.opened = _ from opened_eq]; simp) n)
    | opens passOver ready stands opener =>
      cases upper with
      | nil =>
        obtain ⟨rfl, rfl⟩ := List.cons.inj opened_eq
        rw [eq_close]
        exact ⟨ready, stands, rfl⟩
      | cons p upper =>
        have hopened : s.opened = upper ++ o :: rest := (List.cons.inj opened_eq).2
        exact absurd eq_close (hold o (by simp [hopened]) n)
    | @closes dropped below o' opened_eq' _ _ =>
      have hbelow : below = upper ++ o :: rest := opened_eq
      exact absurd eq_close (hold o (by simp [opened_eq', hbelow]) n)

/-- A reported pair starts at a character that opens it. -/
theorem opened_of_mem_spans {mode : Mode} (mode' : Mode) {t : Text} {b : BracketSpan}
    (hb : b ∈ spans mode t) :
    Ready (placeOf (stateBefore mode' t b.start).opened) (stateBefore mode' t b.start) ∧
      b.kind ∈ (placeOf (stateBefore mode' t b.start).opened).pairs ∧
      b.around = (stateBefore mode' t b.start).openStarts := by
  have hlt := start_lt_stop_of_mem_spans b hb
  have hi : b.start ≤ t.length := Nat.le_of_lt (start_lt_of_mem_spans b hb)
  obtain ⟨hspans, hbefore, -⟩ := spans_eq_append mode hi
  have hstacked := stacked_stateBefore mode t b.start
  have hindex := index_stateBefore mode hi
  rw [stateBefore_eq mode' mode]
  generalize stateBefore mode t b.start = s at *
  have hmem : b ∈ scan mode s (t.drop b.start) := by
    rw [hspans] at hb
    refine (List.mem_append.mp hb).resolve_left fun hb => ?_
    have := hbefore b hb
    omega
  cases hrest : t.drop b.start with
  | nil => rw [hrest] at hmem; cases hmem
  | cons c v =>
    obtain ⟨closed, s', hmoves, hnext⟩ := exists_scan_cons hstacked c v
    rw [hrest, hnext] at hmem
    have hlater : b ∈ scan mode s' v := by
      refine (List.mem_append.mp hmem).resolve_left fun hb => ?_
      obtain ⟨-, o, -, -, -, rfl, -⟩ := hmoves.of_mem_closed hb
      exact absurd hindex.symm (Nat.ne_of_lt hlt)
    exact hmoves.opened_of_closesFrom hstacked
      (closesFrom_of_mem_scan (hstacked.of_moves hmoves) b hlater).2 hindex.symm

theorem reading_stateAfter (mode : Mode) {t : Text} (rest : Text) : ∀ (read : Text) {s : State},
    Reading t s (read ++ rest) → Reading t (stateAfter mode s read rest) rest
  | [], _, h => h
  | c :: read, s, h => by
    obtain ⟨closed, s', hmoves, hstep⟩ := exists_moves h.stacked c (read ++ rest).head?
    rw [stateAfter, hstep]
    exact reading_stateAfter mode rest read (h.next hmoves)

theorem reading_stateBefore (mode : Mode) (t : Text) (i : Nat) :
    Reading t (stateBefore mode t i) (t.drop i) := by
  refine reading_stateAfter mode (t.drop i) (t.take i) ?_
  rw [List.take_append_drop]
  exact .initial t

/-- Open spans are known by their starts in a text: those with the same starts are the same. -/
theorem Stacked.eq_of_map_start_eq {t : Text} {m n : Nat} {opened opened' : List OpenSpan}
    (h : Stacked m opened) (h' : Stacked n opened')
    (hopeners : ∀ o ∈ opened, o.kind.opener <+: t.drop o.start)
    (hopeners' : ∀ o ∈ opened', o.kind.opener <+: t.drop o.start)
    (hstarts : opened.map OpenSpan.start = opened'.map OpenSpan.start) : opened = opened' := by
  induction h generalizing n opened' with
  | nil => exact (List.map_eq_nil_iff.mp hstarts.symm).symm
  | @cons m o rest start_lt around_eq below ih =>
    cases h' with
    | nil => cases hstarts
    | @cons _ o' rest' start_lt' around_eq' below' =>
      obtain ⟨hstart, hbelow⟩ := List.cons.inj hstarts
      have hkind : o.kind = o'.kind := by
        have hopener := hopeners' o' List.mem_cons_self
        rw [← hstart] at hopener
        exact PairKind.eq_of_opener (hopeners o List.mem_cons_self) hopener
      have haround : o.around = o'.around := by rw [around_eq, around_eq', hbelow]
      have hspan : o = o' := by
        cases o
        cases o'
        simp only [OpenSpan.mk.injEq]
        exact ⟨hkind, hstart, haround⟩
      have hrest : rest = rest' := ih below'
        (fun p hp => hopeners p (List.mem_cons_of_mem o hp))
        (fun p hp => hopeners' p (List.mem_cons_of_mem o' hp)) hbelow
      rw [hspan, hrest]

/-- After its closer, a reported pair leaves open what was open before its opener. -/
theorem stateBefore_of_mem_spans {mode : Mode} (mode' : Mode) {t : Text} {b : BracketSpan}
    (hb : b ∈ spans mode t) : stateBefore mode' t (b.stop + 1) =
      ⟨b.stop + 1, 0, false, (stateBefore mode' t b.start).opened⟩ := by
  rw [stateBefore_eq mode' mode, stateBefore_eq mode' mode]
  have haround := (opened_of_mem_spans mode hb).2.2
  have hbelow := stacked_stateBefore mode t b.start
  have hopeners := (reading_stateBefore mode t b.start).openers
  have hstop := stop_lt_of_mem_spans b hb
  have hcloser := (standsIn_of_mem_spans b hb).closer
  obtain ⟨hspans, hbefore, -⟩ := spans_eq_append mode (Nat.le_of_lt hstop)
  have hreading := reading_stateBefore mode t b.stop
  have hindex := index_stateBefore mode (Nat.le_of_lt hstop)
  have hnext := stateBefore_succ mode hcloser
  have hdrop : t.drop b.stop = b.kind.closing :: t.drop (b.stop + 1) := by
    obtain ⟨hlt, hget⟩ := List.getElem?_eq_some_iff.mp hcloser
    rw [List.drop_eq_getElem_cons hlt, hget]
  rw [hdrop] at hspans hreading
  rw [← List.head?_drop] at hnext
  generalize stateBefore mode t b.stop = s at *
  obtain ⟨closed, s', hmoves, hstep⟩ :=
    exists_moves hreading.stacked b.kind.closing (t.drop (b.stop + 1)).head?
  rw [hstep] at hnext
  -- The character at its end is the one that closes the pair.
  have hclosed : b ∈ closed mode := by
    rw [hspans, scan_cons, hstep] at hb
    rcases List.mem_append.mp hb with hb | hb
    · exact absurd (hbefore b hb) (Nat.lt_irrefl _)
    rcases List.mem_append.mp hb with hb | hb
    · exact hb
    · have hle := (closesFrom_of_mem_scan (hreading.stacked.of_moves hmoves) b hb).1
      rw [hmoves.index_eq] at hle
      omega
  obtain ⟨dropped, o, rest, hopened, hclosing, heq, rfl⟩ := hmoves.of_mem_closed hclosed
  obtain ⟨hrest, hstacked⟩ := (hopened ▸ hreading.stacked).of_append
  have hsame : rest = (stateBefore mode t b.start).opened := by
    refine hstacked.eq_of_map_start_eq hbelow (fun p hp => hreading.openers p ?_) hopeners ?_
    · rw [hopened]
      exact List.mem_append_right _ (List.mem_cons_of_mem o hp)
    · rw [← hbelow.openStarts_eq, ← haround, heq, ← hrest]
      rfl
  have hescape : b.kind.closing ≠ '\\' := by cases b.kind <;> decide
  rw [hnext, hsame, State.advance, if_neg hescape, hindex]

end Brackets

end ReplCore
