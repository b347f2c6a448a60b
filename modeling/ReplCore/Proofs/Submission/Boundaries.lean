import ReplCore.Proofs.Submission.Balance

/-!
# Where statements end

The cutter goes over the tokens with what is open, the statement so far and whether a line was
broken just before. What one token does to these is said once, and a run of the cutter is a chain of
such moves. So it is known at each place what the cutter holds, and between which tokens it ends a
statement.

* `moves_of_cut`: what a token does to the cutter.
* `division_of_splitStatements`: the statements are the tokens that are kept, divided just where a
  semicolon was dropped or a line break ends a statement.
-/

namespace ReplCore.Submission

open Nesting

/-! ## What is kept -/

/-- After the tokens `before`, the token is white space or a comment, or a semicolon outside of
everything that is open. -/
def Drops (before : List Token) (t : Token) : Prop :=
  t.isIgnored = true ∨ t.isSymbol ";" = true ∧ Balanced none (significant before)

instance (before : List Token) (t : Token) : Decidable (Drops before t) :=
  inferInstanceAs (Decidable (_ ∨ _))

/-- The tokens that are not dropped where they stand, after the tokens `before`. -/
def keptAfter (before : List Token) : List Token → List Token
  | [] => []
  | t :: ts =>
    if Drops before t then keptAfter (before ++ [t]) ts else t :: keptAfter (before ++ [t]) ts

/-- The tokens that are not dropped. -/
def kept (ts : List Token) : List Token := keptAfter [] ts

theorem keptAfter_append (ts us : List Token) : ∀ before,
    keptAfter before (ts ++ us) = keptAfter before ts ++ keptAfter (before ++ ts) us := by
  induction ts with
  | nil => simp [keptAfter]
  | cons t ts ih =>
    intro before
    simp only [List.cons_append, keptAfter, ih]
    split <;> simp

theorem kept_snoc_of_drops {before : List Token} {t : Token} (h : Drops before t) :
    kept (before ++ [t]) = kept before := by
  simp [kept, keptAfter_append, keptAfter, h]

theorem kept_snoc {before : List Token} {t : Token} (h : ¬ Drops before t) :
    kept (before ++ [t]) = kept before ++ [t] := by
  simp [kept, keptAfter_append, keptAfter, h]

/-! ## Moves of the cutter -/

/-- The cutter goes over a token from one state to another and completes the statements `done`. -/
inductive Moves (s : Cutting) (t : Token) : List (List Token) → Cutting → Prop
  | ignores (isIgnored : t.isIgnored = true) :
      Moves s t [] { s with lineBroken := s.lineBroken || (t.kind = .newline && s.opened.isEmpty) }
  | ends (semicolon : t.isSymbol ";" = true) (outside : s.opened = []) :
      Moves s t (flush s.current []) ⟨[], [], false⟩
  | continues {opened} (isKept : t.isIgnored = false ∧ ¬ (t.isSymbol ";" = true ∧ s.opened = []))
      (tracks : track s.opened t = .ok opened) (goesOn : s.endsBefore t = false) :
      Moves s t [] ⟨opened, s.current ++ [t], false⟩
  | begins {opened} (isKept : t.isIgnored = false ∧ ¬ (t.isSymbol ";" = true ∧ s.opened = []))
      (tracks : track s.opened t = .ok opened) (endsBefore : s.endsBefore t = true) :
      Moves s t [s.current] ⟨opened, [t], false⟩

theorem flatten_flush (current : List Token) : (flush current []).flatten = current := by
  cases current <;> simp [flush]

theorem ne_nil_of_mem_flush {current g : List Token} (h : g ∈ flush current []) : g ≠ [] := by
  unfold flush at h
  split at h
  · cases h
  · next hne =>
    rw [List.mem_singleton.mp h]
    simpa using hne

theorem flush_append (current : List Token) (groups : List (List Token)) :
    flush current groups = flush current [] ++ groups := by
  unfold flush
  split <;> rfl

/-- A semicolon starts no statement. -/
theorem endsBefore_semicolon {s : Cutting} {t : Token} (h : t.isSymbol ";" = true) :
    s.endsBefore t = false := by
  simp only [Token.isSymbol, decide_eq_true_eq] at h
  simp [Cutting.endsBefore, Token.startsStatement, h]

theorem cut_of_kept {s : Cutting} {t : Token} (hignored : t.isIgnored = false)
    (hsemicolon : ¬ (t.isSymbol ";" = true ∧ s.opened = [])) (ts : List Token) :
    cut s (t :: ts) = (track s.opened t).bind fun opened =>
      (cut ⟨opened, (if s.endsBefore t then [] else s.current) ++ [t], false⟩ ts).map
        (flush (if s.endsBefore t then s.current else [])) := by
  have hnewline : ¬ (t.kind = .newline ∧ s.opened = []) := by
    rintro ⟨hkind, -⟩
    simp [Token.isIgnored_of_newline hkind] at hignored
  rw [cut, if_neg hnewline, if_neg (by simp [hignored])]
  dsimp only
  refine (if_neg hsemicolon).trans ?_
  cases track s.opened t <;> rfl

/-- The cutter makes one of these moves at each token or finds a fault there. -/
theorem moves_of_cut (s : Cutting) (t : Token) :
    (∃ done s', Moves s t done s' ∧ ∀ ts, cut s (t :: ts) = (cut s' ts).map (done ++ ·)) ∨
      ∃ e, track s.opened t = .error e ∧ ∀ ts, cut s (t :: ts) = .error e := by
  have hnil : ∀ x : Except Nesting.Error (List (List Token)), x = x.map ([] ++ ·) := by
    intro x
    cases x <;> rfl
  by_cases hignored : t.isIgnored = true
  · refine Or.inl ⟨[], _, .ignores hignored, fun ts => ?_⟩
    rw [← hnil, cut]
    by_cases hnewline : t.kind = .newline ∧ s.opened = []
    · simp [hnewline]
    · rw [if_neg hnewline, if_pos hignored]
      have hbroken : (t.kind = .newline && s.opened.isEmpty) = false := by
        simpa using hnewline
      simp [hbroken]
  by_cases hsemicolon : t.isSymbol ";" = true ∧ s.opened = []
  · have hnewline : ¬ (t.kind = .newline ∧ s.opened = []) :=
      fun h => hignored (Token.isIgnored_of_newline h.1)
    refine Or.inl ⟨_, _, .ends hsemicolon.1 hsemicolon.2, fun ts => ?_⟩
    rw [cut, if_neg hnewline, if_neg hignored]
    dsimp only
    rw [endsBefore_semicolon hsemicolon.1, if_pos hsemicolon]
    exact congrArg (Except.map · _) (funext fun rest => flush_append s.current rest)
  have hkept : t.isIgnored = false ∧ ¬ (t.isSymbol ";" = true ∧ s.opened = []) :=
    ⟨by simpa using hignored, hsemicolon⟩
  have hcut := cut_of_kept hkept.1 hkept.2
  cases htrack : track s.opened t with
  | error e =>
    refine Or.inr ⟨e, rfl, fun ts => ?_⟩
    rw [hcut, htrack]
    rfl
  | ok opened =>
    refine Or.inl ?_
    cases hends : s.endsBefore t with
    | false =>
      refine ⟨[], _, .continues hkept htrack hends, fun ts => ?_⟩
      rw [hcut, htrack, hends]
      rfl
    | true =>
      refine ⟨[s.current], _, .begins hkept htrack hends, fun ts => ?_⟩
      have hne : s.current.isEmpty = false := by
        simpa using (ne_nil_of_endsBefore hends).2
      rw [hcut, htrack, hends]
      simp only [Except.bind, if_true, List.nil_append]
      exact congrArg (Except.map · _) (funext fun rest => by simp [flush, hne])

/-- The cutter goes over several tokens. -/
inductive Runs : Cutting → List Token → List (List Token) → Cutting → Prop
  | nil {s} : Runs s [] [] s
  | cons {s t done s' ts more s''} (move : Moves s t done s') (run : Runs s' ts more s'') :
      Runs s (t :: ts) (done ++ more) s''

/-- The cutter goes over all the tokens, or over the first of them up to a fault. -/
theorem runs_of_cut (ts : List Token) : ∀ s,
    (∃ done s', Runs s ts done s' ∧ ∀ us, cut s (ts ++ us) = (cut s' us).map (done ++ ·)) ∨
      ∃ before t after done s' e, ts = before ++ t :: after ∧ Runs s before done s' ∧
        track s'.opened t = .error e ∧ ∀ us, cut s (before ++ t :: us) = .error e := by
  induction ts with
  | nil =>
    refine fun s => Or.inl ⟨[], s, .nil, fun us => ?_⟩
    cases h : cut s us <;> simp [h, Except.map]
  | cons t ts ih =>
    intro s
    rcases moves_of_cut s t with ⟨done, s', hmove, hcut⟩ | ⟨e, htrack, hcut⟩
    · rcases ih s' with ⟨more, s'', hrun, hmore⟩ |
          ⟨before, u, after, more, s'', e, rfl, hrun, he, hmore⟩
      · refine Or.inl ⟨_, _, .cons hmove hrun, fun us => ?_⟩
        rw [List.cons_append, hcut, hmore]
        cases cut s'' us <;> simp [Except.map]
      · refine Or.inr ⟨t :: before, u, after, _, _, e, rfl, .cons hmove hrun, he, fun us => ?_⟩
        rw [List.cons_append, hcut, hmore]
        rfl
    · exact Or.inr ⟨[], t, ts, [], s, e, rfl, .nil, htrack, hcut⟩

theorem exists_runs {s : Cutting} {ts us : List Token} {groups : List (List Token)}
    (h : cut s (ts ++ us) = .ok groups) :
    ∃ done s' rest, Runs s ts done s' ∧ cut s' us = .ok rest ∧ groups = done ++ rest := by
  rcases runs_of_cut ts s with ⟨done, s', hrun, hcut⟩ | ⟨before, t, after, _, _, e, rfl, _, _, hcut⟩
  · rw [hcut] at h
    obtain ⟨rest, hrest, rfl⟩ := exists_of_map_eq_ok h
    exact ⟨done, s', rest, hrun, hrest, rfl⟩
  · rw [List.append_assoc, List.cons_append, hcut] at h
    cases h

theorem exists_moves {s : Cutting} {t : Token} {us : List Token} {groups : List (List Token)}
    (h : cut s (t :: us) = .ok groups) :
    ∃ done s' rest, Moves s t done s' ∧ cut s' us = .ok rest ∧ groups = done ++ rest := by
  rcases moves_of_cut s t with ⟨done, s', hmove, hcut⟩ | ⟨e, -, hcut⟩
  · rw [hcut] at h
    obtain ⟨rest, hrest, rfl⟩ := exists_of_map_eq_ok h
    exact ⟨done, s', rest, hmove, hrest, rfl⟩
  · rw [hcut] at h
    cases h

/-! ## What the cutter holds -/

/-- After the tokens `before` the cutter has completed the statements `done`. -/
structure Holds (before : List Token) (done : List (List Token)) (s : Cutting) : Prop where
  tracked : trackAll [] before = .ok s.opened
  kept_eq : done.flatten ++ s.current = kept before
  ne_nil : ∀ g ∈ done, g ≠ []
  begun : s.opened ≠ [] → s.current ≠ []
  broken : s.lineBroken = true → s.opened = []

theorem holds_initial : Holds [] [] .initial :=
  ⟨rfl, rfl, by simp, fun h => absurd rfl h, fun _ => rfl⟩

namespace Holds

variable {before ts : List Token} {done more : List (List Token)} {s s' : Cutting} {t : Token}

theorem balanced_iff (h : Holds before done s) :
    Balanced none (significant before) ↔ s.opened = [] := by
  rw [balanced_significant_iff, h.tracked, Except.ok.injEq]

theorem drops_iff (h : Holds before done s) :
    Drops before t ↔ t.isIgnored = true ∨ t.isSymbol ";" = true ∧ s.opened = [] := by
  rw [Drops, h.balanced_iff]

theorem trackAll_snoc {opened opened' : List Opener} (h : trackAll [] before = .ok opened)
    (ht : track opened t = .ok opened') : trackAll [] (before ++ [t]) = .ok opened' := by
  rw [trackAll_append, h]
  change trackAll opened [t] = _
  rw [trackAll_cons, ht]
  rfl

theorem move (h : Holds before done s) (hmove : Moves s t more s') :
    Holds (before ++ [t]) (done ++ more) s' := by
  cases hmove with
  | ignores isIgnored =>
    refine ⟨trackAll_snoc h.tracked (track_of_isIgnored isIgnored), ?_, ?_, h.begun, ?_⟩
    · rw [kept_snoc_of_drops (h.drops_iff.mpr (Or.inl isIgnored)), List.append_nil]
      exact h.kept_eq
    · rw [List.append_nil]
      exact h.ne_nil
    · simp only [Bool.or_eq_true, Bool.and_eq_true, List.isEmpty_iff]
      rintro (hbroken | ⟨-, hnil⟩)
      · exact h.broken hbroken
      · exact hnil
  | ends semicolon outside =>
    refine ⟨?_, ?_, ?_, fun h => absurd rfl h, fun _ => rfl⟩
    · have htracked := outside ▸ h.tracked
      exact trackAll_snoc htracked (track_of_isSemicolon semicolon)
    · rw [kept_snoc_of_drops (h.drops_iff.mpr (Or.inr ⟨semicolon, outside⟩)), ← h.kept_eq,
        List.flatten_append, flatten_flush, List.append_nil]
    · intro g hg
      rcases List.mem_append.mp hg with hg | hg
      · exact h.ne_nil g hg
      · exact ne_nil_of_mem_flush hg
  | continues isKept tracks goesOn =>
    have hdrops : ¬ Drops before t := by simpa [h.drops_iff, isKept.1] using isKept.2
    refine ⟨trackAll_snoc h.tracked tracks, ?_, ?_, by simp, by simp⟩
    · rw [kept_snoc hdrops, ← h.kept_eq]
      simp
    · rw [List.append_nil]
      exact h.ne_nil
  | begins isKept tracks endsBefore =>
    have hdrops : ¬ Drops before t := by simpa [h.drops_iff, isKept.1] using isKept.2
    refine ⟨trackAll_snoc h.tracked tracks, ?_, ?_, by simp, by simp⟩
    · rw [kept_snoc hdrops, ← h.kept_eq]
      simp
    · intro g hg
      rcases List.mem_append.mp hg with hg | hg
      · exact h.ne_nil g hg
      · rw [List.mem_singleton.mp hg]
        exact (ne_nil_of_endsBefore endsBefore).2

theorem run (hrun : Runs s ts more s') : ∀ {before done}, Holds before done s →
    Holds (before ++ ts) (done ++ more) s' := by
  induction hrun with
  | nil =>
    intro before done h
    simpa using h
  | @cons s t first s' ts more s'' hmove _ ih =>
    intro before done h
    have := ih (h.move hmove)
    simpa [List.append_assoc] using this

end Holds

/-! ## Between two tokens that are kept -/

theorem not_isIgnored_of_isSymbol {t : Token} {x : String} (h : t.isSymbol x = true) :
    t.isIgnored = false := by
  simp only [Token.isSymbol, decide_eq_true_eq] at h
  simp [Token.isIgnored, h]

namespace Moves

variable {s s' : Cutting} {t : Token} {done : List (List Token)}

theorem of_isIgnored (h : Moves s t done s') (ht : t.isIgnored = true) :
    done = [] ∧ s'.opened = s.opened ∧ s'.current = s.current ∧
      (s'.lineBroken = true ↔ s.lineBroken = true ∨ s.opened = [] ∧ t.kind = .newline) := by
  cases h with
  | ignores => simp [and_comm]
  | ends semicolon => simp [not_isIgnored_of_isSymbol semicolon] at ht
  | continues isKept => simp [isKept.1] at ht
  | begins isKept => simp [isKept.1] at ht

theorem of_semicolon (h : Moves s t done s') (ht : t.isSymbol ";" = true) (hs : s.opened = []) :
    s' = ⟨[], [], false⟩ := by
  cases h with
  | ignores isIgnored => simp [not_isIgnored_of_isSymbol ht] at isIgnored
  | ends => rfl
  | continues isKept => exact absurd ⟨ht, hs⟩ isKept.2
  | begins isKept => exact absurd ⟨ht, hs⟩ isKept.2

/-- A token that is kept goes on with the statement so far or begins another. -/
theorem of_kept (h : Moves s t done s')
    (ht : ¬ (t.isIgnored = true ∨ t.isSymbol ";" = true ∧ s.opened = [])) :
    s'.lineBroken = false ∧
      (s.endsBefore t = false ∧ done = [] ∧ s'.current = s.current ++ [t] ∨
        s.endsBefore t = true ∧ done = [s.current] ∧ s'.current = [t]) := by
  cases h with
  | ignores isIgnored => exact absurd (Or.inl isIgnored) ht
  | ends semicolon outside => exact absurd (Or.inr ⟨semicolon, outside⟩) ht
  | continues _ _ goesOn => exact ⟨rfl, Or.inl ⟨goesOn, rfl, rfl⟩⟩
  | begins _ _ endsBefore => exact ⟨rfl, Or.inr ⟨endsBefore, rfl, rfl⟩⟩

end Moves

namespace Runs

variable {s s' : Cutting} {gap : List Token} {done : List (List Token)}

/-- White space and comments leave the statement so far as it is and tell where a line is broken. -/
theorem of_isIgnored (h : Runs s gap done s') : (∀ t ∈ gap, t.isIgnored = true) →
    done = [] ∧ s'.opened = s.opened ∧ s'.current = s.current ∧ (s'.lineBroken = true ↔
      s.lineBroken = true ∨ s.opened = [] ∧ ∃ t ∈ gap, t.kind = .newline) := by
  induction h with
  | nil => simp
  | @cons s t first s' ts more s'' hmove _ ih =>
    intro hgap
    obtain ⟨rfl, hopened, hcurrent, hbroken⟩ := hmove.of_isIgnored (hgap t List.mem_cons_self)
    obtain ⟨rfl, hopened', hcurrent', hbroken'⟩ :=
      ih fun u hu => hgap u (List.mem_cons_of_mem t hu)
    refine ⟨rfl, hopened'.trans hopened, hcurrent'.trans hcurrent, ?_⟩
    rw [hbroken', hbroken, hopened]
    simp only [List.mem_cons, exists_eq_or_imp]
    grind

/-- Outside of everything open no statement goes on over a semicolon. -/
theorem current_eq_nil (h : Runs s gap done s') : s.opened = [] →
    (∀ t ∈ gap, t.isIgnored = true ∨ t.isSymbol ";" = true) →
    (s.current = [] ∨ ∃ t ∈ gap, t.isSymbol ";" = true) → s'.current = [] := by
  induction h with
  | nil => simp
  | @cons s t first s' ts more s'' hmove _ ih =>
    intro hopened hgap hends
    have hts := fun u hu => hgap u (List.mem_cons_of_mem t hu)
    rcases hgap t List.mem_cons_self with ht | ht
    · obtain ⟨-, hopened', hcurrent, -⟩ := hmove.of_isIgnored ht
      refine ih (hopened'.trans hopened) hts ?_
      rcases hends with hnil | ⟨u, hu, hsemicolon⟩
      · exact Or.inl (hcurrent.trans hnil)
      · rcases List.mem_cons.mp hu with rfl | hu
        · simp [not_isIgnored_of_isSymbol hsemicolon] at ht
        · exact Or.inr ⟨u, hu, hsemicolon⟩
    · rw [hmove.of_semicolon ht hopened] at ih
      exact ih rfl hts (Or.inl rfl)

end Runs

/-- What is dropped after the tokens `before` is what may stand between statements there. -/
theorem keptAfter_eq_nil_iff {before gap : List Token} :
    keptAfter before gap = [] ↔ ∀ t ∈ gap, Drops before t := by
  induction gap generalizing before with
  | nil => simp [keptAfter]
  | cons t gap ih =>
    by_cases ht : Drops before t
    · have hsame : trackAll [] (before ++ [t]) = trackAll [] before := by
        have htrack : ∀ opened, trackAll opened [t] = .ok opened := by
          intro opened
          rw [trackAll_cons]
          rcases ht with ht | ⟨ht, -⟩
          · rw [track_of_isIgnored ht]
            rfl
          · rw [track_of_isSemicolon ht]
            rfl
        rw [trackAll_append]
        cases trackAll [] before with
        | error e => rfl
        | ok opened => exact htrack opened
      have hdrops : ∀ u, Drops (before ++ [t]) u ↔ Drops before u := by
        intro u
        rw [Drops, Drops, balanced_significant_iff, balanced_significant_iff, hsame]
      rw [keptAfter, if_pos ht, ih]
      simp [hdrops, ht]
    · simp [keptAfter, ht]

/-- The statement so far is the beginning of the next one to be completed. -/
theorem exists_of_cut {us : List Token} : ∀ {s : Cutting} {groups : List (List Token)},
    cut s us = .ok groups → s.current ≠ [] → ∃ more rest, groups = (s.current ++ more) :: rest := by
  induction us with
  | nil =>
    intro s groups h hne
    unfold cut at h
    split at h
    · cases h
    · refine ⟨[], [], ?_⟩
      rw [← Except.ok.inj h]
      simp [flush, hne]
  | cons t us ih =>
    intro s groups h hne
    obtain ⟨done, s', rest, hmove, hcut, rfl⟩ := exists_moves h
    cases hmove with
    | ignores =>
      obtain ⟨more, rest, rfl⟩ := ih hcut hne
      exact ⟨more, rest, rfl⟩
    | ends => exact ⟨[], rest, by simp [flush, hne]⟩
    | continues =>
      obtain ⟨more, rest, rfl⟩ := ih hcut (by simp)
      exact ⟨t :: more, rest, by simp⟩
    | begins => exact ⟨[], rest, by simp⟩

/-! ## The division -/

/-- The first of the statements are just the tokens `ts`. -/
def DividedAfter (groups : List (List Token)) (ts : List Token) : Prop :=
  ∃ earlier later, groups = earlier ++ later ∧ earlier.flatten = ts

/-- Statements are not divided within one of them. -/
theorem not_dividedAfter {done rest : List (List Token)} {current more : List Token} {b : Token}
    (hne : current ≠ []) :
    ¬ DividedAfter (done ++ (current ++ b :: more) :: rest) (done.flatten ++ current) := by
  rintro ⟨earlier, later, hgroups, hflatten⟩
  rcases List.append_eq_append_iff.mp hgroups with ⟨groups, rfl, hlater⟩ | ⟨groups, rfl, -⟩
  · rw [List.flatten_append] at hflatten
    have hgroups := List.append_cancel_left hflatten
    cases groups with
    | nil => exact hne hgroups.symm
    | cons g groups =>
      obtain ⟨rfl, -⟩ := List.cons.inj hlater
      have := congrArg List.length hgroups
      simp at this
  · rw [List.flatten_append, List.append_assoc] at hflatten
    have := List.append_cancel_left (hflatten.symm.trans (List.append_nil _).symm)
    simp [hne] at this

/-- After `before` come `a` and `b`, which are kept, with tokens between them that are not. -/
structure Consecutive (before : List Token) (a : Token) (gap : List Token) (b : Token) : Prop where
  keeps_left : ¬ Drops before a
  drops_gap : keptAfter (before ++ [a]) gap = []
  keeps_right : ¬ Drops (before ++ a :: gap) b

/-- The tokens that are kept are divided into balanced statements. Between two that follow each
other a statement ends just if nothing is open and there is a semicolon, or a line break after a
token that can end a statement and before one that can start one. -/
structure Division (ts : List Token) (groups : List (List Token)) : Prop where
  flatten_eq : groups.flatten = kept ts
  ne_nil : ∀ g ∈ groups, g ≠ []
  balanced : ∀ g ∈ groups, Balanced none g
  dividedAfter_iff : ∀ {before a gap b after}, ts = before ++ a :: (gap ++ b :: after) →
    Consecutive before a gap b →
    (DividedAfter groups (kept (before ++ [a])) ↔
      Balanced none (significant (before ++ [a])) ∧
        ((∃ t ∈ gap, t.isSymbol ";" = true) ∨ (∃ t ∈ gap, t.kind = .newline) ∧
          a.endsStatement = true ∧ b.startsStatement = true))

namespace Holds

variable {before gap after us : List Token} {done rest groups : List (List Token)} {s : Cutting}
  {a b : Token}

/-- Just after a token that is kept, the statement so far ends with it. -/
theorem exists_at (h : cut .initial (before ++ a :: us) = .ok groups) (ha : ¬ Drops before a) :
    ∃ done s rest earlier, Holds (before ++ [a]) done s ∧ s.lineBroken = false ∧
      s.current = earlier ++ [a] ∧ cut s us = .ok rest ∧ groups = done ++ rest := by
  obtain ⟨done, s, rest, hrun, hcut, rfl⟩ := exists_runs h
  have hholds : Holds before done s := holds_initial.run hrun
  obtain ⟨more, s', rest', hmove, hcut', rfl⟩ := exists_moves hcut
  obtain ⟨hbroken, hcurrent⟩ := hmove.of_kept (hholds.drops_iff.not.mp ha)
  have hends : ∃ earlier, s'.current = earlier ++ [a] := by
    rcases hcurrent with ⟨-, -, hcurrent⟩ | ⟨-, -, hcurrent⟩
    · exact ⟨s.current, hcurrent⟩
    · exact ⟨[], hcurrent⟩
  obtain ⟨earlier, hends⟩ := hends
  exact ⟨done ++ more, s', rest', earlier, hholds.move hmove, hbroken, hends, hcut',
    (List.append_assoc done more rest').symm⟩

/-- The statement so far ends at a semicolon outside of everything open. -/
theorem dividedAfter_of_semicolon (h : Holds before done s) (hcut : cut s (gap ++ us) = .ok rest)
    (hgap : keptAfter before gap = []) (hsemicolon : ∃ t ∈ gap, t.isSymbol ";" = true) :
    s.opened = [] ∧ DividedAfter (done ++ rest) (kept before) := by
  have hdrops := keptAfter_eq_nil_iff.mp hgap
  have hopened : s.opened = [] := by
    obtain ⟨t, ht, hsymbol⟩ := hsemicolon
    rcases h.drops_iff.mp (hdrops t ht) with hignored | ⟨-, hopened⟩
    · simp [not_isIgnored_of_isSymbol hsymbol] at hignored
    · exact hopened
  obtain ⟨more, s', rest', hrun, -, rfl⟩ := exists_runs hcut
  have hcurrent : s'.current = [] :=
    hrun.current_eq_nil hopened (fun t ht => (h.drops_iff.mp (hdrops t ht)).imp_right And.left)
      (Or.inr hsemicolon)
  have hkept := (h.run hrun).kept_eq
  rw [hcurrent, List.append_nil, kept, keptAfter_append, List.nil_append, hgap,
    List.append_nil] at hkept
  exact ⟨hopened, done ++ more, rest', (List.append_assoc done more rest').symm, hkept⟩

/-- Without a semicolon, the statement so far ends just if a line break ends it. -/
theorem dividedAfter_iff (h : Holds before done s) (hne : s.current ≠ [])
    (hcut : cut s (gap ++ b :: after) = .ok rest) (hgap : ∀ t ∈ gap, t.isIgnored = true)
    (hb : ¬ Drops (before ++ gap) b) : DividedAfter (done ++ rest) (kept before) ↔
      Cutting.endsBefore ⟨s.opened, s.current,
        s.lineBroken || (s.opened.isEmpty && gap.any (·.kind = .newline))⟩ b = true := by
  obtain ⟨more, s', rest', hrun, hcut', rfl⟩ := exists_runs hcut
  obtain ⟨rfl, hopened, hcurrent, hbroken⟩ := hrun.of_isIgnored hgap
  have hstate : s' = ⟨s.opened, s.current,
      s.lineBroken || (s.opened.isEmpty && gap.any (·.kind = .newline))⟩ := by
    obtain ⟨opened, current, lineBroken⟩ := s'
    simp only [Cutting.mk.injEq] at hopened hcurrent ⊢
    refine ⟨hopened, hcurrent, ?_⟩
    rw [Bool.eq_iff_iff, hbroken]
    simp
  rw [← hstate]
  obtain ⟨last, s'', rest'', hmove, hcut'', rfl⟩ := exists_moves hcut'
  obtain ⟨-, hkept⟩ := hmove.of_kept ((h.run hrun).drops_iff.not.mp hb)
  rw [← h.kept_eq, List.nil_append, ← hcurrent]
  rcases hkept with ⟨hends, rfl, hgoesOn⟩ | ⟨hends, rfl, -⟩
  · obtain ⟨more, later, rfl⟩ := exists_of_cut hcut'' (by simp [hgoesOn])
    rw [hends, hgoesOn, List.nil_append, List.append_assoc]
    simpa using not_dividedAfter (hcurrent ▸ hne)
  · refine iff_of_true ⟨done ++ [s'.current], rest'', ?_, ?_⟩ hends <;> simp

end Holds

/-- The statements of a list of tokens are its division. -/
theorem division_of_splitStatements {ts : List Token} {groups : List (List Token)}
    (h : splitStatements ts = .ok groups) : Division ts groups := by
  have hcut : cut .initial (ts ++ []) = .ok groups := by rwa [List.append_nil]
  obtain ⟨done, s, rest, hrun, hend, rfl⟩ := exists_runs hcut
  have hholds : Holds ts done s := holds_initial.run hrun
  have hrest : rest = flush s.current [] := by
    unfold cut at hend
    split at hend
    · cases hend
    · exact (Except.ok.inj hend).symm
  refine ⟨?_, ?_, ?_, ?_⟩
  · rw [hrest, List.flatten_append, flatten_flush, hholds.kept_eq]
  · intro g hg
    rcases List.mem_append.mp hg with hg | hg
    · exact hholds.ne_nil g hg
    · exact ne_nil_of_mem_flush (hrest ▸ hg)
  · intro g hg
    cases trackAll_eq_ok_iff.mp (trackAll_of_splitStatements h g hg) with
    | none balanced => exact balanced
  · rintro before a gap b after rfl ⟨ha, hgap, hb⟩
    obtain ⟨done', s', rest', earlier, hat, hbroken, hcurrent, hcut, hgroups⟩ :=
      Holds.exists_at h ha
    rw [hgroups, hat.balanced_iff]
    by_cases hsemicolon : ∃ t ∈ gap, t.isSymbol ";" = true
    · obtain ⟨hopened, hdivided⟩ := hat.dividedAfter_of_semicolon hcut hgap hsemicolon
      exact iff_of_true hdivided ⟨hopened, Or.inl hsemicolon⟩
    · have hignored : ∀ t ∈ gap, t.isIgnored = true := by
        intro t ht
        refine (hat.drops_iff.mp (keptAfter_eq_nil_iff.mp hgap t ht)).resolve_right ?_
        exact fun h => hsemicolon ⟨t, ht, h.1⟩
      rw [hat.dividedAfter_iff (by simp [hcurrent]) hcut hignored (by simpa using hb)]
      simp [Cutting.endsBefore, hbroken, hcurrent, hsemicolon, and_assoc]

/-- Inside of parentheses neither a line break nor a semicolon ends a statement. -/
theorem division_of_splitStatements_parentheses :
    ∃ groups, splitStatements (Token.tokenize "f(\n;)\ng /* h */; h".toList) = .ok groups ∧
      groups.map (·.flatMap Token.text) = ["f(;)".toList, "g".toList, "h".toList] ∧
      Division (Token.tokenize "f(\n;)\ng /* h */; h".toList) groups := by
  have h : (splitStatements (Token.tokenize "f(\n;)\ng /* h */; h".toList)).toOption =
      some [[⟨.name, "f".toList, 0, 1⟩, ⟨.symbol "(".toList, "(".toList, 1, 2⟩,
          ⟨.symbol ";".toList, ";".toList, 3, 4⟩, ⟨.symbol ")".toList, ")".toList, 4, 5⟩],
        [⟨.name, "g".toList, 6, 7⟩], [⟨.name, "h".toList, 17, 18⟩]] := by
    decide +kernel
  exact ⟨_, eq_ok_of_toOption h, by decide, division_of_splitStatements (eq_ok_of_toOption h)⟩

end ReplCore.Submission
