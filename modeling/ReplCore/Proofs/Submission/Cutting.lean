import ReplCore.Proofs.Values.Results
import ReplCore.Submission.Split

/-!
# Statements and the gaps around them

The cutter drops white space, comments and the semicolons outside of everything open, and nothing
else. So the tokens of a source are a gap, then for each statement the stretch of tokens it was cut
from and another gap, and no two statements stand side by side without a gap.

* `cuts_of_splitStatements`: the tokens are stretches with gaps around them.
-/

namespace ReplCore

namespace Token

/-- Whether the token may stand between statements: white space, a comment or a semicolon. -/
def separates (t : Token) : Bool := t.isIgnored || t.isSymbol ";"

theorem separates_of_isIgnored {t : Token} (h : t.isIgnored = true) : t.separates = true := by
  simp [separates, h]

theorem separates_of_isSymbol {t : Token} (h : t.isSymbol ";" = true) : t.separates = true := by
  simp [separates, h]

theorem isIgnored_of_newline {t : Token} (h : t.kind = .newline) : t.isIgnored = true := by
  simp [isIgnored, h]

end Token

namespace Submission

/-- The tokens that a statement was cut from: its own and, between them, ignored ones. -/
structure Stretch (raw group : List Token) : Prop where
  ne_nil : group ≠ []
  kept : raw.filter (fun t => !t.isIgnored) = group
  head?_eq : raw.head? = group.head?
  getLast?_eq : raw.getLast? = group.getLast?

theorem Stretch.raw_ne_nil {raw group : List Token} (h : Stretch raw group) : raw ≠ [] := by
  rintro rfl
  exact h.ne_nil h.kept.symm

/-- A token of its own makes up a statement. -/
theorem Stretch.single {t : Token} (ht : t.isIgnored = false) : Stretch [t] [t] :=
  ⟨by simp, by simp [ht], rfl, rfl⟩

/-- A statement goes on over ignored tokens. -/
theorem Stretch.snoc {raw group gap : List Token} (h : Stretch raw group)
    (hgap : ∀ t ∈ gap, t.isIgnored = true) {t : Token} (ht : t.isIgnored = false) :
    Stretch (raw ++ gap ++ [t]) (group ++ [t]) := by
  have hdropped : gap.filter (fun t => !t.isIgnored) = [] := by
    rw [List.filter_eq_nil_iff]
    intro u hu
    simp [hgap u hu]
  refine ⟨by simp, ?_, ?_, ?_⟩
  · simp [List.filter_append, h.kept, hdropped, ht]
  · rw [List.append_assoc, List.head?_append, List.head?_append, h.head?_eq]
    obtain ⟨u, us, rfl⟩ := List.exists_cons_of_ne_nil h.ne_nil
    rfl
  · simp

/-- A gap between statements. -/
def Gap (gap : List Token) : Prop := ∀ t ∈ gap, t.separates = true

theorem Gap.append {a b : List Token} (ha : Gap a) (hb : Gap b) : Gap (a ++ b) := by
  intro t ht
  rcases List.mem_append.mp ht with ht | ht
  · exact ha t ht
  · exact hb t ht

theorem gap_nil : Gap [] := by simp [Gap]

theorem gap_singleton {t : Token} (ht : t.separates = true) : Gap [t] := by simpa [Gap] using ht

/-- Stretches of tokens, each with a gap after it, which is empty at most after the last. -/
inductive Interleaved : List Token → List (List Token) → Prop
  | nil : Interleaved [] []
  | cons {raw gap rest group groups} (stretch : Stretch raw group) (isGap : Gap gap)
      (nonempty : gap = [] → rest = []) (more : Interleaved rest groups) :
      Interleaved (raw ++ (gap ++ rest)) (group :: groups)

/-- Stretches of tokens with gaps before and after each. -/
inductive Cuts : List Token → List (List Token) → Prop
  | intro {gap rest groups} (isGap : Gap gap) (more : Interleaved rest groups) :
      Cuts (gap ++ rest) groups

theorem Cuts.exists_append {ts : List Token} {groups : List (List Token)} (h : Cuts ts groups) :
    ∃ gap rest, ts = gap ++ rest ∧ Gap gap ∧ Interleaved rest groups := by
  cases h with
  | intro isGap more => exact ⟨_, _, rfl, isGap, more⟩

/-- Tokens in order: a gap, then for each group the stretch that it was cut from and another gap. -/
inductive Parted : (tokens : List Token) → (gaps groups : List (List Token)) → Prop
  | last {gap} (isGap : Gap gap) : Parted gap [gap] []
  | cons {gap raw ts gaps group groups} (isGap : Gap gap) (stretch : Stretch raw group)
      (more : Parted ts gaps groups) : Parted (gap ++ (raw ++ ts)) (gap :: gaps) (group :: groups)

theorem Interleaved.exists_parted {rest : List Token} {groups : List (List Token)}
    (h : Interleaved rest groups) :
    ∀ {gap : List Token}, Gap gap → ∃ gaps, Parted (gap ++ rest) gaps groups := by
  induction h with
  | nil =>
    intro gap hgap
    exact ⟨[gap], by simpa using Parted.last hgap⟩
  | cons stretch isGap _ _ ih =>
    intro gap hgap
    obtain ⟨gaps, hmore⟩ := ih isGap
    exact ⟨gap :: gaps, .cons hgap stretch hmore⟩

namespace Parted

variable {ts : List Token} {gaps groups : List (List Token)}

theorem isGap_of_mem (h : Parted ts gaps groups) : ∀ gap ∈ gaps, Gap gap := by
  induction h with
  | last isGap => simpa using isGap
  | cons isGap _ _ ih => simpa using ⟨isGap, ih⟩

theorem mem_of_mem_gap (h : Parted ts gaps groups) : ∀ gap ∈ gaps, ∀ t ∈ gap, t ∈ ts := by
  induction h with
  | last => simp
  | cons _ _ _ ih =>
    intro gap hgap t ht
    rcases List.mem_cons.mp hgap with rfl | hgap
    · exact List.mem_append_left _ ht
    · exact List.mem_append_right _ (List.mem_append_right _ (ih gap hgap t ht))

/-- The gaps after the first stand after some token. -/
theorem mem_tail_of_mem_gap (h : Parted ts gaps groups) :
    ∀ gap ∈ gaps.tail, ∀ t ∈ gap, t ∈ ts.tail := by
  cases h with
  | last => simp
  | @cons first raw rest more group groups _ stretch hmore =>
    intro gap hgap t ht
    have hbefore : first ++ raw ≠ [] := by simp [stretch.raw_ne_nil]
    rw [← List.append_assoc, List.tail_append_of_ne_nil hbefore]
    exact List.mem_append_right _ (hmore.mem_of_mem_gap gap hgap t ht)

end Parted

/-- The tokens read since the last complete statement: a gap, the stretch of the statement so far,
if it has begun, and a gap after it, in which a line was broken if the cutter remembers so. -/
inductive Held : List Token → List Token → Bool → Prop
  | gap {raw lineBroken} (isGap : Gap raw) : Held raw [] lineBroken
  | stretch {before raw group after lineBroken} (isBefore : Gap before)
      (stretch : Stretch raw group) (isAfter : ∀ t ∈ after, t.isIgnored = true)
      (nonempty : lineBroken = true → after ≠ []) :
      Held (before ++ raw ++ after) group lineBroken

theorem Held.ignored {raw group : List Token} {b b' : Bool} {t : Token} (h : Held raw group b)
    (ht : t.isIgnored = true) : Held (raw ++ [t]) group b' := by
  cases h with
  | gap hraw => exact .gap (hraw.append (gap_singleton (Token.separates_of_isIgnored ht)))
  | stretch hbefore hstretch hafter hne =>
    rw [List.append_assoc]
    refine .stretch hbefore hstretch ?_ (by simp)
    intro u hu
    rcases List.mem_append.mp hu with hu | hu
    · exact hafter u hu
    · rw [List.mem_singleton.mp hu]
      exact ht

theorem Held.kept {raw group : List Token} {b : Bool} {t : Token} (h : Held raw group b)
    (ht : t.isIgnored = false) : Held (raw ++ [t]) (group ++ [t]) false := by
  cases h with
  | gap hraw =>
    have : Held (raw ++ [t] ++ []) [t] false :=
      .stretch hraw (.single ht) (by simp) (by simp)
    simpa using this
  | @stretch before raw _ after _ hbefore hstretch hafter hne =>
    have : Held (before ++ (raw ++ after ++ [t]) ++ []) (group ++ [t]) false :=
      .stretch hbefore (hstretch.snoc hafter ht) (by simp) (by simp)
    simpa [List.append_assoc] using this

/-- A statement is complete where a gap follows it, or nothing at all. -/
theorem Held.complete {raw group gap more : List Token} {groups : List (List Token)} {b : Bool}
    (h : Held raw group b) (hgap : Gap gap) (hmore : Cuts more groups)
    (hne : b = true ∨ gap ≠ [] ∨ more = []) : Cuts (raw ++ gap ++ more) (flush group groups) := by
  obtain @⟨gap', rest, _, hgap', hrest⟩ := hmore
  cases h with
  | gap hraw =>
    rw [← List.append_assoc]
    exact .intro ((hraw.append hgap).append hgap') hrest
  | @stretch before raw _ after _ hbefore hstretch hafter hbroken =>
    have hflush : flush group groups = group :: groups := by
      simp [flush, hstretch.ne_nil]
    have hafter' : Gap after := fun t ht => Token.separates_of_isIgnored (hafter t ht)
    have hnil : after ++ gap ++ gap' = [] → rest = [] := by
      intro hnil
      obtain ⟨hnil, hgap'⟩ := List.append_eq_nil_iff.mp hnil
      obtain ⟨hafter, hgap⟩ := List.append_eq_nil_iff.mp hnil
      rcases hne with hb | hne | hmore
      · exact absurd hafter (hbroken hb)
      · exact absurd hgap hne
      · exact (List.append_eq_nil_iff.mp hmore).2
    have hcuts := Cuts.intro hbefore
      (.cons hstretch ((hafter'.append hgap).append hgap') hnil hrest)
    rw [hflush]
    simpa [List.append_assoc] using hcuts

theorem ne_nil_of_endsBefore {s : Cutting} {t : Token} (h : s.endsBefore t = true) :
    s.lineBroken = true ∧ s.current ≠ [] := by
  simp only [Cutting.endsBefore, Bool.and_eq_true] at h
  refine ⟨h.1.1, ?_⟩
  intro hnil
  simp [hnil] at h

/-- The tokens from the place of the cutter on, with those it holds before them, are stretches with
gaps around them. -/
theorem cuts_of_cut {ts : List Token} : ∀ {raw : List Token} {s : Cutting}
    {groups : List (List Token)}, Held raw s.current s.lineBroken → cut s ts = .ok groups →
      Cuts (raw ++ ts) groups := by
  induction ts with
  | nil =>
    intro raw s groups hheld h
    unfold cut at h
    split at h
    · cases h
    · rw [← Except.ok.inj h]
      have := hheld.complete gap_nil (.intro gap_nil .nil) (Or.inr (Or.inr rfl))
      simpa using this
  | cons t ts ih =>
    intro raw s groups hheld h
    have hassoc : raw ++ t :: ts = raw ++ [t] ++ ts := by simp
    unfold cut at h
    split at h
    · next hnewline =>
      rw [hassoc]
      have hignored := Token.isIgnored_of_newline hnewline.1
      exact ih (show Held (raw ++ [t]) s.current true from hheld.ignored hignored) h
    · split at h
      · next hignored =>
        rw [hassoc]
        exact ih (hheld.ignored hignored) h
      · next hkept =>
        rw [Bool.not_eq_true] at hkept
        by_cases hends : s.endsBefore t = true
        · -- The statement ends before the token, which begins the next one or is a semicolon.
          obtain ⟨hbroken, -⟩ := ne_nil_of_endsBefore hends
          simp only [hends, if_true] at h
          have hnext : ∃ more, groups = flush s.current more ∧ Cuts (t :: ts) more := by
            split at h
            · next hsemicolon =>
              obtain ⟨more, hmore, rfl⟩ := exists_of_map_eq_ok h
              have hgap := gap_singleton (Token.separates_of_isSymbol hsemicolon.1)
              have hcuts : Cuts ([t] ++ ts) more := ih (.gap hgap) hmore
              exact ⟨more, rfl, hcuts⟩
            · split at h
              · cases h
              · obtain ⟨more, hmore, rfl⟩ := exists_of_map_eq_ok h
                have hbegun : Held [t] [t] false :=
                  (show Held [] [] false from .gap gap_nil).kept hkept
                exact ⟨more, rfl, ih hbegun hmore⟩
          obtain ⟨more, rfl, hcuts⟩ := hnext
          have := hheld.complete gap_nil hcuts (Or.inl hbroken)
          simpa using this
        · simp only [hends, if_false, Bool.false_eq_true] at h
          rw [hassoc]
          split at h
          · next hsemicolon =>
            obtain ⟨more, hmore, rfl⟩ := exists_of_map_eq_ok h
            have hgap := gap_singleton (Token.separates_of_isSymbol hsemicolon.1)
            have hcuts : Cuts ([] ++ ts) more := ih (.gap gap_nil) hmore
            exact hheld.complete hgap hcuts (Or.inr (Or.inl (by simp)))
          · split at h
            · cases h
            · obtain ⟨more, hmore, rfl⟩ := exists_of_map_eq_ok h
              exact ih (hheld.kept hkept) hmore

/-- The tokens of a submission are the stretches of its statements with gaps around them. -/
theorem cuts_of_splitStatements {ts : List Token} {groups : List (List Token)}
    (h : splitStatements ts = .ok groups) : Cuts ts groups := by
  have hheld : Held [] Cutting.initial.current Cutting.initial.lineBroken := .gap gap_nil
  exact cuts_of_cut hheld h

/-- So the tokens are parted into gaps and stretches. -/
theorem exists_parted_of_splitStatements {ts : List Token} {groups : List (List Token)}
    (h : splitStatements ts = .ok groups) : ∃ gaps, Parted ts gaps groups := by
  obtain ⟨gap, rest, rfl, hgap, hrest⟩ := (cuts_of_splitStatements h).exists_append
  exact hrest.exists_parted hgap

end Submission

end ReplCore
