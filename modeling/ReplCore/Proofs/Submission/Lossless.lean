import Mathlib.Data.List.Forall2
import ReplCore.Generated.Statement
import ReplCore.Proofs.Code.Placing
import ReplCore.Proofs.Code.Tokens
import ReplCore.Proofs.Submission.Reading

/-!
# Reading and printing lose nothing

The statements of a submission stand in its source one after the other, each with the text of its
place, and between them there is nothing but white space, comments and semicolons. So printing other
statements in their place keeps all of that, and printing the statements themselves gives the source
back.

* `lossless_of_read`: what was read is lossless.
-/

namespace ReplCore

/-! ## Separators -/

/-- A text of white space, comments and semicolons. -/
def IsSeparator (t : Text) : Prop :=
  ∃ pieces : List Text, t = pieces.flatten ∧ ∀ piece ∈ pieces,
    (∀ x ∈ piece, CharClass.isBlank x = true) ∨ piece = ";".toList ∨ IsComment piece

/-- A separator at the start of a source, where it may begin with a hashbang. -/
def IsOpening (t : Text) : Prop :=
  ∃ hashbang rest, t = hashbang ++ rest ∧ (hashbang = [] ∨ IsHashbang hashbang) ∧ IsSeparator rest

theorem IsSeparator.isOpening {t : Text} (h : IsSeparator t) : IsOpening t :=
  ⟨[], t, rfl, .inl rfl, h⟩

theorem TokenRead.piece_of_isIgnored {c d : Cursor} {t : Token} (h : TokenRead c t d)
    (ht : t.isIgnored = true) :
    (∀ x ∈ t.text, CharClass.isBlank x = true) ∨ IsCommentAt c t.text := by
  simp only [Token.isIgnored, Bool.or_eq_true, decide_eq_true_eq] at ht
  rcases ht with (hkind | hkind) | hkind
  · exact .inl (h.of_kind hkind)
  · exact .inl (h.of_kind hkind)
  · exact .inr (h.of_kind hkind).1

theorem TokenRead.piece_of_separates {c d : Cursor} {t : Token} (h : TokenRead c t d)
    (ht : t.separates = true) : (∀ x ∈ t.text, CharClass.isBlank x = true) ∨
      t.text = ";".toList ∨ IsCommentAt c t.text := by
  simp only [Token.separates, Token.isSymbol, Bool.or_eq_true, decide_eq_true_eq] at ht
  rcases ht with hignored | hkind
  · exact (h.piece_of_isIgnored hignored).imp_right .inr
  · exact .inr (.inl (h.of_kind hkind))

namespace Submission

/-- The tokens of a gap make up a separator, if the source does not start with them. -/
theorem Gap.isSeparator {s : Text} {gap : List Token} (h : Gap gap)
    (hmem : ∀ t ∈ gap, t ∈ (Token.tokenize s).tail) :
    IsSeparator (gap.flatMap Token.text) := by
  refine ⟨gap.map Token.text, by rw [List.flatMap_def], ?_⟩
  intro piece hpiece
  obtain ⟨t, ht, rfl⟩ := List.mem_map.mp hpiece
  obtain ⟨c, d, hread, hbefore⟩ := exists_tokenRead_of_mem_tail (hmem t ht)
  exact (hread.piece_of_separates (h t ht)).imp_right (.imp_right (·.isComment hbefore))

/-- So they do at the start of the source, but for a hashbang. -/
theorem Gap.isOpening {source : Text} {gap rest : List Token} (h : Gap gap)
    (htokens : Token.tokenize source = gap ++ rest) : IsOpening (gap.flatMap Token.text) := by
  cases gap with
  | nil => exact IsSeparator.isOpening ⟨[], rfl, by simp⟩
  | cons t gap =>
    have hmore : Gap gap := fun u hu => h u (List.mem_cons_of_mem t hu)
    obtain ⟨pieces, hpieces, hall⟩ := hmore.isSeparator (s := source)
      (by simp +contextual [htokens])
    obtain ⟨e, hchain⟩ := chain_tokenize source
    rw [htokens, List.cons_append] at hchain
    obtain ⟨d, hread, -⟩ := hchain.of_cons
    have hpiece := hread.piece_of_separates (h t List.mem_cons_self)
    rw [List.flatMap_cons, hpieces]
    by_cases hhashbang : IsHashbang t.text
    · exact ⟨t.text, pieces.flatten, rfl, .inr hhashbang, pieces, rfl, hall⟩
    · have hpiece := hpiece.imp_right
        (Or.imp_right fun hcomment => hcomment.resolve_right fun h => hhashbang h.2)
      exact IsSeparator.isOpening ⟨t.text :: pieces, rfl, by simpa using ⟨hpiece, hall⟩⟩

/-! ## Statements in their places -/

/-- Statements stand in a source one after the other, from a place on, each with the text of its
place and with gaps around it. -/
inductive Laid (source : Text) : Nat → List (List Token) → List Statement → Prop
  | nil {position : Nat} {gap : List Token} (inside : position ≤ source.length)
      (separator : source.drop position = gap.flatMap Token.text) : Laid source position [gap] []
  | cons {position : Nat} {gap : List Token} {s : Statement} {gaps : List (List Token)}
      {rest : List Statement} (after : position ≤ s.span.start)
      (nonempty : s.span.start < s.span.stop)
      (text_eq : s.text = Text.slice source s.span.start s.span.stop)
      (separator : Text.slice source position s.span.start = gap.flatMap Token.text)
      (more : Laid source s.span.stop gaps rest) : Laid source position (gap :: gaps) (s :: rest)

theorem laid_of_parted {source : Text} {ts : List Token} {gaps groups : List (List Token)}
    (h : Parted ts gaps groups) : ∀ {position : Nat} {statements : List Statement},
      Token.Standing source position ts → position ≤ source.length →
      List.Forall₂ (Covers source) groups statements → Laid source position gaps statements := by
  induction h with
  | last isGap =>
    intro position statements hstanding hinside hcovers
    cases hcovers
    exact .nil hinside hstanding.text_eq.symm
  | @cons gap raw ts gaps group groups isGap stretch more ih =>
    intro position statements hstanding hinside hcovers
    obtain _ | @⟨_, s, _, statements, hs, hcovers⟩ := hcovers
    have hraw := hstanding.right
    have hrawContiguous := (Token.contiguous_append.mp hraw.contiguous).1
    have hstart : s.span.start = position + Token.width gap := by
      have := hs.start_eq
      rw [← stretch.head?_eq] at this
      obtain ⟨t, ht, hts⟩ := Option.map_eq_some_iff.mp this
      rw [← hts, hrawContiguous.start_of_head? ht]
    have hstop : s.span.stop = position + Token.width gap + Token.width raw := by
      have := hs.stop_eq
      rw [← stretch.getLast?_eq] at this
      obtain ⟨t, ht, hts⟩ := Option.map_eq_some_iff.mp this
      rw [← hts, hrawContiguous.stop_of_getLast? ht]
    have hpos := hrawContiguous.width_pos stretch.raw_ne_nil
    refine .cons (by omega) (by omega) hs.text_eq ?_ ?_
    · rw [hstart, hstanding.slice_append]
    · rw [hstop]
      exact ih hraw.right (hraw.offset_le (hstanding.offset_le hinside)) hcovers

namespace Laid

variable {source : Text} {position : Nat} {gaps : List (List Token)} {statements : List Statement}

theorem inside (h : Laid source position gaps statements) : position ≤ source.length := by
  induction h with
  | nil inside => exact inside
  | cons after nonempty _ _ _ ih => omega

theorem nonempty (h : Laid source position gaps statements) : ∀ s ∈ statements,
    position ≤ s.span.start ∧ s.span.start < s.span.stop ∧ s.span.stop ≤ source.length := by
  induction h with
  | nil => simp
  | cons after nonempty _ _ more ih =>
    intro s hs
    rcases List.mem_cons.mp hs with rfl | hs
    · exact ⟨after, nonempty, more.inside⟩
    · have := ih s hs
      omega

theorem ordered (h : Laid source position gaps statements) :
    statements.Pairwise fun a b => a.span.stop ≤ b.span.start := by
  induction h with
  | nil => exact .nil
  | cons _ _ _ _ more ih => exact .cons (fun s hs => (more.nonempty s hs).1) ih

/-- The separators are the texts of the gaps. -/
theorem separators_eq (h : Laid source position gaps statements) :
    separatorsFrom source position statements = gaps.map (·.flatMap Token.text) := by
  induction h with
  | nil _ separator => simp [separatorsFrom, separator]
  | cons _ _ _ separator _ ih => simp [separatorsFrom, separator, ih]

/-- The statements with the separators around them are the source. -/
theorem flatten_eq (h : Laid source position gaps statements) :
    (List.zipWith (· ++ ·) (separatorsFrom source position statements)
      (statements.map Statement.text ++ [[]])).flatten = source.drop position := by
  induction h with
  | nil => simp [separatorsFrom]
  | @cons position gap s gaps rest after nonempty text_eq _ more ih =>
    have hstop := more.inside
    simp only [separatorsFrom, List.map_cons, List.cons_append, List.zipWith_cons_cons,
      List.flatten_cons, ih, text_eq, List.append_assoc]
    rw [← List.append_assoc, Text.slice_append_slice source after (Nat.le_of_lt nonempty)]
    have hsplit := List.take_append_drop s.span.stop source
    conv => rhs; rw [← hsplit, List.drop_append_of_le_length (by
      rw [List.length_take]
      omega)]
    rfl

end Laid

/-! ## Printing -/

theorem weave_eq : ∀ (out : List PrintableStatement) (separators : List Text),
    separators.length = out.length →
      weave out separators =
        (List.zipWith (· ++ ·) (out.map PrintableStatement.print) separators).flatten
  | [], [], _ => rfl
  | s :: out, separator :: separators, h => by
    simp only [weave, List.map_cons, List.zipWith_cons_cons, List.flatten_cons]
    rw [weave_eq out separators (by simpa using h)]

/-- Each text after one of the separators, of which there is one more, or before one of them. -/
theorem zipWith_separators : ∀ (separator : Text) (separators texts : List Text),
    separators.length = texts.length →
      (List.zipWith (· ++ ·) (separator :: separators) (texts ++ [[]])).flatten =
        separator ++ (List.zipWith (· ++ ·) texts separators).flatten
  | separator, [], [], _ => by simp
  | separator, next :: separators, t :: texts, h => by
    have ih := zipWith_separators next separators texts (by simpa using h)
    simp only [List.cons_append, List.zipWith_cons_cons, List.flatten_cons, List.append_assoc, ih]

theorem print_eq {s : Submission} {out : List PrintableStatement}
    (h : out.length = s.statements.length) : s.print out = .ok (List.zipWith (· ++ ·) s.separators
      (out.map PrintableStatement.print ++ [[]])).flatten := by
  have hlength := s.length_separators
  obtain ⟨separator, separators, hseparators⟩ :=
    List.exists_cons_of_ne_nil (show s.separators ≠ [] by intro hnil; simp [hnil] at hlength)
  rw [hseparators, List.length_cons] at hlength
  rw [print, if_pos h, hseparators, zipWith_separators _ _ _ (by simp; omega)]
  simp [weave_eq out separators (by omega)]

/-! ## Reading -/

/-- What holds of the elements of two lists holds at each place. -/
theorem rel_of_forall₂ {α β : Type} {R : α → β → Prop} {as : List α} {bs : List β}
    (h : List.Forall₂ R as bs) {i : Nat} {a : α} {b : β} (ha : as[i]? = some a)
    (hb : bs[i]? = some b) : R a b := by
  obtain ⟨hi, rfl⟩ := List.getElem?_eq_some_iff.mp ha
  obtain ⟨hj, rfl⟩ := List.getElem?_eq_some_iff.mp hb
  exact h.get hi hj

/-- No statement is cut from no tokens. -/
theorem Interleaved.ne_nil {ts : List Token} {groups : List (List Token)}
    (h : Interleaved ts groups) : ∀ group ∈ groups, group ≠ [] := by
  induction h with
  | nil => simp
  | cons stretch _ _ _ ih =>
    intro group hgroup
    rcases List.mem_cons.mp hgroup with rfl | hgroup
    · exact stretch.ne_nil
    · exact ih group hgroup

/-- What was read, statement by statement, from which tokens. -/
theorem exists_of_read {source : Text} {s : Submission} (h : read source = .ok s) :
    s.source = source ∧ ∃ groups, splitStatements (Token.tokenize source) = .ok groups ∧
      List.Forall₂ (fun ts st => ts ≠ [] ∧ readStatement source ts = .ok st)
        groups s.statements := by
  obtain ⟨groups, hgroups, hrest⟩ := exists_of_bind_eq_ok h
  obtain ⟨statements, hstatements, hout⟩ := exists_of_bind_eq_ok hrest
  obtain rfl := Except.ok.inj hout
  refine ⟨rfl, groups, hgroups, ?_⟩
  obtain ⟨gap, rest, -, -, hrest⟩ := (cuts_of_splitStatements hgroups).exists_append
  exact (List.forall₂_and_left _ _).mpr ⟨hrest.ne_nil, forall₂_of_mapM hstatements⟩

/-- A submission of the statements that were read from the given groups of tokens. -/
structure Lossless (s : Submission) (groups : List (List Token)) : Prop where
  /-- Every statement reaches from the first of its tokens to the last and has the text between. -/
  covers : List.Forall₂ (Covers s.source) groups s.statements
  nonempty : ∀ st ∈ s.statements,
    st.span.start < st.span.stop ∧ st.span.stop ≤ s.source.length
  ordered : s.statements.Pairwise fun a b => a.span.stop ≤ b.span.start
  length_separators : s.separators.length = s.statements.length + 1
  /-- The tokens that are not in the stretches of the groups are those of the separators. -/
  separators_eq : ∃ gaps, Parted (Token.tokenize s.source) gaps groups ∧
    s.separators = gaps.map (·.flatMap Token.text)
  isOpening : ∀ t ∈ s.separators.head?, IsOpening t
  isSeparator : ∀ t ∈ s.separators.tail, IsSeparator t
  print_eq : ∀ out : List PrintableStatement, out.length = s.statements.length →
    s.print out = .ok (List.zipWith (· ++ ·) s.separators
      (out.map PrintableStatement.print ++ [[]])).flatten
  print_kept : s.print (s.statements.map .kept) = .ok s.source

theorem covers_of_read {source : Text} {statements : List Statement} {groups : List (List Token)}
    (hread : List.Forall₂ (fun ts st => ts ≠ [] ∧ readStatement source ts = .ok st)
      groups statements) : List.Forall₂ (Covers source) groups statements :=
  hread.imp fun _ _ ⟨hne, hst⟩ => covers_of_readStatement hne hst

/-- The statements that were read stand in their source. -/
theorem laid_of_read {source : Text} {statements : List Statement}
    {gaps groups : List (List Token)} (hparted : Parted (Token.tokenize source) gaps groups)
    (hread : List.Forall₂ (fun ts st => ts ≠ [] ∧ readStatement source ts = .ok st)
      groups statements) : Laid source 0 gaps statements :=
  laid_of_parted hparted (Token.standing_tokenize source) (Nat.zero_le _) (covers_of_read hread)

theorem isOpening_of_parted {source : Text} {gaps groups : List (List Token)}
    (h : Parted (Token.tokenize source) gaps groups) :
    ∀ gap ∈ gaps.head?, IsOpening (gap.flatMap Token.text) := by
  generalize htokens : Token.tokenize source = ts at h
  cases h with
  | last isGap =>
    simpa using isGap.isOpening (htokens.trans (List.append_nil _).symm)
  | cons isGap => simpa using isGap.isOpening htokens

theorem isSeparator_of_parted {source : Text} {gaps groups : List (List Token)}
    (h : Parted (Token.tokenize source) gaps groups) :
    ∀ gap ∈ gaps.tail, IsSeparator (gap.flatMap Token.text) := fun gap hgap =>
  (h.isGap_of_mem gap (List.mem_of_mem_tail hgap)).isSeparator (h.mem_tail_of_mem_gap gap hgap)

/-- Reading loses nothing: the statements keep their text, in order and without overlap, what lies
between them is of no account, and printing puts it back. -/
theorem lossless_of_read {source : Text} {s : Submission} (h : read source = .ok s) :
    s.source = source ∧ ∃ groups, splitStatements (Token.tokenize source) = .ok groups ∧
      s.Lossless groups := by
  obtain ⟨rfl, groups, hgroups, hread⟩ := exists_of_read h
  obtain ⟨gaps, hparted⟩ := exists_parted_of_splitStatements hgroups
  have hlaid := laid_of_read hparted hread
  have hseparators : s.separators = gaps.map (·.flatMap Token.text) := hlaid.separators_eq
  refine ⟨rfl, groups, hgroups, covers_of_read hread, fun st hst => (hlaid.nonempty st hst).2,
    hlaid.ordered, s.length_separators, ⟨gaps, hparted, hseparators⟩, ?_, ?_,
    fun out => print_eq, ?_⟩
  · simpa [hseparators] using isOpening_of_parted hparted
  · simpa [hseparators, ← List.map_tail] using isSeparator_of_parted hparted
  · rw [print_eq (by simp), List.map_map]
    exact congrArg Except.ok hlaid.flatten_eq

/-- Two statements with a semicolon and a comment between them. -/
theorem lossless_two_statements : ∃ s, read "a; /* b */ let c".toList = .ok s ∧
    s.statements.length = 2 ∧ ∃ groups, s.Lossless groups := by
  have h : (read "a; /* b */ let c".toList).toOption = some ⟨"a; /* b */ let c".toList,
      [⟨⟨0, 1⟩, "a".toList, .plain⟩,
        ⟨⟨11, 16⟩, "let c".toList, .declaration .letKind " c".toList none⟩]⟩ := by
    decide +kernel
  obtain ⟨-, groups, -, hlossless⟩ := lossless_of_read (eq_ok_of_toOption h)
  exact ⟨_, eq_ok_of_toOption h, rfl, groups, hlossless⟩

end Submission

end ReplCore
