import ReplCore.Proofs.Code.Lexemes
import ReplCore.Proofs.Pattern.Ends
import ReplCore.Proofs.Terminal.Row
import ReplCore.Terminal.Escape

/-!
# The pieces of styled text

Text that neither starts nor ends sequences is cut into its characters, and the sequence of a style
is one piece, whatever follows it.

* `pieces_flatMap`: cutting the text of characters and sequences of styles gives these back.
-/

namespace ReplCore.Escape

open Cursor Pattern

/-! ## Cutting off one piece -/

theorem piecesFrom_bound : ∀ {b b' t : Text}, t.length ≤ b.length → t.length ≤ b'.length →
    piecesFrom b t = piecesFrom b' t
  | _, _, [], _, _ => by simp [piecesFrom]
  | [], _, c :: rest, h, _ | _, [], c :: rest, _, h => by simp at h
  | x :: b, y :: b', c :: rest, h, h' => by
    simp only [List.length_cons] at h h'
    unfold piecesFrom
    cases hs : leading? (c :: rest) with
    | none => exact congrArg _ (piecesFrom_bound (by omega) (by omega))
    | some found =>
      have hlt := (leading?_eq_some hs).2
      simp only [List.length_cons] at hlt
      exact congrArg _ (piecesFrom_bound (by omega) (by omega))

theorem pieces_of_leading? {t s after : Text} (h : leading? t = some (s, after)) :
    pieces t = .sequence s :: pieces after := by
  have hlt := (leading?_eq_some h).2
  cases t with
  | nil => simp at hlt
  | cons c rest =>
    simp only [List.length_cons] at hlt
    rw [pieces, piecesFrom, h]
    exact congrArg _ (piecesFrom_bound (by omega) (Nat.le_refl _))

theorem pieces_of_leading?_none {c : Char} {rest : Text} (h : leading? (c :: rest) = none) :
    pieces (c :: rest) = .char c :: pieces rest := by
  rw [pieces, piecesFrom, h]
  exact congrArg _ (piecesFrom_bound (Nat.le_refl _) (Nat.le_refl _))

/-- Whether sequences start with a character or it is the bell, which ends commands. -/
def isMarker (c : Char) : Bool := c = '\x1b' || c = '\x9b' || c = '\x07'

theorem ne_of_isMarker {c d : Char} (hc : isMarker c = false) (hd : isMarker d = true) :
    c ≠ d := by
  rintro rfl
  rw [hc] at hd
  cases hd

theorem isMarker_of_isControl {c : Char} (hc : Terminal.isControl c = false) :
    isMarker c = false := by
  have hescape : c ≠ '\x1b' := Terminal.ne_of_isControl hc rfl
  have hcontrol : c ≠ '\x9b' := Terminal.ne_of_isControl hc rfl
  have hbell : c ≠ '\x07' := Terminal.ne_of_isControl hc rfl
  simp [isMarker, hescape, hcontrol, hbell]

/-- A character that no sequence starts with is a piece of its own. -/
theorem leading?_eq_none {c : Char} {rest : Text} (hc : isMarker c = false) :
    leading? (c :: rest) = none := by
  have hescape : c ≠ '\x1b' := ne_of_isMarker hc rfl
  have hcontrol : c ≠ '\x9b' := ne_of_isMarker hc rfl
  rw [leading?, Option.map_eq_none_iff]
  refine first?_seq_of_none (first?_one_of_not ?_)
  simp [isAt, start, hescape, hcontrol]

/-! ## The sequences of styles -/

/-- A sequence that sets numbers of at most four digits. -/
def IsStyling (s : Text) : Prop := ∃ ns, ns ≠ [] ∧ (∀ n ∈ ns, n < 10000) ∧ s = Style.sequence ns

theorem IsStyling.selects {s : Text} (h : IsStyling s) : ∃ ns, Terminal.Selects s ns := by
  obtain ⟨ns, hne, -, rfl⟩ := h
  exact ⟨ns, Terminal.selects_sequence hne⟩

theorem isDigit_of_isDigit {c : Char} (h : c.isDigit = true) : CharClass.isDigit c = true := by
  have hmem : c.toNat ∈ CodeRanges.members [(0x30, 0x39)] := by
    apply CodeRanges.mem_members_of_covers
    simp only [Char.isDigit, ge_iff_le, Bool.and_eq_true, decide_eq_true_eq,
      UInt32.le_iff_toNat_le] at h
    change 48 ≤ c.toNat ∧ c.toNat ≤ 57 at h
    simp only [CodeRanges.covers]
    grind
  have hall : (CodeRanges.members [(0x30, 0x39)]).all (fun n =>
      CharClass.isDigit (Char.ofNat n)) = true := by
    decide +kernel
  have := List.all_eq_true.mp hall c.toNat hmem
  simpa using this

theorem isDigit_of_mem_ofNat {n : Nat} {c : Char} (h : c ∈ Text.ofNat n) : c.isDigit = true :=
  Nat.isDigit_of_mem_toDigits (by decide) (by decide) h

/-- A number of at most four digits is read to its end. -/
theorem digits_ofNat {n : Nat} (hn : n < 10000) : (Text.ofNat n).length ≤ 4 ∧
    ∀ c ∈ Text.ofNat n, c.isDigit = true ∧ CharClass.isDigit c = true := by
  refine ⟨(Nat.length_toDigits_le_iff (by decide) (by decide)).mpr hn, fun c hc => ?_⟩
  have := isDigit_of_mem_ofNat hc
  exact ⟨this, isDigit_of_isDigit this⟩

/-- The numbers after the first one, each after a semicolon. -/
theorem first?_numbers {rest : Text} : ∀ {ns : List Nat} {c d : Cursor}, (∀ n ∈ ns, n < 10000) →
    Spans c (ns.flatMap fun n => ';' :: Text.ofNat n) d → d.rest = 'm' :: rest →
      (many (seq (lit ";") (atMost 4 digit))).first? c = some d ∧ c.isAt CharClass.isDigit = false
  | [], c, d, _, hspans, hd => by
    rw [hspans.unique (.refl c)] at hd ⊢
    have hat : ∀ p, c.isAt p = p 'm' := (Spans.cons hd).isAt_eq
    exact ⟨first?_many_of_none rfl (first?_seq_of_none (first?_one_of_not (hat _))), hat _⟩
  | n :: ns, c, d, hns, hspans, hd => by
    rw [List.flatMap_cons] at hspans
    obtain ⟨e, hnumber, hmore⟩ := hspans.of_append
    obtain ⟨f, hsemicolon, hdigits⟩ := Spans.of_append (t := [';']) hnumber
    obtain ⟨hfirst, hat⟩ := first?_numbers (fun m hm => hns m (List.mem_cons_of_mem n hm)) hmore hd
    obtain ⟨hlen, hall⟩ := digits_ofNat (hns n List.mem_cons_self)
    have hbody : (seq (lit ";") (atMost 4 digit)).first? c = some e :=
      first?_seq_of_some (first?_one rfl hsemicolon)
        (first?_atMost_one hlen (fun x hx => (hall x hx).2) hdigits hat)
    refine ⟨(first?_many_of_some rfl hbody).trans hfirst, ?_⟩
    rw [hsemicolon.isAt_eq]
    decide

theorem takeWhile_ne_append_cons {x : Char} {t : Text} (ht : x ∉ t) (u : Text) :
    (t ++ x :: u).takeWhile (· ≠ x) = t := by
  rw [List.takeWhile_append_of_pos (by simpa using fun c hc => ne_of_mem_of_not_mem hc ht)]
  simp

theorem join_eq (sep : Char) (n : Text) : ∀ ns : List Text,
    Text.join [sep] (n :: ns) = n ++ ns.flatMap fun m => sep :: m
  | [] => by simp [Text.join]
  | m :: ns => by
    have ih := join_eq sep m ns
    rw [Text.join, ih]
    · simp
    · simp

/-- The control function of a styling sequence ends with it. -/
theorem first?_control {n : Nat} {ns : List Nat} (hns : ∀ m ∈ n :: ns, m < 10000) {rest : Text}
    {c d e : Cursor} (hspans : Spans c (Text.join [';'] ((n :: ns).map Text.ofNat)) d)
    (hm : Spans d ['m'] e) (he : e.rest = rest) : control.first? c = some e := by
  have hd : d.rest = 'm' :: rest := by rw [← he, hm.rest_eq]; rfl
  rw [List.map_cons, join_eq, List.flatMap_map] at hspans
  obtain ⟨f, hfirst, hmore⟩ := hspans.of_append
  obtain ⟨hnumbers, hat⟩ := first?_numbers (fun m hm => hns m (List.mem_cons_of_mem n hm)) hmore hd
  obtain ⟨hlen, hall⟩ := digits_ofNat (hns n List.mem_cons_self)
  obtain ⟨x, t, ht⟩ := List.exists_cons_of_ne_nil (show Text.ofNat n ≠ [] from Nat.toDigits_ne_nil)
  rw [ht] at hfirst hlen hall
  obtain ⟨g, hx, hdigits⟩ := Spans.of_append (t := [x]) hfirst
  refine first?_seq_of_some (first?_or_left ?_) (first?_one (by decide) hm)
  refine first?_seq_of_some (first?_one (hall x List.mem_cons_self).2 hx) ?_
  refine first?_seq_of_some ?_ hnumbers
  refine first?_atMost_one (Nat.le_of_succ_le_succ hlen) ?_ hdigits hat
  exact fun y hy => (hall y (List.mem_cons_of_mem x hy)).2

/-- A command ends with a bell. -/
theorem bell_of_mem_command {c d : Cursor} (h : d ∈ command.ends c) : '\x07' ∈ c.rest := by
  obtain ⟨e, he, hbell⟩ := mem_ends_seq.mp h
  obtain ⟨t, ht⟩ := spans_of_mem_ends _ _ _ he
  rw [ht.rest_eq, (mem_ends_lit.mp hbell).rest_eq]
  exact List.mem_append_right _ List.mem_cons_self

/-- A styling sequence is an escape character, a bracket, digits, semicolons and a letter. -/
theorem not_mem_sequence {c : Char} (hdigit : c.isDigit = false)
    (hmark : c ∉ "\x1b[;m".toList) (ns : List Nat) : c ∉ Style.sequence ns := by
  have hnumber : ∀ n, c ∉ Text.ofNat n := by
    intro n h
    rw [isDigit_of_mem_ofNat h] at hdigit
    cases hdigit
  have hsemicolon : c ≠ ';' := by
    rintro rfl
    exact hmark (by decide)
  have hnumbers : c ∉ Text.join [';'] (ns.map Text.ofNat) := by
    cases ns with
    | nil => simp [Text.join]
    | cons n ns =>
      rw [List.map_cons, join_eq, List.flatMap_map]
      intro h
      rcases List.mem_append.mp h with h | h
      · exact hnumber n h
      · obtain ⟨m, -, h⟩ := List.mem_flatMap.mp h
        rcases List.mem_cons.mp h with h | h
        · exact hsemicolon h
        · exact hnumber m h
  intro h
  rcases List.mem_append.mp h with h | h
  · rcases List.mem_append.mp h with h | h
    · exact hmark (List.mem_append_left ";m".toList h)
    · exact hnumbers h
  · exact hmark (List.mem_append_right "\x1b[;".toList h)

/-- No bell is rung by a styling sequence. -/
theorem bell_not_mem_sequence (ns : List Nat) : '\x07' ∉ Style.sequence ns :=
  not_mem_sequence (by decide) (by decide) ns

/-- A styling sequence is cut off whole, unless a bell follows. -/
theorem leading?_sequence {ns : List Nat} (hne : ns ≠ []) (hns : ∀ n ∈ ns, n < 10000) {rest : Text}
    (hbell : '\x07' ∉ rest) :
    leading? (Style.sequence ns ++ rest) = some (Style.sequence ns, rest) := by
  obtain ⟨n, ns, rfl⟩ := List.exists_cons_of_ne_nil hne
  obtain ⟨e, hspans, he⟩ : ∃ e, Spans (.start (Style.sequence (n :: ns) ++ rest))
      (Style.sequence (n :: ns)) e ∧ e.rest = rest := ⟨⟨_, rest⟩, ⟨rfl, rfl⟩, rfl⟩
  have hsplit : Style.sequence (n :: ns) =
      ['\x1b'] ++ (['['] ++ (Text.join [';'] ((n :: ns).map Text.ofNat) ++ ['m'])) := by
    simp [Style.sequence]
  have hparts := hspans
  rw [hsplit] at hparts
  obtain ⟨a, hescape, hparts⟩ := hparts.of_append
  obtain ⟨b, hopening, hparts⟩ := hparts.of_append
  obtain ⟨d, hnumbers, hm⟩ := hparts.of_append
  have hcommand : command.first? b = none := by
    refine List.head?_eq_none_iff.mpr (List.eq_nil_iff_forall_not_mem.mpr fun x hx => ?_)
    have hmem : '\x07' ∈ Style.sequence (n :: ns) ++ rest := by
      rw [show Style.sequence (n :: ns) ++ rest = _ from (hescape.trans hopening).rest_eq]
      exact List.mem_append_right _ (bell_of_mem_command hx)
    rcases List.mem_append.mp hmem with hmem | hmem
    · exact bell_not_mem_sequence (n :: ns) hmem
    · exact hbell hmem
  have hstop : b.isAt (fun x => "[]()#;?".toList.contains x) = false := by
    obtain ⟨x, t, ht⟩ :=
      List.exists_cons_of_ne_nil (show Text.ofNat n ≠ [] from Nat.toDigits_ne_nil)
    have hx : x.isDigit = true := isDigit_of_mem_ofNat (n := n) (by simp [ht])
    have hall : ("[]()#;?".toList.all fun y => !y.isDigit) = true := by decide
    rw [List.map_cons, join_eq, ht, List.cons_append] at hnumbers
    rw [hnumbers.isAt_eq, Bool.eq_false_iff, Ne, List.contains_iff_mem]
    intro hmem
    have := List.all_eq_true.mp hall x hmem
    simp [hx] at this
  have hfirst : sequence.first? (.start (Style.sequence (n :: ns) ++ rest)) = some e := by
    refine first?_seq_of_some (first?_one rfl hescape) ?_
    refine first?_seq_of_some (first?_many_one (t := ['[']) ?_ hopening hstop) ?_
    · simp
    · exact (first?_or_right hcommand).trans (first?_control hns hnumbers hm he)
  rw [leading?, hfirst, Option.map_some, hspans.upTo_eq, he]

/-! ## Cutting all -/

/-- A character that is no control, or the sequence of a style. -/
def Piece.IsStyled : Piece → Prop
  | char c => Terminal.isControl c = false
  | sequence s => IsStyling s

/-- A piece that stays one, whatever comes after it that is such a piece too: a character that
neither starts nor ends sequences, or the sequence of a style. -/
def Piece.IsWhole : Piece → Prop
  | char c => isMarker c = false
  | sequence s => IsStyling s

theorem Piece.IsStyled.isWhole {p : Piece} (h : p.IsStyled) : p.IsWhole := by
  cases p with
  | char c => exact isMarker_of_isControl h
  | sequence s => exact h

theorem bell_not_mem_of_isWhole {p : Piece} (h : p.IsWhole) : '\x07' ∉ p.text := by
  cases p with
  | char c =>
    have := ne_of_isMarker h (d := '\x07') rfl
    simpa [Piece.text] using this.symm
  | sequence s =>
    obtain ⟨ns, -, -, rfl⟩ := h
    exact bell_not_mem_sequence ns

/-- Cutting the text of whole pieces gives these back. -/
theorem pieces_flatMap {ps : List Piece} (h : ∀ p ∈ ps, p.IsWhole) :
    pieces (ps.flatMap Piece.text) = ps := by
  induction ps with
  | nil => rfl
  | cons p ps ih =>
    have hps : ∀ p ∈ ps, p.IsWhole := fun q hq => h q (List.mem_cons_of_mem p hq)
    have hbell : '\x07' ∉ ps.flatMap Piece.text := by
      intro hmem
      obtain ⟨q, hq, hmem⟩ := List.mem_flatMap.mp hmem
      exact bell_not_mem_of_isWhole (hps q hq) hmem
    have hp := h p List.mem_cons_self
    rw [List.flatMap_cons]
    cases p with
    | char c =>
      exact (pieces_of_leading?_none (leading?_eq_none hp)).trans (congrArg _ (ih hps))
    | sequence s =>
      obtain ⟨ns, hne, hns, rfl⟩ := hp
      exact (pieces_of_leading? (leading?_sequence hne hns hbell)).trans (congrArg _ (ih hps))

end ReplCore.Escape
