import ReplCore.Code.Token

/-!
# The lexer loses nothing

Every step of the lexer reads a piece of text that is not empty and cuts it into lexemes, none of
which is empty either. So the lexemes of a source make it up.

* `flatMap_text_lex`: the lexemes, one after the other, are the source.
* `text_ne_nil_of_mem_lex`: no lexeme is empty.
* `flatMap_text_tokenize`: the tokens, one after the other, are the source.
-/

namespace ReplCore

/-- The lexemes are what stands between two places, and none of them is empty. -/
structure Lexeme.Tiles (lexemes : List Lexeme) (c d : Cursor) : Prop where
  text_append : lexemes.flatMap Lexeme.text ++ d.rest = c.rest
  text_ne_nil : ∀ l ∈ lexemes, l.text ≠ []

namespace LexRule

open Lexeme

theorem tiles_of_matchParts : ∀ {parts : List (TokenType × Pattern)} {c e : Cursor}
    {lexemes : List Lexeme}, matchParts parts c = some (lexemes, e) → Tiles lexemes c e
  | [], c, e, lexemes, h => by
    obtain ⟨rfl, rfl⟩ := Prod.mk.inj (Option.some.inj h)
    exact ⟨rfl, by simp⟩
  | (type, p) :: parts, c, e, lexemes, h => by
    obtain ⟨d, hd, hmap⟩ := List.exists_of_findSome?_eq_some h
    obtain ⟨⟨ls, e'⟩, hls, hle⟩ := Option.map_eq_some_iff.mp hmap
    obtain ⟨rfl, rfl⟩ := Prod.mk.inj hle
    have ih := tiles_of_matchParts hls
    have htext := (Pattern.passes_of_mem_ends p c d hd).upTo_append
    by_cases hempty : c.upTo d = []
    · rw [hempty, List.nil_append] at htext
      simp only [if_pos hempty]
      exact ⟨ih.text_append.trans htext, ih.text_ne_nil⟩
    · simp only [if_neg hempty]
      refine ⟨?_, ?_⟩
      · rw [List.flatMap_cons, List.append_assoc, ih.text_append, htext]
      · intro l hl
        rcases List.mem_cons.mp hl with rfl | hl
        · exact hempty
        · exact ih.text_ne_nil l hl

theorem length_le_of_matchParts {parts : List (TokenType × Pattern)} {c e : Cursor}
    {lexemes : List Lexeme} (h : matchParts parts c = some (lexemes, e)) :
    e.rest.length ≤ c.rest.length := by
  rw [← (tiles_of_matchParts h).text_append, List.length_append]
  omega

theorem length_lt_of_matchParts : ∀ {parts : List (TokenType × Pattern)} {c e : Cursor}
    {lexemes : List Lexeme}, (parts.any fun p => p.2.consumes) = true →
      matchParts parts c = some (lexemes, e) → e.rest.length < c.rest.length
  | [], _, _, _, hp, _ => by simp at hp
  | (type, p) :: parts, c, e, lexemes, hp, h => by
    obtain ⟨d, hd, hmap⟩ := List.exists_of_findSome?_eq_some h
    obtain ⟨⟨ls, e'⟩, hls, hle⟩ := Option.map_eq_some_iff.mp hmap
    obtain ⟨-, rfl⟩ := Prod.mk.inj hle
    rw [List.any_cons, Bool.or_eq_true] at hp
    rcases hp with hp | hp
    · exact Nat.lt_of_le_of_lt (length_le_of_matchParts hls)
        (Pattern.length_lt_of_consumes p hp c d hd)
    · exact Nat.lt_of_lt_of_le (length_lt_of_matchParts hp hls)
        (Pattern.passes_of_mem_ends p c d hd).length_le

end LexRule

namespace Lexer

open Lexeme

/-- The reading moves on from a place, over its lexemes. -/
structure Reading.From (r : Reading) (c : Cursor) : Prop where
  tiles : Tiles r.lexemes c r.next
  length_lt : r.next.rest.length < c.rest.length

theorem from_of_byRules {rules : List LexRule} (hrules : rules.all LexRule.consumes = true)
    {s : LexState} {c : Cursor} {r : Reading} (h : byRules rules s c = some r) : r.From c := by
  obtain ⟨rule, hmem, hmap⟩ := List.exists_of_findSome?_eq_some h
  obtain ⟨⟨ls, d⟩, hls, rfl⟩ := Option.map_eq_some_iff.mp hmap
  have hconsumes := List.all_eq_true.mp hrules rule hmem
  exact ⟨LexRule.tiles_of_matchParts hls, LexRule.length_lt_of_matchParts hconsumes hls⟩

theorem from_of_single {type : TokenType} {s : LexState} {c : Cursor} {r : Reading}
    (h : single type s c = some r) : r.From c := by
  obtain ⟨x, hx, rfl⟩ := Option.map_eq_some_iff.mp h
  cases hc : c.rest with
  | nil => rw [hc] at hx; cases hx
  | cons y ys =>
    rw [hc] at hx
    cases hx
    have hnext : (c.advance 1).rest = ys := by simp [Cursor.advance, hc]
    refine ⟨⟨?_, by simp⟩, ?_⟩
    · simp [hnext, hc]
    · rw [hnext, hc]
      exact Nat.lt_succ_self _

theorem from_of_or {a b : Option Reading} {c : Cursor} (ha : ∀ r, a = some r → r.From c)
    (hb : ∀ r, b = some r → r.From c) {r : Reading} (h : a.or b = some r) : r.From c := by
  rcases Option.or_eq_some_iff.mp h with h | ⟨-, h⟩
  · exact ha r h
  · exact hb r h

theorem consumes_rulesIn (enclosing : List Enclosure) :
    (rulesIn enclosing).all LexRule.consumes = true := by
  unfold rulesIn
  split
  · exact Grammar.consumes_template
  · rw [List.all_cons, Grammar.consumes_code]
    decide
  · exact Grammar.consumes_code

theorem from_of_orError {rules : List LexRule} (hrules : rules.all LexRule.consumes = true)
    {s : LexState} {c : Cursor} {r : Reading} (h : orError rules s c = some r) : r.From c :=
  from_of_or (fun _ => from_of_byRules hrules) (fun _ => from_of_single) h

theorem from_of_expectingOperand {s : LexState} {c : Cursor} {r : Reading}
    (h : expectingOperand s c = some r) : r.From c := by
  refine from_of_or (fun _ => from_of_byRules Grammar.consumes_operand) (fun r hr => ?_) h
  split at hr
  · exact from_of_single hr
  · exact from_of_orError (consumes_rulesIn _) hr

theorem from_of_step {s : LexState} {c : Cursor} {r : Reading} (h : step s c = some r) :
    r.From c := by
  unfold step at h
  split at h
  · unfold afterBadSlash at h
    split at h <;> exact from_of_single h
  · exact from_of_expectingOperand h
  · split at h
    · exact from_of_expectingOperand h
    · exact from_of_orError (consumes_rulesIn _) h

theorem single_ne_none {type : TokenType} {s : LexState} {c : Cursor} (hc : c.rest ≠ []) :
    single type s c ≠ none := by
  cases h : c.rest with
  | nil => exact absurd h hc
  | cons x xs => simp [single, h]

theorem orError_ne_none {rules : List LexRule} {s : LexState} {c : Cursor} (hc : c.rest ≠ []) :
    orError rules s c ≠ none := fun h => single_ne_none hc (Option.or_eq_none_iff.mp h).2

theorem expectingOperand_ne_none {s : LexState} {c : Cursor} (hc : c.rest ≠ []) :
    expectingOperand s c ≠ none := by
  intro h
  have h := (Option.or_eq_none_iff.mp h).2
  split at h
  · exact single_ne_none hc h
  · exact orError_ne_none hc h

/-- The lexer takes a step wherever there is text left. -/
theorem step_ne_none {s : LexState} {c : Cursor} (hc : c.rest ≠ []) : step s c ≠ none := by
  unfold step
  split
  · unfold afterBadSlash
    split <;> exact single_ne_none hc
  · exact expectingOperand_ne_none hc
  · split
    · exact expectingOperand_ne_none hc
    · exact orError_ne_none hc

theorem flatMap_text_run : ∀ (bound : Text) (s : LexState) (c : Cursor),
    c.rest.length ≤ bound.length → (run bound s c).flatMap Lexeme.text = c.rest
  | [], s, c, h => (List.eq_nil_of_length_eq_zero (Nat.le_zero.mp h)).symm
  | x :: bound, s, c, h => by
    unfold run
    split
    · next hnone =>
      by_cases hc : c.rest = []
      · exact hc.symm
      · exact absurd hnone (step_ne_none hc)
    · next r hr =>
      have hfrom := from_of_step hr
      have hlt := hfrom.length_lt
      rw [List.flatMap_append, flatMap_text_run bound r.state r.next]
      · exact hfrom.tiles.text_append
      · rw [List.length_cons] at h
        omega

theorem text_ne_nil_of_mem_run : ∀ (bound : Text) (s : LexState) (c : Cursor),
    ∀ l ∈ run bound s c, l.text ≠ []
  | [], _, _, l, h => by cases h
  | _ :: bound, s, c, l, h => by
    unfold run at h
    split at h
    · cases h
    · next r hr =>
      rcases List.mem_append.mp h with h | h
      · exact (from_of_step hr).tiles.text_ne_nil l h
      · exact text_ne_nil_of_mem_run bound r.state r.next l h

/-- The lexemes, one after the other, are the source. -/
theorem flatMap_text_lex (source : Text) : (lex source).flatMap Lexeme.text = source :=
  flatMap_text_run source .initial (.start source) (Nat.le_refl _)

/-- No lexeme is empty. -/
theorem text_ne_nil_of_mem_lex (source : Text) : ∀ l ∈ lex source, l.text ≠ [] :=
  text_ne_nil_of_mem_run source .initial (.start source)

end Lexer

namespace Token

theorem flatMap_text_place (offset : Nat) (ls : List Lexeme) :
    (place offset ls).flatMap Token.text = ls.flatMap Lexeme.text := by
  induction ls generalizing offset with
  | nil => rfl
  | cons l rest ih => rw [place, List.flatMap_cons, List.flatMap_cons, ih]

/-- The tokens, one after the other, are the source. -/
theorem flatMap_text_tokenize (source : Text) :
    (tokenize source).flatMap Token.text = source := by
  rw [tokenize, flatMap_text_place, Lexer.flatMap_text_lex]

end Token

end ReplCore
