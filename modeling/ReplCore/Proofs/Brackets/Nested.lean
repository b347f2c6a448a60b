import ReplCore.Proofs.Brackets.WellNested
import ReplCore.Proofs.Code.Signs

/-!
# Properly nested texts

Texts of letters, white space, pairs of brackets and template literals with substitutions, nested to
any depth, as syntax trees. The scan of brackets finds every pair of such a text closed.

* `length_spans_render`: as many pairs are found as there are in the tree.
-/

namespace ReplCore

/-- A letter or white space. -/
abbrev PlainChar := { x : Char // Lexer.isPlain x = true }

/-- A pair of brackets. -/
inductive Bracket where
  | round
  | square
  | curly
deriving Repr, DecidableEq

namespace Bracket

/-- The pair that the scan of brackets finds. -/
def kind : Bracket → PairKind
  | round => .round
  | square => .square
  | curly => .curly

def opening (b : Bracket) : Char := b.kind.opening

def closing (b : Bracket) : Char := b.kind.closing

end Bracket

mutual

/-- A properly nested text. -/
inductive Nested where
  | nil
  | plain (x : PlainChar) (rest : Nested)
  | bracket (b : Bracket) (inner rest : Nested)
  | template (contents : NestedTemplate) (rest : Nested)

/-- The contents of a template literal. -/
inductive NestedTemplate where
  | nil
  | plain (x : PlainChar) (rest : NestedTemplate)
  | substitution (inner : Nested) (rest : NestedTemplate)

end

mutual

def Nested.render : Nested → Text
  | .nil => []
  | .plain x rest => x.1 :: rest.render
  | .bracket b inner rest => b.opening :: (inner.render ++ b.closing :: rest.render)
  | .template contents rest => '`' :: (contents.render ++ '`' :: rest.render)

def NestedTemplate.render : NestedTemplate → Text
  | .nil => []
  | .plain x rest => x.1 :: rest.render
  | .substitution inner rest => '$' :: '\x7b' :: (inner.render ++ '\x7d' :: rest.render)

end

mutual

/-- The number of brackets, template literals and substitutions. -/
def Nested.pairs : Nested → Nat
  | .nil => 0
  | .plain _ rest => rest.pairs
  | .bracket _ inner rest => inner.pairs + 1 + rest.pairs
  | .template contents rest => contents.pairs + 1 + rest.pairs

def NestedTemplate.pairs : NestedTemplate → Nat
  | .nil => 0
  | .plain _ rest => rest.pairs
  | .substitution inner rest => inner.pairs + 1 + rest.pairs

end

/-! ## The scan of brackets -/

namespace Brackets

/-- Plain characters stand for themselves wherever text may nest. -/
theorem plain_not_mem_marks (x : PlainChar) {place : Place}
    (hplace : place = .outside ∨ place = .template) : x.1 ∉ place.marks := by
  have hall : (place.marks.all fun y => !Lexer.isPlain y) = true := by
    rcases hplace with rfl | rfl <;> decide +kernel
  intro hmem
  simpa [x.2] using List.all_eq_true.mp hall x.1 hmem

-- By induction on the trees: a pair has one tree inside it and one after it.
mutual

/-- A properly nested text is well nested, with as many pairs as its tree. -/
theorem exists_wellNested_render : ∀ (n : Nested) (offset : Nat) (around : List Nat),
    ∃ ps, WellNested .outside offset around n.render ps ∧ ps.length = n.pairs
  | .nil, _, _ => ⟨[], .nil, rfl⟩
  | .plain x rest, offset, around => by
    obtain ⟨ps, hrest, hlength⟩ := exists_wellNested_render rest (offset + 1) around
    exact ⟨ps, .plain (plain_not_mem_marks x (Or.inl rfl)) hrest, hlength⟩
  | .bracket b inner rest, offset, around => by
    have hkind : b.kind ∈ Place.outside.pairs ∧ b.kind.inside = .outside ∧
        b.kind.opener = [b.opening] := by cases b <;> decide
    obtain ⟨stands, hinside, hopener⟩ := hkind
    obtain ⟨ps, hinner, hps⟩ :=
      exists_wellNested_render inner (offset + b.kind.opener.length) (offset :: around)
    obtain ⟨qs, hrest, hqs⟩ := exists_wellNested_render rest
      (offset + b.kind.opener.length + inner.render.length + 1) around
    have hpair := WellNested.pair stands (hinside.symm ▸ hinner) hrest
    refine ⟨_, by rwa [hopener] at hpair, ?_⟩
    rw [List.length_append, List.length_cons, hps, hqs, Nested.pairs]
    omega
  | .template contents rest, offset, around => by
    obtain ⟨ps, hinner, hps⟩ :=
      exists_wellNested_render_template contents (offset + 1) (offset :: around)
    obtain ⟨qs, hrest, hqs⟩ :=
      exists_wellNested_render rest (offset + 1 + contents.render.length + 1) around
    refine ⟨_, .pair (k := .backtick) (by decide) hinner hrest, ?_⟩
    rw [List.length_append, List.length_cons, hps, hqs, Nested.pairs]
    omega

theorem exists_wellNested_render_template : ∀ (contents : NestedTemplate) (offset : Nat)
    (around : List Nat),
    ∃ ps, WellNested .template offset around contents.render ps ∧ ps.length = contents.pairs
  | .nil, _, _ => ⟨[], .nil, rfl⟩
  | .plain x rest, offset, around => by
    obtain ⟨ps, hrest, hlength⟩ := exists_wellNested_render_template rest (offset + 1) around
    exact ⟨ps, .plain (plain_not_mem_marks x (Or.inr rfl)) hrest, hlength⟩
  | .substitution inner rest, offset, around => by
    obtain ⟨ps, hinner, hps⟩ := exists_wellNested_render inner (offset + 2) (offset :: around)
    obtain ⟨qs, hrest, hqs⟩ :=
      exists_wellNested_render_template rest (offset + 2 + inner.render.length + 1) around
    refine ⟨_, .pair (k := .substitution) (by decide) hinner hrest, ?_⟩
    rw [List.length_append, List.length_cons, hps, hqs, NestedTemplate.pairs]
    omega

end

/-- As many pairs are found as there are in the tree, all of them closed. -/
theorem length_spans_render (mode : Mode) (n : Nested) :
    (spans mode n.render).length = n.pairs := by
  obtain ⟨ps, hnested, hlength⟩ := exists_wellNested_render n 0 []
  rw [spans_of_derivation mode hnested, hlength]

end Brackets

end ReplCore
