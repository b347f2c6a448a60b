import ReplCore.Submission.Reader

/-!
# Imports as they are written

The forms of a static import, with a token for every word and sign. Where JavaScript has an
identifier there may be a name, or a word that the lexer keeps apart from names: any of them where
an export is renamed, and the words `as` and `from` where something is bound.

* `WrittenImport.tokens_injective`: tokens are written in one of these forms at most.
-/

namespace ReplCore

open Submission

namespace Token

/-- A token of the given kind. -/
abbrev OfKind (k : TokenKind) := { t : Token // t.kind = k }

/-- A token of the given symbol. -/
abbrev Sign (s : String) := OfKind (.symbol s.toList)

def isIdentifier (t : Token) : Bool :=
  match t.kind with
  | .name | .keyword _ => true
  | _ => false

/-- Whether something can be bound to the token: `as` and `from` are words of their own only in some
places of an import. -/
def isBindable (t : Token) : Bool :=
  match t.kind with
  | .name | .keyword .asWord | .keyword .fromWord => true
  | _ => false

/-- What is bound in an import. -/
abbrev BoundName := { t : Token // t.isBindable = true }

/-- What a module exports. -/
abbrev ExportedName := { t : Token // t.isIdentifier = true ∨ t.kind = .string }

end Token

open Token

inductive WrittenSpecifier where
  | plain (name : BoundName)
  | renamed (exported : ExportedName) (word : OfKind (.keyword .asWord)) (name : BoundName)

/-- What is written between the braces of named imports. -/
inductive WrittenNames where
  | nothing
  | loneComma (comma : Sign ",")
  | list (first : WrittenSpecifier) (more : List (Sign "," × WrittenSpecifier))
      (trailing : Option (Sign ","))

inductive WrittenBindings where
  | namespaceAs (star : Sign "*") (word : OfKind (.keyword .asWord)) (name : BoundName)
  | named (opening : Sign "\x7b") (names : WrittenNames) (closing : Sign "\x7d")

inductive WrittenClause where
  | default (name : BoundName)
  | bindings (b : WrittenBindings)
  | both (name : BoundName) (comma : Sign ",") (b : WrittenBindings)

/-- An import, with the clause that binds something and the word `from`, if it has them. -/
structure WrittenImport where
  word : OfKind (.keyword .importWord)
  clause : Option (WrittenClause × OfKind (.keyword .fromWord))
  module : OfKind .string

/-! ## Tokens, identifiers and meaning -/

namespace WrittenSpecifier

def tokens : WrittenSpecifier → List Token
  | plain name => [name.1]
  | renamed exported word name => [exported.1, word.1, name.1]

/-- The tokens that stand for identifiers. -/
def names : WrittenSpecifier → List Token
  | plain name => [name.1]
  | renamed exported _ name => if exported.1.kind = .string then [name.1] else [exported.1, name.1]

def specifier : WrittenSpecifier → ImportSpecifier
  | plain name => ⟨name.1.text, name.1.text, spanOf name.1 name.1⟩
  | renamed exported _ name =>
    ⟨if exported.1.kind = .string then exported.1.stringValue else exported.1.text, name.1.text,
      spanOf exported.1 name.1⟩

end WrittenSpecifier

namespace WrittenNames

/-- The tokens of specifiers with a comma before each. -/
def tokensOf (more : List (Sign "," × WrittenSpecifier)) : List Token :=
  more.flatMap fun p => p.1.1 :: p.2.tokens

def tokens : WrittenNames → List Token
  | nothing => []
  | loneComma comma => [comma.1]
  | list first more trailing => first.tokens ++ (tokensOf more ++ trailing.toList.map (·.1))

def names : WrittenNames → List Token
  | nothing | loneComma _ => []
  | list first more _ => first.names ++ more.flatMap fun p => p.2.names

def specifiers : WrittenNames → List ImportSpecifier
  | nothing | loneComma _ => []
  | list first more _ => first.specifier :: more.map fun p => p.2.specifier

end WrittenNames

namespace WrittenBindings

def tokens : WrittenBindings → List Token
  | namespaceAs star word name => [star.1, word.1, name.1]
  | named opening names closing => opening.1 :: (names.tokens ++ [closing.1])

def names : WrittenBindings → List Token
  | namespaceAs _ _ name => [name.1]
  | named _ names _ => names.names

def bindings : WrittenBindings → ImportBindings
  | namespaceAs _ _ name => .namespaceAs name.1.text
  | named _ names _ => .named names.specifiers

/-- Whether there is a comma and nothing else between the braces. -/
def hasLoneComma : WrittenBindings → Bool
  | named _ (.loneComma _) _ => true
  | _ => false

end WrittenBindings

namespace WrittenClause

def tokens : WrittenClause → List Token
  | default name => [name.1]
  | bindings b => b.tokens
  | both name comma b => name.1 :: comma.1 :: b.tokens

def names : WrittenClause → List Token
  | default name => [name.1]
  | bindings b => b.names
  | both name _ b => name.1 :: b.names

def clause : WrittenClause → ImportClause
  | default name => .default name.1.text
  | bindings b => .bindings b.bindings
  | both name _ b => .both name.1.text b.bindings

def hasLoneComma : WrittenClause → Bool
  | default _ => false
  | bindings b | both _ _ b => b.hasLoneComma

end WrittenClause

namespace WrittenImport

def tokens (x : WrittenImport) : List Token :=
  x.word.1 :: ((x.clause.elim [] fun c => c.1.tokens ++ [c.2.1]) ++ [x.module.1])

def names (x : WrittenImport) : List Token := x.clause.elim [] fun c => c.1.names

/-- Every identifier is a name and none is a word that the lexer keeps apart. -/
def UsesNames (x : WrittenImport) : Prop := ∀ t ∈ x.names, t.kind = .name

instance (x : WrittenImport) : Decidable x.UsesNames := inferInstanceAs (Decidable (∀ _ ∈ _, _))

def hasLoneComma (x : WrittenImport) : Bool := x.clause.elim false fun c => c.1.hasLoneComma

/-- The statement that is meant. -/
def statement (source : Text) (x : WrittenImport) : Statement :=
  ⟨spanOf x.word.1 x.module.1, textOf source x.word.1 x.module.1,
    .importing x.module.1.stringValue (x.clause.elim .nothing fun c => c.1.clause)⟩

end WrittenImport

/-! ## One form for the same tokens -/

namespace Token

/-- No sign is an identifier or a string. -/
theorem ne_sign {t : Token} {s : String} (h : t.isIdentifier = true ∨ t.kind = .string)
    (sign : Sign s) : t ≠ sign.1 := by
  rintro rfl
  simp [isIdentifier, sign.2] at h

theorem keyword_ne_sign {k : Keyword} {s : String} (word : OfKind (.keyword k)) (sign : Sign s) :
    word.1 ≠ sign.1 := by
  intro h
  have := congrArg Token.kind h
  rw [word.2, sign.2] at this
  cases this

theorem isIdentifier_of_isBindable {t : Token} (h : t.isBindable = true) :
    t.isIdentifier = true := by
  unfold isBindable at h
  unfold isIdentifier
  split at h <;> simp_all

/-- Tokens that do not go on with `as`. -/
def EndsName (ts : List Token) : Prop := ∀ t ∈ ts.head?, t.kind ≠ .keyword .asWord

theorem endsName_sign {s : String} (sign : Sign s) (ts : List Token) :
    EndsName (sign.1 :: ts) := by
  intro t ht
  rw [← Option.some.inj ht, sign.2]
  simp

end Token

namespace WrittenSpecifier

variable {x y : WrittenSpecifier} {ts us : List Token}

theorem exists_head (x : WrittenSpecifier) :
    ∃ t us, x.tokens = t :: us ∧ (t.isIdentifier = true ∨ t.kind = .string) := by
  cases x with
  | plain name => exact ⟨_, _, rfl, Or.inl (isIdentifier_of_isBindable name.2)⟩
  | renamed exported word name => exact ⟨_, _, rfl, exported.2⟩

theorem cons_ne {s : String} (x : WrittenSpecifier) (sign : Sign s) :
    sign.1 :: ts ≠ x.tokens ++ us := by
  obtain ⟨t, rest, hx, ht⟩ := x.exists_head
  rw [hx]
  intro h
  exact ne_sign ht sign (List.cons.inj h).1.symm

theorem append_inj (hts : EndsName ts) (hus : EndsName us) (h : x.tokens ++ ts = y.tokens ++ us) :
    x = y ∧ ts = us := by
  cases x with
  | plain name =>
    cases y with
    | plain name' =>
      obtain ⟨hname, rfl⟩ := List.cons.inj h
      exact ⟨congrArg plain (Subtype.ext hname), rfl⟩
    | renamed exported word name' =>
      obtain ⟨-, rfl⟩ := List.cons.inj h
      exact absurd word.2 (hts word.1 rfl)
  | renamed exported word name =>
    cases y with
    | plain name' =>
      obtain ⟨-, rfl⟩ := List.cons.inj h
      exact absurd word.2 (hus word.1 rfl)
    | renamed exported' word' name' =>
      simp only [tokens, List.cons_append, List.nil_append, List.cons.injEq] at h
      obtain ⟨hexported, hword, hname, rfl⟩ := h
      rw [Subtype.ext hexported, Subtype.ext hword, Subtype.ext hname]
      exact ⟨rfl, rfl⟩

end WrittenSpecifier

namespace WrittenNames

variable {x y : WrittenNames} {ts us : List Token} {closing closing' : Sign "\x7d"}

/-- What follows the specifiers between two braces. -/
theorem endsName_rest (more : List (Sign "," × WrittenSpecifier)) (trailing : Option (Sign ","))
    (closing : Sign "\x7d") (ts : List Token) :
    EndsName (tokensOf more ++ (trailing.toList.map (·.1) ++ closing.1 :: ts)) := by
  match more, trailing with
  | p :: more, _ => exact endsName_sign p.1 _
  | [], some comma => exact endsName_sign comma _
  | [], none => exact endsName_sign closing ts

theorem tokensOf_cons (p : Sign "," × WrittenSpecifier)
    (more : List (Sign "," × WrittenSpecifier)) :
    tokensOf (p :: more) = p.1.1 :: (p.2.tokens ++ tokensOf more) := by
  simp [tokensOf]

theorem sign_ne {s s' : String} (hs : s ≠ s') (sign : Sign s) (sign' : Sign s') :
    sign.1 ≠ sign'.1 := by
  intro h
  have := congrArg Token.kind h
  rw [sign.2, sign'.2, TokenKind.symbol.injEq] at this
  exact hs (String.toList_injective this)

theorem trailing_inj {trailing trailing' : Option (Sign ",")}
    (h : trailing.toList.map (·.1) ++ closing.1 :: ts =
      trailing'.toList.map (·.1) ++ closing'.1 :: us) :
    trailing = trailing' ∧ closing = closing' ∧ ts = us := by
  match trailing, trailing' with
  | none, none =>
    obtain ⟨hclosing, rfl⟩ := List.cons.inj h
    exact ⟨rfl, Subtype.ext hclosing, rfl⟩
  | none, some comma => exact absurd (List.cons.inj h).1 (sign_ne (by decide) closing comma)
  | some comma, none => exact absurd (List.cons.inj h).1 (sign_ne (by decide) comma closing')
  | some comma, some comma' =>
    obtain ⟨hcomma, h⟩ := List.cons.inj h
    obtain ⟨hclosing, rfl⟩ := List.cons.inj h
    rw [Subtype.ext hcomma, Subtype.ext hclosing]
    exact ⟨rfl, rfl, rfl⟩

/-- A comma after a specifier is followed by another specifier or by the closing brace. -/
theorem rest_ne {more : List (Sign "," × WrittenSpecifier)} {trailing : Option (Sign ",")}
    (p : Sign "," × WrittenSpecifier) :
    trailing.toList.map (·.1) ++ closing.1 :: ts ≠
      tokensOf (p :: more) ++ us := by
  rw [tokensOf_cons, List.cons_append, List.append_assoc]
  intro h
  match trailing with
  | none => exact sign_ne (by decide) closing p.1 (List.cons.inj h).1
  | some comma => exact p.2.cons_ne closing (List.cons.inj h).2

theorem list_inj {trailing trailing' : Option (Sign ",")} :
    ∀ {more more' : List (Sign "," × WrittenSpecifier)},
      tokensOf more ++ (trailing.toList.map (·.1) ++ closing.1 :: ts) =
        tokensOf more' ++ (trailing'.toList.map (·.1) ++ closing'.1 :: us) →
      more = more' ∧ trailing = trailing' ∧ closing = closing' ∧ ts = us
  | [], [], h => ⟨rfl, trailing_inj h⟩
  | [], p :: more', h => absurd h (rest_ne p)
  | p :: more, [], h => absurd h.symm (rest_ne p)
  | p :: more, p' :: more', h => by
    simp only [tokensOf_cons, List.cons_append, List.append_assoc, List.cons.injEq] at h
    obtain ⟨hcomma, h⟩ := h
    obtain ⟨hspecifier, h⟩ :=
      WrittenSpecifier.append_inj (endsName_rest more _ _ _) (endsName_rest more' _ _ _) h
    obtain ⟨rfl, rfl, rfl, rfl⟩ := list_inj h
    rw [show p = p' from Prod.ext (Subtype.ext hcomma) hspecifier]
    exact ⟨rfl, rfl, rfl, rfl⟩

theorem append_inj {x y : WrittenNames}
    (h : x.tokens ++ closing.1 :: ts = y.tokens ++ closing'.1 :: us) :
    x = y ∧ closing = closing' ∧ ts = us := by
  cases x with
  | nothing =>
    cases y with
    | nothing =>
      obtain ⟨hclosing, rfl⟩ := List.cons.inj h
      exact ⟨rfl, Subtype.ext hclosing, rfl⟩
    | loneComma comma => exact absurd (List.cons.inj h).1 (sign_ne (by decide) closing comma)
    | list first more trailing =>
      rw [tokens, tokens, List.append_assoc] at h
      exact absurd h (first.cons_ne closing)
  | loneComma comma =>
    cases y with
    | nothing => exact absurd (List.cons.inj h).1 (sign_ne (by decide) comma closing')
    | loneComma comma' =>
      obtain ⟨hcomma, h⟩ := List.cons.inj h
      obtain ⟨hclosing, rfl⟩ := List.cons.inj h
      exact ⟨congrArg loneComma (Subtype.ext hcomma), Subtype.ext hclosing, rfl⟩
    | list first more trailing =>
      rw [tokens, tokens, List.append_assoc] at h
      exact absurd h (first.cons_ne comma)
  | list first more trailing =>
    cases y with
    | nothing =>
      rw [tokens, tokens, List.append_assoc] at h
      exact absurd h.symm (first.cons_ne closing')
    | loneComma comma =>
      rw [tokens, tokens, List.append_assoc] at h
      exact absurd h.symm (first.cons_ne comma)
    | list first' more' trailing' =>
      simp only [tokens, List.append_assoc] at h
      obtain ⟨rfl, hrest⟩ := WrittenSpecifier.append_inj (endsName_rest more _ _ _)
        (endsName_rest more' _ _ _) h
      obtain ⟨rfl, rfl, rfl, rfl⟩ := list_inj hrest
      exact ⟨rfl, rfl, rfl⟩

end WrittenNames

theorem WrittenBindings.append_inj {x y : WrittenBindings} {ts us : List Token}
    (h : x.tokens ++ ts = y.tokens ++ us) : x = y ∧ ts = us := by
  cases x with
  | namespaceAs star word name =>
    cases y with
    | namespaceAs star' word' name' =>
      simp only [tokens, List.cons_append, List.nil_append, List.cons.injEq] at h
      obtain ⟨hstar, hword, hname, rfl⟩ := h
      rw [Subtype.ext hstar, Subtype.ext hword, Subtype.ext hname]
      exact ⟨rfl, rfl⟩
    | named opening names closing =>
      exact absurd (List.cons.inj h).1 (WrittenNames.sign_ne (by decide) star opening)
  | named opening names closing =>
    cases y with
    | namespaceAs star word name =>
      exact absurd (List.cons.inj h).1 (WrittenNames.sign_ne (by decide) opening star)
    | named opening' names' closing' =>
      simp only [tokens, List.cons_append, List.append_assoc, List.nil_append,
        List.cons.injEq] at h
      obtain ⟨hopening, h⟩ := h
      obtain ⟨rfl, rfl, rfl⟩ := WrittenNames.append_inj h
      rw [Subtype.ext hopening]
      exact ⟨rfl, rfl⟩

namespace WrittenBindings

theorem exists_head (b : WrittenBindings) :
    ∃ t us, b.tokens = t :: us ∧ ∃ s, t.kind = .symbol s := by
  cases b with
  | namespaceAs star => exact ⟨_, _, rfl, _, star.2⟩
  | named opening => exact ⟨_, _, rfl, _, opening.2⟩

theorem cons_ne (b : WrittenBindings) (name : BoundName) {ts us : List Token} :
    name.1 :: ts ≠ b.tokens ++ us := by
  obtain ⟨t, rest, hb, s, ht⟩ := b.exists_head
  intro h
  rw [hb] at h
  have := isIdentifier_of_isBindable name.2
  rw [(List.cons.inj h).1] at this
  simp [isIdentifier, ht] at this

end WrittenBindings

theorem WrittenClause.append_inj {x y : WrittenClause}
    {word word' : OfKind (.keyword .fromWord)} {ts us : List Token}
    (h : x.tokens ++ word.1 :: ts = y.tokens ++ word'.1 :: us) :
    x = y ∧ word = word' ∧ ts = us := by
  cases x with
  | default name =>
    cases y with
    | default name' =>
      simp only [tokens, List.cons_append, List.nil_append, List.cons.injEq] at h
      obtain ⟨hname, hword, rfl⟩ := h
      rw [Subtype.ext hname, Subtype.ext hword]
      exact ⟨rfl, rfl, rfl⟩
    | bindings b => exact absurd h (b.cons_ne name)
    | both name' comma b =>
      exact absurd (List.cons.inj (List.cons.inj h).2).1 (keyword_ne_sign word comma)
  | bindings b =>
    cases y with
    | default name => exact absurd h.symm (b.cons_ne name)
    | bindings b' =>
      obtain ⟨rfl, hrest⟩ := WrittenBindings.append_inj h
      obtain ⟨hword, rfl⟩ := List.cons.inj hrest
      exact ⟨rfl, Subtype.ext hword, rfl⟩
    | both name comma b' => exact absurd h.symm (b.cons_ne name)
  | both name comma b =>
    cases y with
    | default name' =>
      exact absurd (List.cons.inj (List.cons.inj h).2).1.symm (keyword_ne_sign word' comma)
    | bindings b' => exact absurd h (b'.cons_ne name)
    | both name' comma' b' =>
      simp only [tokens, List.cons_append, List.cons.injEq] at h
      obtain ⟨hname, hcomma, h⟩ := h
      obtain ⟨rfl, hrest⟩ := WrittenBindings.append_inj h
      obtain ⟨hword, rfl⟩ := List.cons.inj hrest
      rw [Subtype.ext hname, Subtype.ext hcomma, Subtype.ext hword]
      exact ⟨rfl, rfl, rfl⟩

/-- Tokens are an import in one way at most. -/
theorem WrittenImport.tokens_injective {x y : WrittenImport} (h : x.tokens = y.tokens) : x = y := by
  obtain ⟨word, clause, module⟩ := x
  obtain ⟨word', clause', module'⟩ := y
  obtain ⟨hword, hrest⟩ := List.cons.inj h
  obtain rfl : word = word' := Subtype.ext hword
  match clause, clause' with
  | none, none =>
    obtain rfl : module = module' := Subtype.ext (List.cons.inj hrest).1
    rfl
  | none, some c | some c, none =>
    have := congrArg List.length hrest
    simp at this
  | some (clause, source), some (clause', source') =>
    simp only [Option.elim_some, List.append_assoc, List.singleton_append] at hrest
    obtain ⟨rfl, rfl, hmodule⟩ := WrittenClause.append_inj hrest
    obtain rfl : module = module' := Subtype.ext (List.cons.inj hmodule).1
    rfl

end ReplCore
