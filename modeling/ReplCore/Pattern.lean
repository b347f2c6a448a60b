import ReplCore.Text.Basic

/-!
# Patterns

A pattern describes texts as a regular expression does, with alternatives in order of preference.
`Pattern.ends` lists every place where a match from a given place can end, the preferred first, so
that a search with backtracking is a search through this list: a sequence continues from each end
of its first part, and the first end of the whole is the match.

* `passes_of_mem_ends`: a match passes over a piece of the text.
* `length_lt_of_consumes`: a pattern that passes `consumes` never matches the empty text.
-/

namespace ReplCore

/-- A place in a text: the character just before it, if any, and the text from there on. -/
structure Cursor where
  before : Option Char
  rest : Text
deriving Repr, DecidableEq

namespace Cursor

/-- The start of a text. -/
def start (t : Text) : Cursor := ⟨none, t⟩

/-- The place just after the first `n` characters. -/
def advance (c : Cursor) : Nat → Cursor
  | 0 => c
  | n + 1 =>
    match c.rest with
    | [] => c
    | x :: xs => advance ⟨some x, xs⟩ n

/-- The text between two places of one text. -/
def upTo (c d : Cursor) : Text := c.rest.take (c.rest.length - d.rest.length)

/-- Whether a character of class `p` stands at the place. -/
def isAt (c : Cursor) (p : Char → Bool) : Bool := c.rest.head?.any p

/-- Whether a word begins or ends at the place. -/
def isWordEdge (c : Cursor) : Bool := c.before.any CharClass.isWord != c.isAt CharClass.isWord

/-- Whether the place is at the start of a line. -/
def isLineStart (c : Cursor) : Bool := c.before.all (· == '\n')

/-- Whether the place is at the end of a line. -/
def isLineEnd (c : Cursor) : Bool := c.rest.head?.all (· == '\n')

end Cursor

/-- What a match may look like. A repetition is meant for bodies that consume text. -/
inductive Pattern where
  /-- The empty text. -/
  | empty
  /-- One character of a class. -/
  | one (accept : Char → Bool)
  /-- The empty text, at the places that satisfy a condition. -/
  | place (condition : Cursor → Bool)
  /-- The empty text, where the pattern `p` matches. -/
  | ahead (p : Pattern)
  /-- The first pattern, then the second. -/
  | seq (p q : Pattern)
  /-- The first pattern or, failing that, the second. -/
  | or (p q : Pattern)
  /-- Any number of repetitions, as many as possible. -/
  | many (p : Pattern)
  /-- Any number of repetitions, as few as possible. -/
  | few (p : Pattern)

namespace Pattern

/-- The ends of a repetition of `step`, longest first, before more places. The text `bound` only
bounds the number of repetitions. -/
def repeatEndsBefore (step : Cursor → List Cursor) :
    (bound : Text) → Cursor → (more : List Cursor) → List Cursor
  | [], c, more => c :: more
  | _ :: bound, c, more => (step c).foldr (repeatEndsBefore step bound) (c :: more)

/-- The ends of a repetition of `step`, longest first. -/
def repeatEnds (step : Cursor → List Cursor) (bound : Text) (c : Cursor) : List Cursor :=
  repeatEndsBefore step bound c []

theorem repeatEndsBefore_eq (step : Cursor → List Cursor) :
    ∀ (bound : Text) (c : Cursor) (more : List Cursor),
      repeatEndsBefore step bound c more = repeatEnds step bound c ++ more
  | [], _, _ => rfl
  | _ :: bound, c, more => by
    have h (ds more : List Cursor) : ds.foldr (repeatEndsBefore step bound) more =
        ds.foldr (repeatEndsBefore step bound) [] ++ more := by
      induction ds with
      | nil => rfl
      | cons d ds ih =>
        rw [List.foldr_cons, List.foldr_cons, repeatEndsBefore_eq step bound d, ih,
          repeatEndsBefore_eq step bound d (ds.foldr _ []), List.append_assoc]
    rw [repeatEnds, repeatEndsBefore, repeatEndsBefore, h, h (step c) [c], List.append_assoc]
    rfl

theorem repeatEnds_nil (step : Cursor → List Cursor) (c : Cursor) : repeatEnds step [] c = [c] :=
  rfl

/-- A repetition goes on from each end of its first step, and may also stop where it is. -/
theorem repeatEnds_cons (step : Cursor → List Cursor) (x : Char) (bound : Text) (c : Cursor) :
    repeatEnds step (x :: bound) c = (step c).flatMap (repeatEnds step bound) ++ [c] := by
  rw [repeatEnds, repeatEndsBefore]
  induction step c with
  | nil => rfl
  | cons d ds ih =>
    rw [List.foldr_cons, repeatEndsBefore_eq, ih, List.flatMap_cons, List.append_assoc]

/-- The ends of a repetition of `step`, shortest first. -/
def repeatEndsFew (step : Cursor → List Cursor) : (bound : Text) → Cursor → List Cursor
  | [], c => [c]
  | _ :: bound, c => c :: (step c).flatMap (repeatEndsFew step bound)

/-- The places where a match from the given place can end, in order of preference. -/
def ends : Pattern → Cursor → List Cursor
  | empty, c => [c]
  | one accept, c =>
    match c.rest with
    | [] => []
    | x :: xs => if accept x then [⟨some x, xs⟩] else []
  | place condition, c => if condition c then [c] else []
  | ahead p, c => if (ends p c).isEmpty then [] else [c]
  | seq p q, c => (ends p c).flatMap (ends q)
  | or p q, c => ends p c ++ ends q c
  | many p, c => repeatEnds (ends p) c.rest c
  | few p, c => repeatEndsFew (ends p) c.rest c

/-- The end of the preferred match. -/
def first? (p : Pattern) (c : Cursor) : Option Cursor := (ends p c).head?

/-- Whether every match consumes at least one character. -/
def consumes : Pattern → Bool
  | empty | place _ | ahead _ | many _ | few _ => false
  | one _ => true
  | seq p q => consumes p || consumes q
  | or p q => consumes p && consumes q

/-! ## Derived patterns -/

/-- The given text. -/
def chars : Text → Pattern
  | [] => empty
  | [x] => one (· == x)
  | x :: xs => seq (one (· == x)) (chars xs)

/-- The given text, written as a string. -/
def lit (s : String) : Pattern := chars s.toList

/-- One of the characters of a string. -/
def oneOf (s : String) : Pattern := one fun c => s.toList.contains c

/-- One character that is none of those of a string. -/
def noneOf (s : String) : Pattern := one fun c => !s.toList.contains c

/-- Any character. -/
def any : Pattern := one fun _ => true

/-- The pattern or, failing that, the empty text. -/
def opt (p : Pattern) : Pattern := or p empty

/-- One repetition or more, as many as possible. -/
def some1 (p : Pattern) : Pattern := seq p (many p)

/-- At most `n` repetitions, as many as possible. -/
def atMost : Nat → Pattern → Pattern
  | 0, _ => empty
  | n + 1, p => opt (seq p (atMost n p))

/-- The patterns one after the other. -/
def all : List Pattern → Pattern
  | [] => empty
  | [p] => p
  | p :: ps => seq p (all ps)

/-- The first of the patterns that matches. -/
def firstOf : List Pattern → Pattern
  | [] => place fun _ => false
  | [p] => p
  | p :: ps => or p (firstOf ps)

/-- One of the words, the earlier preferred. -/
def oneWordOf (ws : List String) : Pattern := firstOf (ws.map lit)

/-- A place where a word begins or ends. -/
def wordEdge : Pattern := place Cursor.isWordEdge

/-- A place that is not the edge of a word. -/
def noWordEdge : Pattern := place fun c => !c.isWordEdge

/-- The end of a line. -/
def lineEnd : Pattern := place Cursor.isLineEnd

/-- One of the words, not followed by more of a word. -/
def wholeWordOf (ws : List String) : Pattern := seq (oneWordOf ws) wordEdge

/-- White space, any amount. -/
def blanks : Pattern := many (one CharClass.isBlank)

/-! ## Matches pass over text -/

/-- `d` is reached from `c` by passing over a piece of its text. -/
def Passes (c d : Cursor) : Prop := ∃ t, c.rest = t ++ d.rest

theorem Passes.refl (c : Cursor) : Passes c c := ⟨[], rfl⟩

theorem Passes.trans {c d e : Cursor} : Passes c d → Passes d e → Passes c e := by
  rintro ⟨t, ht⟩ ⟨u, hu⟩
  exact ⟨t ++ u, by rw [ht, hu, List.append_assoc]⟩

theorem Passes.length_le {c d : Cursor} (h : Passes c d) : d.rest.length ≤ c.rest.length := by
  obtain ⟨t, ht⟩ := h
  rw [ht, List.length_append]
  omega

/-- Passing from one place to another is passing over the text between them. -/
theorem Passes.upTo_append {c d : Cursor} (h : Passes c d) : c.upTo d ++ d.rest = c.rest := by
  obtain ⟨t, ht⟩ := h
  have : c.rest.length - d.rest.length = t.length := by rw [ht, List.length_append]; omega
  rw [Cursor.upTo, this, ht, List.take_left]

theorem passes_of_mem_repeatEnds {step : Cursor → List Cursor}
    (hstep : ∀ c d, d ∈ step c → Passes c d) :
    ∀ (bound : Text) (c d : Cursor), d ∈ repeatEnds step bound c → Passes c d
  | [], c, d, h => by
    rw [repeatEnds_nil] at h
    rw [List.mem_singleton.mp h]
    exact .refl c
  | x :: bound, c, d, h => by
    rw [repeatEnds_cons] at h
    rcases List.mem_append.mp h with h | h
    · obtain ⟨e, he, hd⟩ := List.mem_flatMap.mp h
      exact (hstep c e he).trans (passes_of_mem_repeatEnds hstep bound e d hd)
    · rw [List.mem_singleton.mp h]
      exact .refl c

theorem passes_of_mem_repeatEndsFew {step : Cursor → List Cursor}
    (hstep : ∀ c d, d ∈ step c → Passes c d) :
    ∀ (bound : Text) (c d : Cursor), d ∈ repeatEndsFew step bound c → Passes c d
  | [], c, d, h => by
    rw [List.mem_singleton.mp h]
    exact .refl c
  | _ :: bound, c, d, h => by
    rcases List.mem_cons.mp h with h | h
    · rw [h]
      exact .refl c
    · obtain ⟨e, he, hd⟩ := List.mem_flatMap.mp h
      exact (hstep c e he).trans (passes_of_mem_repeatEndsFew hstep bound e d hd)

theorem passes_of_mem_ends (p : Pattern) : ∀ c d, d ∈ p.ends c → Passes c d := by
  induction p with
  | empty =>
    intro c d h
    rw [List.mem_singleton.mp h]
    exact .refl c
  | one accept =>
    intro c d h
    simp only [ends] at h
    split at h
    · cases h
    · next x xs hrest =>
      split at h
      · rw [List.mem_singleton.mp h]
        exact ⟨[x], hrest⟩
      · cases h
  | place condition =>
    intro c d h
    simp only [ends] at h
    split at h
    · rw [List.mem_singleton.mp h]
      exact .refl c
    · cases h
  | ahead p _ =>
    intro c d h
    simp only [ends] at h
    split at h
    · cases h
    · rw [List.mem_singleton.mp h]
      exact .refl c
  | seq p q ihp ihq =>
    intro c d h
    obtain ⟨e, he, hd⟩ := List.mem_flatMap.mp h
    exact (ihp c e he).trans (ihq e d hd)
  | or p q ihp ihq =>
    intro c d h
    rcases List.mem_append.mp h with h | h
    · exact ihp c d h
    · exact ihq c d h
  | many p ih => exact fun c d h => passes_of_mem_repeatEnds ih c.rest c d h
  | few p ih => exact fun c d h => passes_of_mem_repeatEndsFew ih c.rest c d h

theorem length_lt_of_consumes (p : Pattern) (hp : p.consumes = true) :
    ∀ c d, d ∈ p.ends c → d.rest.length < c.rest.length := by
  induction p with
  | empty | place | ahead | many | few => simp [consumes] at hp
  | one accept =>
    intro c d h
    simp only [ends] at h
    split at h
    · cases h
    · next x xs hrest =>
      split at h
      · rw [List.mem_singleton.mp h, hrest]
        exact Nat.lt_succ_self _
      · cases h
  | seq p q ihp ihq =>
    intro c d h
    obtain ⟨e, he, hd⟩ := List.mem_flatMap.mp h
    rw [consumes, Bool.or_eq_true] at hp
    rcases hp with hp | hp
    · exact Nat.lt_of_le_of_lt (passes_of_mem_ends q e d hd).length_le (ihp hp c e he)
    · exact Nat.lt_of_lt_of_le (ihq hp e d hd) (passes_of_mem_ends p c e he).length_le
  | or p q ihp ihq =>
    intro c d h
    rw [consumes, Bool.and_eq_true] at hp
    rcases List.mem_append.mp h with h | h
    · exact ihp hp.1 c d h
    · exact ihq hp.2 c d h

end Pattern

end ReplCore
