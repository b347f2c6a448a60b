import ReplCore.Text.CharClass

/-!
# Text

Text is a list of code points: every length, offset and slice of this library counts code points,
and facts about text are facts about lists.

* `splitOn_ne_nil`, `join_splitOn`: cutting at a character and joining with it again loses nothing.
* `slice_append_slice`: adjacent slices join to one.
-/

namespace ReplCore

/-- A sequence of code points. -/
abbrev Text := List Char

namespace Text

/-- The code points from offset `start` up to, and without, offset `stop`. -/
def slice (t : Text) (start stop : Nat) : Text := (t.take stop).drop start

theorem slice_append_slice (t : Text) {a b c : Nat} (hab : a ≤ b) (hbc : b ≤ c) :
    slice t a b ++ slice t b c = slice t a c := by
  unfold slice
  by_cases hb : b ≤ t.length
  · have h1 : (t.take c).drop a = ((t.take c).take b).drop a ++ (t.take c).drop b := by
      conv => lhs; rw [← List.take_append_drop b (t.take c)]
      rw [List.drop_append_of_le_length]
      rw [List.length_take, List.length_take]
      omega
    rw [h1, List.take_take, Nat.min_eq_left hbc]
  · have hb' : t.length ≤ b := Nat.le_of_not_le hb
    rw [List.take_of_length_le hb', List.take_of_length_le (Nat.le_trans hb' hbc),
      List.drop_of_length_le hb', List.append_nil]

/-- The offset that a number stands for: below zero, it counts back from the end. -/
def offset (t : Text) (i : Int) : Nat := if i < 0 then (t.length + i).toNat else i.toNat

theorem offset_natCast (t : Text) (n : Nat) : offset t n = n := by
  unfold offset
  rw [if_neg (by omega)]
  rfl

/-- The pieces of a text between the occurrences of `sep`; there is always at least one. -/
def splitOn (sep : Char) : Text → List Text
  | [] => [[]]
  | c :: rest =>
    if c = sep then [] :: splitOn sep rest
    else match splitOn sep rest with
      | [] => [[c]]
      | piece :: pieces => (c :: piece) :: pieces

/-- The pieces one after the other, with `sep` between each two. -/
def join (sep : Text) : List Text → Text
  | [] => []
  | [piece] => piece
  | piece :: pieces => piece ++ sep ++ join sep pieces

theorem join_append {sep : Text} : ∀ {ps qs : List Text}, ps ≠ [] → qs ≠ [] →
    join sep (ps ++ qs) = join sep ps ++ sep ++ join sep qs
  | [], _, hp, _ => absurd rfl hp
  | [p], [], _, hq => absurd rfl hq
  | [p], q :: qs, _, _ => rfl
  | p :: q :: ps, qs, _, hq => by
    have ih : join sep (q :: ps ++ qs) = join sep (q :: ps) ++ sep ++ join sep qs :=
      join_append (by simp) hq
    rw [List.cons_append, List.cons_append, join, ← List.cons_append, ih]
    · simp [join]
    · simp

theorem splitOn_ne_nil (sep : Char) (t : Text) : splitOn sep t ≠ [] := by
  cases t with
  | nil => simp [splitOn]
  | cons c rest =>
    unfold splitOn
    split
    · simp
    · split <;> simp

theorem join_splitOn (sep : Char) (t : Text) : join [sep] (splitOn sep t) = t := by
  induction t with
  | nil => rfl
  | cons c rest ih =>
    unfold splitOn
    split
    · next h =>
      cases hs : splitOn sep rest with
      | nil => exact absurd hs (splitOn_ne_nil sep rest)
      | cons p ps => rw [hs] at ih; simp [join, h, ih]
    · cases hs : splitOn sep rest with
      | nil => exact absurd hs (splitOn_ne_nil sep rest)
      | cons p ps =>
        rw [hs] at ih
        cases ps with
        | nil => simpa [join] using ih
        | cons q qs => simpa [join] using ih

/-- Whether `needle` occurs somewhere in the text. -/
def occursIn (needle : Text) : Text → Bool
  | [] => needle.isEmpty
  | c :: rest => needle.isPrefixOf (c :: rest) || occursIn needle rest

/-- Whether the text ends with `ending`. -/
def endsWith (t ending : Text) : Bool := ending.isSuffixOf t

/-- The text without the characters of class `p` at its end. -/
def trimEnd (p : Char → Bool) (t : Text) : Text := (t.reverse.dropWhile p).reverse

/-- The text without the characters of class `p` at both ends. -/
def trimBy (p : Char → Bool) (t : Text) : Text := trimEnd p (t.dropWhile p)

/-- The text without the white space around it. -/
def trim (t : Text) : Text := trimBy CharClass.isBlank t

/-- The maximal runs of characters that are not white space. -/
def words (t : Text) : List Text :=
  (t.foldr (fun c acc =>
    if CharClass.isBlank c then [] :: acc
    else match acc with
      | [] => [[c]]
      | w :: ws => (c :: w) :: ws) [[]]).filter (· ≠ [])

/-- Small letters in place of the capitals `CharClass.fold` knows. -/
def foldCase (t : Text) : Text := t.map CharClass.fold

/-- Line feeds in place of carriage returns and of carriage returns with a line feed. -/
def unifyLineEnds : Text → Text
  | [] => []
  | '\r' :: '\n' :: rest => '\n' :: unifyLineEnds rest
  | '\r' :: rest => '\n' :: unifyLineEnds rest
  | c :: rest => c :: unifyLineEnds rest

/-- The decimal digits of a natural number. -/
def ofNat (n : Nat) : Text := Nat.toDigits 10 n

/-- The decimal digits of an integer, with a minus sign if it is negative. -/
def ofInt : Int → Text
  | .ofNat n => ofNat n
  | .negSucc n => '-' :: ofNat (n + 1)

end Text

end ReplCore
