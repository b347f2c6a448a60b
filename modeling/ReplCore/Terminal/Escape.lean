import ReplCore.Pattern

/-!
# Escape sequences

Text for a terminal holds escape sequences, which print nothing: control sequences, such as those
that set colors, and operating system commands. A text is cut into its characters and its escape
sequences from left to right.

* `flatMap_text_pieces`: the pieces of a text, one after the other, are the text.
-/

namespace ReplCore.Escape

open Pattern

/-- What a terminal text consists of. -/
inductive Piece where
  | char (c : Char)
  | sequence (t : Text)
deriving Repr, DecidableEq

/-- The text of a piece. -/
def Piece.text : Piece → Text
  | char c => [c]
  | sequence t => t

private def isLatin (c : Char) : Bool := ('a' ≤ c && c ≤ 'z') || ('A' ≤ c && c ≤ 'Z')

private def argumentChar : Pattern :=
  one fun c => isLatin c || CharClass.isDigit c || "-/#&.:=?%@~_".toList.contains c

/-- A command to the operating system: its arguments, up to the bell. -/
def command : Pattern :=
  seq (opt (or
      (many (seq (lit ";") (some1 argumentChar)))
      (seq (some1 (one fun c => isLatin c || CharClass.isDigit c))
        (many (seq (lit ";") (many argumentChar))))))
    (lit "\x07")

/-- The last character of a control sequence. -/
def isFinal (c : Char) : Bool :=
  CharClass.isDigit c || ('A' ≤ c && c ≤ 'P') || ('R' ≤ c && c ≤ 'T') || c = 'Z' || c = 'c'
    || ('f' ≤ c && c ≤ 'n') || "tqry=><~".toList.contains c

def digit : Pattern := one CharClass.isDigit

/-- A control function: numbers and a final character. -/
def control : Pattern :=
  seq (opt (all [digit, atMost 3 digit, many (seq (lit ";") (atMost 4 digit))])) (one isFinal)

/-- An escape sequence of either kind. -/
def sequence : Pattern :=
  all [one fun c => c = '\x1b' || c = '\x9b', many (oneOf "[]()#;?"), or command control]

/-- The escape sequence that starts a text, with the text after it. -/
def leading? (t : Text) : Option (Text × Text) :=
  (sequence.first? (.start t)).map fun c => ((Cursor.start t).upTo c, c.rest)

/-- The pieces of a text. The text `bound` only bounds their number. -/
def piecesFrom : (bound : Text) → Text → List Piece
  | _, [] | [], _ => []
  | _ :: bound, c :: rest =>
    match leading? (c :: rest) with
    | some (s, after) => .sequence s :: piecesFrom bound after
    | none => .char c :: piecesFrom bound rest

/-- The characters and the escape sequences of a text, from left to right. -/
def pieces (t : Text) : List Piece := piecesFrom t t

theorem leading?_eq_some {t s after : Text} (h : leading? t = some (s, after)) :
    s ++ after = t ∧ after.length < t.length := by
  obtain ⟨c, hc, hs⟩ := Option.map_eq_some_iff.mp h
  obtain ⟨rfl, rfl⟩ := Prod.mk.inj hs
  have hmem := List.mem_of_mem_head? hc
  exact ⟨(passes_of_mem_ends sequence _ c hmem).upTo_append,
    length_lt_of_consumes sequence (by decide) _ c hmem⟩

theorem flatMap_text_piecesFrom : ∀ (bound t : Text), t.length ≤ bound.length →
    (piecesFrom bound t).flatMap Piece.text = t
  | _, [], _ => by simp [piecesFrom]
  | [], c :: rest, h => by simp at h
  | _ :: bound, c :: rest, h => by
    have hle : rest.length ≤ bound.length := Nat.le_of_succ_le_succ h
    unfold piecesFrom
    split
    · next s after hs =>
      obtain ⟨htext, hlt⟩ := leading?_eq_some hs
      have hafter : after.length ≤ rest.length := Nat.le_of_lt_succ hlt
      rw [List.flatMap_cons, flatMap_text_piecesFrom bound after (Nat.le_trans hafter hle)]
      exact htext
    · rw [List.flatMap_cons, flatMap_text_piecesFrom bound rest hle]
      rfl

/-- The pieces of a text, one after the other, are the text. -/
theorem flatMap_text_pieces (t : Text) : (pieces t).flatMap Piece.text = t :=
  flatMap_text_piecesFrom t t (Nat.le_refl _)

/-- The escape sequences of a text. -/
def sequences (t : Text) : List Text :=
  (pieces t).filterMap fun
    | .sequence s => some s
    | .char _ => none

/-- The text without its escape sequences. -/
def strip (t : Text) : Text :=
  (pieces t).filterMap fun
    | .char c => some c
    | .sequence _ => none

/-- The number of characters besides escape sequences. -/
def characterCount (t : Text) : Nat := (strip t).length

/-- The escape sequence that starts at an offset, or nothing. -/
def startingAt (t : Text) (offset : Nat) : Text := ((leading? (t.drop offset)).map (·.1)).getD []

/-- Whether a pattern matches the whole of a text. -/
private def matchesAll (p : Pattern) (t : Text) : Bool :=
  (p.ends (.start t)).any fun c => c.rest.isEmpty

/-- A control sequence that sets a color: one of eight, one of eight bright ones, or one given by
arguments. The texts are the codes before the last digit. -/
private def color (dark bright extended : String) : Pattern :=
  all [lit "\x1b[",
    firstOf [seq (lit dark) (oneOf "01234567"), seq (lit bright) (oneOf "01234567"),
      seq (lit extended) (some1 (seq (lit ";") (some1 (one CharClass.isDigit))))],
    lit "m"]

/-- Whether a sequence does nothing but set the color of text. -/
def setsForeground (s : Text) : Bool := matchesAll (color "3" "9" "38") s

/-- Whether a sequence does nothing but set the color behind text. -/
def setsBackground (s : Text) : Bool := matchesAll (color "4" "10" "48") s

/-- The sequence that takes back the color of text. -/
def foregroundReset : Text := "\x1b[39m".toList

/-- The sequence that takes back the color behind text. -/
def backgroundReset : Text := "\x1b[49m".toList

/-- Whether a sequence takes back all formatting. -/
def isFullReset (s : Text) : Bool := s = "\x1b[0m".toList || s = "\x1b[m".toList

end ReplCore.Escape
