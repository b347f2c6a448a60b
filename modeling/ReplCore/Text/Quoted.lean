import ReplCore.Text.Basic

/-!
# Quoted text

Two ways to write any text between quotes:

* `Quoted.json`, the string literal of JSON, in ASCII alone. It is also a string literal of the
  language that generated code is written in.
* `Quoted.shown`, the form in which a message shows a text: printable characters stay, the others
  are escaped, and the quote is chosen so that it rarely has to be.
-/

namespace ReplCore.Quoted

/-- The hexadecimal digit of a number below sixteen. -/
def hexDigit (n : Nat) : Char :=
  if n < 10 then Char.ofNat (48 + n) else Char.ofNat (87 + n)

/-- The last `width` hexadecimal digits of `n`. -/
def hex : (width n : Nat) → Text
  | 0, _ => []
  | width + 1, n => hex width (n / 16) ++ [hexDigit (n % 16)]

theorem length_hex (width n : Nat) : (hex width n).length = width := by
  induction width generalizing n with
  | zero => rfl
  | succ w ih => simp [hex, ih]

/-! ## JSON strings -/

/-- The UTF-16 code units of a character: one, or a high and a low surrogate. -/
def codeUnits (c : Char) : List Nat :=
  if c.toNat < 0x10000 then [c.toNat]
  else [0xD800 + (c.toNat - 0x10000) / 0x400, 0xDC00 + (c.toNat - 0x10000) % 0x400]

/-- One character inside a JSON string. -/
def jsonChar (c : Char) : Text :=
  if c = '\x22' then ['\\', '\x22']
  else if c = '\\' then ['\\', '\\']
  else if c = '\n' then ['\\', 'n']
  else if c = '\r' then ['\\', 'r']
  else if c = '\t' then ['\\', 't']
  else if c = '\x08' then ['\\', 'b']
  else if c = '\x0c' then ['\\', 'f']
  else if 0x20 ≤ c.toNat ∧ c.toNat < 0x7F then [c]
  else (codeUnits c).flatMap fun u => '\\' :: 'u' :: hex 4 u

/-- The JSON string literal of a text. -/
def json (t : Text) : Text := '\x22' :: t.flatMap jsonChar ++ ['\x22']

/-! ## Shown text -/

/-- A single quote, unless the text holds one and no double quote. -/
def quoteFor (t : Text) : Char := if '\'' ∈ t ∧ '\x22' ∉ t then '\x22' else '\''

/-- A character as its number in hexadecimal digits. -/
def escaped (c : Char) : Text :=
  if c.toNat < 0x100 then '\\' :: 'x' :: hex 2 c.toNat
  else if c.toNat < 0x10000 then '\\' :: 'u' :: hex 4 c.toNat
  else '\\' :: 'U' :: hex 8 c.toNat

/-- One character of a text shown between quotes `q`. -/
def shownChar (q c : Char) : Text :=
  if c = q ∨ c = '\\' then ['\\', c]
  else if c = '\n' then ['\\', 'n']
  else if c = '\r' then ['\\', 'r']
  else if c = '\t' then ['\\', 't']
  else if CharClass.isPrintable c then [c]
  else escaped c

/-- The text as a message shows it. -/
def shown (t : Text) : Text :=
  quoteFor t :: t.flatMap (shownChar (quoteFor t)) ++ [quoteFor t]

/-- A shown text with the characters outside ASCII escaped too. -/
def inAscii (t : Text) : Text := t.flatMap fun c => if CharClass.isAscii c then [c] else escaped c

end ReplCore.Quoted
