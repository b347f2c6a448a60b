import ReplCore.Style.Style

/-!
# A row of a terminal

What writing to a terminal does to the row under the cursor. A character overwrites the cell at the
cursor in the formatting that was set last, a backspace moves to the left and erases nothing, and a
control sequence changes the formatting, if it is one that sets it, and nothing else.

* `play_selects`: a control sequence sets the numbers that it selects and changes nothing else.
* `step_between`: a character overwrites the cell at the cursor.
-/

namespace ReplCore.Terminal

/-! ## Formatting -/

/-- How a cell looks. Attributes are kept in the order of their codes. -/
structure Formatting where
  foreground : Color
  background : Color
  attributes : List Attribute
deriving Repr, DecidableEq

namespace Formatting

def default : Formatting := ⟨.default, .default, []⟩

/-- The formatting with an attribute. -/
def switchOn (f : Formatting) (a : Attribute) : Formatting :=
  { f with attributes := Attribute.all.filter fun b => b = a ∨ b ∈ f.attributes }

/-- The formatting without some attributes. -/
def switchOff (f : Formatting) (as : List Attribute) : Formatting :=
  { f with attributes := f.attributes.filter (· ∉ as) }

/-- The formatting after one number of a control sequence; unknown numbers do nothing. -/
def set (f : Formatting) (n : Nat) : Formatting :=
  if n = 0 then default
  else if n = 22 then f.switchOff [.bold, .dim]
  else if n = 23 then f.switchOff [.italic]
  else if n = 24 then f.switchOff [.underline]
  else if n = 25 then f.switchOff [.blink]
  else if n = 27 then f.switchOff [.reverse]
  else if n = 28 then f.switchOff [.conceal]
  else if n = 29 then f.switchOff [.strike]
  else if n = 39 then { f with foreground := .default }
  else if n = 49 then { f with background := .default }
  else if 30 ≤ n ∧ n < 38 then { f with foreground := .numbered (n - 30) }
  else if 40 ≤ n ∧ n < 48 then { f with background := .numbered (n - 40) }
  else if 90 ≤ n ∧ n < 98 then { f with foreground := .numbered (n - 82) }
  else if 100 ≤ n ∧ n < 108 then { f with background := .numbered (n - 92) }
  else
    match Attribute.all.find? fun a => a.code = n with
    | some a => f.switchOn a
    | none => f

/-- The formatting after the numbers of a control sequence. A color may take several. -/
def select : Formatting → List Nat → Formatting
  | f, [] => f
  | f, 38 :: 5 :: n :: rest => select { f with foreground := .numbered n } rest
  | f, 38 :: 2 :: r :: g :: b :: rest => select { f with foreground := .mixed r g b } rest
  | f, 48 :: 5 :: n :: rest => select { f with background := .numbered n } rest
  | f, 48 :: 2 :: r :: g :: b :: rest => select { f with background := .mixed r g b } rest
  | f, n :: rest => select (f.set n) rest

end Formatting

/-! ## Rows -/

/-- One character with its looks. -/
structure Cell where
  char : Char
  formatting : Formatting
deriving Repr, DecidableEq

/-- How the next character is read. -/
inductive Reading where
  | text
  /-- After an escape character. -/
  | escape
  /-- In the numbers of a control sequence: those that are complete, and the one under way. -/
  | numbers (complete : List Nat) (current : Nat)
deriving Repr, DecidableEq

/-- A row with its cursor, the formatting of what comes next, and how the next character is
read. -/
structure Row where
  cells : List Cell
  cursor : Nat
  formatting : Formatting
  reading : Reading
deriving Repr, DecidableEq

namespace Row

/-- An empty row in default formatting. -/
def blank : Row := ⟨[], 0, .default, .text⟩

/-- The row with a character in the cell under the cursor. -/
def put (r : Row) (c : Char) : Row :=
  { r with
    cells := r.cells.take r.cursor ++ ⟨c, r.formatting⟩ :: r.cells.drop (r.cursor + 1)
    cursor := r.cursor + 1 }

/-- The row after one character of a control sequence. -/
def stepInNumbers (r : Row) (complete : List Nat) (current : Nat) (c : Char) : Row :=
  if c.isDigit then
    { r with reading := .numbers complete (10 * current + (c.toNat - '0'.toNat)) }
  else if c = ';' then { r with reading := .numbers (complete ++ [current]) 0 }
  else if c = 'm' then
    { r with reading := .text, formatting := r.formatting.select (complete ++ [current]) }
  else { r with reading := .text }

/-- The row after one character. -/
def step (r : Row) (c : Char) : Row :=
  match r.reading with
  | .text =>
    if c = '\x08' then { r with cursor := r.cursor - 1 }
    else if c = '\x1b' then { r with reading := .escape }
    else if c = '\x9b' then { r with reading := .numbers [] 0 }
    else r.put c
  | .escape => { r with reading := if c = '[' then .numbers [] 0 else .text }
  | .numbers complete current => r.stepInNumbers complete current c

/-- The row after a text. -/
def play (r : Row) (t : Text) : Row := t.foldl step r

/-- The characters in the cells. -/
def text (r : Row) : Text := r.cells.map Cell.char

/-! ## Playing text -/

@[simp] theorem play_nil (r : Row) : r.play [] = r := rfl

theorem play_cons (r : Row) (c : Char) (t : Text) : r.play (c :: t) = (r.step c).play t := rfl

theorem play_append (r : Row) (t u : Text) : r.play (t ++ u) = (r.play t).play u :=
  List.foldl_append

end Row

/-- The controls, which stand for no character of their own. -/
def isControl (c : Char) : Bool := c.toNat < 0x20 || (0x7F ≤ c.toNat && c.toNat < 0xA0)

theorem ne_of_isControl {c d : Char} (hc : isControl c = false) (hd : isControl d = true) :
    c ≠ d := by
  rintro rfl
  rw [hc] at hd
  cases hd

/-! ## Sequences that set numbers -/

/-- The number that digits stand for; no digits stand for zero. -/
def numberOf (digits : Text) : Nat := Nat.ofDigitChars 10 digits 0

/-- The control sequence that sets some numbers, each given by its digits. -/
def selection (numbers : List Text) : Text :=
  "\x1b[".toList ++ Text.join [';'] numbers ++ "m".toList

/-- The sequence is one that sets some numbers. -/
def Selects (s : Text) (ns : List Nat) : Prop :=
  ∃ ds, ds ≠ [] ∧ (∀ d ∈ ds, ∀ c ∈ d, c.isDigit = true) ∧ s = selection ds ∧ ns = ds.map numberOf

theorem selects_sequence {ns : List Nat} (hne : ns ≠ []) : Selects (Style.sequence ns) ns := by
  refine ⟨ns.map Text.ofNat, by simpa using hne, fun d hd c hc => ?_, rfl, ?_⟩
  · obtain ⟨n, -, rfl⟩ := List.mem_map.mp hd
    exact Nat.isDigit_of_mem_toDigits (by decide) (by decide) hc
  · rw [List.map_map]
    exact ((List.map_congr_left fun n _ => Nat.ofDigitChars_ten_toDigits).trans ns.map_id).symm

/-! ## Playing text and sequences -/

namespace Row

variable {r : Row}

theorem step_of_not_isControl (hr : r.reading = .text) {c : Char} (hc : isControl c = false) :
    r.step c = r.put c := by
  have hbackspace : c ≠ '\x08' := ne_of_isControl hc rfl
  have hescape : c ≠ '\x1b' := ne_of_isControl hc rfl
  have hcontrol : c ≠ '\x9b' := ne_of_isControl hc rfl
  simp [step, hr, hbackspace, hescape, hcontrol]

/-- A character overwrites the cell at the cursor. -/
theorem step_between {c : Char} (hc : isControl c = false) (before after : List Cell)
    (f : Formatting) : (⟨before ++ after, before.length, f, .text⟩ : Row).step c =
      ⟨before ++ [Cell.mk c f] ++ after.drop 1, (before ++ [Cell.mk c f]).length, f, .text⟩ := by
  rw [step_of_not_isControl rfl hc]
  simp [put, List.drop_append, List.append_assoc]

/-- Backspaces move the cursor and leave the cells alone. -/
theorem play_backspaces (n : Nat) (hr : r.reading = .text) :
    r.play (List.replicate n '\x08') = { r with cursor := r.cursor - n } := by
  induction n generalizing r with
  | zero => rfl
  | succ n ih =>
    have hstep : r.step '\x08' = { r with cursor := r.cursor - 1 } := by simp [step, hr]
    rw [List.replicate_succ, play_cons, hstep,
      ih (show ({ r with cursor := r.cursor - 1 } : Row).reading = .text from hr)]
    simp [Nat.sub_sub, Nat.add_comm]

/-! ## Playing control sequences -/

theorem play_digits {t : Text} (ht : ∀ c ∈ t, c.isDigit = true) {complete : List Nat}
    {current : Nat} (hr : r.reading = .numbers complete current) :
    r.play t = { r with reading := .numbers complete (Nat.ofDigitChars 10 t current) } := by
  induction t generalizing r current with
  | nil => simp [Nat.ofDigitChars_nil, ← hr]
  | cons c t ih =>
    have hstep : r.step c =
        { r with reading := .numbers complete (10 * current + (c.toNat - '0'.toNat)) } := by
      simp [step, hr, stepInNumbers, ht c List.mem_cons_self]
    rw [play_cons, hstep, ih (fun d hd => ht d (List.mem_cons_of_mem c hd)) rfl,
      Nat.ofDigitChars_cons]

theorem play_numbers : ∀ {ds : List Text} {complete : List Nat} {r : Row}, ds ≠ [] →
    (∀ d ∈ ds, ∀ c ∈ d, c.isDigit = true) → r.reading = .numbers complete 0 →
    r.play (Text.join [';'] ds ++ "m".toList) =
      { r with reading := .text, formatting := r.formatting.select (complete ++ ds.map numberOf) }
  | [], _, _, h, _, _ => absurd rfl h
  | [d], complete, r, _, hds, hr => by
    rw [Text.join, play_append, play_digits (hds d List.mem_cons_self) hr]
    rfl
  | d :: e :: ds, complete, r, _, hds, hr => by
    have hjoin : Text.join [';'] (d :: e :: ds) ++ "m".toList =
        d ++ ';' :: (Text.join [';'] (e :: ds) ++ "m".toList) := by
      simp [Text.join]
    have hsemicolon : ({ r with reading := .numbers complete (numberOf d) } : Row).step ';' =
        { r with reading := .numbers (complete ++ [numberOf d]) 0 } := rfl
    rw [hjoin, play_append, play_digits (hds d List.mem_cons_self) hr, ← numberOf, play_cons,
      hsemicolon, play_numbers (by simp) (fun d hd => hds d (List.mem_cons_of_mem _ hd)) rfl]
    simp

/-- A control sequence sets the numbers that it selects and changes nothing else. -/
theorem play_selects {s : Text} {ns : List Nat} (hs : Selects s ns) (hr : r.reading = .text) :
    r.play s = { r with formatting := r.formatting.select ns } := by
  obtain ⟨ds, hne, hds, rfl, rfl⟩ := hs
  have hstart : r.play "\x1b[".toList = { r with reading := .numbers [] 0 } := by
    show (r.step '\x1b').step '[' = _
    simp [step, hr]
  rw [selection, List.append_assoc, play_append, hstart, play_numbers hne hds rfl]
  simp [← hr]

/-- The sequence of some numbers sets them and changes nothing else. -/
theorem play_sequence {ns : List Nat} (hne : ns ≠ []) (hr : r.reading = .text) :
    r.play (Style.sequence ns) = { r with formatting := r.formatting.select ns } :=
  play_selects (selects_sequence hne) hr

end Row

end ReplCore.Terminal
