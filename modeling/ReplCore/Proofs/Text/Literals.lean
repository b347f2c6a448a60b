import Mathlib.Algebra.Group.Nat.Defs
import ReplCore.Submission.Reader

/-!
# What a string literal denotes

A string literal of the language of submissions denotes a sequence of UTF-16 code units. Between its
quotes a character stands for itself unless it is a backslash, which starts an escape: of a control
character, of a code unit or a code point by its number, or of a line end, which is left out; any
other character that is escaped stands for itself.

* `value?_json`: the literal that generated code has for a text denotes that text.
* `value?_eq_iff`: a literal denotes the text that is left without its backslashes just if every
  escape stands for the character that it escapes.
-/

namespace ReplCore.Literal

/-! ## Code units -/

/-- The UTF-16 code units of a code point. -/
def codeUnits (n : Nat) : List Nat :=
  if n < 0x10000 then [n] else [0xD800 + (n - 0x10000) / 0x400, 0xDC00 + (n - 0x10000) % 0x400]

/-- The UTF-16 code units of a text. -/
def unitsOf (t : Text) : List Nat := t.flatMap Quoted.codeUnits

theorem unitsOf_cons (c : Char) (t : Text) : unitsOf (c :: t) = Quoted.codeUnits c ++ unitsOf t :=
  List.flatMap_cons

theorem unitsOf_append (t t' : Text) : unitsOf (t ++ t') = unitsOf t ++ unitsOf t' :=
  List.flatMap_append

theorem one_le_length_codeUnits (c : Char) : 1 ≤ (Quoted.codeUnits c).length := by
  unfold Quoted.codeUnits
  split <;> simp

theorem length_le_length_unitsOf (t : Text) : t.length ≤ (unitsOf t).length := by
  induction t with
  | nil => exact Nat.le_refl 0
  | cons c t ih =>
    have hc := one_le_length_codeUnits c
    rw [unitsOf_cons, List.length_append, List.length_cons]
    omega

/-! ## Escapes -/

def isHexDigit (c : Char) : Bool :=
  ('0' ≤ c && c ≤ '9') || ('a' ≤ c && c ≤ 'f') || ('A' ≤ c && c ≤ 'F')

/-- The value of a hexadecimal digit. -/
def hexDigitValue (c : Char) : Nat :=
  if c ≤ '9' then c.toNat - 48 else if c ≤ 'F' then c.toNat - 55 else c.toNat - 87

/-- The number that hexadecimal digits stand for. -/
def hexNumber? (digits : Text) : Option Nat :=
  if digits.all isHexDigit then some (digits.foldl (fun n c => 16 * n + hexDigitValue c) 0)
  else none

def isOctal (c : Char) : Bool := '0' ≤ c && c ≤ '7'

def isLineEnd (c : Char) : Bool := c = '\n' || c = '\r' || c = '\u2028' || c = '\u2029'

/-- The characters that stand for a control character when they are escaped. -/
def controls : List (Char × Nat) := [('b', 8), ('t', 9), ('n', 10), ('v', 11), ('f', 12), ('r', 13)]

/-- A code unit by so many digits, given the text from the digits on. -/
def fixedEscape (width : Nat) (text : Text) : Option (List Nat × Nat) :=
  if width ≤ text.length then (hexNumber? (text.take width)).map fun n => ([n], width + 1) else none

/-- A code point by digits in braces, given the text after the opening brace. -/
def bracedEscape (text : Text) : Option (List Nat × Nat) :=
  let digits := text.takeWhile (· ≠ '\x7d')
  if digits = [] ∨ digits.length = text.length then none
  else (hexNumber? digits).bind fun n =>
    if n ≤ 0x10FFFF then some (codeUnits n, digits.length + 3) else none

/-- A code unit by at most three octal digits, given the first one and the text after it. -/
def octalEscape (c : Char) (text : Text) : List Nat × Nat :=
  let more := (text.take (if c ≤ '3' then 2 else 1)).takeWhile isOctal
  ([(c :: more).foldl (fun n d => 8 * n + (d.toNat - 48)) 0], more.length + 1)

/-- What an escape stands for and how many characters it takes, given the text after the
backslash. -/
def escape : Text → Option (List Nat × Nat)
  | [] => none
  | c :: text =>
    if c = 'x' then fixedEscape 2 text
    else if c = 'u' then
      if text.head? = some '\x7b' then bracedEscape text.tail else fixedEscape 4 text
    else if isOctal c then some (octalEscape c text)
    else if isLineEnd c then some ([], if c = '\r' ∧ text.head? = some '\n' then 2 else 1)
    else match controls.lookup c with
      | some n => some ([n], 1)
      | none => some (Quoted.codeUnits c, 1)

/-- Whether an escaped character stands for itself. -/
def standsForItself (c : Char) : Bool :=
  !(c = 'x' || c = 'u' || isOctal c || isLineEnd c || (controls.lookup c).isSome)

/-! ## Literals -/

/-- What the rest of a literal with the quotes `q` denotes, up to the closing quote that ends the
text. The first `taken` characters belong to an escape. -/
def body (q : Char) : (taken : Nat) → Text → Option (List Nat)
  | _, [] => none
  | taken + 1, _ :: text => body q taken text
  | 0, c :: text =>
    if c = q then if text = [] then some [] else none
    else if c = '\\' then
      (escape text).bind fun (us, taken) => (body q taken text).map (us ++ ·)
    else if c = '\n' ∨ c = '\r' then none
    else (body q 0 text).map (Quoted.codeUnits c ++ ·)

/-- What a string literal denotes. -/
def value? : Text → Option (List Nat)
  | [] => none
  | q :: text => if q = '\'' ∨ q = '\x22' then body q 0 text else none

/-- Whether every escape in a text stands for the character that it escapes. -/
def isPlain : Text → Bool
  | '\\' :: c :: text => standsForItself c && isPlain text
  | _ :: text => isPlain text
  | [] => true

theorem body_taken (q : Char) : ∀ (taken : Nat) (text : Text),
    body q taken text = body q 0 (text.drop taken)
  | 0, _ => rfl
  | _ + 1, [] => rfl
  | taken + 1, _ :: text => body_taken q taken text

/-! ## What an escape takes -/

/-- What an escape of `c` takes besides and stands for: it takes no backslash, and it stands for no
more code units than it takes, and for the characters that it takes just if `c` stands for
itself. -/
structure Takes (c : Char) (more : Text) (us : List Nat) : Prop where
  notMem : '\\' ∉ more
  length_le : us.length ≤ (unitsOf (c :: more)).length
  eq_iff : us = unitsOf (c :: more) ↔ standsForItself c = true

variable {c : Char} {text digits : Text} {us : List Nat} {taken n : Nat}

theorem notMem_of_hexNumber? (h : hexNumber? digits = some n) : '\\' ∉ digits := by
  intro hmem
  unfold hexNumber? at h
  split at h
  · next hall =>
    have hdigit := List.all_eq_true.mp hall _ hmem
    exact absurd hdigit (by decide)
  · cases h

/-- An escape that takes more characters than it stands for code units. -/
theorem takes_of_lt {more : Text} (hnotMem : '\\' ∉ more) (hlt : us.length < more.length + 1)
    (hc : standsForItself c = false) : Takes c more us := by
  have hlength := length_le_length_unitsOf (c :: more)
  rw [List.length_cons] at hlength
  refine ⟨hnotMem, by omega, iff_of_false (fun heq => ?_) (by simp [hc])⟩
  rw [← heq] at hlength
  omega

/-- An escape of one character. -/
theorem takes_nil (hle : us.length ≤ (Quoted.codeUnits c).length)
    (heq : us = Quoted.codeUnits c ↔ standsForItself c = true) : Takes c [] us := by
  have hunits : unitsOf [c] = Quoted.codeUnits c := by simp [unitsOf]
  exact ⟨by simp, by rwa [hunits], by rwa [hunits]⟩

theorem takes_of_fixedEscape {width : Nat} (hwidth : 2 ≤ width)
    (h : fixedEscape width text = some (us, taken)) (hc : standsForItself c = false) :
    ∃ more rest, text = more ++ rest ∧ taken = more.length + 1 ∧ Takes c more us := by
  unfold fixedEscape at h
  split at h
  · next hlength =>
    obtain ⟨n, hn, heq⟩ := Option.map_eq_some_iff.mp h
    obtain ⟨rfl, rfl⟩ := Prod.mk.inj heq
    have hmore : (text.take width).length = width := List.length_take_of_le hlength
    refine ⟨text.take width, text.drop width, (List.take_append_drop width text).symm,
      by rw [hmore], takes_of_lt (notMem_of_hexNumber? hn) ?_ hc⟩
    rw [hmore, List.length_singleton]
    omega
  · cases h

theorem takes_of_bracedEscape (h : bracedEscape text = some (us, taken))
    (hc : standsForItself c = false) :
    ∃ more rest, '\x7b' :: text = more ++ rest ∧ taken = more.length + 1 ∧ Takes c more us := by
  simp only [bracedEscape] at h
  generalize hdigits : text.takeWhile (fun c => decide (c ≠ '\x7d')) = digits at h
  split at h
  · cases h
  · next hclosed =>
    obtain ⟨n, hn, h⟩ := Option.bind_eq_some_iff.mp h
    split at h
    · obtain ⟨rfl, rfl⟩ := Prod.mk.inj (Option.some.inj h)
      obtain ⟨rest, rfl⟩ : ∃ rest, text = digits ++ '\x7d' :: rest := by
        have happend :=
          List.takeWhile_append_dropWhile (p := fun c => decide (c ≠ '\x7d')) (l := text)
        have hbrace := List.head?_dropWhile_not (fun c => decide (c ≠ '\x7d')) text
        rw [hdigits] at happend
        cases hrest : text.dropWhile fun c => decide (c ≠ '\x7d') with
        | nil =>
          rw [hrest, List.append_nil] at happend
          exact absurd (.inr (congrArg List.length happend)) hclosed
        | cons d rest =>
          rw [hrest, List.head?_cons] at hbrace
          obtain rfl : d = '\x7d' := by simpa using hbrace
          exact ⟨rest, by rw [← happend, hrest]⟩
      have hunits : (codeUnits n).length ≤ 2 := by
        unfold codeUnits
        split <;> simp
      have hnotMem := notMem_of_hexNumber? hn
      have hlength : ('\x7b' :: (digits ++ ['\x7d'])).length = digits.length + 2 := by simp
      exact ⟨'\x7b' :: (digits ++ ['\x7d']), rest, by simp, by rw [hlength],
        takes_of_lt (by simpa using hnotMem) (by omega) hc⟩
    · cases h

theorem takes_octalEscape (text : Text) (hc : isOctal c = true) :
    ∃ more rest, text = more ++ rest ∧ (octalEscape c text).2 = more.length + 1 ∧
      Takes c more (octalEscape c text).1 := by
  have hself : standsForItself c = false := by simp [standsForItself, hc]
  simp only [octalEscape]
  generalize hmore : (text.take (if c ≤ '3' then 2 else 1)).takeWhile isOctal = more
  obtain ⟨rest, hrest⟩ : more <+: text :=
    hmore ▸ (List.takeWhile_prefix isOctal).trans (List.take_prefix _ text)
  have hnotMem : '\\' ∉ more := by
    intro hmem
    rw [← hmore] at hmem
    exact absurd (List.all_eq_true.mp List.all_takeWhile _ hmem) (by decide)
  refine ⟨more, rest, hrest.symm, rfl, ?_⟩
  cases more with
  | nil =>
    -- A single octal digit is the number of another character.
    simp only [isOctal, Bool.and_eq_true, decide_eq_true_iff] at hc
    have hzero : 48 ≤ c.toNat := hc.1
    have hunits : Quoted.codeUnits c = [c.toNat] := by
      have hseven : c.toNat ≤ 55 := hc.2
      rw [Quoted.codeUnits, if_pos (by omega)]
    refine takes_nil (by simp [hunits]) (iff_of_false (fun heq => ?_) (by simp [hself]))
    simp only [hunits, List.foldl_cons, List.foldl_nil, List.cons.injEq, and_true] at heq
    omega
  | cons d more => exact takes_of_lt hnotMem (by simp) hself

theorem exists_of_escape (h : escape (c :: text) = some (us, taken)) :
    ∃ more rest, text = more ++ rest ∧ taken = more.length + 1 ∧ Takes c more us := by
  simp only [escape] at h
  split at h
  · next hx => exact takes_of_fixedEscape (by decide) h (by simp [standsForItself, hx])
  split at h
  · next hu =>
    have hself : standsForItself c = false := by simp [standsForItself, hu]
    split at h
    · next hbrace =>
      obtain ⟨rest, rfl⟩ := List.head?_eq_some_iff.mp hbrace
      exact takes_of_bracedEscape h hself
    · exact takes_of_fixedEscape (by decide) h hself
  split at h
  · next hoctal =>
    obtain ⟨rfl, rfl⟩ := Prod.mk.inj (Option.some.inj h)
    exact takes_octalEscape text hoctal
  split at h
  · next hline =>
    obtain ⟨rfl, htaken⟩ := Prod.mk.inj (Option.some.inj h)
    have hself : standsForItself c = false := by simp [standsForItself, hline]
    split at htaken
    · next hreturn =>
      obtain ⟨rest, rfl⟩ := List.head?_eq_some_iff.mp hreturn.2
      exact ⟨['\n'], rest, rfl, htaken.symm, takes_of_lt (by decide) (by simp) hself⟩
    · exact ⟨[], text, rfl, htaken.symm, takes_of_lt (by simp) (by simp) hself⟩
  · next hx hu hoctal hline =>
    split at h
    · next n hlookup =>
      obtain ⟨rfl, rfl⟩ := Prod.mk.inj (Option.some.inj h)
      have hself : standsForItself c = false := by simp [standsForItself, hlookup]
      obtain ⟨before, after, hcontrols, -⟩ := List.lookup_eq_some_iff.mp hlookup
      have hmem : (c, n) ∈ controls := by simp [hcontrols]
      have hne : ∀ p ∈ controls, [p.2] ≠ Quoted.codeUnits p.1 := by decide
      exact ⟨[], text, rfl, rfl,
        takes_nil (one_le_length_codeUnits c) (iff_of_false (hne _ hmem) (by simp [hself]))⟩
    · next hlookup =>
      obtain ⟨rfl, rfl⟩ := Prod.mk.inj (Option.some.inj h)
      refine ⟨[], text, rfl, rfl, takes_nil (Nat.le_refl _) (iff_of_true rfl ?_)⟩
      simp [standsForItself, hx, hu, hoctal, hline, hlookup]

/-! ## Leaving out backslashes -/

open Token.stringValue

variable {q : Char} {lit : Text}

theorem unescape_cons (hc : c ≠ '\\') : unescape (c :: text) = c :: unescape text := by
  rw [unescape.eq_def]
  split
  · next heq => exact absurd (List.cons.inj heq).1 hc
  · next heq => rw [(List.cons.inj heq).1, (List.cons.inj heq).2]
  · next heq => cases heq

theorem isPlain_cons (hc : c ≠ '\\') : isPlain (c :: text) = isPlain text := by
  rw [isPlain.eq_def]
  split
  · next heq => exact absurd (List.cons.inj heq).1 hc
  · next heq => rw [(List.cons.inj heq).2]
  · next heq => cases heq

/-- Text without a backslash is kept. -/
theorem unescape_append {more : Text} (h : '\\' ∉ more) :
    unescape (more ++ text) = more ++ unescape text := by
  induction more with
  | nil => rfl
  | cons c more ih =>
    rw [List.mem_cons, not_or] at h
    rw [List.cons_append, unescape_cons (Ne.symm h.1), ih h.2, List.cons_append]

theorem isPlain_append {more : Text} (h : '\\' ∉ more) :
    isPlain (more ++ text) = isPlain text := by
  induction more with
  | nil => rfl
  | cons c more ih =>
    rw [List.mem_cons, not_or] at h
    rw [List.cons_append, isPlain_cons (Ne.symm h.1), ih h.2]

theorem append_eq_append_iff_of_le {as bs cs ds : List Nat} (h : as.length ≤ cs.length)
    (h' : bs.length ≤ ds.length) : as ++ bs = cs ++ ds ↔ as = cs ∧ bs = ds := by
  constructor
  · intro heq
    have hlength := congrArg List.length heq
    rw [List.length_append, List.length_append] at hlength
    exact List.append_inj heq (by omega)
  · rintro ⟨rfl, rfl⟩
    rfl

/-- What the rest of a literal is and denotes, beside what is left of it without backslashes. -/
theorem exists_of_body (bound : Nat) : ∀ {text : Text} {us : List Nat}, text.length ≤ bound →
    body q 0 text = some us → ∃ inner, text = inner ++ [q] ∧
      us.length ≤ (unitsOf (unescape inner)).length ∧
      (us = unitsOf (unescape inner) ↔ isPlain inner = true) := by
  induction bound with
  | zero =>
    intro text us hbound h
    rw [List.length_eq_zero_iff.mp (Nat.le_zero.mp hbound)] at h
    cases h
  | succ bound ih =>
    intro text us hbound h
    cases text with
    | nil => cases h
    | cons c text =>
      rw [List.length_cons, Nat.add_le_add_iff_right] at hbound
      simp only [body] at h
      split at h
      · next hquote =>
        -- The closing quote.
        split at h
        · next hend =>
          obtain rfl := Option.some.inj h
          exact ⟨[], by rw [hquote, hend]; rfl, Nat.le_refl 0, by simp [isPlain, unescape, unitsOf]⟩
        · cases h
      split at h
      · next hne hbackslash =>
        subst hbackslash
        obtain ⟨⟨vs, taken⟩, hescape, h⟩ := Option.bind_eq_some_iff.mp h
        obtain ⟨ws, hrest, rfl⟩ := Option.map_eq_some_iff.mp h
        cases text with
        | nil => cases hescape
        | cons c text =>
          obtain ⟨more, rest, rfl, rfl, hnotMem, hle, heq⟩ := exists_of_escape hescape
          have hdrop : (c :: (more ++ rest)).drop (more.length + 1) = rest := by simp
          rw [body_taken, hdrop] at hrest
          dsimp only
          have hlength : rest.length ≤ bound := by
            rw [List.length_cons, List.length_append] at hbound
            omega
          obtain ⟨inner, rfl, hle', heq'⟩ := ih hlength hrest
          have hunits : unitsOf (unescape ('\\' :: c :: (more ++ inner))) =
              unitsOf (c :: more) ++ unitsOf (unescape inner) := by
            rw [unescape, unescape_append hnotMem, ← List.cons_append, unitsOf_append]
          refine ⟨'\\' :: c :: (more ++ inner), by simp, ?_, ?_⟩
          · rw [hunits, List.length_append, List.length_append]
            omega
          · rw [hunits, append_eq_append_iff_of_le hle hle', heq, heq', isPlain,
              isPlain_append hnotMem, Bool.and_eq_true]
      · next hne hbackslash =>
        split at h
        · cases h
        · obtain ⟨ws, hrest, rfl⟩ := Option.map_eq_some_iff.mp h
          obtain ⟨inner, rfl, hle, heq⟩ := ih hbound hrest
          refine ⟨c :: inner, rfl, ?_, ?_⟩
          · rw [unescape_cons hbackslash, unitsOf_cons, List.length_append, List.length_append]
            omega
          · rw [unescape_cons hbackslash, unitsOf_cons, isPlain_cons hbackslash, ← heq,
              List.append_cancel_left_eq]

/-- A literal denotes what is left of it without quotes and backslashes just if every escape stands
for the character that it escapes. -/
theorem value?_eq_iff (h : value? lit = some us) :
    us = unitsOf (unescape (lit.drop 1).dropLast) ↔ isPlain (lit.drop 1).dropLast = true := by
  cases lit with
  | nil => cases h
  | cons q text =>
    simp only [value?] at h
    split at h
    · obtain ⟨inner, rfl, -, heq⟩ := exists_of_body text.length (Nat.le_refl _) h
      simpa using heq
    · cases h

/-! ## Printed literals -/

theorem hexNumber?_hex {width : Nat} : ∀ {n : Nat}, n < 16 ^ width →
    hexNumber? (Quoted.hex width n) = some n := by
  have hdigit : ∀ d < 16, isHexDigit (Quoted.hexDigit d) = true ∧
      hexDigitValue (Quoted.hexDigit d) = d := by decide
  have hall : ∀ (width n : Nat), (Quoted.hex width n).all isHexDigit = true := by
    intro width
    induction width with
    | zero => exact fun _ => rfl
    | succ width ih =>
      intro n
      rw [Quoted.hex, List.all_append, ih]
      simpa using (hdigit _ (Nat.mod_lt n (by decide))).1
  induction width with
  | zero =>
    intro n h
    rw [Nat.lt_one_iff.mp h]
    rfl
  | succ width ih =>
    intro n h
    have hmore := ih (n := n / 16) (by rw [Nat.pow_succ] at h; omega)
    simp only [hexNumber?, hall, if_true, Option.some.injEq] at hmore ⊢
    rw [Quoted.hex, List.foldl_append, hmore, List.foldl_cons, List.foldl_nil,
      (hdigit _ (Nat.mod_lt n (by decide))).2]
    omega

theorem body_escape (hescape : escape text = some (us, taken)) :
    body '\x22' 0 ('\\' :: text) = (body '\x22' 0 (text.drop taken)).map (us ++ ·) := by
  rw [body, if_neg (by decide), if_pos rfl, hescape, Option.bind_some]
  dsimp only
  rw [body_taken _ taken]

theorem body_hex {u : Nat} (hu : u < 0x10000) (text : Text) :
    body '\x22' 0 ('\\' :: 'u' :: Quoted.hex 4 u ++ text) =
      (body '\x22' 0 text).map ([u] ++ ·) := by
  have hlength := Quoted.length_hex 4 u
  have hbrace : (Quoted.hex 4 u ++ text).head? ≠ some '\x7b' := by
    have hdigit : ∀ d < 16, Quoted.hexDigit d ≠ '\x7b' := by decide
    have hne := hdigit (u / 16 / 16 / 16 % 16) (Nat.mod_lt _ (by decide))
    simpa [Quoted.hex] using hne
  have hescape : escape ('u' :: Quoted.hex 4 u ++ text) = some ([u], 5) := by
    have hnumber : hexNumber? (Quoted.hex 4 u) = some u := hexNumber?_hex hu
    rw [List.cons_append, escape, if_neg (by decide), if_pos rfl, if_neg hbrace, fixedEscape,
      if_pos (by rw [List.length_append]; omega), List.take_left' hlength, hnumber, Option.map_some]
  rw [List.cons_append, body_escape hescape, List.cons_append, List.drop_succ_cons,
    List.drop_left' hlength]

/-- A character is read back from the escape of one character that is printed for it. -/
theorem body_pair {d : Char} (hescape : escape (d :: text) = some (Quoted.codeUnits c, 1)) :
    body '\x22' 0 (['\\', d] ++ text) = (body '\x22' 0 text).map (Quoted.codeUnits c ++ ·) :=
  body_escape hescape

/-- A character is read back from what is printed for it. -/
theorem body_jsonChar (c : Char) (text : Text) :
    body '\x22' 0 (Quoted.jsonChar c ++ text) =
      (body '\x22' 0 text).map (Quoted.codeUnits c ++ ·) := by
  unfold Quoted.jsonChar
  -- The seven characters that are escaped by one character.
  iterate 7
    split
    · next hc =>
      subst hc
      exact body_pair rfl
  split
  · next hquote hbackslash hline hreturn _ _ _ hplain =>
    rw [List.singleton_append, body, if_neg hquote, if_neg hbackslash,
      if_neg (not_or.mpr ⟨hline, hreturn⟩)]
  · -- One code unit, or a high and a low surrogate.
    have hrange : c.toNat < 0x110000 := by
      have hvalid := c.valid
      simp only [UInt32.isValidChar, Nat.isValidChar] at hvalid
      change c.val.toNat < 0x110000
      omega
    unfold Quoted.codeUnits
    split
    · next hsmall =>
      rw [List.flatMap_singleton, body_hex hsmall]
    · rw [List.flatMap_cons, List.flatMap_singleton, List.append_assoc,
        body_hex (by omega), body_hex (by omega), Option.map_map]
      rfl

/-- The literal that is printed for a text denotes the text. -/
theorem value?_json (t : Text) : value? (Quoted.json t) = some (unitsOf t) := by
  have hbody : ∀ t : Text, body '\x22' 0 (t.flatMap Quoted.jsonChar ++ ['\x22']) =
      some (unitsOf t) := by
    intro t
    induction t with
    | nil => rfl
    | cons c t ih =>
      rw [List.flatMap_cons, List.append_assoc, body_jsonChar, ih, Option.map_some, unitsOf_cons]
  rw [Quoted.json, List.cons_append, value?, if_pos (Or.inr rfl), hbody]

end ReplCore.Literal
