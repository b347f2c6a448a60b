import ReplCore.Double
import ReplCore.Text.Quoted

/-!
# Values

The values of option files and records: those of JSON, with the fields of a record in the order in
which they were written. A value is written as JSON, or as a message shows it.

* `keys_putField`: writing a field keeps the place of a field that is already there.
-/

namespace ReplCore

/-- A value of an option. -/
inductive Value where
  | null
  | bool (b : Bool)
  | integer (n : Int)
  /-- A number with a point or an exponent: the double nearest to the digits, as one natural number,
  times ten to the power of the exponent. The digits are the fewest that tell it from other
  doubles. -/
  | decimal (negative : Bool) (digits : Nat) (exponent : Int)
  | text (t : Text)
  | list (elements : List Value)
  | record (fields : List (Text × Value))
deriving Repr, Inhabited

namespace Value

/-- Whether a value counts as true: nothing, zero and what is empty do not. -/
def isTrue : Value → Bool
  | null => false
  | bool b => b
  | integer n => n ≠ 0
  | decimal _ digits _ => digits ≠ 0
  | text t => !t.isEmpty
  | list es => !es.isEmpty
  | record fs => !fs.isEmpty

/-- The first of two values that counts as true, or else the second. -/
def either (a b : Value) : Value := if a.isTrue then a else b

/-- The value as a fraction, if it is a number; a truth value is zero or one. A decimal number has
the value of its double. -/
def ratio? : Value → Option (Int × Nat)
  | bool b => some (if b then 1 else 0, 1)
  | integer n => some (n, 1)
  | decimal negative digits exponent =>
    let (n, d) := (Double.nearest (digits * Nat.pow 10 exponent.toNat)
      (Nat.pow 10 (-exponent).toNat)).ratio
    some (if negative then -n else n, d)
  | _ => none

/-- Whether two values are the same number. -/
def sameNumber (a b : Value) : Bool :=
  match a.ratio?, b.ratio? with
  | some (m, d), some (n, e) => m * e = n * d
  | _, _ => false

/-- The value of the first field with the given key. -/
def field? (v : Value) (key : String) : Option Value :=
  match v with
  | record fs => (fs.find? fun f => f.1 = key.toList).map (·.2)
  | _ => none

/-! ## Written values -/

/-- The digits of a number without the zeros at its end, and the exponent that makes up for them.
The number `bound` only bounds the number of steps. -/
def withoutZeros : (bound digits : Nat) → (exponent : Int) → Nat × Int
  | 0, digits, exponent => (digits, exponent)
  | bound + 1, digits, exponent =>
    if digits ≠ 0 ∧ digits % 10 = 0 then withoutZeros bound (digits / 10) (exponent + 1)
    else (digits, exponent)

/-- The text of a decimal number. The point is written where it stands if it is at most sixteen
places after the first digit or three zeros before it; the exponent of ten tells it otherwise. -/
def decimalText (negative : Bool) (digits : Nat) (exponent : Int) : Text :=
  let (digits, exponent) := withoutZeros (Text.ofNat digits).length digits exponent
  let ds := Text.ofNat digits
  let point : Int := if digits = 0 then 1 else ds.length + exponent
  let orZero (t : Text) : Text := if t.isEmpty then ['0'] else t
  let size : Text :=
    if -4 < point ∧ point ≤ 16 then
      let ds := List.replicate (1 - point).toNat '0' ++ ds
      let whole := ds.take (max point 1).toNat
      whole ++ List.replicate ((max point 1).toNat - whole.length) '0' ++ ['.']
        ++ orZero (ds.drop (max point 1).toNat)
    else
      let power := Text.ofNat (point - 1).natAbs
      ds.take 1 ++ (if ds.length = 1 then [] else '.' :: ds.drop 1)
        ++ ['e', if point < 1 then '-' else '+'] ++ List.replicate (2 - power.length) '0' ++ power
  if negative then '-' :: size else size

/-- How values are written besides numbers. -/
structure Spelling where
  null : Text
  yes : Text
  no : Text
  quoted : Text → Text

/-- The spelling of JSON. -/
def jsonSpelling : Spelling := ⟨"null".toList, "true".toList, "false".toList, Quoted.json⟩

/-- The spelling in which a message shows a value. -/
def shownSpelling : Spelling := ⟨"None".toList, "True".toList, "False".toList, Quoted.shown⟩

mutual

/-- A value in a spelling. -/
def write (k : Spelling) : Value → Text
  | null => k.null
  | bool b => if b then k.yes else k.no
  | integer n => Text.ofInt n
  | decimal negative digits exponent => decimalText negative digits exponent
  | text t => k.quoted t
  | list es => "[".toList ++ Text.join ", ".toList (writeAll k es) ++ "]".toList
  | record fs => "\x7b".toList ++ Text.join ", ".toList (writeFields k fs) ++ "\x7d".toList

/-- Several values in a spelling. -/
def writeAll (k : Spelling) : List Value → List Text
  | [] => []
  | v :: vs => write k v :: writeAll k vs

/-- Fields in a spelling. -/
def writeFields (k : Spelling) : List (Text × Value) → List Text
  | [] => []
  | (key, v) :: fs => (k.quoted key ++ ": ".toList ++ write k v) :: writeFields k fs

end

/-- The value as JSON. -/
def json (v : Value) : Text := v.write jsonSpelling

/-- The value as a message shows it. -/
def shown (v : Value) : Text := v.write shownSpelling

/-- The value as a message says it: a text as it is, and any other value as it is shown. -/
def plain : Value → Text
  | text t => t
  | v => v.shown

end Value

/-- Fields in order, with a field written: in its old place if it is there, and else at the
end. -/
def putField {α : Type} (fields : List (Text × α)) (key : Text) (value : α) : List (Text × α) :=
  if fields.any (fun f => f.1 = key) then
    fields.map fun f => if f.1 = key then (key, value) else f
  else fields ++ [(key, value)]

theorem keys_putField {α : Type} (fields : List (Text × α)) (key : Text) (value : α) :
    (putField fields key value).map (·.1) =
      if key ∈ fields.map (·.1) then fields.map (·.1) else fields.map (·.1) ++ [key] := by
  have hkeys : (fields.map fun f => if f.1 = key then (key, value) else f).map (·.1) =
      fields.map (·.1) := by
    rw [List.map_map]
    apply List.map_congr_left
    intro f _
    simp only [Function.comp]
    split
    · next h => exact h.symm
    · rfl
  unfold putField
  by_cases h : key ∈ fields.map (·.1)
  · have hany : fields.any (fun f => f.1 = key) = true := by
      obtain ⟨f, hf, rfl⟩ := List.mem_map.mp h
      exact List.any_eq_true.mpr ⟨f, hf, by simp⟩
    rw [if_pos hany, if_pos h, hkeys]
  · have hany : ¬ fields.any (fun f => f.1 = key) = true := by
      intro hf
      obtain ⟨f, hf, hk⟩ := List.any_eq_true.mp hf
      exact h (List.mem_map.mpr ⟨f, hf, by simpa using hk⟩)
    rw [if_neg hany, if_neg h, List.map_append]
    rfl

end ReplCore
