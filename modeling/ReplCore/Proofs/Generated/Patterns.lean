import ReplCore.Generated.Statement
import ReplCore.Proofs.Code.Tokens
import ReplCore.Proofs.Text.Literals

/-!
# Reading object patterns

The object pattern of an import is read as the language of submissions reads it: properties with
commas between them, each a key, a colon and a name, where the key is a name or a string and a name
alone is bound to itself. What an import names is read back from its pattern, however the names of
the exports are spelled.

* `string?_json`: a name that is printed as a string is read back, characters of two code units
  included.
* `object?_object`: reading what is printed gives back the names, in order.
-/

namespace ReplCore

namespace Literal

/-- The text with the given UTF-16 code units, unless a surrogate is not part of a pair. -/
def decode? : List Nat → Option Text
  | [] => some []
  | u :: us =>
    if 0xD800 ≤ u ∧ u < 0xE000 then
      match us with
      | [] => none
      | v :: us =>
        if u < 0xDC00 ∧ 0xDC00 ≤ v ∧ v < 0xE000 then
          (decode? us).map (Char.ofNat (0x10000 + (u - 0xD800) * 0x400 + (v - 0xDC00)) :: ·)
        else none
    else (decode? us).map (Char.ofNat u :: ·)

theorem decode?_codeUnits (c : Char) (us : List Nat) :
    decode? (Quoted.codeUnits c ++ us) = (decode? us).map (c :: ·) := by
  have hvalid : c.toNat < 0xD800 ∨ 0xDFFF < c.toNat ∧ c.toNat < 0x110000 := c.valid
  unfold Quoted.codeUnits
  split
  · rw [List.singleton_append, decode?.eq_def]
    dsimp only
    rw [if_neg (by omega), Char.ofNat_toNat]
  · next hlarge =>
    have hpair : 0x10000 + (0xD800 + (c.toNat - 0x10000) / 0x400 - 0xD800) * 0x400 +
        (0xDC00 + (c.toNat - 0x10000) % 0x400 - 0xDC00) = c.toNat := by
      omega
    rw [List.cons_append, List.singleton_append, decode?.eq_def]
    dsimp only
    rw [if_pos (by omega), if_pos (by omega), hpair, Char.ofNat_toNat]

theorem decode?_unitsOf (t : Text) : decode? (unitsOf t) = some t := by
  induction t with
  | nil => rfl
  | cons c t ih => rw [unitsOf_cons, decode?_codeUnits, ih, Option.map_some]

end Literal

namespace BindingPattern

open CharClass

/-- What specifiers name in the module and what they bind it to. -/
def pairs (specifiers : List ImportSpecifier) : List (Text × Text) :=
  specifiers.map fun s => (s.imported, s.boundAs)

/-! ## The reader -/

/-- The characters of names: those of words and of identifiers. -/
def inName (c : Char) : Bool := c = '$' || isWord c || continuesName c

/-- A name, and the text after it. -/
def name? (t : Text) : Option (Text × Text) :=
  if (t.takeWhile inName).isEmpty then none else some (t.takeWhile inName, t.dropWhile inName)

/-- The rest of a string literal with its closing quote, and the text after it. -/
def untilQuote : Text → Option (Text × Text)
  | [] => none
  | '\\' :: c :: t => (untilQuote t).map fun (literal, rest) => ('\\' :: c :: literal, rest)
  | c :: t =>
    if c = '\x22' then some (['\x22'], t)
    else (untilQuote t).map fun (literal, rest) => (c :: literal, rest)

/-- The text that a string literal denotes, and the text after the literal. -/
def string? (t : Text) : Option (Text × Text) :=
  if t.head? = some '\x22' then do
    let (literal, rest) ← untilQuote t.tail
    let units ← Literal.value? ('\x22' :: literal)
    return (← Literal.decode? units, rest)
  else none

/-- The text after white space. -/
def trimStart (t : Text) : Text := t.dropWhile isBlank

/-- The text after a sign that may follow white space. -/
def after? (sign : Char) (t : Text) : Option Text :=
  if (trimStart t).head? = some sign then some (trimStart t).tail else none

/-- Whether a name is an identifier: only these are keys without quotes. -/
def isIdentifier : Text → Bool
  | [] => false
  | c :: t => (c = '$' || beginsName c) && t.all fun c => c = '$' || continuesName c

/-- The name that a key stands for, and the text after the key. -/
def key? (t : Text) : Option (Text × Text) :=
  (string? t).or ((name? t).filter fun (name, _) => isIdentifier name)

/-- A property with a key, and the text after it. -/
def renamed? (t : Text) : Option ((Text × Text) × Text) := do
  let (key, rest) ← key? t
  let (boundAs, rest) ← name? (trimStart (← after? ':' rest))
  return ((key, boundAs), rest)

/-- A name that is bound to itself, and the text after it. -/
def alone? (t : Text) : Option ((Text × Text) × Text) :=
  (name? t).map fun (name, rest) => ((name, name), rest)

/-- What a property names and binds, and the text after it. -/
def property? (t : Text) : Option ((Text × Text) × Text) :=
  (renamed? (trimStart t)).or (alone? (trimStart t))

/-- Properties with commas between them, up to the brace that ends the text. There are no more of
them than characters in the bound. -/
def properties? : (bound : Text) → Text → Option (List (Text × Text))
  | [], _ => none
  | _ :: bound, t => do
    let (p, rest) ← property? t
    match after? ',' rest with
    | some rest => return p :: (← properties? bound rest)
    | none => if after? '\x7d' rest = some [] then return [p] else none

/-- What an object pattern names and binds, in order. -/
def object? (t : Text) : Option (List (Text × Text)) := do
  let rest ← after? '\x7b' t
  if after? '\x7d' rest = some [] then return [] else properties? rest rest

/-! ## Characters -/

variable {c : Char} {t rest name : Text}

theorem inName_of_isBlank (h : isBlank c = true) : inName c = false := by
  have := of_isBlank (p := fun c => !inName c) h (by decide +kernel)
  simpa using this

theorem inName_of_beginsName (h : beginsName c = true) : inName c = true := by
  simp only [beginsName, Bool.or_eq_true, Bool.and_eq_true] at h
  simp only [inName, isWord, continuesName, Bool.or_eq_true]
  rcases h with (h | h) | ⟨⟨h | h, -⟩, -⟩
  · exact Or.inl (Or.inr (Or.inl (Or.inl (Or.inl (Or.inl h)))))
  · exact Or.inr (Or.inl (Or.inl h))
  · exact Or.inl (Or.inr (Or.inl (Or.inl (Or.inl (Or.inr h)))))
  · exact Or.inl (Or.inr (Or.inl (Or.inr h)))

/-- A text that is read as a name in front of anything that does not go on with it. -/
structure Name (t : Text) : Prop where
  ne_nil : t ≠ []
  all : ∀ c ∈ t, inName c = true

theorem name_of_isName (h : isName t = true) : Name t := by
  cases t with
  | nil => cases h
  | cons c t =>
    rw [isName, Bool.and_eq_true, List.all_eq_true] at h
    refine ⟨by simp, List.forall_mem_cons.2 ⟨inName_of_beginsName h.1, fun d hd => ?_⟩⟩
    rw [inName, h.2 d hd, Bool.or_true]

theorem isIdentifier_of_isName (h : isName t = true) : isIdentifier t = true := by
  cases t with
  | nil => cases h
  | cons c t =>
    rw [isName, Bool.and_eq_true, List.all_eq_true] at h
    rw [isIdentifier, h.1, Bool.or_true, Bool.true_and, List.all_eq_true]
    exact fun d hd => by rw [h.2 d hd, Bool.or_true]

theorem name_of_isWordLike (h : TokenKind.isWordLike t = true) : Name t := by
  cases t with
  | nil => cases h
  | cons c t =>
    have hall := List.all_eq_true.1 h
    exact ⟨by simp, fun d hd => by rw [inName, hall d hd, Bool.true_or]⟩

theorem Name.name?_append (h : Name name) (hrest : ∀ c ∈ rest.head?, inName c = false) :
    name? (name ++ rest) = some (name, rest) := by
  have hstops : rest.takeWhile inName = [] ∧ rest.dropWhile inName = rest := by
    cases rest with
    | nil => exact ⟨rfl, rfl⟩
    | cons c rest =>
      have hc := hrest c rfl
      exact ⟨by rw [List.takeWhile_cons, hc]; rfl, by rw [List.dropWhile_cons, hc]; rfl⟩
  rw [name?, List.takeWhile_append_of_pos h.all, List.dropWhile_append_of_pos h.all, hstops.1,
    hstops.2, List.append_nil, if_neg (by simpa using h.ne_nil)]

/-! ## Strings -/

/-- A part of a literal that does not end it. -/
def Inner (x : Text) : Prop :=
  ∀ t, untilQuote (x ++ t) = (untilQuote t).map fun (literal, rest) => (x ++ literal, rest)

theorem Inner.nil : Inner [] := fun t => by
  rw [List.nil_append]
  cases untilQuote t <;> rfl

theorem Inner.append {x y : Text} (hx : Inner x) (hy : Inner y) : Inner (x ++ y) := fun t => by
  rw [List.append_assoc, hx, hy, Option.map_map]
  cases untilQuote t with
  | none => rfl
  | some p => simp [Function.comp_def]

theorem Inner.escape (c : Char) : Inner ['\\', c] := fun t => by
  rw [List.cons_append, List.singleton_append, untilQuote]
  rfl

theorem Inner.plain (hquote : c ≠ '\x22') (hbackslash : c ≠ '\\') : Inner [c] := fun t => by
  rw [List.singleton_append, untilQuote.eq_def]
  split
  · next heq => cases heq
  · next heq => exact absurd (List.cons.inj heq).1 hbackslash
  · next heq =>
    rw [← (List.cons.inj heq).1, ← (List.cons.inj heq).2, if_neg hquote]
    rfl

theorem Inner.flatMap {α : Type} {f : α → Text} {xs : List α} (h : ∀ x ∈ xs, Inner (f x)) :
    Inner (xs.flatMap f) := by
  induction xs with
  | nil => exact .nil
  | cons x xs ih =>
    rw [List.forall_mem_cons] at h
    exact h.1.append (ih h.2)

theorem inner_hex (width n : Nat) : Inner (Quoted.hex width n) := by
  have hdigit : ∀ d < 16, Quoted.hexDigit d ≠ '\x22' ∧ Quoted.hexDigit d ≠ '\\' := by decide
  induction width generalizing n with
  | zero => exact .nil
  | succ width ih =>
    have hlast := hdigit _ (Nat.mod_lt n (by decide))
    exact (ih (n / 16)).append (.plain hlast.1 hlast.2)

theorem inner_jsonChar (c : Char) : Inner (Quoted.jsonChar c) := by
  unfold Quoted.jsonChar
  -- The seven characters that are escaped by one character.
  iterate 7
    split
    · exact .escape _
  split
  · next hquote hbackslash _ _ _ _ _ _ => exact .plain hquote hbackslash
  · refine .flatMap fun u _ => ?_
    exact (Inner.escape 'u').append (inner_hex 4 u)

theorem string?_json (t rest : Text) : string? (Quoted.json t ++ rest) = some (t, rest) := by
  have huntil : untilQuote (t.flatMap Quoted.jsonChar ++ '\x22' :: rest) =
      some (t.flatMap Quoted.jsonChar ++ ['\x22'], rest) := by
    rw [Inner.flatMap fun c _ => inner_jsonChar c]
    rfl
  have hvalue := Literal.value?_json t
  rw [Quoted.json, List.cons_append] at hvalue
  have hhead : ('\x22' :: (t.flatMap Quoted.jsonChar ++ '\x22' :: rest)).head? = some '\x22' := rfl
  rw [Quoted.json, List.cons_append, List.cons_append, List.append_assoc, List.singleton_append,
    string?, if_pos hhead, List.tail_cons, huntil]
  simp [hvalue, Literal.decode?_unitsOf]

/-! ## Properties -/

variable {imported boundAs : Text} {ss : List ImportSpecifier}

theorem Name.string?_append (h : Name name) (rest : Text) : string? (name ++ rest) = none := by
  obtain ⟨c, t, rfl⟩ := List.exists_cons_of_ne_nil h.ne_nil
  have hc : inName c = true := h.all c List.mem_cons_self
  have hquote : c ≠ '\x22' := fun heq => absurd (heq ▸ hc) (by decide)
  rw [string?, List.cons_append, List.head?_cons, if_neg (by simpa using hquote)]

theorem key?_propertyName (name : Text) (hrest : ∀ c ∈ rest.head?, inName c = false) :
    key? (propertyName name ++ rest) = some (name, rest) := by
  unfold propertyName
  split
  · next h =>
    have hname := name_of_isName h
    rw [key?, hname.string?_append, hname.name?_append hrest, Option.none_or]
    exact if_pos (isIdentifier_of_isName h)
  · rw [key?, string?_json, Option.some_or]

/-- What a property starts with. -/
def Starts (t : Text) : Prop := ∃ c rest, t = c :: rest ∧ isBlank c = false ∧ c ≠ '\x7d'

theorem Name.starts (h : Name name) : Starts name := by
  obtain ⟨c, t, rfl⟩ := List.exists_cons_of_ne_nil h.ne_nil
  have hc : inName c = true := h.all c List.mem_cons_self
  refine ⟨c, t, rfl, Bool.eq_false_iff.2 fun hblank => ?_, fun hbrace => ?_⟩
  · exact Bool.false_ne_true ((inName_of_isBlank hblank).symm.trans hc)
  · exact absurd (hbrace ▸ hc) (by decide)

theorem starts_property (hbound : Name boundAs) (imported : Text) :
    Starts (property imported boundAs) := by
  unfold property propertyName
  split
  · exact hbound.starts
  · split
    · next hname =>
      obtain ⟨c, t, ht, hc⟩ := (name_of_isName hname).starts
      exact ⟨c, t ++ ": ".toList ++ boundAs, by rw [ht]; rfl, hc⟩
    · exact ⟨'\x22', _, rfl, by decide, by decide⟩

theorem Starts.trimStart_append (h : Starts t) (rest : Text) :
    trimStart (' ' :: (t ++ rest)) = t ++ rest := by
  obtain ⟨c, t, rfl, hc, -⟩ := h
  have hspace : isBlank ' ' = true := by decide
  rw [trimStart, List.dropWhile_cons, if_pos hspace, List.cons_append, List.dropWhile_cons, hc]
  rfl

theorem Starts.after?_brace (h : Starts t) (rest : Text) :
    after? '\x7d' (' ' :: (t ++ rest)) = none := by
  rw [after?, h.trimStart_append]
  obtain ⟨c, t, rfl, -, hc⟩ := h
  rw [List.cons_append, List.head?_cons, if_neg (by simpa using hc)]

/-- What may follow a property: the next one or the end of the pattern. -/
structure Follows (t : Text) : Prop where
  head : ∀ c ∈ t.head?, inName c = false
  colon : after? ':' t = none

theorem follows_comma (t : Text) : Follows (',' :: t) := by
  refine ⟨fun c hc => ?_, rfl⟩
  obtain rfl := Option.some.inj hc
  decide

theorem follows_brace : Follows " \x7d".toList := by
  refine ⟨fun c hc => ?_, rfl⟩
  obtain rfl := Option.some.inj hc
  decide

theorem renamed?_propertyName (imported : Text) (hbound : Name boundAs) (hrest : Follows rest) :
    renamed? (propertyName imported ++ ": ".toList ++ boundAs ++ rest) =
      some ((imported, boundAs), rest) := by
  have hprinted : propertyName imported ++ ": ".toList ++ boundAs ++ rest =
      propertyName imported ++ ':' :: ' ' :: (boundAs ++ rest) := by simp
  have hcolon : ∀ c ∈ (':' :: ' ' :: (boundAs ++ rest)).head?, inName c = false := by
    intro c hc
    obtain rfl := Option.some.inj hc
    decide
  have hafter : after? ':' (':' :: ' ' :: (boundAs ++ rest)) = some (' ' :: (boundAs ++ rest)) :=
    rfl
  rw [hprinted, renamed?, key?_propertyName imported hcolon]
  simp [hafter, hbound.starts.trimStart_append, hbound.name?_append hrest.head]

theorem renamed?_name (hname : Name name) (hrest : Follows rest) :
    renamed? (name ++ rest) = none := by
  rw [renamed?, key?, hname.string?_append, hname.name?_append hrest.head, Option.none_or]
  cases h : isIdentifier name <;> simp [h, hrest.colon]

theorem property?_property (hbound : Name boundAs) (imported : Text) (hrest : Follows rest) :
    property? (' ' :: (property imported boundAs ++ rest)) = some ((imported, boundAs), rest) := by
  rw [property?, (starts_property hbound imported).trimStart_append rest]
  unfold property
  split
  · next heq =>
    rw [renamed?_name hbound hrest, Option.none_or, alone?, hbound.name?_append hrest.head, heq]
    rfl
  · rw [renamed?_propertyName imported hbound hrest, Option.some_or]

/-! ## Patterns -/

/-- A pattern after its opening brace. -/
def inBraces (ss : List ImportSpecifier) : Text :=
  ' ' :: (Text.join ", ".toList (ss.map fun s => property s.imported s.boundAs) ++ " \x7d".toList)

theorem object_cons (s : ImportSpecifier) (ss : List ImportSpecifier) :
    object (s :: ss) = '\x7b' :: inBraces (s :: ss) := rfl

theorem inBraces_singleton (s : ImportSpecifier) :
    inBraces [s] = ' ' :: (property s.imported s.boundAs ++ " \x7d".toList) := rfl

theorem inBraces_cons_cons (s s' : ImportSpecifier) (ss : List ImportSpecifier) :
    inBraces (s :: s' :: ss) =
      ' ' :: (property s.imported s.boundAs ++ ',' :: inBraces (s' :: ss)) := by
  simp [inBraces, Text.join]

theorem length_le_length_inBraces (ss : List ImportSpecifier) :
    ss.length ≤ (inBraces ss).length := by
  induction ss with
  | nil => exact Nat.zero_le _
  | cons s ss ih =>
    cases ss with
    | nil => exact Nat.le_add_left 1 _
    | cons s' ss =>
      simp only [inBraces_cons_cons, List.length_cons, List.length_append] at ih ⊢
      omega

theorem after?_brace_inBraces {s : ImportSpecifier} (hs : Name s.boundAs)
    (ss : List ImportSpecifier) : after? '\x7d' (inBraces (s :: ss)) = none := by
  have hstarts := starts_property hs s.imported
  cases ss with
  | nil => rw [inBraces_singleton, hstarts.after?_brace]
  | cons s' ss => rw [inBraces_cons_cons, hstarts.after?_brace]

/-- By induction on the specifiers: each property is read up to the comma before the next one. -/
theorem properties?_inBraces (bound : Text) (hlength : ss.length ≤ bound.length) (hne : ss ≠ [])
    (hss : ∀ s ∈ ss, Name s.boundAs) : properties? bound (inBraces ss) = some (pairs ss) := by
  induction ss generalizing bound with
  | nil => exact absurd rfl hne
  | cons s ss ih =>
    obtain ⟨c, bound, rfl⟩ : ∃ c rest, bound = c :: rest :=
      List.exists_cons_of_length_pos (by rw [List.length_cons] at hlength; omega)
    rw [List.length_cons, List.length_cons, Nat.add_le_add_iff_right] at hlength
    rw [List.forall_mem_cons] at hss
    cases ss with
    | nil =>
      have hcomma : after? ',' " \x7d".toList = none := rfl
      have hbrace : after? '\x7d' " \x7d".toList = some [] := rfl
      rw [inBraces_singleton, properties?, property?_property hss.1 _ follows_brace]
      simp only [Option.bind_eq_bind, Option.bind_some, hcomma, if_pos hbrace, Option.pure_def,
        pairs, List.map_singleton]
    | cons s' ss =>
      have hcomma : after? ',' (',' :: inBraces (s' :: ss)) = some (inBraces (s' :: ss)) := rfl
      have hmore := ih bound hlength (by simp) hss.2
      rw [inBraces_cons_cons, properties?, property?_property hss.1 _ (follows_comma _)]
      simp only [Option.bind_eq_bind, Option.bind_some, hcomma, hmore, Option.pure_def, pairs,
        List.map_cons]

theorem object?_object_of_name (ss : List ImportSpecifier) (hss : ∀ s ∈ ss, Name s.boundAs) :
    object? (object ss) = some (pairs ss) := by
  cases ss with
  | nil => rfl
  | cons s ss =>
    have hopen : after? '\x7b' ('\x7b' :: inBraces (s :: ss)) = some (inBraces (s :: ss)) := rfl
    have hread := properties?_inBraces _ (length_le_length_inBraces (s :: ss)) (by simp) hss
    rw [object?, object_cons, hopen]
    simp only [Option.bind_eq_bind, Option.bind_some, hread,
      after?_brace_inBraces (hss s List.mem_cons_self), reduceCtorEq, if_false]

/-- Reading a pattern gives back what it names and binds, in order, so that specifiers for anything
else are not printed as the same pattern. The names that are bound are those of tokens; what the
module exports may have any name. -/
theorem object?_object (hss : ∀ s ∈ ss, TokenKind.isWordLike s.boundAs = true) :
    object? (object ss) = some (pairs ss) ∧
    ∀ ss', (∀ s ∈ ss', TokenKind.isWordLike s.boundAs = true) → object ss = object ss' →
      pairs ss = pairs ss' := by
  have hread : ∀ ss, (∀ s ∈ ss, TokenKind.isWordLike s.boundAs = true) →
      object? (object ss) = some (pairs ss) :=
    fun ss hss => object?_object_of_name ss fun s hs => name_of_isWordLike (hss s hs)
  refine ⟨hread ss hss, fun ss' hss' heq => ?_⟩
  have hsome := hread ss hss
  rw [heq, hread ss' hss'] at hsome
  exact (Option.some.inj hsome).symm

/-- A name that could be the rest of the pattern, and one outside of the first plane. -/
theorem object?_object_quoted :
    let ss : List ImportSpecifier :=
      [⟨"default".toList, "d".toList, ⟨0, 0⟩⟩, ⟨"a\x22, b: c \x7d".toList, "$1".toList, ⟨0, 0⟩⟩,
        ⟨"😀".toList, "x".toList, ⟨0, 0⟩⟩, ⟨"y".toList, "y".toList, ⟨0, 0⟩⟩]
    (∀ s ∈ ss, TokenKind.isWordLike s.boundAs = true) ∧
      object ss = ("\x7b default: d, \x22a\\\x22, b: c \x7d\x22: $1, " ++
        "\x22\\ud83d\\ude00\x22: x, y \x7d").toList ∧
      object? (object ss) = some (pairs ss) := by
  intro ss
  have hss : ∀ s ∈ ss, TokenKind.isWordLike s.boundAs = true := by decide +kernel
  exact ⟨hss, by decide +kernel, (object?_object hss).1⟩

end BindingPattern

end ReplCore
