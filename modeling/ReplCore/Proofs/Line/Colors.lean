import ReplCore.Line.Renderer
import ReplCore.Proofs.Brackets.Spans
import ReplCore.Proofs.Code.Resuming
import ReplCore.Proofs.Terminal.Painting

/-!
# The colors of what is typed

What is typed at the end of a line is highlighted as the end of the line without its complete pairs.
A character is shown in the style of the class of its token, so the colors are those of the whole
line, whatever the styles, just if every character is in the same class in both readings. It is if
the two readings meet before what was typed. They need not: a slash after a bracket divides, and
without the pair that the bracket closes it may start a regular expression.

* `typedCells_eq`: typed characters are shown in the styles of their classes.
* `colors_of_typed`: when typed characters have the colors of the whole line.
-/

namespace ReplCore.Line

open Escape Terminal

/-! ## The looks of classes -/

/-- How a terminal in default formatting shows characters of a class. -/
def classFormatting (styles : StyleSheet) (key : Option Text) : Formatting :=
  Formatting.default.select (((key.bind styles.get?).map Style.codes).getD [])

/-- A character of a class in its style. -/
def classCell (styles : StyleSheet) (c : Char) (key : Option Text) : Cell :=
  ⟨c, classFormatting styles key⟩

theorem paint_chars (f : Formatting) (t : Text) :
    f.paint (t.map Piece.char) = t.map fun c => ⟨c, f⟩ := by
  induction t with
  | nil => rfl
  | cons c t ih => exact congrArg (⟨c, f⟩ :: ·) ih

theorem paint_lexemePieces (styles : StyleSheet) {l : Lexeme}
    (hl : ∀ c ∈ l.text, isControl c = false) :
    Formatting.default.paint (lexemePieces styles l) =
      l.text.map fun c => classCell styles c l.type.class? := by
  have hstyled : ∀ p ∈ l.text.map Piece.char, p.IsStyled := by
    intro p hp
    obtain ⟨c, hc, rfl⟩ := List.mem_map.mp hp
    exact hl c hc
  have hcell : (fun c => classCell styles c l.type.class?) = fun c => Cell.mk c
      (Formatting.default.select (((styles.styleFor l.type).map Style.codes).getD [])) := rfl
  rw [hcell]
  unfold lexemePieces
  split
  · next s hs =>
    obtain ⟨hstyle, -, hcodes⟩ := shownStyle?_eq_some hs
    rw [hstyle, Formatting.paint, Formatting.after_sequence hcodes,
      Formatting.paint_append hstyled, paint_chars]
    exact List.append_nil _
  · next hnone =>
    rw [paint_chars]
    cases hstyle : styles.styleFor l.type with
    | none => rfl
    | some s =>
      -- A style is not shown if it has no codes, or if there is nothing to show.
      simp only [shownStyle?, hstyle, Option.filter_eq_none_iff] at hnone
      have hshown := hnone s rfl
      by_cases hcodes : s.codes = []
      · rw [Option.map_some, hcodes]
        rfl
      · have htext : l.text = [] := by simpa [hcodes] using hshown
        rw [htext]
        rfl

/-- Lexemes are shown in the styles of their classes. -/
theorem paint_lexemes (sheet : Sheet) : ∀ {ls : List Lexeme},
    (∀ c ∈ ls.flatMap Lexeme.text, isControl c = false) →
      Formatting.default.paint (ls.flatMap (lexemePieces (.ofSheet sheet))) =
        List.zipWith (classCell (.ofSheet sheet)) (ls.flatMap Lexeme.text)
          ((Lexer.characterTypes ls).map TokenType.class?)
  | [], _ => rfl
  | l :: ls, h => by
    rw [List.flatMap_cons] at h
    have hl : ∀ c ∈ l.text, isControl c = false := fun c hc => h c (List.mem_append_left _ hc)
    have hpainted := painted_lexemePieces sheet hl
    have ih := paint_lexemes sheet fun c hc => h c (List.mem_append_right _ hc)
    have htypes : Lexer.characterTypes (l :: ls) =
        (l.text.map fun _ => l.type) ++ Lexer.characterTypes ls := List.flatMap_cons
    have hone : (l.text.map fun c => classCell (.ofSheet sheet) c l.type.class?) =
        List.zipWith (classCell (.ofSheet sheet)) l.text
          ((l.text.map fun _ => l.type).map TokenType.class?) := by
      rw [List.map_map, List.zipWith_map_right, List.zipWith_self]
      rfl
    rw [List.flatMap_cons, Formatting.paint_append hpainted.isStyled,
      Formatting.through_painted hpainted, paint_lexemePieces _ hl, ih, List.flatMap_cons, htypes,
      List.map_append, List.zipWith_append (by simp), hone]

/-- The classes of the characters of a line. -/
def lineClasses (t : Text) : List (Option Text) :=
  (Lexer.characterTypes (Lexer.lex t)).map TokenType.class?

theorem length_lineClasses (t : Text) : (lineClasses t).length = t.length := by
  simp [lineClasses, Lexer.flatMap_text_lex]

theorem paint_highlightedPieces (sheet : Sheet) {t : Text} (ht : ∀ c ∈ t, isControl c = false) :
    Formatting.default.paint (highlightedPieces (.ofSheet sheet) t) =
      List.zipWith (classCell (.ofSheet sheet)) t (lineClasses t) := by
  rw [← Lexer.flatMap_text_lex t] at ht
  rw [highlightedPieces, paint_lexemes sheet ht, Lexer.flatMap_text_lex]
  rfl

/-- The characters of highlighted text are shown in the styles of their classes. -/
theorem cells_play_highlight (sheet : Sheet) {t : Text} (ht : ∀ c ∈ t, isControl c = false) :
    (Row.blank.play (Highlight.highlight (.ofSheet sheet) t)).cells =
      List.zipWith (classCell (.ofSheet sheet)) t (lineClasses t) := by
  rw [← flatMap_text_highlightedPieces,
    cells_play_flatMap_text (painted_highlightedPieces sheet ht).isStyled,
    paint_highlightedPieces sheet ht]

/-! ## Typed characters -/

/-- The cells in which the characters of `typed` are shown by highlighted text where `typed` stands
after `t`. -/
def typedCells (sheet : Sheet) (t typed : Text) : List Cell :=
  (Row.blank.play (Highlight.highlight (.ofSheet sheet) (t ++ typed))).cells.drop t.length

/-- The classes of the characters of `typed` where it stands after `t`. -/
def typedClasses (t typed : Text) : List (Option Text) :=
  (Lexer.typesAfter t typed).map TokenType.class?

/-- Typed characters are shown in the styles of their classes. -/
theorem typedCells_eq (sheet : Sheet) {t typed : Text} (ht : ∀ c ∈ t, isControl c = false)
    (htyped : ∀ c ∈ typed, isControl c = false) :
    typedCells sheet t typed =
      List.zipWith (classCell (.ofSheet sheet)) typed (typedClasses t typed) := by
  have hcode : ∀ c ∈ t ++ typed, isControl c = false := by
    intro c hc
    rcases List.mem_append.mp hc with hc | hc
    · exact ht c hc
    · exact htyped c hc
  rw [typedCells, cells_play_highlight sheet hcode, List.drop_zipWith, List.drop_left, lineClasses,
    ← List.map_drop]
  rfl

theorem map_formatting_zipWith_classCell (styles : StyleSheet) {t : Text}
    {keys : List (Option Text)} (h : keys.length ≤ t.length) :
    (List.zipWith (classCell styles) t keys).map Cell.formatting =
      keys.map (classFormatting styles) := by
  rw [← List.map_uncurry_zip_eq_zipWith, List.map_map]
  refine Eq.trans ?_ (congrArg _ (List.map_snd_zip h))
  rw [List.map_map]
  rfl

/-- The looks of typed characters are those of their classes. -/
theorem map_formatting_typedCells (sheet : Sheet) {t typed : Text}
    (ht : ∀ c ∈ t, isControl c = false) (htyped : ∀ c ∈ typed, isControl c = false) :
    (typedCells sheet t typed).map Cell.formatting =
      (typedClasses t typed).map (classFormatting (.ofSheet sheet)) := by
  rw [typedCells_eq sheet ht htyped]
  refine map_formatting_zipWith_classCell _ ?_
  simp [typedClasses, Lexer.length_typesAfter]

/-! ## Styles that tell classes apart -/

/-- A sheet that shows one class in bold and all others as they are. -/
def boldSheet (key : Text) : Sheet := [(key, ["bold".toList])]

theorem classFormatting_boldSheet {key : Text} (hkey : key ≠ Sheet.baseKey)
    (other : Option Text) : classFormatting (.ofSheet (boldSheet key)) other =
      if other = some key then ⟨.default, .default, [.bold]⟩ else .default := by
  have hstyles : (StyleSheet.ofSheet (boldSheet key)).styles =
      [(key, ⟨none, none, [.bold]⟩)] := by
    have hbase : StyleSheet.baseOf (boldSheet key) = .none := by
      simp [StyleSheet.baseOf, Sheet.values?, boldSheet, hkey]
    have hbold : StyleSheet.compose .none ["bold".toList] = ⟨none, none, [.bold]⟩ := by decide
    rw [StyleSheet.ofSheet, hbase, boldSheet, List.filter_cons_of_pos (by simpa using hkey),
      List.filter_nil, List.map_singleton, hbold]
  cases other with
  | none => rfl
  | some k =>
    by_cases h : k = key
    · have hget : (StyleSheet.ofSheet (boldSheet key)).get? k = some ⟨none, none, [.bold]⟩ := by
        simp [StyleSheet.get?, hstyles, h]
      rw [classFormatting, Option.bind_some, hget, if_pos (congrArg some h)]
      decide
    · have hget : (StyleSheet.ofSheet (boldSheet key)).get? k = none := by
        simp [StyleSheet.get?, hstyles, Ne.symm h]
      rw [classFormatting, Option.bind_some, hget, if_neg (by simpa using h)]
      rfl

/-- No type is in the class that stands for the base of all styles. -/
theorem ne_baseKey_of_class? {type : TokenType} {key : Text} (h : type.class? = some key) :
    key ≠ Sheet.baseKey := by
  obtain ⟨entry, hentry, rfl⟩ := Option.map_eq_some_iff.mp h
  obtain ⟨t, -, hfind⟩ := List.exists_of_findSome?_eq_some hentry
  have hall : (TokenType.classes.all fun c => c.2.toList ≠ Sheet.baseKey) = true := by decide
  simpa using List.all_eq_true.mp hall entry (List.mem_of_find?_eq_some hfind)

section Looks

variable {α : Type} (look : Formatting → α)
  (hlook : look ⟨.default, .default, [.bold]⟩ ≠ look .default)

include hlook

/-- Types that look the same whatever the styles are in the same class, if bold text looks unlike
other text. -/
theorem class?_eq_of_look {type type' : TokenType}
    (h : ∀ sheet, look (classFormatting (.ofSheet sheet) type.class?) =
      look (classFormatting (.ofSheet sheet) type'.class?)) : type.class? = type'.class? := by
  cases hkey : type.class? with
  | some key =>
    have h := h (boldSheet key)
    rw [classFormatting_boldSheet (ne_baseKey_of_class? hkey),
      classFormatting_boldSheet (ne_baseKey_of_class? hkey), if_pos hkey] at h
    by_contra hne
    rw [if_neg (Ne.symm hne)] at h
    exact hlook h
  | none =>
    cases hkey' : type'.class? with
    | none => rfl
    | some key =>
      have h := h (boldSheet key)
      rw [classFormatting_boldSheet (ne_baseKey_of_class? hkey'),
        classFormatting_boldSheet (ne_baseKey_of_class? hkey'), if_pos hkey', hkey,
        if_neg (by simp)] at h
      exact absurd h.symm hlook

/-- Texts that look the same whatever the styles are in the same classes. -/
theorem map_class?_eq_of_look {ts us : List TokenType}
    (h : ∀ sheet, ((ts.map TokenType.class?).map (classFormatting (.ofSheet sheet))).map look =
      ((us.map TokenType.class?).map (classFormatting (.ofSheet sheet))).map look) :
    ts.map TokenType.class? = us.map TokenType.class? := by
  refine List.ext_getElem (by simpa using congrArg List.length (h [])) fun i hi hi' => ?_
  rw [List.getElem_map, List.getElem_map]
  refine class?_eq_of_look look hlook fun sheet => ?_
  have hsame := List.getElem_of_eq (h sheet) (i := i) (by simpa using hi)
  simpa using hsame

end Looks

/-! ## Typing at the end of a line -/

section Typing

variable {line typed : Text} (hline : ∀ c ∈ line, isControl c = false)
  (htyped : ∀ c ∈ typed, isControl c = false)

include hline htyped

/-- What is typed after two texts looks the same, whatever the styles, just if its characters are in
the same classes. -/
theorem typedCells_eq_iff {t : Text} (ht : ∀ c ∈ t, isControl c = false) :
    (∀ sheet, typedCells sheet t typed = typedCells sheet line typed) ↔
      typedClasses t typed = typedClasses line typed := by
  constructor
  · refine fun h => map_class?_eq_of_look id (by decide) fun sheet => ?_
    have hlook := congrArg (List.map Cell.formatting) (h sheet)
    rw [map_formatting_typedCells sheet ht htyped,
      map_formatting_typedCells sheet hline htyped] at hlook
    rw [List.map_id, List.map_id]
    exact hlook
  · intro h sheet
    rw [typedCells_eq sheet ht htyped, typedCells_eq sheet hline htyped, h]

/-- A character typed at the end of a line has the color that it has in the whole line, whatever the
styles, just if it is in the same class in both readings. It is if the readings meet before what was
typed. -/
theorem colors_of_typed :
    ((∀ sheet, typedCells sheet (Brackets.simplify line) typed = typedCells sheet line typed) ↔
      typedClasses (Brackets.simplify line) typed = typedClasses line typed) ∧
    (Lexer.MeetBefore typed (Brackets.simplify line) line →
      ∀ sheet, typedCells sheet (Brackets.simplify line) typed = typedCells sheet line typed) := by
  have hsimplified : ∀ c ∈ Brackets.simplify line, isControl c = false :=
    fun c hc => hline c ((Brackets.simplify_sublist line).subset hc)
  have hiff := typedCells_eq_iff hline htyped hsimplified
  refine ⟨hiff, fun hmeet => hiff.mpr ?_⟩
  rw [typedClasses, Lexer.typesAfter_eq_of_meetBefore hmeet, typedClasses]

end Typing

/-- After a semicolon it does not matter that an array was left out before it. The slashes after an
array divide, but without the array they are shown as a regular expression. -/
theorem colors_of_typed_after_brackets :
    (∀ sheet, typedCells sheet (Brackets.simplify "[1];".toList) "2".toList =
      typedCells sheet "[1];".toList "2".toList) ∧
    ¬ ∀ sheet, typedCells sheet (Brackets.simplify "x=[]".toList) "/2/g".toList =
      typedCells sheet "x=[]".toList "/2/g".toList := by
  have hmeet : Lexer.MeetBefore "2".toList (Brackets.simplify "[1];".toList) "[1];".toList := by
    have hsimplify : Brackets.simplify "[1];".toList = ";".toList := by decide +kernel
    rw [hsimplify]
    exact ⟨1, 4, ⟨.startsRegex, []⟩, ⟨.startsRegex, []⟩, ⟨some ';', ['2']⟩, ⟨some ';', ['2']⟩,
      by decide +kernel, by decide +kernel, ⟨rfl, rfl, rfl, fun _ => rfl⟩, ⟨rfl, Or.inl rfl⟩,
      by decide⟩
  have hclasses : typedClasses (Brackets.simplify "x=[]".toList) "/2/g".toList ≠
      typedClasses "x=[]".toList "/2/g".toList := by
    decide +kernel
  refine ⟨?_, fun h => hclasses ?_⟩
  · exact (colors_of_typed (by simp [isControl]) (by simp [isControl])).2 hmeet
  · exact (colors_of_typed (by simp [isControl]) (by simp [isControl])).1.mp h

end ReplCore.Line
