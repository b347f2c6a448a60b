import ReplCore.Brackets.Simplify
import ReplCore.Code.Highlight
import ReplCore.Terminal.Repaint

/-!
# The line being edited

A line editor stays in charge of the terminal and passes every write through a renderer, which
colors it. Text typed at the end of the line is written as a repaint of what changes; a write that
starts with the prompt is a redraw of the whole line, in which the bracket that matches the one
under the cursor is underlined; any other write passes through.
-/

namespace ReplCore.Line

/-! ## Kinds of writes -/

/-- What a write of the editor is. -/
inductive WriteKind where
  | passThrough
  | appended
  | fullLine
deriving Repr, DecidableEq

/-- The kind of a write, given the line after it, the prompt, the line before an insertion, and
whether there are colors at all. -/
def classify (payload line prompt : Text) (lineBefore : Option Text) (initialized : Bool) :
    WriteKind :=
  if !initialized ∨ (!payload.isEmpty ∧ payload.all CharClass.isBlank) then .passThrough
  else if lineBefore.any fun before => before ++ payload = line then .appended
  else if prompt.isPrefixOf payload then .fullLine
  else .passThrough

/-! ## Marking a character -/

/-- A private character that stands for the ends of a marked stretch. -/
def sentinel : Char := '\ue000'

/-- The text with the character at a position between sentinels. -/
def mark (t : Text) (position : Int) : Text :=
  t.take (t.offset position) ++
    sentinel :: Text.slice t (t.offset position) (t.offset (position + 1)) ++
    sentinel :: t.drop (t.offset (position + 1))

/-- A text cut at its first marked stretch. -/
structure Marked where
  before : Text
  inside : Text
  after : Text
deriving Repr, DecidableEq

/-- The first stretch between sentinels; there is at least one character in it. -/
def marked? (t : Text) : Option Marked :=
  match t.dropWhile (· ≠ sentinel) with
  | _ :: c :: rest =>
    match rest.dropWhile (· ≠ sentinel) with
    | _ :: after => some ⟨t.takeWhile (· ≠ sentinel), c :: rest.takeWhile (· ≠ sentinel), after⟩
    | [] => none
  | _ => none

/-! ## The renderer -/

/-- How a matching bracket is shown. -/
def emphasis : Style := ⟨none, none, [.underline]⟩

/-- Whether one of the characters that take part in pairs is at an offset. -/
def isOnBracket (line : Text) (cursor : Int) : Bool :=
  (Text.slice line (line.offset cursor) (line.offset (cursor + 1))).any fun c =>
    c ∈ PairKind.characters

/-- The state of a renderer. -/
structure Renderer where
  /-- The styles, if there are colors. -/
  styles : Option StyleSheet
  /-- Whether the matching bracket is shown. -/
  emphasizes : Bool
  line : Text
  cursor : Int
  /-- The line as it was before the insertion that is under way. -/
  lineBefore : Option Text
  /-- Where the bracket to be shown is. -/
  bracket : Option Nat
deriving Repr, DecidableEq

namespace Renderer

def fresh (styles : Option StyleSheet) (emphasizes : Bool) : Renderer :=
  ⟨styles, emphasizes, [], 0, none, none⟩

def initialized (r : Renderer) : Bool := r.styles.isSome

end Renderer

/-- What to write for text typed at the end of a line. Complete pairs are left out of the line,
which keeps the text to highlight short. -/
def renderAppended (styles : StyleSheet) (lineBefore typed : Text) : Text :=
  let simplified := Brackets.simplify lineBefore
  Repaint.write (Highlight.highlight styles simplified)
    (Highlight.highlight styles (simplified ++ typed))

/-- The text with the marked stretch emphasized. The emphasis takes back all formatting, so what was
in force is set again after it. -/
def emphasizeMarked (highlighted : Text) : Text :=
  match marked? highlighted with
  | none => highlighted
  | some m =>
    let upTo := m.before ++ sentinel :: m.inside ++ [sentinel]
    m.before ++ emphasis.render m.inside ++ (Repaint.carried upTo).flatten ++ m.after

/-- What to write for a whole line, given where the bracket to be shown is. -/
def renderFullLine (styles : StyleSheet) (bracket : Option Nat) (t : Text) : Text :=
  match bracket with
  | none => Highlight.highlight styles t
  | some position =>
    if t.length ≤ position then Highlight.highlight styles t
    else
      (emphasizeMarked (Highlight.highlight styles (mark t position))).filter (· ≠ sentinel)

/-- A write of the editor, with the line after it and the prompt. -/
structure Write where
  payload : Text
  line : Text
  prompt : Text
deriving Repr, DecidableEq

namespace Renderer

/-- What to write to the terminal for a write of the editor. -/
def render (r : Renderer) (w : Write) : Text × Renderer :=
  if w.payload.isEmpty then ([], r)
  else
    let after := { r with line := w.line }
    match r.styles with
    | none => (w.payload, after)
    | some styles =>
      match classify w.payload w.line w.prompt r.lineBefore true with
      | .appended => (renderAppended styles (r.lineBefore.getD []) w.payload, after)
      | .fullLine =>
        (w.prompt ++ renderFullLine styles r.bracket (w.payload.drop w.prompt.length), after)
      | .passThrough => (w.payload, after)

/-- What to write for several writes in order. -/
def renderAll (r : Renderer) : List Write → List Text × Renderer
  | [] => ([], r)
  | w :: ws =>
    let (t, r) := r.render w
    let (ts, r) := r.renderAll ws
    (t :: ts, r)

/-- The renderer when the editor starts to insert text. -/
def startInserting (r : Renderer) (before : Text) : Renderer := { r with lineBefore := some before }

/-- The renderer when the editor has inserted text. -/
def stopInserting (r : Renderer) : Renderer := { r with lineBefore := none }

/-- The renderer when the editor starts to redraw a line. -/
def startRefreshing (r : Renderer) (line : Text) (cursor : Int) : Renderer :=
  { r with
    line := line
    cursor := cursor
    bracket :=
      if r.initialized ∧ r.emphasizes ∧ isOnBracket line cursor then Brackets.matching? line cursor
      else r.bracket }

/-- The renderer when the editor has redrawn a line. -/
def stopRefreshing (r : Renderer) : Renderer := { r with bracket := none }

/-- Note a move of the cursor. The line must be redrawn if the cursor was or is on a bracket. -/
def moveCursor (r : Renderer) (line : Text) (old new : Int) : Bool × Renderer :=
  (isOnBracket line old || isOnBracket line new, { r with line := line, cursor := new })

/-! ## Operations as data -/

/-- What the editor does. -/
inductive Action where
  | write (writes : List Write)
  | insert (before : Text) (writes : List Write)
  | refresh (line : Text) (cursor : Int) (writes : List Write)
  | move (line : Text) (old new : Int)
deriving Repr

/-- What comes of an action: what was written and the state before its end, or whether to redraw
the line. -/
inductive Reply where
  | written (out : List Text)
  | writtenInside (out : List Text) (inside : Renderer)
  | refresh (needed : Bool)
deriving Repr

/-- The reply to an action and the renderer after it. -/
def serve (r : Renderer) : Action → Reply × Renderer
  | .write ws =>
    let (out, r) := r.renderAll ws
    (.written out, r)
  | .insert before ws =>
    let (out, r) := (r.startInserting before).renderAll ws
    (.writtenInside out r, r.stopInserting)
  | .refresh line cursor ws =>
    let (out, r) := (r.startRefreshing line cursor).renderAll ws
    (.writtenInside out r, r.stopRefreshing)
  | .move line old new =>
    let (needed, r) := r.moveCursor line old new
    (.refresh needed, r)

end Renderer

end ReplCore.Line
