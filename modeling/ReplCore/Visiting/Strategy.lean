import ReplCore.Value
import ReplCore.Visiting.Visitor

/-!
# Named visitors of labelled trees

Visitors written as data, which refer to each other by name. A visit starts from the visitor named
`top-level` and notes the labels of the nodes at which its basic visitors run.

References may be circular, so a run is given a depth: the number of references that may be under
way at once. More than one for every name at every level of the tree means that a visitor has come
back to itself at the same node, and the visit would never end.
-/

namespace ReplCore

/-- A tree with a label at every node. -/
inductive LabelledTree where
  | leaf (label : Text)
  | branch (label : Text) (children : List LabelledTree)
deriving Repr, Inhabited

namespace LabelledTree

def label : LabelledTree → Text
  | leaf l => l
  | branch l _ => l

def children : LabelledTree → List LabelledTree
  | leaf _ => []
  | branch _ cs => cs

def isLeaf : LabelledTree → Bool
  | leaf _ => true
  | branch _ _ => false

mutual

/-- The number of levels of a tree. -/
def height : LabelledTree → Nat
  | leaf _ => 1
  | branch _ cs => heightAll cs + 1

/-- The greatest number of levels of several trees. -/
def heightAll : List LabelledTree → Nat
  | [] => 0
  | t :: ts => max t.height (heightAll ts)

end

end LabelledTree

/-- A visitor as data. -/
inductive Strategy where
  | identity
  | choice (first second : Strategy)
  | alt (alternatives : List Strategy)
  | andThen (first second : Strategy)
  | all (each : Strategy)
  /-- The visitor of a name. -/
  | reference (name : Text)
  /-- Nothing, at a leaf or else at a branch. -/
  | typed (leaf : Bool)
  /-- A constant. -/
  | constant (value : Value)
  | refuse
  /-- A text that tells the label, if it is the given one. -/
  | labelIs (label : Text)
  /-- The label of a leaf with a text before it. -/
  | labelOfLeaf (start : Text)
deriving Repr, Inhabited

namespace Strategy

/-- What a visit results in. -/
inductive Answer where
  | node (t : LabelledTree)
  | list (answers : List Answer)
  | value (v : Value)
deriving Repr, Inhabited

/-- How a visit fails. -/
inductive Failure where
  /-- There is no visitor of that name. -/
  | unknownName (name : Text)
  /-- A choice between no visitors. -/
  | noAlternatives
  /-- A visitor refers back to itself at the same node. -/
  | circular
deriving Repr, DecidableEq

/-- A visitor of labelled trees that notes labels, oldest first. -/
abbrev Noting := Visitor (List Text) Failure LabelledTree Answer

/-- A visitor that notes the label and then ends as the function says. -/
def noting (f : LabelledTree → Outcome Failure Answer) : Noting := fun t s =>
  (f t, s ++ [t.label])

mutual

/-- Whether every choice has alternatives. -/
def isComplete : Strategy → Bool
  | alt vs => !vs.isEmpty && areComplete vs
  | choice v w => v.isComplete && w.isComplete
  | andThen v w => v.isComplete && w.isComplete
  | all v => v.isComplete
  | _ => true

/-- Whether every choice in each of several visitors has alternatives. -/
def areComplete : List Strategy → Bool
  | [] => true
  | v :: vs => v.isComplete && areComplete vs

end

mutual

/-- The visitor that a strategy describes, with the visitors of names given. -/
def toVisitor (refer : Text → Noting) : Strategy → Noting
  | identity => Visitor.identity.map .node
  | choice v w => (toVisitor refer v).choice (toVisitor refer w)
  | alt vs =>
    match toVisitors refer vs with
    | [] => fun _ s => (.failed .noAlternatives, s)
    | v :: ws => v.alt ws
  | andThen v w => (toVisitor refer v).andThen (toVisitor refer w)
  | all v => ((toVisitor refer v).all LabelledTree.children).map .list
  | reference name => refer name
  | typed leaf => fun t s => (if t.isLeaf = leaf then .result (.value .null) else .refused, s)
  | constant value => noting fun _ => .result (.value value)
  | refuse => noting fun _ => .refused
  | labelIs l => noting fun t =>
      if t.label = l then .result (.value (.text ("is ".toList ++ l))) else .refused
  | labelOfLeaf start =>
    Visitor.only (fun t => if t.isLeaf then some t else none)
      (noting fun t => .result (.value (.text (start ++ t.label))))

/-- The visitors that several strategies describe. -/
def toVisitors (refer : Text → Noting) : List Strategy → List Noting
  | [] => []
  | v :: vs => toVisitor refer v :: toVisitors refer vs

end

/-- Visitors by name. -/
abbrev Dictionary := List (Text × Strategy)

/-- The visitor of a name, with at most `depth` references under way at once. -/
def Dictionary.visitor (d : Dictionary) : (depth : Nat) → Text → Noting
  | 0, _ => fun _ s => (.failed .circular, s)
  | depth + 1, name =>
    match d.find? fun entry => entry.1 = name with
    | none => fun _ s => (.failed (.unknownName name), s)
    | some entry => toVisitor (Dictionary.visitor d depth) entry.2

/-- Visit a tree, with the outcome and the labels noted. Visitors are built before the visit. -/
def Dictionary.visit (d : Dictionary) (t : LabelledTree) : Outcome Failure Answer × List Text :=
  if d.all (·.2.isComplete) then
    d.visitor ((d.length + 1) * (t.height + 1)) "top-level".toList t []
  else (.failed .noAlternatives, [])

end Strategy

end ReplCore
