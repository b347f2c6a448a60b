import ReplCore.Text.Quoted

/-!
# Generated expressions

The few forms of expressions that a rewritten statement is made of. Pieces of the user's own code
are carried as raw text. `Expression.print` writes an expression as source text; the builders below
it name the expressions that rewriting needs.
-/

namespace ReplCore

/-- An expression. -/
inductive Expression where
  | raw (text : Text)
  | string (value : Text)
  | member (object : Expression) (property : Text) (isOptional : Bool)
  | index (object key : Expression)
  | call (callee : Expression) (arguments : List Expression)
  /-- A dynamic import, with any text after the source. -/
  | importCall (source : Expression) (options : Text)
  | await (argument : Expression)
  | void (argument : Expression)
  | paren (inner : Expression)
  | arrow (parameters : List Text) (body : Expression)
  | assign (target value : Expression)
  | array (elements : List Expression)
  | nullish (left right : Expression)
  /-- Parts one after the other, without anything between them. -/
  | spliced (parts : List Expression)
deriving Repr, Inhabited

namespace Expression

mutual

/-- The source text of an expression. -/
def print : Expression → Text
  | raw text => text
  | string value => Quoted.json value
  | member object property isOptional =>
    object.print ++ (if isOptional then "?.".toList else ".".toList) ++ property
  | index object key => object.print ++ "[".toList ++ key.print ++ "]".toList
  | call callee arguments =>
    callee.print ++ "(".toList ++ Text.join ", ".toList (printAll arguments) ++ ")".toList
  | importCall source options =>
    "import(".toList ++ source.print ++ options ++ ")".toList
  | await argument => "await ".toList ++ argument.print
  | void argument => "void ".toList ++ argument.print
  | paren inner => "(".toList ++ inner.print ++ ")".toList
  | arrow parameters body =>
    "(".toList ++ Text.join ", ".toList parameters ++ ") => ".toList ++ body.print
  | assign target value => target.print ++ " = ".toList ++ value.print
  | array elements => "[".toList ++ Text.join ", ".toList (printAll elements) ++ "]".toList
  | nullish left right => left.print ++ " ?? ".toList ++ right.print
  | spliced parts => (printAll parts).flatten

/-- The source texts of several expressions. -/
def printAll : List Expression → List Text
  | [] => []
  | e :: es => e.print :: printAll es

end

/-! ## Builders -/

def globalThis : Expression := .raw "globalThis".toList

/-- The parameter of generated callbacks. -/
def result : Expression := .raw "res".toList

/-- The global under a computed key. -/
def globalLookup (key : Text) : Expression := .index globalThis (.string key)

/-- The promise `p` continued with a callback. -/
def andThen (p callback : Expression) : Expression :=
  .call (.member p "then".toList false) [callback]

/-- A promise for a value. -/
def promiseFor (value : Expression) : Expression :=
  .call (.member (.raw "Promise".toList) "resolve".toList false) [value]

/-- The default export of a module that has one, and else the module: what `require` gives. -/
def unwrapDefault (value : Expression) : Expression :=
  .nullish (.member value "default".toList true) value

/-- A callback with the parameter `res`. -/
def callback (body : Expression) : Expression := .arrow ["res".toList] body

def unwrapCallback : Expression := callback (unwrapDefault result)

/-- The callback that pairs a module with what `require` gives for it. -/
def pairCallback : Expression := callback (.array [result, unwrapDefault result])

/-- The callback that stores a module in the global namespace and returns it. -/
def storeCallback (key : Text) : Expression := callback (.paren (.assign (globalLookup key) result))

/-- Where a module comes from when the code runs. -/
inductive Source where
  /-- A promise for the module. -/
  | promise (e : Expression)
  /-- The module itself. -/
  | loaded (e : Expression)

/-- The value of a module once it is there, passed through a callback if there is one. -/
def settle : Source → Option Expression → Expression
  | .promise e, some f => .await (andThen e f)
  | .promise e, none => .await e
  | .loaded e, some f => .call (.paren f) [e]
  | .loaded e, none => e

end Expression

end ReplCore
