import ReplCore.Log.Moment
import ReplCore.Log.Template.Braced
import ReplCore.Log.Template.Percent

/-!
# Log records

A record of a message is written as one line of JSON with its keys in a fixed order. Where the place
of a call is known more precisely than the record says, that place is written. Values are written as
they are; only the path and the time of a record are looked into.
-/

namespace ReplCore.Log

/-- A place in the source of a program. -/
structure SourcePlace where
  path : Value
  module : Value
  line : Value
  function : Value
deriving Repr

/-- A record of a message. -/
structure Record where
  name : Value
  template : Value
  arguments : List Value
  level : Value
  /-- Where the message was logged. -/
  place : SourcePlace
  /-- The place of the call that the message is about. -/
  caller : Option SourcePlace
  /-- When the message was logged, in seconds since the start of 1970. -/
  created : Value
  thread : Value
  threadName : Value
  processName : Value
  process : Value
deriving Repr

namespace Record

/-- Why a record cannot be written. -/
inductive Error where
  | template (e : TemplateError)
  /-- The path is not a text. -/
  | noPath
  | moment (e : MomentError)
deriving Repr, DecidableEq

/-- The text of the message: a template without arguments is not looked into. -/
def message (r : Record) : Except TemplateError Text :=
  if r.arguments.isEmpty then .ok r.template.plain else Percent.fill r.template.plain r.arguments

/-- The last name of a path; slashes at its end do not count. -/
def fileName (path : Text) : Text :=
  ((((Text.splitOn '/' path).filter fun n => n ≠ [] ∧ n ≠ ['.']).getLast?).getD [])

/-- The place that is written. -/
def shownPlace (r : Record) : SourcePlace := r.caller.getD r.place

/-- The record as an object. -/
def toValue (r : Record) : Except Error Value := do
  let message ← r.message.mapError .template
  let p := r.shownPlace
  match p.path with
  | .text path =>
    let created ← (microseconds? r.created >>= writtenMoment).mapError .moment
    let fields : List (String × Value) :=
      [("name", r.name), ("message", .text message), ("level_name", r.level), ("path_name", p.path),
       ("file_name", .text (fileName path)), ("module", p.module), ("exception", .null),
       ("line_number", p.line), ("function_name", p.function), ("created", .text created),
       ("thread", r.thread), ("thread_name", r.threadName), ("process_name", r.processName),
       ("process", r.process)]
    return .record (fields.map fun f => (f.1.toList, f.2))
  | _ => throw .noPath

/-- The record as a line of JSON. -/
def toJson (r : Record) : Except Error Text := r.toValue.map Value.json

end Record

end ReplCore.Log
