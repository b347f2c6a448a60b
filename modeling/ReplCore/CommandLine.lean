import ReplCore.Code.Highlight
import ReplCore.Code.Token
import ReplCore.Session

/-!
# The command line

The program reads a file or its standard input and prints its tokens, its text with colors, or its
text as it would be evaluated. The name of an option may be cut short as long as it stays unique. A
file is opened as soon as its argument is read, so a missing file is found before a fault in a later
argument.
-/

namespace ReplCore.CommandLine

/-! ## Words -/

/-- The options of the program. -/
inductive Switch where
  | help
  | tokenize
  | highlight
  | transpile
  | theme
  | noCdn
  | verbose
  | logFile
deriving Repr, DecidableEq

namespace Switch

/-- The options with their names. -/
def names : List (String × Switch) :=
  [("-h", help), ("--help", help), ("--tokenize", tokenize), ("--highlight", highlight),
   ("--transpile", transpile), ("--theme", theme), ("--no-cdn", noCdn), ("--verbose", verbose),
   ("--log-file", logFile)]

/-- Whether the option has a value. -/
def hasValue : Switch → Bool
  | theme | logFile => true
  | _ => false

/-- Whether the option says what to print. At most one of these may be given. -/
def isMode : Switch → Bool
  | tokenize | highlight | transpile => true
  | _ => false

/-- The option of a full name. -/
def ofName? (t : Text) : Option Switch := (names.find? fun n => n.1.toList = t).map (·.2)

/-- The options whose long names start with a text. -/
def startingWith (t : Text) : List Switch :=
  (names.filter fun n => t.isPrefixOf n.1.toList).map (·.2)

end Switch

/-- A word of the command line. -/
inductive Word where
  | plain (t : Text)
  /-- An option, perhaps with a value attached to it. -/
  | switch (s : Switch) (attached : Option Text)
  | unknown (t : Text)
  /-- The two hyphens that end the options. -/
  | separator
deriving Repr, DecidableEq

/-- How running the program fails, besides an ill-formed command line. -/
inductive FileFault where
  | notFound
  | isDirectory
  | notDirectory
  /-- The bytes of a file are not UTF-8. -/
  | notText
  /-- The name of a file holds a null character. -/
  | nullCharacter
  | nameTooLong
deriving Repr, DecidableEq

/-- How running the program ends without output. -/
inductive Failure where
  /-- The command line is ill-formed. -/
  | usage
  /-- Help was asked for. -/
  | help
  | file (f : FileFault)
deriving Repr, DecidableEq

/-- The text before the first equals sign and the text after it. -/
def cutAtEquals (t : Text) : Text × Option Text :=
  match t.dropWhile (· ≠ '=') with
  | [] => (t, none)
  | _ :: value => (t.takeWhile (· ≠ '='), some value)

/-- Whether a text is a minus sign and a decimal number. -/
def isNegativeNumber (t : Text) : Bool :=
  match t with
  | '-' :: digits =>
    let whole := digits.takeWhile CharClass.isDigit
    match digits.dropWhile CharClass.isDigit with
    | [] => !whole.isEmpty
    | '.' :: part => !part.isEmpty && part.all CharClass.isDigit
    | _ => false
  | _ => false

/-- The word in which `rest` follows `-h`, perhaps after an equals sign. The letters of such a word
are options of one letter each, and there is only this one: to repeat it asks for help all the same.
Anything else is a value, which the option does not have. -/
def Word.afterHelp (rest : Text) : Word :=
  let tail :=
    match rest with
    | '=' :: value => value
    | _ => rest
  .switch .help (if !tail.isEmpty && tail.all (· = 'h') then none else some tail)

/-- The kind of a word. A shortened name that fits several options is an error. -/
def classify (t : Text) : Except Failure Word :=
  if t.head? ≠ some '-' ∨ t.length = 1 then .ok (.plain t)
  else
    match Switch.ofName? t, t with
    | some s, _ => .ok (.switch s none)
    | none, '-' :: 'h' :: rest => .ok (.afterHelp rest)
    | none, _ =>
      let (name, value) := cutAtEquals t
      match (if value.isSome then Switch.ofName? name else none) with
      | some s => .ok (.switch s value)
      | none =>
        match (if "--".toList.isPrefixOf t then Switch.startingWith name else []) with
        | [s] => .ok (.switch s value)
        | _ :: _ :: _ => .error .usage
        | [] =>
          if isNegativeNumber t ∨ ' ' ∈ t then .ok (.plain t) else .ok (.unknown t)

/-- The words of a command line. After two hyphens all words are plain. -/
def words : List Text → Except Failure (List Word)
  | [] => .ok []
  | t :: ts =>
    if t = "--".toList then .ok (.separator :: ts.map .plain)
    else do
      let w ← classify t
      return w :: (← words ts)

/-! ## Arguments -/

/-- What a command line asks for. -/
structure Arguments where
  /-- The name and the contents of the file to read. -/
  file : Option (Text × ByteArray)
  mode : Option Switch
  theme : Option Text
  noCdn : Bool
  logFile : Option Text
  /-- Whether there are words that have no place. -/
  hasExtra : Bool

namespace Arguments

def none : Arguments := ⟨.none, .none, .none, false, .none, false⟩

/-- The arguments with an option that has no value. -/
def withSwitch (a : Arguments) (s : Switch) : Except Failure Arguments :=
  if s.isMode then
    if a.mode.all (· = s) then .ok { a with mode := some s } else .error .usage
  else
    match s with
    | .help => .error .help
    | .noCdn => .ok { a with noCdn := true }
    | _ => .ok a

/-- The arguments with the value of an option. -/
def withValue (a : Arguments) (s : Switch) (value : Text) : Arguments :=
  match s with
  | .theme => { a with theme := some value }
  | _ => { a with logFile := some value }

/-- Read words in order. Files are opened through `openFile`. The separator may stand right after
the file, but nowhere else once there is a file. -/
def read (openFile : Text → Except FileFault ByteArray) : Arguments → List Word →
    Except Failure Arguments
  | a, [] => if a.hasExtra then .error .usage else .ok a
  | a, .plain t :: ws =>
    if a.file.isSome then read openFile { a with hasExtra := true } ws
    else
      match openFile t with
      | .ok bytes =>
        match ws with
        | .separator :: ws => read openFile { a with file := some (t, bytes) } ws
        | ws => read openFile { a with file := some (t, bytes) } ws
      | .error .nullCharacter => .error .usage
      | .error f => .error (.file f)
  | a, .unknown _ :: ws => read openFile { a with hasExtra := true } ws
  | a, .separator :: ws => read openFile { a with hasExtra := a.hasExtra || a.file.isSome } ws
  | a, .switch s (some value) :: ws =>
    if s.hasValue then read openFile (a.withValue s value) ws else .error .usage
  | a, .switch s .none :: ws =>
    if s.hasValue then
      match ws with
      | .plain value :: ws => read openFile (a.withValue s value) ws
      | _ => .error .usage
    else do read openFile (← a.withSwitch s) ws

end Arguments

/-! ## Running -/

/-- What a file name leads to, as seen from a directory. -/
def openIn (t : FileTree) (directory : Path) (name : Text) : Except FileFault ByteArray :=
  if '\x00' ∈ name then .error .nullCharacter
  else if name.isEmpty then .error .notFound
  else
    match t.follow directory name with
    | .error .nameTooLong => .error .nameTooLong
    | .ok none =>
      let base := Path.base directory name
      if (Path.upwards (Path.ofText name).dropLast).any fun p => t.isFile (base ++ p) then
        .error .notDirectory
      else .error .notFound
    | .ok (some place) =>
      match t.contents? place with
      | some bytes =>
        if name.getLast? = some '/' then .error .notDirectory else .ok bytes
      | none => if t.isDirectory place then .error .isDirectory else .error .notFound

/-- Whether a log can be written to a file, which need not be there yet. -/
def openLog (t : FileTree) (directory : Path) (name : Text) : Except FileFault Unit :=
  let place := Path.normal (Path.base directory name ++ Path.ofText name)
  if '\x00' ∈ name then .error .nullCharacter
  else
    match t.reach [] place with
    | .error .nameTooLong => .error .nameTooLong
    | .ok _ =>
      if t.isDirectory place then .error .isDirectory
      else if t.isFile place ∨ t.isDirectory place.dropLast then .ok ()
      else if (Path.upwards place.dropLast).any fun p => t.isFile p then .error .notDirectory
      else .error .notFound

/-- A token as an object of JSON. -/
def tokenJson (t : Token) : Text :=
  "\x7b\x22type\x22: ".toList ++ Quoted.json t.kind.toText ++ ", \x22value\x22: ".toList
    ++ Quoted.json t.text ++ ", \x22start\x22: ".toList ++ Text.ofNat t.start
    ++ ", \x22end\x22: ".toList ++ Text.ofNat t.stop ++ "\x7d".toList

/-- Tokens as an array of JSON. -/
def tokensJson (ts : List Token) : Text :=
  "[".toList ++ Text.join ", ".toList (ts.map tokenJson) ++ "]".toList

/-- The configuration that the arguments describe. -/
def config (a : Arguments) : ReplConfig :=
  .ofMapping
    ([("extensions".toList, .record [("cdn".toList, .bool !a.noCdn)])]
      ++ (a.theme.map fun t => ("theme".toList, Value.text t)).toList)

/-- The name of standard input. -/
def standardInput : Text := "<stdin>".toList

/-- Why there is no output for a text. -/
inductive OutputError where
  | session (e : Session.Error)
  | step (e : Session.StepError)
deriving Repr, DecidableEq

/-- What is printed for a text, as seen from a directory. -/
def output (t : FileTree) (directory : Path) (a : Arguments) (name code : Text) :
    Except OutputError Text :=
  let c := config a
  let contents? := fun path => (openIn t directory path).toOption
  match a.mode with
  | some .tokenize => .ok (tokensJson (Token.tokenize code))
  | some .highlight =>
    match Session.styles? contents? c.theme c.sheet with
    | .ok styles => .ok (Highlight.highlight styles code)
    | .error e => .error (.session e)
  | _ =>
    match Session.ofConfig? contents? c none with
    | .ok s => (s.transpile (.inTree t directory) code none name).1.mapError .step
    | .error e => .error (.session e)

/-- What a run of the program gives: its output and the name of what it read. -/
structure Result where
  output : Text
  name : Text
deriving Repr, DecidableEq

/-- Run the program with the given words in a directory of a file tree. -/
def run (t : FileTree) (argv : List Text) (input : Text) (directory : Path := []) :
    Except Failure (Except OutputError Result) := do
  let ws ← words argv
  let a ← Arguments.none.read (openIn t directory) ws
  match a.logFile with
  | some log =>
    match openLog t directory log with
    | .ok () => pure ()
    | .error f => throw (.file f)
  | none => pure ()
  let name := (a.file.map (·.1)).getD standardInput
  let code ←
    match a.file with
    | some (_, bytes) =>
      match Document.decode? bytes with
      | some code => pure code
      | none => throw (.file .notText)
    | none => pure input
  return (output t directory a name code).map fun out => ⟨out, name⟩

end ReplCore.CommandLine
