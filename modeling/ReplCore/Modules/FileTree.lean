import ReplCore.Text.Basic

/-!
# File trees

The directories and files of a file system as a value. A place in the tree is the list of names from
its root, and a path is walked name by name: every name but the last must lead to a directory, an
empty name and a single dot stay in place, and two dots lead up, where the root is above itself. A
written path starts from a directory or, if it is absolute, from the root.
-/

namespace ReplCore

/-- A place in a tree, or a way through it, as names. -/
abbrev Path := List Text

namespace Path

/-- The names of a path written with slashes; empty names and single dots are left out. -/
def ofText (t : Text) : Path :=
  (Text.splitOn '/' t).filter fun name => name ≠ [] ∧ name ≠ ['.']

/-- The path written with slashes; the root is a single dot. -/
def toText (p : Path) : Text := if p.isEmpty then ['.'] else Text.join ['/'] p

/-- Where a written path starts from, as seen from a directory. -/
def base (directory : Path) (written : Text) : Path :=
  if written.head? = some '/' then [] else directory

/-- The path without the names that two dots take back; two dots at the root stay there. -/
def normal (p : Path) : Path :=
  p.foldl (fun place name => if name = "..".toList then place.dropLast else place ++ [name]) []

/-- A place and those above it up to the root, nearest first. -/
def upwards (p : Path) : List Path :=
  (List.range (p.length + 1)).reverse.map fun n => p.take n

end Path

/-- Files with their contents, and directories. The directories above either are there too. -/
structure FileTree where
  files : List (Path × ByteArray)
  directories : List Path

namespace FileTree

/-- Why the system refuses to look a path up. -/
inductive Error where
  | nameTooLong
deriving Repr, DecidableEq

/-- The longest name of a file, in bytes of UTF-8. -/
def maxNameSize : Nat := 255

/-- A path must be shorter, in bytes of UTF-8. -/
def pathSizeLimit : Nat := 4096

/-- Whether a place is a directory. -/
def isDirectory (t : FileTree) (p : Path) : Bool :=
  p.isEmpty || t.directories.any (p.isPrefixOf ·) ||
    t.files.any fun f => p.isPrefixOf f.1 && p.length < f.1.length

/-- The contents of the file at a place. -/
def contents? (t : FileTree) (p : Path) : Option ByteArray :=
  (t.files.find? fun f => f.1 = p).map (·.2)

/-- Whether a place is a file. -/
def isFile (t : FileTree) (p : Path) : Bool := (t.contents? p).isSome

/-- Walk a path from a place: where it leads, or nothing if a directory on the way is missing. -/
def walk (t : FileTree) (place : Path) : Path → Except Error (Option Path)
  | [] => .ok (some place)
  | name :: rest =>
    if !t.isDirectory place then .ok none
    else if name = "..".toList then walk t place.dropLast rest
    else if (String.ofList name).utf8ByteSize > maxNameSize then .error .nameTooLong
    else walk t (place ++ [name]) rest

/-- Where a path leads from a place. The system does not start to walk a path that is too long. -/
def reach (t : FileTree) (place path : Path) : Except Error (Option Path) :=
  if (String.ofList path.toText).utf8ByteSize ≥ pathSizeLimit then .error .nameTooLong
  else t.walk place path

/-- Where a written path leads, as seen from a directory. -/
def follow (t : FileTree) (directory : Path) (written : Text) : Except Error (Option Path) :=
  t.reach (Path.base directory written) (Path.ofText written)

end FileTree

namespace Document

/-- The text of a file: its bytes as UTF-8, with every line end as a line feed. -/
def decode? (bytes : ByteArray) : Option Text :=
  (String.fromUTF8? bytes).map fun s => Text.unifyLineEnds s.toList

end Document

end ReplCore
