import ReplCore.Modules.FileTree
import ReplCore.Modules.Specifier

/-!
# Local lookup

A package is looked up as a file in a directory would: in the `node_modules` of the directory, then
of the directories above it. A path inside the package may leave out its extension.
-/

namespace ReplCore

/-- Why a lookup fails to give an answer. -/
inductive LookupError where
  | specifier (e : Specifier.Error)
  | system (e : FileTree.Error)
deriving Repr, DecidableEq

namespace LocalModule

/-- What may be added to a path inside a package, in the order in which it is tried. -/
def extensions : List Text :=
  ["".toList, ".js".toList, ".mjs".toList, ".cjs".toList, ".json".toList, "/index.js".toList]

/-- The first file that the path leads to, with an extension, from the package at `place`. An
absolute path leads out of the package. -/
def fileIn (t : FileTree) (place : Path) (subpath : Text) :
    List Text → Except FileTree.Error (Option Path)
  | [] => .ok none
  | extension :: rest => do
    match ← t.follow place (subpath ++ extension) with
    | some found => if t.isFile found then return some found else fileIn t place subpath rest
    | none => fileIn t place subpath rest

/-- What a directory's own `node_modules` holds for a package and a path inside it. -/
def within (t : FileTree) (directory : Path) (name subpath : Text) :
    Except FileTree.Error (Option Path) := do
  match ← t.reach directory ("node_modules".toList :: Path.ofText name) with
  | none => return none
  | some package =>
    if !t.isDirectory package then return none
    else if subpath.isEmpty then return some package
    else fileIn t package subpath extensions

/-- The first of the directories that holds the module. -/
def firstWithin (t : FileTree) (name subpath : Text) :
    List Path → Except FileTree.Error (Option Path)
  | [] => .ok none
  | directory :: rest => do
    match ← within t directory name subpath with
    | some found => return some found
    | none => firstWithin t name subpath rest

/-- The place of a module as seen from a directory. -/
def find (t : FileTree) (directory : Path) (specifier : Text) :
    Except LookupError (Option Path) :=
  match Specifier.splitPackage specifier with
  | .error e => .error (.specifier e)
  | .ok (name, subpath) =>
    match firstWithin t name subpath directory.upwards with
    | .error e => .error (.system e)
    | .ok found => .ok found

end LocalModule

end ReplCore
