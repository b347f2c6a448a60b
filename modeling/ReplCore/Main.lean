import ReplCore.CommandLine

/-!
# The program

Reads the tree below the current directory, the packages in the directories above it and the files
that the words name, runs the command line there, and prints the output or says why there is none.
-/

namespace ReplCore.CommandLine

/-- What either of two trees holds, the contents of a file from the first that has it. -/
def merge (s t : FileTree) : FileTree := ⟨s.files ++ t.files, s.directories ++ t.directories⟩

/-- A place, if it is there, and the places below it. The contents of files are not read. -/
partial def loadBelow (place : Path) (entry : IO.FS.DirEntry) : IO FileTree := do
  if !(← entry.path.pathExists) then return ⟨[], []⟩
  else if !(← entry.path.isDir) then return ⟨[(place, .empty)], []⟩
  else
    let mut tree : FileTree := ⟨[], [place]⟩
    for below in ← (try entry.path.readDir catch _ => pure #[]) do
      tree := merge tree (← loadBelow (place ++ [below.fileName.toList]) below)
    return tree

/-- A place that a word may name, with its contents if it is a file. -/
def loadNamed (place : Path) (entry : IO.FS.DirEntry) : IO FileTree := do
  try return ⟨[(place, ← IO.FS.readBinFile entry.path)], []⟩
  catch _ => return ⟨[], if ← entry.path.isDir then [place] else []⟩

/-- The names that the words of a command line may hold. -/
def namesIn (argv : List Text) : List Text := argv.flatMap fun a => a :: (cutAtEquals a).2.toList

/-- Whether the words name a file to read. -/
def namesFile (argv : List Text) : Bool :=
  match words argv >>= Arguments.none.read (fun _ => .ok .empty) with
  | .ok a => a.file.isSome
  | .error _ => true

/-- What is said when there is no output. -/
def Failure.text : Failure → String
  | .usage => "error: ill-formed command line"
  | .help => "usage: [--tokenize | --highlight | --transpile] [--theme THEME] [--no-cdn]"
    ++ " [--verbose] [--log-file FILE] [file]"
  | .file .notFound => "error: no such file"
  | .file .isDirectory => "error: is a directory"
  | .file .notDirectory => "error: not a directory"
  | .file .notText => "error: not text in UTF-8"
  | .file .nullCharacter => "error: null character in the name of a file"
  | .file .nameTooLong => "error: the name of a file is too long"

/-- The exit status of a failure. -/
def Failure.status : Failure → UInt32
  | .usage => 2
  | .help => 0
  | .file _ => 1

end ReplCore.CommandLine

open ReplCore CommandLine

def main (argv : List String) : IO UInt32 := do
  let argv := argv.map String.toList
  let current ← IO.currentDir
  let directory := Path.ofText current.toString.toList
  let mut tree ← loadBelow directory ⟨current, "."⟩
  for above in directory.upwards.tail do
    let packages := above ++ ["node_modules".toList]
    tree := merge tree (← loadBelow packages ⟨current, String.ofList ('/' :: packages.toText)⟩)
  for name in namesIn argv do
    let place := (Path.base directory name ++ Path.ofText name).normal
    tree := merge (← loadNamed place ⟨current, String.ofList name⟩) tree
  let input ← if namesFile argv then pure "" else (← IO.getStdin).readToEnd
  match run tree argv input.toList directory with
  | .ok (.ok result) =>
    IO.print (String.ofList result.output)
    return 0
  | .ok (.error _) => return 1
  | .error f =>
    IO.eprintln f.text
    return f.status
