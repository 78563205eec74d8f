/-!
Files as the tool sees them: contents by path, read and written whole.
-/
namespace LittleComputer.Tool

/-- Why a file cannot be read or written. -/
inductive FileFault
  | notFound
  /-- A file stands where the path needs a directory. -/
  | notDirectory
  | isDirectory
  | nameTooLong
  | other (reason : String)
deriving DecidableEq, Repr

def FileFault.message : FileFault → String
  | .notFound => "No such file or directory (os error 2)"
  | .notDirectory => "Not a directory (os error 20)"
  | .isDirectory => "Is a directory (os error 21)"
  | .nameTooLong => "File name too long (os error 36)"
  | .other reason => reason

class Files (m : Type → Type) where
  read : String → m (Except FileFault ByteArray)
  write : String → ByteArray → m (Except FileFault Unit)

/-!
File names and their extensions.  Slashes at the end of a path, and dots between and after them, are
no part of its file name.
-/

/-- A reversed path without what stands after its file name. -/
def trimReversed : List Char → List Char
  | '/' :: rest => trimReversed rest
  | '.' :: '/' :: rest => trimReversed rest
  | path => path

/-- The file name of a path and what stands before it.  Dots alone name a directory. -/
def splitName? (path : List Char) : Option (List Char × List Char) :=
  let reversed := trimReversed path.reverse
  let name := (reversed.takeWhile (· ≠ '/')).reverse
  if name = [] ∨ name = ['.'] ∨ name = ['.', '.'] then none
  else some ((reversed.dropWhile (· ≠ '/')).reverse, name)

/-- A file name up to its last dot, and its extension after it.  A dot at the front begins none. -/
def splitExtension (name : List Char) : List Char × Option (List Char) :=
  match name.reverse.dropWhile (· ≠ '.') with
  | [] => (name, none)
  | [_] => (name, none)
  | _ :: stem => (stem.reverse, some (name.reverse.takeWhile (· ≠ '.')).reverse)

/-- The path with the extension of its file name replaced or added. -/
def setExtension (path extension : List Char) : List Char :=
  match splitName? path with
  | none => path
  | some (directory, name) =>
      let dotted := if extension = [] then [] else '.' :: extension
      directory ++ (splitExtension name).1 ++ dotted

/-- The path with another extension.  As many characters as the old extension has are cut off before
the new one is set. -/
def withExtension (path extension : String) : String :=
  let old := do
    let (_, name) ← splitName? path.toList
    (splitExtension name).2
  let kept := path.toList.take (path.toList.length - (old.getD []).length)
  String.ofList (setExtension kept extension.toList)

/-!
A file system in memory.  A directory is there as long as a file lies in it; the working directory
and those above it are always there.
-/

/-- The names on the way from the root. -/
abbrev Location := List String

structure FileTree where
  workingDirectory : Location
  files : List (Location × ByteArray)

namespace FileTree

def find? (tree : FileTree) (location : Location) : Option ByteArray :=
  tree.files.lookup location

/-- The ways to the working directory and to a file meet only directories. -/
def isDirectory (tree : FileTree) (location : Location) : Bool :=
  location.isPrefixOf tree.workingDirectory || tree.files.any fun (file, _) =>
    location.isPrefixOf file && location.length < file.length

/-- Most bytes of a name. -/
def maxName : Nat := 255

/-- Most bytes of a path. -/
def maxPath : Nat := 4095

/-- Follows the parts of a path from a directory on.  All but the last have to be directories, and
the root is above itself. -/
def follow (tree : FileTree) (here : Location) : List String → Except FileFault Location
  | [] => .ok here
  | part :: rest =>
      if part = "" ∨ part = "." then tree.follow here rest
      else if part = ".." then tree.follow here.dropLast rest
      else if maxName < part.utf8ByteSize then .error .nameTooLong
      else
        let next := here ++ [part]
        if rest.isEmpty then .ok next
        else if tree.isDirectory next then tree.follow next rest
        else .error (if (tree.find? next).isSome then .notDirectory else .notFound)

/-- The texts between slashes, one more than there are slashes. -/
def splitSlashes : List Char → List (List Char)
  | [] => [[]]
  | c :: rest =>
      match splitSlashes rest with
      | [] => [[c]]
      | part :: parts => if c = '/' then [] :: part :: parts else (c :: part) :: parts

def parts (path : String) : List String :=
  (splitSlashes path.toList).map String.ofList

/-- Where a path begins: at the root after a slash, and else in the working directory. -/
def origin (tree : FileTree) (path : String) : Location :=
  if path.toList.head? = some '/' then [] else tree.workingDirectory

def locate (tree : FileTree) (path : String) : Except FileFault Location :=
  if maxPath < path.utf8ByteSize then .error .nameTooLong
  else if path = "" then .error .notFound
  else tree.follow (tree.origin path) (parts path)

def read (tree : FileTree) (path : String) : Except FileFault ByteArray := do
  let location ← tree.locate path
  match tree.find? location with
  | some content => return content
  | none => throw (if tree.isDirectory location then .isDirectory else .notFound)

def store (tree : FileTree) (location : Location) (content : ByteArray) : FileTree :=
  { tree with files := (location, content) :: tree.files.filter fun file => file.1 ≠ location }

/-- A path without the slashes at its end; the root keeps one. -/
def withoutSlashes (path : String) : String :=
  match path.toList with
  | [] => ""
  | c :: rest => String.ofList (c :: (rest.reverse.dropWhile (· = '/')).reverse)

/-- Writes a file.  A path with a slash at its end names a directory, be there one or not. -/
def write (tree : FileTree) (path : String) (content : ByteArray) : Except FileFault FileTree := do
  let location ← tree.locate (withoutSlashes path)
  if withoutSlashes path ≠ path ∨ tree.isDirectory location then throw .isDirectory
  return tree.store location content

instance : Files (StateM FileTree) where
  read path := do return (← get).read path
  write path content := do
    match (← get).write path content with
    | .ok tree =>
        set tree
        return .ok ()
    | .error fault => return .error fault

end FileTree

end LittleComputer.Tool
