import Stencil.Environment.Basic

/-!
# Templates from files

Sources that stand in files are registered under their paths.

* `FileTree` holds the files below a working directory; `FileTree.file?` finds the contents of a file
  and `FileTree.below?` the files below a directory.
* `Path.components` are the parts of a path that count, and `Path.relativeTo` is the name of a path
  below a base.
* `Environment.addFile` registers one file and `Environment.addDirectory` all files of a directory, in
  the order of their paths.
-/

namespace Stencil

/-! ## Paths -/

namespace Path

/-- The parts of a path between separators, `current` being the part so far, reversed. -/
def splitFrom (current : List Char) : List Char → List String
  | [] => [String.ofList current.reverse]
  | c :: s =>
    if c = '/' then String.ofList current.reverse :: splitFrom [] s else splitFrom (c :: current) s

/-- The parts of a path between separators. -/
def split (path : String) : List String := splitFrom [] path.toList

/-- The parts of a path that count: empty parts and dots are left out, apart from the separator or
dot that a path begins with. -/
def components (path : String) : List String :=
  let parts := split path
  let inner := fun ps : List String => ps.filter fun p => p ≠ "" && p ≠ "."
  match parts with
  | "" :: rest => if rest.isEmpty then [] else "/" :: inner rest
  | "." :: rest => "." :: inner rest
  | parts => inner parts

/-- What follows a list at the start of another. -/
def afterParts? : List String → List String → Option (List String)
  | [], ps => some ps
  | _ :: _, [] => none
  | b :: bs, p :: ps => if b = p then afterParts? bs ps else none

/-- The name of a path: its parts below the base, or all of them if it is not below. -/
def relativeTo (base path : String) : String :=
  let parts := components path
  "/".intercalate ((afterParts? (components base) parts).getD parts)

/-- A path with a relative one after it. -/
def join (base : String) (parts : List String) : String :=
  let rest := "/".intercalate parts
  if base.toList.getLast? = some '/' then base ++ rest else base ++ "/" ++ rest

end Path

/-! ## Files -/

/-- The files below a working directory: their paths, part by part, and their bytes. -/
structure FileTree where
  files : List (List String × ByteArray)

namespace FileTree

/-- Whether there is a directory of that path. -/
def isDirectory (t : FileTree) (path : List String) : Bool :=
  path.isEmpty || t.files.any fun f =>
    match Path.afterParts? path f.1 with
    | some (_ :: _) => true
    | _ => false

/-- Where the parts of a path lead from a directory; only a directory has parts after it, and nothing
lies above the working directory. -/
def walk? (t : FileTree) (here : List String) : List String → Option (List String)
  | [] => some here
  | p :: ps =>
    if !t.isDirectory here then none
    else if p = "" || p = "." then walk? t here ps
    else if p = ".." then if here.isEmpty then none else walk? t here.dropLast ps
    else walk? t (here ++ [p]) ps

/-- Where a path leads. -/
def resolve? (t : FileTree) (path : String) : Option (List String) :=
  match Path.split path with
  | "" :: _ => none
  | parts => walk? t [] parts

/-- The bytes of a file. -/
def file? (t : FileTree) (path : String) : Option ByteArray := do
  let place ← t.resolve? path
  let f ← t.files.find? (·.1 = place)
  return f.2

/-- The paths below a directory, in order, relative to it. -/
def below? (t : FileTree) (directory : String) : Option (List (List String)) := do
  let place ← t.resolve? directory
  if t.isDirectory place then
    let paths := t.files.filterMap fun f => Path.afterParts? place f.1
    return paths.mergeSort fun a b => (compare a b).isLE
  else none

end FileTree

namespace Environment

/-- Compiles a file and registers its templates under its path below a base. -/
def addFile (t : FileTree) (base path : String) : Update PUnit :=
  match (t.file? path).bind String.fromUTF8? with
  | some source => add (Path.relativeTo base path) source
  | none => throw { cause := .unreadableTemplate path }

/-- Registers the files of some paths below a base, up to the first that fails. -/
def addFiles (t : FileTree) (base : String) : List (List String) → Update PUnit
  | [] => pure ()
  | p :: ps => do
    addFile t base (Path.join base p)
    addFiles t base ps

/-- Registers all files of a directory, up to the first that fails. -/
def addDirectory (t : FileTree) (base : String) : Update PUnit :=
  match t.below? base with
  | some paths => addFiles t base paths
  | none => throw { cause := .unreadableDirectory base }

end Environment

end Stencil
