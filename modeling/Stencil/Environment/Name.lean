import Stencil.Text.Search

/-!
# Template names

A source is registered under its path without the extensions that name a front end.

* `splitExtensions` takes a path apart into its base, directory included, and its extensions.
* `logicalName` drops the extensions of front ends; the last of them is the front end to use.
-/

namespace Stencil

/-- Whether a character ends a directory name. -/
def isSeparator (c : Char) : Bool := c = '/' || c = '\\'

/-- The directory part of a path, with the separator at its end, and the file name. -/
def splitFile (path : List Char) : List Char × List Char :=
  let file := (path.reverse.takeWhile fun c => !isSeparator c).reverse
  (path.take (path.length - file.length), file)

/-- The parts of a text between dots. -/
def splitDots (current : List Char) : List Char → List (List Char)
  | [] => [current.reverse]
  | c :: s => if c = '.' then current.reverse :: splitDots [] s else splitDots (c :: current) s

/-- The base of a path and its extensions. The first character of a file name is never the dot of an
extension, and empty extensions count for nothing.

Only the first byte of a file name is set apart from the rest, which stops the program with an internal
error if the first character has more bytes than one. No template is registered under such a name, and
what is given for it here, with the whole character set apart, has no meaning. -/
def splitExtensions (path : List Char) : List Char × List (List Char) :=
  let (directory, file) := splitFile path
  let rest := file.drop 1
  let stem := file.take 1 ++ rest.takeWhile (· ≠ '.')
  (directory ++ stem, (splitDots [] (rest.dropWhile (· ≠ '.'))).filter (!·.isEmpty))

/-- The name without the extensions of front ends, added to `name`, and the last of these. -/
def addExtensions (isFrontEnd : String → Bool) (name : List Char) (frontEnd : Option String) :
    List (List Char) → List Char × Option String
  | [] => (name, frontEnd)
  | e :: es =>
    let extension := String.ofList e
    if isFrontEnd extension then addExtensions isFrontEnd name (some extension) es
    else addExtensions isFrontEnd (name ++ '.' :: e) frontEnd es

/-- The name that a path is registered under, and the extension of the front end that reads it. -/
def logicalName (isFrontEnd : String → Bool) (path : String) : String × Option String :=
  let (base, extensions) := splitExtensions path.toList
  let (name, frontEnd) := addExtensions isFrontEnd base none extensions
  (String.ofList name, frontEnd)

end Stencil
