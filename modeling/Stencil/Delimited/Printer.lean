import Stencil.Delimited.Template
import Stencil.Pipeline.Printer

/-!
# Canonical sources of templates

Nodes are written as a delimited source: texts as they are, every statement between the delimiters
with a space at both sides.

* `Part` is a part of a program before it is compiled: a text, a statement or a branch.
* `Part.segments` lists the texts and statements of a program in their order, and `Part.source` writes
  them down.
* `Node.parts` are the parts that some nodes are written as, and `Node.source` is their source.
* `Node.areWritable` says which nodes have one.
-/

namespace Stencil

open Delimited (Branch Segment)

/-! ## Programs -/

/-- A part of a program: statements are not read yet. -/
inductive Part where
  | text (s : List Char)
  | action (statement : List Char)
  | branch (b : Branch) (subject : List Char) (body : List Part) (otherwise : Option (List Part))

namespace Delimited

/-- The word that begins a branch. -/
def Branch.word : Branch → List Char
  | .cond => "if".toList
  | .range => "range".toList
  | .scope => "with".toList

/-- The statement that begins a branch. -/
def Branch.statement (b : Branch) (subject : List Char) : List Char := b.word ++ ' ' :: subject

/-- How a segment is written. -/
def Segment.source (d : Delimiters) : Segment → List Char
  | .text s => s
  | .action statement _ => d.opening ++ ' ' :: (statement ++ ' ' :: d.closing)

end Delimited

namespace Part

mutual

/-- The texts and statements of a part, with `pad` behind every text. -/
def segments (pad : List Char) : Part → List Segment
  | .text s => [.text (s ++ pad)]
  | .action statement => [.action statement 0]
  | .branch b subject body none =>
    .action (b.statement subject) 0 :: (segmentsOf pad body ++ [.action "end".toList 0])
  | .branch b subject body (some otherwise) =>
    .action (b.statement subject) 0 :: (segmentsOf pad body ++
      .action "else".toList 0 :: (segmentsOf pad otherwise ++ [.action "end".toList 0]))

/-- The texts and statements of some parts. -/
def segmentsOf (pad : List Char) : List Part → List Segment
  | [] => []
  | p :: ps => segments pad p ++ segmentsOf pad ps

end

/-- The source of some parts, with `pad` behind every text. -/
def source (d : Delimiters) (pad : List Char) (ps : List Part) : List Char :=
  (segmentsOf pad ps).flatMap (Segment.source d)

end Part

/-! ## Nodes -/

namespace Node

/-- The statement that runs another template. -/
def templateText (name : String) (p : Option Pipeline) : List Char :=
  "template ".toList ++ (Value.textLiteral name ++ (p.toList.flatMap fun p => ' ' :: p.text))

mutual

/-- The part that a node is written as; there is an `else` only for nodes. -/
def part : Node → Part
  | .text s => .text s.toList
  | .action _ _ p => .action p.text
  | .cond _ _ p body otherwise => .branch .cond p.text (parts body) (otherwiseParts otherwise)
  | .range _ p body otherwise => .branch .range p.text (parts body) (otherwiseParts otherwise)
  | .scope _ p body otherwise => .branch .scope p.text (parts body) (otherwiseParts otherwise)
  | .template _ name p => .action (templateText name p)

/-- The parts that some nodes are written as. -/
def parts : List Node → List Part
  | [] => []
  | n :: ns => part n :: parts ns

/-- The `else` part of a branch. -/
def otherwiseParts : List Node → Option (List Part)
  | [] => none
  | n :: ns => some (part n :: parts ns)

end

/-- The delimited source of some nodes. -/
def source (d : Delimiters) (ns : List Node) : List Char := Part.source d [] (parts ns)

end Node

/-- The function that the text of a pipeline starts with. -/
def Pipeline.leadingFunction? (p : Pipeline) : Option String :=
  match p.targets, p.commands with
  | [], (.call name :: _) :: _ => some name
  | _, _ => none

namespace Node

/-- The first words that make a statement something else than an action. -/
def reserved : List String := ["if", "else", "end", "range", "with", "define", "template"]

/-- Whether a pipeline has a text. -/
def isPlain (p : Pipeline) : Bool := p.isFormed Value.isLiteral Draft.maxDepth

/-- Whether a text is found again where it ends at an opening delimiter: it does not hold one, nor the
beginning of one that the delimiter completes. -/
def isClear (d : Delimiters) (s : List Char) : Bool :=
  Text.cut? d.opening (s ++ d.opening) = some (s, [])

/-- Whether a statement can stand between delimiters. -/
def fits (d : Delimiters) (statement : List Char) : Bool := Text.cut? d.closing statement = none

/-- Whether the statements of a branch can be written. -/
def branchFits (d : Delimiters) (b : Branch) (p : Pipeline) (otherwise : List Node) : Bool :=
  isPlain p && fits d (b.statement p.text) && fits d "end".toList &&
    (otherwise.isEmpty || fits d "else".toList)

mutual

/-- Whether a node can be written. -/
def isWritable (d : Delimiters) : Node → Bool
  | .text s => s ≠ "" && isClear d s.toList
  | .action _ _ p =>
    isPlain p && fits d p.text && p.leadingFunction?.all fun name => !reserved.contains name
  | .cond _ negated p body otherwise =>
    !negated && branchFits d .cond p otherwise && areWritable d false body &&
      areWritable d false otherwise
  | .range _ p body otherwise =>
    branchFits d .range p otherwise && areWritable d false body && areWritable d false otherwise
  | .scope _ p body otherwise =>
    branchFits d .scope p otherwise && areWritable d false body && areWritable d false otherwise
  | .template _ name p => p.all isPlain && fits d (templateText name p)

/-- Whether some nodes can be written, behind a text or not: no two texts are next to each other. -/
def areWritable (d : Delimiters) (behindText : Bool) : List Node → Bool
  | [] => true
  | .text s :: ns => !behindText && isWritable d (.text s) && areWritable d true ns
  | n :: ns => isWritable d n && areWritable d false ns

end

end Node

end Stencil
