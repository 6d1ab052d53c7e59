import Stencil.Html.Context

/-!
# Output

What a template renders into: a text, and on top of it a stack of frames for the blocks that are
open. A frame catches what is written, drops it, or lets it through to the frame below.

* `Output.write` writes to the innermost frame that does not let text through.
* `Output.push`, `Output.pop` and `Output.discardRoot` change what happens to later writes.
-/

namespace Stencil

/-- An open block. -/
inductive Frame where
  /-- Catches text for a slot. -/
  | capture (slot : String) (kind : BlockKind) (text : String)
  /-- Drops text: the default body of a block that has other content. -/
  | discard
  /-- Lets text through: the default body of a block that has no content. -/
  | through
  deriving DecidableEq

/-- The output of a template, with the innermost frame first. -/
structure Output where
  root : String := ""
  /-- Whether text outside of all blocks is dropped. -/
  discardsRoot : Bool := false
  frames : List Frame := []
  deriving DecidableEq

namespace Output

/-- Writes to the frames; gives nothing if all of them let the text through. -/
def writeFrames (s : String) : List Frame → Option (List Frame)
  | [] => none
  | .capture slot kind text :: fs => some (.capture slot kind (text ++ s) :: fs)
  | .discard :: fs => some (.discard :: fs)
  | .through :: fs => (writeFrames s fs).map (.through :: ·)

/-- Writes a text. -/
def write (o : Output) (s : String) : Output :=
  match writeFrames s o.frames with
  | some frames => { o with frames }
  | none => if o.discardsRoot then o else { o with root := o.root ++ s }

/-- Opens a block. -/
def push (o : Output) (f : Frame) : Output := { o with frames := f :: o.frames }

/-- Closes the innermost block. -/
def pop (o : Output) : Option Frame × Output :=
  match o.frames with
  | [] => (none, o)
  | f :: fs => (some f, { o with frames := fs })

/-- Drops the text outside of all blocks from now on. -/
def discardRoot (o : Output) : Output := { o with discardsRoot := true }

end Output

end Stencil
