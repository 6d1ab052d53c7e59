import Stencil.Html.Context
import Stencil.Value.Basic

/-!
# Render contexts

Everything that a single rendering works with: the main template, a layout around it, the data, and
two tables of slots. A slot is mapped to a template or holds content that is rendered already; either
claims it.
-/

namespace Stencil

/-- Content that is rendered already, with what it was made for. -/
structure Block where
  content : String
  kind : BlockKind
  deriving DecidableEq

/-- What a rendering works with. -/
structure RenderContext where
  main : Option String := none
  layout : Option String := none
  /-- The templates of slots. -/
  yields : Table String := []
  /-- The contents of slots. -/
  blocks : Table Block := []
  /-- The data. -/
  dot : Value := .undefined

namespace RenderContext

/-- Whether a slot has a template or content. -/
def isClaimed (c : RenderContext) (slot : String) : Bool :=
  Table.contains slot c.yields || Table.contains slot c.blocks

/-- Maps a slot to a template. -/
def mapSlot (c : RenderContext) (slot template : String) : RenderContext :=
  { c with yields := Table.insert slot template c.yields }

/-- Fills a slot with content. -/
def fillSlot (c : RenderContext) (slot : String) (b : Block) : RenderContext :=
  { c with blocks := Table.insert slot b c.blocks }

end RenderContext

end Stencil
