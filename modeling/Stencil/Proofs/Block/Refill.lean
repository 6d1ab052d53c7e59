import Stencil.Proofs.Entries
import Stencil.Render.Context

/-!
# Other content in a block

What changes when the block of a slot gets another content and nothing else is changed.

* `RenderContext.refill` gives the block of a slot another content; `RenderContext.Fills` says that the
  slot has a block of a kind.
-/

namespace Stencil

namespace RenderContext

/-- The context with another content in the block of a slot. -/
def refill (slot text : String) (c : RenderContext) : RenderContext :=
  { c with blocks := Table.change slot (fun b => { b with content := text }) c.blocks }

/-- The slot has a block of the kind. -/
def Fills (slot : String) (kind : BlockKind) (c : RenderContext) : Prop :=
  ∃ b, Table.get? slot c.blocks = some b ∧ b.kind = kind

variable {slot text : String} {kind : BlockKind} {c : RenderContext}

theorem blocks_refill : (c.refill slot text).blocks =
    Table.change slot (fun b => { b with content := text }) c.blocks := rfl

theorem get?_refill_of_ne {key : String} (hne : key ≠ slot) :
    Table.get? key (c.refill slot text).blocks = Table.get? key c.blocks := by
  rw [blocks_refill, Table.get?_change, if_neg hne]

theorem get?_refill_self {b : Block} (hb : Table.get? slot c.blocks = some b) :
    Table.get? slot (c.refill slot text).blocks = some { b with content := text } := by
  rw [blocks_refill, Table.get?_change, if_pos rfl, hb]
  rfl

theorem isClaimed_refill (key : String) : (c.refill slot text).isClaimed key = c.isClaimed key := by
  unfold isClaimed refill
  rw [Table.contains_change]

theorem Fills.isClaimed (h : c.Fills slot kind) : c.isClaimed slot = true := by
  obtain ⟨b, hb, -⟩ := h
  simp [RenderContext.isClaimed, Table.contains, hb]

theorem Fills.fillSlot (h : c.Fills slot kind) {key : String} (hne : key ≠ slot) (b : Block) :
    (c.fillSlot key b).Fills slot kind := by
  obtain ⟨b', hb', hkind⟩ := h
  refine ⟨b', ?_, hkind⟩
  change Table.get? slot (Table.insert key b c.blocks) = _
  rw [Table.get?_insert, if_neg hne, hb']

theorem fillSlot_refill {key : String} (hne : key ≠ slot) (b : Block) :
    (c.refill slot text).fillSlot key b = (c.fillSlot key b).refill slot text := by
  unfold RenderContext.fillSlot refill
  rw [Table.insert_change hne]

end RenderContext

end Stencil
