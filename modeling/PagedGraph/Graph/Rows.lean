import PagedGraph.Graph.Basic

/-!
# Rows of an element

Two updates that replace one element record in its slot: a further row joins an element with the
same vector, and an element is deleted. A deleted element gives up all its rows at once, so an
element whose row list is empty is on its way out and takes no new row.
-/

set_option autoImplicit false

namespace PagedGraph

/-- Adds a row to the element at a location; false, and nothing written, if the element is deleted,
has lost its rows, or has no room for another one. -/
def attachRow (l : Location) (row : RowId) : Action Bool :=
  editPage l.page fun _ page => do
    let e ← page.element l
    match e.firstFreeRow with
    | none => return .keep false
    | some place =>
      if place = 0 ∨ e.deleted then return .keep false
      else
        let joined := { e with rowSlots := e.rowSlots.setIfInBounds place row }
        return .replace (← page.overwriteItem l.slot.toNat joined.encode) true

/-- Marks the element at a location as deleted and clears its rows; false if it was deleted
already. Both records stay where they are: neighbors keep their links to them until the space is
used again. -/
def markDeleted (l : Location) : Action Bool :=
  editPage l.page fun _ page => do
    let e ← page.element l
    if e.deleted then return .keep false
    else return .replace (← page.overwriteItem l.slot.toNat e.tombstone.encode) true

end PagedGraph
