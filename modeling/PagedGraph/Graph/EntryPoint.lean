import PagedGraph.Graph.Basic

/-!
# Entry point and insert cursor

Both are fields of the header on the meta page, which is locked only while one of them is being
changed. An entry point is installed only over a lower one, so its level never decreases.
-/

set_option autoImplicit false

namespace PagedGraph

inductive Promotion where
  /-- The element is the entry point now. -/
  | installed
  /-- Another writer has installed an entry point that is at least as high. -/
  | superseded
  /-- There was no entry point when the element was placed, and now there is this one. -/
  | raced (current : EntryPoint)
  deriving DecidableEq, Repr

namespace Header

def withEntry (h : Header) (e : EntryPoint) : Header :=
  { h with entryPage := e.location.page, entrySlot := e.location.slot, entryLevel := e.level }

end Header

/-- Changes fields of the header. The whole header is stored afresh. -/
def editHeader (f : Header → Header) : Action Unit :=
  editPage metaPage fun _ page => .ok (.replace ((f (Header.onPage page)).writeTo page) ())

def moveCursor (id : PageId) : Action Unit :=
  editHeader fun h => { h with insertPage := id }

/-- Installs an entry point unless another writer has been faster. `prior` is the entry point that
the element was connected through: without one, any entry point found now belongs to a writer who
won the race; with one, the element must still be higher than the entry point found now. -/
def promote (candidate : EntryPoint) (prior : Option EntryPoint) : Action Promotion :=
  editPage metaPage fun _ page =>
    let header := Header.onPage page
    match prior, Store.entryOf header with
    | none, some current => .ok (.keep (.raced current))
    | some _, some current =>
      if candidate.level ≤ current.level then .ok (.keep .superseded)
      else .ok (.replace ((header.withEntry candidate).writeTo page) .installed)
    | _, none => .ok (.replace ((header.withEntry candidate).writeTo page) .installed)

end PagedGraph
