import PagedGraph.Graph.EntryPoint
import PagedGraph.Graph.Draft

/-!
# Finding room for a new pair of records

A new element needs room for its element record and its neighbor record. From the insert cursor
along the page chain, each page is probed in this order:

1. both records fit: the page takes both;
2. the element record fits and this is the last page: one page is appended for the neighbors;
3. a deleted element on the page, other than the entry point, can be overwritten, and the page of
   its neighbor record can take the new neighbor record in place of the old one;
4. there is a next page: it is probed; otherwise a page is appended for the element, and another
   one if the pair does not fit on one page.

While a page is probed it is locked; a placement holds the locks of all pages that it names until
its transaction ends.
-/

set_option autoImplicit false

namespace PagedGraph

/-- The slots of a deleted element whose two records are to be overwritten. -/
structure Reuse where
  elementSlot : Nat
  neighborSlot : Nat
  deriving DecidableEq, Repr

/-- Room for a pair of records: handles of the two pages in the open group. -/
structure Placement where
  elementPage : Nat
  neighborPage : Nat
  reuse : Option Reuse
  /-- The page of the neighbor record of the first deleted element seen. -/
  firstFree : Option PageId
  /-- The insert cursor when the search began. -/
  cursor : PageId
  deriving DecidableEq, Repr

structure PairSize where
  element : Nat
  neighbors : Nat
  deriving DecidableEq, Repr

def PairSize.together (n : PairSize) : Nat := n.element + n.neighbors + Page.itemIdSize

structure Tombstone where
  slot : Nat
  size : Nat
  neighborsAt : Location
  deriving DecidableEq, Repr

/-- The deleted elements on a page from a slot on, the entry point left out. -/
def tombstonesFrom (entry : Option EntryPoint) (id : PageId) (p : Page) :
    Nat → Nat → Except Error (List Tombstone)
  | 0, _ => .ok []
  | count + 1, slot => do
    let bs ← p.item slot
    let here ← if RecordKind.of? bs = some .element then
        (Element.outline bs).map fun o =>
          if o.deleted && entry.map EntryPoint.location != some ⟨id, UInt16.ofNat slot⟩ then
            [Tombstone.mk slot bs.size o.neighborsAt]
          else []
      else .ok []
    return here ++ (← tombstonesFrom entry id p count (slot + 1))

def tombstones (entry : Option EntryPoint) (id : PageId) (p : Page) :
    Except Error (List Tombstone) :=
  tombstonesFrom entry id p p.slotCount 0

/-- Locks another page and keeps it in the group if a replacement of `size` bytes fits a slot on
it. None if the page is locked by somebody else or has no room. -/
def claimSlot (id : PageId) (slot size : Nat) : Transaction (Option Nat) := fun w =>
  match w.store.tryLock id with
  | .error e => .error e w
  | .ok none => .ok none w
  | .ok (some s) =>
    let released := { w with store := s.release (.page id) }
    match (s.readPage id).bind fun p => p.spaceAfterFreeing slot with
    | .error e => .error e released
    | .ok room =>
      if room < size then .ok none released
      else match w.group.register s id with
        | .error e => .error e released
        | .ok (handle, g) => .ok (some handle) ⟨s, g⟩

/-- Looks for a deleted element whose two records can be overwritten; returns the handle of the
page of its neighbor record and its slots. -/
def claimTombstone (size : PairSize) (handle : Nat) (id : PageId) (p : Page) :
    List Tombstone → Transaction (Option (Nat × Reuse))
  | [] => return none
  | t :: rest => do
    let room ← Transaction.ofExcept (p.spaceAfterFreeing t.slot)
    let reuse : Reuse := ⟨t.slot, t.neighborsAt.slot.toNat⟩
    if room < size.element then claimTombstone size handle id p rest
    else if t.neighborsAt.page = id then
      let room ← Transaction.ofExcept (p.spaceAfterFreeing reuse.neighborSlot)
      if room < size.neighbors + (size.element - t.size) then
        claimTombstone size handle id p rest
      else return some (handle, reuse)
    else match ← claimSlot t.neighborsAt.page reuse.neighborSlot size.neighbors with
      | none => claimTombstone size handle id p rest
      | some other => return some (other, reuse)

def appendAfter (handle : Nat) : Transaction Nat := do
  let fresh ← Transaction.append
  let id ← Transaction.pageId fresh
  let page ← Transaction.image handle
  Transaction.setImage handle (page.setNext id)
  return fresh

def probeFrom (size : PairSize) (entry : Option EntryPoint) (cursor : PageId) :
    Nat → PageId → Option PageId → Transaction Placement
  | 0, _, _ => throw .endlessWalk
  | steps + 1, current, firstFree => do
    Transaction.restart
    let handle ← Transaction.register current
    let page ← Transaction.image handle
    if size.together ≤ page.freeSpace then
      return ⟨handle, handle, none, firstFree, cursor⟩
    else if size.element ≤ page.freeSpace ∧ page.next = noPage then
      let fresh ← appendAfter handle
      return ⟨handle, fresh, none, firstFree, cursor⟩
    else
      let deleted ← Transaction.ofExcept (tombstones entry current page)
      let firstFree := firstFree <|> deleted.head?.map fun t => t.neighborsAt.page
      match ← claimTombstone size handle current page deleted with
      | some (neighborPage, reuse) =>
        return ⟨handle, neighborPage, some reuse, firstFree, cursor⟩
      | none =>
        if page.next = noPage then
          let fresh ← appendAfter handle
          if size.together ≤ Page.empty.freeSpace then
            return ⟨fresh, fresh, none, firstFree, cursor⟩
          else
            let second ← appendAfter fresh
            return ⟨fresh, second, none, firstFree, cursor⟩
        else probeFrom size entry cursor steps page.next firstFree

/-- Finds room for a pair of records. A walk that probes more pages than there are has come back
to a page that it could not use, and would go round for ever. -/
def allocate (size : PairSize) : Transaction Placement := do
  let s := (← get).store
  probeFrom size s.entry s.cursor (s.pageCount + 1) s.cursor none

def attempt {α : Type} (what : PairWrite) (x : Except Error α) : Transaction α :=
  Transaction.ofExcept (x.mapError (.pairWrite what))

/-- Where a stored draft lies, and where the insert cursor should go. -/
structure Stored where
  location : Location
  neighborsAt : Location
  cursor : Option PageId
  deriving DecidableEq, Repr

def writeMember (handle : Nat) (what : PairWrite) (write : Page → Except Error Page) :
    Transaction Unit := do
  let image ← Transaction.image handle
  let page ← attempt what (write image)
  Transaction.setImage handle page

def Placement.slots (place : Placement) (elementImage neighborImage : Page) : Nat × Nat :=
  match place.reuse with
  | some r => (r.elementSlot, r.neighborSlot)
  | none =>
    (elementImage.slotCount,
      if place.neighborPage = place.elementPage then elementImage.slotCount + 1
      else neighborImage.slotCount)

def writePair (place : Placement) (slots : Nat × Nat) (element neighbors : Bytes) :
    Transaction Unit :=
  match place.reuse with
  | some _ => do
    writeMember place.elementPage .overwriteElement fun p => p.overwriteItem slots.1 element
    writeMember place.neighborPage .overwriteNeighbors fun p => p.overwriteItem slots.2 neighbors
  | none => do
    writeMember place.elementPage .addElement fun p => (p.addItem element).map Prod.snd
    writeMember place.neighborPage .addNeighbors fun p => (p.addItem neighbors).map Prod.snd

/-- The page to which the insert cursor should go when the neighbor record is stored on it. -/
def Placement.advance (place : Placement) (neighborId : PageId) : Option PageId :=
  if neighborId ≠ place.cursor ∧ (place.reuse = none ∨ place.firstFree = some neighborId) then
    some neighborId
  else none

/-- Finds room for the two records of a draft and writes them. The element record carries the
location of the neighbor record. -/
def placeAndWrite (d : Draft) (m : Nat) : Transaction (Ending Stored) := do
  let neighborBytes := (d.adjacency m).encode
  let place ← allocate ⟨Element.encodedSize d.vector.length, neighborBytes.size⟩
  let elementId ← Transaction.pageId place.elementPage
  let neighborId ← Transaction.pageId place.neighborPage
  let elementImage ← Transaction.image place.elementPage
  let neighborImage ← Transaction.image place.neighborPage
  let slots := place.slots elementImage neighborImage
  let neighborsAt : Location := ⟨neighborId, UInt16.ofNat slots.2⟩
  writePair place slots { d.element with neighborsAt := neighborsAt }.encode neighborBytes
  return .commit {
    location := ⟨elementId, UInt16.ofNat slots.1⟩
    neighborsAt := neighborsAt
    cursor := place.advance neighborId }

def storePair (d : Draft) (m : Nat) : Action Stored := transaction (placeAndWrite d m)

end PagedGraph
