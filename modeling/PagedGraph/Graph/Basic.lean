import PagedGraph.Graph.Candidate
import PagedGraph.Store.Transaction

/-!
# The graph on the pages

Elements and their neighbor records lie in the slots of the data pages and refer to each other by
location. This module reads them: a single record, the neighbors of an element, the chain of data
pages and all elements along it.
-/

set_option autoImplicit false

namespace PagedGraph

structure Params where
  /-- Fan-out above layer 0. -/
  m : Nat
  /-- Beam width while neighbors are chosen. -/
  searchWidth : Nat
  metric : Metric
  /-- The highest level that callers may ask for. -/
  maxLevel : Nat
  deriving DecidableEq, Repr

namespace Params

def standard : Params := ⟨16, 64, .euclidean, PagedGraph.maxLevel 16⟩

def capacity (p : Params) (layer : Nat) : Nat := layerCapacity p.m layer

end Params

namespace Page

def element (p : Page) (l : Location) : Except Error Element :=
  (p.item l.slot.toNat).bind fun bs => (Element.decode bs).mapError (.badElement l)

def adjacency (p : Page) (l : Location) : Except Error Adjacency :=
  (p.item l.slot.toNat).bind fun bs => (Adjacency.decode bs).mapError (.badNeighbors l)

end Page

namespace Store

def element (s : Store) (l : Location) : Except Error Element :=
  (s.readPage l.page).bind fun p => p.element l

def adjacency (s : Store) (l : Location) : Except Error Adjacency :=
  (s.readPage l.page).bind fun p => p.adjacency l

def isLive (s : Store) (l : Location) : Bool :=
  match s.element l with
  | .ok e => !e.deleted
  | .error _ => false

/-- The element at a location, if there is one and it is not deleted. A location that cannot be
looked up without leaving its page is no answer. -/
def liveElement? (s : Store) (l : Location) : Except Error (Option Element) :=
  match s.element l with
  | .ok e => .ok (if e.deleted then none else some e)
  | .error .outsidePage => .error .outsidePage
  | .error _ => .ok none

def neighbors (s : Store) (m : Nat) (e : Element) (layer : Nat) :
    Except Error (List Location) :=
  if e.level.toNat < layer then .ok []
  else (s.adjacency e.neighborsAt).map fun a => a.layer e.level.toNat layer m

/-- Follows the chain from a page, given the pages already passed in reverse order. -/
def chainFrom (s : Store) : Nat → PageId → List PageId → Except Error (List PageId)
  | steps, current, passed =>
    if current = noPage then .ok passed.reverse
    else if passed.contains current then .error (.chainLoop current)
    else match s.readPage current with
      | .error e => .error e
      | .ok p => match steps with
        | 0 => .error (.chainLoop current)
        | steps + 1 => chainFrom s steps p.next (current :: passed)

/-- The data pages in chain order. No page comes twice, so there are at most as many steps as
pages. -/
def chain (s : Store) : Except Error (List PageId) := s.chainFrom s.pages.size firstDataPage []

def elementsFrom (id : PageId) (p : Page) : Nat → Nat → Except Error (List (Location × Element))
  | 0, _ => .ok []
  | count + 1, slot => do
    let bs ← p.item slot
    let here ← if RecordKind.of? bs = some .element then
        (Element.decode bs).map fun e => [(Location.mk id (UInt16.ofNat slot), e)]
      else .ok []
    return here ++ (← elementsFrom id p count (slot + 1))

def scan (s : Store) : Except Error (List (Location × Element)) := do
  let pages ← (← s.chain).mapM fun id => do
    let p ← s.readPage id
    elementsFrom id p p.slotCount 0
  return pages.flatten

def entryOf (h : Header) : Option EntryPoint :=
  if h.hasEntry then some ⟨⟨h.entryPage, h.entrySlot⟩, h.entryLevel⟩ else none

def entry (s : Store) : Option EntryPoint := entryOf s.header

/-- The page at which the search for free space starts. -/
def cursor (s : Store) : PageId := s.header.insertPage

end Store

end PagedGraph
