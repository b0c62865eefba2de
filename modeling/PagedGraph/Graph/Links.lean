import PagedGraph.Graph.Search
import PagedGraph.Graph.Draft
import PagedGraph.Store.Turns

/-!
# Links back to a new element

A stored element is entered into the neighbor lists of its own neighbors. These were chosen without
locks, so each of them is read again before the write, and the slot is looked up again under the
lock: a neighbor that no longer qualifies is skipped, and a write that no longer fits is dropped.

A full list gives up its worst entry, and only for a closer one. Entries that are deleted or cannot
be read count as infinitely far away; but an entry whose item id would lie outside of its page ends
the call, before anything is written.
-/

set_option autoImplicit false

namespace PagedGraph

/-- The place of a new link within a layer's segment. -/
inductive LinkPlace where
  /-- Replaces the entry at this offset of the segment. -/
  | at (offset : Nat)
  /-- The first unused slot of the segment. -/
  | unused
  deriving DecidableEq, Repr

/-- A neighbor that accepts a link to the new element. -/
structure Connection where
  neighborsAt : Location
  level : Nat
  place : LinkPlace
  deriving DecidableEq, Repr

namespace Store

def entryDistance (s : Store) (metric : Metric) (owner : Embedding) (l : Location) :
    Except Error FloatBits :=
  (s.liveElement? l).map fun
    | some e => metric.distance owner e.vector
    | none => FloatBits.infinity

/-- The offset and distance of the first entry than which none is farther. -/
def farthest (distances : List FloatBits) : Option (Nat × FloatBits) :=
  distances.zipIdx.foldl
    (fun worst (d, offset) => match worst with
      | none => some (offset, d)
      | some (_, w) => if FloatBits.below w d then some (offset, d) else worst)
    none

/-- Whether a candidate accepts a link to the draft in a layer, and where. -/
def connection? (s : Store) (p : Params) (d : Draft) (candidate : Location) (layer : Nat) :
    Except Error (Option Connection) :=
  match s.element candidate with
  | .error e => .error e
  | .ok target =>
    let level := target.level.toNat
    if target.deleted ∨ level < layer then .ok none
    else match s.adjacency target.neighborsAt with
      | .error e => .error e
      | .ok a =>
        let segment := a.segment level layer p.m
        if segment.length < p.capacity layer ∨ d.location ∈ segment then .ok none
        else if (segment.filter Location.isUsed).length < p.capacity layer then
          .ok (some ⟨target.neighborsAt, level, .unused⟩)
        else match segment.mapM (s.entryDistance p.metric target.vector) with
          | .error e => .error e
          | .ok distances => match farthest distances with
            | none => .ok none
            | some (offset, worst) =>
              if FloatBits.below (p.metric.distance target.vector d.vector) worst then
                .ok (some ⟨target.neighborsAt, level, .at offset⟩)
              else .ok none

end Store

def Connection.slot? (c : Connection) (m layer : Nat) (a : Adjacency) : Option Nat :=
  let start := (c.level - layer) * m
  match c.place with
  | .at offset => some (start + offset)
  | .unused => (List.range' start (layerCapacity m layer)).find? fun i =>
      match a.slots[i]? with
      | some l => !l.isUsed
      | none => false

/-- Writes a link under the lock of the page that holds the neighbor record. -/
def writeLink (p : Params) (target : Location) (c : Connection) (layer : Nat) : Action Unit :=
  editPage c.neighborsAt.page fun _ page => do
    let a ← page.adjacency c.neighborsAt
    match c.slot? p.m layer a with
    | none => return .keep ()
    | some i =>
      if i < a.slots.length then
        let linked : Adjacency := ⟨a.slots.set i target⟩
        return .replace (← page.overwriteItem c.neighborsAt.slot.toNat linked.encode) ()
      else return .keep ()

section
variable {τ : Type}

def linkCandidate (p : Params) (d : Draft) (layer : Nat) (candidate : Location) :
    Turns τ Unit := do
  if candidate = d.location then return
  else match ← Turns.act (Action.reading fun s => s.connection? p d candidate layer) with
    | none => return
    | some c => Turns.act (writeLink p d.location c layer)

def linkEach (p : Params) (d : Draft) (layer : Nat) : List Candidate → Turns τ Unit
  | [] => return
  | c :: rest => do
    linkCandidate p d layer c.location
    linkEach p d layer rest

/-- Links the candidates of a layer and of all layers below it, the higher layers first. -/
def linkFrom (p : Params) (d : Draft) : Nat → Turns τ Unit
  | 0 => linkEach p d 0 (d.neighbors.getD 0 [])
  | layer + 1 => do
    linkEach p d (layer + 1) (d.neighbors.getD (layer + 1) [])
    linkFrom p d layer

def linkNeighbors (p : Params) (d : Draft) : Turns τ Unit := linkFrom p d d.level.toNat

end

/-- The candidates at locations that have not been seen, each location once. -/
def unseen (seen : List Location) : List Candidate → List Candidate
  | [] => []
  | c :: cs =>
    if c.location ∈ seen then unseen seen cs else c :: unseen (c.location :: seen) cs

def ownCandidate (s : Store) (p : Params) (d : Draft) (l : Location) :
    Except Error (Option Candidate) :=
  (s.liveElement? l).map fun found =>
    found.map fun e => ⟨l, p.metric.distance d.vector e.vector⟩

def ownCandidates (s : Store) (p : Params) (d : Draft) (current : List Location) :
    Except Error (List Candidate) :=
  (current.mapM (ownCandidate s p d)).map fun found => found.filterMap id

def closest (p : Params) (d : Draft) (layer : Nat) (current : List Location)
    (own fresh : List Candidate) : List Candidate :=
  (Candidate.sort (unseen [] own ++ unseen (d.location :: current) fresh)).take (p.capacity layer)

def mergeLayer (s : Store) (p : Params) (d : Draft) (layer : Nat) (a : Adjacency)
    (fresh : List Candidate) : Except Error (List Candidate) :=
  let current := (a.layer d.level.toNat layer p.m).filter (· != d.location)
  (ownCandidates s p d current).map fun own => closest p d layer current own fresh

/-- Merges fresh candidates into the layers of a record, from a layer on; returns the record and
the lists of the draft's neighbors brought up to date. -/
def mergeFrom (s : Store) (p : Params) (d : Draft) :
    Nat → List (List Candidate) → Adjacency → List (List Candidate) →
      Except Error (Adjacency × List (List Candidate))
  | _, [], a, lists => .ok (a, lists)
  | layer, fresh :: rest, a, lists =>
    if d.level.toNat < layer then .ok (a, lists)
    else match mergeLayer s p d layer a fresh with
      | .error e => .error e
      | .ok kept => mergeFrom s p d (layer + 1) rest
          (a.setLayer d.level.toNat layer p.m (kept.map Candidate.location)) (lists.set layer kept)

/-- Merges fresh candidates into the draft's own neighbor record. Links that other writers have
entered there in the meantime compete with the fresh candidates. -/
def mergeNeighbors (p : Params) (d : Draft) (fresh : List (List Candidate)) : Action Draft :=
  editPage d.neighborsAt.page fun s page => do
    let a ← page.adjacency d.neighborsAt
    let (merged, lists) ← mergeFrom s p d 0 fresh a d.neighbors
    let page ← page.overwriteItem d.neighborsAt.slot.toNat merged.encode
    return .replace page { d with neighbors := lists }

end PagedGraph
