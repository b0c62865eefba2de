import PagedGraph.Graph.Basic

/-!
# Elements being inserted

A draft lives as long as one insertion. Its neighbors are chosen before it is stored; its two
locations are known once it is stored.
-/

set_option autoImplicit false

namespace PagedGraph

/-- An element on its way into the graph. -/
structure Draft where
  level : UInt8
  vector : Embedding
  row : RowId
  location : Location
  neighborsAt : Location
  /-- The chosen neighbors of each layer, layer 0 first and the closest first. -/
  neighbors : List (List Candidate)
  deriving DecidableEq, Repr

namespace Draft

def new (level : UInt8) (vector : Embedding) (row : RowId) : Draft where
  level := level
  vector := vector
  row := row
  location := .unused
  neighborsAt := .unused
  neighbors := List.replicate (level.toNat + 1) []

/-- The element record with which the draft is stored, its neighbor location still open. -/
def element (d : Draft) : Element := Element.single d.level d.vector d.row

def adjacency (d : Draft) (m : Nat) : Adjacency :=
  Adjacency.ofLayers d.level.toNat m (d.neighbors.map fun cs => cs.map Candidate.location)

end Draft

end PagedGraph
