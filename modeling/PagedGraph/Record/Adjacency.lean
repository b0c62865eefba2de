import PagedGraph.Page

/-!
# Neighbor records

The neighbors of one element, all layers in one array of locations. The array is cut into one
segment per layer, the top layer first: layer `l` of an element at level `n` starts at slot
`(n - l) * m`. A segment has `m` slots, layer 0 has `2 * m`. Slots without a neighbor hold
`Location.unused`.

```text
0     1         2       4
| 2 | reserved | count | count locations of six bytes | zeros up to a multiple of eight |
```
-/

set_option autoImplicit false

namespace PagedGraph

/-- What the first byte of a record says it is. -/
inductive RecordKind where
  | element
  | adjacency
  deriving DecidableEq, Repr

namespace RecordKind

def tag : RecordKind → UInt8
  | element => 1
  | adjacency => 2

def of? (bs : Bytes) : Option RecordKind :=
  match bs[0]? with
  | none => none
  | some b => if b = element.tag then some element
      else if b = adjacency.tag then some adjacency else none

end RecordKind

def layerCapacity (m layer : Nat) : Nat := if layer = 0 then 2 * m else m

structure Adjacency where
  slots : List Location
  deriving DecidableEq, Repr

namespace Adjacency

def headerSize : Nat := 4

def slotCount (level m : Nat) : Nat := (level + 2) * m

def encodedSize (level m : Nat) : Nat :=
  LittleEndian.align (headerSize + slotCount level m * Location.size)

/-- First slot of a layer's segment and the slot after its last; `(0, 0)` for a layer above the
level. -/
def layerRange (level layer m : Nat) : Nat × Nat :=
  if level < layer then (0, 0)
  else ((level - layer) * m, (level - layer) * m + layerCapacity m layer)

def blank (level m : Nat) : Adjacency := ⟨List.replicate (slotCount level m) .unused⟩

def segment (a : Adjacency) (level layer m : Nat) : List Location :=
  let (start, stop) := layerRange level layer m
  (a.slots.drop start).take (stop - start)

def layer (a : Adjacency) (level layer m : Nat) : List Location :=
  (a.segment level layer m).filter Location.isUsed

/-- Fills a layer's segment from a list, which is cut off or filled up with unused slots. -/
def setLayer (a : Adjacency) (level layer m : Nat) (neighbors : List Location) : Adjacency :=
  let (start, stop) := layerRange level layer m
  ⟨a.slots.mapIdx fun i old =>
    if start ≤ i ∧ i < stop then neighbors.getD (i - start) .unused else old⟩

def filled (m layer : Nat) (neighbors : List Location) : List Location :=
  neighbors.take (layerCapacity m layer) ++
    List.replicate (layerCapacity m layer - neighbors.length) .unused

def filledFrom (m : Nat) (lists : List (List Location)) : Nat → List Location
  | 0 => filled m 0 (lists.getD 0 [])
  | layer + 1 => filled m (layer + 1) (lists.getD (layer + 1) []) ++ filledFrom m lists layer

/-- The record of an element at a level whose layers hold the given neighbors, layer 0 first. -/
def ofLayers (level m : Nat) (lists : List (List Location)) : Adjacency :=
  ⟨filledFrom m lists level⟩

theorem length_filled (m layer : Nat) (neighbors : List Location) :
    (filled m layer neighbors).length = layerCapacity m layer := by
  simp only [filled, List.length_append, List.length_take, List.length_replicate]
  omega

theorem length_filledFrom (m : Nat) (lists : List (List Location)) (level : Nat) :
    (filledFrom m lists level).length = slotCount level m := by
  induction level with
  | zero => simp [filledFrom, length_filled, layerCapacity, slotCount]
  | succ level ih =>
    rw [filledFrom, List.length_append, length_filled, ih]
    simp only [layerCapacity, slotCount, Nat.add_mul, if_neg (Nat.succ_ne_zero level)]
    omega

def encode (a : Adjacency) : Bytes :=
  let out := LittleEndian.append #[RecordKind.adjacency.tag, 0] 2 (min a.slots.length 65535)
  LittleEndian.pad (a.slots.foldl Location.append out)

/-- Reads a neighbor record. Bytes behind the last location are ignored. -/
def decode (bs : Bytes) : Except Error Adjacency :=
  if RecordKind.of? bs ≠ some .adjacency then .error .notAdjacency
  else if bs.size < headerSize then .error (.adjacencyTooShort bs.size)
  else
    let count := LittleEndian.field bs 2 2
    if bs.size < headerSize + count * Location.size then .error (.slotsTooShort bs.size count)
    else .ok ⟨Location.decodeMany bs headerSize count⟩

end Adjacency

end PagedGraph
