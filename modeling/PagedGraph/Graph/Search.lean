import PagedGraph.Graph.Basic

/-!
# Searching for neighbors

A new element needs, for every layer up to its level, a short list of close elements. The search
starts at the entry point, descends greedily through the layers above the element's level, and
runs a beam search on each layer below.

A beam keeps three lists: the locations it has seen, the candidates still to be expanded, and the
best candidates so far, both candidate lists in ascending order. It expands the closest open
candidate until none is left, or until that candidate is farther than the worst of a full list of
best ones. Deleted elements are walked through but never chosen.

Only locations that hold a readable element are ever opened, and each only once, so the number of
expansions is at most the number of entries plus the number of slots in the store.
-/

set_option autoImplicit false

namespace PagedGraph

structure Query where
  vector : Embedding
  /-- The highest layer for which neighbors are wanted. -/
  level : Nat
  /-- An element that must not be chosen. -/
  exclude : Option Location
  deriving DecidableEq, Repr

/-- The state of a beam search in one layer. -/
structure Beam where
  visited : List Location
  frontier : List Candidate
  best : List Candidate
  deriving DecidableEq, Repr

namespace Beam

def start (entries : List Candidate) (width : Nat) : Beam where
  visited := entries.map Candidate.location
  frontier := Candidate.sort entries
  best := (Candidate.sort entries).take width

/-- Whether a candidate may still join the best ones. -/
def admits (b : Beam) (width : Nat) (c : Candidate) : Bool :=
  b.best.length < width ||
    match b.best.getLast? with
    | some worst => FloatBits.below c.distance worst.distance
    | none => false

/-- Whether the search can stop before it expands a candidate. -/
def settled (b : Beam) (width : Nat) (c : Candidate) : Bool :=
  width ≤ b.best.length &&
    match b.best.getLast? with
    | some worst => FloatBits.below worst.distance c.distance
    | none => false

def accept (b : Beam) (width : Nat) (c : Candidate) : Beam :=
  { b with frontier := c.insert b.frontier, best := (c.insert b.best).take width }

end Beam

namespace Store

def score (s : Store) (metric : Metric) (query : Embedding) (l : Location) :
    Except Error Candidate :=
  (s.element l).map fun e => ⟨l, metric.distance query e.vector⟩

/-- Looks at one neighbor: scores it unless it has been seen, and admits it if it is close. -/
def visit (s : Store) (metric : Metric) (query : Embedding) (width : Nat) (b : Beam)
    (l : Location) : Except Error Beam :=
  if b.visited.contains l then .ok b
  else (s.score metric query l).map fun c =>
    let b := { b with visited := l :: b.visited }
    if b.admits width c then b.accept width c else b

def expand (s : Store) (p : Params) (query : Embedding) (layer width : Nat) (b : Beam)
    (c : Candidate) : Except Error Beam := do
  let e ← s.element c.location
  let ls ← s.neighbors p.m e layer
  ls.foldlM (s.visit p.metric query width) b

def runBeam (s : Store) (p : Params) (query : Embedding) (layer width : Nat) :
    Nat → Beam → Except Error (List Candidate)
  | steps, b => match b.frontier with
    | [] => .ok b.best
    | c :: rest =>
      if b.settled width c then .ok b.best
      else match steps with
        | 0 => .error .endlessWalk
        | steps + 1 => match s.expand p query layer width { b with frontier := rest } c with
          | .error e => .error e
          | .ok b => runBeam s p query layer width steps b

def slotTotal (s : Store) : Nat := s.pages.foldl (fun total p => total + p.slotCount) 0

/-- Beam search in one layer: the closest elements found, in ascending order. -/
def searchLayer (s : Store) (p : Params) (query : Embedding) (layer width : Nat)
    (entries : List Candidate) : Except Error (List Candidate) :=
  s.runBeam p query layer width (entries.length + s.slotTotal) (Beam.start entries width)

def choose (s : Store) (p : Params) (q : Query) (layer : Nat) (found : List Candidate) :
    List Candidate :=
  (found.filter fun c => some c.location != q.exclude && s.isLive c.location).take (p.capacity layer)

/-- Searches a layer and all layers below it; returns the chosen candidates of those among them
that the query wants, layer 0 first. -/
def descend (s : Store) (p : Params) (q : Query) :
    Nat → List Candidate → Except Error (List (List Candidate))
  | layer, nearest => do
    let width := if q.level < layer then 1 else max p.searchWidth (p.capacity layer)
    let found ← s.searchLayer p q.vector layer width nearest
    let chosen := if layer ≤ q.level then [s.choose p q layer found] else []
    match layer with
    | 0 => return chosen
    | below + 1 => return (← s.descend p q below found) ++ chosen

/-- For every layer up to the query's level, layer 0 first, the closest live elements in ascending
order, at most as many as an element keeps there. -/
def searchFrom (s : Store) (p : Params) (q : Query) (entry : EntryPoint) :
    Except Error (List (List Candidate)) := do
  let first ← s.score p.metric q.vector entry.location
  let lists ← s.descend p q entry.level.toNat [first]
  return lists ++ List.replicate (q.level + 1 - lists.length) []

def firstEqual (s : Store) (vector : Embedding) : List Candidate → Except Error (Option Location)
  | [] => .ok none
  | c :: cs => match s.element c.location with
    | .error e => .error e
    | .ok e => if !e.deleted && e.vector == vector then .ok (some c.location)
        else firstEqual s vector cs

/-- A live element with exactly the given vector among the candidates for layer 0. -/
def findDuplicate (s : Store) (vector : Embedding) (candidates : List (List Candidate)) :
    Except Error (Option Location) :=
  match candidates with
  | [] => .ok none
  | layer0 :: _ => s.firstEqual vector layer0

end Store

end PagedGraph
