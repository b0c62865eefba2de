import PagedGraph.Graph.Links
import PagedGraph.Graph.Placement
import PagedGraph.Graph.Rows

/-!
# Inserting an element

An insertion looks for neighbors and for a live element with the same vector. If that element has
room, the row joins it. Otherwise the records are stored, the neighbors are linked back, and the
element becomes the entry point if it is higher than the one it was connected through.

No lock is held between these stages, so other writers may act there. Two such places are part of
the interface. A `Construction` is asked for candidates and for a duplicate, and its answers may
come with any other work on the store, so that they may be out of date when they arrive. And an
insertion is cut in two, `place` up to the commit of the new records and `connect` from there on,
so that anything may happen in between.

An element that was stored when there was no entry point may find one when it wants to become it.
It then searches from that entry point, merges what it finds into its own neighbor list, links
back, and tries once more. It cannot lose a second time in the same way, since from then on it has
been connected through an entry point.
-/

set_option autoImplicit false

namespace PagedGraph

/-- Where the candidates for an insertion come from. -/
structure Construction (τ : Type) where
  /-- One list of candidates per layer. -/
  search : Query → EntryPoint → ActionWith τ (List (List Candidate))
  /-- An element with the given vector, if the candidates have one. -/
  findDuplicate : Embedding → List (List Candidate) → ActionWith τ (Option Location)

def layerSearch (τ : Type) (p : Params) : Construction τ where
  search q entry := ActionWith.act (Action.reading fun s => s.searchFrom p q entry)
  findDuplicate vector candidates :=
    ActionWith.act (Action.reading fun s => s.findDuplicate vector candidates)

inductive SkipReason where
  | noVector
  | zeroNorm
  deriving DecidableEq, Repr

inductive Outcome where
  /-- A new element lies at the location. -/
  | inserted (location : Location)
  /-- The row has joined the element at the location. -/
  | coalesced (location : Location)
  | skipped (reason : SkipReason)
  deriving DecidableEq, Repr

def Outcome.location? : Outcome → Option Location
  | inserted l => some l
  | coalesced l => some l
  | skipped _ => none

/-- An insertion whose records have been committed, or that needs none. -/
inductive Insertion where
  | joined (location : Location)
  /-- The stored draft, the entry point it was connected through, and a new insert cursor. -/
  | stored (d : Draft) (prior : Option EntryPoint) (cursor : Option PageId)
  deriving DecidableEq, Repr

namespace Insertion

variable {τ : Type}

def consult (c : Construction τ) (d : Draft) : Option EntryPoint → Turns τ (Draft × Option Location)
  | none => return (d, none)
  | some entry => do
    let lists ← Turns.once (c.search ⟨d.vector, d.level.toNat, none⟩ entry)
    let duplicate ← Turns.once (c.findDuplicate d.vector lists)
    return ({ d with neighbors := lists }, duplicate)

def store (p : Params) (entry : Option EntryPoint) (d : Draft) : Turns τ Insertion := do
  let stored ← Turns.act (storePair d p.m)
  let d := { d with location := stored.location, neighborsAt := stored.neighborsAt }
  return .stored d entry stored.cursor

/-- Lets the draft's row join a duplicate, or else stores the draft. -/
def settle (p : Params) (entry : Option EntryPoint) (d : Draft) :
    Option Location → Turns τ Insertion
  | none => store p entry d
  | some l => do
    if ← Turns.act (attachRow l d.row) then return .joined l
    else store p entry d

/-- The first half of an insertion, up to the commit of its records. -/
def place (p : Params) (c : Construction τ) (d : Draft) : Turns τ Insertion := do
  let entry ← Turns.act (Action.reading fun s => .ok s.entry)
  let (d, duplicate) ← consult c d entry
  settle p entry d duplicate

def outranks (d : Draft) : Option EntryPoint → Bool
  | none => true
  | some entry => entry.level < d.level

/-- Makes an element the entry point if it is high enough; returns the entry point that it should
have been connected through, if there is one. -/
def tryPromote (d : Draft) (prior : Option EntryPoint) : Turns τ (Option EntryPoint) := do
  if outranks d prior then
    match ← Turns.act (promote ⟨d.location, d.level⟩ prior) with
    | .raced rival => return some rival
    | _ => return none
  else return none

/-- Moves the insert cursor, links the neighbors back, and tries to become the entry point. -/
def publish (p : Params) (d : Draft) (prior : Option EntryPoint) (cursor : Option PageId) :
    Turns τ (Option EntryPoint) := do
  match cursor with
  | some id => Turns.act (moveCursor id)
  | none => pure ()
  linkNeighbors p d
  tryPromote d prior

/-- Connects a stored draft through an entry point that it has met too late. -/
def reconnect (p : Params) (d : Draft) (rival : EntryPoint) (fresh : List (List Candidate)) :
    Turns τ Unit := do
  let d ← Turns.act (mergeNeighbors p d fresh)
  linkNeighbors p d
  let _ ← tryPromote d (some rival)

def connect (p : Params) (c : Construction τ) : Insertion → Turns τ Outcome
  | .joined l => return .coalesced l
  | .stored d prior cursor => do
    match ← publish p d prior cursor with
    | none => return .inserted d.location
    | some rival =>
      let fresh ← Turns.once (c.search ⟨d.vector, d.level.toNat, some d.location⟩ rival)
      reconnect p d rival fresh
      return .inserted d.location

def begin (p : Params) (c : Construction τ) (d : Draft) : ActionWith τ Insertion :=
  (place p c d).run

def finish (p : Params) (c : Construction τ) (i : Insertion) : ActionWith τ Outcome :=
  (connect p c i).run

end Insertion

/-- The insertion of an element whose vector has the width of the graph and is scaled as the metric
demands. -/
def insertion {τ : Type} (p : Params) (c : Construction τ) (d : Draft) : Turns τ Outcome := do
  Insertion.connect p c (← Insertion.place p c d)

def insertElement {τ : Type} (p : Params) (c : Construction τ) (d : Draft) :
    ActionWith τ Outcome :=
  (insertion p c d).run

end PagedGraph
