import PagedGraph.Graph.Insertion
import PagedGraph.Store.File

/-!
# The index

The public face of a graph file: opening it with checked options, inserting vectors, deleting and
reading elements. Vectors are checked before they enter the graph, and scaled to length one where
the metric asks for it.

The level of a new element falls off exponentially. The random number that decides it is an
argument, so that the level is a function of it.
-/

set_option autoImplicit false

namespace PagedGraph

structure Options where
  m : UInt16
  searchWidth : Nat
  metric : Metric
  /-- The highest level to use; otherwise the highest whose neighbor record fits a page. -/
  maxLevel : Option UInt8
  deriving DecidableEq, Repr

def Options.standard : Options := ⟨16, 64, .euclidean, none⟩

/-- An open index, apart from its store. -/
structure Index where
  params : Params
  dimensions : Nat
  /-- The beam width with which neighbors are chosen. -/
  constructionWidth : Nat
  deriving DecidableEq, Repr

namespace Index

def checkLevel (o : Options) : Except Error Nat :=
  let m := o.m.toNat
  match o.maxLevel with
  | none => .ok (maxLevel m)
  | some level =>
    if maxLevel m < level.toNat then .error (.maxLevelTooHigh level.toNat (maxLevel m) m)
    else .ok level.toNat

def checkOptions (dimensions : UInt32) (o : Options) : Except Error Params :=
  let m := o.m.toNat
  if m < 2 then .error (.fanOutTooSmall m)
  else if maxFanOut < m then .error (.fanOutTooLarge maxFanOut m)
  else if dimensions = 0 ∨ Header.maxDimensions < dimensions.toNat then
    .error (.dimensionsOutOfRange Header.maxDimensions dimensions.toNat)
  else (checkLevel o).map fun level => ⟨m, o.searchWidth, o.metric, level⟩

def template (dimensions : UInt32) (o : Options) : Header :=
  Header.fresh dimensions o.m o.metric.tag (UInt32.ofNat pageSize) firstDataPage

/-- Opens an index file, or sets it up. The file is not touched if the options are out of range. -/
def openFile (path : String) (dimensions : UInt32) (o : Options) (file : FileState) :
    Except Error (Index × Store) × FileState :=
  match checkOptions dimensions o with
  | .error e => (.error e, file)
  | .ok params =>
    match Store.openFile path (template dimensions o) file with
    | (.error e, file) => (.error e, file)
    | (.ok s, file) =>
      (.ok ({ params := params
              dimensions := s.header.dimensions.toNat
              constructionWidth := o.searchWidth }, s), file)

/-- The index with another beam width for choosing neighbors. -/
def withConstruction (ix : Index) (width : Nat) : Index := { ix with constructionWidth := width }

def construction (ix : Index) (τ : Type) : Construction τ :=
  layerSearch τ { ix.params with searchWidth := ix.constructionWidth }

/-- The vector to store, none if it has no direction but would need one. -/
def prepare (ix : Index) (vector : Embedding) : Option Embedding :=
  if ix.params.metric.normalizes then vector.normalize else some vector

def insertAtLevel (ix : Index) (vector : Option Embedding) (row : RowId) (level : UInt8) :
    Action Outcome :=
  match vector with
  | none => return .skipped .noVector
  | some v =>
    if ix.params.maxLevel < level.toNat then
      throw (.levelTooHigh level.toNat ix.params.maxLevel)
    else if v.length ≠ ix.dimensions then throw (.wrongDimensions ix.dimensions v.length)
    else if v.any fun x => !FloatBits.isFinite x then throw .notFinite
    else match ix.prepare v with
      | none => return .skipped .zeroNorm
      | some v =>
        (insertElement ix.params (ix.construction Unit) (Draft.new level v row)).alone

/-- The level for a random number between zero and one: `-ln (1 - u) / ln m`, rounded down and
capped. -/
def sampleLevel (ix : Index) (u : Float) : UInt8 :=
  let level := (-(1.0 - u).log * (1.0 / (Float.ofNat ix.params.m).log)).floor
  let cap := Float.ofNat ix.params.maxLevel
  (if cap < level then cap else level).toUInt8

def insert (ix : Index) (u : Float) (vector : Option Embedding) (row : RowId) : Action Outcome :=
  ix.insertAtLevel vector row (ix.sampleLevel u)

end Index

end PagedGraph
