import PagedGraph.Record.Adjacency

/-!
# Element records

One element of the graph: its level, the deleted mark, where its neighbor record lies, up to ten
rows that share the vector, and the vector itself. Coordinates are kept as the bit patterns of
32-bit floating-point numbers, so that nothing is lost between memory and file.

```text
0    1       2         3   4            6                   12           92
| 1 | level | deleted | 0 | dimensions | neighbor location | ten row ids | coordinates | zeros |
```
-/

set_option autoImplicit false

namespace PagedGraph

/-- A vector, each coordinate as the bit pattern of a 32-bit floating-point number. -/
abbrev Embedding := List UInt32

def rowCapacity : Nat := 10

structure Element where
  level : UInt8
  deleted : Bool
  neighborsAt : Location
  rowSlots : Vector RowId rowCapacity
  vector : Embedding
  deriving DecidableEq

namespace Element

def headerSize : Nat := 92

def encodedSize (dimensions : Nat) : Nat :=
  LittleEndian.align (headerSize + dimensions * 4)

def single (level : UInt8) (vector : Embedding) (row : RowId) : Element where
  level := level
  deleted := false
  neighborsAt := .unused
  rowSlots := (Vector.replicate rowCapacity noRow).set 0 row (by decide)
  vector := vector

def rows (e : Element) : List RowId := e.rowSlots.toList.filter (· != noRow)

def firstFreeRow (e : Element) : Option Nat := e.rowSlots.toList.findIdx? (· == noRow)

/-- The element without its rows and marked as deleted. -/
def tombstone (e : Element) : Element :=
  { e with deleted := true, rowSlots := Vector.replicate rowCapacity noRow }

def encode (e : Element) : Bytes :=
  let out := #[RecordKind.element.tag, e.level, if e.deleted then 1 else 0, 0]
  let out := LittleEndian.append out 2 (min e.vector.length 65535)
  let out := Location.append out e.neighborsAt
  let out := e.rowSlots.toArray.foldl (fun out r => LittleEndian.append out 8 r.toNat) out
  LittleEndian.pad (e.vector.foldl (fun out x => LittleEndian.append out 4 x.toNat) out)

/-- The part of an element record that says whether and how it can be replaced. -/
structure Outline where
  level : UInt8
  deleted : Bool
  neighborsAt : Location
  deriving DecidableEq, Repr

def outline (bs : Bytes) : Except Error Outline :=
  if RecordKind.of? bs ≠ some .element then .error .notElement
  else if bs.size < headerSize then .error (.elementTooShort bs.size)
  else .ok ⟨bs.getD 1 0, bs.getD 2 0 != 0, Location.decode bs 6⟩

/-- Reads an element record. Bytes behind the padded record are ignored. -/
def decode (bs : Bytes) : Except Error Element :=
  match outline bs with
  | .error e => .error e
  | .ok o =>
    let dimensions := LittleEndian.field bs 4 2
    if bs.size < encodedSize dimensions then .error (.vectorTooShort bs.size dimensions)
    else .ok {
      level := o.level
      deleted := o.deleted
      neighborsAt := o.neighborsAt
      rowSlots := Vector.ofFn fun i => UInt64.ofNat (LittleEndian.field bs (12 + i * 8) 8)
      vector := List.ofFn fun i : Fin dimensions =>
        UInt32.ofNat (LittleEndian.field bs (headerSize + i * 4) 4) }

end Element

/-- The bytes that one record on an otherwise empty page may take. -/
def usableBytes : Nat := pageSize - Page.headerSize - Page.itemIdSize

/-- Climbs from `n` while the next number still passes a test, at most `steps` times. -/
def climb (fits : Nat → Bool) : Nat → Nat → Nat
  | 0, n => n
  | steps + 1, n => if fits (n + 1) then climb fits steps (n + 1) else n

def maxFanOut : Nat := climb (fun m => Adjacency.encodedSize 0 m ≤ usableBytes) pageSize 1

/-- The highest level that exists, whatever the fan-out. -/
def levelLimit : Nat := 255

def maxLevel (m : Nat) : Nat :=
  climb (fun level => Adjacency.encodedSize level m ≤ usableBytes) levelLimit 0

end PagedGraph
