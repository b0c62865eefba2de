import PagedGraph.Page

/-!
# The file header

Sixty-four bytes at the start of the meta page. The static half (magic to metric) is written when
the file is created; the entry point and the insert cursor change as the graph grows. Reserved
bytes are written as zeros.
-/

set_option autoImplicit false

namespace PagedGraph

structure Header where
  magic : Vector UInt8 8
  version : UInt32
  pageBytes : UInt32
  dimensions : UInt32
  m : UInt16
  metric : UInt8
  entryPage : PageId
  entrySlot : UInt16
  entryLevel : UInt8
  insertPage : PageId
  deriving DecidableEq

namespace Header

def size : Nat := 64

def indexMagic : Vector UInt8 8 := #v[0x4c, 0x41, 0x54, 0x54, 0x49, 0x43, 0x45, 0x00]

def currentVersion : UInt32 := 1

/-- The widest vector whose element record still fits an empty page. -/
def maxDimensions : Nat := 2000

def fresh (dimensions : UInt32) (m : UInt16) (metric : UInt8) (pageBytes : UInt32)
    (insertPage : PageId) : Header where
  magic := indexMagic
  version := currentVersion
  pageBytes := pageBytes
  dimensions := dimensions
  m := m
  metric := metric
  entryPage := noPage
  entrySlot := 0
  entryLevel := 0
  insertPage := insertPage

/-- Whether the fields are those of an index that this version can use. -/
def isValid (h : Header) : Bool :=
  h.magic = indexMagic ∧ 0 < h.version ∧ h.version ≤ currentVersion ∧ 0 < h.dimensions ∧
    h.dimensions.toNat ≤ maxDimensions ∧ 2 ≤ h.m ∧ h.insertPage ≠ noPage

def hasEntry (h : Header) : Bool := h.entryPage != noPage

def encode (h : Header) : Bytes :=
  let out := LittleEndian.append h.magic.toArray 4 h.version.toNat
  let out := LittleEndian.append out 4 h.pageBytes.toNat
  let out := LittleEndian.append out 4 h.dimensions.toNat
  let out := LittleEndian.append out 2 h.m.toNat
  let out := LittleEndian.append (out ++ #[h.metric, 0]) 4 h.entryPage.toNat
  let out := LittleEndian.append out 2 h.entrySlot.toNat
  let out := LittleEndian.append (out ++ #[h.entryLevel, 0]) 4 h.insertPage.toNat
  out ++ Array.replicate 28 0

/-- The fields found in a byte string, bytes beyond its end read as zero. -/
def fields (bs : Bytes) : Header where
  magic := Vector.ofFn fun i => bs.getD i 0
  version := UInt32.ofNat (LittleEndian.field bs 8 4)
  pageBytes := UInt32.ofNat (LittleEndian.field bs 12 4)
  dimensions := UInt32.ofNat (LittleEndian.field bs 16 4)
  m := UInt16.ofNat (LittleEndian.field bs 20 2)
  metric := bs.getD 22 0
  entryPage := UInt32.ofNat (LittleEndian.field bs 24 4)
  entrySlot := UInt16.ofNat (LittleEndian.field bs 28 2)
  entryLevel := bs.getD 30 0
  insertPage := UInt32.ofNat (LittleEndian.field bs 32 4)

/-- Reads a header from the start of a byte string. Any field values are accepted. -/
def decode (bs : Bytes) : Except Error Header :=
  if bs.size < size then .error (.shortHeader bs.size) else .ok (fields bs)

def onPage (p : Page) : Header := fields (p.slice 0 size)

def writeTo (h : Header) (p : Page) : Page := p.write 0 h.encode

@[simp] theorem size_encode (h : Header) : h.encode.size = size := by
  rw [← Array.length_toList]
  simp [encode, size]

end Header

end PagedGraph
