import PagedGraph.LittleEndian

/-!
# Page numbers, locations and row references

A record is named by its location: the page that holds it and its slot on that page. Two values
stand for "nothing here": the page number `noPage` and the row reference `noRow`.
-/

set_option autoImplicit false

namespace PagedGraph

def pageSize : Nat := 8192

abbrev PageId := UInt32

/-- The page number that names no page: the end of a chain, or an unused location. -/
def noPage : PageId := 4294967295

def metaPage : PageId := 0

def firstDataPage : PageId := 1

abbrev RowId := UInt64

/-- The row reference that stands for an unused place in a row list. -/
def noRow : RowId := 18446744073709551615

structure Location where
  page : PageId
  slot : UInt16
  deriving DecidableEq, Repr, Inhabited

namespace Location

def unused : Location := ⟨noPage, 0⟩

def isUsed (l : Location) : Bool := l.page != noPage

/-- Locations are ordered by page, then by slot. -/
def rank (l : Location) : Nat := l.page.toNat * 65536 + l.slot.toNat

def size : Nat := 6

def encode (l : Location) : List UInt8 :=
  LittleEndian.encode 4 l.page.toNat ++ LittleEndian.encode 2 l.slot.toNat

def append (out : Bytes) (l : Location) : Bytes :=
  LittleEndian.append (LittleEndian.append out 4 l.page.toNat) 2 l.slot.toNat

def decode (bs : Bytes) (at_ : Nat) : Location :=
  ⟨UInt32.ofNat (LittleEndian.field bs at_ 4), UInt16.ofNat (LittleEndian.field bs (at_ + 4) 2)⟩

def decodeMany (bs : Bytes) (at_ count : Nat) : List Location :=
  List.ofFn fun i : Fin count => decode bs (at_ + i * size)

instance : ToString Location := ⟨fun l => s!"({l.page.toNat}, {l.slot.toNat})"⟩

@[simp] theorem length_encode (l : Location) : l.encode.length = size := by
  simp [encode, size]

@[simp] theorem toList_append (out : Bytes) (l : Location) :
    (append out l).toList = out.toList ++ l.encode := by
  simp [append, encode]

theorem rank_inj {a b : Location} (h : a.rank = b.rank) : a = b := by
  have ha := a.slot.toNat_lt
  have hb := b.slot.toNat_lt
  obtain ⟨pa, sa⟩ := a
  obtain ⟨pb, sb⟩ := b
  simp only [rank] at h ha hb
  have hp : pa = pb := UInt32.toNat_inj.mp (by omega)
  have hs : sa = sb := UInt16.toNat_inj.mp (by omega)
  rw [hp, hs]

end Location

end PagedGraph
