import PagedGraph.Error

/-!
# Slotted pages

A page is a fixed-size image. Sixteen bytes of page header are followed by the array of item ids,
which grows forward; the stored byte strings fill the page from its end backward. A slot keeps its
number for ever: a replacement changes the bytes behind the slot, and when their number changes
the whole tuple area is packed again, so that free space is always one piece.

```text
0         16                      lower          upper              8192
| header  | (offset, length) ...  |  free space  | byte strings ... |
```

A page image may hold anything, since it can be read from a file. Every operation that would have
to touch a byte outside the image answers `Error.outsidePage`, and an operation that fails leaves
no trace: it returns no page.
-/

set_option autoImplicit false

namespace PagedGraph

structure Page where
  bytes : Vector UInt8 pageSize
  deriving DecidableEq

namespace Page

def headerSize : Nat := 16

def itemIdSize : Nat := 4

/-- The `len` bytes from offset `at_`, cut off at the end of the page. -/
def slice (p : Page) (at_ len : Nat) : Bytes := p.bytes.toArray.extract at_ (at_ + len)

def word (p : Page) (at_ w : Nat) : Nat := LittleEndian.field p.bytes.toArray at_ w

/-- Puts a byte string at offset `at_`; what would lie outside the page is dropped. -/
def write (p : Page) (at_ : Nat) (bs : Bytes) : Page :=
  ⟨bs.size.fold (fun i _ image => image.setIfInBounds (at_ + i) bs[i]) p.bytes⟩

def setWord (p : Page) (at_ w n : Nat) : Page := p.write at_ (LittleEndian.append #[] w n)

theorem getElem_setMany {n : Nat} (v : Vector UInt8 n) (at_ k : Nat)
    (f : (i : Nat) → i < k → UInt8) (i : Nat) (h : i < n) :
    (k.fold (fun j hj image => image.setIfInBounds (at_ + j) (f j hj)) v)[i] =
      if hk : at_ ≤ i ∧ i - at_ < k then f (i - at_) hk.2 else v[i] := by
  induction k with
  | zero => simp
  | succ k ih =>
    rw [Nat.fold_succ, Vector.getElem_setIfInBounds, ih]
    by_cases hi : at_ + k = i
    · subst hi
      simp
    · rw [if_neg hi]
      by_cases hk : at_ ≤ i ∧ i - at_ < k
      · rw [dif_pos hk, dif_pos ⟨hk.1, by omega⟩]
      · rw [dif_neg hk, dif_neg (by omega)]

theorem getElem_write (p : Page) (at_ : Nat) (bs : Bytes) (i : Nat) (h : i < pageSize) :
    (p.write at_ bs).bytes[i] =
      if hk : at_ ≤ i ∧ i - at_ < bs.size then bs[i - at_] else p.bytes[i] :=
  getElem_setMany p.bytes at_ bs.size (fun j _ => bs[j]) i h

/-- The bytes from offset `at_`, if all of them lie on the page. -/
def read (p : Page) (at_ len : Nat) : Except Error Bytes :=
  if at_ + len ≤ pageSize then .ok (p.slice at_ len) else .error .outsidePage

/-- Overwrites bytes of the image without regard to its layout. -/
def poke (p : Page) (at_ : Nat) (bs : Bytes) : Except Error Page :=
  if at_ + bs.size ≤ pageSize then .ok (p.write at_ bs) else .error .outsidePage

def ofBytes (bs : Bytes) : Except Error Page :=
  if h : bs.size = pageSize then .ok ⟨⟨bs, h⟩⟩ else .error (.imageSize bs.size)

def next (p : Page) : PageId := UInt32.ofNat (p.word 0 4)

def setNext (p : Page) (id : PageId) : Page := p.setWord 0 4 id.toNat

/-- How many slots have ever been handed out. -/
def slotCount (p : Page) : Nat := p.word 4 2

def setSlotCount (p : Page) (count : Nat) : Page := p.setWord 4 2 count

/-- Where the stored byte strings start. -/
def upper (p : Page) : Nat := p.word 6 2

def setUpper (p : Page) (at_ : Nat) : Page := p.setWord 6 2 at_

/-- Where the item ids end. -/
def lower (p : Page) : Nat := headerSize + p.slotCount * itemIdSize

def empty : Page :=
  ((⟨Vector.replicate pageSize 0⟩ : Page).setNext noPage).setUpper pageSize

/-- What one more byte string may occupy, its item id already paid for. -/
def freeSpace (p : Page) : Nat := p.upper - p.lower - itemIdSize

def itemIdAt (slot : Nat) : Nat := headerSize + slot * itemIdSize

def itemId (p : Page) (slot : Nat) : Except Error (Nat × Nat) :=
  if p.slotCount ≤ slot then .error (.slotOutOfRange slot p.slotCount)
  else if pageSize < itemIdAt slot + itemIdSize then .error .outsidePage
  else
    let offset := p.word (itemIdAt slot) 2
    let len := p.word (itemIdAt slot + 2) 2
    if offset < p.upper ∨ pageSize < offset + len then .error (.corruptItem slot offset len)
    else .ok (offset, len)

def setItemId (p : Page) (slot offset len : Nat) : Page :=
  (p.setWord (itemIdAt slot) 2 offset).setWord (itemIdAt slot + 2) 2 len

def item (p : Page) (slot : Nat) : Except Error (Bytes) :=
  (p.itemId slot).map fun (offset, len) => p.slice offset len

/-- What a replacement of a slot may occupy once the present bytes are given up. -/
def spaceAfterFreeing (p : Page) (slot : Nat) : Except Error Nat :=
  (p.itemId slot).map fun (_, len) => p.upper - p.lower + len

def addItem (p : Page) (bs : Bytes) : Except Error (Nat × Page) :=
  if p.freeSpace < bs.size then .error (.pageFull bs.size p.freeSpace)
  else if pageSize < p.upper ∨ pageSize < p.lower + itemIdSize then .error .outsidePage
  else
    let offset := p.upper - bs.size
    let filled := (p.write offset bs).setSlotCount (p.slotCount + 1)
    .ok (p.slotCount, (filled.setItemId p.slotCount offset bs.size).setUpper offset)

/-- Lays byte strings out backward from `upper` for the slots from `slot` on; returns where they
start. -/
def layOut (p : Page) (slot upper : Nat) : List Bytes → Page × Nat
  | [] => (p, upper)
  | bs :: rest =>
    let offset := upper - bs.size
    layOut ((p.write offset bs).setItemId slot offset bs.size) (slot + 1) offset rest

def totalSize : List Bytes → Nat
  | [] => 0
  | bs :: rest => bs.size + totalSize rest

/-- Lays out the contents of all slots afresh and clears the space between. -/
def repack (p : Page) (items : List Bytes) : Except Error Page :=
  if pageSize < p.lower + totalSize items then .error .outsidePage
  else
    let (packed, upper) := p.layOut 0 pageSize items
    .ok ((packed.write p.lower (Array.replicate (upper - p.lower) 0)).setUpper upper)

def itemsWith (p : Page) (slot : Nat) (bs : Bytes) : Except Error (List Bytes) :=
  (List.range p.slotCount).mapM fun k => if k = slot then .ok bs else p.item k

/-- Replaces the bytes in a slot, in place if their number stays the same. -/
def overwriteItem (p : Page) (slot : Nat) (bs : Bytes) : Except Error Page :=
  match p.itemId slot with
  | .error e => .error e
  | .ok (offset, len) =>
    if len = bs.size then .ok (p.write offset bs)
    else if p.upper - p.lower + len < bs.size then
      .error (.replacementTooLarge bs.size slot)
    else (p.itemsWith slot bs).bind p.repack

def describe (p : Page) : String :=
  s!"Page \x7b next_page: {p.next}, slot_count: {p.slotCount}, free_space: {p.freeSpace} \x7d"

end Page

end PagedGraph
