import PagedGraph.Store.Basic

/-!
# Atomic groups of pages

A group collects private copies of pages, changes the copies and finally writes all of them back
at once, or drops them. For every page that it has copied or appended, and for the right to make
the file grow once it has appended, a group holds an exclusive lock until it ends. The file grows
only when a group that has appended pages is committed.

Operations on a group get the store as it is at that moment and return the store with its lock
table brought up to date. Releasing is explicit: `release` gives back exactly the locks that a
group holds.
-/

set_option autoImplicit false

namespace PagedGraph

/-- A page in a group, with its private image. -/
structure Member where
  id : PageId
  image : Page

structure Group where
  members : Array Member
  /-- The page count found when the right to grow was taken. -/
  base : Option Nat
  /-- How many pages the group has appended. -/
  appended : Nat

namespace Group

def empty : Group := ⟨#[], none, 0⟩

def locks (g : Group) : List Lock :=
  (g.members.toList.map fun m => Lock.page m.id) ++
    (match g.base with | some _ => [Lock.growth] | none => [])

def release (g : Group) (s : Store) : Store := g.locks.foldl Store.release s

/-- Adds a page whose lock the caller has taken for this group. -/
def register (g : Group) (s : Store) (id : PageId) : Except Error (Nat × Group) :=
  if g.members.any (·.id == id) then .error (.registeredTwice id)
  else match s.readPage id with
    | .error e => .error e
    | .ok image => .ok (g.members.size, { g with members := g.members.push ⟨id, image⟩ })

def claimGrowth (g : Group) (s : Store) : Except Error (Store × Group × Nat) :=
  match g.base with
  | some base => .ok (s, g, base)
  | none => match s.tryAcquire .growth with
    | none => .error (.wouldBlock .growth)
    | some s => .ok (s, { g with base := some s.pageCount }, s.pageCount)

/-- Adds a fresh page at the end of the file. When page numbers have run out, the right to grow
stays with the group. -/
def append (g : Group) (s : Store) : Except Error Nat × Store × Group :=
  match g.claimGrowth s with
  | .error e => (.error e, s, g)
  | .ok (grown, h, base) =>
    let id := base + h.appended
    if 4294967296 ≤ id then (.error .pageIdsExhausted, grown, h)
    else match grown.tryAcquire (.page (UInt32.ofNat id)) with
      | none => (.error (.wouldBlock (.page (UInt32.ofNat id))), s, g)
      | some locked => (.ok h.members.size, locked, { h with
          members := h.members.push ⟨UInt32.ofNat id, Page.empty⟩
          appended := h.appended + 1 })

def setImage (g : Group) (handle : Nat) (image : Page) : Group :=
  { g with members := g.members.modify handle fun m => { m with image := image } }

def limit (g : Group) (s : Store) : Nat :=
  match g.base with
  | some base => if 0 < g.appended then base + g.appended else s.pages.size
  | none => s.pages.size

def writeBack (g : Group) (pages : Array Page) : Array Page :=
  g.members.foldl (fun pages m => pages.setIfInBounds m.id.toNat m.image) pages

theorem size_writeBack (g : Group) (pages : Array Page) :
    (g.writeBack pages).size = pages.size := by
  unfold writeBack
  rw [← Array.foldl_toList]
  induction g.members.toList generalizing pages with
  | nil => rfl
  | cons m ms ih => simp [ih]

/-- Writes all private images back and ends the group. Nothing is written if some page would lie
beyond the end of the file. -/
def commit (g : Group) (s : Store) : Except Error Unit × Store :=
  match g.members.find? fun m => g.limit s ≤ m.id.toNat with
  | some m => (.error (.beyondEnd m.id (g.limit s)), g.release s)
  | none =>
    let grown := s.pages ++ Array.replicate (g.limit s - s.pages.size) Page.empty
    (.ok (), g.release { s with
      pages := g.writeBack grown
      two_le_size := by
        have := s.two_le_size
        rw [size_writeBack]
        simp only [grown, Array.size_append]
        omega })

end Group

end PagedGraph
