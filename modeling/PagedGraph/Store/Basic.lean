import PagedGraph.Record.Header

/-!
# The page store

A store is the sequence of its committed pages together with the table of exclusive locks that
writers hold. Reading a page needs no lock. Page 0 carries the header, page 1 is the first data
page, so a store never has fewer than two pages.
-/

set_option autoImplicit false

namespace PagedGraph

/-- Committed pages and held locks. -/
structure Store where
  pages : Array Page
  held : List Lock
  two_le_size : 2 ≤ pages.size := by omega

namespace Store

/-- The number of committed pages, as far as page numbers can count them. -/
def pageCount (s : Store) : Nat := min s.pages.size 4294967295

def readPage (s : Store) (id : PageId) : Except Error Page :=
  match s.pages[id.toNat]? with
  | some p => .ok p
  | none => .error (.pageOutOfBounds id s.pages.size)

def headerPage (s : Store) : Page :=
  have : 0 < s.pages.size := Nat.lt_of_lt_of_le Nat.zero_lt_two s.two_le_size
  s.pages[0]

def header (s : Store) : Header := Header.onPage s.headerPage

def bytes (s : Store) : Bytes :=
  s.pages.foldl (fun bytes p => bytes ++ p.bytes.toArray) #[]

def isHeld (s : Store) (lock : Lock) : Bool := s.held.contains lock

def tryAcquire (s : Store) (lock : Lock) : Option Store :=
  if s.isHeld lock then none else some { s with
    held := lock :: s.held
    two_le_size := s.two_le_size }

def release (s : Store) (lock : Lock) : Store :=
  { s with held := s.held.erase lock, two_le_size := s.two_le_size }

def tryLock (s : Store) (id : PageId) : Except Error (Option Store) :=
  if s.pageCount ≤ id.toNat then .error (.cannotLock id s.pageCount)
  else .ok (s.tryAcquire (.page id))

/-- Takes the lock of an existing page, which somebody else may keep for ever. -/
def lock (s : Store) (id : PageId) : Except Error Store :=
  match s.tryLock id with
  | .error e => .error e
  | .ok none => .error (.wouldBlock (.page id))
  | .ok (some s) => .ok s

end Store

end PagedGraph
