import PagedGraph.Index
import PagedGraph.Store.Disk

/-!
# The interface for C

Callers hold numbered handles; a call that opens nothing leaves a null handle. Failures are shown
by the returned value, and their text is kept until a later call replaces or clears it. A call
that succeeds clears the text, except for `dimensions` and `free`, which neither set nor clear it.
-/

set_option autoImplicit false

namespace PagedGraph.CInterface

structure Handle where
  trail : Trail
  index : Index
  store : Store

/-- What one thread of a caller sees. -/
structure State where
  disk : Disk
  /-- The handles given out so far, none for a null handle. -/
  handles : Array (Option Handle)
  lastError : Option String

def skipped : Int := 0

def inserted : Int := 1

def coalesced : Int := 2

def failure : Int := -1

def status : Outcome → Int
  | .inserted _ => inserted
  | .coalesced _ => coalesced
  | .skipped _ => skipped

def report (e : Error) : String :=
  match e.systemText with
  | some text => e.message ++ ": " ++ text
  | none => e.message

namespace State

def initial (directories : List Trail) : State := ⟨⟨directories, []⟩, #[], none⟩

def fail (t : State) (text : String) : State := { t with lastError := some text }

def handle? (t : State) (h : Option Nat) : Option (Nat × Handle) :=
  h.bind fun n => (t.handles[n]?.join).map fun x => (n, x)

def refuse (t : State) (text : String) : Bool × State :=
  (false, { t with handles := t.handles.push none, lastError := some text })

/-- Opens the index at a path. The options are checked before the path is looked at. -/
def openIndex (t : State) (path : String) (dimensions : UInt32) (o : Options) : Bool × State :=
  match t.disk.find path with
  | .error fault => match Index.checkOptions dimensions o with
    | .error e => t.refuse (report e)
    | .ok _ => t.refuse (report (.cannotOpen path fault))
  | .ok (trail, file) => match Index.openFile path dimensions o file with
    | (.error e, file) => { t with disk := t.disk.put trail file }.refuse (report e)
    | (.ok (index, store), file) =>
      (true, { disk := t.disk.put trail file
               handles := t.handles.push (some ⟨trail, index, store⟩)
               lastError := none })

/-- The path that a C string stands for, or why it stands for none. The string ends at its first
zero byte. -/
def pathOf : Option Bytes → Except String String
  | none => .error "Path cannot be NULL"
  | some bytes => match String.fromUTF8? ⟨bytes.takeWhile (· != 0)⟩ with
    | none => .error "Path must be valid UTF-8"
    | some path => .ok path

def openStandard (t : State) (path : Option Bytes) (dimensions : UInt32) : Bool × State :=
  match pathOf path with
  | .error text => t.refuse text
  | .ok path => t.openIndex path dimensions .standard

def openWithOptions (t : State) (path : Option Bytes)
    (dimensions m searchWidth metric : UInt32) : Bool × State :=
  match pathOf path with
  | .error text => t.refuse text
  | .ok path =>
    if 65535 < m then t.refuse "m must be <= 65535"
    else match if metric < 256 then Metric.ofTag? metric.toUInt8 else none with
      | none => t.refuse s!"Unknown metric {metric}"
      | some tag =>
        t.openIndex path dimensions ⟨m.toUInt16, searchWidth.toNat, tag, none⟩

def onIndex {α : Type} (t : State) (h : Option Nat) (f : Index → Action α) :
    Option α × State :=
  match t.handle? h with
  | none => (none, t.fail "Null index pointer")
  | some (n, x) => match f x.index x.store with
    | .ok a s =>
      (some a, { t with
        handles := t.handles.setIfInBounds n (some { x with store := s })
        lastError := none })
    | .error e s =>
      (none, { t with
        handles := t.handles.setIfInBounds n (some { x with store := s })
        lastError := some (report e) })

/-- Inserts a vector for a row, at the level that a random number gives; returns a status and the
location of the element that holds the row. -/
def insert (t : State) (h : Option Nat) (u : Float) (vector : Option Embedding) (row : RowId) :
    Int × Option Location × State :=
  match t.onIndex h fun ix => ix.insert u vector row with
  | (none, t) => (failure, none, t)
  | (some outcome, t) => (status outcome, outcome.location?, t)

/-- Deletes the element at a location: one if it was live, zero if it was deleted before. -/
def delete (t : State) (h : Option Nat) (l : Location) : Int × State :=
  match t.onIndex h fun _ => markDeleted l with
  | (none, t) => (failure, t)
  | (some true, t) => (1, t)
  | (some false, t) => (0, t)

def flush (t : State) (h : Option Nat) : Int × State :=
  match t.onIndex h fun _ => pure () with
  | (none, t) => (failure, t)
  | (some (), t) => (0, t)

/-- The width of the vectors of an index, zero for a null handle. -/
def dimensions (t : State) (h : Option Nat) : Nat :=
  match t.handle? h with
  | none => 0
  | some (_, x) => x.index.dimensions

def free (t : State) (h : Option Nat) : State :=
  match t.handle? h with
  | none => t
  | some (n, x) =>
    { t with
      disk := t.disk.put x.trail x.store.close
      handles := t.handles.setIfInBounds n none }

end State

end PagedGraph.CInterface
