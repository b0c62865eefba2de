import PagedGraph.Store.Group

/-!
# Interleaved use of one store

A session is a store together with everything that is alive on it: page guards that have not been
given back and groups that have not ended. Writers take turns; one turn is one `Step`. A step that
would have to wait for a lock is answered with `busy` and is not taken, so any order of steps
describes one order in which the writers may run.
-/

set_option autoImplicit false

namespace PagedGraph

/-- A store and what is alive on it. Groups have names. -/
structure Session where
  store : Store
  guards : List PageId
  groups : List (String × Group)

namespace Session

/-- One turn of one writer. -/
inductive Step where
  | read (page : PageId)
  | tryLock (page : PageId)
  | lock (page : PageId)
  | unlock (page : PageId)
  | begin (group : String)
  | register (group : String) (page : PageId)
  | append (group : String)
  | change (group : String) (handle : Nat) (edit : Page → Page)
  | commit (group : String)
  | abort (group : String)

inductive Answer where
  | done
  | busy
  | free (page : PageId)
  | locked (page : PageId)
  | unlocked (held : Bool)
  | image (page : Page)
  | handle (number : Nat)
  | appended (number : Nat) (page : PageId)
  | unknown
  | failed (cause : Error)

def ofStore (s : Store) : Session := ⟨s, [], []⟩

def group? (t : Session) (name : String) : Option Group := t.groups.lookup name

def image? (t : Session) (name : String) (handle : Nat) : Option Page :=
  (t.group? name).bind fun g => g.members[handle]?.map Member.image

def pageId? (t : Session) (name : String) (handle : Nat) : Option PageId :=
  (t.group? name).bind fun g => g.members[handle]?.map Member.id

def without (t : Session) (name : String) : List (String × Group) :=
  t.groups.filter (·.1 != name)

def drop (t : Session) (name : String) : Session :=
  match t.group? name with
  | none => t
  | some g => { t with store := g.release t.store, groups := t.without name }

/-- Copies a page into a group under the guard kept for it, or else under a lock of its own. -/
def register (t : Session) (name : String) (g : Group) (page : PageId) : Answer × Session :=
  let kept := t.guards.contains page
  let locked := if kept then .ok (some t.store) else t.store.tryLock page
  match locked with
  | .error e => (.failed e, t)
  | .ok none => (.busy, t)
  | .ok (some s) =>
    let guards := if kept then t.guards.erase page else t.guards
    match g.register s page with
    | .error e => (.failed e, { t with store := s.release (.page page), guards := guards })
    | .ok (number, g) =>
      (.handle number, { store := s, guards := guards, groups := (name, g) :: t.without name })

def append (t : Session) (name : String) (g : Group) : Answer × Session :=
  match g.append t.store with
  | (.error (.wouldBlock _), _) => (.busy, t)
  | (.error e, s, g) => (.failed e, { t with store := s, groups := (name, g) :: t.without name })
  | (.ok number, s, g) =>
    match g.members[number]? with
    | none => (.unknown, t)
    | some m =>
      (.appended number m.id, { t with store := s, groups := (name, g) :: t.without name })

def commit (t : Session) (name : String) (g : Group) : Answer × Session :=
  match g.commit t.store with
  | (.ok (), s) => (.done, { t with store := s, groups := t.without name })
  | (.error e, s) => (.failed e, { t with store := s, groups := t.without name })

def onGroup (t : Session) (name : String) (f : Group → Answer × Session) : Answer × Session :=
  match t.group? name with
  | none => (.unknown, t)
  | some g => f g

def step (t : Session) : Step → Answer × Session
  | .read page => match t.store.readPage page with
    | .error e => (.failed e, t)
    | .ok p => (.image p, t)
  | .tryLock page => match t.store.tryLock page with
    | .error e => (.failed e, t)
    | .ok none => (.busy, t)
    | .ok (some s) => (.free page, { t with store := s.release (.page page) })
  | .lock page => match t.store.tryLock page with
    | .error e => (.failed e, t)
    | .ok none => (.busy, t)
    | .ok (some s) => (.locked page, { t with store := s, guards := page :: t.guards })
  | .unlock page =>
    if t.guards.contains page then
      (.unlocked true, { t with
        store := t.store.release (.page page)
        guards := t.guards.erase page })
    else (.unlocked false, t)
  | .begin name =>
    let t := t.drop name
    (.done, { t with groups := (name, Group.empty) :: t.groups })
  | .register name page => t.onGroup name fun g => t.register name g page
  | .append name => t.onGroup name fun g => t.append name g
  | .change name handle edit => t.onGroup name fun g =>
    match g.members[handle]? with
    | none => (.unknown, t)
    | some m =>
      (.done, { t with groups := (name, g.setImage handle (edit m.image)) :: t.without name })
  | .commit name => t.onGroup name fun g => t.commit name g
  | .abort name => t.onGroup name fun _ => (.done, t.drop name)

def run (t : Session) : List Step → Session
  | [] => t
  | step :: steps => run (t.step step).2 steps

end Session

end PagedGraph
