import PagedGraph.Store.Group

/-!
# Transactions

An `Action` works on the store and keeps what it has done when it fails. A `Transaction` works on
the store and on one group of its own; `transaction` runs it from an empty group, commits or drops
the group as the transaction says, and drops it when the transaction fails. Whatever happens, the
group's locks are given back.
-/

set_option autoImplicit false

namespace PagedGraph

/-- An operation on a store that may fail halfway. -/
abbrev Action := EStateM Error Store

structure Work where
  store : Store
  group : Group

abbrev Transaction := EStateM Error Work

inductive Ending (α : Type) where
  | commit (result : α)
  | abort (result : α)

def Action.reading {α : Type} (f : Store → Except Error α) : Action α := fun s =>
  match f s with
  | .ok a => .ok a s
  | .error e => .error e s

namespace Transaction

def reading {α : Type} (f : Store → Except Error α) : Transaction α := fun w =>
  match f w.store with
  | .ok a => .ok a w
  | .error e => .error e w

/-- Locks a page and copies it into the group; the lock is given back if that fails. -/
def register (id : PageId) : Transaction Nat := fun w =>
  match w.store.lock id with
  | .error e => .error e w
  | .ok s => match w.group.register s id with
    | .error e => .error e { w with store := s.release (.page id) }
    | .ok (handle, g) => .ok handle ⟨s, g⟩

def append : Transaction Nat := fun w =>
  match w.group.append w.store with
  | (.ok handle, s, g) => .ok handle ⟨s, g⟩
  | (.error e, s, g) => .error e ⟨s, g⟩

def member (handle : Nat) : Transaction Member := fun w =>
  match w.group.members[handle]? with
  | some m => .ok m w
  | none => .error .outsidePage w

def image (handle : Nat) : Transaction Page := Member.image <$> member handle

def pageId (handle : Nat) : Transaction PageId := Member.id <$> member handle

def setImage (handle : Nat) (image : Page) : Transaction Unit := fun w =>
  .ok () { w with group := w.group.setImage handle image }

def restart : Transaction Unit := fun w => .ok () ⟨w.group.release w.store, .empty⟩

def ofExcept {α : Type} (x : Except Error α) : Transaction α := fun w =>
  match x with
  | .ok a => .ok a w
  | .error e => .error e w

end Transaction

def transaction {α : Type} (body : Transaction (Ending α)) : Action α := fun s =>
  match body ⟨s, .empty⟩ with
  | .error e w => .error e (w.group.release w.store)
  | .ok (.abort a) w => .ok a (w.group.release w.store)
  | .ok (.commit a) w => match w.group.commit w.store with
    | (.ok (), s) => .ok a s
    | (.error e, s) => .error e s

/-- What a one-page update does with the page that it has locked. -/
inductive Edit (α : Type) where
  | keep (result : α)
  | replace (page : Page) (result : α)

/-- Locks a page, decides on its image, and commits the new image if there is one. The decision
may look at the committed pages. -/
def editPage {α : Type} (id : PageId) (decision : Store → Page → Except Error (Edit α)) :
    Action α :=
  transaction do
    let handle ← Transaction.register id
    let page ← Transaction.image handle
    match ← Transaction.reading fun s => decision s page with
    | .keep a => return .abort a
    | .replace page a =>
      Transaction.setImage handle page
      return .commit a

end PagedGraph
