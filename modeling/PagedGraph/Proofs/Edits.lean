import PagedGraph.Proofs.Groups
import PagedGraph.Proofs.Records

/-!
# One-page updates

What `editPage` does, without its group: it looks at one page under a lock, and either nothing
changes or that page gets another image. The lock table is the same before and after.
-/

set_option autoImplicit false

namespace PagedGraph

namespace Store

theorem lock_eq (s : Store) (id : PageId) (hid : id.toNat < s.pageCount)
    (hfree : s.isHeld (.page id) = false) : s.lock id = .ok (s.locked id) := by
  simp only [lock, tryLock, tryAcquire, if_neg (Nat.not_le.mpr hid), hfree, locked]
  rfl

theorem lock_error (s : Store) (id : PageId)
    (h : ¬(id.toNat < s.pageCount ∧ s.isHeld (.page id) = false)) :
    ∃ e, s.lock id = .error e := by
  by_cases hid : id.toNat < s.pageCount
  · have hheld : s.isHeld (.page id) = true := by simpa [hid] using h
    exact ⟨.wouldBlock (.page id), by
      simp only [lock, tryLock, tryAcquire, if_neg (Nat.not_le.mpr hid), hheld]
      rfl⟩
  · exact ⟨.cannotLock id s.pageCount, by
      simp only [lock, tryLock, if_pos (Nat.not_lt.mp hid)]⟩

theorem getElem?_of_lt_pageCount (s : Store) (i : Nat) (h : i < s.pageCount) :
    ∃ p, s.pages[i]? = some p := by
  have hlt : i < s.pages.size := by
    rw [pageCount] at h
    omega
  exact ⟨s.pages[i], Array.getElem?_eq_getElem hlt⟩

end Store

namespace Group

def single (id : PageId) (image : Page) : Group := ⟨#[⟨id, image⟩], none, 0⟩

theorem release_single (id : PageId) (image : Page) (s : Store) :
    (single id image).release (s.locked id) = s := by
  simp [release, locks, single, Store.release_locked]

theorem commit_single (id : PageId) (image p : Page) (s : Store)
    (hp : s.pages[id.toNat]? = some p) :
    (single id image).commit (s.locked id) = (.ok (), s.withPage id image) := by
  have hlt : id.toNat < s.pages.size := (Array.getElem?_eq_some_iff.mp hp).1
  have hfind : (single id image).members.find? (fun m =>
      (single id image).limit (s.locked id) ≤ m.id.toNat) = none := by
    have hlimit : (single id image).limit (s.locked id) = s.pages.size := rfl
    rw [hlimit]
    simp [single, hlt]
  rw [commit, hfind]
  simp [limit, single, Store.locked, writeBack, release, locks, Store.release, Store.withPage]

end Group

section
variable {α : Type} (body : Transaction (Ending α)) (s : Store)

theorem transaction_error (e : Error) (w : Work) (h : body ⟨s, .empty⟩ = .error e w) :
    transaction body s = .error e (w.group.release w.store) := by
  rw [transaction, h]

theorem transaction_abort (a : α) (w : Work) (h : body ⟨s, .empty⟩ = .ok (.abort a) w) :
    transaction body s = .ok a (w.group.release w.store) := by
  rw [transaction, h]

theorem transaction_commit (s' : Store) (a : α) (w : Work)
    (h : body ⟨s, .empty⟩ = .ok (.commit a) w) (hc : w.group.commit w.store = (.ok (), s')) :
    transaction body s = .ok a s' := by
  simp only [transaction, h, hc]

end

section
variable {α : Type} (id : PageId) (decision : Store → Page → Except Error (Edit α)) (s : Store)

theorem register_empty (p : Page) (hid : id.toNat < s.pageCount)
    (hfree : s.isHeld (.page id) = false) (hp : s.pages[id.toNat]? = some p) :
    Transaction.register id ⟨s, .empty⟩ = .ok 0 ⟨s.locked id, .single id p⟩ := by
  have hread : (s.locked id).readPage id = .ok p := by simp [Store.readPage, Store.locked, hp]
  simp [Transaction.register, s.lock_eq id hid hfree, Group.register, hread, Group.empty,
    Group.single]

theorem editPage_eq (p : Page) (hid : id.toNat < s.pageCount)
    (hfree : s.isHeld (.page id) = false) (hp : s.pages[id.toNat]? = some p) :
    editPage id decision s = match decision (s.locked id) p with
      | .error e => .error e s
      | .ok (.keep a) => .ok a s
      | .ok (.replace q a) => .ok a (s.withPage id q) := by
  have hreg := register_empty id s p hid hfree hp
  have himage : Transaction.image 0 ⟨s.locked id, .single id p⟩ =
      .ok p ⟨s.locked id, .single id p⟩ := rfl
  have hrelease : (Group.single id p).release (s.locked id) = s := Group.release_single id p s
  rw [editPage]
  cases hd : decision (s.locked id) p with
  | error e =>
    rw [transaction_error _ s e ⟨s.locked id, .single id p⟩
      (by simp [bind, EStateM.bind, hreg, himage, Transaction.reading, hd]), hrelease]
  | ok edit =>
    cases edit with
    | keep a =>
      rw [transaction_abort _ s a ⟨s.locked id, .single id p⟩
        (by simp [bind, EStateM.bind, hreg, himage, Transaction.reading, hd, pure, EStateM.pure]),
        hrelease]
    | replace q a =>
      have hset : Transaction.setImage 0 q ⟨s.locked id, .single id p⟩ =
          .ok () ⟨s.locked id, .single id q⟩ := by
        simp [Transaction.setImage, Group.setImage, Group.single]
      rw [transaction_commit _ s (s.withPage id q) a ⟨s.locked id, .single id q⟩
        (by simp [bind, EStateM.bind, hreg, himage, Transaction.reading, hd, hset, pure,
          EStateM.pure]) (Group.commit_single id q p s hp)]

theorem editPage_refused
    (h : ¬(id.toNat < s.pageCount ∧ s.isHeld (.page id) = false)) :
    ∃ e, editPage id decision s = .error e s := by
  obtain ⟨e, he⟩ := s.lock_error id h
  refine ⟨e, ?_⟩
  simp [editPage, transaction, bind, EStateM.bind, Transaction.register, he, Group.release,
    Group.locks, Group.empty]

theorem editPage_cases :
    (∃ e, editPage id decision s = .error e s) ∨
    ∃ p, s.pages[id.toNat]? = some p ∧
      ((∃ a, decision (s.locked id) p = .ok (.keep a) ∧ editPage id decision s = .ok a s) ∨
        ∃ q a, decision (s.locked id) p = .ok (.replace q a) ∧
          editPage id decision s = .ok a (s.withPage id q)) := by
  by_cases h : id.toNat < s.pageCount ∧ s.isHeld (.page id) = false
  · obtain ⟨p, hp⟩ := s.getElem?_of_lt_pageCount id.toNat h.1
    have heq := editPage_eq id decision s p h.1 h.2 hp
    cases hd : decision (s.locked id) p with
    | error e =>
      rw [hd] at heq
      exact .inl ⟨e, heq⟩
    | ok edit =>
      cases edit with
      | keep a =>
        rw [hd] at heq
        exact .inr ⟨p, hp, .inl ⟨a, hd, heq⟩⟩
      | replace q a =>
        rw [hd] at heq
        exact .inr ⟨p, hp, .inr ⟨q, a, hd, heq⟩⟩
  · exact .inl (editPage_refused id decision s h)

end

end PagedGraph
