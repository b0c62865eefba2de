import PagedGraph.Proofs.Growth

/-!
# Calls on a page

A page is a bounded list of byte strings together with the number of the next page. `Shelf` is that
list and nothing else: no bytes, no item ids, no repacking. Whatever is called on a new page, in
whatever order, it answers as the shelf answers, down to the cause of a refusal, and what can be
read from it is what stands on the shelf (`calls_answer`).

Only byte strings of at least one byte are added. An empty one would be let in by a page without
any space left, where its item id has no room.
-/

set_option autoImplicit false

namespace PagedGraph

inductive PageCall where
  | add (bs : Bytes)
  | overwrite (slot : Nat) (bs : Bytes)
  | link (id : PageId)

structure Shelf where
  items : List Bytes
  next : PageId

namespace Shelf

def empty : Shelf := ⟨[], noPage⟩

def freeSpace (sh : Shelf) : Nat :=
  pageSize - Page.headerSize - Page.itemIdSize * (sh.items.length + 1) - Page.totalSize sh.items

def spaceFor (sh : Shelf) (item : Bytes) : Nat :=
  pageSize - Page.headerSize - Page.itemIdSize * sh.items.length - Page.totalSize sh.items +
    item.size

end Shelf

namespace PageCall

def Filled : PageCall → Prop
  | add bs => 0 < bs.size
  | _ => True

def onPage : PageCall → Page → Except Error (Option Nat × Page)
  | add bs, p => (p.addItem bs).map fun (slot, q) => (some slot, q)
  | overwrite slot bs, p => (p.overwriteItem slot bs).map fun q => (none, q)
  | link id, p => .ok (none, p.setNext id)

def onShelf : PageCall → Shelf → Except Error (Option Nat × Shelf)
  | add bs, sh =>
    if bs.size ≤ sh.freeSpace then
      .ok (some sh.items.length, { sh with items := sh.items ++ [bs] })
    else .error (.pageFull bs.size sh.freeSpace)
  | overwrite slot bs, sh => match sh.items[slot]? with
    | none => .error (.slotOutOfRange slot sh.items.length)
    | some old =>
      if bs.size ≤ sh.spaceFor old then .ok (none, { sh with items := sh.items.set slot bs })
      else .error (.replacementTooLarge bs.size slot)
  | link id, sh => .ok (none, { sh with next := id })

def runAll {σ : Type} (call : PageCall → σ → Except Error (Option Nat × σ)) :
    List PageCall → σ → List (Except Error (Option Nat)) × σ
  | [], x => ([], x)
  | c :: cs, x => match call c x with
    | .ok (a, y) => ((runAll call cs y).1.cons (.ok a), (runAll call cs y).2)
    | .error e => ((runAll call cs x).1.cons (.error e), (runAll call cs x).2)

/-- No subtraction of a call goes below zero, no number outgrows its field, and every byte that the
call touches lies on the page. -/
def InRange (p : Page) : PageCall → Prop
  | add bs => bs.size ≤ p.freeSpace →
      p.upper ≤ pageSize ∧ bs.size ≤ p.upper ∧
        Page.itemIdAt p.slotCount + Page.itemIdSize ≤ p.upper - bs.size ∧ p.slotCount + 1 < 65536
  | overwrite slot bs => ∀ offset len, p.itemId slot = .ok (offset, len) →
      offset + len ≤ pageSize ∧ (bs.size ≤ p.upper - p.lower + len → ∀ items,
        p.itemsWith slot bs = .ok items →
          ∀ k ≤ items.length, p.lower + Page.totalSize (items.take k) ≤ pageSize)
  | link _ => True

end PageCall

namespace Page

structure Shows (p : Page) (sh : Shelf) : Prop where
  item : ∀ i t, sh.items[i]? = some t → p.item i = .ok t
  beyond : ∀ i, sh.items.length ≤ i → p.item i = .error (.slotOutOfRange i sh.items.length)
  freeSpace : p.freeSpace = sh.freeSpace
  space : ∀ i t, sh.items[i]? = some t → p.spaceAfterFreeing i = .ok (sh.spaceFor t)
  noSpace : ∀ i, sh.items.length ≤ i →
    p.spaceAfterFreeing i = .error (.slotOutOfRange i sh.items.length)
  next : p.next = sh.next
  /-- The item ids end before the data begin. -/
  apart : p.lower ≤ p.upper ∧ p.upper ≤ pageSize
  /-- Every item lies among the data. -/
  within : ∀ i offset len, p.itemId i = .ok (offset, len) →
    itemIdAt i + itemIdSize ≤ p.lower ∧ p.upper ≤ offset ∧ offset + len ≤ pageSize

/-- The page holds the items of a shelf and is linked as it is. -/
structure Keeps (p : Page) (sh : Shelf) : Prop where
  holds : p.Holds sh.items
  next : p.next = sh.next

theorem keeps_empty : Page.empty.Keeps .empty := ⟨holds_empty, next_empty⟩

namespace Keeps

variable {p : Page} {sh : Shelf}

theorem freeSpace_eq (h : p.Keeps sh) : p.freeSpace = sh.freeSpace := by
  have hgap := h.holds.gap
  have hsize : pageSize = 8192 := rfl
  simp only [freeSpace, Shelf.freeSpace, headerSize, itemIdSize]
  omega

theorem spaceFor_eq (h : p.Keeps sh) (t : Bytes) :
    p.upper - p.lower + t.size = sh.spaceFor t := by
  have hgap := h.holds.gap
  have hsize : pageSize = 8192 := rfl
  simp only [Shelf.spaceFor, headerSize, itemIdSize]
  omega

theorem upper_le (h : p.Keeps sh) : p.upper ≤ pageSize := by
  have htop := h.holds.top
  omega

theorem shows (h : p.Keeps sh) : p.Shows sh where
  item := h.holds.item_eq
  beyond i hi := h.holds.item_error i (List.getElem?_eq_none hi)
  freeSpace := h.freeSpace_eq
  space i t ht := by rw [h.holds.spaceAfterFreeing_eq i t ht, h.spaceFor_eq]
  noSpace i hi := by
    rw [spaceAfterFreeing, h.holds.itemId_error i (List.getElem?_eq_none hi)]
    rfl
  next := h.next
  apart := ⟨h.holds.room, h.upper_le⟩
  within i offset len hid := by
    cases hi : sh.items[i]? with
    | none =>
      rw [h.holds.itemId_error i hi] at hid
      cases hid
    | some t =>
      rw [h.holds.itemId_eq i t hi] at hid
      cases hid
      have hlt : i < sh.items.length := (List.getElem?_eq_some_iff.mp hi).1
      have hend := h.holds.startOf_add i t hi
      refine ⟨?_, h.holds.upper_le_startOf i, by omega⟩
      rw [h.holds.lower_eq, itemIdAt_eq]
      simp only [itemIdSize]
      omega

theorem add (h : p.Keeps sh) {bs : Bytes} (hbs : 0 < bs.size) :
    match (PageCall.add bs).onShelf sh with
    | .ok (a, sh') => ∃ q, (PageCall.add bs).onPage p = .ok (a, q) ∧ q.Keeps sh'
    | .error e => (PageCall.add bs).onPage p = .error e := by
  have hfree := h.freeSpace_eq
  simp only [PageCall.onShelf, PageCall.onPage]
  split
  · rename_i a sh' heq
    split at heq
    case isFalse => cases heq
    case isTrue hfits =>
      cases heq
      -- A byte string that is not empty fits only where its item id does.
      have hroom : bs.size + 4 ≤ p.upper - p.lower := by
        simp only [Page.freeSpace, itemIdSize] at hfree
        omega
      obtain ⟨q, hq, hholds, hnext⟩ := h.holds.addItem_eq bs hroom
      exact ⟨q, by rw [hq]; rfl, hholds, hnext.trans h.next⟩
  · rename_i e heq
    split at heq
    case isTrue => cases heq
    case isFalse hfull =>
      cases heq
      rw [addItem, if_pos (by omega), hfree]
      rfl

theorem overwrite (h : p.Keeps sh) (slot : Nat) (bs : Bytes) :
    match (PageCall.overwrite slot bs).onShelf sh with
    | .ok (a, sh') => ∃ q, (PageCall.overwrite slot bs).onPage p = .ok (a, q) ∧ q.Keeps sh'
    | .error e => (PageCall.overwrite slot bs).onPage p = .error e := by
  simp only [PageCall.onShelf, PageCall.onPage]
  cases hslot : sh.items[slot]? with
  | none =>
    simp only [overwriteItem, h.holds.itemId_error slot hslot]
    rfl
  | some old =>
    have hspace := h.spaceFor_eq old
    by_cases hfits : bs.size ≤ sh.spaceFor old
    · simp only [if_pos hfits]
      obtain ⟨q, hq, hholds, hnext⟩ := h.holds.overwriteItem_eq slot old bs hslot (by omega)
      exact ⟨q, by rw [hq]; rfl, hholds, hnext.trans h.next⟩
    · simp only [if_neg hfits, overwriteItem, h.holds.itemId_eq slot old hslot]
      rw [if_neg (by omega), if_pos (by omega)]
      rfl

theorem call (h : p.Keeps sh) {c : PageCall} (hc : c.Filled) :
    match c.onShelf sh with
    | .ok (a, sh') => ∃ q, c.onPage p = .ok (a, q) ∧ q.Keeps sh'
    | .error e => c.onPage p = .error e := by
  cases c with
  | add bs => exact h.add hc
  | overwrite slot bs => exact h.overwrite slot bs
  | link id => exact ⟨p.setNext id, rfl, h.holds.setNext id, next_setNext p id⟩

theorem inRange (h : p.Keeps sh) {c : PageCall} (hc : c.Filled) : c.InRange p := by
  have hlow := h.holds.lower_eq
  have hroom := h.holds.room
  have hupper := h.upper_le
  have hsize : pageSize = 8192 := rfl
  cases c with
  | add bs =>
    have hbs : 0 < bs.size := hc
    intro hfits
    simp only [Page.freeSpace, itemIdSize] at hfits
    rw [itemIdAt_eq, h.holds.count]
    simp only [itemIdSize]
    omega
  | overwrite slot bs =>
    intro offset len hid
    obtain ⟨-, -, hend⟩ := h.shows.within slot offset len hid
    refine ⟨hend, fun hfits items hitems k hk => ?_⟩
    rw [h.holds.itemsWith_eq] at hitems
    cases hitems
    cases hslot : sh.items[slot]? with
    | none =>
      rw [h.holds.itemId_error slot hslot] at hid
      cases hid
    | some old =>
      rw [h.holds.itemId_eq slot old hslot] at hid
      cases hid
      have hset := totalSize_set sh.items slot old bs hslot
      have htake := totalSize_take_le (sh.items.set slot bs) k
      have htop := h.holds.top
      omega
  | link id => trivial

theorem run (calls : List PageCall) (hcalls : ∀ c ∈ calls, c.Filled) :
    ∀ {p : Page} {sh : Shelf}, p.Keeps sh →
      (PageCall.runAll PageCall.onPage calls p).1 = (PageCall.runAll PageCall.onShelf calls sh).1 ∧
      (PageCall.runAll PageCall.onPage calls p).2.Keeps
        (PageCall.runAll PageCall.onShelf calls sh).2 := by
  induction calls with
  | nil => exact fun h => ⟨rfl, h⟩
  | cons c calls ih =>
    intro p sh h
    have hstep := h.call (hcalls c List.mem_cons_self)
    have ih := fun {p sh} => @ih (fun x hx => hcalls x (List.mem_cons_of_mem c hx)) p sh
    cases hsh : c.onShelf sh with
    | error e =>
      rw [hsh] at hstep
      obtain ⟨hanswers, hkeeps⟩ := ih h
      have hpage : c.onPage p = .error e := hstep
      simp only [PageCall.runAll, hsh, hpage, hanswers]
      exact ⟨trivial, hkeeps⟩
    | ok r =>
      obtain ⟨a, sh'⟩ := r
      rw [hsh] at hstep
      obtain ⟨q, hpage, hq⟩ := hstep
      obtain ⟨hanswers, hkeeps⟩ := ih hq
      simp only [PageCall.runAll, hsh, hpage, hanswers]
      exact ⟨trivial, hkeeps⟩

end Keeps

end Page

namespace PageCall

theorem onShelf_inside (c : PageCall) (sh : Shelf) : c.onShelf sh ≠ .error .outsidePage := by
  intro h
  cases c with
  | add bs =>
    rw [onShelf] at h
    split at h <;> cases h
  | overwrite slot bs =>
    simp only [onShelf] at h
    split at h
    · cases h
    · split at h <;> cases h
  | link id => cases h

/-- A page that some calls have led to, seen beside the shelf that the same calls have led to: it
shows what stands there, and whatever is called next has the same answer and leads to the same
items. A call that fails has left the page alone, and no call goes out of range. -/
structure Answers (p : Page) (sh : Shelf) : Prop where
  reads : p.Shows sh
  accepts : ∀ (c : PageCall) a sh', c.Filled → c.onShelf sh = .ok (a, sh') →
    ∃ q, c.onPage p = .ok (a, q) ∧ q.Shows sh'
  refuses : ∀ (c : PageCall) e, c.Filled → c.onShelf sh = .error e →
    c.onPage p = .error e ∧ (runAll onPage [c] p).2 = p
  inside : ∀ c : PageCall, c.Filled → c.InRange p ∧ c.onPage p ≠ .error .outsidePage

/-- Whatever has been called on a new page, it is a bounded list of byte strings. -/
theorem calls_answer (calls : List PageCall) (hcalls : ∀ c ∈ calls, c.Filled) :
    (runAll onPage calls Page.empty).1 = (runAll onShelf calls .empty).1 ∧
      Answers (runAll onPage calls Page.empty).2 (runAll onShelf calls .empty).2 := by
  obtain ⟨hanswers, hkeeps⟩ := Page.keeps_empty.run calls hcalls
  refine ⟨hanswers, hkeeps.shows, fun c a sh' hc hsh => ?_, fun c e hc hsh => ?_,
    fun c hc => ⟨hkeeps.inRange hc, fun hout => ?_⟩⟩
  · have hstep := hkeeps.call hc
    rw [hsh] at hstep
    obtain ⟨q, hpage, hq⟩ := hstep
    exact ⟨q, hpage, hq.shows⟩
  · have hstep := hkeeps.call hc
    rw [hsh] at hstep
    have hpage : c.onPage _ = .error e := hstep
    exact ⟨hpage, by simp only [runAll, hpage]⟩
  · have hstep := hkeeps.call hc
    cases hsh : c.onShelf (runAll onShelf calls .empty).2 with
    | ok r =>
      rw [hsh] at hstep
      obtain ⟨q, hpage, -⟩ := hstep
      rw [hpage] at hout
      cases hout
    | error e =>
      rw [hsh] at hstep
      have hpage : c.onPage _ = .error e := hstep
      rw [hpage] at hout
      cases hout
      exact onShelf_inside c _ hsh

theorem calls_answer_refused :
    (∀ c ∈ [add #[1, 2], overwrite 0 #[], overwrite 5 #[7], link 3, add #[9]], c.Filled) ∧
    (runAll onPage [add #[1, 2], overwrite 0 #[], overwrite 5 #[7], link 3, add #[9]]
      Page.empty).1 =
      [.ok (some 0), .ok none, .error (.slotOutOfRange 5 1), .ok none, .ok (some 1)] ∧
    Answers (runAll onPage [add #[1, 2], overwrite 0 #[], overwrite 5 #[7], link 3, add #[9]]
      Page.empty).2 ⟨[#[], #[9]], 3⟩ := by
  have hfilled : ∀ c ∈ [add #[1, 2], overwrite 0 #[], overwrite 5 #[7], link 3, add #[9]],
      c.Filled := by
    simp [Filled]
  obtain ⟨hanswers, hend⟩ := calls_answer _ hfilled
  exact ⟨hfilled, hanswers, hend⟩

end PageCall

end PagedGraph
