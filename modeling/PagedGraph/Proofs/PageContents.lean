import PagedGraph.Proofs.PageBytes

/-!
# What a page holds

A page that was filled by adding and replacing items holds a list of byte strings: the item ids
name them in slot order, packed backward from the end of the page without gaps. Adding an item
appends to the list and replacing one changes a single entry of it, whether or not the page is
packed again. Neither touches the link to the next page.
-/

set_option autoImplicit false

namespace PagedGraph

namespace Page
open LittleEndian

theorem totalSize_append (ts us : List Bytes) :
    totalSize (ts ++ us) = totalSize ts + totalSize us := by
  induction ts with
  | nil => simp [totalSize]
  | cons t ts ih => rw [List.cons_append, totalSize, totalSize, ih, Nat.add_assoc]

theorem totalSize_take_add_drop (ts : List Bytes) (k : Nat) :
    totalSize (ts.take k) + totalSize (ts.drop k) = totalSize ts := by
  rw [← totalSize_append, List.take_append_drop]

theorem totalSize_take_succ (ts : List Bytes) (k : Nat) (t : Bytes) (h : ts[k]? = some t) :
    totalSize (ts.take (k + 1)) = totalSize (ts.take k) + t.size := by
  rw [List.take_add_one, h, totalSize_append]
  simp [totalSize]

theorem totalSize_take_le (ts : List Bytes) (k : Nat) : totalSize (ts.take k) ≤ totalSize ts := by
  have := totalSize_take_add_drop ts k
  omega

theorem totalSize_take_mono (ts : List Bytes) {i j : Nat} (h : i ≤ j) :
    totalSize (ts.take i) ≤ totalSize (ts.take j) := by
  have := totalSize_take_le (ts.take j) i
  rwa [List.take_take, Nat.min_eq_left h] at this

theorem totalSize_set (ts : List Bytes) (k : Nat) (t u : Bytes) (h : ts[k]? = some t) :
    totalSize (ts.set k u) + t.size = totalSize ts + u.size := by
  have hk : k < ts.length := (List.getElem?_eq_some_iff.mp h).1
  have hd : ts.drop k = t :: ts.drop (k + 1) := by
    rw [List.drop_eq_getElem_cons hk, (List.getElem?_eq_some_iff.mp h).2]
  have hs := totalSize_take_add_drop ts k
  rw [hd, totalSize] at hs
  rw [List.set_eq_take_append_cons_drop, if_pos hk, totalSize_append, totalSize]
  omega

/-- Where the bytes of a slot start when byte strings are packed from the end of the page. -/
def startOf (ts : List Bytes) (k : Nat) : Nat := pageSize - totalSize (ts.take (k + 1))

theorem itemIdAt_eq (k : Nat) : itemIdAt k = 16 + k * 4 := rfl

structure Entry (p : Page) (slot offset : Nat) (t : Bytes) : Prop where
  start : p.word (itemIdAt slot) 2 = offset
  length : p.word (itemIdAt slot + 2) 2 = t.size
  bytes : ∀ i < t.size, p.byte (offset + i) = t.getD i 0

theorem Entry.congr {p q : Page} {slot offset : Nat} {t : Bytes} (h : p.Entry slot offset t)
    (hid : ∀ i, itemIdAt slot ≤ i → i < itemIdAt slot + 4 → q.byte i = p.byte i)
    (hdata : ∀ i, offset ≤ i → i < offset + t.size → q.byte i = p.byte i) :
    q.Entry slot offset t where
  start := by
    rw [← h.start]
    exact word_congr _ _ _ _ fun k hk => hid _ (by omega) (by omega)
  length := by
    rw [← h.length]
    exact word_congr _ _ _ _ fun k hk => hid _ (by omega) (by omega)
  bytes := by
    intro i hi
    rw [hdata _ (by omega) (by omega)]
    exact h.bytes i hi

theorem entry_setItemId (p : Page) (slot offset : Nat) (t : Bytes)
    (hb : ∀ i < t.size, p.byte (offset + i) = t.getD i 0) (ht : offset + t.size ≤ pageSize)
    (hid : itemIdAt slot + 4 ≤ offset) : (p.setItemId slot offset t.size).Entry slot offset t where
  start := by
    rw [setItemId, word_setWord_outside _ _ _ _ _ _ (by omega)]
    exact word_setWord _ _ _ _ (by omega) (by simp only [numbers, pageSize] at *; omega)
  length := by
    rw [setItemId]
    exact word_setWord _ _ _ _ (by omega) (by simp only [numbers, pageSize] at *; omega)
  bytes := by
    intro i hi
    rw [setItemId, byte_setWord_outside _ _ _ _ _ (by omega),
      byte_setWord_outside _ _ _ _ _ (by omega)]
    exact hb i hi

theorem entry_put (p : Page) (slot offset : Nat) (t : Bytes) (ht : offset + t.size ≤ pageSize)
    (hid : itemIdAt slot + 4 ≤ offset) :
    ((p.write offset t).setItemId slot offset t.size).Entry slot offset t :=
  entry_setItemId _ _ _ _ (fun _ hi => byte_write_inside _ _ _ _ hi ht) ht hid

theorem byte_put_outside (p : Page) (slot offset : Nat) (t : Bytes) (i : Nat)
    (hid : i < itemIdAt slot ∨ itemIdAt slot + 4 ≤ i) (hdata : i < offset ∨ offset + t.size ≤ i) :
    ((p.write offset t).setItemId slot offset t.size).byte i = p.byte i := by
  rw [setItemId, byte_setWord_outside _ _ _ _ _ (by omega),
    byte_setWord_outside _ _ _ _ _ (by omega), byte_write_outside _ _ _ _ hdata]

/-- Laying byte strings out backward from `upper` gives each of them its entry. The other bytes of
the page keep their values: those before the first item id, those between the item ids and the
data, and those from `upper` on. -/
theorem layOut_spec (items : List Bytes) : ∀ (p : Page) (slot upper : Nat), upper ≤ pageSize →
    itemIdAt (slot + items.length) + totalSize items ≤ upper →
    (p.layOut slot upper items).2 + totalSize items = upper ∧
    (∀ i, i < itemIdAt slot ∨
        itemIdAt (slot + items.length) ≤ i ∧ i < (p.layOut slot upper items).2 ∨ upper ≤ i →
      (p.layOut slot upper items).1.byte i = p.byte i) ∧
    ∀ k t, items[k]? = some t →
      (p.layOut slot upper items).1.Entry (slot + k) (upper - totalSize (items.take (k + 1))) t := by
  induction items with
  | nil =>
    intro p slot upper _ _
    exact ⟨rfl, fun _ _ => rfl, fun k t h => by simp at h⟩
  | cons bs rest ih =>
    intro p slot upper hu hroom
    simp only [totalSize, List.length_cons, itemIdAt_eq] at hroom
    obtain ⟨hup, hframe, hentry⟩ := ih ((p.write (upper - bs.size) bs).setItemId slot
      (upper - bs.size) bs.size) (slot + 1) (upper - bs.size) (by omega)
      (by simp only [itemIdAt_eq]; omega)
    rw [layOut]
    simp only [itemIdAt_eq] at hframe ⊢
    refine ⟨by rw [totalSize]; omega, fun i hi => ?_, fun k t hk => ?_⟩
    · simp only [List.length_cons] at hi
      rw [hframe i (by omega), byte_put_outside _ _ _ _ _ (by rw [itemIdAt_eq]; omega) (by omega)]
    · cases k with
      | zero =>
        obtain rfl : bs = t := by simpa using hk
        have he := entry_put p slot (upper - bs.size) bs (by omega) (by rw [itemIdAt_eq]; omega)
        have hs : upper - totalSize ((bs :: rest).take (0 + 1)) = upper - bs.size := by
          simp [totalSize]
        rw [hs]
        exact he.congr (fun i hi hi' => hframe i (by rw [itemIdAt_eq] at hi hi'; omega))
          fun i hi _ => hframe i (by omega)
      | succ k =>
        have he := hentry k t (by simpa using hk)
        have hs : upper - totalSize ((bs :: rest).take (k + 1 + 1)) =
            upper - bs.size - totalSize (rest.take (k + 1)) := by
          rw [List.take_succ_cons, totalSize]
          omega
        rw [hs, show slot + (k + 1) = slot + 1 + k by omega]
        exact he

theorem itemId_eq_ok {p : Page} {slot start len : Nat} : p.itemId slot = .ok (start, len) ↔
    slot < p.slotCount ∧ itemIdAt slot + itemIdSize ≤ pageSize ∧ p.word (itemIdAt slot) 2 = start ∧
      p.word (itemIdAt slot + 2) 2 = len ∧ p.upper ≤ start ∧ start + len ≤ pageSize := by
  rw [itemId]
  by_cases hslot : p.slotCount ≤ slot
  · simp [hslot, Nat.not_lt.mpr hslot]
  · by_cases hplace : pageSize < itemIdAt slot + itemIdSize
    · simp [hslot, hplace, Nat.not_le.mpr hplace]
    · rw [if_neg hslot, if_neg hplace]
      dsimp only
      split
      · simp
        omega
      · simp
        omega

theorem item_eq_ok {p : Page} {slot start len : Nat} (h : p.itemId slot = .ok (start, len)) :
    p.item slot = .ok (p.slice start len) := by
  rw [item, h]
  rfl

/-- The bytes of the page header that say nothing about items, the successor among them. -/
def SameHead (p q : Page) : Prop := ∀ i, i < 4 ∨ 8 ≤ i ∧ i < headerSize → q.byte i = p.byte i

theorem SameHead.refl (p : Page) : p.SameHead p := fun _ _ => rfl

theorem SameHead.trans {p q r : Page} (h : p.SameHead q) (h' : q.SameHead r) : p.SameHead r :=
  fun i hi => (h' i hi).trans (h i hi)

theorem SameHead.next {p q : Page} (h : p.SameHead q) : q.next = p.next :=
  congrArg UInt32.ofNat (word_congr _ _ _ _ fun k hk => h _ (by omega))

structure Added (p : Page) (bs : Bytes) (slot : Nat) (q : Page) : Prop where
  fits : bs.size ≤ p.freeSpace
  upper_le : p.upper ≤ pageSize
  lower_le : p.lower + itemIdSize ≤ pageSize
  slot_eq : slot = p.slotCount
  page_eq : q = (((p.write (p.upper - bs.size) bs).setSlotCount (slot + 1)).setItemId slot
    (p.upper - bs.size) bs.size).setUpper (p.upper - bs.size)

theorem added_of_addItem {p q : Page} {bs : Bytes} {slot : Nat} (h : p.addItem bs = .ok (slot, q)) :
    p.Added bs slot q := by
  rw [addItem] at h
  by_cases hfree : p.freeSpace < bs.size
  · rw [if_pos hfree] at h
    cases h
  · rw [if_neg hfree] at h
    by_cases hguard : pageSize < p.upper ∨ pageSize < p.lower + itemIdSize
    · rw [if_pos hguard] at h
      cases h
    · rw [if_neg hguard] at h
      cases h
      exact ⟨by omega, by omega, by omega, rfl, rfl⟩

namespace Added

variable {p q : Page} {bs : Bytes} {slot : Nat}

theorem room (h : p.Added bs slot q) (hbs : 0 < bs.size) :
    p.lower + itemIdSize + bs.size ≤ p.upper := by
  have hfits := h.fits
  rw [freeSpace] at hfits
  omega

theorem apart (h : p.Added bs slot q) : p.lower + itemIdSize + bs.size ≤ p.upper ∨ bs.size = 0 :=
  (Nat.eq_zero_or_pos bs.size).elim .inr fun hbs => .inl (h.room hbs)

theorem itemIdAt_eq (h : p.Added bs slot q) : itemIdAt slot = p.lower := by
  rw [h.slot_eq]
  rfl

theorem le_lower (h : p.Added bs slot q) : 16 ≤ p.lower := by
  rw [← h.itemIdAt_eq, Page.itemIdAt_eq]
  omega

theorem slot_lt (h : p.Added bs slot q) : slot + 1 < 65536 := by
  have hlow := h.lower_le
  have hsize : pageSize = 8192 := rfl
  rw [← h.itemIdAt_eq, Page.itemIdAt_eq] at hlow
  omega

theorem byte_eq (h : p.Added bs slot q) {i : Nat} (hi : headerSize ≤ i)
    (hdata : i < p.upper - bs.size ∨ p.upper ≤ i) :
    q.byte i = (p.setItemId slot (p.upper - bs.size) bs.size).byte i := by
  have hlow := h.itemIdAt_eq
  have hapart := h.apart
  rw [headerSize] at hi
  rw [h.page_eq, setUpper, byte_setWord_outside _ _ _ _ _ (by omega), setItemId, setItemId]
  generalize hwritten : (p.write (p.upper - bs.size) bs).setSlotCount (slot + 1) = written
  have hbyte : written.byte i = p.byte i := by
    rw [← hwritten, setSlotCount, byte_setWord_outside _ _ _ _ _ (by omega),
      byte_write_outside _ _ _ _ (by omega)]
  simp only [setWord, byte_write, hbyte]

theorem byte_outside (h : p.Added bs slot q) {i : Nat} (hi : headerSize ≤ i)
    (hdata : i < p.upper - bs.size ∨ p.upper ≤ i)
    (hid : i < p.lower ∨ p.lower + itemIdSize ≤ i) : q.byte i = p.byte i := by
  have hlow := h.itemIdAt_eq
  rw [itemIdSize] at hid
  rw [h.byte_eq hi hdata, setItemId, byte_setWord_outside _ _ _ _ _ (by omega),
    byte_setWord_outside _ _ _ _ _ (by omega)]

theorem sameHead (h : p.Added bs slot q) : p.SameHead q := by
  intro i hi
  have hlow := h.le_lower
  have hid := h.itemIdAt_eq
  have hapart := h.apart
  rw [headerSize] at hi
  rw [itemIdSize] at hapart
  rw [h.page_eq, setUpper, byte_setWord_outside _ _ _ _ _ (by omega), setItemId,
    byte_setWord_outside _ _ _ _ _ (by omega), byte_setWord_outside _ _ _ _ _ (by omega),
    setSlotCount, byte_setWord_outside _ _ _ _ _ (by omega), byte_write_outside _ _ _ _ (by omega)]

theorem slotCount_eq (h : p.Added bs slot q) : q.slotCount = slot + 1 := by
  have hlow := h.le_lower
  have hid := h.itemIdAt_eq
  have hslot := h.slot_lt
  rw [slotCount, h.page_eq, setUpper, word_setWord_outside _ _ _ _ _ _ (by omega), setItemId,
    word_setWord_outside _ _ _ _ _ _ (by omega), word_setWord_outside _ _ _ _ _ _ (by omega),
    setSlotCount, word_setWord _ _ _ _ (by decide) (by simp only [numbers]; omega)]

theorem upper_eq (h : p.Added bs slot q) : q.upper = p.upper - bs.size := by
  have hupper := h.upper_le
  have hsize : pageSize = 8192 := rfl
  rw [upper, h.page_eq, setUpper]
  exact word_setWord _ _ _ _ (by decide) (by simp only [numbers]; omega)

theorem lower_eq (h : p.Added bs slot q) : q.lower = p.lower + itemIdSize := by
  rw [lower, h.slotCount_eq, ← h.itemIdAt_eq, Page.itemIdAt_eq, headerSize, itemIdSize]
  omega

theorem entry (h : p.Added bs slot q) : q.Entry slot (p.upper - bs.size) bs := by
  have hlow := h.le_lower
  have hlower := h.lower_le
  have hupper := h.upper_le
  have hid := h.itemIdAt_eq
  have hapart := h.apart
  have hsize : pageSize = 8192 := rfl
  rw [itemIdSize] at hlower hapart
  have hword : ∀ a, p.lower ≤ a → a + 2 ≤ p.lower + 4 →
      q.word a 2 = (p.setItemId slot (p.upper - bs.size) bs.size).word a 2 := fun a ha ha' =>
    word_congr _ _ _ _ fun k hk => h.byte_eq (by rw [headerSize]; omega) (by omega)
  constructor
  · rw [hid, hword _ (by omega) (by omega), setItemId, hid,
      word_setWord_outside _ _ _ _ _ _ (by omega)]
    exact word_setWord _ _ _ _ (by omega) (by simp only [numbers]; omega)
  · rw [hid, hword _ (by omega) (by omega), setItemId, hid]
    exact word_setWord _ _ _ _ (by omega) (by simp only [numbers]; omega)
  · intro k hk
    rw [h.page_eq, setUpper, byte_setWord_outside _ _ _ _ _ (by omega), setItemId,
      byte_setWord_outside _ _ _ _ _ (by omega), byte_setWord_outside _ _ _ _ _ (by omega),
      setSlotCount, byte_setWord_outside _ _ _ _ _ (by omega)]
    exact byte_write_inside _ _ _ _ hk (by omega)

theorem itemId_slot (h : p.Added bs slot q) :
    q.itemId slot = .ok (p.upper - bs.size, bs.size) := by
  have hlower := h.lower_le
  have hupper := h.upper_le
  have hapart := h.apart
  rw [← h.itemIdAt_eq] at hlower
  exact itemId_eq_ok.mpr ⟨by rw [h.slotCount_eq]; omega, hlower, h.entry.start, h.entry.length,
    Nat.le_of_eq h.upper_eq, by omega⟩

theorem item_slot (h : p.Added bs slot q) : q.item slot = .ok bs := by
  have hupper := h.upper_le
  have hapart := h.apart
  rw [item_eq_ok h.itemId_slot]
  exact congrArg Except.ok (slice_eq q _ bs (by omega) h.entry.bytes)

theorem itemId_earlier (h : p.Added bs slot q) {k start len : Nat}
    (hk : p.itemId k = .ok (start, len)) : q.itemId k = .ok (start, len) := by
  obtain ⟨hcount, hplace, hstart, hlen, hupper, hend⟩ := itemId_eq_ok.mp hk
  have hslot := h.slot_eq
  have hid := h.itemIdAt_eq
  have hapart := h.apart
  rw [Page.itemIdAt_eq] at hid
  have hword : ∀ a, itemIdAt k ≤ a → a + 2 ≤ itemIdAt k + 4 → q.word a 2 = p.word a 2 :=
    fun a ha ha' => by
      rw [Page.itemIdAt_eq] at ha ha'
      exact word_congr _ _ _ _ fun j hj => h.byte_outside (by rw [headerSize]; omega) (by omega)
        (.inl (by omega))
  exact itemId_eq_ok.mpr ⟨by rw [h.slotCount_eq]; omega, hplace,
    (hword _ (by omega) (by omega)).trans hstart, (hword _ (by omega) (by omega)).trans hlen,
    by rw [h.upper_eq]; omega, hend⟩

end Added

structure Holds (p : Page) (ts : List Bytes) : Prop where
  count : p.slotCount = ts.length
  top : p.upper + totalSize ts = pageSize
  room : p.lower ≤ p.upper
  entry : ∀ k t, ts[k]? = some t → p.Entry k (startOf ts k) t

theorem upper_empty : Page.empty.upper = pageSize := by
  rw [upper, empty, setUpper, word_setWord _ _ _ _ (by decide) (by decide)]

theorem byte_blank (i : Nat) : (⟨Vector.replicate pageSize 0⟩ : Page).byte i = 0 := by
  by_cases hi : i < pageSize
  · rw [byte_of_lt _ _ hi, Vector.getElem_replicate]
  · exact byte_of_le _ _ (Nat.not_lt.mp hi)

theorem word_blank (a w : Nat) :
    (⟨Vector.replicate pageSize 0⟩ : Page).word a w = field #[] 0 w := by
  refine field_shift _ _ a 0 w fun k _ => ?_
  have hnone : (#[] : Bytes).getD (0 + k) 0 = 0 := by simp
  rw [hnone]
  exact byte_blank (a + k)

theorem slotCount_empty : Page.empty.slotCount = 0 := by
  rw [slotCount, empty, setUpper, word_setWord_outside _ _ _ _ _ _ (by omega), setNext,
    word_setWord_outside _ _ _ _ _ _ (by omega), word_blank]
  rfl

theorem holds_empty : Page.empty.Holds [] where
  count := slotCount_empty
  top := by
    rw [upper_empty]
    rfl
  room := by
    rw [lower, upper_empty, slotCount_empty]
    decide
  entry k t h := by
    rw [List.getElem?_nil] at h
    cases h

theorem next_empty : Page.empty.next = noPage := by
  rw [next, empty, setUpper, word_setWord_outside _ _ _ _ _ _ (by omega), setNext,
    word_setWord _ _ _ _ (by decide) (by decide)]
  rfl

namespace Holds

variable {p : Page} {ts : List Bytes}

theorem lower_eq (h : p.Holds ts) : p.lower = 16 + ts.length * 4 := by
  rw [lower, h.count]
  rfl

theorem length_le (h : p.Holds ts) : 16 + ts.length * 4 + totalSize ts ≤ pageSize := by
  have := h.room
  have := h.top
  rw [h.lower_eq] at *
  omega

/-- What a page does not hold lies between its item ids and its byte strings. -/
theorem gap (h : p.Holds ts) :
    p.upper - p.lower + (16 + ts.length * 4 + totalSize ts) = pageSize := by
  have := h.room
  have := h.top
  rw [h.lower_eq] at *
  omega

theorem startOf_add (h : p.Holds ts) (k : Nat) (t : Bytes) (hk : ts[k]? = some t) :
    startOf ts k + t.size + totalSize (ts.take k) = pageSize := by
  have hs := totalSize_take_succ ts k t hk
  have hl := totalSize_take_le ts (k + 1)
  have ht := h.top
  rw [startOf]
  omega

theorem upper_le_startOf (h : p.Holds ts) (k : Nat) : p.upper ≤ startOf ts k := by
  have hl := totalSize_take_le ts (k + 1)
  have ht := h.top
  rw [startOf]
  omega

theorem itemId_eq (h : p.Holds ts) (k : Nat) (t : Bytes) (hk : ts[k]? = some t) :
    p.itemId k = .ok (startOf ts k, t.size) := by
  have hlen : k < ts.length := (List.getElem?_eq_some_iff.mp hk).1
  have he := h.entry k t hk
  have hl := h.length_le
  have hs := h.startOf_add k t hk
  exact itemId_eq_ok.mpr ⟨by rw [h.count]; omega, by simp only [itemIdAt_eq, itemIdSize]; omega,
    he.start, he.length, h.upper_le_startOf k, by omega⟩

theorem itemId_error (h : p.Holds ts) (k : Nat) (hk : ts[k]? = none) :
    p.itemId k = .error (.slotOutOfRange k ts.length) := by
  have hlen : ts.length ≤ k := List.getElem?_eq_none_iff.mp hk
  rw [itemId, if_pos (by rw [h.count]; exact hlen), h.count]

theorem item_eq (h : p.Holds ts) (k : Nat) (t : Bytes) (hk : ts[k]? = some t) :
    p.item k = .ok t := by
  have hs := h.startOf_add k t hk
  rw [item_eq_ok (h.itemId_eq k t hk)]
  exact congrArg Except.ok (slice_eq p (startOf ts k) t (by omega) (h.entry k t hk).bytes)

theorem item_error (h : p.Holds ts) (k : Nat) (hk : ts[k]? = none) :
    p.item k = .error (.slotOutOfRange k ts.length) := by
  simp only [item, h.itemId_error k hk, Except.map]

theorem spaceAfterFreeing_eq (h : p.Holds ts) (k : Nat) (t : Bytes) (hk : ts[k]? = some t) :
    p.spaceAfterFreeing k = .ok (p.upper - p.lower + t.size) := by
  simp only [spaceAfterFreeing, h.itemId_eq k t hk, Except.map]

theorem congr (h : p.Holds ts) {q : Page} (hb : ∀ i, 4 ≤ i → q.byte i = p.byte i) :
    q.Holds ts := by
  have hc : q.slotCount = p.slotCount := word_congr _ _ _ _ fun k _ => hb _ (by omega)
  have hu : q.upper = p.upper := word_congr _ _ _ _ fun k _ => hb _ (by omega)
  have hl : q.lower = p.lower := by rw [lower, lower, hc]
  refine ⟨hc.trans h.count, by rw [hu, h.top], by rw [hu, hl]; exact h.room, fun k t hk => ?_⟩
  have hs := h.upper_le_startOf k
  have hr := h.room
  rw [h.lower_eq] at hr
  exact (h.entry k t hk).congr (fun i hi _ => hb i (by rw [itemIdAt_eq] at hi; omega))
    fun i hi _ => hb i (by omega)

theorem setNext (h : p.Holds ts) (id : PageId) : (p.setNext id).Holds ts :=
  h.congr fun i hi => byte_setWord_outside _ _ _ _ _ (by omega)

theorem added (h : p.Holds ts) {q : Page} {bs : Bytes} {slot : Nat} (hadded : p.Added bs slot q)
    (hroom : bs.size + 4 ≤ p.upper - p.lower) : q.Holds (ts ++ [bs]) := by
  have hlow := h.lower_eq
  have hslot : slot = ts.length := hadded.slot_eq.trans h.count
  have htop := h.top
  refine ⟨?_, ?_, ?_, fun k t hk => ?_⟩
  · rw [hadded.slotCount_eq, hslot, List.length_append, List.length_singleton]
  · rw [hadded.upper_eq, totalSize_append, totalSize, totalSize]
    omega
  · rw [hadded.upper_eq, hadded.lower_eq, itemIdSize]
    omega
  · rcases Nat.lt_or_ge k ts.length with hk' | hk'
    · rw [List.getElem?_append_left hk'] at hk
      have hstart : startOf (ts ++ [bs]) k = startOf ts k := by
        rw [startOf, startOf, List.take_append_of_le_length hk']
      have hs := h.upper_le_startOf k
      have hbyte : ∀ i, headerSize ≤ i ∧ i < p.lower ∨ p.upper ≤ i → q.byte i = p.byte i :=
        fun i hi => hadded.byte_outside (by rw [headerSize] at *; omega) (by omega)
          (by rw [itemIdSize]; omega)
      rw [hstart]
      refine (h.entry k t hk).congr (fun i hi _ => hbyte i ?_) fun i hi _ => hbyte i (by omega)
      rw [itemIdAt_eq] at *
      rw [headerSize]
      omega
    · rw [List.getElem?_append_right hk'] at hk
      obtain ⟨hz, rfl⟩ : k - ts.length = 0 ∧ bs = t := by
        cases hd : k - ts.length with
        | zero => simpa [hd] using hk
        | succ n => simp [hd] at hk
      obtain rfl : k = ts.length := by omega
      have hstart : startOf (ts ++ [bs]) ts.length = p.upper - bs.size := by
        rw [startOf, List.take_of_length_le (by simp), totalSize_append, totalSize, totalSize]
        omega
      rw [hstart, ← hslot]
      exact hadded.entry

theorem addItem_eq (h : p.Holds ts) (bs : Bytes) (hroom : bs.size + 4 ≤ p.upper - p.lower) :
    ∃ q, p.addItem bs = .ok (ts.length, q) ∧ q.Holds (ts ++ [bs]) ∧ q.next = p.next := by
  have htop := h.top
  have hfree : ¬p.freeSpace < bs.size := by
    simp only [freeSpace, itemIdSize]
    omega
  have hguard : ¬(pageSize < p.upper ∨ pageSize < p.lower + itemIdSize) := by
    simp only [itemIdSize]
    omega
  obtain ⟨q, hq⟩ : ∃ q, p.addItem bs = .ok (ts.length, q) := by
    rw [addItem, if_neg hfree, if_neg hguard, h.count]
    exact ⟨_, rfl⟩
  have hadded := added_of_addItem hq
  exact ⟨q, hq, h.added hadded hroom, hadded.sameHead.next⟩

theorem repack_eq (h : p.Holds ts) (us : List Bytes) (hlen : us.length = ts.length)
    (hroom : 16 + us.length * 4 + totalSize us ≤ pageSize) :
    ∃ q, p.repack us = .ok q ∧ q.Holds us ∧ q.next = p.next := by
  have hlow := h.lower_eq
  have hsize : pageSize = 8192 := rfl
  obtain ⟨hup, hframe, hentry⟩ := layOut_spec us p 0 pageSize (by omega)
    (by rw [itemIdAt_eq]; omega)
  rw [Nat.zero_add, itemIdAt_eq] at hframe
  generalize hq : p.layOut 0 pageSize us = packed at hup hframe hentry
  obtain ⟨packed, upper⟩ := packed
  simp only at hup hframe hentry
  have hbyte : ∀ i, (i < 6 ∨ 8 ≤ i ∧ i < p.lower ∨ upper ≤ i) →
      ((packed.write p.lower (Array.replicate (upper - p.lower) 0)).setUpper upper).byte i =
        packed.byte i := by
    intro i hi
    rw [setUpper, byte_setWord_outside _ _ _ _ _ (by omega),
      byte_write_outside _ _ _ _ (by rw [Array.size_replicate]; omega)]
  have hcount : ((packed.write p.lower (Array.replicate (upper - p.lower) 0)).setUpper
      upper).slotCount = us.length := by
    rw [hlen, ← h.count]
    apply word_congr
    intro k hk
    rw [hbyte _ (by omega), hframe _ (by rw [itemIdAt_eq]; omega)]
  have hupper : ((packed.write p.lower (Array.replicate (upper - p.lower) 0)).setUpper
      upper).upper = upper :=
    word_setWord _ _ _ _ (by omega) (by simp only [numbers]; omega)
  refine ⟨_, ?_, ⟨hcount, by rw [hupper, hup], ?_, fun k t hk => ?_⟩, ?_⟩
  · rw [repack, if_neg (by omega), hq]
  · rw [hupper, lower, hcount]
    simp only [headerSize, itemIdSize]
    omega
  · have he := hentry k t hk
    have hk' : k < us.length := (List.getElem?_eq_some_iff.mp hk).1
    have hs := totalSize_take_le us (k + 1)
    rw [Nat.zero_add] at he
    exact he.congr (fun i hi _ => hbyte i (by rw [itemIdAt_eq] at *; omega))
      fun i hi _ => hbyte i (by omega)
  · apply congrArg UInt32.ofNat
    apply word_congr
    intro k hk
    rw [hbyte _ (by omega), hframe _ (by rw [itemIdAt_eq]; omega)]

theorem startOf_before (h : p.Holds ts) (j k : Nat) (t : Bytes) (hk : ts[k]? = some t) (hjk : k < j) :
    startOf ts j + totalSize (ts.take j) ≤ pageSize ∧
      totalSize (ts.take k) + t.size ≤ totalSize (ts.take j) := by
  have hl := totalSize_take_le ts (j + 1)
  have ht := h.top
  have hj : totalSize (ts.take j) ≤ totalSize (ts.take (j + 1)) :=
    totalSize_take_mono ts (Nat.le_succ j)
  have hk' : totalSize (ts.take (k + 1)) ≤ totalSize (ts.take j) := totalSize_take_mono ts hjk
  have := totalSize_take_succ ts k t hk
  rw [startOf]
  omega

theorem write_eq (h : p.Holds ts) (k : Nat) (t bs : Bytes) (hk : ts[k]? = some t)
    (hsize : t.size = bs.size) :
    (p.write (startOf ts k) bs).Holds (ts.set k bs) ∧
      (p.write (startOf ts k) bs).next = p.next := by
  have hlow := h.lower_eq
  have hroom := h.room
  have hup := h.upper_le_startOf k
  have hsum := h.startOf_add k t hk
  have hkl : k < ts.length := (List.getElem?_eq_some_iff.mp hk).1
  have htotal := totalSize_set ts k t bs hk
  have hbyte : ∀ i, i < startOf ts k ∨ startOf ts k + bs.size ≤ i →
      (p.write (startOf ts k) bs).byte i = p.byte i :=
    fun i hi => byte_write_outside _ _ _ _ hi
  have hc : (p.write (startOf ts k) bs).slotCount = p.slotCount :=
    word_congr _ _ _ _ fun i hi => hbyte _ (by omega)
  have hu : (p.write (startOf ts k) bs).upper = p.upper :=
    word_congr _ _ _ _ fun i hi => hbyte _ (by omega)
  have hstart : ∀ j, startOf (ts.set k bs) j = startOf ts j := by
    intro j
    rw [startOf, startOf, List.take_set]
    congr 1
    by_cases hj : k < j + 1
    · have := totalSize_set (ts.take (j + 1)) k t bs (by rw [List.getElem?_take_of_lt hj, hk])
      omega
    · rw [List.set_eq_of_length_le (by rw [List.length_take]; omega)]
  refine ⟨⟨by rw [hc, h.count, List.length_set], by rw [hu]; have := h.top; omega,
    by rw [lower, hc, hu]; exact hroom, fun j u hj => ?_⟩,
    congrArg UInt32.ofNat (word_congr _ _ _ _ fun i hi => hbyte _ (by omega))⟩
  rw [hstart]
  have hjl : j < ts.length := by
    have := (List.getElem?_eq_some_iff.mp hj).1
    rwa [List.length_set] at this
  by_cases hjk : j = k
  · subst hjk
    obtain rfl : bs = u := by simpa [hkl] using hj
    have he := h.entry j t hk
    refine ⟨?_, ?_, fun i hi => byte_write_inside _ _ _ _ hi (by omega)⟩
    · rw [word_write_outside _ _ _ _ _ (by rw [itemIdAt_eq]; omega)]
      exact he.start
    · rw [word_write_outside _ _ _ _ _ (by rw [itemIdAt_eq]; omega), ← hsize]
      exact he.length
  · rw [List.getElem?_set_ne (Ne.symm hjk)] at hj
    refine (h.entry j u hj).congr (fun i _ hi => hbyte i (by rw [itemIdAt_eq] at hi; omega))
      fun i hi hi' => hbyte i ?_
    have hsum' := h.startOf_add j u hj
    rcases Nat.lt_or_gt_of_ne hjk with hlt | hlt
    · have := h.startOf_before k j u hj hlt
      omega
    · have := h.startOf_before j k t hk hlt
      omega

theorem overwriteItem_same (h : p.Holds ts) {k : Nat} {t bs : Bytes} (hk : ts[k]? = some t)
    (hsize : t.size = bs.size) : p.overwriteItem k bs = .ok (p.write (startOf ts k) bs) := by
  rw [overwriteItem, h.itemId_eq k t hk]
  exact if_pos hsize

theorem itemId_write (h : p.Holds ts) {start : Nat} (bs : Bytes) (hstart : p.upper ≤ start)
    (slot : Nat) : (p.write start bs).itemId slot = p.itemId slot := by
  have hlow := h.lower_eq
  have hroom := h.room
  have hword : ∀ a w, a + w ≤ p.lower → (p.write start bs).word a w = p.word a w := fun a w ha =>
    word_write_outside _ _ _ _ _ (.inl (by omega))
  have hcount : (p.write start bs).slotCount = p.slotCount := hword 4 2 (by omega)
  have hupper : (p.write start bs).upper = p.upper := hword 6 2 (by omega)
  rw [itemId, itemId, hcount, hupper]
  by_cases hslot : p.slotCount ≤ slot
  · rw [if_pos hslot, if_pos hslot]
  · have hid : itemIdAt slot + 4 ≤ p.lower := by
      rw [hlow, itemIdAt_eq, ← h.count]
      omega
    rw [if_neg hslot, if_neg hslot, hword _ _ (by omega), hword _ _ (by omega)]

theorem itemsWith_eq (h : p.Holds ts) (k : Nat) (bs : Bytes) :
    p.itemsWith k bs = .ok (ts.set k bs) := by
  have hmap : ∀ (is : List Nat), (∀ i ∈ is, i < ts.length) →
      (is.mapM fun i => if i = k then Except.ok bs else p.item i) =
        .ok (is.map fun i => (ts.set k bs).getD i #[]) := by
    intro is
    induction is with
    | nil => intro _; rfl
    | cons i is ih =>
      intro hi
      have hlt : i < ts.length := hi i List.mem_cons_self
      have hhead : (if i = k then Except.ok bs else p.item i) =
          Except.ok ((ts.set k bs).getD i #[]) := by
        by_cases hik : i = k
        · subst hik
          simp [hlt]
        · rw [if_neg hik, h.item_eq i ts[i] (List.getElem?_eq_getElem hlt)]
          simp [List.getElem_set_ne (Ne.symm hik), hlt]
      rw [List.mapM_cons, hhead, ih fun j hj => hi j (List.mem_cons_of_mem _ hj)]
      rfl
  rw [itemsWith, h.count, hmap _ fun i hi => List.mem_range.mp hi]
  congr 1
  apply List.ext_getElem
  · simp
  · intro i hi hi'
    simp only [List.length_map, List.length_range] at hi
    simp [hi]

theorem overwriteItem_eq (h : p.Holds ts) (k : Nat) (t bs : Bytes) (hk : ts[k]? = some t)
    (hroom : bs.size ≤ p.upper - p.lower + t.size) :
    ∃ q, p.overwriteItem k bs = .ok q ∧ q.Holds (ts.set k bs) ∧ q.next = p.next := by
  rw [overwriteItem, h.itemId_eq k t hk]
  by_cases hs : t.size = bs.size
  · exact ⟨_, if_pos hs, h.write_eq k t bs hk hs⟩
  · have hlow := h.lower_eq
    have htop := h.top
    have hr := h.room
    have hset := totalSize_set ts k t bs hk
    have hbound := totalSize_take_le ts (k + 1)
    obtain ⟨q, hq, hholds, hnext⟩ := h.repack_eq (ts.set k bs) (by simp)
      (by rw [List.length_set]; omega)
    refine ⟨q, ?_, hholds, hnext⟩
    simp only [if_neg hs]
    rw [if_neg (by omega), h.itemsWith_eq]
    exact hq

end Holds

namespace Holds

variable {p q : Page} {ts : List Bytes} {bs : Bytes} {slot : Nat}

theorem sameHead_repack (h : p.Holds ts) {us : List Bytes} (hlen : us.length = ts.length)
    (hq : p.repack us = .ok q) : p.SameHead q := by
  have hlow := h.lower_eq
  rw [repack] at hq
  by_cases hlarge : pageSize < p.lower + totalSize us
  · rw [if_pos hlarge] at hq
    cases hq
  · rw [if_neg hlarge] at hq
    obtain ⟨-, hframe, -⟩ := layOut_spec us p 0 pageSize (Nat.le_refl _)
      (by rw [itemIdAt_eq]; omega)
    obtain rfl := Except.ok.inj hq
    intro i hi
    rw [headerSize] at hi
    rw [setUpper, byte_setWord_outside _ _ _ _ _ (by omega),
      byte_write_outside _ _ _ _ (by omega), hframe i (by rw [itemIdAt_eq]; omega)]

theorem sameHead_overwriteItem (h : p.Holds ts) {old : Bytes} (hold : ts[slot]? = some old)
    (hq : p.overwriteItem slot bs = .ok q) : p.SameHead q := by
  have hlow := h.lower_eq
  have hroom := h.room
  have hup := h.upper_le_startOf slot
  rw [overwriteItem, h.itemId_eq slot old hold] at hq
  simp only at hq
  by_cases hsame : old.size = bs.size
  · rw [if_pos hsame] at hq
    obtain rfl := Except.ok.inj hq
    intro i hi
    rw [headerSize] at hi
    exact byte_write_outside _ _ _ _ (by omega)
  · rw [if_neg hsame] at hq
    by_cases hlarge : p.upper - p.lower + old.size < bs.size
    · rw [if_pos hlarge] at hq
      cases hq
    · rw [if_neg hlarge, h.itemsWith_eq] at hq
      exact h.sameHead_repack (List.length_set ..) hq

end Holds

end Page

end PagedGraph
