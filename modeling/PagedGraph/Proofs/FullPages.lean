import PagedGraph.Proofs.PageCalls

/-!
# Adding to a full page

A byte string needs room for itself and for an item id. A page compares its size with the free space,
and that is zero when there is just the room for an item id as well as when there is less. So an
empty byte string is let in by a page that has no room for its item id, which then overwrites the
bytes that lie behind the item ids.

Whatever has been called on a new page before, this is the only way in which an addition does any
harm (`addition_harmless_iff`).
-/

set_option autoImplicit false

namespace PagedGraph

namespace Page
open LittleEndian

def HasRoom (p : Page) (bs : Bytes) : Prop := p.lower + itemIdSize + bs.size ≤ p.upper

/-- What could be read before is read as before, the new byte string is read back, and the item ids
end before the data begin. -/
structure Harmless (p : Page) (bs : Bytes) (slot : Nat) (q : Page) : Prop where
  earlier : ∀ k cs, p.item k = .ok cs → q.item k = .ok cs
  added : q.item slot = .ok bs
  apart : q.lower ≤ q.upper

namespace Added

variable {p q : Page} {bs : Bytes} {slot : Nat}

theorem harmless (h : p.Added bs slot q) (hroom : p.HasRoom bs) : p.Harmless bs slot q where
  earlier k cs hk := by
    rw [HasRoom] at hroom
    have hlow := h.le_lower
    cases hid : p.itemId k with
    | error e =>
      rw [item, hid] at hk
      cases hk
    | ok place =>
      obtain ⟨start, len⟩ := place
      obtain ⟨-, -, -, -, hupper, hend⟩ := itemId_eq_ok.mp hid
      rw [← hk, item_eq_ok hid, item_eq_ok (h.itemId_earlier hid)]
      refine congrArg Except.ok (slice_congr hend fun i hi _ => ?_)
      -- The old data lie behind the new item id and behind the new data.
      exact h.byte_outside (by rw [headerSize]; omega) (.inr (by omega)) (.inr (by omega))
  added := h.item_slot
  apart := by
    rw [HasRoom] at hroom
    rw [h.lower_eq, h.upper_eq]
    omega

theorem overlaps (h : p.Added bs slot q) (hroom : ¬p.HasRoom bs) :
    bs = #[] ∧ q.upper = p.upper ∧ q.upper < q.lower := by
  have hsize : bs.size = 0 := Nat.eq_zero_of_not_pos fun hbs => hroom (h.room hbs)
  rw [HasRoom, hsize] at hroom
  rw [h.lower_eq, h.upper_eq, hsize]
  exact ⟨Array.eq_empty_of_size_eq_zero hsize, Nat.sub_zero _, by omega⟩

theorem item_overlapped (h : p.Added bs slot q) (hroom : ¬p.HasRoom bs)
    (hheader : headerSize ≤ p.upper) {k start len : Nat} (hk : p.itemId k = .ok (start, len)) :
    q.item k = .ok ((p.setItemId slot p.upper 0).slice start len) := by
  obtain ⟨-, -, -, -, hupper, hend⟩ := itemId_eq_ok.mp hk
  obtain ⟨rfl, -, -⟩ := h.overlaps hroom
  rw [item_eq_ok (h.itemId_earlier hk)]
  refine congrArg Except.ok (slice_congr hend fun i hi _ => ?_)
  exact h.byte_eq (by omega) (.inr (by omega))

end Added

def InFrame (p : Page) : Prop := headerSize ≤ p.upper ∧ p.upper ≤ pageSize

theorem inFrame_empty : Page.empty.InFrame := by
  rw [InFrame, upper_empty]
  exact ⟨by decide, Nat.le_refl _⟩

theorem InFrame.addItem {p q : Page} {bs : Bytes} {slot : Nat} (h : p.InFrame)
    (hq : p.addItem bs = .ok (slot, q)) : q.InFrame := by
  have hadded := added_of_addItem hq
  have hapart := hadded.apart
  have hlow := hadded.le_lower
  obtain ⟨hheader, hpage⟩ := h
  rw [headerSize] at hheader
  rw [InFrame, hadded.upper_eq, headerSize]
  omega

theorem length_itemsWith {p : Page} {slot : Nat} {bs : Bytes} {items : List Bytes}
    (h : p.itemsWith slot bs = .ok items) : items.length = p.slotCount := by
  rw [itemsWith] at h
  generalize (fun k => if k = slot then Except.ok bs else p.item k) = f at h
  have hmap : ∀ (ks : List Nat) items, ks.mapM f = .ok items → items.length = ks.length := by
    intro ks
    induction ks with
    | nil =>
      intro items h
      cases h
      rfl
    | cons k ks ih =>
      intro items h
      rw [List.mapM_cons] at h
      cases hk : f k with
      | error e =>
        rw [hk] at h
        cases h
      | ok bs =>
        cases hks : ks.mapM f with
        | error e =>
          rw [hk, hks] at h
          cases h
        | ok rest =>
          rw [hk, hks] at h
          cases h
          rw [List.length_cons, List.length_cons, ih rest hks]
  rw [hmap _ items h, List.length_range]

theorem inFrame_repack {p q : Page} {items : List Bytes} (hlen : items.length = p.slotCount)
    (hq : p.repack items = .ok q) : q.InFrame := by
  have hlow : p.lower = 16 + p.slotCount * 4 := rfl
  have hsize : pageSize = 8192 := rfl
  rw [repack] at hq
  by_cases hlarge : pageSize < p.lower + totalSize items
  · rw [if_pos hlarge] at hq
    cases hq
  · rw [if_neg hlarge] at hq
    obtain ⟨hup, -, -⟩ := layOut_spec items p 0 pageSize (Nat.le_refl _)
      (by rw [itemIdAt_eq]; omega)
    obtain rfl := Except.ok.inj hq
    rw [InFrame, upper, setUpper, word_setWord _ _ _ _ (by decide) (by simp only [numbers]; omega),
      headerSize]
    omega

theorem InFrame.overwriteItem {p q : Page} {bs : Bytes} {slot : Nat} (h : p.InFrame)
    (hq : p.overwriteItem slot bs = .ok q) : q.InFrame := by
  rw [Page.overwriteItem] at hq
  cases hid : p.itemId slot with
  | error e =>
    rw [hid] at hq
    cases hq
  | ok place =>
    obtain ⟨start, len⟩ := place
    obtain ⟨-, -, -, -, hupper, -⟩ := itemId_eq_ok.mp hid
    rw [hid] at hq
    dsimp only at hq
    split at hq
    · obtain rfl := Except.ok.inj hq
      have hsame : (p.write start bs).upper = p.upper :=
        word_write_outside _ _ _ _ _ (.inl (by have := h.1; rw [headerSize] at this; omega))
      rwa [InFrame, hsame]
    · split at hq
      · cases hq
      · cases hitems : p.itemsWith slot bs with
        | error e =>
          rw [hitems] at hq
          cases hq
        | ok items =>
          rw [hitems] at hq
          exact inFrame_repack (length_itemsWith hitems) hq

theorem InFrame.setNext {p : Page} (h : p.InFrame) (id : PageId) : (p.setNext id).InFrame := by
  have hsame : (p.setNext id).upper = p.upper := word_setWord_outside _ _ _ _ _ _ (.inr (by decide))
  rwa [InFrame, hsame]

end Page

namespace PageCall

theorem inFrame_call {p q : Page} {c : PageCall} {a : Option Nat} (h : p.InFrame)
    (hq : c.onPage p = .ok (a, q)) : q.InFrame := by
  cases c with
  | add bs =>
    rw [onPage] at hq
    cases hadd : p.addItem bs with
    | error e =>
      rw [hadd] at hq
      cases hq
    | ok r =>
      rw [hadd] at hq
      cases hq
      exact h.addItem hadd
  | overwrite slot bs =>
    rw [onPage] at hq
    cases hover : p.overwriteItem slot bs with
    | error e =>
      rw [hover] at hq
      cases hq
    | ok r =>
      rw [hover] at hq
      cases hq
      exact h.overwriteItem hover
  | link id =>
    cases hq
    exact h.setNext id

theorem inFrame_run (calls : List PageCall) :
    ∀ {p : Page}, p.InFrame → (runAll onPage calls p).2.InFrame := by
  induction calls with
  | nil => exact fun h => h
  | cons c calls ih =>
    intro p h
    rw [runAll]
    cases hc : c.onPage p with
    | error e => exact ih h
    | ok r => exact ih (inFrame_call h hc)

structure Addition (p : Page) (bs : Bytes) (slot : Nat) (q : Page) : Prop where
  slot_eq : slot = p.slotCount
  item : q.item slot = .ok bs
  harmless_iff : p.Harmless bs slot q ↔ p.HasRoom bs
  /-- Only an empty byte string is let in without room, and then its item id is written over data. -/
  overlapped : ¬p.HasRoom bs → bs = #[] ∧ q.upper < q.lower ∧ ∀ k start len,
    p.itemId k = .ok (start, len) →
      q.item k = .ok ((p.setItemId slot p.upper 0).slice start len)

/-- Whatever has been called on a new page: an addition that succeeds damages nothing if and only if
there has been room for the item id. -/
theorem addition_harmless_iff (calls : List PageCall) {bs : Bytes} {slot : Nat} {q : Page}
    (h : (runAll onPage calls Page.empty).2.addItem bs = .ok (slot, q)) :
    Addition (runAll onPage calls Page.empty).2 bs slot q := by
  have hframe := inFrame_run calls Page.inFrame_empty
  have hadded := Page.added_of_addItem h
  generalize (runAll onPage calls Page.empty).2 = p at *
  refine ⟨hadded.slot_eq, hadded.item_slot, ⟨fun hharmless => ?_, hadded.harmless⟩, fun hroom => ?_⟩
  · by_cases hroom : p.HasRoom bs
    · exact hroom
    · obtain ⟨-, -, hlt⟩ := hadded.overlaps hroom
      exact absurd hharmless.apart (Nat.not_le.mpr hlt)
  · obtain ⟨hempty, -, hlt⟩ := hadded.overlaps hroom
    exact ⟨hempty, hlt, fun _ _ _ => hadded.item_overlapped hroom hframe.1⟩

def filler : Bytes := Array.replicate 8172 7

theorem getD_filler : filler.getD 0 0 = 7 := by
  have hpos : 0 < 8172 := by decide
  simp only [filler, Array.getD_eq_getD_getElem?, Array.getElem?_replicate, if_pos hpos,
    Option.getD_some]

theorem holds_filler : (runAll onPage [add filler] Page.empty).2.Holds [filler] := by
  have hsize : filler.size = 8172 := Array.size_replicate
  obtain ⟨q, hq, hholds, -⟩ := Page.holds_empty.addItem_eq filler (by
    have hgap := Page.holds_empty.gap
    have hpage : pageSize = 8192 := rfl
    simp only [List.length_nil, Page.totalSize] at hgap
    omega)
  have hcall : (add filler).onPage Page.empty = .ok (some 0, q) := by
    rw [onPage, hq]
    rfl
  rw [runAll, hcall]
  exact hholds

theorem bounds_of_full {p : Page} {bs : Bytes} (hholds : p.Holds [bs]) (hsize : bs.size = 8172) :
    p.lower = 20 ∧ p.upper = 20 := by
  have hpage : pageSize = 8192 := rfl
  have htop := hholds.top
  simp only [Page.totalSize] at htop
  exact ⟨hholds.lower_eq, by omega⟩

theorem addItem_empty {p : Page} {bs : Bytes} (hholds : p.Holds [bs]) (hsize : bs.size = 8172) :
    ∃ q, p.addItem #[] = .ok (1, q) := by
  obtain ⟨hlower, hupper⟩ := bounds_of_full hholds hsize
  have hfits : ¬p.freeSpace < (#[] : Bytes).size := Nat.not_lt_zero _
  have hguard : ¬(pageSize < p.upper ∨ pageSize < p.lower + Page.itemIdSize) := by
    rw [hlower, hupper]
    decide
  rw [Page.addItem, if_neg hfits, if_neg hguard, hholds.count]
  exact ⟨_, rfl⟩

theorem first_byte_of_full {p q : Page} {bs : Bytes} (hholds : p.Holds [bs])
    (hsize : bs.size = 8172) (hadded : Addition p #[] 1 q) (hsame : q.item 0 = .ok bs) :
    bs.getD 0 0 = 20 := by
  obtain ⟨hlower, hupper⟩ := bounds_of_full hholds hsize
  have hpage : pageSize = 8192 := rfl
  have hstart := hholds.startOf_add 0 bs rfl
  simp only [List.take_zero, Page.totalSize] at hstart
  have hid := hholds.itemId_eq 0 bs rfl
  rw [show Page.startOf [bs] 0 = 20 by omega] at hid
  obtain ⟨-, -, hoverlapped⟩ := hadded.overlapped fun hroom => by
    rw [Page.HasRoom, hlower, hupper] at hroom
    exact absurd hroom (by decide)
  rw [hoverlapped 0 _ _ hid, hupper] at hsame
  rw [← Except.ok.inj hsame, Page.getD_slice _ _ _ _ (by omega), Page.setItemId,
    Page.byte_setWord_outside _ _ _ _ _ (.inl (by decide)), Page.setWord, Page.byte_write,
    if_pos ⟨by decide, by decide, by decide⟩]
  decide

/-- After a page has been filled, it takes an empty byte string as well, and what it has been filled
with is damaged. -/
theorem addition_to_full_page : ∃ q,
    (runAll onPage [add filler] Page.empty).2.addItem #[] = .ok (1, q) ∧
    (runAll onPage [add filler] Page.empty).2.item 0 = .ok filler ∧
    Addition (runAll onPage [add filler] Page.empty).2 #[] 1 q ∧ q.item 0 ≠ .ok filler := by
  have hsize : filler.size = 8172 := Array.size_replicate
  obtain ⟨q, hq⟩ := addItem_empty holds_filler hsize
  have hadded := addition_harmless_iff [add filler] hq
  refine ⟨q, hq, holds_filler.item_eq 0 filler List.getElem?_cons_zero, hadded, fun hsame => ?_⟩
  have hfirst := first_byte_of_full holds_filler hsize hadded hsame
  rw [getD_filler] at hfirst
  exact absurd hfirst (by decide)

end PageCall

end PagedGraph
