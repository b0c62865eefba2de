import PagedGraph.Proofs.Probing
import PagedGraph.Proofs.Unbroken

/-!
# First fit

What it means that a page has room for two records is said by the two writes themselves: they
succeed one after the other. The search for room never makes these writes; it decides by the free
bytes that it reads off the page headers. Both come to the same, for whatever a page holds
(`Page.Holds.takesPair_iff`, `Store.takesOver_iff`). So the search takes the first page of the chain
that has room, fresh slots before slots of a deleted element, and lets the file grow only if there
is no such page (`Store.Intact.firstFit`).
-/

set_option autoImplicit false

namespace PagedGraph

namespace Page

def TakesOne (p : Page) (size : Nat) : Prop :=
  ∀ bs : Bytes, bs.size = size → ∃ slot q, p.addItem bs = .ok (slot, q) ∧ q.lower ≤ q.upper

def TakesPair (p : Page) (n : PairSize) : Prop :=
  ∀ element neighbors : Bytes, element.size = n.element → neighbors.size = n.neighbors →
    ∃ slot q slot' q', p.addItem element = .ok (slot, q) ∧
      q.addItem neighbors = .ok (slot', q') ∧ q'.lower ≤ q'.upper

namespace Holds
open LittleEndian

variable {p q : Page} {ts : List Bytes} {bs : Bytes} {slot : Nat}

theorem room_of_addItem (h : p.Holds ts) (hq : p.addItem bs = .ok (slot, q))
    (hroom : q.lower ≤ q.upper) : bs.size + 4 ≤ p.upper - p.lower := by
  have hlen := h.length_le
  have hlow := h.lower_eq
  have htop := h.top
  have hsize : pageSize = 8192 := rfl
  rw [addItem] at hq
  by_cases hfree : p.freeSpace < bs.size
  · rw [if_pos hfree] at hq
    cases hq
  · rw [if_neg hfree] at hq
    by_cases hguard : pageSize < p.upper ∨ pageSize < p.lower + itemIdSize
    · rw [if_pos hguard] at hq
      cases hq
    · rw [if_neg hguard] at hq
      obtain ⟨-, rfl⟩ := Prod.mk.inj (Except.ok.inj hq)
      have hcount : ∀ filled : Page, ((filled.setSlotCount (p.slotCount + 1)).setItemId p.slotCount
          (p.upper - bs.size) bs.size).slotCount = p.slotCount + 1 := by
        intro filled
        rw [slotCount, setItemId,
          word_setWord_outside _ _ _ _ _ _ (by rw [itemIdAt_eq]; omega),
          word_setWord_outside _ _ _ _ _ _ (by rw [itemIdAt_eq]; omega), setSlotCount,
          word_setWord _ _ _ _ (by omega) (by rw [h.count]; simp only [numbers]; omega)]
      rw [lower, slotCount, setUpper, word_setWord_outside _ _ _ _ _ _ (by omega), ← slotCount,
        hcount, upper, word_setWord _ _ _ _ (by omega) (by simp only [numbers]; omega), h.count,
        headerSize, itemIdSize] at hroom
      omega

theorem takesOne_iff (h : p.Holds ts) {size : Nat} (hpos : 0 < size) :
    p.TakesOne size ↔ size ≤ p.freeSpace := by
  have hroom : size ≤ p.freeSpace ↔ size + 4 ≤ p.upper - p.lower := by
    rw [freeSpace, itemIdSize]
    omega
  rw [hroom]
  constructor
  · intro htakes
    obtain ⟨slot, q, hq, hend⟩ := htakes (Array.replicate size 0) Array.size_replicate
    have := h.room_of_addItem hq hend
    rwa [Array.size_replicate] at this
  · rintro hroom bs rfl
    obtain ⟨q, hq, hholds, -⟩ := h.addItem_eq bs hroom
    exact ⟨_, q, hq, hholds.room⟩

theorem takesPair_iff (h : p.Holds ts) {n : PairSize} (hpos : 0 < n.element) :
    p.TakesPair n ↔ n.together ≤ p.freeSpace := by
  have hgap : ∀ (q : Page) (bs : Bytes), q.Holds (ts ++ [bs]) →
      q.upper - q.lower + bs.size + 4 = p.upper - p.lower := by
    intro q bs hq
    have hp := h.gap
    have hq := hq.gap
    rw [List.length_append, List.length_singleton, totalSize_append, totalSize, totalSize] at hq
    omega
  have htogether : n.together ≤ p.freeSpace ↔
      n.element + 4 ≤ p.upper - p.lower ∧
        n.neighbors + 4 + (n.element + 4) ≤ p.upper - p.lower := by
    rw [PairSize.together, freeSpace, itemIdSize]
    omega
  rw [htogether]
  constructor
  · intro htakes
    obtain ⟨slot, q, slot', q', hq, hq', hroom⟩ := htakes (Array.replicate n.element 0)
      (Array.replicate n.neighbors 0) Array.size_replicate Array.size_replicate
    have hone : n.element + 4 ≤ p.upper - p.lower := by
      by_cases hfree : p.freeSpace < (Array.replicate n.element (0 : UInt8)).size
      · rw [addItem, if_pos hfree] at hq
        cases hq
      · rw [freeSpace, itemIdSize, Array.size_replicate] at hfree
        omega
    obtain ⟨q₁, hq₁, hholds, -⟩ := h.addItem_eq (Array.replicate n.element 0)
      (by rwa [Array.size_replicate])
    obtain ⟨-, rfl⟩ := Prod.mk.inj (Except.ok.inj (hq₁.symm.trans hq))
    have hsum := hgap q₁ _ hholds
    have hsecond := hholds.room_of_addItem hq' hroom
    rw [Array.size_replicate] at hsum hsecond
    omega
  · rintro ⟨hone, hboth⟩ element neighbors he hn
    rw [← he] at hone hboth
    obtain ⟨q, hq, hholds, -⟩ := h.addItem_eq element hone
    have := hgap q element hholds
    obtain ⟨q', hq', hholds', -⟩ := hholds.addItem_eq neighbors (by omega)
    exact ⟨_, q, _, q', hq, hq', hholds'.room⟩

theorem takesOne_of_pair (h : p.Holds ts) {n : PairSize} (hpos : 0 < n.element)
    (htakes : p.TakesPair n) : p.TakesOne n.element := by
  have hroom := (h.takesPair_iff hpos).mp htakes
  rw [PairSize.together] at hroom
  exact (h.takesOne_iff hpos).mpr (by omega)

theorem overwrites_iff (h : p.Holds ts) (bs : Bytes) {old : Bytes} (hold : ts[slot]? = some old) :
    (∃ q, p.overwriteItem slot bs = .ok q) ↔ bs.size ≤ p.upper - p.lower + old.size := by
  constructor
  · rintro ⟨q, hq⟩
    rw [overwriteItem, h.itemId_eq slot old hold] at hq
    simp only at hq
    by_cases hsame : old.size = bs.size
    · omega
    · rw [if_neg hsame] at hq
      by_cases hlarge : p.upper - p.lower + old.size < bs.size
      · rw [if_pos hlarge] at hq
        cases hq
      · omega
  · intro hroom
    obtain ⟨q, hq, -⟩ := h.overwriteItem_eq slot old bs hold hroom
    exact ⟨q, hq⟩

theorem overwrite_same (h : p.Holds ts) {old : Bytes} (hold : ts[slot]? = some old)
    (hsize : bs.size = old.size) :
    ∃ q, p.overwriteItem slot bs = .ok q ∧ q.Holds (ts.set slot bs) ∧
      q.upper - q.lower = p.upper - p.lower := by
  obtain ⟨q, hq, hholds, -⟩ := h.overwriteItem_eq slot old bs hold (by omega)
  refine ⟨q, hq, hholds, ?_⟩
  have hp := h.gap
  have hgap := hholds.gap
  have htotal := totalSize_set ts slot old bs hold
  rw [List.length_set] at hgap
  omega

end Holds

end Page

namespace Store

def TakesOver (s : Store) (n : PairSize) (l k : Location) : Prop :=
  ∀ element neighbors : Bytes, element.size = n.element → neighbors.size = n.neighbors →
    ∃ p q r r', s.readPage l.page = .ok p ∧ p.overwriteItem l.slot.toNat element = .ok q ∧
      (s.withPage l.page q).readPage k.page = .ok r ∧
      r.overwriteItem k.slot.toNat neighbors = .ok r'

theorem readPage_eq_ok (s : Store) (id : PageId) (p : Page) :
    s.readPage id = .ok p ↔ s.pages[id.toNat]? = some p := by
  rw [readPage]
  cases s.pages[id.toNat]? with
  | none =>
    constructor
    · intro h
      cases h
    · intro h
      cases h
  | some q =>
    constructor
    · intro h
      rw [Except.ok.inj h]
    · intro h
      rw [Option.some.inj h]

section
variable {t : Header} {s : Store} (h : s.Intact t) {n : PairSize}
include h

/-- An element of the same size is overwritten in place, so what counts is the room for the neighbor
record on its page, be it the element's page or another one. -/
theorem takesOver_iff {l k : Location} {f : Element} {a : Adjacency}
    (hl : s.record? l = some (.element f)) (hk : s.record? k = some (.adjacency a)) {r : Page}
    (hr : s.pages[k.page.toNat]? = some r) (hn : n.element = f.encode.size) :
    s.TakesOver n l k ↔ n.neighbors ≤ r.upper - r.lower + a.encode.size := by
  obtain ⟨p, rs, -, hp, hrs, hslot⟩ := h.page_of_record l _ hl
  have hold : (rs.map Record.encode)[l.slot.toNat]? = some f.encode := by
    rw [List.getElem?_map, hslot]
    rfl
  -- The page of the neighbor record after the element has been overwritten.
  have hwrite : ∀ element : Bytes, element.size = n.element → ∃ q r' us,
      p.overwriteItem l.slot.toNat element = .ok q ∧
      (s.withPage l.page q).pages[k.page.toNat]? = some r' ∧ r'.Holds us ∧
      us[k.slot.toNat]? = some a.encode ∧ r'.upper - r'.lower = r.upper - r.lower := by
    intro element hsize
    obtain ⟨q, hq, hholds, hgap⟩ := hrs.holds.overwrite_same hold (hsize.trans hn)
    have hget := s.getElem?_withPage l.page q p k.page.toNat hp
    by_cases hpage : k.page = l.page
    · rw [hpage, hp] at hr
      obtain rfl : p = r := Option.some.inj hr
      refine ⟨q, q, _, hq, by rw [hget, if_pos (by rw [hpage])], hholds, ?_, hgap⟩
      have hslot' : rs[k.slot.toNat]? = some (.adjacency a) := by
        rw [← hrs.record?_eq, ← s.record?_of_page k p (by rw [hpage]; exact hp)]
        exact hk
      have hne : l.slot.toNat ≠ k.slot.toNat := by
        intro heq
        rw [heq, hslot'] at hslot
        cases hslot
      rw [List.getElem?_set_ne hne, List.getElem?_map, hslot']
      rfl
    · obtain ⟨r', us, -, hr', hus, hslot'⟩ := h.page_of_record k _ hk
      obtain rfl : r = r' := Option.some.inj (hr.symm.trans hr')
      refine ⟨q, r, _, hq, ?_, hus.holds, by rw [List.getElem?_map, hslot']; rfl, rfl⟩
      rw [hget, if_neg fun heq => hpage (UInt32.toNat_inj.mp heq), hr]
  constructor
  · intro htakes
    obtain ⟨p₁, q₁, r₁, r₂, hp₁, hq₁, hr₁, hr₂⟩ := htakes (Array.replicate n.element 0)
      (Array.replicate n.neighbors 0) Array.size_replicate Array.size_replicate
    obtain ⟨q, r', us, hq, hr', hus, hneighbors, hgap⟩ :=
      hwrite (Array.replicate n.element 0) Array.size_replicate
    obtain rfl : p = p₁ := Option.some.inj (hp.symm.trans ((s.readPage_eq_ok _ _).mp hp₁))
    obtain rfl : q = q₁ := Except.ok.inj (hq.symm.trans hq₁)
    obtain rfl : r' = r₁ := Option.some.inj (hr'.symm.trans ((readPage_eq_ok _ _ _).mp hr₁))
    have hroom := (hus.overwrites_iff _ hneighbors).mp ⟨r₂, hr₂⟩
    rwa [Array.size_replicate, hgap] at hroom
  · intro hroom element neighbors he hsize
    obtain ⟨q, r', us, hq, hr', hus, hneighbors, hgap⟩ := hwrite element he
    obtain ⟨r₂, hr₂⟩ := (hus.overwrites_iff neighbors hneighbors).mpr
      (by rw [hsize, hgap]; exact hroom)
    exact ⟨p, q, r', r₂, (s.readPage_eq_ok _ _).mpr hp, hq, (readPage_eq_ok _ _ _).mpr hr', hr₂⟩

end

structure Spare (s : Store) (l : Location) (f : Element) : Prop where
  record : s.record? l = some (.element f)
  deleted : f.deleted = true
  not_entry : s.entry.map EntryPoint.location ≠ some l

/-- A deleted element, not the entry point, whose slot and whose neighbor record's slot can be
overwritten by a pair of the given sizes. -/
structure Overwritable (s : Store) (n : PairSize) (l : Location) (f : Element) : Prop where
  element : s.element l = .ok f
  deleted : f.deleted = true
  not_entry : s.entry.map EntryPoint.location ≠ some l
  takes : s.TakesOver n l f.neighborsAt

theorem Overwritable.spare {s : Store} {n : PairSize} {l : Location} {f : Element}
    (h : s.Overwritable n l f) : s.Spare l f :=
  ⟨(s.element_eq_ok l f).mp h.element, h.deleted, h.not_entry⟩

theorem Spare.overwritable {s : Store} {n : PairSize} {l : Location} {f : Element}
    (h : s.Spare l f) (htakes : s.TakesOver n l f.neighborsAt) : s.Overwritable n l f :=
  ⟨(s.element_eq_ok l f).mpr h.record, h.deleted, h.not_entry, htakes⟩

structure FirstOver (s : Store) (n : PairSize) (l : Location) (f : Element) : Prop where
  overwritable : s.Overwritable n l f
  lowest : ∀ k g, k.page = l.page → s.Overwritable n k g → l.slot.toNat ≤ k.slot.toNat

end Store

theorem Store.Intact.tombstones_spec {t : Header} {s : Store} (h : s.Intact t) {id : PageId}
    {p : Page} (hpos : 0 < id.toNat) (hp : s.pages[id.toNat]? = some p) :
    ∃ found, tombstones s.entry id p = .ok found ∧
      found.Pairwise (fun x y => x.slot < y.slot) ∧
      (∀ x ∈ found, ∃ l f, l.page = id ∧ s.Spare l f ∧
        x = .of l.slot.toNat f) ∧
      ∀ l f, l.page = id → s.Spare l f →
        Tombstone.of l.slot.toNat f ∈ found := by
  obtain ⟨rs, hrs⟩ := h.filled id.toNat p hpos hp
  refine ⟨_, tombstones_ok hrs s.entry id, ?_, ?_, ?_⟩
  · rw [List.pairwise_filterMap]
    refine List.Pairwise.imp ?_ (List.pairwise_lt_range' (s := 0) (n := rs.length))
    intro i j hij x hx y hy
    obtain ⟨e, -, -, -, rfl⟩ := tombstone?_eq_some.mp hx
    obtain ⟨f, -, -, -, rfl⟩ := tombstone?_eq_some.mp hy
    exact hij
  · intro x hx
    obtain ⟨slot, hslot, hsome⟩ := List.mem_filterMap.mp hx
    obtain ⟨e, hr, hdeleted, hentry, rfl⟩ := tombstone?_eq_some.mp hsome
    have hlt : slot < 65536 := by
      have := hrs.length_lt
      have := (List.mem_range'_1.mp hslot).2
      omega
    have hid : (UInt16.ofNat slot).toNat = slot := by
      rw [UInt16.toNat_ofNat', Nat.mod_eq_of_lt hlt]
    refine ⟨⟨id, UInt16.ofNat slot⟩, e, rfl, ⟨?_, hdeleted, hentry⟩, by rw [hid]⟩
    rw [s.record?_of_page ⟨id, UInt16.ofNat slot⟩ p hp, hid, hr]
  · rintro l f rfl hspare
    have hr := hspare.record
    rw [s.record?_of_page l p hp] at hr
    have hlt : l.slot.toNat < rs.length := by
      rw [hrs.record?_eq] at hr
      exact (List.getElem?_eq_some_iff.mp hr).1
    refine List.mem_filterMap.mpr ⟨l.slot.toNat, List.mem_range'_1.mpr (by omega), ?_⟩
    refine tombstone?_eq_some.mpr ⟨f, hr, hspare.deleted, ?_, rfl⟩
    rw [UInt16.ofNat_toNat]
    exact hspare.not_entry

def FirstIn {α : Type} (P : α → Prop) (xs : List α) (x : α) : Prop :=
  ∃ before after, xs = before ++ x :: after ∧ (∀ y ∈ before, ¬P y) ∧ P x

namespace FirstIn

variable {α : Type} {P : α → Prop} {xs : List α} {x y : α}

theorem head (h : P x) : FirstIn P (x :: xs) x :=
  ⟨[], xs, rfl, List.forall_mem_nil _, h⟩

theorem cons (hx : ¬P x) (h : FirstIn P xs y) : FirstIn P (x :: xs) y := by
  obtain ⟨before, after, rfl, hbefore, hy⟩ := h
  refine ⟨x :: before, after, rfl, fun z hz => ?_, hy⟩
  rcases List.mem_cons.mp hz with rfl | hz
  · exact hx
  · exact hbefore z hz

theorem mem (h : FirstIn P xs x) : x ∈ xs := by
  obtain ⟨before, after, rfl, -, -⟩ := h
  exact List.mem_append_right _ List.mem_cons_self

theorem holds (h : FirstIn P xs x) : P x := by
  obtain ⟨before, after, -, -, hx⟩ := h
  exact hx

theorem least {r : α → α → Prop} (h : FirstIn P xs x) (hsorted : xs.Pairwise r) (hy : y ∈ xs)
    (hP : P y) : x = y ∨ r x y := by
  obtain ⟨before, after, rfl, hbefore, -⟩ := h
  rcases List.mem_append.mp hy with hy | hy
  · exact absurd hP (hbefore y hy)
  · rcases List.mem_cons.mp hy with rfl | hy
    · exact .inl rfl
    · exact .inr ((List.pairwise_cons.mp (List.pairwise_append.mp hsorted).2.1).1 y hy)

end FirstIn

def Tombstone.Fits (s : Store) (n : PairSize) (id : PageId) (x : Tombstone) : Prop :=
  s.TakesOver n ⟨id, UInt16.ofNat x.slot⟩ x.neighborsAt

theorem Tombstone.fits_of {s : Store} {n : PairSize} {id : PageId} {l : Location}
    (hl : l.page = id) (f : Element) :
    (Tombstone.of l.slot.toNat f).Fits s n id ↔ s.TakesOver n l f.neighborsAt := by
  have hslot : UInt16.ofNat (Tombstone.of l.slot.toNat f).slot = l.slot := UInt16.ofNat_toNat
  rw [Fits, hslot, ← hl]
  exact Iff.rfl

section
variable {t : Header} {s : Store} (h : s.Intact t) {n : PairSize} {F : Prop}
  (hn : n.element = Element.encodedSize t.dimensions.toNat)
include h hn

omit h in
theorem size_encode_of_carries {p : Page} {rs : List Record} (hrs : p.Carries t.dimensions.toNat rs)
    {slot : Nat} {f : Element} (hf : rs[slot]? = some (.element f)) :
    n.element = f.encode.size := by
  obtain ⟨hwidth, -, -⟩ := hrs.fits _ (List.mem_of_getElem? hf)
  rw [hn, Element.size_encode, hwidth]

/-- The element of a tombstone is as large as the new one, so both tests are about the neighbor
record: the first tombstone that passes them is the first one that fits. -/
theorem delivers_claimTombstone_first {id : PageId} {p : Page} {rs : List Record}
    (hp : s.pages[id.toNat]? = some p) (hrs : p.Carries t.dimensions.toNat rs) {w : Work}
    (hw : Staged s w s) {handle : Nat} (honly : ∀ x ∈ w.group.members.toList, x.id = id)
    (found : List Tombstone)
    (hfound : ∀ x ∈ found, ∃ l f, l.page = id ∧ s.Spare l f ∧
      x = .of l.slot.toNat f) :
    Transaction.Delivers F (claimTombstone n handle id p found) w fun r _ => match r with
      | none => ∀ x ∈ found, ¬x.Fits s n id
      | some (_, reuse) => ∃ x, FirstIn (Tombstone.Fits s n id) found x ∧
          reuse = ⟨x.slot, x.neighborsAt.slot.toNat⟩ := by
  induction found with
  | nil =>
    intro x hx
    cases hx
  | cons x rest ih =>
    have hrest := ih fun y hy => hfound y (List.mem_cons_of_mem x hy)
    obtain ⟨l, f, rfl, hspare, rfl⟩ := hfound x List.mem_cons_self
    have hslot : rs[l.slot.toNat]? = some (.element f) := by
      rw [← hrs.record?_eq, ← s.record?_of_page l p hp]
      exact hspare.record
    have hsize := size_encode_of_carries hn hrs hslot
    obtain ⟨a, ha, -⟩ := h.paired.resolves l f hspare.record
    have hfits : ∀ r, s.pages[f.neighborsAt.page.toNat]? = some r →
        ((Tombstone.of l.slot.toNat f).Fits s n l.page ↔
          n.neighbors ≤ r.upper - r.lower + a.encode.size) := by
      intro r hr
      rw [Tombstone.fits_of rfl]
      exact Store.takesOver_iff h hspare.record ha hr hsize
    -- Passing over a tombstone that does not fit.
    have hskip : ¬(Tombstone.of l.slot.toNat f).Fits s n l.page →
        Transaction.Delivers F (claimTombstone n handle l.page p rest) w fun r _ => match r with
          | none => ∀ x ∈ Tombstone.of l.slot.toNat f :: rest,
              ¬Tombstone.Fits s n l.page x
          | some (_, reuse) => ∃ x, FirstIn (Tombstone.Fits s n l.page)
              (Tombstone.of l.slot.toNat f :: rest) x ∧
              reuse = ⟨x.slot, x.neighborsAt.slot.toNat⟩ := by
      intro hnot
      refine hrest.mono fun r w' hr => ?_
      cases r with
      | none => exact List.forall_mem_cons.mpr ⟨hnot, hr⟩
      | some found =>
        obtain ⟨y, hy, heq⟩ := hr
        exact ⟨y, hy.cons hnot, heq⟩
    rw [claimTombstone, Tombstone.of]
    apply Transaction.Delivers.step (Transaction.ofExcept_ok (hrs.spaceAfterFreeing_eq hslot))
    have helement : ¬p.upper - p.lower + (Record.element f).encode.size < n.element := by
      show ¬p.upper - p.lower + f.encode.size < n.element
      omega
    rw [if_neg helement]
    by_cases hsame : f.neighborsAt.page = l.page
    · have hslot' : rs[f.neighborsAt.slot.toNat]? = some (.adjacency a) := by
        rw [← hrs.record?_eq, ← s.record?_of_page f.neighborsAt p (by rw [hsame]; exact hp)]
        exact ha
      have hiff := hfits p (by rw [hsame]; exact hp)
      rw [if_pos hsame]
      apply Transaction.Delivers.step (Transaction.ofExcept_ok (hrs.spaceAfterFreeing_eq hslot'))
      by_cases hsmall : p.upper - p.lower + (Record.adjacency a).encode.size <
          n.neighbors + (n.element - f.encode.size)
      · rw [if_pos hsmall]
        refine hskip fun hfit => ?_
        have := hiff.mp hfit
        have hrecord : (Record.adjacency a).encode.size = a.encode.size := rfl
        omega
      · rw [if_neg hsmall]
        refine Transaction.Delivers.pure ⟨_, .head (hiff.mpr ?_), rfl⟩
        have hrecord : (Record.adjacency a).encode.size = a.encode.size := rfl
        omega
    · rw [if_neg hsame]
      obtain ⟨q, qs, hq, -, -, hclaim⟩ := delivers_claimSlot h (F := F) hw n.neighbors ha
        fun y hy heq => hsame (heq.symm.trans (honly y hy))
      apply hclaim.bind
      intro claimed w' hclaimed
      cases claimed with
      | none =>
        obtain ⟨rfl, hsmall⟩ := hclaimed
        exact hskip fun hfit => absurd ((hfits q hq).mp hfit) (Nat.not_le.mpr hsmall)
      | some other =>
        exact Transaction.Delivers.pure ⟨_, .head ((hfits q hq).mpr hclaimed.1), rfl⟩

theorem delivers_claimTombstone_lowest {id : PageId} {p : Page} (hpos : 0 < id.toNat)
    (hp : s.pages[id.toNat]? = some p) {w : Work} (hw : Staged s w s) {handle : Nat}
    (hhandle : w.group.members[handle]? = some ⟨id, p⟩)
    (honly : ∀ x ∈ w.group.members.toList, x.id = id) {found : List Tombstone}
    (hfound : tombstones s.entry id p = .ok found) :
    Transaction.Delivers F (claimTombstone n handle id p found) w fun r w' => match r with
      | none => w' = w ∧ ∀ l f, l.page = id → ¬s.Overwritable n l f
      | some (other, reuse) => ∃ l f, l.page = id ∧ s.FirstOver n l f ∧
          reuse = ⟨l.slot.toNat, f.neighborsAt.slot.toNat⟩ ∧ Staged s w' s ∧
          w'.group.members[handle]? = some ⟨id, p⟩ ∧
          ∃ k, w'.group.members[other]? = some k ∧ k.id = f.neighborsAt.page := by
  obtain ⟨rs, hrs⟩ := h.filled id.toNat p hpos hp
  obtain ⟨found', hfound', hsorted, hall, hevery⟩ := h.tombstones_spec hpos hp
  obtain rfl : found = found' := Except.ok.inj (hfound.symm.trans hfound')
  refine ((delivers_claimTombstone_first h hn hp hrs hw honly found hall).and_ensures
    (ensures_claimTombstone n hpos hw hhandle found (reusable_of_mem h hpos hp hfound))).mono ?_
  rintro r w' ⟨hfirst, hend⟩
  cases r with
  | none =>
    refine ⟨hend, fun l f hl hover => ?_⟩
    exact hfirst _ (hevery l f hl hover.spare) ((Tombstone.fits_of hl f).mpr hover.takes)
  | some claimed =>
    obtain ⟨other, reuse⟩ := claimed
    obtain ⟨x, hx, rfl⟩ := hfirst
    obtain ⟨hstaged, hm, k, e, hk, -, hreuse⟩ := hend
    obtain ⟨l, f, hl, hspare, rfl⟩ := hall x hx.mem
    have hfit := (Tombstone.fits_of hl f).mp hx.holds
    refine ⟨l, f, hl, ⟨hspare.overwritable hfit, fun k g hk hover => ?_⟩, rfl, hstaged, hm, k, hk,
      ?_⟩
    · have hpage := hk.trans hl
      rcases hx.least hsorted (hevery k g hpage hover.spare)
        ((Tombstone.fits_of hpage g).mpr hover.takes) with heq | hlt
      · exact Nat.le_of_eq (Tombstone.mk.inj heq).1
      · exact Nat.le_of_lt hlt
    · have hloc : (⟨id, UInt16.ofNat (Tombstone.of l.slot.toNat f).slot⟩ : Location) = l :=
        Location.eq_of_parts hl.symm (congrArg UInt16.toNat UInt16.ofNat_toNat)
      have helement := hreuse.element
      rw [hloc, hspare.record] at helement
      obtain rfl : f = e := Record.element.inj (Option.some.inj helement)
      exact (congrArg Location.page hreuse.at_).symm

end

/-- A page on which the search stops whether or not it is the last one: both records fit, or it has
a successor and a deleted element that can be overwritten. -/
def Store.Suits (s : Store) (n : PairSize) (id : PageId) : Prop :=
  ∃ p, s.readPage id = .ok p ∧
    (p.TakesPair n ∨ p.next ≠ noPage ∧ ∃ l f, l.page = id ∧ s.Overwritable n l f)

structure Spent (s : Store) (n : PairSize) (id : PageId) (p : Page) : Prop where
  last : p.next = noPage
  full : ¬p.TakesPair n
  tight : ¬p.TakesOne n.element
  used : ∀ l f, l.page = id → ¬s.Overwritable n l f

theorem Spent.not_suits {s : Store} {n : PairSize} {id : PageId} {p : Page}
    (h : Spent s n id p) (hp : s.pages[id.toNat]? = some p) : ¬s.Suits n id := by
  rintro ⟨q, hq, hsuits⟩
  obtain rfl : p = q := Option.some.inj (hp.symm.trans ((s.readPage_eq_ok _ _).mp hq))
  rcases hsuits with htakes | ⟨hmore, -⟩
  · exact h.full htakes
  · exact hmore h.last

/-- How the search ends on a page `id` with image `p`: the store that a commit would lead to, the
pages of the element and of the neighbors, and the slots to be overwritten. -/
inductive Ends (s : Store) (n : PairSize) (id : PageId) (p : Page) :
    Store → PageId → PageId → Option Reuse → Prop where
  | together (room : p.TakesPair n) : Ends s n id p s id id none
  | split (last : p.next = noPage) (full : ¬p.TakesPair n) (room : p.TakesOne n.element) :
      Ends s n id p (s.extend id p) id (UInt32.ofNat s.pages.size) none
  | reuse (l : Location) (f : Element) (full : ¬p.TakesPair n)
      (tight : p.next = noPage → ¬p.TakesOne n.element) (at_ : l.page = id)
      (first : s.FirstOver n l f) :
      Ends s n id p s id f.neighborsAt.page (some ⟨l.slot.toNat, f.neighborsAt.slot.toNat⟩)
  | grow (spent : Spent s n id p) (room : Page.empty.TakesPair n) :
      Ends s n id p (s.extend id p) (UInt32.ofNat s.pages.size) (UInt32.ofNat s.pages.size) none
  | growTwice (spent : Spent s n id p) (room : ¬Page.empty.TakesPair n) :
      Ends s n id p ((s.extend id p).extend (UInt32.ofNat s.pages.size) Page.empty)
        (UInt32.ofNat s.pages.size) (UInt32.ofNat (s.pages.size + 1)) none

def Lands (s : Store) (n : PairSize) (id : PageId) (p : Page) (place : Placement) (w : Work) :
    Prop :=
  ∃ v m k, Ends s n id p v m.id k.id place.reuse ∧ Staged s w v ∧
    w.group.members[place.elementPage]? = some m ∧ w.group.members[place.neighborPage]? = some k

/-- The only case in which the search fails: two pages are needed and there are not enough numbers
for them. -/
def OutOfNumbers (s : Store) (n : PairSize) (id : PageId) (p : Page) : Prop :=
  Spent s n id p ∧ ¬Page.empty.TakesPair n ∧ 4294967295 ≤ s.pages.size

section
variable {t : Header} {s : Store} (h : s.Intact t) {n : PairSize}
include h

theorem delivers_newPages_lands {id : PageId} {p : Page} (hspent : Spent s n id p) (room : Nat)
    (hroom : Page.empty.TakesPair n ↔ n.together ≤ room) (firstFree : Option PageId) {w : Work}
    (hw : Staged s w s) {handle : Nat} (hm : w.group.members[handle]? = some ⟨id, p⟩) :
    Transaction.Delivers (OutOfNumbers s n id p) (do
        let fresh ← appendAfter handle
        if n.together ≤ room then
          return .inl ⟨fresh, fresh, none, firstFree, s.cursor⟩
        else
          let second ← appendAfter fresh
          return .inl ⟨fresh, second, none, firstFree, s.cursor⟩) w
      fun (r : Placement ⊕ PageId × Option PageId) w' => ∃ place, r = .inl place ∧
        Lands s n id p place w' := by
  have hb := h.bounded
  apply (delivers_appendAfter hw h.idle h.pageCount_eq hm fun hfull =>
    absurd hfull (by omega)).bind
  rintro fresh w₁ ⟨hw₁, -, -, hfresh⟩
  by_cases hboth : n.together ≤ room
  · rw [if_pos hboth]
    exact Transaction.Delivers.pure
      ⟨_, rfl, _, _, _, .grow hspent (hroom.mpr hboth), hw₁, hfresh, hfresh⟩
  · rw [if_neg hboth]
    have hnot := mt hroom.mp hboth
    apply (delivers_appendAfter hw₁ h.idle h.pageCount_eq hfresh fun hfull =>
      ⟨hspent, hnot, by rw [Store.size_extend] at hfull; omega⟩).bind
    rintro second w₂ ⟨hw₂, -, hm₂, hsecond⟩
    rw [Store.size_extend] at hsecond
    exact Transaction.Delivers.pure
      ⟨_, rfl, _, _, _, .growTwice hspent hnot, hw₂, hm₂, hsecond⟩

variable (hn : n.element = Element.encodedSize t.dimensions.toNat)
include hn

omit h in
theorem element_pos : 0 < n.element := by
  have hpad := LittleEndian.align_le (Element.headerSize + t.dimensions.toNat * 4)
  have hheader : Element.headerSize = 92 := rfl
  rw [hn, Element.encodedSize]
  omega

theorem delivers_probe_lands {id : PageId} {p : Page} (hpos : 0 < id.toNat)
    (hp : s.pages[id.toNat]? = some p) (firstFree : Option PageId) {w : Work} (hw : Tidy s w) :
    Transaction.Delivers (OutOfNumbers s n id p) (probe n s.entry s.cursor id firstFree) w
      fun r w' => match r with
        | .inl place => Lands s n id p place w'
        | .inr (next, _) => Tidy s w' ∧ next.toNat = id.toNat + 1 ∧ next.toNat < s.pages.size ∧
            ¬s.Suits n id := by
  have hb := h.bounded
  obtain ⟨rs, hrs⟩ := h.filled id.toNat p hpos hp
  have hone := hrs.holds.takesOne_iff (element_pos hn)
  have hboth := hrs.holds.takesPair_iff (element_pos hn)
  have hroom := Page.holds_empty.takesPair_iff (element_pos hn)
  have hrestart : Transaction.restart w = .ok () ⟨s, .empty⟩ := by
    rw [Transaction.restart, hw.release]
  have hregister := register_empty id s p (h.lt_pageCount _ p hp) (h.isHeld_eq _) hp
  have hstaged : Staged s ⟨s.locked id, .single id p⟩ s := by
    have := Transaction.ensures_register (Staged.empty s) id
    rw [Transaction.Ensures, hregister] at this
    exact this.1
  have hm : (Group.single id p).members[0]? = some ⟨id, p⟩ := rfl
  rw [probe]
  generalize Page.empty.freeSpace = room at hroom ⊢
  apply Transaction.Delivers.step hrestart
  apply Transaction.Delivers.step hregister
  apply Transaction.Delivers.step (Transaction.image_single id p _)
  by_cases hfits : n.together ≤ p.freeSpace
  · rw [if_pos hfits]
    exact Transaction.Delivers.pure ⟨_, _, _, .together (hboth.mpr hfits), hstaged, hm, hm⟩
  · rw [if_neg hfits]
    have hfull := mt hboth.mp hfits
    by_cases htail : n.element ≤ p.freeSpace ∧ p.next = noPage
    · rw [if_pos htail]
      apply (delivers_appendAfter hstaged h.idle h.pageCount_eq hm fun hfull =>
        absurd hfull (by omega)).bind
      rintro fresh w₁ ⟨hw₁, -, hm₁, hfresh⟩
      exact Transaction.Delivers.pure
        ⟨_, _, _, .split htail.2 hfull (hone.mpr htail.1), hw₁, hm₁, hfresh⟩
    · rw [if_neg htail]
      have htight : p.next = noPage → ¬p.TakesOne n.element :=
        fun hlast htakes => htail ⟨hone.mp htakes, hlast⟩
      obtain ⟨deleted, hdeleted, -⟩ := tombstones_eq hrs s.entry id
      apply Transaction.Delivers.step (Transaction.ofExcept_ok hdeleted)
      apply (delivers_claimTombstone_lowest h hn hpos hp hstaged hm (by
        intro x hx
        obtain rfl := List.mem_singleton.mp hx
        rfl) hdeleted).bind
      intro claimed w₁ hclaimed
      cases claimed with
      | some found =>
        obtain ⟨l, f, hl, hfirst, hreuse, hw₁, hm₁, k, hk, hid⟩ := hclaimed
        refine Transaction.Delivers.pure ⟨s, _, k, ?_, hw₁, hm₁, hk⟩
        rw [hreuse, hid]
        exact .reuse l f hfull htight hl hfirst
      | none =>
        obtain ⟨rfl, hused⟩ := hclaimed
        by_cases hlast : p.next = noPage
        · simp only [if_pos hlast]
          apply (delivers_newPages_lands h ⟨hlast, hfull, htight hlast, hused⟩ room hroom _ hstaged
            hm).mono
          rintro _ w₂ ⟨place, rfl, hlands⟩
          exact hlands
        · simp only [if_neg hlast]
          obtain ⟨hnext, hlt⟩ := h.toNat_next id.toNat p hpos hp hlast
          refine Transaction.Delivers.pure ⟨hstaged.tidy, hnext, by omega, ?_⟩
          rintro ⟨q, hq, hsuits⟩
          obtain rfl : p = q := Option.some.inj (hp.symm.trans ((s.readPage_eq_ok _ _).mp hq))
          rcases hsuits with htakes | ⟨-, l, f, hl, hover⟩
          · exact hfull htakes
          · exact hused l f hl hover

def Store.Passes (s : Store) (n : PairSize) (first id : PageId) : Prop :=
  first.toNat ≤ id.toNat ∧
    ∀ x : PageId, first.toNat ≤ x.toNat → x.toNat < id.toNat → ¬s.Suits n x

omit h hn in
theorem Store.Passes.step {first next id : PageId} (hpasses : s.Passes n next id)
    (hnext : next.toNat = first.toNat + 1) (hnot : ¬s.Suits n first) : s.Passes n first id := by
  obtain ⟨hle, hall⟩ := hpasses
  refine ⟨by omega, fun x hfirst hlt => ?_⟩
  rcases Nat.eq_or_lt_of_le hfirst with heq | hlater
  · rwa [← UInt32.toNat_inj.mp heq]
  · exact hall x (by omega) hlt

theorem delivers_probeFrom_lands (steps : Nat) :
    ∀ (current : PageId) (firstFree : Option PageId) (w : Work), 0 < current.toNat →
      current.toNat < s.pages.size → s.pages.size ≤ current.toNat + steps → Tidy s w →
      Transaction.Delivers (∃ id p, s.Passes n current id ∧ s.pages[id.toNat]? = some p ∧
          OutOfNumbers s n id p)
        (probeFrom n s.entry s.cursor steps current firstFree) w fun place w' => ∃ id p,
          s.Passes n current id ∧ s.pages[id.toNat]? = some p ∧ Lands s n id p place w' := by
  induction steps with
  | zero =>
    intro current firstFree w _ hlt hsteps _
    exact absurd hlt (Nat.not_lt.mpr hsteps)
  | succ steps ih =>
    intro current firstFree w hpos hlt hsteps hw
    have hp := Array.getElem?_eq_getElem hlt
    have hhere : s.Passes n current current :=
      ⟨Nat.le_refl _, fun x hle hless => absurd hle (Nat.not_le.mpr hless)⟩
    rw [probeFrom_succ]
    apply ((delivers_probe_lands h hn hpos hp firstFree hw).excuse fun hout =>
      ⟨current, _, hhere, hp, hout⟩).bind
    intro r w' hr
    cases r with
    | inl place => exact Transaction.Delivers.pure ⟨current, _, hhere, hp, hr⟩
    | inr next =>
      obtain ⟨htidy, hnext, hless, hnot⟩ := hr
      refine ((ih _ _ w' (by omega) hless (by omega) htidy).excuse ?_).mono ?_
      · rintro ⟨id, p, hpasses, hend⟩
        exact ⟨id, p, hpasses.step hnext hnot, hend⟩
      · rintro place w'' ⟨id, p, hpasses, hend⟩
        exact ⟨id, p, hpasses.step hnext hnot, hend⟩

end

def Store.Allocates (s : Store) (n : PairSize) (a b : PageId) (reuse : Option Reuse)
    (grown : Nat) : Prop :=
  ∃ place w v, allocate n ⟨s, .empty⟩ = .ok place w ∧
    Transaction.pageId place.elementPage w = .ok a w ∧
    Transaction.pageId place.neighborPage w = .ok b w ∧ place.reuse = reuse ∧
    w.group.commit w.store = (.ok (), v) ∧ v.pages.size = s.pages.size + grown

/-- Where room is found among the pages `ids`. -/
structure FirstFit (s : Store) (n : PairSize) (ids : List PageId) : Prop where
  /-- The first page that suits is taken, with fresh slots if both records fit, otherwise with the
  lowest slots that can be overwritten. -/
  first : ∀ id p, FirstIn (s.Suits n) ids id → s.readPage id = .ok p →
    (p.TakesPair n → s.Allocates n id id none 0) ∧
    (¬p.TakesPair n → ∃ l f, l.page = id ∧ s.FirstOver n l f ∧
      s.Allocates n id f.neighborsAt.page
        (some ⟨l.slot.toNat, f.neighborsAt.slot.toNat⟩) 0)
  /-- If no page suits, then the last one takes the element, or a deleted element on it is
  overwritten, or the pages that are needed are appended, as long as there are numbers for them. -/
  last : (∀ id ∈ ids, ¬s.Suits n id) → ∃ id p, ids.getLast? = some id ∧
    s.readPage id = .ok p ∧ p.next = noPage ∧
    (p.TakesOne n.element → s.Allocates n id (UInt32.ofNat s.pages.size) none 1) ∧
    (¬p.TakesOne n.element →
      (∃ l f, l.page = id ∧ s.FirstOver n l f ∧
        s.Allocates n id f.neighborsAt.page
          (some ⟨l.slot.toNat, f.neighborsAt.slot.toNat⟩) 0) ∨
      (∀ l f, l.page = id → ¬s.Overwritable n l f) ∧
      (Page.empty.TakesPair n →
        s.Allocates n (UInt32.ofNat s.pages.size) (UInt32.ofNat s.pages.size) none 1) ∧
      (¬Page.empty.TakesPair n →
        s.Allocates n (UInt32.ofNat s.pages.size) (UInt32.ofNat (s.pages.size + 1)) none 2 ∨
        s.pages.size = noPage.toNat ∧ ∃ e w, allocate n ⟨s, .empty⟩ = .error e w))

section
variable {t : Header} {s : Store} {n : PairSize}

theorem Lands.allocates {id : PageId} {p : Page} {place : Placement} {w : Work}
    (hlands : Lands s n id p place w) (hrun : allocate n ⟨s, .empty⟩ = .ok place w) :
    ∃ v a b reuse, Ends s n id p v a b reuse ∧
      ∀ grown, v.pages.size = s.pages.size + grown → s.Allocates n a b reuse grown := by
  obtain ⟨v, m, k, hends, hstaged, hm, hk⟩ := hlands
  exact ⟨v, m.id, k.id, place.reuse, hends, fun grown hsize => ⟨place, w, v, hrun,
    Transaction.pageId_eq hm, Transaction.pageId_eq hk, rfl, hstaged.commit, hsize⟩⟩

theorem Ends.last {id a b : PageId} {p : Page} {v : Store} {reuse : Option Reuse}
    (hends : Ends s n id p v a b reuse) (hp : s.pages[id.toNat]? = some p)
    (hnot : ¬s.Suits n id) : p.next = noPage := by
  have hread := (s.readPage_eq_ok id p).mpr hp
  cases hends with
  | together room => exact absurd ⟨p, hread, .inl room⟩ hnot
  | split last => exact last
  | reuse l f _ _ at_ first =>
    by_cases hlast : p.next = noPage
    · exact hlast
    · exact absurd ⟨p, hread, .inr ⟨hlast, l, f, at_, first.overwritable⟩⟩ hnot
  | grow spent => exact spent.last
  | growTwice spent => exact spent.last

variable (h : s.Intact t) (hn : n.element = Element.encodedSize t.dimensions.toNat)
include h

theorem Store.Intact.mem_idsFrom_cursor {id : PageId} :
    id ∈ Store.idsFrom s.cursor.toNat (s.pages.size - s.cursor.toNat) ↔
      s.cursor.toNat ≤ id.toNat ∧ id.toNat < s.pages.size := by
  have hlt := h.cursor_lt
  rw [Store.idsFrom, List.mem_map]
  constructor
  · rintro ⟨i, hi, rfl⟩
    rw [List.mem_range'_1] at hi
    rw [Store.toNat_page h.toFormed (by omega)]
    omega
  · intro hid
    exact ⟨id.toNat, List.mem_range'_1.mpr (by omega), UInt32.ofNat_toNat⟩

theorem Store.Intact.pairwise_idsFrom_cursor :
    (Store.idsFrom s.cursor.toNat (s.pages.size - s.cursor.toNat)).Pairwise
      fun x y => x.toNat < y.toNat := by
  rw [Store.idsFrom, List.pairwise_map]
  refine List.Pairwise.imp_of_mem (fun {x y} hx hy hlt => ?_) List.pairwise_lt_range'
  rw [List.mem_range'_1] at hx hy
  rwa [Store.toNat_page h.toFormed (by omega), Store.toNat_page h.toFormed (by omega)]

theorem Store.Intact.eq_of_firstIn {id x : PageId} {p : Page} (hpasses : s.Passes n s.cursor id)
    (hp : s.pages[id.toNat]? = some p) (hlast : ¬s.Suits n id → p.next = noPage)
    (hfirst : FirstIn (s.Suits n)
      (Store.idsFrom s.cursor.toNat (s.pages.size - s.cursor.toNat)) x) : x = id := by
  have hlt : id.toNat < s.pages.size := (Array.getElem?_eq_some_iff.mp hp).1
  have hpos : 0 < id.toNat := Nat.lt_of_lt_of_le h.cursor_pos hpasses.1
  have hmem := h.mem_idsFrom_cursor.mpr ⟨hpasses.1, hlt⟩
  have hx := h.mem_idsFrom_cursor.mp hfirst.mem
  have hge : id.toNat ≤ x.toNat :=
    Nat.not_lt.mp fun hless => hpasses.2 x hx.1 hless hfirst.holds
  by_cases hsuits : s.Suits n id
  · rcases hfirst.least h.pairwise_idsFrom_cursor hmem hsuits with heq | hless
    · exact heq
    · exact absurd hless (Nat.not_lt.mpr hge)
  · have := h.last_of_next id.toNat p hpos hp (hlast hsuits)
    exact UInt32.toNat_inj.mp (by omega)

omit h in
theorem Store.getLast?_idsFrom {i : Nat} {id : PageId} (hi : i ≤ id.toNat) :
    (Store.idsFrom i (id.toNat + 1 - i)).getLast? = some id := by
  obtain ⟨k, hk⟩ : ∃ k, id.toNat = i + k := ⟨id.toNat - i, by omega⟩
  have hcount : id.toNat + 1 - i = k + 1 := by omega
  rw [hcount, Store.idsFrom, List.range'_1_concat, List.map_append, List.map_singleton,
    List.getLast?_concat, ← hk, UInt32.ofNat_toNat]

include hn

theorem Store.Intact.allocate_lands : ∃ id p, s.Passes n s.cursor id ∧
    s.pages[id.toNat]? = some p ∧
    ((∃ place w, allocate n ⟨s, .empty⟩ = .ok place w ∧ Lands s n id p place w) ∨
      OutOfNumbers s n id p ∧ ∃ e w, allocate n ⟨s, .empty⟩ = .error e w) := by
  have hwalk := delivers_probeFrom_lands h hn (s.pageCount + 1) s.cursor none ⟨s, .empty⟩
    h.cursor_pos h.cursor_lt (by rw [h.pageCount_eq]; omega) (Tidy.empty s)
  rw [Transaction.Delivers, ← allocate_eq] at hwalk
  cases hrun : allocate n ⟨s, .empty⟩ with
  | ok place w =>
    rw [hrun] at hwalk
    obtain ⟨id, p, hpasses, hp, hlands⟩ := hwalk
    exact ⟨id, p, hpasses, hp, .inl ⟨place, w, rfl, hlands⟩⟩
  | error e w =>
    rw [hrun] at hwalk
    obtain ⟨id, p, hpasses, hp, hout⟩ := hwalk
    exact ⟨id, p, hpasses, hp, .inr ⟨hout, e, w, rfl⟩⟩

theorem Store.Intact.firstFit :
    FirstFit s n (Store.idsFrom s.cursor.toNat (s.pages.size - s.cursor.toNat)) := by
  obtain ⟨id, p, hpasses, hp, hend⟩ := h.allocate_lands hn
  have hlt : id.toNat < s.pages.size := (Array.getElem?_eq_some_iff.mp hp).1
  have hmem := h.mem_idsFrom_cursor.mpr ⟨hpasses.1, hlt⟩
  have hread := (s.readPage_eq_ok id p).mpr hp
  have hpos : 0 < id.toNat := Nat.lt_of_lt_of_le h.cursor_pos hpasses.1
  have hsize := s.size_extend id p
  have hlast : ¬s.Suits n id → p.next = noPage := by
    intro hnot
    rcases hend with ⟨place, w, hrun, hlands⟩ | ⟨hout, -⟩
    · obtain ⟨v, m, k, hends, -⟩ := hlands
      exact hends.last hp hnot
    · exact hout.1.last
  constructor
  · intro x q hfirst hq
    obtain rfl := h.eq_of_firstIn hpasses hp hlast hfirst
    obtain rfl : p = q := Except.ok.inj (hread.symm.trans hq)
    have hsuits := hfirst.holds
    rcases hend with ⟨place, w, hrun, hlands⟩ | ⟨hout, -⟩
    · obtain ⟨v, a, b, reuse, hends, hall⟩ := hlands.allocates hrun
      cases hends with
      | together room => exact ⟨fun _ => hall 0 rfl, fun full => absurd room full⟩
      | split last full =>
        obtain ⟨q, hq', htakes⟩ := hsuits
        obtain rfl : p = q := Except.ok.inj (hread.symm.trans hq')
        rcases htakes with htakes | ⟨hmore, -⟩
        · exact absurd htakes full
        · exact absurd last hmore
      | reuse l f full _ at_ first =>
        exact ⟨fun room => absurd room full, fun _ => ⟨l, f, at_, first, hall 0 rfl⟩⟩
      | grow spent => exact absurd hsuits (spent.not_suits hp)
      | growTwice spent => exact absurd hsuits (spent.not_suits hp)
    · exact absurd hsuits (hout.1.not_suits hp)
  · intro hnone
    have hnot := hnone id hmem
    have hend' := h.last_of_next id.toNat p hpos hp (hlast hnot)
    refine ⟨id, p, by rw [← hend', Store.getLast?_idsFrom hpasses.1], hread, hlast hnot, ?_⟩
    rcases hend with ⟨place, w, hrun, hlands⟩ | ⟨⟨hspent, hroom, hfew⟩, hfail⟩
    · obtain ⟨v, a, b, reuse, hends, hall⟩ := hlands.allocates hrun
      cases hends with
      | together room => exact absurd ⟨p, hread, .inl room⟩ hnot
      | split last full room => exact ⟨fun _ => hall 1 hsize, fun tight => absurd room tight⟩
      | reuse l f full tight at_ first =>
        exact ⟨fun room => absurd room (tight (hlast hnot)),
          fun _ => .inl ⟨l, f, at_, first, hall 0 rfl⟩⟩
      | grow spent room =>
        exact ⟨fun takes => absurd takes spent.tight,
          fun _ => .inr ⟨spent.used, fun _ => hall 1 hsize, fun full => absurd room full⟩⟩
      | growTwice spent room =>
        refine ⟨fun takes => absurd takes spent.tight,
          fun _ => .inr ⟨spent.used, fun takes => absurd takes room, fun _ => .inl (hall 2 ?_)⟩⟩
        rw [Store.size_extend, hsize]
    · have hb := h.bounded
      have hno : noPage.toNat = 4294967295 := rfl
      exact ⟨fun takes => absurd takes hspent.tight,
        fun _ => .inr ⟨hspent.used, fun takes => absurd takes hroom,
          fun _ => .inr ⟨by omega, hfail⟩⟩⟩

end

/-- Whatever writers have done with an index that was opened empty: room for a pair, with an element
record of the index's vectors, is found by first fit on the pages from the insert cursor on, in
chain order. -/
theorem firstFit_of_reaches {path : String} {dimensions : UInt32} {o : Options}
    {file file' : FileState} {ix : Index} {s : Store} (hblank : file.isBlank = true)
    (hopen : Index.openFile path dimensions o file = (.ok (ix, s), file')) {c : Crowd}
    (hc : Reaches ix.params ix.dimensions s c) {n : PairSize}
    (hn : n.element = Element.encodedSize ix.dimensions) :
    ∃ ids, c.store.chainFrom c.store.pages.size c.store.cursor [] = .ok ids ∧
      FirstFit c.store n ids := by
  obtain ⟨hopened, -⟩ := Index.opened_of_blank hblank hopen
  rw [hopened.width] at hc hn
  have h := (hc.sound hopened.m_eq hopened.intact).intact
  have hlt := h.cursor_lt
  have hpos := h.cursor_pos
  refine ⟨_, ?_, h.firstFit hn⟩
  obtain ⟨k, hk⟩ : ∃ k, c.store.pages.size - c.store.cursor.toNat = k + 1 :=
    ⟨c.store.pages.size - c.store.cursor.toNat - 1, by omega⟩
  have hchain := Store.chainFrom_eq h.toFormed k c.store.cursor.toNat c.store.pages.size [] hpos
    (by omega) (by omega) (List.forall_mem_nil _)
  rw [UInt32.ofNat_toNat] at hchain
  rw [hk]
  exact hchain

namespace Index

section
variable {s : Store} (h : HasBoth s first.tombstone)
include h

theorem HasBoth.overwritable :
    s.Overwritable ⟨Element.encodedSize 900, Adjacency.encodedSize 0 16⟩ ⟨1, 0⟩ first.tombstone := by
  have hintact := h.settled.intact
  obtain ⟨p, rs, hcursor, hp, hrs, -⟩ := only_page hintact h.size
  obtain ⟨hsize, a, ha, hneighbors⟩ := sizes_of_element hintact h.atFirst
  have hroom : Adjacency.encodedSize 0 16 ≤ Adjacency.encodedSize 1 16 := by decide
  have hentry : s.entry.map EntryPoint.location ≠ some ⟨1, 0⟩ := by
    rw [h.entry]
    decide
  rw [hcursor] at hp
  refine Store.Spare.overwritable ⟨h.atFirst, rfl, hentry⟩
    ((Store.takesOver_iff hintact h.atFirst ha hp hsize.symm).mpr ?_)
  rw [hneighbors]
  exact Nat.le_trans hroom (Nat.le_add_left _ _)

theorem HasBoth.allocates
    (hfit : FirstFit s ⟨Element.encodedSize 900, Adjacency.encodedSize 0 16⟩ [1]) :
    s.Allocates ⟨Element.encodedSize 900, Adjacency.encodedSize 0 16⟩ 1 1 (some ⟨0, 1⟩) 0 := by
  have hintact := h.settled.intact
  obtain ⟨p, rs, hcursor, hp, hrs, -, hfull⟩ :=
    only_page_full hintact h.size h.atFirst rfl h.atSecond rfl full_wide
  rw [hcursor] at hp
  have hread := (s.readPage_eq_ok 1 p).mpr hp
  have htight : ¬p.TakesOne (Element.encodedSize 900) := fun htakes =>
    absurd ((hrs.holds.takesOne_iff (by decide)).mp htakes) (Nat.not_le.mpr hfull)
  have hpair : ¬p.TakesPair ⟨Element.encodedSize 900, Adjacency.encodedSize 0 16⟩ := fun htakes =>
    htight (hrs.holds.takesOne_of_pair (by decide) htakes)
  have hlast : p.next = noPage := by
    rw [hintact.linked 1 p Nat.one_pos hp, Store.successor, h.size]
    rfl
  obtain ⟨id, q, hid, hq, -, -, hused⟩ := hfit.last fun id hid => by
    obtain rfl := List.mem_singleton.mp hid
    rintro ⟨q, hq, hsuits⟩
    obtain rfl := Except.ok.inj (hread.symm.trans hq)
    exact hsuits.elim hpair fun hmore => hmore.1 hlast
  obtain rfl : 1 = id := Option.some.inj hid
  obtain rfl := Except.ok.inj (hread.symm.trans hq)
  rcases hused htight with ⟨l, f, -, hover, hallocates⟩ | ⟨hnone, -⟩
  · obtain ⟨hrecord, hdeleted, -⟩ := hover.overwritable.spare
    rcases (h.elements l f).mp hrecord with ⟨rfl, rfl⟩ | ⟨-, rfl⟩
    · exact hallocates
    · cases hdeleted
  · exact absurd h.overwritable (hnone _ _ rfl)

end

/-- The last page has no room beside two elements, one of which is deleted. -/
theorem firstFit_reused : ∃ s, HasBoth s first.tombstone ∧
    s.chainFrom s.pages.size s.cursor [] = .ok [1] ∧
    FirstFit s ⟨Element.encodedSize 900, Adjacency.encodedSize 0 16⟩ [1] ∧
    s.Allocates ⟨Element.encodedSize 900, Adjacency.encodedSize 0 16⟩ 1 1 (some ⟨0, 1⟩) 0 := by
  obtain ⟨s, hboth, -, hreach⟩ := both_reached
  have hdeleted := hboth.delete
  have hblank : FileState.absent.isBlank = true := rfl
  obtain ⟨ids, hchain, hfit⟩ := firstFit_of_reaches hblank
    (openFile_blank checkOptions_wide "index" .absent hblank) (hreach.delete ⟨1, 0⟩)
    (n := ⟨Element.encodedSize 900, Adjacency.encodedSize 0 16⟩) rfl
  generalize (markDeleted ⟨1, 0⟩).after s = s' at hdeleted hchain hfit
  obtain ⟨-, -, hcursor, -⟩ := only_page hdeleted.settled.intact hdeleted.size
  have hone := Store.chainFrom_eq hdeleted.settled.intact.toFormed 0 1 2 [] Nat.one_pos
    (by rw [hdeleted.size]) (by decide) (List.forall_mem_nil _)
  obtain rfl : [1] = ids := by
    rw [hcursor, hdeleted.size] at hchain
    exact Except.ok.inj (hone.symm.trans hchain)
  exact ⟨s', hdeleted, hchain, hfit, hdeleted.allocates hfit⟩

end Index

end PagedGraph
