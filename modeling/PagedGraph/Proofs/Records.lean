import PagedGraph.Graph.Basic
import PagedGraph.Proofs.PageContents
import PagedGraph.Proofs.HeaderPage

/-!
# A store as a map of records

Behind the bytes there is a map from locations to records. `Store.record?` is that map, and reading
an element or a neighbor record is looking it up (`element_eq_ok`, `adjacency_eq_ok`). A data page
that carries a list of records answers with the list (`Carries.record?_eq`), and a write of one
record changes one entry of it.
-/

set_option autoImplicit false

namespace PagedGraph

theorem Location.eq_of_parts {k l : Location} (hpage : k.page = l.page)
    (hslot : k.slot.toNat = l.slot.toNat) : k = l := by
  obtain ⟨kp, ks⟩ := k
  obtain ⟨lp, ls⟩ := l
  obtain rfl : kp = lp := hpage
  obtain rfl : ks = ls := UInt16.toNat_inj.mp hslot
  rfl

inductive Record where
  | element (e : Element)
  | adjacency (a : Adjacency)

def Element.Packed (e : Element) : Prop :=
  e.rowSlots.toList = e.rows ++ List.replicate (rowCapacity - e.rows.length) noRow

namespace Record

def encode : Record → Bytes
  | .element e => e.encode
  | .adjacency a => a.encode

def decode? (bs : Bytes) : Option Record :=
  match Element.decode bs with
  | .ok e => some (.element e)
  | .error _ => match Adjacency.decode bs with
    | .ok a => some (.adjacency a)
    | .error _ => none

def Fits (width : Nat) : Record → Prop
  | .element e => e.vector.length = width ∧ width ≤ 65535 ∧ e.Packed
  | .adjacency a => a.slots.length ≤ 65535

theorem kind_of_element (bs : Bytes) (e : Element) (h : Element.decode bs = .ok e) :
    RecordKind.of? bs = some .element := by
  by_cases hk : RecordKind.of? bs = some .element
  · exact hk
  · rw [Element.decode, Element.outline, if_pos hk] at h
    cases h

theorem kind_of_adjacency (bs : Bytes) (a : Adjacency) (h : Adjacency.decode bs = .ok a) :
    RecordKind.of? bs = some .adjacency := by
  by_cases hk : RecordKind.of? bs = some .adjacency
  · exact hk
  · rw [Adjacency.decode, if_pos hk] at h
    cases h

theorem decode?_element (bs : Bytes) (e : Element) :
    decode? bs = some (.element e) ↔ Element.decode bs = .ok e := by
  rw [decode?]
  cases he : Element.decode bs with
  | ok e' => simp
  | error _ => cases ha : Adjacency.decode bs <;> simp

theorem decode?_adjacency (bs : Bytes) (a : Adjacency) :
    decode? bs = some (.adjacency a) ↔ Adjacency.decode bs = .ok a := by
  rw [decode?]
  cases he : Element.decode bs with
  | error _ => cases ha : Adjacency.decode bs <;> simp
  | ok e =>
    cases ha : Adjacency.decode bs with
    | error _ => simp
    | ok b =>
      have hk := kind_of_element bs e he
      rw [kind_of_adjacency bs b ha] at hk
      cases hk

theorem decode?_none (bs : Bytes) (h : RecordKind.of? bs = none) : decode? bs = none := by
  cases hd : decode? bs with
  | none => rfl
  | some r =>
    cases r with
    | element e =>
      rw [kind_of_element bs e ((decode?_element bs e).mp hd)] at h
      cases h
    | adjacency a =>
      rw [kind_of_adjacency bs a ((decode?_adjacency bs a).mp hd)] at h
      cases h

theorem decode?_encode {width : Nat} (r : Record) (h : r.Fits width) :
    decode? r.encode = some r := by
  cases r with
  | element e =>
    obtain ⟨hlen, hwidth, -⟩ := h
    exact (decode?_element _ _).mpr (e.decode_encode (by omega))
  | adjacency a => exact (decode?_adjacency _ _).mpr (a.decode_encode h)

end Record

namespace Page

def record? (p : Page) (slot : Nat) : Option Record :=
  match p.item slot with
  | .ok bs => Record.decode? bs
  | .error _ => none

theorem element_eq_ok (p : Page) (l : Location) (e : Element) :
    p.element l = .ok e ↔ p.record? l.slot.toNat = some (.element e) := by
  rw [element, record?]
  cases p.item l.slot.toNat with
  | error _ => simp [Except.bind]
  | ok bs =>
    rw [Record.decode?_element]
    show (Element.decode bs).mapError (Error.badElement l) = .ok e ↔ _
    cases Element.decode bs with
    | error c =>
      constructor
      · intro h
        cases h
      · intro h
        cases h
    | ok f => exact Iff.rfl

theorem adjacency_eq_ok (p : Page) (l : Location) (a : Adjacency) :
    p.adjacency l = .ok a ↔ p.record? l.slot.toNat = some (.adjacency a) := by
  rw [adjacency, record?]
  cases p.item l.slot.toNat with
  | error _ => simp [Except.bind]
  | ok bs =>
    rw [Record.decode?_adjacency]
    show (Adjacency.decode bs).mapError (Error.badNeighbors l) = .ok a ↔ _
    cases Adjacency.decode bs with
    | error c =>
      constructor
      · intro h
        cases h
      · intro h
        cases h
    | ok b => exact Iff.rfl

theorem record?_metaImage {h : Header} (hm : h.magic = Header.indexMagic) (slot : Nat) :
    (Store.metaImage h).record? slot = none := by
  rw [record?]
  cases hi : (Store.metaImage h).item slot with
  | error _ => rfl
  | ok bs => exact Record.decode?_none bs (Store.kind_item_metaImage hm slot bs hi)

structure Carries (width : Nat) (p : Page) (rs : List Record) : Prop where
  holds : p.Holds (rs.map Record.encode)
  fits : ∀ r ∈ rs, r.Fits width

theorem carries_empty (width : Nat) : Page.empty.Carries width [] where
  holds := holds_empty
  fits := by simp

namespace Carries

variable {width : Nat} {p : Page} {rs : List Record}

theorem record?_eq (h : p.Carries width rs) (slot : Nat) : p.record? slot = rs[slot]? := by
  rw [record?]
  cases hr : rs[slot]? with
  | none => rw [h.holds.item_error slot (by rw [List.getElem?_map, hr]; rfl)]
  | some r =>
    rw [h.holds.item_eq slot r.encode (by rw [List.getElem?_map, hr]; rfl)]
    exact r.decode?_encode (h.fits r (List.mem_of_getElem? hr))

theorem spaceAfterFreeing_eq (h : p.Carries width rs) {slot : Nat} {r : Record}
    (hr : rs[slot]? = some r) :
    p.spaceAfterFreeing slot = .ok (p.upper - p.lower + r.encode.size) :=
  h.holds.spaceAfterFreeing_eq slot r.encode (by rw [List.getElem?_map, hr]; rfl)

theorem slotCount_eq (h : p.Carries width rs) : p.slotCount = rs.length := by
  rw [h.holds.count, List.length_map]

theorem length_lt (h : p.Carries width rs) : rs.length < 65536 := by
  have := h.holds.length_le
  rw [List.length_map] at this
  have hs : pageSize = 8192 := rfl
  omega

theorem setNext (h : p.Carries width rs) (id : PageId) : (p.setNext id).Carries width rs where
  holds := h.holds.setNext id
  fits := h.fits

theorem add (h : p.Carries width rs) (r : Record) (hr : r.Fits width)
    (hroom : r.encode.size + 4 ≤ p.upper - p.lower) :
    ∃ q, p.addItem r.encode = .ok (rs.length, q) ∧ q.Carries width (rs ++ [r]) ∧
      q.next = p.next := by
  obtain ⟨q, hq, hholds, hnext⟩ := h.holds.addItem_eq r.encode hroom
  rw [List.length_map] at hq
  refine ⟨q, hq, ⟨by rwa [List.map_append], fun x hx => ?_⟩, hnext⟩
  rcases List.mem_append.mp hx with hx | hx
  · exact h.fits x hx
  · rwa [List.mem_singleton.mp hx]

theorem replace (h : p.Carries width rs) (slot : Nat) (r r' : Record) (hs : rs[slot]? = some r)
    (hr : r'.Fits width) (hroom : r'.encode.size ≤ p.upper - p.lower + r.encode.size) :
    ∃ q, p.overwriteItem slot r'.encode = .ok q ∧ q.Carries width (rs.set slot r') ∧
      q.next = p.next := by
  obtain ⟨q, hq, hholds, hnext⟩ := h.holds.overwriteItem_eq slot r.encode r'.encode
    (by rw [List.getElem?_map, hs]; rfl) hroom
  refine ⟨q, hq, ⟨by rwa [List.map_set], fun x hx => ?_⟩, hnext⟩
  rcases List.mem_or_eq_of_mem_set hx with hx | rfl
  · exact h.fits x hx
  · exact hr

theorem size_pos (r : Record) : 0 < r.encode.size := by
  cases r with
  | element e =>
    have := e.headerSize_le
    have hs : Element.headerSize = 92 := rfl
    show 0 < e.encode.size
    omega
  | adjacency a =>
    have := LittleEndian.align_le (Adjacency.headerSize + a.slots.length * Location.size)
    have hs : Adjacency.headerSize = 4 := rfl
    show 0 < a.encode.size
    rw [a.size_encode]
    omega

theorem of_addItem (h : p.Carries width rs) (r : Record) {slot : Nat} {q : Page}
    (hq : p.addItem r.encode = .ok (slot, q)) : slot = rs.length ∧ r.encode.size ≤ pageSize ∧
      (r.Fits width → q.Carries width (rs ++ [r]) ∧ q.next = p.next) := by
  have hpos := size_pos r
  have htop := h.holds.top
  have hroom : r.encode.size + 4 ≤ p.upper - p.lower := by
    by_cases hfree : p.freeSpace < r.encode.size
    · rw [addItem, if_pos hfree] at hq
      cases hq
    · simp only [freeSpace, itemIdSize] at hfree
      omega
  obtain ⟨q', hq', -, -⟩ := h.holds.addItem_eq r.encode hroom
  rw [hq, List.length_map] at hq'
  obtain ⟨rfl, rfl⟩ := Prod.mk.inj (Except.ok.inj hq')
  refine ⟨rfl, by omega, fun hr => ?_⟩
  obtain ⟨q', hq', hcarries, hnext⟩ := h.add r hr hroom
  obtain ⟨-, rfl⟩ := Prod.mk.inj (Except.ok.inj (hq.symm.trans hq'))
  exact ⟨hcarries, hnext⟩

theorem of_overwriteItem (h : p.Carries width rs) (r r' : Record) {slot : Nat} {q : Page}
    (hs : rs[slot]? = some r) (hq : p.overwriteItem slot r'.encode = .ok q) :
    r'.encode.size ≤ pageSize ∧
      (r'.Fits width → q.Carries width (rs.set slot r') ∧ q.next = p.next) := by
  have hmap : (rs.map Record.encode)[slot]? = some r.encode := by
    rw [List.getElem?_map, hs]
    rfl
  have hid := h.holds.itemId_eq slot r.encode hmap
  have hsum := h.holds.startOf_add slot r.encode hmap
  have hup := h.holds.upper_le_startOf slot
  have hroom : r'.encode.size ≤ p.upper - p.lower + r.encode.size := by
    rw [overwriteItem, hid] at hq
    simp only at hq
    by_cases hsame : r.encode.size = r'.encode.size
    · omega
    · rw [if_neg hsame] at hq
      by_cases hlarge : p.upper - p.lower + r.encode.size < r'.encode.size
      · rw [if_pos hlarge] at hq
        cases hq
      · omega
  refine ⟨by omega, fun hr => ?_⟩
  obtain ⟨q', hq', hcarries, hnext⟩ := h.replace slot r r' hs hr hroom
  obtain rfl : q = q' := Except.ok.inj (hq.symm.trans hq')
  exact ⟨hcarries, hnext⟩

end Carries

end Page

namespace Store

def record? (s : Store) (l : Location) : Option Record :=
  match s.pages[l.page.toNat]? with
  | some p => p.record? l.slot.toNat
  | none => none

theorem record?_of_page (s : Store) (l : Location) (p : Page) (hp : s.pages[l.page.toNat]? = some p) :
    s.record? l = p.record? l.slot.toNat := by
  rw [record?, hp]

theorem element_eq_ok (s : Store) (l : Location) (e : Element) :
    s.element l = .ok e ↔ s.record? l = some (.element e) := by
  rw [element, readPage, record?]
  cases s.pages[l.page.toNat]? with
  | none => simp [Except.bind]
  | some p => exact p.element_eq_ok l e

theorem adjacency_eq_ok (s : Store) (l : Location) (a : Adjacency) :
    s.adjacency l = .ok a ↔ s.record? l = some (.adjacency a) := by
  rw [adjacency, readPage, record?]
  cases s.pages[l.page.toNat]? with
  | none => simp [Except.bind]
  | some p => exact p.adjacency_eq_ok l a

def withPage (s : Store) (id : PageId) (p : Page) : Store :=
  { s with
    pages := s.pages.setIfInBounds id.toNat p
    two_le_size := by
      rw [Array.size_setIfInBounds]
      exact s.two_le_size }

@[simp] theorem size_withPage (s : Store) (id : PageId) (p : Page) :
    (s.withPage id p).pages.size = s.pages.size :=
  Array.size_setIfInBounds

@[simp] theorem held_withPage (s : Store) (id : PageId) (p : Page) :
    (s.withPage id p).held = s.held := rfl

theorem getElem?_withPage (s : Store) (id : PageId) (p q : Page) (i : Nat)
    (h : s.pages[id.toNat]? = some q) :
    (s.withPage id p).pages[i]? = if i = id.toNat then some p else s.pages[i]? := by
  have hlt : id.toNat < s.pages.size := (Array.getElem?_eq_some_iff.mp h).1
  simp only [withPage, Array.getElem?_setIfInBounds]
  by_cases hi : i = id.toNat
  · rw [if_pos hi.symm, if_pos hi, if_pos (by omega)]
  · rw [if_neg (Ne.symm hi), if_neg hi]

theorem record?_withPage (s : Store) (id : PageId) (p q : Page) (l : Location)
    (h : s.pages[id.toNat]? = some q) :
    (s.withPage id p).record? l = if l.page = id then p.record? l.slot.toNat else s.record? l := by
  rw [record?, getElem?_withPage s id p q _ h]
  by_cases hl : l.page = id
  · rw [if_pos (by rw [hl]), if_pos hl]
  · rw [if_neg fun heq => hl (UInt32.toNat_inj.mp heq), if_neg hl, record?]

end Store

end PagedGraph
