import PagedGraph.Graph.EntryPoint
import PagedGraph.Proofs.Edits
import PagedGraph.Proofs.Pairing

/-!
# Intact stores

What holds of a graph's store whenever no transaction is under way: nobody holds a lock, page 0
carries the file's header, every other page carries records, the pages are chained in the order of
their numbers, the insert cursor stands on one of them, and the records are paired.

One-page updates keep this. A record that is rewritten in its slot keeps its shape; an update of
the header moves the entry point, which may point anywhere, or the cursor.
-/

set_option autoImplicit false

namespace PagedGraph

/-- A header of the same file: only entry point and insert cursor may differ. -/
def Header.SameFile (t h : Header) : Prop :=
  h = { t with
    entryPage := h.entryPage, entrySlot := h.entrySlot, entryLevel := h.entryLevel
    insertPage := h.insertPage }

theorem Header.SameFile.magic {t h : Header} (hs : t.SameFile h) : h.magic = t.magic := by
  rw [hs]

namespace Store

def successor (s : Store) (i : Nat) : PageId :=
  if i + 1 < s.pages.size then UInt32.ofNat (i + 1) else noPage

theorem getElem?_zero (s : Store) : s.pages[0]? = some s.headerPage :=
  Array.getElem?_eq_getElem (Nat.lt_of_lt_of_le Nat.zero_lt_two s.two_le_size)

theorem record?_put {width : Nat} (s : Store) (l : Location) (p q : Page) (rs rs' : List Record) (r : Record)
    (hp : s.pages[l.page.toNat]? = some p) (hrs : p.Carries width rs)
    (hq : q.Carries width rs') (hslot : rs'[l.slot.toNat]? = some r)
    (hother : ∀ k, k ≠ l.slot.toNat → rs'[k]? = rs[k]?) :
    (s.withPage l.page q).record? = putRecord s.record? l r := by
  funext k
  rw [record?_withPage s l.page q p k hp]
  by_cases hk : k = l
  · subst hk
    rw [if_pos rfl, putRecord_self, hq.record?_eq, hslot]
  · rw [putRecord_of_ne _ _ hk]
    by_cases hpage : k.page = l.page
    · have hne : k.slot.toNat ≠ l.slot.toNat := by
        intro heq
        exact hk (Location.eq_of_parts hpage heq)
      rw [if_pos hpage, hq.record?_eq, hother _ hne, ← hrs.record?_eq, record?, hpage, hp]
    · rw [if_neg hpage]

/-- Every page has a number that is not the reserved one. -/
def Numbered (s : Store) : Prop := s.pages.size ≤ noPage.toNat

def Filled (width : Nat) (s : Store) : Prop :=
  ∀ i p, 0 < i → s.pages[i]? = some p → ∃ rs, p.Carries width rs

structure Formed (t : Header) (s : Store) : Prop where
  magic : t.magic = Header.indexMagic
  width : t.dimensions.toNat ≤ 65535
  idle : s.held = []
  bounded : s.pages.size ≤ 4294967295
  headed : ∃ h, t.SameFile h ∧ s.headerPage = metaImage h
  cursor_pos : 0 < s.cursor.toNat
  cursor_lt : s.cursor.toNat < s.pages.size
  filled : ∀ i p, 0 < i → s.pages[i]? = some p → ∃ rs, p.Carries t.dimensions.toNat rs
  linked : ∀ i p, 0 < i → s.pages[i]? = some p → p.next = s.successor i

structure Intact (t : Header) (s : Store) : Prop extends Formed t s where
  paired : Paired t.m.toNat s.record?

namespace Formed

variable {t : Header} {s : Store}

theorem headerPage_eq (h : s.Formed t) : s.headerPage = metaImage s.header := by
  obtain ⟨g, -, hg⟩ := h.headed
  rw [header, hg, onPage_metaImage]

theorem sameFile (h : s.Formed t) : t.SameFile s.header := by
  obtain ⟨g, hs, hg⟩ := h.headed
  rwa [header, hg, onPage_metaImage]

theorem pageCount_eq (h : s.Formed t) : s.pageCount = s.pages.size := by
  have := h.bounded
  rw [pageCount]
  omega

theorem lt_pageCount (h : s.Formed t) (i : Nat) (p : Page) (hp : s.pages[i]? = some p) :
    i < s.pageCount := by
  rw [h.pageCount_eq]
  exact (Array.getElem?_eq_some_iff.mp hp).1

theorem isHeld_eq (h : s.Formed t) (lock : Lock) : s.isHeld lock = false := by
  rw [isHeld, h.idle]
  rfl

theorem record?_header (h : s.Formed t) (l : Location) (hl : l.page = metaPage) :
    s.record? l = none := by
  have hpage : s.pages[l.page.toNat]? = some (metaImage s.header) := by
    rw [hl, ← h.headerPage_eq]
    exact s.getElem?_zero
  rw [s.record?_of_page l _ hpage]
  exact Page.record?_metaImage (h.sameFile.magic.trans h.magic) _

theorem page_of_record (h : s.Formed t) (l : Location) (r : Record) (hr : s.record? l = some r) :
    ∃ p rs, 0 < l.page.toNat ∧ s.pages[l.page.toNat]? = some p ∧
      p.Carries t.dimensions.toNat rs ∧ rs[l.slot.toNat]? = some r := by
  have hpos : 0 < l.page.toNat := by
    rcases Nat.eq_zero_or_pos l.page.toNat with hz | hpos
    · rw [h.record?_header l (UInt32.toNat_inj.mp hz)] at hr
      cases hr
    · exact hpos
  rw [record?] at hr
  cases hp : s.pages[l.page.toNat]? with
  | none =>
    rw [hp] at hr
    cases hr
  | some p =>
    rw [hp] at hr
    obtain ⟨rs, hrs⟩ := h.filled _ p hpos hp
    exact ⟨p, rs, hpos, rfl, hrs, by rw [← hrs.record?_eq]; exact hr⟩

theorem fits_of_record (h : s.Formed t) (l : Location) (r : Record) (hr : s.record? l = some r) :
    r.Fits t.dimensions.toNat := by
  obtain ⟨p, rs, -, -, hrs, hslot⟩ := h.page_of_record l r hr
  exact hrs.fits r (List.mem_of_getElem? hslot)

theorem headerPage_withPage (id : PageId) (p q : Page) (hid : 0 < id.toNat)
    (hp : s.pages[id.toNat]? = some p) : (s.withPage id q).headerPage = s.headerPage := by
  apply Option.some.inj
  rw [← getElem?_zero, ← getElem?_zero, getElem?_withPage s id q p 0 hp,
    if_neg (Nat.ne_of_lt hid)]

theorem withPage (h : s.Formed t) (id : PageId) (p q : Page) (rs : List Record)
    (hid : 0 < id.toNat) (hp : s.pages[id.toNat]? = some p)
    (hq : q.Carries t.dimensions.toNat rs) (hnext : q.next = p.next) :
    (s.withPage id q).Formed t := by
  have hget := s.getElem?_withPage id q p
  have hheader : (s.withPage id q).headerPage = s.headerPage := headerPage_withPage id p q hid hp
  have hcursor : (s.withPage id q).cursor = s.cursor := by
    rw [cursor, cursor, header, header, hheader]
  constructor
  · exact h.magic
  · exact h.width
  · exact h.idle
  · rw [size_withPage]
    exact h.bounded
  · rw [hheader]
    exact h.headed
  · rw [hcursor]
    exact h.cursor_pos
  · rw [hcursor, size_withPage]
    exact h.cursor_lt
  · intro i p' hi hp'
    rw [hget i hp] at hp'
    by_cases hii : i = id.toNat
    · rw [if_pos hii] at hp'
      obtain rfl : q = p' := Option.some.inj hp'
      exact ⟨rs, hq⟩
    · rw [if_neg hii] at hp'
      exact h.filled i p' hi hp'
  · intro i p' hi hp'
    rw [hget i hp] at hp'
    rw [successor, size_withPage]
    by_cases hii : i = id.toNat
    · rw [if_pos hii] at hp'
      obtain rfl : q = p' := Option.some.inj hp'
      rw [hnext, hii]
      exact h.linked id.toNat p hid hp
    · rw [if_neg hii] at hp'
      exact h.linked i p' hi hp'

end Formed

structure Rewritten (s s' : Store) (l : Location) (r : Record) : Prop where
  record : s'.record? = putRecord s.record? l r
  header : s'.header = s.header
  size : s'.pages.size = s.pages.size

theorem Intact.rewrite {t : Header} {s : Store} (h : s.Intact t) (l : Location) (r r' : Record)
    (hr : s.record? l = some r) (hs : r.SameShape r') (hfits : r'.Fits t.dimensions.toNat) :
    ∃ p q, s.pages[l.page.toNat]? = some p ∧ p.record? l.slot.toNat = some r ∧
      p.overwriteItem l.slot.toNat r'.encode = .ok q ∧ (s.withPage l.page q).Intact t ∧
      Rewritten s (s.withPage l.page q) l r' := by
  obtain ⟨p, rs, hpos, hp, hrs, hslot⟩ := h.page_of_record l r hr
  have hlt : l.slot.toNat < rs.length := (List.getElem?_eq_some_iff.mp hslot).1
  obtain ⟨q, hq, hcarries, hnext⟩ := hrs.replace l.slot.toNat r r' hslot hfits
    (by rw [hs.size_eq]; omega)
  have hrecord : (s.withPage l.page q).record? = putRecord s.record? l r' :=
    s.record?_put l p q rs _ r' hp hrs hcarries (List.getElem?_set_self hlt)
      fun k hk => List.getElem?_set_ne (Ne.symm hk)
  have hformed := h.withPage l.page p q _ hpos hp hcarries hnext
  have hpaired : Paired t.m.toNat (s.withPage l.page q).record? := by
    rw [hrecord]
    exact h.paired.rewrite hr hs
  refine ⟨p, q, hp, by rw [hrs.record?_eq, hslot], hq, ⟨hformed, hpaired⟩, hrecord, ?_,
    size_withPage s _ q⟩
  rw [header, header, Formed.headerPage_withPage l.page p q hpos hp]

theorem Intact.rewrite_in_place {t : Header} {s : Store} (h : s.Intact t) (l : Location)
    (r r' : Record) (hr : s.record? l = some r) (hs : r.SameShape r')
    (hfits : r'.Fits t.dimensions.toNat) :
    ∃ p start, s.pages[l.page.toNat]? = some p ∧
      p.itemId l.slot.toNat = .ok (start, r'.encode.size) ∧
      p.overwriteItem l.slot.toNat r'.encode = .ok (p.write start r'.encode) ∧
      (s.withPage l.page (p.write start r'.encode)).Intact t ∧
      Rewritten s (s.withPage l.page (p.write start r'.encode)) l r' := by
  obtain ⟨p, rs, -, hp, hrs, hslot⟩ := h.page_of_record l r hr
  obtain ⟨p', q, hp', -, hq, hintact, hrew⟩ := h.rewrite l r r' hr hs hfits
  obtain rfl : p = p' := Option.some.inj (hp.symm.trans hp')
  have hitem : (rs.map Record.encode)[l.slot.toNat]? = some r.encode := by
    rw [List.getElem?_map, hslot]
    rfl
  have hwritten := hrs.holds.overwriteItem_same hitem hs.size_eq.symm
  obtain rfl := Except.ok.inj (hq.symm.trans hwritten)
  exact ⟨p, _, hp, by rw [hrs.holds.itemId_eq _ _ hitem, hs.size_eq], hq, hintact, hrew⟩

def withHeader (s : Store) (h : Header) : Store := s.withPage metaPage (metaImage h)

theorem headerPage_withHeader (s : Store) (h : Header) :
    (s.withHeader h).headerPage = metaImage h := by
  apply Option.some.inj
  rw [← getElem?_zero, withHeader, getElem?_withPage s metaPage _ s.headerPage 0 s.getElem?_zero]
  rfl

theorem header_withHeader (s : Store) (h : Header) : (s.withHeader h).header = h := by
  rw [header, headerPage_withHeader, onPage_metaImage]

theorem size_withHeader (s : Store) (h : Header) :
    (s.withHeader h).pages.size = s.pages.size :=
  size_withPage s metaPage _

theorem Formed.withHeader {t : Header} {s : Store} (hs : s.Formed t) (h : Header)
    (hfile : t.SameFile h) (hpos : 0 < h.insertPage.toNat)
    (hlt : h.insertPage.toNat < s.pages.size) :
    (s.withHeader h).Formed t ∧ (s.withHeader h).record? = s.record? := by
  have hget : ∀ i, 0 < i → (s.withHeader h).pages[i]? = s.pages[i]? := by
    intro i hi
    rw [Store.withHeader, getElem?_withPage s metaPage _ s.headerPage i s.getElem?_zero]
    exact if_neg (Nat.ne_of_gt hi)
  have hrecord : (s.withHeader h).record? = s.record? := by
    funext l
    rw [Store.withHeader, record?_withPage s metaPage _ s.headerPage l s.getElem?_zero]
    by_cases hl : l.page = metaPage
    · rw [if_pos hl, hs.record?_header l hl]
      exact Page.record?_metaImage (hfile.magic.trans hs.magic) _
    · rw [if_neg hl]
  refine ⟨?_, hrecord⟩
  constructor
  · exact hs.magic
  · exact hs.width
  · exact hs.idle
  · rw [size_withHeader]
    exact hs.bounded
  · exact ⟨h, hfile, s.headerPage_withHeader h⟩
  · rwa [cursor, header_withHeader]
  · rwa [cursor, header_withHeader, size_withHeader]
  · intro i p hi hp
    rw [hget i hi] at hp
    exact hs.filled i p hi hp
  · intro i p hi hp
    rw [hget i hi] at hp
    rw [successor, size_withHeader]
    exact hs.linked i p hi hp

theorem Intact.withHeader {t : Header} {s : Store} (hs : s.Intact t) (h : Header)
    (hfile : t.SameFile h) (hpos : 0 < h.insertPage.toNat)
    (hlt : h.insertPage.toNat < s.pages.size) :
    (s.withHeader h).Intact t ∧ (s.withHeader h).record? = s.record? := by
  obtain ⟨hformed, hrecord⟩ := Formed.withHeader hs.toFormed h hfile hpos hlt
  exact ⟨⟨hformed, by rw [hrecord]; exact hs.paired⟩, hrecord⟩

end Store

end PagedGraph
