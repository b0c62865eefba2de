import PagedGraph.Proofs.FirstFit

/-!
# Writing an element is all or nothing

The two records of an element go to one page or to two, a page that is written may be packed afresh,
and up to two pages may be appended before. If any of this fails, the store is what it was. If all of
it goes through, both records can be read back, and everything else is where it was: the other slots
keep their bytes, the page headers keep theirs, and the page chain has only been made longer
(`whole_or_nothing`).
-/

set_option autoImplicit false

namespace PagedGraph

namespace Store

def itemAt (s : Store) (l : Location) : Option Bytes :=
  ((s.readPage l.page).bind fun p => p.item l.slot.toNat).toOption

theorem Filled.itemAt_eq {width : Nat} {s : Store} (h : s.Filled width) {l : Location}
    (hl : 0 < l.page.toNat) : s.itemAt l = (s.record? l).map Record.encode := by
  rw [itemAt, readPage, record?]
  cases hp : s.pages[l.page.toNat]? with
  | none => rfl
  | some p =>
    obtain ⟨rs, hrs⟩ := h _ p hl hp
    show (p.item l.slot.toNat).toOption = (p.record? l.slot.toNat).map Record.encode
    rw [hrs.record?_eq]
    cases hr : rs[l.slot.toNat]? with
    | none =>
      rw [hrs.holds.item_error _ (by rw [List.getElem?_map, hr]; rfl)]
      rfl
    | some r =>
      rw [hrs.holds.item_eq _ r.encode (by rw [List.getElem?_map, hr]; rfl)]
      rfl

/-- What an old data page looks like after pages have been appended: the last one has got a
successor. -/
def relinked (s v : Store) (i : Nat) (p : Page) : Page :=
  if i + 1 = s.pages.size ∧ s.pages.size < v.pages.size then
    p.setNext (UInt32.ofNat s.pages.size)
  else p

structure Grown (width : Nat) (s v : Store) : Prop where
  filled : v.Filled width
  record : v.record? = s.record?
  headerPage : v.headerPage = s.headerPage
  size_le : v.pages.size ≤ s.pages.size + 2
  old : ∀ i p, 0 < i → s.pages[i]? = some p → v.pages[i]? = some (s.relinked v i p)
  fresh : ∀ i q, s.pages.size ≤ i → v.pages[i]? = some q → q.next = v.successor i

section
variable {t : Header} {s : Store} (h : s.Formed t)
include h

theorem Formed.grown_refl : Grown t.dimensions.toNat s s where
  filled := h.filled
  record := rfl
  headerPage := rfl
  size_le := Nat.le_add_right _ _
  old := fun i p _ hp => by rw [relinked, if_neg fun hlt => Nat.lt_irrefl _ hlt.2, hp]
  fresh := fun i q hi hq => absurd (Array.getElem?_eq_some_iff.mp hq).1 (Nat.not_lt.mpr hi)

variable {id : PageId} {p : Page} (hid : 0 < id.toNat) (hp : s.pages[id.toNat]? = some p)
  (hlast : p.next = noPage)
include hid hp hlast

theorem Formed.grown_extend : Grown t.dimensions.toNat s (s.extend id p) where
  filled := Filled.extend h.filled id p hid hp
  record := Filled.record?_extend h.filled id p hid hp
  headerPage := Formed.headerPage_extend id p hid hp
  size_le := by
    rw [size_extend]
    omega
  old := by
    intro i q hi hq
    have hend := h.last_of_next id.toNat p hid hp hlast
    have hlt : i < s.pages.size := (Array.getElem?_eq_some_iff.mp hq).1
    rw [getElem?_extend s id p i hp, relinked, size_extend]
    by_cases hii : i = id.toNat
    · subst hii
      obtain rfl : p = q := Option.some.inj (hp.symm.trans hq)
      rw [if_pos rfl, if_pos ⟨hend, Nat.lt_succ_self _⟩]
    · rw [if_neg hii, if_neg (Nat.ne_of_lt hlt), if_neg (by omega), hq]
  fresh := by
    intro i q hi hq
    have hend := h.last_of_next id.toNat p hid hp hlast
    rw [getElem?_extend s id p i hp, if_neg (by omega)] at hq
    by_cases hnew : i = s.pages.size
    · rw [if_pos hnew] at hq
      rw [← Option.some.inj hq, Page.next_empty, successor, size_extend, if_neg (by omega)]
    · rw [if_neg hnew, Array.getElem?_eq_none hi] at hq
      cases hq

theorem Formed.grown_twice : Grown t.dimensions.toNat s
    ((s.extend id p).extend (UInt32.ofNat s.pages.size) Page.empty) := by
  have hb := h.bounded
  have hgrown := h.grown_extend hid hp hlast
  have hend := h.last_of_next id.toNat p hid hp hlast
  have hfresh := toNat_fresh (s := s) (by omega)
  have hpos : 0 < (UInt32.ofNat s.pages.size).toNat := by
    have := s.two_le_size
    omega
  have hempty : (s.extend id p).pages[(UInt32.ofNat s.pages.size).toNat]? = some Page.empty := by
    rw [hfresh, getElem?_extend s id p _ hp, if_neg (by omega), if_pos rfl]
  have hget := getElem?_extend (s.extend id p) (UInt32.ofNat s.pages.size) Page.empty
  have hsize : ((s.extend id p).extend (UInt32.ofNat s.pages.size) Page.empty).pages.size =
      s.pages.size + 2 := by
    rw [size_extend, size_extend]
  constructor
  · exact Filled.extend hgrown.filled _ _ hpos hempty
  · exact (Filled.record?_extend hgrown.filled _ _ hpos hempty).trans hgrown.record
  · exact (Formed.headerPage_extend _ _ hpos hempty).trans hgrown.headerPage
  · exact Nat.le_of_eq hsize
  · intro i q hi hq
    have hlt : i < s.pages.size := (Array.getElem?_eq_some_iff.mp hq).1
    rw [hget i hempty, if_neg (by omega), size_extend, if_neg (by omega), hgrown.old i q hi hq,
      relinked, relinked, size_extend, hsize]
    by_cases hii : i + 1 = s.pages.size
    · rw [if_pos ⟨hii, by omega⟩, if_pos ⟨hii, by omega⟩]
    · rw [if_neg fun hand => hii hand.1, if_neg fun hand => hii hand.1]
  · intro i q hi hq
    rw [hget i hempty, hfresh, size_extend] at hq
    rw [successor, hsize]
    by_cases hii : i = s.pages.size
    · rw [if_pos hii] at hq
      rw [← Option.some.inj hq, Page.next_setNext, if_pos (by omega), hii]
    · rw [if_neg hii] at hq
      by_cases hnew : i = s.pages.size + 1
      · rw [if_pos hnew] at hq
        rw [← Option.some.inj hq, Page.next_empty, if_neg (by omega)]
      · rw [if_neg hnew, Array.getElem?_eq_none (by rw [size_extend]; omega)] at hq
        cases hq

end

end Store

theorem Ends.grown {t : Header} {s v : Store} (h : s.Intact t) {n : PairSize} {id a b : PageId}
    {p : Page} {reuse : Option Reuse} (hends : Ends s n id p v a b reuse) (hid : 0 < id.toNat)
    (hp : s.pages[id.toNat]? = some p) : s.Grown t.dimensions.toNat v := by
  cases hends with
  | together => exact h.grown_refl
  | split last => exact h.grown_extend hid hp last
  | reuse => exact h.grown_refl
  | grow spent => exact h.grown_extend hid hp spent.last
  | growTwice spent => exact h.grown_twice hid hp spent.last

/-- What has become of a store in which a draft has been written as a pair of records. -/
structure Written (s s' : Store) (d : Draft) (m : Nat) (st : Stored) : Prop where
  /-- Both records can be read back, the element's with the location of its neighbor record. -/
  element : s'.element st.location = .ok { d.element with neighborsAt := st.neighborsAt }
  neighbors : s'.adjacency st.neighborsAt = .ok (d.adjacency m)
  /-- Their slots are new, or they were those of one deleted element that is not the entry point. -/
  slots : s.itemAt st.location = none ∧ s.itemAt st.neighborsAt = none ∨
    ∃ f, s.element st.location = .ok f ∧ f.deleted = true ∧ f.neighborsAt = st.neighborsAt ∧
      s.entry.map EntryPoint.location ≠ some st.location
  /-- All other slots of data pages have the bytes that they had. -/
  others : ∀ l, l.page ≠ metaPage → l ≠ st.location → l ≠ st.neighborsAt →
    s'.itemAt l = s.itemAt l
  /-- An old page has kept its header, only the last one has been linked to the first new page; if
  neither record is on the page, then it has kept all other bytes as well. -/
  old : ∀ i p, 0 < i → s.pages[i]? = some p → ∃ q, s'.pages[i]? = some q ∧
    (s.relinked s' i p).SameHead q ∧
    (i ≠ st.location.page.toNat → i ≠ st.neighborsAt.page.toNat → q = s.relinked s' i p)
  /-- New pages, of which there are at most two, carry the chain on. -/
  fresh : ∀ i q, s.pages.size ≤ i → s'.pages[i]? = some q → q.next = s'.successor i
  size : s.pages.size ≤ s'.pages.size ∧ s'.pages.size ≤ s.pages.size + 2
  held : s'.held = s.held
  /-- The header page is what it was, until the insert cursor is moved as the write demands. -/
  headerPage : s'.headerPage = s.headerPage
  cursor : ∀ id, st.cursor = some id →
    moveCursor id s' = .ok () (s'.withHeader { s.header with insertPage := id })

theorem PairWritten.page_at {width : Nat} {s v v' : Store} {l k : Location} {e : Element}
    {a : Adjacency} (h : PairWritten width s v v' l k e a) {i : Nat} {p : Page}
    (hp : v.pages[i]? = some p) : ∃ q, v'.pages[i]? = some q ∧ p.SameHead q ∧
      (i ≠ l.page.toNat → i ≠ k.page.toNat → q = p) := by
  obtain ⟨v₁, hl, hk⟩ := h.puts
  obtain ⟨q, hq, hhead, hsame⟩ := hl.page_at hp
  obtain ⟨q', hq', hhead', hsame'⟩ := hk.page_at hq
  exact ⟨q', hq', hhead.trans hhead', fun hil hik => (hsame' hik).trans (hsame hil)⟩

section
variable {t : Header} {s : Store} (h : s.Intact t)
include h

theorem moveCursor_headerPage {s' : Store} (hheader : s'.headerPage = s.headerPage)
    (hheld : s'.held = s.held) (id : PageId) :
    moveCursor id s' = .ok () (s'.withHeader { s.header with insertPage := id }) := by
  have hpos : metaPage.toNat < s'.pageCount := by
    have htwo := s'.two_le_size
    have hmeta : metaPage.toNat = 0 := rfl
    rw [Store.pageCount]
    omega
  have hfree : s'.isHeld (.page metaPage) = false := by
    rw [Store.isHeld, hheld, h.idle]
    rfl
  have himage : ({ s.header with insertPage := id } : Header).writeTo s'.headerPage =
      Store.metaImage { s.header with insertPage := id } := by
    rw [hheader, h.headerPage_eq, Store.writeTo_metaImage]
  rw [moveCursor, editHeader, editPage_eq metaPage _ s' s'.headerPage hpos hfree s'.getElem?_zero]
  have hold : Header.onPage s'.headerPage = s.header := by
    rw [hheader]
    rfl
  simp only [hold, himage]
  rfl

variable {d : Draft} (hd : d.vector.length = t.dimensions.toNat) {v s' : Store} {st : Stored}
  (hstoring : Storing t s v s' d st)
include hd hstoring

theorem Storing.grown : s.Grown t.dimensions.toNat v := by
  obtain ⟨place, w, m, k, hfound, hroom⟩ := hstoring.found
  obtain ⟨id, p, hpasses, hp, hend⟩ := h.allocate_lands
    (n := ⟨Element.encodedSize d.vector.length, (d.adjacency t.m.toNat).encode.size⟩)
    (congrArg Element.encodedSize hd)
  rcases hend with ⟨place', w', hrun, hlands⟩ | ⟨-, e, w', hrun⟩
  · obtain ⟨rfl, rfl⟩ := EStateM.Result.ok.inj (hfound.symm.trans hrun)
    obtain ⟨v', m', k', hends, hstaged, -⟩ := hlands
    obtain rfl := (Prod.mk.inj (hroom.staged.commit.symm.trans hstaged.commit)).2
    exact hends.grown h (Nat.lt_of_lt_of_le h.cursor_pos hpasses.1) hp
  · cases hfound.symm.trans hrun

theorem Storing.writes (hheld : s'.held = s.held) (hsize : s.pages.size ≤ s'.pages.size) :
    Written s s' d t.m.toNat st := by
  have hgrown := hstoring.grown h hd
  have hwritten := hstoring.written hgrown.filled hgrown.record
  have hvsize := hstoring.size
  obtain ⟨v₁, hl, hk⟩ := hwritten.puts
  have hfilled := hk.filled
  have hrecord : s'.record? = putRecord (putRecord s.record? st.location
      (.element { d.element with neighborsAt := st.neighborsAt })) st.neighborsAt
      (.adjacency (d.adjacency t.m.toNat)) := by
    rw [hk.record, hl.record, hgrown.record]
  have hlpos : 0 < st.location.page.toNat := by
    obtain ⟨p, q, hpos, -⟩ := hl.page
    exact hpos
  have hkpos : 0 < st.neighborsAt.page.toNat := by
    obtain ⟨p, q, hpos, -⟩ := hk.page
    exact hpos
  have hitem : ∀ l : Location, 0 < l.page.toNat → s.itemAt l = (s.record? l).map Record.encode :=
    fun l => Store.Filled.itemAt_eq h.filled
  have hheader : s'.headerPage = s.headerPage :=
    (hk.headerPage.trans hl.headerPage).trans hgrown.headerPage
  have hrelinked : ∀ i p, s.relinked v i p = s.relinked s' i p := by
    intro i p
    rw [Store.relinked, Store.relinked, hvsize]
  constructor
  · rw [Store.element_eq_ok, hrecord, putRecord_of_ne _ _ hwritten.ne, putRecord_self]
  · rw [Store.adjacency_eq_ok, hrecord, putRecord_self]
  · refine hwritten.old.imp (fun hfree => ?_) fun hdead => ?_
    · rw [hitem _ hlpos, hitem _ hkpos, hfree.1, hfree.2]
      exact ⟨rfl, rfl⟩
    · obtain ⟨f, hf, hrest⟩ := hdead
      exact ⟨f, (s.element_eq_ok _ f).mpr hf, hrest⟩
  · intro l hpage hne hne'
    have hpos : 0 < l.page.toNat :=
      Nat.pos_of_ne_zero fun hz => hpage (UInt32.toNat_inj.mp hz)
    rw [hfilled.itemAt_eq hpos, hitem l hpos, hrecord, putRecord_of_ne _ _ hne',
      putRecord_of_ne _ _ hne]
  · intro i p hi hp
    rw [← hrelinked]
    exact hwritten.page_at (hgrown.old i p hi hp)
  · intro i q hi hq
    have hlt : i < v.pages.size := by
      rw [← hvsize]
      exact (Array.getElem?_eq_some_iff.mp hq).1
    have hv := Array.getElem?_eq_getElem hlt
    obtain ⟨q', hq', hhead, -⟩ := hwritten.page_at hv
    obtain rfl : q = q' := Option.some.inj (hq.symm.trans hq')
    rw [hhead.next, hgrown.fresh i _ hi hv, Store.successor, Store.successor, hvsize]
  · exact ⟨hsize, by rw [hvsize]; exact hgrown.size_le⟩
  · exact hheld
  · exact hheader
  · exact fun id _ => moveCursor_headerPage h hheader hheld id

end

/-- Whatever writers have done with an index that was opened empty: writing a draft of its width,
with whatever level and candidates, leaves the store exactly as it is if anything fails; and if it
succeeds, then the pair has been written and nothing else. -/
theorem whole_or_nothing {path : String} {dimensions : UInt32} {o : Options}
    {file file' : FileState} {ix : Index} {s : Store} (hblank : file.isBlank = true)
    (hopen : Index.openFile path dimensions o file = (.ok (ix, s), file')) {c : Crowd}
    (hc : Reaches ix.params ix.dimensions s c) (d : Draft)
    (hd : d.vector.length = ix.dimensions) :
    (∃ e, storePair d ix.params.m c.store = .error e c.store) ∨
      ∃ st s', storePair d ix.params.m c.store = .ok st s' ∧
        Written c.store s' d ix.params.m st := by
  obtain ⟨hopened, -⟩ := Index.opened_of_blank hblank hopen
  rw [hopened.width] at hc hd
  have h := (hc.sound hopened.m_eq hopened.intact).intact
  rw [hopened.m_eq]
  refine (storePair_storing h d hd).imp_right ?_
  rintro ⟨st, s', hrun, hsize, hheld, v, hstoring⟩
  exact ⟨st, s', hrun, hstoring.writes h hd hheld hsize⟩

theorem Store.Intact.size_adjacency_le {t : Header} {s : Store} (h : s.Intact t) {k : Location}
    {a : Adjacency} (ha : s.record? k = some (.adjacency a)) : a.encode.size ≤ pageSize := by
  obtain ⟨p, rs, -, -, hrs, hslot⟩ := h.page_of_record k _ ha
  have hitem : (rs.map Record.encode)[k.slot.toNat]? = some a.encode := by
    rw [List.getElem?_map, hslot]
    rfl
  have hstart := hrs.holds.startOf_add k.slot.toNat a.encode hitem
  omega

section
open Index

/-- Beside two elements, one of them deleted: an element is too high for any page, and another one
takes the place of the deleted one. -/
theorem whole_or_nothing_reused : ∃ s, HasBoth s first.tombstone ∧
    (∃ e, storePair (Draft.new 255 (plain 2) 9) 16 s = .error e s) ∧
    ∃ s', storePair (Draft.new 0 (plain 2) 9) 16 s = .ok ⟨⟨1, 0⟩, ⟨1, 1⟩, none⟩ s' ∧
      Written s s' (Draft.new 0 (plain 2) 9) 16 ⟨⟨1, 0⟩, ⟨1, 1⟩, none⟩ := by
  obtain ⟨s, hboth, -, hreach⟩ := both_reached
  have hdeleted := hboth.delete
  have hblank : FileState.absent.isBlank = true := rfl
  have hopen := openFile_blank checkOptions_wide "index" .absent hblank
  have hwrites := whole_or_nothing hblank hopen (hreach.delete ⟨1, 0⟩)
  generalize (markDeleted ⟨1, 0⟩).after s = s₁ at hdeleted hwrites
  have hintact := hdeleted.settled.intact
  refine ⟨s₁, hdeleted, ?_, ?_⟩
  · rcases hwrites (Draft.new 255 (plain 2) 9) (length_plain 2) with hfail | ⟨st, s', hrun, hwritten⟩
    · exact hfail
    · have hnumbered : s'.Numbered := by
        have hsize := hwritten.size.2
        rw [hdeleted.size] at hsize
        exact Nat.le_trans hsize (by decide)
      have hplaced := storePair_placed hintact _ (length_plain 2) hrun hnumbered
      have hsize := hplaced.intact.size_adjacency_le ((s'.adjacency_eq_ok _ _).mp hwritten.neighbors)
      rw [Draft.size_adjacency] at hsize
      exact absurd hsize (by decide)
  · obtain ⟨s', hrun, -⟩ := hdeleted.room (Draft.new 0 (plain 2) 9) (length_plain 2) rfl
    rcases hwrites (Draft.new 0 (plain 2) 9) (length_plain 2) with ⟨e, hfail⟩ | ⟨st, s₂, hok, hwritten⟩
    · cases hfail.symm.trans hrun
    · obtain ⟨rfl, rfl⟩ := EStateM.Result.ok.inj (hok.symm.trans hrun)
      exact ⟨s₂, hrun, hwritten⟩

end

end PagedGraph
