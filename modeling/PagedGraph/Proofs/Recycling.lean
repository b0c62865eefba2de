import PagedGraph.Proofs.Allocation
import PagedGraph.Proofs.Interludes

/-!
# A deleted element gives way

Where the page at the insert cursor has no room for another element, a new pair takes the place of the
first deleted element on that page, if the two have the same width, the new one is not higher, and the
neighbor record of the old one is on the same page (`storePair_reuses`).

A small file with such a page has two elements that fill it (`HasBoth`). When the first one is
deleted, the next element is stored in its place, and the second one still has its links there.
-/

set_option autoImplicit false

namespace PagedGraph

theorem tombstones_first {width : Nat} {p : Page} {rs : List Record}
    (hrs : p.Carries width rs) (entry : Option EntryPoint) (id : PageId) {i : Nat} {e : Element}
    (hi : rs[i]? = some (.element e)) (hdeleted : e.deleted = true)
    (hentry : entry.map EntryPoint.location ≠ some ⟨id, UInt16.ofNat i⟩)
    (hfirst : ∀ j f, j < i → rs[j]? = some (.element f) → f.deleted = false) :
    ∃ rest, tombstones entry id p = .ok (.of i e :: rest) := by
  have hlt : i < rs.length := (List.getElem?_eq_some_iff.mp hi).1
  obtain ⟨k, hk⟩ : ∃ k, rs.length = i + (k + 1) := ⟨rs.length - i - 1, by omega⟩
  have hbefore : (List.range' 0 i).filterMap (tombstone? entry id p) = [] := by
    refine List.filterMap_eq_nil_iff.mpr fun j hj => Option.eq_none_iff_forall_ne_some.mpr ?_
    intro x hx
    obtain ⟨f, hf, hdead, -⟩ := tombstone?_eq_some.mp hx
    rw [hrs.record?_eq] at hf
    have hlive := hfirst j f (by have := (List.mem_range'_1.mp hj).2; omega) hf
    rw [hdead] at hlive
    cases hlive
  have hhere : tombstone? entry id p i = some (.of i e) :=
    tombstone?_eq_some.mpr ⟨e, by rw [hrs.record?_eq, hi], hdeleted, hentry, rfl⟩
  have hsplit : List.range' 0 rs.length = List.range' 0 i ++ i :: List.range' (i + 1) k := by
    rw [hk, ← List.range'_append_1, Nat.zero_add, List.range'_succ]
  refine ⟨(List.range' (i + 1) k).filterMap (tombstone? entry id p), ?_⟩
  rw [tombstones_ok hrs, hsplit, List.filterMap_append, hbefore, List.nil_append,
    List.filterMap_cons_some hhere]

namespace Transaction

theorem overwritePair_single (id cursor : PageId) (firstFree : Option PageId) {p q q' : Page}
    (s : Store) (r : Reuse) {element neighbors : Bytes}
    (hq : p.overwriteItem r.elementSlot element = .ok q)
    (hq' : q.overwriteItem r.neighborSlot neighbors = .ok q') :
    writePair ⟨0, 0, some r, firstFree, cursor⟩ (r.elementSlot, r.neighborSlot) element neighbors
      ⟨s, .single id p⟩ = .ok () ⟨s, .single id q'⟩ :=
  (bind_ok (writeMember_single id s .overwriteElement _ hq)).trans
    (writeMember_single id s .overwriteNeighbors _ hq')

end Transaction

section
variable {t : Header} {s : Store} (h : s.Intact t) {p : Page}
  (hp : s.pages[s.cursor.toNat]? = some p) {rs : List Record}
  (hrs : p.Carries t.dimensions.toNat rs) {i : Nat} {e : Element} {a : Adjacency}
  (hi : rs[i]? = some (.element e)) (hdeleted : e.deleted = true)
  (hentry : s.entry.map EntryPoint.location ≠ some ⟨s.cursor, UInt16.ofNat i⟩)
  (hfirst : ∀ j f, j < i → rs[j]? = some (.element f) → f.deleted = false)
  (hat : e.neighborsAt.page = s.cursor)
  (ha : rs[e.neighborsAt.slot.toNat]? = some (.adjacency a))
include h hp hrs hi hdeleted hentry hfirst hat ha

theorem allocate_reuses (size : PairSize) (hfull : p.freeSpace < size.element)
    (helement : size.element ≤ e.encode.size) (hneighbors : size.neighbors ≤ a.encode.size) :
    allocate size ⟨s, .empty⟩ =
      .ok ⟨0, 0, some ⟨i, e.neighborsAt.slot.toNat⟩, some s.cursor, s.cursor⟩
        ⟨s.locked s.cursor, .single s.cursor p⟩ := by
  have hget : (get : Transaction Work) ⟨s, .empty⟩ = .ok ⟨s, .empty⟩ ⟨s, .empty⟩ := rfl
  have hrestart : Transaction.restart ⟨s, .empty⟩ = .ok () ⟨s, .empty⟩ := rfl
  have hregister := register_empty s.cursor s p (h.lt_pageCount _ p hp) (h.isHeld_eq _) hp
  have hboth : ¬size.together ≤ p.freeSpace := by
    rw [PairSize.together]
    omega
  obtain ⟨rest, hlist⟩ := tombstones_first hrs s.entry s.cursor hi hdeleted hentry hfirst
  have hclaim : claimTombstone size 0 s.cursor p (⟨i, e.encode.size, e.neighborsAt⟩ :: rest)
      ⟨s.locked s.cursor, .single s.cursor p⟩ = .ok (some (0, ⟨i, e.neighborsAt.slot.toNat⟩))
        ⟨s.locked s.cursor, .single s.cursor p⟩ := by
    rw [claimTombstone, Transaction.bind_ok (Transaction.ofExcept_ok (hrs.spaceAfterFreeing_eq hi)),
      if_neg (by
        show ¬p.upper - p.lower + e.encode.size < size.element
        omega),
      if_pos hat, Transaction.bind_ok (Transaction.ofExcept_ok (hrs.spaceAfterFreeing_eq ha)),
      if_neg (by
        show ¬p.upper - p.lower + a.encode.size < size.neighbors + (size.element - e.encode.size)
        omega)]
    rfl
  rw [allocate, Transaction.bind_ok hget, probeFrom, Transaction.bind_ok hrestart,
    Transaction.bind_ok hregister, Transaction.bind_ok (Transaction.image_single _ p _),
    if_neg hboth, if_neg (fun hroom => by omega)]
  refine (Transaction.bind_ok (Transaction.ofExcept_ok hlist)).trans ?_
  refine (Transaction.bind_ok hclaim).trans ?_
  simp only [List.head?_cons, Option.map_some, Tombstone.of, hat]
  rfl

theorem storePair_reuses (d : Draft) (hd : d.vector.length = t.dimensions.toNat)
    (hfull : p.freeSpace < Element.encodedSize d.vector.length)
    (hlevel : (d.adjacency t.m.toNat).encode.size ≤ a.encode.size) :
    ∃ s', storePair d t.m.toNat s =
        .ok ⟨⟨s.cursor, UInt16.ofNat i⟩, e.neighborsAt, none⟩ s' ∧
      s'.pages.size = s.pages.size := by
  have hold : Record.Fits t.dimensions.toNat (.element e) :=
    hrs.fits _ (List.mem_of_getElem? hi)
  have hwidth : e.encode.size = Element.encodedSize d.vector.length := by
    rw [e.size_encode, hold.1, hd]
  have hnew : Record.Fits t.dimensions.toNat
      (.element { d.element with neighborsAt := e.neighborsAt }) :=
    ⟨hd, h.width, Element.packed_single d.level d.vector d.row⟩
  have hsize : { d.element with neighborsAt := e.neighborsAt : Element }.encode.size =
      Element.encodedSize d.vector.length := Element.size_encode _
  have hroom := hrs.holds.length_le
  have hpage : (d.adjacency t.m.toNat).encode.size ≤ pageSize := by
    have hsmall := Page.totalSize_set (rs.map Record.encode) e.neighborsAt.slot.toNat a.encode
      #[] (by rw [List.getElem?_map, ha]; rfl)
    rw [Array.size_empty] at hsmall
    omega
  obtain ⟨q, q', hq, hq'⟩ := hrs.replace_two hi ha hnew (Record.fits_adjacency _ _ hpage)
    (by rw [hsize, hwidth]; omega) (by rw [hsize, hwidth]; omega)
  have hallocate := allocate_reuses h hp hrs hi hdeleted hentry hfirst hat ha
    ⟨Element.encodedSize d.vector.length, (d.adjacency t.m.toNat).encode.size⟩ hfull
    (Nat.le_of_eq hwidth.symm) hlevel
  refine ⟨s.withPage s.cursor q', ?_, s.size_withPage _ _⟩
  refine transaction_commit _ s _ _ ⟨s.locked s.cursor, .single s.cursor q'⟩ ?_
    (Group.commit_single s.cursor q' p s hp)
  rw [placeAndWrite, Transaction.bind_ok hallocate,
    Transaction.bind_ok (Transaction.pageId_single _ p _),
    Transaction.bind_ok (Transaction.pageId_single _ p _),
    Transaction.bind_ok (Transaction.image_single _ p _),
    Transaction.bind_ok (Transaction.image_single _ p _)]
  have hslots : Placement.slots ⟨0, 0, some ⟨i, e.neighborsAt.slot.toNat⟩, some s.cursor, s.cursor⟩
      p p = (i, e.neighborsAt.slot.toNat) := rfl
  have hsame : (⟨s.cursor, UInt16.ofNat e.neighborsAt.slot.toNat⟩ : Location) = e.neighborsAt := by
    rw [UInt16.ofNat_toNat, ← hat]
  have hadvance : Placement.advance ⟨0, 0, some ⟨i, e.neighborsAt.slot.toNat⟩, some s.cursor,
      s.cursor⟩ s.cursor = none := if_neg fun hne => hne.1 rfl
  rw [hslots, hsame, hadvance]
  exact Transaction.bind_ok
    (Transaction.overwritePair_single s.cursor s.cursor (some s.cursor) (s.locked s.cursor)
      ⟨i, e.neighborsAt.slot.toNat⟩ hq hq')

end

theorem Page.Carries.freeSpace_eq {width : Nat} {p : Page} {rs : List Record}
    (h : p.Carries width rs) : p.freeSpace =
      pageSize - (16 + rs.length * 4 + Page.totalSize (rs.map Record.encode)) - Page.itemIdSize := by
  have hgap := h.holds.gap
  rw [List.length_map] at hgap
  rw [Page.freeSpace]
  omega

section
variable {t : Header} {s : Store} (h : s.Intact t) (hsize : s.pages.size = 2)
include h

include hsize in
theorem only_page : ∃ p rs, s.cursor = 1 ∧ s.pages[s.cursor.toNat]? = some p ∧
    p.Carries t.dimensions.toNat rs ∧ ∀ k : UInt16, s.record? ⟨1, k⟩ = rs[k.toNat]? := by
  have hpos := h.cursor_pos
  have hlt := h.cursor_lt
  have hone : s.cursor.toNat = 1 := by omega
  obtain ⟨p, hp⟩ : ∃ p, s.pages[1]? = some p := ⟨_, Array.getElem?_eq_getElem (by omega)⟩
  obtain ⟨rs, hrs⟩ := h.filled 1 p Nat.one_pos hp
  refine ⟨p, rs, UInt32.toNat_inj.mp hone, by rw [hone]; exact hp, hrs, fun k => ?_⟩
  rw [s.record?_of_page ⟨1, k⟩ p hp, hrs.record?_eq]

theorem sizes_of_element {l : Location} {e : Element} (he : s.record? l = some (.element e)) :
    e.encode.size = Element.encodedSize t.dimensions.toNat ∧
      ∃ a, s.record? e.neighborsAt = some (.adjacency a) ∧
        a.encode.size = Adjacency.encodedSize e.level.toNat t.m.toNat := by
  obtain ⟨hwidth, -, -⟩ := h.fits_of_record l _ he
  obtain ⟨a, ha, hlen⟩ := h.paired.resolves l e he
  refine ⟨?_, a, ha, ?_⟩
  · rw [e.size_encode, hwidth]
  · rw [a.size_encode, hlen, Adjacency.encodedSize]

include hsize

theorem storePair_second {f : Element}
    (helements : ∀ l e, s.record? l = some (.element e) ↔ l = ⟨1, 0⟩ ∧ e = f)
    (hat : f.neighborsAt = ⟨1, 1⟩) (d : Draft) (hd : d.vector.length = t.dimensions.toNat)
    (hroom : 2 * Element.encodedSize t.dimensions.toNat +
      Adjacency.encodedSize f.level.toNat t.m.toNat +
      Adjacency.encodedSize d.level.toNat t.m.toNat ≤ 8160) :
    ∃ s', storePair d t.m.toNat s = .ok ⟨⟨1, 2⟩, ⟨1, 3⟩, none⟩ s' ∧ s'.pages.size = 2 := by
  obtain ⟨p, rs, hcursor, hp, hrs, hslots⟩ := only_page h hsize
  have he := (helements ⟨1, 0⟩ f).mpr ⟨rfl, rfl⟩
  obtain ⟨helement, a, ha, hneighbors⟩ := sizes_of_element h he
  rw [hat] at ha
  -- Every record is an element or belongs to one, so there is nothing on the third slot.
  have hthird : s.record? ⟨1, 2⟩ = none := by
    cases hr : s.record? ⟨1, 2⟩ with
    | none => rfl
    | some r =>
      cases r with
      | element e => exact absurd ((helements _ e).mp hr).1 (by decide)
      | adjacency b =>
        obtain ⟨l, e, hl, howner⟩ := h.paired.owned _ b hr
        obtain ⟨-, rfl⟩ := (helements l e).mp hl
        rw [hat] at howner
        exact absurd howner (by decide)
  obtain rfl : rs = [.element f, .adjacency a] := by
    rw [hslots 0] at he
    rw [hslots 1] at ha
    rw [hslots 2] at hthird
    match rs, he, ha, hthird with
    | [_, _], rfl, rfl, _ => rfl
    | _ :: _ :: _ :: _, _, _, hthird => cases hthird
  have hcount := hrs.slotCount_eq
  have hfree := hrs.freeSpace_eq
  simp only [List.map_cons, List.map_nil, Record.encode, Page.totalSize, helement, hneighbors,
    List.length_cons, List.length_nil, pageSize, Page.itemIdSize] at hfree
  obtain ⟨s', -, hrun, hsize', -⟩ := storePair_fits h hp d hd (by
    rw [hd, d.size_adjacency, hfree, Page.itemIdSize]
    omega)
  rw [hcount, hcursor] at hrun
  exact ⟨s', hrun, hsize'.trans hsize⟩

section
variable {e f : Element} (he : s.record? ⟨1, 0⟩ = some (.element e)) (heat : e.neighborsAt = ⟨1, 1⟩)
  (hf : s.record? ⟨1, 2⟩ = some (.element f)) (hfat : f.neighborsAt = ⟨1, 3⟩)
  (hfull : 8156 < 3 * Element.encodedSize t.dimensions.toNat +
    Adjacency.encodedSize e.level.toNat t.m.toNat + Adjacency.encodedSize f.level.toNat t.m.toNat)
include he heat hf hfat hfull

theorem only_page_full : ∃ p rs, s.cursor = 1 ∧ s.pages[s.cursor.toNat]? = some p ∧
    p.Carries t.dimensions.toNat rs ∧ (∀ k : UInt16, s.record? ⟨1, k⟩ = rs[k.toNat]?) ∧
    p.freeSpace < Element.encodedSize t.dimensions.toNat := by
  obtain ⟨p, rs, hcursor, hp, hrs, hslots⟩ := only_page h hsize
  refine ⟨p, rs, hcursor, hp, hrs, hslots, ?_⟩
  obtain ⟨helement, a, ha, hneighbors⟩ := sizes_of_element h he
  obtain ⟨helement', b, hb, hneighbors'⟩ := sizes_of_element h hf
  rw [heat, hslots] at ha
  rw [hfat, hslots] at hb
  rw [hslots] at he hf
  have hfree := hrs.freeSpace_eq
  obtain ⟨rest, hrest⟩ : ∃ rest, rs = .element e :: .adjacency a :: .element f :: .adjacency b ::
      rest := by
    match rs, he, ha, hf, hb with
    | _ :: _ :: _ :: _ :: rest, rfl, rfl, rfl, rfl => exact ⟨rest, rfl⟩
  rw [hrest] at hfree
  simp only [List.map_cons, Record.encode, Page.totalSize, helement, hneighbors, helement',
    hneighbors', List.length_cons, pageSize, Page.itemIdSize] at hfree
  have hpos : 0 < e.encode.size := Page.Carries.size_pos (.element e)
  omega

/-- If there are two elements, then the next one takes the place of the first one that is deleted and
not the entry point, unless it fits the page beside them or is higher. -/
theorem storePair_reused {g : Element} {k : UInt16} (hg : s.record? ⟨1, k⟩ = some (.element g))
    (hgat : g.neighborsAt.page = 1) (hdeleted : g.deleted = true)
    (hfirst : ∀ (j : UInt16) (x : Element), j < k → s.record? ⟨1, j⟩ = some (.element x) →
      x.deleted = false)
    (hentry : s.entry.map EntryPoint.location ≠ some ⟨1, k⟩) (d : Draft)
    (hd : d.vector.length = t.dimensions.toNat) (hlevel : d.level ≤ g.level) :
    ∃ s', storePair d t.m.toNat s = .ok ⟨⟨1, k⟩, g.neighborsAt, none⟩ s' ∧ s'.pages.size = 2 := by
  obtain ⟨p, rs, hcursor, hp, hrs, hslots, hsmall⟩ := only_page_full h hsize he heat hf hfat hfull
  obtain ⟨-, c, hc, hneighborsAt⟩ := sizes_of_element h hg
  have hat : g.neighborsAt = ⟨1, g.neighborsAt.slot⟩ := by rw [← hgat]
  rw [hat, hslots] at hc
  rw [hslots] at hg
  rw [← hd] at hsmall
  have hlow : (d.adjacency t.m.toNat).encode.size ≤ c.encode.size := by
    rw [d.size_adjacency, hneighborsAt]
    have hslots := Nat.mul_le_mul_right t.m.toNat
      (Nat.add_le_add_right (UInt8.le_iff_toNat_le.mp hlevel) 2)
    simp only [Adjacency.encodedSize, Adjacency.slotCount, LittleEndian.align, Location.size]
    omega
  have hlive : ∀ j x, j < k.toNat → rs[j]? = some (.element x) → x.deleted = false := by
    intro j x hj hx
    have hlt : j < 65536 := Nat.lt_trans hj k.toNat_lt
    have hj' : (UInt16.ofNat j).toNat = j := UInt16.toNat_ofNat_of_lt hlt
    refine hfirst (UInt16.ofNat j) x (UInt16.lt_iff_toNat_lt.mpr (by rwa [hj'])) ?_
    rw [hslots, hj', hx]
  have hk : UInt16.ofNat k.toNat = k := UInt16.ofNat_toNat
  obtain ⟨s', hrun, hsize'⟩ := storePair_reuses h hp hrs hg hdeleted
    (by rw [hcursor, hk]; exact hentry) hlive (hgat.trans hcursor.symm) hc d hd hsmall hlow
  rw [hcursor, hk] at hrun
  exact ⟨s', hrun, hsize'.trans hsize⟩

end

end

theorem searchFrom_only {s : Store} {p : Params} {q : Query} {x : EntryPoint}
    {lists : List (List Candidate)} (h : s.searchFrom p q x = .ok lists) (hpos : 0 < p.m)
    (hlinks : s.Resolves) (honly : ∀ l e, s.record? l = some (.element e) → l = x.location)
    (hlive : s.Live x.location) (hq : q.exclude = none) (i : Nat) :
    (∀ c ∈ lists.getD i [], c.location = x.location) ∧
      (i ≤ q.level → i ≤ x.level.toNat → ∃ c, c ∈ lists.getD i []) := by
  constructor
  · intro c hc
    obtain ⟨f, hf, -⟩ := (Store.searchFrom_live p q x lists h).layer i c hc
    exact honly _ f hf
  · intro hi hlow
    obtain ⟨found, hfound, -, hchosen⟩ := Store.searchFrom_beams h
    have hclosed : ∀ (layer : Nat) (l k : Location), l = x.location → s.Link p.m layer l k →
        k = x.location := by
      rintro layer l k - ⟨f, a, -, ha, hk⟩
      obtain ⟨hused, j, -, hj⟩ := Adjacency.mem_layer.mp hk
      obtain ⟨g, hg⟩ := hlinks _ a ha k (List.mem_of_getElem? hj) hused
      exact honly k g hg
    obtain ⟨hin, hsome⟩ := beamsFrom_holds (P := fun _ l => l = x.location) hpos hclosed
      (fun _ _ => id) rfl hfound i
    obtain ⟨c, hc⟩ := hsome hlow
    rw [hchosen i hi]
    refine Store.choose_some hpos hc ?_ ?_
    · rw [hin c hc]
      exact hlive
    · rw [hq]
      exact (Option.some_ne_none _).symm

theorem mem_take_of_only {cs : List Candidate} {l : Location} (hall : ∀ c ∈ cs, c.location = l)
    (hsome : ∃ c, c ∈ cs) {n : Nat} (hn : 0 < n) : l ∈ (cs.map Candidate.location).take n := by
  obtain ⟨c, hc⟩ := hsome
  cases cs with
  | nil => cases hc
  | cons x rest =>
    cases n with
    | zero => exact absurd hn (Nat.lt_irrefl 0)
    | succ n =>
      rw [List.map_cons, List.take_succ_cons, hall x List.mem_cons_self]
      exact List.mem_cons_self

namespace Index

/-- An index for vectors so wide that two elements fill a page. -/
def wide : Index := ⟨Params.standard, 900, 64⟩

def plain (x : FloatBits) : Embedding := List.replicate 900 x

theorem full_wide : 8156 < 3 * Element.encodedSize (900 : UInt32).toNat +
    Adjacency.encodedSize (1 : UInt8).toNat (16 : UInt16).toNat +
    Adjacency.encodedSize (2 : UInt8).toNat (16 : UInt16).toNat := by decide

theorem plain_ne {x y : FloatBits} (h : x ≠ y) : plain x ≠ plain y := by
  intro heq
  rcases (List.replicate_inj.mp heq).2 with hnone | hsame
  · exact absurd hnone (by decide)
  · exact h hsame

theorem length_plain (x : FloatBits) : (plain x).length = 900 := List.length_replicate

theorem plain_cons (x : FloatBits) : plain x = x :: List.replicate 899 x := by
  rw [plain, List.replicate_succ]

theorem sumOver_plain {term : Float32 → Float32 → Float32} {x y : FloatBits}
    {total total' : Float32} (hfirst : total + term (Float32.ofBits x) (Float32.ofBits y) = total')
    (hrest : total' + term (Float32.ofBits x) (Float32.ofBits y) = total') :
    Embedding.sumOver term total (plain x) (plain y) = total' := by
  have hsame : ∀ n, Embedding.sumOver term total' (List.replicate n x) (List.replicate n y) =
      total' := by
    intro n
    induction n with
    | zero => rfl
    | succ n ih => rw [List.replicate_succ, List.replicate_succ, Embedding.sumOver, hrest, ih]
  rw [plain_cons, plain_cons, Embedding.sumOver, hfirst, hsame]

/-- The squares of the smallest numbers vanish, and with them these distances. -/
theorem euclidean_plain {x y : FloatBits} (hx : x ∈ [0, 1, 2]) (hy : y ∈ [0, 1, 2]) :
    Metric.euclidean.distance (plain x) (plain y) = 0 := by
  have hsquare : (Float32.ofBits x - Float32.ofBits y) * (Float32.ofBits x - Float32.ofBits y) =
      Float32.ofBits 0 := by
    simp only [List.mem_cons, List.not_mem_nil, or_false] at hx hy
    rcases hx with rfl | rfl | rfl <;> rcases hy with rfl | rfl | rfl <;> decide +kernel
  have hfirst : Embedding.negativeZero + Float32.ofBits 0 = Float32.ofBits 0 := by decide +kernel
  have hrest : Float32.ofBits 0 + Float32.ofBits 0 = Float32.ofBits 0 := by decide +kernel
  have hroot : (Float32.ofBits 0).sqrt.toBits = 0 := by decide +kernel
  have hsum : Embedding.sumOver (fun x y => (x - y) * (x - y)) Embedding.negativeZero (plain x)
      (plain y) = Float32.ofBits 0 :=
    sumOver_plain (by rw [hsquare, hfirst]) (by rw [hsquare, hrest])
  rw [Metric.distance, Embedding.euclideanDistance, hsum, hroot]

def first : Element := { (Draft.new 1 (plain 0) 7).element with neighborsAt := ⟨1, 1⟩ }

def second : Element := { (Draft.new 2 (plain 1) 8).element with neighborsAt := ⟨1, 3⟩ }

def third : Element := { (Draft.new 0 (plain 2) 9).element with neighborsAt := ⟨1, 1⟩ }

structure HasFirst (s : Store) : Prop where
  settled : Settled 900 Options.standard wide s
  size : s.pages.size = 2
  entry : s.entry = some ⟨⟨1, 0⟩, 1⟩
  elements : ∀ l e, s.record? l = some (.element e) ↔ l = ⟨1, 0⟩ ∧ e = first

/-- Both elements are in the file. The second one is the entry point and has a link to the first one,
whatever has become of that. -/
structure HasBoth (s : Store) (e : Element) : Prop where
  settled : Settled 900 Options.standard wide s
  size : s.pages.size = 2
  entry : s.entry = some ⟨⟨1, 2⟩, 2⟩
  elements : ∀ l f, s.record? l = some (.element f) ↔ l = ⟨1, 0⟩ ∧ f = e ∨ l = ⟨1, 2⟩ ∧ f = second
  link : s.Link 16 1 ⟨1, 2⟩ ⟨1, 0⟩

theorem checkOptions_wide : checkOptions 900 Options.standard = .ok Params.standard :=
  checkOptions_standard (by decide) (by decide)

theorem history_wide : History 900 Options.standard wide (Store.fresh (template 900 Options.standard)) :=
  .opened rfl (openFile_blank checkOptions_wide "index" .absent rfl)

theorem insert_wide {s s' : Store} {x : FloatBits} {row : RowId} {level : UInt8} {outcome : Outcome}
    (hlevel : level.toNat ≤ 2) (hfinite : FloatBits.isFinite x = true)
    (hrun : (overlapped Unit wide.params wide.searching .none
      (Draft.new level (plain x) row)).run (s, ()) = .ok outcome (s', ())) :
    insertAtLevel wide (some (plain x)) row level s = .ok outcome s' := by
  have hprepare : wide.prepare (plain x) = some (plain x) := if_neg (by decide)
  have hlevel' : level.toNat ≤ wide.params.maxLevel := Nat.le_trans hlevel (by decide +kernel)
  have hfinite' : ∀ y ∈ plain x, FloatBits.isFinite y = true := by
    intro y hy
    rw [plain] at hy
    rw [List.eq_of_mem_replicate hy]
    exact hfinite
  exact insertAtLevel_of_run wide row hlevel' (length_plain x) hfinite' hprepare hrun

theorem numbered_two {s : Store} (hsize : s.pages.size = 2) : s.Numbered := by
  rw [Store.Numbered, hsize]
  decide

theorem Settled.after_wide {s s' : Store} (h : Settled 900 Options.standard wide s) {x : FloatBits}
    {row : RowId} {level : UInt8} {outcome : Outcome}
    (hrun : insertAtLevel wide (some (plain x)) row level s = .ok outcome s')
    (hsize : s'.pages.size = 2) : Settled 900 Options.standard wide s' := by
  have hafter := Action.after_ok hrun
  have hinsert := h.insert (some (plain x)) row level (by rw [hafter]; exact numbered_two hsize)
  rwa [hafter] at hinsert

theorem Settled.hasBoth {s : Store} {e : Element} (h : Settled 900 Options.standard wide s)
    (hsize : s.pages.size = 2)
    (helements : ∀ l f, s.record? l = some (.element f) ↔
      l = ⟨1, 0⟩ ∧ f = e ∨ l = ⟨1, 2⟩ ∧ f = second)
    (hlow : e.level < 2) (hlink : s.Link 16 1 ⟨1, 2⟩ ⟨1, 0⟩) : HasBoth s e := by
  have hsecond := (helements ⟨1, 2⟩ second).mpr (.inr ⟨rfl, rfl⟩)
  refine ⟨h, hsize, h.navigable.entry_eq hsecond fun l f hf hl => ?_, helements, hlink⟩
  rcases (helements l f).mp hf with ⟨-, rfl⟩ | ⟨hat, -⟩
  · exact hlow
  · exact absurd hat hl

theorem first_completes_wide : ∃ s, HasFirst s ∧
    (insertion wide.params (layerSearch Unit wide.searching) (Draft.new 1 (plain 0) 7)).Completes
      (Store.fresh (template 900 Options.standard), ()) (.inserted ⟨1, 0⟩) (s, ()) := by
  have hblank : FileState.absent.isBlank = true := rfl
  have hsettled := settled_of_blank hblank (openFile_blank checkOptions_wide "index" .absent hblank)
  have hvector : (Draft.new 1 (plain 0) 7).vector.length = 900 := length_plain 0
  obtain ⟨s, hcompletes, -, hputs, hentry, hsize⟩ := first_pair hsettled.toOpened rfl
    (layerSearch Unit wide.searching) () (Draft.new 1 (plain 0) 7) hvector (Draft.neighbors_new _ _ _)
    (by
      rw [hvector, Draft.size_adjacency]
      decide)
  have hrun : (overlapped Unit wide.params wide.searching .none (Draft.new 1 (plain 0) 7)).run
      (Store.fresh (template 900 Options.standard), ()) = .ok (.inserted ⟨1, 0⟩) (s, ()) := by
    rw [overlapped_none]
    exact hcompletes.run
  refine ⟨s, ⟨hsettled.after_wide (insert_wide (by decide) (by decide) hrun) hsize, hsize, hentry, ?_⟩,
    hcompletes⟩
  intro l e
  rw [hputs l e, record?_fresh checkOptions_wide]
  by_cases hl : l = ⟨1, 0⟩
  · rw [if_pos hl]
    exact ⟨fun he => ⟨hl, he⟩, fun he => he.2⟩
  · rw [if_neg hl]
    exact ⟨fun he => (nomatch he), fun he => absurd he.1 hl⟩

theorem first_stored : ∃ s, HasFirst s ∧
    (overlapped Unit wide.params wide.searching .none (Draft.new 1 (plain 0) 7)).run
      (Store.fresh (template 900 Options.standard), ()) = .ok (.inserted ⟨1, 0⟩) (s, ()) := by
  obtain ⟨s, hfirst, hcompletes⟩ := first_completes_wide
  rw [overlapped_none]
  exact ⟨s, hfirst, hcompletes.run⟩

section
variable {s : Store} (h : HasFirst s)
include h

theorem HasFirst.live : s.Live ⟨1, 0⟩ := ⟨first, (h.elements _ _).mpr ⟨rfl, rfl⟩, rfl⟩

theorem HasFirst.vector_ne {x : FloatBits} (hx : x ≠ 0) (l : Location) (e : Element)
    (he : s.record? l = some (.element e)) : e.vector ≠ plain x := by
  obtain ⟨-, rfl⟩ := (h.elements l e).mp he
  exact plain_ne hx.symm

theorem HasFirst.searched (q : Query) :
    ∃ lists, s.searchFrom wide.searching q ⟨⟨1, 0⟩, 1⟩ = .ok lists := by
  have hfirst : s.record? (EntryPoint.mk ⟨1, 0⟩ 1).location = some (.element first) :=
    (h.elements _ _).mpr ⟨rfl, rfl⟩
  exact Store.searchFrom_ok h.settled.intact h.settled.navigable.links wide.searching q hfirst

theorem HasFirst.found {x : FloatBits} {level : Nat} {lists : List (List Candidate)}
    (hlists : s.searchFrom wide.searching ⟨plain x, level, none⟩ ⟨⟨1, 0⟩, 1⟩ = .ok lists) (i : Nat) :
    (∀ c ∈ lists.getD i [], c.location = ⟨1, 0⟩) ∧
      (i ≤ level → i ≤ 1 → ∃ c, c ∈ lists.getD i []) :=
  searchFrom_only hlists h.settled.searching_pos h.settled.navigable.links
    (fun l e he => ((h.elements l e).mp he).1) h.live rfl i

theorem HasFirst.room (d : Draft) (hd : d.vector.length = 900) (hlevel : d.level = 2) : ∃ s₁,
    storePair d (template 900 Options.standard).m.toNat s = .ok ⟨⟨1, 2⟩, ⟨1, 3⟩, none⟩ s₁ ∧
      s₁.pages.size = s.pages.size := by
  have hfits : 2 * Element.encodedSize (900 : UInt32).toNat +
      Adjacency.encodedSize (1 : UInt8).toNat (16 : UInt16).toNat +
      Adjacency.encodedSize (2 : UInt8).toNat (16 : UInt16).toNat ≤ 8160 := by decide
  rw [h.size]
  exact storePair_second h.settled.intact h.size h.elements rfl d hd (by rw [hlevel]; exact hfits)

theorem HasFirst.second_stored : ∃ s', HasBoth s' first ∧
    (overlapped Unit wide.params wide.searching .none (Draft.new 2 (plain 1) 8)).run (s, ()) =
      .ok (.inserted ⟨1, 2⟩) (s', ()) := by
  obtain ⟨lists, s₁, s', hfound, hrun, hplaced, hwoven, hsame⟩ := h.settled.stores 8
    (length_plain 1) h.entry (h.vector_ne (by decide)) fun lists =>
      h.room { Draft.new 2 (plain 1) 8 with neighbors := lists } (length_plain 1) rfl
  have hputs := Insertion.woven_puts h.settled.intact hplaced hwoven
  have helements : ∀ l f, s'.record? l = some (.element f) ↔
      l = ⟨1, 0⟩ ∧ f = first ∨ l = ⟨1, 2⟩ ∧ f = second := by
    intro l f
    rw [hputs l f]
    by_cases hl : l = ⟨1, 2⟩
    · subst hl
      rw [if_pos rfl]
      exact ⟨fun hf => .inr ⟨rfl, hf⟩, fun hf => hf.elim (fun hno => absurd hno.1 (by decide)) And.right⟩
    · rw [if_neg hl, h.elements]
      exact ⟨.inl, fun hf => hf.elim id fun hno => absurd hno.1 hl⟩
  have hsize : s'.pages.size = 2 := hsame.trans h.size
  have hsettled := h.settled.after_wide (insert_wide (by decide) (by decide) hrun) hsize
  refine ⟨s', hsettled.hasBoth hsize helements (by decide) ?_, hrun⟩
  obtain ⟨hall, hsome⟩ := h.found hfound 1
  refine (Insertion.woven_own h.settled.intact hplaced hwoven 1 _).mpr
    ⟨show 1 ≤ (2 : UInt8).toNat by decide, by decide, ?_⟩
  exact mem_take_of_only hall (hsome (by decide) (by decide)) (by decide)

end

section
variable {s : Store} {e : Element}

theorem HasBoth.atFirst (h : HasBoth s e) : s.record? ⟨1, 0⟩ = some (.element e) :=
  (h.elements _ _).mpr (.inl ⟨rfl, rfl⟩)

theorem HasBoth.atSecond (h : HasBoth s e) : s.record? ⟨1, 2⟩ = some (.element second) :=
  (h.elements _ _).mpr (.inr ⟨rfl, rfl⟩)

theorem HasBoth.delete (h : HasBoth s first) :
    HasBoth ((markDeleted ⟨1, 0⟩).after s) first.tombstone := by
  have hsettled := h.settled.delete ⟨1, 0⟩
  obtain ⟨s', hrun, -, hrew⟩ := markDeleted_live h.settled.intact ⟨1, 0⟩ first h.atFirst rfl
  have hafter := Action.after_ok hrun
  rw [hafter] at hsettled ⊢
  refine ⟨hsettled, hrew.size.trans h.size, hrew.entry.trans h.entry, fun l f => ?_, ?_⟩
  · rw [hrew.puts l f]
    by_cases hl : l = ⟨1, 0⟩
    · subst hl
      rw [if_pos rfl]
      exact ⟨fun hf => .inl ⟨rfl, hf⟩, fun hf => hf.elim And.right fun hno => absurd hno.1 (by decide)⟩
    · rw [if_neg hl, h.elements]
      exact ⟨fun hf => hf.elim (fun hno => absurd hno.1 hl) .inr,
        fun hf => hf.elim (fun hno => absurd hno.1 hl) .inr⟩
  · exact (hrew.link h.atFirst ⟨rfl, rfl⟩ 16 1 _ _).mpr h.link

theorem HasBoth.room (h : HasBoth s first.tombstone) (d : Draft) (hd : d.vector.length = 900)
    (hlevel : d.level = 0) : ∃ s',
      storePair d (template 900 Options.standard).m.toNat s = .ok ⟨⟨1, 0⟩, ⟨1, 1⟩, none⟩ s' ∧
        s'.pages.size = s.pages.size := by
  have hentry : s.entry.map EntryPoint.location ≠ some ⟨1, 0⟩ := by
    rw [h.entry]
    decide
  rw [h.size]
  exact storePair_reused h.settled.intact h.size h.atFirst rfl h.atSecond rfl full_wide h.atFirst rfl
    rfl (fun j x hj => absurd hj (UInt16.not_lt.mpr (UInt16.zero_le))) hentry d hd
    (by rw [hlevel]; decide)

theorem HasBoth.third_stored (h : HasBoth s first.tombstone) : ∃ s', HasBoth s' third ∧
    (overlapped Unit wide.params wide.searching .none (Draft.new 0 (plain 2) 9)).run (s, ()) =
      .ok (.inserted ⟨1, 0⟩) (s', ()) := by
  have hnew : ∀ l f, s.record? l = some (.element f) → f.vector ≠ plain 2 := by
    intro l f hf
    rcases (h.elements l f).mp hf with ⟨-, rfl⟩ | ⟨-, rfl⟩
    · exact plain_ne (by decide)
    · exact plain_ne (by decide)
  obtain ⟨lists, s₁, s', -, hrun, hplaced, hwoven, hsame⟩ := h.settled.stores 9 (length_plain 2)
    h.entry hnew fun lists => h.room { Draft.new 0 (plain 2) 9 with neighbors := lists }
      (length_plain 2) rfl
  have hputs := Insertion.woven_puts h.settled.intact hplaced hwoven
  have helements : ∀ l f, s'.record? l = some (.element f) ↔
      l = ⟨1, 0⟩ ∧ f = third ∨ l = ⟨1, 2⟩ ∧ f = second := by
    intro l f
    rw [hputs l f]
    by_cases hl : l = ⟨1, 0⟩
    · subst hl
      rw [if_pos rfl]
      exact ⟨fun hf => .inl ⟨rfl, hf⟩, fun hf => hf.elim And.right fun hno => absurd hno.1 (by decide)⟩
    · rw [if_neg hl, h.elements]
      exact ⟨fun hf => hf.elim (fun hno => absurd hno.1 hl) .inr,
        fun hf => hf.elim (fun hno => absurd hno.1 hl) .inr⟩
  have hsize : s'.pages.size = 2 := hsame.trans h.size
  have hsettled := h.settled.after_wide (insert_wide (by decide) (by decide) hrun) hsize
  exact ⟨s', hsettled.hasBoth hsize helements (by decide) ((Insertion.woven_above h.settled.intact
    hplaced hwoven (show (0 : UInt8).toNat < 1 by decide) (by decide) _).mpr h.link), hrun⟩

end

/-- Three insertions and a deletion. The last element lies where the first one was, on a lower level,
and the second one has a link there on a layer that it does not reach. -/
theorem recycled : ∃ s₁ s₂ s₃,
    insertAtLevel wide (some (plain 0)) 7 1 (Store.fresh (template 900 Options.standard)) =
      .ok (.inserted ⟨1, 0⟩) s₁ ∧
    insertAtLevel wide (some (plain 1)) 8 2 s₁ = .ok (.inserted ⟨1, 2⟩) s₂ ∧
    insertAtLevel wide (some (plain 2)) 9 0 ((markDeleted ⟨1, 0⟩).after s₂) =
      .ok (.inserted ⟨1, 0⟩) s₃ ∧
    (s₁.Numbered ∧ s₂.Numbered ∧ s₃.Numbered) ∧ s₃.Link 16 1 ⟨1, 2⟩ ⟨1, 0⟩ ∧
    s₃.element ⟨1, 2⟩ = .ok second ∧
    s₃.element ⟨1, 0⟩ = .ok { (Draft.new 0 (plain 2) 9).element with neighborsAt := ⟨1, 1⟩ } := by
  obtain ⟨s₁, hfirst, hrun₁⟩ := first_stored
  obtain ⟨s₂, hboth, hrun₂⟩ := hfirst.second_stored
  obtain ⟨s₃, hreused, hrun₃⟩ := hboth.delete.third_stored
  exact ⟨s₁, s₂, s₃, insert_wide (by decide) (by decide) hrun₁,
    insert_wide (by decide) (by decide) hrun₂, insert_wide (by decide) (by decide) hrun₃,
    ⟨numbered_two hfirst.size, numbered_two hboth.size, numbered_two hreused.size⟩, hreused.link,
    (s₃.element_eq_ok _ _).mpr hreused.atSecond, (s₃.element_eq_ok _ _).mpr hreused.atFirst⟩

end Index

end PagedGraph
