import PagedGraph.Proofs.Room
import PagedGraph.Proofs.RowLists

/-!
# Storing a pair of records

`storePair` either leaves the store exactly as it was, or it puts an element and its neighbor
record at two locations and changes nothing else: each of the two either was free or belonged to
one deleted pair that gives way as a whole.
-/

set_option autoImplicit false

namespace PagedGraph

namespace Store

variable {width : Nat} {s s' : Store} {l : Location} {r : Record}

structure PutAt (width : Nat) (s s' : Store) (l : Location) (r : Record) : Prop where
  filled : s'.Filled width
  record : s'.record? = putRecord s.record? l r
  page : ∃ p q, 0 < l.page.toNat ∧ s.pages[l.page.toNat]? = some p ∧
    s' = s.withPage l.page q ∧ p.SameHead q

namespace PutAt

theorem headerPage (h : PutAt width s s' l r) : s'.headerPage = s.headerPage := by
  obtain ⟨p, q, hpos, hp, rfl, -⟩ := h.page
  exact Formed.headerPage_withPage l.page p q hpos hp

theorem header (h : PutAt width s s' l r) : s'.header = s.header := by
  rw [Store.header, Store.header, h.headerPage]

theorem size (h : PutAt width s s' l r) : s'.pages.size = s.pages.size := by
  obtain ⟨p, q, -, -, rfl, -⟩ := h.page
  exact s.size_withPage l.page q

theorem page_at (h : PutAt width s s' l r) {i : Nat} {p : Page} (hp : s.pages[i]? = some p) :
    ∃ q, s'.pages[i]? = some q ∧ p.SameHead q ∧ (i ≠ l.page.toNat → q = p) := by
  obtain ⟨p', q, -, hp', rfl, hhead⟩ := h.page
  rw [getElem?_withPage _ _ _ _ _ hp']
  by_cases hi : i = l.page.toNat
  · subst hi
    obtain rfl : p = p' := Option.some.inj (hp.symm.trans hp')
    exact ⟨q, if_pos rfl, hhead, fun hne => absurd rfl hne⟩
  · exact ⟨p, (if_neg hi).trans hp, .refl p, fun _ => rfl⟩

theorem formed {t : Header} (h : PutAt t.dimensions.toNat s s' l r) (hs : s.Formed t) :
    s'.Formed t := by
  have hfilled := h.filled
  obtain ⟨p, q, hpos, hp, rfl, hhead⟩ := h.page
  obtain ⟨rs, hrs⟩ := hfilled l.page.toNat q hpos
    (by rw [getElem?_withPage _ _ _ _ _ hp, if_pos rfl])
  exact hs.withPage l.page p q rs hpos hp hrs hhead.next

end PutAt

namespace Filled

theorem putAt (h : s.Filled width) {p q : Page} {rs rs' : List Record} (hpos : 0 < l.page.toNat)
    (hp : s.pages[l.page.toNat]? = some p) (hrs : p.Carries width rs) (hq : q.Carries width rs')
    (hslot : rs'[l.slot.toNat]? = some r) (hother : ∀ k, k ≠ l.slot.toNat → rs'[k]? = rs[k]?)
    (hhead : p.SameHead q) : PutAt width s (s.withPage l.page q) l r where
  filled := by
    intro i p' hi hp'
    rw [getElem?_withPage _ _ _ _ _ hp] at hp'
    by_cases hii : i = l.page.toNat
    · rw [if_pos hii] at hp'
      exact ⟨rs', by rwa [← Option.some.inj hp']⟩
    · rw [if_neg hii] at hp'
      exact h i p' hi hp'
  record := s.record?_put l p q rs rs' r hp hrs hq hslot hother
  page := ⟨p, q, hpos, hp, rfl, hhead⟩

theorem addRecord (h : s.Filled width) (id : PageId) (p q : Page) (r : Record) (hid : 0 < id.toNat)
    (hp : s.pages[id.toNat]? = some p) (hq : (p.addItem r.encode).map Prod.snd = .ok q)
    (hr : r.encode.size ≤ pageSize → r.Fits width) :
    PutAt width s (s.withPage id q) ⟨id, UInt16.ofNat p.slotCount⟩ r ∧
      s.record? ⟨id, UInt16.ofNat p.slotCount⟩ = none ∧ q.slotCount = p.slotCount + 1 := by
  obtain ⟨rs, hrs⟩ := h id.toNat p hid hp
  cases hadd : p.addItem r.encode with
  | error e =>
    rw [hadd] at hq
    cases hq
  | ok result =>
    obtain ⟨slot, page⟩ := result
    rw [hadd] at hq
    obtain rfl : page = q := Except.ok.inj hq
    have hhead := (Page.added_of_addItem hadd).sameHead
    obtain ⟨rfl, hsize, hcarries⟩ := hrs.of_addItem r hadd
    obtain ⟨hcarries, -⟩ := hcarries (hr hsize)
    have hcount := hrs.slotCount_eq
    have hslot : (UInt16.ofNat p.slotCount).toNat = rs.length := by
      rw [hcount, UInt16.toNat_ofNat', Nat.mod_eq_of_lt hrs.length_lt]
    refine ⟨h.putAt (l := ⟨id, UInt16.ofNat p.slotCount⟩) hid hp hrs hcarries ?_ ?_ hhead, ?_, ?_⟩
    · show (rs ++ [r])[(UInt16.ofNat p.slotCount).toNat]? = some r
      rw [hslot, List.getElem?_append_right (Nat.le_refl _), Nat.sub_self]
      rfl
    · intro k hk
      have hk' : k ≠ rs.length := by rwa [← hslot]
      rcases Nat.lt_or_gt_of_ne hk' with hlt' | hgt
      · exact List.getElem?_append_left hlt'
      · rw [List.getElem?_append_right (Nat.le_of_lt hgt), List.getElem?_eq_none,
          List.getElem?_eq_none (Nat.le_of_lt hgt)]
        rw [List.length_singleton]
        omega
    · rw [s.record?_of_page ⟨id, UInt16.ofNat p.slotCount⟩ p hp, hrs.record?_eq]
      show rs[(UInt16.ofNat p.slotCount).toNat]? = none
      rw [hslot]
      exact List.getElem?_eq_none (Nat.le_refl _)
    · rw [hcarries.slotCount_eq, List.length_append, hcount]
      rfl

theorem overwriteRecord (h : s.Filled width) (l : Location) (p q : Page) (r r' : Record)
    (hpos : 0 < l.page.toNat) (hl : s.record? l = some r) (hp : s.pages[l.page.toNat]? = some p)
    (hq : p.overwriteItem l.slot.toNat r'.encode = .ok q)
    (hr : r'.encode.size ≤ pageSize → r'.Fits width) :
    PutAt width s (s.withPage l.page q) l r' := by
  obtain ⟨rs, hrs⟩ := h l.page.toNat p hpos hp
  have hslot : rs[l.slot.toNat]? = some r := by
    rw [← hrs.record?_eq, ← s.record?_of_page l p hp, hl]
  have hlt : l.slot.toNat < rs.length := (List.getElem?_eq_some_iff.mp hslot).1
  have hhead := hrs.holds.sameHead_overwriteItem (by rw [List.getElem?_map, hslot]; rfl) hq
  obtain ⟨hsize, hcarries⟩ := hrs.of_overwriteItem r r' hslot hq
  exact h.putAt hpos hp hrs (hcarries (hr hsize)).1 (List.getElem?_set_self hlt)
    (fun k hk => List.getElem?_set_ne (Ne.symm hk)) hhead

end Filled

end Store

theorem putRecord_comm (M : Location → Option Record) {k l : Location} (a b : Record)
    (hkl : k ≠ l) : putRecord (putRecord M k a) l b = putRecord (putRecord M l b) k a := by
  funext j
  by_cases hj : j = l
  · subst hj
    rw [putRecord_self, putRecord_of_ne _ _ hkl.symm, putRecord_self]
  · rw [putRecord_of_ne _ _ hj]
    by_cases hjk : j = k
    · subst hjk
      rw [putRecord_self, putRecord_self]
    · rw [putRecord_of_ne _ _ hjk, putRecord_of_ne _ _ hjk, putRecord_of_ne _ _ hj]

theorem ensures_writeMember {s v : Store} {w : Work} (hw : Staged s w v) {handle : Nat}
    {m : Member} (hm : w.group.members[handle]? = some m) (what : PairWrite)
    (write : Page → Except Error Page) :
    Transaction.Ensures s (writeMember handle what write) w fun _ w' => ∃ q,
      write m.image = .ok q ∧ Staged s w' (v.withPage m.id q) ∧
      ∀ k, w'.group.members[k]? = if k = handle then some ⟨m.id, q⟩ else w.group.members[k]? := by
  rw [writeMember]
  apply (Transaction.ensures_image hm).bind
  intro image w₁ himage
  rw [himage.1, himage.2]
  apply (Transaction.ensures_ofExcept hw.tidy _).bind
  intro q w₂ hq
  rw [hq.2]
  obtain ⟨hset, hget⟩ := hw.setImage q hm
  show ∃ q', _ ∧ Staged s _ _ ∧ _
  refine ⟨q, ?_, hset, hget⟩
  have hok := hq.1
  cases hwrite : write m.image with
  | error e =>
    rw [hwrite] at hok
    cases hok
  | ok q' =>
    rw [hwrite] at hok
    exact congrArg Except.ok (Except.ok.inj hok)

/-- A pair of records has been put at two locations that were free, or that belonged to a deleted
pair. Everything else is as it was. -/
structure PairPut (s s' : Store) (l k : Location) (e : Element) (a : Adjacency) : Prop where
  ne : l ≠ k
  record : s'.record? = putRecord (putRecord s.record? k (.adjacency a)) l (.element e)
  old : s.record? l = none ∧ s.record? k = none ∨
    ∃ f, s.record? l = some (.element f) ∧ f.deleted = true ∧ f.neighborsAt = k ∧
      s.entry.map EntryPoint.location ≠ some l
  header : s'.header = s.header

/-- From the store `v` the two records have been put in their slots, one after the other. With regard
to `s` the slots are new or those of a deleted pair. -/
structure PairWritten (width : Nat) (s v v' : Store) (l k : Location) (e : Element)
    (a : Adjacency) : Prop where
  ne : l ≠ k
  puts : ∃ v₁, v.PutAt width v₁ l (.element e) ∧ v₁.PutAt width v' k (.adjacency a)
  old : s.record? l = none ∧ s.record? k = none ∨
    ∃ f, s.record? l = some (.element f) ∧ f.deleted = true ∧ f.neighborsAt = k ∧
      s.entry.map EntryPoint.location ≠ some l

theorem PairWritten.put {width : Nat} {s v v' : Store} {l k : Location} {e : Element}
    {a : Adjacency} (h : PairWritten width s v v' l k e a) (hrecord : v.record? = s.record?)
    (hheader : v.header = s.header) : PairPut s v' l k e a := by
  obtain ⟨v₁, hl, hk⟩ := h.puts
  refine ⟨h.ne, ?_, h.old, by rw [hk.header, hl.header, hheader]⟩
  rw [hk.record, hl.record, hrecord, putRecord_comm _ _ _ h.ne]

theorem PairWritten.formed {t : Header} {s v v' : Store} {l k : Location} {e : Element}
    {a : Adjacency} (h : PairWritten t.dimensions.toNat s v v' l k e a) (hv : v.Formed t) :
    v'.Formed t := by
  obtain ⟨v₁, hl, hk⟩ := h.puts
  exact hk.formed (hl.formed hv)

theorem PairPut.intact {t : Header} {s s' : Store} {l k : Location} {e : Element} {a : Adjacency}
    (hput : PairPut s s' l k e a) (h : s.Intact t) (hs' : s'.Formed t) (hat : e.neighborsAt = k)
    (hlen : a.slots.length = Adjacency.slotCount e.level.toNat t.m.toNat) : s'.Intact t where
  toFormed := hs'
  paired := by
    rw [hput.record]
    refine h.paired.place hput.ne hat hlen ?_
    rcases hput.old with hfree | ⟨f, hf, -, hfk, -⟩
    · exact .inl hfree
    · exact .inr ⟨f, hf, hfk⟩

theorem Draft.length_adjacency (d : Draft) (m : Nat) :
    (d.adjacency m).slots.length = Adjacency.slotCount d.level.toNat m :=
  Adjacency.length_filledFrom m _ d.level.toNat

theorem Record.fits_adjacency (width : Nat) (a : Adjacency)
    (hsize : (Record.adjacency a).encode.size ≤ pageSize) :
    Record.Fits width (.adjacency a) := by
  have hle := LittleEndian.align_le (Adjacency.headerSize + a.slots.length * Location.size)
  have hs : a.encode.size ≤ 8192 := hsize
  have hl : Location.size = 6 := rfl
  rw [a.size_encode, hl] at hs
  rw [hl] at hle
  show a.slots.length ≤ 65535
  omega

section
variable {t : Header} {s v : Store} {w : Work} {place : Placement} {m k : Member}
  (hroom : Room t s w place v m k) {e : Element} (a : Adjacency)
  (he : Record.Fits t.dimensions.toNat (.element e))
include hroom he

theorem ensures_addPair (hnew : place.reuse = none) :
    Transaction.Ensures s
      (writePair place (place.slots m.image k.image) e.encode a.encode) w fun _ w' => ∃ v',
        Staged s w' v' ∧ v'.pages.size = v.pages.size ∧
          (v.Filled t.dimensions.toNat → v.record? = s.record? →
            PairWritten t.dimensions.toNat s v v'
              ⟨m.id, UInt16.ofNat (place.slots m.image k.image).1⟩
              ⟨k.id, UInt16.ofNat (place.slots m.image k.image).2⟩ e a) := by
  rw [writePair, hnew]
  apply (ensures_writeMember hroom.staged hroom.element _ _).bind
  rintro _ w₁ ⟨q₁, hq₁, hw₁, hget₁⟩
  -- The page of the neighbor record may be the one that has just been written.
  obtain ⟨k₁, hk₁, hid₁, hcase⟩ : ∃ k₁ : Member, w₁.group.members[place.neighborPage]? = some k₁ ∧
      k₁.id = k.id ∧ (place.neighborPage = place.elementPage ∧ m = k ∧ k₁.image = q₁ ∨
        place.neighborPage ≠ place.elementPage ∧ k₁.image = k.image) := by
    by_cases hsame : place.neighborPage = place.elementPage
    · have hmk : m = k := by
        apply Option.some.inj
        rw [← hroom.element, ← hroom.neighbors, hsame]
      exact ⟨⟨m.id, q₁⟩, by rw [hget₁, if_pos hsame], by rw [hmk], .inl ⟨hsame, hmk, rfl⟩⟩
    · exact ⟨k, by rw [hget₁, if_neg hsame, hroom.neighbors], rfl, .inr ⟨hsame, rfl⟩⟩
  apply (ensures_writeMember hw₁ hk₁ _ _).mono
  rintro _ w₂ ⟨q₂, hq₂, hw₂, -⟩
  refine ⟨_, hw₂, by rw [Store.size_withPage, Store.size_withPage], fun hfilled hrecord => ?_⟩
  obtain ⟨hput₁, hfree₁, hcount₁⟩ := hfilled.addRecord m.id m.image q₁ (.element e)
    hroom.element_pos (hroom.staged.image_eq hroom.element) hq₁ fun _ => he
  have hkpos : 0 < k₁.id.toNat := by
    rw [hid₁]
    exact hroom.neighbors_pos
  obtain ⟨hput₂, hfree₂, -⟩ := hput₁.filled.addRecord k₁.id k₁.image q₂ (.adjacency a) hkpos
    (hw₁.image_eq hk₁) hq₂ (Record.fits_adjacency _ a)
  have hslots₁ : (place.slots m.image k.image).1 = m.image.slotCount := by
    rw [Placement.slots, hnew]
  have hslots₂ : (place.slots m.image k.image).2 = k₁.image.slotCount := by
    simp only [Placement.slots, hnew]
    rcases hcase with ⟨hsame, -, himage⟩ | ⟨hdiff, himage⟩
    · rw [if_pos hsame, himage, hcount₁]
    · rw [if_neg hdiff, himage]
  rw [hslots₁, hslots₂, ← hid₁]
  have hne : (⟨m.id, UInt16.ofNat m.image.slotCount⟩ : Location) ≠
      ⟨k₁.id, UInt16.ofNat k₁.image.slotCount⟩ := by
    intro heq
    rw [← heq, hput₁.record, putRecord_self] at hfree₂
    cases hfree₂
  rw [hput₁.record, putRecord_of_ne _ _ hne.symm, hrecord] at hfree₂
  rw [hrecord] at hfree₁
  exact ⟨hne, ⟨_, hput₁, hput₂⟩, .inl ⟨hfree₁, hfree₂⟩⟩

theorem ensures_overwritePair (h : s.Intact t) (r : Reuse) (hreuse : place.reuse = some r) :
    Transaction.Ensures s
      (writePair place (place.slots m.image k.image) e.encode a.encode) w fun _ w' => ∃ v',
        Staged s w' v' ∧ v'.pages.size = v.pages.size ∧
          (v.Filled t.dimensions.toNat → v.record? = s.record? →
            PairWritten t.dimensions.toNat s v v'
              ⟨m.id, UInt16.ofNat (place.slots m.image k.image).1⟩
              ⟨k.id, UInt16.ofNat (place.slots m.image k.image).2⟩ e a) := by
  have hslots : place.slots m.image k.image = (r.elementSlot, r.neighborSlot) := by
    rw [Placement.slots, hreuse]
  obtain ⟨f, hf⟩ := hroom.reuse r hreuse
  obtain ⟨b, hb, -⟩ := h.paired.resolves _ f hf.element
  have hne : (⟨m.id, UInt16.ofNat r.elementSlot⟩ : Location) ≠
      ⟨k.id, UInt16.ofNat r.neighborSlot⟩ := by
    intro heq
    rw [hf.at_, ← heq, hf.element] at hb
    cases hb
  rw [hslots, writePair, hreuse]
  apply (ensures_writeMember hroom.staged hroom.element _ _).bind
  rintro _ w₁ ⟨q₁, hq₁, hw₁, hget₁⟩
  obtain ⟨k₁, hk₁, hid₁⟩ : ∃ k₁ : Member, w₁.group.members[place.neighborPage]? = some k₁ ∧
      k₁.id = k.id := by
    by_cases hsame : place.neighborPage = place.elementPage
    · have hmk : m = k := by
        apply Option.some.inj
        rw [← hroom.element, ← hroom.neighbors, hsame]
      exact ⟨⟨m.id, q₁⟩, by rw [hget₁, if_pos hsame], by rw [hmk]⟩
    · exact ⟨k, by rw [hget₁, if_neg hsame, hroom.neighbors], rfl⟩
  apply (ensures_writeMember hw₁ hk₁ _ _).mono
  rintro _ w₂ ⟨q₂, hq₂, hw₂, -⟩
  refine ⟨_, hw₂, by rw [Store.size_withPage, Store.size_withPage], fun hfilled hrecord => ?_⟩
  have hslot₁ : (UInt16.ofNat r.elementSlot).toNat = r.elementSlot := by
    rw [UInt16.toNat_ofNat', Nat.mod_eq_of_lt hf.elementSlot_lt]
  have hslot₂ : (UInt16.ofNat r.neighborSlot).toNat = r.neighborSlot := by
    rw [UInt16.toNat_ofNat', Nat.mod_eq_of_lt hf.neighborSlot_lt]
  have hput₁ := hfilled.overwriteRecord ⟨m.id, UInt16.ofNat r.elementSlot⟩ m.image q₁ (.element f)
    (.element e) hroom.element_pos (by rw [hrecord]; exact hf.element)
    (hroom.staged.image_eq hroom.element) (by rw [hslot₁]; exact hq₁) fun _ => he
  have hp₁ := hw₁.image_eq hk₁
  rw [hid₁] at hp₁ ⊢
  have hput₂ := hput₁.filled.overwriteRecord ⟨k.id, UInt16.ofNat r.neighborSlot⟩ k₁.image q₂
    (.adjacency b) (.adjacency a) hroom.neighbors_pos
    (by rw [hput₁.record, putRecord_of_ne _ _ hne.symm, hrecord, ← hf.at_]; exact hb) hp₁
    (by rw [hslot₂]; exact hq₂) (Record.fits_adjacency _ a)
  exact ⟨hne, ⟨_, hput₁, hput₂⟩, .inr ⟨f, hf.element, hf.deleted, hf.at_, hf.not_entry⟩⟩

end

section
variable {t : Header} {s : Store} (h : s.Intact t) (d : Draft)
  (hd : d.vector.length = t.dimensions.toNat)
include h hd

structure Placed (t : Header) (s s' : Store) (d : Draft) (st : Stored) : Prop where
  intact : s'.Intact t
  put : PairPut s s' st.location st.neighborsAt
    { d.element with neighborsAt := st.neighborsAt } (d.adjacency t.m.toNat)
  cursor : ∀ id, st.cursor = some id → 0 < id.toNat ∧ id.toNat < s'.pages.size

/-- How a draft comes to be stored: room is found, and a commit then would lead to `v`; the two
records are written, and the commit leads to `s'`. -/
structure Storing (t : Header) (s v s' : Store) (d : Draft) (st : Stored) : Prop where
  found : ∃ place w m k, allocate
    ⟨Element.encodedSize d.vector.length, (d.adjacency t.m.toNat).encode.size⟩ ⟨s, .empty⟩ =
      .ok place w ∧ Room t s w place v m k
  size : s'.pages.size = v.pages.size
  written : v.Filled t.dimensions.toNat → v.record? = s.record? →
    PairWritten t.dimensions.toNat s v s' st.location st.neighborsAt
      { d.element with neighborsAt := st.neighborsAt } (d.adjacency t.m.toNat)
  cursor : ∀ id, st.cursor = some id → 0 < id.toNat ∧ id.toNat < s'.pages.size

omit hd in
theorem Storing.placed {v s' : Store} {st : Stored} (hstoring : Storing t s v s' d st)
    (hsize : s'.pages.size ≤ 4294967295) : Placed t s s' d st := by
  obtain ⟨place, w, m, k, -, hroom⟩ := hstoring.found
  rw [hstoring.size] at hsize
  obtain ⟨hformed, hrecord, hheader⟩ := hroom.formed hsize
  have hwritten := hstoring.written hformed.filled hrecord
  have hput := hwritten.put hrecord hheader
  exact ⟨hput.intact h (hwritten.formed hformed) rfl (d.length_adjacency _), hput,
    hstoring.cursor⟩

theorem ensures_placeAndWrite : Transaction.Ensures s (placeAndWrite d t.m.toNat) ⟨s, .empty⟩
    fun ending w' => ∃ st s', ending = Ending.commit st ∧ Staged s w' s' ∧
      ∃ v, Storing t s v s' d st := by
  rw [placeAndWrite]
  apply (ensures_allocate h _).returns.bind
  rintro place w ⟨hfound, v, m, k, hroom⟩
  apply (Transaction.ensures_pageId hroom.element).bind
  intro elementId w₁ h₁
  rw [h₁.1, h₁.2]
  apply (Transaction.ensures_pageId hroom.neighbors).bind
  intro neighborId w₂ h₂
  rw [h₂.1, h₂.2]
  apply (Transaction.ensures_image hroom.element).bind
  intro elementImage w₃ h₃
  rw [h₃.1, h₃.2]
  apply (Transaction.ensures_image hroom.neighbors).bind
  intro neighborImage w₄ h₄
  rw [h₄.1, h₄.2]
  have hfits : Record.Fits t.dimensions.toNat (.element { d.element with
      neighborsAt := ⟨k.id, UInt16.ofNat (place.slots m.image k.image).2⟩ }) :=
    ⟨hd, h.width, Element.packed_single d.level d.vector d.row⟩
  have hwrite : Transaction.Ensures s (writePair place (place.slots m.image k.image)
      { d.element with
        neighborsAt := ⟨k.id, UInt16.ofNat (place.slots m.image k.image).2⟩ }.encode
      (d.adjacency t.m.toNat).encode) w fun _ w' => ∃ v',
        Staged s w' v' ∧ v'.pages.size = v.pages.size ∧
          (v.Filled t.dimensions.toNat → v.record? = s.record? →
            PairWritten t.dimensions.toNat s v v'
              ⟨m.id, UInt16.ofNat (place.slots m.image k.image).1⟩
              ⟨k.id, UInt16.ofNat (place.slots m.image k.image).2⟩ { d.element with
                neighborsAt := ⟨k.id, UInt16.ofNat (place.slots m.image k.image).2⟩ }
              (d.adjacency t.m.toNat)) := by
    cases hreuse : place.reuse with
    | none => exact ensures_addPair hroom _ hfits hreuse
    | some r => exact ensures_overwritePair hroom _ hfits h r hreuse
  apply hwrite.bind
  rintro _ w' ⟨v', hw', hsize, hwritten⟩
  refine Transaction.Ensures.pure
    ⟨_, v', rfl, hw', v, ⟨place, w, m, k, hfound, hroom⟩, hsize, hwritten, ?_⟩
  intro id hid
  rw [Placement.advance] at hid
  split at hid
  · obtain rfl : k.id = id := Option.some.inj hid
    rw [hsize]
    exact ⟨hroom.neighbors_pos, hroom.staged.member_lt k
      (Array.mem_toList_iff.mpr (Array.mem_of_getElem? hroom.neighbors))⟩
  · cases hid

theorem storePair_storing :
    (∃ c, storePair d t.m.toNat s = .error c s) ∨ ∃ st s', storePair d t.m.toNat s = .ok st s' ∧
      s.pages.size ≤ s'.pages.size ∧ s'.held = s.held ∧ ∃ v, Storing t s v s' d st := by
  have hbody := ensures_placeAndWrite h d hd
  unfold Transaction.Ensures at hbody
  cases hrun : placeAndWrite d t.m.toNat ⟨s, .empty⟩ with
  | error c w =>
    rw [hrun] at hbody
    exact .inl ⟨c, by rw [storePair, transaction_error _ s c w hrun, Tidy.release hbody]⟩
  | ok ending w =>
    rw [hrun] at hbody
    obtain ⟨st, s', rfl, hw, hstoring⟩ := hbody
    refine .inr ⟨st, s', transaction_commit _ s s' st w hrun hw.commit, ?_, hw.held, hstoring⟩
    rw [hw.size]
    exact Nat.le_add_right _ _

theorem storePair_cases :
    (∃ c, storePair d t.m.toNat s = .error c s) ∨ ∃ st s', storePair d t.m.toNat s = .ok st s' ∧
      s.pages.size ≤ s'.pages.size ∧ (s'.pages.size ≤ 4294967295 → Placed t s s' d st) := by
  refine (storePair_storing h d hd).imp_right ?_
  rintro ⟨st, s', hrun, hsize, -, v, hstoring⟩
  exact ⟨st, s', hrun, hsize, hstoring.placed h d⟩

theorem storePair_placed {st : Stored} {s' : Store} (hrun : storePair d t.m.toNat s = .ok st s')
    (hn : s'.Numbered) : Placed t s s' d st := by
  rcases storePair_cases h d hd with ⟨e, he⟩ | ⟨st', s₁, hstored, -, hplaced⟩
  · rw [hrun] at he
    cases he
  · obtain ⟨rfl, rfl⟩ := EStateM.Result.ok.inj (hrun.symm.trans hstored)
    exact hplaced hn

end

end PagedGraph
