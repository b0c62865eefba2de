import PagedGraph.Graph.Placement
import PagedGraph.Proofs.Growth

/-!
# What the search for room finds

Every placement names two members of the open group, both on data pages. If it names slots to be
overwritten, these are the slots of a deleted element, not the entry point, and of that element's
own neighbor record. Whatever pages have been appended on the way, a commit of the group as it is
leads to a store in order, with the records that were there before.
-/

set_option autoImplicit false

namespace PagedGraph

structure Reusable (s : Store) (r : Reuse) (id other : PageId) (e : Element) : Prop where
  element : s.record? ⟨id, UInt16.ofNat r.elementSlot⟩ = some (.element e)
  deleted : e.deleted = true
  at_ : e.neighborsAt = ⟨other, UInt16.ofNat r.neighborSlot⟩
  elementSlot_lt : r.elementSlot < 65536
  neighborSlot_lt : r.neighborSlot < 65536
  not_entry : s.entry.map EntryPoint.location ≠ some ⟨id, UInt16.ofNat r.elementSlot⟩

/-- Room for a pair: `m` and `k` are the members that shall take the element and the neighbors, and
`v` is the store that a commit would lead to. -/
structure Room (t : Header) (s : Store) (w : Work) (place : Placement) (v : Store)
    (m k : Member) : Prop where
  staged : Staged s w v
  formed : v.pages.size ≤ 4294967295 →
    v.Formed t ∧ v.record? = s.record? ∧ v.header = s.header
  cursor : place.cursor = s.cursor
  element : w.group.members[place.elementPage]? = some m
  neighbors : w.group.members[place.neighborPage]? = some k
  element_pos : 0 < m.id.toNat
  neighbors_pos : 0 < k.id.toNat
  reuse : ∀ r, place.reuse = some r → ∃ e, Reusable s r m.id k.id e

/-- What the search notes of a deleted element in a slot. -/
def Tombstone.of (slot : Nat) (e : Element) : Tombstone := ⟨slot, e.encode.size, e.neighborsAt⟩

def tombstone? (entry : Option EntryPoint) (id : PageId) (p : Page) (slot : Nat) :
    Option Tombstone :=
  match p.record? slot with
  | some (.element e) =>
    if e.deleted && entry.map EntryPoint.location != some ⟨id, UInt16.ofNat slot⟩ then
      some (.of slot e)
    else none
  | _ => none

theorem tombstonesFrom_ok {width : Nat} {p : Page} {rs : List Record} (hrs : p.Carries width rs)
    (entry : Option EntryPoint) (id : PageId) (count : Nat) :
    ∀ slot : Nat, slot + count ≤ rs.length → tombstonesFrom entry id p count slot =
      .ok ((List.range' slot count).filterMap (tombstone? entry id p)) := by
  induction count with
  | zero => exact fun _ _ => rfl
  | succ count ih =>
    intro slot hlen
    have hr : rs[slot]? = some rs[slot] := List.getElem?_eq_getElem (by omega)
    have hitem : p.item slot = .ok rs[slot].encode :=
      hrs.holds.item_eq slot _ (by rw [List.getElem?_map, hr]; rfl)
    have hrecord : p.record? slot = some rs[slot] := by rw [hrs.record?_eq, hr]
    rw [tombstonesFrom, hitem, ih (slot + 1) (by omega), List.range'_succ, List.filterMap_cons,
      tombstone?, hrecord]
    cases hrec : rs[slot] with
    | adjacency a =>
      simp only [bind, Except.bind, Record.encode, a.kind_encode, pure, Except.pure]
      rfl
    | element e =>
      simp only [bind, Except.bind, Record.encode, e.kind_encode, e.outline_encode, Except.map,
        pure, Except.pure, if_true]
      by_cases hcond : (e.deleted && entry.map EntryPoint.location !=
          some ⟨id, UInt16.ofNat slot⟩) = true
      · simp only [if_pos hcond]
        rfl
      · simp only [if_neg hcond]
        rfl

theorem tombstone?_eq_some {entry : Option EntryPoint} {id : PageId} {p : Page} {slot : Nat}
    {x : Tombstone} : tombstone? entry id p slot = some x ↔
      ∃ e, p.record? slot = some (.element e) ∧ e.deleted = true ∧
        entry.map EntryPoint.location ≠ some ⟨id, UInt16.ofNat slot⟩ ∧
        x = .of slot e := by
  rw [tombstone?]
  cases hr : p.record? slot with
  | none => simp
  | some r =>
    cases r with
    | adjacency a => simp
    | element e =>
      simp only [Bool.and_eq_true, bne_iff_ne, Option.some.injEq, Record.element.injEq,
        exists_eq_left']
      constructor
      · intro h
        by_cases hcond : e.deleted = true ∧
            entry.map EntryPoint.location ≠ some ⟨id, UInt16.ofNat slot⟩
        · rw [if_pos hcond] at h
          exact ⟨hcond.1, hcond.2, (Option.some.inj h).symm⟩
        · rw [if_neg hcond] at h
          cases h
      · rintro ⟨hdeleted, hentry, rfl⟩
        rw [if_pos ⟨hdeleted, hentry⟩]

theorem tombstones_ok {width : Nat} {p : Page} {rs : List Record} (hrs : p.Carries width rs)
    (entry : Option EntryPoint) (id : PageId) : tombstones entry id p =
      .ok ((List.range' 0 rs.length).filterMap (tombstone? entry id p)) := by
  rw [tombstones, hrs.slotCount_eq]
  exact tombstonesFrom_ok hrs entry id rs.length 0 (by omega)

theorem tombstones_eq {width : Nat} {p : Page} {rs : List Record} (hrs : p.Carries width rs)
    (entry : Option EntryPoint) (id : PageId) :
    ∃ found, tombstones entry id p = .ok found ∧ ∀ x ∈ found,
      ∃ e, rs[x.slot]? = some (.element e) ∧ e.deleted = true ∧ x.size = e.encode.size ∧
        x.neighborsAt = e.neighborsAt ∧
        entry.map EntryPoint.location ≠ some ⟨id, UInt16.ofNat x.slot⟩ := by
  refine ⟨_, tombstones_ok hrs entry id, fun x hx => ?_⟩
  obtain ⟨slot, -, hsome⟩ := List.mem_filterMap.mp hx
  obtain ⟨e, hr, hdeleted, hentry, rfl⟩ := tombstone?_eq_some.mp hsome
  rw [hrs.record?_eq] at hr
  exact ⟨e, hr, hdeleted, rfl, rfl, hentry⟩

theorem tombstones_intact {t : Header} {s : Store} (h : s.Intact t) {id : PageId} {p : Page}
    {rs : List Record} (hp : s.pages[id.toNat]? = some p)
    (hrs : p.Carries t.dimensions.toNat rs) :
    ∃ found, tombstones s.entry id p = .ok found ∧ ∀ x ∈ found,
      ∃ e a, Reusable s ⟨x.slot, x.neighborsAt.slot.toNat⟩ id x.neighborsAt.page e ∧
        rs[x.slot]? = some (.element e) ∧ x.size = e.encode.size ∧
        s.record? x.neighborsAt = some (.adjacency a) := by
  obtain ⟨found, hfound, hall⟩ := tombstones_eq hrs s.entry id
  refine ⟨found, hfound, fun x hx => ?_⟩
  obtain ⟨e, hslot, hdeleted, hsize, hat, hentry⟩ := hall x hx
  have hlt : x.slot < 65536 :=
    Nat.lt_trans (List.getElem?_eq_some_iff.mp hslot).1 hrs.length_lt
  have hrec : s.record? ⟨id, UInt16.ofNat x.slot⟩ = some (.element e) := by
    rw [s.record?_of_page ⟨id, UInt16.ofNat x.slot⟩ p hp, UInt16.toNat_ofNat',
      Nat.mod_eq_of_lt hlt]
    exact (hrs.record?_eq _).trans hslot
  obtain ⟨a, ha, -⟩ := h.paired.resolves _ e hrec
  rw [← hat] at ha
  refine ⟨e, a, ⟨hrec, hdeleted, ?_, hlt, x.neighborsAt.slot.toNat_lt, hentry⟩, hslot, hsize, ha⟩
  rw [← hat, UInt16.ofNat_toNat]

theorem reusable_of_mem {t : Header} {s : Store} (h : s.Intact t) {id : PageId} {p : Page}
    (hid : 0 < id.toNat) (hp : s.pages[id.toNat]? = some p) {found : List Tombstone}
    (hfound : tombstones s.entry id p = .ok found) (x : Tombstone) (hx : x ∈ found) :
    0 < x.neighborsAt.page.toNat ∧
      ∃ e, Reusable s ⟨x.slot, x.neighborsAt.slot.toNat⟩ id x.neighborsAt.page e := by
  obtain ⟨rs, hrs⟩ := h.filled id.toNat p hid hp
  obtain ⟨found', hfound', hall⟩ := tombstones_intact h hp hrs
  obtain rfl : found = found' := Except.ok.inj (hfound.symm.trans hfound')
  obtain ⟨e, a, hreuse, -, -, ha⟩ := hall x hx
  obtain ⟨q, qs, hpos, -⟩ := h.page_of_record _ _ ha
  exact ⟨hpos, e, hreuse⟩

theorem ensures_claimSlot {s : Store} {w : Work} (hw : Staged s w s) (id : PageId) (slot size : Nat) :
    Transaction.Ensures s (claimSlot id slot size) w fun r w' => match r with
      | none => w' = w
      | some other => Staged s w' s ∧ ∃ p, other = w.group.members.size ∧
          w'.group.members = w.group.members.push ⟨id, p⟩ := by
  unfold Transaction.Ensures claimSlot
  cases ht : w.store.tryLock id with
  | error e => exact hw.tidy
  | ok taken =>
    cases taken with
    | none => rfl
    | some store =>
      obtain ⟨-, -, rfl⟩ := Store.tryLock_some ht
      simp only [Store.release_locked]
      cases hroom : ((w.store.locked id).readPage id).bind fun p => p.spaceAfterFreeing slot with
      | error e => exact hw.tidy
      | ok room =>
        by_cases hsmall : room < size
        · simp only [if_pos hsmall]
        · simp only [if_neg hsmall]
          cases hg : w.group.register (w.store.locked id) id with
          | error e => exact hw.tidy
          | ok r =>
            obtain ⟨handle, g⟩ := r
            obtain ⟨hstaged, p, -, -, hhandle, hmembers, -⟩ := Transaction.staged_register hw hg
            exact ⟨hstaged, p, hhandle, hmembers⟩

theorem ensures_claimTombstone {s : Store} (size : PairSize) {id : PageId} {p : Page}
    (hid : 0 < id.toNat) {w : Work} (hw : Staged s w s) {handle : Nat}
    (hhandle : w.group.members[handle]? = some ⟨id, p⟩) (found : List Tombstone)
    (hfound : ∀ x ∈ found, 0 < x.neighborsAt.page.toNat ∧
      ∃ e, Reusable s ⟨x.slot, x.neighborsAt.slot.toNat⟩ id x.neighborsAt.page e) :
    Transaction.Ensures s (claimTombstone size handle id p found) w fun r w' => match r with
      | none => w' = w
      | some (other, reuse) => Staged s w' s ∧ w'.group.members[handle]? = some ⟨id, p⟩ ∧
          ∃ k e, w'.group.members[other]? = some k ∧ 0 < k.id.toNat ∧
            Reusable s reuse id k.id e := by
  induction found with
  | nil => rfl
  | cons x rest ih =>
    have hrest := ih fun y hy => hfound y (List.mem_cons_of_mem x hy)
    obtain ⟨hpos, e, hreuse⟩ := hfound x List.mem_cons_self
    rw [claimTombstone]
    apply (Transaction.ensures_ofExcept hw.tidy _).bind
    intro room w' hstep
    rw [hstep.2]
    by_cases hsmall : room < size.element
    · rw [if_pos hsmall]
      exact hrest
    · rw [if_neg hsmall]
      by_cases hsame : x.neighborsAt.page = id
      · rw [if_pos hsame]
        apply (Transaction.ensures_ofExcept hw.tidy _).bind
        intro room w' hstep
        rw [hstep.2]
        by_cases hsmall' : room < size.neighbors + (size.element - x.size)
        · rw [if_pos hsmall']
          exact hrest
        · rw [if_neg hsmall']
          refine Transaction.Ensures.pure ⟨hw, hhandle, ⟨id, p⟩, e, hhandle, hid, ?_⟩
          rw [hsame] at hreuse
          exact hreuse
      · rw [if_neg hsame]
        apply (ensures_claimSlot hw _ _ _).bind
        intro r w' hr
        cases r with
        | none =>
          have hstep : w' = w := hr
          rw [hstep]
          exact hrest
        | some other =>
          obtain ⟨hstaged, q, rfl, hmembers⟩ := hr
          have hlt : handle < w.group.members.size := (Array.getElem?_eq_some_iff.mp hhandle).1
          refine Transaction.Ensures.pure ⟨hstaged, ?_, ⟨x.neighborsAt.page, q⟩, e, ?_, hpos, hreuse⟩
          · rw [hmembers, Array.getElem?_push, if_neg (Nat.ne_of_lt hlt), hhandle]
          · rw [hmembers, Array.getElem?_push, if_pos rfl]

theorem ensures_appendAfter {s v : Store} {w : Work} (hw : Staged s w v)
    (hcount : s.pageCount = s.pages.size) {handle : Nat} {m : Member}
    (hm : w.group.members[handle]? = some m) :
    Transaction.Ensures s (appendAfter handle) w fun fresh w' =>
      Staged s w' (v.extend m.id m.image) ∧ v.pages.size < 4294967296 ∧
      w'.group.members[handle]? = some ⟨m.id, m.image.setNext (UInt32.ofNat v.pages.size)⟩ ∧
      w'.group.members[fresh]? = some ⟨UInt32.ofNat v.pages.size, Page.empty⟩ := by
  have hlt : handle < w.group.members.size := (Array.getElem?_eq_some_iff.mp hm).1
  rw [appendAfter]
  apply (Transaction.ensures_append hw hcount).bind
  rintro fresh w₁ ⟨hw₁, rfl, hsize, hmembers⟩
  have hfresh : w₁.group.members[w.group.members.size]? =
      some ⟨UInt32.ofNat v.pages.size, Page.empty⟩ := by
    rw [hmembers, Array.getElem?_push, if_pos rfl]
  have hm₁ : w₁.group.members[handle]? = some m := by
    rw [hmembers, Array.getElem?_push, if_neg (Nat.ne_of_lt hlt), hm]
  apply (Transaction.ensures_pageId hfresh).bind
  intro id w₂ hid
  rw [hid.1, hid.2]
  apply (Transaction.ensures_image hm₁).bind
  intro page w₃ hpage
  rw [hpage.1, hpage.2]
  obtain ⟨hset, hget⟩ := hw₁.setImage (m.image.setNext (UInt32.ofNat v.pages.size)) hm₁
  show Staged s _ _ ∧ _
  refine ⟨hset, hsize, ?_, ?_⟩
  · exact (hget handle).trans (if_pos rfl)
  · exact (hget _).trans ((if_neg (Nat.ne_of_gt hlt)).trans hfresh)

theorem Store.fresh_pos (s : Store) (n : Nat) (hn : s.pages.size ≤ n) (hlt : n < 4294967296) :
    0 < (UInt32.ofNat n).toNat := by
  have := s.two_le_size
  rw [UInt32.toNat_ofNat', Nat.mod_eq_of_lt (by omega)]
  omega

section
variable {t : Header} {s : Store} (h : s.Intact t)
include h

theorem ensures_newPages (size : PairSize) (room : Nat) (firstFree : Option PageId) {w : Work}
    {handle : Nat} {m : Member} (hw : Staged s w s) (hm : w.group.members[handle]? = some m)
    (hpos : 0 < m.id.toNat) (hp : s.pages[m.id.toNat]? = some m.image)
    (hlast : m.image.next = noPage) :
    Transaction.Ensures s (do
        let fresh ← appendAfter handle
        if size.together ≤ room then
          return ⟨fresh, fresh, none, firstFree, s.cursor⟩
        else
          let second ← appendAfter fresh
          return ⟨fresh, second, none, firstFree, s.cursor⟩) w
      fun place w' => ∃ v m k, Room t s w' place v m k := by
  apply (ensures_appendAfter hw h.pageCount_eq hm).bind
  rintro fresh w₁ ⟨hw₁, hlt, -, hfresh⟩
  have hfpos := s.fresh_pos s.pages.size (Nat.le_refl _) hlt
  by_cases hboth : size.together ≤ room
  · rw [if_pos hboth]
    refine Transaction.Ensures.pure ⟨_, _, _, hw₁, h.extend_kept _ _ hpos hp hlast, rfl, hfresh,
      hfresh, hfpos, hfpos, ?_⟩
    intro r hr
    cases hr
  · rw [if_neg hboth]
    apply (ensures_appendAfter hw₁ h.pageCount_eq hfresh).bind
    rintro second w₂ ⟨hw₂, hlt', hm₂, hsecond⟩
    have hgrow : s.pages.size ≤ (s.extend m.id m.image).pages.size := by
      rw [Store.size_extend]
      exact Nat.le_succ _
    refine Transaction.Ensures.pure ⟨_, _, _, hw₂, ?_, rfl, hm₂, hsecond, hfpos,
      s.fresh_pos _ hgrow hlt', ?_⟩
    · intro hb
      have hless := hb
      rw [Store.size_extend] at hless
      obtain ⟨hformed, hrecord, hheader⟩ :=
        h.extend_kept _ _ hpos hp hlast (Nat.le_of_succ_le hless)
      obtain ⟨hformed', hrecord', hheader'⟩ :=
        hformed.extend_kept _ _ hfpos (hw₁.image_eq hfresh) Page.next_empty hb
      exact ⟨hformed', hrecord'.trans hrecord, hheader'.trans hheader⟩
    · intro r hr
      cases hr

theorem ensures_probeFrom (size : PairSize) (steps : Nat) :
    ∀ (current : PageId) (firstFree : Option PageId) (w : Work), 0 < current.toNat → Tidy s w →
      Transaction.Ensures s (probeFrom size s.entry s.cursor steps current firstFree) w
        fun place w' => ∃ v m k, Room t s w' place v m k := by
  induction steps with
  | zero =>
    intro current firstFree w _ hw
    exact Transaction.Ensures.throw hw
  | succ steps ih =>
    intro current firstFree w hpos hw
    rw [probeFrom]
    -- How much an empty page can take does not matter here.
    generalize Page.empty.freeSpace = room
    apply (Transaction.ensures_restart hw).bind
    intro _ w₀ hw₀
    rw [hw₀]
    apply (Transaction.ensures_register (Staged.empty s) current).bind
    rintro handle w₁ ⟨hw₁, p, hp, -, rfl, hmembers⟩
    have hm : w₁.group.members[Group.empty.members.size]? = some ⟨current, p⟩ := by
      rw [hmembers]
      rfl
    have hsame : s.pages.size ≤ 4294967295 →
        s.Formed t ∧ s.record? = s.record? ∧ s.header = s.header :=
      fun _ => ⟨h.toFormed, rfl, rfl⟩
    apply (Transaction.ensures_image hm).bind
    intro page w₂ hpage
    rw [hpage.1, hpage.2]
    by_cases hfits : size.together ≤ p.freeSpace
    · rw [if_pos hfits]
      refine Transaction.Ensures.pure ⟨s, _, _, hw₁, hsame, rfl, hm, hm, hpos, hpos, ?_⟩
      intro r hr
      cases hr
    · rw [if_neg hfits]
      by_cases htail : size.element ≤ p.freeSpace ∧ p.next = noPage
      · rw [if_pos htail]
        apply (ensures_appendAfter hw₁ h.pageCount_eq hm).bind
        rintro fresh w₃ ⟨hw₃, hlt, hm₃, hfresh⟩
        refine Transaction.Ensures.pure ⟨_, _, _, hw₃, h.extend_kept _ _ hpos hp htail.2, rfl, hm₃, hfresh, hpos,
          s.fresh_pos _ (Nat.le_refl _) hlt, ?_⟩
        intro r hr
        cases hr
      · rw [if_neg htail]
        apply (Transaction.ensures_ofExcept hw₁.tidy _).bind
        intro deleted w₃ hdeleted
        rw [hdeleted.2]
        apply (ensures_claimTombstone size hpos hw₁ hm deleted
          (reusable_of_mem h hpos hp hdeleted.1)).bind
        intro claimed w₄ hclaimed
        cases claimed with
        | some found =>
          obtain ⟨other, reuse⟩ := found
          obtain ⟨hw₄, hm₄, k, e, hk, hkpos, hreuse⟩ := hclaimed
          refine Transaction.Ensures.pure ⟨s, _, _, hw₄, hsame, rfl, hm₄, hk, hpos, hkpos, ?_⟩
          intro r hr
          cases hr
          exact ⟨e, hreuse⟩
        | none =>
          have hstep : w₄ = w₁ := hclaimed
          rw [hstep]
          by_cases hlast : p.next = noPage
          · simp only [if_pos hlast]
            exact ensures_newPages h size room _ hw₁ hm hpos hp hlast
          · simp only [if_neg hlast]
            apply ih
            · rw [(h.toNat_next current.toNat p hpos hp hlast).1]
              exact Nat.succ_pos _
            · exact hw₁.tidy

theorem ensures_allocate (size : PairSize) :
    Transaction.Ensures s (allocate size) ⟨s, .empty⟩ fun place w' =>
      ∃ v m k, Room t s w' place v m k := by
  have hget : Transaction.Ensures s (get : Transaction Work) ⟨s, .empty⟩ fun w w' =>
      w = ⟨s, .empty⟩ ∧ w' = ⟨s, .empty⟩ := ⟨rfl, rfl⟩
  rw [allocate]
  apply hget.bind
  intro w w' hstep
  rw [hstep.1, hstep.2]
  exact ensures_probeFrom h size _ _ _ _ h.cursor_pos (Tidy.empty s)

end

end PagedGraph
