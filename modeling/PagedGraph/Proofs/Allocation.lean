import PagedGraph.Proofs.Capacity

/-!
# The search for room succeeds

In an intact store whose pages do not run out of numbers the search for room goes through, and what
it finds is room enough (`delivers_allocate`): the two writes of a pair that follow cannot fail,
whichever way the room was found (`delivers_writePair`). So a pair is stored whenever each of its
records fits an empty page (`storePair_ok`).

`Delivers F x w Q` says of a transaction `x`: it goes through from `w` and `Q` holds of its result,
unless `F` is the case. What else is known of the result when it goes through comes from `Ensures`.
-/

set_option autoImplicit false

namespace PagedGraph

namespace Transaction

variable {α β : Type} {s v : Store} {F : Prop} {w : Work} {Q : α → Work → Prop}

/-- The transaction goes through and `Q` holds of its result, unless `F` is the case. -/
def Delivers (F : Prop) (x : Transaction α) (w : Work) (Q : α → Work → Prop) : Prop :=
  match x w with
  | .ok a w' => Q a w'
  | .error _ _ => F

theorem Delivers.pure {a : α} (h : Q a w) : Delivers F (Pure.pure a) w Q := h

theorem Delivers.mono {x : Transaction α} {R : α → Work → Prop} (hx : Delivers F x w Q)
    (h : ∀ a w', Q a w' → R a w') : Delivers F x w R := by
  unfold Delivers at hx ⊢
  cases hr : x w with
  | error e w' =>
    rw [hr] at hx
    exact hx
  | ok a w' =>
    rw [hr] at hx
    exact h a w' hx

theorem Delivers.excuse {G : Prop} {x : Transaction α} (hx : Delivers F x w Q) (h : F → G) :
    Delivers G x w Q := by
  unfold Delivers at hx ⊢
  cases hr : x w with
  | error e w' =>
    rw [hr] at hx
    exact h hx
  | ok a w' =>
    rw [hr] at hx
    exact hx

theorem Delivers.bind {x : Transaction α} {f : α → Transaction β} {R : β → Work → Prop}
    (hx : Delivers F x w Q) (hf : ∀ a w', Q a w' → Delivers F (f a) w' R) :
    Delivers F (x >>= f) w R := by
  rw [Delivers] at hx ⊢
  cases hr : x w with
  | error e w' =>
    rw [hr] at hx
    rw [bind_error hr]
    exact hx
  | ok a w' =>
    rw [hr] at hx
    rw [bind_ok hr]
    exact hf a w' hx

theorem Delivers.step {x : Transaction α} {f : α → Transaction β} {R : β → Work → Prop} {a : α}
    {w' : Work} (hx : x w = .ok a w') (hf : Delivers F (f a) w' R) :
    Delivers F (x >>= f) w R := by
  rw [Delivers, bind_ok hx]
  exact hf

theorem ofExcept_ok {x : Except Error α} {a : α} (h : x = .ok a) : ofExcept x w = .ok a w := by
  rw [h]
  rfl

theorem Delivers.and_ensures {x : Transaction α} {R : α → Work → Prop} (hx : Delivers F x w Q)
    (hr : Ensures s x w R) : Delivers F x w fun a w' => Q a w' ∧ R a w' := by
  unfold Delivers Ensures at *
  cases hrun : x w with
  | error e w' =>
    rw [hrun] at hx
    exact hx
  | ok a w' =>
    rw [hrun] at hx hr
    exact ⟨hx, hr⟩

theorem Delivers.ok {x : Transaction α} (hx : Delivers F x w Q) (hF : ¬F) :
    ∃ a w', x w = .ok a w' ∧ Q a w' := by
  unfold Delivers at hx
  cases hr : x w with
  | error e w' =>
    rw [hr] at hx
    exact absurd hx hF
  | ok a w' =>
    rw [hr] at hx
    exact ⟨a, w', rfl, hx⟩

end Transaction

theorem Staged.isHeld {s v : Store} {w : Work} (h : Staged s w v) (hidle : s.held = [])
    {lock : Lock} (hlock : lock ∉ w.group.locks) : w.store.isHeld lock = false := by
  obtain ⟨mine, hheld, hperm⟩ := h.tidy.held
  rw [hidle, List.append_nil] at hheld
  rw [Store.isHeld, hheld, List.contains_eq_mem, decide_eq_false_iff_not]
  exact fun hmem => hlock (hperm.mem_iff.mp hmem)

theorem Group.page_mem_locks {g : Group} {id : PageId} (h : Lock.page id ∈ g.locks) :
    ∃ m ∈ g.members.toList, m.id = id := by
  rw [locks] at h
  rcases List.mem_append.mp h with h | h
  · obtain ⟨m, hm, heq⟩ := List.mem_map.mp h
    exact ⟨m, hm, Lock.page.inj heq⟩
  · cases hbase : g.base with
    | none =>
      rw [hbase] at h
      cases h
    | some base =>
      rw [hbase, List.mem_singleton] at h
      cases h

theorem Group.growth_mem_locks {g : Group} (h : Lock.growth ∈ g.locks) : g.base ≠ none := by
  intro hbase
  rw [locks, hbase, List.append_nil] at h
  obtain ⟨m, -, heq⟩ := List.mem_map.mp h
  cases heq

namespace Transaction

variable {s v : Store} {F : Prop} {w : Work}

theorem delivers_append (h : Staged s w v) (hidle : s.held = [])
    (hcount : s.pageCount = s.pages.size) (hF : 4294967296 ≤ v.pages.size → F) :
    Delivers F append w fun handle w' => Staged s w' v.withFresh ∧
      handle = w.group.members.size ∧ v.pages.size < 4294967296 ∧
      w'.group.members = w.group.members.push ⟨UInt32.ofNat v.pages.size, Page.empty⟩ := by
  refine Delivers.mono (Delivers.and_ensures (Q := fun _ _ => True) ?_ (ensures_append h hcount))
    fun _ _ hw' => hw'.2
  have hsize := h.size
  -- The lock of the new page is free, since all pages of the group have smaller numbers.
  have hfree : v.pages.size < 4294967296 →
      w.store.isHeld (.page (UInt32.ofNat v.pages.size)) = false := by
    intro hlimit
    refine h.isHeld hidle fun hmem => ?_
    obtain ⟨m, hm, hid⟩ := Group.page_mem_locks hmem
    have hlt := h.member_lt m hm
    rw [hid, UInt32.toNat_ofNat', Nat.mod_eq_of_lt hlimit] at hlt
    exact absurd hlt (Nat.lt_irrefl _)
  have hclaim : ∃ store g, w.group.claimGrowth w.store = .ok (store, g, s.pages.size) ∧
      g.appended = w.group.appended ∧
      ∀ id, w.store.isHeld (.page id) = false → store.isHeld (.page id) = false := by
    rw [Group.claimGrowth]
    cases hbase : w.group.base with
    | some base =>
      rcases h.base with ⟨hnone, -⟩ | hsome
      · rw [hbase] at hnone
        cases hnone
      · obtain rfl : base = s.pages.size := Option.some.inj (hbase.symm.trans hsome)
        exact ⟨_, _, rfl, rfl, fun _ hid => hid⟩
    | none =>
      have hgrowth := h.isHeld hidle fun hmem => Group.growth_mem_locks hmem hbase
      have hpages : Store.pageCount { w.store with
          held := .growth :: w.store.held, two_le_size := w.store.two_le_size } = s.pages.size := by
        rw [Store.pageCount, h.tidy.pages]
        exact hcount
      refine ⟨{ w.store with
          held := .growth :: w.store.held, two_le_size := w.store.two_le_size },
        { w.group with base := some s.pages.size }, ?_, rfl, fun id hid => ?_⟩
      · simp only [Store.tryAcquire, hgrowth, Bool.false_eq_true, if_false, hpages]
      · simpa [Store.isHeld] using hid
  obtain ⟨store, g, hclaim, happended, hheld⟩ := hclaim
  unfold Delivers append
  rw [Group.append, hclaim]
  simp only [happended, ← hsize]
  by_cases hlimit : 4294967296 ≤ v.pages.size
  · rw [if_pos hlimit]
    exact hF hlimit
  · have hacquire := hheld _ (hfree (Nat.not_le.mp hlimit))
    simp only [if_neg hlimit, Store.tryAcquire, hacquire]
    trivial

end Transaction

theorem Page.Holds.freeSpace_setNext {p : Page} {ts : List Bytes} (h : p.Holds ts) (id : PageId) :
    (p.setNext id).freeSpace = p.freeSpace := by
  have := h.gap
  have := (h.setNext id).gap
  rw [freeSpace, freeSpace]
  omega

/-- Two records of the given sizes have room on the pages behind a placement: `m` shall take the
element and `k` the neighbors. One page that takes both records is written twice; the second write
finds the room that the first one leaves. -/
inductive Ample (width : Nat) (n : PairSize) (place : Placement) (m k : Member) : Prop where
  | together (rs : List Record) (new : place.reuse = none)
      (same : place.neighborPage = place.elementPage) (carries : m.image.Carries width rs)
      (room : n.together ≤ m.image.freeSpace)
  | apart (rs qs : List Record) (new : place.reuse = none)
      (other : place.neighborPage ≠ place.elementPage) (carries : m.image.Carries width rs)
      (carries' : k.image.Carries width qs) (room : n.element ≤ m.image.freeSpace)
      (room' : n.neighbors ≤ k.image.freeSpace)
  | onePage (r : Reuse) (rs : List Record) (e : Element) (a : Adjacency)
      (reuse : place.reuse = some r) (same : place.neighborPage = place.elementPage)
      (carries : m.image.Carries width rs) (element : rs[r.elementSlot]? = some (.element e))
      (neighbors : rs[r.neighborSlot]? = some (.adjacency a))
      (room : n.element ≤ m.image.upper - m.image.lower + e.encode.size)
      (room' : n.neighbors + (n.element - e.encode.size) ≤
        m.image.upper - m.image.lower + a.encode.size)
  | twoPages (r : Reuse) (rs qs : List Record) (e : Element) (a : Adjacency)
      (reuse : place.reuse = some r) (other : place.neighborPage ≠ place.elementPage)
      (carries : m.image.Carries width rs) (carries' : k.image.Carries width qs)
      (element : rs[r.elementSlot]? = some (.element e))
      (neighbors : qs[r.neighborSlot]? = some (.adjacency a))
      (room : n.element ≤ m.image.upper - m.image.lower + e.encode.size)
      (room' : n.neighbors ≤ k.image.upper - k.image.lower + a.encode.size)

def Roomy (width : Nat) (n : PairSize) (place : Placement) (w : Work) : Prop :=
  ∃ m k, w.group.members[place.elementPage]? = some m ∧
    w.group.members[place.neighborPage]? = some k ∧ Ample width n place m k

section
variable {t : Header} {s : Store} (h : s.Intact t) {F : Prop}
include h

theorem delivers_claimSlot {w : Work} (hw : Staged s w s) {l : Location} (size : Nat)
    {r : Record} (hr : s.record? l = some r)
    (hfresh : ∀ x ∈ w.group.members.toList, x.id ≠ l.page) :
    ∃ q qs, s.pages[l.page.toNat]? = some q ∧ q.Carries t.dimensions.toNat qs ∧
      qs[l.slot.toNat]? = some r ∧
      Transaction.Delivers F (claimSlot l.page l.slot.toNat size) w fun found w' => match found with
        | none => w' = w ∧ q.upper - q.lower + r.encode.size < size
        | some other => size ≤ q.upper - q.lower + r.encode.size ∧
            other = w.group.members.size ∧
            w'.group.members = w.group.members.push ⟨l.page, q⟩ := by
  obtain ⟨q, qs, -, hq, hqs, hslot⟩ := h.page_of_record l r hr
  refine ⟨q, qs, hq, hqs, hslot, ?_⟩
  have hheld : w.store.isHeld (.page l.page) = false := by
    refine hw.isHeld h.idle fun hmem => ?_
    obtain ⟨m, hm, hid⟩ := Group.page_mem_locks hmem
    exact hfresh m hm hid
  have hcount : l.page.toNat < w.store.pageCount := by
    rw [Store.pageCount, hw.tidy.pages]
    exact h.lt_pageCount _ q hq
  have htry : w.store.tryLock l.page = .ok (some (w.store.locked l.page)) := by
    rw [Store.tryLock, if_neg (Nat.not_le.mpr hcount), Store.tryAcquire, hheld]
    rfl
  have hread : (w.store.locked l.page).readPage l.page = .ok q := by
    simp [Store.readPage, Store.locked, hw.tidy.pages, hq]
  have hroom := hqs.spaceAfterFreeing_eq hslot
  have hregister : w.group.register (w.store.locked l.page) l.page =
      .ok (w.group.members.size, { w.group with
        members := w.group.members.push ⟨l.page, q⟩ }) := by
    have hnew : w.group.members.any (·.id == l.page) = false := by
      rw [Array.any_eq_false]
      intro i hi
      have := hfresh w.group.members[i] (Array.mem_toList_iff.mpr (Array.getElem_mem hi))
      simpa using this
    rw [Group.register, hnew, hread]
    rfl
  rw [Transaction.Delivers, claimSlot, htry]
  simp only [hread, Except.bind, hroom, Store.release_locked]
  by_cases hsmall : q.upper - q.lower + r.encode.size < size
  · rw [if_pos hsmall]
    exact ⟨rfl, hsmall⟩
  · rw [if_neg hsmall, hregister]
    exact ⟨Nat.not_lt.mp hsmall, rfl, rfl⟩

/-- A tombstone is claimed only if both records of the new pair fit in the place of the old ones. -/
theorem delivers_claimTombstone (size : PairSize) {id : PageId} {p : Page} {rs : List Record}
    (hp : s.pages[id.toNat]? = some p) (hrs : p.Carries t.dimensions.toNat rs) {w : Work}
    (hw : Staged s w s) {handle : Nat} (hhandle : w.group.members[handle]? = some ⟨id, p⟩)
    (honly : ∀ x ∈ w.group.members.toList, x.id = id) (found : List Tombstone)
    (hfound : ∀ x ∈ found, ∃ e a, rs[x.slot]? = some (.element e) ∧ x.size = e.encode.size ∧
      s.record? x.neighborsAt = some (.adjacency a)) :
    Transaction.Delivers F (claimTombstone size handle id p found) w fun r w' => match r with
      | none => w' = w
      | some (other, reuse) => ∀ firstFree cursor,
          Roomy t.dimensions.toNat size ⟨handle, other, some reuse, firstFree, cursor⟩ w' := by
  induction found with
  | nil => rfl
  | cons x rest ih =>
    have hrest := ih fun y hy => hfound y (List.mem_cons_of_mem x hy)
    obtain ⟨e, a, helement, hsize, hneighbors⟩ := hfound x List.mem_cons_self
    rw [claimTombstone]
    apply Transaction.Delivers.step (Transaction.ofExcept_ok (hrs.spaceAfterFreeing_eq helement))
    by_cases hsmall : p.upper - p.lower + (Record.element e).encode.size < size.element
    · rw [if_pos hsmall]
      exact hrest
    · rw [if_neg hsmall]
      by_cases hsame : x.neighborsAt.page = id
      · have hslot : rs[x.neighborsAt.slot.toNat]? = some (.adjacency a) := by
          rw [← hrs.record?_eq, ← s.record?_of_page x.neighborsAt p (by rw [hsame]; exact hp)]
          exact hneighbors
        rw [if_pos hsame]
        apply Transaction.Delivers.step (Transaction.ofExcept_ok (hrs.spaceAfterFreeing_eq hslot))
        by_cases hsmall' : p.upper - p.lower + (Record.adjacency a).encode.size <
            size.neighbors + (size.element - x.size)
        · rw [if_pos hsmall']
          exact hrest
        · rw [if_neg hsmall']
          refine Transaction.Delivers.pure fun firstFree cursor => ?_
          refine ⟨⟨id, p⟩, ⟨id, p⟩, hhandle, hhandle, .onePage _ rs e a rfl rfl hrs helement hslot
            (Nat.not_lt.mp hsmall) ?_⟩
          rw [← hsize]
          exact Nat.not_lt.mp hsmall'
      · rw [if_neg hsame]
        obtain ⟨q, qs, -, hqs, hslot, hclaim⟩ := delivers_claimSlot h (F := F) hw size.neighbors
          hneighbors fun y hy heq => hsame (heq.symm.trans (honly y hy))
        apply hclaim.bind
        intro claimed w' hclaimed
        cases claimed with
        | none =>
          have hstep : w' = w := hclaimed.1
          rw [hstep]
          exact hrest
        | some other =>
          obtain ⟨hroom, rfl, hmembers⟩ := hclaimed
          have hlt : handle < w.group.members.size := (Array.getElem?_eq_some_iff.mp hhandle).1
          refine Transaction.Delivers.pure fun firstFree cursor => ?_
          refine ⟨⟨id, p⟩, ⟨x.neighborsAt.page, q⟩, ?_, ?_, .twoPages _ rs qs e a rfl
            (Nat.ne_of_gt hlt) hrs hqs helement hslot (Nat.not_lt.mp hsmall) hroom⟩
          · show w'.group.members[handle]? = _
            rw [hmembers, Array.getElem?_push, if_neg (Nat.ne_of_lt hlt), hhandle]
          · show w'.group.members[w.group.members.size]? = _
            rw [hmembers, Array.getElem?_push, if_pos rfl]

omit h in
theorem delivers_appendAfter {v : Store} {w : Work} (hw : Staged s w v) (hidle : s.held = [])
    (hcount : s.pageCount = s.pages.size) {handle : Nat} {m : Member}
    (hm : w.group.members[handle]? = some m) (hF : 4294967296 ≤ v.pages.size → F) :
    Transaction.Delivers F (appendAfter handle) w fun fresh w' =>
      Staged s w' (v.extend m.id m.image) ∧ fresh ≠ handle ∧
      w'.group.members[handle]? = some ⟨m.id, m.image.setNext (UInt32.ofNat v.pages.size)⟩ ∧
      w'.group.members[fresh]? = some ⟨UInt32.ofNat v.pages.size, Page.empty⟩ := by
  have hlt : handle < w.group.members.size := (Array.getElem?_eq_some_iff.mp hm).1
  have hrun : Transaction.Delivers F (appendAfter handle) w fun fresh _ => fresh ≠ handle := by
    rw [appendAfter]
    apply (Transaction.delivers_append hw hidle hcount hF).bind
    rintro fresh w₁ ⟨-, rfl, -, hmembers⟩
    have hfresh : w₁.group.members[w.group.members.size]? =
        some ⟨UInt32.ofNat v.pages.size, Page.empty⟩ := by
      rw [hmembers, Array.getElem?_push, if_pos rfl]
    have hm₁ : w₁.group.members[handle]? = some m := by
      rw [hmembers, Array.getElem?_push, if_neg (Nat.ne_of_lt hlt), hm]
    apply Transaction.Delivers.step (Transaction.pageId_eq hfresh)
    apply Transaction.Delivers.step (Transaction.image_eq hm₁)
    exact Nat.ne_of_gt hlt
  refine (hrun.and_ensures (ensures_appendAfter hw hcount hm)).mono fun fresh w' hend => ?_
  exact ⟨hend.2.1, hend.1, hend.2.2.2⟩

theorem delivers_newPages (size : PairSize) (room : Nat) (hempty : Page.empty.freeSpace = room)
    (helement : size.element ≤ room) (hneighbors : size.neighbors ≤ room)
    (firstFree : Option PageId) {w : Work} (hw : Staged s w s) {handle : Nat} {m : Member}
    (hm : w.group.members[handle]? = some m) (hF : 4294967295 ≤ s.pages.size → F) :
    Transaction.Delivers F (do
        let fresh ← appendAfter handle
        if size.together ≤ room then
          return ⟨fresh, fresh, none, firstFree, s.cursor⟩
        else
          let second ← appendAfter fresh
          return ⟨fresh, second, none, firstFree, s.cursor⟩) w
      fun place w' => Roomy t.dimensions.toNat size place w' := by
  have hb := h.bounded
  apply (delivers_appendAfter hw h.idle h.pageCount_eq hm fun hfull =>
    absurd hfull (by omega)).bind
  rintro fresh w₁ ⟨hw₁, -, -, hfresh⟩
  by_cases hboth : size.together ≤ room
  · rw [if_pos hboth]
    exact Transaction.Delivers.pure ⟨_, _, hfresh, hfresh,
      .together [] rfl rfl (Page.carries_empty _) (by rwa [hempty])⟩
  · rw [if_neg hboth]
    apply (delivers_appendAfter hw₁ h.idle h.pageCount_eq hfresh (by
      intro hfull
      rw [Store.size_extend] at hfull
      exact hF (by omega))).bind
    rintro second w₂ ⟨-, hne, hm₂, hsecond⟩
    refine Transaction.Delivers.pure ⟨_, _, hm₂, hsecond, .apart [] [] rfl hne
      ((Page.carries_empty _).setNext _) (Page.carries_empty _) ?_ (by rwa [hempty])⟩
    rw [Page.holds_empty.freeSpace_setNext, hempty]
    exact helement

/-- The walk ends with enough room, unless page numbers run out. Pages are chained in the order of
their numbers, so it has come to an end before its steps are used up. -/
theorem delivers_probeFrom (size : PairSize) (helement : size.element ≤ Page.empty.freeSpace)
    (hneighbors : size.neighbors ≤ Page.empty.freeSpace) (hF : 4294967295 ≤ s.pages.size → F)
    (steps : Nat) :
    ∀ (current : PageId) (firstFree : Option PageId) (w : Work), 0 < current.toNat →
      current.toNat < s.pages.size → s.pages.size ≤ current.toNat + steps → Tidy s w →
      Transaction.Delivers F (probeFrom size s.entry s.cursor steps current firstFree) w
        fun place w' => Roomy t.dimensions.toNat size place w' := by
  induction steps with
  | zero =>
    intro current firstFree w _ hlt hsteps _
    exact absurd hlt (Nat.not_lt.mpr hsteps)
  | succ steps ih =>
    intro current firstFree w hpos hlt hsteps hw
    have hb := h.bounded
    obtain ⟨p, hp⟩ : ∃ p, s.pages[current.toNat]? = some p :=
      ⟨s.pages[current.toNat], Array.getElem?_eq_getElem hlt⟩
    obtain ⟨rs, hrs⟩ := h.filled current.toNat p hpos hp
    have hrestart : Transaction.restart w = .ok () ⟨s, .empty⟩ := by
      rw [Transaction.restart, hw.release]
    have hregister := register_empty current s p (h.lt_pageCount _ p hp) (h.isHeld_eq _) hp
    have hstaged : Staged s ⟨s.locked current, .single current p⟩ s := by
      have := Transaction.ensures_register (Staged.empty s) current
      rw [Transaction.Ensures, hregister] at this
      exact this.1
    have hm : (Group.single current p).members[0]? = some ⟨current, p⟩ := rfl
    rw [probeFrom]
    generalize hempty : Page.empty.freeSpace = room at helement hneighbors ⊢
    apply Transaction.Delivers.step hrestart
    apply Transaction.Delivers.step hregister
    apply Transaction.Delivers.step (Transaction.image_single current p _)
    by_cases hfits : size.together ≤ p.freeSpace
    · rw [if_pos hfits]
      exact Transaction.Delivers.pure ⟨_, _, hm, hm, .together rs rfl rfl hrs hfits⟩
    · rw [if_neg hfits]
      by_cases htail : size.element ≤ p.freeSpace ∧ p.next = noPage
      · rw [if_pos htail]
        apply (delivers_appendAfter hstaged h.idle h.pageCount_eq hm fun hfull =>
          absurd hfull (by omega)).bind
        rintro fresh w₁ ⟨-, hne, hm₁, hfresh⟩
        refine Transaction.Delivers.pure ⟨_, _, hm₁, hfresh, .apart rs [] rfl hne (hrs.setNext _)
          (Page.carries_empty _) ?_ (by rwa [hempty])⟩
        rw [hrs.holds.freeSpace_setNext]
        exact htail.1
      · rw [if_neg htail]
        obtain ⟨deleted, hdeleted, hpaired⟩ := tombstones_intact h hp hrs
        apply Transaction.Delivers.step (Transaction.ofExcept_ok hdeleted)
        apply (delivers_claimTombstone h size hp hrs hstaged hm (by
          intro x hx
          obtain rfl := List.mem_singleton.mp hx
          rfl) deleted fun x hx => (hpaired x hx).imp fun e he => he.imp fun a ha => ha.2).bind
        intro claimed w₁ hclaimed
        cases claimed with
        | some found => exact Transaction.Delivers.pure (hclaimed _ _)
        | none =>
          have hstep : w₁ = ⟨s.locked current, .single current p⟩ := hclaimed
          rw [hstep]
          by_cases hlast : p.next = noPage
          · simp only [if_pos hlast]
            exact delivers_newPages h size _ hempty helement hneighbors _ hstaged hm hF
          · simp only [if_neg hlast]
            obtain ⟨hsucc, hmore⟩ := h.toNat_next current.toNat p hpos hp hlast
            exact ih _ _ _ (by omega) (by omega) (by omega) hstaged.tidy

theorem delivers_allocate (size : PairSize) (helement : size.element ≤ Page.empty.freeSpace)
    (hneighbors : size.neighbors ≤ Page.empty.freeSpace) (hF : 4294967295 ≤ s.pages.size → F) :
    Transaction.Delivers F (allocate size) ⟨s, .empty⟩ fun place w =>
      Roomy t.dimensions.toNat size place w := by
  have hget : (get : Transaction Work) ⟨s, .empty⟩ = .ok ⟨s, .empty⟩ ⟨s, .empty⟩ := rfl
  rw [allocate]
  apply Transaction.Delivers.step hget
  refine delivers_probeFrom h size helement hneighbors hF _ _ _ _ h.cursor_pos h.cursor_lt ?_
    (Tidy.empty s)
  rw [h.pageCount_eq]
  omega

end

theorem Page.Carries.replace_two {width : Nat} {p : Page} {rs : List Record} {i j : Nat}
    {e e' : Element} {a a' : Adjacency} (h : p.Carries width rs)
    (hi : rs[i]? = some (.element e)) (hj : rs[j]? = some (.adjacency a))
    (he : Record.Fits width (.element e')) (ha : Record.Fits width (.adjacency a'))
    (hroom : e'.encode.size ≤ p.upper - p.lower + e.encode.size)
    (hroom' : a'.encode.size + (e'.encode.size - e.encode.size) ≤
      p.upper - p.lower + a.encode.size) :
    ∃ q q', p.overwriteItem i e'.encode = .ok q ∧ q.overwriteItem j a'.encode = .ok q' := by
  obtain ⟨q, hq, hqs, -⟩ := h.replace i (.element e) (.element e') hi he hroom
  have hne : i ≠ j := by
    rintro rfl
    rw [hi] at hj
    cases hj
  have hj' : (rs.set i (.element e'))[j]? = some (.adjacency a) := by
    rw [List.getElem?_set_ne hne, hj]
  have hgap : q.upper - q.lower + e'.encode.size = p.upper - p.lower + e.encode.size := by
    have hp := h.holds.gap
    have hq := hqs.holds.gap
    have htotal := Page.totalSize_set (rs.map Record.encode) i e.encode e'.encode
      (by rw [List.getElem?_map, hi]; rfl)
    rw [List.map_set, List.length_set] at hq
    have hset : (rs.map Record.encode).set i (Record.element e').encode =
        (rs.map Record.encode).set i e'.encode := rfl
    rw [hset] at hq
    omega
  obtain ⟨q', hq', -⟩ := hqs.replace j (.adjacency a) (.adjacency a') hj' ha (by
    show a'.encode.size ≤ q.upper - q.lower + a.encode.size
    omega)
  exact ⟨q, q', hq, hq'⟩

section
variable {s v : Store} {F : Prop} {w : Work}

theorem delivers_writeMember (hw : Staged s w v) {handle : Nat} {m : Member}
    (hm : w.group.members[handle]? = some m) (what : PairWrite) {write : Page → Except Error Page}
    {q : Page} (hq : write m.image = .ok q) :
    Transaction.Delivers F (writeMember handle what write) w fun _ w' =>
      Staged s w' (v.withPage m.id q) ∧
      ∀ k, w'.group.members[k]? = if k = handle then some ⟨m.id, q⟩ else w.group.members[k]? := by
  have hattempt : attempt what (write m.image) w = .ok q w := by
    rw [hq]
    rfl
  rw [writeMember]
  apply Transaction.Delivers.step (Transaction.image_eq hm)
  apply Transaction.Delivers.step hattempt
  exact hw.setImage q hm

theorem delivers_writeMembers (hw : Staged s w v) {i j : Nat} {m k : Member}
    (hm : w.group.members[i]? = some m) (hk : w.group.members[j]? = some k)
    (what what' : PairWrite) {write write' : Page → Except Error Page} {q q' : Page}
    (hq : write m.image = .ok q) (hq' : write' (if j = i then q else k.image) = .ok q') :
    Transaction.Delivers F (do writeMember i what write; writeMember j what' write') w
      fun _ _ => True := by
  apply (delivers_writeMember hw hm what hq).bind
  rintro _ w₁ ⟨hw₁, hget⟩
  have hk₁ := hget j
  by_cases hsame : j = i
  · rw [if_pos hsame] at hk₁ hq'
    exact (delivers_writeMember hw₁ hk₁ what' hq').mono fun _ _ _ => trivial
  · rw [if_neg hsame] at hk₁ hq'
    exact (delivers_writeMember hw₁ (hk₁.trans hk) what' hq').mono fun _ _ _ => trivial

theorem delivers_writePair {width : Nat} {place : Placement} {m k : Member} {e : Element}
    {a : Adjacency} (hw : Staged s w v) (hm : w.group.members[place.elementPage]? = some m)
    (hk : w.group.members[place.neighborPage]? = some k)
    (hample : Ample width ⟨e.encode.size, a.encode.size⟩ place m k)
    (he : Record.Fits width (.element e)) (ha : Record.Fits width (.adjacency a)) :
    Transaction.Delivers F (writePair place (place.slots m.image k.image) e.encode a.encode) w
      fun _ _ => True := by
  cases hample with
  | together rs new same carries room =>
    obtain ⟨q, q', hq, hq', -⟩ := carries.add_two (.element e) (.adjacency a) he ha room
    have hsecond : ((if place.neighborPage = place.elementPage then q else k.image).addItem
        a.encode).map Prod.snd = .ok q' := by
      rw [if_pos same]
      exact congrArg (Except.map Prod.snd) hq'
    rw [writePair, new]
    exact delivers_writeMembers hw hm hk _ _ (congrArg (Except.map Prod.snd) hq) hsecond
  | apart rs qs new other carries carries' room room' =>
    have hroom : ∀ (p : Page) (r : Record), r.encode.size ≤ p.freeSpace →
        r.encode.size + 4 ≤ p.upper - p.lower := by
      intro p r hr
      have hpos := Page.Carries.size_pos r
      rw [Page.freeSpace, Page.itemIdSize] at hr
      omega
    obtain ⟨q, hq, -⟩ := carries.add (.element e) he (hroom _ _ room)
    obtain ⟨q', hq', -⟩ := carries'.add (.adjacency a) ha (hroom _ _ room')
    have hsecond : ((if place.neighborPage = place.elementPage then q else k.image).addItem
        a.encode).map Prod.snd = .ok q' := by
      rw [if_neg other]
      exact congrArg (Except.map Prod.snd) hq'
    rw [writePair, new]
    exact delivers_writeMembers hw hm hk _ _ (congrArg (Except.map Prod.snd) hq) hsecond
  | onePage r rs f b reuse same carries element neighbors room room' =>
    obtain ⟨q, q', hq, hq'⟩ := carries.replace_two element neighbors he ha room room'
    have hslots : place.slots m.image k.image = (r.elementSlot, r.neighborSlot) := by
      rw [Placement.slots, reuse]
    have hsecond : (if place.neighborPage = place.elementPage then q else k.image).overwriteItem
        r.neighborSlot a.encode = .ok q' := by
      rw [if_pos same]
      exact hq'
    rw [hslots, writePair, reuse]
    exact delivers_writeMembers hw hm hk _ _ hq hsecond
  | twoPages r rs qs f b reuse other carries carries' element neighbors room room' =>
    obtain ⟨q, hq, -⟩ := carries.replace r.elementSlot (.element f) (.element e) element he room
    obtain ⟨q', hq', -⟩ :=
      carries'.replace r.neighborSlot (.adjacency b) (.adjacency a) neighbors ha room'
    have hslots : place.slots m.image k.image = (r.elementSlot, r.neighborSlot) := by
      rw [Placement.slots, reuse]
    have hsecond : (if place.neighborPage = place.elementPage then q else k.image).overwriteItem
        r.neighborSlot a.encode = .ok q' := by
      rw [if_neg other]
      exact hq'
    rw [hslots, writePair, reuse]
    exact delivers_writeMembers hw hm hk _ _ hq hsecond

end

def Placement.Takes (place : Placement) (w : Work) (element neighbors : Bytes) : Prop :=
  ∃ m k w', w.group.members[place.elementPage]? = some m ∧
    w.group.members[place.neighborPage]? = some k ∧
    writePair place (place.slots m.image k.image) element neighbors w = .ok () w'

section
variable {t : Header} {s : Store} (h : s.Intact t) {F : Prop} (d : Draft)
  (hd : d.vector.length = t.dimensions.toNat)
  (helement : Element.encodedSize d.vector.length ≤ Page.empty.freeSpace)
  (hneighbors : Adjacency.encodedSize d.level.toNat t.m.toNat ≤ Page.empty.freeSpace)
include h hd helement hneighbors

theorem delivers_takes (hF : 4294967295 ≤ s.pages.size → F) :
    Transaction.Delivers F
      (allocate ⟨Element.encodedSize d.vector.length, (d.adjacency t.m.toNat).encode.size⟩)
      ⟨s, .empty⟩ fun place w => ∀ at_ : Location, place.Takes w
        { d.element with neighborsAt := at_ : Element }.encode (d.adjacency t.m.toNat).encode := by
  have hpage : Page.empty.freeSpace ≤ pageSize := by
    rw [Page.freeSpace_empty]
    decide
  rw [← d.size_adjacency] at hneighbors
  refine ((delivers_allocate h _ helement hneighbors hF).and_ensures
    (ensures_allocate h _)).mono ?_
  rintro place w ⟨⟨m, k, hm, hk, hample⟩, v, m', k', hroom⟩ at_
  have hsize : { d.element with neighborsAt := at_ : Element }.encode.size =
      Element.encodedSize d.vector.length := Element.size_encode _
  rw [← hsize] at hample
  obtain ⟨_, w', hrun, -⟩ := (delivers_writePair (F := False) hroom.staged hm hk hample
    ⟨hd, h.width, Element.packed_single d.level d.vector d.row⟩
    (Record.fits_adjacency _ _ (Nat.le_trans hneighbors hpage))).ok not_false
  exact ⟨m, k, w', hm, hk, hrun⟩

theorem delivers_placeAndWrite (hF : 4294967295 ≤ s.pages.size → F) :
    Transaction.Delivers F (placeAndWrite d t.m.toNat) ⟨s, .empty⟩ fun _ _ => True := by
  rw [placeAndWrite]
  apply (delivers_takes h d hd helement hneighbors hF).bind
  intro place w htakes
  obtain ⟨m, k, -, hm, hk, -⟩ := htakes .unused
  apply Transaction.Delivers.step (Transaction.pageId_eq hm)
  apply Transaction.Delivers.step (Transaction.pageId_eq hk)
  apply Transaction.Delivers.step (Transaction.image_eq hm)
  apply Transaction.Delivers.step (Transaction.image_eq hk)
  obtain ⟨m', k', w', hm', hk', hrun⟩ :=
    htakes ⟨k.id, UInt16.ofNat (place.slots m.image k.image).2⟩
  obtain rfl := Option.some.inj (hm.symm.trans hm')
  obtain rfl := Option.some.inj (hk.symm.trans hk')
  exact Transaction.Delivers.step hrun (Transaction.Delivers.pure trivial)

theorem storePair_ok (hsize : s.pages.size < 4294967295) :
    ∃ st s', storePair d t.m.toNat s = .ok st s' := by
  obtain ⟨ending, w, hrun, -, hend⟩ := ((delivers_placeAndWrite h d hd helement hneighbors
    (F := False) fun hfull => absurd hsize (Nat.not_lt.mpr hfull)).and_ensures
    (ensures_placeAndWrite h d hd)).ok not_false
  obtain ⟨st, s', rfl, hw, -⟩ := hend
  exact ⟨st, s', transaction_commit _ s s' st w hrun hw.commit⟩

end

end PagedGraph
