import PagedGraph.Proofs.Edits
import PagedGraph.Proofs.Groups

/-!
# Reasoning about transactions

`Ensures s x w Q` says of a transaction `x` on a store `s`: if it goes through from `w`, then `Q`
holds of its result, and if it fails, nothing stands in the way of dropping the group. The laws
below follow a transaction step by step; `Staged` carries along what a commit would lead to.
-/

set_option autoImplicit false

namespace PagedGraph

namespace Store

def withFresh (s : Store) : Store :=
  { s with
    pages := s.pages.push Page.empty
    two_le_size := by
      have := s.two_le_size
      rw [Array.size_push]
      omega }

theorem size_withFresh (s : Store) : s.withFresh.pages.size = s.pages.size + 1 :=
  Array.size_push Page.empty

theorem getElem?_withFresh (s : Store) (i : Nat) :
    s.withFresh.pages[i]? = if i = s.pages.size then some Page.empty else s.pages[i]? :=
  Array.getElem?_push

end Store

namespace Transaction

variable {α β : Type}

/-- What a transaction on a store leads to; a failed one can be dropped without a trace. -/
def Ensures (s : Store) (x : Transaction α) (w : Work) (Q : α → Work → Prop) : Prop :=
  match x w with
  | .ok a w' => Q a w'
  | .error _ w' => Tidy s w'

variable {s v : Store} {w : Work} {Q : α → Work → Prop}

theorem bind_ok {x : Transaction α} {f : α → Transaction β} {a : α} {w' : Work}
    (h : x w = .ok a w') : (x >>= f) w = f a w' := by
  show EStateM.bind x f w = _
  rw [EStateM.bind, h]

theorem bind_error {x : Transaction α} {f : α → Transaction β} {e : Error} {w' : Work}
    (h : x w = .error e w') : (x >>= f) w = .error e w' := by
  show EStateM.bind x f w = _
  rw [EStateM.bind, h]

theorem bind_inv {x : Transaction α} {f : α → Transaction β} {b : β} {w'' : Work}
    (h : (x >>= f) w = .ok b w'') : ∃ a w', x w = .ok a w' ∧ f a w' = .ok b w'' := by
  cases hx : x w with
  | ok a w' =>
    rw [bind_ok hx] at h
    exact ⟨a, w', rfl, h⟩
  | error e w' =>
    rw [bind_error hx] at h
    cases h

theorem Ensures.bind {x : Transaction α} {f : α → Transaction β} {R : β → Work → Prop}
    (hx : Ensures s x w Q) (hf : ∀ a w', Q a w' → Ensures s (f a) w' R) :
    Ensures s (x >>= f) w R := by
  rw [Ensures] at hx ⊢
  cases hr : x w with
  | error e w' =>
    rw [hr] at hx
    rw [bind_error hr]
    exact hx
  | ok a w' =>
    rw [hr] at hx
    rw [bind_ok hr]
    exact hf a w' hx

theorem Ensures.pure {a : α} (h : Q a w) : Ensures s (Pure.pure a) w Q := h

theorem Ensures.throw {e : Error} (h : Tidy s w) : Ensures s (throw e : Transaction α) w Q := h

theorem Ensures.mono {x : Transaction α} {R : α → Work → Prop} (hx : Ensures s x w Q)
    (h : ∀ a w', Q a w' → R a w') : Ensures s x w R := by
  unfold Ensures at hx ⊢
  cases hr : x w with
  | error e w' =>
    rw [hr] at hx
    exact hx
  | ok a w' =>
    rw [hr] at hx
    exact h a w' hx

theorem Ensures.returns {x : Transaction α} (hx : Ensures s x w Q) :
    Ensures s x w fun a w' => x w = .ok a w' ∧ Q a w' := by
  unfold Ensures at hx ⊢
  cases hr : x w with
  | error e w' =>
    rw [hr] at hx
    exact hx
  | ok a w' =>
    rw [hr] at hx
    exact ⟨rfl, hx⟩

theorem ensures_restart (h : Tidy s w) : Ensures s restart w fun _ w' => w' = ⟨s, .empty⟩ := by
  show (⟨w.group.release w.store, .empty⟩ : Work) = ⟨s, .empty⟩
  rw [h.release]

theorem ensures_ofExcept (h : Tidy s w) (x : Except Error α) :
    Ensures s (ofExcept x) w fun a w' => x = .ok a ∧ w' = w := by
  cases x with
  | error e => exact h
  | ok a => exact ⟨rfl, rfl⟩

theorem image_eq {handle : Nat} {m : Member} (hm : w.group.members[handle]? = some m) :
    image handle w = .ok m.image w := by
  simp [image, member, hm, Functor.map, EStateM.map]

theorem pageId_eq {handle : Nat} {m : Member} (hm : w.group.members[handle]? = some m) :
    pageId handle w = .ok m.id w := by
  simp [pageId, member, hm, Functor.map, EStateM.map]

theorem ensures_image {handle : Nat} {m : Member} (hm : w.group.members[handle]? = some m) :
    Ensures s (image handle) w fun p w' => p = m.image ∧ w' = w := by
  rw [Ensures, image_eq hm]
  exact ⟨rfl, rfl⟩

theorem ensures_pageId {handle : Nat} {m : Member} (hm : w.group.members[handle]? = some m) :
    Ensures s (pageId handle) w fun id w' => id = m.id ∧ w' = w := by
  rw [Ensures, pageId_eq hm]
  exact ⟨rfl, rfl⟩

end Transaction

namespace Staged

variable {s v : Store} {w : Work}

theorem image_eq (h : Staged s w v) {handle : Nat} {m : Member}
    (hm : w.group.members[handle]? = some m) : v.pages[m.id.toNat]? = some m.image :=
  h.member m (Array.mem_toList_iff.mpr (Array.mem_of_getElem? hm))

theorem handle_eq (h : Staged s w v) {j k : Nat} {x y : Member}
    (hx : w.group.members[j]? = some x) (hy : w.group.members[k]? = some y)
    (hid : x.id.toNat = y.id.toNat) : j = k := by
  have hj : j < w.group.members.size := (Array.getElem?_eq_some_iff.mp hx).1
  refine (List.getElem?_inj (by simpa using hj) h.distinct).mp ?_
  rw [List.getElem?_map, List.getElem?_map, Array.getElem?_toList, Array.getElem?_toList, hx, hy]
  exact congrArg some (UInt32.toNat_inj.mp hid)

theorem setImage (h : Staged s w v) {handle : Nat} {m : Member} (q : Page)
    (hm : w.group.members[handle]? = some m) :
    Staged s { w with group := w.group.setImage handle q } (v.withPage m.id q) ∧
      ∀ k, (w.group.setImage handle q).members[k]? =
        if k = handle then some ⟨m.id, q⟩ else w.group.members[k]? := by
  have hget := w.group.getElem?_setImage hm q
  have hv := v.getElem?_withPage m.id q m.image
  have himage := h.image_eq hm
  refine ⟨⟨⟨h.tidy.pages, ?_⟩, ?_, ?_, ?_, ?_, ?_, ?_⟩, hget⟩
  · obtain ⟨mine, hheld, hperm⟩ := h.tidy.held
    exact ⟨mine, hheld, by rw [Group.locks_setImage]; exact hperm⟩
  · rw [Store.held_withPage]
    exact h.held
  · rw [Group.map_id_setImage]
    exact h.distinct
  · exact h.base
  · rw [Store.size_withPage]
    exact h.size
  · intro x hx
    obtain ⟨k, hk⟩ := Array.mem_iff_getElem?.mp (Array.mem_toList_iff.mp hx)
    rw [hget] at hk
    rw [hv _ himage]
    by_cases hkh : k = handle
    · rw [if_pos hkh] at hk
      obtain rfl : (⟨m.id, q⟩ : Member) = x := Option.some.inj hk
      rw [if_pos rfl]
    · rw [if_neg hkh] at hk
      rw [if_neg fun heq => hkh (h.handle_eq hk hm heq)]
      exact h.image_eq hk
  · -- The pages of the group are the same as before.
    intro i hi
    have hids : ∀ x ∈ w.group.members.toList, x.id.toNat ≠ i := by
      intro x hx
      have hid := List.mem_map_of_mem (f := Member.id) hx
      rw [← w.group.map_id_setImage handle q] at hid
      obtain ⟨y, hy, heq⟩ := List.mem_map.mp hid
      rw [← heq]
      exact hi y hy
    rw [hv _ himage, if_neg (hids m (Array.mem_toList_iff.mpr (Array.mem_of_getElem? hm))).symm]
    exact h.other i hids

theorem add (h : Staged s w v) (m : Member) (store : Store) (v' : Store)
    (hpages : store.pages = w.store.pages) (hheld : store.held = .page m.id :: w.store.held)
    (hfresh : ∀ x ∈ w.group.members.toList, x.id ≠ m.id) (appended : Nat)
    (hbase : w.group.base = none ∧ appended = 0 ∨ w.group.base = some s.pages.size)
    (hv : v'.held = v.held) (hsize : v'.pages.size = s.pages.size + appended)
    (himage : v'.pages[m.id.toNat]? = some m.image)
    (hother : ∀ i, i ≠ m.id.toNat → v'.pages[i]? = v.pages[i]?) :
    Staged s ⟨store, { w.group with members := w.group.members.push m, appended := appended }⟩
      v' := by
  have hmem : ∀ x, x ∈ (w.group.members.push m).toList ↔
      x ∈ w.group.members.toList ∨ x = m := by
    intro x
    rw [Array.toList_push, List.mem_append, List.mem_singleton]
  refine ⟨⟨hpages.trans h.tidy.pages, ?_⟩, hv.trans h.held, ?_, hbase, hsize, ?_, ?_⟩
  · obtain ⟨mine, hmine, hperm⟩ := h.tidy.held
    refine ⟨.page m.id :: mine, ?_, ?_⟩
    · show store.held = _
      rw [hheld, hmine]
      rfl
    · exact (hperm.cons _).trans (w.group.locks_push m)
  · show ((w.group.members.push m).toList.map Member.id).Nodup
    rw [Array.toList_push, List.map_append, List.nodup_append]
    refine ⟨h.distinct, by simp, ?_⟩
    intro a ha b hb hab
    obtain ⟨x, hx, rfl⟩ := List.mem_map.mp ha
    rw [List.map_singleton, List.mem_singleton] at hb
    exact hfresh x hx (hab.trans hb)
  · intro x hx
    rcases (hmem x).mp hx with hx | rfl
    · rw [hother _ fun heq => hfresh x hx (UInt32.toNat_inj.mp heq)]
      exact h.member x hx
    · exact himage
  · intro i hi
    rw [hother i fun heq => hi m ((hmem m).mpr (.inr rfl)) heq.symm]
    exact h.other i fun x hx => hi x ((hmem x).mpr (.inl hx))

end Staged

namespace Transaction

variable {s v : Store} {w : Work}

theorem staged_register (h : Staged s w v) {id : PageId} {handle : Nat} {g : Group}
    (hg : w.group.register (w.store.locked id) id = .ok (handle, g)) :
    Staged s ⟨w.store.locked id, g⟩ v ∧ ∃ p, s.pages[id.toNat]? = some p ∧
      v.pages[id.toNat]? = some p ∧ handle = w.group.members.size ∧
      g.members = w.group.members.push ⟨id, p⟩ ∧ ∀ x ∈ w.group.members.toList, x.id ≠ id := by
  obtain ⟨p, hp, rfl, rfl, hfresh⟩ := Group.register_ok hg
  have hs : s.pages[id.toNat]? = some p := by
    rw [← h.tidy.pages]
    exact hp
  have hv : v.pages[id.toNat]? = some p := by
    rw [h.other id.toNat fun x hx heq => hfresh x hx (UInt32.toNat_inj.mp heq), hs]
  refine ⟨?_, p, hs, hv, rfl, rfl, hfresh⟩
  exact h.add ⟨id, p⟩ (w.store.locked id) v rfl rfl hfresh w.group.appended h.base rfl h.size hv
    fun _ _ => rfl

theorem ensures_register (h : Staged s w v) (id : PageId) :
    Ensures s (register id) w fun handle w' => Staged s w' v ∧ ∃ p,
      s.pages[id.toNat]? = some p ∧ v.pages[id.toNat]? = some p ∧
      handle = w.group.members.size ∧ w'.group.members = w.group.members.push ⟨id, p⟩ := by
  unfold Ensures register
  cases hlock : w.store.lock id with
  | error e => exact h.tidy
  | ok store =>
    have htry : w.store.tryLock id = .ok (some store) := by
      rw [Store.lock] at hlock
      cases ht : w.store.tryLock id with
      | error e =>
        rw [ht] at hlock
        cases hlock
      | ok taken =>
        rw [ht] at hlock
        cases taken with
        | none => cases hlock
        | some x =>
          cases hlock
          rfl
    obtain ⟨-, -, rfl⟩ := Store.tryLock_some htry
    cases hg : w.group.register (w.store.locked id) id with
    | error e =>
      simp only [hg, Store.release_locked]
      exact h.tidy
    | ok r =>
      obtain ⟨handle, g⟩ := r
      simp only [hg]
      obtain ⟨hstaged, p, hp, hv, hhandle, hmembers, -⟩ := staged_register h hg
      exact ⟨hstaged, p, hp, hv, hhandle, hmembers⟩

theorem ensures_append (h : Staged s w v) (hcount : s.pageCount = s.pages.size) :
    Ensures s append w fun handle w' => Staged s w' v.withFresh ∧
      handle = w.group.members.size ∧ v.pages.size < 4294967296 ∧
      w'.group.members = w.group.members.push ⟨UInt32.ofNat v.pages.size, Page.empty⟩ := by
  -- After the right to grow is taken, the group knows how many pages there were.
  have hclaim : ∀ store g base, w.group.claimGrowth w.store = .ok (store, g, base) →
      Staged s ⟨store, g⟩ v ∧ base = s.pages.size ∧ g.base = some s.pages.size ∧
        g.members = w.group.members := by
    intro store g base hc
    rw [Group.claimGrowth] at hc
    rcases h.base with ⟨hbase, happ⟩ | hbase
    · rw [hbase] at hc
      simp only [Store.tryAcquire] at hc
      by_cases hheld : w.store.isHeld .growth = true
      · rw [if_pos hheld] at hc
        cases hc
      · rw [if_neg hheld] at hc
        have hpc : w.store.pageCount = s.pages.size := by
          rw [← hcount, Store.pageCount, Store.pageCount, h.tidy.pages]
        have hpc' : (Store.mk w.store.pages (.growth :: w.store.held)
            w.store.two_le_size).pageCount = s.pages.size := hpc
        simp only [hpc'] at hc
        cases hc
        refine ⟨⟨⟨h.tidy.pages, ?_⟩, h.held, h.distinct, .inr rfl, h.size, h.member, h.other⟩,
          rfl, rfl, rfl⟩
        obtain ⟨mine, hmine, hperm⟩ := h.tidy.held
        refine ⟨.growth :: mine, ?_, ?_⟩
        · show Lock.growth :: w.store.held = _
          rw [hmine]
          rfl
        · exact (hperm.cons _).trans (w.group.locks_claim s.pages.size hbase)
    · rw [hbase] at hc
      cases hc
      exact ⟨h, rfl, hbase, rfl⟩
  unfold Ensures append
  rw [Group.append]
  cases hc : w.group.claimGrowth w.store with
  | error e => exact h.tidy
  | ok r =>
    obtain ⟨store, g, base⟩ := r
    obtain ⟨hstaged, rfl, hbase, hmembers⟩ := hclaim store g base hc
    have hsize : v.pages.size = s.pages.size + g.appended := hstaged.size
    simp only [← hsize]
    by_cases hlimit : 4294967296 ≤ v.pages.size
    · simp only [if_pos hlimit]
      exact hstaged.tidy
    · simp only [if_neg hlimit]
      cases ht : store.tryAcquire (.page (UInt32.ofNat v.pages.size)) with
      | none => exact h.tidy
      | some locked =>
        have hid : (UInt32.ofNat v.pages.size).toNat = v.pages.size := by
          rw [UInt32.toNat_ofNat']
          omega
        obtain ⟨-, hlocked⟩ := Store.tryAcquire_some ht
        refine ⟨?_, by rw [hmembers], Nat.not_le.mp hlimit, by rw [← hmembers]⟩
        refine hstaged.add ⟨UInt32.ofNat v.pages.size, Page.empty⟩ locked v.withFresh hlocked.1
          hlocked.2 ?_ (g.appended + 1) (.inr hbase) rfl ?_ ?_ ?_
        · intro x hx heq
          have := hstaged.member_lt x hx
          rw [heq, hid] at this
          omega
        · rw [Store.size_withFresh, hsize]
          omega
        · show v.withFresh.pages[(UInt32.ofNat v.pages.size).toNat]? = some Page.empty
          rw [hid, Store.getElem?_withFresh, if_pos rfl]
        · intro i hi
          have hi' : i ≠ v.pages.size := by rwa [hid] at hi
          rw [Store.getElem?_withFresh, if_neg hi']

end Transaction

end PagedGraph
