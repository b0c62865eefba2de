import PagedGraph.Store.Transaction

/-!
# Locks and the ends of groups

A lock can be taken only while nobody holds it, and a group takes its pages under locks of their
own. At its end a group gives back its locks and nothing else, in whatever order they were taken.
When it is committed, every member's page gets the member's image and every other page keeps its
own.
-/

set_option autoImplicit false

namespace PagedGraph

theorem foldl_erase_perm (held others : List Lock) :
    ∀ mine : List Lock, mine.Perm held → held.foldl List.erase (mine ++ others) = others := by
  induction held with
  | nil =>
    intro mine h
    rw [h.eq_nil]
    rfl
  | cons lock rest ih =>
    intro mine h
    have hmem : lock ∈ mine := h.mem_iff.mpr List.mem_cons_self
    have hperm : (mine.erase lock).Perm rest := by
      have := h.erase lock
      rwa [List.erase_cons_head] at this
    rw [List.foldl_cons, List.erase_append_left _ hmem]
    exact ih _ hperm

theorem Store.eq_of_parts {s v : Store} (hpages : s.pages = v.pages) (hheld : s.held = v.held) :
    s = v := by
  obtain ⟨pages, held, two_le_size⟩ := s
  obtain ⟨pages', held', two_le_size'⟩ := v
  obtain rfl : pages = pages' := hpages
  obtain rfl : held = held' := hheld
  rfl

namespace Store

def locked (s : Store) (id : PageId) : Store :=
  { s with held := .page id :: s.held, two_le_size := s.two_le_size }

theorem release_locked (s : Store) (id : PageId) : (s.locked id).release (.page id) = s := by
  simp [locked, release]

theorem tryAcquire_some {s s' : Store} {lock : Lock} (h : s.tryAcquire lock = some s') :
    lock ∉ s.held ∧ s'.pages = s.pages ∧ s'.held = lock :: s.held := by
  rw [tryAcquire] at h
  by_cases hheld : s.isHeld lock = true
  · rw [if_pos hheld] at h
    cases h
  · rw [if_neg hheld] at h
    cases h
    exact ⟨fun hmem => hheld (List.contains_iff_mem.mpr hmem), rfl, rfl⟩

theorem tryAcquire_none {s : Store} {lock : Lock} (h : s.tryAcquire lock = none) :
    lock ∈ s.held := by
  rw [tryAcquire] at h
  by_cases hheld : s.isHeld lock = true
  · exact List.contains_iff_mem.mp hheld
  · rw [if_neg hheld] at h
    cases h

theorem tryLock_some {s s' : Store} {id : PageId} (h : s.tryLock id = .ok (some s')) :
    id.toNat < s.pageCount ∧ .page id ∉ s.held ∧ s' = s.locked id := by
  rw [tryLock] at h
  by_cases hid : s.pageCount ≤ id.toNat
  · rw [if_pos hid] at h
    cases h
  · rw [if_neg hid] at h
    obtain ⟨hfree, hpages, hheld⟩ := tryAcquire_some (Except.ok.inj h)
    exact ⟨Nat.not_le.mp hid, hfree, eq_of_parts hpages hheld⟩

end Store

namespace Group

theorem locks_push (g : Group) (m : Member) :
    (Lock.page m.id :: g.locks).Perm { g with members := g.members.push m }.locks := by
  simp only [locks, Array.toList_push, List.map_append, List.map_cons, List.map_nil,
    List.append_assoc]
  exact List.perm_middle.symm

theorem locks_claim (g : Group) (base : Nat) (hg : g.base = none) :
    (Lock.growth :: g.locks).Perm { g with base := some base }.locks := by
  simp only [locks, hg, List.append_nil]
  exact (List.perm_append_singleton _ _).symm

theorem getElem?_setImage (g : Group) {handle : Nat} {m : Member}
    (hm : g.members[handle]? = some m) (image : Page) (k : Nat) :
    (g.setImage handle image).members[k]? =
      if k = handle then some ⟨m.id, image⟩ else g.members[k]? := by
  rw [setImage, Array.getElem?_modify]
  by_cases hk : handle = k
  · subst hk
    rw [if_pos rfl, if_pos rfl, hm]
    rfl
  · rw [if_neg hk, if_neg (Ne.symm hk)]

theorem map_id_setImage (g : Group) (handle : Nat) (image : Page) :
    (g.setImage handle image).members.toList.map Member.id = g.members.toList.map Member.id := by
  apply List.ext_getElem?
  intro i
  rw [setImage, List.getElem?_map, List.getElem?_map, Array.getElem?_toList,
    Array.getElem?_toList, Array.getElem?_modify]
  by_cases hi : handle = i
  · rw [if_pos hi, Option.map_map]
    rfl
  · rw [if_neg hi]

theorem locks_setImage (g : Group) (handle : Nat) (image : Page) :
    (g.setImage handle image).locks = g.locks := by
  have hmap : ∀ ms : List Member, (ms.map fun m => Lock.page m.id) =
      (ms.map Member.id).map Lock.page := by
    intro ms
    rw [List.map_map]
    rfl
  rw [locks, locks, hmap, hmap, map_id_setImage]
  rfl

theorem register_ok {g g' : Group} {s : Store} {id : PageId} {handle : Nat}
    (h : g.register s id = .ok (handle, g')) :
    ∃ p, s.pages[id.toNat]? = some p ∧ handle = g.members.size ∧
      g' = { g with members := g.members.push ⟨id, p⟩ } ∧ ∀ x ∈ g.members.toList, x.id ≠ id := by
  rw [register] at h
  by_cases hany : (g.members.any (·.id == id)) = true
  · rw [if_pos hany] at h
    cases h
  · rw [if_neg hany, Store.readPage] at h
    cases hp : s.pages[id.toNat]? with
    | none =>
      rw [hp] at h
      cases h
    | some p =>
      rw [hp] at h
      cases h
      refine ⟨p, rfl, rfl, rfl, ?_⟩
      intro x hx heq
      apply hany
      rw [Array.any_eq_true']
      exact ⟨x, Array.mem_toList_iff.mp hx, by simp [heq]⟩

theorem pages_release (g : Group) (s : Store) : (g.release s).pages = s.pages := by
  rw [release]
  induction g.locks generalizing s with
  | nil => rfl
  | cons lock rest ih =>
    rw [List.foldl_cons, ih]
    rfl

theorem held_release (g : Group) (s : Store) :
    (g.release s).held = g.locks.foldl List.erase s.held := by
  rw [release]
  induction g.locks generalizing s with
  | nil => rfl
  | cons lock rest ih =>
    rw [List.foldl_cons, ih, List.foldl_cons]
    rfl

def writeMembers (pages : Array Page) (ms : List Member) : Array Page :=
  ms.foldl (fun pages m => pages.setIfInBounds m.id.toNat m.image) pages

theorem writeBack_eq (g : Group) (pages : Array Page) :
    g.writeBack pages = writeMembers pages g.members.toList := by
  rw [writeBack, writeMembers, Array.foldl_toList]

theorem getElem?_writeMembers_of_ne (ms : List Member) (i : Nat) :
    ∀ pages : Array Page, (∀ m ∈ ms, m.id.toNat ≠ i) → (writeMembers pages ms)[i]? = pages[i]? := by
  induction ms with
  | nil =>
    intro pages _
    rfl
  | cons m ms ih =>
    intro pages h
    show (writeMembers (pages.setIfInBounds m.id.toNat m.image) ms)[i]? = _
    rw [ih _ fun x hx => h x (List.mem_cons_of_mem _ hx),
      Array.getElem?_setIfInBounds_ne (h m List.mem_cons_self)]

theorem getElem?_writeMembers (ms : List Member) : ∀ pages : Array Page,
    (ms.map Member.id).Nodup → ∀ m ∈ ms, m.id.toNat < pages.size →
      (writeMembers pages ms)[m.id.toNat]? = some m.image := by
  induction ms with
  | nil =>
    intro pages _ m hm
    cases hm
  | cons x ms ih =>
    intro pages hd m hm hlt
    rw [List.map_cons, List.nodup_cons] at hd
    show (writeMembers (pages.setIfInBounds x.id.toNat x.image) ms)[m.id.toNat]? = _
    rcases List.mem_cons.mp hm with rfl | hm
    · rw [getElem?_writeMembers_of_ne ms m.id.toNat, Array.getElem?_setIfInBounds_self_of_lt hlt]
      intro y hy heq
      apply hd.1
      rw [← UInt32.toNat_inj.mp heq]
      exact List.mem_map_of_mem hy
    · exact ih _ hd.2 m hm (by rwa [Array.size_setIfInBounds])

def grown (g : Group) (s : Store) : Array Page :=
  s.pages ++ Array.replicate (g.limit s - s.pages.size) Page.empty

theorem commit_ok (g : Group) (s : Store)
    (h : ∀ m ∈ g.members.toList, m.id.toNat < g.limit s) :
    ∃ s', g.commit s = (.ok (), s') ∧ s'.pages = writeMembers (g.grown s) g.members.toList ∧
      s'.held = g.locks.foldl List.erase s.held := by
  have hfind : (g.members.find? fun m => g.limit s ≤ m.id.toNat) = none := by
    rw [Array.find?_eq_none]
    intro m hm
    have := h m (Array.mem_toList_iff.mpr hm)
    simpa using this
  simp only [commit, hfind]
  refine ⟨_, rfl, ?_, held_release _ _⟩
  rw [pages_release, ← writeBack_eq]
  rfl

theorem commit_error (g : Group) (s : Store)
    (h : ¬∀ m ∈ g.members.toList, m.id.toNat < g.limit s) :
    ∃ e, g.commit s = (.error e, g.release s) := by
  cases hfind : (g.members.find? fun m => g.limit s ≤ m.id.toNat) with
  | none =>
    rw [Array.find?_eq_none] at hfind
    refine absurd (fun m hm => ?_) h
    simpa using hfind m (Array.mem_toList_iff.mp hm)
  | some m =>
    refine ⟨.beyondEnd m.id (g.limit s), ?_⟩
    simp only [commit, hfind]

theorem size_commit {g : Group} {s s' : Store} (hc : g.commit s = (.ok (), s')) :
    s'.pages.size = max s.pages.size (g.limit s) := by
  by_cases hreach : ∀ m ∈ g.members.toList, m.id.toNat < g.limit s
  · obtain ⟨s₁, hs₁, hpages, -⟩ := g.commit_ok s hreach
    obtain rfl : s₁ = s' := (Prod.mk.inj (hs₁.symm.trans hc)).2
    rw [hpages, ← writeBack_eq, size_writeBack, grown, Array.size_append, Array.size_replicate]
    omega
  · obtain ⟨e, he⟩ := g.commit_error s hreach
    rw [he] at hc
    cases (Prod.mk.inj hc).1

end Group

/-- A transaction on a store is under way and can still be dropped without a trace. -/
structure Tidy (s : Store) (w : Work) : Prop where
  pages : w.store.pages = s.pages
  held : ∃ mine, w.store.held = mine ++ s.held ∧ mine.Perm w.group.locks

namespace Tidy

variable {s : Store} {w : Work}

theorem empty (s : Store) : Tidy s ⟨s, .empty⟩ where
  pages := rfl
  held := ⟨[], rfl, .refl _⟩

theorem held_release (h : Tidy s w) : (w.group.release w.store).held = s.held := by
  obtain ⟨mine, hheld, hperm⟩ := h.held
  rw [Group.held_release, hheld]
  exact foldl_erase_perm _ _ mine hperm

theorem release (h : Tidy s w) : w.group.release w.store = s :=
  Store.eq_of_parts ((Group.pages_release _ _).trans h.pages) h.held_release

end Tidy

/-- A transaction is under way on a store, and a commit now would lead to the store `v`. -/
structure Staged (s : Store) (w : Work) (v : Store) : Prop where
  tidy : Tidy s w
  held : v.held = s.held
  distinct : (w.group.members.toList.map Member.id).Nodup
  base : w.group.base = none ∧ w.group.appended = 0 ∨ w.group.base = some s.pages.size
  size : v.pages.size = s.pages.size + w.group.appended
  member : ∀ m ∈ w.group.members.toList, v.pages[m.id.toNat]? = some m.image
  other : ∀ i, (∀ m ∈ w.group.members.toList, m.id.toNat ≠ i) → v.pages[i]? = s.pages[i]?

namespace Staged

variable {s v : Store} {w : Work}

theorem empty (s : Store) : Staged s ⟨s, .empty⟩ s where
  tidy := .empty s
  held := rfl
  distinct := List.nodup_nil
  base := .inl ⟨rfl, rfl⟩
  size := rfl
  member := by
    intro m hm
    cases hm
  other := by
    intro i _
    rfl

theorem limit_eq (h : Staged s w v) : w.group.limit w.store = v.pages.size := by
  rw [h.size, Group.limit, h.tidy.pages]
  rcases h.base with ⟨hbase, happ⟩ | hbase
  · rw [hbase, happ]
    rfl
  · rw [hbase]
    by_cases happ : 0 < w.group.appended
    · exact if_pos happ
    · simp only [if_neg happ]
      omega

theorem member_lt (h : Staged s w v) (m : Member) (hm : m ∈ w.group.members.toList) :
    m.id.toNat < v.pages.size :=
  (Array.getElem?_eq_some_iff.mp (h.member m hm)).1

theorem commit (h : Staged s w v) : w.group.commit w.store = (.ok (), v) := by
  obtain ⟨s', hs', hpages, hheld⟩ := w.group.commit_ok w.store (by
    intro m hm
    rw [h.limit_eq]
    exact h.member_lt m hm)
  have hsize : (w.group.grown w.store).size = v.pages.size := by
    have := h.size
    rw [Group.grown, Array.size_append, Array.size_replicate, h.limit_eq, h.tidy.pages]
    omega
  rw [hs']
  congr 1
  apply Store.eq_of_parts
  · apply Array.ext_getElem?
    intro i
    rw [hpages]
    by_cases hi : ∃ m ∈ w.group.members.toList, m.id.toNat = i
    · obtain ⟨m, hm, rfl⟩ := hi
      rw [Group.getElem?_writeMembers _ _ h.distinct m hm (by rw [hsize]; exact h.member_lt m hm),
        h.member m hm]
    · have hne : ∀ m ∈ w.group.members.toList, m.id.toNat ≠ i := fun m hm heq => hi ⟨m, hm, heq⟩
      have hv := h.other i hne
      rw [Group.getElem?_writeMembers_of_ne _ i _ hne, hv, Group.grown, h.tidy.pages]
      rcases Nat.lt_or_ge i s.pages.size with hlt | hge
      · exact Array.getElem?_append_left hlt
      · rw [Array.getElem?_eq_none hge] at hv ⊢
        have := Array.getElem?_eq_none_iff.mp hv
        apply Array.getElem?_eq_none
        rw [Group.grown, h.tidy.pages] at hsize
        rwa [hsize]
  · rw [hheld, h.held, ← h.tidy.held_release, Group.held_release]

end Staged

end PagedGraph
