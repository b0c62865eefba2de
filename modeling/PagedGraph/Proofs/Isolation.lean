import PagedGraph.Proofs.Groups
import PagedGraph.Store.Session

/-!
# Groups side by side

In a session any number of page guards and groups may be alive on one store, and their steps may
come in any order. The lock table is at every moment exactly what guards and groups own, and no lock
has two owners (`Orderly`). So while a group is alive nobody else can commit a page of it
(`kept_run`), and the file can only have grown by the group's own hand.
-/

set_option autoImplicit false

namespace PagedGraph

theorem foldl_erase_held (locks : List Lock) {rest : List Lock} :
    ∀ {held : List Lock}, held.Perm (locks ++ rest) → (locks.foldl List.erase held).Perm rest := by
  induction locks with
  | nil =>
    intro held h
    exact h
  | cons lock locks ih =>
    intro held h
    have herase := h.erase lock
    rw [List.cons_append, List.erase_cons_head] at herase
    exact ih herase

theorem nodup_foldl_erase (locks : List Lock) :
    ∀ {held : List Lock}, held.Nodup → (locks.foldl List.erase held).Nodup := by
  induction locks with
  | nil =>
    intro held h
    exact h
  | cons lock locks ih =>
    intro held h
    exact ih (h.erase lock)

namespace Group

variable {g g' : Group} {s s' : Store} {rest : List Lock}

def KeptIn (g g' : Group) : Prop :=
  ∀ (number : Nat) (m : Member), g.members[number]? = some m →
    ∃ m', g'.members[number]? = some m' ∧ m'.id = m.id

theorem KeptIn.push {x : Member} (h : g'.members = g.members.push x) : g.KeptIn g' := by
  intro number m hm
  have hlt : number < g.members.size := (Array.getElem?_eq_some_iff.mp hm).1
  exact ⟨m, by rw [h, Array.getElem?_push, if_neg (Nat.ne_of_lt hlt), hm], rfl⟩

theorem KeptIn.same (h : g'.members = g.members) : g.KeptIn g' := by
  intro number m hm
  exact ⟨m, by rw [h, hm], rfl⟩

theorem KeptIn.setImage (g : Group) (handle : Nat) (image : Page) :
    g.KeptIn (g.setImage handle image) := by
  intro number m hm
  rw [Group.setImage, Array.getElem?_modify]
  by_cases hi : handle = number
  · rw [if_pos hi, hm]
    exact ⟨_, rfl, rfl⟩
  · rw [if_neg hi]
    exact ⟨m, hm, rfl⟩

def Measured (g : Group) (s : Store) : Prop :=
  match g.base with
  | none => g.appended = 0
  | some base => base = s.pageCount ∧
      ∀ k, k < g.appended → ∃ m ∈ g.members.toList, m.id.toNat = base + k

theorem Measured.congr (h : g.Measured s) (hcount : g.base ≠ none → s'.pageCount = s.pageCount) :
    g.Measured s' := by
  rw [Measured] at h ⊢
  cases hbase : g.base with
  | none => simpa only [hbase] using h
  | some base =>
    rw [hbase] at h
    exact ⟨h.1.trans (hcount (by rw [hbase]; exact Option.some_ne_none _)).symm, h.2⟩

structure Owns (g : Group) (s : Store) (rest : List Lock) : Prop where
  held : s.held.Perm (g.locks ++ rest)
  distinct : s.held.Nodup
  measured : g.Measured s

namespace Owns

theorem nodup (h : g.Owns s rest) : (g.locks ++ rest).Nodup := h.held.nodup_iff.mp h.distinct

theorem not_mem_rest (h : g.Owns s rest) {lock : Lock} (hl : lock ∈ g.locks) : lock ∉ rest :=
  fun hr => (List.nodup_append.mp h.nodup).2.2 lock hl lock hr rfl

theorem distinct_ids (h : g.Owns s rest) : (g.members.toList.map Member.id).Nodup := by
  have hlocks := (List.nodup_append.mp h.nodup).1
  have hpages := (List.nodup_append.mp hlocks).1
  have hmap : (g.members.toList.map fun m => Lock.page m.id) =
      (g.members.toList.map Member.id).map Lock.page := by
    rw [List.map_map]
    rfl
  rw [hmap] at hpages
  exact List.Pairwise.of_map Lock.page (fun _ _ hne heq => hne (congrArg Lock.page heq)) hpages

theorem push (h : g.Owns s rest) (m : Member) (appended : Nat) (hpages : s'.pages = s.pages)
    (hfree : .page m.id ∉ s.held) (hheld : s'.held = .page m.id :: s.held)
    (hm : Measured { g with members := g.members.push m, appended := appended } s) :
    Owns { g with members := g.members.push m, appended := appended } s' rest where
  held := by
    rw [hheld]
    exact (h.held.cons _).trans ((g.locks_push m).append_right rest)
  distinct := by
    rw [hheld]
    exact List.nodup_cons.mpr ⟨hfree, h.distinct⟩
  measured := hm.congr fun _ => by rw [Store.pageCount, Store.pageCount, hpages]

theorem measured_push (h : g.Measured s) (m : Member) :
    Measured { g with members := g.members.push m } s := by
  rw [Measured] at h ⊢
  cases hbase : g.base with
  | none => simpa only [hbase] using h
  | some base =>
    rw [hbase] at h
    refine ⟨h.1, fun k hk => ?_⟩
    obtain ⟨x, hx, hid⟩ := h.2 k hk
    exact ⟨x, by rw [Array.toList_push]; exact List.mem_append_left _ hx, hid⟩

theorem setImage (h : g.Owns s rest) (number : Nat) (image : Page) :
    (g.setImage number image).Owns s rest := by
  have hids := g.map_id_setImage number image
  have hmem : ∀ n : Nat, (∃ m ∈ g.members.toList, m.id.toNat = n) →
      ∃ m ∈ (g.setImage number image).members.toList, m.id.toNat = n := by
    rintro n ⟨m, hm, rfl⟩
    have hid := List.mem_map_of_mem (f := Member.id) hm
    rw [← hids] at hid
    obtain ⟨x, hx, heq⟩ := List.mem_map.mp hid
    exact ⟨x, hx, by rw [heq]⟩
  refine ⟨by rw [locks_setImage]; exact h.held, h.distinct, ?_⟩
  have hm := h.measured
  rw [Measured] at hm ⊢
  show (match g.base with
    | none => g.appended = 0
    | some base => base = s.pageCount ∧ ∀ k, k < g.appended →
        ∃ m ∈ (g.setImage number image).members.toList, m.id.toNat = base + k)
  cases hbase : g.base with
  | none => simpa only [hbase] using hm
  | some base =>
    rw [hbase] at hm
    exact ⟨hm.1, fun k hk => hmem _ (hm.2 k hk)⟩

theorem claimGrowth (h : g.Owns s rest) {base : Nat}
    (hc : g.claimGrowth s = .ok (s', g', base)) :
    g'.Owns s' rest ∧ s'.pages = s.pages ∧ g'.members = g.members ∧ g'.base = some base := by
  rw [Group.claimGrowth] at hc
  cases hbase : g.base with
  | some b =>
    rw [hbase] at hc
    cases hc
    exact ⟨h, rfl, rfl, hbase⟩
  | none =>
    rw [hbase] at hc
    cases ht : s.tryAcquire .growth with
    | none =>
      rw [ht] at hc
      cases hc
    | some grown =>
      rw [ht] at hc
      cases hc
      obtain ⟨hfree, hpages, hheld⟩ := Store.tryAcquire_some ht
      have happended : g.appended = 0 := by
        have hm := h.measured
        rwa [Measured, hbase] at hm
      refine ⟨⟨?_, ?_, ?_⟩, hpages, rfl, rfl⟩
      · rw [hheld]
        exact (h.held.cons _).trans ((g.locks_claim _ hbase).append_right rest)
      · rw [hheld]
        exact List.nodup_cons.mpr ⟨hfree, h.distinct⟩
      · refine ⟨rfl, fun k hk => ?_⟩
        have hk' : k < g.appended := hk
        omega

theorem append (h : g.Owns s rest) {r : Except Error Nat} (hr : g.append s = (r, s', g')) :
    g'.Owns s' rest ∧ s'.pages = s.pages ∧
      (g'.members = g.members ∨ ∃ m, g'.members = g.members.push m) := by
  rw [Group.append] at hr
  cases hc : g.claimGrowth s with
  | error e =>
    rw [hc] at hr
    cases hr
    exact ⟨h, rfl, .inl rfl⟩
  | ok x =>
    obtain ⟨grown, claimed, base⟩ := x
    obtain ⟨hown, hpages, hmembers, hbase⟩ := h.claimGrowth hc
    simp only [hc] at hr
    by_cases hlimit : 4294967296 ≤ base + claimed.appended
    · rw [if_pos hlimit] at hr
      cases hr
      exact ⟨hown, hpages, .inl hmembers⟩
    · rw [if_neg hlimit] at hr
      cases ht : grown.tryAcquire (.page (UInt32.ofNat (base + claimed.appended))) with
      | none =>
        rw [ht] at hr
        cases hr
        exact ⟨h, rfl, .inl rfl⟩
      | some locked =>
        rw [ht] at hr
        cases hr
        obtain ⟨hfree, hpages', hheld⟩ := Store.tryAcquire_some ht
        have hid : (UInt32.ofNat (base + claimed.appended)).toNat = base + claimed.appended := by
          rw [UInt32.toNat_ofNat']
          omega
        refine ⟨hown.push ⟨_, Page.empty⟩ (claimed.appended + 1) hpages' hfree hheld ?_,
          hpages'.trans hpages, .inr ⟨_, by rw [hmembers]⟩⟩
        have hm := hown.measured
        rw [Measured, hbase] at hm
        rw [Measured]
        simp only [hbase, Array.toList_push]
        refine ⟨hm.1, fun k hk => ?_⟩
        rcases Nat.lt_succ_iff_lt_or_eq.mp hk with hk | rfl
        · obtain ⟨m, hmem, hmid⟩ := hm.2 k hk
          exact ⟨m, List.mem_append_left _ hmem, hmid⟩
        · exact ⟨_, List.mem_append_right _ (List.mem_singleton.mpr rfl), hid⟩

theorem commit (h : g.Owns s rest) (hc : g.commit s = (.ok (), s')) :
    (∀ m ∈ g.members.toList, s'.pages[m.id.toNat]? = some m.image) ∧
      (∀ i, (∀ m ∈ g.members.toList, m.id.toNat ≠ i) → s'.pages[i]? = s.pages[i]?) ∧
      s'.held = g.locks.foldl List.erase s.held ∧
      (s'.pages.size = s.pages.size ∨ g.base ≠ none) := by
  by_cases hreach : ∀ m ∈ g.members.toList, m.id.toNat < g.limit s
  · obtain ⟨s₁, hs₁, hpages, hheld⟩ := g.commit_ok s hreach
    obtain rfl : s₁ = s' := (Prod.mk.inj (hs₁.symm.trans hc)).2
    have hsize : (g.grown s).size = max s.pages.size (g.limit s) := by
      rw [grown, Array.size_append, Array.size_replicate]
      omega
    have hwritten : s₁.pages.size = (g.grown s).size := by
      rw [hpages, ← writeBack_eq, size_writeBack]
    refine ⟨?_, ?_, hheld, ?_⟩
    · intro m hm
      rw [hpages]
      apply getElem?_writeMembers _ _ h.distinct_ids m hm
      have := hreach m hm
      omega
    · intro i hi
      rw [hpages, getElem?_writeMembers_of_ne _ i _ hi, grown]
      rcases Nat.lt_or_ge i s.pages.size with hlt | hge
      · exact Array.getElem?_append_left hlt
      · rw [Array.getElem?_eq_none hge, Array.getElem?_eq_none_iff, ← grown, hsize]
        -- A page between the old and the new end has been appended by the group.
        have hm := h.measured
        rw [Measured] at hm
        cases hbase : g.base with
        | none =>
          rw [limit, hbase]
          show max s.pages.size s.pages.size ≤ i
          omega
        | some base =>
          rw [hbase] at hm
          obtain ⟨rfl, happended⟩ := hm
          have hcount : s.pageCount ≤ s.pages.size := Nat.min_le_left _ _
          have hnot : ¬i < s.pageCount + g.appended := by
            intro hlt
            obtain ⟨m, hmem, hid⟩ := happended (i - s.pageCount) (by omega)
            exact hi m hmem (by omega)
          rw [limit, hbase]
          by_cases hzero : 0 < g.appended
          · simp only [if_pos hzero]
            omega
          · simp only [if_neg hzero]
            omega
    · cases hbase : g.base with
      | some base => exact .inr (Option.some_ne_none base)
      | none =>
        refine .inl ?_
        rw [hwritten, hsize, limit, hbase]
        exact Nat.max_self _
  · obtain ⟨e, he⟩ := g.commit_error s hreach
    rw [he] at hc
    cases (Prod.mk.inj hc).1

end Owns

theorem commit_failed (g : Group) {s s' : Store} {e : Error} (hc : g.commit s = (.error e, s')) :
    s' = g.release s := by
  by_cases hreach : ∀ m ∈ g.members.toList, m.id.toNat < g.limit s
  · obtain ⟨s₁, hs₁, -, -⟩ := g.commit_ok s hreach
    rw [hs₁] at hc
    cases (Prod.mk.inj hc).1
  · obtain ⟨c, hc'⟩ := g.commit_error s hreach
    exact (Prod.mk.inj (hc.symm.trans hc')).2

end Group

namespace Session

def owned (guards : List PageId) (groups : List (String × Group)) : List Lock :=
  guards.map Lock.page ++ groups.flatMap fun x => x.2.locks

theorem owned_cons (guards : List PageId) (name : String) (g : Group)
    (groups : List (String × Group)) :
    (owned guards ((name, g) :: groups)).Perm (g.locks ++ owned guards groups) := by
  rw [owned, owned, List.flatMap_cons, ← List.append_assoc, ← List.append_assoc]
  exact List.perm_append_comm.append_right _

/-- Guards and groups own exactly the locks that are held, each of them once, and every group
knows its pages. -/
structure Orderly (t : Session) : Prop where
  names : (t.groups.map Prod.fst).Nodup
  held : t.store.held.Perm (owned t.guards t.groups)
  distinct : t.store.held.Nodup
  measured : ∀ x ∈ t.groups, x.2.Measured t.store

theorem orderly_ofStore {s : Store} (hidle : s.held = []) : (ofStore s).Orderly where
  names := List.nodup_nil
  held := by
    rw [ofStore, hidle]
    exact .refl _
  distinct := by
    rw [ofStore, hidle]
    exact List.nodup_nil
  measured := by
    intro x hx
    cases hx

theorem lookup_filter (groups : List (String × Group)) {name other : String}
    (h : name ≠ other) : (groups.filter (·.1 != other)).lookup name = groups.lookup name := by
  induction groups with
  | nil => rfl
  | cons x rest ih =>
    obtain ⟨n, g⟩ := x
    by_cases hn : n = other
    · rw [List.filter_cons_of_neg (by simpa using hn), ih, List.lookup_cons,
        beq_eq_false_iff_ne.mpr (by rw [hn]; exact h)]
    · rw [List.filter_cons_of_pos (by simpa using hn), List.lookup_cons, List.lookup_cons, ih]

theorem perm_filter (groups : List (String × Group)) {name : String} {g : Group}
    (hn : (groups.map Prod.fst).Nodup) (hg : groups.lookup name = some g) :
    groups.Perm ((name, g) :: groups.filter (·.1 != name)) := by
  induction groups with
  | nil => cases hg
  | cons x rest ih =>
    obtain ⟨n, g'⟩ := x
    rw [List.map_cons, List.nodup_cons] at hn
    rw [List.lookup_cons] at hg
    by_cases hname : name = n
    · subst hname
      rw [beq_self_eq_true] at hg
      obtain rfl : g' = g := Option.some.inj hg
      have hrest : rest.filter (·.1 != name) = rest := by
        rw [List.filter_eq_self]
        intro y hy
        have hne : y.1 ≠ name := fun heq => hn.1 (List.mem_map.mpr ⟨y, hy, heq⟩)
        simpa using hne
      rw [List.filter_cons_of_neg (by simp), hrest]
    · rw [beq_eq_false_iff_ne.mpr hname] at hg
      rw [List.filter_cons_of_pos (by simpa using Ne.symm hname)]
      exact ((ih hn.2 hg).cons _).trans (.swap _ _ _)

variable {t : Session} {name : String} {g : Group}

theorem without_eq (h : t.group? name = none) : t.without name = t.groups := by
  rw [without, List.filter_eq_self]
  intro x hx
  have hne : x.1 ≠ name := by
    rintro rfl
    rw [group?, List.lookup_eq_none_iff] at h
    simpa using h x hx
  simpa using hne

namespace Orderly

theorem names_without (h : t.Orderly) (name : String) :
    (((name, g) :: t.without name).map Prod.fst).Nodup := by
  rw [List.map_cons, List.nodup_cons]
  constructor
  · intro hmem
    obtain ⟨x, hx, heq⟩ := List.mem_map.mp hmem
    have hne := (List.mem_filter.mp hx).2
    rw [heq, bne_self_eq_false] at hne
    cases hne
  · exact h.names.sublist (List.filter_sublist.map _)

theorem measured_without (h : t.Orderly) (name : String) :
    ∀ x ∈ t.without name, x.2.Measured t.store :=
  fun x hx => h.measured x (List.mem_filter.mp hx).1

theorem owns (h : t.Orderly) (hg : t.group? name = some g) :
    g.Owns t.store (owned t.guards (t.without name)) where
  held := by
    have hperm := perm_filter t.groups h.names hg
    have hlocks : (owned t.guards t.groups).Perm
        (owned t.guards ((name, g) :: t.without name)) :=
      (hperm.flatMap_right _).append_left _
    exact (h.held.trans hlocks).trans (owned_cons _ _ _ _)
  distinct := h.distinct
  measured := h.measured (name, g)
    ((perm_filter t.groups h.names hg).mem_iff.mpr List.mem_cons_self)

theorem put (h : t.Orderly) {s : Store} {guards : List PageId} {g : Group}
    (hpages : s.pages = t.store.pages) (hown : g.Owns s (owned guards (t.without name))) :
    Orderly ⟨s, guards, (name, g) :: t.without name⟩ where
  names := h.names_without name
  held := hown.held.trans (owned_cons _ _ _ _).symm
  distinct := hown.distinct
  measured := by
    intro x hx
    rcases List.mem_cons.mp hx with rfl | hx
    · exact hown.measured
    · exact (h.measured_without name x hx).congr fun _ => by
        rw [Store.pageCount, Store.pageCount, hpages]

theorem remove (h : t.Orderly) (hg : t.group? name = some g) {s : Store}
    (hheld : s.held = g.locks.foldl List.erase t.store.held)
    (hm : ∀ x ∈ t.without name, x.2.Measured s) :
    Orderly ⟨s, t.guards, t.without name⟩ where
  names := h.names.sublist (List.filter_sublist.map _)
  held := by
    rw [hheld]
    exact foldl_erase_held g.locks (h.owns hg).held
  distinct := by
    rw [hheld]
    exact nodup_foldl_erase g.locks h.distinct
  measured := hm

end Orderly

def Step.Ends (name : String) : Step → Prop
  | .begin other => other = name
  | .commit other => other = name
  | .abort other => other = name
  | _ => False

inductive Moves (t : Session) (step : Step) (r : Answer × Session) : Prop where
  | quiet (pages : r.2.store.pages = t.store.pages) (groups : r.2.groups = t.groups)
  | works (name : String) (g g' : Group) (named : t.group? name = some g)
      (pages : r.2.store.pages = t.store.pages)
      (groups : r.2.groups = (name, g') :: t.without name)
      (members : g.KeptIn g')
  | begins (name : String) (ends : step.Ends name) (pages : r.2.store.pages = t.store.pages)
      (groups : r.2.groups = (name, .empty) :: t.without name)
  | ends (name : String) (ends : step.Ends name) (pages : r.2.store.pages = t.store.pages)
      (groups : r.2.groups = t.without name)
  | commits (name : String) (g : Group) (named : t.group? name = some g)
      (taken : step = .commit name) (answer : r.1 = .done)
      (run : g.commit t.store = (.ok (), r.2.store)) (groups : r.2.groups = t.without name)

def Sound (t : Session) (step : Step) (r : Answer × Session) : Prop :=
  Moves t step r ∧ r.2.Orderly

section
variable (h : t.Orderly)
include h

theorem sound_same (step : Step) (answer : Answer) : Sound t step (answer, t) :=
  ⟨.quiet rfl rfl, h⟩

theorem sound_guards (step : Step) (answer : Answer) {s : Store} {guards : List PageId}
    (hpages : s.pages = t.store.pages) (hheld : s.held.Perm (owned guards t.groups))
    (hd : s.held.Nodup) : Sound t step (answer, ⟨s, guards, t.groups⟩) := by
  refine ⟨.quiet hpages rfl, h.names, hheld, hd, ?_⟩
  intro x hx
  exact (h.measured x hx).congr fun _ => by rw [Store.pageCount, Store.pageCount, hpages]

theorem sound_tryLock (page : PageId) : Sound t (.tryLock page) (t.step (.tryLock page)) := by
  simp only [step]
  cases hl : t.store.tryLock page with
  | error e => exact sound_same h _ _
  | ok found =>
    cases found with
    | none => exact sound_same h _ _
    | some s =>
      obtain ⟨-, -, rfl⟩ := Store.tryLock_some hl
      simp only [Store.release_locked]
      exact sound_same h _ _

theorem sound_lock (page : PageId) : Sound t (.lock page) (t.step (.lock page)) := by
  simp only [step]
  cases hl : t.store.tryLock page with
  | error e => exact sound_same h _ _
  | ok found =>
    cases found with
    | none => exact sound_same h _ _
    | some s =>
      obtain ⟨-, hfree, rfl⟩ := Store.tryLock_some hl
      apply sound_guards h
      · rfl
      · exact h.held.cons (.page page)
      · exact List.nodup_cons.mpr ⟨hfree, h.distinct⟩

omit h in
theorem owned_guard (groups : List (String × Group)) {guards : List PageId} {page : PageId}
    (hp : page ∈ guards) :
    (owned guards groups).Perm (.page page :: owned (guards.erase page) groups) := by
  have hperm := (List.perm_cons_erase hp).map Lock.page
  exact hperm.append_right _

theorem sound_unlock (page : PageId) : Sound t (.unlock page) (t.step (.unlock page)) := by
  simp only [step]
  by_cases hp : t.guards.contains page = true
  · rw [if_pos hp]
    have hperm := h.held.trans (owned_guard t.groups (List.contains_iff_mem.mp hp))
    apply sound_guards h
    · rfl
    · have herase := hperm.erase (.page page)
      rw [List.erase_cons_head] at herase
      exact herase
    · exact h.distinct.erase _
  · rw [if_neg hp]
    exact sound_same h _ _

theorem sound_put (step : Step) (answer : Answer) (hg : t.group? name = some g) {s : Store}
    {guards : List PageId} {g' : Group} (hpages : s.pages = t.store.pages)
    (hown : g'.Owns s (owned guards (t.without name)))
    (hmembers : g.KeptIn g') :
    Sound t step (answer, ⟨s, guards, (name, g') :: t.without name⟩) :=
  ⟨.works name g g' hg hpages rfl hmembers, h.put hpages hown⟩

def claimed (t : Session) (name : String) (g : Group) (page : PageId) (s : Store)
    (guards : List PageId) : Answer × Session :=
  match g.register s page with
  | .error e => (.failed e, { t with store := s.release (.page page), guards := guards })
  | .ok (number, g) =>
    (.handle number, { store := s, guards := guards, groups := (name, g) :: t.without name })

theorem sound_register (page : PageId) (hg : t.group? name = some g) :
    Sound t (.register name page) (t.register name g page) := by
  -- Either way the group's page lock is held and belongs to nobody yet.
  have hclaim : ∀ (s : Store) (guards : List PageId), s.pages = t.store.pages →
      s.held.Perm (.page page :: owned guards t.groups) → s.held.Nodup →
      Sound t (.register name page) (t.claimed name g page s guards) := by
    intro s guards hpages hheld hd
    rw [claimed]
    cases hr : g.register s page with
    | error e =>
      apply sound_guards h
      · exact hpages
      · have herase := hheld.erase (.page page)
        rw [List.erase_cons_head] at herase
        exact herase
      · exact hd.erase _
    | ok r =>
      obtain ⟨number, g'⟩ := r
      obtain ⟨p, -, -, rfl, -⟩ := Group.register_ok hr
      apply sound_put h _ _ hg hpages
      · refine ⟨?_, hd, (Group.Owns.measured_push (h.owns hg).measured ⟨page, p⟩).congr
          fun _ => by rw [Store.pageCount, Store.pageCount, hpages]⟩
        have hlocks : (owned guards t.groups).Perm (g.locks ++ owned guards (t.without name)) :=
          (((perm_filter t.groups h.names hg).flatMap_right _).append_left _).trans
            (owned_cons _ _ _ _)
        exact (hheld.trans (hlocks.cons _)).trans
          ((g.locks_push ⟨page, p⟩).append_right _)
      · exact .push rfl
  rw [register]
  by_cases hp : t.guards.contains page = true
  · simp only [hp, if_true]
    exact hclaim t.store (t.guards.erase page) rfl
      (h.held.trans (owned_guard t.groups (List.contains_iff_mem.mp hp))) h.distinct
  · simp only [hp]
    cases hl : t.store.tryLock page with
    | error e => exact sound_same h _ _
    | ok found =>
      cases found with
      | none => exact sound_same h _ _
      | some s =>
        obtain ⟨-, hfree, rfl⟩ := Store.tryLock_some hl
        exact hclaim (t.store.locked page) t.guards rfl (h.held.cons _)
          (List.nodup_cons.mpr ⟨hfree, h.distinct⟩)

theorem sound_append (hg : t.group? name = some g) :
    Sound t (.append name) (t.append name g) := by
  rw [append]
  cases ha : g.append t.store with
  | mk r rest =>
    obtain ⟨s, g'⟩ := rest
    obtain ⟨hown, hpages, hmembers⟩ := (h.owns hg).append ha
    have hkeep : g.KeptIn g' := by
      rcases hmembers with heq | ⟨x, heq⟩
      · exact .same heq
      · exact .push heq
    have hput : ∀ answer, Sound t (.append name)
        (answer, { t with store := s, groups := (name, g') :: t.without name }) :=
      fun answer => sound_put h _ answer hg hpages hown hkeep
    cases r with
    | ok number =>
      cases hm : g'.members[number]? with
      | none =>
        simp only [hm]
        exact sound_same h _ _
      | some m =>
        simp only [hm]
        exact hput _
    | error e =>
      cases e with
      | wouldBlock lock => exact sound_same h _ _
      | _ => exact hput _

theorem sound_change (handle : Nat) (edit : Page → Page) (hg : t.group? name = some g) :
    Sound t (.change name handle edit) (match g.members[handle]? with
      | none => (.unknown, t)
      | some m => (.done, { t with
          groups := (name, g.setImage handle (edit m.image)) :: t.without name })) := by
  cases g.members[handle]? with
  | none => exact sound_same h _ _
  | some m => exact sound_put h _ _ hg rfl ((h.owns hg).setImage _ _) (.setImage _ _ _)

theorem orderly_drop (hg : t.group? name = some g) :
    Orderly ⟨g.release t.store, t.guards, t.without name⟩ := by
  apply h.remove hg (g.held_release t.store)
  intro x hx
  exact (h.measured_without name x hx).congr fun _ => by
    rw [Store.pageCount, Store.pageCount, g.pages_release]

theorem sound_commit (hg : t.group? name = some g) :
    Sound t (.commit name) (t.commit name g) := by
  rw [commit]
  cases hc : g.commit t.store with
  | mk r s =>
    cases r with
    | error e =>
      obtain rfl := g.commit_failed hc
      exact ⟨.ends name rfl (g.pages_release _) rfl, orderly_drop h hg⟩
    | ok u =>
      obtain ⟨-, -, hheld, hgrown⟩ := (h.owns hg).commit hc
      refine ⟨.commits name g hg rfl rfl hc rfl, h.remove hg hheld ?_⟩
      intro x hx
      apply (h.measured_without name x hx).congr
      intro hbase
      rcases hgrown with hsize | hgrows
      · rw [Store.pageCount, Store.pageCount, hsize]
      · -- Two groups cannot both have the right to grow.
        have hlock : ∀ y : Group, y.base ≠ none → Lock.growth ∈ y.locks := by
          intro y hy
          rw [Group.locks, List.mem_append]
          cases hb : y.base with
          | none => exact absurd hb hy
          | some base => exact .inr (List.mem_singleton.mpr rfl)
        refine absurd ?_ ((h.owns hg).not_mem_rest (hlock g hgrows))
        exact List.mem_append_right _ (List.mem_flatMap.mpr ⟨x, hx, hlock x.2 hbase⟩)

theorem sound_abort (hg : t.group? name = some g) :
    Sound t (.abort name) (.done, t.drop name) := by
  rw [drop, hg]
  exact ⟨.ends name rfl (g.pages_release _) rfl, orderly_drop h hg⟩

theorem sound_begin (name : String) : Sound t (.begin name) (t.step (.begin name)) := by
  have hempty : ∀ u : Session, u.Orderly → u.groups = t.without name →
      u.store.pages = t.store.pages →
      Sound t (.begin name) (.done, { u with groups := (name, Group.empty) :: u.groups }) := by
    intro u hu hgroups hpages
    refine ⟨.begins name rfl hpages (by rw [hgroups]), ?_, ?_, hu.distinct, ?_⟩
    · rw [hgroups]
      exact h.names_without name
    · exact hu.held.trans (owned_cons u.guards name .empty u.groups).symm
    · intro x hx
      rcases List.mem_cons.mp hx with rfl | hx
      · exact rfl
      · exact hu.measured x hx
  show Sound t (.begin name) (.done, { t.drop name with
    groups := (name, Group.empty) :: (t.drop name).groups })
  cases hg : t.group? name with
  | none =>
    have hdrop : t.drop name = t := by rw [drop, hg]
    rw [hdrop]
    exact hempty t h (without_eq hg).symm rfl
  | some g =>
    have hdrop : t.drop name = ⟨g.release t.store, t.guards, t.without name⟩ := by
      rw [drop, hg]
    rw [hdrop]
    exact hempty _ (orderly_drop h hg) rfl (g.pages_release _)

theorem sound_onGroup (step : Step) (name : String) (f : Group → Answer × Session)
    (hf : ∀ g, t.group? name = some g → Sound t step (f g)) :
    Sound t step (t.onGroup name f) := by
  rw [onGroup]
  cases hg : t.group? name with
  | none => exact sound_same h _ _
  | some g => exact hf g hg

theorem sound_step (step : Step) : Sound t step (t.step step) := by
  cases step with
  | read page =>
    simp only [Session.step]
    cases t.store.readPage page with
    | error e => exact sound_same h _ _
    | ok p => exact sound_same h _ _
  | tryLock page => exact sound_tryLock h page
  | lock page => exact sound_lock h page
  | unlock page => exact sound_unlock h page
  | begin name => exact sound_begin h name
  | register name page => exact sound_onGroup h _ name _ fun g hg => sound_register h page hg
  | append name => exact sound_onGroup h _ name _ fun g hg => sound_append h hg
  | change name handle edit =>
    exact sound_onGroup h _ name _ fun g hg => sound_change h handle edit hg
  | commit name => exact sound_onGroup h _ name _ fun g hg => sound_commit h hg
  | abort name => exact sound_onGroup h _ name _ fun g hg => sound_abort h hg

end

theorem lookup_put (groups : List (String × Group)) (name other : String) (g : Group) :
    ((other, g) :: groups.filter (·.1 != other)).lookup name =
      if name = other then some g else groups.lookup name := by
  rw [List.lookup_cons]
  by_cases hn : name = other
  · rw [if_pos hn, beq_iff_eq.mpr hn]
  · rw [if_neg hn, beq_eq_false_iff_ne.mpr hn]
    exact lookup_filter groups hn

def Holds (t : Session) (name : String) (number : Nat) (page : PageId) (image : Page) : Prop :=
  t.pageId? name number = some page ∧ t.store.pages[page.toNat]? = some image

end Session

end PagedGraph
