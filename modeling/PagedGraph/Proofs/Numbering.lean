import Mathlib.Logic.Function.Basic
import PagedGraph.Proofs.Isolation
import PagedGraph.Proofs.Reopening

/-!
# How appended pages are numbered

Only one group at a time has the right to make the file grow, and it keeps that right until it ends.
So the page count that it found with its first append is still the page count when it commits, the
numbers it gave to its pages are the next ones, and a commit never reaches beyond the end of the
file.

A `Tally` is kept from the answers alone: what each live group has been told about its pages, and
what commits have kept. `Counted` ties it to the groups themselves, step by step.
-/

set_option autoImplicit false

namespace PagedGraph

theorem Store.Numbered.pageCount_eq {s : Store} (hn : s.Numbered) : s.pageCount = s.pages.size := by
  have hle : s.pages.size ≤ 4294967295 := hn
  rw [pageCount, Nat.min_eq_left hle]

namespace Group

variable {g : Group} {s s' : Store}

theorem claimGrowth_cases (hm : g.Measured s) :
    (g.claimGrowth s = .error (.wouldBlock .growth) ∧ g.base = none ∧ .growth ∈ s.held) ∨
    ∃ s' g', g.claimGrowth s = .ok (s', g', s.pageCount) ∧ s'.pages = s.pages ∧
      g'.members = g.members ∧ g'.appended = g.appended ∧
      (∀ id, .page id ∈ s'.held → .page id ∈ s.held) ∧ (g.base ≠ none ∨ .growth ∉ s.held) := by
  rw [claimGrowth]
  cases hbase : g.base with
  | some base =>
    rw [Measured, hbase] at hm
    exact .inr ⟨s, g, by rw [hm.1], rfl, rfl, rfl, fun _ h => h, .inl (Option.some_ne_none _)⟩
  | none =>
    cases ht : s.tryAcquire .growth with
    | none => exact .inl ⟨rfl, rfl, Store.tryAcquire_none ht⟩
    | some s' =>
      obtain ⟨hfree, hpages, hheld⟩ := Store.tryAcquire_some ht
      have hcount : s'.pageCount = s.pageCount := by
        rw [Store.pageCount, Store.pageCount, hpages]
      refine .inr ⟨s', { g with base := some s.pageCount }, by simp only [hcount], hpages, rfl, rfl,
        fun id hid => ?_, .inr hfree⟩
      rw [hheld] at hid
      exact List.mem_of_ne_of_mem (fun heq => Lock.noConfusion heq) hid

theorem append_cases (hm : g.Measured s) :
    (g.append s = (.error (.wouldBlock .growth), s, g) ∧ g.base = none ∧ .growth ∈ s.held) ∨
    (∃ id : PageId, g.append s = (.error (.wouldBlock (.page id)), s, g) ∧
      id.toNat = s.pageCount + g.appended ∧ .page id ∈ s.held ∧
      (g.base ≠ none ∨ .growth ∉ s.held)) ∨
    (∃ s' g', g.append s = (.error .pageIdsExhausted, s', g') ∧ s'.pages = s.pages ∧
      g'.members = g.members ∧ g'.appended = g.appended ∧
      4294967296 ≤ s.pageCount + g.appended) ∨
    ∃ s' g' id, g.append s = (.ok g.members.size, s', g') ∧ s'.pages = s.pages ∧
      g'.members = g.members.push ⟨id, Page.empty⟩ ∧ g'.appended = g.appended + 1 ∧
      id.toNat = s.pageCount + g.appended := by
  rcases claimGrowth_cases hm with ⟨hwait, hbase, hgrowth⟩ |
    ⟨s', g', hok, hpages, hmembers, happended, hfree, hright⟩
  · exact .inl ⟨by rw [append, hwait], hbase, hgrowth⟩
  · right
    simp only [append, hok, happended]
    by_cases hlimit : 4294967296 ≤ s.pageCount + g.appended
    · simp only [if_pos hlimit]
      exact .inr (.inl ⟨s', g', rfl, hpages, hmembers, happended, hlimit⟩)
    · have hid : (UInt32.ofNat (s.pageCount + g.appended)).toNat = s.pageCount + g.appended := by
        rw [UInt32.toNat_ofNat', Nat.mod_eq_of_lt (by omega)]
      simp only [if_neg hlimit]
      cases ht : s'.tryAcquire (.page (UInt32.ofNat (s.pageCount + g.appended))) with
      | none => exact .inl ⟨_, rfl, hid, hfree _ (Store.tryAcquire_none ht), hright⟩
      | some locked =>
        obtain ⟨-, hpages', -⟩ := Store.tryAcquire_some ht
        exact .inr (.inr ⟨locked, _, _, by rw [hmembers], hpages'.trans hpages, rfl, rfl, hid⟩)

theorem limit_eq (hm : g.Measured s) (hn : s.Numbered) :
    g.limit s = s.pages.size + g.appended := by
  rw [Measured] at hm
  rw [limit]
  cases hbase : g.base with
  | none =>
    rw [hbase] at hm
    simp only [show g.appended = 0 from hm, Nat.add_zero]
  | some base =>
    rw [hbase] at hm
    by_cases hzero : 0 < g.appended
    · simp only [if_pos hzero, hm.1, hn.pageCount_eq]
    · simp only [if_neg hzero]
      omega

end Group

namespace Session

/-- What the answers to appends and commits add up to: the pages that each live group has been given
by its appends, and the pages that commits have made part of the file. Both are in the order of the
answers. -/
structure Tally where
  pending : String → List PageId
  kept : List PageId

namespace Tally

def empty : Tally := ⟨fun _ => [], []⟩

def note (y : Tally) (step : Step) (answer : Answer) : Tally :=
  match step, answer with
  | .append name, .appended _ page =>
    { y with pending := Function.update y.pending name (y.pending name ++ [page]) }
  | .commit name, .done => ⟨Function.update y.pending name [], y.kept ++ y.pending name⟩
  | .commit name, _ | .abort name, _ | .begin name, _ =>
    { y with pending := Function.update y.pending name [] }
  | _, _ => y

end Tally

def tally (t : Session) (y : Tally) : List Step → Tally
  | [] => y
  | step :: steps => tally (t.step step).2 (y.note step (t.step step).1) steps

def appendedBy (t : Session) (name : String) : Nat := (t.group? name).elim 0 Group.appended

variable {n : Nat} {t u : Session} {y : Tally} {name other : String} {g g' : Group}

theorem mem_groups (h : t.Orderly) (hg : t.group? name = some g) : (name, g) ∈ t.groups :=
  (perm_filter t.groups h.names hg).mem_iff.mpr List.mem_cons_self

theorem group?_of_mem (h : t.Orderly) (hx : (name, g) ∈ t.groups) : t.group? name = some g := by
  cases hl : t.group? name with
  | none => exact absurd (List.lookup_eq_none_iff.mp hl (name, g) hx) (by simp)
  | some g' =>
    rcases List.mem_cons.mp ((perm_filter t.groups h.names hl).mem_iff.mp hx) with heq | hrest
    · rw [(Prod.mk.inj heq).2]
    · exact absurd rfl (bne_iff_ne.mp (List.mem_filter.mp hrest).2)

theorem appendedBy_eq (hg : t.group? name = some g) : t.appendedBy name = g.appended := by
  rw [appendedBy, hg]
  rfl

theorem appendedBy_put (hgroups : u.groups = (name, g') :: t.without name) (other : String) :
    u.appendedBy other = if other = name then g'.appended else t.appendedBy other := by
  rw [appendedBy, group?, hgroups, without, lookup_put]
  by_cases hn : other = name
  · rw [if_pos hn, if_pos hn]
    rfl
  · rw [if_neg hn, if_neg hn]
    rfl

theorem appendedBy_without (hgroups : u.groups = t.without name) (other : String) :
    u.appendedBy other = if other = name then 0 else t.appendedBy other := by
  rw [appendedBy, group?, hgroups, without]
  by_cases hn : other = name
  · have hnone : (t.groups.filter (·.1 != name)).lookup name = none := by
      rw [List.lookup_eq_none_iff]
      intro x hx
      simpa using Ne.symm (bne_iff_ne.mp (List.mem_filter.mp hx).2)
    rw [if_pos hn, hn, hnone]
    rfl
  · rw [if_neg hn, lookup_filter _ hn]
    rfl

theorem growth_mem_locks (hbase : g.base ≠ none) : Lock.growth ∈ g.locks := by
  obtain ⟨base, hb⟩ := Option.ne_none_iff_exists'.mp hbase
  rw [Group.locks, hb]
  exact List.mem_append_right _ (List.mem_singleton.mpr rfl)

theorem base_of_growth (hmem : Lock.growth ∈ g.locks) : g.base ≠ none := by
  intro hb
  rw [Group.locks, hb, List.append_nil] at hmem
  obtain ⟨m, -, heq⟩ := List.mem_map.mp hmem
  cases heq

theorem base_of_appended (hm : g.Measured t.store) (happended : 0 < g.appended) :
    g.base ≠ none := by
  intro hb
  rw [Group.Measured, hb] at hm
  have hzero : g.appended = 0 := hm
  omega

theorem Orderly.sole (h : t.Orderly) (hg : t.group? name = some g)
    (hg' : t.group? other = some g') (hbase : g.base ≠ none) (hbase' : g'.base ≠ none) :
    name = other := by
  by_contra hne
  refine (h.owns hg).not_mem_rest (growth_mem_locks hbase) ?_
  refine List.mem_append_right _ (List.mem_flatMap.mpr ⟨(other, g'), ?_, growth_mem_locks hbase'⟩)
  exact List.mem_filter.mpr ⟨mem_groups h hg', by simpa using Ne.symm hne⟩

structure Counted (n : Nat) (t : Session) (y : Tally) : Prop where
  orderly : t.Orderly
  guarded : ∀ page ∈ t.guards, page.toNat < t.store.pages.size
  within : ∀ x ∈ t.groups, ∀ id ∈ x.2.members.toList.map Member.id,
    id.toNat < t.store.pages.size + x.2.appended
  pending : ∀ name, (y.pending name).map UInt32.toNat =
    List.range' t.store.pages.size (t.appendedBy name)
  started : n ≤ t.store.pages.size
  kept : y.kept.map UInt32.toNat = List.range' n (t.store.pages.size - n)

namespace Counted

theorem ofStore {s : Store} (hidle : s.held = []) :
    Counted s.pages.size (ofStore s) .empty where
  orderly := orderly_ofStore hidle
  guarded := by
    intro page hpage
    cases hpage
  within := by
    intro x hx
    cases hx
  pending := by
    intro name
    rfl
  started := Nat.le_refl _
  kept := by
    show [] = List.range' s.pages.size (s.pages.size - s.pages.size)
    rw [Nat.sub_self]
    rfl

theorem same (h : Counted n t y) (ho : u.Orderly) (hpages : u.store.pages = t.store.pages)
    (hgroups : u.groups = t.groups) (hguards : ∀ page ∈ u.guards,
      page.toNat < t.store.pages.size) : Counted n u y where
  orderly := ho
  guarded := by
    rw [hpages]
    exact hguards
  within := by
    rw [hpages, hgroups]
    exact h.within
  pending := by
    intro name
    rw [h.pending, hpages, appendedBy, appendedBy, group?, group?, hgroups]
  started := by
    rw [hpages]
    exact h.started
  kept := by
    rw [hpages]
    exact h.kept

theorem put (h : Counted n t y) (ho : u.Orderly) (hpages : u.store.pages = t.store.pages)
    (hguards : ∀ page ∈ u.guards, page.toNat < t.store.pages.size)
    (hgroups : u.groups = (name, g') :: t.without name)
    (hwithin : ∀ id ∈ g'.members.toList.map Member.id,
      id.toNat < t.store.pages.size + g'.appended) (told : List PageId)
    (htold : told.map UInt32.toNat = List.range' t.store.pages.size g'.appended) :
    Counted n u { y with pending := Function.update y.pending name told } where
  orderly := ho
  guarded := by
    rw [hpages]
    exact hguards
  within := by
    rw [hpages, hgroups]
    intro x hx
    rcases List.mem_cons.mp hx with rfl | hx
    · exact hwithin
    · exact h.within x (List.mem_filter.mp hx).1
  pending := by
    intro other
    show (Function.update y.pending name told other).map UInt32.toNat = _
    rw [hpages, appendedBy_put hgroups]
    by_cases hn : other = name
    · rw [if_pos hn, hn, Function.update_self]
      exact htold
    · rw [if_neg hn, Function.update_of_ne hn]
      exact h.pending other
  started := by
    rw [hpages]
    exact h.started
  kept := by
    rw [hpages]
    exact h.kept

theorem put_same (h : Counted n t y) (ho : u.Orderly) (hpages : u.store.pages = t.store.pages)
    (hguards : ∀ page ∈ u.guards, page.toNat < t.store.pages.size)
    (hg : t.group? name = some g) (hgroups : u.groups = (name, g') :: t.without name)
    (hwithin : ∀ id ∈ g'.members.toList.map Member.id,
      id.toNat < t.store.pages.size + g'.appended) (happended : g'.appended = g.appended) :
    Counted n u y := by
  have hput := h.put ho hpages hguards hgroups hwithin (y.pending name) (by
    rw [h.pending, appendedBy_eq hg, happended])
  rwa [Function.update_eq_self] at hput

theorem remove (h : Counted n t y) (ho : u.Orderly) (hguards : u.guards = t.guards)
    (hgroups : u.groups = t.without name) (told : List PageId)
    (htold : told.map UInt32.toNat =
      List.range' t.store.pages.size (u.store.pages.size - t.store.pages.size))
    (hsize : t.store.pages.size ≤ u.store.pages.size)
    (hothers : ∀ other, other ≠ name → t.store.pages.size < u.store.pages.size →
      t.appendedBy other = 0) :
    Counted n u ⟨Function.update y.pending name [], y.kept ++ told⟩ where
  orderly := ho
  guarded := by
    intro page hpage
    rw [hguards] at hpage
    exact Nat.lt_of_lt_of_le (h.guarded page hpage) hsize
  within := by
    intro x hx id hid
    rw [hgroups] at hx
    have := h.within x (List.mem_filter.mp hx).1 id hid
    omega
  pending := by
    intro other
    show (Function.update y.pending name [] other).map UInt32.toNat = _
    rw [appendedBy_without hgroups]
    by_cases hn : other = name
    · rw [if_pos hn, hn, Function.update_self]
      rfl
    · rw [if_neg hn, Function.update_of_ne hn, h.pending]
      rcases Nat.lt_or_ge t.store.pages.size u.store.pages.size with hlt | hge
      · rw [hothers other hn hlt]
        rfl
      · rw [Nat.le_antisymm hsize hge]
  started := Nat.le_trans h.started hsize
  kept := by
    have hstart := h.started
    show (y.kept ++ told).map UInt32.toNat = _
    have hend : List.range' t.store.pages.size (u.store.pages.size - t.store.pages.size) =
        List.range' (n + (t.store.pages.size - n))
          (u.store.pages.size - t.store.pages.size) := by
      rw [Nat.add_sub_cancel' hstart]
    rw [List.map_append, h.kept, htold, hend, List.range'_append_1]
    congr 1
    omega

theorem drop (h : Counted n t y) (ho : u.Orderly) (hpages : u.store.pages = t.store.pages)
    (hguards : u.guards = t.guards) (hgroups : u.groups = t.without name) :
    Counted n u { y with pending := Function.update y.pending name [] } := by
  have hend := h.remove ho hguards hgroups [] (by
    rw [hpages, Nat.sub_self]
    rfl) (Nat.le_of_eq (by rw [hpages])) fun _ _ hlt => by
      rw [hpages] at hlt
      exact absurd hlt (Nat.lt_irrefl _)
  rwa [List.append_nil] at hend

theorem fresh (h : Counted n t y) (hg : t.group? name = some g)
    (hright : g.base ≠ none ∨ .growth ∉ t.store.held) {id : PageId}
    (hid : id.toNat = t.store.pages.size + g.appended) : .page id ∉ t.store.held := by
  intro hmem
  rcases List.mem_append.mp (h.orderly.held.mem_iff.mp hmem) with hguard | hgroup
  · obtain ⟨page, hpage, heq⟩ := List.mem_map.mp hguard
    cases heq
    have := h.guarded _ hpage
    omega
  · obtain ⟨⟨other, x⟩, hx, hlock⟩ := List.mem_flatMap.mp hgroup
    have hmember : id ∈ x.members.toList.map Member.id := by
      rw [Group.locks, List.mem_append] at hlock
      rcases hlock with hlock | hlock
      · obtain ⟨m, hm, heq⟩ := List.mem_map.mp hlock
        cases heq
        exact List.mem_map_of_mem hm
      · cases hb : x.base with
        | none =>
          rw [hb] at hlock
          cases hlock
        | some base =>
          rw [hb] at hlock
          cases List.mem_singleton.mp hlock
    have hlt := h.within _ hx id hmember
    -- The group has appended pages, so it has the right to grow and is the one that appends.
    have happended : g.appended < x.appended := by
      have : id.toNat < t.store.pages.size + x.appended := hlt
      omega
    have hbase : x.base ≠ none :=
      base_of_appended (h.orderly.measured _ hx) (Nat.lt_of_le_of_lt (Nat.zero_le _) happended)
    have hheld : .growth ∈ t.store.held := by
      refine h.orderly.held.mem_iff.mpr (List.mem_append_right _ ?_)
      exact List.mem_flatMap.mpr ⟨_, hx, growth_mem_locks hbase⟩
    have hx' := group?_of_mem h.orderly hx
    rcases hright with hown | hfree
    · obtain rfl := h.orderly.sole hg hx' hown hbase
      obtain rfl : g = x := Option.some.inj (hg.symm.trans hx')
      exact absurd happended (Nat.lt_irrefl _)
    · exact hfree hheld

theorem onGroup (h : Counted n t y) {step : Step} {f : Group → Answer × Session}
    (hstep : t.step step = t.onGroup name f)
    (hquiet : t.group? name = none → y.note step .unknown = y)
    (hf : ∀ g, t.group? name = some g → t.step step = f g →
      Counted n (f g).2 (y.note step (f g).1)) :
    Counted n (t.step step).2 (y.note step (t.step step).1) := by
  cases hg : t.group? name with
  | none =>
    have hsame : t.step step = (.unknown, t) := by rw [hstep, Session.onGroup, hg]
    rw [hsame, hquiet hg]
    exact h
  | some g =>
    have hthen : t.step step = f g := by rw [hstep, Session.onGroup, hg]
    rw [hthen]
    exact hf g hg hthen

theorem groups_drop (t : Session) (name : String) : (t.drop name).groups = t.without name := by
  cases hg : t.group? name with
  | none => rw [Session.drop, hg, without_eq hg]
  | some g => rw [Session.drop, hg]

theorem pages_drop (t : Session) (name : String) :
    (t.drop name).store.pages = t.store.pages ∧ (t.drop name).guards = t.guards := by
  cases hg : t.group? name with
  | none =>
    rw [Session.drop, hg]
    exact ⟨rfl, rfl⟩
  | some g =>
    rw [Session.drop, hg]
    exact ⟨g.pages_release _, rfl⟩

section
variable (h : Counted n t y)
include h

theorem length_pending (hg : t.group? name = some g) :
    (y.pending name).length = g.appended := by
  have hlength := congrArg List.length (h.pending name)
  rwa [List.length_map, List.length_range', appendedBy_eq hg] at hlength

theorem forget_none (hg : t.group? name = none) :
    { y with pending := Function.update y.pending name [] } = y := by
  have hpending := h.pending name
  rw [appendedBy, hg] at hpending
  rw [← List.map_eq_nil_iff.mp hpending, Function.update_eq_self]

theorem register (page : PageId) :
    Counted n (t.step (.register name page)).2
      (y.note (.register name page) (t.step (.register name page)).1) := by
  refine h.onGroup rfl (fun _ => rfl) fun g hg hstep => ?_
  have ho := (sound_step h.orderly (.register name page)).2
  rw [hstep] at ho
  show Counted n (t.register name g page).2 y
  have hclaim : ∀ (s : Store) (guards : List PageId), s.pages = t.store.pages →
      (∀ page ∈ guards, page.toNat < t.store.pages.size) →
      t.register name g page = t.claimed name g page s guards →
      Counted n (t.register name g page).2 y := by
    intro s guards hpages hguards heq
    rw [heq, claimed] at ho ⊢
    cases hr : g.register s page with
    | error e =>
      rw [hr] at ho
      exact h.same ho hpages rfl hguards
    | ok r =>
      obtain ⟨number, g'⟩ := r
      obtain ⟨p, hp, -, rfl, -⟩ := Group.register_ok hr
      rw [hr] at ho
      refine h.put_same ho hpages hguards hg rfl ?_ rfl
      intro id hid
      simp only [Array.toList_push, List.map_append, List.map_cons, List.map_nil] at hid
      rcases List.mem_append.mp hid with hid | hid
      · exact h.within _ (mem_groups h.orderly hg) id hid
      · have hlt := (Array.getElem?_eq_some_iff.mp hp).1
        rw [List.mem_singleton.mp hid]
        rw [hpages] at hlt
        exact Nat.lt_add_right _ hlt
  have herased : ∀ x ∈ t.guards.erase page, x.toNat < t.store.pages.size :=
    fun x hx => h.guarded x (List.mem_of_mem_erase hx)
  by_cases hp : t.guards.contains page = true
  · apply hclaim t.store (t.guards.erase page) rfl herased
    rw [Session.register, hp]
    rfl
  · cases hl : t.store.tryLock page with
    | error e =>
      have hsame : t.register name g page = (.failed e, t) := by
        simp only [Session.register, hp, hl]
        rfl
      rw [hsame]
      exact h
    | ok found =>
      cases found with
      | none =>
        have hsame : t.register name g page = (.busy, t) := by
          simp only [Session.register, hp, hl]
          rfl
        rw [hsame]
        exact h
      | some s =>
        obtain ⟨-, -, rfl⟩ := Store.tryLock_some hl
        apply hclaim (t.store.locked page) t.guards rfl h.guarded
        simp only [Session.register, hp, hl]
        rfl

/-- An append waits only while another group has the right to grow. Its page is the next one after
the file and after those that the group has been given before. -/
theorem append_answer (hn : t.store.Numbered) (hg : t.group? name = some g) :
    (t.append name g = (.busy, t) ∧
      ∃ other g', t.group? other = some g' ∧ other ≠ name ∧ g'.base ≠ none) ∨
    (∃ s g', t.append name g = (.failed .pageIdsExhausted,
        { t with store := s, groups := (name, g') :: t.without name }) ∧
      s.pages = t.store.pages ∧ g'.members = g.members ∧ g'.appended = g.appended ∧
      4294967296 ≤ t.store.pages.size + g.appended) ∨
    ∃ s g' number page, t.append name g = (.appended number page,
        { t with store := s, groups := (name, g') :: t.without name }) ∧
      s.pages = t.store.pages ∧ g'.members = g.members.push ⟨page, Page.empty⟩ ∧
      g'.appended = g.appended + 1 ∧ page.toNat = t.store.pages.size + g.appended := by
  have hm := (h.orderly.owns hg).measured
  rw [← hn.pageCount_eq]
  rcases Group.append_cases hm with ⟨ha, hbase, hgrowth⟩ | ⟨id, -, hid, hheld, hright⟩ |
    ⟨s, g', ha, hpages, hmembers, happended, hlimit⟩ |
    ⟨s, g', page, ha, hpages, hmembers, happended, hid⟩
  · left
    refine ⟨by rw [Session.append, ha], ?_⟩
    rcases List.mem_append.mp (h.orderly.held.mem_iff.mp hgrowth) with hguard | hgroup
    · obtain ⟨page, -, heq⟩ := List.mem_map.mp hguard
      cases heq
    · obtain ⟨⟨other, g'⟩, hx, hlock⟩ := List.mem_flatMap.mp hgroup
      refine ⟨other, g', group?_of_mem h.orderly hx, ?_, base_of_growth hlock⟩
      rintro rfl
      obtain rfl : g = g' := Option.some.inj (hg.symm.trans (group?_of_mem h.orderly hx))
      exact base_of_growth hlock hbase
  · rw [hn.pageCount_eq] at hid
    exact absurd hheld (h.fresh hg hright hid)
  · exact .inr (.inl ⟨s, g', by rw [Session.append, ha], hpages, hmembers, happended, hlimit⟩)
  · refine .inr (.inr ⟨s, g', g.members.size, page, ?_, hpages, hmembers, happended, hid⟩)
    have hlast : g'.members[g.members.size]? = some ⟨page, Page.empty⟩ := by
      rw [hmembers, Array.getElem?_push, if_pos rfl]
    simp only [Session.append, ha, hlast]

theorem append (hn : t.store.Numbered) :
    Counted n (t.step (.append name)).2
      (y.note (.append name) (t.step (.append name)).1) := by
  refine h.onGroup rfl (fun _ => rfl) fun g hg hstep => ?_
  have ho := (sound_step h.orderly (.append name)).2
  rw [hstep] at ho
  rcases h.append_answer hn hg with ⟨ha, -⟩ | ⟨s, g', ha, hpages, hmembers, happended, -⟩ |
    ⟨s, g', number, page, ha, hpages, hmembers, happended, hid⟩
  · rw [ha]
    exact h
  · rw [ha] at ho ⊢
    refine h.put_same ho hpages h.guarded hg rfl ?_ happended
    rw [hmembers, happended]
    exact h.within _ (mem_groups h.orderly hg)
  · rw [ha] at ho ⊢
    refine h.put ho hpages h.guarded rfl ?_ (y.pending name ++ [page]) ?_
    · intro id hmem
      rw [hmembers, Array.toList_push, List.map_append] at hmem
      rw [happended]
      rcases List.mem_append.mp hmem with hmem | hmem
      · exact Nat.lt_succ_of_lt (h.within _ (mem_groups h.orderly hg) id hmem)
      · rw [List.mem_singleton.mp hmem]
        show page.toNat < _
        omega
    · rw [List.map_append, h.pending, appendedBy_eq hg, happended, List.range'_1_concat, ← hid]
      rfl

theorem change (handle : Nat) (edit : Page → Page) :
    Counted n (t.step (.change name handle edit)).2
      (y.note (.change name handle edit) (t.step (.change name handle edit)).1) := by
  refine h.onGroup rfl (fun _ => rfl) fun g hg hstep => ?_
  have ho := (sound_step h.orderly (.change name handle edit)).2
  rw [hstep] at ho
  cases hm : g.members[handle]? with
  | none => exact h
  | some m =>
    simp only [hm] at ho ⊢
    refine h.put_same ho rfl h.guarded hg rfl ?_ rfl
    rw [Group.map_id_setImage]
    exact h.within _ (mem_groups h.orderly hg)

theorem commit_answer (hn : t.store.Numbered) (hg : t.group? name = some g) :
    ∃ s, t.commit name g = (.done, { t with store := s, groups := t.without name }) ∧
      s.pages.size = t.store.pages.size + g.appended := by
  have hm := (h.orderly.owns hg).measured
  obtain ⟨s, hs, -, -⟩ := g.commit_ok t.store (by
    intro m hmem
    rw [Group.limit_eq hm hn]
    exact h.within _ (mem_groups h.orderly hg) m.id (List.mem_map_of_mem hmem))
  refine ⟨s, by rw [Session.commit, hs], ?_⟩
  rw [Group.size_commit hs, Group.limit_eq hm hn]
  omega

theorem commit (hn : t.store.Numbered) :
    Counted n (t.step (.commit name)).2
      (y.note (.commit name) (t.step (.commit name)).1) := by
  refine h.onGroup rfl (h.forget_none ·) fun g hg hstep => ?_
  have ho := (sound_step h.orderly (.commit name)).2
  obtain ⟨s, hs, hsize⟩ := h.commit_answer hn hg
  rw [hstep, hs] at ho
  rw [hs]
  refine h.remove ho rfl rfl (y.pending name) ?_ ?_ ?_
  · rw [h.pending, appendedBy_eq hg, hsize, Nat.add_sub_cancel_left]
  · rw [hsize]
    exact Nat.le_add_right _ _
  · intro other hne hgrown
    rw [hsize] at hgrown
    have hbase := base_of_appended (h.orderly.owns hg).measured (by omega)
    cases hg' : t.group? other with
    | none => rw [appendedBy, hg', Option.elim_none]
    | some g' =>
      rw [appendedBy_eq hg']
      by_contra hne'
      have hbase' := base_of_appended (h.orderly.owns hg').measured (Nat.pos_of_ne_zero hne')
      exact hne (h.orderly.sole hg' hg hbase' hbase)

theorem abort :
    Counted n (t.step (.abort name)).2 (y.note (.abort name) (t.step (.abort name)).1) := by
  refine h.onGroup rfl (h.forget_none ·) fun g hg hstep => ?_
  have ho := (sound_step h.orderly (.abort name)).2
  rw [hstep] at ho
  obtain ⟨hpages, hguards⟩ := pages_drop t name
  exact h.drop ho hpages hguards (groups_drop t name)

theorem begin :
    Counted n (t.step (.begin name)).2 (y.note (.begin name) (t.step (.begin name)).1) := by
  have ho := (sound_step h.orderly (.begin name)).2
  obtain ⟨hpages, hguards⟩ := pages_drop t name
  have hgroups : (t.step (.begin name)).2.groups = (name, Group.empty) :: t.without name :=
    congrArg ((name, Group.empty) :: ·) (groups_drop t name)
  refine h.put ho hpages ?_ hgroups ?_ [] rfl
  · show ∀ page ∈ (t.drop name).guards, page.toNat < _
    rw [hguards]
    exact h.guarded
  · intro id hid
    cases hid

theorem step (hn : t.store.Numbered) (step : Step) :
    Counted n (t.step step).2 (y.note step (t.step step).1) := by
  cases step with
  | read page =>
    simp only [Session.step]
    cases t.store.readPage page with
    | error e => exact h
    | ok p => exact h
  | tryLock page =>
    simp only [Session.step]
    cases hl : t.store.tryLock page with
    | error e => exact h
    | ok found =>
      cases found with
      | none => exact h
      | some s =>
        obtain ⟨-, -, rfl⟩ := Store.tryLock_some hl
        simp only [Store.release_locked]
        exact h
  | lock page =>
    have ho := (sound_step h.orderly (.lock page)).2
    simp only [Session.step] at ho ⊢
    cases hl : t.store.tryLock page with
    | error e => exact h
    | ok found =>
      cases found with
      | none => exact h
      | some s =>
        obtain ⟨hlt, -, rfl⟩ := Store.tryLock_some hl
        simp only [hl] at ho ⊢
        refine h.same ho rfl rfl fun x hx => ?_
        rcases List.mem_cons.mp hx with rfl | hx
        · rwa [hn.pageCount_eq] at hlt
        · exact h.guarded x hx
  | unlock page =>
    have ho := (sound_step h.orderly (.unlock page)).2
    simp only [Session.step] at ho ⊢
    by_cases hp : t.guards.contains page = true
    · simp only [if_pos hp] at ho ⊢
      exact h.same ho rfl rfl fun x hx => h.guarded x (List.mem_of_mem_erase hx)
    · rw [if_neg hp]
      exact h
  | begin name => exact h.begin
  | register name page => exact h.register page
  | append name => exact h.append hn
  | change name handle edit => exact h.change handle edit
  | commit name => exact h.commit hn
  | abort name => exact h.abort

end

end Counted

theorem le_size_step (h : t.Orderly) (step : Step) :
    t.store.pages.size ≤ (t.step step).2.store.pages.size := by
  obtain ⟨hmoves, -⟩ := sound_step h step
  cases hmoves with
  | quiet pages groups =>
    exact Nat.le_of_eq (congrArg Array.size pages.symm)
  | works name g g' named pages groups members =>
    exact Nat.le_of_eq (congrArg Array.size pages.symm)
  | begins name ends pages groups =>
    exact Nat.le_of_eq (congrArg Array.size pages.symm)
  | ends name ends pages groups =>
    exact Nat.le_of_eq (congrArg Array.size pages.symm)
  | commits name g named taken answer run groups =>
    rw [Group.size_commit run]
    exact Nat.le_max_left _ _

theorem le_size_run (h : t.Orderly) (steps : List Step) :
    t.store.pages.size ≤ (t.run steps).store.pages.size := by
  induction steps generalizing t with
  | nil => exact Nat.le_refl _
  | cons step steps ih =>
    exact Nat.le_trans (le_size_step h step) (ih (sound_step h step).2)

/-- The tally of a run agrees with the groups at its end. The file never shrinks, so it has been
small enough all the time if it is so at the end. -/
theorem Counted.run (h : Counted n t y) (steps : List Step)
    (hn : (t.run steps).store.Numbered) : Counted n (t.run steps) (t.tally y steps) := by
  induction steps generalizing t y with
  | nil => exact h
  | cons step steps ih =>
    have ho := (sound_step h.orderly step).2
    have hnow : t.store.Numbered :=
      Nat.le_trans (Nat.le_trans (le_size_step h.orderly step) (le_size_run ho steps)) hn
    exact ih (h.step hnow step) hn

/-- How the file grows in a session that started with `n` pages: by whole commits, in the order of
the numbers that the appends have given. -/
structure Grows (n : Nat) (t : Session) (y : Tally) : Prop where
  /-- No two live groups have appended pages. -/
  one : ∀ name other g g', t.group? name = some g → t.group? other = some g' →
    0 < g.appended → 0 < g'.appended → name = other
  /-- A live group has been given the pages that follow those of the file. -/
  pending : ∀ name g, t.group? name = some g →
    (y.pending name).map UInt32.toNat = List.range' t.store.pageCount g.appended
  /-- Its next append is given the page after them. It is told to wait only while another group has
  the right to grow, and fails only when page numbers have run out. -/
  append : ∀ name g, t.group? name = some g →
    ((t.step (.append name)).1 = .busy ∧
      ∃ other g', t.group? other = some g' ∧ other ≠ name ∧ g'.base ≠ none) ∨
    ((t.step (.append name)).1 = .failed .pageIdsExhausted ∧
      4294967296 ≤ t.store.pageCount + (y.pending name).length) ∨
    ∃ number page, (t.step (.append name)).1 = .appended number page ∧
      page.toNat = t.store.pageCount + (y.pending name).length
  /-- A commit succeeds, and adds to the file as many pages as its group has been given. -/
  commit : ∀ name g, t.group? name = some g → (t.step (.commit name)).1 = .done ∧
    (t.step (.commit name)).2.store.pages.size =
      t.store.pages.size + (y.pending name).length
  /-- No commit reaches beyond the end of the file. -/
  within : ∀ name id count, (t.step (.commit name)).1 ≠ .failed (.beyondEnd id count)
  /-- Nothing else changes the pages of the file, the end of a group without a commit included. -/
  other : ∀ step, (∀ name, step ≠ .commit name) →
    (t.step step).2.store.pages = t.store.pages
  /-- The pages that have been added are the next ones, each of them once. -/
  kept : y.kept.map UInt32.toNat = List.range' n (t.store.pages.size - n)
  /-- The file consists of whole pages, two at least. -/
  whole : t.store.bytes.size = t.store.pages.size * pageSize ∧ 2 ≤ t.store.pages.size

theorem Counted.grows (h : Counted n t y) (hn : t.store.Numbered) : Grows n t y where
  one := by
    intro name other g g' hg hg' happended happended'
    exact h.orderly.sole hg hg' (base_of_appended (h.orderly.owns hg).measured happended)
      (base_of_appended (h.orderly.owns hg').measured happended')
  pending := by
    intro name g hg
    rw [h.pending, appendedBy_eq hg, hn.pageCount_eq]
  append := by
    intro name g hg
    have hstep : t.step (.append name) = t.append name g := by
      show t.onGroup name (fun g => t.append name g) = _
      rw [Session.onGroup, hg]
    rw [hstep, hn.pageCount_eq, h.length_pending hg]
    rcases h.append_answer hn hg with ⟨ha, hwait⟩ | ⟨s, g', ha, -, -, -, hlimit⟩ |
      ⟨s, g', number, page, ha, -, -, -, hid⟩
    · exact .inl ⟨by rw [ha], hwait⟩
    · exact .inr (.inl ⟨by rw [ha], hlimit⟩)
    · exact .inr (.inr ⟨number, page, by rw [ha], hid⟩)
  commit := by
    intro name g hg
    obtain ⟨s, hs, hsize⟩ := h.commit_answer hn hg
    have hstep : t.step (.commit name) = t.commit name g := by
      show t.onGroup name (fun g => t.commit name g) = _
      rw [Session.onGroup, hg]
    rw [hstep, hs, h.length_pending hg]
    exact ⟨rfl, hsize⟩
  within := by
    intro name id count
    show (t.onGroup name fun g => t.commit name g).1 ≠ _
    cases hg : t.group? name with
    | none =>
      rw [Session.onGroup, hg]
      intro heq
      cases heq
    | some g =>
      obtain ⟨s, hs, -⟩ := h.commit_answer hn hg
      simp only [Session.onGroup, hg, hs]
      intro heq
      cases heq
  other := by
    intro step hstep
    obtain ⟨hmoves, -⟩ := sound_step h.orderly step
    cases hmoves with
    | quiet pages groups => exact pages
    | works name g g' named pages groups members => exact pages
    | begins name ends pages groups => exact pages
    | ends name ends pages groups => exact pages
    | commits name g named taken answer run groups => exact absurd taken (hstep name)
  kept := h.kept
  whole := ⟨t.store.size_bytes, t.store.two_le_size⟩

end Session

namespace Store

variable {path : String} {template : Header} {file file' : FileState} {s : Store}

theorem ofContent_ok {content : Bytes} (h : ofContent path template content = .ok s) :
    s.held = [] ∧ s.pages.size = content.size / pageSize := by
  rw [ofContent] at h
  by_cases hbad : content.size < 2 * pageSize ∨ content.size % pageSize ≠ 0
  · rw [dif_pos hbad] at h
    cases h
  · rw [dif_neg hbad] at h
    have hmap : ∀ (x : Except Error Unit) (v : Store), x.map (fun _ => v) = .ok s → v = s := by
      intro x v hx
      cases x with
      | error e => cases hx
      | ok u => exact Except.ok.inj hx
    rw [← hmap _ _ h]
    exact ⟨rfl, Array.size_ofFn⟩

theorem attempt_ok {content : Bytes}
    (h : openFile.attempt path template content = (.ok s, file')) :
    s.held = [] ∧ s.pages.size = content.size / pageSize := by
  rw [openFile.attempt] at h
  cases hc : ofContent path template content with
  | error e =>
    rw [hc] at h
    cases (Prod.mk.inj h).1
  | ok found =>
    rw [hc] at h
    obtain rfl := Except.ok.inj (Prod.mk.inj h).1
    exact ofContent_ok hc

theorem openFile_ok (h : openFile path template file = (.ok s, file')) :
    s.held = [] ∧ (file.isBlank = true → s.pages.size = 2) := by
  have hnew : (initialContent template).size / pageSize = 2 := by
    rw [← bytes_fresh, size_bytes]
    exact Nat.mul_div_cancel _ (by decide)
  cases file with
  | absent =>
    rw [openFile] at h
    obtain ⟨hidle, hsize⟩ := attempt_ok h
    exact ⟨hidle, fun _ => hsize.trans hnew⟩
  | closed content =>
    obtain ⟨hidle, hsize⟩ := attempt_ok h
    refine ⟨hidle, fun hblank => ?_⟩
    have hz : content.size = 0 := by simpa [FileState.isBlank] using hblank
    rw [hsize, if_pos hz, hnew]
  | directory => cases (Prod.mk.inj h).1
  | inUse content => cases (Prod.mk.inj h).1

end Store

namespace Session

/-- Whatever file has been opened, and however the steps of guards and groups on it are interleaved,
the file grows exactly by what is committed, page by page. A new file starts with two pages. -/
theorem appends_numbered {path : String} {template : Header} {file file' : FileState} {s : Store}
    (hopen : Store.openFile path template file = (.ok s, file')) (steps : List Step)
    (hn : ((ofStore s).run steps).store.Numbered) :
    Grows s.pages.size ((ofStore s).run steps) ((ofStore s).tally .empty steps) ∧
      (file.isBlank = true → s.pages.size = 2) := by
  obtain ⟨hidle, htwo⟩ := Store.openFile_ok hopen
  exact ⟨((Counted.ofStore hidle).run steps hn).grows hn, htwo⟩

/-- Two groups want to make a new file grow: one has to wait, the other one is dropped with its page,
and its number is given again. -/
theorem appends_numbered_again :
    Grows (Store.fresh (Index.template 1 Options.standard)).pages.size
      ((ofStore (Store.fresh (Index.template 1 Options.standard))).run [.begin "a", .append "a",
        .begin "b", .append "b", .abort "a", .append "b", .append "b", .commit "b"])
      ((ofStore (Store.fresh (Index.template 1 Options.standard))).tally .empty [.begin "a",
        .append "a", .begin "b", .append "b", .abort "a", .append "b", .append "b",
        .commit "b"]) := by
  have hcheck : Index.checkOptions 1 Options.standard = .ok Params.standard :=
    Index.checkOptions_standard (by decide) (by decide)
  have hformed := (Store.intact_fresh _ rfl (Index.width_template hcheck) rfl).1.toFormed
  have hopen := Store.openFile_blank hformed (Index.template_sets hcheck) "index" .absent rfl
  have hnumbered : ((ofStore (Store.fresh (Index.template 1 Options.standard))).run [.begin "a",
      .append "a", .begin "b", .append "b", .abort "a", .append "b", .append "b",
      .commit "b"]).store.pages.size ≤ noPage.toNat := by decide +kernel
  exact (appends_numbered hopen _ hnumbered).1

end Session

end PagedGraph
