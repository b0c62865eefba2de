import Mathlib.Data.List.Dedup
import Mathlib.Data.List.Perm.Subperm
import PagedGraph.Proofs.Addresses
import PagedGraph.Proofs.ChainWalks
import PagedGraph.Proofs.Nearest

/-!
# What beams expand

A beam search ends in every store, however the links lead, and `Searches` says how, without a limit
on the steps. What is left to do for a beam are its open candidates and the locations that can still
become open. An expansion takes one candidate off and turns locations of the second kind into
candidates, so what is expanded is a part of what there is to do at the start (`Searches.subperm`).
No distance plays a part in this.

A search that does not end with a result ends at a location that cannot be read. Why it cannot is
said, unless its page claims slots that it has no room for (`Store.Overruns`): then the reader leaves
the page (`searchLayer_ends`).
-/

set_option autoImplicit false

namespace PagedGraph

namespace Store

variable {s : Store} {l : Location} {e : Error}

def Overruns (s : Store) (l : Location) : Prop :=
  ∃ p, s.pages[l.page.toNat]? = some p ∧ 2044 ≤ l.slot.toNat ∧ l.slot.toNat < p.slotCount

theorem overruns_iff {α : Type} {read : Page → Except Error α}
    (h : ∀ p, read p = .error .outsidePage ↔ p.item l.slot.toNat = .error .outsidePage) :
    (s.readPage l.page).bind read = .error .outsidePage ↔ s.Overruns l := by
  rw [readPage, Overruns]
  cases hp : s.pages[l.page.toNat]? with
  | none => simp [Except.bind]
  | some p =>
    have hplace : pageSize < Page.itemIdAt l.slot.toNat + Page.itemIdSize ↔
        2044 ≤ l.slot.toNat := by
      simp only [Page.itemIdAt, Page.headerSize, Page.itemIdSize, pageSize]
      omega
    show read p = _ ↔ _
    rw [h, Page.item_outside, hplace, and_comm]
    simp

theorem element_overruns : s.element l = .error .outsidePage ↔ s.Overruns l :=
  overruns_iff fun p => p.element_outside l

theorem adjacency_overruns : s.adjacency l = .error .outsidePage ↔ s.Overruns l :=
  overruns_iff fun p => p.adjacency_outside l

theorem mapError_failsPlainly {ε α : Type} (s : Store) {f : ε → Error}
    (hf : ∀ c, (f c).isAnswer = true) (x : Except ε α) : s.FailsPlainly (x.mapError f) := by
  cases x with
  | ok a => exact .ok s a
  | error c => exact .answer s (hf c)

theorem element_failsPlainly (s : Store) (l : Location) : s.FailsPlainly (s.element l) :=
  readPage_failsPlainly (fun _ hp => (itemId_failsPlainly hp _).map.bind fun _ _ =>
    mapError_failsPlainly s (fun _ => rfl) _) _

theorem adjacency_failsPlainly (s : Store) (l : Location) : s.FailsPlainly (s.adjacency l) :=
  readPage_failsPlainly (fun _ hp => (itemId_failsPlainly hp _).map.bind fun _ _ =>
    mapError_failsPlainly s (fun _ => rfl) _) _

theorem Plain.isAnswer_iff (h : s.Plain e) : e.isAnswer = true ↔ e ≠ .outsidePage := by
  constructor
  · rintro hanswer rfl
    cases hanswer
  · exact fun hne => h.resolve_right fun hout => hne hout.1

def Unread (s : Store) (l : Location) (e : Error) : Prop :=
  s.element l = .error e ∨ s.adjacency l = .error e

theorem Unread.isAnswer_iff (h : s.Unread l e) : e.isAnswer = true ↔ ¬s.Overruns l := by
  rcases h with h | h
  · rw [(element_failsPlainly s l e h).isAnswer_iff, ← element_overruns, h, ne_eq,
      Except.error.injEq]
  · rw [(adjacency_failsPlainly s l e h).isAnswer_iff, ← adjacency_overruns, h, ne_eq,
      Except.error.injEq]

inductive Meets (s : Store) : List Location → List Location → Location → Error → Prop
  | here {seen ls : List Location} {l : Location} {e : Error} (new : l ∉ seen)
      (unread : s.element l = .error e) : Meets s seen (l :: ls) l e
  | seen {seen ls : List Location} {k l : Location} {e : Error} (old : k ∈ seen)
      (later : Meets s seen ls l e) : Meets s seen (k :: ls) l e
  | read {seen ls : List Location} {k l : Location} {e : Error} {f : Element} (new : k ∉ seen)
      (read : s.element k = .ok f) (later : Meets s (k :: seen) ls l e) :
      Meets s seen (k :: ls) l e

/-- Where the expansion of a candidate fails: at the candidate, at its neighbor record, or at the
first neighbor that is seen for the first time and cannot be read. -/
inductive Sticks (s : Store) (m layer : Nat) (seen : List Location) (at_ : Location) :
    Location → Error → Prop
  | candidate {e : Error} (unread : s.element at_ = .error e) : Sticks s m layer seen at_ at_ e
  | record {e : Error} {f : Element} (read : s.element at_ = .ok f)
      (unread : s.neighbors m f layer = .error e) : Sticks s m layer seen at_ f.neighborsAt e
  | neighbor {l : Location} {e : Error} {f : Element} {ls : List Location}
      (read : s.element at_ = .ok f) (links : s.neighbors m f layer = .ok ls)
      (unread : s.Meets seen ls l e) : Sticks s m layer seen at_ l e

theorem Meets.unread {seen ls : List Location} (h : s.Meets seen ls l e) : s.Unread l e := by
  induction h with
  | here _ unread => exact .inl unread
  | seen _ _ ih => exact ih
  | read _ _ _ ih => exact ih

theorem unread_of_neighbors {m layer : Nat} {f : Element}
    (h : s.neighbors m f layer = .error e) : s.Unread f.neighborsAt e := by
  rw [neighbors] at h
  by_cases hhigh : f.level.toNat < layer
  · rw [if_pos hhigh] at h
    cases h
  · rw [if_neg hhigh] at h
    cases ha : s.adjacency f.neighborsAt with
    | ok a =>
      rw [ha] at h
      cases h
    | error c =>
      rw [ha] at h
      exact .inr (ha.trans (congrArg Except.error (Except.error.inj h)))

theorem Sticks.unread {m layer : Nat} {seen : List Location} {at_ : Location}
    (h : s.Sticks m layer seen at_ l e) : s.Unread l e := by
  cases h with
  | candidate unread => exact .inl unread
  | record _ unread => exact unread_of_neighbors unread
  | neighbor _ _ unread => exact unread.unread

section
variable {p : Params} {metric : Metric} {query : Embedding} {layer width : Nat} {b b' : Beam}
  {c : Candidate}

theorem visit_seen (h : l ∈ b.visited) : s.visit metric query width b l = .ok b :=
  if_pos (List.contains_iff_mem.mpr h)

theorem visit_unread (hnew : l ∉ b.visited) (h : s.element l = .error e) :
    s.visit metric query width b l = .error e := by
  rw [visit, if_neg fun hseen => hnew (List.contains_iff_mem.mp hseen), score, h]
  rfl

theorem visit_read (metric : Metric) (query : Embedding) (width : Nat) {f : Element}
    (hnew : l ∉ b.visited) (h : s.element l = .ok f) :
    ∃ b', s.visit metric query width b l = .ok b' ∧ b'.visited = l :: b.visited := by
  rw [visit, if_neg fun hseen => hnew (List.contains_iff_mem.mp hseen), score, h]
  refine ⟨_, rfl, ?_⟩
  dsimp only
  split <;> rfl

theorem Meets.visits_eq {seen ls : List Location} (h : s.Meets seen ls l e) :
    ∀ b : Beam, b.visited = seen → ls.foldlM (s.visit metric query width) b = .error e := by
  induction h with
  | here new unread =>
    rintro b rfl
    rw [List.foldlM_cons, visit_unread new unread]
    rfl
  | seen old _ ih =>
    rintro b rfl
    rw [List.foldlM_cons, visit_seen old]
    exact ih b rfl
  | read new read _ ih =>
    rintro b rfl
    obtain ⟨b', hvisit, hvisited⟩ := visit_read metric query width new read
    rw [List.foldlM_cons, hvisit]
    exact ih b' hvisited

theorem meets_of_visits (ls : List Location) : ∀ b : Beam,
    ls.foldlM (s.visit metric query width) b = .error e → ∃ l, s.Meets b.visited ls l e := by
  induction ls with
  | nil =>
    intro b h
    cases h
  | cons k ls ih =>
    intro b h
    rw [List.foldlM_cons] at h
    by_cases hseen : k ∈ b.visited
    · rw [visit_seen hseen] at h
      obtain ⟨l, hl⟩ := ih b h
      exact ⟨l, .seen hseen hl⟩
    · cases hk : s.element k with
      | error x =>
        rw [visit_unread hseen hk] at h
        obtain rfl : x = e := Except.error.inj h
        exact ⟨k, .here hseen hk⟩
      | ok f =>
        obtain ⟨b', hvisit, hvisited⟩ := visit_read metric query width hseen hk
        rw [hvisit] at h
        obtain ⟨l, hl⟩ := ih b' h
        exact ⟨l, .read hseen hk (hvisited ▸ hl)⟩

theorem expand_of_element {f : Element} (h : s.element c.location = .ok f) :
    s.expand p query layer width b c =
      (s.neighbors p.m f layer).bind fun ls => ls.foldlM (s.visit p.metric query width) b := by
  rw [expand, h]
  rfl

theorem Sticks.expand_eq (h : s.Sticks p.m layer b.visited c.location l e) :
    s.expand p query layer width b c = .error e := by
  cases h with
  | candidate unread =>
    rw [expand, unread]
    rfl
  | record read unread =>
    rw [expand_of_element read, unread]
    rfl
  | neighbor read links unread =>
    rw [expand_of_element read, links]
    exact unread.visits_eq b rfl

theorem sticks_of_expand (h : s.expand p query layer width b c = .error e) :
    ∃ l, s.Sticks p.m layer b.visited c.location l e := by
  cases he : s.element c.location with
  | error x =>
    rw [expand, he] at h
    obtain rfl : x = e := Except.error.inj h
    exact ⟨_, .candidate he⟩
  | ok f =>
    rw [expand_of_element he] at h
    cases hls : s.neighbors p.m f layer with
    | error x =>
      rw [hls] at h
      obtain rfl : x = e := Except.error.inj h
      exact ⟨_, .record he hls⟩
    | ok ls =>
      rw [hls] at h
      obtain ⟨l, hl⟩ := meets_of_visits ls b h
      exact ⟨l, .neighbor he hls hl⟩

end

def adjacencies (s : Store) : List Adjacency :=
  s.slots.filterMap fun l => (s.adjacency l).toOption

def named (s : Store) : List Location :=
  (s.adjacencies.flatMap fun a => a.slots.filter Location.isUsed).dedup

theorem mem_adjacencies {a : Adjacency} :
    a ∈ s.adjacencies ↔ ∃ l, s.record? l = some (.adjacency a) := by
  rw [adjacencies, List.mem_filterMap]
  constructor
  · rintro ⟨l, -, h⟩
    refine ⟨l, (s.adjacency_eq_ok l a).mp ?_⟩
    cases ha : s.adjacency l with
    | error e =>
      rw [ha] at h
      cases h
    | ok b =>
      rw [ha] at h
      exact congrArg Except.ok (Option.some.inj h)
  · rintro ⟨l, h⟩
    refine ⟨l, mem_slots h, ?_⟩
    rw [(s.adjacency_eq_ok l a).mpr h]
    rfl

theorem mem_named : l ∈ s.named ↔
    l.isUsed = true ∧ ∃ k a, s.record? k = some (.adjacency a) ∧ l ∈ a.slots := by
  simp only [named, List.mem_dedup, List.mem_flatMap, List.mem_filter, mem_adjacencies]
  constructor
  · rintro ⟨a, ⟨k, hk⟩, hl, hused⟩
    exact ⟨hused, k, a, hk, hl⟩
  · rintro ⟨hused, k, a, hk, hl⟩
    exact ⟨a, ⟨k, hk⟩, hl, hused⟩

/-- Different locations, among them all elements to which the links of a layer lead. -/
structure Pool (s : Store) (m layer : Nat) (pool : List Location) : Prop where
  nodup : pool.Nodup
  links : ∀ l k f, s.Link m layer l k → s.record? k = some (.element f) → k ∈ pool

theorem pool_named (s : Store) (m layer : Nat) : s.Pool m layer s.named where
  nodup := List.nodup_dedup _
  links := by
    rintro l k - ⟨f, a, -, ha, hk⟩ -
    obtain ⟨hused, i, -, hi⟩ := Adjacency.mem_layer.mp hk
    exact mem_named.mpr ⟨hused, f.neighborsAt, a, ha, List.mem_of_getElem? hi⟩

theorem pool_slots (s : Store) (m layer : Nat) : s.Pool m layer s.slots.dedup where
  nodup := List.nodup_dedup _
  links := fun _ _ _ _ hk => List.mem_dedup.mpr (mem_slots hk)

end Store

/-- What is left to do for a beam: to expand its open candidates, and what of a pool may still become
one. -/
def Beam.todo (pool : List Location) (b : Beam) : List Location :=
  b.frontier.map Candidate.location ++ pool.filter fun l => l ∉ b.visited

namespace Beam

theorem todo_start (entries : List Candidate) (width : Nat) (pool : List Location) :
    ((start entries width).todo pool).Perm (entries.map Candidate.location ++
      pool.filter fun l => l ∉ entries.map Candidate.location) :=
  ((Candidate.sort_perm entries).map Candidate.location).append_right _

theorem length_todo_start (entries : List Candidate) (width : Nat) (pool : List Location) :
    ((start entries width).todo pool).length ≤ entries.length + pool.length := by
  rw [(todo_start entries width pool).length_eq, List.length_append, List.length_map]
  exact Nat.add_le_add_left (List.length_filter_le _ _) _

theorem count_todo_start (entries : List Candidate) (width : Nat) {pool : List Location}
    (hpool : pool.Nodup) (l : Location) : ((start entries width).todo pool).count l ≤
      max 1 ((entries.map Candidate.location).count l) := by
  rw [(todo_start entries width pool).count_eq, List.count_append]
  by_cases hentry : l ∈ entries.map Candidate.location
  · have hseen : (pool.filter fun k => k ∉ entries.map Candidate.location).count l = 0 :=
      List.count_eq_zero_of_not_mem fun hl => of_decide_eq_true (List.mem_filter.mp hl).2 hentry
    rw [hseen]
    exact Nat.le_max_right _ _
  · rw [List.count_eq_zero_of_not_mem hentry, Nat.zero_add]
    exact Nat.le_trans (List.nodup_iff_count_le_one.mp (hpool.filter _) l) (Nat.le_max_left _ _)

end Beam

theorem filter_unseen {pool seen : List Location} (hpool : pool.Nodup) {l : Location}
    (hl : l ∈ pool) (hnew : l ∉ seen) :
    (l :: pool.filter fun k => k ∉ l :: seen).Perm (pool.filter fun k => k ∉ seen) := by
  refine (List.perm_ext_iff_of_nodup ?_ (hpool.filter _)).mpr fun k => ?_
  · exact List.nodup_cons.mpr ⟨by simp, hpool.filter _⟩
  · by_cases hk : k = l
    · subst hk
      simp [hl, hnew]
    · simp [hk]

namespace Store

section
variable {s : Store} {p : Params} {metric : Metric} {query : Embedding} {layer width : Nat}
  {b b' : Beam} {l : Location} {c : Candidate} {pool : List Location}

theorem visit_todo (hpool : pool.Nodup)
    (hl : ∀ f, s.record? l = some (.element f) → l ∈ pool)
    (h : s.visit metric query width b l = .ok b') : (b'.todo pool).Subperm (b.todo pool) := by
  rcases visit_cases h with ⟨-, rfl⟩ | ⟨hseen, c, hc, ⟨-, rfl⟩ | ⟨-, rfl⟩⟩
  · exact List.Subperm.refl _
  · obtain ⟨f, hf, rfl⟩ := of_score hc
    have hopen := (Candidate.insert_perm ⟨l, metric.distance query f.vector⟩ b.frontier).map
      Candidate.location
    have hpush := List.perm_middle.symm.trans
      ((filter_unseen hpool (hl f hf) hseen).append_left (b.frontier.map Candidate.location))
    exact ((hopen.append_right _).trans hpush).subperm
  · refine (List.Sublist.append_left ?_ _).subperm
    exact List.monotone_filter_right pool fun k hk => by
      simp only [List.mem_cons, not_or, decide_eq_true_eq] at hk ⊢
      exact hk.2

theorem expand_todo (hpool : s.Pool p.m layer pool) {rest : List Candidate}
    (hb : b.frontier = c :: rest)
    (h : s.expand p query layer width { b with frontier := rest } c = .ok b') :
    (c.location :: b'.todo pool).Subperm (b.todo pool) := by
  obtain ⟨ls, hls, hrun⟩ := links_of_expand h
  have hrest : (b'.todo pool).Subperm (({ b with frontier := rest } : Beam).todo pool) :=
    visits_keep ls (I := fun x => (x.todo pool).Subperm _)
      (fun k hk _ _ hx hv => (visit_todo hpool.nodup
        (fun f hf => hpool.links c.location k f ((hls k).mp hk) hf) hv).trans hx)
      (List.Subperm.refl _) hrun
  have htodo : b.todo pool = c.location :: ({ b with frontier := rest } : Beam).todo pool := by
    rw [Beam.todo, hb]
    rfl
  rw [htodo]
  exact (List.subperm_cons c.location).mpr hrest

end

end Store

inductive Beam.Outcome where
  | found (best : List Candidate)
  | stuck (l : Location) (e : Error)

def Beam.Outcome.answer : Beam.Outcome → Except Error (List Candidate)
  | found best => .ok best
  | stuck _ e => .error e

namespace Store

/-- A search goes on from a beam, expands candidates at some locations one after the other, and ends.
There is no limit on how many they are. -/
inductive Searches (s : Store) (p : Params) (query : Embedding) (layer width : Nat) :
    Beam → List Location → Beam.Outcome → Prop
  /-- No candidate is open. -/
  | dry {b : Beam} (empty : b.frontier = []) : Searches s p query layer width b [] (.found b.best)
  /-- The closest open candidate is too far away. -/
  | settled {b : Beam} {c : Candidate} {rest : List Candidate} (next : b.frontier = c :: rest)
      (far : b.settled width c = true) : Searches s p query layer width b [] (.found b.best)
  | stuck {b : Beam} {c : Candidate} {rest : List Candidate} {l : Location} {e : Error}
      (next : b.frontier = c :: rest) (near : b.settled width c = false)
      (unread : s.Sticks p.m layer b.visited c.location l e) :
      Searches s p query layer width b [c.location] (.stuck l e)
  | step {b b' : Beam} {c : Candidate} {rest : List Candidate} {expanded : List Location}
      {outcome : Beam.Outcome} (next : b.frontier = c :: rest) (near : b.settled width c = false)
      (expand : s.expand p query layer width { b with frontier := rest } c = .ok b')
      (further : Searches s p query layer width b' expanded outcome) :
      Searches s p query layer width b (c.location :: expanded) outcome

variable {s : Store} {p : Params} {query : Embedding} {layer width : Nat} {b : Beam}
  {expanded : List Location} {outcome : Beam.Outcome}

theorem exists_searches (n : Nat) : ∀ b : Beam, (b.todo s.named).length ≤ n →
    ∃ expanded outcome, s.Searches p query layer width b expanded outcome := by
  induction n with
  | zero =>
    intro b hn
    have hnone : b.frontier = [] := by
      have hempty := List.eq_nil_of_length_eq_zero (Nat.le_zero.mp hn)
      exact List.map_eq_nil_iff.mp (List.append_eq_nil_iff.mp hempty).1
    exact ⟨_, _, .dry hnone⟩
  | succ n ih =>
    intro b hn
    cases hnext : b.frontier with
    | nil => exact ⟨_, _, .dry hnext⟩
    | cons c rest =>
      cases hnear : b.settled width c with
      | true => exact ⟨_, _, .settled hnext hnear⟩
      | false =>
        cases hexpand : s.expand p query layer width { b with frontier := rest } c with
        | error e =>
          obtain ⟨l, hl⟩ := sticks_of_expand hexpand
          exact ⟨_, _, .stuck hnext hnear hl⟩
        | ok b' =>
          have hless := (expand_todo (pool_named s p.m layer) hnext hexpand).length_le
          rw [List.length_cons] at hless
          obtain ⟨expanded, outcome, hrun⟩ := ih b' (by omega)
          exact ⟨_, _, .step hnext hnear hexpand hrun⟩

theorem Searches.subperm {pool : List Location} (hpool : s.Pool p.m layer pool)
    (h : s.Searches p query layer width b expanded outcome) : expanded.Subperm (b.todo pool) := by
  induction h with
  | dry => exact List.nil_subperm
  | settled => exact List.nil_subperm
  | stuck next =>
    rw [Beam.todo, next]
    exact List.singleton_subperm_iff.mpr List.mem_cons_self
  | step next _ expand _ ih =>
    exact ((List.subperm_cons _).mpr ih).trans (expand_todo hpool next expand)

theorem runBeam_succ {c : Candidate} {rest : List Candidate} (next : b.frontier = c :: rest)
    (near : b.settled width c = false) (left : Nat) :
    s.runBeam p query layer width (left + 1) b =
      (s.expand p query layer width { b with frontier := rest } c).bind
        (s.runBeam p query layer width left) := by
  rw [runBeam]
  simp only [next, near, Bool.false_eq_true, if_false]
  cases s.expand p query layer width { b with frontier := rest } c <;> rfl

theorem Searches.runBeam_eq (h : s.Searches p query layer width b expanded outcome) :
    ∀ steps, expanded.length ≤ steps →
      s.runBeam p query layer width steps b = outcome.answer := by
  induction h with
  | dry empty =>
    intro steps _
    rw [runBeam, empty]
    rfl
  | settled next far =>
    intro steps _
    rw [runBeam, next]
    exact if_pos far
  | @stuck b c rest l e next near unread =>
    intro steps hsteps
    obtain ⟨left, rfl⟩ := Nat.exists_eq_add_of_le' hsteps
    have hexpand : s.expand p query layer width { b with frontier := rest } c = .error e :=
      Sticks.expand_eq (b := { b with frontier := rest }) unread
    rw [List.length_singleton, runBeam_succ next near, hexpand]
    rfl
  | step next near expand _ ih =>
    intro steps hsteps
    obtain ⟨left, rfl⟩ := Nat.exists_eq_add_of_le' hsteps
    rw [List.length_cons, ← Nat.add_assoc, runBeam_succ next near, expand]
    exact ih _ (Nat.le_add_left _ _)

theorem Searches.unread {l : Location} {e : Error}
    (h : s.Searches p query layer width b expanded (.stuck l e)) : s.Unread l e := by
  generalize hstuck : Beam.Outcome.stuck l e = outcome at h
  induction h with
  | dry => cases hstuck
  | settled => cases hstuck
  | stuck _ _ unread =>
    cases hstuck
    exact unread.unread
  | step _ _ _ _ ih => exact ih hstuck

structure SearchEnds (s : Store) (p : Params) (query : Embedding) (layer width : Nat)
    (entries : List Candidate) (expanded : List Location) (outcome : Beam.Outcome) : Prop where
  answer : s.searchLayer p query layer width entries = outcome.answer
  /-- No location is expanded twice, unless it is that often among the entries. -/
  once : ∀ l, expanded.count l ≤ max 1 ((entries.map Candidate.location).count l)
  few : expanded.length ≤ entries.length + s.named.length
  /-- The caller is told why a location cannot be read, and a reader leaves the page only where the
  page claims a slot that it has no room for. -/
  told : ∀ l e, outcome = .stuck l e → (e.isAnswer = true ↔ ¬s.Overruns l)

/-- A beam search comes to an end from all entries and in all stores, whatever the links are. -/
theorem searchLayer_ends (s : Store) (p : Params) (query : Embedding) (layer width : Nat)
    (entries : List Candidate) :
    (∃ expanded outcome,
      s.Searches p query layer width (Beam.start entries width) expanded outcome) ∧
    ∀ expanded outcome,
      s.Searches p query layer width (Beam.start entries width) expanded outcome →
        s.SearchEnds p query layer width entries expanded outcome := by
  refine ⟨exists_searches _ _ (Nat.le_refl _), fun expanded outcome h => ?_⟩
  have hslots := h.subperm (pool_slots s p.m layer)
  have hnamed := h.subperm (pool_named s p.m layer)
  refine ⟨h.runBeam_eq _ ?_, fun l => ?_, ?_, ?_⟩
  · have htotal := (List.dedup_sublist s.slots).length_le
    rw [length_slots] at htotal
    exact Nat.le_trans hslots.length_le (Nat.le_trans (Beam.length_todo_start _ _ _)
      (Nat.add_le_add_left htotal _))
  · exact Nat.le_trans (hnamed.count_le l)
      (Beam.count_todo_start entries width (pool_named s p.m layer).nodup l)
  · exact Nat.le_trans hnamed.length_le (Beam.length_todo_start _ _ _)
  · rintro l e rfl
    exact h.unread.isAnswer_iff

theorem exists_freshWith_records (template : Header) {width : Nat} (r r' : Record)
    (hr : r.Fits width) (hr' : r'.Fits width)
    (hroom : r.encode.size + r'.encode.size + Page.itemIdSize ≤ 8172) :
    ∃ first, (freshWith template first).record? ⟨1, 0⟩ = some r ∧
      (freshWith template first).record? ⟨1, 1⟩ = some r' := by
  have hempty := Page.carries_empty width
  obtain ⟨q, first, hq, hfirst, -⟩ := hempty.add_two r r' hr hr' (by
    rwa [Page.freeSpace_empty])
  have hone := ((hempty.of_addItem r hq).2.2 hr).1
  have htwo := ((hone.of_addItem r' hfirst).2.2 hr').1
  exact ⟨first, htwo.record?_eq 0, htwo.record?_eq 1⟩

def misled : Element := { Element.single 0 [0, 0] 1 with neighborsAt := ⟨1, 1⟩ }

def misleading : Adjacency := ⟨⟨1, 0⟩ :: ⟨0, 5000⟩ :: List.replicate 30 .unused⟩

/-- A search from an element that is linked to itself and to a slot of the header page: the element
is expanded once, and then the reader leaves the header page. -/
theorem searchLayer_ends_misled : ∃ s : Store,
    s.Searches .standard [0, 0] 0 64 (Beam.start [⟨⟨1, 0⟩, 0⟩] 64) [⟨1, 0⟩]
      (.stuck ⟨0, 5000⟩ .outsidePage) ∧
    s.searchLayer .standard [0, 0] 0 64 [⟨⟨1, 0⟩, 0⟩] = .error .outsidePage ∧
    s.Overruns ⟨0, 5000⟩ := by
  have hfits : Record.Fits 2 (.element misled) :=
    ⟨rfl, by decide, Element.packed_single 0 [0, 0] 1⟩
  have hsize : (Record.element misled).encode.size = 104 := misled.size_encode
  have hsize' : (Record.adjacency misleading).encode.size = 200 := misleading.size_encode
  obtain ⟨first, helement, hrecord⟩ :=
    exists_freshWith_records (Index.template 2 Options.standard) (.element misled)
      (.adjacency misleading) hfits (show 32 ≤ 65535 by decide) (by
        rw [hsize, hsize']
        decide)
  generalize hs : freshWith (Index.template 2 Options.standard) first = s at helement hrecord
  have hread := (s.element_eq_ok ⟨1, 0⟩ misled).mpr helement
  have hlinks : s.neighbors Params.standard.m misled 0 = .ok [⟨1, 0⟩, ⟨0, 5000⟩] := by
    have hlist : s.adjacency misled.neighborsAt = .ok misleading :=
      (s.adjacency_eq_ok _ misleading).mpr hrecord
    rw [neighbors, if_neg (by decide), hlist]
    rfl
  have hmeta : s.pages[0]? = some (metaImage (Index.template 2 Options.standard)) := by
    rw [← hs]
    rfl
  have hover : s.Overruns ⟨0, 5000⟩ :=
    ⟨_, hmeta, by decide, by rw [slotCount_metaImage rfl]; decide⟩
  have hnew : (⟨0, 5000⟩ : Location) ∉ [(⟨1, 0⟩ : Location)] := by decide
  have hsticks : s.Sticks Params.standard.m 0 [⟨1, 0⟩] ⟨1, 0⟩ ⟨0, 5000⟩ .outsidePage :=
    .neighbor hread hlinks (.seen List.mem_cons_self (.here hnew (element_overruns.mpr hover)))
  have hnext : (Beam.start [⟨⟨1, 0⟩, 0⟩] 64).frontier = [⟨⟨1, 0⟩, 0⟩] := rfl
  have hrun : s.Searches .standard [0, 0] 0 64 (Beam.start [⟨⟨1, 0⟩, 0⟩] 64) [⟨1, 0⟩]
      (.stuck ⟨0, 5000⟩ .outsidePage) := .stuck hnext rfl hsticks
  exact ⟨s, hrun, ((searchLayer_ends s .standard [0, 0] 0 64 _).2 _ _ hrun).answer, hover⟩

end Store

end PagedGraph
