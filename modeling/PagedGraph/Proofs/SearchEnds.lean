import PagedGraph.Proofs.Navigation

/-!
# Searches come to an end

In an intact store whose links lead to elements, a search that starts from an element goes through
(`searchFrom_ok`): all that it opens is there, and its beams run dry before their steps are used up.
What is counted for a beam are its open candidates and the slots that it has not seen. An expansion
closes one candidate, and every neighbor that it opens is a slot seen for the first time.
-/

set_option autoImplicit false

namespace PagedGraph

namespace Store

def slotsFrom : Nat → List Page → List Location
  | _, [] => []
  | i, p :: ps =>
    (List.range p.slotCount).map (fun k => ⟨UInt32.ofNat i, UInt16.ofNat k⟩) ++ slotsFrom (i + 1) ps

def slots (s : Store) : List Location := slotsFrom 0 s.pages.toList

theorem length_slotsFrom (ps : List Page) :
    ∀ i total : Nat, ps.foldl (fun total p => total + p.slotCount) total =
      total + (slotsFrom i ps).length := by
  induction ps with
  | nil =>
    intro i total
    rfl
  | cons p ps ih =>
    intro i total
    rw [List.foldl_cons, ih (i + 1), slotsFrom, List.length_append, List.length_map,
      List.length_range, Nat.add_assoc]

theorem length_slots (s : Store) : s.slots.length = s.slotTotal := by
  rw [slotTotal, ← Array.foldl_toList, length_slotsFrom _ 0, Nat.zero_add, slots]

theorem mem_slotsFrom {p : Page} {k : Nat} (hk : k < p.slotCount) (ps : List Page) :
    ∀ i j : Nat, ps[j]? = some p →
      (⟨UInt32.ofNat (i + j), UInt16.ofNat k⟩ : Location) ∈ slotsFrom i ps := by
  induction ps with
  | nil =>
    intro i j hj
    cases hj
  | cons q ps ih =>
    intro i j hj
    rw [slotsFrom, List.mem_append]
    cases j with
    | zero =>
      obtain rfl : q = p := Option.some.inj hj
      exact .inl (List.mem_map.mpr ⟨k, List.mem_range.mpr hk, rfl⟩)
    | succ j =>
      have := ih (i + 1) j hj
      rw [Nat.add_assoc, Nat.add_comm 1 j] at this
      exact .inr this

theorem mem_slots {s : Store} {l : Location} {r : Record} (hr : s.record? l = some r) :
    l ∈ s.slots := by
  cases hp : s.pages[l.page.toNat]? with
  | none =>
    rw [record?, hp] at hr
    cases hr
  | some p =>
    rw [s.record?_of_page l p hp] at hr
    have hslot : l.slot.toNat < p.slotCount := by
      by_cases hout : p.slotCount ≤ l.slot.toNat
      · have hitem : p.item l.slot.toNat = .error (.slotOutOfRange l.slot.toNat p.slotCount) := by
          rw [Page.item, Page.itemId, if_pos hout]
          rfl
        rw [Page.record?, hitem] at hr
        cases hr
      · exact Nat.not_le.mp hout
    have hmem := mem_slotsFrom hslot s.pages.toList 0 l.page.toNat
      (by rw [Array.getElem?_toList]; exact hp)
    rwa [Nat.zero_add, UInt32.ofNat_toNat, UInt16.ofNat_toNat] at hmem

def unseen (s : Store) (visited : List Location) : Nat :=
  (s.slots.filter fun l => !visited.contains l).length

theorem unseen_le (s : Store) (visited : List Location) : s.unseen visited ≤ s.slotTotal := by
  rw [← length_slots]
  exact List.length_filter_le _ _

theorem unseen_cons {s : Store} {visited : List Location} {l : Location} (hl : l ∈ s.slots)
    (hnew : visited.contains l = false) : s.unseen (l :: visited) < s.unseen visited := by
  have hsplit : (s.slots.filter fun k => !(l :: visited).contains k) =
      (s.slots.filter fun k => !visited.contains k).filter fun k => k != l := by
    rw [List.filter_filter]
    apply List.filter_congr
    intro k _
    rw [List.contains_cons, Bool.not_or]
    rfl
  rw [unseen, unseen, hsplit]
  refine List.length_filter_lt_length_iff_exists.mpr ⟨l, ?_, by simp⟩
  rw [List.mem_filter, hnew]
  exact ⟨hl, rfl⟩

/-- All candidates of a beam are elements, and what is left to do is at most `n`. -/
structure Within (s : Store) (b : Beam) (n : Nat) : Prop where
  frontier : s.Occupied b.frontier
  best : s.Occupied b.best
  left : b.frontier.length + s.unseen b.visited ≤ n

variable {s : Store}

theorem Occupied.insert {cs : List Candidate} (h : s.Occupied cs) {c : Candidate} {e : Element}
    (he : s.record? c.location = some (.element e)) : s.Occupied (c.insert cs) := by
  intro x hx
  rcases List.mem_cons.mp ((Candidate.insert_perm c cs).mem_iff.mp hx) with rfl | hx
  · exact ⟨e, he⟩
  · exact h x hx

theorem Occupied.take {cs : List Candidate} (h : s.Occupied cs) (n : Nat) :
    s.Occupied (cs.take n) := fun x hx => h x (List.mem_of_mem_take hx)

theorem Occupied.sort {cs : List Candidate} (h : s.Occupied cs) :
    s.Occupied (Candidate.sort cs) := fun x hx => h x ((Candidate.sort_perm cs).mem_iff.mp hx)

theorem score_ok (metric : Metric) (query : Embedding) {l : Location} {e : Element}
    (he : s.record? l = some (.element e)) :
    ∃ c, s.score metric query l = .ok c ∧ c.location = l := by
  rw [score, (s.element_eq_ok l e).mpr he]
  exact ⟨_, rfl, rfl⟩

theorem visit_ok (metric : Metric) (query : Embedding) (width : Nat) {b : Beam} {n : Nat}
    (hb : s.Within b n) {l : Location} {e : Element} (he : s.record? l = some (.element e)) :
    ∃ b', s.visit metric query width b l = .ok b' ∧ s.Within b' n := by
  rw [visit]
  by_cases hseen : b.visited.contains l = true
  · rw [if_pos hseen]
    exact ⟨b, rfl, hb⟩
  · obtain ⟨c, hc, hat⟩ := score_ok metric query he
    have hless := unseen_cons (mem_slots he) (Bool.eq_false_iff.mpr hseen)
    have hleft := hb.left
    rw [if_neg hseen, hc]
    simp only [Except.map]
    split
    · refine ⟨_, rfl, hb.frontier.insert (by rw [hat]; exact he),
        (hb.best.insert (by rw [hat]; exact he)).take width, ?_⟩
      have hlength := (Candidate.insert_perm c b.frontier).length_eq
      rw [List.length_cons] at hlength
      simp only [Beam.accept]
      omega
    · refine ⟨_, rfl, hb.frontier, hb.best, ?_⟩
      show b.frontier.length + s.unseen (l :: b.visited) ≤ n
      omega

theorem visits_ok (metric : Metric) (query : Embedding) (width : Nat) (ls : List Location) :
    ∀ {b : Beam} {n : Nat}, s.Within b n →
      (∀ l ∈ ls, ∃ e, s.record? l = some (.element e)) →
      ∃ b', ls.foldlM (s.visit metric query width) b = .ok b' ∧ s.Within b' n := by
  induction ls with
  | nil =>
    intro b n hb _
    exact ⟨b, rfl, hb⟩
  | cons l ls ih =>
    intro b n hb hls
    obtain ⟨e, he⟩ := hls l List.mem_cons_self
    obtain ⟨b₁, hvisit, hb₁⟩ := visit_ok metric query width hb he
    obtain ⟨b₂, hrest, hb₂⟩ := ih hb₁ fun k hk => hls k (List.mem_cons_of_mem l hk)
    refine ⟨b₂, ?_, hb₂⟩
    rw [List.foldlM_cons, hvisit]
    exact hrest

section
variable {t : Header} (h : s.Intact t) (hlinks : s.Resolves) (p : Params) (query : Embedding)
include h hlinks

theorem neighbors_ok (m layer : Nat) {l : Location} {e : Element}
    (he : s.record? l = some (.element e)) :
    ∃ ls, s.neighbors m e layer = .ok ls ∧ ∀ k ∈ ls, ∃ f, s.record? k = some (.element f) := by
  rw [neighbors]
  by_cases hhigh : e.level.toNat < layer
  · rw [if_pos hhigh]
    exact ⟨[], rfl, fun k hk => by cases hk⟩
  · obtain ⟨a, ha, -⟩ := h.paired.resolves l e he
    rw [if_neg hhigh, (s.adjacency_eq_ok _ a).mpr ha]
    refine ⟨_, rfl, fun k hk => ?_⟩
    obtain ⟨hsegment, hused⟩ := List.mem_filter.mp hk
    exact hlinks e.neighborsAt a ha k
      (List.mem_of_mem_drop (List.mem_of_mem_take hsegment)) hused

theorem expand_ok (layer width : Nat) {b : Beam} {n : Nat} (hb : s.Within b n) {c : Candidate}
    (hc : ∃ e, s.record? c.location = some (.element e)) :
    ∃ b', s.expand p query layer width b c = .ok b' ∧ s.Within b' n := by
  obtain ⟨e, he⟩ := hc
  obtain ⟨ls, hls, hall⟩ := neighbors_ok h hlinks p.m layer he
  obtain ⟨b', hrun, hb'⟩ := visits_ok p.metric query width ls hb hall
  refine ⟨b', ?_, hb'⟩
  rw [expand, (s.element_eq_ok _ e).mpr he]
  show (do let ls ← s.neighbors p.m e layer; ls.foldlM (s.visit p.metric query width) b) = _
  rw [hls]
  exact hrun

theorem runBeam_ok (layer width steps : Nat) :
    ∀ b : Beam, s.Within b steps →
      ∃ found, s.runBeam p query layer width steps b = .ok found ∧ s.Occupied found := by
  induction steps with
  | zero =>
    intro b hb
    have hempty : b.frontier = [] :=
      List.eq_nil_of_length_eq_zero (Nat.eq_zero_of_le_zero (Nat.le_trans
        (Nat.le_add_right _ _) hb.left))
    exact ⟨b.best, by rw [runBeam, hempty], hb.best⟩
  | succ steps ih =>
    intro b hb
    rw [runBeam]
    cases hfrontier : b.frontier with
    | nil => exact ⟨b.best, rfl, hb.best⟩
    | cons c rest =>
      simp only
      by_cases hsettled : b.settled width c = true
      · rw [if_pos hsettled]
        exact ⟨b.best, rfl, hb.best⟩
      · have hopen := hb.frontier
        have hleft := hb.left
        rw [hfrontier] at hopen hleft
        have hrest : s.Within { b with frontier := rest } steps := by
          refine ⟨fun x hx => hopen x (List.mem_cons_of_mem c hx), hb.best, ?_⟩
          rw [List.length_cons] at hleft
          show rest.length + s.unseen b.visited ≤ steps
          omega
        obtain ⟨b', hexpand, hb'⟩ := expand_ok h hlinks p query layer width hrest
          (hopen c List.mem_cons_self)
        rw [if_neg hsettled, hexpand]
        exact ih b' hb'

theorem searchLayer_ok (layer width : Nat) {entries : List Candidate} (he : s.Occupied entries) :
    ∃ found, s.searchLayer p query layer width entries = .ok found ∧ s.Occupied found := by
  refine runBeam_ok h hlinks p query layer width _ _ ⟨he.sort, he.sort.take width, ?_⟩
  have hseen := s.unseen_le (entries.map Candidate.location)
  have hlength := (Candidate.sort_perm entries).length_eq
  simp only [Beam.start]
  omega

theorem descend_ok (q : Query) (layer : Nat) :
    ∀ nearest : List Candidate, s.Occupied nearest →
      ∃ lists, s.descend p q layer nearest = .ok lists := by
  induction layer with
  | zero =>
    intro nearest hnearest
    obtain ⟨found, hfound, -⟩ := searchLayer_ok h hlinks p q.vector 0
      (if q.level < 0 then 1 else max p.searchWidth (p.capacity 0)) hnearest
    rw [descend, hfound]
    exact ⟨_, rfl⟩
  | succ below ih =>
    intro nearest hnearest
    obtain ⟨found, hfound, hoccupied⟩ := searchLayer_ok h hlinks p q.vector (below + 1)
      (if q.level < below + 1 then 1 else max p.searchWidth (p.capacity (below + 1))) hnearest
    obtain ⟨lists, hlists⟩ := ih found hoccupied
    rw [descend, hfound]
    show ∃ lists, (do
      let rest ← s.descend p q below found
      return rest ++ _) = Except.ok lists
    rw [hlists]
    exact ⟨_, rfl⟩

theorem searchFrom_ok (q : Query) {entry : EntryPoint} {e : Element}
    (he : s.record? entry.location = some (.element e)) :
    ∃ lists, s.searchFrom p q entry = .ok lists := by
  obtain ⟨first, hfirst, hat⟩ := score_ok p.metric q.vector he
  obtain ⟨lists, hlists⟩ := descend_ok h hlinks p q entry.level.toNat [first] (by
    intro c hc
    rw [List.mem_singleton.mp hc, hat]
    exact ⟨e, he⟩)
  rw [searchFrom, hfirst]
  show ∃ lists, (do
    let lists ← s.descend p q entry.level.toNat [first]
    return lists ++ _) = Except.ok lists
  rw [hlists]
  exact ⟨_, rfl⟩

end

theorem findDuplicate_ok (vector : Embedding) {lists : List (List Candidate)}
    (hlive : s.AllLive lists) : ∃ duplicate, s.findDuplicate vector lists = .ok duplicate := by
  have hfirst : ∀ cs : List Candidate, (∀ c ∈ cs, s.Live c.location) →
      ∃ duplicate, s.firstEqual vector cs = .ok duplicate := by
    intro cs
    induction cs with
    | nil =>
      intro _
      exact ⟨none, rfl⟩
    | cons c cs ih =>
      intro hcs
      obtain ⟨e, he, -⟩ := hcs c List.mem_cons_self
      rw [firstEqual, (s.element_eq_ok _ e).mpr he]
      simp only
      by_cases hequal : (!e.deleted && e.vector == vector) = true
      · rw [if_pos hequal]
        exact ⟨some c.location, rfl⟩
      · rw [if_neg hequal]
        exact ih fun x hx => hcs x (List.mem_cons_of_mem c hx)
  cases lists with
  | nil => exact ⟨none, rfl⟩
  | cons layer rest => exact hfirst layer (hlive layer List.mem_cons_self)

end Store

end PagedGraph
