import Mathlib.Logic.Relation
import PagedGraph.Proofs.Recycling
import PagedGraph.Proofs.SearchEnds

/-!
# What beams end with

A beam ends with the closest of what it has seen, and it has looked behind every candidate that it
ends with. So every neighbor of these is among them, or they are as many as the beam is wide and none
of them is farther than the neighbor; and a beam that is not full has found all that links lead to
(`searchLayer_nearest`). This holds in every store, whatever the links are.

An invariant carries it: what has been seen is covered by the best so far (`Beam.Explores`), beside
what holds of every beam.
-/

set_option autoImplicit false

namespace PagedGraph

namespace Store

variable {s : Store} {p : Params} {metric : Metric} {query : Embedding} {layer width : Nat}
  {b b' : Beam} {l : Location} {c : Candidate} {P : Location → Prop}

/-- A location is among the best, or these are as many as there may be and none of them is
farther. -/
def Covers (s : Store) (metric : Metric) (query : Embedding) (width : Nat) (best : List Candidate)
    (l : Location) : Prop :=
  (∃ c ∈ best, c.location = l) ∨ best.length = width ∧ ∃ x, s.score metric query l = .ok x ∧
    ∀ c ∈ best, FloatBits.signed c.distance ≤ FloatBits.signed x.distance

theorem covers_take {cs : List Candidate} (hcs : cs.Pairwise fun x y => x.le y = true)
    (hscored : ∀ c ∈ cs, s.score metric query c.location = .ok c) (hc : c ∈ cs) :
    s.Covers metric query width (cs.take width) c.location := by
  by_cases hstays : c ∈ cs.take width
  · exact .inl ⟨c, hstays, rfl⟩
  · obtain ⟨hfull, hle⟩ := Candidate.le_of_cut hcs hc hstays
    exact .inr ⟨hfull, c, hscored c hc, fun x hx => Candidate.signed_le_of_le (hle x hx)⟩

theorem Covers.accept (hscored : ∀ x ∈ b.best, s.score metric query x.location = .ok x)
    (hbest : b.best.Pairwise fun x y => x.le y = true)
    (hadmits : b.admits width c = true) (hc : s.score metric query c.location = .ok c)
    (h : s.Covers metric query width b.best l) :
    s.Covers metric query width (b.accept width c).best l := by
  rcases h with ⟨x, hx, rfl⟩ | ⟨hfull, x, hscore, hfar⟩
  · exact covers_take (Candidate.pairwise_insert c hbest) (Candidate.forall_insert hc hscored)
      (Candidate.mem_insert.mpr (.inr hx))
  · -- The beam is full, so the newcomer is closer than the last of the best.
    obtain ⟨w, hw, hbelow⟩ := (Beam.of_admits hadmits).resolve_left (by omega)
    have hclose := FloatBits.signed_lt_of_below hbelow
    have hlast := hfar w (List.mem_of_getLast? hw)
    have hlength := (Candidate.insert_perm c b.best).length_eq
    rw [List.length_cons] at hlength
    refine .inr ⟨List.length_take_of_le (by omega), x, hscore, fun y hy => ?_⟩
    rcases Candidate.mem_insert.mp (List.mem_of_mem_take hy) with rfl | hy
    · omega
    · exact hfar y hy

def CoversSeen (s : Store) (metric : Metric) (query : Embedding) (width : Nat) (b : Beam) : Prop :=
  ∀ l ∈ b.visited, s.Covers metric query width b.best l

def Measures (s : Store) (metric : Metric) (query : Embedding) (P : Location → Prop) : Prop :=
  ∀ l c, P l → s.score metric query l = .ok c → FloatBits.isNaN c.distance = false

theorem visit_covers (hwidth : 0 < width) (hnumbers : s.Measures metric query P)
    (hb : b.Sorted width (s.Sees metric query P)) (hcovers : s.CoversSeen metric query width b)
    (hl : P l) (h : s.visit metric query width b l = .ok b') :
    s.CoversSeen metric query width b' := by
  rcases visit_cases h with ⟨-, rfl⟩ | ⟨-, c, hc, ⟨hadmits, rfl⟩ | ⟨hadmits, rfl⟩⟩
  · exact hcovers
  · obtain rfl := location_of_score hc
    have hscored := fun x hx => (hb.chosen x hx).2
    intro k hk
    rcases List.mem_cons.mp hk with rfl | hk
    · exact covers_take (Candidate.pairwise_insert c hb.best) (Candidate.forall_insert hc hscored)
        (Candidate.mem_insert.mpr (.inl rfl))
    · exact (hcovers k hk).accept (b := { b with visited := c.location :: b.visited }) hscored hb.best
        hadmits hc
  · intro k hk
    rcases List.mem_cons.mp hk with rfl | hk
    · obtain ⟨hlong, w, hw, hbelow⟩ := Beam.of_not_admits hwidth hadmits
      have hlast := hb.chosen w (List.mem_of_getLast? hw)
      have hfar := FloatBits.signed_le_of_not_below (hnumbers _ c hl hc)
        (hnumbers _ w hlast.1 hlast.2) hbelow
      exact .inr ⟨Nat.le_antisymm hb.short hlong, c, hc, fun x hx =>
        Int.le_trans (Candidate.signed_le_of_le (Candidate.le_last hb.best hw x hx)) hfar⟩
    · exact hcovers k hk

end Store

structure Beam.Explores (s : Store) (p : Params) (query : Embedding) (layer width : Nat)
    (P : Location → Prop) (entries : List Candidate) (b : Beam) : Prop extends
    b.Expands s p query layer width P where
  entered : ∀ c ∈ entries, c.location ∈ b.visited
  covers : s.CoversSeen p.metric query width b

namespace Store

variable {s : Store} {p : Params} {query : Embedding} {layer width : Nat}
  {P : Location → Prop} {entries : List Candidate}

theorem explores_start (hentries : ∀ c ∈ entries, s.Sees p.metric query P c) :
    (Beam.start entries width).Explores s p query layer width P entries := by
  refine ⟨Beam.expands_start hentries, fun c hc => List.mem_map_of_mem hc, ?_⟩
  intro l hl
  obtain ⟨c, hc, rfl⟩ := List.mem_map.mp hl
  exact covers_take (Candidate.pairwise_sort entries)
    (fun x hx => (hentries x (Candidate.mem_sort.mp hx)).2) (Candidate.mem_sort.mpr hc)

theorem expand_explores (hwidth : 0 < width) (hclosed : ∀ l k, P l → s.Link p.m layer l k → P k)
    (hnumbers : s.Measures p.metric query P) {b b' : Beam} {c : Candidate} {rest : List Candidate}
    (hb : b.Explores s p query layer width P entries) (hfrontier : b.frontier = c :: rest)
    (h : s.expand p query layer width { b with frontier := rest } c = .ok b') :
    b'.Explores s p query layer width P entries := by
  obtain ⟨ls, hls, hrun⟩ := links_of_expand h
  have hc : P c.location := (hb.sorted.opened c (by rw [hfrontier]; exact List.mem_cons_self)).1
  obtain ⟨-, hcovers⟩ := visits_keep ls
    (I := fun b => b.Sorted width (s.Sees p.metric query P) ∧ s.CoversSeen p.metric query width b)
    (fun k hk _ _ hb hv =>
      have hk := hclosed _ k hc ((hls k).mp hk)
      ⟨visit_sorted hb.1 hk hv, visit_covers hwidth hnumbers hb.1 hb.2 hk hv⟩)
    ⟨hb.sorted.rest hfrontier, hb.covers⟩ hrun
  have hextends := (visits_extend ls hrun).1
  exact ⟨hb.toExpands.expand hclosed hfrontier h,
    fun x hx => hextends.visited _ (hb.entered x hx), hcovers⟩

/-- What a beam search ends with: an ascending list of candidates that can be reached from the
entries. A link of one of them leads to another of them, or there are as many as the beam is wide and
the link leads to no closer element. If they are fewer, they are all that can be reached. -/
structure Nearest (s : Store) (p : Params) (query : Embedding) (layer width : Nat)
    (entries found : List Candidate) : Prop where
  ascending : Candidate.Ascending found
  short : found.length ≤ width
  scored : ∀ c ∈ found, s.score p.metric query c.location = .ok c
  reached : ∀ c ∈ found, ∃ x ∈ entries,
    Relation.ReflTransGen (s.Link p.m layer) x.location c.location
  optimal : ∀ c ∈ found, ∀ k, s.Link p.m layer c.location k → s.Covers p.metric query width found k
  complete : found.length < width → ∀ x ∈ entries, ∀ k,
    Relation.ReflTransGen (s.Link p.m layer) x.location k → ∃ c ∈ found, c.location = k

variable {found : List Candidate}

/-- However a beam search goes in whatever store, it ends with what is near, if it starts from
different elements and all distances are numbers. -/
theorem searchLayer_nearest (hwidth : 0 < width) (hdistinct : entries.Nodup)
    (hscored : ∀ c ∈ entries, s.score p.metric query c.location = .ok c)
    (hnumbers : s.Measures p.metric query fun l => ∃ x ∈ entries,
      Relation.ReflTransGen (s.Link p.m layer) x.location l)
    (h : s.searchLayer p query layer width entries = .ok found) :
    s.Nearest p query layer width entries found := by
  have hclosed : ∀ l k, (∃ x ∈ entries, Relation.ReflTransGen (s.Link p.m layer) x.location l) →
      s.Link p.m layer l k →
      ∃ x ∈ entries, Relation.ReflTransGen (s.Link p.m layer) x.location k :=
    fun l k ⟨x, hx, hreach⟩ hk => ⟨x, hx, hreach.tail hk⟩
  have hentries : ∀ c ∈ entries, s.Sees p.metric query (fun l => ∃ x ∈ entries,
      Relation.ReflTransGen (s.Link p.m layer) x.location l) c :=
    fun c hc => ⟨⟨c, hc, .refl⟩, hscored c hc⟩
  obtain ⟨hascending, hshort, hsees⟩ :=
    searchLayer_sorted hclosed hentries (nodup_locations hdistinct hscored) h
  obtain ⟨b, hb, rfl, hend⟩ := runBeam_keeps
    (fun _ _ _ _ hb => expand_explores hwidth hclosed hnumbers hb) _ _ _
    (explores_start hentries) h
  refine ⟨hascending, hshort, fun c hc => (hsees c hc).2, fun c hc => (hsees c hc).1,
    fun c hc k hk => hb.covers k (hb.toExpands.closed hend hc hk), fun hless x hx k hk => ?_⟩
  have hfound : ∀ l ∈ b.visited, ∃ c ∈ b.best, c.location = l :=
    fun l hl => (hb.covers l hl).resolve_right fun hfull => Nat.ne_of_lt hless hfull.1
  -- All that has been seen is among the best, and what these lead to has been seen.
  have hseen : k ∈ b.visited := by
    induction hk with
    | refl => exact hb.entered x hx
    | tail _ hlink ih =>
      obtain ⟨c, hc, rfl⟩ := hfound _ ih
      exact hb.toExpands.closed hend hc hlink
  exact hfound k hseen

end Store

namespace Index

theorem HasBoth.measures {s : Store} (h : HasBoth s first) (P : Location → Prop) :
    s.Measures .euclidean (plain 2) P := by
  intro l c _ hc
  obtain ⟨e, he, rfl⟩ := Store.of_score hc
  rcases (h.elements l e).mp he with ⟨-, rfl⟩ | ⟨-, rfl⟩
  · show FloatBits.isNaN (Metric.euclidean.distance (plain 2) (plain 0)) = false
    rw [euclidean_plain (by decide) (by decide)]
    decide
  · show FloatBits.isNaN (Metric.euclidean.distance (plain 2) (plain 1)) = false
    rw [euclidean_plain (by decide) (by decide)]
    decide

theorem nearest_wide : ∃ s c found, HasBoth s first ∧ 0 < 2 ∧ [c].Nodup ∧
    (∀ x ∈ [c], s.score .euclidean (plain 2) x.location = .ok x) ∧
    (s.Measures .euclidean (plain 2) fun l => ∃ x ∈ [c],
      Relation.ReflTransGen (s.Link wide.params.m 1) x.location l) ∧
    s.searchLayer wide.params (plain 2) 1 2 [c] = .ok found ∧
    s.Nearest wide.params (plain 2) 1 2 [c] found := by
  obtain ⟨s₁, hfirst, -⟩ := first_stored
  obtain ⟨s, hboth, -⟩ := hfirst.second_stored
  obtain ⟨c, hc, hat⟩ := Store.score_ok .euclidean (plain 2) hboth.atSecond
  have hone : [c].Nodup := List.pairwise_singleton _ c
  have hscored : ∀ x ∈ [c], s.score .euclidean (plain 2) x.location = .ok x := by
    intro x hx
    rw [List.mem_singleton.mp hx, hat]
    exact hc
  have hstart : ∀ x ∈ [c], ∃ e, s.record? x.location = some (.element e) := by
    intro x hx
    rw [List.mem_singleton.mp hx, hat]
    exact ⟨_, hboth.atSecond⟩
  obtain ⟨found, hfound, -⟩ := Store.searchLayer_ok hboth.settled.intact
    hboth.settled.navigable.links wide.params (plain 2) 1 2 hstart
  exact ⟨s, c, found, hboth, by decide, hone, hscored, hboth.measures _, hfound,
    Store.searchLayer_nearest (by decide) hone hscored (hboth.measures _) hfound⟩

end Index

end PagedGraph
