import PagedGraph.Proofs.BeamSteps

/-!
# Where beams lead

A beam never comes to be empty, and it stays inside every set of locations that holds the candidates
it starts from and that no link of the layer leaves (`beamsFrom_holds`). What an insertion may link to is
what the beams of its search have found, less the deleted elements and what is cut off
(`searchFrom_beams`); so it ascends strictly (`beamsFrom_ranked`), and all that these elements have
links to has been looked at (`searchFrom_explored`).
-/

set_option autoImplicit false

namespace PagedGraph

namespace Store

/-- What the beams of a layer and of all layers below it end with, layer 0 first. -/
def beams (s : Store) (p : Params) (q : Query) :
    Nat → List Candidate → Except Error (List (List Candidate))
  | layer, nearest => do
    let width := if q.level < layer then 1 else max p.searchWidth (p.capacity layer)
    let found ← s.searchLayer p q.vector layer width nearest
    match layer with
    | 0 => return [found]
    | below + 1 => return (← s.beams p q below found) ++ [found]

def beamsFrom (s : Store) (p : Params) (q : Query) (entry : EntryPoint) :
    Except Error (List (List Candidate)) := do
  let first ← s.score p.metric q.vector entry.location
  s.beams p q entry.level.toNat [first]

variable {s : Store} {p : Params} {q : Query}

theorem choose_sublist (s : Store) (p : Params) (q : Query) (layer : Nat) (found : List Candidate) :
    (s.choose p q layer found).Sublist found :=
  (List.take_sublist _ _).trans List.filter_sublist

theorem mem_of_choose {layer : Nat} {found : List Candidate} {c : Candidate}
    (h : c ∈ s.choose p q layer found) : c ∈ found :=
  (s.choose_sublist p q layer found).subset h

theorem choose_some {layer : Nat} {found : List Candidate} (hpos : 0 < p.m) {c : Candidate}
    (hc : c ∈ found) (hlive : s.Live c.location) (hq : q.exclude ≠ some c.location) :
    ∃ x, x ∈ s.choose p q layer found := by
  apply List.exists_mem_of_length_pos
  rw [choose, List.length_take]
  refine Nat.lt_min.mpr ⟨layerCapacity_pos hpos layer, List.length_pos_of_mem (a := c) ?_⟩
  rw [List.mem_filter, Bool.and_eq_true, bne_iff_ne]
  exact ⟨hc, fun heq => hq heq.symm, isLive_iff.mpr hlive⟩

theorem getD_append_single {α : Type} (xs : List (List α)) (ys : List α) {i : Nat}
    (hi : i ≤ xs.length) :
    (xs ++ [ys]).getD i [] = if i = xs.length then ys else xs.getD i [] := by
  by_cases hlast : i = xs.length
  · rw [if_pos hlast, hlast, List.getD_eq_getElem?_getD, List.getElem?_concat_length]
    rfl
  · rw [if_neg hlast, List.getD_eq_getElem?_getD, List.getD_eq_getElem?_getD,
      List.getElem?_append_left (by omega)]

theorem length_beams (layer : Nat) : ∀ (nearest : List Candidate) (found : List (List Candidate)),
    s.beams p q layer nearest = .ok found → found.length = layer + 1 := by
  induction layer with
  | zero =>
    intro nearest found h
    rw [beams] at h
    obtain ⟨here, -, h⟩ := ok_of_bind h
    rw [← Except.ok.inj h]
    rfl
  | succ below ih =>
    intro nearest found h
    rw [beams] at h
    obtain ⟨here, -, h⟩ := ok_of_bind h
    obtain ⟨lower, hlower, h⟩ := ok_of_bind h
    rw [← Except.ok.inj h, List.length_append, ih here lower hlower]
    rfl

theorem descend_beams (layer : Nat) :
    ∀ (nearest : List Candidate) (lists : List (List Candidate)),
      s.descend p q layer nearest = .ok lists → ∃ found, s.beams p q layer nearest = .ok found ∧
        lists.length = min layer q.level + 1 ∧
        ∀ i, i ≤ layer → i ≤ q.level → lists.getD i [] = s.choose p q i (found.getD i []) := by
  induction layer with
  | zero =>
    intro nearest lists h
    rw [descend] at h
    obtain ⟨found, hfound, h⟩ := ok_of_bind h
    obtain rfl := Except.ok.inj h
    refine ⟨[found], ?_, by simp, fun i hi _ => ?_⟩
    · rw [beams, hfound]
      rfl
    · obtain rfl := Nat.le_zero.mp hi
      rfl
  | succ below ih =>
    intro nearest lists h
    rw [descend] at h
    obtain ⟨found, hfound, h⟩ := ok_of_bind h
    obtain ⟨rest, hrest, h⟩ := ok_of_bind h
    obtain ⟨lower, hlower, hcount, hchosen⟩ := ih found rest hrest
    have hlength := length_beams below found lower hlower
    refine ⟨lower ++ [found], ?_, ?_, ?_⟩
    · rw [beams, hfound]
      show (do return (← s.beams p q below found) ++ [found]) = _
      rw [hlower]
      rfl
    · rw [← Except.ok.inj h, List.length_append, hcount]
      split <;> simp <;> omega
    · intro i hi hlevel
      rw [← Except.ok.inj h, getD_append_single lower found (by omega), hlength]
      by_cases hlast : i = below + 1
      · rw [if_pos hlast, if_pos (by omega), getD_append_single rest _ (by omega), hcount,
          if_pos (by omega), hlast]
      · rw [if_neg hlast, ← hchosen i (by omega) hlevel]
        rw [List.getD_eq_getElem?_getD, List.getD_eq_getElem?_getD,
          List.getElem?_append_left (by omega)]

theorem searchFrom_beams {entry : EntryPoint} {lists : List (List Candidate)}
    (h : s.searchFrom p q entry = .ok lists) : ∃ found, s.beamsFrom p q entry = .ok found ∧
      lists.length = q.level + 1 ∧
      ∀ i, i ≤ q.level → lists.getD i [] = s.choose p q i (found.getD i []) := by
  rw [searchFrom] at h
  obtain ⟨first, hfirst, h⟩ := ok_of_bind h
  obtain ⟨chosen, hchosen, h⟩ := ok_of_bind h
  obtain ⟨found, hfound, hcount, hlayers⟩ := descend_beams _ _ _ hchosen
  have hlength := length_beams _ _ _ hfound
  obtain rfl := Except.ok.inj h
  refine ⟨found, ?_, ?_, fun i hi => ?_⟩
  · rw [beamsFrom, hfirst]
    exact hfound
  · rw [List.length_append, List.length_replicate, hcount]
    omega
  · by_cases hlow : i ≤ entry.level.toNat
    · rw [← hlayers i hlow hi, List.getD_eq_getElem?_getD, List.getD_eq_getElem?_getD,
        List.getElem?_append_left (by omega)]
    · have hnone : found.getD i [] = [] := by
        rw [List.getD_eq_getElem?_getD, List.getElem?_eq_none (by omega)]
        rfl
      have hempty : s.choose p q i [] = [] := List.take_nil
      rw [hnone, hempty, List.getD_eq_getElem?_getD, List.getElem?_append_right (by omega),
        List.getElem?_replicate]
      split <;> rfl

theorem searchFrom_above {entry : EntryPoint} {lists : List (List Candidate)}
    (h : s.searchFrom p q entry = .ok lists) {i : Nat} (hi : q.level < i) : lists.getD i [] = [] := by
  obtain ⟨-, -, hlength, -⟩ := searchFrom_beams h
  rw [List.getD_eq_getElem?_getD, List.getElem?_eq_none (by omega)]
  rfl

end Store

structure Beam.Holds (P : Location → Prop) (b : Beam) : Prop where
  frontier : ∀ c ∈ b.frontier, P c.location
  best : ∀ c ∈ b.best, P c.location
  some : ∃ c, c ∈ b.best

namespace Store

variable {s : Store} {p : Params} {q : Query} {P : Location → Prop} {layer : Nat}

theorem exists_mem_take {cs : List Candidate} {c : Candidate} (hc : c ∈ cs) {width : Nat}
    (hwidth : 0 < width) : ∃ x, x ∈ cs.take width := by
  apply List.exists_mem_of_length_pos
  rw [List.length_take]
  exact Nat.lt_min.mpr ⟨hwidth, List.length_pos_of_mem hc⟩

theorem holds_start {entries : List Candidate} {width : Nat} (hwidth : 0 < width)
    (hentries : ∀ c ∈ entries, P c.location) (hsome : ∃ c, c ∈ entries) :
    (Beam.start entries width).Holds P := by
  have hsort : ∀ c, c ∈ Candidate.sort entries ↔ c ∈ entries :=
    fun c => (Candidate.sort_perm entries).mem_iff
  obtain ⟨c, hc⟩ := hsome
  exact ⟨fun x hx => hentries x ((hsort x).mp hx),
    fun x hx => hentries x ((hsort x).mp (List.mem_of_mem_take hx)),
    exists_mem_take ((hsort c).mpr hc) hwidth⟩

theorem accept_holds {b : Beam} (hb : b.Holds P) {width : Nat} (hwidth : 0 < width)
    {c : Candidate} (hc : P c.location) : (b.accept width c).Holds P := by
  have hmem : ∀ (ds : List Candidate), (∀ x ∈ ds, P x.location) →
      ∀ x ∈ c.insert ds, P x.location := by
    intro ds hds x hx
    rcases List.mem_cons.mp ((Candidate.insert_perm c ds).mem_iff.mp hx) with rfl | hx
    · exact hc
    · exact hds x hx
  exact ⟨hmem _ hb.frontier, fun x hx => hmem _ hb.best x (List.mem_of_mem_take hx),
    exists_mem_take ((Candidate.insert_perm c b.best).mem_iff.mpr List.mem_cons_self) hwidth⟩

theorem visit_holds {metric : Metric} {query : Embedding} {width : Nat} (hwidth : 0 < width)
    {b b' : Beam} {l : Location} (hb : b.Holds P) (hl : P l)
    (h : s.visit metric query width b l = .ok b') : b'.Holds P := by
  rcases visit_cases h with ⟨-, rfl⟩ | ⟨-, c, hc, ⟨-, rfl⟩ | ⟨-, rfl⟩⟩
  · exact hb
  · have hold : ({ b with visited := l :: b.visited } : Beam).Holds P :=
      ⟨hb.frontier, hb.best, hb.some⟩
    exact accept_holds hold hwidth (location_of_score hc ▸ hl)
  · exact ⟨hb.frontier, hb.best, hb.some⟩

theorem expand_holds (hclosed : ∀ l k, P l → s.Link p.m layer l k → P k) {query : Embedding}
    {width : Nat} (hwidth : 0 < width) {b b' : Beam} {c : Candidate} {rest : List Candidate}
    (hb : b.Holds P) (hfrontier : b.frontier = c :: rest)
    (h : s.expand p query layer width { b with frontier := rest } c = .ok b') : b'.Holds P := by
  obtain ⟨ls, hls, hrun⟩ := links_of_expand h
  have hopen := hb.frontier
  rw [hfrontier] at hopen
  have hrest : Beam.Holds P { b with frontier := rest } :=
    ⟨fun x hx => hopen x (List.mem_cons_of_mem c hx), hb.best, hb.some⟩
  exact visits_keep ls (fun k hk _ _ hb hvisit => visit_holds hwidth hb
    (hclosed c.location k (hopen c List.mem_cons_self) ((hls k).mp hk)) hvisit) hrest hrun

theorem searchLayer_holds (hclosed : ∀ l k, P l → s.Link p.m layer l k → P k) {query : Embedding}
    {width : Nat} (hwidth : 0 < width) {entries found : List Candidate}
    (hentries : ∀ c ∈ entries, P c.location) (hsome : ∃ c, c ∈ entries)
    (h : s.searchLayer p query layer width entries = .ok found) :
    (∀ c ∈ found, P c.location) ∧ ∃ c, c ∈ found := by
  obtain ⟨b, hb, rfl, -⟩ := runBeam_keeps
    (fun _ _ _ _ hb hfrontier => expand_holds hclosed hwidth hb hfrontier) _ _ _
    (holds_start hwidth hentries hsome) h
  exact ⟨hb.best, hb.some⟩

theorem beams_keep {E F : Nat → List Candidate → Prop}
    (hstep : ∀ layer width nearest found, (0 < p.m → 0 < width) → E layer nearest →
      s.searchLayer p q.vector layer width nearest = .ok found → F layer found)
    (hdown : ∀ layer found, F (layer + 1) found → E layer found) (layer : Nat) :
    ∀ (nearest : List Candidate) (found : List (List Candidate)), E layer nearest →
      s.beams p q layer nearest = .ok found → ∀ i, i ≤ layer → F i (found.getD i []) := by
  have hwidth : ∀ layer, 0 < p.m →
      0 < if q.level < layer then 1 else max p.searchWidth (p.capacity layer) := by
    intro layer hpos
    split
    · exact Nat.one_pos
    · exact Nat.lt_of_lt_of_le (layerCapacity_pos hpos layer) (Nat.le_max_right _ _)
  induction layer with
  | zero =>
    intro nearest found hnearest h i hi
    rw [beams] at h
    obtain ⟨here, hhere, h⟩ := ok_of_bind h
    obtain rfl := Nat.le_zero.mp hi
    rw [← Except.ok.inj h]
    exact hstep 0 _ nearest here (hwidth 0) hnearest hhere
  | succ below ih =>
    intro nearest found hnearest h i hi
    rw [beams] at h
    obtain ⟨here, hhere, h⟩ := ok_of_bind h
    obtain ⟨lower, hlower, h⟩ := ok_of_bind h
    have hfound := hstep (below + 1) _ nearest here (hwidth (below + 1)) hnearest hhere
    have hlength := length_beams below here lower hlower
    rw [← Except.ok.inj h, getD_append_single lower here (by omega), hlength]
    by_cases hlast : i = below + 1
    · rw [if_pos hlast, hlast]
      exact hfound
    · rw [if_neg hlast]
      exact ih here lower (hdown below here hfound) hlower i (by omega)

theorem beamsFrom_keep {E F : Nat → List Candidate → Prop}
    (hstep : ∀ layer width nearest found, (0 < p.m → 0 < width) → E layer nearest →
      s.searchLayer p q.vector layer width nearest = .ok found → F layer found)
    (hdown : ∀ layer found, F (layer + 1) found → E layer found) {entry : EntryPoint}
    (hentry : ∀ c, s.score p.metric q.vector entry.location = .ok c → E entry.level.toNat [c])
    {found : List (List Candidate)} (h : s.beamsFrom p q entry = .ok found) (i : Nat) :
    i ≤ entry.level.toNat ∧ F i (found.getD i []) ∨
      entry.level.toNat < i ∧ found.getD i [] = [] := by
  rw [beamsFrom] at h
  obtain ⟨first, hfirst, h⟩ := ok_of_bind h
  rcases Nat.lt_or_ge entry.level.toNat i with hi | hi
  · refine .inr ⟨hi, ?_⟩
    rw [List.getD_eq_getElem?_getD, List.getElem?_eq_none (by rw [length_beams _ _ _ h]; omega)]
    rfl
  · exact .inl ⟨hi, beams_keep hstep hdown _ [first] found (hentry first hfirst) h i hi⟩

/-- What every beam of a search ends with. -/
structure Ranked (s : Store) (metric : Metric) (query : Embedding) (cs : List Candidate) : Prop where
  ascending : Candidate.Ascending cs
  scored : ∀ c ∈ cs, s.score metric query c.location = .ok c

theorem Ranked.distinct {metric : Metric} {query : Embedding} {cs : List Candidate}
    (h : s.Ranked metric query cs) : (cs.map Candidate.location).Nodup :=
  nodup_locations (h.ascending.imp And.right) h.scored

theorem Ranked.sublist {metric : Metric} {query : Embedding} {cs ds : List Candidate}
    (h : s.Ranked metric query cs) (hds : ds.Sublist cs) : s.Ranked metric query ds :=
  ⟨List.Pairwise.sublist hds h.ascending, fun c hc => h.scored c (hds.subset hc)⟩

theorem searchLayer_ranked {layer width : Nat} {entries found : List Candidate}
    (hentries : s.Ranked p.metric q.vector entries)
    (h : s.searchLayer p q.vector layer width entries = .ok found) :
    s.Ranked p.metric q.vector found := by
  obtain ⟨hascending, -, hsees⟩ := searchLayer_sorted (P := fun _ => True)
    (fun _ _ _ _ => True.intro) (fun c hc => ⟨True.intro, hentries.scored c hc⟩) hentries.distinct h
  exact ⟨hascending, fun c hc => (hsees c hc).2⟩

theorem beamsFrom_ranked {entry : EntryPoint} {found : List (List Candidate)}
    (h : s.beamsFrom p q entry = .ok found) (i : Nat) :
    s.Ranked p.metric q.vector (found.getD i []) ∧
      (entry.level.toNat < i → found.getD i [] = []) := by
  have hentry : ∀ c, s.score p.metric q.vector entry.location = .ok c →
      s.Ranked p.metric q.vector [c] := by
    intro c hc
    refine ⟨List.pairwise_singleton _ _, List.forall_mem_singleton.mpr ?_⟩
    rwa [location_of_score hc]
  rcases beamsFrom_keep (E := fun _ => s.Ranked p.metric q.vector)
    (F := fun _ => s.Ranked p.metric q.vector)
    (fun _ _ _ _ _ hentries => searchLayer_ranked hentries) (fun _ _ => id) hentry h i with
    ⟨hlow, hranked⟩ | ⟨-, hnone⟩
  · exact ⟨hranked, fun hhigh => absurd hlow (Nat.not_le.mpr hhigh)⟩
  · rw [hnone]
    exact ⟨⟨.nil, fun c hc => nomatch hc⟩, fun _ => rfl⟩

theorem searchFrom_explored {entry : EntryPoint} {lists : List (List Candidate)}
    (h : s.searchFrom p q entry = .ok lists) (i : Nat) : s.Explored p.m i (lists.getD i []) := by
  obtain ⟨found, hfound, -, hchosen⟩ := searchFrom_beams h
  rcases Nat.lt_or_ge q.level i with hi | hi
  · rw [searchFrom_above h hi]
    exact fun c hc => nomatch hc
  · rw [hchosen i hi]
    intro c hc
    have hc := mem_of_choose hc
    rcases beamsFrom_keep
      (E := fun _ cs => ∀ c ∈ cs, s.Sees p.metric q.vector (fun _ => True) c)
      (F := fun i cs => s.Explored p.m i cs ∧
        ∀ c ∈ cs, s.Sees p.metric q.vector (fun _ => True) c)
      (fun _ _ _ _ _ hentries hrun => searchLayer_explored hentries hrun) (fun _ _ h => h.2)
      (fun x hx => List.forall_mem_singleton.mpr (sees_of_score trivial hx)) hfound i with
      ⟨-, hexplored, -⟩ | ⟨-, hnone⟩
    · exact hexplored c hc
    · rw [hnone] at hc
      cases hc

end Store

section
variable {s : Store} {p : Params} {q : Query} {P : Nat → Location → Prop} (hpos : 0 < p.m)
  (hclosed : ∀ layer l k, P layer l → s.Link p.m layer l k → P layer k)
  (hdown : ∀ layer l, P (layer + 1) l → P layer l)
include hpos hclosed hdown

/-- The beams of a search find something on every layer up to the element that they start from, and
nothing outside of sets that no link leaves and that grow from layer to layer. -/
theorem beamsFrom_holds {entry : EntryPoint} (hentry : P entry.level.toNat entry.location)
    {found : List (List Candidate)} (h : s.beamsFrom p q entry = .ok found) (i : Nat) :
    (∀ c ∈ found.getD i [], P i c.location) ∧
      (i ≤ entry.level.toNat → ∃ c, c ∈ found.getD i []) := by
  rcases Store.beamsFrom_keep (E := fun i cs => (∀ c ∈ cs, P i c.location) ∧ ∃ c, c ∈ cs)
    (F := fun i cs => (∀ c ∈ cs, P i c.location) ∧ ∃ c, c ∈ cs)
    (fun layer _ _ _ hwidth hcs hrun =>
      Store.searchLayer_holds (hclosed layer) (hwidth hpos) hcs.1 hcs.2 hrun)
    (fun layer _ hcs => ⟨fun c hc => hdown layer _ (hcs.1 c hc), hcs.2⟩)
    (fun c hc => ⟨List.forall_mem_singleton.mpr (Store.location_of_score hc ▸ hentry),
      c, List.mem_singleton_self c⟩) h i with ⟨-, hin, hsome⟩ | ⟨hi, hnone⟩
  · exact ⟨hin, fun _ => hsome⟩
  · rw [hnone]
    exact ⟨fun c hc => (nomatch hc), fun hle => absurd hi (Nat.not_lt.mpr hle)⟩

end

end PagedGraph
