import PagedGraph.Proofs.Linking

/-!
# Steps of a beam search

A property that every look at a neighbor keeps is kept by an expansion, and one that every expansion
keeps holds at the end (`runBeam_keeps`). A beam is kept in order at all times: what is open and what
is best ascends, and no more candidates count as best than the beam is wide (`Beam.Sorted`). Each
location is seen once, so what a search of a layer ends with ascends strictly (`searchLayer_sorted`).

When a beam ends, the links of all its best candidates have been seen, for the closest candidate that
is still open is farther than every best one (`Beam.Expands.closed`). So the elements that a search
ends with have links only to elements (`searchLayer_explored`).
-/

set_option autoImplicit false

namespace PagedGraph

namespace FloatBits

theorem signed_lt_of_below {a b : FloatBits} (h : below a b = true) : signed a < signed b := by
  simp only [below, Bool.and_eq_true, decide_eq_true_eq] at h
  exact h.2

theorem signed_le_of_not_below {a b : FloatBits} (ha : isNaN a = false) (hb : isNaN b = false)
    (h : below a b = false) : signed b ≤ signed a := by
  simpa [below, ha, hb] using h

theorem signed_le_of_orderKey_le {a b : FloatBits} (h : orderKey a ≤ orderKey b) :
    signed a ≤ signed b := by
  have ha := magnitude_lt a
  have hb := magnitude_lt b
  cases na : isNegative a <;> cases nb : isNegative b <;>
    simp only [signed, orderKey, na, nb, if_true, Bool.false_eq_true, if_false] at h ⊢ <;> omega

theorem below_self (a : FloatBits) : below a a = false := by
  simp [below]

theorem below_iff {a b : FloatBits} (ha : isNaN a = false) (hb : isNaN b = false) :
    below a b = true ↔ signed a < signed b := by
  simp [below, ha, hb]

end FloatBits

namespace Candidate

theorem mem_insert {c x : Candidate} {ds : List Candidate} : x ∈ c.insert ds ↔ x = c ∨ x ∈ ds :=
  (insert_perm c ds).mem_iff.trans List.mem_cons

theorem mem_sort {x : Candidate} {cs : List Candidate} : x ∈ sort cs ↔ x ∈ cs :=
  (sort_perm cs).mem_iff

theorem forall_insert {Q : Candidate → Prop} {c : Candidate} {ds : List Candidate} (hc : Q c)
    (hds : ∀ x ∈ ds, Q x) : ∀ x ∈ c.insert ds, Q x := by
  intro x hx
  rcases mem_insert.mp hx with rfl | hx
  · exact hc
  · exact hds x hx

def Ascending (cs : List Candidate) : Prop := cs.Pairwise fun x y => le x y = true ∧ x ≠ y

theorem signed_le_of_le {x y : Candidate} (h : le x y = true) :
    FloatBits.signed x.distance ≤ FloatBits.signed y.distance := by
  apply FloatBits.signed_le_of_orderKey_le
  rcases le_iff.mp h with hlt | ⟨heq, -⟩
  · exact Nat.le_of_lt hlt
  · exact Nat.le_of_eq heq

variable {cs : List Candidate}

theorem ascending_of_nodup (h : cs.Pairwise fun x y => le x y = true)
    (hdistinct : (cs.map location).Nodup) : Ascending cs :=
  h.and (List.Pairwise.of_map location (fun _ _ hne heq => hne (congrArg location heq)) hdistinct)

theorem le_last (h : cs.Pairwise fun x y => le x y = true) {w : Candidate}
    (hw : cs.getLast? = some w) : ∀ x ∈ cs, le x w = true := by
  obtain ⟨front, rfl⟩ := List.getLast?_eq_some_iff.mp hw
  intro x hx
  rcases List.mem_append.mp hx with hx | hx
  · exact (List.pairwise_append.mp h).2.2 x hx w (List.mem_singleton.mpr rfl)
  · rw [List.mem_singleton.mp hx]
    exact le_refl w

theorem le_of_cut (h : cs.Pairwise fun x y => le x y = true) {width : Nat} {x : Candidate}
    (hx : x ∈ cs) (hcut : x ∉ cs.take width) :
    (cs.take width).length = width ∧ ∀ y ∈ cs.take width, le y x = true := by
  have hlong : width ≤ cs.length := by
    refine Nat.le_of_not_lt fun hshort => hcut ?_
    rwa [List.take_of_length_le (Nat.le_of_lt hshort)]
  rw [← List.take_append_drop width cs] at h hx
  have hdrop : x ∈ cs.drop width := (List.mem_append.mp hx).resolve_left hcut
  exact ⟨List.length_take_of_le hlong,
    fun y hy => (List.pairwise_append.mp h).2.2 y hy x hdrop⟩

end Candidate

/-- The candidates of a beam stand in ascending order, at most `width` of them count as the best, and
all have a property. -/
structure Beam.Sorted (width : Nat) (Q : Candidate → Prop) (b : Beam) : Prop where
  frontier : b.frontier.Pairwise fun x y => x.le y = true
  best : b.best.Pairwise fun x y => x.le y = true
  short : b.best.length ≤ width
  opened : ∀ c ∈ b.frontier, Q c
  chosen : ∀ c ∈ b.best, Q c

namespace Beam

variable {width : Nat} {Q : Candidate → Prop} {b : Beam} {c : Candidate}

theorem sorted_start (width : Nat) {entries : List Candidate} (h : ∀ c ∈ entries, Q c) :
    (start entries width).Sorted width Q := by
  have hsort : ∀ c ∈ Candidate.sort entries, Q c := fun c hc => h c (Candidate.mem_sort.mp hc)
  exact ⟨Candidate.pairwise_sort entries, (Candidate.pairwise_sort entries).take,
    List.length_take_le _ _, hsort, fun c hc => hsort c (List.mem_of_mem_take hc)⟩

theorem Sorted.accept (h : b.Sorted width Q) (hc : Q c) : (b.accept width c).Sorted width Q := by
  exact ⟨Candidate.pairwise_insert c h.frontier, (Candidate.pairwise_insert c h.best).take,
    List.length_take_le _ _, Candidate.forall_insert hc h.opened,
    fun x hx => Candidate.forall_insert hc h.chosen x (List.mem_of_mem_take hx)⟩

theorem Sorted.rest {rest : List Candidate} (h : b.Sorted width Q) (hb : b.frontier = c :: rest) :
    ({ b with frontier := rest } : Beam).Sorted width Q := by
  have hfrontier := h.frontier
  have hopened := h.opened
  rw [hb] at hfrontier hopened
  exact ⟨(List.pairwise_cons.mp hfrontier).2, h.best, h.short,
    fun x hx => hopened x (List.mem_cons_of_mem c hx), h.chosen⟩

theorem of_admits (h : b.admits width c = true) : b.best.length < width ∨
    ∃ w, b.best.getLast? = some w ∧ FloatBits.below c.distance w.distance = true := by
  rw [admits, Bool.or_eq_true, decide_eq_true_eq] at h
  refine h.imp_right fun h => ?_
  cases hw : b.best.getLast? with
  | none => simp [hw] at h
  | some w => exact ⟨w, rfl, by simpa [hw] using h⟩

theorem of_not_admits (hwidth : 0 < width) (h : b.admits width c = false) :
    width ≤ b.best.length ∧
      ∃ w, b.best.getLast? = some w ∧ FloatBits.below c.distance w.distance = false := by
  rw [admits, Bool.or_eq_false_iff, decide_eq_false_iff_not, Nat.not_lt] at h
  refine ⟨h.1, ?_⟩
  cases hw : b.best.getLast? with
  | none =>
    rw [List.getLast?_eq_none_iff.mp hw] at h
    exact absurd h.1 (Nat.not_le.mpr hwidth)
  | some w => exact ⟨w, rfl, by simpa [hw] using h.2⟩

theorem of_settled (h : b.settled width c = true) : width ≤ b.best.length ∧
    ∃ w, b.best.getLast? = some w ∧ FloatBits.below w.distance c.distance = true := by
  rw [settled, Bool.and_eq_true, decide_eq_true_eq] at h
  refine ⟨h.1, ?_⟩
  cases hw : b.best.getLast? with
  | none => simp [hw] at h
  | some w => exact ⟨w, rfl, by simpa [hw] using h.2⟩

end Beam

namespace Store

variable {s : Store} {p : Params} {metric : Metric} {query : Embedding} {layer width : Nat}
  {b b' : Beam} {l k : Location} {c : Candidate}

theorem of_score (h : s.score metric query l = .ok c) :
    ∃ e, s.record? l = some (.element e) ∧ c = ⟨l, metric.distance query e.vector⟩ := by
  rw [score] at h
  cases he : s.element l with
  | error e =>
    rw [he] at h
    cases h
  | ok e =>
    rw [he] at h
    exact ⟨e, (s.element_eq_ok l e).mp he, (Except.ok.inj h).symm⟩

theorem location_of_score (h : s.score metric query l = .ok c) : c.location = l := by
  obtain ⟨e, -, rfl⟩ := of_score h
  rfl

theorem nodup_locations {cs : List Candidate} (h : cs.Nodup)
    (hscored : ∀ c ∈ cs, s.score metric query c.location = .ok c) :
    (cs.map Candidate.location).Nodup := by
  refine List.pairwise_map.mpr (h.imp_of_mem fun {x y} hx hy hne hxy => hne ?_)
  have hsame := hscored x hx
  rw [hxy, hscored y hy] at hsame
  exact (Except.ok.inj hsame).symm

theorem visit_cases (h : s.visit metric query width b l = .ok b') :
    l ∈ b.visited ∧ b' = b ∨
      l ∉ b.visited ∧ ∃ c, s.score metric query l = .ok c ∧
        (b.admits width c = true ∧
            b' = ({ b with visited := l :: b.visited } : Beam).accept width c ∨
          b.admits width c = false ∧ b' = { b with visited := l :: b.visited }) := by
  rw [visit] at h
  by_cases hseen : l ∈ b.visited
  · rw [if_pos (List.contains_iff_mem.mpr hseen)] at h
    exact .inl ⟨hseen, (Except.ok.inj h).symm⟩
  · rw [if_neg fun hcontains => hseen (List.contains_iff_mem.mp hcontains)] at h
    cases hc : s.score metric query l with
    | error e =>
      rw [hc] at h
      cases h
    | ok c =>
      rw [hc] at h
      refine .inr ⟨hseen, c, rfl, ?_⟩
      have hb' := (Except.ok.inj h).symm
      simp only at hb'
      cases hadmits : b.admits width c with
      | true => exact .inl ⟨rfl, hb'.trans (if_pos hadmits)⟩
      | false => exact .inr ⟨rfl, hb'.trans (if_neg (Bool.eq_false_iff.mp hadmits))⟩

theorem visits_keep {I : Beam → Prop} (ls : List Location) :
    ∀ {b b' : Beam}, (∀ l ∈ ls, ∀ b b', I b → s.visit metric query width b l = .ok b' → I b') →
      I b → ls.foldlM (s.visit metric query width) b = .ok b' → I b' := by
  induction ls with
  | nil =>
    intro b b' _ hb h
    rw [← Except.ok.inj h]
    exact hb
  | cons l ls ih =>
    intro b b' hstep hb h
    rw [List.foldlM_cons] at h
    obtain ⟨b₁, hvisit, hrest⟩ := ok_of_bind h
    exact ih (fun k hk => hstep k (List.mem_cons_of_mem l hk))
      (hstep l List.mem_cons_self _ _ hb hvisit) hrest

theorem links_of_expand (h : s.expand p query layer width b c = .ok b') :
    ∃ ls : List Location, (∀ k, k ∈ ls ↔ s.Link p.m layer c.location k) ∧
      ls.foldlM (s.visit p.metric query width) b = .ok b' := by
  rw [expand] at h
  obtain ⟨e, he, h⟩ := ok_of_bind h
  obtain ⟨ls, hls, h⟩ := ok_of_bind h
  refine ⟨ls, fun k => ⟨link_of_neighbors he hls, ?_⟩, h⟩
  rintro ⟨f, a, hf, ha, hk⟩
  obtain rfl := Except.ok.inj (he.symm.trans ((s.element_eq_ok _ f).mpr hf))
  have hlayer : layer ≤ e.level.toNat := by
    obtain ⟨-, i, hi, -⟩ := Adjacency.mem_layer.mp hk
    exact hi.1
  rw [neighbors, if_neg (Nat.not_lt.mpr hlayer), (s.adjacency_eq_ok _ a).mpr ha] at hls
  rwa [← Except.ok.inj hls]

theorem runBeam_cases {steps : Nat} {found : List Candidate}
    (h : s.runBeam p query layer width steps b = .ok found) :
    (b.best = found ∧ ∀ c rest, b.frontier = c :: rest → b.settled width c = true) ∨
      ∃ c rest b' left, steps = left + 1 ∧ b.frontier = c :: rest ∧
        s.expand p query layer width { b with frontier := rest } c = .ok b' ∧
        s.runBeam p query layer width left b' = .ok found := by
  rw [runBeam] at h
  cases hfrontier : b.frontier with
  | nil =>
    simp only [hfrontier] at h
    exact .inl ⟨Except.ok.inj h, fun _ _ hc => by cases hc⟩
  | cons c rest =>
    simp only [hfrontier] at h
    by_cases hsettled : b.settled width c = true
    · rw [if_pos hsettled] at h
      refine .inl ⟨Except.ok.inj h, fun _ _ hc => ?_⟩
      rwa [← (List.cons.inj hc).1]
    · rw [if_neg hsettled] at h
      cases steps with
      | zero => cases h
      | succ left =>
        cases hexpand : s.expand p query layer width { b with frontier := rest } c with
        | error e =>
          rw [hexpand] at h
          cases h
        | ok b' =>
          rw [hexpand] at h
          exact .inr ⟨c, rest, b', left, rfl, rfl, hexpand, h⟩

theorem runBeam_keeps {I : Beam → Prop}
    (hstep : ∀ b b' c rest, I b → b.frontier = c :: rest →
      s.expand p query layer width { b with frontier := rest } c = .ok b' → I b') (steps : Nat) :
    ∀ (b : Beam) (found : List Candidate), I b →
      s.runBeam p query layer width steps b = .ok found →
      ∃ b', I b' ∧ b'.best = found ∧
        ∀ c rest, b'.frontier = c :: rest → b'.settled width c = true := by
  induction steps with
  | zero =>
    intro b found hb h
    rcases runBeam_cases h with hend | ⟨_, _, _, _, hsteps, -⟩
    · exact ⟨b, hb, hend⟩
    · cases hsteps
  | succ steps ih =>
    intro b found hb h
    rcases runBeam_cases h with hend | ⟨c, rest, b', _, hsteps, hfrontier, hexpand, hrest⟩
    · exact ⟨b, hb, hend⟩
    · obtain rfl := Nat.succ.inj hsteps
      exact ih b' found (hstep b b' c rest hb hfrontier hexpand) hrest

def Sees (s : Store) (metric : Metric) (query : Embedding) (P : Location → Prop)
    (c : Candidate) : Prop :=
  P c.location ∧ s.score metric query c.location = .ok c

variable {P : Location → Prop}

theorem sees_of_score (hl : P l) (h : s.score metric query l = .ok c) :
    s.Sees metric query P c := by
  have hat := location_of_score h
  exact ⟨hat.symm ▸ hl, hat.symm ▸ h⟩

theorem visit_sorted (hb : b.Sorted width (s.Sees metric query P)) (hl : P l)
    (h : s.visit metric query width b l = .ok b') : b'.Sorted width (s.Sees metric query P) := by
  rcases visit_cases h with ⟨-, rfl⟩ | ⟨-, c, hc, ⟨-, rfl⟩ | ⟨-, rfl⟩⟩
  · exact hb
  · have hold : ({ b with visited := l :: b.visited } : Beam).Sorted width
        (s.Sees metric query P) := ⟨hb.frontier, hb.best, hb.short, hb.opened, hb.chosen⟩
    exact hold.accept (sees_of_score hl hc)
  · exact ⟨hb.frontier, hb.best, hb.short, hb.opened, hb.chosen⟩

section
variable (hclosed : ∀ l k, P l → s.Link p.m layer l k → P k)
include hclosed

theorem expand_sorted {rest : List Candidate} (hb : b.Sorted width (s.Sees p.metric query P))
    (hfrontier : b.frontier = c :: rest)
    (h : s.expand p query layer width { b with frontier := rest } c = .ok b') :
    b'.Sorted width (s.Sees p.metric query P) := by
  obtain ⟨ls, hls, hrun⟩ := links_of_expand h
  have hc : P c.location := (hb.opened c (by rw [hfrontier]; exact List.mem_cons_self)).1
  exact visits_keep ls (fun k hk _ _ hb hv =>
    visit_sorted hb (hclosed _ k hc ((hls k).mp hk)) hv) (hb.rest hfrontier) hrun

end

end Store

/-- The best of a beam are at different locations, and all have been seen. -/
structure Beam.Distinct (b : Beam) : Prop where
  seen : ∀ c ∈ b.best, c.location ∈ b.visited
  nodup : (b.best.map Candidate.location).Nodup

namespace Store

variable {s : Store} {p : Params} {metric : Metric} {query : Embedding} {layer width : Nat}
  {b b' : Beam} {l : Location} {c : Candidate} {entries found : List Candidate}

theorem distinct_start (width : Nat) (h : (entries.map Candidate.location).Nodup) :
    (Beam.start entries width).Distinct := by
  have hsort := Candidate.sort_perm entries
  constructor
  · intro c hc
    exact List.mem_map_of_mem (hsort.mem_iff.mp (List.mem_of_mem_take hc))
  · exact ((List.take_sublist _ _).map _).nodup ((hsort.map Candidate.location).nodup_iff.mpr h)

theorem visit_distinct (hb : b.Distinct) (h : s.visit metric query width b l = .ok b') :
    b'.Distinct := by
  rcases visit_cases h with ⟨-, rfl⟩ | ⟨hnew, c, hc, ⟨-, rfl⟩ | ⟨-, rfl⟩⟩
  · exact hb
  · obtain rfl := location_of_score hc
    have hinsert := Candidate.insert_perm c b.best
    constructor
    · intro x hx
      rcases List.mem_cons.mp (hinsert.mem_iff.mp (List.mem_of_mem_take hx)) with rfl | hx
      · exact List.mem_cons_self
      · exact List.mem_cons_of_mem _ (hb.seen x hx)
    · refine ((List.take_sublist _ _).map _).nodup
        ((hinsert.map Candidate.location).nodup_iff.mpr ?_)
      rw [List.map_cons, List.nodup_cons]
      refine ⟨fun hold => ?_, hb.nodup⟩
      obtain ⟨x, hx, hsame⟩ := List.mem_map.mp hold
      exact hnew (hsame ▸ hb.seen x hx)
  · exact ⟨fun x hx => List.mem_cons_of_mem _ (hb.seen x hx), hb.nodup⟩

theorem expand_distinct (hb : b.Distinct) (h : s.expand p query layer width b c = .ok b') :
    b'.Distinct := by
  obtain ⟨ls, -, hrun⟩ := links_of_expand h
  exact visits_keep ls (fun _ _ _ _ => visit_distinct) hb hrun

theorem searchLayer_sorted {P : Location → Prop}
    (hclosed : ∀ l k, P l → s.Link p.m layer l k → P k)
    (hentries : ∀ c ∈ entries, s.Sees p.metric query P c)
    (hdistinct : (entries.map Candidate.location).Nodup)
    (h : s.searchLayer p query layer width entries = .ok found) :
    Candidate.Ascending found ∧ found.length ≤ width ∧
      ∀ c ∈ found, s.Sees p.metric query P c := by
  obtain ⟨b, ⟨hsorted, hb⟩, rfl, -⟩ := runBeam_keeps
    (I := fun b => b.Sorted width (s.Sees p.metric query P) ∧ b.Distinct)
    (fun b _ _ rest hb hfrontier hexpand => ⟨expand_sorted hclosed hb.1 hfrontier hexpand,
      expand_distinct (b := { b with frontier := rest }) ⟨hb.2.seen, hb.2.nodup⟩ hexpand⟩)
    _ _ _ ⟨Beam.sorted_start width hentries, distinct_start width hdistinct⟩ h
  exact ⟨Candidate.ascending_of_nodup hsorted.best hb.nodup, hsorted.short, hsorted.chosen⟩

/-- A look at a neighbor forgets nothing, and a new best candidate is open. -/
structure Extends (b b' : Beam) : Prop where
  visited : ∀ l ∈ b.visited, l ∈ b'.visited
  frontier : ∀ c ∈ b.frontier, c ∈ b'.frontier
  best : ∀ c ∈ b'.best, c ∈ b.best ∨ c ∈ b'.frontier

theorem Extends.refl (b : Beam) : Extends b b := ⟨fun _ => id, fun _ => id, fun _ => .inl⟩

theorem Extends.trans {b'' : Beam} (h : Extends b b') (h' : Extends b' b'') : Extends b b'' := by
  refine ⟨fun l hl => h'.visited l (h.visited l hl),
    fun c hc => h'.frontier c (h.frontier c hc), fun c hc => ?_⟩
  rcases h'.best c hc with hbest | hopen
  · exact (h.best c hbest).imp_right (h'.frontier c)
  · exact .inr hopen

theorem visit_extends (h : s.visit metric query width b l = .ok b') :
    Extends b b' ∧ l ∈ b'.visited := by
  rcases visit_cases h with ⟨hseen, rfl⟩ | ⟨-, c, -, ⟨-, rfl⟩ | ⟨-, rfl⟩⟩
  · exact ⟨.refl _, hseen⟩
  · refine ⟨⟨fun k hk => List.mem_cons_of_mem l hk,
      fun x hx => Candidate.mem_insert.mpr (.inr hx), fun x hx => ?_⟩, List.mem_cons_self⟩
    rcases Candidate.mem_insert.mp (List.mem_of_mem_take hx) with rfl | hx
    · exact .inr (Candidate.mem_insert.mpr (.inl rfl))
    · exact .inl hx
  · exact ⟨⟨fun k hk => List.mem_cons_of_mem l hk, fun _ => id, fun _ => .inl⟩, List.mem_cons_self⟩

theorem visits_extend (ls : List Location) :
    ∀ {b b' : Beam}, ls.foldlM (s.visit metric query width) b = .ok b' →
      Extends b b' ∧ ∀ l ∈ ls, l ∈ b'.visited := by
  induction ls with
  | nil =>
    intro b b' h
    rw [← Except.ok.inj h]
    exact ⟨.refl b, fun l hl => nomatch hl⟩
  | cons l ls ih =>
    intro b b' h
    rw [List.foldlM_cons] at h
    obtain ⟨b₁, hvisit, hrest⟩ := ok_of_bind h
    obtain ⟨hstep, hl⟩ := visit_extends hvisit
    obtain ⟨hsteps, hls⟩ := ih hrest
    refine ⟨hstep.trans hsteps, fun k hk => ?_⟩
    rcases List.mem_cons.mp hk with rfl | hk
    · exact hsteps.visited _ hl
    · exact hls k hk

end Store

/-- A beam is in order, and each of its best candidates is open or all its links have been seen. -/
structure Beam.Expands (s : Store) (p : Params) (query : Embedding) (layer width : Nat)
    (P : Location → Prop) (b : Beam) : Prop where
  sorted : b.Sorted width (s.Sees p.metric query P)
  expanded : ∀ c ∈ b.best, c ∈ b.frontier ∨
    ∀ k, s.Link p.m layer c.location k → k ∈ b.visited

section
variable {s : Store} {p : Params} {query : Embedding} {layer width : Nat} {P : Location → Prop}
  {b b' : Beam} {c : Candidate}

theorem Beam.expands_start {entries : List Candidate}
    (hentries : ∀ c ∈ entries, s.Sees p.metric query P c) :
    (Beam.start entries width).Expands s p query layer width P :=
  ⟨Beam.sorted_start width hentries, fun _ hc => .inl (List.mem_of_mem_take hc)⟩

theorem Beam.Expands.expand (hclosed : ∀ l k, P l → s.Link p.m layer l k → P k)
    {rest : List Candidate} (hb : b.Expands s p query layer width P)
    (hfrontier : b.frontier = c :: rest)
    (h : s.expand p query layer width { b with frontier := rest } c = .ok b') :
    b'.Expands s p query layer width P := by
  obtain ⟨ls, hls, hrun⟩ := Store.links_of_expand h
  obtain ⟨hextends, hseen⟩ := Store.visits_extend ls hrun
  refine ⟨Store.expand_sorted hclosed hb.sorted hfrontier h, fun x hx => ?_⟩
  rcases hextends.best x hx with hold | hopen
  · rcases hb.expanded x hold with hopen | hlinks
    · rcases List.mem_cons.mp (hfrontier ▸ hopen) with rfl | hopen
      · exact .inr fun k hk => hseen k ((hls k).mpr hk)
      · exact .inl (hextends.frontier x hopen)
    · exact .inr fun k hk => hextends.visited k (hlinks k hk)
  · exact .inl hopen

theorem Beam.Expands.closed (h : b.Expands s p query layer width P)
    (hend : ∀ c rest, b.frontier = c :: rest → b.settled width c = true) (hc : c ∈ b.best)
    {k : Location} (hk : s.Link p.m layer c.location k) : k ∈ b.visited := by
  refine (h.expanded c hc).resolve_left (fun hopen => ?_) k hk
  cases hfrontier : b.frontier with
  | nil =>
    rw [hfrontier] at hopen
    cases hopen
  | cons x rest =>
    -- The closest open candidate is farther than every best one.
    obtain ⟨-, w, hw, hbelow⟩ := Beam.of_settled (hend x rest hfrontier)
    have hordered := h.sorted.frontier
    rw [hfrontier] at hordered hopen
    have hx : x.le c = true := by
      rcases List.mem_cons.mp hopen with rfl | hopen
      · exact Candidate.le_refl c
      · exact (List.pairwise_cons.mp hordered).1 c hopen
    have hfar := FloatBits.signed_lt_of_below hbelow
    have hnear := Candidate.signed_le_of_le (Candidate.le_last h.sorted.best hw c hc)
    have hnot := Candidate.signed_le_of_le hx
    omega

end

namespace Store

variable {s : Store} {p : Params} {query : Embedding} {layer width : Nat}

def ElementsSeen (s : Store) (b : Beam) : Prop :=
  ∀ l ∈ b.visited, ∃ e, s.record? l = some (.element e)

theorem visit_elements {metric : Metric} {b b' : Beam} {l : Location} (hb : s.ElementsSeen b)
    (h : s.visit metric query width b l = .ok b') : s.ElementsSeen b' := by
  rcases visit_cases h with ⟨-, rfl⟩ | ⟨-, c, hc, hb'⟩
  · exact hb
  · obtain ⟨e, he, -⟩ := of_score hc
    have hvisited : b'.visited = l :: b.visited := by
      rcases hb' with ⟨-, rfl⟩ | ⟨-, rfl⟩ <;> rfl
    rw [ElementsSeen, hvisited]
    exact List.forall_mem_cons.mpr ⟨⟨e, he⟩, hb⟩

theorem expand_elements {b b' : Beam} {c : Candidate} (hb : s.ElementsSeen b)
    (h : s.expand p query layer width b c = .ok b') : s.ElementsSeen b' := by
  obtain ⟨ls, -, hrun⟩ := links_of_expand h
  exact visits_keep ls (fun _ _ _ _ => visit_elements) hb hrun

theorem searchLayer_explored {entries found : List Candidate}
    (hentries : ∀ c ∈ entries, s.Sees p.metric query (fun _ => True) c)
    (h : s.searchLayer p query layer width entries = .ok found) :
    s.Explored p.m layer found ∧ ∀ c ∈ found, s.Sees p.metric query (fun _ => True) c := by
  have helement : ∀ c, s.Sees p.metric query (fun _ => True) c →
      ∃ e, s.record? c.location = some (.element e) := by
    intro c hc
    obtain ⟨e, he, -⟩ := of_score hc.2
    exact ⟨e, he⟩
  obtain ⟨b, ⟨hexpands, hseen⟩, rfl, hend⟩ := runBeam_keeps
    (I := fun b => b.Expands s p query layer width (fun _ => True) ∧ s.ElementsSeen b)
    (fun b _ _ rest hb hfrontier hexpand =>
      ⟨hb.1.expand (fun _ _ _ _ => trivial) hfrontier hexpand,
        expand_elements (b := { b with frontier := rest }) hb.2 hexpand⟩)
    _ _ _ ⟨Beam.expands_start hentries, fun k hk => by
      obtain ⟨c, hc, rfl⟩ := List.mem_map.mp hk
      exact helement c (hentries c hc)⟩ h
  exact ⟨fun c hc => ⟨helement c (hexpands.sorted.chosen c hc),
    fun k hk => hseen k (hexpands.closed hend hc hk)⟩, hexpands.sorted.chosen⟩

end Store

end PagedGraph
