import PagedGraph.Proofs.Inserting

/-!
# Whole neighbor lists

What the layers of a record hold after a draft has been stored (`Placed.link`), after one layer has
been filled anew (`mem_setLayer`), and after fresh candidates have been merged into a record that had
no links before (`mergeFrom_blank`).
-/

set_option autoImplicit false

namespace PagedGraph

namespace Adjacency

variable {m layer : Nat} {k : Location}

theorem mem_filled {ns : List Location} (hused : k.isUsed = true) :
    k ∈ filled m layer ns ↔ k ∈ ns.take (layerCapacity m layer) := by
  rw [filled, List.mem_append]
  constructor
  · rintro (hk | hk)
    · exact hk
    · rw [List.eq_of_mem_replicate hk] at hused
      cases hused
  · exact .inl

theorem getElem?_filledFrom (lists : List (List Location)) (level : Nat) {j : Nat}
    (hlayer : layer ≤ level) (hj : j < layerCapacity m layer) :
    (filledFrom m lists level)[(level - layer) * m + j]? =
      (filled m layer (lists.getD layer []))[j]? := by
  induction level with
  | zero =>
    obtain rfl := Nat.le_zero.mp hlayer
    rw [Nat.sub_self, Nat.zero_mul, Nat.zero_add]
    rfl
  | succ level ih =>
    rw [filledFrom]
    have hlength := length_filled m (level + 1) (lists.getD (level + 1) [])
    by_cases htop : layer = level + 1
    · subst htop
      rw [Nat.sub_self, Nat.zero_mul, Nat.zero_add,
        List.getElem?_append_left (by rw [hlength]; exact hj)]
    · have hbelow : layer ≤ level := by omega
      have hcapacity : layerCapacity m (level + 1) = m := if_neg (Nat.succ_ne_zero level)
      have hstart : (level + 1 - layer) * m = m + (level - layer) * m := by
        rw [Nat.succ_sub hbelow, Nat.succ_mul, Nat.add_comm]
      rw [hcapacity] at hlength
      rw [hstart, List.getElem?_append_right (by omega), hlength, ← ih hbelow]
      congr 1
      omega

theorem mem_ofLayers {lists : List (List Location)} {level : Nat} (hlayer : layer ≤ level) :
    k ∈ (ofLayers level m lists).layer level layer m ↔
      k.isUsed = true ∧ k ∈ (lists.getD layer []).take (layerCapacity m layer) := by
  rw [mem_layer]
  refine and_congr_right fun hused => ?_
  rw [← mem_filled hused, List.mem_iff_getElem?]
  constructor
  · rintro ⟨i, ⟨-, hle, hlt⟩, hi⟩
    refine ⟨i - (level - layer) * m, ?_⟩
    rw [← getElem?_filledFrom lists level hlayer (by omega), Nat.add_sub_cancel' hle]
    exact hi
  · rintro ⟨j, hj⟩
    have hlt := (List.getElem?_eq_some_iff.mp hj).1
    rw [length_filled] at hlt
    refine ⟨_, ⟨hlayer, Nat.le_add_right _ _, Nat.add_lt_add_left hlt _⟩, ?_⟩
    rw [← getElem?_filledFrom lists level hlayer hlt] at hj
    exact hj

variable {a : Adjacency} {level : Nat}

theorem getElem?_setLayer_out {ns : List Location} {i : Nat} (hlayer : layer ≤ level)
    (hi : ¬InLayer level m layer i) : (a.setLayer level layer m ns).slots[i]? = a.slots[i]? := by
  have hout : ¬((level - layer) * m ≤ i ∧ i < (level - layer) * m + layerCapacity m layer) :=
    fun hin => hi ⟨hlayer, hin⟩
  simp only [setLayer, layerRange, if_neg (Nat.not_lt.mpr hlayer), List.getElem?_mapIdx,
    if_neg hout, Option.map_id']

theorem getElem?_setLayer_in {ns : List Location} {i : Nat} (hi : InLayer level m layer i)
    (hlen : a.slots.length = slotCount level m) :
    (a.setLayer level layer m ns).slots[i]? = some (ns.getD (i - (level - layer) * m) .unused) := by
  have hslot : i < a.slots.length := by
    rw [hlen]
    exact hi.lt
  simp only [setLayer, layerRange, if_neg (Nat.not_lt.mpr hi.1), List.getElem?_mapIdx,
    if_pos hi.2, List.getElem?_eq_getElem hslot, Option.map_some]

theorem mem_setLayer (ns : List Location) (layer' : Nat) (hlayer : layer ≤ level)
    (hlen : a.slots.length = slotCount level m) :
    (layer' ≠ layer → (k ∈ (a.setLayer level layer m ns).layer level layer' m ↔
      k ∈ a.layer level layer' m)) ∧
    (k ∈ (a.setLayer level layer m ns).layer level layer m ↔
      k.isUsed = true ∧ k ∈ ns.take (layerCapacity m layer)) := by
  constructor
  · intro hother
    rw [mem_layer, mem_layer]
    refine and_congr_right fun _ => exists_congr fun i => and_congr_right fun hi => ?_
    rw [getElem?_setLayer_out hlayer fun hin => hother (hi.unique hin)]
  · rw [mem_layer]
    refine and_congr_right fun hused => ?_
    rw [List.mem_iff_getElem?]
    constructor
    · rintro ⟨i, hin, hi⟩
      rw [getElem?_setLayer_in hin hlen, List.getD_eq_getElem?_getD] at hi
      have hlt := hin.2
      refine ⟨i - (level - layer) * m, ?_⟩
      rw [List.getElem?_take_of_lt (by omega)]
      cases hget : ns[i - (level - layer) * m]? with
      | none =>
        rw [hget] at hi
        rw [← Option.some.inj hi] at hused
        cases hused
      | some x =>
        rw [hget] at hi
        exact hi
    · rintro ⟨j, hj⟩
      have hlt : j < layerCapacity m layer := by
        have := (List.getElem?_eq_some_iff.mp hj).1
        rw [List.length_take] at this
        omega
      rw [List.getElem?_take_of_lt hlt] at hj
      have hin : InLayer level m layer ((level - layer) * m + j) :=
        ⟨hlayer, Nat.le_add_right _ _, Nat.add_lt_add_left hlt _⟩
      refine ⟨_, hin, ?_⟩
      rw [getElem?_setLayer_in hin hlen, Nat.add_sub_cancel_left, List.getD_eq_getElem?_getD, hj]
      rfl

end Adjacency

theorem getD_map_locations (lists : List (List Candidate)) (layer : Nat) :
    (lists.map fun cs => cs.map Candidate.location).getD layer [] =
      (lists.getD layer []).map Candidate.location := by
  rw [List.getD_eq_getElem?_getD, List.getD_eq_getElem?_getD, List.getElem?_map]
  cases lists[layer]? with
  | none => rfl
  | some cs => rfl

theorem Placed.link {t : Header} {s s' : Store} {d : Draft} {st : Stored} (h : s.Intact t)
    (hplaced : Placed t s s' d st) {layer : Nat} {l k : Location} :
    s'.Link t.m.toNat layer l k ↔ if l = st.location then
        layer ≤ d.level.toNat ∧ k.isUsed = true ∧ k ∈ ((d.neighbors.getD layer []).map
          Candidate.location).take (layerCapacity t.m.toNat layer)
      else s.Link t.m.toNat layer l k := by
  by_cases hl : l = st.location
  · rw [if_pos hl, hl, Store.link_iff hplaced.element hplaced.adjacency, ← getD_map_locations]
    constructor
    · intro hk
      obtain ⟨-, i, hi, -⟩ := Adjacency.mem_layer.mp hk
      exact ⟨hi.1, (Adjacency.mem_ofLayers hi.1).mp hk⟩
    · exact fun hk => (Adjacency.mem_ofLayers hk.1).mpr hk.2
  · rw [if_neg hl]
    exact hplaced.link_other h hl

theorem mem_of_unseen {seen : List Location} {cs : List Candidate} {c : Candidate}
    (h : c ∈ unseen seen cs) : c ∈ cs := by
  induction cs generalizing seen with
  | nil => cases h
  | cons x rest ih =>
    rw [unseen] at h
    split at h
    · exact List.mem_cons_of_mem x (ih h)
    · rcases List.mem_cons.mp h with rfl | h
      · exact List.mem_cons_self
      · exact List.mem_cons_of_mem x (ih h)

/-- What a layer of a draft's record without links keeps of fresh candidates. -/
def freshLayer (p : Params) (d : Draft) (layer : Nat) (fresh : List Candidate) : List Candidate :=
  (Candidate.sort (unseen [d.location] fresh)).take (p.capacity layer)

section
variable {p : Params} {d : Draft}

theorem mem_of_freshLayer {layer : Nat} {fresh : List Candidate} {c : Candidate}
    (h : c ∈ freshLayer p d layer fresh) : c ∈ fresh :=
  mem_of_unseen ((Candidate.sort_perm _).mem_iff.mp (List.mem_of_mem_take h))

theorem freshLayer_some {layer : Nat} {fresh : List Candidate} (hpos : 0 < p.m)
    (hsome : ∃ c, c ∈ fresh) (hother : ∀ c ∈ fresh, c.location ≠ d.location) :
    ∃ c, c ∈ freshLayer p d layer fresh := by
  obtain ⟨c, hc⟩ := hsome
  cases fresh with
  | nil => cases hc
  | cons x rest =>
    have hx : ¬x.location ∈ [d.location] := by
      rw [List.mem_singleton]
      exact hother x List.mem_cons_self
    have hmem : x ∈ unseen [d.location] (x :: rest) := by
      rw [unseen, if_neg hx]
      exact List.mem_cons_self
    apply List.exists_mem_of_length_pos
    rw [freshLayer, List.length_take]
    exact Nat.lt_min.mpr ⟨layerCapacity_pos hpos layer,
      List.length_pos_of_mem ((Candidate.sort_perm _).mem_iff.mpr hmem)⟩

theorem mergeLayer_blank (s : Store) {layer : Nat} {a : Adjacency} (fresh : List Candidate)
    (hblank : ∀ k, k ∉ a.layer d.level.toNat layer p.m) :
    mergeLayer s p d layer a fresh = .ok (freshLayer p d layer fresh) := by
  have hnone : a.layer d.level.toNat layer p.m = [] := List.eq_nil_iff_forall_not_mem.mpr hblank
  simp only [mergeLayer, hnone]
  rfl

theorem mergeFrom_blank (s : Store) (fresh : List (List Candidate)) :
    ∀ (layer : Nat) (a : Adjacency) (lists : List (List Candidate)),
      a.slots.length = Adjacency.slotCount d.level.toNat p.m → lists.length = d.level.toNat + 1 →
      layer + fresh.length = d.level.toNat + 1 →
      (∀ i k, layer ≤ i → k ∉ a.layer d.level.toNat i p.m) →
      ∃ merged, mergeFrom s p d layer fresh a lists = .ok merged ∧ ∀ i, i ≤ d.level.toNat →
        (i < layer → merged.2.getD i [] = lists.getD i [] ∧
          ∀ k, k ∈ merged.1.layer d.level.toNat i p.m ↔ k ∈ a.layer d.level.toNat i p.m) ∧
        (layer ≤ i → merged.2.getD i [] = freshLayer p d i (fresh.getD (i - layer) []) ∧
          ∀ k, k ∈ merged.1.layer d.level.toNat i p.m ↔ k.isUsed = true ∧
            ∃ c ∈ freshLayer p d i (fresh.getD (i - layer) []), c.location = k) := by
  induction fresh with
  | nil =>
    intro layer a lists _ _ hlayers _
    rw [List.length_nil] at hlayers
    exact ⟨(a, lists), rfl, fun i hi => ⟨fun _ => ⟨rfl, fun _ => Iff.rfl⟩, fun hle => by omega⟩⟩
  | cons found rest ih =>
    intro layer a lists hlen hlists hlayers hblank
    rw [List.length_cons] at hlayers
    have hlayer : layer ≤ d.level.toNat := by omega
    have hset := fun i k => Adjacency.mem_setLayer (k := k)
      ((freshLayer p d layer found).map Candidate.location) i hlayer hlen
    rw [mergeFrom, if_neg (Nat.not_lt.mpr hlayer),
      mergeLayer_blank s found fun k => hblank layer k (Nat.le_refl _)]
    obtain ⟨merged, hmerge, hlayers'⟩ := ih (layer + 1) (a.setLayer d.level.toNat layer p.m
        ((freshLayer p d layer found).map Candidate.location))
      (lists.set layer (freshLayer p d layer found))
      ((length_setLayer _ _ _ _ _).trans hlen) (by rw [List.length_set, hlists]) (by omega)
      (fun j k hj hk => hblank j k (Nat.le_of_succ_le hj) (((hset j k).1 (by omega)).mp hk))
    refine ⟨merged, hmerge, fun i hi => ?_⟩
    obtain ⟨hbelow, habove⟩ := hlayers' i hi
    constructor
    · intro hlt
      obtain ⟨hlist, hlinks⟩ := hbelow (Nat.lt_succ_of_lt hlt)
      refine ⟨?_, fun k => (hlinks k).trans ((hset i k).1 (by omega))⟩
      rw [hlist, List.getD_eq_getElem?_getD, List.getD_eq_getElem?_getD,
        List.getElem?_set_ne (by omega)]
    · intro hle
      by_cases hhere : i = layer
      · subst hhere
        obtain ⟨hlist, hlinks⟩ := hbelow (Nat.lt_succ_self i)
        rw [Nat.sub_self, List.getD_cons_zero]
        constructor
        · rw [hlist, List.getD_eq_getElem?_getD, List.getElem?_set_self (by omega)]
          rfl
        · intro k
          rw [hlinks k, (hset i k).2, List.take_of_length_le, List.mem_map]
          rw [List.length_map, freshLayer, List.length_take]
          exact Nat.min_le_left _ _
      · obtain ⟨hlist, hlinks⟩ := habove (by omega)
        have hget : (found :: rest).getD (i - layer) [] = rest.getD (i - (layer + 1)) [] := by
          rw [show i - layer = i - (layer + 1) + 1 by omega, List.getD_cons_succ]
        rw [hget]
        exact ⟨hlist, hlinks⟩

theorem mergeNeighbors_blank {t : Header} {s : Store} (h : s.Intact t) (hm : p.m = t.m.toNat)
    (hpos : 0 < p.m) {e : Element} (he : s.record? d.location = some (.element e))
    (hlevel : e.level = d.level) (hat : e.neighborsAt = d.neighborsAt)
    (hblank : ∀ layer k, ¬s.Link p.m layer d.location k)
    (hlists : d.neighbors.length = d.level.toNat + 1) {fresh : List (List Candidate)}
    (hfresh : fresh.length = d.level.toNat + 1)
    (hother : ∀ i c, c ∈ fresh.getD i [] → c.location ≠ d.location ∧ c.location.isUsed = true) :
    ∃ d' s', mergeNeighbors p d fresh s = .ok d' s' ∧ Store.Kept t s s' ∧
      (d'.level = d.level ∧ d'.location = d.location) ∧
      (∀ i, i ≤ d.level.toNat → (∀ c ∈ d'.neighbors.getD i [], c ∈ fresh.getD i []) ∧
        ((∃ c, c ∈ fresh.getD i []) → ∃ c, c ∈ d'.neighbors.getD i [])) ∧
      ∀ layer l k, s'.Link p.m layer l k ↔ if l = d.location then
          layer ≤ d.level.toNat ∧ ∃ c ∈ d'.neighbors.getD layer [], c.location = k
        else s.Link p.m layer l k := by
  obtain ⟨a, ha, hlen⟩ := h.paired.resolves _ e he
  rw [← hm, hlevel] at hlen
  have hnone : ∀ i k, 0 ≤ i → k ∉ a.layer d.level.toNat i p.m := by
    intro i k _ hk
    rw [← hlevel] at hk
    exact hblank i k ((Store.link_iff he ha).mpr hk)
  obtain ⟨merged, hmerged, hlayers⟩ := mergeFrom_blank s fresh 0 a d.neighbors hlen hlists
    (by rw [Nat.zero_add, hfresh]) hnone
  have hmerge := fun i hi => (hlayers i hi).2 (Nat.zero_le i)
  simp only [Nat.sub_zero] at hmerge
  have hown := ha
  rw [hat] at hown
  obtain ⟨s', hrun, hintact, hrew⟩ := mergeNeighbors_rewritten h hown hmerged
  have hkept := hrew.kept hintact hown
  have he' := (hkept.element _ e).mpr he
  have ha' : s'.record? e.neighborsAt = some (.adjacency merged.1) := by
    rw [hat, hrew.record, putRecord_self]
  refine ⟨_, s', hrun, hkept, ⟨rfl, rfl⟩, fun i hi => ?_, fun layer l k => ?_⟩
  · rw [(hmerge i hi).1]
    exact ⟨fun c hc => mem_of_freshLayer hc,
      fun hsome => freshLayer_some hpos hsome fun c hc => (hother i c hc).1⟩
  · by_cases hl : l = d.location
    · rw [if_pos hl, hl, Store.link_iff he' ha', hlevel]
      by_cases hlow : layer ≤ d.level.toNat
      · rw [(hmerge layer hlow).2 k, (hmerge layer hlow).1]
        constructor
        · exact fun hk => ⟨hlow, hk.2⟩
        · rintro ⟨-, c, hc, rfl⟩
          exact ⟨(hother layer c (mem_of_freshLayer hc)).2, c, hc, rfl⟩
      · constructor
        · intro hk
          obtain ⟨-, i, hi, -⟩ := Adjacency.mem_layer.mp hk
          exact absurd hi.1 hlow
        · exact fun hk => absurd hk.1 hlow
    · -- Other elements have other neighbor records.
      rw [if_neg hl]
      refine exists_congr fun f => exists_congr fun b => ?_
      rw [hkept.element]
      refine and_congr_right fun hf => ?_
      have hne : f.neighborsAt ≠ d.neighborsAt := by
        rw [← hat]
        exact fun heq => hl (h.paired.apart l d.location f e hf he heq)
      rw [hrew.record, putRecord_of_ne _ _ hne]

end

end PagedGraph
