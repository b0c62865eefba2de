import PagedGraph.Proofs.OwnLists

/-!
# The segments of a neighbor record

The layers of an element share one array of slots. Their segments cut it up without gap or overlap
(`partitioned`), so whoever fills one layer leaves all others alone, and two layers can be filled in
either order (`setApart`). A record that is made for a draft is what filling its layers one after
the other makes of a blank one, and each layer holds what fits of its own list (`layered`).
-/

set_option autoImplicit false

namespace PagedGraph

namespace Adjacency

variable {a : Adjacency} {level m layer layer' i : Nat} {lists : List (List Location)}

def InRange (level m layer i : Nat) : Prop :=
  (layerRange level layer m).1 ≤ i ∧ i < (layerRange level layer m).2

theorem layerRange_above (h : level < layer) : layerRange level layer m = (0, 0) := if_pos h

theorem inRange_iff : InRange level m layer i ↔ InLayer level m layer i := by
  rw [InRange, InLayer]
  by_cases h : level < layer
  · rw [layerRange_above h]
    omega
  · rw [layerRange, if_neg h]
    exact (and_iff_right (Nat.not_lt.mp h)).symm

structure Partitioned (level m : Nat) : Prop where
  covered : ∀ i, i < slotCount level m ↔ ∃ layer ≤ level, InRange level m layer i
  disjoint : ∀ layer layer' i, InRange level m layer i → InRange level m layer' i → layer = layer'
  sized : ∀ layer ≤ level,
    (layerRange level layer m).2 = (layerRange level layer m).1 + layerCapacity m layer
  above : ∀ layer, level < layer → layerRange level layer m = (0, 0)

theorem partitioned (level m : Nat) : Partitioned level m where
  covered i := by
    constructor
    · intro hi
      obtain ⟨layer, hlayer⟩ := exists_inLayer hi
      exact ⟨layer, hlayer.1, inRange_iff.mpr hlayer⟩
    · rintro ⟨layer, -, hrange⟩
      exact (inRange_iff.mp hrange).lt
  disjoint layer layer' i h h' := (inRange_iff.mp h).unique (inRange_iff.mp h')
  sized layer hlayer := by
    rw [layerRange, if_neg (Nat.not_lt.mpr hlayer)]
  above layer h := layerRange_above h

theorem getElem?_setLayer_outside (a : Adjacency) (ns : List Location)
    (h : ¬InRange level m layer i) : (a.setLayer level layer m ns).slots[i]? = a.slots[i]? := by
  rw [InRange] at h
  simp only [setLayer, List.getElem?_mapIdx, if_neg h, Option.map_id']

theorem getElem?_setLayer_inside (a : Adjacency) (ns : List Location)
    (h : InRange level m layer i) : (a.setLayer level layer m ns).slots[i]? =
      a.slots[i]?.map fun _ => ns.getD (i - (layerRange level layer m).1) .unused := by
  rw [InRange] at h
  simp only [setLayer, List.getElem?_mapIdx, if_pos h]

theorem eq_of_slots {b : Adjacency} (h : ∀ i : Nat, a.slots[i]? = b.slots[i]?) : a = b := by
  obtain ⟨as⟩ := a
  obtain ⟨bs⟩ := b
  rw [Adjacency.mk.injEq]
  exact List.ext_getElem? h

structure SetApart (level m : Nat) : Prop where
  /-- Slots of other layers keep what they hold. -/
  kept : ∀ (a : Adjacency) layer ns i, ¬InRange level m layer i →
    (a.setLayer level layer m ns).slots[i]? = a.slots[i]?
  other : ∀ (a : Adjacency) layer layer' ns, layer' ≠ layer →
    (a.setLayer level layer m ns).segment level layer' m = a.segment level layer' m
  comm : ∀ (a : Adjacency) layer layer' ns ns', layer ≠ layer' →
    (a.setLayer level layer m ns).setLayer level layer' m ns' =
      (a.setLayer level layer' m ns').setLayer level layer m ns

theorem setLayer_comm (a : Adjacency) (ns ns' : List Location) (h : layer ≠ layer') :
    (a.setLayer level layer m ns).setLayer level layer' m ns' =
      (a.setLayer level layer' m ns').setLayer level layer m ns := by
  refine eq_of_slots fun i => ?_
  by_cases hi : InRange level m layer i
  · have hi' : ¬InRange level m layer' i := fun hin =>
      h ((partitioned level m).disjoint layer layer' i hi hin)
    rw [getElem?_setLayer_outside _ _ hi', getElem?_setLayer_inside _ _ hi,
      getElem?_setLayer_inside _ _ hi, getElem?_setLayer_outside _ _ hi']
  · rw [getElem?_setLayer_outside _ ns hi]
    by_cases hi' : InRange level m layer' i
    · rw [getElem?_setLayer_inside _ _ hi', getElem?_setLayer_inside _ _ hi',
        getElem?_setLayer_outside _ _ hi]
    · rw [getElem?_setLayer_outside _ _ hi', getElem?_setLayer_outside _ _ hi',
        getElem?_setLayer_outside _ _ hi]

theorem setApart (level m : Nat) : SetApart level m where
  kept a _ ns _ h := getElem?_setLayer_outside a ns h
  other a layer layer' ns h := segment_congr fun i hi => getElem?_setLayer_outside a ns
    fun hin => h ((partitioned level m).disjoint layer' layer i (inRange_iff.mpr hi) hin)
  comm a _ _ ns ns' h := setLayer_comm a ns ns' h

def setLayers (level m : Nat) (a : Adjacency) (layer : Nat) : List (List Location) → Adjacency
  | [] => a
  | ns :: rest => setLayers level m (a.setLayer level layer m ns) (layer + 1) rest

theorem length_setLayers (level m : Nat) (a : Adjacency) (start : Nat)
    (lists : List (List Location)) :
    (setLayers level m a start lists).slots.length = a.slots.length := by
  induction lists generalizing a start with
  | nil => rfl
  | cons ns rest ih => rw [setLayers, ih, length_setLayer]

theorem getElem?_setLayers (a : Adjacency) (start : Nat) (lists : List (List Location))
    (hi : InRange level m layer i) : (setLayers level m a start lists).slots[i]? =
      match if start ≤ layer then lists[layer - start]? else none with
      | some ns => a.slots[i]?.map fun _ => ns.getD (i - (layerRange level layer m).1) .unused
      | none => a.slots[i]? := by
  induction lists generalizing a start with
  | nil => simp only [setLayers, List.getElem?_nil, ite_self]
  | cons ns rest ih =>
    rw [setLayers, ih]
    rcases Nat.lt_trichotomy start layer with hlt | rfl | hgt
    · have hout : ¬InRange level m start i := fun hin =>
        Nat.ne_of_lt hlt ((partitioned level m).disjoint start layer i hin hi)
      have hsucc : layer - start = layer - (start + 1) + 1 := by omega
      rw [if_pos (Nat.succ_le_of_lt hlt), if_pos (Nat.le_of_lt hlt), hsucc, List.getElem?_cons_succ,
        getElem?_setLayer_outside a ns hout]
    · rw [if_neg (Nat.not_succ_le_self start), if_pos (Nat.le_refl start), Nat.sub_self,
        List.getElem?_cons_zero]
      exact getElem?_setLayer_inside a ns hi
    · have hout : ¬InRange level m start i := fun hin =>
        Nat.ne_of_gt hgt ((partitioned level m).disjoint start layer i hin hi)
      rw [if_neg (by omega), if_neg (by omega)]
      exact getElem?_setLayer_outside a ns hout

theorem getElem?_filled {ns : List Location} {j : Nat} (hj : j < layerCapacity m layer) :
    (filled m layer ns)[j]? = some (ns.getD j .unused) := by
  rw [filled, List.getD_eq_getElem?_getD]
  by_cases hlt : j < ns.length
  · rw [List.getElem?_append_left (by rw [List.length_take]; omega),
      List.getElem?_take_of_lt hj, List.getElem?_eq_getElem hlt]
    rfl
  · rw [List.getElem?_append_right (by rw [List.length_take]; omega), List.length_take,
      List.getElem?_replicate, if_pos (by omega), List.getElem?_eq_none (Nat.not_lt.mp hlt)]
    rfl

theorem ofLayers_eq_setLayers (level m : Nat) (lists : List (List Location)) :
    ofLayers level m lists = setLayers level m (blank level m) 0 lists := by
  have hblank : (blank level m).slots.length = slotCount level m := List.length_replicate
  refine eq_of_slots fun i => ?_
  by_cases hi : i < slotCount level m
  · obtain ⟨layer, hin⟩ := exists_inLayer hi
    have hunused : (blank level m).slots[i]? = some .unused := by
      rw [blank, List.getElem?_replicate, if_pos hi]
    have hstart : (layerRange level layer m).1 = (level - layer) * m := by
      rw [layerRange, if_neg (Nat.not_lt.mpr hin.1)]
    have hj : i - (level - layer) * m < layerCapacity m layer := by
      have := hin.2
      omega
    have hmade := getElem?_filledFrom lists level hin.1 hj
    rw [Nat.add_sub_cancel' hin.2.1, getElem?_filled hj] at hmade
    rw [getElem?_setLayers _ _ _ (inRange_iff.mpr hin), hunused, hstart, ofLayers, hmade,
      if_pos (Nat.zero_le layer), Nat.sub_zero, List.getD_eq_getElem?_getD (l := lists)]
    cases lists[layer]? with
    | none => rfl
    | some ns => rfl
  · rw [List.getElem?_eq_none, List.getElem?_eq_none]
    · rw [length_setLayers, hblank]
      exact Nat.not_lt.mp hi
    · rw [ofLayers, length_filledFrom]
      exact Nat.not_lt.mp hi

theorem segment_ofLayers (hlayer : layer ≤ level) :
    (ofLayers level m lists).segment level layer m = filled m layer (lists.getD layer []) := by
  have hlen : (ofLayers level m lists).slots.length = slotCount level m :=
    length_filledFrom m lists level
  apply List.ext_getElem?
  intro j
  by_cases hj : j < layerCapacity m layer
  · rw [getElem?_segment hlayer hj]
    exact getElem?_filledFrom lists level hlayer hj
  · rw [List.getElem?_eq_none, List.getElem?_eq_none]
    · rw [length_filled]
      exact Nat.not_lt.mp hj
    · rw [length_segment hlen hlayer]
      exact Nat.not_lt.mp hj

theorem layer_ofLayers (hlayer : layer ≤ level) : (ofLayers level m lists).layer level layer m =
    ((lists.getD layer []).take (layerCapacity m layer)).filter Location.isUsed := by
  have hrest : ∀ n, (List.replicate n Location.unused).filter Location.isUsed = [] := fun n =>
    List.filter_eq_nil_iff.mpr fun l hl => by
      rw [List.eq_of_mem_replicate hl]
      decide
  rw [Adjacency.layer, segment_ofLayers hlayer, filled, List.filter_append, hrest,
    List.append_nil]

theorem filledFrom_congr {lists' : List (List Location)}
    (h : ∀ layer ≤ level, lists.getD layer [] = lists'.getD layer []) :
    filledFrom m lists level = filledFrom m lists' level := by
  induction level with
  | zero => rw [filledFrom, filledFrom, h 0 (Nat.le_refl 0)]
  | succ level ih =>
    rw [filledFrom, filledFrom, h (level + 1) (Nat.le_refl _),
      ih fun layer hle => h layer (Nat.le_succ_of_le hle)]

end Adjacency

/-- The record with which a draft is stored holds its lists layer by layer. -/
structure Draft.Layered (d : Draft) (m : Nat) : Prop where
  length : (d.adjacency m).slots.length = Adjacency.slotCount d.level.toNat m
  /-- The record is filled by one call for each list. -/
  filled : d.adjacency m = Adjacency.setLayers d.level.toNat m (.blank d.level.toNat m) 0
    (d.neighbors.map fun cs => cs.map Candidate.location)
  given : ∀ layer cs, layer ≤ d.level.toNat → d.neighbors[layer]? = some cs →
    (d.adjacency m).layer d.level.toNat layer m =
      ((cs.map Candidate.location).take (layerCapacity m layer)).filter Location.isUsed
  missing : ∀ layer, d.neighbors[layer]? = none →
    (d.adjacency m).layer d.level.toNat layer m = []
  /-- Lists for layers above the level make no difference. -/
  above : ∀ lists, (∀ layer ≤ d.level.toNat, lists[layer]? = d.neighbors[layer]?) →
    { d with neighbors := lists }.adjacency m = d.adjacency m

theorem Draft.layered (d : Draft) (m : Nat) : d.Layered m where
  length := Adjacency.length_filledFrom m _ d.level.toNat
  filled := Adjacency.ofLayers_eq_setLayers _ _ _
  given layer cs hlayer hcs := by
    rw [adjacency, Adjacency.layer_ofLayers hlayer, getD_map_locations,
      List.getD_eq_getElem?_getD, hcs]
    rfl
  missing layer hnone := by
    by_cases hlayer : layer ≤ d.level.toNat
    · rw [adjacency, Adjacency.layer_ofLayers hlayer, getD_map_locations,
        List.getD_eq_getElem?_getD, hnone, Option.getD_none, List.map_nil, List.take_nil,
        List.filter_nil]
    · rw [Adjacency.layer, Adjacency.segment_above (Nat.not_le.mp hlayer)]
      rfl
  above lists hsame := by
    rw [adjacency, adjacency, Adjacency.ofLayers, Adjacency.ofLayers, Adjacency.mk.injEq]
    refine Adjacency.filledFrom_congr fun layer hle => ?_
    rw [getD_map_locations, getD_map_locations, List.getD_eq_getElem?_getD,
      List.getD_eq_getElem?_getD, hsame layer hle]

/-- Whatever the level and the fan-out, the layers of a neighbor record have slots of their own, are
filled independently of each other, and hold what fits of the lists of the draft. -/
theorem layers_apart (m : Nat) : (∀ level, Adjacency.Partitioned level m) ∧
    (∀ level, Adjacency.SetApart level m) ∧ ∀ d : Draft, d.Layered m :=
  ⟨fun level => Adjacency.partitioned level m, fun level => Adjacency.setApart level m,
    fun d => d.layered m⟩

/-- Three lists for two layers of at most one and two entries: an unused location takes up room in a
list, and the list for layer 2 is ignored. -/
example : (({ Draft.new 1 [] 0 with neighbors :=
      [[⟨.unused, 0⟩, ⟨⟨1, 0⟩, 0⟩, ⟨⟨1, 2⟩, 0⟩], [⟨⟨1, 4⟩, 0⟩, ⟨⟨1, 6⟩, 0⟩], [⟨⟨1, 8⟩, 0⟩]] } :
        Draft).adjacency 1).slots = [⟨1, 4⟩, .unused, ⟨1, 0⟩] := by decide

end PagedGraph
