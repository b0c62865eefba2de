import Mathlib.Data.List.Perm.Subperm
import PagedGraph.Proofs.BackLinks
import PagedGraph.Proofs.DistinctLinks

/-!
# Links that are written late

After a writer has looked at a neighbor, and before he writes the link, others may delete the neighbor
and store another element in its space, on another level. Then the record has another number of slots
and they belong to other layers, but the writer goes by the level that he has seen.

Nothing outside the record is touched, and at most one slot of it. Whether that slot belongs to the
layer of the link depends on the two levels (`late_link`). If the layer is above the lowest one, it
does only if they are equal (`late_link_misplaced`).
-/

set_option autoImplicit false

namespace PagedGraph

theorem block_le {a b m i : Nat} (h : a * m ≤ i) (h' : i < b * m + m) : a ≤ b := by
  rw [← Nat.succ_mul] at h'
  exact Nat.le_of_lt_succ (Nat.lt_of_mul_lt_mul_right (Nat.lt_of_le_of_lt h h'))

theorem InLayer.relevel_iff {level level' m layer i : Nat} (h : InLayer level m layer i)
    (hlt : i < Adjacency.slotCount level' m) : InLayer level' m layer i ↔ level' = level ∨
      layer = 0 ∧ (level' + 1 = level ∨ level' = level + 1 ∧ level' * m ≤ i) := by
  obtain ⟨hlayer, hstart, hend⟩ := h
  rw [Adjacency.slotCount, Nat.add_mul] at hlt
  rw [layerCapacity] at hend
  by_cases hzero : layer = 0
  · -- The lowest layer has two blocks of slots, and those of neighboring levels have one in common.
    subst hzero
    rw [if_pos rfl, Nat.sub_zero] at hend
    rw [Nat.sub_zero] at hstart
    constructor
    · rintro ⟨-, hstart', hend'⟩
      rw [layerCapacity, if_pos rfl, Nat.sub_zero] at hend'
      rw [Nat.sub_zero] at hstart'
      have hup : level ≤ level' + 1 := block_le hstart (by rw [Nat.succ_mul]; omega)
      have hdown : level' ≤ level + 1 := block_le hstart' (by rw [Nat.succ_mul]; omega)
      omega
    · intro hlevels
      refine ⟨Nat.zero_le _, ?_, ?_⟩
      · rw [Nat.sub_zero]
        rcases hlevels with rfl | ⟨-, rfl | ⟨-, hstart'⟩⟩
        · exact hstart
        · exact Nat.le_trans (Nat.mul_le_mul_right m (Nat.le_succ level')) hstart
        · exact hstart'
      · rwa [layerCapacity, if_pos rfl, Nat.sub_zero]
  · rw [if_neg hzero] at hend
    constructor
    · rintro ⟨hlayer', hstart', hend'⟩
      rw [layerCapacity, if_neg hzero] at hend'
      have hup : level - layer ≤ level' - layer := block_le hstart hend'
      have hdown : level' - layer ≤ level - layer := block_le hstart' hend
      omega
    · rintro (rfl | ⟨hlow, -⟩)
      · exact ⟨hlayer, hstart, by rwa [layerCapacity, if_neg hzero]⟩
      · exact absurd hlow hzero

structure Store.Owner (s : Store) (at_ k : Location) (f : Element) : Prop where
  element : s.element k = .ok f
  neighborsAt : f.neighborsAt = at_
  only : ∀ l e, s.element l = .ok e → e.neighborsAt = at_ → l = k

section
variable {t : Header} {s : Store} (h : s.Intact t) {p : Params}
include h

theorem Store.Intact.owner {at_ : Location} {a : Adjacency}
    (ha : s.record? at_ = some (.adjacency a)) : ∃ k f, s.Owner at_ k f ∧
      a.slots.length = Adjacency.slotCount f.level.toNat t.m.toNat := by
  obtain ⟨k, f, hf, hat⟩ := h.paired.owned at_ a ha
  refine ⟨k, f, ⟨(s.element_eq_ok k f).mpr hf, hat, fun l e he heat => ?_⟩, ?_⟩
  · exact h.paired.apart l k e f ((s.element_eq_ok l e).mp he) hf (heat.trans hat.symm)
  · obtain ⟨b, hb, hlen⟩ := h.paired.resolves k f hf
    rw [hat, ha] at hb
    cases hb
    exact hlen

theorem inLayer_of_connection (hm : p.m = t.m.toNat) {d : Draft} {l : Location} {layer : Nat}
    {c : Connection} (hc : s.connection? p d l layer = .ok (some c)) {b : Adjacency} {i : Nat}
    (hi : c.slot? p.m layer b = some i) : InLayer c.level p.m layer i := by
  cases he : s.element l with
  | error e =>
    rw [Store.connection?, he] at hc
    cases hc
  | ok e =>
    rw [Store.element_eq_ok] at he
    obtain ⟨a, ha, hlen⟩ := h.paired.resolves l e he
    rw [← hm] at hlen
    rcases connection?_cases p d layer he ha hlen with
      ⟨hnone, -⟩ | ⟨hlayer, -, place, hsome, hplace⟩ | ⟨herror, -⟩
    · cases hnone.symm.trans hc
    · obtain rfl := Option.some.inj (Except.ok.inj (hsome.symm.trans hc))
      rcases hplace with ⟨rfl, -⟩ | ⟨offset, rfl, hoffset, -⟩
      · exact (slot?_unused hlayer).1 i hi
      · obtain rfl := Option.some.inj hi
        exact ⟨hlayer, Nat.le_add_right _ _, Nat.add_lt_add_left hoffset _⟩
    · cases herror.symm.trans hc

theorem writeLink_cases (hm : p.m = t.m.toNat) (target : Location) (c : Connection) (layer : Nat) :
    (writeLink p target c layer).after s = s ∨ ∃ s' k f a i,
      writeLink p target c layer s = .ok () s' ∧ s.Owner c.neighborsAt k f ∧
      s.adjacency c.neighborsAt = .ok a ∧ c.slot? p.m layer a = some i ∧
      s.SlotSet s' c.neighborsAt a i target ∧ i < Adjacency.slotCount f.level.toNat p.m := by
  by_cases hrecord : ∃ a, s.record? c.neighborsAt = some (.adjacency a)
  · obtain ⟨a, ha⟩ := hrecord
    rcases writeLink_rewritten h p target c layer a ha with ⟨hkept, -⟩ | ⟨i, -, hi, hlt, -⟩
    · exact .inl (by rw [Action.after, hkept])
    · obtain ⟨s', hrun, hset⟩ := writeLink_slotSet h p target c layer ha hi hlt
      obtain ⟨k, f, howner, hlen⟩ := h.owner ha
      rw [← hm] at hlen
      exact .inr ⟨s', k, f, a, i, hrun, howner, (s.adjacency_eq_ok _ a).mpr ha, hi, hset,
        hlen ▸ hlt⟩
  · obtain ⟨e, herror⟩ := writeLink_no_adjacency h p target c layer (not_exists.mp hrecord)
    exact .inl (by rw [Action.after, herror])

end

/-- Whatever several writers have done with an index that was opened empty: one of them has looked at
a neighbor, others have done any work, and now he writes the link. Then the store stays as it is, or
one slot changes in the record of the element that owns it now. The slot belongs to the layer in which
the element was to have the link if it is on the level that was seen, or on the level beside that and
the slot is one that the lowest layers of both levels have in common. -/
theorem late_link {path : String} {dimensions : UInt32} {o : Options} {file file' : FileState}
    {ix : Index} {s₀ : Store} (hblank : file.isBlank = true)
    (hopen : Index.openFile path dimensions o file = (.ok (ix, s₀), file')) {s : Store}
    {ws : List Writer} (hreach : Reaches ix.params ix.dimensions s₀ ⟨s, ws⟩) {d : Draft}
    {l : Location} {layer : Nat} {c : Connection}
    (hc : s.connection? ix.params d l layer = .ok (some c)) {s' : Store} {ws' : List Writer}
    (hlater : Reaches ix.params ix.dimensions s ⟨s', ws'⟩) :
    (writeLink ix.params d.location c layer).after s' = s' ∨ ∃ s'' k f a i,
      writeLink ix.params d.location c layer s' = .ok () s'' ∧ s'.Owner c.neighborsAt k f ∧
      s'.adjacency c.neighborsAt = .ok a ∧ s'.SlotSet s'' c.neighborsAt a i d.location ∧
      (InLayer f.level.toNat ix.params.m layer i ↔ f.level.toNat = c.level ∨
        layer = 0 ∧ (f.level.toNat + 1 = c.level ∨
          f.level.toNat = c.level + 1 ∧ f.level.toNat * ix.params.m ≤ i)) := by
  obtain ⟨hopened, -⟩ := Index.opened_of_blank hblank hopen
  have hm := hopened.m_eq
  rw [hopened.width] at hreach hlater
  have hintact := (hreach.sound hm hopened.intact).intact
  have hintact' := (hlater.sound hm hintact).intact
  refine (writeLink_cases hintact' hm d.location c layer).imp_right ?_
  rintro ⟨s'', k, f, a, i, hrun, howner, ha, hi, hset, hlt⟩
  exact ⟨s'', k, f, a, i, hrun, howner, ha, hset,
    (inLayer_of_connection hintact hm hc hi).relevel_iff hlt⟩

namespace Index

section
variable {s : Store} {e : Element} (h : HasBoth s e)
include h

theorem HasBoth.mem_of_link {k l : Location} {a : Adjacency}
    (ha : s.record? k = some (.adjacency a)) (hl : l ∈ a.slots) (hused : l.isUsed = true) :
    l ∈ [⟨1, 0⟩, ⟨1, 2⟩] := by
  obtain ⟨f, hf⟩ := h.settled.navigable.links k a ha l hl hused
  rcases (h.elements l f).mp hf with ⟨rfl, -⟩ | ⟨rfl, -⟩
  · exact List.mem_cons_self
  · exact List.mem_cons_of_mem _ List.mem_cons_self

theorem HasBoth.few_links {dimensions : UInt32} {o : Options} {ix : Index}
    (hhistory : History dimensions o ix s) {a : Adjacency}
    (ha : s.record? e.neighborsAt = some (.adjacency a)) (layer : Nat) :
    (a.layer e.level.toNat layer o.m.toNat).length ≤ 2 := by
  have hnodup := hhistory.distinct _ e a h.atFirst ha layer
  have hsub : a.layer e.level.toNat layer o.m.toNat ⊆ [⟨1, 0⟩, ⟨1, 2⟩] := by
    intro l hl
    obtain ⟨hused, i, -, hi⟩ := Adjacency.mem_layer.mp hl
    exact h.mem_of_link ha (List.mem_of_getElem? hi) hused
  exact (hnodup.subperm hsub).length_le

end

theorem slot?_few {a : Adjacency} (at_ : Location) (hlen : a.slots.length = 32)
    (hfew : (a.layer 0 0 16).length ≤ 2) :
    ∃ i < 16, Connection.slot? ⟨at_, 1, .unused⟩ 16 1 a = some i := by
  have hlayer : a.layer 0 0 16 = a.slots.filter Location.isUsed := by
    have hall : a.segment 0 0 16 = a.slots := by
      rw [Adjacency.segment_eq (Nat.le_refl 0)]
      exact List.take_of_length_le (Nat.le_of_eq hlen)
    rw [Adjacency.layer, hall]
  have hfound : Connection.slot? ⟨at_, 1, .unused⟩ 16 1 a ≠ none := by
    intro hnone
    have hall : ∀ k ∈ a.slots.take 16, k.isUsed = true := by
      intro k hk
      obtain ⟨i, hlt, rfl⟩ := List.mem_take_iff_getElem.mp hk
      have hused := List.find?_eq_none.mp hnone i
        (List.mem_range'_1.mpr ⟨Nat.zero_le i, Nat.lt_of_lt_of_le hlt (Nat.min_le_left _ _)⟩)
      simpa [Nat.lt_of_lt_of_le hlt (Nat.min_le_right _ _)] using hused
    have hmany := ((List.take_sublist 16 a.slots).filter Location.isUsed).length_le
    rw [List.filter_eq_self.mpr hall, List.length_take, hlen, ← hlayer] at hmany
    omega
  obtain ⟨i, hi⟩ := Option.ne_none_iff_exists'.mp hfound
  exact ⟨i, (List.mem_range'_1.mp (List.mem_of_find?_eq_some hi)).2, hi⟩

theorem HasBoth.connects {s : Store} (h : HasBoth s first)
    (hhistory : History 900 Options.standard wide s) {d : Draft} (hd : d.location = ⟨2, 0⟩) :
    s.connection? wide.params d ⟨1, 0⟩ 1 = .ok (some ⟨⟨1, 1⟩, 1, .unused⟩) := by
  obtain ⟨a, ha, hlen⟩ := h.settled.intact.paired.resolves _ _ h.atFirst
  have hfew : (a.layer first.level.toNat 1 wide.params.m).length ≤ 2 :=
    h.few_links hhistory ha 1
  have hel : Eligible first a wide.params.m 1 d.location := by
    refine ⟨rfl, by decide, fun hmem => ?_⟩
    obtain ⟨i, -, hi⟩ := Adjacency.mem_segment.mp hmem
    rw [hd] at hi
    exact absurd (h.mem_of_link ha (List.mem_of_getElem? hi) (by decide)) (by decide)
  rw [connection?_eligible h.atFirst ha hlen hel,
    if_pos (Nat.lt_of_le_of_lt hfew (show 2 < layerCapacity wide.params.m 1 by decide))]
  rfl

theorem HasBoth.misplaced {s : Store} (h : HasBoth s third)
    (hhistory : History 900 Options.standard wide s) :
    (writeLink wide.params ⟨2, 0⟩ ⟨⟨1, 1⟩, 1, .unused⟩ 1).after s ≠ s := by
  obtain ⟨a, ha, hlen⟩ := h.settled.intact.paired.resolves _ _ h.atFirst
  obtain ⟨i, hi, hslot⟩ := slot?_few ⟨1, 1⟩ hlen (h.few_links hhistory ha 0)
  obtain ⟨s', hrun, hset⟩ := writeLink_slotSet h.settled.intact wide.params ⟨2, 0⟩
    ⟨⟨1, 1⟩, 1, .unused⟩ 1 ha hslot (by rw [hlen]; exact Nat.lt_trans hi (by decide))
  rw [Action.after_ok hrun]
  rintro rfl
  -- No link has led to that place before.
  have hsame := hset.record.symm.trans ((s'.adjacency_eq_ok _ a).mpr ha)
  have hmem : ⟨2, 0⟩ ∈ a.slots := by
    rw [← congrArg Adjacency.slots (Except.ok.inj hsame)]
    exact List.mem_set hset.lt _
  exact absurd (h.mem_of_link ha hmem (by decide)) (by decide)

end Index

section
open Index

/-- An element on level 1 is to have a link on layer 1. Before it is written, others delete the
element and store one on level 0 in its place. The link goes to a slot of that one, which does not
reach the layer. -/
theorem late_link_misplaced : ∃ (d : Draft) (s s' s'' : Store) (c : Connection) (k : Location)
    (f : Element) (a : Adjacency) (i : Nat),
    Reaches wide.params wide.dimensions (Store.fresh (template 900 Options.standard)) ⟨s, []⟩ ∧
    s.connection? wide.params d ⟨1, 0⟩ 1 = .ok (some c) ∧
    Reaches wide.params wide.dimensions s ⟨s', []⟩ ∧
    writeLink wide.params d.location c 1 s' = .ok () s'' ∧
    s'.Owner c.neighborsAt k f ∧ s'.adjacency c.neighborsAt = .ok a ∧
    s'.SlotSet s'' c.neighborsAt a i d.location ∧ ¬InLayer f.level.toNat wide.params.m 1 i := by
  obtain ⟨s, s', hboth, hreused, ⟨hhistory, hhistory'⟩, hreach, hlater⟩ := reused_wide
  have hd : { Draft.new 1 (plain 2) 9 with location := ⟨2, 0⟩ }.location = ⟨2, 0⟩ := rfl
  generalize { Draft.new 1 (plain 2) 9 with location := ⟨2, 0⟩ } = d at hd
  have hc := hboth.connects hhistory hd
  have hblank : FileState.absent.isBlank = true := rfl
  rcases late_link hblank (openFile_blank checkOptions_wide "index" .absent hblank) hreach hc hlater
    with hsame | ⟨s'', k, f, a, i, hrun, howner, ha, hset, hiff⟩
  · rw [hd] at hsame
    exact absurd hsame (hreused.misplaced hhistory')
  · refine ⟨d, s, s', s'', _, k, f, a, i, hreach, hc, hlater, hrun, howner, ha, hset, ?_⟩
    have hthird : s'.element ⟨1, 0⟩ = .ok third := (s'.element_eq_ok _ _).mpr hreused.atFirst
    obtain rfl := howner.only _ _ hthird rfl
    obtain rfl := Except.ok.inj (hthird.symm.trans howner.element)
    refine mt hiff.mp ?_
    rintro (hlevel | ⟨hlayer, -⟩)
    · exact absurd hlevel (by decide)
    · exact absurd hlayer (by decide)

end

end PagedGraph
