import PagedGraph.Proofs.Searching
import PagedGraph.Proofs.Updates

/-!
# Links in a layer

A neighbor record has one segment of slots per layer, and no slot belongs to two layers. `Link` says
that the element at a location has a link to another location in a layer.

When a stored draft is linked to its candidates, links come only to the draft, only in the lists of
the candidates, and only in the layers for which they were chosen; links that give way are replaced
by one to the draft (`Gains`). A candidate that is alive and reaches the layer has a link there
afterwards. All this goes through if the candidates and what they have links to are elements
(`Explored`); a link to a slot that the page has no room for would end the call.
-/

set_option autoImplicit false

namespace PagedGraph

def InLayer (level m layer i : Nat) : Prop :=
  layer ≤ level ∧ (level - layer) * m ≤ i ∧ i < (level - layer) * m + layerCapacity m layer

theorem le_layerCapacity (m layer : Nat) : m ≤ layerCapacity m layer := by
  rw [layerCapacity]
  split <;> omega

theorem layerCapacity_pos {m : Nat} (hm : 0 < m) (layer : Nat) : 0 < layerCapacity m layer :=
  Nat.lt_of_lt_of_le hm (le_layerCapacity m layer)

theorem InLayer.lt {level m layer i : Nat} (h : InLayer level m layer i) :
    i < Adjacency.slotCount level m := by
  obtain ⟨hle, -, hlt⟩ := h
  rw [layerCapacity] at hlt
  rw [Adjacency.slotCount]
  by_cases hzero : layer = 0
  · rw [if_pos hzero, hzero, Nat.sub_zero, ← Nat.add_mul] at hlt
    exact hlt
  · rw [if_neg hzero] at hlt
    have hbelow : (level - layer) * m + m ≤ (level + 2) * m := by
      rw [← Nat.succ_mul]
      exact Nat.mul_le_mul_right m (by omega)
    omega

/-- Segments of higher layers come first, so no slot belongs to two layers. -/
theorem InLayer.not_above {level m layer above i : Nat} (h : InLayer level m layer i)
    (habove : layer < above) : ¬InLayer level m above i := by
  rintro ⟨hle, -, hlt⟩
  rw [layerCapacity, if_neg (by omega)] at hlt
  have hbefore : (level - above) * m + m ≤ (level - layer) * m := by
    rw [← Nat.succ_mul]
    exact Nat.mul_le_mul_right m (by omega)
  have hstart := h.2.1
  omega

theorem InLayer.unique {level m layer layer' i : Nat} (h : InLayer level m layer i)
    (h' : InLayer level m layer' i) : layer = layer' := by
  rcases Nat.lt_trichotomy layer layer' with hlt | heq | hgt
  · exact absurd h' (h.not_above hlt)
  · exact heq
  · exact absurd h (h'.not_above hgt)

theorem exists_inLayer {level m i : Nat} (hi : i < Adjacency.slotCount level m) :
    ∃ layer, InLayer level m layer i := by
  rw [Adjacency.slotCount] at hi
  by_cases hbottom : level * m ≤ i
  · refine ⟨0, Nat.zero_le _, hbottom, ?_⟩
    rw [layerCapacity, if_pos rfl, Nat.sub_zero, ← Nat.add_mul]
    exact hi
  · have hpos : 0 < m := Nat.pos_of_ne_zero fun hzero => hbottom (by rw [hzero, Nat.mul_zero]; omega)
    have hdiv := Nat.div_add_mod i m
    rw [Nat.mul_comm] at hdiv
    have hmod := Nat.mod_lt i hpos
    have hlevel : i / m < level := (Nat.div_lt_iff_lt_mul hpos).mpr (by omega)
    refine ⟨level - i / m, Nat.sub_le _ _, ?_⟩
    rw [Nat.sub_sub_self (Nat.le_of_lt hlevel)]
    have hcapacity := le_layerCapacity m (level - i / m)
    omega

namespace Adjacency

variable {a : Adjacency} {level m layer : Nat} {k : Location}

theorem segment_eq (h : layer ≤ level) : a.segment level layer m =
    (a.slots.drop ((level - layer) * m)).take (layerCapacity m layer) := by
  rw [segment, layerRange, if_neg (Nat.not_lt.mpr h)]
  simp only [Nat.add_sub_cancel_left]

theorem mem_segment : k ∈ a.segment level layer m ↔
    ∃ i, InLayer level m layer i ∧ a.slots[i]? = some k := by
  by_cases h : layer ≤ level
  · rw [segment_eq h, List.mem_iff_getElem?]
    constructor
    · rintro ⟨j, hj⟩
      by_cases hlt : j < layerCapacity m layer
      · rw [List.getElem?_take_of_lt hlt, List.getElem?_drop] at hj
        exact ⟨_, ⟨h, Nat.le_add_right _ _, Nat.add_lt_add_left hlt _⟩, hj⟩
      · rw [List.getElem?_take_eq_none (Nat.not_lt.mp hlt)] at hj
        cases hj
    · rintro ⟨i, ⟨-, hle, hlt⟩, hi⟩
      refine ⟨i - (level - layer) * m, ?_⟩
      rw [List.getElem?_take_of_lt (by omega), List.getElem?_drop, Nat.add_sub_cancel' hle]
      exact hi
  · constructor
    · intro hk
      rw [segment, layerRange, if_pos (Nat.not_le.mp h)] at hk
      exact absurd hk (by simp)
    · rintro ⟨i, ⟨hle, -⟩, -⟩
      exact absurd hle h

theorem mem_layer : k ∈ a.layer level layer m ↔
    k.isUsed = true ∧ ∃ i, InLayer level m layer i ∧ a.slots[i]? = some k := by
  rw [Adjacency.layer, List.mem_filter, mem_segment, and_comm]

theorem length_segment (hlen : a.slots.length = slotCount level m) (h : layer ≤ level) :
    (a.segment level layer m).length = layerCapacity m layer := by
  rw [segment_eq h, List.length_take, List.length_drop, hlen]
  apply Nat.min_eq_left
  by_cases hm : layerCapacity m layer = 0
  · rw [hm]
    exact Nat.zero_le _
  · have hlast : InLayer level m layer
        ((level - layer) * m + (layerCapacity m layer - 1)) := ⟨h, by omega, by omega⟩
    have := hlast.lt
    omega

theorem mem_layer_set {i : Nat} {new : Location} (layer' : Nat) (hi : InLayer level m layer i)
    (hlt : i < a.slots.length) (hnew : new.isUsed = true) :
    (layer' ≠ layer → (k ∈ (Adjacency.mk (a.slots.set i new)).layer level layer' m ↔
      k ∈ a.layer level layer' m)) ∧
    new ∈ (Adjacency.mk (a.slots.set i new)).layer level layer m ∧
    (k ∈ (Adjacency.mk (a.slots.set i new)).layer level layer m →
      k = new ∨ k ∈ a.layer level layer m) := by
  refine ⟨fun hother => ?_, ?_, fun hk => ?_⟩
  · rw [mem_layer, mem_layer]
    refine and_congr_right fun _ => exists_congr fun j => and_congr_right fun hj => ?_
    have hne : i ≠ j := fun heq => hother (hj.unique (heq ▸ hi))
    rw [List.getElem?_set_ne hne]
  · exact mem_layer.mpr ⟨hnew, i, hi, List.getElem?_set_self hlt⟩
  · obtain ⟨hused, j, hj, hget⟩ := mem_layer.mp hk
    by_cases hij : i = j
    · subst hij
      rw [List.getElem?_set_self hlt] at hget
      exact .inl (Option.some.inj hget).symm
    · rw [List.getElem?_set_ne hij] at hget
      exact .inr (mem_layer.mpr ⟨hused, j, hj, hget⟩)

end Adjacency

namespace Store

def Link (s : Store) (m layer : Nat) (l k : Location) : Prop :=
  ∃ e a, s.record? l = some (.element e) ∧ s.record? e.neighborsAt = some (.adjacency a) ∧
    k ∈ a.layer e.level.toNat layer m

variable {t : Header} {s s' s'' : Store} {m layer : Nat} {l k : Location} {e : Element}
  {a : Adjacency}

theorem link_iff (he : s.record? l = some (.element e))
    (ha : s.record? e.neighborsAt = some (.adjacency a)) :
    s.Link m layer l k ↔ k ∈ a.layer e.level.toNat layer m := by
  constructor
  · rintro ⟨f, b, hf, hb, hk⟩
    obtain rfl : e = f := by
      have := hf.symm.trans he
      cases this
      rfl
    obtain rfl : a = b := by
      have := hb.symm.trans ha
      cases this
      rfl
    exact hk
  · exact fun hk => ⟨e, a, he, ha, hk⟩

theorem neighbors_link (h : s.Intact t) (m layer : Nat) (he : s.record? l = some (.element e)) :
    ∃ ls, s.neighbors m e layer = .ok ls ∧ ∀ k, k ∈ ls ↔ s.Link m layer l k := by
  obtain ⟨a, ha, -⟩ := h.paired.resolves l e he
  rw [neighbors]
  by_cases hhigh : e.level.toNat < layer
  · rw [if_pos hhigh]
    refine ⟨[], rfl, fun k => ?_⟩
    rw [link_iff he ha, Adjacency.mem_layer]
    constructor
    · exact fun hk => nomatch hk
    · rintro ⟨-, i, ⟨hle, -⟩, -⟩
      exact absurd hle (Nat.not_le.mpr hhigh)
  · rw [if_neg hhigh, (s.adjacency_eq_ok _ a).mpr ha]
    exact ⟨_, rfl, fun k => (link_iff he ha).symm⟩

theorem link_of_neighbors {m : Nat} {l k : Location} {e : Element} {ls : List Location}
    (he : s.element l = .ok e) (hls : s.neighbors m e layer = .ok ls) (hk : k ∈ ls) :
    s.Link m layer l k := by
  rw [neighbors] at hls
  by_cases hhigh : e.level.toNat < layer
  · rw [if_pos hhigh] at hls
    rw [← Except.ok.inj hls] at hk
    cases hk
  · rw [if_neg hhigh] at hls
    cases ha : s.adjacency e.neighborsAt with
    | error c =>
      rw [ha] at hls
      cases hls
    | ok a =>
      rw [ha] at hls
      rw [← Except.ok.inj hls] at hk
      exact ⟨e, a, (s.element_eq_ok l e).mp he, (s.adjacency_eq_ok _ a).mp ha, hk⟩

/-- New links lead to `new` and are found where `P` allows them, and what gives way there makes room
for such a link. Everywhere else all links are as they were. -/
def Gains (m : Nat) (new : Location) (P : Nat → Location → Prop) (s s' : Store) : Prop :=
  ∀ layer l, (∀ k, s'.Link m layer l k ↔ s.Link m layer l k) ∨
    P layer l ∧ s'.Link m layer l new ∧ ∀ k, s'.Link m layer l k → k = new ∨ s.Link m layer l k

variable {new : Location} {P : Nat → Location → Prop}

theorem Gains.refl (m : Nat) (new : Location) (P : Nat → Location → Prop) (s : Store) :
    Gains m new P s s :=
  fun _ _ => .inl fun _ => Iff.rfl

theorem Gains.trans (h : Gains m new P s s') (h' : Gains m new P s' s'') :
    Gains m new P s s'' := by
  intro layer l
  rcases h layer l with hsame | ⟨hp, hnew, hlinks⟩
  · rcases h' layer l with hsame' | ⟨hp', hnew', hlinks'⟩
    · exact .inl fun k => (hsame' k).trans (hsame k)
    · exact .inr ⟨hp', hnew', fun k hk => (hlinks' k hk).imp_right (hsame k).mp⟩
  · rcases h' layer l with hsame' | ⟨-, hnew', hlinks'⟩
    · exact .inr ⟨hp, (hsame' new).mpr hnew, fun k hk => hlinks k ((hsame' k).mp hk)⟩
    · refine .inr ⟨hp, hnew', fun k hk => ?_⟩
      rcases hlinks' k hk with heq | hold
      · exact .inl heq
      · exact hlinks k hold

theorem Gains.mono {Q : Nat → Location → Prop} (h : Gains m new P s s')
    (hPQ : ∀ layer l, P layer l → Q layer l) : Gains m new Q s s' :=
  fun layer l => (h layer l).imp_right fun ⟨hp, hrest⟩ => ⟨hPQ layer l hp, hrest⟩

theorem Gains.some (h : Gains m new P s s') (hl : ∃ k, s.Link m layer l k) :
    ∃ k, s'.Link m layer l k := by
  rcases h layer l with hsame | ⟨-, hnew, -⟩
  · obtain ⟨k, hk⟩ := hl
    exact ⟨k, (hsame k).mpr hk⟩
  · exact ⟨new, hnew⟩

theorem Gains.back (h : Gains m new P s s') (hk : s'.Link m layer l k) :
    s.Link m layer l k ∨ k = new ∧ P layer l := by
  rcases h layer l with hsame | ⟨hp, -, hlinks⟩
  · exact .inl ((hsame k).mp hk)
  · exact (hlinks k hk).elim (fun heq => .inr ⟨heq, hp⟩) .inl

theorem Gains.other (h : Gains m new P s s') (hl : ¬P layer l) :
    s'.Link m layer l k ↔ s.Link m layer l k := by
  rcases h layer l with hsame | ⟨hp, -⟩
  · exact hsame k
  · exact absurd hp hl

theorem Gains.of_record (h : s'.record? = s.record?) : Gains m new P s s' :=
  fun layer l => .inl fun k => by rw [Link, Link, h]

theorem Rewritten.gains (h : s.Intact t) (he : s.record? l = some (.element e))
    (ha : s.record? e.neighborsAt = some (.adjacency a)) {i : Nat}
    (hrew : Rewritten s s' e.neighborsAt (.adjacency ⟨a.slots.set i new⟩))
    (hi : InLayer e.level.toNat m layer i) (hlt : i < a.slots.length) (hnew : new.isUsed = true) :
    Gains m new (fun layer' l' => layer' = layer ∧ l' = l) s s' ∧ s'.Link m layer l new := by
  have helement : ∀ k f, s'.record? k = some (.element f) ↔ s.record? k = some (.element f) := by
    intro k f
    rw [hrew.record]
    by_cases hk : k = e.neighborsAt
    · subst hk
      rw [putRecord_self, ha]
      constructor <;> (intro heq; cases heq)
    · rw [putRecord_of_ne _ _ hk]
  have hown : s'.record? e.neighborsAt = some (.adjacency ⟨a.slots.set i new⟩) := by
    rw [hrew.record, putRecord_self]
  have he' := (helement l e).mpr he
  have hset := fun layer' k => Adjacency.mem_layer_set (k := k) layer' hi hlt hnew
  refine ⟨fun layer' l' => ?_, (link_iff he' hown).mpr (hset layer new).2.1⟩
  by_cases hl : l' = l
  · subst hl
    by_cases hlayer : layer' = layer
    · subst hlayer
      refine .inr ⟨⟨rfl, rfl⟩, (link_iff he' hown).mpr (hset layer' new).2.1, fun k hk => ?_⟩
      rw [link_iff he' hown] at hk
      rw [link_iff he ha]
      exact (hset layer' k).2.2 hk
    · refine .inl fun k => ?_
      rw [link_iff he' hown, link_iff he ha]
      exact (hset layer' k).1 hlayer
  · -- Other elements have other neighbor records.
    refine .inl fun k => exists_congr fun f => exists_congr fun b => ?_
    rw [helement]
    refine and_congr_right fun hf => ?_
    have hne : f.neighborsAt ≠ e.neighborsAt := fun heq => hl (h.paired.apart l' l f e hf he heq)
    rw [hrew.record, putRecord_of_ne _ _ hne]

end Store

namespace Store

variable {t : Header} {s s' : Store} {m layer : Nat} {new : Location} {P : Nat → Location → Prop}
  {cs : List Candidate}

def Occupied (s : Store) (cs : List Candidate) : Prop :=
  ∀ c ∈ cs, ∃ e, s.record? c.location = some (.element e)

theorem AllLive.occupied {lists : List (List Candidate)} (h : s.AllLive lists) (i : Nat) :
    s.Occupied (lists.getD i []) :=
  fun c hc => (h.layer i c hc).imp fun _ hf => hf.1

theorem Kept.occupied (h : Kept t s s') {cs : List Candidate} (hcs : s.Occupied cs) :
    s'.Occupied cs := by
  intro c hc
  obtain ⟨e, he⟩ := hcs c hc
  exact ⟨e, (h.element _ e).mpr he⟩

def Explored (s : Store) (m layer : Nat) (cs : List Candidate) : Prop :=
  ∀ c ∈ cs, (∃ e, s.record? c.location = some (.element e)) ∧
    ∀ k, s.Link m layer c.location k → ∃ e, s.record? k = some (.element e)

theorem Explored.of_record (h : s'.record? = s.record?) (hcs : s.Explored m layer cs) :
    s'.Explored m layer cs := by
  intro c hc
  obtain ⟨he, hlinks⟩ := hcs c hc
  rw [h]
  refine ⟨he, fun k hk => hlinks k ?_⟩
  rwa [Link, h] at hk

theorem Kept.explored (h : Kept t s s') (hgains : Gains m new P s s')
    (hnew : ∃ e, s.record? new = some (.element e)) (hcs : s.Explored m layer cs) :
    s'.Explored m layer cs := by
  have hstays : ∀ {l}, (∃ e, s.record? l = some (.element e)) →
      ∃ e, s'.record? l = some (.element e) :=
    fun ⟨e, he⟩ => ⟨e, (h.element _ e).mpr he⟩
  intro c hc
  obtain ⟨he, hlinks⟩ := hcs c hc
  refine ⟨hstays he, fun k hk => hstays ?_⟩
  rcases hgains.back hk with hold | ⟨rfl, -⟩
  · exact hlinks k hold
  · exact hnew

def found? (s : Store) (l : Location) : Option Element :=
  match s.element l with
  | .ok e => if e.deleted then none else some e
  | .error _ => none

theorem liveElement?_cases (s : Store) (l : Location) :
    s.element l = .error .outsidePage ∧ s.liveElement? l = .error .outsidePage ∨
      s.element l ≠ .error .outsidePage ∧ s.liveElement? l = .ok (s.found? l) := by
  rw [liveElement?, found?]
  cases s.element l with
  | ok e => exact .inr ⟨nofun, rfl⟩
  | error c =>
    by_cases hc : c = .outsidePage
    · subst hc
      exact .inl ⟨rfl, rfl⟩
    · refine .inr ⟨fun h => hc (Except.error.inj h), ?_⟩
      cases c <;> first | rfl | exact absurd rfl hc

theorem mapM_liveElement? {β : Type} (f : Location → Option Element → β) (ls : List Location) :
    ((∃ l ∈ ls, s.element l = .error .outsidePage) ∧
      ls.mapM (fun l => (s.liveElement? l).map (f l)) = .error .outsidePage) ∨
    (∀ l ∈ ls, s.element l ≠ .error .outsidePage) ∧
      ls.mapM (fun l => (s.liveElement? l).map (f l)) = .ok (ls.map fun l => f l (s.found? l)) := by
  induction ls with
  | nil => exact .inr ⟨fun l hl => (nomatch hl), rfl⟩
  | cons l ls ih =>
    rw [List.mapM_cons]
    rcases s.liveElement?_cases l with ⟨hout, hread⟩ | ⟨hout, hread⟩
    · rw [hread]
      exact .inl ⟨⟨l, List.mem_cons_self, hout⟩, rfl⟩
    · rw [hread]
      rcases ih with ⟨⟨k, hk, hover⟩, hrest⟩ | ⟨hin, hrest⟩
      · refine .inl ⟨⟨k, List.mem_cons_of_mem l hk, hover⟩, ?_⟩
        rw [hrest]
        rfl
      · refine .inr ⟨List.forall_mem_cons.mpr ⟨hout, hin⟩, ?_⟩
        rw [hrest]
        rfl

def knownDistance (s : Store) (metric : Metric) (owner : Embedding) (l : Location) : FloatBits :=
  match s.found? l with
  | some e => metric.distance owner e.vector
  | none => FloatBits.infinity

theorem mapM_entryDistance (s : Store) (metric : Metric) (owner : Embedding) (ls : List Location) :
    ((∃ l ∈ ls, s.element l = .error .outsidePage) ∧
      ls.mapM (s.entryDistance metric owner) = .error .outsidePage) ∨
    (∀ l ∈ ls, s.element l ≠ .error .outsidePage) ∧
      ls.mapM (s.entryDistance metric owner) = .ok (ls.map (s.knownDistance metric owner)) :=
  mapM_liveElement? (fun _ found => match found with
    | some e => metric.distance owner e.vector
    | none => FloatBits.infinity) ls

end Store

theorem foldl_picks {f : Option (Nat × FloatBits) → FloatBits × Nat → Option (Nat × FloatBits)}
    (hf : ∀ best y x, f best y = some x → best = some x ∨ x.1 = y.2) (ys : List (FloatBits × Nat)) :
    ∀ (best : Option (Nat × FloatBits)) (x : Nat × FloatBits), ys.foldl f best = some x →
      best = some x ∨ ∃ y ∈ ys, x.1 = y.2 := by
  induction ys with
  | nil => exact fun best x hx => .inl hx
  | cons y rest ih =>
    intro best x hx
    rcases ih _ x hx with hbest | ⟨z, hz, hxz⟩
    · rcases hf best y x hbest with hbest | hxy
      · exact .inl hbest
      · exact .inr ⟨y, List.mem_cons_self, hxy⟩
    · exact .inr ⟨z, List.mem_cons_of_mem y hz, hxz⟩

theorem farthest_lt {distances : List FloatBits} {offset : Nat} {worst : FloatBits}
    (h : Store.farthest distances = some (offset, worst)) : offset < distances.length := by
  rw [Store.farthest] at h
  refine (foldl_picks (fun best y x hx => ?_) _ _ _ h).elim (fun hnone => ?_) ?_
  · cases best with
    | none =>
      obtain rfl := Option.some.inj hx
      exact .inr rfl
    | some w =>
      simp only at hx
      split at hx
      · obtain rfl := Option.some.inj hx
        exact .inr rfl
      · exact .inl hx
  · cases hnone
  · rintro ⟨y, hy, hoffset⟩
    have hlt := List.snd_lt_of_mem_zipIdx hy
    rwa [Nat.add_zero, ← hoffset] at hlt

section
variable {s : Store} (p : Params) (d : Draft) {l : Location} (layer : Nat) {e : Element}
  {a : Adjacency} (he : s.record? l = some (.element e))
  (ha : s.record? e.neighborsAt = some (.adjacency a))
include he ha

/-- A candidate that reaches the layer refuses a link only if it is deleted, has the link, or has a
full list. Otherwise it does not have the link, which replaces another one or goes to an unused
slot, unless an entry of a full list lies outside of its page. -/
theorem connection?_cases (hlen : a.slots.length = Adjacency.slotCount e.level.toNat p.m) :
    s.connection? p d l layer = .ok none ∧ (e.deleted = true ∨ e.level.toNat < layer ∨
        d.location ∈ a.segment e.level.toNat layer p.m ∨
        p.capacity layer ≤ (a.layer e.level.toNat layer p.m).length) ∨
    (layer ≤ e.level.toNat ∧ d.location ∉ a.segment e.level.toNat layer p.m ∧
      ∃ place, s.connection? p d l layer = .ok (some ⟨e.neighborsAt, e.level.toNat, place⟩) ∧
      ((place = .unused ∧ (a.layer e.level.toNat layer p.m).length < p.capacity layer) ∨
        ∃ offset, place = .at offset ∧ offset < layerCapacity p.m layer ∧
          p.capacity layer ≤ (a.layer e.level.toNat layer p.m).length)) ∨
    s.connection? p d l layer = .error .outsidePage ∧
      ∃ k, s.Link p.m layer l k ∧ s.element k = .error .outsidePage := by
  simp only [Store.connection?, (s.element_eq_ok l e).mpr he, (s.adjacency_eq_ok _ a).mpr ha]
  by_cases hno : e.deleted = true ∨ e.level.toNat < layer
  · rw [if_pos hno]
    exact .inl ⟨rfl, hno.elim .inl fun hlow => .inr (.inl hlow)⟩
  · rw [if_neg hno]
    have hlayer : layer ≤ e.level.toNat := Nat.not_lt.mp fun hlt => hno (.inr hlt)
    have hlength := Adjacency.length_segment hlen hlayer
    have hcapacity : p.capacity layer = layerCapacity p.m layer := rfl
    by_cases hmem : d.location ∈ a.segment e.level.toNat layer p.m
    · rw [if_pos (.inr hmem)]
      exact .inl ⟨rfl, .inr (.inr (.inl hmem))⟩
    · have hgo : ¬((a.segment e.level.toNat layer p.m).length < p.capacity layer ∨
          d.location ∈ a.segment e.level.toNat layer p.m) := by
        rw [hlength, hcapacity]
        exact fun hor => hor.elim (Nat.lt_irrefl _) hmem
      rw [if_neg hgo]
      have hused : a.layer e.level.toNat layer p.m =
        (a.segment e.level.toNat layer p.m).filter Location.isUsed := rfl
      rw [hused]
      by_cases hroom : ((a.segment e.level.toNat layer p.m).filter Location.isUsed).length <
          p.capacity layer
      · rw [if_pos hroom]
        exact .inr (.inl ⟨hlayer, hmem, .unused, rfl, .inl ⟨rfl, hroom⟩⟩)
      · rw [if_neg hroom]
        have hfull := Nat.not_lt.mp hroom
        rcases s.mapM_entryDistance p.metric e.vector (a.segment e.level.toNat layer p.m) with
          ⟨⟨k, hk, hover⟩, hread⟩ | ⟨-, hread⟩
        · -- All slots of a full segment are used, so what cannot be read is a link.
          have hall : (a.segment e.level.toNat layer p.m).filter Location.isUsed =
              a.segment e.level.toNat layer p.m := by
            rw [hcapacity, ← hlength] at hfull
            exact List.filter_sublist.eq_of_length_le hfull
          refine .inr (.inr ⟨by rw [hread], k, (Store.link_iff he ha).mpr ?_, hover⟩)
          rw [hused, hall]
          exact hk
        · rw [hread]
          cases hfar : Store.farthest ((a.segment e.level.toNat layer p.m).map
              (s.knownDistance p.metric e.vector)) with
          | none => exact .inl ⟨by simp only [hfar], .inr (.inr (.inr hfull))⟩
          | some worst =>
            obtain ⟨offset, distance⟩ := worst
            have hoffset := farthest_lt hfar
            rw [List.length_map, hlength] at hoffset
            simp only [hfar]
            split
            · exact .inr (.inl ⟨hlayer, hmem, .at offset, rfl, .inr ⟨offset, rfl, hoffset, hfull⟩⟩)
            · exact .inl ⟨rfl, .inr (.inr (.inr hfull))⟩

end

theorem slot?_unused {at_ : Location} {level layer m : Nat} {a : Adjacency}
    (hlayer : layer ≤ level) :
    (∀ i, Connection.slot? ⟨at_, level, .unused⟩ m layer a = some i → InLayer level m layer i) ∧
    (a.slots.length = Adjacency.slotCount level m →
      (a.layer level layer m).length < layerCapacity m layer →
      Connection.slot? ⟨at_, level, .unused⟩ m layer a ≠ none) := by
  constructor
  · intro i hi
    have hrange := List.mem_range'_1.mp (List.mem_of_find?_eq_some hi)
    exact ⟨hlayer, hrange⟩
  · intro hlen hroom hnone
    have hall : ∀ k ∈ a.segment level layer m, k.isUsed = true := by
      intro k hk
      obtain ⟨i, hi, hget⟩ := Adjacency.mem_segment.mp hk
      have hfound := List.find?_eq_none.mp hnone i (List.mem_range'_1.mpr hi.2)
      rw [hget] at hfound
      simpa using hfound
    rw [Adjacency.layer, List.filter_eq_self.mpr hall, Adjacency.length_segment hlen hlayer] at hroom
    exact Nat.lt_irrefl _ hroom

section
variable {τ : Type} {t : Header} (p : Params) (hm : p.m = t.m.toNat) (d : Draft)
  (hnew : d.location.isUsed = true) (own : τ)
include hm hnew

theorem linkCandidate_gains {s : Store} (h : s.Intact t) (layer : Nat) {l : Location} {e : Element}
    (he : s.record? l = some (.element e))
    (hlinks : ∀ k, s.Link p.m layer l k → ∃ f, s.record? k = some (.element f)) :
    ∃ s', (linkCandidate p d layer l).run (s, own) = .ok () (s', own) ∧ Store.Kept t s s' ∧
      s.Linked s' d.location ∧
      Store.Gains p.m d.location (fun layer' l' => (layer' = layer ∧ l' = l) ∧ l ≠ d.location) s s' ∧
      (0 < p.m → l ≠ d.location → e.deleted = false → layer ≤ e.level.toNat →
        ∃ k, s'.Link p.m layer l k) := by
  obtain ⟨a, ha, hlen⟩ := h.paired.resolves l e he
  rw [← hm] at hlen
  rw [linkCandidate]
  by_cases hself : l = d.location
  · rw [if_pos hself]
    exact ⟨s, rfl, .refl h, .of_record rfl _, .refl _ _ _ s, fun _ hne => absurd hself hne⟩
  rw [if_neg hself]
  have hfull : 0 < p.m → p.capacity layer ≤ (a.layer e.level.toNat layer p.m).length →
      ∃ k, s.Link p.m layer l k := by
    intro hpos hfull
    obtain ⟨k, hk⟩ := List.exists_mem_of_length_pos
      (Nat.lt_of_lt_of_le (layerCapacity_pos hpos layer) hfull)
    exact ⟨k, (Store.link_iff he ha).mpr hk⟩
  rcases connection?_cases p d layer he ha hlen with
    ⟨hnone, hwhy⟩ | ⟨hlayer, -, place, hsome, hplace⟩ | ⟨-, k, hk, hout⟩
  · -- Nothing is written.
    have hread : Action.reading (fun s => s.connection? p d l layer) s = .ok none s := by
      rw [Action.reading, hnone]
    refine ⟨s, Turns.run_bind_ok (Turns.run_act_ok hread own), .refl h, .of_record rfl _,
      .refl _ _ _ s, ?_⟩
    intro hpos _ hlive hlayer
    rcases hwhy with hdead | hlow | hmem | hfull'
    · rw [hlive] at hdead
      cases hdead
    · exact absurd hlayer (Nat.not_le.mpr hlow)
    · obtain ⟨i, hi, hget⟩ := Adjacency.mem_segment.mp hmem
      exact ⟨_, (Store.link_iff he ha).mpr (Adjacency.mem_layer.mpr ⟨hnew, i, hi, hget⟩)⟩
    · exact hfull hpos hfull'
  · have hread : Action.reading (fun s => s.connection? p d l layer) s =
        .ok (some ⟨e.neighborsAt, e.level.toNat, place⟩) s := by
      rw [Action.reading, hsome]
    have hslot : ∀ i, Connection.slot? ⟨e.neighborsAt, e.level.toNat, place⟩ p.m layer a = some i →
        InLayer e.level.toNat p.m layer i := by
      intro i hi
      rcases hplace with ⟨rfl, -⟩ | ⟨offset, rfl, hoffset, -⟩
      · exact (slot?_unused hlayer).1 i hi
      · cases hi
        exact ⟨hlayer, Nat.le_add_right _ _, Nat.add_lt_add_left hoffset _⟩
    rcases writeLink_rewritten h p d.location ⟨e.neighborsAt, e.level.toNat, place⟩ layer a ha with
      ⟨hrun, hout⟩ | ⟨i, s', hi, hlt, hrun, hintact, hrew⟩
    · refine ⟨s, (Turns.run_bind_ok (Turns.run_act_ok hread own)).trans (Turns.run_act_ok hrun own),
        .refl h, .of_record rfl _, .refl _ _ _ s, fun hpos _ _ _ => ?_⟩
      rcases hplace with ⟨rfl, hroom⟩ | ⟨offset, -, -, hfull'⟩
      · obtain ⟨i, hi⟩ := Option.ne_none_iff_exists'.mp ((slot?_unused hlayer).2 hlen hroom)
        have hlt := (hslot i hi).lt
        rw [← hlen] at hlt
        exact absurd (hout i hi) (Nat.not_le.mpr hlt)
      · exact hfull hpos hfull'
    · obtain ⟨hgains, hlink⟩ := hrew.gains h he ha (hslot i hi) hlt hnew
      exact ⟨s', (Turns.run_bind_ok (Turns.run_act_ok hread own)).trans (Turns.run_act_ok hrun own),
        hrew.kept hintact ha, hrew.linked ha, hgains.mono fun _ _ hp => ⟨hp, hself⟩,
        fun _ _ _ _ => ⟨_, hlink⟩⟩
  · -- An element never lies outside of its page.
    obtain ⟨f, hf⟩ := hlinks k hk
    cases hout.symm.trans ((s.element_eq_ok k f).mpr hf)

theorem linkEach_gains (layer : Nat) (cs : List Candidate) :
    ∀ s : Store, s.Intact t → (∃ e, s.record? d.location = some (.element e)) →
      s.Explored p.m layer cs →
      ∃ s', (linkEach p d layer cs).run (s, own) = .ok () (s', own) ∧ Store.Kept t s s' ∧
        s.Linked s' d.location ∧
        Store.Gains p.m d.location (fun layer' l => (layer' = layer ∧ ∃ c ∈ cs, c.location = l) ∧
          l ≠ d.location) s s' ∧
        (0 < p.m → ∀ c ∈ cs, ∀ e, s.record? c.location = some (.element e) →
          c.location ≠ d.location → e.deleted = false → layer ≤ e.level.toNat →
          ∃ k, s'.Link p.m layer c.location k) := by
  induction cs with
  | nil =>
    intro s h _ _
    exact ⟨s, rfl, .refl h, .of_record rfl _, .refl _ _ _ s, fun _ c hc => nomatch hc⟩
  | cons c rest ih =>
    intro s h hown hcs
    obtain ⟨⟨e, he⟩, hopen⟩ := hcs c List.mem_cons_self
    obtain ⟨s₁, hrun, hkept, hlinked, hgains, hlink⟩ :=
      linkCandidate_gains p hm d hnew own h layer he hopen
    obtain ⟨s₂, hrest, hkept', hlinked', hgains', hlinks⟩ := ih s₁ hkept.intact
      (hown.imp fun f hf => (hkept.element _ f).mpr hf)
      (hkept.explored hgains hown fun x hx => hcs x (List.mem_cons_of_mem _ hx))
    have hall := (hgains.mono (Q := fun layer' l => (layer' = layer ∧
        ∃ x ∈ c :: rest, x.location = l) ∧ l ≠ d.location) (by
      rintro _ _ ⟨⟨rfl, rfl⟩, hne⟩
      exact ⟨⟨rfl, c, List.mem_cons_self, rfl⟩, hne⟩)).trans (hgains'.mono (by
      rintro _ _ ⟨⟨rfl, x, hx, rfl⟩, hne⟩
      exact ⟨⟨rfl, x, List.mem_cons_of_mem _ hx, rfl⟩, hne⟩))
    refine ⟨s₂, ?_, hkept.trans hkept', hlinked.trans hlinked', hall,
      fun hpos x hx f hf hne hlive hlayer => ?_⟩
    · rw [linkEach, Turns.run_bind_ok hrun, hrest]
    · rcases List.mem_cons.mp hx with rfl | hx
      · rw [he] at hf
        cases hf
        exact hgains'.some (hlink hpos hne hlive hlayer)
      · exact hlinks hpos x hx f ((hkept.element _ f).mpr hf) hne hlive hlayer

theorem linkFrom_gains (top : Nat) :
    ∀ s : Store, s.Intact t → (∃ e, s.record? d.location = some (.element e)) →
      (∀ i, i ≤ top → s.Explored p.m i (d.neighbors.getD i [])) →
      ∃ s', (linkFrom p d top).run (s, own) = .ok () (s', own) ∧ Store.Kept t s s' ∧
        s.Linked s' d.location ∧
        Store.Gains p.m d.location (fun layer l => (layer ≤ top ∧
          ∃ c ∈ d.neighbors.getD layer [], c.location = l) ∧ l ≠ d.location) s s' ∧
        (0 < p.m → ∀ layer, layer ≤ top → ∀ c ∈ d.neighbors.getD layer [], ∀ e,
          s.record? c.location = some (.element e) → c.location ≠ d.location →
          e.deleted = false → layer ≤ e.level.toNat → ∃ k, s'.Link p.m layer c.location k) := by
  induction top with
  | zero =>
    intro s h hown hcs
    obtain ⟨s', hrun, hkept, hlinked, hgains, hlinks⟩ :=
      linkEach_gains p hm d hnew own 0 _ s h hown (hcs 0 (Nat.le_refl _))
    refine ⟨s', hrun, hkept, hlinked, hgains.mono ?_, fun hpos layer hlayer => ?_⟩
    · rintro _ _ ⟨⟨rfl, hc⟩, hne⟩
      exact ⟨⟨Nat.le_refl _, hc⟩, hne⟩
    · obtain rfl := Nat.le_zero.mp hlayer
      exact hlinks hpos
  | succ top ih =>
    intro s h hown hcs
    obtain ⟨s₁, hrun, hkept, hlinked, hgains, hlinks⟩ :=
      linkEach_gains p hm d hnew own (top + 1) _ s h hown (hcs (top + 1) (Nat.le_refl _))
    obtain ⟨s₂, hrest, hkept', hlinked', hgains', hlinks'⟩ := ih s₁ hkept.intact
      (hown.imp fun f hf => (hkept.element _ f).mpr hf)
      fun i hi => hkept.explored hgains hown (hcs i (Nat.le_succ_of_le hi))
    have hall := (hgains.mono (Q := fun layer l => (layer ≤ top + 1 ∧
        ∃ c ∈ d.neighbors.getD layer [], c.location = l) ∧ l ≠ d.location) (by
      rintro _ _ ⟨⟨rfl, hc⟩, hne⟩
      exact ⟨⟨Nat.le_refl _, hc⟩, hne⟩)).trans (hgains'.mono (by
      rintro _ _ ⟨⟨hle, hc⟩, hne⟩
      exact ⟨⟨Nat.le_succ_of_le hle, hc⟩, hne⟩))
    refine ⟨s₂, ?_, hkept.trans hkept', hlinked.trans hlinked', hall,
      fun hpos layer hlayer c hc e he hne hlive hlevel => ?_⟩
    · rw [linkFrom, Turns.run_bind_ok hrun, hrest]
    · rcases Nat.lt_or_eq_of_le hlayer with hlt | rfl
      · exact hlinks' hpos layer (Nat.le_of_lt_succ hlt) c hc e ((hkept.element _ e).mpr he) hne
          hlive hlevel
      · exact hgains'.some (hlinks hpos c hc e he hne hlive hlevel)

end

end PagedGraph
