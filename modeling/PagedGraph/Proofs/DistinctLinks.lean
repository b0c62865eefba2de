import PagedGraph.Proofs.Recycling

/-!
# No neighbor comes twice

In every state that the calls of one user lead to, the neighbors that an element has in a layer are
all different, and each is an element of the index (`lists_sound`). Links stay when an element is
deleted and when another one is stored in its place, so a new element may lie where a list leads to
already. But a list is made from the best of a beam, which are at different locations
(`searchFrom_distinct`), and a link is written back only into a layer that does not have it
(`Woven.distinct`).
-/

set_option autoImplicit false

namespace PagedGraph

namespace Adjacency

variable {a : Adjacency} {level m layer : Nat}

theorem nodup_layer : (a.layer level layer m).Nodup ↔ ∀ i j k, InLayer level m layer i →
    InLayer level m layer j → a.slots[i]? = some k → a.slots[j]? = some k → k.isUsed = true →
    i = j := by
  by_cases hlayer : layer ≤ level
  · have hget : ∀ i, i < layerCapacity m layer →
        (a.segment level layer m)[i]? = a.slots[(level - layer) * m + i]? := by
      intro i hi
      rw [segment_eq hlayer, List.getElem?_take_of_lt hi, List.getElem?_drop]
    have hshort : (a.segment level layer m).length ≤ layerCapacity m layer := by
      rw [segment_eq hlayer, List.length_take]
      exact Nat.min_le_left _ _
    rw [Adjacency.layer, List.nodup_iff_pairwise_ne, List.pairwise_filter,
      List.pairwise_iff_getElem]
    constructor
    · intro h
      -- Of two slots with the same neighbor one would come first.
      have hbefore : ∀ i j k, InLayer level m layer i → InLayer level m layer j →
          a.slots[i]? = some k → a.slots[j]? = some k → k.isUsed = true → ¬i < j := by
        intro i j k hi hj hik hjk hused hlt
        have hi' := hget (i - (level - layer) * m) (by have := hi.2; omega)
        have hj' := hget (j - (level - layer) * m) (by have := hj.2; omega)
        rw [Nat.add_sub_cancel' hi.2.1, hik] at hi'
        rw [Nat.add_sub_cancel' hj.2.1, hjk] at hj'
        obtain ⟨hilt, hieq⟩ := List.getElem?_eq_some_iff.mp hi'
        obtain ⟨hjlt, hjeq⟩ := List.getElem?_eq_some_iff.mp hj'
        refine h _ _ hilt hjlt (by have := hi.2.1; omega) ?_ ?_ (hieq.trans hjeq.symm)
        · rw [hieq]
          exact hused
        · rw [hjeq]
          exact hused
      intro i j k hi hj hik hjk hused
      have hij := hbefore i j k hi hj hik hjk hused
      have hji := hbefore j i k hj hi hjk hik hused
      omega
    · intro h i j hi hj hlt hused _ heq
      have hi' := (hget i (by omega)).symm.trans (List.getElem?_eq_getElem hi)
      have hj' := (hget j (by omega)).symm.trans (List.getElem?_eq_getElem hj)
      rw [← heq] at hj'
      have hsame := h _ _ _ ⟨hlayer, Nat.le_add_right _ _, by omega⟩
        ⟨hlayer, Nat.le_add_right _ _, by omega⟩ hi' hj' hused
      omega
  · have hnone : a.segment level layer m = [] := by
      rw [segment, layerRange, if_pos (Nat.not_le.mp hlayer)]
      rfl
    rw [Adjacency.layer, hnone]
    exact ⟨fun _ i j k hi => absurd hi.1 hlayer, fun _ => List.nodup_nil⟩

theorem nodup_layer_set {i : Nat} {new : Location} (hi : InLayer level m layer i)
    (hlt : i < a.slots.length) (hnew : new ∉ a.segment level layer m)
    (h : ∀ layer', (a.layer level layer' m).Nodup) (layer' : Nat) :
    ((Adjacency.mk (a.slots.set i new)).layer level layer' m).Nodup := by
  rw [nodup_layer]
  intro x y k hx hy hxk hyk hused
  have hunlinked : ∀ z, InLayer level m layer' z → InLayer level m layer' i → i ≠ z →
      (a.slots.set i new)[z]? = some new → False := by
    intro z hz hi' hiz hget
    rw [List.getElem?_set_ne hiz] at hget
    exact hnew (mem_segment.mpr ⟨z, by rw [hi.unique hi']; exact hz, hget⟩)
  by_cases hxi : i = x
  · subst hxi
    rw [List.getElem?_set_self hlt] at hxk
    obtain rfl := Option.some.inj hxk
    by_cases hyi : i = y
    · exact hyi
    · exact (hunlinked y hy hx hyi hyk).elim
  · by_cases hyi : i = y
    · subst hyi
      rw [List.getElem?_set_self hlt] at hyk
      obtain rfl := Option.some.inj hyk
      exact (hunlinked x hx hy hxi hxk).elim
    · rw [List.getElem?_set_ne hxi] at hxk
      rw [List.getElem?_set_ne hyi] at hyk
      exact nodup_layer.mp (h layer') x y k hx hy hxk hyk hused

theorem nodup_ofLayers {lists : List (List Location)} (h : (lists.getD layer []).Nodup) :
    ((ofLayers level m lists).layer level layer m).Nodup := by
  rw [nodup_layer]
  intro i j k hi hj hik hjk hused
  have htake : ((lists.getD layer []).take (layerCapacity m layer)).Nodup :=
    (List.take_sublist _ _).nodup h
  -- Behind what is taken from the list all slots are unused.
  have hplace : ∀ x, InLayer level m layer x → (ofLayers level m lists).slots[x]? = some k →
      ((lists.getD layer []).take (layerCapacity m layer))[x - (level - layer) * m]? = some k := by
    intro x hx hxk
    have hget := getElem?_filledFrom lists level hx.1
      (show x - (level - layer) * m < layerCapacity m layer by have := hx.2; omega)
    rw [Nat.add_sub_cancel' hx.2.1] at hget
    have hfilled := hget.symm.trans hxk
    rw [filled] at hfilled
    by_cases hin : x - (level - layer) * m <
        ((lists.getD layer []).take (layerCapacity m layer)).length
    · rwa [List.getElem?_append_left hin] at hfilled
    · rw [List.getElem?_append_right (Nat.not_lt.mp hin)] at hfilled
      rw [List.eq_of_mem_replicate (List.mem_of_getElem? hfilled)] at hused
      cases hused
  have hi' := hplace i hi hik
  have hsame := (List.getElem?_inj (List.getElem?_eq_some_iff.mp hi').1 htake).mp
    (hi'.trans (hplace j hj hjk).symm)
  have hi0 := hi.2.1
  have hj0 := hj.2.1
  omega

end Adjacency

namespace Store

variable {s : Store} {p : Params} {q : Query}

theorem searchFrom_distinct {entry : EntryPoint} {lists : List (List Candidate)}
    (h : s.searchFrom p q entry = .ok lists) (i : Nat) :
    ((lists.getD i []).map Candidate.location).Nodup := by
  rcases Nat.lt_or_ge q.level i with hi | hi
  · rw [searchFrom_above h hi]
    exact List.nodup_nil
  · obtain ⟨found, hfound, -, hchosen⟩ := searchFrom_beams h
    rw [hchosen i hi]
    exact ((beamsFrom_ranked hfound i).1.sublist (s.choose_sublist p q i _)).distinct

def Distinct (m : Nat) (s : Store) : Prop :=
  ∀ l e a, s.record? l = some (.element e) → s.record? e.neighborsAt = some (.adjacency a) →
    ∀ layer, (a.layer e.level.toNat layer m).Nodup

variable {t : Header} {m : Nat} {s' : Store}

theorem Distinct.of_record (h : s.Distinct m) (hrecord : s'.record? = s.record?) :
    s'.Distinct m := by
  rw [Distinct, hrecord]
  exact h

theorem Distinct.rewritten (h : s.Distinct m) {l : Location} {e e' : Element}
    (hrew : s.Rewritten s' l (.element e')) (he : s.record? l = some (.element e))
    (hsame : e'.level = e.level ∧ e'.neighborsAt = e.neighborsAt) : s'.Distinct m := by
  intro k f a hf ha layer
  have hput := (hrew.puts k f).mp hf
  by_cases hk : k = l
  · rw [if_pos hk] at hput
    subst hput
    rw [hsame.1]
    refine h l e a he ?_ layer
    rw [← hsame.2]
    exact hrew.adjacency ha
  · rw [if_neg hk] at hput
    exact h k f a hput (hrew.adjacency ha) layer

end Store

theorem Placed.distinct {t : Header} {s s' : Store} {d : Draft} {st : Stored} (h : s.Intact t)
    (hplaced : Placed t s s' d st) (hdistinct : s.Distinct t.m.toNat)
    (hlists : ∀ i, ((d.neighbors.getD i []).map Candidate.location).Nodup) :
    s'.Distinct t.m.toNat := by
  intro k f a hf ha layer
  have hput := (hplaced.put.puts h k f).mp hf
  by_cases hk : k = st.location
  · rw [if_pos hk] at hput
    subst hput
    obtain rfl : d.adjacency t.m.toNat = a := by
      have := hplaced.adjacency.symm.trans ha
      cases this
      rfl
    refine Adjacency.nodup_ofLayers ?_
    rw [getD_map_locations]
    exact hlists layer
  · rw [if_neg hk] at hput
    rw [hplaced.others hk hf] at ha
    exact hdistinct k f a hput ha layer

theorem Woven.distinct {t : Header} {d : Draft} {s s' : Store} (h : Woven t d s s')
    (hs : s.Intact t) (hdistinct : s.Distinct t.m.toNat) : s'.Distinct t.m.toNat := by
  induction h with
  | start => exact hdistinct
  | header _ _ record _ ih => exact ih.of_record record
  | @link s₁ s₂ layer i c e a past _ _ _ found list slot inside unlinked intact rewritten ih =>
    intro k f b hf hb layer'
    have hf' := ((rewritten.kept intact list).element k f).mp hf
    rw [rewritten.record] at hb
    by_cases hat : f.neighborsAt = e.neighborsAt
    · obtain rfl : k = c.location := (past.intact hs).paired.apart _ _ _ _ hf' found hat
      obtain rfl : f = e := by
        have := hf'.symm.trans found
        cases this
        rfl
      rw [putRecord_self] at hb
      cases hb
      exact Adjacency.nodup_layer_set slot inside unlinked (ih _ _ _ found list) layer'
    · rw [putRecord_of_ne _ _ hat] at hb
      exact ih k f b hf' hb layer'

theorem Consulted.distinct {q : Params} {w : Interlude} {s s' : Store} {d : Draft}
    {lists : List (List Candidate)} (h : Consulted q w s d lists s')
    (hd : ∀ i, d.neighbors.getD i [] = []) (i : Nat) :
    ((lists.getD i []).map Candidate.location).Nodup := by
  rcases h.chosen with ⟨-, rfl⟩ | ⟨x, -, found⟩
  · rw [hd]
    exact List.nodup_nil
  · exact Store.searchFrom_distinct found i

theorem Insertion.Ended.distinct {t : Header} {s s' : Store} {d : Draft}
    {r : Except Error Outcome} (hended : Insertion.Ended t s d r s') (h : s.Intact t)
    (hdistinct : s.Distinct t.m.toNat)
    (hlists : ∀ i, ((d.neighbors.getD i []).map Candidate.location).Nodup) :
    s'.Distinct t.m.toNat := by
  cases hended with
  | failed e => exact hdistinct
  | joined l e place s' found intact rewritten => exact hdistinct.rewritten rewritten found ⟨rfl, rfl⟩
  | stored st s₁ s' room placed woven =>
    exact woven.distinct placed.intact (placed.distinct h hdistinct hlists)

namespace Index

variable {dimensions : UInt32} {o : Options} {ix : Index} {s : Store}

theorem History.distinct (h : History dimensions o ix s) : s.Distinct o.m.toNat := by
  induction h with
  | opened blank opens =>
    obtain ⟨hopened, rfl⟩ := opened_of_blank blank opens
    intro l e a he
    rw [record?_fresh hopened.params] at he
    cases he
  | insert vector row level past numbered ih =>
    obtain ⟨o', hm, -, hsettled⟩ := past.settled
    rw [← hm] at ih ⊢
    have hcourse := hsettled.course vector row level numbered
    generalize insertAtLevel _ vector row level = call at hcourse ⊢
    generalize call.answer _ = r at hcourse
    generalize call.after _ = s' at hcourse ⊢
    cases hcourse with
    | unchanged r nowhere => exact ih
    | ended w lists r s' consulted ended =>
      exact ended.distinct hsettled.intact ih (consulted.distinct (Draft.neighbors_new level w row))
  | delete l past ih =>
    obtain ⟨o', -, -, hsettled⟩ := past.settled
    rcases markDeleted_after hsettled.intact l with hsame | ⟨e, he, -, -, hrew⟩
    · rw [hsame]
      exact ih
    · exact ih.rewritten hrew he ⟨rfl, rfl⟩
  | tune width past ih => exact ih
  | reopen past fanOut metric opens ih =>
    obtain ⟨o', hm, hmetric, hsettled⟩ := past.settled
    obtain ⟨rfl, -⟩ := hsettled.reopen (fanOut.trans hm.symm) (metric.trans hmetric.symm) opens
    exact ih

/-- Whatever one user has done with an index that was opened on a blank file: the neighbor list of
every element, deleted or not, can be read, and in each of its layers the neighbors are all different
and are elements of the index. -/
theorem lists_sound (h : History dimensions o ix s) {l : Location} {e : Element}
    (he : s.element l = .ok e) : ∃ a, s.adjacency e.neighborsAt = .ok a ∧
      ∀ layer, layer ≤ e.level.toNat →
        (a.layer e.level.toNat layer ix.params.m).Nodup ∧
        ∀ k ∈ a.layer e.level.toNat layer ix.params.m,
          ∃ f, s.element k = .ok f ∧ f.vector.length = ix.dimensions := by
  obtain ⟨o', hm, -, hsettled⟩ := h.settled
  have hintact := hsettled.intact
  rw [Store.element_eq_ok] at he
  obtain ⟨a, ha, -⟩ := hintact.paired.resolves l e he
  have hfanOut : ix.params.m = o.m.toNat := hsettled.m_eq.trans (congrArg UInt16.toNat hm)
  refine ⟨a, (s.adjacency_eq_ok _ a).mpr ha, fun layer _ => ⟨?_, fun k hk => ?_⟩⟩
  · rw [hfanOut]
    exact h.distinct l e a he ha layer
  · obtain ⟨hused, i, -, hi⟩ := Adjacency.mem_layer.mp hk
    obtain ⟨f, hf⟩ := hsettled.navigable.links _ a ha k (List.mem_of_getElem? hi) hused
    refine ⟨f, (s.element_eq_ok k f).mpr hf, ?_⟩
    rw [hsettled.width]
    exact (hintact.fits_of_record k _ hf).1

/-- An element whose neighbor has been deleted, with another element in its place. -/
theorem lists_sound_recycled : ∃ s e a, History 900 Options.standard wide s ∧
    s.element ⟨1, 2⟩ = .ok e ∧ s.adjacency e.neighborsAt = .ok a ∧
    ⟨1, 0⟩ ∈ a.layer e.level.toNat 1 wide.params.m ∧
    (a.layer e.level.toNat 1 wide.params.m).Nodup ∧
    ∀ k ∈ a.layer e.level.toNat 1 wide.params.m,
      ∃ f, s.element k = .ok f ∧ f.vector.length = wide.dimensions := by
  obtain ⟨s₁, s₂, s₃, hrun₁, hrun₂, hrun₃, ⟨hn₁, hn₂, hn₃⟩, hlink, hsecond, -⟩ := recycled
  have hhistory : History 900 Options.standard wide s₃ :=
    (((history_wide.stored hrun₁ hn₁).stored hrun₂ hn₂).delete ⟨1, 0⟩).stored hrun₃ hn₃
  obtain ⟨a, ha, hsound⟩ := lists_sound hhistory hsecond
  obtain ⟨hnodup, hvalid⟩ := hsound 1 (by decide)
  refine ⟨s₃, second, a, hhistory, hsecond, ha, ?_, hnodup, hvalid⟩
  exact (Store.link_iff ((s₃.element_eq_ok _ _).mp hsecond)
    ((s₃.adjacency_eq_ok _ a).mp ha)).mp hlink

end Index

end PagedGraph
