import PagedGraph.Proofs.Nearest

/-!
# The lists of a search

A search answers with one list for each layer that the query wants. Each list is in ascending order
and no longer than what an element keeps in the layer; its candidates are at different locations,
alive and not excluded, and carry their distances from the query (`searchFrom_shortlists`). Deleted
elements stay in the beams, and the next layer starts from them, but none of them is in a list.
-/

set_option autoImplicit false

namespace PagedGraph

namespace Store

variable {s : Store} {p : Params} {q : Query}

structure Shortlist (s : Store) (p : Params) (q : Query) (layer : Nat) (cs : List Candidate) :
    Prop where
  short : cs.length ≤ p.capacity layer
  ascending : Candidate.Ascending cs
  distinct : (cs.map Candidate.location).Nodup
  chosen : ∀ c ∈ cs, q.exclude ≠ some c.location ∧ ∃ e, s.element c.location = .ok e ∧
    e.deleted = false ∧ c.distance = p.metric.distance q.vector e.vector

theorem choose_shortlist {layer : Nat} {found : List Candidate}
    (h : s.Ranked p.metric q.vector found) : s.Shortlist p q layer (s.choose p q layer found) := by
  have hranked := h.sublist (s.choose_sublist p q layer found)
  refine ⟨List.length_take_le _ _, hranked.ascending, hranked.distinct, fun c hc => ?_⟩
  obtain ⟨e, he, hdistance⟩ := of_score (hranked.scored c hc)
  obtain ⟨f, hf, hlive⟩ := s.choose_live p q layer found c hc
  obtain rfl : e = f := by
    cases he.symm.trans hf
    rfl
  have hkept := (List.mem_filter.mp (List.mem_of_mem_take hc)).2
  rw [Bool.and_eq_true, bne_iff_ne] at hkept
  exact ⟨fun heq => hkept.1 heq.symm, e, (s.element_eq_ok _ e).mpr he, hlive,
    congrArg Candidate.distance hdistance⟩

/-- However a search goes in whatever store, it answers with one list for each layer up to the
query's level, and the lists above the entry point are empty. -/
theorem searchFrom_shortlists {entry : EntryPoint} {lists : List (List Candidate)}
    (h : s.searchFrom p q entry = .ok lists) : lists.length = q.level + 1 ∧
      ∀ layer cs, lists[layer]? = some cs →
        s.Shortlist p q layer cs ∧ (entry.level.toNat < layer → cs = []) := by
  obtain ⟨found, hfound, hlength, hchosen⟩ := searchFrom_beams h
  refine ⟨hlength, fun layer cs hcs => ?_⟩
  have hlayer : layer ≤ q.level := by
    have hlt := (List.getElem?_eq_some_iff.mp hcs).1
    omega
  have hlist := hchosen layer hlayer
  rw [List.getD_eq_getElem?_getD, hcs, Option.getD_some] at hlist
  obtain ⟨hranked, hempty⟩ := beamsFrom_ranked hfound layer
  refine ⟨hlist ▸ choose_shortlist hranked, fun hhigh => ?_⟩
  have hnone := s.choose_sublist p q layer (found.getD layer [])
  rw [← hlist, hempty hhigh] at hnone
  exact List.eq_nil_of_sublist_nil hnone

end Store

theorem Index.shortlists_wide : ∃ s lists, HasBoth s first ∧
    s.searchFrom wide.searching ⟨plain 2, 3, some ⟨1, 0⟩⟩ ⟨⟨1, 2⟩, 2⟩ = .ok lists ∧
    lists.length = 4 ∧ ∀ layer cs, lists[layer]? = some cs →
      s.Shortlist wide.searching ⟨plain 2, 3, some ⟨1, 0⟩⟩ layer cs ∧ (2 < layer → cs = []) := by
  obtain ⟨s₁, hfirst, -⟩ := first_stored
  obtain ⟨s, hboth, -⟩ := hfirst.second_stored
  have hentry : s.record? (EntryPoint.mk ⟨1, 2⟩ 2).location = some (.element second) :=
    hboth.atSecond
  obtain ⟨lists, hlists⟩ := Store.searchFrom_ok hboth.settled.intact
    hboth.settled.navigable.links wide.searching ⟨plain 2, 3, some ⟨1, 0⟩⟩ hentry
  exact ⟨s, lists, hboth, hlists, Store.searchFrom_shortlists hlists⟩

end PagedGraph
