import PagedGraph.Graph.Search
import PagedGraph.Proofs.Records

/-!
# What searches answer with

However a search goes, the candidates that it chooses are live elements, and a duplicate that it
finds is a live element with the vector that was asked for.
-/

set_option autoImplicit false

namespace PagedGraph

namespace Store

theorem ok_of_bind {α β : Type} {x : Except Error α} {f : α → Except Error β} {b : β}
    (h : (x >>= f) = .ok b) : ∃ a, x = .ok a ∧ f a = .ok b := by
  cases x with
  | error e => cases h
  | ok a => exact ⟨a, rfl, h⟩

def Live (s : Store) (l : Location) : Prop :=
  ∃ e, s.record? l = some (.element e) ∧ e.deleted = false

def AllLive (s : Store) (lists : List (List Candidate)) : Prop :=
  ∀ cs ∈ lists, ∀ c ∈ cs, s.Live c.location

variable {s : Store}

theorem isLive_iff {l : Location} : s.isLive l = true ↔ s.Live l := by
  rw [isLive]
  cases he : s.element l with
  | error c =>
    refine ⟨fun h => Bool.noConfusion h, ?_⟩
    rintro ⟨e, hrecord, -⟩
    cases he.symm.trans ((s.element_eq_ok l e).mpr hrecord)
  | ok e =>
    rw [Live, Bool.not_eq_true']
    refine ⟨fun hlive => ⟨e, (s.element_eq_ok l e).mp he, hlive⟩, ?_⟩
    rintro ⟨f, hf, hlive⟩
    obtain rfl := Except.ok.inj (he.symm.trans ((s.element_eq_ok l f).mpr hf))
    exact hlive

theorem allLive_nil (n : Nat) : s.AllLive (List.replicate n []) := by
  intro cs hcs c hc
  rw [List.eq_of_mem_replicate hcs] at hc
  cases hc

theorem AllLive.append {xs ys : List (List Candidate)} (hx : s.AllLive xs) (hy : s.AllLive ys) :
    s.AllLive (xs ++ ys) := by
  intro cs hcs
  rcases List.mem_append.mp hcs with hcs | hcs
  · exact hx cs hcs
  · exact hy cs hcs

theorem AllLive.layer {lists : List (List Candidate)} (h : s.AllLive lists) (i : Nat) :
    ∀ c ∈ lists.getD i [], s.Live c.location := by
  intro c hc
  rw [List.getD_eq_getElem?_getD] at hc
  by_cases hi : i < lists.length
  · rw [List.getElem?_eq_getElem hi] at hc
    exact h _ (List.getElem_mem hi) c hc
  · rw [List.getElem?_eq_none (Nat.not_lt.mp hi)] at hc
    cases hc

theorem choose_live (p : Params) (q : Query) (layer : Nat) (found : List Candidate) :
    ∀ c ∈ s.choose p q layer found, s.Live c.location := by
  intro c hc
  have hkept := (List.mem_filter.mp (List.mem_of_mem_take hc)).2
  rw [Bool.and_eq_true] at hkept
  exact isLive_iff.mp hkept.2

theorem descend_live (p : Params) (q : Query) (layer : Nat) :
    ∀ (nearest : List Candidate) (lists : List (List Candidate)),
      s.descend p q layer nearest = .ok lists → s.AllLive lists := by
  have hchosen : ∀ (layer : Nat) (found : List Candidate),
      s.AllLive (if layer ≤ q.level then [s.choose p q layer found] else []) := by
    intro layer found cs hcs
    by_cases hlevel : layer ≤ q.level
    · rw [if_pos hlevel, List.mem_singleton] at hcs
      rw [hcs]
      exact s.choose_live p q layer found
    · rw [if_neg hlevel] at hcs
      cases hcs
  induction layer with
  | zero =>
    intro nearest lists h
    rw [descend] at h
    obtain ⟨found, -, h⟩ := ok_of_bind h
    rw [← Except.ok.inj h]
    exact hchosen 0 found
  | succ below ih =>
    intro nearest lists h
    rw [descend] at h
    obtain ⟨found, -, h⟩ := ok_of_bind h
    obtain ⟨rest, hrest, h⟩ := ok_of_bind h
    rw [← Except.ok.inj h]
    exact (ih found rest hrest).append (hchosen (below + 1) found)

theorem searchFrom_live (p : Params) (q : Query) (entry : EntryPoint)
    (lists : List (List Candidate)) (h : s.searchFrom p q entry = .ok lists) :
    s.AllLive lists := by
  rw [searchFrom] at h
  obtain ⟨first, -, h⟩ := ok_of_bind h
  obtain ⟨found, hfound, h⟩ := ok_of_bind h
  rw [← Except.ok.inj h]
  exact (descend_live p q _ _ found hfound).append (allLive_nil _)

theorem firstEqual_some (vector : Embedding) (l : Location) (cs : List Candidate)
    (h : s.firstEqual vector cs = .ok (some l)) :
    ∃ e, s.record? l = some (.element e) ∧ e.deleted = false ∧ e.vector = vector := by
  induction cs with
  | nil => cases h
  | cons c cs ih =>
    rw [firstEqual] at h
    cases he : s.element c.location with
    | error e =>
      rw [he] at h
      cases h
    | ok e =>
      rw [he] at h
      simp only at h
      by_cases hequal : (!e.deleted && e.vector == vector) = true
      · rw [if_pos hequal] at h
        obtain rfl : c.location = l := Option.some.inj (Except.ok.inj h)
        rw [Bool.and_eq_true, beq_iff_eq] at hequal
        exact ⟨e, (s.element_eq_ok _ e).mp he, by simpa using hequal.1, hequal.2⟩
      · rw [if_neg hequal] at h
        exact ih h

theorem findDuplicate_some (vector : Embedding) (l : Location) (lists : List (List Candidate))
    (h : s.findDuplicate vector lists = .ok (some l)) :
    ∃ e, s.record? l = some (.element e) ∧ e.deleted = false ∧ e.vector = vector := by
  cases lists with
  | nil => cases h
  | cons layer0 rest => exact firstEqual_some vector l layer0 h

end Store

end PagedGraph
