import PagedGraph.Proofs.Records

/-!
# Row lists of elements

The rows of a stored element stand in front of the unused places. Then the first free place is
behind the last row, and a row that is put there joins the rows at their end.
-/

set_option autoImplicit false

namespace PagedGraph

namespace Element

def withRow (e : Element) (place : Nat) (row : RowId) : Element :=
  { e with rowSlots := e.rowSlots.setIfInBounds place row }

theorem rows_valid (e : Element) : ∀ r ∈ e.rows, (r != noRow) = true := by
  intro r hr
  exact (List.mem_filter.mp hr).2

theorem filter_packed (rs : List RowId) (n : Nat) (h : ∀ r ∈ rs, (r != noRow) = true) :
    (rs ++ List.replicate n noRow).filter (· != noRow) = rs := by
  rw [List.filter_append, List.filter_eq_self.mpr h, List.filter_replicate]
  simp

theorem packed_of_toList (e : Element) (rs : List RowId) (n : Nat)
    (h : e.rowSlots.toList = rs ++ List.replicate n noRow)
    (hvalid : ∀ r ∈ rs, (r != noRow) = true) : e.Packed ∧ e.rows = rs := by
  have hrows : e.rows = rs := by rw [rows, h, filter_packed rs n hvalid]
  have hlen := congrArg List.length h
  rw [Vector.length_toList, List.length_append, List.length_replicate] at hlen
  refine ⟨?_, hrows⟩
  rw [Packed, hrows, h, hlen, Nat.add_sub_cancel_left]

theorem packed_single (level : UInt8) (vector : Embedding) (row : RowId) :
    (single level vector row).Packed := by
  have hlist : (single level vector row).rowSlots.toList = row :: List.replicate 9 noRow := by
    simp [single, rowCapacity]
    rfl
  by_cases hrow : row = noRow
  · subst hrow
    exact (packed_of_toList _ [] 10 hlist (by simp)).1
  · exact (packed_of_toList _ [row] 9 hlist (by simpa using hrow)).1

theorem rows_single (level : UInt8) (vector : Embedding) (row : RowId) (hrow : row ≠ noRow) :
    (single level vector row).rows = [row] := by
  have hlist : (single level vector row).rowSlots.toList = row :: List.replicate 9 noRow := by
    simp [single, rowCapacity]
    rfl
  exact (packed_of_toList _ [row] 9 hlist (by simpa using hrow)).2

theorem packed_tombstone (e : Element) : e.tombstone.Packed := by
  have hlist : e.tombstone.rowSlots.toList = List.replicate 10 noRow := by
    simp [tombstone, rowCapacity]
  exact (packed_of_toList _ [] 10 hlist (by simp)).1

theorem firstFreeRow_eq (e : Element) (h : e.Packed) (place : Nat)
    (hp : e.firstFreeRow = some place) : place = e.rows.length ∧ e.rows.length < rowCapacity := by
  have hnone : e.rows.findIdx? (· == noRow) = none := by
    rw [List.findIdx?_eq_none_iff]
    intro r hr
    simpa using e.rows_valid r hr
  rw [firstFreeRow, h, List.findIdx?_append, hnone, List.findIdx?_replicate] at hp
  by_cases hfull : 0 < rowCapacity - e.rows.length
  · simp [hfull] at hp
    omega
  · simp [hfull] at hp

theorem firstFreeRow_some (e : Element) (h : e.Packed) (hroom : e.rows.length < rowCapacity) :
    e.firstFreeRow = some e.rows.length := by
  cases hfree : e.firstFreeRow with
  | some place =>
    obtain ⟨rfl, -⟩ := e.firstFreeRow_eq h place hfree
    rfl
  | none =>
    rw [firstFreeRow, h, List.findIdx?_eq_none_iff] at hfree
    have hlast := hfree noRow (List.mem_append_right _
      (List.mem_replicate.mpr ⟨Nat.sub_ne_zero_of_lt hroom, rfl⟩))
    exact absurd hlast (by decide)

theorem withRow_rows (e : Element) (h : e.Packed) (place : Nat) (row : RowId)
    (hp : e.firstFreeRow = some place) :
    (e.withRow place row).Packed ∧ (row ≠ noRow → (e.withRow place row).rows = e.rows ++ [row]) := by
  obtain ⟨rfl, hlt⟩ := e.firstFreeRow_eq h place hp
  have hlist : (e.withRow e.rows.length row).rowSlots.toList =
      e.rows ++ row :: List.replicate (rowCapacity - e.rows.length - 1) noRow := by
    have hr : List.replicate (rowCapacity - e.rows.length) noRow =
        noRow :: List.replicate (rowCapacity - e.rows.length - 1) noRow := by
      rw [← List.replicate_succ]
      congr 1
      omega
    rw [withRow, Vector.toList_setIfInBounds, h, hr,
      List.set_append_right _ _ (Nat.le_refl _), Nat.sub_self]
    rfl
  by_cases hrow : row = noRow
  · subst hrow
    refine ⟨?_, fun hne => absurd rfl hne⟩
    exact (packed_of_toList _ e.rows (rowCapacity - e.rows.length - 1 + 1) hlist e.rows_valid).1
  · have happ : (e.withRow e.rows.length row).rowSlots.toList =
        (e.rows ++ [row]) ++ List.replicate (rowCapacity - e.rows.length - 1) noRow := by
      rw [hlist, List.append_assoc]
      rfl
    obtain ⟨hpacked, hrows⟩ := packed_of_toList _ _ _ happ (by
      intro r hr
      rcases List.mem_append.mp hr with hr | hr
      · exact e.rows_valid r hr
      · rw [List.mem_singleton.mp hr]
        simpa using hrow)
    exact ⟨hpacked, fun _ => hrows⟩

end Element

end PagedGraph
