import PagedGraph.Proofs.Fitting

/-!
# What fits an empty page

Fan-out and levels are limited so that the neighbor record of every element that may be asked for
fits an empty page, and so does an element record of the widest vectors. The limits are found by
climbing as long as the next number still fits, so all numbers up to the limit fit.
-/

set_option autoImplicit false

namespace PagedGraph

theorem climb_fits {fits : Nat → Bool} {k : Nat} (steps : Nat) :
    ∀ n, n < k → k ≤ climb fits steps n → fits k = true := by
  induction steps with
  | zero =>
    intro n hlt hle
    exact absurd hle (Nat.not_le.mpr hlt)
  | succ steps ih =>
    intro n hlt hle
    rw [climb] at hle
    by_cases hnext : fits (n + 1) = true
    · rw [if_pos hnext] at hle
      rcases Nat.eq_or_lt_of_le (Nat.succ_le_of_lt hlt) with heq | hmore
      · rw [← heq]
        exact hnext
      · exact ih (n + 1) hmore hle
    · rw [if_neg hnext] at hle
      exact absurd hle (Nat.not_le.mpr hlt)

theorem usableBytes_eq : usableBytes = Page.empty.freeSpace := by
  rw [Page.freeSpace_empty]
  rfl

theorem Adjacency.encodedSize_le {m level : Nat} (htwo : 2 ≤ m) (hm : m ≤ maxFanOut)
    (hlevel : level ≤ maxLevel m) : encodedSize level m ≤ Page.empty.freeSpace := by
  rw [← usableBytes_eq]
  rcases Nat.eq_zero_or_pos level with rfl | hpos
  · exact of_decide_eq_true (climb_fits pageSize 1 htwo hm)
  · exact of_decide_eq_true (climb_fits levelLimit 0 hpos hlevel)

theorem Draft.size_adjacency (d : Draft) (m : Nat) :
    (d.adjacency m).encode.size = Adjacency.encodedSize d.level.toNat m := by
  rw [Adjacency.size_encode, length_adjacency, Adjacency.encodedSize]

theorem Element.encodedSize_le {dimensions : Nat} (h : dimensions ≤ Header.maxDimensions) :
    encodedSize dimensions ≤ Page.empty.freeSpace := by
  have hmax : Header.maxDimensions = 2000 := rfl
  have hheader : headerSize = 92 := rfl
  rw [Page.freeSpace_empty, encodedSize, LittleEndian.align, hheader]
  omega

namespace Index

theorem checkLevel_le {o : Options} {level : Nat} (h : checkLevel o = .ok level) :
    level ≤ maxLevel o.m.toNat := by
  rw [checkLevel] at h
  cases hchosen : o.maxLevel with
  | none =>
    rw [hchosen] at h
    exact Nat.le_of_eq (Except.ok.inj h).symm
  | some chosen =>
    simp only [hchosen] at h
    by_cases hhigh : maxLevel o.m.toNat < chosen.toNat
    · rw [if_pos hhigh] at h
      cases h
    · rw [if_neg hhigh] at h
      rw [← Except.ok.inj h]
      exact Nat.not_lt.mp hhigh

variable {dimensions : UInt32} {o : Options} {ix : Index} {s : Store}

theorem Opened.fits (h : Opened dimensions o ix s) {level : Nat}
    (hlevel : level ≤ ix.params.maxLevel) :
    Element.encodedSize ix.dimensions ≤ Page.empty.freeSpace ∧
      Adjacency.encodedSize level ix.params.m ≤ Page.empty.freeSpace := by
  obtain ⟨hm, htwo, -, -, hmax, hfan, htop⟩ := checkOptions_ok h.params
  constructor
  · rw [h.width]
    exact Element.encodedSize_le hmax
  · rw [hm]
    exact Adjacency.encodedSize_le htwo hfan (Nat.le_trans hlevel (checkLevel_le htop))

end Index

end PagedGraph
