import Mathlib.Data.Multiset.Basic
import PagedGraph.Proofs.NumericOrder

/-!
# The order of candidates

Candidates are compared by distance, in the total order on bit patterns, and at equal distance by
page and slot. The comparison is a total order which tells any two candidates apart and agrees with
the numeric order of distances (`TotalOrder`). So there is one ascending arrangement of some
candidates, whatever order they come in, and a heap that gives up a greatest one at a time gives
them up in the opposite order (`sorting_canonical`).
-/

set_option autoImplicit false

namespace PagedGraph

namespace Location

def cmp : Location → Location → Ordering := compareLex (compareOn page) (compareOn slot)

theorem cmp_swap (a b : Location) : cmp a b = (cmp b a).swap := by
  have horiented : Std.OrientedCmp (compareLex (compareOn page) (compareOn slot)) := inferInstance
  exact horiented.eq_swap

theorem isLE_cmp {a b : Location} : (cmp a b).isLE = true ↔ a.rank ≤ b.rank := by
  have ha := a.slot.toNat_lt
  have hb := b.slot.toNat_lt
  rw [cmp, compareLex, Ordering.isLE_then_iff_or, compareOn, compareOn, Std.compare_eq_lt,
    Std.compare_eq_iff_eq, Std.isLE_compare, UInt32.lt_iff_toNat_lt, ← UInt32.toNat_inj,
    UInt16.le_iff_toNat_le, rank, rank]
  omega

end Location

namespace Candidate

def cmp : Candidate → Candidate → Ordering :=
  compareLex (compareOn fun c => FloatBits.orderKey c.distance)
    fun a b => Location.cmp a.location b.location

theorem cmp_swap (a b : Candidate) : cmp a b = (cmp b a).swap := by
  rw [cmp, compareLex, compareLex, Ordering.swap_then, ← Location.cmp_swap]
  exact congrArg (fun o => Ordering.then o _) Std.OrientedCmp.eq_swap

theorem cmp_ne_gt {a b : Candidate} : cmp a b ≠ .gt ↔ le a b = true := by
  refine Ordering.isLE_iff_ne_gt.symm.trans ?_
  rw [cmp, compareLex, Ordering.isLE_then_iff_or, compareOn, Nat.compare_eq_lt,
    Std.compare_eq_iff_eq, Location.isLE_cmp, le_iff]

theorem cmp_eq_eq {a b : Candidate} : cmp a b = .eq ↔ a = b := by
  have hswap := cmp_swap b a
  constructor
  · intro h
    rw [h] at hswap
    exact le_antisymm (cmp_ne_gt.mp (by rw [h]; decide)) (cmp_ne_gt.mp (by rw [hswap]; decide))
  · rintro rfl
    have hle := cmp_ne_gt.mpr (le_refl a)
    cases ho : cmp a a with
    | eq => rfl
    | lt => rw [ho] at hswap; cases hswap
    | gt => exact absurd ho hle

theorem cmp_of_below {a b : Candidate} (h : FloatBits.below a.distance b.distance = true) :
    cmp a b = .lt := by
  have hkey := FloatBits.orderKey_lt_of_below h
  rw [cmp, compareLex, compareOn, Nat.compare_eq_lt.mpr hkey]
  rfl

structure TotalOrder (cmp : Candidate → Candidate → Ordering) : Prop where
  refl : ∀ a, cmp a a = .eq
  antisymm : ∀ a b, cmp a b ≠ .gt → cmp b a ≠ .gt → a = b
  trans : ∀ a b c, cmp a b ≠ .gt → cmp b c ≠ .gt → cmp a c ≠ .gt
  total : ∀ a b, cmp a b ≠ .gt ∨ cmp b a ≠ .gt
  /-- The answer is turned round with the question. -/
  swap : ∀ a b, cmp a b = (cmp b a).swap
  /-- No two candidates are confused. -/
  exact : ∀ a b, cmp a b = .eq ↔ a.distance = b.distance ∧ a.location = b.location
  /-- The numeric order of distances is respected; a NaN is not less than anything. -/
  numeric : ∀ a b, Float32.ofBits a.distance < Float32.ofBits b.distance → cmp a b = .lt

theorem totalOrder_cmp : TotalOrder cmp where
  refl _ := cmp_eq_eq.mpr rfl
  antisymm _ _ hab hba := le_antisymm (cmp_ne_gt.mp hab) (cmp_ne_gt.mp hba)
  trans _ _ _ hab hbc := cmp_ne_gt.mpr (le_trans (cmp_ne_gt.mp hab) (cmp_ne_gt.mp hbc))
  total a b := (le_total a b).imp cmp_ne_gt.mpr cmp_ne_gt.mpr
  swap := cmp_swap
  exact a b := by
    obtain ⟨la, da⟩ := a
    obtain ⟨lb, db⟩ := b
    rw [cmp_eq_eq, mk.injEq, and_comm]
  numeric _ _ h := cmp_of_below (FloatBits.below_iff_lt.mpr h)

theorem eq_sort_iff {cs ds : List Candidate} (h : ds.Perm cs) :
    ds = sort cs ↔ ds.Pairwise fun a b => le a b = true := by
  constructor
  · rintro rfl
    exact pairwise_sort cs
  · intro hds
    exact List.Perm.eq_of_pairwise (fun _ _ _ _ => le_antisymm) hds (pairwise_sort cs)
      (h.trans (sort_perm cs).symm)

theorem sort_eq_of_perm {cs ds : List Candidate} (h : ds.Perm cs) : sort ds = sort cs :=
  (eq_sort_iff ((sort_perm ds).trans h)).mpr (pairwise_sort ds)

/-- What a heap gives up, one greatest candidate after the other, until it is empty. How a heap keeps
its candidates does not matter. -/
inductive Popped : Multiset Candidate → List Candidate → Prop
  | empty : Popped 0 []
  | pop {c : Candidate} {rest : Multiset Candidate} {cs : List Candidate}
      (greatest : ∀ d ∈ rest, cmp d c ≠ .gt) (then_ : Popped rest cs) :
      Popped (c ::ₘ rest) (c :: cs)

theorem Popped.contents {heap : Multiset Candidate} {cs : List Candidate} (h : Popped heap cs) :
    heap = cs := by
  induction h with
  | empty => rfl
  | pop _ _ ih => rw [ih, Multiset.cons_coe]

theorem Popped.descending {heap : Multiset Candidate} {cs : List Candidate} (h : Popped heap cs) :
    cs.Pairwise fun a b => le b a = true := by
  induction h with
  | empty => exact .nil
  | pop greatest then_ ih =>
    refine List.pairwise_cons.mpr ⟨fun d hd => cmp_ne_gt.mp (greatest d ?_), ih⟩
    rwa [then_.contents, Multiset.mem_coe]

theorem popped_of_descending (cs : List Candidate) (h : cs.Pairwise fun a b => le b a = true) :
    Popped cs cs := by
  induction cs with
  | nil => exact .empty
  | cons c cs ih =>
    obtain ⟨hc, hcs⟩ := List.pairwise_cons.mp h
    exact .pop (fun d hd => cmp_ne_gt.mpr (hc d (Multiset.mem_coe.mp hd))) (ih hcs)

theorem popped_iff {cs ds : List Candidate} : Popped cs ds ↔ ds = (sort cs).reverse := by
  constructor
  · intro h
    have hperm : ds.reverse.Perm cs :=
      ds.reverse_perm.trans (Multiset.coe_eq_coe.mp h.contents).symm
    rw [← (eq_sort_iff hperm).mpr (List.pairwise_reverse.mpr h.descending), List.reverse_reverse]
  · rintro rfl
    have hcontents : (cs : Multiset Candidate) = (sort cs).reverse :=
      Multiset.coe_eq_coe.mpr (((sort cs).reverse_perm.trans (sort_perm cs)).symm)
    rw [hcontents]
    exact popped_of_descending _ (List.pairwise_reverse.mpr (pairwise_sort cs))

/-- The comparison is a total order, so all arrangements of some candidates are sorted into the same
list, which is the only ascending one, and a heap of them gives up its reverse. -/
theorem sorting_canonical : TotalOrder cmp ∧ ∀ cs ds : List Candidate, ds.Perm cs →
    sort ds = sort cs ∧ (ds = sort cs ↔ ds.Pairwise fun a b => cmp a b ≠ .gt) ∧
      ∀ popped, Popped ds popped ↔ popped = (sort cs).reverse := by
  refine ⟨totalOrder_cmp, fun cs ds h => ⟨sort_eq_of_perm h, ?_, fun popped => ?_⟩⟩
  · simp only [cmp_ne_gt]
    exact eq_sort_iff h
  · rw [popped_iff, sort_eq_of_perm h]

def zerosAndNaN : List Candidate :=
  [⟨⟨1, 0⟩, 0⟩, ⟨⟨1, 2⟩, 0x80000000⟩, ⟨⟨1, 4⟩, 0x7FC00000⟩, ⟨⟨0, 9⟩, 0⟩]

theorem sorting_canonical_zeros :
    sort zerosAndNaN.reverse = sort zerosAndNaN ∧
      sort zerosAndNaN =
        [⟨⟨1, 2⟩, 0x80000000⟩, ⟨⟨0, 9⟩, 0⟩, ⟨⟨1, 0⟩, 0⟩, ⟨⟨1, 4⟩, 0x7FC00000⟩] ∧
      Popped zerosAndNaN
        [⟨⟨1, 4⟩, 0x7FC00000⟩, ⟨⟨1, 0⟩, 0⟩, ⟨⟨0, 9⟩, 0⟩, ⟨⟨1, 2⟩, 0x80000000⟩] := by
  have hsort : sort zerosAndNaN =
      [⟨⟨1, 2⟩, 0x80000000⟩, ⟨⟨0, 9⟩, 0⟩, ⟨⟨1, 0⟩, 0⟩, ⟨⟨1, 4⟩, 0x7FC00000⟩] := by
    decide +kernel
  refine ⟨(sorting_canonical.2 _ _ zerosAndNaN.reverse_perm).1, hsort, ?_⟩
  rw [(sorting_canonical.2 _ _ (List.Perm.refl zerosAndNaN)).2.2, hsort]
  rfl

end Candidate

end PagedGraph
