import PagedGraph.Distance

/-!
# Neighbor candidates

A candidate is an element seen from a query: its location and its distance. Candidates are ordered
by distance and, at equal distance, by location. The order is total and tells any two candidates
apart (`le_total`, `le_trans`, `le_antisymm`); sorting is therefore canonical.
-/

set_option autoImplicit false

namespace PagedGraph

/-- An element and its distance from a query. -/
structure Candidate where
  location : Location
  distance : FloatBits
  deriving DecidableEq, Repr

namespace Candidate

def le (a b : Candidate) : Bool :=
  FloatBits.orderKey a.distance < FloatBits.orderKey b.distance ||
    (a.distance == b.distance && a.location.rank ≤ b.location.rank)

def insert (c : Candidate) : List Candidate → List Candidate
  | [] => [c]
  | d :: ds => if le c d then c :: d :: ds else d :: insert c ds

def sort (cs : List Candidate) : List Candidate := cs.foldr insert []

theorem le_iff {a b : Candidate} : le a b = true ↔
    FloatBits.orderKey a.distance < FloatBits.orderKey b.distance ∨
      FloatBits.orderKey a.distance = FloatBits.orderKey b.distance ∧
        a.location.rank ≤ b.location.rank := by
  have : a.distance = b.distance ↔
      FloatBits.orderKey a.distance = FloatBits.orderKey b.distance :=
    ⟨congrArg _, FloatBits.orderKey_inj⟩
  simp [le, this]

theorem le_refl (a : Candidate) : le a a = true := by
  simp [le_iff]

theorem le_total (a b : Candidate) : le a b = true ∨ le b a = true := by
  simp only [le_iff]
  omega

theorem le_trans {a b c : Candidate} (hab : le a b = true) (hbc : le b c = true) :
    le a c = true := by
  simp only [le_iff] at *
  omega

theorem le_antisymm {a b : Candidate} (hab : le a b = true) (hba : le b a = true) : a = b := by
  simp only [le_iff] at hab hba
  have hd : a.distance = b.distance := FloatBits.orderKey_inj (by omega)
  have hl : a.location = b.location := Location.rank_inj (by omega)
  obtain ⟨la, da⟩ := a
  obtain ⟨lb, db⟩ := b
  simp_all

theorem insert_perm (c : Candidate) (ds : List Candidate) : (c.insert ds).Perm (c :: ds) := by
  induction ds with
  | nil => exact .refl _
  | cons d ds ih =>
    rw [insert]
    split
    · exact .refl _
    · exact (ih.cons d).trans (.swap c d ds)

theorem sort_perm (cs : List Candidate) : (sort cs).Perm cs := by
  induction cs with
  | nil => exact .refl _
  | cons c cs ih => exact (insert_perm c (sort cs)).trans (ih.cons c)

theorem pairwise_insert (c : Candidate) {ds : List Candidate}
    (h : ds.Pairwise fun a b => le a b = true) :
    (c.insert ds).Pairwise fun a b => le a b = true := by
  induction ds with
  | nil => simp [insert]
  | cons d ds ih =>
    have hd := List.pairwise_cons.mp h
    rw [insert]
    split
    · rename_i hcd
      refine List.pairwise_cons.mpr ⟨fun x hx => ?_, h⟩
      rcases List.mem_cons.mp hx with rfl | hx
      · exact hcd
      · exact le_trans hcd (hd.1 x hx)
    · rename_i hcd
      refine List.pairwise_cons.mpr ⟨fun x hx => ?_, ih hd.2⟩
      rcases List.mem_cons.mp ((insert_perm c ds).mem_iff.mp hx) with rfl | hx
      · exact (le_total x d).resolve_left hcd
      · exact hd.1 x hx

theorem pairwise_sort (cs : List Candidate) : (sort cs).Pairwise fun a b => le a b = true := by
  induction cs with
  | nil => exact .nil
  | cons c cs ih => exact pairwise_insert c ih

end Candidate

structure EntryPoint where
  location : Location
  level : UInt8
  deriving DecidableEq, Repr

end PagedGraph
