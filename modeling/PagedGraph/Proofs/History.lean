import PagedGraph.Proofs.Fitting
import PagedGraph.Proofs.LiveElements
import PagedGraph.Proofs.Navigation

/-!
# The history of an index

One user calls an index that was opened on a blank file, with whatever arguments. After every call
the entry point is on top: there is one as soon as there is an element, it leads to an element of
its own level, and no element is higher. No call stores another element in its place
(`entry_tracked`).
-/

set_option autoImplicit false

namespace PagedGraph.Index

/-- An index that one user has opened on a blank file and has called again and again. Whenever it is
opened anew, dimensions, fan-out and metric are those of the first time. The pages must not run out
of numbers. -/
inductive History (dimensions : UInt32) (o : Options) : Index → Store → Prop where
  | opened {path : String} {file file' : FileState} {ix : Index} {s : Store}
      (blank : file.isBlank = true)
      (opens : openFile path dimensions o file = (.ok (ix, s), file')) : History dimensions o ix s
  | insert {ix : Index} {s : Store} (vector : Option Embedding) (row : RowId) (level : UInt8)
      (past : History dimensions o ix s)
      (numbered : ((ix.insertAtLevel vector row level).after s).Numbered) :
      History dimensions o ix ((ix.insertAtLevel vector row level).after s)
  | delete {ix : Index} {s : Store} (l : Location) (past : History dimensions o ix s) :
      History dimensions o ix ((markDeleted l).after s)
  | tune {ix : Index} {s : Store} (width : Nat) (past : History dimensions o ix s) :
      History dimensions o (ix.withConstruction width) s
  | reopen {ix ix' : Index} {s s' : Store} {path : String} {o' : Options} {file' : FileState}
      (past : History dimensions o ix s) (fanOut : o'.m = o.m) (metric : o'.metric = o.metric)
      (opens : openFile path dimensions o' s.close = (.ok (ix', s'), file')) :
      History dimensions o ix' s'

variable {dimensions : UInt32} {o : Options} {ix : Index} {s : Store}

def searching (ix : Index) : Params := { ix.params with searchWidth := ix.constructionWidth }

structure Settled (dimensions : UInt32) (o : Options) (ix : Index) (s : Store) : Prop
    extends Opened dimensions o ix s where
  navigable : s.Navigable

theorem Settled.searching_pos (h : Settled dimensions o ix s) : 0 < ix.searching.m := h.m_pos

theorem Settled.insert (h : Settled dimensions o ix s) (vector : Option Embedding) (row : RowId)
    (level : UInt8) (hb : ((ix.insertAtLevel vector row level).after s).Numbered) :
    Settled dimensions o ix ((ix.insertAtLevel vector row level).after s) := by
  rcases insertAtLevel_effect h.intact ix h.m_eq h.width vector row level hb with
    ⟨hsame, -⟩ | ⟨v, w, -, -, heffect⟩
  · rw [hsame]
    exact h
  · exact ⟨⟨h.params, h.width, heffect.intact h.intact⟩, heffect.navigable h.intact h.navigable⟩

theorem Settled.delete (h : Settled dimensions o ix s) (l : Location) :
    Settled dimensions o ix ((markDeleted l).after s) :=
  ⟨⟨h.params, h.width, (markDeleted_deletes h.intact l).1⟩,
    markDeleted_navigable h.intact h.navigable l⟩

theorem settled_of_blank {path : String} {file file' : FileState} (blank : file.isBlank = true)
    (opens : openFile path dimensions o file = (.ok (ix, s), file')) :
    Settled dimensions o ix s := by
  obtain ⟨hopened, rfl⟩ := opened_of_blank blank opens
  refine ⟨hopened, Store.navigable_of_empty ?_ (record?_fresh hopened.params)⟩
  rw [Store.entry, Store.header_fresh]
  rfl

theorem Settled.reopen (h : Settled dimensions o ix s) {ix' : Index} {s' : Store} {path : String}
    {o' : Options} {file' : FileState} (fanOut : o'.m = o.m) (metric : o'.metric = o.metric)
    (opens : openFile path dimensions o' s.close = (.ok (ix', s'), file')) :
    s' = s ∧ Settled dimensions o' ix' s := by
  have hintact := h.intact_of fanOut metric
  cases hcheck : checkOptions dimensions o' with
  | error e =>
    rw [openFile_unchecked hcheck] at opens
    cases (Prod.mk.inj opens).1
  | ok params =>
    rw [openFile_close hcheck hintact] at opens
    obtain ⟨rfl, rfl⟩ := Prod.mk.inj (Except.ok.inj (Prod.mk.inj opens).1)
    exact ⟨rfl, ⟨hcheck, rfl, hintact⟩, h.navigable⟩

theorem History.settled (h : History dimensions o ix s) :
    ∃ o', o'.m = o.m ∧ o'.metric = o.metric ∧ Settled dimensions o' ix s := by
  induction h with
  | opened blank opens =>
    exact ⟨o, rfl, rfl, settled_of_blank blank opens⟩
  | insert vector row level past numbered ih =>
    obtain ⟨o', hm, hmetric, hsettled⟩ := ih
    exact ⟨o', hm, hmetric, hsettled.insert vector row level numbered⟩
  | delete l past ih =>
    obtain ⟨o', hm, hmetric, hsettled⟩ := ih
    exact ⟨o', hm, hmetric, hsettled.delete l⟩
  | tune width past ih =>
    obtain ⟨o', hm, hmetric, hsettled⟩ := ih
    exact ⟨o', hm, hmetric, ⟨hsettled.params, hsettled.width, hsettled.intact⟩, hsettled.navigable⟩
  | @reopen ix ix' s s' path o₂ file' past fanOut metric opens ih =>
    obtain ⟨o', hm, hmetric, hsettled⟩ := ih
    obtain ⟨rfl, hsettled'⟩ :=
      hsettled.reopen (fanOut.trans hm.symm) (metric.trans hmetric.symm) opens
    exact ⟨o₂, fanOut, metric, hsettled'⟩

theorem History.stored (h : History dimensions o ix s) {vector : Option Embedding} {row : RowId}
    {level : UInt8} {outcome : Outcome} {s' : Store}
    (hrun : ix.insertAtLevel vector row level s = .ok outcome s') (hn : s'.Numbered) :
    History dimensions o ix s' := by
  have hafter := Action.after_ok hrun
  have hinsert := h.insert vector row level (by rwa [hafter])
  rwa [hafter] at hinsert

/-- The entry point is on top, and no call stores another element in its place. -/
structure EntryTracked (ix : Index) (s : Store) : Prop where
  absent : s.entry = none ↔ ∀ l e, s.element l ≠ .ok e
  found : ∀ x, s.entry = some x → ∃ e, s.element x.location = .ok e ∧ e.level = x.level
  highest : ∀ x l e, s.entry = some x → s.element l = .ok e → e.level ≤ x.level
  insert : ∀ vector row level, ((ix.insertAtLevel vector row level).after s).Numbered →
    s.Stays ((ix.insertAtLevel vector row level).after s) ∧
      ∀ l x, (ix.insertAtLevel vector row level).answer s = .ok (.inserted l) →
        s.entry = some x → l ≠ x.location
  delete : ∀ l, s.Stays ((markDeleted l).after s)

/-- Whatever one user has done with an index that was opened on a blank file, the entry point is an
element of its level, none is higher, and it is in nobody's way. -/
theorem entry_tracked (h : History dimensions o ix s) : EntryTracked ix s := by
  obtain ⟨o', -, -, hsettled⟩ := h.settled
  have hnav := hsettled.navigable
  constructor
  · constructor
    · intro hnone l e he
      exact hnav.absent hnone l e ((s.element_eq_ok l e).mp he)
    · intro hnone
      cases hentry : s.entry with
      | none => rfl
      | some x =>
        obtain ⟨e, he, -⟩ := hnav.found x hentry
        exact absurd ((s.element_eq_ok _ e).mpr he) (hnone _ e)
  · intro x hx
    obtain ⟨e, he, hlevel⟩ := hnav.found x hx
    exact ⟨e, (s.element_eq_ok _ e).mpr he, hlevel⟩
  · intro x l e hx he
    exact hnav.highest x l e hx ((s.element_eq_ok l e).mp he)
  · intro vector row level hb
    rcases insertAtLevel_effect hsettled.intact ix hsettled.m_eq hsettled.width vector row level hb
      with ⟨hsame, hanswer⟩ | ⟨v, w, -, -, heffect⟩
    · rw [hsame]
      refine ⟨.refl s, fun l x hinserted => ?_⟩
      rcases hanswer with ⟨e, he⟩ | ⟨reason, hskip⟩
      · rw [he] at hinserted
        cases hinserted
      · rw [hskip] at hinserted
        cases hinserted
    · exact heffect.stays hsettled.intact hnav
  · intro l
    exact markDeleted_stays hsettled.intact l

theorem construction_eq (τ : Type) (h : ix.constructionWidth = ix.params.searchWidth) :
    ix.construction τ = layerSearch τ ix.params := by
  rw [construction, h]

theorem history_new_file : History 2 Options.standard ⟨Params.standard, 2, 64⟩
    (Store.fresh (template 2 Options.standard)) :=
  .opened rfl (openFile_blank checkOptions_new_file "index" .absent rfl)

theorem finite_zeros : ∀ x ∈ ([0, 0] : Embedding), FloatBits.isFinite x = true := by
  intro x hx
  obtain rfl : x = 0 := by simpa using hx
  decide

theorem insert_new_file : ∃ s, insertAtLevel ⟨Params.standard, 2, 64⟩ (some [0, 0]) 7 1
      (Store.fresh (template 2 Options.standard)) = .ok (.inserted ⟨1, 0⟩) s ∧
    s.entry = some ⟨⟨1, 0⟩, 1⟩ ∧ s.pages.size = 2 := by
  obtain ⟨s₁, k, hrun, -, -, hentry, hsize⟩ :=
    inserted_new_file (layerSearch Unit Params.standard) () (show (1 : UInt8).toNat ≤ 1 by decide)
  have hprepare : prepare ⟨Params.standard, 2, 64⟩ [0, 0] = some [0, 0] := rfl
  have hconstruction : construction ⟨Params.standard, 2, 64⟩ Unit =
      layerSearch Unit Params.standard := construction_eq Unit rfl
  have hinsert : insertAtLevel ⟨Params.standard, 2, 64⟩ (some [0, 0]) 7 1 =
      (insertElement Params.standard (layerSearch Unit Params.standard)
        (Draft.new 1 [0, 0] 7)).alone := by
    rw [insertAtLevel_valid ⟨Params.standard, 2, 64⟩ 7 (by decide +kernel) rfl finite_zeros,
      hprepare, hconstruction]
  have hdone : insertElement Params.standard (layerSearch Unit Params.standard)
      (Draft.new 1 [0, 0] 7) (Store.fresh (template 2 Options.standard), ()) =
        .ok (.inserted ⟨1, 0⟩) (s₁, ()) := hrun.run
  refine ⟨s₁, ?_, hentry, hsize⟩
  rw [hinsert, ActionWith.alone, hdone]

theorem history_first : ∃ s, (insertAtLevel ⟨Params.standard, 2, 64⟩ (some [0, 0]) 7 1).after
      (Store.fresh (template 2 Options.standard)) = s ∧
    History 2 Options.standard ⟨Params.standard, 2, 64⟩ s ∧ s.entry = some ⟨⟨1, 0⟩, 1⟩ ∧
    s.pages.size = 2 := by
  obtain ⟨s₁, hinsert, hentry, hsize⟩ := insert_new_file
  have hafter := Action.after_ok hinsert
  refine ⟨s₁, hafter, ?_, hentry, hsize⟩
  have hnumbered : s₁.Numbered := by
    rw [Store.Numbered, hsize]
    decide
  rw [← hafter] at hnumbered ⊢
  exact history_new_file.insert _ _ _ hnumbered

theorem entry_tracked_deleted : ∃ s, Store.entry s = some ⟨⟨1, 0⟩, 1⟩ ∧
    EntryTracked ⟨Params.standard, 2, 64⟩ ((markDeleted ⟨1, 0⟩).after s) := by
  obtain ⟨s, -, hhistory, hentry, -⟩ := history_first
  exact ⟨s, hentry, entry_tracked (hhistory.delete ⟨1, 0⟩)⟩

end PagedGraph.Index
