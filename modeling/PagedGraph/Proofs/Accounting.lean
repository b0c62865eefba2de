import PagedGraph.Proofs.Recycling

/-!
# Every call is accounted for

One user after the other calls an index that was opened on a blank file. Then every call changes
the live elements exactly as its answer says (`accounted_of_used`): no search, no reuse of a deleted
element's space, no link that is written back and no reopening loses, changes or revives any other
element.
-/

set_option autoImplicit false

namespace PagedGraph.Index

/-- An index that one user has opened on a blank file and has called again and again. Whenever it is
opened anew, dimensions, fan-out and metric are those of the first time. The pages must not run out
of numbers. -/
inductive Used (dimensions : UInt32) (o : Options) : Index → Store → Prop where
  | opened {path : String} {file file' : FileState} {ix : Index} {s : Store}
      (blank : file.isBlank = true)
      (opens : openFile path dimensions o file = (.ok (ix, s), file')) : Used dimensions o ix s
  | insert {ix : Index} {s : Store} (vector : Option Embedding) (row : RowId) (level : UInt8)
      (past : Used dimensions o ix s) (valid : row ≠ noRow)
      (numbered : ((ix.insertAtLevel vector row level).after s).Numbered) :
      Used dimensions o ix ((ix.insertAtLevel vector row level).after s)
  | delete {ix : Index} {s : Store} (l : Location) (past : Used dimensions o ix s) :
      Used dimensions o ix ((markDeleted l).after s)
  | tune {ix : Index} {s : Store} (width : Nat) (past : Used dimensions o ix s) :
      Used dimensions o (ix.withConstruction width) s
  | reopen {ix ix' : Index} {s s' : Store} {path : String} {o' : Options} {file' : FileState}
      (past : Used dimensions o ix s) (fanOut : o'.m = o.m) (metric : o'.metric = o.metric)
      (opens : openFile path dimensions o' s.close = (.ok (ix', s'), file')) :
      Used dimensions o ix' s'

/-- The scan goes through, and whatever the user does next changes the live elements as its answer
says. -/
structure Accounted (dimensions : UInt32) (o : Options) (ix : Index) (s : Store) : Prop where
  scan : ∃ found, s.scan = .ok found ∧ (found.map Prod.fst).Nodup
  insert : ∀ vector row level, row ≠ noRow →
    ((ix.insertAtLevel vector row level).after s).Numbered →
    Inserts o.metric vector row level s.liveMap ((ix.insertAtLevel vector row level).answer s)
      ((ix.insertAtLevel vector row level).after s).liveMap
  delete : ∀ l, Deletes l s.liveMap ((markDeleted l).answer s) ((markDeleted l).after s).liveMap
  reopen : ∀ (path : String) (o' : Options), o'.m = o.m → o'.metric = o.metric →
    match openFile path dimensions o' s.close with
    | (.ok (_, s'), _) => s'.liveMap = s.liveMap
    | (.error _, file) => file = s.close

variable {dimensions : UInt32} {o : Options} {ix : Index} {s : Store}

theorem Used.history (h : Used dimensions o ix s) : History dimensions o ix s := by
  induction h with
  | opened blank opens => exact .opened blank opens
  | insert vector row level past valid numbered ih => exact ih.insert vector row level numbered
  | delete l past ih => exact ih.delete l
  | tune width past ih => exact ih.tune width
  | reopen past fanOut metric opens ih => exact ih.reopen fanOut metric opens

theorem Used.stored (h : Used dimensions o ix s) {vector : Option Embedding} {row : RowId}
    {level : UInt8} {outcome : Outcome} {s' : Store} (valid : row ≠ noRow)
    (hrun : ix.insertAtLevel vector row level s = .ok outcome s') (hn : s'.Numbered) :
    Used dimensions o ix s' := by
  have hafter := Action.after_ok hrun
  have hinsert := h.insert vector row level valid (by rwa [hafter])
  rwa [hafter] at hinsert

/-- Every call on an index that one user has opened on a blank file changes the live elements
exactly as its answer says. -/
theorem accounted_of_used (h : Used dimensions o ix s) : Accounted dimensions o ix s := by
  obtain ⟨o', hm, hmetric, hopened⟩ := h.history.settled
  have hparams := (checkOptions_ok hopened.params).2.2.1
  constructor
  · obtain ⟨found, hscan, hn, -⟩ := Store.scan_eq hopened.intact.toFormed
    exact ⟨found, hscan, hn⟩
  · intro vector row level hrow hb
    rw [← hmetric, ← hparams]
    exact (insertAtLevel_inserts hopened.intact ix hopened.m_eq hopened.width vector row level hrow
      hb).2
  · intro l
    exact (markDeleted_deletes hopened.intact l).2
  · intro path o₂ hm₂ hmetric₂
    have hintact := hopened.intact_of (hm₂.trans hm.symm) (hmetric₂.trans hmetric.symm)
    cases hcheck : checkOptions dimensions o₂ with
    | error e =>
      rw [openFile_unchecked hcheck]
    | ok params =>
      rw [openFile_close hcheck hintact]

/-- Two elements are stored, the first one is deleted, and the index is opened anew. -/
theorem accounted_reopened : ∃ s, Used 900 Options.standard wide s ∧
    s.element ⟨1, 0⟩ = .ok first.tombstone ∧ s.liveMap ⟨1, 0⟩ = none ∧
    s.liveMap ⟨1, 2⟩ = some ⟨2, plain 1, [8]⟩ ∧ Accounted 900 Options.standard wide s := by
  obtain ⟨s₁, hfirst, hrun₁⟩ := first_stored
  obtain ⟨s₂, hboth, hrun₂⟩ := hfirst.second_stored
  have hused : Used 900 Options.standard wide s₂ :=
    ((Used.opened rfl (openFile_blank checkOptions_wide "index" .absent rfl)).stored (by decide)
      (insert_wide (by decide) (by decide) hrun₁) (numbered_two hfirst.size)).stored (by decide)
      (insert_wide (by decide) (by decide) hrun₂) (numbered_two hboth.size)
  have hdeleted := hboth.delete
  have hintact := hdeleted.settled.intact
  have hreopened := Used.reopen (hused.delete ⟨1, 0⟩) (by rfl) (by rfl)
    (openFile_close checkOptions_wide hintact "index")
  refine ⟨_, hreopened, (Store.element_eq_ok _ _ _).mpr hdeleted.atFirst, ?_, ?_,
    accounted_of_used hreopened⟩
  · exact Store.liveMap_element hintact.toFormed hdeleted.atFirst
  · have hrows : second.rows = [8] := Element.rows_single 2 (plain 1) 8 (by decide)
    rw [Store.liveMap_element hintact.toFormed hdeleted.atSecond, Element.live?_of_live rfl, hrows]
    rfl

end PagedGraph.Index
