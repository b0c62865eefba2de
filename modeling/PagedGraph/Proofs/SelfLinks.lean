import PagedGraph.Proofs.Recycling

/-!
# Elements that are linked to themselves

An insertion never writes a link back from a candidate that is the new element itself. But its own
neighbor list is made from candidates that are as old as the search. If such a candidate is deleted
meanwhile, the new element may be stored in its place, and is then its own neighbor.

No element comes to be linked to itself in another way (`self_links_traced`): a link from an element
to itself stems from an insertion that was stored where its own candidates lay, and such an insertion
is linked to itself in exactly the layers whose list names the place among the candidates that fit.
Without others at work nobody is.
-/

set_option autoImplicit false

namespace PagedGraph

def Store.LinksItself (s : Store) (m layer : Nat) (l : Location) : Prop :=
  ∃ e a, s.element l = .ok e ∧ s.adjacency e.neighborsAt = .ok a ∧ l ∈ a.layer e.level.toNat layer m

theorem Store.linksItself_iff {s : Store} {m layer : Nat} {l : Location} :
    s.LinksItself m layer l ↔ s.Link m layer l l := by
  refine exists_congr fun e => exists_congr fun a => ?_
  rw [s.element_eq_ok, s.adjacency_eq_ok]

/-- Complete operations of several writers. Between the search of an insertion and its commit others
do such operations as well.

Whoever is stored where a layer of his own candidates names a location, is stored at a location that
is `named` in that layer. -/
inductive Shared (p : Params) (width : Nat) (named : Nat → Location → Prop) :
    Store → Store → Prop where
  | none (s : Store) : Shared p width named s s
  | delete {s s' : Store} (past : Shared p width named s s') (l : Location) :
      Shared p width named s ((markDeleted l).after s')
  | insert {s s' : Store} (past : Shared p width named s s') (q : Params) (level : UInt8)
      (vector : Embedding) (row : RowId) (w : Interlude) (fits : vector.length = width)
      (searched : Shared p width named s' (w.searched s'))
      (looked : Shared p width named (w.searched s') (w.looked (w.searched s')))
      (refused : Shared p width named (w.looked (w.searched s'))
        (w.refused (w.looked (w.searched s'))))
      (numbered :
        ((overlapped Unit p q w (Draft.new level vector row)).run.after s' ()).1.Numbered)
      (own : ∀ l y x lists layer c,
        (overlapped Unit p q w (Draft.new level vector row)).run (s', ()) = .ok (.inserted l) y →
        s'.entry = some x → s'.searchFrom q ⟨vector, level.toNat, .none⟩ x = .ok lists →
        c ∈ lists.getD layer [] → c.location = l → named layer l) :
      Shared p width named s ((overlapped Unit p q w (Draft.new level vector row)).run.after s' ()).1

structure Interlude.Lawful (w : Interlude) (p : Params) (width : Nat) (s : Store) : Prop where
  searched : Shared p width (fun _ _ => True) s (w.searched s)
  looked : Shared p width (fun _ _ => True) (w.searched s) (w.looked (w.searched s))
  refused : Shared p width (fun _ _ => True) (w.looked (w.searched s))
    (w.refused (w.looked (w.searched s)))

/-- The store is in order, elements are where they were, links still lead to elements, and nobody has
got a link to himself whose location is not named. -/
structure Store.Traced (t : Header) (named : Nat → Location → Prop) (s s' : Store) : Prop where
  intact : s'.Intact t
  elements : ∀ k e, s.record? k = some (.element e) → ∃ f, s'.record? k = some (.element f)
  resolves : s.Resolves → s'.Resolves
  named : (∀ layer l, s.Link t.m.toNat layer l l → named layer l) →
    ∀ layer l, s'.Link t.m.toNat layer l l → named layer l

section
variable {t : Header} {named : Nat → Location → Prop} {s s' s'' : Store}

theorem Store.Traced.refl (h : s.Intact t) : s.Traced t named s :=
  ⟨h, fun _ e he => ⟨e, he⟩, id, id⟩

theorem Store.Traced.trans (h : s.Traced t named s') (h' : s'.Traced t named s'') :
    s.Traced t named s'' :=
  ⟨h'.intact, fun k e he => (h.elements k e he).elim fun f hf => h'.elements k f hf,
    fun hs => h'.resolves (h.resolves hs), fun hs => h'.named (h.named hs)⟩

theorem Store.Rewritten.traced {l : Location} {e e' : Element}
    (hrew : s.Rewritten s' l (.element e')) (hintact : s'.Intact t)
    (he : s.record? l = some (.element e))
    (hsame : e'.level = e.level ∧ e'.neighborsAt = e.neighborsAt) : s.Traced t named s' :=
  ⟨hintact, fun _ _ hf => hrew.puts.element hf, fun hs => hs.rewritten hrew,
    fun hs layer k hk => hs layer k ((hrew.link he hsame _ layer k k).mp hk)⟩

theorem markDeleted_traced (h : s.Intact t) (l : Location) :
    s.Traced t named ((markDeleted l).after s) := by
  rcases markDeleted_after h l with hsame | ⟨e, he, -, hintact, hrew⟩
  · rw [hsame]
    exact .refl h
  · exact hrew.traced hintact he ⟨rfl, rfl⟩

theorem Insertion.Ended.traced {d : Draft} {r : Except Error Outcome}
    (hended : Insertion.Ended t s d r s') (h : s.Intact t)
    (hcs : ∀ i, s.Occupied (d.neighbors.getD i []))
    (hown : ∀ l layer, ∀ c ∈ d.neighbors.getD layer [], r = .ok (.inserted l) → c.location = l →
      named layer l) : s.Traced t named s' := by
  cases hended with
  | failed e => exact .refl h
  | joined l e place s' found intact rewritten => exact rewritten.traced intact found ⟨rfl, rfl⟩
  | stored st s₁ s' room placed woven =>
    refine ⟨woven.intact placed.intact, fun k e he => (Insertion.woven_puts h placed woven).element he,
      fun hs => woven.resolves ⟨_, placed.element⟩ (placed_resolves h hs hcs placed),
      fun hs layer l hl => ?_⟩
    by_cases hat : l = st.location
    · subst hat
      obtain ⟨-, -, hmem⟩ := (Insertion.woven_own h placed woven layer _).mp hl
      obtain ⟨c, hc, hcl⟩ := List.mem_map.mp (List.mem_of_mem_take hmem)
      exact hown _ layer c hc rfl hcl
    · rcases Insertion.woven_back h placed woven hat hl with hold | ⟨hself, -⟩
      · exact hs layer l hold
      · exact absurd hself hat

end

theorem Consulted.found {q : Params} {w : Interlude} {s s' : Store} {level : UInt8}
    {vector : Embedding} {row : RowId} {lists : List (List Candidate)}
    (h : Consulted q w s (Draft.new level vector row) lists s') :
    (s.entry = none → ∀ i, lists.getD i [] = []) ∧ ∀ x, s.entry = some x →
      s.searchFrom q ⟨vector, level.toNat, none⟩ x = .ok lists := by
  rcases h.chosen with ⟨hempty, rfl⟩ | ⟨y, hentry, found⟩
  · refine ⟨fun _ => Draft.neighbors_new level vector row, fun x hx => ?_⟩
    rw [hempty] at hx
    cases hx
  · refine ⟨fun hnone => ?_, fun x hx => ?_⟩
    · rw [hentry] at hnone
      cases hnone
    · obtain rfl := Option.some.inj (hentry.symm.trans hx)
      exact found

theorem Consulted.traced {t : Header} {named : Nat → Location → Prop} {q : Params} {w : Interlude}
    {s s₂ : Store} {d : Draft} {lists : List (List Candidate)} (h : s.Intact t)
    (hlinks : s.Resolves) (hsearched : s.Traced t named (w.searched s))
    (hlooked : (w.searched s).Intact t → (w.searched s).Resolves →
      (w.searched s).Traced t named (w.looked (w.searched s)))
    (hrefused : (w.looked (w.searched s)).Intact t → (w.looked (w.searched s)).Resolves →
      (w.looked (w.searched s)).Traced t named (w.refused (w.looked (w.searched s))))
    (hconsulted : Consulted q w s d lists s₂) : s.Traced t named s₂ := by
  have hlooked := hsearched.trans (hlooked hsearched.intact (hsearched.resolves hlinks))
  cases hconsulted with
  | first empty => exact .refl h
  | searched x lists entry found => exact hlooked
  | refused x lists entry found =>
    exact hlooked.trans (hrefused hlooked.intact (hlooked.resolves hlinks))

theorem Store.Traced.chosen {t : Header} {named : Nat → Location → Prop} {q : Params}
    {w : Interlude} {s s₂ : Store} {level : UInt8} {vector : Embedding} {row : RowId}
    {lists : List (List Candidate)} (h : s.Traced t named s₂)
    (hconsulted : Consulted q w s (Draft.new level vector row) lists s₂) (i : Nat) :
    s₂.Occupied (lists.getD i []) :=
  fun c hc => (hconsulted.occupied (Store.allLive_nil _) i c hc).elim fun f hf =>
    h.elements _ f hf

section
variable {p : Params} {t : Header} (hp : p.m = t.m.toNat)
include hp

theorem Shared.traced {named : Nat → Location → Prop} {s s' : Store}
    (hs : Shared p t.dimensions.toNat named s s') (h : s.Intact t) (hlinks : s.Resolves) :
    s.Traced t named s' := by
  induction hs with
  | none s => exact .refl h
  | delete past l ih => exact (ih h hlinks).trans (markDeleted_traced (ih h hlinks).intact l)
  | @insert s s' past q level vector row w fits _ _ _ numbered own ih hsearched hlooked hrefused =>
    have hpast := ih h hlinks
    have hopen := hpast.resolves hlinks
    have hconsulted := fun lists s₂ (hc : Consulted q w s' (Draft.new level vector row) lists s₂) =>
      hc.traced hpast.intact hopen (hsearched hpast.intact hopen) hlooked hrefused
    obtain ⟨r, s'', hrun, hcases⟩ := overlapped_ended q (Draft.new level vector row) () p hp fits
      (Store.allLive_nil _) (fun lists s₂ hc => ⟨(hconsulted lists s₂ hc).intact,
        (hconsulted lists s₂ hc).resolves hopen, (hconsulted lists s₂ hc).elements⟩) numbered
    have hafter : ((overlapped Unit p q w (Draft.new level vector row)).run.after s' ()).1 = s'' := by
      rw [ActionWith.after, hrun]
      cases r <;> rfl
    rw [hafter]
    refine hpast.trans ?_
    rcases hcases with ⟨e, -, rfl | rfl⟩ | ⟨lists, s₂, hc, hended⟩
    · exact .refl hpast.intact
    · exact hsearched hpast.intact hopen
    · have htraced := hconsulted lists s₂ hc
      refine htraced.trans (hended.traced htraced.intact (htraced.chosen hc) ?_)
      rintro l layer c hmem rfl hcl
      obtain ⟨hnone, hfound⟩ := hc.found
      cases hentry : s'.entry with
      | none =>
        have hno : c ∈ lists.getD layer [] := hmem
        rw [hnone hentry] at hno
        cases hno
      | some x => exact own l _ x lists layer c hrun hentry (hfound x hentry) hmem hcl

theorem overlapped_inserted {s s' : Store} (h : s.Intact t) (hlinks : s.Resolves) {q : Params} {level : UInt8}
    {vector : Embedding} {row : RowId} {w : Interlude} (fits : vector.length = t.dimensions.toNat)
    (hw : w.Lawful p t.dimensions.toNat s) {l : Location} (hn : s'.Numbered)
    (hrun : (overlapped Unit p q w (Draft.new level vector row)).run (s, ()) =
      .ok (.inserted l) (s', ())) :
    ∃ lists s₂ s₁ st, Consulted q w s (Draft.new level vector row) lists s₂ ∧ s₂.Intact t ∧
      st.location = l ∧
      Placed t s₂ s₁ { Draft.new level vector row with neighbors := lists } st ∧
      Woven t { Draft.new level vector row with
        neighbors := lists, location := st.location, neighborsAt := st.neighborsAt } s₁ s' := by
  have hconsulted := fun lists s₂ (hc : Consulted q w s (Draft.new level vector row) lists s₂) =>
    hc.traced h hlinks (hw.searched.traced hp h hlinks) (hw.looked.traced hp) (hw.refused.traced hp)
  obtain ⟨r, s'', hended, hcases⟩ := overlapped_ended q (Draft.new level vector row) () p hp fits
    (Store.allLive_nil _) (fun lists s₂ hc => ⟨(hconsulted lists s₂ hc).intact,
      (hconsulted lists s₂ hc).resolves hlinks, (hconsulted lists s₂ hc).elements⟩)
      (by rwa [ActionWith.after, hrun])
  obtain ⟨rfl, rfl⟩ : r = .ok (.inserted l) ∧ s'' = s' := by
    rw [hrun] at hended
    cases r with
    | error e => cases hended
    | ok o =>
      cases hended
      exact ⟨rfl, rfl⟩
  rcases hcases with ⟨e, he, -⟩ | ⟨lists, s₂, hc, hstored⟩
  · cases he
  · generalize hr : (.ok (.inserted l) : Except Error Outcome) = r at hstored
    cases hstored with
    | failed e => cases hr
    | joined => cases hr
    | stored st s₁ s' room placed woven =>
      cases hr
      exact ⟨lists, s₂, s₁, st, hc, (hconsulted lists s₂ hc).intact, rfl, placed, woven⟩

end

theorem Placed.not_chosen {t : Header} {q : Params} {s s' : Store} {level : UInt8}
    {vector : Embedding} {row : RowId} {lists : List (List Candidate)} {d : Draft} {st : Stored}
    (hplaced : Placed t s s' d st)
    (hconsulted : Consulted q .none s (Draft.new level vector row) lists s) (layer : Nat) :
    ∀ c ∈ lists.getD layer [], c.location ≠ st.location := by
  intro c hmem hcl
  obtain ⟨hnone, hfound⟩ := hconsulted.found
  cases hentry : s.entry with
  | none =>
    rw [hnone hentry] at hmem
    cases hmem
  | some x =>
    obtain ⟨f, hf, hlive⟩ :=
      (Store.searchFrom_live q _ x lists (hfound x hentry)).layer layer c hmem
    rw [hcl] at hf
    rw [hplaced.put.free f hf] at hlive
    cases hlive

structure SelfLinking (ix : Index) (named : Nat → Location → Prop) (s : Store) : Prop where
  /-- Their locations are named. -/
  traced : ∀ layer l, s.LinksItself ix.params.m layer l → named layer l
  /-- A new element is linked to itself in those layers for which its search has chosen its location,
  as far as there is room for what has been chosen. -/
  inserted : ∀ (q : Params) (level : UInt8) (vector : Embedding) (row : RowId) (w : Interlude)
    (l : Location) (s' : Store), vector.length = ix.dimensions →
    w.Lawful ix.params ix.dimensions s → s'.Numbered →
    (overlapped Unit ix.params q w (Draft.new level vector row)).run (s, ()) =
      .ok (.inserted l) (s', ()) →
    ∃ lists : List (List Candidate), (s.entry = none → ∀ i, lists.getD i [] = []) ∧
      (∀ x, s.entry = some x → s.searchFrom q ⟨vector, level.toNat, none⟩ x = .ok lists) ∧
      ∀ layer, s'.LinksItself ix.params.m layer l ↔ layer ≤ level.toNat ∧
        l ∈ ((lists.getD layer []).map Candidate.location).take (layerCapacity ix.params.m layer)
  /-- If nobody else has been at work, it is not linked to itself. -/
  alone : ∀ (q : Params) (level : UInt8) (vector : Embedding) (row : RowId) (l : Location)
    (s' : Store), vector.length = ix.dimensions → s'.Numbered →
    (overlapped Unit ix.params q .none (Draft.new level vector row)).run (s, ()) =
      .ok (.inserted l) (s', ()) → ∀ layer, ¬s'.LinksItself ix.params.m layer l

/-- Whatever several writers have done with an index that was opened empty, with others at work
between the searches and the commits of insertions: an element is linked to itself only where it was
stored at a location that its own search had chosen. -/
theorem self_links_traced {path : String} {dimensions : UInt32} {o : Options}
    {file file' : FileState} {ix : Index} {s₀ s : Store} (hblank : file.isBlank = true)
    (hopen : Index.openFile path dimensions o file = (.ok (ix, s₀), file'))
    {named : Nat → Location → Prop} (hshared : Shared ix.params ix.dimensions named s₀ s) :
    SelfLinking ix named s := by
  obtain ⟨hopened, rfl⟩ := Index.opened_of_blank hblank hopen
  have hp := hopened.m_eq
  have hwidth : ix.dimensions = (Index.template dimensions o).dimensions.toNat := hopened.width
  rw [hwidth] at hshared
  have hlinks : (Store.fresh (Index.template dimensions o)).Resolves := by
    intro k a ha
    rw [Index.record?_fresh hopened.params] at ha
    cases ha
  have htraced := hshared.traced hp hopened.intact hlinks
  constructor
  · intro layer l hl
    rw [Store.linksItself_iff, hp] at hl
    refine htraced.named (fun layer k hk => ?_) layer l hl
    -- In the empty store there are no links.
    obtain ⟨e, a, he, -⟩ := hk
    rw [Index.record?_fresh hopened.params] at he
    cases he
  · intro q level vector row w l s' fits hw hn hrun
    rw [hwidth] at fits hw
    obtain ⟨lists, s₂, s₁, st, hc, hintact, rfl, hplaced, hwoven⟩ :=
      overlapped_inserted hp htraced.intact (htraced.resolves hlinks) fits hw hn hrun
    obtain ⟨hnone, hfound⟩ := hc.found
    refine ⟨lists, hnone, hfound, fun layer => ?_⟩
    have hused : st.location.isUsed = true :=
      bne_iff_ne.mpr (hplaced.intact.page_ne hplaced.element)
    rw [Store.linksItself_iff, hp, Insertion.woven_own hintact hplaced hwoven]
    exact ⟨fun hl => ⟨hl.1, hl.2.2⟩, fun hl => ⟨hl.1, hused, hl.2⟩⟩
  · intro q level vector row l s' fits hn hrun layer hl
    rw [hwidth] at fits
    have hw : Interlude.none.Lawful ix.params (Index.template dimensions o).dimensions.toNat s :=
      ⟨.none _, .none _, .none _⟩
    obtain ⟨lists, s₂, s₁, st, hc, hintact, rfl, hplaced, hwoven⟩ :=
      overlapped_inserted hp htraced.intact (htraced.resolves hlinks) fits hw hn hrun
    obtain rfl := store_of_consulted hc
    rw [Store.linksItself_iff, hp, Insertion.woven_own hintact hplaced hwoven] at hl
    obtain ⟨c, hmem, hcl⟩ := List.mem_map.mp (List.mem_of_mem_take hl.2.2)
    exact hplaced.not_chosen hc layer c hmem hcl

theorem Shared.stored {p : Params} {width : Nat} {named : Nat → Location → Prop} {s s' s'' : Store}
    (past : Shared p width named s s') {q : Params} {level : UInt8} {vector : Embedding} {row : RowId}
    {w : Interlude} (fits : vector.length = width)
    (searched : Shared p width named s' (w.searched s'))
    (looked : Shared p width named (w.searched s') (w.looked (w.searched s')))
    (refused : Shared p width named (w.looked (w.searched s'))
      (w.refused (w.looked (w.searched s')))) {l : Location} (hn : s''.Numbered)
    (hrun : (overlapped Unit p q w (Draft.new level vector row)).run (s', ()) =
      .ok (.inserted l) (s'', ()))
    (own : ∀ x lists layer c, s'.entry = some x →
      s'.searchFrom q ⟨vector, level.toNat, .none⟩ x = .ok lists → c ∈ lists.getD layer [] →
      c.location = l → named layer l) : Shared p width named s s'' := by
  have hafter : ((overlapped Unit p q w (Draft.new level vector row)).run.after s' ()).1 = s'' := by
    rw [ActionWith.after, hrun]
  rw [← hafter]
  refine .insert past q level vector row w fits searched looked refused (by rwa [hafter]) ?_
  intro l' y x lists layer c hrun' hentry hfound hc hcl
  obtain ⟨hl, -⟩ := EStateM.Result.ok.inj (hrun.symm.trans hrun')
  obtain rfl : l = l' := Outcome.inserted.inj hl
  exact own x lists layer c hentry hfound hc hcl

section
open Index

theorem Index.HasFirst.others {s s' : Store} (h : HasFirst s)
    (hrun : (overlapped Unit wide.params wide.searching .none (Draft.new 2 (plain 1) 8)).run (s, ()) =
      .ok (.inserted ⟨1, 2⟩) (s', ())) (hsize : s'.pages.size = 2) (named : Nat → Location → Prop) :
    Shared wide.params wide.dimensions named s ((markDeleted ⟨1, 0⟩).after s') := by
  refine (Shared.stored (.none s) (length_plain 1) (.none _) (.none _) (.none _)
    (numbered_two hsize) hrun ?_).delete ⟨1, 0⟩
  intro x lists layer c hentry hfound hc hcl
  obtain rfl := Option.some.inj (h.entry.symm.trans hentry)
  exact absurd (((h.found hfound layer).1 c hc).symm.trans hcl) (by decide)

/-- While an insertion has the only element of an index as its candidate, another element is stored
and the candidate is deleted. The new element takes its place and is its own neighbor. -/
theorem self_links_reused : ∃ s, Shared wide.params wide.dimensions
      (fun layer l => layer = 0 ∧ l = ⟨1, 0⟩) (Store.fresh (template 900 Options.standard)) s ∧
    s.LinksItself wide.params.m 0 ⟨1, 0⟩ ∧
    SelfLinking wide (fun layer l => layer = 0 ∧ l = ⟨1, 0⟩) s := by
  obtain ⟨s₁, hfirst, hrun₁⟩ := first_stored
  obtain ⟨s₂, hboth, hrun₂⟩ := hfirst.second_stored
  have hothers := hfirst.others hrun₂ hboth.size fun layer l => layer = 0 ∧ l = ⟨1, 0⟩
  have hdeleted := hboth.delete
  generalize (markDeleted ⟨1, 0⟩).after s₂ = s₃ at hothers hdeleted
  obtain ⟨lists, hfound⟩ := hfirst.searched ⟨plain 2, (0 : UInt8).toNat, none⟩
  have hall := hfirst.found hfound
  obtain ⟨s₄, hstore, hsize⟩ := hdeleted.room { Draft.new 0 (plain 2) 9 with neighbors := lists }
    (length_plain 2) rfl
  have hsize₄ : s₄.pages.size = 2 := hsize.trans hdeleted.size
  obtain ⟨s₅, hrun, hplaced, hwoven⟩ := overlapped_stores wide.searching (Draft.new 0 (plain 2) 9) ()
    (w := ⟨id, fun _ => s₃, id⟩) wide.params hdeleted.settled.m_eq (length_plain 2) hfirst.entry
    hfound (findDuplicate_new (Store.searchFrom_live _ _ _ lists hfound)
      (hfirst.vector_ne (by decide))) hdeleted.settled.intact hdeleted.settled.navigable.links
    (fun i c hc => by
      rw [(hall i).1 c hc]
      exact ⟨_, hdeleted.atFirst⟩) hstore (numbered_two hsize₄)
  have hself : s₅.LinksItself wide.params.m 0 ⟨1, 0⟩ := by
    refine Store.linksItself_iff.mpr ((Insertion.woven_own hdeleted.settled.intact hplaced hwoven 0
      _).mpr ⟨Nat.zero_le _, by decide, ?_⟩)
    exact mem_take_of_only (hall 0).1 ((hall 0).2 (Nat.zero_le _) (Nat.zero_le _)) (by decide)
  have hshared : Shared wide.params wide.dimensions (fun layer l => layer = 0 ∧ l = ⟨1, 0⟩)
      (Store.fresh (template 900 Options.standard)) s₅ := by
    refine Shared.stored (Shared.stored (.none _) (length_plain 0) (.none _) (.none _) (.none _)
      (numbered_two hfirst.size) hrun₁ ?_) (length_plain 2) (.none _) hothers (.none _)
      (numbered_two (hwoven.size.trans hsize₄)) hrun ?_
    · intro x lists layer c hentry
      rw [Store.entry, Store.header_fresh] at hentry
      cases hentry
    · intro x lists' layer c hentry hfound' hc _
      obtain rfl := Option.some.inj (hfirst.entry.symm.trans hentry)
      obtain rfl := Except.ok.inj (hfound.symm.trans hfound')
      refine ⟨Nat.eq_zero_of_not_pos fun hpos => ?_, rfl⟩
      rw [Store.searchFrom_above hfound hpos] at hc
      cases hc
  have hblank : FileState.absent.isBlank = true := rfl
  exact ⟨s₅, hshared, hself,
    self_links_traced hblank (openFile_blank checkOptions_wide "index" .absent hblank) hshared⟩

end

end PagedGraph
