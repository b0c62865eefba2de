import PagedGraph.Proofs.Recycling

/-!
# The layers of links

A link on a layer is made to an element that reaches the layer. It stays when the element is deleted
and another one, maybe on a lower level, is stored in its place (`links_above_level`). Searches come
upon such an element on layers that it does not reach, and new elements may be linked to it there.

So what can be said of a link on a layer is this: some element that has been stored where it leads
reaches the layer. It is the one that is there now, unless its space had been used before
(`layers_of_chronicle`).
-/

set_option autoImplicit false

namespace PagedGraph

/-- The levels of the elements that have been stored at each location, the last one first. -/
abbrev Levels := Location → List UInt8

def Levels.note (levels : Levels) (level : UInt8) : Except Error Outcome → Levels
  | .ok (.inserted l) => fun k => if k = l then level :: levels k else levels k
  | _ => levels

def Levels.Reach (levels : Levels) (layer : Nat) (l : Location) : Prop :=
  ∃ level ∈ levels l, layer ≤ level.toNat

theorem Levels.note_nowhere (levels : Levels) (level : UInt8) {r : Except Error Outcome}
    (h : ∀ l, r ≠ .ok (.inserted l)) : levels.note level r = levels := by
  match r, h with
  | .error _, _ => rfl
  | .ok (.coalesced _), _ => rfl
  | .ok (.skipped _), _ => rfl
  | .ok (.inserted l), h => exact absurd rfl (h l)

theorem Levels.Reach.stored {levels : Levels} {layer : Nat} {l : Location}
    (h : levels.Reach layer l) (level : UInt8) (k : Location) :
    (levels.note level (.ok (.inserted k))).Reach layer l := by
  obtain ⟨old, hold, hlayer⟩ := h
  refine ⟨old, ?_, hlayer⟩
  show old ∈ if l = k then level :: levels l else levels l
  split
  · exact List.mem_cons_of_mem _ hold
  · exact hold

/-- The last one to be stored at the location of an element is this element, and all links on a layer
lead to where somebody who reaches it has been stored. -/
structure Store.Layered (m : Nat) (s : Store) (levels : Levels) : Prop where
  last : ∀ l e, s.record? l = some (.element e) → ∃ older, levels l = e.level :: older
  links : ∀ layer l k, s.Link m layer l k → levels.Reach layer k

section
variable {t : Header} {s s' : Store} {levels : Levels}

theorem Store.Layered.rewritten {m : Nat} (h : s.Layered m levels) {l : Location} {e e' : Element}
    (hrew : s.Rewritten s' l (.element e')) (he : s.record? l = some (.element e))
    (hsame : e'.level = e.level ∧ e'.neighborsAt = e.neighborsAt) : s'.Layered m levels where
  last := by
    intro k f hf
    have hput := (hrew.puts k f).mp hf
    by_cases hk : k = l
    · rw [if_pos hk] at hput
      rw [hput, hsame.1, hk]
      exact h.last l e he
    · rw [if_neg hk] at hput
      exact h.last k f hput
  links := by
    intro layer j k hk
    exact h.links layer j k ((hrew.link he hsame m layer j k).mp hk)

theorem Consulted.reach {q : Params} {d : Draft} {lists : List (List Candidate)}
    (h : Consulted q .none s d lists s') (hlayered : s.Layered q.m levels) (hnav : s.Navigable)
    (hpos : 0 < q.m) (hd : ∀ i, d.neighbors.getD i [] = []) (i : Nat) :
    ∀ c ∈ lists.getD i [], levels.Reach i c.location := by
  intro c hc
  rcases h.chosen with ⟨-, rfl⟩ | ⟨x, hentry, hfound⟩
  · rw [hd] at hc
    cases hc
  · obtain ⟨e, he, hlevel⟩ := hnav.found x hentry
    obtain ⟨older, holder⟩ := hlayered.last x.location e he
    have hstart : levels.Reach x.level.toNat x.location :=
      ⟨e.level, by rw [holder]; exact List.mem_cons_self,
        Nat.le_of_eq (congrArg UInt8.toNat hlevel.symm)⟩
    by_cases hi : i ≤ d.level.toNat
    · obtain ⟨found, hbeams, -, hchosen⟩ := Store.searchFrom_beams hfound
      rw [hchosen i hi] at hc
      exact (beamsFrom_holds hpos (fun layer l k _ hk => hlayered.links layer l k hk)
        (fun layer l hl => hl.imp fun _ h => ⟨h.1, Nat.le_of_succ_le h.2⟩) hstart hbeams i).1 c
        (Store.mem_of_choose hc)
    · rw [Store.searchFrom_above hfound (Nat.not_le.mp hi)] at hc
      cases hc

theorem Insertion.Ended.layered {d : Draft} {r : Except Error Outcome}
    (hended : Insertion.Ended t s d r s') (h : s.Intact t) (hlayered : s.Layered t.m.toNat levels)
    (hlists : ∀ i, ∀ c ∈ d.neighbors.getD i [], levels.Reach i c.location) :
    s'.Layered t.m.toNat (levels.note d.level r) := by
  cases hended with
  | failed e => exact hlayered
  | joined l e place s' found intact rewritten => exact hlayered.rewritten rewritten found ⟨rfl, rfl⟩
  | stored st s₁ s' room placed woven =>
    have hputs := Insertion.woven_puts h placed woven
    have hnow : levels.note d.level (.ok (.inserted st.location)) st.location =
        d.level :: levels st.location := if_pos rfl
    constructor
    · intro l e he
      have hput := (hputs l e).mp he
      by_cases hl : l = st.location
      · rw [if_pos hl] at hput
        rw [hl, hnow, hput]
        exact ⟨_, rfl⟩
      · rw [if_neg hl] at hput
        have hother : levels.note d.level (.ok (.inserted st.location)) l = levels l := if_neg hl
        rw [hother]
        exact hlayered.last l e hput
    · intro layer l k hk
      by_cases hl : l = st.location
      · rw [hl] at hk
        obtain ⟨-, -, hmem⟩ := (Insertion.woven_own h placed woven layer k).mp hk
        obtain ⟨c, hc, rfl⟩ := List.mem_map.mp (List.mem_of_mem_take hmem)
        exact (hlists layer c hc).stored _ _
      · rcases Insertion.woven_back h placed woven hl hk with hold | ⟨rfl, hlow, -⟩
        · exact (hlayered.links layer l k hold).stored _ _
        · exact ⟨d.level, by rw [hnow]; exact List.mem_cons_self, hlow⟩

end

namespace Index

inductive Chronicle (dimensions : UInt32) (o : Options) : Index → Store → Levels → Prop where
  | opened {path : String} {file file' : FileState} {ix : Index} {s : Store}
      (blank : file.isBlank = true)
      (opens : openFile path dimensions o file = (.ok (ix, s), file')) :
      Chronicle dimensions o ix s fun _ => []
  | insert {ix : Index} {s : Store} {levels : Levels} (vector : Option Embedding) (row : RowId)
      (level : UInt8) (past : Chronicle dimensions o ix s levels)
      (numbered : ((ix.insertAtLevel vector row level).after s).Numbered) :
      Chronicle dimensions o ix ((ix.insertAtLevel vector row level).after s)
        (levels.note level ((ix.insertAtLevel vector row level).answer s))
  | delete {ix : Index} {s : Store} {levels : Levels} (l : Location)
      (past : Chronicle dimensions o ix s levels) :
      Chronicle dimensions o ix ((markDeleted l).after s) levels
  | tune {ix : Index} {s : Store} {levels : Levels} (width : Nat)
      (past : Chronicle dimensions o ix s levels) :
      Chronicle dimensions o (ix.withConstruction width) s levels
  | reopen {ix ix' : Index} {s s' : Store} {levels : Levels} {path : String} {o' : Options}
      {file' : FileState} (past : Chronicle dimensions o ix s levels) (fanOut : o'.m = o.m)
      (metric : o'.metric = o.metric)
      (opens : openFile path dimensions o' s.close = (.ok (ix', s'), file')) :
      Chronicle dimensions o ix' s' levels

variable {dimensions : UInt32} {o : Options} {ix : Index} {s : Store} {levels : Levels}

theorem Chronicle.history (h : Chronicle dimensions o ix s levels) : History dimensions o ix s := by
  induction h with
  | opened blank opens => exact .opened blank opens
  | insert vector row level past numbered ih => exact .insert vector row level ih numbered
  | delete l past ih => exact .delete l ih
  | tune width past ih => exact .tune width ih
  | reopen past fanOut metric opens ih => exact .reopen ih fanOut metric opens

theorem History.chronicle (h : History dimensions o ix s) :
    ∃ levels, Chronicle dimensions o ix s levels := by
  induction h with
  | opened blank opens => exact ⟨_, .opened blank opens⟩
  | insert vector row level past numbered ih =>
    exact ih.imp' _ fun levels hlevels => .insert vector row level hlevels numbered
  | delete l past ih => exact ih.imp fun levels hlevels => .delete l hlevels
  | tune width past ih => exact ih.imp fun levels hlevels => .tune width hlevels
  | reopen past fanOut metric opens ih =>
    exact ih.imp fun levels hlevels => .reopen hlevels fanOut metric opens

theorem Chronicle.stored (h : Chronicle dimensions o ix s levels) {vector : Option Embedding}
    {row : RowId} {level : UInt8} {l : Location} {s' : Store}
    (hrun : ix.insertAtLevel vector row level s = .ok (.inserted l) s') (hn : s'.Numbered) :
    Chronicle dimensions o ix s' fun k => if k = l then level :: levels k else levels k := by
  have hafter := Action.after_ok hrun
  have hanswer : (ix.insertAtLevel vector row level).answer s = .ok (.inserted l) := by
    rw [Action.answer, hrun]
  have hinsert := h.insert vector row level (by rwa [hafter])
  rwa [hafter, hanswer] at hinsert

theorem Chronicle.layered (h : Chronicle dimensions o ix s levels) :
    s.Layered o.m.toNat levels := by
  induction h with
  | opened blank opens =>
    obtain ⟨hopened, rfl⟩ := opened_of_blank blank opens
    constructor
    · intro l e he
      rw [record?_fresh hopened.params] at he
      cases he
    · rintro layer l k ⟨e, a, he, -⟩
      rw [record?_fresh hopened.params] at he
      cases he
  | @insert ix s levels vector row level past numbered ih =>
    obtain ⟨o', hm, -, hsettled⟩ := past.history.settled
    rw [← hm] at ih ⊢
    have hcourse := hsettled.course vector row level numbered
    generalize insertAtLevel _ vector row level = call at hcourse ⊢
    generalize call.answer _ = r at hcourse ⊢
    generalize call.after _ = s' at hcourse ⊢
    cases hcourse with
    | unchanged r nowhere =>
      rw [levels.note_nowhere level nowhere]
      exact ih
    | ended w lists r s' consulted ended =>
      have hfanOut : ix.searching.m = (template dimensions o').m.toNat := hsettled.m_eq
      exact ended.layered hsettled.intact ih (consulted.reach (by rw [hfanOut]; exact ih)
        hsettled.navigable hsettled.searching_pos (Draft.neighbors_new level w row))
  | delete l past ih =>
    obtain ⟨o', -, -, hsettled⟩ := past.history.settled
    rcases markDeleted_after hsettled.intact l with hsame | ⟨e, he, -, -, hrew⟩
    · rw [hsame]
      exact ih
    · exact ih.rewritten hrew he ⟨rfl, rfl⟩
  | tune width past ih => exact ih
  | reopen past fanOut metric opens ih =>
    obtain ⟨o', hm, hmetric, hsettled⟩ := past.history.settled
    obtain ⟨rfl, -⟩ := hsettled.reopen (fanOut.trans hm.symm) (metric.trans hmetric.symm) opens
    exact ih

/-- Whatever one user has done with an index that was opened on a blank file: a link on a layer leads
to an element that reaches the layer, or that lies where an element has been before that reached
it. -/
theorem layers_of_chronicle (h : Chronicle dimensions o ix s levels) {l : Location} {e : Element}
    (he : s.element l = .ok e) : ∃ a, s.adjacency e.neighborsAt = .ok a ∧
      ∀ layer, ∀ k ∈ a.layer e.level.toNat layer ix.params.m, ∃ f older,
        s.element k = .ok f ∧ levels k = f.level :: older ∧
        (layer ≤ f.level.toNat ∨ ∃ level ∈ older, layer ≤ level.toNat) := by
  obtain ⟨o', hm, -, hsettled⟩ := h.history.settled
  have hlayered := h.layered
  rw [Store.element_eq_ok] at he
  obtain ⟨a, ha, -⟩ := hsettled.intact.paired.resolves l e he
  have hfanOut : ix.params.m = o.m.toNat := hsettled.m_eq.trans (congrArg UInt16.toNat hm)
  refine ⟨a, (s.adjacency_eq_ok _ a).mpr ha, fun layer k hk => ?_⟩
  obtain ⟨hused, i, -, hi⟩ := Adjacency.mem_layer.mp hk
  obtain ⟨f, hf⟩ := hsettled.navigable.links _ a ha k (List.mem_of_getElem? hi) hused
  obtain ⟨older, holder⟩ := hlayered.last k f hf
  refine ⟨f, older, (s.element_eq_ok k f).mpr hf, holder, ?_⟩
  rw [hfanOut] at hk
  obtain ⟨level, hlevel, hreach⟩ := hlayered.links layer l k ((Store.link_iff he ha).mpr hk)
  rw [holder] at hlevel
  rcases List.mem_cons.mp hlevel with rfl | hlevel
  · exact .inl hreach
  · exact .inr ⟨level, hlevel, hreach⟩

/-- An element on level 2, and one on level 0 in the place of one on level 1 that it had a link to. -/
theorem layers_recycled : ∃ s levels a, Chronicle 900 Options.standard wide s levels ∧
    s.element ⟨1, 2⟩ = .ok second ∧ s.adjacency second.neighborsAt = .ok a ∧
    ⟨1, 0⟩ ∈ a.layer second.level.toNat 1 wide.params.m ∧ ∃ f older,
      s.element ⟨1, 0⟩ = .ok f ∧ levels ⟨1, 0⟩ = f.level :: older ∧
      (1 ≤ f.level.toNat ∨ ∃ level ∈ older, 1 ≤ level.toNat) := by
  obtain ⟨s₁, s₂, s₃, hrun₁, hrun₂, hrun₃, ⟨hn₁, hn₂, hn₃⟩, hlink, hsecond, -⟩ := recycled
  have hempty : Chronicle 900 Options.standard wide (Store.fresh (template 900 Options.standard))
      fun _ => [] := .opened rfl (openFile_blank checkOptions_wide "index" .absent rfl)
  have hchronicle := (((hempty.stored hrun₁ hn₁).stored hrun₂ hn₂).delete ⟨1, 0⟩).stored hrun₃ hn₃
  obtain ⟨a, ha, hlayers⟩ := layers_of_chronicle hchronicle hsecond
  have hmem := (Store.link_iff ((s₃.element_eq_ok _ _).mp hsecond)
    ((s₃.adjacency_eq_ok _ a).mp ha)).mp hlink
  exact ⟨s₃, _, a, hchronicle, hsecond, ha, hmem, hlayers 1 _ hmem⟩

/-- Not every link on a layer leads to an element that reaches the layer. -/
theorem links_above_level : ¬∀ (dimensions : UInt32) (o : Options) (ix : Index) (s : Store),
    History dimensions o ix s → ∀ l e a, s.element l = .ok e → s.adjacency e.neighborsAt = .ok a →
      ∀ layer, ∀ k ∈ a.layer e.level.toNat layer ix.params.m,
        ∃ f, s.element k = .ok f ∧ layer ≤ f.level.toNat := by
  intro hclaim
  obtain ⟨s₁, s₂, s₃, hrun₁, hrun₂, hrun₃, ⟨hn₁, hn₂, hn₃⟩, hlink, hsecond, hthird⟩ := recycled
  have hhistory : History 900 Options.standard wide s₃ :=
    (((history_wide.stored hrun₁ hn₁).stored hrun₂ hn₂).delete ⟨1, 0⟩).stored hrun₃ hn₃
  obtain ⟨e, a, he, ha, hk⟩ := hlink
  obtain ⟨f, hf, hlevel⟩ := hclaim _ _ _ _ hhistory ⟨1, 2⟩ e a ((s₃.element_eq_ok _ e).mpr he)
    ((s₃.adjacency_eq_ok _ a).mpr ha) 1 _ hk
  obtain rfl := Except.ok.inj (hthird.symm.trans hf)
  exact absurd hlevel (by decide)

end Index

end PagedGraph
