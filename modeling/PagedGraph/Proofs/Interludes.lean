import PagedGraph.Proofs.Weaving

/-!
# Others at work before a commit

An insertion asks for candidates, looks for a duplicate among them, tries to attach its row there, and
stores the draft if that does not work. Between any two of these steps other writers may do complete
work on the store (`overlapped`). If nobody does, this is a complete insertion (`overlapped_none`).

However old the candidates are by the time of the commit, the insertion gives up, or ends as is said
of drafts with candidates (`overlapped_ended`).
-/

set_option autoImplicit false

namespace PagedGraph

/-- What others do to the store while an insertion has its candidates and has not stored anything:
before it looks for a duplicate, after that, and after the duplicate has refused the row. -/
structure Interlude where
  searched : Store → Store
  looked : Store → Store
  refused : Store → Store

def Interlude.none : Interlude := ⟨id, id, id⟩

def meanwhile (τ : Type) (q : Params) (w : Interlude) : Construction τ where
  search query entry := fun (s, own) =>
    match s.searchFrom q query entry with
    | .ok lists => .ok lists (w.searched s, own)
    | .error e => .error e (s, own)
  findDuplicate vector lists := fun (s, own) =>
    match s.findDuplicate vector lists with
    | .ok found => .ok found (w.looked s, own)
    | .error e => .error e (s, own)

namespace Insertion

def settleAmid {τ : Type} (p : Params) (others : Store → Store) (entry : Option EntryPoint)
    (d : Draft) : Option Location → Turns τ Insertion
  | .none => store p entry d
  | some l => do
    if ← Turns.act (attachRow l d.row) then return .joined l
    else
      Turns.act fun s => .ok () (others s)
      store p entry d

def placeAmid (τ : Type) (p q : Params) (w : Interlude) (d : Draft) : Turns τ Insertion := do
  let entry ← Turns.act (Action.reading fun s => .ok s.entry)
  let (d, duplicate) ← consult (meanwhile τ q w) d entry
  settleAmid p w.refused entry d duplicate

end Insertion

def overlapped (τ : Type) (p q : Params) (w : Interlude) (d : Draft) : Turns τ Outcome :=
  Insertion.placeAmid τ p q w d >>= Insertion.connect p (layerSearch τ q)

theorem meanwhile_none (τ : Type) (q : Params) : meanwhile τ q .none = layerSearch τ q := by
  have hsearch : (meanwhile τ q .none).search = (layerSearch τ q).search := by
    funext query entry ⟨s, own⟩
    simp only [meanwhile, layerSearch, ActionWith.act, Action.reading]
    cases s.searchFrom q query entry <;> rfl
  have hfind : (meanwhile τ q .none).findDuplicate = (layerSearch τ q).findDuplicate := by
    funext vector lists ⟨s, own⟩
    simp only [meanwhile, layerSearch, ActionWith.act, Action.reading]
    cases s.findDuplicate vector lists <;> rfl
  calc meanwhile τ q .none
    _ = ⟨(meanwhile τ q .none).search, (meanwhile τ q .none).findDuplicate⟩ := rfl
    _ = layerSearch τ q := by rw [hsearch, hfind]

theorem Insertion.settleAmid_none {τ : Type} (p : Params) (entry : Option EntryPoint) (d : Draft)
    (duplicate : Option Location) :
    (settleAmid p id entry d duplicate : Turns τ _).run = (settle p entry d duplicate).run := by
  cases duplicate with
  | none => rfl
  | some l =>
    rw [settleAmid, settle, Turns.run_bind, Turns.run_bind]
    congr
    funext joined
    cases joined with
    | true => rfl
    | false =>
      funext y
      obtain ⟨s, own⟩ := y
      exact Turns.run_bind_ok (Turns.run_act_ok rfl own)

theorem Insertion.placeAmid_none (τ : Type) (p q : Params) (d : Draft) :
    (placeAmid τ p q .none d).run = begin p (layerSearch τ q) d := by
  rw [placeAmid, begin, place, Turns.run_bind, Turns.run_bind, meanwhile_none]
  congr
  funext entry
  rw [Turns.run_bind, Turns.run_bind]
  congr
  funext x
  obtain ⟨e, duplicate⟩ := x
  exact settleAmid_none p entry e duplicate

theorem overlapped_none (τ : Type) (p q : Params) (d : Draft) :
    (overlapped τ p q .none d).run = insertElement p (layerSearch τ q) d := by
  rw [overlapped, insertElement, insertion, Turns.run_bind, Turns.run_bind,
    Insertion.placeAmid_none, Insertion.begin]

/-- The candidates of a draft, and the store in which they are used. -/
inductive Consulted (q : Params) (w : Interlude) (s : Store) (d : Draft) :
    List (List Candidate) → Store → Prop where
  | first (empty : s.entry = none) : Consulted q w s d d.neighbors s
  | searched (x : EntryPoint) (lists : List (List Candidate)) (entry : s.entry = some x)
      (found : s.searchFrom q ⟨d.vector, d.level.toNat, none⟩ x = .ok lists) :
      Consulted q w s d lists (w.looked (w.searched s))
  | refused (x : EntryPoint) (lists : List (List Candidate)) (entry : s.entry = some x)
      (found : s.searchFrom q ⟨d.vector, d.level.toNat, none⟩ x = .ok lists) :
      Consulted q w s d lists (w.refused (w.looked (w.searched s)))

theorem Consulted.chosen {q : Params} {w : Interlude} {s s' : Store} {d : Draft}
    {lists : List (List Candidate)} (h : Consulted q w s d lists s') :
    (s.entry = none ∧ lists = d.neighbors) ∨ ∃ x, s.entry = some x ∧
      s.searchFrom q ⟨d.vector, d.level.toNat, none⟩ x = .ok lists := by
  cases h with
  | first empty => exact .inl ⟨empty, rfl⟩
  | searched x lists entry found => exact .inr ⟨x, entry, found⟩
  | refused x lists entry found => exact .inr ⟨x, entry, found⟩

theorem Consulted.occupied {q : Params} {w : Interlude} {s s' : Store} {d : Draft}
    {lists : List (List Candidate)} (h : Consulted q w s d lists s') (hlists : s.AllLive d.neighbors)
    (i : Nat) : s.Occupied (lists.getD i []) := by
  intro c hc
  rcases h.chosen with ⟨-, rfl⟩ | ⟨x, -, found⟩
  · exact hlists.occupied i c hc
  · exact (Store.searchFrom_live q _ x lists found).occupied i c hc

section
variable {τ : Type} {t : Header} {s : Store} (q : Params) {w : Interlude} (d : Draft) (own : τ)

theorem search_meanwhile {x : EntryPoint} {lists : List (List Candidate)}
    (hfound : s.searchFrom q ⟨d.vector, d.level.toNat, none⟩ x = .ok lists) :
    (Turns.once ((meanwhile τ q w).search ⟨d.vector, d.level.toNat, none⟩ x)).run (s, own) =
      .ok lists (w.searched s, own) := by
  apply Turns.run_once_ok
  simp only [meanwhile, hfound]

theorem consult_both {x : EntryPoint} {lists : List (List Candidate)} {duplicate : Option Location}
    (hfound : s.searchFrom q ⟨d.vector, d.level.toNat, none⟩ x = .ok lists)
    (hequal : (w.searched s).findDuplicate d.vector lists = .ok duplicate) :
    (Insertion.consult (meanwhile τ q w) d (some x)).run (s, own) =
      .ok ({ d with neighbors := lists }, duplicate) (w.looked (w.searched s), own) := by
  have hduplicate : (Turns.once ((meanwhile τ q w).findDuplicate d.vector lists)).run
      (w.searched s, own) = .ok duplicate (w.looked (w.searched s), own) := by
    apply Turns.run_once_ok
    simp only [meanwhile, hequal]
  exact (Turns.run_bind_ok (search_meanwhile q d own hfound)).trans (Turns.run_bind_ok hduplicate)

theorem consult_meanwhile :
    (∃ e s₁, (Insertion.consult (meanwhile τ q w) d s.entry).run (s, own) = .error e (s₁, own) ∧
      (s₁ = s ∨ s₁ = w.searched s)) ∨
    ∃ lists duplicate s₂, (Insertion.consult (meanwhile τ q w) d s.entry).run (s, own) =
      .ok ({ d with neighbors := lists }, duplicate) (s₂, own) ∧ Consulted q w s d lists s₂ ∧
      (duplicate ≠ none → Consulted q w s d lists (w.refused s₂)) := by
  cases hs : s.entry with
  | none => exact .inr ⟨d.neighbors, none, s, rfl, .first hs, fun hne => absurd rfl hne⟩
  | some x =>
    cases hfound : s.searchFrom q ⟨d.vector, d.level.toNat, none⟩ x with
    | error e =>
      refine .inl ⟨e, s, Turns.run_bind_error (Turns.run_turn_error ?_), .inl rfl⟩
      simp only [meanwhile, hfound]
    | ok lists =>
      cases hequal : (w.searched s).findDuplicate d.vector lists with
      | error e =>
        refine .inl ⟨e, w.searched s, (Turns.run_bind_ok (search_meanwhile q d own hfound)).trans
          (Turns.run_bind_error (Turns.run_turn_error ?_)), .inr rfl⟩
        simp only [meanwhile, hequal]
      | ok duplicate =>
        exact .inr ⟨lists, duplicate, _, consult_both q d own hfound hequal,
          .searched x lists hs hfound, fun _ => .refused x lists hs hfound⟩

theorem settleAmid_ended (p : Params) (hp : p.m = t.m.toNat)
    (hd : d.vector.length = t.dimensions.toNat) {prior : Option EntryPoint}
    (h : Insertion.Ready t s d prior) (others : Store → Store) (duplicate : Option Location)
    (hothers : duplicate ≠ none → Insertion.Ready t (others s) d prior)
    (hb : ((Insertion.settleAmid p others prior d duplicate >>=
      Insertion.connect p (layerSearch τ q)).run.after s own).1.Numbered) :
    ∃ r s₁ s', (s₁ = s ∨ duplicate ≠ none ∧ s₁ = others s) ∧ Insertion.Ended t s₁ d r s' ∧
      (Insertion.settleAmid p others prior d duplicate >>=
        Insertion.connect p (layerSearch τ q)).run (s, own) = Turns.ended own r s' := by
  cases duplicate with
  | none =>
    obtain ⟨r, s', hended, hrun⟩ := Insertion.store_ended own p hp q hd h hb
    exact ⟨r, s, s', .inl rfl, hended, hrun⟩
  | some l =>
    by_cases hl : ∃ e, s.record? l = some (.element e)
    · obtain ⟨e, he⟩ := hl
      rcases attachRow_element h.intact l d.row e he with
        hno | ⟨place, s', hattach, -, -, -, hintact, hrew⟩
      · have hrun : (Insertion.settleAmid p others prior d (some l)).run (s, own) =
            (Insertion.store p prior d).run (others s, own) :=
          (Turns.run_bind_ok (Turns.run_act_ok hno own)).trans
            (Turns.run_bind_ok (Turns.run_act_ok rfl own))
        have hwhole : (Insertion.settleAmid p others prior d (some l) >>=
            Insertion.connect p (layerSearch τ q)).run (s, own) =
            (Insertion.store p prior d >>= Insertion.connect p (layerSearch τ q)).run
              (others s, own) := by
          rw [Turns.run_bind, Turns.run_bind]
          show EStateM.bind _ _ _ = EStateM.bind _ _ _
          rw [EStateM.bind, hrun, EStateM.bind]
        rw [ActionWith.after, hwhole, ← ActionWith.after] at hb
        have hsome : some l ≠ none := Option.some_ne_none l
        obtain ⟨r, s', hended, hrest⟩ := Insertion.store_ended own p hp q hd (hothers hsome) hb
        exact ⟨r, others s, s', .inr ⟨hsome, rfl⟩, hended, hwhole.trans hrest⟩
      · have hrun : (Insertion.settleAmid p others prior d (some l)).run (s, own) =
            .ok (.joined l) (s', own) :=
          Turns.run_bind_ok (Turns.run_act_ok hattach own)
        exact ⟨_, s, s', .inl rfl, .joined l e place s' he hintact hrew, Turns.run_bind_ok hrun⟩
    · obtain ⟨c, hc⟩ := attachRow_no_element h.intact l d.row fun e he => hl ⟨e, he⟩
      exact ⟨.error c, s, s, .inl rfl, .failed c,
        Turns.run_bind_error (Turns.run_bind_error (Turns.run_act_error hc own))⟩

theorem placeAmid_stores (p : Params) (hp : p.m = t.m.toNat) {x : EntryPoint}
    {lists : List (List Candidate)} (hentry : s.entry = some x)
    (hfound : s.searchFrom q ⟨d.vector, d.level.toNat, none⟩ x = .ok lists)
    (hunequal : (w.searched s).findDuplicate d.vector lists = .ok none) {st : Stored} {s₁ : Store}
    (hroom : storePair { d with neighbors := lists } t.m.toNat (w.looked (w.searched s)) =
      .ok st s₁) : (Insertion.placeAmid τ p q w d).run (s, own) = .ok (.stored { d with
        neighbors := lists, location := st.location, neighborsAt := st.neighborsAt } (some x)
        st.cursor) (s₁, own) := by
  have hread : Action.reading (fun s => .ok s.entry) s = .ok (some x) s := by
    rw [Action.reading, hentry]
  exact (Turns.run_bind_ok (Turns.run_act_ok hread own)).trans
    ((Turns.run_bind_ok (consult_both q d own hfound hunequal)).trans
      (Insertion.store_run p hp own (some x) hroom))

theorem overlapped_stores (p : Params) (hp : p.m = t.m.toNat)
    (hd : d.vector.length = t.dimensions.toNat) {x : EntryPoint} {lists : List (List Candidate)}
    (hentry : s.entry = some x)
    (hfound : s.searchFrom q ⟨d.vector, d.level.toNat, none⟩ x = .ok lists)
    (hunequal : (w.searched s).findDuplicate d.vector lists = .ok none)
    (h : (w.looked (w.searched s)).Intact t) (hlinks : (w.looked (w.searched s)).Resolves)
    (hoccupied : ∀ i, (w.looked (w.searched s)).Occupied (lists.getD i [])) {st : Stored}
    {s₁ : Store} (hroom : storePair { d with neighbors := lists } t.m.toNat
      (w.looked (w.searched s)) = .ok st s₁) (hb : s₁.Numbered) :
    ∃ s', (overlapped τ p q w d).run (s, own) = .ok (.inserted st.location) (s', own) ∧
      Placed t (w.looked (w.searched s)) s₁ { d with neighbors := lists } st ∧
      Woven t { d with neighbors := lists, location := st.location, neighborsAt := st.neighborsAt }
        s₁ s' := by
  have hready : Insertion.Ready t (w.looked (w.searched s)) { d with neighbors := lists } (some x) :=
    ⟨h, hlinks, fun hnone => absurd hnone (Option.some_ne_none x), hoccupied⟩
  obtain ⟨s', hrun, hplaced, hwoven⟩ := Insertion.store_connects own p hp q (d := { d with
    neighbors := lists }) hd hready hroom hb
  exact ⟨s', (Turns.run_bind_ok (placeAmid_stores q d own p hp hentry hfound hunequal hroom)).trans
    hrun, hplaced, hwoven⟩

theorem overlapped_ended (p : Params) (hp : p.m = t.m.toNat)
    (hd : d.vector.length = t.dimensions.toNat) (hlists : s.AllLive d.neighbors)
    (hothers : ∀ lists s₂, Consulted q w s d lists s₂ → s₂.Intact t ∧ s₂.Resolves ∧
      ∀ k e, s.record? k = some (.element e) → ∃ f, s₂.record? k = some (.element f))
    (hb : ((overlapped τ p q w d).run.after s own).1.Numbered) :
    ∃ r s', (overlapped τ p q w d).run (s, own) = Turns.ended own r s' ∧
      ((∃ e, r = .error e ∧ (s' = s ∨ s' = w.searched s)) ∨ ∃ lists s₂, Consulted q w s d lists s₂ ∧
        Insertion.Ended t s₂ { d with neighbors := lists } r s') := by
  have hread : Action.reading (fun s => .ok s.entry) s = .ok s.entry s := rfl
  have hplace : (Insertion.placeAmid τ p q w d).run (s, own) =
      (Insertion.consult (meanwhile τ q w) d s.entry >>= fun x =>
        Insertion.settleAmid p w.refused s.entry x.1 x.2).run (s, own) :=
    Turns.run_bind_ok (Turns.run_act_ok hread own)
  have hready : ∀ {lists s₂}, Consulted q w s d lists s₂ →
      Insertion.Ready t s₂ { d with neighbors := lists } s.entry := by
    intro lists s₂ hconsulted
    obtain ⟨hintact, hlinks, hstay⟩ := hothers lists s₂ hconsulted
    refine ⟨hintact, hlinks, fun hnone => ?_, fun i c hc => ?_⟩
    · cases hconsulted with
      | first empty => exact empty
      | searched x lists entry found => exact absurd (hnone.symm.trans entry) (Option.some_ne_none x).symm
      | refused x lists entry found => exact absurd (hnone.symm.trans entry) (Option.some_ne_none x).symm
    · obtain ⟨f, hf⟩ := hconsulted.occupied hlists i c hc
      exact hstay _ f hf
  rcases consult_meanwhile q d own (w := w) (s := s) with
    ⟨e, s₁, hconsult, hs₁⟩ | ⟨lists, duplicate, s₂, hconsult, hconsulted, hrefused⟩
  · exact ⟨.error e, s₁,
      Turns.run_bind_error (hplace.trans (Turns.run_bind_error hconsult)), .inl ⟨e, rfl, hs₁⟩⟩
  · have hrun : (overlapped τ p q w d).run (s, own) =
        (Insertion.settleAmid p w.refused s.entry { d with neighbors := lists } duplicate >>=
          Insertion.connect p (layerSearch τ q)).run (s₂, own) := by
      rw [overlapped, Turns.run_bind, Turns.run_bind]
      show EStateM.bind _ _ _ = EStateM.bind _ _ _
      rw [EStateM.bind, hplace, Turns.run_bind_ok hconsult, EStateM.bind]
    rw [ActionWith.after, hrun, ← ActionWith.after] at hb
    obtain ⟨r, s₃, s', hwhere, hended, hsettle⟩ := settleAmid_ended q { d with neighbors := lists } own
      p hp hd (hready hconsulted) w.refused duplicate (fun hne => hready (hrefused hne)) hb
    refine ⟨r, s', hrun.trans hsettle, .inr ⟨lists, s₃, ?_, hended⟩⟩
    rcases hwhere with rfl | ⟨hne, rfl⟩
    · exact hconsulted
    · exact hrefused hne

end

theorem findDuplicate_new {s : Store} {v : Embedding} {lists : List (List Candidate)}
    (hlive : s.AllLive lists) (hnew : ∀ l e, s.record? l = some (.element e) → e.vector ≠ v) :
    s.findDuplicate v lists = .ok none := by
  obtain ⟨duplicate, hduplicate⟩ := Store.findDuplicate_ok v hlive
  cases duplicate with
  | none => exact hduplicate
  | some l =>
    obtain ⟨f, hf, -, hsame⟩ := Store.findDuplicate_some v l lists hduplicate
    exact absurd hsame (hnew l f hf)

theorem store_of_consulted {q : Params} {s s' : Store} {d : Draft} {lists : List (List Candidate)}
    (h : Consulted q .none s d lists s') : s' = s := by
  cases h <;> rfl

namespace Index

variable {dimensions : UInt32} {o : Options} {ix : Index} {s : Store}

/-- What an insertion into an index does: it changes nothing, or it ends with what its search has
chosen. -/
inductive Course (dimensions : UInt32) (o : Options) (ix : Index) (s : Store) (row : RowId)
    (level : UInt8) : Except Error Outcome → Store → Prop where
  | unchanged (r : Except Error Outcome) (nowhere : ∀ l, r ≠ .ok (.inserted l)) :
      Course dimensions o ix s row level r s
  | ended (w : Embedding) (lists : List (List Candidate)) (r : Except Error Outcome) (s' : Store)
      (consulted : Consulted ix.searching .none s (Draft.new level w row) lists s)
      (ended : Insertion.Ended (template dimensions o) s
        { Draft.new level w row with neighbors := lists } r s') :
      Course dimensions o ix s row level r s'

theorem Settled.course (h : Settled dimensions o ix s) (vector : Option Embedding) (row : RowId)
    (level : UInt8) (hb : ((ix.insertAtLevel vector row level).after s).Numbered) :
    Course dimensions o ix s row level ((ix.insertAtLevel vector row level).answer s)
      ((ix.insertAtLevel vector row level).after s) := by
  rcases ix.insertAtLevel_cases vector row level with
    hfail | ⟨reason, hskip⟩ | ⟨v, w, rfl, hlen, hprepare, hrun⟩
  · obtain ⟨e, he⟩ := hfail s
    rw [Action.after, Action.answer, he]
    refine .unchanged _ fun l hl => ?_
    cases hl
  · rw [Action.after, Action.answer, hskip s]
    refine .unchanged _ fun l hl => ?_
    cases hl
  · have hw : w.length = (template dimensions o).dimensions.toNat := by
      rw [length_prepare hprepare, hlen, h.width]
      rfl
    have hconstruction : ix.construction Unit = layerSearch Unit ix.searching := rfl
    rw [hconstruction, ← overlapped_none] at hrun
    rw [hrun, ActionWith.after_alone] at hb
    obtain ⟨r, s', hresult, hcases⟩ := overlapped_ended ix.searching (Draft.new level w row) ()
      ix.params h.m_eq hw (Store.allLive_nil _) (fun lists s₂ hconsulted => by
        rw [store_of_consulted hconsulted]
        exact ⟨h.intact, h.navigable.links, fun k e he => ⟨e, he⟩⟩) hb
    obtain ⟨hstore, hanswer⟩ := Turns.alone_ended hresult
    rw [hrun, hstore, hanswer]
    rcases hcases with ⟨e, rfl, hsame⟩ | ⟨lists, s₂, hconsulted, hended⟩
    · obtain rfl : s' = s := hsame.elim id id
      refine .unchanged _ fun l hl => ?_
      cases hl
    · obtain rfl := store_of_consulted hconsulted
      exact .ended w lists r s' hconsulted hended

theorem Settled.stores (h : Settled dimensions o ix s) {v : Embedding} (row : RowId) {level : UInt8}
    (hv : v.length = dimensions.toNat) {x : EntryPoint} (hentry : s.entry = some x)
    (hnew : ∀ l e, s.record? l = some (.element e) → e.vector ≠ v) {st : Stored}
    (hroom : ∀ lists, ∃ s₁, storePair { Draft.new level v row with neighbors := lists }
      (template dimensions o).m.toNat s = .ok st s₁ ∧ s₁.pages.size = s.pages.size) :
    ∃ lists s₁ s', s.searchFrom ix.searching ⟨v, level.toNat, none⟩ x = .ok lists ∧
      (overlapped Unit ix.params ix.searching .none (Draft.new level v row)).run (s, ()) =
        .ok (.inserted st.location) (s', ()) ∧
      Placed (template dimensions o) s s₁ { Draft.new level v row with neighbors := lists } st ∧
      Woven (template dimensions o) { Draft.new level v row with
        neighbors := lists, location := st.location, neighborsAt := st.neighborsAt } s₁ s' ∧
      s'.pages.size = s.pages.size := by
  obtain ⟨e, he, -⟩ := h.navigable.found x hentry
  obtain ⟨lists, hfound⟩ := Store.searchFrom_ok h.intact h.navigable.links ix.searching
    ⟨v, level.toNat, none⟩ he
  have hlive := Store.searchFrom_live _ _ x lists hfound
  have hunequal := findDuplicate_new hlive hnew
  obtain ⟨s₁, hstore, hsize⟩ := hroom lists
  have hn : s₁.Numbered := by
    rw [Store.Numbered, hsize]
    exact h.intact.bounded
  obtain ⟨s', hrun, hplaced, hwoven⟩ := overlapped_stores ix.searching (Draft.new level v row) ()
    (w := .none) ix.params h.m_eq hv hentry hfound hunequal h.intact
    h.navigable.links hlive.occupied hstore hn
  exact ⟨lists, s₁, s', hfound, hrun, hplaced, hwoven, hwoven.size.trans hsize⟩

theorem insertAtLevel_of_run (ix : Index) {v : Embedding} (row : RowId) {level : UInt8}
    (hlevel : level.toNat ≤ ix.params.maxLevel) (hv : v.length = ix.dimensions)
    (hfinite : ∀ x ∈ v, FloatBits.isFinite x = true) (hprepare : ix.prepare v = some v)
    {outcome : Outcome} {s' : Store}
    (hrun : (overlapped Unit ix.params ix.searching .none (Draft.new level v row)).run (s, ()) =
      .ok outcome (s', ())) :
    ix.insertAtLevel (some v) row level s = .ok outcome s' := by
  have hconstruction : ix.construction Unit = layerSearch Unit ix.searching := rfl
  rw [overlapped_none] at hrun
  rw [insertAtLevel_valid ix row hlevel hv hfinite, hprepare, hconstruction]
  simp only [ActionWith.alone, hrun]

end Index

end PagedGraph
