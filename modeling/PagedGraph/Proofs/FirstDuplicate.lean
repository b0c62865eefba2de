import PagedGraph.Proofs.Coalescing

/-!
# Which duplicate a row joins

The candidates for layer 0 may have several live elements with the inserted vector, since a row list
may fill up. Only the first of them is asked to take the row. If its row list is full, the row gets an
element of its own, even where a later candidate with the same vector has room.

So a row joins an element exactly if it is the first live candidate with the vector and has rows and
room for another one (`joins_first_duplicate`).
-/

set_option autoImplicit false

namespace PagedGraph

def Element.TakesRow (e : Element) : Prop := 0 < e.rows.length ∧ e.rows.length < rowCapacity

def Element.Matches (e : Element) (vector : Embedding) : Prop :=
  e.deleted = false ∧ e.vector = vector

/-- The first candidate that is a live element with the vector. -/
inductive Store.FirstMatch (s : Store) (vector : Embedding) (l : Location) (e : Element) :
    List Candidate → Prop where
  | here {c : Candidate} {rest : List Candidate} (at_ : c.location = l) (found : s.element l = .ok e)
      (same : e.Matches vector) : FirstMatch s vector l e (c :: rest)
  | later {c : Candidate} {rest : List Candidate} {f : Element} (found : s.element c.location = .ok f)
      (other : ¬f.Matches vector) (past : FirstMatch s vector l e rest) :
      FirstMatch s vector l e (c :: rest)

theorem Element.matches_iff (e : Element) (vector : Embedding) :
    (!e.deleted && e.vector == vector) = true ↔ e.Matches vector := by
  rw [Bool.and_eq_true, beq_iff_eq, Bool.not_eq_true', Matches]

namespace Store

variable {s : Store} {vector : Embedding} {l : Location}

section
variable {c : Candidate} {rest : List Candidate} {e f : Element}

theorem FirstMatch.readable (h : s.FirstMatch vector l e (c :: rest)) :
    ∃ f, s.element c.location = .ok f := by
  cases h with
  | here at_ found same => exact ⟨e, at_ ▸ found⟩
  | later found other past => exact ⟨_, found⟩

theorem firstMatch_of_matches (hf : s.element c.location = .ok f) (hsame : f.Matches vector) :
    (∃ e, s.FirstMatch vector l e (c :: rest)) ↔ c.location = l := by
  constructor
  · rintro ⟨e, h⟩
    cases h with
    | here at_ found same => exact at_
    | later found other past =>
      obtain rfl := Except.ok.inj (hf.symm.trans found)
      exact absurd hsame other
  · rintro rfl
    exact ⟨f, .here rfl hf hsame⟩

theorem firstMatch_of_other (hf : s.element c.location = .ok f) (hother : ¬f.Matches vector) :
    s.FirstMatch vector l e (c :: rest) ↔ s.FirstMatch vector l e rest := by
  constructor
  · intro h
    cases h with
    | here at_ found same =>
      rw [at_] at hf
      obtain rfl := Except.ok.inj (hf.symm.trans found)
      exact absurd same hother
    | later found other past => exact past
  · exact .later hf hother

end

theorem firstEqual_iff (cs : List Candidate) :
    s.firstEqual vector cs = .ok (some l) ↔ ∃ e, s.FirstMatch vector l e cs := by
  induction cs with
  | nil =>
    constructor
    · intro h
      cases h
    · rintro ⟨e, h⟩
      cases h
  | cons c rest ih =>
    rw [firstEqual]
    cases hf : s.element c.location with
    | error x =>
      constructor
      · intro h
        cases h
      · rintro ⟨e, h⟩
        obtain ⟨f, hf'⟩ := h.readable
        rw [hf] at hf'
        cases hf'
    | ok f =>
      simp only
      by_cases hsame : f.Matches vector
      · rw [if_pos ((f.matches_iff vector).mpr hsame), firstMatch_of_matches hf hsame]
        exact ⟨fun h => Option.some.inj (Except.ok.inj h), fun h => by rw [h]⟩
      · rw [if_neg fun h => hsame ((f.matches_iff vector).mp h), ih]
        exact exists_congr fun e => (firstMatch_of_other hf hsame).symm

theorem FirstMatch.found {e : Element} {cs : List Candidate} (h : s.FirstMatch vector l e cs) :
    s.element l = .ok e ∧ e.Matches vector := by
  induction h with
  | here at_ found same => exact ⟨found, same⟩
  | later found other past ih => exact ih

theorem findDuplicate_iff (lists : List (List Candidate)) :
    s.findDuplicate vector lists = .ok (some l) ↔
      ∃ e, s.FirstMatch vector l e (lists.getD 0 []) := by
  cases lists with
  | nil =>
    constructor
    · intro h
      cases h
    · rintro ⟨e, h⟩
      cases h
  | cons layer0 rest => exact firstEqual_iff layer0

end Store

theorem attachRow_iff {t : Header} {s : Store} (h : s.Intact t) {l : Location} (row : RowId)
    {e : Element} (he : s.record? l = some (.element e)) (hlive : e.deleted = false) :
    (∃ s', attachRow l row s = .ok true s') ↔ e.TakesRow := by
  obtain ⟨-, -, hpacked⟩ := h.fits_of_record l _ he
  constructor
  · rintro ⟨s', hrun⟩
    rcases attachRow_element h l row e he with hno | ⟨place, s'', -, hfree, hbehind, -⟩
    · rw [hrun] at hno
      cases hno
    · obtain ⟨rfl, hroom⟩ := e.firstFreeRow_eq hpacked place hfree
      exact ⟨Nat.pos_of_ne_zero hbehind, hroom⟩
  · rintro ⟨hpos, hroom⟩
    obtain ⟨s', hrun, -⟩ := attachRow_live h l row e he (e.firstFreeRow_some hpacked hroom)
      (Nat.ne_of_gt hpos) hlive
    exact ⟨s', hrun⟩

/-- Candidates from any search, and a duplicate as the graph finds it among them. -/
def candidatesFrom {τ : Type}
    (search : Query → EntryPoint → ActionWith τ (List (List Candidate))) : Construction τ where
  search := search
  findDuplicate vector lists := ActionWith.act (Action.reading fun s => s.findDuplicate vector lists)

theorem candidatesFrom_eq {τ : Type} (p : Params)
    (search : Query → EntryPoint → ActionWith τ (List (List Candidate))) :
    candidatesFrom search = belated search p [] := by
  have hfind : (candidatesFrom search).findDuplicate = (belated search p []).findDuplicate := by
    funext vector lists ⟨s, own⟩
    simp only [candidatesFrom, belated, ActionWith.act, Action.reading, Job.runAll]
    cases s.findDuplicate vector lists <;> rfl
  calc candidatesFrom search
    _ = ⟨search, (candidatesFrom search).findDuplicate⟩ := rfl
    _ = belated search p [] := by rw [hfind]; rfl

structure JoinsFirst {τ : Type} (p : Params)
    (search : Query → EntryPoint → ActionWith τ (List (List Candidate))) (d : Draft)
    (lists : List (List Candidate)) (s : Store) (own : τ) : Prop where
  /-- It joins the first match, if that takes it, and nothing else. -/
  joins : ∀ l, (∃ y, insertElement p (candidatesFrom search) d (s, own) = .ok (.coalesced l) y) ↔
    ∃ e, s.FirstMatch d.vector l e (lists.getD 0 []) ∧ e.TakesRow
  /-- Then it is behind the rows that were there, and nothing else has changed. -/
  joined : ∀ l y, insertElement p (candidatesFrom search) d (s, own) = .ok (.coalesced l) y →
    y.1.pages.size = s.pages.size ∧ y.1.header = s.header ∧ ∃ e f, s.element l = .ok e ∧
      y.1.element l = .ok f ∧ (d.row ≠ noRow → f.rows = e.rows ++ [d.row]) ∧
      f.vector = e.vector ∧ f.level = e.level ∧ f.neighborsAt = e.neighborsAt ∧
      ∀ k, k ≠ l → y.1.record? k = s.record? k

section
variable {τ : Type} {t : Header} {p : Params}
  {search : Query → EntryPoint → ActionWith τ (List (List Candidate))} {d : Draft} {s : Store}
  {own own' : τ}

theorem firstMatch_of_coalesced {x : EntryPoint} {lists : List (List Candidate)}
    (hentry : s.entry = some x)
    (hsearch : search ⟨d.vector, d.level.toNat, none⟩ x (s, own) = .ok lists (s, own'))
    {l : Location} {y : Store × τ}
    (h : insertElement p (candidatesFrom search) d (s, own) = .ok (.coalesced l) y) :
    (∃ e, s.FirstMatch d.vector l e (lists.getD 0 [])) ∧ attachRow l d.row s = .ok true y.1 := by
  have hsearched : searched search d own s s.entry = s := by
    rw [hentry, searched, ActionWith.after, hsearch]
  rw [candidatesFrom_eq p] at h
  obtain ⟨⟨x', candidates, own₁, hx', hrun, hfind⟩, hattach⟩ := coalesced_inv h
  rw [hsearched] at hrun hfind hattach
  obtain rfl := Option.some.inj (hentry.symm.trans hx')
  obtain ⟨rfl, -⟩ := EStateM.Result.ok.inj (hsearch.symm.trans hrun)
  exact ⟨(Store.findDuplicate_iff lists).mp hfind, hattach⟩

theorem joinsFirst_of_intact (h : s.Intact t) {x : EntryPoint} {lists : List (List Candidate)}
    (hentry : s.entry = some x)
    (hsearch : search ⟨d.vector, d.level.toNat, none⟩ x (s, own) = .ok lists (s, own')) :
    JoinsFirst p search d lists s own := by
  constructor
  · intro l
    constructor
    · rintro ⟨y, hrun⟩
      obtain ⟨⟨e, hfirst⟩, hattach⟩ := firstMatch_of_coalesced hentry hsearch hrun
      obtain ⟨he, hlive, -⟩ := hfirst.found
      exact ⟨e, hfirst,
        (attachRow_iff h d.row ((s.element_eq_ok l e).mp he) hlive).mp ⟨y.1, hattach⟩⟩
    · rintro ⟨e, hfirst, htakes⟩
      obtain ⟨he, hlive, -⟩ := hfirst.found
      obtain ⟨s', hattach⟩ :=
        (attachRow_iff h d.row ((s.element_eq_ok l e).mp he) hlive).mpr htakes
      rw [candidatesFrom_eq p]
      exact ⟨_, belated_coalesces hentry hsearch ((Store.findDuplicate_iff lists).mpr ⟨e, hfirst⟩)
        hattach⟩
  · intro l y hrun
    obtain ⟨⟨e, hfirst⟩, hattach⟩ := firstMatch_of_coalesced hentry hsearch hrun
    obtain ⟨he, -⟩ := hfirst.found
    have hrecord := (s.element_eq_ok l e).mp he
    obtain ⟨-, -, hpacked⟩ := h.fits_of_record l _ hrecord
    rcases attachRow_element h l d.row e hrecord with
      hno | ⟨place, s', hattach', hfree, -, -, -, hrew⟩
    · rw [hattach] at hno
      cases hno
    · obtain ⟨-, hs'⟩ := EStateM.Result.ok.inj (hattach.symm.trans hattach')
      rw [hs']
      refine ⟨hrew.size, hrew.header, e, e.withRow place d.row, he, ?_,
        (e.withRow_rows hpacked place d.row hfree).2, rfl, rfl, rfl, fun k hk => ?_⟩
      · rw [Store.element_eq_ok, hrew.record, putRecord_self]
      · rw [hrew.record, putRecord_of_ne _ _ hk]

end

/-- Whatever others have done with an index that was opened empty: when nobody else is at work and
an insertion has got any candidates from its search, its row joins exactly the first live one with
its vector, and only if that one has rows and room for another. Nothing but the rows of that element
changes then. -/
theorem joins_first_duplicate {path : String} {dimensions : UInt32} {o : Options}
    {file file' : FileState} {ix : Index} {s : Store} (hblank : file.isBlank = true)
    (hopen : Index.openFile path dimensions o file = (.ok (ix, s), file')) {c : Crowd}
    (hreach : Reaches ix.params ix.dimensions s c) {τ : Type} {own own' : τ}
    {search : Query → EntryPoint → ActionWith τ (List (List Candidate))} {d : Draft}
    {x : EntryPoint} {lists : List (List Candidate)} (hentry : c.store.entry = some x)
    (hsearch : search ⟨d.vector, d.level.toNat, none⟩ x (c.store, own) =
      .ok lists (c.store, own')) :
    JoinsFirst ix.params search d lists c.store own := by
  obtain ⟨hopened, -⟩ := Index.opened_of_blank hblank hopen
  rw [hopened.width] at hreach
  exact joinsFirst_of_intact (hreach.sound hopened.m_eq hopened.intact).intact hentry hsearch

theorem joins_only_element :
    ∃ s y e f, insertElement Params.standard
        (candidatesFrom fun _ _ => pure [[⟨⟨1, 0⟩, 0⟩]]) (Draft.new 0 [0, 0] 8) (s, ()) =
        .ok (.coalesced ⟨1, 0⟩) y ∧
      s.element ⟨1, 0⟩ = .ok e ∧ e.rows = [7] ∧ y.1.element ⟨1, 0⟩ = .ok f ∧ f.rows = [7, 8] := by
  have hcheck : Index.checkOptions 2 Options.standard = .ok Params.standard :=
    Index.checkOptions_standard (by decide) (by decide)
  have hblank : FileState.absent.isBlank = true := rfl
  have hopen := Index.openFile_blank hcheck "index" .absent hblank
  obtain ⟨hopened, hfresh⟩ := Index.opened_of_blank hblank hopen
  obtain ⟨s, k, hreach, hintact, hputs, hentry, hsize⟩ := first_reaches hopened hfresh
    (Draft.new 0 [0, 0] 7) rfl (by intro i; cases i <;> rfl) (by
      rw [Adjacency.size_encode, Draft.length_adjacency]
      decide)
  generalize hf : { (Draft.new 0 [0, 0] 7).element with neighborsAt := k } = f at hputs
  have hrows : f.rows = [7] := by rw [← hf]; rfl
  have hmatches : f.Matches [0, 0] := by rw [← hf]; exact ⟨rfl, rfl⟩
  have hfound : s.element ⟨1, 0⟩ = .ok f :=
    (s.element_eq_ok _ f).mpr ((hputs ⟨1, 0⟩ f).mpr (by rw [if_pos rfl]))
  have htakes : f.TakesRow := by
    rw [Element.TakesRow, hrows]
    exact ⟨by decide, by decide⟩
  have hfirst : JoinsFirst Params.standard (fun _ _ => pure [[⟨⟨1, 0⟩, 0⟩]]) (Draft.new 0 [0, 0] 8)
      [[⟨⟨1, 0⟩, 0⟩]] s () :=
    joins_first_duplicate hblank hopen hreach hentry rfl
  obtain ⟨y, hrun⟩ := (hfirst.joins ⟨1, 0⟩).mpr ⟨f, .here rfl hfound hmatches, htakes⟩
  obtain ⟨-, -, e, g, he, hg, hjoined, -⟩ := hfirst.joined ⟨1, 0⟩ y hrun
  obtain rfl := Except.ok.inj (hfound.symm.trans he)
  refine ⟨s, y, f, g, hrun, hfound, hrows, hg, ?_⟩
  rw [hjoined (by decide), hrows]
  rfl

end PagedGraph
