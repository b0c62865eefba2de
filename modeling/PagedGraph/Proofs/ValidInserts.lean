import PagedGraph.Proofs.Unbroken

/-!
# Valid insertions succeed

One user calls an index that was opened on a blank file. An insertion of a finite vector of the
index's width, on a level that the index allows, never fails as long as page numbers last: the search
finds its way, there is room for the new pair, and the pair fits where there is room
(`accepting_of_history`).
-/

set_option autoImplicit false

namespace PagedGraph

namespace Insertion

section
variable {τ : Type} {t : Header} {s : Store} (h : s.Intact t) (hnav : s.Navigable) (p : Params)
  (hp : p.m = t.m.toNat) (d : Draft) (hd : d.vector.length = t.dimensions.toNat) (own : τ)
include h hnav

theorem consult_ok (q : Params) : ∃ a, (consult (layerSearch τ q) d s.entry).run (s, own) =
    .ok a (s, own) := by
  cases hentry : s.entry with
  | none => exact ⟨_, rfl⟩
  | some entry =>
    obtain ⟨e, he, -⟩ := hnav.found entry hentry
    obtain ⟨lists, hlists⟩ := Store.searchFrom_ok h hnav.links q
      ⟨d.vector, d.level.toNat, none⟩ he
    obtain ⟨duplicate, hdup⟩ := Store.findDuplicate_ok d.vector
      (Store.searchFrom_live q _ entry lists hlists)
    have hsearch : Action.reading (fun s => s.searchFrom q ⟨d.vector, d.level.toNat, none⟩ entry) s =
        .ok lists s := by
      rw [Action.reading, hlists]
    have hlook : Action.reading (fun s => s.findDuplicate d.vector lists) s = .ok duplicate s := by
      rw [Action.reading, hdup]
    refine ⟨({ d with neighbors := lists }, duplicate), ?_⟩
    exact (Turns.run_bind_ok (Turns.run_act_ok hsearch own)).trans
      (Turns.run_bind_ok (Turns.run_act_ok hlook own))

variable (helement : Element.encodedSize t.dimensions.toNat ≤ Page.empty.freeSpace)
  (hneighbors : Adjacency.encodedSize d.level.toNat t.m.toNat ≤ Page.empty.freeSpace)
  (hsize : s.pages.size < 4294967295)
include hp hd helement hneighbors hsize

omit hnav in
theorem store_ok (entry : Option EntryPoint) (lists : List (List Candidate)) :
    ∃ i s', (store p entry { d with neighbors := lists }).run (s, own) = .ok i (s', own) := by
  obtain ⟨st, s', hrun⟩ := storePair_ok h { d with neighbors := lists } hd
    (by rw [hd]; exact helement) hneighbors hsize
  rw [store, hp]
  exact ⟨_, s', Turns.run_bind_ok (Turns.run_act_ok hrun own)⟩

theorem place_ok (q : Params) (hlists : s.Linkable q.m d.neighbors) :
    ∃ i s', (place p (layerSearch τ q) d).run (s, own) = .ok i (s', own) := by
  have hread : Action.reading (fun s => .ok s.entry) s = .ok s.entry s := rfl
  obtain ⟨a, ha⟩ := consult_ok h hnav d own q
  rw [place, Turns.run_bind_ok (Turns.run_act_ok hread own)]
  rcases consult_run q d s own hlists s.entry with
    ⟨e, he⟩ | ⟨lists, duplicate, hrun, -, hdup⟩
  · rw [ha] at he
    cases he
  · rw [Turns.run_bind_ok hrun]
    cases duplicate with
    | none => exact store_ok h p hp d hd own helement hneighbors hsize s.entry lists
    | some l =>
      obtain ⟨e, he, -, -⟩ := hdup l rfl
      rcases attachRow_element h l d.row e he with hno | ⟨place, s', hjoin, -⟩
      · obtain ⟨i, s', hstore⟩ :=
          store_ok h p hp d hd own helement hneighbors hsize s.entry lists
        exact ⟨i, s', (Turns.run_bind_ok (Turns.run_act_ok hno own)).trans hstore⟩
      · exact ⟨.joined l, s', Turns.run_bind_ok (Turns.run_act_ok hjoin own)⟩

end

end Insertion

namespace Index

variable {dimensions : UInt32} {o : Options} {ix : Index} {s : Store}

theorem Settled.insert_ok (h : Settled dimensions o ix s) {v : Embedding} (row : RowId)
    {level : UInt8} (hwidth : v.length = ix.dimensions)
    (hfinite : ∀ x ∈ v, FloatBits.isFinite x = true) (hlevel : level.toNat ≤ ix.params.maxLevel)
    (hb : ((ix.insertAtLevel (some v) row level).after s).pages.size < 4294967295) :
    ∃ outcome s', ix.insertAtLevel (some v) row level s = .ok outcome s' := by
  rw [insertAtLevel_valid ix row hlevel hwidth hfinite] at hb ⊢
  cases hprepare : ix.prepare v with
  | none => exact ⟨.skipped .zeroNorm, s, rfl⟩
  | some w =>
    simp only [hprepare] at hb ⊢
    have hconstruction : ix.construction Unit =
        layerSearch Unit { ix.params with searchWidth := ix.constructionWidth } := rfl
    rw [hconstruction] at hb ⊢
    have hw : w.length = (template dimensions o).dimensions.toNat := by
      rw [length_prepare hprepare, hwidth, h.width]
      rfl
    rw [ActionWith.after_alone] at hb
    obtain ⟨r, s', heffect, hresult, herror⟩ := Insertion.insertElement_effect h.intact ix.params
      h.m_eq (Draft.new level w row) hw () { ix.params with searchWidth := ix.constructionWidth } h.m_eq
      (Store.linkable_nil _ _) (Nat.le_of_lt hb)
    cases r with
    | ok outcome =>
      refine ⟨outcome, s', ?_⟩
      rw [ActionWith.alone, hresult]
      rfl
    | error e =>
      -- A failed insertion leaves the store as it is, so there was room for the pair.
      have hsame : s' = s := by
        cases heffect
        rfl
      rw [ActionWith.after, hresult, hsame] at hb
      obtain ⟨helement, hneighbors⟩ := h.fits hlevel
      rw [h.width] at helement
      rw [h.m_eq] at hneighbors
      obtain ⟨i, s₁, hplace⟩ := Insertion.place_ok h.intact h.navigable ix.params h.m_eq
        (Draft.new level w row) hw () helement hneighbors hb
        { ix.params with searchWidth := ix.constructionWidth } (Store.linkable_nil _ _)
      have hfail := herror e rfl
      rw [hplace] at hfail
      cases hfail

structure Accepting (ix : Index) (s : Store) : Prop where
  insert : ∀ (v : Embedding) (row : RowId) (level : UInt8), v.length = ix.dimensions →
    (∀ x ∈ v, FloatBits.isFinite x = true) → level.toNat ≤ ix.params.maxLevel →
    ((ix.insertAtLevel (some v) row level).after s).pages.size < 4294967295 →
    ∃ outcome s', ix.insertAtLevel (some v) row level s = .ok outcome s'
  placement : ∀ (d : Draft) (at_ : Location) (place : Placement) (w : Work),
    d.vector.length = ix.dimensions → d.level.toNat ≤ ix.params.maxLevel →
    allocate ⟨Element.encodedSize d.vector.length, (d.adjacency ix.params.m).encode.size⟩
      ⟨s, .empty⟩ = .ok place w →
    place.Takes w { d.element with neighborsAt := at_ : Element }.encode
      (d.adjacency ix.params.m).encode
  entry : ∀ x, s.entry = some x → ∃ e, s.element x.location = .ok e
  neighborsAt : ∀ l e, s.element l = .ok e → ∃ a, s.adjacency e.neighborsAt = .ok a
  links : ∀ l a, s.adjacency l = .ok a → ∀ k ∈ a.slots, k.isUsed = true → ∃ e, s.element k = .ok e
  cursor : ∃ p, s.readPage s.cursor = .ok p
  next : ∀ id p, 0 < id.toNat → s.readPage id = .ok p → p.next ≠ noPage →
    ∃ q, s.readPage p.next = .ok q

theorem readPage_lt {id : PageId} (h : id.toNat < s.pages.size) : ∃ p, s.readPage id = .ok p := by
  rw [Store.readPage, Array.getElem?_eq_getElem h]
  exact ⟨_, rfl⟩

theorem getElem?_of_readPage {id : PageId} {p : Page} (h : s.readPage id = .ok p) :
    s.pages[id.toNat]? = some p := by
  rw [Store.readPage] at h
  cases hget : s.pages[id.toNat]? with
  | none =>
    rw [hget] at h
    cases h
  | some q =>
    rw [hget] at h
    exact congrArg some (Except.ok.inj h)

/-- Whatever one user has done with an index that was opened on a blank file, no valid insertion
fails. -/
theorem accepting_of_history (h : History dimensions o ix s) : Accepting ix s := by
  obtain ⟨o', -, -, hsettled⟩ := h.settled
  have hintact := hsettled.intact
  constructor
  · intro v row level hwidth hfinite hlevel hb
    exact hsettled.insert_ok row hwidth hfinite hlevel hb
  · intro d at_ place w hwidth hlevel hrun
    obtain ⟨helement, hneighbors⟩ := hsettled.fits hlevel
    rw [← hwidth] at helement
    rw [hsettled.m_eq] at hneighbors hrun ⊢
    have htakes := delivers_takes hintact (F := True) d
      (by rw [hwidth, hsettled.width]; rfl) helement hneighbors fun _ => trivial
    rw [Transaction.Delivers, hrun] at htakes
    exact htakes at_
  · intro x hx
    obtain ⟨e, he, -⟩ := hsettled.navigable.found x hx
    exact ⟨e, (s.element_eq_ok _ e).mpr he⟩
  · intro l e he
    obtain ⟨a, ha, -⟩ := hintact.paired.resolves l e ((s.element_eq_ok l e).mp he)
    exact ⟨a, (s.adjacency_eq_ok _ a).mpr ha⟩
  · intro l a ha k hk hused
    obtain ⟨e, he⟩ := hsettled.navigable.links l a ((s.adjacency_eq_ok l a).mp ha) k hk hused
    exact ⟨e, (s.element_eq_ok k e).mpr he⟩
  · exact readPage_lt hintact.cursor_lt
  · intro id p hid hp hnext
    obtain ⟨hsucc, hlt⟩ := hintact.toNat_next id.toNat p hid (getElem?_of_readPage hp) hnext
    apply readPage_lt
    rw [hsucc]
    exact hlt

/-- Beside an element and a deleted one, the next insertion takes the place of the deleted one. -/
theorem accepting_reused : ∃ s s', s.element ⟨1, 0⟩ = .ok first.tombstone ∧
    s.element ⟨1, 2⟩ = .ok second ∧ Accepting wide s ∧
    insertAtLevel wide (some (plain 2)) 9 0 s = .ok (.inserted ⟨1, 0⟩) s' := by
  obtain ⟨s, hboth, hhistory, -⟩ := both_reached
  have hdeleted := hboth.delete
  have haccepting := accepting_of_history (hhistory.delete ⟨1, 0⟩)
  obtain ⟨s', hreused, hrun⟩ := hdeleted.third_stored
  have hinsert := insert_wide (by decide) (by decide) hrun
  obtain ⟨outcome, s'', hok⟩ := haccepting.insert (plain 2) 9 0 (length_plain 2)
    (fun x hx => by rw [List.eq_of_mem_replicate hx]; decide) (by decide +kernel) (by
      rw [Action.after_ok hinsert, hreused.size]
      decide)
  exact ⟨_, s'', (Store.element_eq_ok _ _ _).mpr hdeleted.atFirst,
    (Store.element_eq_ok _ _ _).mpr hdeleted.atSecond, haccepting,
    by rw [hok, (EStateM.Result.ok.inj (hinsert.symm.trans hok)).1]⟩

end Index

end PagedGraph
