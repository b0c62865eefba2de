import PagedGraph.Proofs.History

/-!
# What a reported row leaves behind

An insertion that answers with a location has put its row into a place of the element there, and
the element is live. Every 64-bit number is accepted as a row, also `noRow`, which says that a place
is free. So the element holds the row unless it is `noRow` (`reported_row`). An element that was
stored for `noRow` looks as if it were being deleted, and no row can join it
(`attachRow_of_rows_nil`).
-/

set_option autoImplicit false

namespace PagedGraph

namespace Element

/-- The rows that a place holds into which a row has been put. -/
def held (row : RowId) : List RowId := [row].filter (· != noRow)

theorem held_noRow : held noRow = [] := rfl

theorem held_eq {row : RowId} (h : row ≠ noRow) : held row = [row] :=
  List.filter_cons_of_pos (bne_iff_ne.mpr h)

theorem mem_held {r row : RowId} : r ∈ held row ↔ r = row ∧ row ≠ noRow := by
  rw [held, List.mem_filter, List.mem_singleton, bne_iff_ne]
  constructor
  · rintro ⟨rfl, hr⟩
    exact ⟨rfl, hr⟩
  · rintro ⟨rfl, hr⟩
    exact ⟨rfl, hr⟩

theorem noRow_not_mem (e : Element) : noRow ∉ e.rows := fun h =>
  bne_iff_ne.mp (e.rows_valid noRow h) rfl

theorem rows_single_held (level : UInt8) (vector : Embedding) (row : RowId) :
    (single level vector row).rows = held row := by
  by_cases hrow : row = noRow
  · subst hrow
    have hfree : (single level vector noRow).rowSlots.toList = [] ++ List.replicate 10 noRow := by
      simp [single, rowCapacity]
      rfl
    exact (packed_of_toList _ [] 10 hfree (by simp)).2
  · rw [rows_single level vector row hrow, held_eq hrow]

theorem withRow_noRow (e : Element) {place : Nat} (h : e.firstFreeRow = some place) :
    e.withRow place noRow = e := by
  obtain ⟨hlt, hfree, -⟩ := List.findIdx?_eq_some_iff_getElem.mp h
  have hat : e.rowSlots.toList[place] = noRow := eq_of_beq hfree
  have hslots : e.rowSlots.setIfInBounds place noRow = e.rowSlots := by
    apply Vector.toList_inj.mp
    calc (e.rowSlots.setIfInBounds place noRow).toList
      _ = e.rowSlots.toList.set place e.rowSlots.toList[place] := by
        rw [Vector.toList_setIfInBounds, hat]
      _ = e.rowSlots.toList := List.set_getElem_self hlt
  rw [withRow, hslots]

theorem withRow_rows_held (e : Element) (h : e.Packed) {place : Nat} {row : RowId}
    (hfree : e.firstFreeRow = some place) : (e.withRow place row).rows = e.rows ++ held row := by
  by_cases hrow : row = noRow
  · subst hrow
    rw [e.withRow_noRow hfree, held_noRow, List.append_nil]
  · rw [(e.withRow_rows h place row hfree).2 hrow, held_eq hrow]

end Element

/-- What an answer says about the rows of the element that it names. -/
def Reports (row : RowId) (s s' : Store) : Outcome → Prop
  | .inserted l => ∃ e, s'.element l = .ok e ∧ e.deleted = false ∧ e.rows = Element.held row
  | .coalesced l => ∃ e f, s.element l = .ok e ∧ s'.element l = .ok f ∧ f.deleted = false ∧
      f.rows = e.rows ++ Element.held row ∧ (row = noRow → s'.record? = s.record?)
  | .skipped _ => s' = s

variable {t : Header} {s s' : Store} {row : RowId}

theorem Insertion.Effect.reports (h : s.Intact t) {d : Draft} {o : Outcome}
    (heffect : Effect t s d (.ok o) s') : Reports d.row s s' o := by
  cases heffect with
  | joined l e place s' found live same free behind intact rewritten =>
    obtain ⟨-, -, hpacked⟩ := h.fits_of_record l _ found
    refine ⟨e, e.withRow place d.row, (s.element_eq_ok l e).mpr found, ?_, live,
      e.withRow_rows_held hpacked free, fun hrow => ?_⟩
    · rw [Store.element_eq_ok, rewritten.record, putRecord_self]
    · funext k
      rw [rewritten.record, hrow, e.withRow_noRow free]
      by_cases hk : k = l
      · rw [hk, putRecord_self, found]
      · exact putRecord_of_ne _ _ hk
  | stored st lists s₁ s' linkable placed connected =>
    refine ⟨{ d.element with neighborsAt := st.neighborsAt }, ?_, rfl,
      Element.rows_single_held d.level d.vector d.row⟩
    rw [Store.element_eq_ok, connected.element, placed.put.record, putRecord_self]
    rfl

theorem Reports.holds {o : Outcome} (h : Reports row s s' o) {l : Location}
    (hl : o.location? = some l) :
    ∃ e, s'.element l = .ok e ∧ e.deleted = false ∧ (row ∈ e.rows ↔ row ≠ noRow) := by
  cases o with
  | inserted k =>
    obtain rfl := Option.some.inj hl
    obtain ⟨e, he, hlive, hrows⟩ := h
    refine ⟨e, he, hlive, ?_⟩
    rw [hrows, Element.mem_held]
    exact ⟨And.right, fun hrow => ⟨rfl, hrow⟩⟩
  | coalesced k =>
    obtain rfl := Option.some.inj hl
    obtain ⟨e, f, -, hf, hlive, hrows, -⟩ := h
    refine ⟨f, hf, hlive, fun hmem hrow => f.noRow_not_mem (hrow ▸ hmem), fun hrow => ?_⟩
    rw [hrows]
    exact List.mem_append_right _ (Element.mem_held.mpr ⟨rfl, hrow⟩)
  | skipped reason => cases hl

theorem attachRow_of_rows_nil (h : s.Intact t) {l : Location} {e : Element}
    (he : s.element l = .ok e) (hrows : e.rows = []) (row : RowId) :
    attachRow l row s = .ok false s := by
  have hfound := (s.element_eq_ok l e).mp he
  rcases attachRow_element h l row e hfound with hno | ⟨place, s', -, hfree, hplace, -⟩
  · exact hno
  · obtain ⟨-, -, hpacked⟩ := h.fits_of_record l _ hfound
    obtain ⟨rfl, -⟩ := e.firstFreeRow_eq hpacked place hfree
    exact absurd (congrArg List.length hrows) hplace

namespace Index

variable {dimensions : UInt32} {o : Options} {ix : Index}

/-- Whatever one user has done with an index: when an insertion reports a location, the element
there is live, and it holds the row unless that is `noRow`. A stored element holds nothing else; an
element that the row has joined holds what it held before, in front of the row. -/
theorem reported_row (h : History dimensions o ix s) (vector : Option Embedding) (row : RowId)
    (level : UInt8) (numbered : ((ix.insertAtLevel vector row level).after s).Numbered)
    (outcome : Outcome) (answer : (ix.insertAtLevel vector row level).answer s = .ok outcome) :
    Reports row s ((ix.insertAtLevel vector row level).after s) outcome ∧
      ∀ l, outcome.location? = some l →
        ∃ e, ((ix.insertAtLevel vector row level).after s).element l = .ok e ∧
          e.deleted = false ∧ (row ∈ e.rows ↔ row ≠ noRow) := by
  obtain ⟨o', -, -, hsettled⟩ := h.settled
  have hreports : Reports row s ((ix.insertAtLevel vector row level).after s) outcome := by
    rcases insertAtLevel_effect hsettled.intact ix hsettled.m_eq hsettled.width vector row level
      numbered with ⟨hsame, ⟨e, he⟩ | ⟨reason, hskip⟩⟩ | ⟨v, w, -, -, heffect⟩
    · rw [he] at answer
      cases answer
    · obtain rfl := Except.ok.inj (hskip.symm.trans answer)
      exact hsame
    · rw [answer] at heffect
      exact heffect.reports hsettled.intact
  exact ⟨hreports, fun l hl => hreports.holds hl⟩

theorem insert_row_new_file (row : RowId) :
    ∃ s, insertAtLevel ⟨Params.standard, 2, 64⟩ (some [0, 0]) row 0
        (Store.fresh (template 2 Options.standard)) = .ok (.inserted ⟨1, 0⟩) s ∧
      s.pages.size = 2 := by
  have hroom : Element.encodedSize (Draft.new 0 [0, 0] row).vector.length +
      ((Draft.new 0 [0, 0] row).adjacency Options.standard.m.toNat).encode.size + 4 ≤ 8172 := by
    rw [Adjacency.size_encode, Draft.length_adjacency]
    show Element.encodedSize 2 + LittleEndian.align
      (Adjacency.headerSize + Adjacency.slotCount 0 16 * Location.size) + 4 ≤ 8172
    decide
  obtain ⟨s₁, -, hrun, -, -, -, hsize⟩ := first_inserted opened_new_file rfl
    (layerSearch Unit Params.standard) () (Draft.new 0 [0, 0] row) rfl
    (Draft.neighbors_new _ _ _) hroom
  have hinsert : insertAtLevel ⟨Params.standard, 2, 64⟩ (some [0, 0]) row 0 =
      (insertElement Params.standard (layerSearch Unit Params.standard)
        (Draft.new 0 [0, 0] row)).alone := by
    rw [insertAtLevel_valid ⟨Params.standard, 2, 64⟩ row (Nat.zero_le _) rfl finite_zeros,
      construction_eq Unit rfl]
    rfl
  have hdone : insertElement Params.standard (layerSearch Unit Params.standard)
      (Draft.new 0 [0, 0] row) (Store.fresh (template 2 Options.standard), ()) =
        .ok (.inserted ⟨1, 0⟩) (s₁, ()) := hrun.run
  refine ⟨s₁, ?_, hsize⟩
  rw [hinsert, ActionWith.alone, hdone]

theorem reported_unheld : ∃ s e, insertAtLevel ⟨Params.standard, 2, 64⟩ (some [0, 0]) noRow 0
      (Store.fresh (template 2 Options.standard)) = .ok (.inserted ⟨1, 0⟩) s ∧
    s.element ⟨1, 0⟩ = .ok e ∧ e.deleted = false ∧ noRow ∉ e.rows := by
  obtain ⟨s, hinsert, hsize⟩ := insert_row_new_file noRow
  have hafter := Action.after_ok hinsert
  have hanswer : (insertAtLevel ⟨Params.standard, 2, 64⟩ (some [0, 0]) noRow 0).answer
      (Store.fresh (template 2 Options.standard)) = .ok (.inserted ⟨1, 0⟩) := by
    rw [Action.answer, hinsert]
  have hnumbered : s.Numbered := by
    rw [Store.Numbered, hsize]
    decide
  rw [← hafter] at hnumbered
  obtain ⟨-, hholds⟩ :=
    reported_row history_new_file (some [0, 0]) noRow 0 hnumbered (.inserted ⟨1, 0⟩) hanswer
  obtain ⟨e, he, hlive, hheld⟩ := hholds ⟨1, 0⟩ rfl
  rw [hafter] at he
  exact ⟨s, e, hinsert, he, hlive, fun hmem => hheld.mp hmem rfl⟩

end Index

end PagedGraph
