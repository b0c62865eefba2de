import PagedGraph.Proofs.Crowd
import PagedGraph.Proofs.Inserting

/-!
# A pair that fits at the cursor

Where the insert cursor stands on a page with room for both records of a draft, they go to the next
two slots of that page, and the file does not grow. So the first element of a graph is stored, and
becomes the entry point, whenever its records fit there (`first_completes`).
-/

set_option autoImplicit false

namespace PagedGraph

namespace Transaction

theorem image_single (id : PageId) (p : Page) (s : Store) :
    image 0 ⟨s, .single id p⟩ = .ok p ⟨s, .single id p⟩ := rfl

theorem pageId_single (id : PageId) (p : Page) (s : Store) :
    pageId 0 ⟨s, .single id p⟩ = .ok id ⟨s, .single id p⟩ := rfl

theorem writeMember_single (id : PageId) {p q : Page} (s : Store) (what : PairWrite)
    (write : Page → Except Error Page) (h : write p = .ok q) :
    writeMember 0 what write ⟨s, .single id p⟩ = .ok () ⟨s, .single id q⟩ := by
  rw [writeMember, bind_ok (image_single id p s)]
  have hattempt : attempt what (write p) ⟨s, .single id p⟩ = .ok q ⟨s, .single id p⟩ := by
    rw [h]
    rfl
  rw [bind_ok hattempt]
  simp [setImage, Group.setImage, Group.single]

theorem writePair_single (id cursor : PageId) {p q q' : Page} (s : Store) (slots : Nat × Nat)
    {element neighbors : Bytes} {i j : Nat} (hq : p.addItem element = .ok (i, q))
    (hq' : q.addItem neighbors = .ok (j, q')) :
    writePair ⟨0, 0, none, none, cursor⟩ slots element neighbors ⟨s, .single id p⟩ =
      .ok () ⟨s, .single id q'⟩ := by
  have hfirst := writeMember_single id s .addElement
    (fun p => (p.addItem element).map Prod.snd) (congrArg (Except.map Prod.snd) hq)
  have hsecond := writeMember_single id s .addNeighbors
    (fun p => (p.addItem neighbors).map Prod.snd) (congrArg (Except.map Prod.snd) hq')
  exact (bind_ok hfirst).trans hsecond

end Transaction

theorem Page.Carries.freeSpace_append {width : Nat} {p q : Page} {rs : List Record} {r : Record}
    (h : p.Carries width rs) (h' : q.Carries width (rs ++ [r])) :
    p.freeSpace ≤ q.freeSpace + (r.encode.size + Page.itemIdSize) := by
  have hlower := h.holds.lower_eq
  have hlower' := h'.holds.lower_eq
  have htop := h.holds.top
  have htop' := h'.holds.top
  rw [List.map_append, List.length_append, List.map_singleton, List.length_singleton] at hlower'
  rw [List.map_append, Page.totalSize_append, List.map_singleton, Page.totalSize,
    Page.totalSize] at htop'
  rw [Page.freeSpace, Page.freeSpace, Page.itemIdSize]
  omega

theorem Page.Carries.add_two {width : Nat} {p : Page} {rs : List Record}
    (h : p.Carries width rs) (r r' : Record) (hr : r.Fits width) (hr' : r'.Fits width)
    (hroom : r.encode.size + r'.encode.size + Page.itemIdSize ≤ p.freeSpace) :
    ∃ q q', p.addItem r.encode = .ok (rs.length, q) ∧ q.addItem r'.encode = .ok (rs.length + 1, q') ∧
      p.freeSpace ≤ q'.freeSpace + (r.encode.size + r'.encode.size + 2 * Page.itemIdSize) := by
  have hpos : 0 < r.encode.size := Page.Carries.size_pos r
  have hpos' : 0 < r'.encode.size := Page.Carries.size_pos r'
  have hid : Page.itemIdSize = 4 := rfl
  have hspace : ∀ p : Page, p.freeSpace = p.upper - p.lower - 4 := fun _ => rfl
  obtain ⟨q, hq, hrs, -⟩ := h.add r hr (by have := hspace p; omega)
  have hfree := h.freeSpace_append hrs
  obtain ⟨q', hq', hrs', -⟩ := hrs.add r' hr' (by have := hspace q; omega)
  have hfree' := hrs.freeSpace_append hrs'
  rw [List.length_append, List.length_singleton] at hq'
  exact ⟨q, q', hq, hq', by omega⟩

section
variable {t : Header} {s : Store} (h : s.Intact t) {p : Page}
  (hp : s.pages[s.cursor.toNat]? = some p)
include h hp

theorem allocate_fits (size : PairSize) (hroom : size.together ≤ p.freeSpace) :
    allocate size ⟨s, .empty⟩ =
      .ok ⟨0, 0, none, none, s.cursor⟩ ⟨s.locked s.cursor, .single s.cursor p⟩ := by
  have hget : (get : Transaction Work) ⟨s, .empty⟩ = .ok ⟨s, .empty⟩ ⟨s, .empty⟩ := rfl
  have hrestart : Transaction.restart ⟨s, .empty⟩ = .ok () ⟨s, .empty⟩ := rfl
  have hregister := register_empty s.cursor s p (h.lt_pageCount _ p hp) (h.isHeld_eq _) hp
  rw [allocate, Transaction.bind_ok hget, probeFrom, Transaction.bind_ok hrestart,
    Transaction.bind_ok hregister, Transaction.bind_ok (Transaction.image_single _ p _),
    if_pos hroom]
  rfl

theorem storePair_fits (d : Draft) (hd : d.vector.length = t.dimensions.toNat)
    (hroom : Element.encodedSize d.vector.length + (d.adjacency t.m.toNat).encode.size +
      Page.itemIdSize ≤ p.freeSpace) :
    ∃ s' q, storePair d t.m.toNat s = .ok ⟨⟨s.cursor, UInt16.ofNat p.slotCount⟩,
        ⟨s.cursor, UInt16.ofNat (p.slotCount + 1)⟩, none⟩ s' ∧
      s'.pages.size = s.pages.size ∧ s'.pages[s.cursor.toNat]? = some q ∧
      p.freeSpace ≤ q.freeSpace + (Element.encodedSize d.vector.length +
        (d.adjacency t.m.toNat).encode.size + 2 * Page.itemIdSize) := by
  have hfits : ∀ k : Location,
      Record.Fits t.dimensions.toNat (.element { d.element with neighborsAt := k }) :=
    fun k => ⟨hd, h.width, Element.packed_single d.level d.vector d.row⟩
  have hsize : ∀ k : Location, { d.element with neighborsAt := k : Element }.encode.size =
      Element.encodedSize d.vector.length := fun k => Element.size_encode _
  obtain ⟨rs, hrs⟩ := h.filled _ p h.cursor_pos hp
  generalize hk : (⟨s.cursor, UInt16.ofNat (p.slotCount + 1)⟩ : Location) = k
  obtain ⟨q, q', hq, hq', hleft⟩ := hrs.add_two (.element { d.element with neighborsAt := k })
    (.adjacency (d.adjacency t.m.toNat)) (hfits k)
    (Record.fits_adjacency _ _ (by
      show (d.adjacency t.m.toNat).encode.size ≤ pageSize
      have htop := hrs.holds.top
      rw [Page.freeSpace] at hroom
      omega))
    (by
      show Array.size (Element.encode _) + Array.size (Adjacency.encode _) + _ ≤ _
      rw [hsize]
      exact hroom)
  refine ⟨s.withPage s.cursor q', q', ?_, s.size_withPage _ _, ?_, ?_⟩
  rotate_left
  · rw [s.getElem?_withPage _ _ _ _ hp, if_pos rfl]
  · have hencode : (Record.element { d.element with neighborsAt := k }).encode.size =
        Element.encodedSize d.vector.length := hsize k
    rwa [hencode] at hleft
  have hallocate := allocate_fits h hp
    ⟨Element.encodedSize d.vector.length, (d.adjacency t.m.toNat).encode.size⟩ hroom
  refine transaction_commit _ s _ _ ⟨s.locked s.cursor, .single s.cursor q'⟩ ?_
    (Group.commit_single s.cursor q' p s hp)
  rw [placeAndWrite, Transaction.bind_ok hallocate,
    Transaction.bind_ok (Transaction.pageId_single _ p _),
    Transaction.bind_ok (Transaction.pageId_single _ p _),
    Transaction.bind_ok (Transaction.image_single _ p _),
    Transaction.bind_ok (Transaction.image_single _ p _)]
  have hslots : Placement.slots ⟨0, 0, none, none, s.cursor⟩ p p =
      (p.slotCount, p.slotCount + 1) := rfl
  have hadvance : Placement.advance ⟨0, 0, none, none, s.cursor⟩ s.cursor = none :=
    if_neg fun hne => hne.1 rfl
  rw [hslots, hk, hadvance]
  have hwrite := Transaction.writePair_single s.cursor s.cursor (s.locked s.cursor)
    (p.slotCount, p.slotCount + 1) hq hq'
  exact Transaction.bind_ok hwrite

theorem storePair_fits_two (d e : Draft) (hd : d.vector.length = t.dimensions.toNat)
    (he : e.vector.length = t.dimensions.toNat)
    (hroom : Element.encodedSize d.vector.length + (d.adjacency t.m.toNat).encode.size +
      (Element.encodedSize e.vector.length + (e.adjacency t.m.toNat).encode.size) +
      3 * Page.itemIdSize ≤ p.freeSpace) :
    ∃ st st' s₁ s₂, storePair e t.m.toNat s = .ok st s₁ ∧ storePair d t.m.toNat s₁ = .ok st' s₂ ∧
      s₁.pages.size = s.pages.size ∧ s₂.pages.size = s₁.pages.size := by
  obtain ⟨s₁, q, hrun, hsize, hq, hleft⟩ := storePair_fits h hp e he (by omega)
  have hplaced := storePair_placed h e he hrun (by rw [Store.Numbered, hsize]; exact h.bounded)
  have hcursor : s₁.cursor = s.cursor := by rw [Store.cursor, Store.cursor, hplaced.put.header]
  obtain ⟨s₂, -, hrun₂, hsize₂, -⟩ := storePair_fits hplaced.intact (p := q)
    (by rw [hcursor]; exact hq) d hd (by omega)
  exact ⟨_, _, s₁, s₂, hrun, hrun₂, hsize, hsize₂⟩

end

theorem Page.freeSpace_empty : Page.empty.freeSpace = 8172 := by
  rw [Page.freeSpace, Page.lower, Page.upper_empty, Page.slotCount_empty]
  rfl

section
variable {τ : Type} {t : Header} {s : Store} (h : s.Intact t)
include h

omit h in
theorem linkNeighbors_none (p : Params) (d : Draft) (hlists : ∀ i, d.neighbors.getD i [] = []) :
    (linkNeighbors p d : Turns τ Unit) = pure () := by
  rw [linkNeighbors]
  induction d.level.toNat with
  | zero => rw [linkFrom, hlists, linkEach]
  | succ layer ih =>
    rw [linkFrom, hlists, linkEach, ih]
    rfl

theorem connect_first (p : Params) (c : Construction τ) (d : Draft) (own : τ)
    (hnone : s.entry = none) (hlists : ∀ i, d.neighbors.getD i [] = [])
    (hpage : d.location.page ≠ noPage) (hn : s.Numbered) :
    ∃ s', (Insertion.connect p c (.stored d none none)).Completes (s, own)
        (.inserted d.location) (s', own) ∧ s'.Intact t ∧ s'.record? = s.record? ∧
      s'.entry = some ⟨d.location, d.level⟩ ∧ s'.pages.size = s.pages.size := by
  have hpublish : (Insertion.publish p d none none : Turns τ _) = Insertion.tryPromote d none := by
    show (linkNeighbors p d >>= fun _ => Insertion.tryPromote d none) = _
    rw [linkNeighbors_none p d hlists]
    rfl
  have hrank : Insertion.outranks d none = true := rfl
  obtain ⟨promotion, s', hpromote, hend⟩ := promote_cases h ⟨d.location, d.level⟩ none hpage
  cases hend with
  | superseded current found high => exact absurd (hnone.symm.trans found).symm (Option.some_ne_none _)
  | raced current found first => exact absurd (hnone.symm.trans found).symm (Option.some_ne_none _)
  | installed s' intact record size entry above =>
    refine ⟨s', ?_, intact, record, entry, size⟩
    rw [Insertion.connect, hpublish, Insertion.tryPromote, if_pos hrank]
    apply Turns.Completes.bind (a := none)
    · apply Turns.Completes.bind
      · apply Turns.Completes.act hpromote
        rw [Store.Numbered, size]
        exact hn
      · exact .done _ _
    · exact .done _ _

theorem first_completes (p : Params) (hp : p.m = t.m.toNat) (c : Construction τ) (d : Draft)
    (hd : d.vector.length = t.dimensions.toNat) (own : τ) (hnone : s.entry = none)
    (hlists : ∀ i, d.neighbors.getD i [] = []) {page : Page}
    (hpage : s.pages[s.cursor.toNat]? = some page)
    (hroom : Element.encodedSize d.vector.length + (d.adjacency t.m.toNat).encode.size +
      Page.itemIdSize ≤ page.freeSpace) :
    ∃ s', (insertion p c d).Completes (s, own)
        (.inserted ⟨s.cursor, UInt16.ofNat page.slotCount⟩) (s', own) ∧ s'.Intact t ∧
      s.Puts s' ⟨s.cursor, UInt16.ofNat page.slotCount⟩ { d.element with
        neighborsAt := ⟨s.cursor, UInt16.ofNat (page.slotCount + 1)⟩ } ∧
      s'.entry = some ⟨⟨s.cursor, UInt16.ofNat page.slotCount⟩, d.level⟩ ∧
      s'.pages.size = s.pages.size := by
  have hcursor : s.cursor ≠ noPage := by
    intro heq
    have hlt := h.cursor_lt
    have hbound := h.bounded
    have hno : noPage.toNat = 4294967295 := by decide
    rw [heq, hno] at hlt
    omega
  obtain ⟨s₁, -, hstore, hsize₁, -⟩ := storePair_fits h hpage d hd hroom
  have hn₁ : s₁.Numbered := by
    rw [Store.Numbered, hsize₁]
    exact h.bounded
  generalize (⟨s.cursor, UInt16.ofNat (page.slotCount + 1)⟩ : Location) = k at hstore ⊢
  have hplace : (⟨s.cursor, UInt16.ofNat page.slotCount⟩ : Location).page ≠ noPage := hcursor
  generalize (⟨s.cursor, UInt16.ofNat page.slotCount⟩ : Location) = l at hstore hplace ⊢
  have hplaced := storePair_placed h d hd hstore hn₁
  have hentry₁ : s₁.entry = none := hplaced.entry.trans hnone
  obtain ⟨s₂, hconnect, hintact, hrecord, hentry, hsize⟩ := connect_first hplaced.intact p c
    { d with location := l, neighborsAt := k } own hentry₁ hlists hplace hn₁
  refine ⟨s₂, ?_, hintact, ?_, hentry, hsize.trans hsize₁⟩
  · have hread : Action.reading (fun s => .ok s.entry) s = .ok none s := by
      rw [Action.reading, hnone]
    rw [← hp] at hstore
    apply Turns.Completes.bind (a := .stored { d with location := l, neighborsAt := k } none none)
    · apply Turns.Completes.bind (Turns.Completes.act hread h.bounded own)
      apply Turns.Completes.bind (Turns.Completes.done (d, none) _)
      exact Turns.Completes.bind (Turns.Completes.act hstore hn₁ own) (.done _ _)
    · exact hconnect
  · exact (hplaced.put.puts h).followed fun k f => by rw [hrecord]

end

theorem Draft.neighbors_new (level : UInt8) (vector : Embedding) (row : RowId) (i : Nat) :
    (Draft.new level vector row).neighbors.getD i [] = [] := by
  rw [Draft.new, List.getD_eq_getElem?_getD, List.getElem?_replicate]
  split <;> rfl

theorem first_pair {dimensions : UInt32} {o : Options} {ix : Index} {s : Store}
    (hopened : Index.Opened dimensions o ix s)
    (hfresh : s = Store.fresh (Index.template dimensions o)) {τ : Type} (c : Construction τ)
    (own : τ) (d : Draft) (hd : d.vector.length = dimensions.toNat)
    (hlists : ∀ i, d.neighbors.getD i [] = [])
    (hroom : Element.encodedSize d.vector.length + (d.adjacency o.m.toNat).encode.size + 4 ≤ 8172) :
    ∃ s₁, (insertion ix.params c d).Completes (s, own) (.inserted ⟨1, 0⟩) (s₁, own) ∧
      s₁.Intact (Index.template dimensions o) ∧
      s.Puts s₁ ⟨1, 0⟩ { d.element with neighborsAt := ⟨1, 1⟩ } ∧
      s₁.entry = some ⟨⟨1, 0⟩, d.level⟩ ∧ s₁.pages.size = 2 := by
  subst hfresh
  have hnone : (Store.fresh (Index.template dimensions o)).entry = none := by
    rw [Store.entry, Store.header_fresh]
    rfl
  have hcursor : (Store.fresh (Index.template dimensions o)).cursor = firstDataPage := by
    rw [Store.cursor, Store.header_fresh]
    rfl
  have hpage : (Store.fresh (Index.template dimensions o)).pages[
      (Store.fresh (Index.template dimensions o)).cursor.toNat]? = some Page.empty := by
    rw [hcursor]
    rfl
  obtain ⟨s₁, hrun, hresult⟩ := first_completes hopened.intact ix.params
    hopened.m_eq c d hd own hnone hlists hpage
    (by rw [Page.freeSpace_empty]; exact hroom)
  rw [hcursor, Page.slotCount_empty] at hrun hresult
  exact ⟨s₁, hrun, hresult⟩

theorem first_inserted {dimensions : UInt32} {o : Options} {ix : Index} {s : Store}
    (hopened : Index.Opened dimensions o ix s)
    (hfresh : s = Store.fresh (Index.template dimensions o)) {τ : Type} (c : Construction τ)
    (own : τ) (d : Draft) (hd : d.vector.length = dimensions.toNat)
    (hlists : ∀ i, d.neighbors.getD i [] = [])
    (hroom : Element.encodedSize d.vector.length + (d.adjacency o.m.toNat).encode.size + 4 ≤ 8172) :
    ∃ s₁ k, (insertion ix.params c d).Completes (s, own) (.inserted ⟨1, 0⟩) (s₁, own) ∧
      s₁.Intact (Index.template dimensions o) ∧
      s.Puts s₁ ⟨1, 0⟩ { d.element with neighborsAt := k } ∧ s₁.entry = some ⟨⟨1, 0⟩, d.level⟩ ∧
      s₁.pages.size = 2 := by
  obtain ⟨s₁, hrun, hresult⟩ := first_pair hopened hfresh c own d hd hlists hroom
  exact ⟨s₁, _, hrun, hresult⟩

theorem Index.checkOptions_new_file :
    Index.checkOptions 2 Options.standard = .ok Params.standard :=
  Index.checkOptions_standard (by decide) (by decide)

theorem Index.opened_new_file : Index.Opened 2 Options.standard ⟨Params.standard, 2, 64⟩
    (Store.fresh (Index.template 2 Options.standard)) :=
  (Index.opened_of_blank rfl (Index.openFile_blank checkOptions_new_file "index" .absent rfl)).1

theorem inserted_new_file {τ : Type} (c : Construction τ) (own : τ) {level : UInt8}
    (hlevel : level.toNat ≤ 1) :
    ∃ s₁ k, (insertion Params.standard c (Draft.new level [0, 0] 7)).Completes
        (Store.fresh (Index.template 2 Options.standard), own) (.inserted ⟨1, 0⟩) (s₁, own) ∧
      s₁.Intact (Index.template 2 Options.standard) ∧
      (Store.fresh (Index.template 2 Options.standard)).Puts s₁ ⟨1, 0⟩
        { (Draft.new level [0, 0] 7).element with neighborsAt := k } ∧
      s₁.entry = some ⟨⟨1, 0⟩, level⟩ ∧ s₁.pages.size = 2 := by
  refine first_inserted Index.opened_new_file rfl c own (Draft.new level [0, 0] 7) rfl
    (Draft.neighbors_new _ _ _) ?_
  have hcases : level = 0 ∨ level = 1 := by
    rw [← UInt8.toNat_inj, ← UInt8.toNat_inj]
    exact Nat.le_one_iff_eq_zero_or_eq_one.mp hlevel
  rw [Adjacency.size_encode, Draft.length_adjacency]
  rcases hcases with rfl | rfl <;> decide

theorem first_reaches {dimensions : UInt32} {o : Options} {ix : Index} {s : Store}
    (hopened : Index.Opened dimensions o ix s)
    (hfresh : s = Store.fresh (Index.template dimensions o)) (d : Draft)
    (hd : d.vector.length = dimensions.toNat) (hlists : ∀ i, d.neighbors.getD i [] = [])
    (hroom : Element.encodedSize d.vector.length + (d.adjacency o.m.toNat).encode.size + 4 ≤ 8172) :
    ∃ s₁ k, Reaches ix.params dimensions.toNat s ⟨s₁, []⟩ ∧ s₁.Intact (Index.template dimensions o) ∧
      s.Puts s₁ ⟨1, 0⟩ { d.element with neighborsAt := k } ∧ s₁.entry = some ⟨⟨1, 0⟩, d.level⟩ ∧
      s₁.pages.size = 2 := by
  obtain ⟨s₁, k, hrun, hresult⟩ := first_inserted hopened hfresh (layerSearch Unit ix.params) () d
    hd hlists hroom
  exact ⟨s₁, k, .inserted (.start _) hd hrun, hresult⟩

end PagedGraph
