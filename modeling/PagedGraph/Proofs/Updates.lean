import PagedGraph.Graph.Links
import PagedGraph.Graph.Rows
import PagedGraph.Proofs.Intact
import PagedGraph.Proofs.RowLists
import PagedGraph.Proofs.Turns

/-!
# What the one-page updates of the graph do

For each of them: on an intact store it either changes nothing, or it rewrites one record without
changing its shape, or it writes one field of the header. The lock table comes back as it was, and
a store that was intact is intact again.
-/

set_option autoImplicit false

namespace PagedGraph

namespace Store

/-- Another intact store with the same elements and entry point. -/
structure Kept (t : Header) (s s' : Store) : Prop where
  intact : s'.Intact t
  element : ∀ l e, s'.record? l = some (.element e) ↔ s.record? l = some (.element e)
  entry : s'.entry = s.entry
  size : s'.pages.size = s.pages.size

variable {t : Header} {s : Store}

theorem Kept.refl (h : s.Intact t) : Kept t s s := ⟨h, fun _ _ => Iff.rfl, rfl, rfl⟩

theorem Kept.trans {s' s'' : Store} (h : Kept t s s') (h' : Kept t s' s'') : Kept t s s'' where
  intact := h'.intact
  element := by
    intro l e
    rw [h'.element, h.element]
  entry := h'.entry.trans h.entry
  size := h'.size.trans h.size

/-- Every neighbor record was there before, and its links lead where they led or to `target`. -/
def Linked (s s' : Store) (target : Location) : Prop :=
  ∀ k b, s'.record? k = some (.adjacency b) →
    ∃ a, s.record? k = some (.adjacency a) ∧ ∀ l ∈ b.slots, l ∈ a.slots ∨ l = target

theorem Linked.of_record {s' : Store} (h : s'.record? = s.record?) (target : Location) :
    s.Linked s' target := by
  intro k b hb
  rw [h] at hb
  exact ⟨b, hb, fun l hl => .inl hl⟩

theorem Linked.trans {s' s'' : Store} {target : Location} (h : s.Linked s' target)
    (h' : s'.Linked s'' target) : s.Linked s'' target := by
  intro k c hc
  obtain ⟨b, hb, hcb⟩ := h' k c hc
  obtain ⟨a, ha, hba⟩ := h k b hb
  exact ⟨a, ha, fun l hl => (hcb l hl).elim (hba l) .inr⟩

theorem Rewritten.kept {s' : Store} {l : Location} {a b : Adjacency}
    (h : Rewritten s s' l (.adjacency b)) (hintact : s'.Intact t)
    (ha : s.record? l = some (.adjacency a)) : Kept t s s' where
  intact := hintact
  element := by
    intro k e
    rw [h.record]
    by_cases hk : k = l
    · subst hk
      rw [putRecord_self, ha]
      constructor
      · intro heq
        cases heq
      · intro heq
        cases heq
    · rw [putRecord_of_ne _ _ hk]
  entry := by rw [entry, entry, h.header]
  size := h.size

theorem Rewritten.linked {s' : Store} {k target : Location} {a : Adjacency} {i : Nat}
    (h : Rewritten s s' k (.adjacency ⟨a.slots.set i target⟩))
    (ha : s.record? k = some (.adjacency a)) : s.Linked s' target := by
  intro j b hb
  rw [h.record] at hb
  by_cases hj : j = k
  · subst hj
    rw [putRecord_self] at hb
    cases hb
    exact ⟨a, ha, fun l hl => List.mem_or_eq_of_mem_set hl⟩
  · rw [putRecord_of_ne _ _ hj] at hb
    exact ⟨b, hb, fun l hl => .inl hl⟩

end Store

section
variable {t : Header} {s : Store} (h : s.Intact t)
include h

theorem editPage_intact {α : Type} (id : PageId)
    (decision : Store → Page → Except Error (Edit α)) (p : Page)
    (hp : s.pages[id.toNat]? = some p) :
    editPage id decision s = match decision (s.locked id) p with
      | .error e => .error e s
      | .ok (.keep a) => .ok a s
      | .ok (.replace q a) => .ok a (s.withPage id q) :=
  editPage_eq id decision s p (h.lt_pageCount _ p hp) (h.isHeld_eq _) hp

theorem editPage_no_element {α : Type} (l : Location) (f : Element → Page → Except Error (Edit α))
    (hl : ∀ e, s.record? l ≠ some (.element e)) :
    ∃ c, editPage l.page (fun _ page => (page.element l).bind fun e => f e page) s =
      .error c s := by
  rcases editPage_cases l.page (fun _ page => (page.element l).bind fun e => f e page) s with
    hfail | ⟨p, hp, hrun⟩
  · exact hfail
  · cases he : p.element l with
    | ok e =>
      rw [p.element_eq_ok, ← s.record?_of_page l p hp] at he
      exact absurd he (hl e)
    | error c =>
      refine ⟨c, ?_⟩
      rw [editPage_intact h l.page _ p hp, he]
      rfl

theorem editPage_no_adjacency {α : Type} (l : Location)
    (f : Store → Adjacency → Page → Except Error (Edit α))
    (hl : ∀ a, s.record? l ≠ some (.adjacency a)) :
    ∃ c, editPage l.page (fun s page => (page.adjacency l).bind fun a => f s a page) s =
      .error c s := by
  rcases editPage_cases l.page (fun s page => (page.adjacency l).bind fun a => f s a page) s with
    hfail | ⟨p, hp, hrun⟩
  · exact hfail
  · cases he : p.adjacency l with
    | ok a =>
      rw [p.adjacency_eq_ok, ← s.record?_of_page l p hp] at he
      exact absurd he (hl a)
    | error c =>
      refine ⟨c, ?_⟩
      rw [editPage_intact h l.page _ p hp, he]
      rfl

theorem attachRow_live (l : Location) (row : RowId) (e : Element)
    (he : s.record? l = some (.element e)) {place : Nat} (hfree : e.firstFreeRow = some place)
    (hbehind : place ≠ 0) (hlive : e.deleted = false) :
    ∃ s', attachRow l row s = .ok true s' ∧ s'.Intact t ∧
      Store.Rewritten s s' l (.element (e.withRow place row)) := by
  obtain ⟨hlen, hwidth, hpacked⟩ := h.fits_of_record l _ he
  obtain ⟨p, q, hp, hrec, hq, hintact, hrew⟩ := h.rewrite l (.element e)
    (.element (e.withRow place row)) he ⟨rfl, rfl, rfl⟩
    ⟨hlen, hwidth, (e.withRow_rows hpacked place row hfree).1⟩
  refine ⟨_, ?_, hintact, hrew⟩
  rw [attachRow, editPage_intact h l.page _ p hp, (p.element_eq_ok l e).mpr hrec]
  have hq' : p.overwriteItem l.slot.toNat
      { e with rowSlots := e.rowSlots.setIfInBounds place row }.encode = .ok q := hq
  have hwelcome : ¬(place = 0 ∨ e.deleted = true) := by simp [hbehind, hlive]
  simp [bind, Except.bind, hfree, hwelcome, hq', pure, Except.pure]

theorem attachRow_refused (l : Location) (row : RowId) (e : Element)
    (he : s.record? l = some (.element e))
    (hrefused : ∀ place, e.firstFreeRow = some place → place = 0 ∨ e.deleted = true) :
    attachRow l row s = .ok false s := by
  obtain ⟨p, rs, -, hp, hrs, hslot⟩ := h.page_of_record l _ he
  rw [attachRow, editPage_intact h l.page _ p hp,
    (p.element_eq_ok l e).mpr (by rw [hrs.record?_eq, hslot])]
  cases hfree : e.firstFreeRow with
  | none => simp [bind, Except.bind, hfree, pure, Except.pure]
  | some place => simp [bind, Except.bind, hfree, hrefused place hfree, pure, Except.pure]

theorem attachRow_element (l : Location) (row : RowId) (e : Element)
    (he : s.record? l = some (.element e)) :
    attachRow l row s = .ok false s ∨
    ∃ place s', attachRow l row s = .ok true s' ∧ e.firstFreeRow = some place ∧ place ≠ 0 ∧
      e.deleted = false ∧ s'.Intact t ∧
      Store.Rewritten s s' l (.element (e.withRow place row)) := by
  cases hfree : e.firstFreeRow with
  | none => exact .inl (attachRow_refused h l row e he fun place hsome => by simp [hfree] at hsome)
  | some place =>
    by_cases hrefused : place = 0 ∨ e.deleted = true
    · refine .inl (attachRow_refused h l row e he fun k hsome => ?_)
      obtain rfl : place = k := Option.some.inj (hfree.symm.trans hsome)
      exact hrefused
    · have hbehind : place ≠ 0 := fun hz => hrefused (.inl hz)
      have hlive : e.deleted = false := by simpa using fun hd => hrefused (.inr hd)
      obtain ⟨s', hrun, hintact, hrew⟩ := attachRow_live h l row e he hfree hbehind hlive
      exact .inr ⟨place, s', hrun, rfl, hbehind, hlive, hintact, hrew⟩

theorem attachRow_no_element (l : Location) (row : RowId)
    (hl : ∀ e, s.record? l ≠ some (.element e)) : ∃ c, attachRow l row s = .error c s :=
  editPage_no_element h l _ hl

theorem markDeleted_eq (l : Location) (e : Element) (he : s.record? l = some (.element e))
    (hlive : e.deleted = false) {p q : Page} (hp : s.pages[l.page.toNat]? = some p)
    (hq : p.overwriteItem l.slot.toNat e.tombstone.encode = .ok q) :
    markDeleted l s = .ok true (s.withPage l.page q) := by
  rw [markDeleted, editPage_intact h l.page _ p hp,
    (p.element_eq_ok l e).mpr (by rw [← s.record?_of_page l p hp, he])]
  simp [bind, Except.bind, hlive, hq, pure, Except.pure]

theorem markDeleted_live (l : Location) (e : Element) (he : s.record? l = some (.element e))
    (hlive : e.deleted = false) : ∃ s', markDeleted l s = .ok true s' ∧ s'.Intact t ∧
      Store.Rewritten s s' l (.element e.tombstone) := by
  obtain ⟨hlen, hwidth, hpacked⟩ := h.fits_of_record l _ he
  obtain ⟨p, q, hp, -, hq, hintact, hrew⟩ := h.rewrite l (.element e) (.element e.tombstone) he
    ⟨rfl, rfl, rfl⟩ ⟨hlen, hwidth, e.packed_tombstone⟩
  exact ⟨_, markDeleted_eq h l e he hlive hp hq, hintact, hrew⟩

theorem markDeleted_dead (l : Location) (e : Element) (he : s.record? l = some (.element e))
    (hdead : e.deleted = true) : markDeleted l s = .ok false s := by
  obtain ⟨p, rs, -, hp, hrs, hslot⟩ := h.page_of_record l _ he
  rw [markDeleted, editPage_intact h l.page _ p hp,
    (p.element_eq_ok l e).mpr (by rw [hrs.record?_eq, hslot])]
  simp [bind, Except.bind, hdead, pure, Except.pure]

theorem markDeleted_no_element (l : Location) (hl : ∀ e, s.record? l ≠ some (.element e)) :
    ∃ c, markDeleted l s = .error c s :=
  editPage_no_element h l _ hl

theorem markDeleted_cases (l : Location) :
    (∃ c, markDeleted l s = .error c s) ∨ markDeleted l s = .ok false s ∨
    ∃ e s', s.record? l = some (.element e) ∧ e.deleted = false ∧ markDeleted l s = .ok true s' ∧
      s'.Intact t ∧ Store.Rewritten s s' l (.element e.tombstone) := by
  by_cases hl : ∃ e, s.record? l = some (.element e)
  · obtain ⟨e, he⟩ := hl
    cases hd : e.deleted with
    | true => exact .inr (.inl (markDeleted_dead h l e he hd))
    | false =>
      obtain ⟨s', hrun, hintact, hrew⟩ := markDeleted_live h l e he hd
      exact .inr (.inr ⟨e, s', he, hd, hrun, hintact, hrew⟩)
  · exact .inl (markDeleted_no_element h l fun e he => hl ⟨e, he⟩)

theorem markDeleted_after (l : Location) :
    (markDeleted l).after s = s ∨
    ∃ e, s.record? l = some (.element e) ∧ e.deleted = false ∧ ((markDeleted l).after s).Intact t ∧
      s.Rewritten ((markDeleted l).after s) l (.element e.tombstone) := by
  rw [Action.after]
  rcases markDeleted_cases h l with ⟨c, hc⟩ | hno | ⟨e, s', he, hlive, hrun, hintact, hrew⟩
  · rw [hc]
    exact .inl rfl
  · rw [hno]
    exact .inl rfl
  · rw [hrun]
    exact .inr ⟨e, he, hlive, hintact, hrew⟩

theorem writeLink_rewritten (p : Params) (target : Location) (c : Connection) (layer : Nat)
    (a : Adjacency) (ha : s.record? c.neighborsAt = some (.adjacency a)) :
    writeLink p target c layer s = .ok () s ∧
        (∀ i, c.slot? p.m layer a = some i → a.slots.length ≤ i) ∨
    ∃ i s', c.slot? p.m layer a = some i ∧ i < a.slots.length ∧
      writeLink p target c layer s = .ok () s' ∧ s'.Intact t ∧
      Store.Rewritten s s' c.neighborsAt (.adjacency ⟨a.slots.set i target⟩) := by
  obtain ⟨page, rs, -, hpage, hrs, hslot⟩ := h.page_of_record c.neighborsAt _ ha
  have hread : page.adjacency c.neighborsAt = .ok a :=
    (page.adjacency_eq_ok _ a).mpr (by rw [hrs.record?_eq, hslot])
  rw [writeLink, editPage_intact h _ _ page hpage, hread]
  cases hplace : c.slot? p.m layer a with
  | none =>
    exact .inl ⟨by simp [bind, Except.bind, hplace, pure, Except.pure], fun i hi => nomatch hi⟩
  | some i =>
    by_cases hi : i < a.slots.length
    · obtain ⟨page', q, hpage', -, hq, hintact, hrew⟩ := h.rewrite c.neighborsAt (.adjacency a)
        (.adjacency ⟨a.slots.set i target⟩) ha (List.length_set)
        (by
          have hfits : a.slots.length ≤ 65535 := h.fits_of_record _ _ ha
          show (a.slots.set i target).length ≤ 65535
          rwa [List.length_set])
      obtain rfl : page = page' := Option.some.inj (hpage.symm.trans hpage')
      have hq' : page.overwriteItem c.neighborsAt.slot.toNat
          (Adjacency.mk (a.slots.set i target)).encode = .ok q := hq
      exact .inr ⟨i, _, rfl, hi, by simp [bind, Except.bind, hplace, hi, hq', pure, Except.pure],
        hintact, hrew⟩
    · refine .inl ⟨by simp [bind, Except.bind, hplace, hi, pure, Except.pure], fun j hj => ?_⟩
      cases hj
      exact Nat.le_of_not_lt hi

theorem writeLink_adjacency (p : Params) (target : Location) (c : Connection) (layer : Nat)
    (a : Adjacency) (ha : s.record? c.neighborsAt = some (.adjacency a)) :
    ∃ s', writeLink p target c layer s = .ok () s' ∧ Store.Kept t s s' ∧ s.Linked s' target := by
  rcases writeLink_rewritten h p target c layer a ha with
    ⟨hrun, -⟩ | ⟨i, s', -, -, hrun, hintact, hrew⟩
  · exact ⟨s, hrun, .refl h, .of_record rfl _⟩
  · exact ⟨s', hrun, hrew.kept hintact ha, hrew.linked ha⟩

theorem writeLink_no_adjacency (p : Params) (target : Location) (c : Connection) (layer : Nat)
    (hl : ∀ a, s.record? c.neighborsAt ≠ some (.adjacency a)) :
    ∃ e, writeLink p target c layer s = .error e s :=
  editPage_no_adjacency h c.neighborsAt _ hl

omit h in
theorem length_setLayer (a : Adjacency) (level layer m : Nat) (neighbors : List Location) :
    (a.setLayer level layer m neighbors).slots.length = a.slots.length := by
  simp [Adjacency.setLayer]

omit h in
theorem length_mergeFrom {s : Store} {p : Params} {d : Draft} (fresh : List (List Candidate)) :
    ∀ (layer : Nat) (a : Adjacency) (lists : List (List Candidate))
      {merged : Adjacency × List (List Candidate)},
      mergeFrom s p d layer fresh a lists = .ok merged → merged.1.slots.length = a.slots.length := by
  induction fresh with
  | nil =>
    intro layer a lists merged hmerge
    rw [← Except.ok.inj hmerge]
  | cons found rest ih =>
    intro layer a lists merged hmerge
    rw [mergeFrom] at hmerge
    by_cases hlayer : d.level.toNat < layer
    · rw [if_pos hlayer] at hmerge
      rw [← Except.ok.inj hmerge]
    · rw [if_neg hlayer] at hmerge
      cases hkept : mergeLayer s p d layer a found with
      | error e =>
        rw [hkept] at hmerge
        cases hmerge
      | ok kept =>
        rw [hkept] at hmerge
        exact (ih _ _ _ hmerge).trans (length_setLayer _ _ _ _ _)

omit h in
theorem mergeFrom_locked (s : Store) (id : PageId) (p : Params) (d : Draft)
    (fresh : List (List Candidate)) :
    ∀ (layer : Nat) (a : Adjacency) (lists : List (List Candidate)),
      mergeFrom (s.locked id) p d layer fresh a lists = mergeFrom s p d layer fresh a lists := by
  have hlayer : ∀ layer a found,
      mergeLayer (s.locked id) p d layer a found = mergeLayer s p d layer a found :=
    fun _ _ _ => rfl
  induction fresh with
  | nil => exact fun _ _ _ => rfl
  | cons found rest ih =>
    intro layer a lists
    simp only [mergeFrom, hlayer, ih]

section
variable {p : Params} {d : Draft} {fresh : List (List Candidate)} {a : Adjacency}
  (ha : s.record? d.neighborsAt = some (.adjacency a))
include ha

theorem mergeNeighbors_eq {page : Page} (hpage : s.pages[d.neighborsAt.page.toNat]? = some page) :
    mergeNeighbors p d fresh s = match mergeFrom s p d 0 fresh a d.neighbors with
      | .error e => .error e s
      | .ok (b, lists) => match page.overwriteItem d.neighborsAt.slot.toNat b.encode with
        | .error e => .error e s
        | .ok q => .ok { d with neighbors := lists } (s.withPage d.neighborsAt.page q) := by
  rw [mergeNeighbors, editPage_intact h _ _ page hpage,
    (page.adjacency_eq_ok _ a).mpr (by rw [← s.record?_of_page _ page hpage, ha])]
  simp only [bind, Except.bind, mergeFrom_locked, pure, Except.pure]
  cases mergeFrom s p d 0 fresh a d.neighbors with
  | error e => rfl
  | ok merged =>
    simp only
    cases page.overwriteItem d.neighborsAt.slot.toNat merged.1.encode <;> rfl

theorem mergeNeighbors_error {e : Error}
    (hmerge : mergeFrom s p d 0 fresh a d.neighbors = .error e) :
    mergeNeighbors p d fresh s = .error e s := by
  obtain ⟨page, -, -, hpage, -⟩ := h.page_of_record _ _ ha
  rw [mergeNeighbors_eq h ha hpage, hmerge]

variable {merged : Adjacency × List (List Candidate)}
  (hmerge : mergeFrom s p d 0 fresh a d.neighbors = .ok merged)
include hmerge

theorem Record.fits_mergeFrom : (Record.adjacency merged.1).Fits t.dimensions.toNat := by
  have hfits : a.slots.length ≤ 65535 := h.fits_of_record _ _ ha
  show List.length _ ≤ 65535
  rwa [length_mergeFrom fresh 0 a d.neighbors hmerge]

theorem mergeNeighbors_rewritten :
    ∃ s', mergeNeighbors p d fresh s = .ok { d with neighbors := merged.2 } s' ∧ s'.Intact t ∧
      Store.Rewritten s s' d.neighborsAt (.adjacency merged.1) := by
  obtain ⟨page, q, hpage, -, hq, hintact, hrew⟩ := h.rewrite d.neighborsAt (.adjacency a)
    (.adjacency merged.1) ha (length_mergeFrom fresh 0 a d.neighbors hmerge)
    (Record.fits_mergeFrom h ha hmerge)
  have hq' : page.overwriteItem d.neighborsAt.slot.toNat merged.1.encode = .ok q := hq
  refine ⟨_, ?_, hintact, hrew⟩
  rw [mergeNeighbors_eq h ha hpage, hmerge]
  simp only [hq']

end

theorem mergeNeighbors_cases (p : Params) (d : Draft) (fresh : List (List Candidate)) :
    (∃ e, mergeNeighbors p d fresh s = .error e s) ∨
    ∃ a merged s', s.record? d.neighborsAt = some (.adjacency a) ∧
      mergeFrom s p d 0 fresh a d.neighbors = .ok merged ∧
      mergeNeighbors p d fresh s = .ok { d with neighbors := merged.2 } s' ∧ s'.Intact t ∧
      Store.Rewritten s s' d.neighborsAt (.adjacency merged.1) := by
  by_cases hl : ∃ a, s.record? d.neighborsAt = some (.adjacency a)
  · obtain ⟨a, ha⟩ := hl
    cases hmerge : mergeFrom s p d 0 fresh a d.neighbors with
    | error e => exact .inl ⟨e, mergeNeighbors_error h ha hmerge⟩
    | ok merged =>
      obtain ⟨s', hrun, hintact, hrew⟩ := mergeNeighbors_rewritten h ha hmerge
      exact .inr ⟨a, merged, s', ha, hmerge, hrun, hintact, hrew⟩
  · exact .inl (editPage_no_adjacency h d.neighborsAt _ fun a ha => hl ⟨a, ha⟩)

theorem editHeader_intact (f : Header → Header) (hfile : t.SameFile (f s.header))
    (hpos : 0 < (f s.header).insertPage.toNat)
    (hlt : (f s.header).insertPage.toNat < s.pages.size) :
    editHeader f s = .ok () (s.withHeader (f s.header)) ∧
      (s.withHeader (f s.header)).Intact t ∧
      (s.withHeader (f s.header)).record? = s.record? := by
  refine ⟨?_, h.withHeader _ hfile hpos hlt⟩
  rw [editHeader, editPage_intact h metaPage _ s.headerPage s.getElem?_zero]
  have himage : (f (Header.onPage s.headerPage)).writeTo s.headerPage =
      Store.metaImage (f s.header) := by
    rw [h.headerPage_eq, Store.writeTo_metaImage, Store.onPage_metaImage]
  simp only [himage]
  rfl

theorem moveCursor_kept (id : PageId) (hpos : 0 < id.toNat) (hlt : id.toNat < s.pages.size) :
    ∃ s', moveCursor id s = .ok () s' ∧ Store.Kept t s s' ∧ s'.record? = s.record? ∧
      s'.cursor = id := by
  have hfile : t.SameFile { s.header with insertPage := id } := by
    have := h.sameFile
    rw [Header.SameFile] at this ⊢
    rw [this]
  have hentry : ∀ g : Header, Store.entryOf { g with insertPage := id } = Store.entryOf g :=
    fun _ => rfl
  obtain ⟨hrun, hintact, hrecord⟩ :=
    editHeader_intact h (fun g => { g with insertPage := id }) hfile hpos hlt
  refine ⟨_, hrun, ⟨hintact, fun l e => by rw [hrecord], ?_, s.size_withHeader _⟩, hrecord, ?_⟩
  · rw [Store.entry, Store.entry, Store.header_withHeader]
    exact hentry s.header
  · rw [Store.cursor, Store.header_withHeader]

omit h in
theorem entryOf_withEntry (g : Header) (e : EntryPoint) (he : e.location.page ≠ noPage) :
    Store.entryOf (g.withEntry e) = some e := by
  rw [Store.entryOf, if_pos]
  · rfl
  · exact bne_iff_ne.mpr he

end

theorem promote_run {t : Header} {s : Store} (h : s.Intact t) (candidate : EntryPoint)
    (prior : Option EntryPoint) :
    promote candidate prior s = .ok .installed (s.withHeader (s.header.withEntry candidate)) ∧
        (∀ current, s.entry = some current → prior ≠ none ∧ current.level < candidate.level) ∨
    ∃ current, s.entry = some current ∧
      (promote candidate prior s = .ok .superseded s ∧ prior ≠ none ∧
          candidate.level ≤ current.level ∨
        promote candidate prior s = .ok (.raced current) s ∧ prior = none) := by
  have himage : (s.header.withEntry candidate).writeTo s.headerPage =
      Store.metaImage (s.header.withEntry candidate) := by
    rw [h.headerPage_eq, Store.writeTo_metaImage]
  have hheader : Header.onPage s.headerPage = s.header := rfl
  have hentry : Store.entryOf s.header = s.entry := rfl
  rw [promote, editPage_intact h metaPage _ s.headerPage s.getElem?_zero]
  simp only [hheader, hentry, himage]
  cases hcurrent : s.entry with
  | none =>
    refine .inl ⟨?_, fun current hsome => nomatch hsome⟩
    cases prior with
    | none => rfl
    | some e => rfl
  | some current =>
    cases prior with
    | none => exact .inr ⟨current, rfl, .inr ⟨rfl, rfl⟩⟩
    | some e =>
      by_cases hlevel : candidate.level ≤ current.level
      · exact .inr ⟨current, rfl, .inl ⟨by simp [hlevel], Option.some_ne_none e, hlevel⟩⟩
      · refine .inl ⟨?_, fun c hc => ?_⟩
        · simp only [if_neg hlevel]
          rfl
        · obtain rfl : current = c := Option.some.inj hc
          exact ⟨Option.some_ne_none e, UInt8.not_le.mp hlevel⟩

theorem promote_cursor {t : Header} {s s' : Store} (h : s.Intact t) {candidate : EntryPoint}
    {prior : Option EntryPoint} {a : Promotion} (hrun : promote candidate prior s = .ok a s') :
    s'.cursor = s.cursor := by
  rcases promote_run h candidate prior with
    ⟨hinstalled, -⟩ | ⟨current, -, ⟨hsame, -⟩ | ⟨hsame, -⟩⟩
  · rw [← (EStateM.Result.ok.inj (hinstalled.symm.trans hrun)).2, Store.cursor,
      Store.header_withHeader]
    rfl
  · rw [← (EStateM.Result.ok.inj (hsame.symm.trans hrun)).2]
  · rw [← (EStateM.Result.ok.inj (hsame.symm.trans hrun)).2]

inductive Promoted (t : Header) (s : Store) (candidate : EntryPoint) (prior : Option EntryPoint) :
    Promotion → Store → Prop where
  | installed (s' : Store) (intact : s'.Intact t) (record : s'.record? = s.record?)
      (size : s'.pages.size = s.pages.size) (entry : s'.entry = some candidate)
      (above : ∀ current, s.entry = some current →
        prior ≠ none ∧ current.level < candidate.level) :
      Promoted t s candidate prior .installed s'
  | superseded (current : EntryPoint) (found : s.entry = some current)
      (high : candidate.level ≤ current.level) : Promoted t s candidate prior .superseded s
  | raced (current : EntryPoint) (found : s.entry = some current) (first : prior = none) :
      Promoted t s candidate prior (.raced current) s

theorem promote_cases {t : Header} {s : Store} (h : s.Intact t) (candidate : EntryPoint)
    (prior : Option EntryPoint) (hpage : candidate.location.page ≠ noPage) :
    ∃ a s', promote candidate prior s = .ok a s' ∧ Promoted t s candidate prior a s' := by
  have hfile : t.SameFile (s.header.withEntry candidate) := by
    have := h.sameFile
    rw [Header.SameFile] at this ⊢
    rw [this]
    rfl
  obtain ⟨hintact, hrecord⟩ :=
    h.withHeader (s.header.withEntry candidate) hfile h.cursor_pos h.cursor_lt
  have hnow : (s.withHeader (s.header.withEntry candidate)).entry = some candidate := by
    rw [Store.entry, Store.header_withHeader, entryOf_withEntry _ _ hpage]
  rcases promote_run h candidate prior with
    ⟨hrun, habove⟩ | ⟨current, hcurrent, ⟨hrun, -, hlevel⟩ | ⟨hrun, hprior⟩⟩
  · exact ⟨_, _, hrun, .installed _ hintact hrecord (s.size_withHeader _) hnow habove⟩
  · exact ⟨_, s, hrun, .superseded current hcurrent hlevel⟩
  · exact ⟨_, s, hrun, .raced current hcurrent hprior⟩

end PagedGraph
