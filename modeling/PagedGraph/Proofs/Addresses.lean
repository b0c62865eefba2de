import PagedGraph.Proofs.Fitting

/-!
# Locations of all kinds

A location may name any page and any slot, the header page among them. Reading a record or deleting
an element succeeds exactly where a slot of a data page holds a record of the wanted kind, and
fails everywhere else without a change of the store.

On the header page the magic bytes stand where other pages count their slots, so they promise more
item ids than a page has room for. Slots beyond that room are the only locations at which a reader
would leave the page (`Location.Beyond`).
-/

set_option autoImplicit false

namespace PagedGraph

/-- A slot of the header page that the magic bytes promise and whose item id lies outside. -/
def Location.Beyond (l : Location) : Prop :=
  l.page = metaPage ∧ 2044 ≤ l.slot.toNat ∧ l.slot.toNat < 17225

def Record.kind : Record → RecordKind
  | .element _ => .element
  | .adjacency _ => .adjacency

theorem Record.kind_encode (r : Record) : RecordKind.of? r.encode = some r.kind := by
  cases r with
  | element e => exact e.kind_encode
  | adjacency a => exact a.kind_encode

namespace Page

theorem item_outside (p : Page) (slot : Nat) : p.item slot = .error .outsidePage ↔
    slot < p.slotCount ∧ pageSize < itemIdAt slot + itemIdSize := by
  have hitem : p.item slot = .error .outsidePage ↔ p.itemId slot = .error .outsidePage := by
    rw [item]
    cases p.itemId slot <;> simp [Except.map]
  rw [hitem, itemId]
  by_cases hslot : p.slotCount ≤ slot
  · simp [hslot, Nat.not_lt.mpr hslot]
  · by_cases hplace : pageSize < itemIdAt slot + itemIdSize
    · simp [hslot, hplace, Nat.not_le.mp hslot]
    · rw [if_neg hslot, if_neg hplace]
      dsimp only
      split <;> simp [hplace]

theorem mapError_ne {ε α : Type} {f : ε → Error} {c : Error} (hf : ∀ e, f e ≠ c)
    (x : Except ε α) : x.mapError f ≠ .error c := by
  intro hx
  cases x with
  | ok a => cases hx
  | error e => exact hf e (Except.error.inj hx)

/-- A reader leaves the page only for an item id; whatever is wrong with a record is reported as
such. -/
theorem element_outside (p : Page) (l : Location) :
    p.element l = .error .outsidePage ↔ p.item l.slot.toNat = .error .outsidePage := by
  rw [element]
  cases p.item l.slot.toNat with
  | error e => simp [Except.bind]
  | ok bs =>
    refine ⟨fun hread => absurd hread (mapError_ne (fun _ hc => ?_) _), fun hno => ?_⟩
    · cases hc
    · cases hno

theorem adjacency_outside (p : Page) (l : Location) :
    p.adjacency l = .error .outsidePage ↔ p.item l.slot.toNat = .error .outsidePage := by
  rw [adjacency]
  cases p.item l.slot.toNat with
  | error e => simp [Except.bind]
  | ok bs =>
    refine ⟨fun hread => absurd hread (mapError_ne (fun _ hc => ?_) _), fun hno => ?_⟩
    · cases hc
    · cases hno

theorem Carries.item_inside {width : Nat} {p : Page} {rs : List Record} (h : p.Carries width rs)
    (slot : Nat) : p.item slot ≠ .error .outsidePage := by
  cases hr : (rs.map Record.encode)[slot]? with
  | none =>
    rw [h.holds.item_error slot hr]
    intro hno
    cases hno
  | some bs =>
    rw [h.holds.item_eq slot bs hr]
    intro hno
    cases hno

end Page

namespace Store

theorem slotCount_metaImage {h : Header} (hm : h.magic = Header.indexMagic) :
    (metaImage h).slotCount = 17225 := by
  rw [Page.slotCount, Page.word_two, metaImage, Header.byte_writeTo, Header.byte_writeTo,
    if_pos (by decide), if_pos (by decide), h.getD_encode 4 (by decide),
    h.getD_encode 5 (by decide), hm]
  rfl

def Names (s : Store) (l : Location) (kind : RecordKind) : Prop :=
  0 < l.page.toNat ∧ l.page.toNat < s.pageCount ∧ ∃ p bs, s.readPage l.page = .ok p ∧
    l.slot.toNat < p.slotCount ∧ p.item l.slot.toNat = .ok bs ∧ RecordKind.of? bs = some kind

section
variable {t : Header} {s : Store}

theorem readPage_eq (l : Location) (p : Page) :
    s.readPage l.page = .ok p ↔ s.pages[l.page.toNat]? = some p := by
  rw [readPage]
  cases s.pages[l.page.toNat]? <;> simp

theorem Formed.item_outside (h : s.Formed t) (l : Location) (p : Page)
    (hp : s.pages[l.page.toNat]? = some p) :
    p.item l.slot.toNat = .error .outsidePage ↔ l.Beyond := by
  by_cases hpage : l.page = metaPage
  · have hmeta : p = metaImage s.header := by
      rw [hpage] at hp
      rw [← h.headerPage_eq]
      exact Option.some.inj (hp.symm.trans s.getElem?_zero)
    rw [hmeta, Page.item_outside, slotCount_metaImage (h.sameFile.magic.trans h.magic)]
    simp only [Location.Beyond, hpage, Page.itemIdAt, Page.headerSize, Page.itemIdSize, pageSize,
      true_and]
    omega
  · have hpos : 0 < l.page.toNat := Nat.pos_of_ne_zero fun hz => hpage (UInt32.toNat_inj.mp hz)
    obtain ⟨rs, hrs⟩ := h.filled _ p hpos hp
    exact ⟨fun hout => absurd hout (hrs.item_inside _), fun hbeyond => absurd hbeyond.1 hpage⟩

theorem Formed.element_outside (h : s.Formed t) (l : Location) :
    s.element l = .error .outsidePage ↔ l.Beyond := by
  rw [element, readPage]
  cases hp : s.pages[l.page.toNat]? with
  | some p => exact (p.element_outside l).trans (h.item_outside l p hp)
  | none =>
    constructor
    · intro hno
      cases hno
    · intro hbeyond
      rw [hbeyond.1] at hp
      cases hp.symm.trans s.getElem?_zero

theorem Formed.adjacency_outside (h : s.Formed t) (l : Location) :
    s.adjacency l = .error .outsidePage ↔ l.Beyond := by
  rw [adjacency, readPage]
  cases hp : s.pages[l.page.toNat]? with
  | some p => exact (p.adjacency_outside l).trans (h.item_outside l p hp)
  | none =>
    constructor
    · intro hno
      cases hno
    · intro hbeyond
      rw [hbeyond.1] at hp
      cases hp.symm.trans s.getElem?_zero

theorem Formed.names_iff (h : s.Formed t) (l : Location) (kind : RecordKind) :
    s.Names l kind ↔ ∃ r, s.record? l = some r ∧ r.kind = kind := by
  constructor
  · rintro ⟨hpos, -, p, bs, hread, -, hitem, hkind⟩
    have hp := (readPage_eq l p).mp hread
    obtain ⟨rs, hrs⟩ := h.filled _ p hpos hp
    rw [s.record?_of_page l p hp, hrs.record?_eq]
    cases hr : rs[l.slot.toNat]? with
    | none =>
      rw [hrs.holds.item_error _ (by rw [List.getElem?_map, hr]; rfl)] at hitem
      cases hitem
    | some r =>
      rw [hrs.holds.item_eq _ r.encode (by rw [List.getElem?_map, hr]; rfl)] at hitem
      obtain rfl := Except.ok.inj hitem
      rw [r.kind_encode] at hkind
      exact ⟨r, rfl, Option.some.inj hkind⟩
  · rintro ⟨r, hr, rfl⟩
    obtain ⟨p, rs, hpos, hp, hrs, hslot⟩ := h.page_of_record l r hr
    refine ⟨hpos, h.lt_pageCount _ p hp, p, r.encode, (readPage_eq l p).mpr hp, ?_,
      hrs.holds.item_eq _ _ (by rw [List.getElem?_map, hslot]; rfl), r.kind_encode⟩
    rw [hrs.slotCount_eq]
    exact (List.getElem?_eq_some_iff.mp hslot).1

theorem Formed.element_iff (h : s.Formed t) (l : Location) :
    (∃ e, s.element l = .ok e) ↔ s.Names l .element := by
  rw [h.names_iff]
  constructor
  · rintro ⟨e, he⟩
    exact ⟨.element e, (s.element_eq_ok l e).mp he, rfl⟩
  · rintro ⟨r, hr, hkind⟩
    cases r with
    | element e => exact ⟨e, (s.element_eq_ok l e).mpr hr⟩
    | adjacency a => cases hkind

theorem Formed.adjacency_iff (h : s.Formed t) (l : Location) :
    (∃ a, s.adjacency l = .ok a) ↔ s.Names l .adjacency := by
  rw [h.names_iff]
  constructor
  · rintro ⟨a, ha⟩
    exact ⟨.adjacency a, (s.adjacency_eq_ok l a).mp ha, rfl⟩
  · rintro ⟨r, hr, hkind⟩
    cases r with
    | element e => cases hkind
    | adjacency a => exact ⟨a, (s.adjacency_eq_ok l a).mpr hr⟩

end

end Store

theorem editPage_missing {α : Type} (id : PageId)
    (decision : Store → Page → Except Error (Edit α)) (s : Store) (hid : s.pageCount ≤ id.toNat) :
    editPage id decision s = .error (.cannotLock id s.pageCount) s := by
  have hlock : s.lock id = .error (.cannotLock id s.pageCount) := by
    simp only [Store.lock, Store.tryLock, if_pos hid]
  simp [editPage, transaction, bind, EStateM.bind, Transaction.register, hlock, Group.release,
    Group.locks, Group.empty]

section
variable {t : Header} {s : Store} (h : s.Intact t)
include h

theorem markDeleted_iff (l : Location) :
    (∃ answer s', markDeleted l s = .ok answer s') ↔ ∃ e, s.element l = .ok e := by
  constructor
  · rintro ⟨answer, s', hrun⟩
    by_cases hl : ∃ e, s.element l = .ok e
    · exact hl
    · obtain ⟨c, hc⟩ := markDeleted_no_element h l fun e he =>
        hl ⟨e, (s.element_eq_ok l e).mpr he⟩
      rw [hc] at hrun
      cases hrun
  · rintro ⟨e, he⟩
    have hrec := (s.element_eq_ok l e).mp he
    cases hd : e.deleted with
    | true => exact ⟨false, s, markDeleted_dead h l e hrec hd⟩
    | false =>
      obtain ⟨s', hrun, -, -⟩ := markDeleted_live h l e hrec hd
      exact ⟨true, s', hrun⟩

theorem markDeleted_error (l : Location) {e : Error} {s' : Store}
    (hrun : markDeleted l s = .error e s') : s' = s := by
  rcases markDeleted_cases h l with ⟨c, hc⟩ | hno | ⟨f, s₁, -, -, hok, -⟩
  · rw [hc] at hrun
    cases hrun
    rfl
  · rw [hno] at hrun
    cases hrun
  · rw [hok] at hrun
    cases hrun

theorem markDeleted_unread (l : Location) (p : Page) (hp : s.pages[l.page.toNat]? = some p)
    {e : Error} (he : s.element l = .error e) : markDeleted l s = .error e s := by
  have hpage : p.element l = .error e := by
    rwa [Store.element, (Store.readPage_eq l p).mpr hp] at he
  rw [markDeleted, editPage_intact h l.page _ p hp, hpage]
  rfl

theorem markDeleted_outside (l : Location) (s' : Store) :
    markDeleted l s = .error .outsidePage s' ↔ s' = s ∧ l.Beyond := by
  constructor
  · intro hrun
    refine ⟨markDeleted_error h l hrun, ?_⟩
    by_cases hpage : s.pageCount ≤ l.page.toNat
    · rw [markDeleted, editPage_missing _ _ _ hpage] at hrun
      cases hrun
    · obtain ⟨p, hp⟩ := s.getElem?_of_lt_pageCount _ (Nat.not_le.mp hpage)
      rw [← h.element_outside]
      cases he : s.element l with
      | ok e =>
        obtain ⟨answer, s₁, hok⟩ := (markDeleted_iff h l).mpr ⟨e, he⟩
        rw [hok] at hrun
        cases hrun
      | error c =>
        rw [markDeleted_unread h l p hp he] at hrun
        cases hrun
        rfl
  · rintro ⟨rfl, hbeyond⟩
    have hp : s'.pages[l.page.toNat]? = some s'.headerPage := by
      rw [hbeyond.1]
      exact s'.getElem?_zero
    exact markDeleted_unread h l _ hp ((h.element_outside l).mpr hbeyond)

end

/-- What a store makes of a location. -/
structure Decided (s : Store) (l : Location) : Prop where
  /-- An element is read exactly where a slot of a data page holds one. -/
  element : (∃ e, s.element l = .ok e) ↔ s.Names l .element
  /-- So is a neighbor record. -/
  adjacency : (∃ a, s.adjacency l = .ok a) ↔ s.Names l .adjacency
  /-- A deletion is answered exactly where there is an element. -/
  deletion : (∃ answer s', markDeleted l s = .ok answer s') ↔ s.Names l .element
  /-- Elsewhere it fails and changes nothing. -/
  unchanged : ∀ e s', markDeleted l s = .error e s' → s' = s
  /-- Nobody leaves the page on whose bytes he decides, -/
  inside : ¬l.Beyond → s.element l ≠ .error .outsidePage ∧ s.adjacency l ≠ .error .outsidePage ∧
    ∀ s', markDeleted l s ≠ .error .outsidePage s'
  /-- but for some slots of the header page, where all three do. -/
  beyond : l.Beyond → s.element l = .error .outsidePage ∧ s.adjacency l = .error .outsidePage ∧
    markDeleted l s = .error .outsidePage s

/-- Whatever writers have done with an index that was opened empty, every location is decided. -/
theorem decided_of_reaches {path : String} {dimensions : UInt32} {o : Options}
    {file file' : FileState} {ix : Index} {s : Store} (hblank : file.isBlank = true)
    (hopen : Index.openFile path dimensions o file = (.ok (ix, s), file')) {c : Crowd}
    (hc : Reaches ix.params ix.dimensions s c) (l : Location) : Decided c.store l := by
  obtain ⟨hopened, -⟩ := Index.opened_of_blank hblank hopen
  rw [hopened.width] at hc
  have h := (hc.sound hopened.m_eq hopened.intact).intact
  constructor
  · exact h.element_iff l
  · exact h.adjacency_iff l
  · rw [markDeleted_iff h, h.element_iff]
  · exact fun e s' hrun => markDeleted_error h l hrun
  · intro hin
    exact ⟨fun he => hin ((h.element_outside l).mp he), fun ha => hin ((h.adjacency_outside l).mp ha),
      fun s' hrun => hin ((markDeleted_outside h l s').mp hrun).2⟩
  · intro hbeyond
    exact ⟨(h.element_outside l).mpr hbeyond, (h.adjacency_outside l).mpr hbeyond,
      (markDeleted_outside h l c.store).mpr ⟨rfl, hbeyond⟩⟩

theorem decided_header_slot : ∃ s e, Store.element s ⟨1, 0⟩ = .ok e ∧ s.Names ⟨1, 0⟩ .element ∧
    s.element ⟨0, 5000⟩ = .error .outsidePage ∧ ¬s.Names ⟨0, 5000⟩ .element := by
  have hblank : FileState.absent.isBlank = true := rfl
  have hopen := Index.openFile_blank Index.checkOptions_new_file "index" .absent hblank
  obtain ⟨s, k, hrun, -, hputs, -⟩ := inserted_new_file (layerSearch Unit Params.standard) ()
    (show (1 : UInt8).toNat ≤ 1 by decide)
  have hreach : Reaches Params.standard 2 (Store.fresh (Index.template 2 Options.standard))
      ⟨s, []⟩ := .inserted (.start _) rfl hrun
  have hfirst := decided_of_reaches hblank hopen hreach ⟨1, 0⟩
  have hslot := decided_of_reaches hblank hopen hreach ⟨0, 5000⟩
  have hread := (s.element_eq_ok ⟨1, 0⟩ _).mpr ((hputs ⟨1, 0⟩ _).mpr (by rw [if_pos rfl]))
  have hout := (hslot.beyond ⟨rfl, by decide, by decide⟩).1
  refine ⟨s, _, hread, hfirst.element.mp ⟨_, hread⟩, hout, fun hnames => ?_⟩
  obtain ⟨e, he⟩ := hslot.element.mpr hnames
  rw [hout] at he
  cases he

end PagedGraph
