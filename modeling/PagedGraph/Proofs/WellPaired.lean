import PagedGraph.Proofs.Unbroken

/-!
# Elements and neighbor records in pairs

Every store that a crowd reaches is intact, so each element has a neighbor record of its own, of the
size that its level asks for, and no neighbor record is left without an element
(`wellPaired_of_reaches`).
-/

set_option autoImplicit false

namespace PagedGraph

namespace Store

/-- Elements and neighbor records belong together one to one, as the readers see them. -/
structure WellPaired (m : Nat) (s : Store) : Prop where
  readable : ∀ l bs, l.page ≠ metaPage →
    (s.readPage l.page).bind (fun p => p.item l.slot.toNat) = .ok bs →
    (∃ e, s.element l = .ok e) ∨ ∃ a, s.adjacency l = .ok a
  resolves : ∀ l e, s.element l = .ok e → ∃ a, s.adjacency e.neighborsAt = .ok a ∧
    a.slots.length = (e.level.toNat + 2) * m
  apart : ∀ k l e f, s.element k = .ok e → s.element l = .ok f →
    e.neighborsAt = f.neighborsAt → k = l
  owned : ∀ k a, s.adjacency k = .ok a → ∃ l e, s.element l = .ok e ∧ e.neighborsAt = k

theorem Intact.readable {t : Header} {s : Store} (h : s.Intact t) (l : Location) (bs : Bytes)
    (hl : l.page ≠ metaPage)
    (hbs : (s.readPage l.page).bind (fun p => p.item l.slot.toNat) = .ok bs) :
    ∃ r, s.record? l = some r := by
  rw [readPage] at hbs
  cases hp : s.pages[l.page.toNat]? with
  | none =>
    rw [hp] at hbs
    cases hbs
  | some p =>
    rw [hp] at hbs
    have hpos : 0 < l.page.toNat := Nat.pos_of_ne_zero fun hz => hl (UInt32.toNat_inj.mp hz)
    obtain ⟨rs, hrs⟩ := h.filled _ p hpos hp
    rw [s.record?_of_page l p hp, hrs.record?_eq]
    cases hr : rs[l.slot.toNat]? with
    | some r => exact ⟨r, rfl⟩
    | none =>
      have herror := hrs.holds.item_error l.slot.toNat (by rw [List.getElem?_map, hr]; rfl)
      have hitem : p.item l.slot.toNat = .ok bs := hbs
      rw [herror] at hitem
      cases hitem

theorem Intact.wellPaired {t : Header} {s : Store} (h : s.Intact t) :
    s.WellPaired t.m.toNat where
  readable := by
    intro l bs hl hbs
    obtain ⟨r, hr⟩ := h.readable l bs hl hbs
    cases r with
    | element e => exact .inl ⟨e, (s.element_eq_ok l e).mpr hr⟩
    | adjacency a => exact .inr ⟨a, (s.adjacency_eq_ok l a).mpr hr⟩
  resolves := by
    intro l e he
    obtain ⟨a, ha, hlen⟩ := h.paired.resolves l e ((s.element_eq_ok l e).mp he)
    exact ⟨a, (s.adjacency_eq_ok _ a).mpr ha, hlen⟩
  apart := by
    intro k l e f he hf
    exact h.paired.apart k l e f ((s.element_eq_ok k e).mp he) ((s.element_eq_ok l f).mp hf)
  owned := by
    intro k a ha
    obtain ⟨l, e, he, hat⟩ := h.paired.owned k a ((s.adjacency_eq_ok k a).mp ha)
    exact ⟨l, e, (s.element_eq_ok l e).mpr he, hat⟩

end Store

/-- Whatever writers do with an index that was opened empty, and however they take turns, elements
and neighbor records stay in pairs: an element of level `l` points to a record of `(l + 2) * m`
slots that no other element points to, and no neighbor record is without an element. -/
theorem wellPaired_of_reaches {path : String} {dimensions : UInt32} {o : Options}
    {file file' : FileState} {ix : Index} {s : Store} (hblank : file.isBlank = true)
    (hopen : Index.openFile path dimensions o file = (.ok (ix, s), file')) {c : Crowd}
    (h : Reaches ix.params ix.dimensions s c) : c.store.WellPaired ix.params.m := by
  obtain ⟨hopened, -⟩ := Index.opened_of_blank hblank hopen
  rw [hopened.width] at h
  rw [hopened.m_eq]
  exact (h.sound hopened.m_eq hopened.intact).intact.wellPaired

section
open Index

/-- An element lies where another one was, beside an element that points there. -/
theorem wellPaired_reused : ∃ s,
    Reaches wide.params wide.dimensions (Store.fresh (template 900 Options.standard)) ⟨s, []⟩ ∧
    s.element ⟨1, 0⟩ = .ok third ∧ s.element ⟨1, 2⟩ = .ok second ∧ s.WellPaired 16 := by
  obtain ⟨s, s', -, hreused, -, hreach, hlater⟩ := reused_wide
  have hblank : FileState.absent.isBlank = true := rfl
  have hopen := openFile_blank checkOptions_wide "index" .absent hblank
  have hboth := hreach.beside hlater
  exact ⟨s', hboth, (s'.element_eq_ok _ _).mpr hreused.atFirst,
    (s'.element_eq_ok _ _).mpr hreused.atSecond, wellPaired_of_reaches hblank hopen hboth⟩

end

end PagedGraph
