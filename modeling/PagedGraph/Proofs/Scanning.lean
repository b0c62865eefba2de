import PagedGraph.Proofs.Intact

/-!
# The scan of an intact store

The chain of an intact store runs through all data pages in the order of their numbers, so a scan
goes through, and it meets every element exactly once (`scan_eq`).
-/

set_option autoImplicit false

namespace PagedGraph

namespace Store

def idsFrom (i n : Nat) : List PageId := (List.range' i n).map UInt32.ofNat

def pick (id : PageId) (p : Page) (slot : Nat) : Option (Location × Element) :=
  match p.record? slot with
  | some (.element e) => some (⟨id, UInt16.ofNat slot⟩, e)
  | _ => none

def elementsOn (s : Store) (id : PageId) : List (Location × Element) :=
  match s.pages[id.toNat]? with
  | some p => (List.range' 0 p.slotCount).filterMap (pick id p)
  | none => []

section
variable {t : Header} {s : Store} (h : s.Formed t)
include h

theorem toNat_page {i : Nat} (hi : i < s.pages.size) : (UInt32.ofNat i).toNat = i := by
  have hbound := h.bounded
  rw [UInt32.toNat_ofNat']
  omega

theorem page_ne_noPage {i : Nat} (hi : i < s.pages.size) : UInt32.ofNat i ≠ noPage := by
  intro heq
  have hid := toNat_page h hi
  have hbound := h.bounded
  have hno : noPage.toNat = 4294967295 := by decide
  rw [heq, hno] at hid
  omega

/-- One step of the walk. The pages already passed have smaller numbers. -/
theorem chainFrom_step {i steps : Nat} {passed : List PageId} (hi : 0 < i)
    (hlt : i < s.pages.size) (hpassed : ∀ id ∈ passed, id.toNat < i) :
    s.chainFrom (steps + 1) (UInt32.ofNat i) passed =
      s.chainFrom steps (s.successor i) (UInt32.ofNat i :: passed) := by
  have hid := toNat_page h hlt
  have hpage := Array.getElem?_eq_getElem hlt
  have hfresh : ¬passed.contains (UInt32.ofNat i) = true := by
    rw [List.contains_iff_mem]
    intro hmem
    have := hpassed _ hmem
    omega
  rw [chainFrom, if_neg (page_ne_noPage h hlt), if_neg hfresh, readPage, hid, hpage]
  simp only [h.linked i _ hi hpage]

theorem chainFrom_eq (n : Nat) :
    ∀ (i steps : Nat) (passed : List PageId), 0 < i → i + (n + 1) = s.pages.size → n < steps →
      (∀ id ∈ passed, id.toNat < i) →
      s.chainFrom steps (UInt32.ofNat i) passed = .ok (passed.reverse ++ idsFrom i (n + 1)) := by
  induction n with
  | zero =>
    intro i steps passed hi hsize hsteps hpassed
    obtain ⟨k, rfl⟩ : ∃ k, steps = k + 1 := ⟨steps - 1, by omega⟩
    rw [chainFrom_step h hi (by omega) hpassed, successor, if_neg (by omega), chainFrom,
      if_pos rfl, List.reverse_cons]
    rfl
  | succ n ih =>
    intro i steps passed hi hsize hsteps hpassed
    obtain ⟨k, rfl⟩ : ∃ k, steps = k + 1 := ⟨steps - 1, by omega⟩
    rw [chainFrom_step h hi (by omega) hpassed, successor, if_pos (by omega),
      ih (i + 1) k _ (by omega) (by omega) (by omega)]
    · rw [List.reverse_cons, List.append_assoc]
      rfl
    · intro id hmem
      rcases List.mem_cons.mp hmem with rfl | hmem
      · rw [toNat_page h (by omega)]
        omega
      · have := hpassed id hmem
        omega

theorem chain_eq : s.chain = .ok (idsFrom 1 (s.pages.size - 1)) := by
  have htwo := s.two_le_size
  obtain ⟨n, hn⟩ : ∃ n, s.pages.size = n + 2 := ⟨s.pages.size - 2, by omega⟩
  have hone : firstDataPage = UInt32.ofNat 1 := rfl
  rw [chain, hone, chainFrom_eq h n 1 s.pages.size [] Nat.one_pos (by omega) (by omega)
    (by intro id hid; cases hid), hn]
  rfl

end

theorem elementsFrom_eq {width : Nat} (id : PageId) {p : Page} {rs : List Record}
    (hrs : p.Carries width rs) (count : Nat) :
    ∀ slot, slot + count ≤ rs.length →
      elementsFrom id p count slot = .ok ((List.range' slot count).filterMap (pick id p)) := by
  induction count with
  | zero =>
    intro slot _
    rfl
  | succ count ih =>
    intro slot hslot
    have hr : rs[slot]? = some rs[slot] := List.getElem?_eq_getElem (by omega)
    have hitem := hrs.holds.item_eq slot rs[slot].encode (by rw [List.getElem?_map, hr]; rfl)
    have hdecode := rs[slot].decode?_encode (hrs.fits _ (List.getElem_mem _))
    have hpick : p.record? slot = some rs[slot] := by rw [hrs.record?_eq, hr]
    rw [elementsFrom, hitem, List.range'_succ, List.filterMap_cons, pick, hpick]
    cases hrec : rs[slot] with
    | element e =>
      rw [hrec] at hdecode
      have he := (Record.decode?_element _ _).mp hdecode
      have hkind := Record.kind_of_element _ e he
      simp only [bind, Except.bind, hkind, he, if_true, Except.map, ih (slot + 1) (by omega)]
      rfl
    | adjacency a =>
      rw [hrec] at hdecode
      have ha := (Record.decode?_adjacency _ _).mp hdecode
      have hkind := Record.kind_of_adjacency _ a ha
      have hne : ¬(some RecordKind.adjacency = some RecordKind.element) := by decide
      simp only [bind, Except.bind, hkind, if_neg hne, ih (slot + 1) (by omega)]
      rfl

theorem mapM_ok {α β : Type} (f : α → Except Error β) (g : α → β) (xs : List α)
    (h : ∀ x ∈ xs, f x = .ok (g x)) : xs.mapM f = .ok (xs.map g) := by
  induction xs with
  | nil => rfl
  | cons x xs ih =>
    rw [List.mapM_cons, h x List.mem_cons_self, ih fun y hy => h y (List.mem_cons_of_mem _ hy)]
    rfl

section
variable {t : Header} {s : Store} (h : s.Formed t)
include h

theorem mem_idsFrom {id : PageId} :
    id ∈ idsFrom 1 (s.pages.size - 1) ↔ 0 < id.toNat ∧ id.toNat < s.pages.size := by
  have htwo := s.two_le_size
  rw [idsFrom, List.mem_map]
  constructor
  · rintro ⟨i, hi, rfl⟩
    rw [List.mem_range'_1] at hi
    rw [toNat_page h (by omega)]
    omega
  · intro hid
    exact ⟨id.toNat, List.mem_range'_1.mpr (by omega), UInt32.ofNat_toNat⟩

theorem scan_ok :
    s.scan = .ok ((idsFrom 1 (s.pages.size - 1)).flatMap s.elementsOn) := by
  have hpages : (idsFrom 1 (s.pages.size - 1)).mapM (fun id => do
      let p ← s.readPage id
      elementsFrom id p p.slotCount 0) = .ok ((idsFrom 1 (s.pages.size - 1)).map s.elementsOn) := by
    apply mapM_ok
    intro id hid
    obtain ⟨hpos, hlt⟩ := (mem_idsFrom h).mp hid
    have hp := Array.getElem?_eq_getElem hlt
    obtain ⟨rs, hrs⟩ := h.filled _ _ hpos hp
    rw [readPage, elementsOn, hp]
    exact elementsFrom_eq id hrs _ 0 (by rw [hrs.slotCount_eq]; omega)
  rw [scan, chain_eq h]
  simp only [bind, Except.bind] at hpages ⊢
  rw [hpages]
  rfl

omit h in
theorem pick_eq_some {id : PageId} {p : Page} {slot : Nat} {l : Location} {e : Element} :
    pick id p slot = some (l, e) ↔
      p.record? slot = some (.element e) ∧ l = ⟨id, UInt16.ofNat slot⟩ := by
  rw [pick]
  cases hr : p.record? slot with
  | none => simp
  | some r =>
    cases r with
    | adjacency a => simp
    | element e' =>
      simp only [Option.some.injEq, Prod.mk.injEq, Record.element.injEq]
      constructor
      · rintro ⟨rfl, rfl⟩
        exact ⟨rfl, rfl⟩
      · rintro ⟨rfl, rfl⟩
        exact ⟨rfl, rfl⟩

theorem mem_elementsOn {id : PageId} {l : Location} {e : Element} (hpos : 0 < id.toNat) :
    (l, e) ∈ s.elementsOn id ↔ l.page = id ∧ s.record? l = some (.element e) := by
  rw [elementsOn]
  cases hp : s.pages[id.toNat]? with
  | none =>
    constructor
    · intro hmem
      cases hmem
    · rintro ⟨rfl, hr⟩
      rw [record?, hp] at hr
      cases hr
  | some p =>
    obtain ⟨rs, hrs⟩ := h.filled _ p hpos hp
    have hcount := hrs.slotCount_eq
    have hlen := hrs.length_lt
    rw [List.mem_filterMap]
    constructor
    · rintro ⟨slot, hslot, hpick⟩
      rw [List.mem_range'_1] at hslot
      obtain ⟨hr, rfl⟩ := pick_eq_some.mp hpick
      have hsl : (UInt16.ofNat slot).toNat = slot := by
        rw [UInt16.toNat_ofNat']
        omega
      refine ⟨rfl, ?_⟩
      rw [s.record?_of_page _ p hp, hsl, hr]
    · rintro ⟨rfl, hr⟩
      rw [s.record?_of_page l p hp] at hr
      have hlt : l.slot.toNat < rs.length := by
        rw [hrs.record?_eq] at hr
        exact (List.getElem?_eq_some_iff.mp hr).1
      refine ⟨l.slot.toNat, List.mem_range'_1.mpr (by omega), pick_eq_some.mpr ⟨hr, ?_⟩⟩
      rw [UInt16.ofNat_toNat]

theorem elementsOn_apart {id : PageId} (hpos : 0 < id.toNat) :
    (s.elementsOn id).Pairwise fun x y => x.1 ≠ y.1 := by
  rw [elementsOn]
  cases hp : s.pages[id.toNat]? with
  | none => exact .nil
  | some p =>
    obtain ⟨rs, hrs⟩ := h.filled _ p hpos hp
    have hcount := hrs.slotCount_eq
    have hlen := hrs.length_lt
    rw [List.pairwise_filterMap]
    refine List.Pairwise.imp_of_mem ?_ (List.pairwise_lt_range' (s := 0) (n := p.slotCount))
    rintro i j hi hj hij ⟨l, e⟩ hx ⟨k, f⟩ hy
    rw [List.mem_range'_1] at hi hj
    obtain ⟨-, rfl⟩ := pick_eq_some.mp hx
    obtain ⟨-, rfl⟩ := pick_eq_some.mp hy
    intro heq
    have hslot := congrArg (fun l : Location => l.slot.toNat) heq
    simp only [UInt16.toNat_ofNat'] at hslot
    omega

theorem scan_eq : ∃ found, s.scan = .ok found ∧ (found.map Prod.fst).Nodup ∧
    ∀ l e, (l, e) ∈ found ↔ s.record? l = some (.element e) := by
  refine ⟨_, scan_ok h, ?_, ?_⟩
  · rw [List.Nodup, List.pairwise_map, List.pairwise_flatMap]
    constructor
    · intro id hid
      exact elementsOn_apart h ((mem_idsFrom h).mp hid).1
    · rw [idsFrom, List.pairwise_map]
      refine List.Pairwise.imp_of_mem ?_ (List.pairwise_lt_range' (s := 1) (n := s.pages.size - 1))
      rintro i j hi hj hij ⟨l, e⟩ hx ⟨k, f⟩ hy
      rw [List.mem_range'_1] at hi hj
      have hi' := toNat_page h (i := i) (by omega)
      have hj' := toNat_page h (i := j) (by omega)
      have hl := ((mem_elementsOn h (by omega)).mp hx).1
      have hk := ((mem_elementsOn h (by omega)).mp hy).1
      intro heq
      have hpage : (UInt32.ofNat i).toNat = (UInt32.ofNat j).toNat := by
        rw [← hl, ← hk]
        exact congrArg (fun l : Location => l.page.toNat) heq
      omega
  · intro l e
    rw [List.mem_flatMap]
    constructor
    · rintro ⟨id, hid, hmem⟩
      exact ((mem_elementsOn h ((mem_idsFrom h).mp hid).1).mp hmem).2
    · intro hr
      obtain ⟨p, rs, hpos, hp, -, -⟩ := h.page_of_record l _ hr
      have hlt := (Array.getElem?_eq_some_iff.mp hp).1
      exact ⟨l.page, (mem_idsFrom h).mpr ⟨hpos, hlt⟩, (mem_elementsOn h hpos).mpr ⟨rfl, hr⟩⟩

end

end Store

end PagedGraph
