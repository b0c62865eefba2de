import PagedGraph.Proofs.BackLinks
import PagedGraph.Proofs.Codecs

/-!
# What a deletion writes

A tombstone is written over the element that it replaces, byte by byte in the same place: of the whole
file only the mark of deletion and the row references of that element change. What a deletion does
therefore does not depend on other deletions, and any number of them, in any order and with any
repetitions, leave the same file (`deletions_commute`).
-/

set_option autoImplicit false

namespace PagedGraph

open LittleEndian

namespace Element

theorem toList_encode_around (e : Element) : ∃ front rest : List UInt8, front.length = 9 ∧
    ∀ (deleted : Bool) (rows : Vector RowId rowCapacity),
      ({ e with deleted := deleted, rowSlots := rows } : Element).encode.toList =
        [1, e.level] ++ (if deleted then 1 else 0) :: (front ++
          (rows.toList.flatMap (fun r => LittleEndian.encode 8 r.toNat) ++ rest)) := by
  refine ⟨0 :: (LittleEndian.encode 2 (min e.vector.length 65535) ++ e.neighborsAt.encode),
    e.vector.flatMap (fun x => LittleEndian.encode 4 x.toNat) ++
      List.replicate (encodedSize e.vector.length - (headerSize + e.vector.length * 4)) 0,
    by simp [Location.size], fun deleted rows => ?_⟩
  rw [toList_encode]
  simp only [List.cons_append, List.append_assoc]
  rfl

theorem flatMap_noRow (n : Nat) :
    (List.replicate n noRow).flatMap (fun r => LittleEndian.encode 8 r.toNat) =
      List.replicate (n * 8) 255 := by
  induction n with
  | zero => rfl
  | succ n ih =>
    rw [List.replicate_succ, List.flatMap_cons, ih, Nat.succ_mul, Nat.add_comm (n * 8),
      ← List.replicate_append_replicate]
    rfl

theorem size_encode_tombstone (e : Element) : e.tombstone.encode.size = e.encode.size := by
  rw [size_encode, size_encode, tombstone]

theorem getElem?_around {start front rows rest : List UInt8} (mark : UInt8)
    (hstart : start.length = 2) (hfront : front.length = 9) (hrows : rows.length = 80) (k : Nat) :
    (start ++ mark :: (front ++ (rows ++ rest)))[k]? =
      if k < 2 then start[k]? else if k = 2 then some mark else if k < 12 then front[k - 3]?
      else if k < 92 then rows[k - 12]? else rest[k - 92]? := by
  by_cases h2 : k < 2
  · rw [if_pos h2, List.getElem?_append_left (by omega)]
  · rw [if_neg h2, List.getElem?_append_right (by omega), hstart]
    by_cases hmark : k = 2
    · rw [if_pos hmark, hmark]
      rfl
    · rw [if_neg hmark, List.getElem?_cons, if_neg (by omega), Nat.sub_sub]
      by_cases h12 : k < 12
      · rw [if_pos h12, List.getElem?_append_left (by omega)]
      · rw [if_neg h12, List.getElem?_append_right (by omega), hfront, Nat.sub_sub]
        by_cases h92 : k < 92
        · rw [if_pos h92, List.getElem?_append_left (by omega)]
        · rw [if_neg h92, List.getElem?_append_right (by omega), hrows, Nat.sub_sub]

theorem getD_tombstone (e : Element) (k : Nat) : e.tombstone.encode.getD k 0 =
    if k = 2 then 1 else if 12 ≤ k ∧ k < 92 then 255 else e.encode.getD k 0 := by
  obtain ⟨front, rest, hfront, hlist⟩ := e.toList_encode_around
  have hold : e.encode.toList = _ := hlist e.deleted e.rowSlots
  have hnew : e.tombstone.encode.toList = _ := hlist true (Vector.replicate rowCapacity noRow)
  rw [Vector.toList_replicate, flatMap_noRow, show rowCapacity * 8 = 80 from rfl] at hnew
  rw [Array.getD_eq_getD_getElem?, Array.getD_eq_getD_getElem?, ← Array.getElem?_toList,
    ← Array.getElem?_toList, hnew, hold, getElem?_around _ rfl hfront List.length_replicate,
    getElem?_around _ rfl hfront (length_flatMap_rows e.rowSlots)]
  by_cases hmark : k = 2
  · rw [if_pos hmark, if_neg (by omega), if_pos hmark]
    rfl
  · rw [if_neg hmark, if_neg hmark, if_neg hmark]
    by_cases hrow : 12 ≤ k ∧ k < 92
    · rw [if_pos hrow, if_neg (by omega), if_neg (by omega), if_pos hrow.2,
        List.getElem?_replicate, if_pos (by omega)]
      rfl
    · rw [if_neg hrow]
      by_cases h12 : k < 12
      · rw [if_pos h12, if_pos h12]
      · rw [if_neg h12, if_neg h12, if_neg (show ¬k < 92 by omega), if_neg (show ¬k < 92 by omega)]

end Element

namespace Store

def position? (s : Store) (l : Location) : Option Nat :=
  match s.pages[l.page.toNat]? with
  | none => none
  | some p => match p.itemId l.slot.toNat with
    | .error _ => none
    | .ok (start, _) => some (l.page.toNat * pageSize + start)

theorem getD_bytes (s : Store) (i : Nat) : s.bytes.getD i 0 =
    match s.pages[i / pageSize]? with
    | none => 0
    | some p => p.byte (i % pageSize) := by
  have hplace : i / pageSize * pageSize + i % pageSize = i := Nat.div_add_mod' i pageSize
  cases hp : s.pages[i / pageSize]? with
  | none =>
    have hout : s.bytes.size ≤ i := by
      rw [size_bytes, ← hplace]
      have := Nat.mul_le_mul_right pageSize (Array.getElem?_eq_none_iff.mp hp)
      omega
    rw [Array.getD_eq_getD_getElem?, Array.getElem?_eq_none hout]
    rfl
  | some p =>
    obtain ⟨hlt, rfl⟩ := Array.getElem?_eq_some_iff.mp hp
    have hpage := pageOf_concat s.pages.toList (i / pageSize) (by rwa [Array.length_toList])
    have hmod : i % pageSize < pageSize := Nat.mod_lt _ (by decide)
    rw [Array.getElem_toList, ← bytes_eq] at hpage
    dsimp only
    rw [← hpage, Page.byte_of_lt _ _ hmod]
    simp only [pageOf, Vector.getElem_ofFn, hplace]

theorem getD_bytes_page {s : Store} {id : PageId} {p : Page} (hp : s.pages[id.toNat]? = some p)
    {j : Nat} (hj : j < pageSize) : s.bytes.getD (id.toNat * pageSize + j) 0 = p.byte j := by
  have hdiv : (id.toNat * pageSize + j) / pageSize = id.toNat := by
    rw [Nat.mul_comm, Nat.mul_add_div (by decide), Nat.div_eq_of_lt hj, Nat.add_zero]
  rw [getD_bytes, hdiv, hp, Nat.mul_comm, Nat.mul_add_mod, Nat.mod_eq_of_lt hj]

theorem position?_eq {s : Store} {l : Location} {p : Page} {start len : Nat}
    (hp : s.pages[l.page.toNat]? = some p) (hid : p.itemId l.slot.toNat = .ok (start, len)) :
    s.position? l = some (l.page.toNat * pageSize + start) := by
  rw [position?, hp]
  dsimp only
  rw [hid]

theorem position?_withPage {s : Store} {id : PageId} {p q : Page}
    (hp : s.pages[id.toNat]? = some p) (hq : ∀ slot, q.itemId slot = p.itemId slot) :
    (s.withPage id q).position? = s.position? := by
  funext l
  rw [position?, position?, getElem?_withPage s id q p _ hp]
  by_cases hl : l.page.toNat = id.toNat
  · rw [if_pos hl, hl, hp]
    dsimp only
    rw [hq]
  · rw [if_neg hl]

theorem Formed.bytes_of_record {t : Header} {s : Store} (h : s.Formed t) {l : Location} {r : Record}
    (hr : s.record? l = some r) : ∃ at_, s.position? l = some at_ ∧
      ∀ k < r.encode.size, s.bytes.getD (at_ + k) 0 = r.encode.getD k 0 := by
  obtain ⟨p, rs, -, hp, hrs, hslot⟩ := h.page_of_record l r hr
  have hitem : (rs.map Record.encode)[l.slot.toNat]? = some r.encode := by
    rw [List.getElem?_map, hslot]
    rfl
  have hstart := hrs.holds.startOf_add _ _ hitem
  refine ⟨_, position?_eq hp (hrs.holds.itemId_eq _ _ hitem), fun k hk => ?_⟩
  rw [Nat.add_assoc, getD_bytes_page hp (by omega)]
  exact (hrs.holds.entry _ _ hitem).bytes k hk

end Store

open Store

variable {t : Header} {s : Store}

theorem markDeleted_written (h : s.Intact t) {l : Location} {e : Element}
    (he : s.record? l = some (.element e)) (hlive : e.deleted = false) :
    ∃ s' at_, markDeleted l s = .ok true s' ∧ s'.Intact t ∧
      s.Rewritten s' l (.element e.tombstone) ∧ s'.position? = s.position? ∧
      s.position? l = some at_ ∧
      ∀ i, i < at_ ∨ at_ + e.encode.size ≤ i → s'.bytes.getD i 0 = s.bytes.getD i 0 := by
  obtain ⟨hlen, hwidth, -⟩ := h.fits_of_record l _ he
  obtain ⟨p, start, hp, hid, hq, hintact, hrew⟩ := h.rewrite_in_place l (.element e)
    (.element e.tombstone) he ⟨rfl, rfl, rfl⟩ ⟨hlen, hwidth, e.packed_tombstone⟩
  obtain ⟨p', rs, -, hp', hrs, -⟩ := h.page_of_record l _ he
  obtain rfl : p = p' := Option.some.inj (hp.symm.trans hp')
  obtain ⟨-, -, -, -, hupper, hend⟩ := Page.itemId_eq_ok.mp hid
  have hsize : (Record.element e.tombstone).encode.size = e.encode.size := e.size_encode_tombstone
  refine ⟨_, _, markDeleted_eq h l e he hlive hp hq, hintact, hrew,
    position?_withPage hp (hrs.holds.itemId_write _ hupper), position?_eq hp hid, fun i hi => ?_⟩
  rw [getD_bytes, getD_bytes, getElem?_withPage s l.page _ p _ hp]
  by_cases hpage : i / pageSize = l.page.toNat
  · rw [if_pos hpage, hpage, hp]
    have hplace : i / pageSize * pageSize + i % pageSize = i := Nat.div_add_mod' i pageSize
    rw [hpage] at hplace
    exact Page.byte_write_outside _ _ _ _ (by omega)
  · rw [if_neg hpage]

/-- Between two files there is one difference: the mark of deletion and the row references of the
record at an offset. -/
structure TombstoneAt (at_ : Nat) (bs cs : Bytes) : Prop where
  size : cs.size = bs.size
  byte : ∀ i, cs.getD i 0 =
    if i = at_ + 2 then 1 else if at_ + 12 ≤ i ∧ i < at_ + 92 then 255 else bs.getD i 0

theorem Store.Rewritten.size_bytes_eq {s' : Store} {l : Location} {r : Record}
    (h : s.Rewritten s' l r) : s'.bytes.size = s.bytes.size := by
  rw [size_bytes, size_bytes, h.size]

theorem markDeleted_tombstoneAt (h : s.Intact t) {l : Location} {e : Element}
    (he : s.record? l = some (.element e)) (hlive : e.deleted = false) :
    ∃ s' at_, markDeleted l s = .ok true s' ∧ s'.Intact t ∧
      s.Rewritten s' l (.element e.tombstone) ∧ s'.position? = s.position? ∧
      s.position? l = some at_ ∧ TombstoneAt at_ s.bytes s'.bytes := by
  obtain ⟨s', at_, hrun, hintact, hrew, hposition, hat, hframe⟩ := markDeleted_written h he hlive
  refine ⟨s', at_, hrun, hintact, hrew, hposition, hat, hrew.size_bytes_eq, fun i => ?_⟩
  obtain ⟨at', hat', hold⟩ := h.bytes_of_record he
  obtain rfl : at_ = at' := Option.some.inj (hat.symm.trans hat')
  have hrecord : s'.record? l = some (.element e.tombstone) := by rw [hrew.record, putRecord_self]
  obtain ⟨at', hat', hnew⟩ := hintact.bytes_of_record hrecord
  rw [hposition] at hat'
  obtain rfl : at_ = at' := Option.some.inj (hat.symm.trans hat')
  have hsize := e.size_encode_tombstone
  have hlong := e.headerSize_le
  rw [Element.headerSize] at hlong
  by_cases hinside : at_ ≤ i ∧ i < at_ + e.encode.size
  · obtain ⟨k, rfl⟩ := Nat.exists_eq_add_of_le hinside.1
    have hk : k < e.encode.size := by omega
    rw [hnew k (show k < e.tombstone.encode.size by omega), hold k hk]
    have hbyte : (Record.element e.tombstone).encode.getD k 0 =
        if k = 2 then 1 else if 12 ≤ k ∧ k < 92 then 255
        else (Record.element e).encode.getD k 0 := e.getD_tombstone k
    simpa only [Nat.add_left_cancel_iff, Nat.add_le_add_iff_left, Nat.add_lt_add_iff_left] using hbyte
  · rw [hframe i (by omega), if_neg (by omega), if_neg (by omega)]

namespace Store

/-- A byte that changes when the element at a location is deleted. -/
def Doomed (s : Store) (l : Location) (i : Nat) : Prop :=
  ∃ e at_, s.record? l = some (.element e) ∧ e.deleted = false ∧ s.position? l = some at_ ∧
    (i = at_ + 2 ∨ at_ + 12 ≤ i ∧ i < at_ + 92)

structure Entombed (t : Header) (s : Store) (ls : List Location) (s' : Store) : Prop where
  intact : s'.Intact t
  size : s'.bytes.size = s.bytes.size
  position : s'.position? = s.position?
  element : ∀ l e, s.record? l = some (.element e) →
    s'.record? l = some (.element (if l ∈ ls ∧ e.deleted = false then e.tombstone else e))
  frame : ∀ i, (∀ l ∈ ls, ¬s.Doomed l i) → s'.bytes.getD i 0 = s.bytes.getD i 0

theorem Entombed.nil (h : s.Intact t) : Entombed t s [] s where
  intact := h
  size := rfl
  position := rfl
  element l e he := by rw [he, if_neg fun hmem => absurd hmem.1 List.not_mem_nil]
  frame _ _ := rfl

theorem Entombed.markDeleted {s' : Store} {ls : List Location} (h : Entombed t s ls s')
    {l : Location} {e : Element} (he : s.record? l = some (.element e)) :
    ∃ answer s'', markDeleted l s' = .ok answer s'' ∧ Entombed t s (ls ++ [l]) s'' := by
  have hnow := h.element l e he
  by_cases hlive : l ∉ ls ∧ e.deleted = false
  · rw [if_neg fun hmem => hlive.1 hmem.1] at hnow
    obtain ⟨s'', at_, hrun, hintact, hrew, hposition, hat, hbytes⟩ :=
      markDeleted_tombstoneAt h.intact hnow hlive.2
    refine ⟨true, s'', hrun, hintact, hbytes.size.trans h.size, hposition.trans h.position,
      fun k f hf => ?_, fun i hi => ?_⟩
    · rw [hrew.record]
      by_cases hk : k = l
      · subst hk
        obtain rfl : e = f := Record.element.inj (Option.some.inj (he.symm.trans hf))
        rw [putRecord_self, if_pos ⟨List.mem_append_right _ (List.mem_singleton_self _), hlive.2⟩]
      · rw [putRecord_of_ne _ _ hk, h.element k f hf]
        simp only [List.mem_append, List.mem_singleton, hk, or_false]
    · have hspared := hi l (List.mem_append_right _ (List.mem_singleton_self _))
      rw [h.position] at hat
      rw [hbytes.byte, if_neg fun heq => hspared ⟨e, at_, he, hlive.2, hat, .inl heq⟩,
        if_neg fun hin => hspared ⟨e, at_, he, hlive.2, hat, .inr hin⟩]
      exact h.frame i fun k hk => hi k (List.mem_append_left _ hk)
  · -- It has been deleted before, perhaps just now.
    have hdead : (if l ∈ ls ∧ e.deleted = false then e.tombstone else e).deleted = true := by
      by_cases hmem : l ∈ ls ∧ e.deleted = false
      · rw [if_pos hmem]
        rfl
      · rw [if_neg hmem]
        cases hd : e.deleted with
        | true => rfl
        | false => exact absurd ⟨fun hl => hmem ⟨hl, hd⟩, hd⟩ hlive
    refine ⟨false, s', markDeleted_dead h.intact l _ hnow hdead, h.intact, h.size, h.position,
      fun k f hf => ?_, fun i hi => h.frame i fun k hk => hi k (List.mem_append_left _ hk)⟩
    have hsame : (k ∈ ls ++ [l] ∧ f.deleted = false) ↔ k ∈ ls ∧ f.deleted = false := by
      rw [List.mem_append, List.mem_singleton]
      refine ⟨fun ⟨hk, hd⟩ => ⟨hk.elim (fun hk => hk) fun hk => ?_, hd⟩, fun ⟨hk, hd⟩ => ⟨.inl hk, hd⟩⟩
      subst hk
      obtain rfl : e = f := Record.element.inj (Option.some.inj (he.symm.trans hf))
      exact Decidable.not_not.mp fun hl => hlive ⟨hl, hd⟩
    rw [h.element k f hf]
    simp only [hsame]

theorem Entombed.mapM (ls : List Location) :
    ∀ {done : List Location} {s' : Store}, Entombed t s done s' →
      (∀ l ∈ ls, ∃ e, s.record? l = some (.element e)) →
      ∃ answers s'', ls.mapM PagedGraph.markDeleted s' = .ok answers s'' ∧
        Entombed t s (done ++ ls) s'' := by
  induction ls with
  | nil =>
    intro done s' h _
    exact ⟨[], s', rfl, by rwa [List.append_nil]⟩
  | cons l ls ih =>
    intro done s' h helements
    obtain ⟨e, he⟩ := helements l List.mem_cons_self
    obtain ⟨answer, s₁, hfirst, hone⟩ := h.markDeleted he
    obtain ⟨answers, s'', hrest, hall⟩ := ih hone fun k hk => helements k (List.mem_cons_of_mem _ hk)
    refine ⟨answer :: answers, s'', ?_, by rwa [List.append_assoc] at hall⟩
    rw [List.mapM_cons]
    simp [bind, EStateM.bind, hfirst, hrest, pure, EStateM.pure]

theorem Entombed.bytes_eq {ls ls' : List Location} {s' s'' : Store} (h : Entombed t s ls s')
    (h' : Entombed t s ls' s'') (hmem : ∀ l, l ∈ ls' ↔ l ∈ ls) : s''.bytes = s'.bytes := by
  have hbyte : ∀ i, s''.bytes.getD i 0 = s'.bytes.getD i 0 := fun i => by
    by_cases hi : ∃ l ∈ ls, s.Doomed l i
    · -- What now stands there is a byte of the tombstone.
      obtain ⟨l, hl, e, at_, he, hlive, hat, hplace⟩ := hi
      have hrecord := h.element l e he
      have hrecord' := h'.element l e he
      rw [if_pos ⟨hl, hlive⟩] at hrecord
      rw [if_pos ⟨(hmem l).mpr hl, hlive⟩] at hrecord'
      obtain ⟨_, hat₁, hbytes⟩ := h.intact.bytes_of_record hrecord
      obtain ⟨_, hat₂, hbytes'⟩ := h'.intact.bytes_of_record hrecord'
      rw [h.position] at hat₁
      rw [h'.position] at hat₂
      obtain rfl := Option.some.inj (hat.symm.trans hat₁)
      obtain rfl := Option.some.inj (hat.symm.trans hat₂)
      have hlong := e.tombstone.headerSize_le
      rw [Element.headerSize] at hlong
      obtain ⟨k, rfl⟩ := Nat.exists_eq_add_of_le (show at_ ≤ i by omega)
      have hk : k < (Record.element e.tombstone).encode.size :=
        Nat.lt_of_lt_of_le (by omega) hlong
      rw [hbytes k hk, hbytes' k hk]
    · rw [h.frame i fun l hl hdoomed => hi ⟨l, hl, hdoomed⟩,
        h'.frame i fun l hl hdoomed => hi ⟨l, (hmem l).mp hl, hdoomed⟩]
  have hsize : s''.bytes.size = s'.bytes.size := h'.size.trans h.size.symm
  refine Array.ext hsize fun i hi hi' => ?_
  have := hbyte i
  simpa only [Array.getD_eq_getD_getElem?, Array.getElem?_eq_getElem hi,
    Array.getElem?_eq_getElem hi', Option.getD_some] using this

end Store

/-- Whatever has been done with an index that was opened empty: a deletion marks a live element and
clears its rows, and changes no other byte of the file. If the element has been deleted already, nothing
changes. Several deletions leave the same file in whatever order they are done, and however often. -/
theorem deletions_commute {path : String} {dimensions : UInt32} {o : Options}
    {file file' : FileState} {ix : Index} {s₀ : Store} (hblank : file.isBlank = true)
    (hopen : Index.openFile path dimensions o file = (.ok (ix, s₀), file')) {s : Store}
    {ws : List Writer} (hreach : Reaches ix.params ix.dimensions s₀ ⟨s, ws⟩) :
    (∀ l e, s.element l = .ok e → e.deleted = false → ∃ s' at_,
      markDeleted l s = .ok true s' ∧ s.position? l = some at_ ∧
        TombstoneAt at_ s.bytes s'.bytes) ∧
    (∀ l e, s.element l = .ok e → e.deleted = true → markDeleted l s = .ok false s) ∧
    ∀ ls : List Location, (∀ l ∈ ls, ∃ e, s.element l = .ok e) →
      ∃ answers s', ls.mapM markDeleted s = .ok answers s' ∧
        ∀ ls' : List Location, (∀ l, l ∈ ls' ↔ l ∈ ls) →
          ∃ answers' s'', ls'.mapM markDeleted s = .ok answers' s'' ∧ s''.bytes = s'.bytes := by
  obtain ⟨hopened, -⟩ := Index.opened_of_blank hblank hopen
  rw [hopened.width] at hreach
  have hintact := (hreach.sound hopened.m_eq hopened.intact).intact
  refine ⟨fun l e he hlive => ?_, fun l e he hdead => ?_, fun ls hls => ?_⟩
  · obtain ⟨s', at_, hrun, -, -, -, hat, hbytes⟩ :=
      markDeleted_tombstoneAt hintact ((s.element_eq_ok l e).mp he) hlive
    exact ⟨s', at_, hrun, hat, hbytes⟩
  · exact markDeleted_dead hintact l e ((s.element_eq_ok l e).mp he) hdead
  · have hrecords : ∀ l ∈ ls, ∃ e, s.record? l = some (.element e) := fun l hl =>
      (hls l hl).imp fun e he => (s.element_eq_ok l e).mp he
    obtain ⟨answers, s', hrun, hentombed⟩ := (Entombed.nil hintact).mapM ls hrecords
    refine ⟨answers, s', hrun, fun ls' hmem => ?_⟩
    obtain ⟨answers', s'', hrun', hentombed'⟩ :=
      (Entombed.nil hintact).mapM ls' fun l hl => hrecords l ((hmem l).mp hl)
    exact ⟨answers', s'', hrun', hentombed.bytes_eq hentombed' hmem⟩

section
open Index

theorem deletions_commute_both : ∃ s,
    Reaches wide.params wide.dimensions (Store.fresh (template 900 Options.standard)) ⟨s, []⟩ ∧
    (∃ s' at_, markDeleted ⟨1, 0⟩ s = .ok true s' ∧ s.position? ⟨1, 0⟩ = some at_ ∧
      TombstoneAt at_ s.bytes s'.bytes) ∧
    ∃ answers s' answers' s'', [⟨1, 0⟩, ⟨1, 2⟩].mapM markDeleted s = .ok answers s' ∧
      [⟨1, 2⟩, ⟨1, 0⟩, ⟨1, 2⟩].mapM markDeleted s = .ok answers' s'' ∧ s''.bytes = s'.bytes := by
  obtain ⟨s, hboth, -, hreach⟩ := both_reached
  have hfirst := (s.element_eq_ok _ _).mpr hboth.atFirst
  have hsecond := (s.element_eq_ok _ _).mpr hboth.atSecond
  have hblank : FileState.absent.isBlank = true := rfl
  obtain ⟨hone, -, hmany⟩ := deletions_commute hblank
    (openFile_blank checkOptions_wide "index" .absent hblank) hreach
  obtain ⟨answers, s', hrun, horder⟩ := hmany [⟨1, 0⟩, ⟨1, 2⟩] fun l hl => by
    rcases List.mem_cons.mp hl with rfl | hl
    · exact ⟨_, hfirst⟩
    · obtain rfl := List.mem_singleton.mp hl
      exact ⟨_, hsecond⟩
  obtain ⟨answers', s'', hrun', hsame⟩ := horder [⟨1, 2⟩, ⟨1, 0⟩, ⟨1, 2⟩] fun l => by
    simp only [List.mem_cons, List.not_mem_nil, or_false]
    exact ⟨fun h => h.elim .inr fun h => h, .inr⟩
  exact ⟨s, hreach, hone _ _ hfirst rfl, answers, s', answers', s'', hrun, hrun', hsame⟩

end

end PagedGraph
