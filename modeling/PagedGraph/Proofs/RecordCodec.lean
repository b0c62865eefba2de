import PagedGraph.Record.Element
import PagedGraph.Record.Header

/-!
# Records are read back as they were written

Decoding the stored form of an element, of a neighbor record or of a header gives it back. The
stored forms are blocks of fixed width in a row; `field_at` reads a word that follows a known
prefix, and `flatMap_split` finds the prefix of one block among equal ones.
-/

set_option autoImplicit false

namespace PagedGraph

namespace LittleEndian

theorem field_at (bs : Bytes) (pre post : List UInt8) (w n : Nat)
    (h : bs.toList = pre ++ (encode w n ++ post)) (hn : n < numbers w) :
    field bs pre.length w = n := by
  have hs : pre.length + w ≤ bs.size := by
    rw [← Array.length_toList, h, List.length_append, List.length_append, length_encode]
    omega
  rw [field_eq_decode _ _ _ hs, h, List.drop_left,
    List.take_append_of_le_length (Nat.le_of_eq (length_encode w n).symm),
    List.take_of_length_le (Nat.le_of_eq (length_encode w n)), decode_encode w n hn]

theorem field_step {bs : Bytes} {pre post : List UInt8} {w n : Nat} (at_ : Nat)
    (h : bs.toList = pre ++ (encode w n ++ post)) (ha : pre.length = at_) (hn : n < numbers w) :
    field bs at_ w = n ∧ bs.toList = pre ++ encode w n ++ post ∧
      (pre ++ encode w n).length = at_ + w := by
  refine ⟨?_, by rw [h, List.append_assoc], by rw [List.length_append, length_encode, ha]⟩
  rw [← ha]
  exact field_at bs pre post w n h hn

theorem getD_at (bs : Bytes) (pre post : List UInt8) (b : UInt8)
    (h : bs.toList = pre ++ b :: post) : bs.getD pre.length 0 = b := by
  rw [Array.getD_eq_getD_getElem?, ← Array.getElem?_toList, h, List.getElem?_append_right
    (Nat.le_refl _), Nat.sub_self]
  rfl

theorem flatMap_split {α : Type} (f : α → List UInt8) (w : Nat) (hf : ∀ x, (f x).length = w)
    (xs : List α) (i : Nat) (hi : i < xs.length) :
    ∃ pre post, xs.flatMap f = pre ++ (f xs[i] ++ post) ∧ pre.length = i * w := by
  induction xs generalizing i with
  | nil => exact absurd hi (Nat.not_lt_zero i)
  | cons x xs ih =>
    cases i with
    | zero => exact ⟨[], xs.flatMap f, rfl, by simp⟩
    | succ i =>
      obtain ⟨pre, post, hsplit, hlen⟩ := ih i (Nat.lt_of_succ_lt_succ hi)
      refine ⟨f x ++ pre, post, ?_, ?_⟩
      · rw [List.flatMap_cons, hsplit, List.append_assoc]
        rfl
      · rw [List.length_append, hf, hlen, Nat.succ_mul, Nat.add_comm]

theorem length_flatMap_block {α : Type} (f : α → List UInt8) (w : Nat)
    (hf : ∀ x, (f x).length = w) (xs : List α) : (xs.flatMap f).length = xs.length * w := by
  induction xs with
  | nil => simp
  | cons x xs ih => rw [List.flatMap_cons, List.length_append, hf, ih, List.length_cons,
      Nat.succ_mul, Nat.add_comm]

def padded (bytes : List UInt8) : List UInt8 :=
  bytes ++ List.replicate (align bytes.length - bytes.length) 0

theorem padded_eq {bytes : List UInt8} {n : Nat} (h : bytes.length = n) :
    padded bytes = bytes ++ List.replicate (align n - n) 0 := by
  rw [padded, h]

theorem toList_pad (bs : Bytes) : (pad bs).toList = padded bs.toList := by
  rw [pad, padded, Array.toList_append, Array.toList_replicate, Array.length_toList]

theorem align_le (n : Nat) : n ≤ align n := by
  rw [align]
  omega

end LittleEndian

open LittleEndian

namespace Location

theorem decode_at (bs : Bytes) (pre post : List UInt8) (l : Location)
    (h : bs.toList = pre ++ (l.encode ++ post)) : decode bs pre.length = l := by
  rw [encode, List.append_assoc] at h
  have hpage := field_at bs pre _ 4 l.page.toNat h l.page.toNat_lt
  have hslot := field_at bs (pre ++ LittleEndian.encode 4 l.page.toNat) post 2 l.slot.toNat
    (by rw [h, List.append_assoc]) l.slot.toNat_lt
  rw [List.length_append, LittleEndian.length_encode] at hslot
  simp [decode, hpage, hslot]

theorem decodeMany_at (bs : Bytes) (pre post : List UInt8) (ls : List Location)
    (h : bs.toList = pre ++ (ls.flatMap encode ++ post)) :
    decodeMany bs pre.length ls.length = ls := by
  apply List.ext_getElem
  · simp [decodeMany]
  · intro i hi hi'
    obtain ⟨before, after, hsplit, hlen⟩ := flatMap_split encode size length_encode ls i hi'
    have := decode_at bs (pre ++ before) (after ++ post) ls[i]
      (by rw [h, hsplit]; simp only [List.append_assoc])
    rw [List.length_append, hlen] at this
    simp only [decodeMany, List.getElem_ofFn, this]

end Location

namespace Adjacency

theorem foldl_append_toList (ls : List Location) (out : Bytes) :
    (ls.foldl Location.append out).toList = out.toList ++ ls.flatMap Location.encode := by
  induction ls generalizing out with
  | nil => simp
  | cons l ls ih => rw [List.foldl_cons, ih, Location.toList_append, List.flatMap_cons,
      List.append_assoc]

theorem toList_encode (a : Adjacency) : a.encode.toList =
    [2, 0] ++ (LittleEndian.encode 2 (min a.slots.length 65535) ++
      (a.slots.flatMap Location.encode ++
        List.replicate (align (headerSize + a.slots.length * Location.size) -
          (headerSize + a.slots.length * Location.size)) 0)) := by
  rw [encode, toList_pad, foldl_append_toList, LittleEndian.toList_append]
  refine (padded_eq (n := headerSize + a.slots.length * Location.size) ?_).trans ?_
  · rw [List.length_append, List.length_append, length_encode,
      length_flatMap_block Location.encode Location.size Location.length_encode]
    rfl
  · simp only [List.append_assoc]
    rfl

theorem size_encode (a : Adjacency) :
    a.encode.size = align (headerSize + a.slots.length * Location.size) := by
  have hle := align_le (headerSize + a.slots.length * Location.size)
  rw [headerSize] at hle
  rw [← Array.length_toList, toList_encode]
  simp only [List.length_append, length_encode, List.length_replicate, List.length_cons,
    List.length_nil, headerSize,
    length_flatMap_block Location.encode Location.size Location.length_encode]
  omega

theorem kind_encode (a : Adjacency) : RecordKind.of? a.encode = some .adjacency := by
  have h0 : a.encode[0]? = some 2 := by
    rw [← Array.getElem?_toList, toList_encode]
    rfl
  simp [RecordKind.of?, h0, RecordKind.tag]

theorem decode_encode (a : Adjacency) (h : a.slots.length ≤ 65535) : decode a.encode = .ok a := by
  have hlist := a.toList_encode
  rw [Nat.min_eq_left h] at hlist
  have hcount : field a.encode 2 2 = a.slots.length :=
    field_at a.encode [2, 0] _ 2 a.slots.length hlist (by simp only [numbers]; omega)
  have hslots : Location.decodeMany a.encode headerSize a.slots.length = a.slots := by
    have := Location.decodeMany_at a.encode ([2, 0] ++ LittleEndian.encode 2 a.slots.length) _
      a.slots (hlist.trans (List.append_assoc _ _ _).symm)
    rwa [List.length_append, length_encode] at this
  have hsize := a.size_encode
  have hle := align_le (headerSize + a.slots.length * Location.size)
  rw [decode, if_neg (by simp [kind_encode]), if_neg (by omega)]
  simp only [hcount, hslots]
  rw [if_neg (by omega)]

end Adjacency

namespace Element

theorem foldl_append_toList {α : Type} (w : Nat) (f : α → Nat) (xs : List α) (out : Bytes) :
    (xs.foldl (fun out x => LittleEndian.append out w (f x)) out).toList =
      out.toList ++ xs.flatMap fun x => LittleEndian.encode w (f x) := by
  induction xs generalizing out with
  | nil => simp
  | cons x xs ih => rw [List.foldl_cons, ih, LittleEndian.toList_append, List.flatMap_cons,
      List.append_assoc]

theorem length_flatMap_rows (rows : Vector RowId rowCapacity) :
    (rows.toList.flatMap fun r => LittleEndian.encode 8 r.toNat).length = 80 := by
  rw [length_flatMap_block (fun r : RowId => LittleEndian.encode 8 r.toNat) 8 (by simp),
    Vector.length_toList]
  rfl

theorem length_flatMap_coordinates (xs : List UInt32) :
    (xs.flatMap fun x => LittleEndian.encode 4 x.toNat).length = xs.length * 4 :=
  length_flatMap_block (fun x : UInt32 => LittleEndian.encode 4 x.toNat) 4 (by simp) xs

theorem toList_encode (e : Element) : e.encode.toList =
    [1, e.level, if e.deleted then 1 else 0, 0] ++
      (LittleEndian.encode 2 (min e.vector.length 65535) ++ (e.neighborsAt.encode ++
        (e.rowSlots.toList.flatMap (fun r => LittleEndian.encode 8 r.toNat) ++
          (e.vector.flatMap (fun x => LittleEndian.encode 4 x.toNat) ++
            List.replicate (encodedSize e.vector.length -
              (headerSize + e.vector.length * 4)) 0)))) := by
  rw [encode, toList_pad, foldl_append_toList, ← Array.foldl_toList,
    foldl_append_toList 8 (fun r : RowId => r.toNat), Location.toList_append,
    LittleEndian.toList_append, Vector.toList_toArray]
  refine (padded_eq (n := headerSize + e.vector.length * 4) ?_).trans ?_
  · simp only [List.length_append, length_encode, Location.length_encode, length_flatMap_rows,
      length_flatMap_coordinates]
    rfl
  · simp only [List.append_assoc]
    rfl

theorem size_encode (e : Element) : e.encode.size = encodedSize e.vector.length := by
  have hle : headerSize + e.vector.length * 4 ≤ encodedSize e.vector.length := align_le _
  rw [headerSize] at hle
  rw [← Array.length_toList, toList_encode]
  simp only [List.length_append, length_encode, Location.length_encode, length_flatMap_rows,
    length_flatMap_coordinates, List.length_replicate, List.length_cons, List.length_nil,
    headerSize, Location.size]
  omega

theorem kind_encode (e : Element) : RecordKind.of? e.encode = some .element := by
  have h0 : e.encode[0]? = some 1 := by
    rw [← Array.getElem?_toList, toList_encode]
    rfl
  simp [RecordKind.of?, h0, RecordKind.tag]

theorem headerSize_le (e : Element) : headerSize ≤ e.encode.size := by
  have := align_le (headerSize + e.vector.length * 4)
  rw [size_encode, encodedSize]
  omega

theorem outline_encode (e : Element) :
    outline e.encode = .ok ⟨e.level, e.deleted, e.neighborsAt⟩ := by
  have h := e.toList_encode
  have hlevel : e.encode.getD 1 0 = e.level := getD_at e.encode [1] _ e.level h
  have hdeleted : e.encode.getD 2 0 = if e.deleted then 1 else 0 :=
    getD_at e.encode [1, e.level] _ _ h
  have hat : Location.decode e.encode 6 = e.neighborsAt := by
    rw [← List.append_assoc] at h
    have := Location.decode_at _ _ _ _ h
    rwa [List.length_append, length_encode] at this
  have hsize := e.headerSize_le
  rw [outline, if_neg (by simp [kind_encode]), if_neg (by omega), hlevel, hdeleted, hat]
  cases e.deleted <;> rfl

theorem decode_encode (e : Element) (h : e.vector.length ≤ 65535) : decode e.encode = .ok e := by
  have hlist := e.toList_encode
  rw [Nat.min_eq_left h] at hlist
  have hwidth : field e.encode 4 2 = e.vector.length :=
    field_at e.encode [1, e.level, if e.deleted then 1 else 0, 0] _ 2 e.vector.length hlist
      (by simp only [numbers]; omega)
  have hrows : (Vector.ofFn fun i : Fin rowCapacity =>
      UInt64.ofNat (field e.encode (12 + i * 8) 8)) = e.rowSlots := by
    apply Vector.ext
    intro i hi
    obtain ⟨before, after, hsplit, hlen⟩ := flatMap_split
      (fun r : RowId => LittleEndian.encode 8 r.toNat) 8 (by simp) e.rowSlots.toList i
      (by rwa [Vector.length_toList])
    have hat := hlist
    rw [hsplit] at hat
    simp only [← List.append_assoc] at hat
    rw [List.append_assoc, List.append_assoc, List.append_assoc] at hat
    have := field_at _ _ _ 8 _ hat (UInt64.toNat_lt _)
    simp only [List.length_append, length_encode, Location.length_encode, hlen, List.length_cons,
      List.length_nil, Location.size] at this
    simp [this]
  have hvector : ∀ n, n = e.vector.length → (List.ofFn fun i : Fin n =>
      UInt32.ofNat (field e.encode (headerSize + i * 4) 4)) = e.vector := by
    rintro n rfl
    apply List.ext_getElem
    · simp
    · intro i hi hi'
      obtain ⟨before, after, hsplit, hlen⟩ := flatMap_split
        (fun x : UInt32 => LittleEndian.encode 4 x.toNat) 4 (by simp) e.vector i hi'
      have hat := hlist
      rw [hsplit] at hat
      simp only [← List.append_assoc] at hat
      rw [List.append_assoc, List.append_assoc] at hat
      have := field_at _ _ _ 4 _ hat (UInt32.toNat_lt _)
      simp only [List.length_append, length_encode, Location.length_encode, hlen,
        length_flatMap_rows, List.length_cons, List.length_nil, Location.size] at this
      simp [headerSize, this]
  have hsize := e.size_encode
  have hlong : ¬e.encode.size < encodedSize (field e.encode 4 2) := by
    rw [hwidth]
    omega
  rw [decode, outline_encode]
  simp only [if_neg hlong, hrows, hvector _ hwidth]

end Element

namespace Header

theorem toList_encode (h : Header) : h.encode.toList = h.magic.toList ++
    (LittleEndian.encode 4 h.version.toNat ++ (LittleEndian.encode 4 h.pageBytes.toNat ++
      (LittleEndian.encode 4 h.dimensions.toNat ++ (LittleEndian.encode 2 h.m.toNat ++
        ([h.metric, 0] ++ (LittleEndian.encode 4 h.entryPage.toNat ++
          (LittleEndian.encode 2 h.entrySlot.toNat ++ ([h.entryLevel, 0] ++
            (LittleEndian.encode 4 h.insertPage.toNat ++ List.replicate 28 0))))))))) := by
  simp [encode]
  rfl

theorem fields_encode (h : Header) : fields h.encode = h := by
  have hlist := h.toList_encode
  have hl : h.magic.toList.length = 8 := Vector.length_toList
  have hmagic : (Vector.ofFn fun i : Fin 8 => h.encode.getD i 0) = h.magic := by
    apply Vector.ext
    intro i hi
    have hget : h.encode.toList[i]? = some h.magic[i] := by
      rw [hlist, List.getElem?_append_left (by omega), List.getElem?_eq_getElem (by omega)]
      simp
    rw [Array.getElem?_toList] at hget
    simp [Array.getD_eq_getD_getElem?, hget]
  obtain ⟨hversion, hlist, hl⟩ := field_step 8 hlist hl h.version.toNat_lt
  obtain ⟨hbytes, hlist, hl⟩ := field_step 12 hlist hl h.pageBytes.toNat_lt
  obtain ⟨hdims, hlist, hl⟩ := field_step 16 hlist hl h.dimensions.toNat_lt
  obtain ⟨hm, hlist, hl⟩ := field_step 20 hlist hl h.m.toNat_lt
  have hmetric := getD_at _ _ _ _ hlist
  rw [← List.append_assoc] at hlist
  obtain ⟨hpage, hlist, hl'⟩ := field_step 24 hlist
    (by rw [List.length_append, hl]; rfl) h.entryPage.toNat_lt
  obtain ⟨hslot, hlist, hl'⟩ := field_step 28 hlist hl' h.entrySlot.toNat_lt
  have hlevel := getD_at _ _ _ _ hlist
  rw [← List.append_assoc] at hlist
  obtain ⟨hinsert, -, -⟩ := field_step 32 hlist
    (by rw [List.length_append, hl']; rfl) h.insertPage.toNat_lt
  rw [hl] at hmetric
  rw [hl'] at hlevel
  rw [fields, hmagic]
  simp [hversion, hbytes, hdims, hm, hmetric, hpage, hslot, hlevel, hinsert]

end Header

end PagedGraph
