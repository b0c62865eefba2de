import PagedGraph.Proofs.RecordCodec

/-!
# The codecs lose nothing

Elements, neighbor records and headers are read back from what they are written as, whatever bytes
follow. In the other direction a byte string that can be read may differ from what is written for
the record read from it: `canonical` is what becomes of it. The bytes of all fields are kept, a mark
of deletion is written as one, and reserved bytes and the bytes behind the last field are cleared.
-/

set_option autoImplicit false

namespace PagedGraph

namespace LittleEndian

theorem getD_append_of_lt {bs : Bytes} (extra : Bytes) {i : Nat} (hi : i < bs.size) :
    (bs ++ extra).getD i 0 = bs.getD i 0 := by
  rw [Array.getD_eq_getD_getElem?, Array.getD_eq_getD_getElem?, Array.getElem?_append_left hi]

theorem field_append_right {bs : Bytes} (extra : Bytes) {at_ w : Nat} (h : at_ + w ≤ bs.size) :
    field (bs ++ extra) at_ w = field bs at_ w := by
  induction w generalizing at_ with
  | zero => rfl
  | succ w ih => rw [field, field, getD_append_of_lt extra (by omega), ih (by omega)]

def bytesAt (bs : Bytes) (at_ len : Nat) : List UInt8 := (bs.toList.drop at_).take len

theorem length_bytesAt {bs : Bytes} {at_ len : Nat} (h : at_ + len ≤ bs.size) :
    (bytesAt bs at_ len).length = len := by
  rw [bytesAt, List.length_take, List.length_drop, Array.length_toList]
  omega

theorem bytesAt_append (bs : Bytes) {at_ len next : Nat} (len' : Nat) (h : at_ + len = next) :
    bytesAt bs at_ len ++ bytesAt bs next len' = bytesAt bs at_ (len + len') := by
  rw [bytesAt, bytesAt, bytesAt, ← h, List.take_add, List.drop_drop]

theorem bytesAt_eq_ofFn {bs : Bytes} {at_ len : Nat} (h : at_ + len ≤ bs.size) :
    bytesAt bs at_ len = List.ofFn fun i : Fin len => bs.getD (at_ + i) 0 := by
  apply List.ext_getElem
  · rw [length_bytesAt h, List.length_ofFn]
  · intro i hi hi'
    rw [length_bytesAt h] at hi
    simp only [bytesAt, List.getElem_take, List.getElem_drop, List.getElem_ofFn,
      Array.getElem_toList, Array.getD_eq_getD_getElem?,
      Array.getElem?_eq_getElem (show at_ + i < bs.size by omega), Option.getD_some]

theorem bytesAt_one {bs : Bytes} {at_ : Nat} (h : at_ < bs.size) :
    bytesAt bs at_ 1 = [bs.getD at_ 0] :=
  bytesAt_eq_ofFn h

theorem encode_field {bs : Bytes} {at_ w : Nat} (h : at_ + w ≤ bs.size) :
    encode w (field bs at_ w) = bytesAt bs at_ w := by
  have hlen := length_bytesAt h
  rw [field_eq_decode _ _ _ h]
  change encode w (decode (bytesAt bs at_ w)) = _
  generalize bytesAt bs at_ w = cs at *
  rw [← hlen, encode_decode]

theorem flatMap_ofFn {α : Type} {bs : Bytes} {at_ w : Nat} (f : α → List UInt8) :
    ∀ {n : Nat} (g : Fin n → α), (∀ i : Fin n, f (g i) = bytesAt bs (at_ + i * w) w) →
      (List.ofFn g).flatMap f = bytesAt bs at_ (n * w)
  | 0, _, _ => by simp [bytesAt]
  | n + 1, g, h => by
    -- The last block is split off: the offsets of the others do not depend on how many there are.
    have hinit := flatMap_ofFn f (fun i : Fin n => g i.castSucc) fun i => h i.castSucc
    rw [List.ofFn_succ_last, List.flatMap_append, hinit, List.flatMap_singleton, h (Fin.last n),
      Fin.val_last, bytesAt_append bs w rfl, Nat.succ_mul]

end LittleEndian

open LittleEndian

namespace Location

theorem decode_append {bs : Bytes} (extra : Bytes) {at_ : Nat} (h : at_ + size ≤ bs.size) :
    decode (bs ++ extra) at_ = decode bs at_ := by
  rw [size] at h
  rw [decode, decode, field_append_right extra (by omega), field_append_right extra (by omega)]

theorem decodeMany_append {bs : Bytes} (extra : Bytes) {at_ count : Nat}
    (h : at_ + count * size ≤ bs.size) :
    decodeMany (bs ++ extra) at_ count = decodeMany bs at_ count := by
  rw [decodeMany, decodeMany]
  refine congrArg List.ofFn (funext fun i => decode_append extra ?_)
  have := Nat.mul_le_mul_right size i.isLt
  rw [Nat.succ_mul] at this
  omega

theorem encode_decode {bs : Bytes} {at_ : Nat} (h : at_ + size ≤ bs.size) :
    (decode bs at_).encode = bytesAt bs at_ size := by
  rw [size] at h
  have hpage : (UInt32.ofNat (field bs at_ 4)).toNat = field bs at_ 4 :=
    UInt32.toNat_ofNat_of_lt' (field_lt bs at_ 4)
  have hslot : (UInt16.ofNat (field bs (at_ + 4) 2)).toNat = field bs (at_ + 4) 2 :=
    UInt16.toNat_ofNat_of_lt' (field_lt bs (at_ + 4) 2)
  rw [decode, encode, hpage, hslot, encode_field (by omega), encode_field (by omega),
    bytesAt_append bs 2 rfl]
  rfl

theorem flatMap_decodeMany {bs : Bytes} {at_ count : Nat} (h : at_ + count * size ≤ bs.size) :
    (decodeMany bs at_ count).flatMap encode = bytesAt bs at_ (count * size) :=
  flatMap_ofFn encode _ fun i => encode_decode (by
    have := Nat.mul_le_mul_right size i.isLt
    rw [Nat.succ_mul] at this
    omega)

end Location

namespace RecordKind

theorem of?_append {bs : Bytes} {k : RecordKind} (extra : Bytes) (h : of? bs = some k) :
    of? (bs ++ extra) = some k := by
  rcases Nat.eq_zero_or_pos bs.size with hsize | hsize
  · rw [of?, Array.getElem?_eq_none (Nat.le_of_eq hsize)] at h
    cases h
  · rwa [of?, Array.getElem?_append_left hsize, ← of?]

theorem getD_zero {bs : Bytes} {k : RecordKind} (h : of? bs = some k) : bs.getD 0 0 = k.tag := by
  rw [of?] at h
  rw [Array.getD_eq_getD_getElem?]
  cases hb : bs[0]? with
  | none =>
    rw [hb] at h
    cases h
  | some b =>
    rw [hb] at h
    dsimp only at h
    split at h
    · rename_i hb
      cases h
      exact hb
    · split at h
      · rename_i hb
        cases h
        exact hb
      · cases h

end RecordKind

namespace Adjacency

def canonical (bs : Bytes) (a : Adjacency) : List UInt8 :=
  padded (bytesAt bs 0 1 ++ [0] ++ bytesAt bs 2 (2 + a.slots.length * Location.size))

theorem decode_eq_ok {bs : Bytes} {a : Adjacency} : decode bs = .ok a ↔
    RecordKind.of? bs = some .adjacency ∧ headerSize + field bs 2 2 * Location.size ≤ bs.size ∧
      a = ⟨Location.decodeMany bs headerSize (field bs 2 2)⟩ := by
  rw [decode]
  by_cases hkind : RecordKind.of? bs = some .adjacency
  · rw [if_neg (not_not_intro hkind)]
    by_cases hshort : bs.size < headerSize
    · rw [if_pos hshort]
      simp
      omega
    · rw [if_neg hshort]
      dsimp only
      by_cases hlen : bs.size < headerSize + field bs 2 2 * Location.size
      · rw [if_pos hlen]
        simp [Nat.not_le.mpr hlen]
      · rw [if_neg hlen]
        simp [hkind, Nat.not_lt.mp hlen, eq_comm]
  · rw [if_pos hkind]
    simp [hkind]

theorem decode_append {bs : Bytes} {a : Adjacency} (extra : Bytes) (h : decode bs = .ok a) :
    decode (bs ++ extra) = .ok a := by
  obtain ⟨hkind, hlen, rfl⟩ := decode_eq_ok.mp h
  have hcount : field (bs ++ extra) 2 2 = field bs 2 2 :=
    field_append_right extra (by rw [headerSize] at hlen; omega)
  refine decode_eq_ok.mpr ⟨RecordKind.of?_append extra hkind, ?_, ?_⟩
  · rw [hcount, Array.size_append]
    omega
  · rw [hcount, Location.decodeMany_append extra hlen]

theorem length_decode {bs : Bytes} {a : Adjacency} (h : decode bs = .ok a) :
    a.slots.length = field bs 2 2 := by
  obtain ⟨-, -, rfl⟩ := decode_eq_ok.mp h
  exact List.length_ofFn

theorem toList_encode_decode {bs : Bytes} {a : Adjacency} (h : decode bs = .ok a) :
    a.encode.toList = canonical bs a := by
  have hcount := length_decode h
  obtain ⟨hkind, hlen, ha⟩ := decode_eq_ok.mp h
  have hfield : field bs 2 2 < 65536 := field_lt bs 2 2
  rw [headerSize] at hlen
  have hslots : a.slots.flatMap Location.encode = bytesAt bs 4 (field bs 2 2 * Location.size) := by
    rw [ha]
    exact Location.flatMap_decodeMany hlen
  have htag : bytesAt bs 0 1 = [RecordKind.adjacency.tag] := by
    rw [bytesAt_one (by omega), RecordKind.getD_zero hkind]
  have hfields : (bytesAt bs 0 1 ++ [0] ++ bytesAt bs 2 (2 + field bs 2 2 * Location.size)).length =
      headerSize + field bs 2 2 * Location.size := by
    rw [List.length_append, List.length_append, length_bytesAt (by omega),
      length_bytesAt (by omega), List.length_singleton, ← Nat.add_assoc]
    rfl
  rw [canonical, toList_encode, hcount, padded_eq hfields, Nat.min_eq_left (by omega),
    encode_field (by omega), hslots, ← bytesAt_append bs _ rfl, htag]
  simp only [List.append_assoc]
  rfl

end Adjacency

namespace Element

def canonical (bs : Bytes) (e : Element) : List UInt8 :=
  padded (bytesAt bs 0 2 ++ [if bs.getD 2 0 = 0 then 0 else 1, 0] ++
    bytesAt bs 4 (88 + e.vector.length * 4))

def fields (bs : Bytes) (dimensions : Nat) : Element where
  level := bs.getD 1 0
  deleted := bs.getD 2 0 != 0
  neighborsAt := Location.decode bs 6
  rowSlots := Vector.ofFn fun i => UInt64.ofNat (field bs (12 + i * 8) 8)
  vector := List.ofFn fun i : Fin dimensions => UInt32.ofNat (field bs (headerSize + i * 4) 4)

theorem decode_eq_ok {bs : Bytes} {e : Element} : decode bs = .ok e ↔
    RecordKind.of? bs = some .element ∧ encodedSize (field bs 4 2) ≤ bs.size ∧
      e = fields bs (field bs 4 2) := by
  have hsize : headerSize ≤ encodedSize (field bs 4 2) :=
    Nat.le_trans (Nat.le_add_right _ _) (align_le _)
  rw [decode, outline]
  by_cases hkind : RecordKind.of? bs = some .element
  · rw [if_neg (not_not_intro hkind)]
    by_cases hshort : bs.size < headerSize
    · rw [if_pos hshort]
      simp
      omega
    · rw [if_neg hshort]
      dsimp only
      by_cases hlen : bs.size < encodedSize (field bs 4 2)
      · rw [if_pos hlen]
        simp [Nat.not_le.mpr hlen]
      · rw [if_neg hlen]
        simp [hkind, Nat.not_lt.mp hlen, eq_comm, fields]
  · rw [if_pos hkind]
    simp [hkind]

theorem fields_append {bs : Bytes} (extra : Bytes) {dimensions : Nat}
    (h : headerSize + dimensions * 4 ≤ bs.size) :
    fields (bs ++ extra) dimensions = fields bs dimensions := by
  rw [headerSize] at h
  have hlevel : (bs ++ extra).getD 1 0 = bs.getD 1 0 := getD_append_of_lt extra (by omega)
  have hdeleted : (bs ++ extra).getD 2 0 = bs.getD 2 0 := getD_append_of_lt extra (by omega)
  have hat : Location.decode (bs ++ extra) 6 = Location.decode bs 6 :=
    Location.decode_append extra (by rw [Location.size]; omega)
  have hrow : ∀ i : Fin rowCapacity,
      field (bs ++ extra) (12 + i * 8) 8 = field bs (12 + i * 8) 8 := fun i => by
    have hi : i.val < 10 := i.isLt
    exact field_append_right extra (by omega)
  have hcoordinate : ∀ i : Fin dimensions,
      field (bs ++ extra) (headerSize + i * 4) 4 = field bs (headerSize + i * 4) 4 := fun i => by
    have hi := i.isLt
    exact field_append_right extra (by rw [headerSize]; omega)
  simp only [fields, hlevel, hdeleted, hat, hrow, hcoordinate]

theorem decode_append {bs : Bytes} {e : Element} (extra : Bytes) (h : decode bs = .ok e) :
    decode (bs ++ extra) = .ok e := by
  obtain ⟨hkind, hlen, rfl⟩ := decode_eq_ok.mp h
  have hfits := Nat.le_trans (align_le (headerSize + field bs 4 2 * 4)) hlen
  have hcount : field (bs ++ extra) 4 2 = field bs 4 2 :=
    field_append_right extra (by rw [headerSize] at hfits; omega)
  refine decode_eq_ok.mpr ⟨RecordKind.of?_append extra hkind, ?_, ?_⟩
  · rw [hcount, Array.size_append]
    omega
  · rw [hcount, fields_append extra hfits]

theorem length_decode {bs : Bytes} {e : Element} (h : decode bs = .ok e) :
    e.vector.length = field bs 4 2 := by
  obtain ⟨-, -, rfl⟩ := decode_eq_ok.mp h
  exact List.length_ofFn

theorem flatMap_rowSlots {bs : Bytes} (dimensions : Nat) (h : headerSize ≤ bs.size) :
    (fields bs dimensions).rowSlots.toList.flatMap (fun r => LittleEndian.encode 8 r.toNat) =
      bytesAt bs 12 80 := by
  rw [headerSize] at h
  rw [fields, Vector.toList_ofFn]
  refine flatMap_ofFn (w := 8) _ _ fun i => ?_
  have hi : i.val < 10 := i.isLt
  rw [UInt64.toNat_ofNat_of_lt' (field_lt bs _ 8), encode_field (by omega)]

theorem flatMap_vector {bs : Bytes} {dimensions : Nat}
    (h : headerSize + dimensions * 4 ≤ bs.size) :
    (fields bs dimensions).vector.flatMap (fun x => LittleEndian.encode 4 x.toNat) =
      bytesAt bs headerSize (dimensions * 4) := by
  refine flatMap_ofFn (w := 4) _ _ fun i => ?_
  have hi := i.isLt
  rw [UInt32.toNat_ofNat_of_lt' (field_lt bs _ 4), encode_field (by omega)]

theorem toList_encode_decode {bs : Bytes} {e : Element} (h : decode bs = .ok e) :
    e.encode.toList = canonical bs e := by
  have hcount := length_decode h
  obtain ⟨hkind, hlen, rfl⟩ := decode_eq_ok.mp h
  have hfits := Nat.le_trans (align_le (headerSize + field bs 4 2 * 4)) hlen
  have hfield : field bs 4 2 < 65536 := field_lt bs 4 2
  have hrows := flatMap_rowSlots (field bs 4 2) (show headerSize ≤ bs.size by omega)
  have hvector := flatMap_vector hfits
  rw [headerSize] at hfits hvector
  have hstart : bytesAt bs 0 2 = [RecordKind.element.tag, bs.getD 1 0] := by
    rw [← bytesAt_append bs 1 rfl, bytesAt_one (by omega), bytesAt_one (by omega),
      RecordKind.getD_zero hkind]
    rfl
  have hat : (fields bs (field bs 4 2)).neighborsAt.encode = bytesAt bs 6 6 :=
    Location.encode_decode (by rw [Location.size]; omega)
  have hflag : (if (bs.getD 2 0 != 0) = true then 1 else 0 : UInt8) =
      if bs.getD 2 0 = 0 then 0 else 1 := by
    by_cases hzero : bs.getD 2 0 = 0
    · rw [if_pos hzero, hzero]
      rfl
    · rw [if_neg hzero, if_pos (bne_iff_ne.mpr hzero)]
  have hfront : bytesAt bs 4 (88 + field bs 4 2 * 4) = bytesAt bs 4 2 ++ (bytesAt bs 6 6 ++
      (bytesAt bs 12 80 ++ bytesAt bs 92 (field bs 4 2 * 4))) := by
    rw [bytesAt_append bs _ rfl, bytesAt_append bs _ rfl, bytesAt_append bs _ rfl]
    exact congrArg (bytesAt bs 4) (by omega)
  have hfields : (bytesAt bs 0 2 ++ [if bs.getD 2 0 = 0 then 0 else 1, 0] ++
      bytesAt bs 4 (88 + field bs 4 2 * 4)).length = headerSize + field bs 4 2 * 4 := by
    rw [List.length_append, List.length_append, length_bytesAt (by omega),
      length_bytesAt (by omega), ← Nat.add_assoc]
    rfl
  rw [canonical, toList_encode, hcount, padded_eq hfields, Nat.min_eq_left (by omega),
    encode_field (by omega), hat, hrows, hvector, hfront, hstart, ← hflag]
  simp only [List.append_assoc]
  rfl

end Element

namespace Header

def canonical (bs : Bytes) : List UInt8 :=
  bytesAt bs 0 23 ++ [0] ++ bytesAt bs 24 7 ++ [0] ++ bytesAt bs 32 4 ++ List.replicate 28 0

theorem decode_eq_ok {bs : Bytes} {h : Header} :
    decode bs = .ok h ↔ size ≤ bs.size ∧ h = fields bs := by
  rw [decode]
  by_cases hshort : bs.size < size
  · rw [if_pos hshort]
    simp [Nat.not_le.mpr hshort]
  · rw [if_neg hshort]
    simp [Nat.not_lt.mp hshort, eq_comm]

theorem fields_append {bs : Bytes} (extra : Bytes) (hlen : size ≤ bs.size) :
    fields (bs ++ extra) = fields bs := by
  rw [size] at hlen
  have hword : ∀ a w, a + w ≤ 64 → field (bs ++ extra) a w = field bs a w := fun a w ha =>
    field_append_right extra (Nat.le_trans ha hlen)
  have hbyte : ∀ i, i < 64 → (bs ++ extra).getD i 0 = bs.getD i 0 := fun i hi =>
    getD_append_of_lt extra (Nat.lt_of_lt_of_le hi hlen)
  have hmagic : ∀ i : Fin 8, (bs ++ extra).getD i 0 = bs.getD i 0 := fun i => hbyte i (by omega)
  simp only [fields, hmagic, hbyte 22 (by decide), hbyte 30 (by decide), hword 8 4 (by decide),
    hword 12 4 (by decide), hword 16 4 (by decide), hword 20 2 (by decide),
    hword 24 4 (by decide), hword 28 2 (by decide), hword 32 4 (by decide)]

theorem decode_append {bs : Bytes} {h : Header} (extra : Bytes) (hread : decode bs = .ok h) :
    decode (bs ++ extra) = .ok h := by
  obtain ⟨hlen, rfl⟩ := decode_eq_ok.mp hread
  exact decode_eq_ok.mpr ⟨by rw [Array.size_append]; omega, (fields_append extra hlen).symm⟩

theorem decode_encode (h : Header) : decode h.encode = .ok h :=
  decode_eq_ok.mpr ⟨Nat.le_of_eq h.size_encode.symm, h.fields_encode.symm⟩

theorem toList_encode_decode {bs : Bytes} {h : Header} (hread : decode bs = .ok h) :
    h.encode.toList = canonical bs := by
  obtain ⟨hlen, rfl⟩ := decode_eq_ok.mp hread
  rw [size] at hlen
  have hmagic : (fields bs).magic.toList = bytesAt bs 0 8 := by
    rw [bytesAt_eq_ofFn (by omega), fields, Vector.toList_ofFn]
    simp only [Nat.zero_add]
  have hword : ∀ a, a + 4 ≤ 64 →
      LittleEndian.encode 4 (UInt32.ofNat (field bs a 4)).toNat = bytesAt bs a 4 := fun a ha => by
    rw [UInt32.toNat_ofNat_of_lt' (field_lt bs a 4), encode_field (by omega)]
  have hshort : ∀ a, a + 2 ≤ 64 →
      LittleEndian.encode 2 (UInt16.ofNat (field bs a 2)).toNat = bytesAt bs a 2 := fun a ha => by
    rw [UInt16.toNat_ofNat_of_lt' (field_lt bs a 2), encode_field (by omega)]
  have hbyte : ∀ a, a < 64 → bytesAt bs a 1 = [bs.getD a 0] := fun a ha =>
    bytesAt_one (by omega)
  have hstatic : bytesAt bs 0 23 = bytesAt bs 0 8 ++ (bytesAt bs 8 4 ++ (bytesAt bs 12 4 ++
      (bytesAt bs 16 4 ++ (bytesAt bs 20 2 ++ bytesAt bs 22 1)))) := by
    simp only [bytesAt_append bs _ rfl]
  have hentry : bytesAt bs 24 7 = bytesAt bs 24 4 ++ (bytesAt bs 28 2 ++ bytesAt bs 30 1) := by
    simp only [bytesAt_append bs _ rfl]
  rw [toList_encode, hmagic, canonical, hstatic, hentry, hbyte 22 (by decide),
    hbyte 30 (by decide)]
  simp only [fields, hword 8 (by decide), hword 12 (by decide), hword 16 (by decide),
    hshort 20 (by decide), hword 24 (by decide), hshort 28 (by decide), hword 32 (by decide),
    List.append_assoc, List.cons_append, List.nil_append]

end Header

/-- Writing and reading one kind of value loses nothing, as long as its counts fit their fields. -/
structure Lossless {α : Type} (encode : α → Bytes) (decode : Bytes → Except Error α)
    (Fits : α → Prop) (size : α → Nat) (canonical : Bytes → α → List UInt8) : Prop where
  /-- A value is read back, whatever follows. -/
  decode_encode : ∀ x extra, Fits x → decode (encode x ++ extra) = .ok x
  size_encode : ∀ x, (encode x).size = size x
  /-- What has been read can be written. -/
  fits : ∀ bs x, decode bs = .ok x → Fits x
  encode_decode : ∀ bs x, decode bs = .ok x → (encode x).toList = canonical bs x

theorem Element.lossless : Lossless encode decode (fun e => e.vector.length ≤ 65535)
    (fun e => encodedSize e.vector.length) canonical where
  decode_encode e extra hfits := decode_append extra (e.decode_encode hfits)
  size_encode := size_encode
  fits bs e hread := by
    have hfield : field bs 4 2 < 65536 := field_lt bs 4 2
    rw [length_decode hread]
    omega
  encode_decode _ _ hread := toList_encode_decode hread

theorem Adjacency.lossless : Lossless encode decode (fun a => a.slots.length ≤ 65535)
    (fun a => align (headerSize + a.slots.length * Location.size)) canonical where
  decode_encode a extra hfits := decode_append extra (a.decode_encode hfits)
  size_encode := size_encode
  fits bs a hread := by
    have hfield : field bs 2 2 < 65536 := field_lt bs 2 2
    rw [length_decode hread]
    omega
  encode_decode _ _ hread := toList_encode_decode hread

theorem Header.lossless : Lossless encode decode (fun _ => True) (fun _ => size)
    (fun bs _ => canonical bs) where
  decode_encode h extra _ := decode_append extra h.decode_encode
  size_encode := size_encode
  fits _ _ _ := trivial
  encode_decode _ _ hread := toList_encode_decode hread

/-- All three codecs lose nothing, and no decoder of records takes the other kind of record. -/
theorem codecs_lossless :
    Lossless Element.encode Element.decode (fun e => e.vector.length ≤ 65535)
      (fun e => Element.encodedSize e.vector.length) Element.canonical ∧
    Lossless Adjacency.encode Adjacency.decode (fun a => a.slots.length ≤ 65535)
      (fun a => align (Adjacency.headerSize + a.slots.length * Location.size))
      Adjacency.canonical ∧
    Lossless Header.encode Header.decode (fun _ => True) (fun _ => Header.size)
      (fun bs _ => Header.canonical bs) ∧
    (∀ (e : Element) (extra : Bytes),
      Adjacency.decode (e.encode ++ extra) = .error .notAdjacency) ∧
    ∀ (a : Adjacency) (extra : Bytes), Element.decode (a.encode ++ extra) = .error .notElement := by
  refine ⟨Element.lossless, Adjacency.lossless, Header.lossless, fun e extra => ?_,
    fun a extra => ?_⟩
  · rw [Adjacency.decode, RecordKind.of?_append extra e.kind_encode, if_pos (by decide)]
  · rw [Element.decode, Element.outline, RecordKind.of?_append extra a.kind_encode,
      if_pos (by decide)]

/-- An element with a mark of deletion other than one, bytes in all reserved places and more bytes
behind it. -/
def untidy : Bytes := #[1, 3, 7, 9, 2, 0] ++ Array.replicate 100 5

theorem codecs_lossless_untidy :
    Element.decode untidy = .ok (Element.fields untidy 2) ∧
    (Element.fields untidy 2).encode.toList =
      [1, 3, 1, 0, 2, 0] ++ List.replicate 94 5 ++ List.replicate 4 0 ∧
    Element.decode ((Element.fields untidy 2).encode ++ #[5]) = .ok (Element.fields untidy 2) := by
  have hread : Element.decode untidy = .ok (Element.fields untidy 2) :=
    Element.decode_eq_ok.mpr ⟨by decide, by decide, rfl⟩
  have hlossless := codecs_lossless.1
  exact ⟨hread, (hlossless.encode_decode _ _ hread).trans rfl,
    hlossless.decode_encode _ _ (hlossless.fits _ _ hread)⟩

end PagedGraph
