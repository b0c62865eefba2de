import PagedGraph.Store.File
import PagedGraph.Proofs.PageBytes
import PagedGraph.Proofs.RecordCodec

/-!
# The page that carries the header

Writing a header over a page replaces whatever header stood there and nothing else. A page with
nothing but a header on it can be addressed like any other page, but none of its slots can be read
as a record: what its first bytes make of the item array points behind the header, where all bytes
are zero.
-/

set_option autoImplicit false

namespace PagedGraph

open LittleEndian

namespace Header

theorem byte_writeTo (h : Header) (p : Page) (i : Nat) :
    (h.writeTo p).byte i = if i < size then h.encode.getD i 0 else p.byte i := by
  have hs := h.size_encode
  rw [writeTo, Page.byte_write, hs]
  by_cases hi : i < size
  · rw [if_pos hi, if_pos ⟨Nat.zero_le i, by omega, by simp only [size, pageSize] at *; omega⟩,
      Nat.sub_zero]
  · rw [if_neg hi, if_neg (by omega)]

theorem writeTo_writeTo (g h : Header) (p : Page) : h.writeTo (g.writeTo p) = h.writeTo p := by
  apply Page.ext_byte
  intro i _
  rw [byte_writeTo, byte_writeTo, byte_writeTo]
  by_cases hi : i < size
  · rw [if_pos hi, if_pos hi]
  · rw [if_neg hi, if_neg hi, if_neg hi]

theorem onPage_writeTo (h : Header) (p : Page) : onPage (h.writeTo p) = h := by
  have hslice : (h.writeTo p).slice 0 h.encode.size = h.encode := by
    apply Page.slice_eq
    · rw [size_encode]
      decide
    · intro k hk
      rw [Nat.zero_add, byte_writeTo, if_pos (by rwa [size_encode] at hk)]
  rw [size_encode] at hslice
  rw [onPage, hslice, fields_encode]

theorem getD_encode (h : Header) (i : Nat) (hi : i < 8) : h.encode.getD i 0 = h.magic[i] := by
  have hl : h.magic.toList.length = 8 := Vector.length_toList
  have hget : h.encode.toList[i]? = some h.magic[i] := by
    rw [h.toList_encode, List.getElem?_append_left (by omega), List.getElem?_eq_getElem (by omega)]
    simp
  rw [Array.getElem?_toList] at hget
  simp [Array.getD_eq_getD_getElem?, hget]

end Header

namespace Page

theorem word_two (p : Page) (a : Nat) :
    p.word a 2 = (p.byte a).toNat + 256 * (p.byte (a + 1)).toNat := by
  simp only [word, field, byte]
  omega

end Page

namespace Store

theorem onPage_metaImage (h : Header) : Header.onPage (metaImage h) = h :=
  h.onPage_writeTo _

theorem writeTo_metaImage (g h : Header) : h.writeTo (metaImage g) = metaImage h :=
  Header.writeTo_writeTo g h _

theorem byte_metaImage_of_le (h : Header) (i : Nat) (hi : Header.size ≤ i) :
    (metaImage h).byte i = 0 := by
  rw [metaImage, Header.byte_writeTo, if_neg (by omega)]
  rcases Nat.lt_or_ge i pageSize with hlt | hge
  · rw [Page.byte_of_lt _ _ hlt]
    simp
  · exact Page.byte_of_le _ _ hge

variable {h : Header}

theorem upper_metaImage (hm : h.magic = Header.indexMagic) : (metaImage h).upper = 69 := by
  rw [Page.upper, Page.word_two, metaImage, Header.byte_writeTo, Header.byte_writeTo,
    if_pos (by decide), if_pos (by decide), h.getD_encode 6 (by decide),
    h.getD_encode 7 (by decide), hm]
  rfl

theorem kind_item_metaImage (hm : h.magic = Header.indexMagic) (slot : Nat) (bs : Bytes)
    (hitem : (metaImage h).item slot = .ok bs) : RecordKind.of? bs = none := by
  rw [Page.item] at hitem
  cases hid : (metaImage h).itemId slot with
  | error e => simp [hid, Except.map] at hitem
  | ok place =>
    obtain ⟨offset, len⟩ := place
    obtain rfl : (metaImage h).slice offset len = bs := by simpa [hid, Except.map] using hitem
    have hoffset : 69 ≤ offset := by
      simp only [Page.itemId, upper_metaImage hm] at hid
      split at hid
      · cases hid
      · split at hid
        · cases hid
        · split at hid
          · cases hid
          · have := (Prod.mk.inj (Except.ok.inj hid)).1
            omega
    cases len with
    | zero =>
      have hnone : ((metaImage h).slice offset 0)[0]? = none := by
        apply Array.getElem?_eq_none
        simp only [Page.slice, Array.size_extract]
        omega
      rw [RecordKind.of?, hnone]
    | succ len =>
      have hzero := Page.getD_slice (metaImage h) offset (len + 1) 0 (by omega)
      rw [byte_metaImage_of_le _ _ (by simp only [Header.size]; omega)] at hzero
      rw [Array.getD_eq_getD_getElem?] at hzero
      rw [RecordKind.of?]
      cases hget : ((metaImage h).slice offset (len + 1))[0]? with
      | none => rfl
      | some b =>
        rw [hget] at hzero
        obtain rfl : b = 0 := hzero
        rfl

end Store

end PagedGraph
