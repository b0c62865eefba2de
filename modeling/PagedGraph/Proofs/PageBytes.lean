import PagedGraph.Page

/-!
# Bytes and words of a page

A write changes the bytes that it covers and no others; words and slices elsewhere on the page
keep their values. Everything that later modules say about page images is derived from these
frame laws, never from the loop that performs a write.
-/

set_option autoImplicit false

namespace PagedGraph

namespace LittleEndian

theorem field_shift (bs cs : Bytes) (i j w : Nat)
    (h : ∀ k < w, bs.getD (i + k) 0 = cs.getD (j + k) 0) : field bs i w = field cs j w := by
  induction w generalizing i j with
  | zero => rfl
  | succ w ih =>
    have h0 : bs.getD i 0 = cs.getD j 0 := h 0 (Nat.succ_pos w)
    have ht : field bs (i + 1) w = field cs (j + 1) w := by
      apply ih
      intro k hk
      have := h (k + 1) (by omega)
      rwa [Nat.add_comm k 1, ← Nat.add_assoc, ← Nat.add_assoc] at this
    rw [field, field, h0, ht]

end LittleEndian

namespace Page
open LittleEndian

def byte (p : Page) (i : Nat) : UInt8 := p.bytes.toArray.getD i 0

theorem byte_of_lt (p : Page) (i : Nat) (h : i < pageSize) : p.byte i = p.bytes[i] := by
  have hs : i < p.bytes.toArray.size := by rwa [Vector.size_toArray]
  simp only [byte, Array.getD_eq_getD_getElem?, Array.getElem?_eq_getElem hs, Option.getD_some]
  rfl

theorem byte_of_le (p : Page) (i : Nat) (h : pageSize ≤ i) : p.byte i = 0 := by
  have hs : p.bytes.toArray.size ≤ i := by rwa [Vector.size_toArray]
  simp [byte, Array.getD_eq_getD_getElem?, Array.getElem?_eq_none hs]

theorem ext_byte (p q : Page) (h : ∀ i < pageSize, p.byte i = q.byte i) : p = q := by
  obtain ⟨pb⟩ := p
  obtain ⟨qb⟩ := q
  congr 1
  apply Vector.ext
  intro i hi
  have := h i hi
  rwa [byte_of_lt _ _ hi, byte_of_lt _ _ hi] at this

theorem byte_write (p : Page) (a : Nat) (bs : Bytes) (i : Nat) :
    (p.write a bs).byte i =
      if a ≤ i ∧ i < a + bs.size ∧ i < pageSize then bs.getD (i - a) 0 else p.byte i := by
  by_cases hi : i < pageSize
  · rw [byte_of_lt _ _ hi, byte_of_lt _ _ hi, getElem_write p a bs i hi]
    by_cases hk : a ≤ i ∧ i - a < bs.size
    · rw [dif_pos hk, if_pos ⟨hk.1, by omega, hi⟩, Array.getD_eq_getD_getElem?,
        Array.getElem?_eq_getElem hk.2]
      rfl
    · rw [dif_neg hk, if_neg (by omega)]
  · rw [byte_of_le _ _ (by omega), byte_of_le _ _ (by omega), if_neg (by omega)]

theorem byte_write_inside (p : Page) (a : Nat) (bs : Bytes) (k : Nat) (hk : k < bs.size)
    (h : a + bs.size ≤ pageSize) : (p.write a bs).byte (a + k) = bs.getD k 0 := by
  rw [byte_write, if_pos ⟨by omega, by omega, by omega⟩, Nat.add_sub_cancel_left]

theorem byte_write_outside (p : Page) (a : Nat) (bs : Bytes) (i : Nat)
    (h : i < a ∨ a + bs.size ≤ i) : (p.write a bs).byte i = p.byte i := by
  rw [byte_write, if_neg (by omega)]

theorem word_congr (p q : Page) (a w : Nat) (h : ∀ k < w, p.byte (a + k) = q.byte (a + k)) :
    p.word a w = q.word a w :=
  field_shift _ _ a a w h

theorem word_write_outside (p : Page) (b : Nat) (bs : Bytes) (a w : Nat)
    (h : a + w ≤ b ∨ b + bs.size ≤ a) : (p.write b bs).word a w = p.word a w := by
  apply word_congr
  intro k hk
  exact byte_write_outside _ _ _ _ (by omega)

theorem byte_setWord_outside (p : Page) (b v n i : Nat) (h : i < b ∨ b + v ≤ i) :
    (p.setWord b v n).byte i = p.byte i :=
  byte_write_outside _ _ _ _ (by simpa using h)

theorem word_setWord_outside (p : Page) (b v n a w : Nat) (h : a + w ≤ b ∨ b + v ≤ a) :
    (p.setWord b v n).word a w = p.word a w :=
  word_write_outside _ _ _ _ _ (by simpa using h)

theorem word_setWord (p : Page) (a w n : Nat) (h : a + w ≤ pageSize) (hn : n < numbers w) :
    (p.setWord a w n).word a w = n := by
  have hf : field (LittleEndian.append #[] w n) 0 w = n := field_append #[] w n hn
  refine Eq.trans (field_shift _ _ a 0 w fun k hk => ?_) hf
  rw [Nat.zero_add]
  exact byte_write_inside p a (LittleEndian.append #[] w n) k (by simpa using hk) (by simpa using h)

theorem size_slice (p : Page) (a len : Nat) (h : a + len ≤ pageSize) :
    (p.slice a len).size = len := by
  simp only [slice, Array.size_extract, Vector.size_toArray]
  omega

theorem getD_slice (p : Page) (a len k : Nat) (hk : k < len) :
    (p.slice a len).getD k 0 = p.byte (a + k) := by
  simp only [slice, byte, Array.getD_eq_getD_getElem?]
  rw [Array.getElem?_extract]
  by_cases h : k < min (a + len) p.bytes.toArray.size - a
  · rw [if_pos h]
  · rw [if_neg h, Array.getElem?_eq_none (by omega)]

theorem slice_eq (p : Page) (a : Nat) (bs : Bytes) (h : a + bs.size ≤ pageSize)
    (hb : ∀ k < bs.size, p.byte (a + k) = bs.getD k 0) : p.slice a bs.size = bs := by
  apply Array.ext
  · exact size_slice p a _ h
  · intro k hk hk'
    have hg := getD_slice p a bs.size k hk'
    rw [hb k hk'] at hg
    simpa [Array.getD_eq_getD_getElem?, Array.getElem?_eq_getElem hk,
      Array.getElem?_eq_getElem hk'] using hg

theorem slice_congr {p q : Page} {start len : Nat} (hend : start + len ≤ pageSize)
    (h : ∀ i, start ≤ i → i < start + len → q.byte i = p.byte i) :
    q.slice start len = p.slice start len := by
  have hsize := size_slice p start len hend
  have heq := slice_eq q start (p.slice start len) (by omega) fun k hk => by
    rw [hsize] at hk
    rw [getD_slice p start len k hk]
    exact h _ (Nat.le_add_right _ _) (by omega)
  rwa [hsize] at heq

end Page

end PagedGraph
