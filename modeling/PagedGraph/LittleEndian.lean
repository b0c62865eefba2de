/-!
# Little-endian words

Numbers of a fixed width are stored least significant byte first. Encoding and decoding are
inverse to each other: `decode_encode` for every number that fits the width, `encode_decode` for
every byte string. `append` writes a number at the end of a buffer and `field` reads one from the
middle; both are explained by `encode` and `decode` on the bytes concerned.
-/

set_option autoImplicit false

namespace PagedGraph

abbrev Bytes := Array UInt8

namespace LittleEndian

def numbers : Nat → Nat
  | 0 => 1
  | w + 1 => 256 * numbers w

/-- The `w` lowest bytes of a number, least significant first. -/
def encode : Nat → Nat → List UInt8
  | 0, _ => []
  | w + 1, n => UInt8.ofNat n :: encode w (n / 256)

def decode : List UInt8 → Nat
  | [] => 0
  | b :: bs => b.toNat + 256 * decode bs

def append (out : Bytes) : Nat → Nat → Bytes
  | 0, _ => out
  | w + 1, n => append (out.push (UInt8.ofNat n)) w (n / 256)

/-- The number in the `w` bytes from offset `at_`; bytes beyond the end count as zero. -/
def field (bs : Bytes) (at_ : Nat) : Nat → Nat
  | 0 => 0
  | w + 1 => (bs.getD at_ 0).toNat + 256 * field bs (at_ + 1) w

def align (n : Nat) : Nat :=
  (n + 7) / 8 * 8

def pad (bs : Bytes) : Bytes :=
  bs ++ Array.replicate (align bs.size - bs.size) 0

@[simp] theorem length_encode (w n : Nat) : (encode w n).length = w := by
  induction w generalizing n with
  | zero => rfl
  | succ w ih => simp [encode, ih]

theorem decode_encode (w n : Nat) (h : n < numbers w) : decode (encode w n) = n := by
  induction w generalizing n with
  | zero =>
    have : n = 0 := by simpa [numbers] using h
    simp [encode, decode, this]
  | succ w ih =>
    have hq : n / 256 < numbers w := by
      rw [numbers] at h
      omega
    simp only [encode, decode, ih _ hq, UInt8.toNat_ofNat']
    omega

theorem encode_decode (bs : List UInt8) : encode bs.length (decode bs) = bs := by
  induction bs with
  | nil => rfl
  | cons b bs ih =>
    have hb := b.toNat_lt
    have hq : (b.toNat + 256 * decode bs) / 256 = decode bs := by omega
    have hr : UInt8.ofNat (b.toNat + 256 * decode bs) = b := by
      apply UInt8.toNat_inj.mp
      simp only [UInt8.toNat_ofNat']
      omega
    simp only [List.length_cons, encode, decode, hq, hr, ih]

@[simp] theorem toList_append (out : Bytes) (w n : Nat) :
    (append out w n).toList = out.toList ++ encode w n := by
  induction w generalizing out n with
  | zero => simp [append, encode]
  | succ w ih => simp [append, encode, ih]

theorem field_eq_decode (bs : Bytes) (at_ w : Nat) (h : at_ + w ≤ bs.size) :
    field bs at_ w = decode ((bs.toList.drop at_).take w) := by
  induction w generalizing at_ with
  | zero => simp [field, decode]
  | succ w ih =>
    have hlt : at_ < bs.toList.length := by
      rw [Array.length_toList]
      omega
    rw [List.drop_eq_getElem_cons hlt, List.take_succ_cons]
    simp only [field, decode, ih (at_ + 1) (by omega)]
    rw [Array.getD_eq_getD_getElem?, Array.getElem?_eq_getElem (by omega)]
    simp

@[simp] theorem size_append (out : Bytes) (w n : Nat) : (append out w n).size = out.size + w := by
  rw [← Array.length_toList, toList_append]
  simp

theorem field_append (out : Bytes) (w n : Nat) (h : n < numbers w) :
    field (append out w n) out.size w = n := by
  have ht : (encode w n).take w = encode w n := List.take_of_length_le (by simp)
  rw [field_eq_decode _ _ _ (by simp)]
  simp [← Array.length_toList, ht, decode_encode w n h]

theorem field_lt (bs : Bytes) (at_ w : Nat) : field bs at_ w < numbers w := by
  induction w generalizing at_ with
  | zero => simp [field, numbers]
  | succ w ih =>
    have hb := (bs.getD at_ 0).toNat_lt
    have := ih (at_ + 1)
    simp only [field, numbers]
    omega

end LittleEndian

end PagedGraph
