import Mathlib
import PagedGraph.Proofs.Nearest

/-!
# The numeric order of distances

Distances are kept as bit patterns, and a search compares them by `FloatBits.below`. This is the order
of the 32-bit floating-point numbers that the patterns stand for, in which both zeros are equal and a
NaN is below nothing (`below_iff_lt`).
-/

set_option autoImplicit false

namespace PagedGraph.FloatBits

open Float.Model (Format UnpackedFloat)
open Float.Model.UnpackedFloat

def sign (b : FloatBits) : Sign := if isNegative b then .negative else .positive

theorem toNat_unpackMantissa (b : FloatBits) :
    (@unpackMantissa .binary32 b.toBitVec).toNat = magnitude b % 8388608 := by
  simp [unpackMantissa, BitVec.extractLsb, magnitude, signBit]

theorem toNat_unpackExponent (b : FloatBits) :
    (@unpackExponent .binary32 b.toBitVec).toNat = magnitude b / 8388608 := by
  simp [unpackExponent, BitVec.extractLsb, magnitude, signBit, Nat.shiftRight_eq_div_pow]
  omega

theorem ofBitVec_unpackSign (b : FloatBits) :
    Sign.ofBitVec (@unpackSign .binary32 b.toBitVec) = sign b := by
  have hb := b.toNat_lt
  have htop : (@unpackSign .binary32 b.toBitVec).toNat = b.toNat / 2147483648 % 2 := by
    simp [unpackSign, BitVec.extractLsb, Nat.shiftRight_eq_div_pow]
  have hzero : @unpackSign .binary32 b.toBitVec = 0#1 ↔ ¬signBit ≤ b.toNat := by
    rw [← BitVec.toNat_inj, htop, signBit]
    show _ = 0 ↔ _
    omega
  rw [Sign.ofBitVec, sign, isNegative]
  by_cases hneg : signBit ≤ b.toNat <;> simp [hzero, hneg]

theorem toNat_one_append (v : BitVec 23) : (1#1 ++ v).toNat = v.toNat + 8388608 := by
  have hv : v.toNat < 2 ^ 23 := v.isLt
  rw [BitVec.toNat_append, BitVec.toNat_ofNat, ← Nat.shiftLeft_add_eq_or_of_lt hv,
    Nat.shiftLeft_eq, Nat.add_comm]

/-- A magnitude as a mantissa and an exponent. The mantissa has all its bits unless the exponent is
the smallest one. -/
structure Parts (magnitude mantissa exponent : Nat) : Prop where
  sum : magnitude = mantissa + exponent * 8388608
  short : mantissa < 16777216
  full : 0 < exponent → 8388608 ≤ mantissa

/-- The number that a bit pattern stands for. -/
inductive Reads (b : FloatBits) : UnpackedFloat → Prop where
  | infinity (top : magnitude b = infiniteMagnitude) : Reads b (.infinity (sign b))
  | zero (bottom : magnitude b = 0) : Reads b (.zero (sign b))
  | finite {m k : Nat} {e : Int} (pos : 0 < m) (parts : Parts (magnitude b) m k)
      (exponent : e = k - 149) (positive : 0 < magnitude b)
      (bounded : magnitude b < infiniteMagnitude) : Reads b (.finite (sign b) m e pos)

theorem reads_unpack {b : FloatBits} (h : isNaN b = false) :
    Reads b (unpack .binary32 b.toBitVec) := by
  have hexponent := toNat_unpackExponent b
  have hmantissa := toNat_unpackMantissa b
  have hb := magnitude_lt b
  have hnumber : ¬infiniteMagnitude < magnitude b := of_decide_eq_false h
  rw [signBit] at hb
  rw [infiniteMagnitude] at hnumber
  rw [unpack]
  simp only [ofBitVec_unpackSign]
  by_cases hlast : @unpackExponent .binary32 b.toBitVec = -1#8
  · rw [hlast] at hexponent
    change 255 = _ at hexponent
    have hzero : @unpackMantissa .binary32 b.toBitVec = 0#23 := by
      apply BitVec.toNat_inj.mp
      rw [hmantissa]
      show _ = 0
      omega
    rw [if_pos hlast, if_pos hzero]
    exact .infinity (show _ = 2139095040 by omega)
  · have hlt : (@unpackExponent .binary32 b.toBitVec).toNat < 256 :=
      (@unpackExponent .binary32 b.toBitVec).isLt
    have hne : (@unpackExponent .binary32 b.toBitVec).toNat ≠ 255 :=
      fun heq => hlast (BitVec.toNat_inj.mp heq)
    have hfinite : magnitude b < infiniteMagnitude := show _ < 2139095040 by omega
    rw [if_neg hlast]
    by_cases hfirst : @unpackExponent .binary32 b.toBitVec = 0#8
    · rw [if_pos hfirst]
      rw [hfirst] at hexponent ⊢
      change 0 = _ at hexponent
      split
      · next hzero =>
        rw [hzero] at hmantissa
        change 0 = _ at hmantissa
        exact .zero (by omega)
      · next hzero =>
        have hsome : (@unpackMantissa .binary32 b.toBitVec).toNat ≠ 0 :=
          fun heq => hzero (BitVec.toNat_inj.mp heq)
        exact .finite (k := 0) _ ⟨by omega, by omega, fun hpos => absurd hpos (Nat.lt_irrefl 0)⟩
          rfl (by omega) hfinite
    · rw [if_neg hfirst]
      have hpos : (@unpackExponent .binary32 b.toBitVec).toNat ≠ 0 :=
        fun heq => hfirst (BitVec.toNat_inj.mp heq)
      have happend := toNat_one_append (@unpackMantissa .binary32 b.toBitVec)
      refine .finite (k := (@unpackExponent .binary32 b.toBitVec).toNat - 1) _
        ⟨?_, ?_, fun _ => ?_⟩ ?_ (by omega) hfinite
      · rw [happend]
        omega
      · rw [happend]
        omega
      · rw [happend]
        omega
      · show ((@unpackExponent .binary32 b.toBitVec).toNat : Int) - (127 + 23) = _
        omega

theorem unpack_of_isNaNBits {v : BitVec 32} (h : @isNaNBits .binary32 v = true) :
    unpack .binary32 v = .notANumber := by
  obtain ⟨he, hm⟩ := of_decide_eq_true h
  rw [unpack]
  simp only
  rw [if_pos he, if_neg hm]

theorem isNaNBits_of_isNaN {b : FloatBits} (h : isNaN b = true) :
    @isNaNBits .binary32 b.toBitVec = true := by
  have hb := magnitude_lt b
  have hmantissa := toNat_unpackMantissa b
  have hnan : infiniteMagnitude < magnitude b := of_decide_eq_true h
  rw [infiniteMagnitude] at hnan
  rw [signBit] at hb
  refine decide_eq_true ⟨BitVec.toNat_inj.mp ?_, fun hzero => ?_⟩
  · rw [toNat_unpackExponent]
    show _ = 255
    omega
  · rw [hzero] at hmantissa
    change 0 = _ at hmantissa
    omega

section
variable {a b m n k l : Nat} (ha : Parts a m k) (hb : Parts b n l)
include ha hb

theorem Parts.lt_iff :
    (compare ((k : Int) - 149) (l - 149)).then (compare m n) = .lt ↔ a < b := by
  obtain ⟨hsum, hshort, hfull⟩ := ha
  obtain ⟨hsum', hshort', hfull'⟩ := hb
  rw [Ordering.then_eq_lt, Int.compare_eq_lt, Std.compare_eq_iff_eq, Nat.compare_eq_lt]
  omega

theorem Parts.gt_iff :
    (compare ((k : Int) - 149) (l - 149)).then (compare m n) = .gt ↔ b < a := by
  obtain ⟨hsum, hshort, hfull⟩ := ha
  obtain ⟨hsum', hshort', hfull'⟩ := hb
  rw [Ordering.then_eq_gt, Int.compare_eq_gt, Std.compare_eq_iff_eq, Nat.compare_eq_gt]
  omega

end

variable {a b : FloatBits}

theorem Reads.lt_iff {u v : UnpackedFloat} (ha : Reads a u) (hb : Reads b v) :
    u.lt v = true ↔ signed a < signed b := by
  have hinfinite : infiniteMagnitude = 2139095040 := rfl
  have hsigns : compare Sign.negative Sign.positive = .lt := rfl
  cases hna : isNegative a <;> cases hnb : isNegative b <;> cases ha <;> cases hb <;>
    simp only [UnpackedFloat.lt, UnpackedFloat.compare, signed, sign, hna, hnb, beq_iff_eq,
      Option.some.injEq, if_true, Bool.false_eq_true, if_false, reduceCtorEq, hsigns, true_iff,
      false_iff, Ordering.swap_eq_lt]
  case false.false.finite.finite parts he _ _ _ _ _ _ parts' he' _ _ =>
    rw [he, he', parts.lt_iff parts', Int.ofNat_lt]
  case true.true.finite.finite parts he _ _ _ _ _ _ parts' he' _ _ =>
    rw [he, he', parts.gt_iff parts', neg_lt_neg_iff, Int.ofNat_lt]
  -- Numbers of different signs or kinds.
  all_goals omega

theorem unpack_ofBits (b : FloatBits) :
    (Float32.ofBits b).toModel.unpack = unpack .binary32 b.toBitVec := by
  show unpack .binary32 ((unpack .binary32 b.toBitVec).pack .binary32) = _
  rw [pack_unpack]
  split
  · next hnan =>
    rw [unpack_of_isNaNBits hnan]
    rfl
  · rfl

theorem lt_ofBits_iff : Float32.ofBits a < Float32.ofBits b ↔
    (unpack .binary32 a.toBitVec).lt (unpack .binary32 b.toBitVec) = true := by
  rw [← unpack_ofBits a, ← unpack_ofBits b]
  exact decide_eq_true_iff

theorem below_iff_lt : below a b = true ↔ Float32.ofBits a < Float32.ofBits b := by
  rw [lt_ofBits_iff]
  cases ha : isNaN a with
  | true =>
    rw [unpack_of_isNaNBits (isNaNBits_of_isNaN ha)]
    simp [below, ha, UnpackedFloat.lt, UnpackedFloat.compare]
  | false =>
    cases hb : isNaN b with
    | true =>
      rw [unpack_of_isNaNBits (isNaNBits_of_isNaN hb)]
      cases unpack .binary32 a.toBitVec <;>
        simp [below, hb, UnpackedFloat.lt, UnpackedFloat.compare]
    | false => rw [below_iff ha hb, (reads_unpack ha).lt_iff (reads_unpack hb)]

end PagedGraph.FloatBits
