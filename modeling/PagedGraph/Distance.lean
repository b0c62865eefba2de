import PagedGraph.Record.Element

/-!
# Distances between embeddings

Every metric answers with a number that is smaller for closer vectors. All arithmetic is that of
32-bit floating-point numbers, coordinate by coordinate from the left; a sum starts from negative
zero, so the sum of no terms is negative zero.

Distances, like coordinates, are kept as bit patterns. Two orders are used on them. `below` is the
numeric order: both zeros are equal, and a NaN is below nothing and above nothing. `orderKey` is a
total order on all bit patterns which refines the numeric one: negative zero comes before positive
zero, and the NaNs come last on the side of their sign.
-/

set_option autoImplicit false

namespace PagedGraph

/-- The bit pattern of a 32-bit floating-point number. -/
abbrev FloatBits := UInt32

namespace FloatBits

def signBit : Nat := 2147483648

def magnitude (b : FloatBits) : Nat := b.toNat % signBit

def isNegative (b : FloatBits) : Bool := signBit ≤ b.toNat

/-- The magnitude of infinity; every larger one is that of a NaN. -/
def infiniteMagnitude : Nat := 2139095040

def isNaN (b : FloatBits) : Bool := infiniteMagnitude < magnitude b

def isFinite (b : FloatBits) : Bool := magnitude b < infiniteMagnitude

def infinity : FloatBits := UInt32.ofNat infiniteMagnitude

/-- The magnitude with its sign: on numbers, smaller values have smaller ones. -/
def signed (b : FloatBits) : Int := if isNegative b then -(magnitude b : Int) else magnitude b

def below (a b : FloatBits) : Bool := !isNaN a && !isNaN b && signed a < signed b

/-- A key for the total order on all bit patterns. -/
def orderKey (b : FloatBits) : Nat :=
  if isNegative b then signBit - 1 - magnitude b else signBit + magnitude b

theorem magnitude_lt (b : FloatBits) : magnitude b < signBit :=
  Nat.mod_lt _ (by decide)

theorem eq_of_sign_of_magnitude {a b : FloatBits} (hs : isNegative a = isNegative b)
    (hm : magnitude a = magnitude b) : a = b := by
  have ha := a.toNat_lt
  have hb := b.toNat_lt
  have hi : signBit ≤ a.toNat ↔ signBit ≤ b.toNat := by
    simpa only [isNegative, decide_eq_decide] using hs
  apply UInt32.toNat_inj.mp
  simp only [magnitude, signBit] at hm hi
  omega

theorem orderKey_inj {a b : FloatBits} (h : orderKey a = orderKey b) : a = b := by
  have ha := magnitude_lt a
  have hb := magnitude_lt b
  cases na : isNegative a <;> cases nb : isNegative b <;>
    simp only [orderKey, na, nb, if_true, Bool.false_eq_true, if_false] at h
  · exact eq_of_sign_of_magnitude (na.trans nb.symm) (by omega)
  · omega
  · omega
  · exact eq_of_sign_of_magnitude (na.trans nb.symm) (by omega)

theorem orderKey_lt_of_below {a b : FloatBits} (h : below a b = true) :
    orderKey a < orderKey b := by
  have ha := magnitude_lt a
  have hb := magnitude_lt b
  have hs : signed a < signed b := by
    simp only [below, Bool.and_eq_true, decide_eq_true_eq] at h
    exact h.2
  cases na : isNegative a <;> cases nb : isNegative b <;>
    simp only [signed, orderKey, na, nb, if_true, Bool.false_eq_true, if_false] at hs ⊢ <;> omega

end FloatBits

namespace Embedding

/-- The sum of terms made of the coordinates of two embeddings, added to `total` from the left. -/
@[specialize] def sumOver (term : Float32 → Float32 → Float32) (total : Float32) :
    Embedding → Embedding → Float32
  | x :: xs, y :: ys =>
    sumOver term (total + term (Float32.ofBits x) (Float32.ofBits y)) xs ys
  | _, _ => total

/-- Where every sum starts. -/
def negativeZero : Float32 := Float32.ofBits 2147483648

def dotProduct (a b : Embedding) : Float32 := sumOver (fun x y => x * y) negativeZero a b

def euclideanDistance (a b : Embedding) : Float32 :=
  (sumOver (fun x y => (x - y) * (x - y)) negativeZero a b).sqrt

def norm (a : Embedding) : Float32 := (dotProduct a a).sqrt

/-- One minus the cosine of the angle, one if a vector has no direction. -/
def cosineDistance (a b : Embedding) : Float32 :=
  let normA := norm a
  let normB := norm b
  if normA == 0.0 || normB == 0.0 then 1.0 else 1.0 - dotProduct a b / (normA * normB)

/-- A vector of length one in the same direction; none if the length is zero or not finite. -/
def normalize (a : Embedding) : Option Embedding :=
  let length := norm a
  if length == 0.0 || !FloatBits.isFinite length.toBits then none
  else some (a.map fun x => (Float32.ofBits x / length).toBits)

end Embedding

inductive Metric where
  | euclidean
  | cosine
  | innerProduct
  deriving DecidableEq, Repr

namespace Metric

def tag : Metric → UInt8
  | euclidean => 0
  | cosine => 1
  | innerProduct => 2

def ofTag? (tag : UInt8) : Option Metric :=
  if tag = 0 then some euclidean
  else if tag = 1 then some cosine
  else if tag = 2 then some innerProduct
  else none

/-- Whether vectors are scaled to length one before they are stored. -/
def normalizes : Metric → Bool
  | cosine => true
  | _ => false

def distance (metric : Metric) (a b : Embedding) : FloatBits :=
  match metric with
  | euclidean => (Embedding.euclideanDistance a b).toBits
  | cosine => (Embedding.cosineDistance a b).toBits
  | innerProduct => (-Embedding.dotProduct a b).toBits

end Metric

end PagedGraph
