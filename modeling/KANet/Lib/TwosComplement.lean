import KANet.Lib.SignMagnitude
import KANet.Lib.Bitmap
import Mathlib.Data.Int.Bitwise

/-!
# Two's complement beside sign-magnitude

One side of a system writes integers with their sign in the top bit, the other reads them
in two's complement.  The encodings agree on what is not negative, and on exactly one
negative number.

* `ofTwosComplement_twosComplement` — reading what was written gives the number back.
* `twosComplement_eq_signMagnitude` — the encodings agree from zero on.
* `ofTwosComplement_signMagnitude` — what a number written with a sign is read as.
* `lor_two_pow` — setting a clear bit is adding its mask, whatever the sign.
-/

namespace KANet.Lib

/-- `n` in two's complement, the low byte first. -/
def twosComplement (size : Nat) (n : Int) : List UInt8 :=
  leBytes size (n % (256 ^ size : Nat)).toNat

/-- The number a two's complement string stands for. -/
def ofTwosComplement (bs : List UInt8) : Int :=
  if ofLeBytes bs < 2 ^ (8 * bs.length - 1) then (ofLeBytes bs : Int)
  else (ofLeBytes bs : Int) - (256 ^ bs.length : Nat)

/-- `n` is a number that `size` bytes hold in two's complement. -/
def TwosFits (size : Nat) (n : Int) : Prop :=
  -(2 ^ (8 * size - 1) : Nat) ≤ n ∧ n < (2 ^ (8 * size - 1) : Nat)

instance (size : Nat) (n : Int) : Decidable (TwosFits size n) :=
  inferInstanceAs (Decidable (_ ∧ _))

@[simp] theorem twosComplement_length (size : Nat) (n : Int) :
    (twosComplement size n).length = size := leBytes_length _ _

theorem ofTwosComplement_twosComplement {size : Nat} {n : Int} (hs : 0 < size)
    (h : TwosFits size n) : ofTwosComplement (twosComplement size n) = n := by
  have hw := two_pow_add_self hs
  obtain ⟨hlo, hhi⟩ := h
  have hv : ofLeBytes (twosComplement size n) = (n % (256 ^ size : Nat)).toNat := by
    apply ofLeBytes_leBytes
    omega
  unfold ofTwosComplement
  rw [twosComplement_length, hv]
  by_cases hn : 0 ≤ n
  · have hmod : n % (256 ^ size : Nat) = n := Int.emod_eq_of_lt hn (by omega)
    rw [hmod, if_pos (by omega)]
    omega
  · have hmod : n % (256 ^ size : Nat) = n + (256 ^ size : Nat) := by
      rw [← Int.add_emod_right, Int.emod_eq_of_lt (by omega) (by omega)]
    rw [hmod, if_neg (by omega)]
    omega

theorem leBytes_ofLeBytes (bs : List UInt8) : leBytes bs.length (ofLeBytes bs) = bs := by
  induction bs with
  | nil => rfl
  | cons b bs ih =>
    have hb : b.toNat < 256 := b.toNat_lt
    have hdiv : (b.toNat + 256 * ofLeBytes bs) / 256 = ofLeBytes bs := by omega
    have hlow : UInt8.ofNat (b.toNat + 256 * ofLeBytes bs) = b := by
      apply UInt8.toNat_inj.mp
      rw [UInt8.toNat_ofNat']
      omega
    rw [ofLeBytes, List.length_cons, leBytes, hdiv, hlow, ih]

/-- Writing what was read gives the bytes back. -/
theorem twosComplement_ofTwosComplement (bs : List UInt8) :
    twosComplement bs.length (ofTwosComplement bs) = bs := by
  have hlt := ofLeBytes_lt bs
  have hmod : (ofTwosComplement bs % (256 ^ bs.length : Nat)).toNat = ofLeBytes bs := by
    unfold ofTwosComplement
    by_cases h : ofLeBytes bs < 2 ^ (8 * bs.length - 1)
    · rw [if_pos h, Int.emod_eq_of_lt (by omega) (by omega)]
      rfl
    · rw [if_neg h, Int.sub_emod_right, Int.emod_eq_of_lt (by omega) (by omega)]
      rfl
  rw [twosComplement, hmod, leBytes_ofLeBytes]

/-- **From zero on the two encodings are one.** -/
theorem twosComplement_eq_signMagnitude {size : Nat} {n : Int} (hs : 0 < size) (h0 : 0 ≤ n)
    (h : Fits size n) : twosComplement size n = signMagnitude size n := by
  have hw := two_pow_add_self hs
  unfold Fits at h
  have hmod : n % (256 ^ size : Nat) = n := Int.emod_eq_of_lt h0 (by omega)
  rw [twosComplement, signMagnitude, hmod, if_neg (by omega), Nat.add_zero]
  congr 1
  omega

/-- **What is read of a number written with a sign.** -/
theorem ofTwosComplement_signMagnitude {size : Nat} {n : Int} (hs : 0 < size)
    (h : Fits size n) : ofTwosComplement (signMagnitude size n) =
      if n < 0 then -n - (2 ^ (8 * size - 1) : Nat) else n := by
  have hw := two_pow_add_self hs
  unfold Fits at h
  unfold ofTwosComplement
  rw [signMagnitude_length]
  by_cases hn : n < 0
  · have hv : ofLeBytes (signMagnitude size n) = n.natAbs + 2 ^ (8 * size - 1) := by
      rw [signMagnitude, if_pos hn]
      exact ofLeBytes_leBytes (by omega)
    rw [hv, if_neg (by omega), if_pos hn]
    omega
  · have hv : ofLeBytes (signMagnitude size n) = n.natAbs := by
      rw [signMagnitude, if_neg hn]
      exact ofLeBytes_leBytes (by omega)
    rw [hv, if_pos h, if_neg hn]
    omega

theorem Fits.twosFits {size : Nat} {n : Int} (h : Fits size n) : TwosFits size n := by
  unfold Fits at h
  unfold TwosFits
  omega

/-- A number is read as it was written where the encodings agree. -/
theorem ofTwosComplement_signMagnitude_eq_self {size : Nat} {n : Int} (hs : 0 < size)
    (h : Fits size n) : ofTwosComplement (signMagnitude size n) = n ↔
      twosComplement size n = signMagnitude size n := by
  constructor
  · intro heq
    have hback := twosComplement_ofTwosComplement (signMagnitude size n)
    rwa [signMagnitude_length, heq] at hback
  · intro heq
    rw [← heq, ofTwosComplement_twosComplement hs h.twosFits]

/-! ### Bits -/

/-- **Setting a clear bit is adding its mask.** -/
theorem lor_two_pow {w : Int} {b : Nat} (h : w / 2 ^ b % 2 = 0) :
    Int.lor w (2 ^ b) = w + 2 ^ b := by
  have hpow : (2 : Int) ^ b = ((2 ^ b : Nat) : Int) := by push_cast; rfl
  cases w with
  | ofNat m =>
    have hm : m / 2 ^ b % 2 = 0 := by
      rw [hpow, Int.ofNat_eq_natCast] at h
      exact_mod_cast h
    have hor : m ||| 2 ^ b = m + 2 ^ b := by
      apply Nat.eq_of_testBit_eq
      intro i
      rw [Nat.testBit_or, testBit_add_two_pow hm, Nat.testBit_two_pow, Bool.or_comm]
      simp only [eq_comm]
    rw [hpow]
    show ((m ||| 2 ^ b : Nat) : Int) = _
    rw [hor]
    push_cast
    rfl
  | negSucc m =>
    -- the bit is clear in the number where it is set in the complement
    have hpos : 0 < 2 ^ b := Nat.two_pow_pos b
    have hdiv : Int.negSucc m / ((2 ^ b : Nat) : Int) = -((m / 2 ^ b : Nat) : Int) - 1 := by
      rw [Int.negSucc_ediv _ (by exact_mod_cast hpos)]
      show -((m : Int) / ((2 ^ b : Nat) : Int) + 1) = _
      push_cast
      ring
    have hm : m / 2 ^ b % 2 = 1 := by
      rw [hpow, hdiv] at h
      omega
    have hset : m.testBit b = true := by
      rw [Nat.testBit_eq_decide_div_mod_eq]
      exact decide_eq_true hm
    have hle : 2 ^ b ≤ m := Nat.ge_two_pow_of_testBit hset
    have hrest : (m - 2 ^ b) / 2 ^ b % 2 = 0 := by
      have hsub : (m - 2 ^ b) / 2 ^ b = m / 2 ^ b - 1 := by
        have := Nat.sub_mul_div m (2 ^ b) 1
        rwa [Nat.mul_one] at this
      rw [hsub]
      omega
    have hdiff : Nat.ldiff m (2 ^ b) = m - 2 ^ b := by
      apply Nat.eq_of_testBit_eq
      intro i
      have hback := testBit_add_two_pow hrest i
      rw [Nat.sub_add_cancel hle] at hback
      rw [Nat.testBit_ldiff, hback, Nat.testBit_two_pow]
      by_cases hi : i = b
      · subst hi
        rw [testBit_eq_false_iff.mpr hrest]
        simp
      · have hi' : b ≠ i := fun e => hi e.symm
        simp [hi, hi']
    rw [hpow]
    show Int.negSucc (Nat.ldiff m (2 ^ b)) = _
    rw [hdiff]
    omega

end KANet.Lib
