import Mathlib.Data.Nat.Basic
import Mathlib.Tactic.Ring
import Mathlib.Tactic.NormNum

/-!
# Fixed-width sign-magnitude integers

A script engine that stores integers as bytes writes them least significant byte
first, in a fixed width, with the sign in the top bit of the last byte.  `leBytes`
is the unsigned half of that and `signMagnitude` the whole; both are undone by
their readers as long as the number fits, which is what makes two equal encodings
encodings of the same number.

* `ofLeBytes_leBytes` — reading what was written gives the number back.
* `ofSignMagnitude_signMagnitude` — the same with a sign.
* `signMagnitude_inj` — so the encoding is injective on the numbers that fit.
-/

namespace KANet.Lib

/-! ### Unsigned numbers -/

/-- The `size` low bytes of `n`, least significant first. -/
def leBytes : Nat → Nat → List UInt8
  | 0, _ => []
  | size + 1, n => UInt8.ofNat n :: leBytes size (n / 256)

/-- The number whose bytes, least significant first, are given. -/
def ofLeBytes : List UInt8 → Nat
  | [] => 0
  | b :: bs => b.toNat + 256 * ofLeBytes bs

@[simp] theorem leBytes_length (size n : Nat) : (leBytes size n).length = size := by
  induction size generalizing n with
  | zero => rfl
  | succ size ih => rw [leBytes, List.length_cons, ih]

theorem ofLeBytes_leBytes {size n : Nat} (h : n < 256 ^ size) :
    ofLeBytes (leBytes size n) = n := by
  induction size generalizing n with
  | zero =>
    rw [pow_zero] at h
    rw [leBytes, ofLeBytes]
    omega
  | succ size ih =>
    have hq : n / 256 < 256 ^ size := by
      rw [pow_succ] at h
      omega
    have hb : (UInt8.ofNat n).toNat = n % 256 := UInt8.toNat_ofNat'
    rw [leBytes, ofLeBytes, ih hq, hb]
    omega

theorem ofLeBytes_lt (bs : List UInt8) : ofLeBytes bs < 256 ^ bs.length := by
  induction bs with
  | nil => simp [ofLeBytes]
  | cons b bs ih =>
    have hb : b.toNat < 256 := b.toNat_lt
    rw [ofLeBytes, List.length_cons, pow_succ]
    omega

/-! ### Signed numbers -/

/-- `n` fits a sign and `8 * size - 1` bits of magnitude. -/
def Fits (size : Nat) (n : Int) : Prop := n.natAbs < 2 ^ (8 * size - 1)

instance (size : Nat) (n : Int) : Decidable (Fits size n) :=
  inferInstanceAs (Decidable (n.natAbs < _))

/-- The magnitude of `n`, little endian, with the sign in the top bit. -/
def signMagnitude (size : Nat) (n : Int) : List UInt8 :=
  leBytes size (n.natAbs + if n < 0 then 2 ^ (8 * size - 1) else 0)

/-- The number a sign-magnitude string stands for. -/
def ofSignMagnitude (bs : List UInt8) : Int :=
  let top := 2 ^ (8 * bs.length - 1)
  if ofLeBytes bs < top then (ofLeBytes bs : Int) else -((ofLeBytes bs - top : Nat) : Int)

@[simp] theorem signMagnitude_length (size : Nat) (n : Int) :
    (signMagnitude size n).length = size := leBytes_length _ _

theorem two_pow_add_self {size : Nat} (h : 0 < size) :
    2 ^ (8 * size - 1) + 2 ^ (8 * size - 1) = 256 ^ size := by
  obtain ⟨k, rfl⟩ : ∃ k, size = k + 1 := ⟨size - 1, by omega⟩
  have he : 8 * (k + 1) - 1 = 8 * k + 7 := by omega
  rw [he, show (256 : Nat) = 2 ^ 8 by norm_num, ← pow_mul]
  ring

theorem ofSignMagnitude_signMagnitude {size : Nat} {n : Int} (hs : 0 < size)
    (h : Fits size n) : ofSignMagnitude (signMagnitude size n) = n := by
  have hw := two_pow_add_self hs
  unfold Fits at h
  unfold ofSignMagnitude
  rw [signMagnitude_length]
  by_cases hn : n < 0
  · have hv : ofLeBytes (signMagnitude size n) = n.natAbs + 2 ^ (8 * size - 1) := by
      rw [signMagnitude, if_pos hn]
      exact ofLeBytes_leBytes (by omega)
    simp only [hv]
    rw [if_neg (by omega)]
    omega
  · have hv : ofLeBytes (signMagnitude size n) = n.natAbs := by
      rw [signMagnitude, if_neg hn]
      exact ofLeBytes_leBytes (by omega)
    simp only [hv]
    rw [if_pos h]
    omega

/-- Two numbers that fit and have the same encoding are the same number. -/
theorem signMagnitude_inj {size : Nat} {m n : Int} (hs : 0 < size) (hm : Fits size m)
    (hn : Fits size n) (h : signMagnitude size m = signMagnitude size n) : m = n := by
  rw [← ofSignMagnitude_signMagnitude hs hm, h, ofSignMagnitude_signMagnitude hs hn]

end KANet.Lib
