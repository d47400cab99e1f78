import KANet.Lib.Layout
import KANet.Lib.TwosComplement
import KANet.Script.Basic

/-!
# Reading a redeem script from outside

The console reads the numbers in a redeem script in two's complement and turns some of them
into doubles, while the contract wrote them with a sign.

* `reread_of_nonneg`, `reread_eq_self_iff` — which numbers come back.
* `serializeState_at` — where a field of the state lies.
-/

namespace KANet.Script

open KANet.Lib

/-- `Number(n)`: the double nearest to an integer, the even one of two. -/
def toNumber (n : Int) : Int :=
  let m := n.natAbs
  let k := m.log2 - 52
  let q := m / 2 ^ k
  let r := m % 2 ^ k
  let q := if 2 ^ k < 2 * r ∨ (2 * r = 2 ^ k ∧ q % 2 = 1) then q + 1 else q
  if n < 0 then -((q * 2 ^ k : Nat) : Int) else ((q * 2 ^ k : Nat) : Int)

/-- The integers below 2^53 are doubles. -/
theorem toNumber_of_lt {n : Int} (h : n.natAbs < 2 ^ 53) : toNumber n = n := by
  have hk : n.natAbs.log2 - 52 = 0 := by
    by_cases h0 : n.natAbs = 0
    · rw [h0]
      rfl
    · have hlog := (Nat.log2_lt h0).mpr h
      omega
  unfold toNumber
  simp only [hk, pow_zero, Nat.div_one, Nat.mod_one, mul_zero, mul_one]
  have hround : ¬ (1 < 0 ∨ 0 = 1 ∧ n.natAbs % 2 = 1) := by omega
  rw [if_neg hround]
  by_cases hn : n < 0
  · rw [if_pos hn]
    omega
  · rw [if_neg hn]
    omega

/-- `b.readBigInt64LE(off)` -/
def readBigInt64LE (b : Bytes) (off : Nat) : Option Int :=
  if off + 8 ≤ b.length then some (ofTwosComplement (slice b off 8)) else none

/-- `b.writeBigInt64LE(n)` on eight bytes. -/
def i64LE (n : Int) : Option Bytes :=
  if TwosFits 8 n then some (twosComplement 8 n) else none

theorem i64LE_of_fits {n : Int} (h : Fits 8 n) : i64LE n = some (twosComplement 8 n) :=
  if_pos h.twosFits

/-- A number, as the reader takes the bytes that the contract wrote. -/
def reread (n : Int) : Int := ofTwosComplement (signMagnitude 8 n)

theorem reread_of_nonneg {n : Int} (h0 : 0 ≤ n) (h : Fits 8 n) : reread n = n := by
  rw [reread, ofTwosComplement_signMagnitude (by norm_num) h, if_neg (not_lt.mpr h0)]

/-- One negative number is read as itself. -/
theorem reread_eq_self_iff {n : Int} (h : Fits 8 n) : reread n = n ↔ 0 ≤ n ∨ n = -2 ^ 62 := by
  rw [reread, ofTwosComplement_signMagnitude (by norm_num) h]
  by_cases hn : n < 0
  · rw [if_pos hn]
    norm_num
    omega
  · rw [if_neg hn]
    simp [not_lt.mp hn]

theorem reread_iff_alike {n : Int} (h : Fits 8 n) :
    reread n = n ↔ twosComplement 8 n = signMagnitude 8 n :=
  ofTwosComplement_signMagnitude_eq_self (by norm_num) h

/-! ### The places of the fields -/

/-- The bytes a field takes. -/
def fieldWidth : Field → Nat
  | .int _ => 9
  | .byte32 _ => 33

/-- Where field `i` begins. -/
def fieldOffset (fields : List Field) (i : Nat) : Nat := ((fields.take i).map fieldWidth).sum

theorem length_serialize {f : Field} {b : Bytes} (h : f.serialize = some b) :
    b.length = fieldWidth f := by
  cases f with
  | int n =>
    obtain ⟨bs, hbs, rfl⟩ := Option.map_eq_some_iff.mp h
    obtain ⟨-, rfl⟩ := num2bin_eq_some.mp hbs
    rw [List.length_cons, signMagnitude_length]
    rfl
  | byte32 r =>
    obtain rfl := Option.some.inj h
    rw [List.length_cons, List.Vector.toList_length]
    rfl

theorem serializeState_cons {f : Field} {fs : List Field} {bytes : Bytes} :
    serializeState (f :: fs) = some bytes ↔
      ∃ b bs, f.serialize = some b ∧ serializeState fs = some bs ∧ b ++ bs = bytes := by
  simp only [serializeState, Option.bind_eq_bind, Option.bind_eq_some_iff, Option.some.injEq]
  constructor
  · rintro ⟨b, hb, bs, hbs, h⟩
    exact ⟨b, bs, hb, hbs, h⟩
  · rintro ⟨b, bs, hb, hbs, h⟩
    exact ⟨b, hb, bs, hbs, h⟩

theorem length_serializeState {fs : List Field} {bytes : Bytes}
    (h : serializeState fs = some bytes) : bytes.length = (fs.map fieldWidth).sum := by
  induction fs generalizing bytes with
  | nil =>
    obtain rfl := Option.some.inj h
    rfl
  | cons f fs ih =>
    obtain ⟨b, bs, hb, hbs, rfl⟩ := serializeState_cons.mp h
    rw [List.length_append, length_serialize hb, ih hbs, List.map_cons, List.sum_cons]

/-- **A field is where its offset says.** -/
theorem serializeState_at {fs : List Field} {bytes : Bytes} (h : serializeState fs = some bytes)
    {i : Nat} {f : Field} (hf : fs[i]? = some f) :
    ∃ b, f.serialize = some b ∧ slice bytes (fieldOffset fs i) (fieldWidth f) = b := by
  induction fs generalizing bytes i with
  | nil => cases hf
  | cons g fs ih =>
    obtain ⟨b, bs, hb, hbs, rfl⟩ := serializeState_cons.mp h
    cases i with
    | zero =>
      obtain rfl := Option.some.inj hf
      refine ⟨b, hb, ?_⟩
      have hmid := slice_append_mid (a := []) (c := bs) rfl (length_serialize hb)
      exact hmid
    | succ i =>
      obtain ⟨b', hb', hs⟩ := ih hbs hf
      refine ⟨b', hb', ?_⟩
      have hoff : fieldOffset (g :: fs) (i + 1) = b.length + fieldOffset fs i := by
        rw [fieldOffset, List.take_succ_cons, List.map_cons, List.sum_cons, length_serialize hb]
        rfl
      rw [hoff, slice_append_right]
      exact hs

theorem serialize_int {n : Int} (h : Fits 8 n) :
    (Field.int n).serialize = some (0x08 :: signMagnitude 8 n) := by
  rw [Field.serialize, num2bin, if_pos h]
  rfl

theorem fits_of_serializeState {fs : List Field} {bytes : Bytes}
    (h : serializeState fs = some bytes) {n : Int} (hn : Field.int n ∈ fs) : Fits 8 n := by
  obtain ⟨i, hi⟩ := List.getElem?_of_mem hn
  obtain ⟨b, hb, -⟩ := serializeState_at h hi
  obtain ⟨bs, hbs, -⟩ := Option.map_eq_some_iff.mp hb
  exact (num2bin_eq_some.mp hbs).1

theorem width_words (ns : List Int) {k : Nat} (hk : k ≤ ns.length) :
    (((ns.map Field.int).take k).map fieldWidth).sum = 9 * k := by
  induction ns generalizing k with
  | nil =>
    obtain rfl := Nat.le_zero.mp hk
    rfl
  | cons n ns ih =>
    cases k with
    | zero => rfl
    | succ k =>
      rw [List.map_cons, List.take_succ_cons, List.map_cons, List.sum_cons,
        ih (Nat.le_of_succ_le_succ hk)]
      show 9 + 9 * k = 9 * (k + 1)
      ring

theorem serializeState_append {fs gs : List Field} {bytes : Bytes} :
    serializeState (fs ++ gs) = some bytes ↔
      ∃ a b, serializeState fs = some a ∧ serializeState gs = some b ∧ a ++ b = bytes := by
  induction fs generalizing bytes with
  | nil =>
    rw [List.nil_append]
    constructor
    · intro h
      exact ⟨[], bytes, rfl, h, rfl⟩
    · rintro ⟨a, b, ha, hb, rfl⟩
      obtain rfl := Option.some.inj ha
      exact hb
  | cons f fs ih =>
    rw [List.cons_append, serializeState_cons]
    simp only [ih, serializeState_cons]
    constructor
    · rintro ⟨b, bs, hb, ⟨a, c, ha, hc, rfl⟩, rfl⟩
      exact ⟨b ++ a, c, ⟨b, a, hb, ha, rfl⟩, hc, List.append_assoc _ _ _⟩
    · rintro ⟨_, c, ⟨b, a, hb, ha, rfl⟩, hc, rfl⟩
      exact ⟨b, a ++ c, hb, ⟨a, c, ha, hc, rfl⟩, (List.append_assoc _ _ _).symm⟩

end KANet.Script
