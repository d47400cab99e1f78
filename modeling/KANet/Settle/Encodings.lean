import KANet.Register.LeafBuilder
import KANet.Script.Pushes
import KANet.Settle.CloseBinding
import KANet.Zk.ClaimBuilder
import Mathlib.Data.List.ModifyLast

/-!
# One encoding of integers

Whoever writes a number for a script writes eight bytes, the low one first, with the sign in
the top bit of the last.  The loops are four: that of `pool-payout-root.mjs`, the guest's, the
one that the committee's check and the relay have in common, and the registration's, which
writes two's complement.  A state is its fields in such numbers, each behind a push.

* `serializeI64_eq_num2bin` — the first loop writes script numbers, of either sign.
* `guest_serialize_i64_eq`, `enforceI64LE_eq` — so do the others.
* `readFields_serializeState` — what was written is read.
* `decodeV1State_redeem`, `readPayoutShardV2AttestedState_redeem` — by the console's readers too.
-/

namespace KANet.Settle

open KANet.Lib KANet.Script KANet.Covenant KANet.Payout
open KANet.Zk (bytes32 readAll readAll_eq_some)

/-! ### The loops -/

/-- The loop of `serialize_i64`: bytes are pushed, and a last one if the top bit is taken. -/
def guestLoop (positive : Nat) (bytes : Bytes) (last_saturated : Bool) : Bytes :=
  if positive = 0 then
    if last_saturated then bytes ++ [0] else bytes
  else
    let v := UInt8.ofNat (positive &&& 0xff)
    guestLoop (positive >>> 8) (bytes ++ [v]) (v &&& 0x80 ≠ 0)
termination_by positive
decreasing_by
  rw [Nat.shiftRight_eq_div_pow]
  exact Nat.div_lt_self (Nat.pos_of_ne_zero ‹_›) (by norm_num)

/-- `assert!(bytes.len() <= sz)`, and zeros up to there. -/
def padTo (size : Option Nat) (bytes : Bytes) : Option Bytes :=
  match size with
  | some sz =>
    if bytes.length ≤ sz then some (bytes ++ List.replicate (sz - bytes.length) 0) else none
  | none => some bytes

/-- `serialize_i64` of the guest. -/
def guest_serialize_i64 (num : Int) (size : Option Nat) : Option Bytes := do
  let bytes ← padTo size (guestLoop num.natAbs [] false)
  some (if num < 0 then bytes.modify (bytes.length - 1) (· ||| 0x80) else bytes)

/-- `for (let i = 0; i < 8; i++)`: the bytes of a magnitude, as many as there are turns. -/
def fillLoop : Nat → Nat → Bytes
  | 0, _ => []
  | turns + 1, mag => UInt8.ofNat (mag &&& 0xff) :: fillLoop turns (mag >>> 8)

/-- `_i64LE` of the committee's check, and of the relay. -/
def enforceI64LE (n : Int) : Option Bytes := do
  let mag := n.natAbs
  require (mag < 1 <<< 63)
  let b := fillLoop 8 mag
  some (if n < 0 then b.modify 7 (· ||| 0x80) else b)

/-! ### Signs -/

/-- The top bit of the byte that is pushed is that of the number. -/
theorem ofNat_and_top (n : Nat) : UInt8.ofNat n &&& 0x80 = 0 ↔ n &&& 0x80 = 0 := by
  rw [and_top_bit, ← UInt8.toNat_inj, UInt8.toNat_and, UInt8.toNat_ofNat']
  show n % 256 &&& 0x80 = 0 ↔ _
  rw [and_top_bit, Nat.mod_mod]

/-- The top bit of a byte that has it clear. -/
theorem ofNat_or_top {n : Nat} (h : n < 128) : UInt8.ofNat n ||| 0x80 = UInt8.ofNat (n + 128) := by
  have hall : ∀ n < 128, UInt8.ofNat n ||| 0x80 = UInt8.ofNat (n + 128) := by decide
  exact hall n h

theorem fillLoop_eq (turns mag : Nat) : fillLoop turns mag = leBytes turns mag := by
  induction turns generalizing mag with
  | zero => rfl
  | succ turns ih =>
    rw [fillLoop, ofNat_and_ff, ih, Nat.shiftRight_eq_div_pow, leBytes]

theorem guestLoop_eq (positive : Nat) (bytes : Bytes) (sat : Bool) :
    guestLoop positive bytes sat = bytes ++ magnitudeLoop positive sat := by
  induction positive using Nat.strongRecOn generalizing bytes sat with
  | ind positive ih =>
    rw [guestLoop, magnitudeLoop]
    by_cases h : positive = 0
    · rw [if_pos h, if_pos h]
      cases sat
      · exact (List.append_nil bytes).symm
      · rfl
    · rw [if_neg h, if_neg h]
      have hlt : positive >>> 8 < positive := by
        rw [Nat.shiftRight_eq_div_pow]
        exact Nat.div_lt_self (Nat.pos_of_ne_zero h) (by norm_num)
      simp only [ofNat_and_ff, ne_eq, ofNat_and_top]
      rw [ih _ hlt, List.append_assoc]
      rfl

theorem modify_last (l : Bytes) (f : UInt8 → UInt8) :
    l.modify (l.length - 1) f = l.modifyLast f := by
  induction l using List.reverseRecOn with
  | nil => rfl
  | append_singleton l a ih =>
    rw [List.length_append, List.length_singleton, Nat.add_sub_cancel, List.modifyLast_concat,
      List.modify_eq_take_drop, List.take_left, List.drop_left]
    rfl

/-- **Setting the sign adds its weight.** -/
theorem setSign_leBytes {size m : Nat} (h : m < 2 ^ (8 * (size + 1) - 1)) :
    setSign (leBytes (size + 1) m) = leBytes (size + 1) (m + 2 ^ (8 * (size + 1) - 1)) := by
  induction size generalizing m with
  | zero =>
    have hbyte := ofNat_or_top (n := m) (by simpa using h)
    exact congrArg (fun b => [b]) hbyte
  | succ size ih =>
    -- the weight is a multiple of 256, so the low byte stays
    have hw : 2 ^ (8 * (size + 1 + 1) - 1) = 256 * 2 ^ (8 * (size + 1) - 1) := by
      rw [show 8 * (size + 1 + 1) - 1 = 8 + (8 * (size + 1) - 1) by omega, pow_add]
      norm_num
    have hlow : UInt8.ofNat (m + 256 * 2 ^ (8 * (size + 1) - 1)) = UInt8.ofNat m := by
      apply UInt8.toNat.inj
      rw [UInt8.toNat_ofNat', UInt8.toNat_ofNat', Nat.add_mul_mod_self_left]
    have hhigh : (m + 256 * 2 ^ (8 * (size + 1) - 1)) / 256 =
        m / 256 + 2 ^ (8 * (size + 1) - 1) := Nat.add_mul_div_left _ _ (by norm_num)
    have hrest := ih (m := m / 256) (by omega)
    have hcons : ∀ n, leBytes (size + 1 + 1) n = UInt8.ofNat n :: leBytes (size + 1) (n / 256) :=
      fun _ => rfl
    have hset : setSign (UInt8.ofNat m :: leBytes (size + 1) (m / 256)) =
        UInt8.ofNat m :: setSign (leBytes (size + 1) (m / 256)) :=
      List.modifyLast_append_of_right_ne_nil _ [UInt8.ofNat m] _ (List.cons_ne_nil _ _)
    rw [hw, hcons, hcons, hlow, hhigh, ← hrest, hset]

/-! ### Script numbers -/

/-- **The byte loop writes script numbers, of either sign.** -/
theorem serializeI64_eq_num2bin {num : Int} {size : Nat} (hs : 0 < size) :
    serializeI64 num (some size) = num2bin num size := by
  by_cases hn : 0 ≤ num
  · exact serializeI64_eq hn hs
  · have hneg : num < 0 := not_le.mp hn
    have habs : serializeI64 num (some size) =
        (serializeI64 (num.natAbs : Int) (some size)).map setSign := by
      unfold serializeI64
      simp only [Int.natAbs_natCast, if_pos hneg, if_neg (not_lt.mpr (Int.natCast_nonneg _))]
      by_cases hlen : size < (magnitudeLoop num.natAbs false).length
      · simp only [if_pos hlen, Option.bind_eq_bind, Option.bind_none, Option.map_none]
      · simp only [if_neg hlen, Option.bind_eq_bind, Option.bind_some, Option.map_some]
    have hfits : Fits size (num.natAbs : Int) ↔ Fits size num := by
      rw [Fits, Fits, Int.natAbs_natCast]
    rw [habs, serializeI64_eq (Int.natCast_nonneg _) hs, num2bin, num2bin]
    by_cases hf : Fits size num
    · obtain ⟨k, rfl⟩ : ∃ k, size = k + 1 := ⟨size - 1, by omega⟩
      rw [if_pos (hfits.mpr hf), if_pos hf, Option.map_some, signMagnitude, signMagnitude,
        if_neg (not_lt.mpr (Int.natCast_nonneg _)), if_pos hneg, Int.natAbs_natCast,
        ← setSign_leBytes hf]
      rfl
    · rw [if_neg (hfits.not.mpr hf), if_neg hf, Option.map_none]

/-- **The guest's loop is the console's.** -/
theorem guest_serialize_i64_eq (num : Int) (size : Option Nat) :
    guest_serialize_i64 num size = serializeI64 num size := by
  unfold guest_serialize_i64 serializeI64
  rw [guestLoop_eq, List.nil_append]
  cases size with
  | none =>
    simp only [padTo, Option.bind_eq_bind, Option.bind_some, modify_last, setSign]
    by_cases h : num < 0
    · rw [if_pos h, if_pos h]
    · rw [if_neg h, if_neg h]
  | some sz =>
    by_cases hlen : (magnitudeLoop num.natAbs false).length ≤ sz
    · simp only [padTo, if_pos hlen, if_neg (not_lt.mpr hlen), Option.bind_eq_bind,
        Option.bind_some, modify_last, setSign]
      by_cases h : num < 0
      · rw [if_pos h, if_pos h]
      · rw [if_neg h, if_neg h]
    · simp only [padTo, if_neg hlen, if_pos (not_le.mp hlen), Option.bind_eq_bind,
        Option.bind_none]

/-- **So is that of the committee's check and of the relay.** -/
theorem enforceI64LE_eq (n : Int) : enforceI64LE n = num2bin n 8 := by
  have hlast : ∀ mag, (leBytes 8 mag).modify 7 (· ||| 0x80) = setSign (leBytes 8 mag) := by
    intro mag
    rw [setSign, ← modify_last, leBytes_length]
  unfold enforceI64LE num2bin
  by_cases hf : Fits 8 n
  · have hmag : n.natAbs < 1 <<< 63 := hf
    simp only [require, if_pos hmag, if_pos hf, Option.bind_eq_bind, Option.bind_some, fillLoop_eq,
      hlast, signMagnitude]
    by_cases h : n < 0
    · rw [if_pos h, if_pos h, setSign_leBytes hf]
    · rw [if_neg h, if_neg h, Nat.add_zero]
  · have hmag : ¬ n.natAbs < 1 <<< 63 := hf
    simp only [require, if_neg hmag, if_neg hf, Option.bind_eq_bind, Option.bind_none]

/-- Two's complement is the same for what is not negative. -/
theorem i64LE_eq {n : Int} (h0 : 0 ≤ n) (h : Fits 8 n) : i64LE n = num2bin n 8 := by
  rw [i64LE_of_fits h, num2bin, if_pos h, twosComplement_eq_signMagnitude (by norm_num) h0 h]

/-! ### The serializers -/

/-- The state of the pool's root contract. -/
structure PoolShardState where
  local_yes : Int
  local_no : Int
  count : Int
  pool_value : Int
  closed : Int
  winningSide : Int
  payoutRoot : Bytes
deriving DecidableEq

def PoolShardState.ints (s : PoolShardState) : List Int :=
  [s.local_yes, s.local_no, s.count, s.pool_value, s.closed, s.winningSide]

def serializePoolShardState (s : PoolShardState) : Option Bytes := do
  require (∀ n ∈ s.ints, 0 ≤ n)
  require (s.closed ≤ 2)
  let yes ← serializeI64 s.local_yes (some 8)
  let no ← serializeI64 s.local_no (some 8)
  let count ← serializeI64 s.count (some 8)
  let pool ← serializeI64 s.pool_value (some 8)
  let closed ← serializeI64 s.closed (some 8)
  let side ← serializeI64 s.winningSide (some 8)
  require (s.payoutRoot.length = 32)
  let out := (0x08 :: yes) ++ (0x08 :: no) ++ (0x08 :: count) ++ (0x08 :: pool) ++
    (0x08 :: closed) ++ (0x08 :: side) ++ (0x20 :: s.payoutRoot)
  require (out.length = 87)
  some out

/-- What the relay puts one after the other. -/
def concat : List (Option Bytes) → Option Bytes
  | [] => some []
  | p :: ps => do
    let b ← p
    let bs ← concat ps
    some (b ++ bs)

/-- `_encodePushDataHex(_i64LE(n))` -/
def pushNumber (n : Int) : Option Bytes := enforceI64LE n >>= encodePush

def pushRoot (r : Bytes32) : Option Bytes := encodePush r.toList

/-- `_serializeLeafStateHex` -/
def serializeLeafStateHex (s : ShardLeaf.State) : Option Bytes :=
  concat [pushNumber s.local_yes, pushNumber s.local_no, pushNumber s.count,
    pushNumber s.pool_value]

/-- `_serializeRootStateHex`, of a state without a bitmap. -/
def serializeRootStateHex (s : PoolShardState) : Option Bytes :=
  concat [pushNumber s.local_yes, pushNumber s.local_no, pushNumber s.count,
    pushNumber s.pool_value, pushNumber s.closed, pushNumber s.winningSide,
    encodePush s.payoutRoot]

/-- `_serializePayoutStateHex` -/
def serializePayoutStateHex (s : PayoutShard.State) : Option Bytes :=
  concat (pushNumber s.consolidated_pool :: pushNumber s.closed :: pushRoot s.payoutRoot ::
    (List.ofFn s.w).map pushNumber)

/-- `_serializePayoutV2StateHex` -/
def serializePayoutV2StateHex (s : PayoutShardV2.State) : Option Bytes :=
  concat (pushNumber s.consolidated_pool :: pushNumber s.closed :: pushRoot s.payoutRoot ::
    ((List.ofFn s.w).map pushNumber ++ [pushNumber s.attestedWinner, pushNumber s.attestedAtMs,
      pushRoot s.betsRootBaked, pushRoot s.refundRootBaked]))

theorem pushNumber_eq (n : Int) : pushNumber n = (Field.int n).serialize := by
  rw [pushNumber, enforceI64LE_eq, Field.serialize]
  by_cases h : Fits 8 n
  · rw [num2bin, if_pos h, Option.bind_eq_bind, Option.bind_some, encodePush,
      signMagnitude_length]
    rfl
  · rw [num2bin, if_neg h]
    rfl

theorem pushRoot_eq (r : Bytes32) : pushRoot r = (Field.byte32 r).serialize := by
  rw [pushRoot, encodePush, r.toList_length]
  rfl

theorem concat_serialize (fs : List Field) :
    concat (fs.map Field.serialize) = serializeState fs := by
  induction fs with
  | nil => rfl
  | cons f fs ih => rw [List.map_cons, concat, ih, serializeState]

/-- **The relay writes the fields of a leaf.** -/
theorem serializeLeafStateHex_eq (s : ShardLeaf.State) :
    serializeLeafStateHex s = serializeState s.fields := by
  rw [← concat_serialize, serializeLeafStateHex]
  simp only [pushNumber_eq]
  rfl

/-- **The relay writes the fields of a payout shard.** -/
theorem serializePayoutStateHex_eq (s : PayoutShard.State) :
    serializePayoutStateHex s = serializeState s.fields := by
  have hpush : pushNumber = Field.serialize ∘ Field.int := funext pushNumber_eq
  rw [← concat_serialize, serializePayoutStateHex, PayoutShard.State.fields, hpush, pushRoot_eq]
  simp only [List.map_cons, List.map_map]
  rfl

/-- **The relay writes the fields of a payout shard of the second version.** -/
theorem serializePayoutV2StateHex_eq (s : PayoutShardV2.State) :
    serializePayoutV2StateHex s = serializeState (fieldsV2 s) := by
  have hpush : pushNumber = Field.serialize ∘ Field.int := funext pushNumber_eq
  rw [← concat_serialize, serializePayoutV2StateHex, fieldsV2, hpush, pushRoot_eq, pushRoot_eq,
    pushRoot_eq]
  simp only [List.map_cons, List.map_append, List.map_map, List.map_nil]
  rfl

def PoolShardState.fields (s : PoolShardState) (root : Bytes32) : List Field :=
  s.ints.map Field.int ++ [.byte32 root]

theorem serialize_eq_some {n : Int} {bytes : Bytes} (h : serializeI64 n (some 8) = some bytes) :
    (Field.int n).serialize = some (0x08 :: bytes) := by
  rw [serializeI64_eq_num2bin (by norm_num)] at h
  rw [Field.serialize, h]
  rfl

/-- The console writes the fields of a leaf, which have passed the checks. -/
theorem serializeLeafState_eq_some {s : ShardLeaf.State} {bytes : Bytes}
    (h : Register.serializeLeafState s = some bytes) :
    (∀ n, Field.int n ∈ s.fields → 0 ≤ n) ∧ serializeState s.fields = some bytes := by
  simp only [Register.serializeLeafState, Option.bind_eq_bind, Option.bind_eq_some_iff,
    require_eq_some, exists_const, Option.some.injEq] at h
  obtain ⟨⟨h₁, h₂, h₃, h₄⟩, yes, hyes, no, hno, count, hcount, pool, hpool, -, rfl⟩ := h
  refine ⟨?_, ?_⟩
  · intro n hn
    simp only [ShardLeaf.State.fields, List.mem_cons, Field.int.injEq, List.not_mem_nil,
      or_false] at hn
    rcases hn with rfl | rfl | rfl | rfl
    · exact h₁
    · exact h₂
    · exact h₃
    · exact h₄
  · rw [← concat_serialize]
    simp only [ShardLeaf.State.fields, List.map_cons, List.map_nil, serialize_eq_some hyes,
      serialize_eq_some hno, serialize_eq_some hcount, serialize_eq_some hpool, concat,
      Option.bind_eq_bind, Option.bind_some, List.append_assoc, List.append_nil]

/-- **The console writes the fields of the root**, which have passed the checks. -/
theorem serializePoolShardState_eq_some {s : PoolShardState} {bytes : Bytes}
    (h : serializePoolShardState s = some bytes) :
    (∀ n ∈ s.ints, 0 ≤ n) ∧ ∃ root : Bytes32, root.toList = s.payoutRoot ∧
      serializeState (s.fields root) = some bytes := by
  simp only [serializePoolShardState, Option.bind_eq_bind, Option.bind_eq_some_iff,
    require_eq_some, exists_const, Option.some.injEq] at h
  obtain ⟨hpos, -, yes, hyes, no, hno, count, hcount, pool, hpool, closed, hclosed, side, hside,
    hroot, -, rfl⟩ := h
  have hlast : (Field.byte32 ⟨s.payoutRoot, hroot⟩).serialize = some (0x20 :: s.payoutRoot) := rfl
  refine ⟨hpos, ⟨s.payoutRoot, hroot⟩, rfl, ?_⟩
  rw [← concat_serialize]
  simp only [PoolShardState.fields, PoolShardState.ints, List.map_cons, List.map_nil,
    List.cons_append, List.nil_append, serialize_eq_some hyes, serialize_eq_some hno,
    serialize_eq_some hcount, serialize_eq_some hpool, serialize_eq_some hclosed,
    serialize_eq_some hside, hlast, concat, Option.bind_eq_bind, Option.bind_some,
    List.append_assoc, List.append_nil]

/-- The relay writes the root's state as the console does. -/
theorem serializeRootStateHex_eq {s : PoolShardState} {bytes : Bytes}
    (h : serializePoolShardState s = some bytes) : serializeRootStateHex s = some bytes := by
  obtain ⟨-, root, hroot, hstate⟩ := serializePoolShardState_eq_some h
  rw [← hstate, ← concat_serialize, serializeRootStateHex, ← hroot]
  simp only [pushNumber_eq]
  exact congrArg (fun p => concat [_, _, _, _, _, _, p]) (pushRoot_eq root)

/-! ### What is read of a state -/

/-- What a field of a state is. -/
inductive FieldKind where
  | int
  | byte32
deriving DecidableEq

def fieldKind : Field → FieldKind
  | .int _ => .int
  | .byte32 _ => .byte32

/-- One field, and what stands behind it, when numbers are read by `num`. -/
def readField (num : Bytes → Int) : FieldKind → Bytes → Option (Field × Bytes)
  | .int, b => do
    require (b.head? = some 0x08 ∧ 9 ≤ b.length)
    some (.int (num (slice b 1 8)), b.drop 9)
  | .byte32, b => do
    require (b.head? = some 0x20)
    let root ← bytes32 (slice b 1 32)
    some (.byte32 root, b.drop 33)

def readFields (num : Bytes → Int) : List FieldKind → Bytes → Option (List Field)
  | [], b => if b = [] then some [] else none
  | k :: ks, b => do
    let (f, rest) ← readField num k b
    let fs ← readFields num ks rest
    some (f :: fs)

/-- The numbers among the fields are read as they were written. -/
def ReadsAs (num : Bytes → Int) (fs : List Field) : Prop :=
  ∀ n, Field.int n ∈ fs → Fits 8 n → num (signMagnitude 8 n) = n

theorem readsAs_signMagnitude (fs : List Field) : ReadsAs ofSignMagnitude fs :=
  fun _ _ h => ofSignMagnitude_signMagnitude (by norm_num) h

theorem readsAs_twosComplement {fs : List Field} (h : ∀ n, Field.int n ∈ fs → 0 ≤ n) :
    ReadsAs ofTwosComplement fs := fun n hn hfits => reread_of_nonneg (h n hn) hfits

theorem readField_serialize {num : Bytes → Int} {f : Field} {b : Bytes}
    (hb : f.serialize = some b) (hnum : ReadsAs num [f]) (rest : Bytes) :
    readField num (fieldKind f) (b ++ rest) = some (f, rest) := by
  cases f with
  | int n =>
    obtain ⟨bs, hbs, rfl⟩ := Option.map_eq_some_iff.mp hb
    obtain ⟨hfits, rfl⟩ := num2bin_eq_some.mp hbs
    have hlen := length_push8 n
    have hslice : slice (0x08 :: signMagnitude 8 n ++ rest) 1 8 = signMagnitude 8 n :=
      slice_append_mid (a := [0x08]) (c := rest) rfl (signMagnitude_length 8 n)
    have hdrop : (0x08 :: signMagnitude 8 n ++ rest).drop 9 = rest := by
      rw [← hlen, List.drop_left]
    have hguard : (0x08 :: signMagnitude 8 n ++ rest).head? = some 0x08 ∧
        9 ≤ (0x08 :: signMagnitude 8 n ++ rest).length := by
      refine ⟨rfl, ?_⟩
      rw [List.length_append, hlen]
      exact Nat.le_add_right 9 _
    rw [fieldKind, readField, require_bind_eq_some, hslice, hdrop,
      hnum n List.mem_cons_self hfits]
    exact ⟨hguard, rfl⟩
  | byte32 r =>
    obtain rfl := Option.some.inj hb
    have hslice : slice (0x20 :: r.toList ++ rest) 1 32 = r.toList :=
      slice_append_mid (a := [0x20]) (c := rest) rfl r.toList_length
    have hdrop : (0x20 :: r.toList ++ rest).drop 33 = rest := by
      rw [← length_push32 r, List.drop_left]
    have hroot : bytes32 r.toList = some r := by
      rw [bytes32, dif_pos r.toList_length]
      rfl
    rw [fieldKind, readField, require_bind_eq_some, hslice, hroot, hdrop]
    exact ⟨rfl, rfl⟩

/-- **What was written is read**, field by field. -/
theorem readFields_serializeState {num : Bytes → Int} {fs : List Field} {bytes : Bytes}
    (h : serializeState fs = some bytes) (hnum : ReadsAs num fs) :
    readFields num (fs.map fieldKind) bytes = some fs := by
  induction fs generalizing bytes with
  | nil =>
    obtain rfl := Option.some.inj h
    rfl
  | cons f fs ih =>
    obtain ⟨b, bs, hb, hbs, rfl⟩ := serializeState_cons.mp h
    have hf : ReadsAs num [f] := fun n hn =>
      hnum n (List.mem_cons.mpr (Or.inl (List.mem_singleton.mp hn)))
    have hfs : ReadsAs num fs := fun n hn => hnum n (List.mem_cons_of_mem f hn)
    rw [List.map_cons, readFields, readField_serialize hb hf]
    show (readFields num (fs.map fieldKind) bs >>= fun fs => some (f :: fs)) = some (f :: fs)
    rw [ih hbs hfs]
    rfl

/-! ### The states -/

def leafOfFields : List Field → Option ShardLeaf.State
  | [.int local_yes, .int local_no, .int count, .int pool_value] =>
    some { local_yes, local_no, count, pool_value }
  | _ => none

def rootOfFields : List Field → Option PoolShardState
  | [.int local_yes, .int local_no, .int count, .int pool_value, .int closed, .int winningSide,
      .byte32 root] =>
    some { local_yes, local_no, count, pool_value, closed, winningSide, payoutRoot := root.toList }
  | _ => none

def wordAt (fs : List Field) (i : Nat) : Option Int :=
  match fs[i]? with
  | some (.int n) => some n
  | _ => none

def payoutOfFields : List Field → Option PayoutShard.State
  | .int consolidated_pool :: .int closed :: .byte32 payoutRoot :: ws =>
    (readAll fun i : Fin 17 => wordAt ws i).map fun w =>
      { consolidated_pool, closed, payoutRoot, w }
  | _ => none

/-- The fields that the second version has behind the words. -/
def attestedOfFields (s : PayoutShard.State) : List Field → Option PayoutShardV2.State
  | [.int attestedWinner, .int attestedAtMs, .byte32 betsRootBaked, .byte32 refundRootBaked] =>
    some { s with attestedWinner, attestedAtMs, betsRootBaked, refundRootBaked }
  | _ => none

def payoutV2OfFields (fs : List Field) : Option PayoutShardV2.State := do
  let s ← payoutOfFields fs
  attestedOfFields s (fs.drop 20)

def LEAF_KINDS : List FieldKind := List.replicate 4 .int
def ROOT_KINDS : List FieldKind := List.replicate 6 .int ++ [.byte32]
def PAYOUT_KINDS : List FieldKind := [.int, .int, .byte32] ++ List.replicate 17 .int
def PAYOUT_V2_KINDS : List FieldKind := PAYOUT_KINDS ++ [.int, .int, .byte32, .byte32]

def readLeafState (num : Bytes → Int) (b : Bytes) : Option ShardLeaf.State :=
  readFields num LEAF_KINDS b >>= leafOfFields

def readRootState (num : Bytes → Int) (b : Bytes) : Option PoolShardState :=
  readFields num ROOT_KINDS b >>= rootOfFields

def readPayoutState (num : Bytes → Int) (b : Bytes) : Option PayoutShard.State :=
  readFields num PAYOUT_KINDS b >>= payoutOfFields

def readPayoutV2State (num : Bytes → Int) (b : Bytes) : Option PayoutShardV2.State :=
  readFields num PAYOUT_V2_KINDS b >>= payoutV2OfFields

theorem wordAt_ofFn (w : Words) (fs : List Field) (i : Fin 17) :
    wordAt ((List.ofFn w).map Field.int ++ fs) i = some (w i) := by
  have hi : i.val < ((List.ofFn w).map Field.int).length := by
    rw [List.length_map, List.length_ofFn]
    exact i.isLt
  rw [wordAt, List.getElem?_append_left hi, List.getElem?_map, List.getElem?_ofFn, dif_pos i.isLt]
  rfl

theorem kinds_words (w : Words) :
    ((List.ofFn w).map Field.int).map fieldKind = List.replicate 17 .int := by
  rw [List.map_map, List.map_ofFn]
  exact List.ofFn_const 17 FieldKind.int

/-- A list of fields from which a state is made, and which is the state's own. -/
theorem read_state {σ : Type} {num : Bytes → Int} {fs : List Field} {kinds : List FieldKind}
    {make : List Field → Option σ} {s : σ} {bytes : Bytes} (h : serializeState fs = some bytes)
    (hnum : ReadsAs num fs) (hkinds : fs.map fieldKind = kinds) (hmake : make fs = some s) :
    readFields num kinds bytes >>= make = some s := by
  rw [← hkinds, readFields_serializeState h hnum]
  exact hmake

theorem readLeafState_eq {num : Bytes → Int} {s : ShardLeaf.State} {bytes : Bytes}
    (h : serializeState s.fields = some bytes) (hnum : ReadsAs num s.fields) :
    readLeafState num bytes = some s :=
  read_state h hnum rfl rfl

theorem readRootState_eq {num : Bytes → Int} {s : PoolShardState} {root : Bytes32} {bytes : Bytes}
    (h : serializeState (s.fields root) = some bytes) (hroot : root.toList = s.payoutRoot)
    (hnum : ReadsAs num (s.fields root)) : readRootState num bytes = some s := by
  refine read_state h hnum rfl ?_
  show some { s with payoutRoot := root.toList } = some s
  rw [hroot]

theorem payoutOfFields_eq (s : PayoutShard.State) (fs : List Field) :
    payoutOfFields (s.fields ++ fs) = some s := by
  have hwords : (readAll fun i : Fin 17 => wordAt ((List.ofFn s.w).map Field.int ++ fs) i) =
      some s.w := readAll_eq_some fun i => wordAt_ofFn s.w fs i
  rw [PayoutShard.State.fields]
  simp only [List.cons_append, payoutOfFields, hwords, Option.map_some]

theorem readPayoutState_eq {num : Bytes → Int} {s : PayoutShard.State} {bytes : Bytes}
    (h : serializeState s.fields = some bytes) (hnum : ReadsAs num s.fields) :
    readPayoutState num bytes = some s := by
  refine read_state h hnum ?_ ?_
  · rw [PayoutShard.State.fields, List.map_cons, List.map_cons, List.map_cons, kinds_words]
    rfl
  · have hmake := payoutOfFields_eq s []
    rwa [List.append_nil] at hmake

/-- The state without what was attested. -/
def unattested (s : PayoutShardV2.State) : PayoutShard.State where
  consolidated_pool := s.consolidated_pool
  closed := s.closed
  payoutRoot := s.payoutRoot
  w := s.w

/-- What was attested. -/
def attestedFields (s : PayoutShardV2.State) : List Field :=
  [.int s.attestedWinner, .int s.attestedAtMs, .byte32 s.betsRootBaked, .byte32 s.refundRootBaked]

theorem fieldsV2_eq (s : PayoutShardV2.State) :
    fieldsV2 s = (unattested s).fields ++ attestedFields s := rfl

theorem unattested_length (s : PayoutShardV2.State) : (unattested s).fields.length = 20 := by
  rw [PayoutShard.State.fields, List.length_cons, List.length_cons, List.length_cons,
    List.length_map, List.length_ofFn]

theorem readPayoutV2State_eq {num : Bytes → Int} {s : PayoutShardV2.State} {bytes : Bytes}
    (h : serializeState (fieldsV2 s) = some bytes) (hnum : ReadsAs num (fieldsV2 s)) :
    readPayoutV2State num bytes = some s := by
  refine read_state h hnum ?_ ?_
  · rw [fieldsV2, List.map_cons, List.map_cons, List.map_cons, List.map_append, kinds_words]
    rfl
  · have hdrop : (fieldsV2 s).drop 20 = attestedFields s := by
      rw [fieldsV2_eq, ← unattested_length s, List.drop_left]
    rw [payoutV2OfFields, hdrop, fieldsV2_eq, payoutOfFields_eq]
    rfl

/-! ### The readers of the console -/

structure V1State where
  consolidatedPool : Int
  closed : Int
  payoutRoot : Bytes
deriving DecidableEq

def decodeV1State (buf : Bytes) : Option V1State := do
  require (52 ≤ buf.length ∧ buf[1]? = some 0x08)
  let consolidatedPool ← readBigInt64LE buf 2
  let closed ← (readBigInt64LE buf 11).map toNumber
  some { consolidatedPool, closed, payoutRoot := slice buf 20 32 }

theorem slice_redeem {t : Template} (ht : t.templatePrefix.length = 1) {bytes : Bytes}
    {off n : Nat} (h : off + n ≤ bytes.length) :
    slice (t.redeem bytes) (1 + off) n = slice bytes off n := by
  rw [Template.redeem, List.append_assoc, ← ht, slice_append_right, slice, slice,
    List.drop_append_of_le_length (by omega), List.take_append_of_le_length]
  rw [List.length_drop]
  omega

/-- A field of the state, in the script. -/
theorem redeem_at {t : Template} (ht : t.templatePrefix.length = 1) {fs : List Field}
    {bytes : Bytes} (h : serializeState fs = some bytes) {i off : Nat} {f : Field}
    (hf : fs[i]? = some f) (hoff : fieldOffset fs i = off) :
    ∃ b, f.serialize = some b ∧ slice (t.redeem bytes) (1 + off) (fieldWidth f) = b := by
  subst hoff
  obtain ⟨b, hb, hs⟩ := serializeState_at h hf
  have hpos : 0 < fieldWidth f := by
    cases f with
    | int n => exact Nat.succ_pos 8
    | byte32 r => exact Nat.succ_pos 32
  have hin : fieldOffset fs i + fieldWidth f ≤ bytes.length := by
    apply le_length_of_slice hpos
    rw [hs, length_serialize hb]
  exact ⟨b, hb, (slice_redeem ht hin).trans hs⟩

theorem redeem_int {t : Template} (ht : t.templatePrefix.length = 1) {fs : List Field}
    {bytes : Bytes} (h : serializeState fs = some bytes) (i off : Nat) {n : Int}
    (hf : fs[i]? = some (.int n)) (hoff : fieldOffset fs i = off) (h0 : 0 ≤ n) :
    readBigInt64LE (t.redeem bytes) (1 + off + 1) = some n ∧
      (t.redeem bytes)[1 + off]? = some 0x08 := by
  obtain ⟨b, hb, hs⟩ := redeem_at ht h hf hoff
  obtain ⟨bs, hbs, rfl⟩ := Option.map_eq_some_iff.mp hb
  obtain ⟨hfits, rfl⟩ := num2bin_eq_some.mp hbs
  exact ⟨readBigInt64LE_field hs h0 hfits, (slice_eq_cons hs).1⟩

theorem redeem_root {t : Template} (ht : t.templatePrefix.length = 1) {fs : List Field}
    {bytes : Bytes} (h : serializeState fs = some bytes) (i off : Nat) {r : Bytes32}
    (hf : fs[i]? = some (.byte32 r)) (hoff : fieldOffset fs i = off) :
    slice (t.redeem bytes) (1 + off + 1) 32 = r.toList ∧
      1 + off + 33 ≤ (t.redeem bytes).length := by
  obtain ⟨b, hb, hs⟩ := redeem_at ht h hf hoff
  obtain rfl := Option.some.inj hb
  refine ⟨(slice_eq_cons hs).2, le_length_of_slice (by norm_num) ?_⟩
  exact (congrArg List.length hs).trans (length_push32 r)

/-- **The console reads a payout shard as it was written.** -/
theorem decodeV1State_redeem {t : Template} (ht : t.templatePrefix.length = 1)
    {s : PayoutShard.State} {bytes : Bytes} (h : serializeState s.fields = some bytes)
    (hpool : 0 ≤ s.consolidated_pool) (hclosed : 0 ≤ s.closed ∧ s.closed < 2 ^ 53) :
    decodeV1State (t.redeem bytes) = some
      { consolidatedPool := s.consolidated_pool, closed := s.closed
        payoutRoot := s.payoutRoot.toList } := by
  obtain ⟨hp, hmark⟩ := redeem_int ht h 0 0 rfl rfl hpool
  obtain ⟨hc, -⟩ := redeem_int ht h 1 9 rfl rfl hclosed.1
  obtain ⟨hroot, hlen⟩ := redeem_root ht h 2 18 rfl rfl
  have hnumber : toNumber s.closed = s.closed := toNumber_of_lt (by omega)
  have hguard : 52 ≤ (t.redeem bytes).length ∧ (t.redeem bytes)[1]? = some 0x08 := ⟨hlen, hmark⟩
  unfold decodeV1State
  rw [require_bind_eq_some, hp, hc, hroot]
  simp only [Option.map_some, Option.bind_eq_bind, Option.bind_some, hnumber]
  exact ⟨hguard, trivial⟩

theorem fieldsV2_at (s : PayoutShardV2.State) (k : Nat) :
    (fieldsV2 s)[20 + k]? = (attestedFields s)[k]? := by
  rw [fieldsV2_eq, List.getElem?_append_right (by rw [unattested_length]; omega),
    unattested_length, Nat.add_sub_cancel_left]

theorem width_fields (s : PayoutShard.State) : (s.fields.map fieldWidth).sum = 204 := by
  have hwords := width_words (List.ofFn s.w) (k := 17) (by rw [List.length_ofFn])
  rw [List.take_of_length_le (by rw [List.length_map, List.length_ofFn])] at hwords
  rw [PayoutShard.State.fields]
  simp only [List.map_cons, List.sum_cons, hwords]
  rfl

theorem fieldOffset_attested (s : PayoutShardV2.State) (k : Nat) :
    fieldOffset (fieldsV2 s) (20 + k) = 204 + fieldOffset (attestedFields s) k := by
  have htake : (fieldsV2 s).take (20 + k) =
      (unattested s).fields ++ (attestedFields s).take k := by
    rw [fieldsV2_eq, ← unattested_length s, List.take_length_add_append]
  rw [fieldOffset, htake, List.map_append, List.sum_append, width_fields]
  rfl

/-- **And one of the second version**, once it is attested. -/
theorem readPayoutShardV2AttestedState_redeem {t : Template} (ht : t.templatePrefix.length = 1)
    {s : PayoutShardV2.State} {bytes : Bytes} (h : serializeState (fieldsV2 s) = some bytes)
    (hpool : 0 ≤ s.consolidated_pool) (hclosed : s.closed = 1)
    (hwinner : s.attestedWinner = 0 ∨ s.attestedWinner = 1)
    (hatMs : ATTESTED_AT_MS_MIN ≤ s.attestedAtMs ∧ s.attestedAtMs < ATTESTED_AT_MS_MAX) :
    readPayoutShardV2AttestedState (t.redeem bytes) = some
      { consolidatedPool := s.consolidated_pool, closed := s.closed
        payoutRoot := s.payoutRoot.toList, attestedWinner := s.attestedWinner
        attestedAtMs := s.attestedAtMs, betsRoot := s.betsRootBaked.toList
        refundRoot := s.refundRootBaked.toList } := by
  have hlo := hatMs.1
  have hhi := hatMs.2
  unfold ATTESTED_AT_MS_MIN at hlo
  unfold ATTESTED_AT_MS_MAX at hhi
  obtain ⟨hp, -⟩ := redeem_int ht h 0 0 rfl rfl hpool
  obtain ⟨hc, -⟩ := redeem_int ht h 1 9 rfl rfl (by omega)
  obtain ⟨hroot, -⟩ := redeem_root ht h 2 18 rfl rfl
  have hw : readBigInt64LE (t.redeem bytes) (1 + 204 + 1) = some s.attestedWinner :=
    (redeem_int ht h _ _ (fieldsV2_at s 0) (fieldOffset_attested s 0) (by omega)).1
  have ha : readBigInt64LE (t.redeem bytes) (1 + 213 + 1) = some s.attestedAtMs :=
    (redeem_int ht h _ _ (fieldsV2_at s 1) (fieldOffset_attested s 1) (by omega)).1
  have hbets : slice (t.redeem bytes) (1 + 222 + 1) 32 = s.betsRootBaked.toList :=
    (redeem_root ht h _ _ (fieldsV2_at s 2) (fieldOffset_attested s 2)).1
  obtain ⟨hrefund, hlen⟩ : slice (t.redeem bytes) (1 + 255 + 1) 32 = s.refundRootBaked.toList ∧
      1 + 288 ≤ (t.redeem bytes).length :=
    redeem_root ht h _ _ (fieldsV2_at s 3) (fieldOffset_attested s 3)
  have hcNumber : toNumber s.closed = s.closed := toNumber_of_lt (by omega)
  have hwNumber : toNumber s.attestedWinner = s.attestedWinner := toNumber_of_lt (by omega)
  have haNumber : toNumber s.attestedAtMs = s.attestedAtMs := toNumber_of_lt (by omega)
  unfold readPayoutShardV2AttestedState PSV2_CLOSED_OFF PSV2_PAYOUTROOT_OFF PSV2_ATTESTEDWINNER_OFF
    PSV2_ATTESTEDATMS_OFF PSV2_BETSROOT_OFF PSV2_REFUNDROOT_OFF PSV2_STATE_END_OFF PS_STATE_START
  simp only [Nat.add_zero] at hp
  simp only [hp, hc, hw, ha, hroot, hbets, hrefund, Option.map_some, hcNumber, hwNumber, haNumber,
    Option.bind_eq_bind, Option.bind_some, Option.bind_eq_some_iff, require_eq_some, exists_const,
    and_true]
  exact ⟨hlen, hclosed, hwinner, hatMs⟩

/-! ### All of it -/

theorem fits_of_abs {n : Int} (h : |n| < 2 ^ 63) : Fits 8 n := fits_eight.mpr (abs_lt.mp h)

theorem serializeI64_signMagnitude {n : Int} (h : |n| < 2 ^ 63) :
    serializeI64 n (some 8) = some (signMagnitude 8 n) := by
  rw [serializeI64_eq_num2bin (by norm_num), num2bin, if_pos (fits_of_abs h)]

/-- A leaf is written alike by both sides, and read by either reading. -/
theorem leaf_reads {s : ShardLeaf.State} {bytes : Bytes}
    (h : Register.serializeLeafState s = some bytes) :
    serializeLeafStateHex s = some bytes ∧ readLeafState ofSignMagnitude bytes = some s ∧
      readLeafState ofTwosComplement bytes = some s := by
  obtain ⟨hpos, hstate⟩ := serializeLeafState_eq_some h
  exact ⟨(serializeLeafStateHex_eq s).trans hstate,
    readLeafState_eq hstate (readsAs_signMagnitude _),
    readLeafState_eq hstate (readsAs_twosComplement hpos)⟩

/-- So is the root. -/
theorem root_reads {s : PoolShardState} {bytes : Bytes}
    (h : serializePoolShardState s = some bytes) :
    serializeRootStateHex s = some bytes ∧ readRootState ofSignMagnitude bytes = some s ∧
      readRootState ofTwosComplement bytes = some s := by
  obtain ⟨hpos, root, hroot, hstate⟩ := serializePoolShardState_eq_some h
  have hfields : ∀ n, Field.int n ∈ s.fields root → 0 ≤ n := by
    intro n hn
    rcases List.mem_append.mp hn with hn | hn
    · obtain ⟨m, hm, hmn⟩ := List.mem_map.mp hn
      cases hmn
      exact hpos n hm
    · cases List.mem_singleton.mp hn
  exact ⟨serializeRootStateHex_eq h, readRootState_eq hstate hroot (readsAs_signMagnitude _),
    readRootState_eq hstate hroot (readsAs_twosComplement hfields)⟩

/-- **One encoding everywhere.**  The loops write the same eight bytes of every number with 63
bits of magnitude (two's complement, of those that are not negative), and no two numbers have
the same.  A state that was written is read back: with the sign always, in two's complement when
no number is negative, and by the console from the script. -/
theorem one_encoding :
    (∀ n : Int, |n| < 2 ^ 63 →
      serializeI64 n (some 8) = some (signMagnitude 8 n) ∧
        guest_serialize_i64 n (some 8) = some (signMagnitude 8 n) ∧
        enforceI64LE n = some (signMagnitude 8 n) ∧
        (0 ≤ n → i64LE n = some (signMagnitude 8 n))) ∧
    (∀ m n : Int, |m| < 2 ^ 63 → |n| < 2 ^ 63 →
      serializeI64 m (some 8) = serializeI64 n (some 8) → m = n) ∧
    (∀ (s : ShardLeaf.State) (bytes : Bytes), Register.serializeLeafState s = some bytes →
      serializeLeafStateHex s = some bytes ∧ readLeafState ofSignMagnitude bytes = some s ∧
        readLeafState ofTwosComplement bytes = some s) ∧
    (∀ (s : PoolShardState) (bytes : Bytes), serializePoolShardState s = some bytes →
      serializeRootStateHex s = some bytes ∧ readRootState ofSignMagnitude bytes = some s ∧
        readRootState ofTwosComplement bytes = some s) ∧
    (∀ (s : PayoutShard.State) (bytes : Bytes), serializePayoutStateHex s = some bytes →
      readPayoutState ofSignMagnitude bytes = some s ∧
        ((∀ n, Field.int n ∈ s.fields → 0 ≤ n) →
          readPayoutState ofTwosComplement bytes = some s) ∧
        ∀ t : Template, t.templatePrefix.length = 1 → 0 ≤ s.consolidated_pool →
          0 ≤ s.closed ∧ s.closed < 2 ^ 53 →
          decodeV1State (t.redeem bytes) = some
            { consolidatedPool := s.consolidated_pool, closed := s.closed
              payoutRoot := s.payoutRoot.toList }) ∧
    ∀ (s : PayoutShardV2.State) (bytes : Bytes), serializePayoutV2StateHex s = some bytes →
      readPayoutV2State ofSignMagnitude bytes = some s ∧
        ((∀ n, Field.int n ∈ fieldsV2 s → 0 ≤ n) →
          readPayoutV2State ofTwosComplement bytes = some s) ∧
        ∀ t : Template, t.templatePrefix.length = 1 → 0 ≤ s.consolidated_pool → s.closed = 1 →
          s.attestedWinner = 0 ∨ s.attestedWinner = 1 →
          ATTESTED_AT_MS_MIN ≤ s.attestedAtMs ∧ s.attestedAtMs < ATTESTED_AT_MS_MAX →
          readPayoutShardV2AttestedState (t.redeem bytes) = some
            { consolidatedPool := s.consolidated_pool, closed := s.closed
              payoutRoot := s.payoutRoot.toList, attestedWinner := s.attestedWinner
              attestedAtMs := s.attestedAtMs, betsRoot := s.betsRootBaked.toList
              refundRoot := s.refundRootBaked.toList } := by
  refine ⟨?_, ?_, fun s bytes h => leaf_reads h, fun s bytes h => root_reads h, ?_, ?_⟩
  · intro n h
    have hnum : num2bin n 8 = some (signMagnitude 8 n) := if_pos (fits_of_abs h)
    have hser := serializeI64_signMagnitude h
    exact ⟨hser, (guest_serialize_i64_eq n (some 8)).trans hser, (enforceI64LE_eq n).trans hnum,
      fun h0 => (i64LE_eq h0 (fits_of_abs h)).trans hnum⟩
  · intro m n hm _ h
    have hwritten := serializeI64_signMagnitude hm
    have hwritten' := h.symm.trans hwritten
    rw [serializeI64_eq_num2bin (by norm_num)] at hwritten hwritten'
    exact num2bin_inj (by norm_num) hwritten hwritten'
  · intro s bytes h
    rw [serializePayoutStateHex_eq] at h
    exact ⟨readPayoutState_eq h (readsAs_signMagnitude _),
      fun hpos => readPayoutState_eq h (readsAs_twosComplement hpos),
      fun t ht hpool hclosed => decodeV1State_redeem ht h hpool hclosed⟩
  · intro s bytes h
    rw [serializePayoutV2StateHex_eq] at h
    exact ⟨readPayoutV2State_eq h (readsAs_signMagnitude _),
      fun hpos => readPayoutV2State_eq h (readsAs_twosComplement hpos),
      fun t ht hpool hclosed hwinner hatMs =>
        readPayoutShardV2AttestedState_redeem ht h hpool hclosed hwinner hatMs⟩

/-- The placeholder of a winner, as three of the loops write it. -/
theorem one_encoding_minusOne :
    serializeI64 (-1) (some 8) = some [1, 0, 0, 0, 0, 0, 0, 0x80] ∧
      guest_serialize_i64 (-1) (some 8) = some [1, 0, 0, 0, 0, 0, 0, 0x80] ∧
      enforceI64LE (-1) = some [1, 0, 0, 0, 0, 0, 0, 0x80] := by
  obtain ⟨h₁, h₂, h₃, -⟩ := one_encoding.1 (-1) (by norm_num)
  exact ⟨h₁, h₂, h₃⟩

end KANet.Settle
