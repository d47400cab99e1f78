import KANet.Covenant.Checks
import KANet.Lib.HashChain
import KANet.Lib.Padding
import KANet.Lib.StableSort
import Mathlib.Data.List.Dedup

/-!
# `pool-payout-root.mjs`

The two commitments a market is settled by.  What is paid out is the root of a
ten-level tree over the leaves `blake2b(pk ‖ amount)`, filled up with `ZERO32`; what
was bet is a hash chain over `blake2b(pk ‖ stake ‖ dir)` in the order the chain saw
the bets.

Keys are hex strings in the source; here they are the bytes the strings spell.  An
`Error` that the source throws is `none`.

* `serializeI64_eq` — the byte loop writes what the script engine's `byte[](n, size)`
  writes.
* `payoutRoot_eq`, `merkleProof_eq` — the levels are those of the tree library.
* `leafHashes_inj`, `payoutRoot_inj`, `computeBetsRoot_inj` — either commitment binds its list.
-/

namespace KANet.Payout

open KANet.Lib KANet.Script KANet.Covenant

/-! ### Numbers -/

/-- The bytes of `positive` from the lowest up, and one more if the last has its top bit set. -/
def magnitudeLoop (positive : Nat) (lastSaturated : Bool) : Bytes :=
  if positive = 0 then
    if lastSaturated then [0] else []
  else
    UInt8.ofNat (positive &&& 0xff) ::
      magnitudeLoop (positive >>> 8) (positive &&& 0x80 ≠ 0)
termination_by positive
decreasing_by
  rw [Nat.shiftRight_eq_div_pow]
  exact Nat.div_lt_self (Nat.pos_of_ne_zero ‹_›) (by norm_num)

/-- `bytes[bytes.length - 1] |= 0x80` -/
def setSign (bytes : Bytes) : Bytes := bytes.modifyLast (· ||| 0x80)

def serializeI64 (num : Int) (size : Option Nat) : Option Bytes := do
  let bytes := magnitudeLoop num.natAbs false
  let bytes ← match size with
    | none => some bytes
    | some size =>
      if size < bytes.length then none  -- NumberTooLong
      else some (bytes ++ List.replicate (size - bytes.length) 0)
  if num < 0 then some (setSign bytes) else some bytes

theorem leBytes_zero (size : Nat) : leBytes size 0 = List.replicate size 0 := by
  induction size with
  | zero => rfl
  | succ size ih =>
    rw [leBytes, Nat.zero_div, ih, List.replicate_succ]
    rfl

theorem ofNat_and_ff (n : Nat) : UInt8.ofNat (n &&& 0xff) = UInt8.ofNat n := by
  apply UInt8.toNat.inj
  rw [UInt8.toNat_ofNat', UInt8.toNat_ofNat', show (0xff : Nat) = 2 ^ 8 - 1 by rfl,
    Nat.and_two_pow_sub_one_eq_mod]
  omega

theorem and_top_bit (n : Nat) : n &&& 0x80 = 0 ↔ n % 256 < 128 := by
  have h : n &&& 0x80 = (n.testBit 7).toNat * 128 := Nat.and_two_pow n 7
  have hbit : n.testBit 7 = decide (n / 128 % 2 = 1) := Nat.testBit_eq_decide_div_mod_eq
  rw [h, hbit]
  by_cases hb : n / 128 % 2 = 1
  · rw [decide_eq_true hb, Bool.toNat_true]
    omega
  · rw [decide_eq_false hb, Bool.toNat_false]
    omega

/-- How long the loop's bytes are, and what they are once filled up with zeros. -/
theorem magnitudeLoop_pad (size n : Nat) (sat : Bool) :
    ((magnitudeLoop n sat).length ≤ size ↔
        if n = 0 then (sat = true → 1 ≤ size) else 1 ≤ size ∧ 2 * n < 256 ^ size) ∧
      ((magnitudeLoop n sat).length ≤ size →
        magnitudeLoop n sat ++ List.replicate (size - (magnitudeLoop n sat).length) 0 =
          leBytes size n) := by
  induction size generalizing n sat with
  | zero =>
    by_cases h : n = 0
    · subst h
      cases sat <;> simp [magnitudeLoop, leBytes]
    · rw [magnitudeLoop, if_neg h, if_neg h]
      simp
  | succ size ih =>
    by_cases h : n = 0
    · subst h
      cases sat
      · simp [magnitudeLoop, leBytes_zero]
      · simp [magnitudeLoop, leBytes_zero, List.replicate_succ]
    · have hshift : n >>> 8 = n / 256 := by
        rw [Nat.shiftRight_eq_div_pow]
      obtain ⟨hlen, hpad⟩ := ih (n / 256) (n &&& 0x80 ≠ 0)
      rw [magnitudeLoop, if_neg h, if_neg h, ofNat_and_ff, hshift, List.length_cons,
        Nat.succ_le_succ_iff, Nat.succ_sub_succ_eq_sub]
      refine ⟨?_, fun hle => ?_⟩
      · rw [hlen]
        have htop := and_top_bit n
        have hpow : 256 ^ (size + 1) = 256 * 256 ^ size := by ring
        by_cases hq : n / 256 = 0
        · -- one byte, and a second one when its top bit is set
          rw [if_pos hq, decide_eq_true_eq, Ne, htop]
          constructor
          · intro hs
            refine ⟨by omega, ?_⟩
            by_cases hn : n % 256 < 128
            · have : 1 ≤ 256 ^ size := Nat.one_le_pow _ _ (by norm_num)
              omega
            · obtain ⟨k, rfl⟩ : ∃ k, size = k + 1 := ⟨size - 1, by have := hs hn; omega⟩
              have : 1 ≤ 256 ^ k := Nat.one_le_pow _ _ (by norm_num)
              have hk : 256 ^ (k + 1) = 256 * 256 ^ k := by ring
              omega
          · rintro ⟨-, hs⟩ hn
            by_contra hz
            have : size = 0 := by omega
            subst this
            omega
        · rw [if_neg hq]
          constructor
          · rintro ⟨h1, h2⟩
            refine ⟨by omega, ?_⟩
            have heven : 256 ^ size % 2 = 0 := by
              obtain ⟨k, rfl⟩ : ∃ k, size = k + 1 := ⟨size - 1, by omega⟩
              have hk : 256 ^ (k + 1) = 256 * 256 ^ k := by ring
              omega
            omega
          · rintro ⟨-, h2⟩
            refine ⟨?_, by omega⟩
            by_contra hz
            have : size = 0 := by omega
            subst this
            omega
      · rw [List.cons_append, hpad hle, leBytes]

/-- **The byte loop writes script numbers.** -/
theorem serializeI64_eq {num : Int} {size : Nat} (hn : 0 ≤ num) (hs : 0 < size) :
    serializeI64 num (some size) = num2bin num size := by
  have hneg : ¬ num < 0 := by omega
  obtain ⟨hlen, hpad⟩ := magnitudeLoop_pad size num.natAbs false
  have hfits : (magnitudeLoop num.natAbs false).length ≤ size ↔ Fits size num := by
    rw [hlen, Fits]
    have hw := two_pow_add_self hs
    have hpos : 0 < 2 ^ (8 * size - 1) := by positivity
    by_cases h : num.natAbs = 0
    · simp [h]
    · rw [if_neg h]
      omega
  have hsign : signMagnitude size num = leBytes size num.natAbs := by
    rw [signMagnitude, if_neg hneg, Nat.add_zero]
  unfold serializeI64 num2bin
  by_cases h : Fits size num
  · have hle := hfits.mpr h
    simp only [if_neg (Nat.not_lt.mpr hle), if_pos h, if_neg hneg, Option.bind_eq_bind,
      Option.bind_some, hpad hle, hsign]
  · have hlt : size < (magnitudeLoop num.natAbs false).length := by
      by_contra hc
      exact h (hfits.mp (by omega))
    simp only [if_pos hlt, if_neg h, Option.bind_eq_bind, Option.bind_none]

/-! ### Leaves -/

/-- A leaf of the payout tree. -/
structure Leaf where
  pk : Bytes
  amount : Int
deriving DecidableEq

/-- A bet, as the commitments read it. -/
structure Bet where
  pk : Bytes
  stake : Int
  direction : Int
deriving DecidableEq

def payoutLeaf (e : Engine) (pk : Bytes) (amountSompi : Int) : Option Bytes32 :=
  if pk.length ≠ 32 then none
  else if amountSompi ≤ 0 then none
  else (serializeI64 amountSompi (some 8)).map fun amount => e.blake2b (pk ++ amount)

def betsLeaf (e : Engine) (pk : Bytes) (stakeSompi dir : Int) : Option Bytes32 :=
  if pk.length ≠ 32 then none
  else if stakeSompi ≤ 0 then none
  else if dir ≠ 0 ∧ dir ≠ 1 then none
  else do
    let stake ← serializeI64 stakeSompi (some 8)
    let d ← serializeI64 dir (some 1)
    some (e.blake2b (pk ++ stake ++ d))

/-- What a leaf hashes. -/
def Leaf.message (w : Leaf) : Bytes := w.pk ++ signMagnitude 8 w.amount

def Bet.message (b : Bet) : Bytes :=
  b.pk ++ signMagnitude 8 b.stake ++ signMagnitude 1 b.direction

/-- A leaf that can be hashed. -/
structure Leaf.Payable (w : Leaf) : Prop where
  pk : w.pk.length = 32
  pos : 0 < w.amount
  fits : Fits 8 w.amount

structure Bet.Valid (b : Bet) : Prop where
  pk : b.pk.length = 32
  pos : 0 < b.stake
  fits : Fits 8 b.stake
  dir : b.direction = 0 ∨ b.direction = 1

theorem payoutLeaf_eq_some {e : Engine} {w : Leaf} {h : Bytes32} :
    payoutLeaf e w.pk w.amount = some h ↔ w.Payable ∧ e.blake2b w.message = h := by
  unfold payoutLeaf
  by_cases hpk : w.pk.length = 32
  · by_cases hpos : 0 < w.amount
    · rw [if_neg (not_not.mpr hpk), if_neg (not_le.mpr hpos),
        serializeI64_eq hpos.le (by norm_num), Option.map_eq_some_iff]
      simp only [num2bin_eq_some]
      constructor
      · rintro ⟨_, ⟨hf, rfl⟩, rfl⟩
        exact ⟨⟨hpk, hpos, hf⟩, rfl⟩
      · rintro ⟨hw, rfl⟩
        exact ⟨_, ⟨hw.fits, rfl⟩, rfl⟩
    · rw [if_neg (not_not.mpr hpk), if_pos (not_lt.mp hpos)]
      simp only [reduceCtorEq, false_iff, not_and]
      exact fun hw => absurd hw.pos hpos
  · rw [if_pos hpk]
    simp only [reduceCtorEq, false_iff, not_and]
    exact fun hw => absurd hw.pk hpk

theorem fits_dir {d : Int} (h : d = 0 ∨ d = 1) : Fits 1 d := by
  rcases h with rfl | rfl <;> decide

theorem betsLeaf_eq_some {e : Engine} {b : Bet} {h : Bytes32} :
    betsLeaf e b.pk b.stake b.direction = some h ↔ b.Valid ∧ e.blake2b b.message = h := by
  unfold betsLeaf
  by_cases hpk : b.pk.length = 32
  · by_cases hpos : 0 < b.stake
    · by_cases hdir : b.direction = 0 ∨ b.direction = 1
      · have hd : serializeI64 b.direction (some 1) = some (signMagnitude 1 b.direction) := by
          rw [serializeI64_eq (by omega) (by norm_num), num2bin, if_pos (fits_dir hdir)]
        rw [if_neg (not_not.mpr hpk), if_neg (not_le.mpr hpos), if_neg (by omega), hd,
          serializeI64_eq hpos.le (by norm_num)]
        simp only [Option.bind_eq_bind, Option.bind_some, Option.bind_eq_some_iff,
          num2bin_eq_some, Option.some.injEq]
        constructor
        · rintro ⟨_, ⟨hf, rfl⟩, rfl⟩
          exact ⟨⟨hpk, hpos, hf, hdir⟩, rfl⟩
        · rintro ⟨hb, rfl⟩
          exact ⟨_, ⟨hb.fits, rfl⟩, rfl⟩
      · rw [if_neg (not_not.mpr hpk), if_neg (not_le.mpr hpos), if_pos (by omega)]
        simp only [reduceCtorEq, false_iff, not_and]
        exact fun hb => absurd hb.dir hdir
    · rw [if_neg (not_not.mpr hpk), if_pos (not_lt.mp hpos)]
      simp only [reduceCtorEq, false_iff, not_and]
      exact fun hb => absurd hb.pos hpos
  · rw [if_pos hpk]
    simp only [reduceCtorEq, false_iff, not_and]
    exact fun hb => absurd hb.pk hpk

theorem Leaf.message_inj {w w' : Leaf} (hw : w.Payable) (hw' : w'.Payable)
    (h : w.message = w'.message) : w = w' := by
  obtain ⟨hpk, ham⟩ := List.append_inj h (hw.pk.trans hw'.pk.symm)
  have := signMagnitude_inj (by norm_num) hw.fits hw'.fits ham
  cases w
  cases w'
  simp_all

theorem Bet.message_inj {b b' : Bet} (hb : b.Valid) (hb' : b'.Valid)
    (h : b.message = b'.message) : b = b' := by
  obtain ⟨h, hdir⟩ := List.append_inj' h (by rw [signMagnitude_length, signMagnitude_length])
  obtain ⟨hpk, hst⟩ := List.append_inj h (hb.pk.trans hb'.pk.symm)
  have h₁ := signMagnitude_inj (by norm_num) hb.fits hb'.fits hst
  have h₂ := signMagnitude_inj (by norm_num) (fits_dir hb.dir) (fits_dir hb'.dir) hdir
  cases b
  cases b'
  simp_all

/-! ### The order of the bets -/

/-- `String.prototype.localeCompare`: the collation of the platform, a total preorder. -/
structure Collation where
  localeCompare : String → String → Int
  total : ∀ a b, localeCompare a b ≤ 0 ∨ localeCompare b a ≤ 0
  trans : ∀ a b c, localeCompare a b ≤ 0 → localeCompare b c ≤ 0 → localeCompare a c ≤ 0

/-- A bet as it is loaded, with the place on the chain where it was locked. -/
structure Row extends Bet where
  side_lock_daa : Option Int
  side_lock_tx : Option String
deriving DecidableEq

/-- The row is anchored on the chain. -/
def Row.Anchored (r : Row) : Prop := r.side_lock_daa ≠ none ∧ r.side_lock_tx ≠ none

instance (r : Row) : Decidable r.Anchored := inferInstanceAs (Decidable (_ ∧ _))

/-- The comparison function that is handed to `sort`. -/
def compareRows (coll : Collation) (a b : Row) : Int :=
  let da := a.side_lock_daa.getD 0
  let dbb := b.side_lock_daa.getD 0
  if da ≠ dbb then da - dbb
  else coll.localeCompare (a.side_lock_tx.getD "") (b.side_lock_tx.getD "")

/-- `a` may stand before `b`. -/
def rowLe (coll : Collation) (a b : Row) : Bool := compareRows coll a b ≤ 0

/-- `sort` is stable. -/
def canonicalBetOrder (coll : Collation) (rows : List Row) : Option (List Row) :=
  if ∀ r ∈ rows, r.Anchored then some (rows.mergeSort (rowLe coll)) else none

theorem rowLe_iff {coll : Collation} {a b : Row} :
    rowLe coll a b ↔ a.side_lock_daa.getD 0 < b.side_lock_daa.getD 0 ∨
      (a.side_lock_daa.getD 0 = b.side_lock_daa.getD 0 ∧
        coll.localeCompare (a.side_lock_tx.getD "") (b.side_lock_tx.getD "") ≤ 0) := by
  unfold rowLe compareRows
  rw [decide_eq_true_eq]
  by_cases h : a.side_lock_daa.getD 0 = b.side_lock_daa.getD 0
  · simp [h]
  · simp only [if_pos h, h, false_and, or_false]
    omega

theorem rowLe_trans (coll : Collation) (a b c : Row) :
    rowLe coll a b → rowLe coll b c → rowLe coll a c := by
  simp only [rowLe_iff]
  rintro (h | ⟨h, hc⟩) (h' | ⟨h', hc'⟩)
  · exact Or.inl (h.trans h')
  · exact Or.inl (h' ▸ h)
  · exact Or.inl (h ▸ h')
  · exact Or.inr ⟨h.trans h', coll.trans _ _ _ hc hc'⟩

theorem rowLe_total (coll : Collation) (a b : Row) : rowLe coll a b || rowLe coll b a := by
  rw [Bool.or_eq_true, rowLe_iff, rowLe_iff]
  rcases lt_trichotomy (a.side_lock_daa.getD 0) (b.side_lock_daa.getD 0) with h | h | h
  · exact Or.inl (Or.inl h)
  · exact (coll.total (a.side_lock_tx.getD "") (b.side_lock_tx.getD "")).imp
      (fun hc => Or.inr ⟨h, hc⟩) (fun hc => Or.inr ⟨h.symm, hc⟩)
  · exact Or.inr (Or.inl h)

/-- The canonical order is there if every row is anchored. -/
theorem canonicalBetOrder_eq_some {coll : Collation} {rows ordered : List Row} :
    canonicalBetOrder coll rows = some ordered ↔
      (∀ b ∈ rows, b.Anchored) ∧ rows.mergeSort (rowLe coll) = ordered := by
  unfold canonicalBetOrder
  by_cases h : ∀ b ∈ rows, b.Anchored
  · rw [if_pos h, Option.some.injEq]
    exact (and_iff_right h).symm
  · rw [if_neg h]
    refine ⟨?_, fun hordered => absurd hordered.1 h⟩
    intro hnone
    cases hnone

/-- Rows of which no two tie have one canonical order, however they come. -/
theorem canonicalBetOrder_of_perm {coll : Collation} {rows ordered : List Row}
    (hp : rows.Perm ordered) (hanchored : ∀ b ∈ ordered, b.Anchored)
    (hsorted : ordered.Pairwise fun a b => rowLe coll a b)
    (hanti : ∀ a ∈ ordered, ∀ b ∈ ordered, rowLe coll a b → rowLe coll b a → a = b) :
    canonicalBetOrder coll rows = some ordered := by
  have hsort := (List.mergeSort_perm rows (rowLe coll)).trans hp
  refine canonicalBetOrder_eq_some.mpr ⟨fun b hb => hanchored b (hp.mem_iff.mp hb), ?_⟩
  refine @List.Perm.eq_of_pairwise _ (fun a b => rowLe coll a b = true) _ _ ?_ ?_ hsorted hsort
  · intro a b ha hb
    exact hanti a (hsort.mem_iff.mp ha) b hb
  · exact List.pairwise_mergeSort (rowLe_trans coll) (rowLe_total coll) rows

/-! ### The two roots -/

def computeBetsRoot (e : Engine) (orderedBets : List Bet) : Option Bytes32 :=
  orderedBets.foldlM
    (fun acc b => (betsLeaf e b.pk b.stake b.direction).map (hashNode e acc)) ZERO32

def DEPTH : Nat := 10

/-- 1024 leaves to a tree. -/
def CAP : Nat := 1 <<< DEPTH

/-- A level and the ones above it. -/
def levelsFrom (e : Engine) : Nat → List Bytes32 → List (List Bytes32)
  | 0, level => [level]
  | d + 1, level => level :: levelsFrom e d (Merkle.joinPairs (hashNode e) level)

def levelsOf (e : Engine) (winners : List Leaf) : Option (List (List Bytes32)) :=
  if CAP < winners.length then none
  else do
    let level ← winners.mapM fun w => payoutLeaf e w.pk w.amount
    some (levelsFrom e DEPTH (Merkle.pad ZERO32 DEPTH level))

def payoutRoot (e : Engine) (winners : List Leaf) : Option Bytes32 :=
  (levelsOf e winners).map fun levels => (levels.getD DEPTH []).headD ZERO32

/-- The loop of `merkleProof`, with the levels still to go. -/
def siblingsLoop : Nat → List (List Bytes32) → Nat → List Bytes32
  | n + 1, level :: levels, pos =>
    level.getD (pos ^^^ 1) ZERO32 :: siblingsLoop n levels (pos >>> 1)
  | _, _, _ => []

def merkleProof (e : Engine) (winners : List Leaf) (idx : Nat) : Option (List Bytes32) :=
  (levelsOf e winners).map fun levels => siblingsLoop DEPTH levels idx

def climbProof (e : Engine) (leaf : Bytes32) (idx : Nat) (siblings : List Bytes32) : Bytes32 :=
  (List.range DEPTH).foldl (fun cur lvl =>
    let sib := siblings.getD lvl ZERO32
    if (idx >>> lvl) &&& 1 = 0 then hashNode e cur sib else hashNode e sib cur) leaf

/-! ### What the roots are -/

def Leaf.hash (e : Engine) (w : Leaf) : Bytes32 := e.blake2b w.message

def Bet.hash (e : Engine) (b : Bet) : Bytes32 := e.blake2b b.message

theorem mapM_payoutLeaf {e : Engine} {ws : List Leaf} {hs : List Bytes32} :
    ws.mapM (fun w => payoutLeaf e w.pk w.amount) = some hs ↔
      (∀ w ∈ ws, w.Payable) ∧ ws.map (Leaf.hash e) = hs := by
  induction ws generalizing hs with
  | nil => simp
  | cons w ws ih =>
    simp only [List.mapM_cons, Option.pure_def, Option.bind_eq_bind, Option.bind_eq_some_iff,
      payoutLeaf_eq_some, ih, Option.some.injEq, List.forall_mem_cons, List.map_cons]
    constructor
    · rintro ⟨_, ⟨hw, rfl⟩, _, ⟨hws, rfl⟩, rfl⟩
      exact ⟨⟨hw, hws⟩, rfl⟩
    · rintro ⟨⟨hw, hws⟩, rfl⟩
      exact ⟨_, ⟨hw, rfl⟩, _, ⟨hws, rfl⟩, rfl⟩

theorem levelsFrom_last (e : Engine) (n : Nat) (level : List Bytes32) :
    ((levelsFrom e n level).getD n []).headD ZERO32 =
      Merkle.root (hashNode e) ZERO32 n level := by
  induction n generalizing level with
  | zero => rfl
  | succ n ih => rw [levelsFrom, List.getD_cons_succ, ih, Merkle.root]

theorem siblingsLoop_levelsFrom (e : Engine) (n : Nat) (level : List Bytes32) (pos : Nat) :
    siblingsLoop n (levelsFrom e n level) pos = Merkle.path (hashNode e) ZERO32 n level pos := by
  induction n generalizing level pos with
  | zero => rfl
  | succ n ih => rw [levelsFrom, siblingsLoop, ih, Merkle.path, Nat.shiftRight_one]

theorem levelsOf_eq_some {e : Engine} {ws : List Leaf} {levels : List (List Bytes32)} :
    levelsOf e ws = some levels ↔ ws.length ≤ 1024 ∧ (∀ w ∈ ws, w.Payable) ∧
      levelsFrom e DEPTH (Merkle.pad ZERO32 DEPTH (ws.map (Leaf.hash e))) = levels := by
  have hcap : CAP = 1024 := rfl
  unfold levelsOf
  by_cases h : ws.length ≤ 1024
  · rw [if_neg (by omega)]
    simp only [Option.bind_eq_bind, Option.bind_eq_some_iff, mapM_payoutLeaf, Option.some.injEq]
    constructor
    · rintro ⟨_, ⟨hws, rfl⟩, rfl⟩
      exact ⟨h, hws, rfl⟩
    · rintro ⟨-, hws, rfl⟩
      exact ⟨_, ⟨hws, rfl⟩, rfl⟩
  · rw [if_pos (by omega)]
    simp [h]

/-- A list of leaves that a tree can be built of. -/
structure Buildable (ws : List Leaf) : Prop where
  length : ws.length ≤ 1024
  payable : ∀ w ∈ ws, w.Payable

/-- The root of the tree, the short way. -/
def rootOf (e : Engine) (ws : List Leaf) : Bytes32 :=
  Merkle.prefixRoot (hashNode e) DEPTH ZERO32 (ws.map (Leaf.hash e))

theorem payoutRoot_eq_some {e : Engine} {ws : List Leaf} {root : Bytes32} :
    payoutRoot e ws = some root ↔ Buildable ws ∧ rootOf e ws = root := by
  have hroot : ws.length ≤ 1024 → Merkle.root (hashNode e) ZERO32 DEPTH
      (Merkle.pad ZERO32 DEPTH (ws.map (Leaf.hash e))) = rootOf e ws := by
    intro h
    exact (Merkle.prefixRoot_eq (by rw [List.length_map]; exact h)).symm
  rw [payoutRoot, Option.map_eq_some_iff]
  simp only [levelsOf_eq_some]
  constructor
  · rintro ⟨_, ⟨h, hws, rfl⟩, rfl⟩
    exact ⟨⟨h, hws⟩, by rw [levelsFrom_last, hroot h]⟩
  · rintro ⟨⟨h, hws⟩, rfl⟩
    exact ⟨_, ⟨h, hws, rfl⟩, by rw [levelsFrom_last, hroot h]⟩

theorem payoutRoot_of_buildable {e : Engine} {ws : List Leaf} (h : Buildable ws) :
    payoutRoot e ws = some (rootOf e ws) := payoutRoot_eq_some.mpr ⟨h, rfl⟩

theorem merkleProof_eq_some {e : Engine} {ws : List Leaf} {idx : Nat} {sibs : List Bytes32} :
    merkleProof e ws idx = some sibs ↔ Buildable ws ∧ Merkle.path (hashNode e) ZERO32 DEPTH
      (Merkle.pad ZERO32 DEPTH (ws.map (Leaf.hash e))) idx = sibs := by
  rw [merkleProof, Option.map_eq_some_iff]
  simp only [levelsOf_eq_some]
  constructor
  · rintro ⟨_, ⟨h, hws, rfl⟩, rfl⟩
    exact ⟨⟨h, hws⟩, (siblingsLoop_levelsFrom e DEPTH _ idx).symm⟩
  · rintro ⟨⟨h, hws⟩, rfl⟩
    exact ⟨_, ⟨h, hws, rfl⟩, siblingsLoop_levelsFrom e DEPTH _ idx⟩

theorem foldl_climb (e : Engine) (all : List Bytes32) (idx : Nat) (sibs : List Bytes32) (j : Nat)
    (cur : Bytes32) (h : all.drop j = sibs) :
    (List.range' j sibs.length).foldl (fun cur lvl =>
      let sib := all.getD lvl ZERO32
      if (idx >>> lvl) &&& 1 = 0 then hashNode e cur sib else hashNode e sib cur) cur =
      Merkle.climb (hashNode e) (idx >>> j) cur sibs := by
  induction sibs generalizing j cur with
  | nil => rfl
  | cons s sibs ih =>
    have hget : all.getD j ZERO32 = s := by
      rw [List.getD_eq_getElem?_getD, ← Nat.add_zero j, ← List.getElem?_drop, h]
      rfl
    have hdrop : all.drop (j + 1) = sibs := by
      rw [← List.drop_drop, h]
      rfl
    have hhalf : idx >>> (j + 1) = idx >>> j / 2 := Nat.shiftRight_succ idx j
    rw [List.length_cons, List.range'_succ, List.foldl_cons, ih (j + 1) _ hdrop, hget,
      Merkle.climb, hhalf, Nat.and_one_is_mod]

theorem climbProof_eq {e : Engine} {leaf : Bytes32} {idx : Nat} {sibs : List Bytes32}
    (h : sibs.length = DEPTH) :
    climbProof e leaf idx sibs = Merkle.climb (hashNode e) idx leaf sibs := by
  have := foldl_climb e sibs idx sibs 0 leaf rfl
  rw [climbProof, ← h, List.range_eq_range']
  exact this

/-- **A path of the tree climbs to its root.** -/
theorem climb_merkleProof {e : Engine} {ws : List Leaf} {idx : Nat} {w : Leaf}
    {sibs : List Bytes32} (h : merkleProof e ws idx = some sibs) (hw : ws[idx]? = some w) :
    sibs.length = DEPTH ∧ Merkle.climb (hashNode e) idx (w.hash e) sibs = rootOf e ws := by
  obtain ⟨hb, rfl⟩ := merkleProof_eq_some.mp h
  obtain ⟨hidx, -⟩ := List.getElem?_eq_some_iff.mp hw
  have hle : (ws.map (Leaf.hash e)).length ≤ 2 ^ DEPTH := by
    rw [List.length_map]
    exact hb.length
  have hleaf : (Merkle.pad ZERO32 DEPTH (ws.map (Leaf.hash e))).getD idx ZERO32 = w.hash e := by
    rw [Merkle.pad, List.getD_append _ _ _ _ (by rw [List.length_map]; exact hidx),
      List.getD_eq_getElem?_getD, List.getElem?_map, hw]
    rfl
  refine ⟨Merkle.path_length _ _ _, ?_⟩
  rw [← hleaf, Merkle.climb_path (Merkle.pad_length hle) (hidx.trans_le hb.length), rootOf,
    Merkle.prefixRoot_eq hle]

theorem computeBetsRoot_eq_some {e : Engine} {bets : List Bet} {root : Bytes32} :
    computeBetsRoot e bets = some root ↔ (∀ b ∈ bets, b.Valid) ∧
      HashChain.chain (hashNode e) ZERO32 (bets.map (Bet.hash e)) = root := by
  unfold computeBetsRoot HashChain.chain
  generalize (ZERO32 : Bytes32) = acc
  induction bets generalizing acc with
  | nil => simp
  | cons b bets ih =>
    simp only [List.foldlM_cons, Option.bind_eq_bind, Option.bind_eq_some_iff,
      Option.map_eq_some_iff, betsLeaf_eq_some, ih, List.forall_mem_cons, List.map_cons,
      List.foldl_cons]
    constructor
    · rintro ⟨_, ⟨_, ⟨hb, rfl⟩, rfl⟩, hbs, rfl⟩
      exact ⟨⟨hb, hbs⟩, rfl⟩
    · rintro ⟨⟨hb, hbs⟩, rfl⟩
      exact ⟨_, ⟨_, ⟨hb, rfl⟩, rfl⟩, hbs, rfl⟩

/-! ### Binding -/

/-- What `hashNode` hashes. -/
def nodeMessage (p : Bytes32 × Bytes32) : Bytes := p.1.toList ++ p.2.toList

/-- Everything that is hashed for the payout root of a list. -/
def treeMessages (e : Engine) (ws : List Leaf) : List Bytes :=
  ws.map Leaf.message ++
    (Merkle.prefixJoins (hashNode e) DEPTH ZERO32 (ws.map (Leaf.hash e))).map nodeMessage

/-- Everything that is hashed for the bets root of a list. -/
def chainMessages (e : Engine) (bets : List Bet) : List Bytes :=
  bets.map Bet.message ++
    (HashChain.links (hashNode e) ZERO32 (bets.map (Bet.hash e))).map nodeMessage

/-- No two of the messages collide. -/
def CollisionFree (e : Engine) (msgs : List Bytes) : Prop :=
  ∀ a ∈ msgs, ∀ b ∈ msgs, e.blake2b a = e.blake2b b → a = b

/-- None of the messages hashes to the pad. -/
def NoZeroDigest (e : Engine) (msgs : List Bytes) : Prop := ∀ m ∈ msgs, e.blake2b m ≠ ZERO32

theorem collisionFree_iff_nodup {e : Engine} {msgs : List Bytes} :
    (msgs.dedup.map e.blake2b).Nodup ↔ CollisionFree e msgs := by
  rw [List.nodup_map_iff_inj_on msgs.nodup_dedup]
  simp only [List.mem_dedup, CollisionFree]

instance (e : Engine) (msgs : List Bytes) : Decidable (CollisionFree e msgs) :=
  decidable_of_iff _ collisionFree_iff_nodup

instance (e : Engine) (msgs : List Bytes) : Decidable (NoZeroDigest e msgs) :=
  inferInstanceAs (Decidable (∀ m ∈ msgs, e.blake2b m ≠ ZERO32))

theorem CollisionFree.injOn {e : Engine} {msgs : List Bytes} (h : CollisionFree e msgs) :
    {m | m ∈ msgs}.InjOn e.blake2b := fun a ha b hb hab => h a ha b hb hab

theorem nodeMessage_inj : Function.Injective nodeMessage := by
  rintro ⟨a, b⟩ ⟨c, d⟩ h
  obtain ⟨h₁, h₂⟩ := List.append_inj h (by rw [List.Vector.toList_length,
    List.Vector.toList_length])
  exact Prod.ext (List.Vector.eq _ _ h₁) (List.Vector.eq _ _ h₂)

/-- Where messages do not collide, joins do not. -/
theorem injOn_hashNode {e : Engine} {S : Set Bytes} (hS : S.InjOn e.blake2b) :
    {p | nodeMessage p ∈ S}.InjOn fun p => hashNode e p.1 p.2 :=
  fun _ hp _ hq h => nodeMessage_inj (hS hp hq h)

theorem map_hash_inj {β : Type} {e : Engine} {S : Set Bytes} (hS : S.InjOn e.blake2b)
    {message : β → Bytes} {P : β → Prop}
    (hinj : ∀ a b, P a → P b → message a = message b → a = b) {l l' : List β}
    (hP : ∀ a ∈ l, P a) (hP' : ∀ a ∈ l', P a) (hl : ∀ a ∈ l, message a ∈ S)
    (hl' : ∀ a ∈ l', message a ∈ S)
    (h : l.map (fun a => e.blake2b (message a)) = l'.map fun a => e.blake2b (message a)) :
    l = l' := by
  induction l generalizing l' with
  | nil => exact (List.map_eq_nil_iff.mp h.symm).symm
  | cons a l ih =>
    match l', h with
    | b :: l', h =>
      rw [List.map_cons, List.map_cons] at h
      obtain ⟨hab, hrest⟩ := List.cons.inj h
      rw [List.forall_mem_cons] at hP hP' hl hl'
      rw [hinj a b hP.1 hP'.1 (hS hl.1 hl'.1 hab), ih hP.2 hP'.2 hl.2 hl'.2 hrest]

/-- **The payout root binds its leaves.** -/
theorem rootOf_inj {e : Engine} {S : Set Bytes} (hS : S.InjOn e.blake2b) {ws ws' : List Leaf}
    (hb : Buildable ws) (hb' : Buildable ws') (hm : ∀ m ∈ treeMessages e ws, m ∈ S)
    (hm' : ∀ m ∈ treeMessages e ws', m ∈ S)
    (hlen : ws.length = ws'.length ∨ ∀ m ∈ S, e.blake2b m ≠ ZERO32)
    (h : rootOf e ws = rootOf e ws') : ws = ws' := by
  have hjoins : ∀ {ws : List Leaf}, (∀ m ∈ treeMessages e ws, m ∈ S) →
      ∀ p ∈ Merkle.prefixJoins (hashNode e) DEPTH ZERO32 (ws.map (Leaf.hash e)),
        p ∈ {p | nodeMessage p ∈ S} :=
    fun hm p hp => hm _ (List.mem_append_right _ (List.mem_map_of_mem hp))
  have hleaves : ∀ {ws : List Leaf}, (∀ m ∈ treeMessages e ws, m ∈ S) →
      ∀ w ∈ ws, w.message ∈ S :=
    fun hm w hw => hm _ (List.mem_append_left _ (List.mem_map_of_mem hw))
  have hzero : ∀ {ws : List Leaf}, (∀ m ∈ S, e.blake2b m ≠ ZERO32) →
      (∀ m ∈ treeMessages e ws, m ∈ S) → ZERO32 ∉ ws.map (Leaf.hash e) := by
    intro ws hz hm hmem
    obtain ⟨w, hw, he⟩ := List.mem_map.mp hmem
    exact hz _ (hleaves hm w hw) he
  have hmap := Merkle.prefixRoot_inj (injOn_hashNode hS) (hjoins hm) (hjoins hm')
    (by rw [List.length_map]; exact hb.length) (by rw [List.length_map]; exact hb'.length)
    (by
      rw [List.length_map, List.length_map]
      exact hlen.imp_right fun hz => ⟨hzero hz hm, hzero hz hm'⟩) h
  exact map_hash_inj hS (fun _ _ hw hw' => Leaf.message_inj hw hw') hb.payable hb'.payable
    (hleaves hm) (hleaves hm') hmap

/-- **The bets root binds its bets and their order.** -/
theorem computeBetsRoot_inj {e : Engine} {S : Set Bytes} (hS : S.InjOn e.blake2b)
    {bets bets' : List Bet} {root : Bytes32}
    (hlen : bets.length = bets'.length ∨ ∀ m ∈ S, e.blake2b m ≠ ZERO32)
    (hm : ∀ m ∈ chainMessages e bets, m ∈ S) (hm' : ∀ m ∈ chainMessages e bets', m ∈ S)
    (h : computeBetsRoot e bets = some root) (h' : computeBetsRoot e bets' = some root) :
    bets = bets' := by
  obtain ⟨hv, rfl⟩ := computeBetsRoot_eq_some.mp h
  obtain ⟨hv', hr⟩ := computeBetsRoot_eq_some.mp h'
  have hlinks : ∀ {bets : List Bet}, (∀ m ∈ chainMessages e bets, m ∈ S) →
      ∀ p ∈ HashChain.links (hashNode e) ZERO32 (bets.map (Bet.hash e)),
        p ∈ {p | nodeMessage p ∈ S} :=
    fun hm p hp => hm _ (List.mem_append_right _ (List.mem_map_of_mem hp))
  have hbets : ∀ {bets : List Bet}, (∀ m ∈ chainMessages e bets, m ∈ S) →
      ∀ b ∈ bets, b.message ∈ S :=
    fun hm b hb => hm _ (List.mem_append_left _ (List.mem_map_of_mem hb))
  have hstart : (bets'.map (Bet.hash e)).length = (bets.map (Bet.hash e)).length ∨
      ∀ p ∈ {p | nodeMessage p ∈ S}, hashNode e p.1 p.2 ≠ ZERO32 := by
    rw [List.length_map, List.length_map]
    exact hlen.imp Eq.symm fun hz p hp => hz _ hp
  have hmap := HashChain.chain_inj (injOn_hashNode hS) hstart (hlinks hm') (hlinks hm) hr
  exact (map_hash_inj hS (fun _ _ hb hb' => Bet.message_inj hb hb') hv' hv (hbets hm')
    (hbets hm) hmap).symm

end KANet.Payout
