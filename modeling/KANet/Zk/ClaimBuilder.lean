import KANet.Covenant.CloseZkV2
import KANet.Script.Buffer

/-!
# `closezk-v2-claim-builder.mjs`

A claim on a `CloseZkV2` contract is built off the chain.  The builder reads the state out
of the redeem script by its offsets and puts the state after the claim in its place.

* `parseCloseZkV2State_redeem` — what is read of a state that the contract wrote.
-/

namespace KANet.Zk

open KANet.Lib KANet.Script KANet.Covenant
open CloseZkV2 (State)

/-! ### Reading the state -/

def STATE_START : Nat := 1
def STATE_LEN : Nat := 213

namespace OFF

def attestedWinner : Nat := 0
def closed : Nat := 9
def payoutRootField : Nat := 18
def consolidated_pool : Nat := 51
def wWordsStart : Nat := 60

end OFF

abbrev NULLIFIER_WORDS : Nat := 17

def readI64 (region : Bytes) (markerOff : Nat) (expectMarker : UInt8) : Option Int := do
  require (region[markerOff]? = some expectMarker)
  readBigInt64LE region (markerOff + 1)

/-- The numbers of a family, if each can be read. -/
def readAll {n : Nat} (read : Fin n → Option Int) : Option (Fin n → Int) :=
  if h : ∀ i, (read i).isSome = true then some fun i => (read i).get (h i) else none

def bytes32 (bs : Bytes) : Option Bytes32 :=
  if h : bs.length = 32 then some ⟨bs, h⟩ else none

/-- The state in a redeem script; with `none` for the expected latch, any latch will do. -/
def parseCloseZkV2State (redeem : Bytes) (expectedClosed : Option Int) : Option State := do
  require (STATE_START + STATE_LEN ≤ redeem.length)
  let region := slice redeem STATE_START STATE_LEN
  let attestedWinner ← (readI64 region OFF.attestedWinner 0x08).map toNumber
  let closed ← (readI64 region OFF.closed 0x08).map toNumber
  require (region[OFF.payoutRootField]? = some 0x20)
  let payoutRootField ← bytes32 (slice region (OFF.payoutRootField + 1) 32)
  let consolidated_pool ← readI64 region OFF.consolidated_pool 0x08
  let w ← readAll fun i : Fin NULLIFIER_WORDS => readI64 region (OFF.wWordsStart + 9 * i) 0x08
  require (attestedWinner = 0 ∨ attestedWinner = 1)
  require (∀ c ∈ expectedClosed, closed = c)
  some { attestedWinner, closed, payoutRootField, consolidated_pool, w }

/-! ### The place of a leaf -/

/-- The word and the bit of a leaf: the quotient is rounded down, the remainder has the sign of
the index. -/
def nullifierBitPosition (merkleIndex : Int) : Option (Int × Int) := do
  let wordIdx := merkleIndex / 63
  let bitIn := merkleIndex.tmod 63
  require (wordIdx < NULLIFIER_WORDS)
  some (wordIdx, bitIn)

/-- `state['w' + i]`, which there is for `w0` to `w16`. -/
def wordAt (w : Words) (i : Int) : Option Int :=
  if h : 0 ≤ i ∧ i < 17 then some (w ⟨i.toNat, by omega⟩) else none

/-- `w >> b` -/
def shiftRight (w b : Int) : Int := if 0 ≤ b then w / 2 ^ b.toNat else w * 2 ^ (-b).toNat

def isNullifierBitSet (state : State) (merkleIndex : Int) : Option Bool := do
  let (wordIdx, bitIn) ← nullifierBitPosition merkleIndex
  let w := (wordAt state.w wordIdx).getD 0
  some (decide (shiftRight w bitIn % 2 = 1))

/-! ### Writing the state -/

structure Splice where
  isLast : Bool
  redeemHex : Option Bytes
  newPool : Int
deriving DecidableEq

/-- `p8 + i64(v)`, one word after the other. -/
def wordsLE : List Int → Option Bytes
  | [] => some []
  | v :: vs => do
    let b ← i64LE v
    let bs ← wordsLE vs
    some (0x08 :: (b ++ bs))

/-- The splice from a state that has been read. -/
def spliceFrom (redeem : Bytes) (merkleIndex payout : Int) (state : State) : Option Splice := do
  let (wordIdx, bitIn) ← nullifierBitPosition merkleIndex
  let set ← isNullifierBitSet state merkleIndex
  require (set = false)
  require (1 ≤ payout ∧ payout ≤ state.consolidated_pool)
  let newPool := state.consolidated_pool - payout
  if newPool = 0 then some { isLast := true, redeemHex := none, newPool := 0 }
  else
    let region := slice redeem STATE_START STATE_LEN
    let two ← i64LE 2
    let pool ← i64LE newPool
    let word ← wordAt state.w wordIdx
    let wWords := Function.update state.w (wordIndex wordIdx.toNat)
      (Int.lor word (2 ^ bitIn.toNat))
    let words ← wordsLE (List.ofFn wWords)
    let newState := 0x08 :: (slice region 1 8 ++ (0x08 :: (two ++ (slice region 18 33 ++
      (0x08 :: (pool ++ words))))))
    some { isLast := false
           redeemHex := some (redeem.take 1 ++ newState ++ redeem.drop (STATE_START + STATE_LEN))
           newPool }

def spliceClaimContinuationRedeem (redeem : Bytes) (merkleIndex payout : Int)
    (currentState : Option State) : Option Splice := do
  let state ← match currentState with
    | some state => some state
    | none => parseCloseZkV2State redeem (some 2)
  spliceFrom redeem merkleIndex payout state

/-! ### The places of the fields -/

theorem readI64_at {fs : List Field} {bytes : Bytes} (h : serializeState fs = some bytes)
    {i off : Nat} {n : Int} (hf : fs[i]? = some (.int n)) (hoff : fieldOffset fs i = off) :
    readI64 bytes off 0x08 = some (reread n) := by
  subst hoff
  obtain ⟨b, hb, hs⟩ := serializeState_at h hf
  obtain ⟨bs, hbs, rfl⟩ := Option.map_eq_some_iff.mp hb
  obtain ⟨-, rfl⟩ := num2bin_eq_some.mp hbs
  obtain ⟨hmark, hval⟩ := slice_eq_cons hs
  have hlen : fieldOffset fs i + 1 + 8 ≤ bytes.length := by
    apply le_length_of_slice (by norm_num)
    rw [hval, signMagnitude_length]
  unfold readI64 readBigInt64LE
  rw [require_bind_eq_some, if_pos hlen, hval]
  exact ⟨hmark, rfl⟩

theorem readRoot_at {fs : List Field} {bytes : Bytes} (h : serializeState fs = some bytes)
    {i off : Nat} {r : Bytes32} (hf : fs[i]? = some (.byte32 r)) (hoff : fieldOffset fs i = off) :
    bytes[off]? = some 0x20 ∧ bytes32 (slice bytes (off + 1) 32) = some r := by
  subst hoff
  obtain ⟨b, hb, hs⟩ := serializeState_at h hf
  obtain rfl := Option.some.inj hb
  obtain ⟨hmark, hval⟩ := slice_eq_cons hs
  refine ⟨hmark, ?_⟩
  rw [hval, bytes32, dif_pos (List.Vector.toList_length r)]
  rfl

/-! ### What is read of a state -/

theorem fields_length (s : State) : s.fields.length = 21 := by
  simp [State.fields]

theorem fields_word (s : State) (i : Fin 17) : s.fields[4 + i.val]? = some (.int (s.w i)) := by
  have hdrop : s.fields[4 + i.val]? = ((List.ofFn s.w).map Field.int)[i.val]? := by
    rw [Nat.add_comm]
    rfl
  rw [hdrop, List.getElem?_map, List.getElem?_ofFn, dif_pos i.isLt]
  rfl

theorem fieldOffset_words (s : State) {k : Nat} (hk : k ≤ 17) :
    fieldOffset s.fields (4 + k) = OFF.wWordsStart + 9 * k := by
  have htail := width_words (List.ofFn s.w) (k := k) (by rw [List.length_ofFn]; exact hk)
  rw [Nat.add_comm, fieldOffset, State.fields]
  simp only [List.take_succ_cons, List.map_cons, List.sum_cons, htail]
  show 9 + (9 + (33 + (9 + 9 * k))) = 60 + 9 * k
  ring

theorem length_state {s : State} {bytes : Bytes} (h : serializeState s.fields = some bytes) :
    bytes.length = STATE_LEN := by
  have hall := fieldOffset_words s (le_refl 17)
  rw [fieldOffset, List.take_of_length_le (by rw [fields_length])] at hall
  rw [length_serializeState h, hall]
  rfl

theorem readAll_eq_some {n : Nat} {read : Fin n → Option Int} {f : Fin n → Int}
    (h : ∀ i, read i = some (f i)) : readAll read = some f := by
  have hall : ∀ i, (read i).isSome = true := fun i => by rw [h i]; rfl
  unfold readAll
  rw [dif_pos hall, Option.some.injEq]
  funext i
  simp only [h, Option.get_some]

/-- The state, as the reader takes it. -/
def rereadState (s : State) : State where
  attestedWinner := toNumber (reread s.attestedWinner)
  closed := toNumber (reread s.closed)
  payoutRootField := s.payoutRootField
  consolidated_pool := reread s.consolidated_pool
  w := fun i => reread (s.w i)

theorem rereadState_closed (s : State) : (rereadState s).closed = toNumber (reread s.closed) := by
  rw [rereadState]

theorem rereadState_pool (s : State) :
    (rereadState s).consolidated_pool = reread s.consolidated_pool := by
  rw [rereadState]

theorem rereadState_w (s : State) (i : Fin 17) : (rereadState s).w i = reread (s.w i) := by
  rw [rereadState]

/-- **What is read of a state that the contract wrote.** -/
theorem parseCloseZkV2State_redeem {t : Template} (ht : t.templatePrefix.length = 1) {s : State}
    {bytes : Bytes} (h : serializeState s.fields = some bytes) {expectedClosed : Option Int}
    {s' : State} :
    parseCloseZkV2State (t.redeem bytes) expectedClosed = some s' ↔
      ((rereadState s).attestedWinner = 0 ∨ (rereadState s).attestedWinner = 1) ∧
        (∀ c ∈ expectedClosed, (rereadState s).closed = c) ∧ rereadState s = s' := by
  have hlen := length_state h
  have hregion : slice (t.redeem bytes) STATE_START STATE_LEN = bytes := by
    rw [Template.redeem, List.append_assoc]
    exact slice_append_mid ht hlen
  have hlong : STATE_START + STATE_LEN ≤ (t.redeem bytes).length := by
    rw [Template.redeem, List.length_append, List.length_append, ht, hlen, STATE_START]
    omega
  have hwords : readAll (fun i : Fin NULLIFIER_WORDS =>
      readI64 bytes (OFF.wWordsStart + 9 * i) 0x08) = some fun i => reread (s.w i) :=
    readAll_eq_some fun i => readI64_at h (fields_word s i) (fieldOffset_words s i.isLt.le)
  have hwinner : readI64 bytes OFF.attestedWinner 0x08 = some (reread s.attestedWinner) :=
    readI64_at h (i := 0) rfl rfl
  have hclosed : readI64 bytes OFF.closed 0x08 = some (reread s.closed) :=
    readI64_at h (i := 1) rfl rfl
  have hpool : readI64 bytes OFF.consolidated_pool 0x08 = some (reread s.consolidated_pool) :=
    readI64_at h (i := 3) rfl rfl
  obtain ⟨hmark, hroot⟩ : bytes[OFF.payoutRootField]? = some 0x20 ∧
      bytes32 (slice bytes (OFF.payoutRootField + 1) 32) = some s.payoutRootField :=
    readRoot_at h (i := 2) rfl rfl
  unfold parseCloseZkV2State
  simp only [Option.bind_eq_bind, Option.bind_eq_some_iff, require_eq_some, exists_const, hregion,
    hlong, true_and, hmark, hroot, hwords, hwinner, hclosed, hpool, Option.map_some,
    Option.some.injEq, exists_eq_left']
  simp only [rereadState]

/-! ### Which states survive -/

/-- A state that is read as it was written. -/
structure Readable (s : State) : Prop where
  winner : s.attestedWinner = 0 ∨ s.attestedWinner = 1
  closed : toNumber (reread s.closed) = s.closed
  pool : reread s.consolidated_pool = s.consolidated_pool
  words : ∀ i, reread (s.w i) = s.w i

theorem rereadState_of_readable {s : State} (h : Readable s) : rereadState s = s := by
  have hwinner : toNumber (reread s.attestedWinner) = s.attestedWinner := by
    rcases h.winner with hw | hw
    · rw [hw]
      decide
    · rw [hw]
      decide
  have hwords : (fun i => reread (s.w i)) = s.w := funext h.words
  unfold rereadState
  rw [hwinner, h.closed, h.pool, hwords]

/-- **Which states are read back.** -/
theorem parse_eq_self_iff {t : Template} (ht : t.templatePrefix.length = 1) {s : State}
    {bytes : Bytes} (h : serializeState s.fields = some bytes) {expectedClosed : Option Int} :
    parseCloseZkV2State (t.redeem bytes) expectedClosed = some s ↔
      Readable s ∧ ∀ c ∈ expectedClosed, s.closed = c := by
  rw [parseCloseZkV2State_redeem ht h]
  constructor
  · rintro ⟨hwinner, hclosed, heq⟩
    rw [heq] at hwinner hclosed
    have hlatch : toNumber (reread s.closed) = s.closed := by
      rw [← rereadState_closed, heq]
    have hpool : reread s.consolidated_pool = s.consolidated_pool := by
      rw [← rereadState_pool, heq]
    have hwords : ∀ i, reread (s.w i) = s.w i := by
      intro i
      rw [← rereadState_w, heq]
    exact ⟨⟨hwinner, hlatch, hpool, hwords⟩, hclosed⟩
  · rintro ⟨hr, hclosed⟩
    rw [rereadState_of_readable hr]
    exact ⟨hr.winner, hclosed, rfl⟩

end KANet.Zk
