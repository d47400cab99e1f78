import KANet.Lib.Refuse
import KANet.Lib.Runs
import KANet.Zk.ClaimSplice

/-!
# `closezk-v2-mint.mjs`: the record of a continuation

Once the pool of a market is in a `CloseZkV2` contract, the console keeps a record of the contract's
coin in the market's metadata: where it is, its script and its value, the state of the proof, and
from the close on the pool as it was then.  Several writers read the record, change their part, and
write it back.  One of them writes it anew.

* `after_keeps` — what the other writers keep, in whatever order they come.
* `continuation_law` — from the close on, the pool of then is the value of now and what was claimed.
-/

namespace KANet.Zk

open KANet.Lib KANet.Script KANet.Covenant
open CloseZkV2 (State)

/-! ### The record -/

inductive ProvingStatus
  | pending
  | ready
  | failed
deriving DecidableEq

structure Gate where
  address : String
  outpointTxid : String
  index : Nat
  fundedAtMs : Nat
deriving DecidableEq

structure Proving where
  status : ProvingStatus
  guestPayoutRootHex : Option String
  journalHash : Option String
  imageId : Option String
  gate : Option Gate
  provingError : Option String
deriving DecidableEq

structure Outpoint where
  txid : String
  index : Nat
deriving DecidableEq

/-- Where the coin came from. -/
structure Minted where
  attestedWinner : Int
  attestedAtMs : Int
  mintedAt : String
  sourceCloseAttestTxid : Option String
  sourceZkHandoffTxid : String
deriving DecidableEq

/-- `metadata.zk_continuation`.  The pool at the close is the text of what was given, which may have
been nothing. -/
structure Continuation where
  outpoint : Option Outpoint
  redeemHex : Option Bytes
  valueSompi : Int
  minted : Minted
  proving : Proving
  poolAtZkCloseSompi : Option (Option Int)
  exhausted : Bool
deriving DecidableEq

structure Audit where
  entry : String
  txid : String
  time : String
  newValueSompi : Int
deriving DecidableEq

/-- What these functions use of a market's metadata, as it is parsed. -/
structure Meta where
  zk_continuation : Option Continuation
  zk_escape_audit : List Audit
deriving DecidableEq

/-! ### The writers -/

structure Mint where
  outpointTxid : String
  outpointIndex : Nat
  redeemHex : Bytes
  valueSompi : Int
  attestedWinner : Int
  attestedAtMs : Int
  mintedAt : Option String
  sourceCloseAttestTxid : Option String
  sourceZkHandoffTxid : Option String

structure Ready where
  guestPayoutRootHex : String
  journalHash : String
  imageId : String
  gate : Gate

/-- The spend of the coin, with the coin that continues it. -/
structure Spend where
  outpointTxid : Option String
  outpointIndex : Option Nat
  redeemHex : Option Bytes
  valueSompi : Option Int
  spentEntry : String
  spentTxid : String

inductive RecordError
  | incomplete
  | noContinuation

def pendingProving : Proving where
  status := .pending
  guestPayoutRootHex := none
  journalHash := none
  imageId := none
  gate := none
  provingError := none

def readyProving (o : Ready) : Proving where
  status := .ready
  guestPayoutRootHex := some o.guestPayoutRootHex
  journalHash := some o.journalHash
  imageId := some o.imageId
  gate := some o.gate
  provingError := none

def failedProving (errorMessage : String) : Proving where
  status := .failed
  guestPayoutRootHex := none
  journalHash := none
  imageId := none
  gate := none
  provingError := some (if errorMessage = "" then "unknown error" else errorMessage)

def writeZkContinuation (m : Meta) (o : Mint) (now : String) : Except RecordError Meta := do
  check (o.outpointTxid ≠ "" ∧ o.redeemHex ≠ []) .incomplete
  .ok { m with
    zk_continuation := some
      { outpoint := some ⟨o.outpointTxid, o.outpointIndex⟩
        redeemHex := some o.redeemHex
        valueSompi := o.valueSompi
        minted :=
          { attestedWinner := o.attestedWinner
            attestedAtMs := o.attestedAtMs
            mintedAt := (o.mintedAt.filter (· ≠ "")).getD now
            sourceCloseAttestTxid := o.sourceCloseAttestTxid.filter (· ≠ "")
            sourceZkHandoffTxid :=
            (o.sourceZkHandoffTxid.filter (· ≠ "")).getD o.outpointTxid }
        proving := pendingProving
        poolAtZkCloseSompi := none
        exhausted := false } }

/-- What a spend must say. -/
def Spend.Complete (o : Spend) : Prop :=
  (o.spentEntry ≠ "" ∧ o.spentTxid ≠ "") ∧
    (o.outpointTxid.isSome → o.outpointIndex.isSome ∧ o.redeemHex.getD [] ≠ [] ∧
      o.valueSompi.isSome)

instance (o : Spend) : Decidable o.Complete := inferInstanceAs (Decidable (_ ∧ _))

/-- The pool is written down at the close, once. -/
def stampClose (o : Spend) (zc : Continuation) : Continuation :=
  if o.spentEntry = "zk_close" ∧ zc.poolAtZkCloseSompi = none then
    { zc with poolAtZkCloseSompi := some o.valueSompi }
  else zc

/-- The coin that continues the spent one, or the end. -/
def moveCoin (o : Spend) (zc : Continuation) : Continuation :=
  match o.outpointTxid with
  | some txid =>
    { zc with
      outpoint := some ⟨txid, o.outpointIndex.getD 0⟩
      redeemHex := o.redeemHex
      valueSompi := o.valueSompi.getD 0 }
  | none => { zc with exhausted := true, outpoint := none, redeemHex := none, valueSompi := 0 }

def advanceZkContinuationAfterSpend (m : Meta) (o : Spend) (now : String) :
    Except RecordError Meta := do
  check o.Complete .incomplete
  let zc ← orRefuse m.zk_continuation .noContinuation
  .ok { zk_continuation := some (moveCoin o (stampClose o zc))
        zk_escape_audit := m.zk_escape_audit ++
          [{ entry := o.spentEntry, txid := o.spentTxid, time := now,
             newValueSompi := if o.outpointTxid.isSome then o.valueSompi.getD 0 else 0 }] }

def updateProvingReady (m : Meta) (o : Ready) : Except RecordError Meta := do
  check (o.guestPayoutRootHex ≠ "" ∧ o.journalHash ≠ "" ∧ o.imageId ≠ "" ∧ o.gate.address ≠ "")
    .incomplete
  let zc ← orRefuse m.zk_continuation .noContinuation
  .ok { m with zk_continuation := some { zc with proving := readyProving o } }

def updateProvingFailed (m : Meta) (errorMessage : String) : Except RecordError Meta := do
  let zc ← orRefuse m.zk_continuation .noContinuation
  .ok { m with zk_continuation := some { zc with proving := failedProving errorMessage } }

inductive Call
  | mint (o : Mint) (now : String)
  | advance (o : Spend) (now : String)
  | ready (o : Ready)
  | failed (errorMessage : String)

def call (m : Meta) : Call → Except RecordError Meta
  | .mint o now => writeZkContinuation m o now
  | .advance o now => advanceZkContinuationAfterSpend m o now
  | .ready o => updateProvingReady m o
  | .failed errorMessage => updateProvingFailed m errorMessage

/-- A call that throws has written nothing. -/
def step (m : Meta) (c : Call) : Meta := (call m c).toOption.getD m

def after (m : Meta) (calls : List Call) : Meta := calls.foldl step m

def Call.isMint : Call → Bool
  | .mint .. => true
  | _ => false

def Call.isAdvance : Call → Bool
  | .advance .. => true
  | _ => false

/-! ### The ticks -/

/-- Whether the ticks take the market up. -/
def isCandidate (zc : Continuation) : Bool :=
  !zc.exhausted && zc.proving.status = .ready && zc.outpoint.isSome && zc.redeemHex.isSome

/-- What `zkCloseTickV2` records of a close that has landed. -/
def zkCloseSpend (zc : Continuation) (txid : String) (continuationRedeem : Bytes) : Spend where
  outpointTxid := some txid
  outpointIndex := some 0
  redeemHex := some continuationRedeem
  valueSompi := some zc.valueSompi
  spentEntry := "zk_close"
  spentTxid := txid

def claimSpend (splice : Splice) (txid : String) : Spend :=
  if splice.isLast then
    { outpointTxid := none, outpointIndex := none, redeemHex := none, valueSompi := some 0,
      spentEntry := "claim", spentTxid := txid }
  else
    { outpointTxid := some txid, outpointIndex := some 0, redeemHex := splice.redeemHex,
      valueSompi := some splice.newPool, spentEntry := "claim", spentTxid := txid }

/-- What `_claimOneMarket` records of a payment that has landed. -/
def claimOneMarket (zc : Continuation) (targetIdx payout : Int) (txid : String) :
    Option Spend := do
  require (zc.exhausted = false)
  require (zc.poolAtZkCloseSompi ≠ none)
  let redeem ← zc.redeemHex
  let currentState ← parseCloseZkV2State redeem (some 2)
  let splice ← spliceClaimContinuationRedeem redeem targetIdx payout (some currentState)
  require (txid ≠ "")
  some (claimSpend splice txid)

/-! ### What is kept -/

/-- The pool that a call would write down as the pool at the close. -/
def closeStamp : Call → Option (Option Int)
  | .advance o _ => if o.Complete ∧ o.spentEntry = "zk_close" then some o.valueSompi else none
  | _ => none

/-- What is left of a record after some calls. -/
structure Keeps (zc : Continuation) (calls : List Call) (zc' : Continuation) : Prop where
  minted : zc'.minted = zc.minted
  -- the first close that is recorded, unless there was one already
  stamp : zc'.poolAtZkCloseSompi = zc.poolAtZkCloseSompi.or (calls.findSome? closeStamp)
  exhausted : zc.exhausted = true → zc'.exhausted = true
  proving : (∀ c ∈ calls, c.isAdvance = true) → zc'.proving = zc.proving

theorem Keeps.refl (zc : Continuation) : Keeps zc [] zc :=
  ⟨rfl, (Option.or_none).symm, id, fun _ => rfl⟩

theorem Keeps.cons {zc zc₁ zc₂ : Continuation} {c : Call} {calls : List Call}
    (h : Keeps zc [c] zc₁) (g : Keeps zc₁ calls zc₂) : Keeps zc (c :: calls) zc₂ := by
  refine ⟨g.minted.trans h.minted, ?_, fun he => g.exhausted (h.exhausted he), fun hall => ?_⟩
  · rw [g.stamp, h.stamp, Option.or_assoc]
    congr 1
    rw [List.findSome?_cons, List.findSome?_cons, List.findSome?_nil]
    cases closeStamp c with
    | none => rfl
    | some p => rfl
  · have hc := List.forall_mem_cons.mp hall
    exact (g.proving hc.2).trans (h.proving (List.forall_mem_singleton.mpr hc.1))

/-- A call that changes nothing of the record. -/
theorem Keeps.idle {zc : Continuation} {c : Call} (h : closeStamp c = none) :
    Keeps zc [c] zc := by
  refine ⟨rfl, ?_, id, fun _ => rfl⟩
  rw [List.findSome?_cons, h, List.findSome?_nil, Option.or_none]

theorem stampClose_stamp {o : Spend} (zc : Continuation) (ho : o.Complete) (now : String) :
    (stampClose o zc).poolAtZkCloseSompi =
      zc.poolAtZkCloseSompi.or (closeStamp (.advance o now)) := by
  unfold stampClose closeStamp
  by_cases he : o.spentEntry = "zk_close"
  · cases hp : zc.poolAtZkCloseSompi with
    | none => simp [he, ho]
    | some p => simp [hp]
  · simp [he]

theorem advance_keeps (zc : Continuation) {o : Spend} (ho : o.Complete) (now : String) :
    Keeps zc [.advance o now] (moveCoin o (stampClose o zc)) := by
  have hstamp := stampClose_stamp zc ho now
  have hsame : (stampClose o zc).minted = zc.minted ∧
      (stampClose o zc).exhausted = zc.exhausted ∧ (stampClose o zc).proving = zc.proving := by
    unfold stampClose
    by_cases h : o.spentEntry = "zk_close" ∧ zc.poolAtZkCloseSompi = none
    · rw [if_pos h]
      exact ⟨rfl, rfl, rfl⟩
    · rw [if_neg h]
      exact ⟨rfl, rfl, rfl⟩
  obtain ⟨hminted, hex, hproving⟩ := hsame
  have hone : [Call.advance o now].findSome? closeStamp = closeStamp (.advance o now) := by
    rw [List.findSome?_cons, List.findSome?_nil]
    cases closeStamp (.advance o now) with
    | none => rfl
    | some p => rfl
  rw [← hone] at hstamp
  unfold moveCoin
  cases o.outpointTxid with
  | none => exact ⟨hminted, hstamp, fun _ => rfl, fun _ => hproving⟩
  | some txid => exact ⟨hminted, hstamp, fun h => hex.trans h, fun _ => hproving⟩

/-- A call that replaces the proof. -/
theorem proving_keeps (zc : Continuation) {c : Call} (proving : Proving)
    (hc : c.isAdvance = false) (hstamp : closeStamp c = none) :
    Keeps zc [c] { zc with proving } := by
  refine ⟨rfl, (Keeps.idle hstamp).stamp, id, fun hall => ?_⟩
  rw [List.forall_mem_singleton.mp hall] at hc
  cases hc

/-- **What one call keeps**, if it is no mint. -/
theorem step_keeps {m : Meta} {zc : Continuation} (hzc : m.zk_continuation = some zc) {c : Call}
    (hc : c.isMint = false) :
    ∃ zc', (step m c).zk_continuation = some zc' ∧ Keeps zc [c] zc' := by
  cases c with
  | mint o now => cases hc
  | advance o now =>
    by_cases ho : o.Complete
    · refine ⟨_, ?_, advance_keeps zc ho now⟩
      rw [step, call, advanceZkContinuationAfterSpend, hzc, check, if_pos ho]
      rfl
    · refine ⟨zc, ?_, Keeps.idle ?_⟩
      · rw [step, call, advanceZkContinuationAfterSpend, check, if_neg ho]
        exact hzc
      · exact if_neg fun h => ho h.1
  | ready o =>
    by_cases ho : o.guestPayoutRootHex ≠ "" ∧ o.journalHash ≠ "" ∧ o.imageId ≠ "" ∧
        o.gate.address ≠ ""
    · refine ⟨_, ?_, proving_keeps zc (readyProving o) rfl rfl⟩
      rw [step, call, updateProvingReady, hzc, check, if_pos ho]
      rfl
    · refine ⟨zc, ?_, Keeps.idle rfl⟩
      rw [step, call, updateProvingReady, check, if_neg ho]
      exact hzc
  | failed errorMessage =>
    refine ⟨_, ?_, proving_keeps zc (failedProving errorMessage) rfl rfl⟩
    rw [step, call, updateProvingFailed, hzc]
    rfl

/-- **What any calls keep**, if none is a mint. -/
theorem after_keeps {m : Meta} {zc : Continuation} (hzc : m.zk_continuation = some zc)
    {calls : List Call} (hcalls : ∀ c ∈ calls, c.isMint = false) :
    ∃ zc', (after m calls).zk_continuation = some zc' ∧ Keeps zc calls zc' := by
  induction calls generalizing m zc with
  | nil => exact ⟨zc, hzc, .refl zc⟩
  | cons c calls ih =>
    obtain ⟨hc, hrest⟩ := List.forall_mem_cons.mp hcalls
    obtain ⟨zc₁, hzc₁, h₁⟩ := step_keeps hzc hc
    obtain ⟨zc₂, hzc₂, h₂⟩ := ih hzc₁ hrest
    exact ⟨zc₂, hzc₂, h₁.cons h₂⟩

theorem exhausted_not_candidate {zc : Continuation} (h : zc.exhausted = true) :
    isCandidate zc = false := by
  rw [isCandidate, h]
  rfl

/-! ### The pool in a spliced script -/

/-- The pool that a reader finds in a script. -/
def poolIn (redeem : Bytes) : Option Int :=
  readI64 (slice redeem STATE_START STATE_LEN) OFF.consolidated_pool 0x08

theorem parse_pool {redeem : Bytes} {expectedClosed : Option Int} {s : State}
    (h : parseCloseZkV2State redeem expectedClosed = some s) :
    STATE_START + STATE_LEN ≤ redeem.length ∧ poolIn redeem = some s.consolidated_pool := by
  simp only [parseCloseZkV2State, Option.bind_eq_bind, Option.bind_eq_some_iff, require_eq_some,
    exists_const, Option.some.injEq] at h
  obtain ⟨hlen, _, -, _, -, -, _, -, pool, hpool, _, -, -, -, rfl⟩ := h
  exact ⟨hlen, hpool⟩

theorem length_i64LE {n : Int} {b : Bytes} (h : i64LE n = some b) : b.length = 8 := by
  unfold i64LE at h
  by_cases hn : TwosFits 8 n
  · rw [if_pos hn, Option.some.injEq] at h
    rw [← h, twosComplement_length]
  · rw [if_neg hn] at h
    cases h

theorem read_i64LE {n : Int} {b : Bytes} (h : i64LE n = some b) : ofTwosComplement b = n := by
  unfold i64LE at h
  by_cases hn : TwosFits 8 n
  · rw [if_pos hn, Option.some.injEq] at h
    rw [← h, ofTwosComplement_twosComplement (by norm_num) hn]
  · rw [if_neg hn] at h
    cases h

theorem length_wordsLE {vs : List Int} {bs : Bytes} (h : wordsLE vs = some bs) :
    bs.length = 9 * vs.length := by
  induction vs generalizing bs with
  | nil =>
    obtain rfl := Option.some.inj h
    rfl
  | cons v vs ih =>
    simp only [wordsLE, Option.bind_eq_bind, Option.bind_eq_some_iff, Option.some.injEq] at h
    obtain ⟨b, hb, rest, hrest, rfl⟩ := h
    rw [List.length_cons, List.length_append, length_i64LE hb, ih hrest, List.length_cons]
    ring

/-- A number after a marker reads as what was written. -/
theorem readI64_mid {a b c : Bytes} {off : Nat} {n : Int} (ha : a.length = off)
    (hb : i64LE n = some b) : readI64 (a ++ 0x08 :: (b ++ c)) off 0x08 = some n := by
  have hmark : (a ++ 0x08 :: (b ++ c))[off]? = some 0x08 := by
    rw [← ha, List.getElem?_append_right (le_refl _), Nat.sub_self]
    rfl
  have hval : slice (a ++ 0x08 :: (b ++ c)) (off + 1) 8 = b := by
    have hsplit : a ++ 0x08 :: (b ++ c) = (a ++ [0x08]) ++ (b ++ c) := by simp
    have hpre : (a ++ [0x08]).length = off + 1 := by
      rw [List.length_append, ha]
      rfl
    rw [hsplit]
    exact slice_append_mid hpre (length_i64LE hb)
  have hlen : off + 1 + 8 ≤ (a ++ 0x08 :: (b ++ c)).length := by
    simp only [List.length_append, List.length_cons, length_i64LE hb, ha]
    omega
  unfold readI64 readBigInt64LE
  rw [require_bind_eq_some, if_pos hlen, hval, read_i64LE hb]
  exact ⟨hmark, rfl⟩

/-- **The script that a splice makes has the new pool in it.** -/
theorem splice_pool {redeem : Bytes} {merkleIndex payout : Int} {s : State} {r : Splice}
    (hlong : STATE_START + STATE_LEN ≤ redeem.length)
    (h : spliceFrom redeem merkleIndex payout s = some r) :
    r.newPool = s.consolidated_pool - payout ∧
      (r.isLast = true → r.newPool = 0) ∧
        (r.isLast = false → ∃ next, r.redeemHex = some next ∧ poolIn next = some r.newPool) := by
  simp only [spliceFrom, Option.bind_eq_bind, Option.bind_eq_some_iff, require_eq_some,
    exists_const] at h
  obtain ⟨⟨q, b⟩, -, set, -, -, -, h⟩ := h
  by_cases hlast : s.consolidated_pool - payout = 0
  · rw [if_pos hlast, Option.some.injEq] at h
    rw [← h]
    exact ⟨hlast.symm, fun _ => rfl, nofun⟩
  · rw [if_neg hlast] at h
    simp only [Option.bind_eq_some_iff, Option.some.injEq] at h
    obtain ⟨two, htwo, pool, hpool, word, -, words, hwords, rfl⟩ := h
    refine ⟨rfl, nofun, fun _ => ⟨_, rfl, ?_⟩⟩
    have hregion : (slice redeem STATE_START STATE_LEN).length = STATE_LEN := length_slice hlong
    have hw : (slice (slice redeem STATE_START STATE_LEN) 1 8).length = 8 :=
      length_slice (by rw [hregion]; decide)
    have hr : (slice (slice redeem STATE_START STATE_LEN) 18 33).length = 33 :=
      length_slice (by rw [hregion]; decide)
    have hlenWords : words.length = 153 := by
      rw [length_wordsLE hwords, List.length_ofFn]
    have hhead : (redeem.take 1).length = STATE_START := by
      rw [List.length_take]
      exact Nat.min_eq_left (le_trans (by decide) hlong)
    -- the state, cut before the pool
    have hcut : (0x08 :: (slice (slice redeem STATE_START STATE_LEN) 1 8 ++ (0x08 :: (two ++
        (slice (slice redeem STATE_START STATE_LEN) 18 33 ++ (0x08 :: (pool ++ words)))))) :
          Bytes) =
        (0x08 :: (slice (slice redeem STATE_START STATE_LEN) 1 8 ++ (0x08 :: (two ++
          slice (slice redeem STATE_START STATE_LEN) 18 33)))) ++ 0x08 :: (pool ++ words) := by
      simp
    have hfront : (0x08 :: (slice (slice redeem STATE_START STATE_LEN) 1 8 ++ (0x08 :: (two ++
        slice (slice redeem STATE_START STATE_LEN) 18 33))) : Bytes).length =
          OFF.consolidated_pool := by
      simp only [List.length_cons, List.length_append, hw, hr, length_i64LE htwo]
      rfl
    rw [hcut]
    generalize (0x08 :: (slice (slice redeem STATE_START STATE_LEN) 1 8 ++ (0x08 :: (two ++
      slice (slice redeem STATE_START STATE_LEN) 18 33))) : Bytes) = front at hfront ⊢
    have hall : (front ++ 0x08 :: (pool ++ words)).length = STATE_LEN := by
      simp only [List.length_append, List.length_cons, hfront, length_i64LE hpool, hlenWords]
      rfl
    rw [poolIn, List.append_assoc, slice_append_mid hhead hall]
    exact readI64_mid hfront hpool

/-! ### From the close on -/

/-- Whoever reads the recorded script finds the recorded value. -/
def Coherent (zc : Continuation) : Prop :=
  ∀ redeem ∈ zc.redeemHex, ∀ s, parseCloseZkV2State redeem (some 2) = some s →
    s.consolidated_pool = zc.valueSompi

/-- What the writers do after the close: the proof may be replaced, and payments are recorded as
the tick records them. -/
inductive Paying (m : Meta) : Call × Int → Meta → Prop
  | proving (c : Call) (hm : c.isMint = false) (ha : c.isAdvance = false) :
      Paying m (c, 0) (step m c)
  | claim (zc : Continuation) (hzc : m.zk_continuation = some zc) (targetIdx payout : Int)
      (txid now : String) (o : Spend) (ho : claimOneMarket zc targetIdx payout txid = some o) :
      Paying m (.advance o now, payout) (step m (.advance o now))

def valueOf (m : Meta) : Int := m.zk_continuation.elim 0 Continuation.valueSompi

/-- The record after the close. -/
structure Closed (pool : Option Int) (m : Meta) : Prop where
  record : ∃ zc, m.zk_continuation = some zc ∧ zc.poolAtZkCloseSompi = some pool ∧ Coherent zc

theorem claimOneMarket_eq_some {zc : Continuation} {targetIdx payout : Int} {txid : String}
    {o : Spend} (h : claimOneMarket zc targetIdx payout txid = some o) :
    txid ≠ "" ∧ ∃ redeem s r, zc.redeemHex = some redeem ∧
      parseCloseZkV2State redeem (some 2) = some s ∧ spliceFrom redeem targetIdx payout s = some r ∧
        claimSpend r txid = o := by
  simp only [claimOneMarket, Option.bind_eq_bind, Option.bind_eq_some_iff, require_eq_some,
    exists_const, Option.some.injEq] at h
  obtain ⟨-, -, redeem, hredeem, s, hs, r, hr, htx, rfl⟩ := h
  exact ⟨htx, redeem, s, r, hredeem, hs, hr, rfl⟩

/-- A call that replaces the proof leaves the coin alone. -/
theorem step_coin {m : Meta} {zc : Continuation} (hzc : m.zk_continuation = some zc) {c : Call}
    (hm : c.isMint = false) (ha : c.isAdvance = false) :
    ∃ zc', (step m c).zk_continuation = some zc' ∧ zc'.redeemHex = zc.redeemHex ∧
      zc'.valueSompi = zc.valueSompi := by
  cases c with
  | mint o now => cases hm
  | advance o now => cases ha
  | ready o =>
    by_cases ho : o.guestPayoutRootHex ≠ "" ∧ o.journalHash ≠ "" ∧ o.imageId ≠ "" ∧
        o.gate.address ≠ ""
    · refine ⟨{ zc with proving := readyProving o }, ?_, rfl, rfl⟩
      rw [step, call, updateProvingReady, hzc, check, if_pos ho]
      rfl
    · refine ⟨zc, ?_, rfl, rfl⟩
      rw [step, call, updateProvingReady, check, if_neg ho]
      exact hzc
  | failed errorMessage =>
    refine ⟨{ zc with proving := failedProving errorMessage }, ?_, rfl, rfl⟩
    rw [step, call, updateProvingFailed, hzc]
    rfl

theorem step_advance {m : Meta} {zc : Continuation} (hzc : m.zk_continuation = some zc) {o : Spend}
    (ho : o.Complete) (now : String) :
    (step m (.advance o now)).zk_continuation = some (moveCoin o (stampClose o zc)) := by
  rw [step, call, advanceZkContinuationAfterSpend, hzc, check, if_pos ho]
  rfl

/-- **A payment moves its amount out of the recorded value.** -/
theorem claim_moves {zc : Continuation} (hc : Coherent zc) {targetIdx payout : Int} {txid : String}
    {o : Spend} (ho : claimOneMarket zc targetIdx payout txid = some o) :
    o.Complete ∧ stampClose o zc = zc ∧ Coherent (moveCoin o zc) ∧
      zc.valueSompi = (moveCoin o zc).valueSompi + payout := by
  obtain ⟨htx, redeem, s, r, hredeem, hs, hr, rfl⟩ := claimOneMarket_eq_some ho
  obtain ⟨hlong, -⟩ := parse_pool hs
  obtain ⟨hnew, hlast, hnext⟩ := splice_pool hlong hr
  have hpool : s.consolidated_pool = zc.valueSompi := hc redeem hredeem s hs
  have hentry : ∀ o : Spend, o.spentEntry = "claim" → stampClose o zc = zc := by
    intro o he
    rw [stampClose, if_neg]
    intro h
    rw [he] at h
    exact absurd h.1 (by decide)
  cases hl : r.isLast with
  | true =>
    rw [claimSpend, if_pos hl]
    refine ⟨⟨⟨(by decide : "claim" ≠ ""), htx⟩, nofun⟩, hentry _ rfl, nofun, ?_⟩
    show zc.valueSompi = 0 + payout
    have := hlast hl
    omega
  | false =>
    obtain ⟨next, hnextEq, hpoolIn⟩ := hnext hl
    have hne : r.redeemHex.getD [] ≠ [] := by
      intro h0
      rw [hnextEq, Option.getD_some] at h0
      rw [h0] at hpoolIn
      cases hpoolIn
    rw [claimSpend, if_neg (by rw [hl]; decide)]
    refine ⟨⟨⟨(by decide : "claim" ≠ ""), htx⟩, fun _ => ⟨rfl, hne, rfl⟩⟩, hentry _ rfl, ?_, ?_⟩
    · intro redeem' hredeem' s' hs'
      rw [Option.mem_def] at hredeem'
      have hsame : next = redeem' := Option.some.inj (hnextEq.symm.trans hredeem')
      obtain ⟨-, hread⟩ := parse_pool hs'
      rw [← hsame, hpoolIn] at hread
      exact (Option.some.inj hread).symm
    · show zc.valueSompi = r.newPool + payout
      omega

theorem Closed.step {pool : Option Int} {m m' : Meta} {a : Call × Int} (hm : Closed pool m)
    (h : Paying m a m') : Closed pool m' ∧ valueOf m = valueOf m' + a.2 := by
  obtain ⟨zc, hzc, hpool, hc⟩ := hm
  cases h with
  | proving c hmint hadv =>
    obtain ⟨zc', hzc', hredeem, hvalue⟩ := step_coin hzc hmint hadv
    obtain ⟨zc'', hzc'', hk⟩ := step_keeps hzc hmint
    obtain rfl := Option.some.inj (hzc'.symm.trans hzc'')
    refine ⟨⟨zc', hzc', ?_, ?_⟩, ?_⟩
    · rw [hk.stamp, hpool]
      rfl
    · rw [Coherent, hredeem, hvalue]
      exact hc
    · rw [valueOf, valueOf, hzc, hzc']
      show zc.valueSompi = zc'.valueSompi + 0
      rw [hvalue, add_zero]
  | claim zc₁ hzc₁ targetIdx payout txid now o ho =>
    obtain rfl := Option.some.inj (hzc.symm.trans hzc₁)
    obtain ⟨hcomplete, hstamp, hc', hvalue⟩ := claim_moves hc ho
    have hstep := step_advance hzc hcomplete now
    rw [hstamp] at hstep
    refine ⟨⟨_, hstep, ?_, hc'⟩, ?_⟩
    · rw [moveCoin]
      cases o.outpointTxid with
      | none => exact hpool
      | some t => exact hpool
    · rw [valueOf, valueOf, hzc, hstep]
      exact hvalue

/-- A close that has landed is recorded with the value there was. -/
theorem close_closed {m : Meta} {zc : Continuation} (hzc : m.zk_continuation = some zc)
    (hnone : zc.poolAtZkCloseSompi = none) {txid : String} {redeem : Bytes} (htx : txid ≠ "")
    (hne : redeem ≠ [])
    (hread : ∀ s, parseCloseZkV2State redeem (some 2) = some s →
      s.consolidated_pool = zc.valueSompi) (now : String) :
    Closed (some zc.valueSompi) (step m (.advance (zkCloseSpend zc txid redeem) now)) ∧
      valueOf (step m (.advance (zkCloseSpend zc txid redeem) now)) = zc.valueSompi := by
  have hcomplete : (zkCloseSpend zc txid redeem).Complete :=
    ⟨⟨(by decide : "zk_close" ≠ ""), htx⟩, fun _ => ⟨rfl, hne, rfl⟩⟩
  have hstep := step_advance hzc hcomplete now
  have hstamp : stampClose (zkCloseSpend zc txid redeem) zc =
      { zc with poolAtZkCloseSompi := some (some zc.valueSompi) } := if_pos ⟨rfl, hnone⟩
  rw [hstamp] at hstep
  refine ⟨⟨_, hstep, rfl, ?_⟩, ?_⟩
  · intro redeem' hredeem' s hs
    obtain rfl := Option.some.inj hredeem'
    exact hread s hs
  · rw [valueOf, hstep]
    rfl

/-- **The account of a continuation.**  As long as it is not minted anew, the pool at the close is
written once, with the first close that is recorded; a spend leaves the proof alone; and what is
exhausted stays so and is not taken up again.  From the close on, the pool of then is the recorded
value and everything that was claimed since. -/
theorem continuation_law {m : Meta} {zc : Continuation} (hzc : m.zk_continuation = some zc) :
    (∀ calls : List Call, (∀ c ∈ calls, c.isMint = false) →
      ∃ zc', (after m calls).zk_continuation = some zc' ∧ Keeps zc calls zc' ∧
        (zc.exhausted = true → isCandidate zc' = false)) ∧
      (∀ (txid : String) (redeem : Bytes) (now : String), zc.poolAtZkCloseSompi = none →
        txid ≠ "" → redeem ≠ [] →
        (∀ s, parseCloseZkV2State redeem (some 2) = some s →
          s.consolidated_pool = zc.valueSompi) →
        ∀ acts m', Run Paying (step m (.advance (zkCloseSpend zc txid redeem) now)) acts m' →
          ∃ zc', m'.zk_continuation = some zc' ∧
            zc'.poolAtZkCloseSompi = some (some (zc'.valueSompi + (acts.map Prod.snd).sum))) := by
  refine ⟨?_, ?_⟩
  · intro calls hcalls
    obtain ⟨zc', hzc', hk⟩ := after_keeps hzc hcalls
    exact ⟨zc', hzc', hk, fun h => exhausted_not_candidate (hk.exhausted h)⟩
  · intro txid redeem now hnone htx hne hread acts m' hr
    obtain ⟨hclosed, hvalue⟩ := close_closed hzc hnone htx hne hread now
    have keep : ∀ m a m', Closed (some zc.valueSompi) m → Paying m a m' →
        Closed (some zc.valueSompi) m' := fun _ _ _ hm hs => (hm.step hs).1
    have hledger := hr.ledger valueOf Prod.snd keep (fun _ _ _ hm hs => (hm.step hs).2) hclosed
    obtain ⟨zc', hzc', hpool, -⟩ := hr.invariant keep hclosed
    refine ⟨zc', hzc', ?_⟩
    rw [hpool, ← hvalue, hledger, valueOf, hzc']
    rfl

/-! ### A market -/

/-- The script of a contract with a thousand sompi, of which nothing is paid. -/
def unpaidRedeem : Bytes := splicedTemplate.redeem (encodeState (signMagnitude 8) unpaidState)

theorem parse_unpaidRedeem :
    parseCloseZkV2State unpaidRedeem (some 2) = some unpaidState := by
  refine (parse_eq_self_iff rfl (serializeState_of_stateFits stateFits_unpaidState)).mpr
    ⟨readable_unpaidState, ?_⟩
  intro c hc
  exact Option.some.inj hc

theorem claim_unpaid {zc : Continuation} (hex : zc.exhausted = false)
    (hpool : zc.poolAtZkCloseSompi ≠ none) (hredeem : zc.redeemHex = some unpaidRedeem)
    {payout : Int} (h₁ : 1 ≤ payout) (h₂ : payout ≤ 1000) :
    claimOneMarket zc 3 payout "claim" =
      some (claimSpend (spliceResult splicedTemplate unpaidState 3 payout) "claim") := by
  have hsplice : spliceFrom unpaidRedeem 3 payout unpaidState =
      some (spliceResult splicedTemplate unpaidState 3 payout) :=
    (spliceFrom_eq rfl (serializeState_of_stateFits stateFits_unpaidState) (k := 3)
      (by norm_num)).mpr ⟨by decide, ⟨h₁, h₂⟩, rfl⟩
  simp only [claimOneMarket, Option.bind_eq_bind, Option.bind_eq_some_iff, require_eq_some,
    exists_const]
  exact ⟨hex, hpool, _, hredeem, _, parse_unpaidRedeem, _, hsplice, by decide, rfl⟩

def sampleMint : Mint where
  outpointTxid := "handoff"
  outpointIndex := 0
  redeemHex := [107, 0x51]
  valueSompi := 1000
  attestedWinner := 0
  attestedAtMs := 7
  mintedAt := none
  sourceCloseAttestTxid := none
  sourceZkHandoffTxid := none

def mintedRecord : Continuation where
  outpoint := some ⟨"handoff", 0⟩
  redeemHex := some [107, 0x51]
  valueSompi := 1000
  minted := ⟨0, 7, "now", none, "handoff"⟩
  proving := pendingProving
  poolAtZkCloseSompi := none
  exhausted := false

def mintedMeta : Meta := ⟨some mintedRecord, []⟩

def closeCall : Call := .advance (zkCloseSpend mintedRecord "close" unpaidRedeem) "now"

def closedRecord : Continuation :=
  { mintedRecord with
    outpoint := some ⟨"close", 0⟩
    redeemHex := some unpaidRedeem
    poolAtZkCloseSompi := some (some 1000) }

theorem step_closeCall : (step mintedMeta closeCall).zk_continuation = some closedRecord := rfl

/-- The last payment. -/
def lastCall : Call :=
  .advance (claimSpend (spliceResult splicedTemplate unpaidState 3 1000) "claim") "now"

theorem paying_last : Paying (step mintedMeta closeCall) (lastCall, 1000)
    (step (step mintedMeta closeCall) lastCall) :=
  .claim closedRecord step_closeCall 3 1000 "claim" "now" _
    (claim_unpaid rfl (by decide) rfl (by decide) (by decide))

/-- After the last payment of a market nothing is left. -/
theorem continuation_law_last :
    ∃ zc', (step (step mintedMeta closeCall) lastCall).zk_continuation = some zc' ∧
      zc'.poolAtZkCloseSompi = some (some (zc'.valueSompi + 1000)) := by
  have hmint : mintedMeta.zk_continuation = some mintedRecord := rfl
  have hread : ∀ s, parseCloseZkV2State unpaidRedeem (some 2) = some s →
      s.consolidated_pool = mintedRecord.valueSompi := by
    intro s hs
    obtain rfl := Option.some.inj (parse_unpaidRedeem.symm.trans hs)
    rfl
  exact (continuation_law hmint).2 "close" unpaidRedeem "now" rfl (by decide) (by decide) hread
    [(lastCall, 1000)] _ (.single paying_last)

/-- A second mint writes the record anew: what was exhausted can be taken up again, and the pool at
the close is gone. -/
theorem second_mint_revives :
    ∃ m : Meta, ∃ zc zc' : Continuation,
      m = after ⟨none, []⟩ [.mint sampleMint "now", closeCall, lastCall] ∧
        m.zk_continuation = some zc ∧ zc.exhausted = true ∧
          zc.poolAtZkCloseSompi = some (some 1000) ∧
        (step m (.mint sampleMint "later")).zk_continuation = some zc' ∧ zc'.exhausted = false ∧
          zc'.poolAtZkCloseSompi = none :=
  ⟨_, _, _, rfl, rfl, rfl, rfl, rfl, rfl, rfl⟩

end KANet.Zk
