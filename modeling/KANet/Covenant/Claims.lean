import KANet.Covenant.CloseZkRun
import KANet.Covenant.PayoutRun
import KANet.Lib.Sharing

/-!
# Several claims in one transaction

A transaction may spend any number of payout contracts at once, of either kind, each
through its `claim`.  Each script is pointed to the output that pays its winner and to
its own continuation, and none of them sees where the others are pointed.  Two claims
of one amount by one key are therefore content with one payment.

`covered_iff` says exactly when every winner still gets everything: for each key, what
its claims share must be made up by outputs to that key which no claim names, and no two
claims may continue in one output of value.
-/

namespace KANet.Covenant

open KANet.Lib KANet.Script

/-- A payout contract spent through its `claim`: the input it is, and its spender's witness. -/
inductive ClaimSpend
  | payoutShard (inIdx : Nat) (c : PayoutShard.Contract) (s : PayoutShard.State)
      (wit : PayWitness)
  | closeZk (inIdx : Nat) (c : CloseZkV2.Contract) (s : CloseZkV2.State) (wit : PayWitness)

namespace ClaimSpend

def inIdx : ClaimSpend → Nat
  | payoutShard i _ _ _ => i
  | closeZk i _ _ _ => i

def wit : ClaimSpend → PayWitness
  | payoutShard _ _ _ wit => wit
  | closeZk _ _ _ wit => wit

def pool : ClaimSpend → Int
  | payoutShard _ _ s _ => s.consolidated_pool
  | closeZk _ _ s _ => s.consolidated_pool

/-- What the claim leaves in the contract. -/
def remaining (cl : ClaimSpend) : Int := cl.pool - cl.wit.payout

/-- `PayoutShard` always continues; `CloseZkV2` does when something is left. -/
def continues : ClaimSpend → Bool
  | payoutShard _ _ _ _ => true
  | closeZk _ _ s wit => s.consolidated_pool ≠ wit.payout

/-- The contract's script accepts the transaction. -/
def Accepts (e : Engine) (tx : Tx) : ClaimSpend → Prop
  | payoutShard _ c s wit => ∃ s', PayoutShard.claim e i64 c s tx wit = some s'
  | closeZk _ c s wit => ∃ next, CloseZkV2.claim e i64 c s tx wit = some next

end ClaimSpend

/-- A transaction that spends the given contracts, all of which accept it. -/
structure ClaimTx (e : Engine) (tx : Tx) (claims : List ClaimSpend) : Prop where
  accepts : ∀ cl ∈ claims, cl.Accepts e tx
  spends : ∀ cl ∈ claims, ∃ coin, tx.inputs[cl.inIdx]? = some coin ∧ (coin.value : Int) = cl.pool
  distinct : (claims.map ClaimSpend.inIdx).Nodup

/-! ### What a transaction pays -/

def outputValue (tx : Tx) (n : Nat) : Int := ((tx.outputs[n]?.map TxOutput.value).getD 0 : Nat)

/-- The positions of the outputs locked to a key. -/
def lockedTo (tx : Tx) (pk : Bytes32) : Finset Nat :=
  (Finset.range tx.outputs.length).filter fun n =>
    tx.outputs[n]?.map TxOutput.scriptPubKey = some (ScriptPubKeyP2PK pk)

/-- The claims of one key. -/
def claimsOf (claims : List ClaimSpend) (pk : Bytes32) : List ClaimSpend :=
  claims.filter fun cl => cl.wit.bettorPk = pk

/-- The outputs that the claims of a key name as their payment. -/
def payments (claims : List ClaimSpend) (pk : Bytes32) : List Nat :=
  (claimsOf claims pk).map fun cl => cl.wit.payoutOutIdx.toNat

/-- The outputs that the claims name as their continuation. -/
def continuations (claims : List ClaimSpend) : List Nat :=
  (claims.filter ClaimSpend.continues).map fun cl => cl.wit.selfOutIdx.toNat

/-- No claim is paid with another's money: every key gets the sum of its payouts, and the outputs
used as continuations carry the sum of the remaining pools. -/
def Covered (tx : Tx) (claims : List ClaimSpend) : Prop :=
  (∀ pk, ((claimsOf claims pk).map fun cl => cl.wit.payout).sum ≤
    ∑ n ∈ lockedTo tx pk, outputValue tx n) ∧
  (claims.map ClaimSpend.remaining).sum ≤ ∑ n ∈ (continuations claims).toFinset, outputValue tx n

/-- What the claims of a key share is made up by outputs to it that none of them names, and the
outputs that several claims continue in are worth nothing. -/
def NothingShared (tx : Tx) (claims : List ClaimSpend) : Prop :=
  (∀ pk, shared (payments claims pk) (outputValue tx) ≤
    ∑ n ∈ lockedTo tx pk \ (payments claims pk).toFinset, outputValue tx n) ∧
  ∀ n, 2 ≤ (continuations claims).count n → outputValue tx n = 0

/-! ### What one claim sees -/

theorem storePayout_paid {e : Engine} {ar : Arith} {root : Bytes32} {pool : Int} {w nw : Words}
    {tx : Tx} {wit : PayWitness} (h : storePayout e ar root pool w tx wit = some nw) :
    wit.Paid tx ∧ wit.payout ≤ pool := by
  simp only [storePayout, Option.bind_eq_bind, Option.bind_eq_some_iff, require_eq_some,
    exists_const, requirePaid_eq_some] at h
  obtain ⟨_, _, _, hle, _, _, _, _, _, _, _, hpaid, _⟩ := h
  exact ⟨hpaid, hle⟩

theorem outputValue_eq {tx : Tx} {i : Int} {out : TxOutput} (h : tx.output i = some out) :
    outputValue tx i.toNat = out.value := by
  obtain ⟨n, rfl, hn⟩ := atIndex_eq_some.mp h
  simp [outputValue, hn]

/-- The output that a claim names as its payment is locked to the claimant and worth the payout. -/
theorem PayWitness.Paid.payment {tx : Tx} {wit : PayWitness} (h : wit.Paid tx) :
    wit.payoutOutIdx.toNat ∈ lockedTo tx wit.bettorPk ∧
      outputValue tx wit.payoutOutIdx.toNat = wit.payout := by
  obtain ⟨out, ho, hspk, hv⟩ := h
  refine ⟨?_, (outputValue_eq ho).trans hv⟩
  obtain ⟨n, hn, hget⟩ := atIndex_eq_some.mp ho
  obtain ⟨hlt, -⟩ := List.getElem?_eq_some_iff.mp hget
  rw [hn, Int.toNat_natCast, lockedTo, Finset.mem_filter, Finset.mem_range]
  exact ⟨hlt, by rw [hget, Option.map_some, hspk]⟩

theorem Pays.outputValue {tx : Tx} {i n : Int} (h : tx.Pays i n) :
    Covenant.outputValue tx i.toNat = n := by
  obtain ⟨out, ho, hv⟩ := h
  exact (outputValue_eq ho).trans hv

/-- **What one claim sees**: its payment, and its own continuation if it has one. -/
theorem ClaimSpend.Accepts.sees {e : Engine} {tx : Tx} {cl : ClaimSpend} (h : cl.Accepts e tx) :
    cl.wit.Paid tx ∧
      (cl.continues = true → Covenant.outputValue tx cl.wit.selfOutIdx.toNat = cl.remaining) ∧
      (cl.continues = false → cl.remaining = 0) := by
  cases cl with
  | payoutShard i c s wit =>
    obtain ⟨s', h⟩ := h
    simp only [PayoutShard.claim, PayoutShard.payLeaf, Option.bind_eq_bind,
      Option.bind_eq_some_iff, require_eq_some, exists_const,
      PayoutShard.continueAs_eq_some] at h
    obtain ⟨-, nw, hs, p, hp, ⟨-, hpay⟩, -⟩ := h
    obtain rfl := i64_exact _ _ hp
    exact ⟨(storePayout_paid hs).1, fun _ => Pays.outputValue hpay, fun hc => by cases hc⟩
  | closeZk i c s wit =>
    obtain ⟨next, h⟩ := h
    simp only [CloseZkV2.claim, CloseZkV2.payLeaf, Option.bind_eq_bind, Option.bind_eq_some_iff,
      require_eq_some, exists_const] at h
    obtain ⟨-, nw, hs, h⟩ := h
    refine ⟨(storePayout_paid hs).1, fun hc => ?_, fun hc => ?_⟩
    · have hne : s.consolidated_pool ≠ wit.payout := by simpa [continues] using hc
      rw [if_neg hne] at h
      simp only [Option.bind_eq_some_iff, Option.map_eq_some_iff,
        CloseZkV2.continueAs_eq_some] at h
      obtain ⟨p, hp, _, ⟨⟨-, hpay⟩, -⟩, -⟩ := h
      obtain rfl := i64_exact _ _ hp
      exact Pays.outputValue hpay
    · have he : s.consolidated_pool = wit.payout := by simpa [continues] using hc
      simp [remaining, pool, ClaimSpend.wit, he]

/-! ### What all of them see together -/

theorem owed_eq {e : Engine} {tx : Tx} {claims : List ClaimSpend} (h : ClaimTx e tx claims)
    (pk : Bytes32) : ((claimsOf claims pk).map fun cl => cl.wit.payout) =
      (payments claims pk).map (outputValue tx) := by
  rw [payments, List.map_map]
  refine List.map_congr_left fun cl hcl => ?_
  exact ((h.accepts cl (List.mem_of_mem_filter hcl)).sees.1.payment.2).symm

theorem payments_locked {e : Engine} {tx : Tx} {claims : List ClaimSpend}
    (h : ClaimTx e tx claims) (pk : Bytes32) : (payments claims pk).toFinset ⊆ lockedTo tx pk := by
  intro n hn
  obtain ⟨cl, hcl, rfl⟩ := List.mem_map.mp (List.mem_toFinset.mp hn)
  obtain ⟨hmem, hpk⟩ := List.mem_filter.mp hcl
  have hpk : cl.wit.bettorPk = pk := by simpa using hpk
  exact hpk ▸ (h.accepts cl hmem).sees.1.payment.1

theorem remaining_sum {e : Engine} {tx : Tx} {claims : List ClaimSpend}
    (h : ∀ cl ∈ claims, cl.Accepts e tx) : (claims.map ClaimSpend.remaining).sum =
      ((continuations claims).map (outputValue tx)).sum := by
  induction claims with
  | nil => rfl
  | cons cl claims ih =>
    have hrest := ih fun cl' h' => h cl' (List.mem_cons_of_mem _ h')
    obtain ⟨-, hcont, hend⟩ := (h cl List.mem_cons_self).sees
    rw [List.map_cons, List.sum_cons, hrest]
    cases hc : cl.continues with
    | true => simp [continuations, hc, hcont hc]
    | false => simp [continuations, hc, hend hc]

theorem outputValue_nonneg (tx : Tx) (n : Nat) : 0 ≤ outputValue tx n := Int.natCast_nonneg _

/-- **When every winner gets everything**, whatever outputs the claims were pointed to. -/
theorem covered_iff {e : Engine} {tx : Tx} {claims : List ClaimSpend} (h : ClaimTx e tx claims) :
    Covered tx claims ↔ NothingShared tx claims := by
  have hpay : ∀ pk, ((claimsOf claims pk).map fun cl => cl.wit.payout).sum ≤
        ∑ n ∈ lockedTo tx pk, outputValue tx n ↔
      shared (payments claims pk) (outputValue tx) ≤
        ∑ n ∈ lockedTo tx pk \ (payments claims pk).toFinset, outputValue tx n := by
    intro pk
    rw [owed_eq h pk]
    exact sum_map_le_iff (payments_locked h pk)
  have hcont : (claims.map ClaimSpend.remaining).sum ≤
        ∑ n ∈ (continuations claims).toFinset, outputValue tx n ↔
      ∀ n, 2 ≤ (continuations claims).count n → outputValue tx n = 0 := by
    rw [remaining_sum h.accepts, sum_map_le_iff (Finset.Subset.refl _), Finset.sdiff_self,
      Finset.sum_empty]
    exact shared_le_zero_iff fun n _ => outputValue_nonneg tx n
  unfold Covered NothingShared
  rw [hcont]
  exact and_congr_left fun _ => forall_congr' hpay

/-! ### Two markets, one payment

A `PayoutShard` and a `CloseZkV2` each owe the same key 500 sompi.  Both claims name the second
output; the last one takes the difference. -/

def sampleZkState : CloseZkV2.State where
  attestedWinner := 1
  closed := 2
  payoutRootField := PayoutShard.samplePayoutRoot
  consolidated_pool := 800
  w := Words.zero

def sampleZkWitness : PayWitness := { PayoutShard.sampleWitness with selfOutIdx := 2 }

def sampleClaims : List ClaimSpend :=
  [.payoutShard 0 PayoutShard.sampleContract PayoutShard.sampleClosed PayoutShard.sampleWitness,
    .closeZk 1 CloseZkV2.sampleContract sampleZkState sampleZkWitness]

def sampleTwoClaimTx : Tx where
  inputs := [{ value := 20000500, scriptPubKey := [], covenantId := none },
    { value := 800, scriptPubKey := [], covenantId := none }]
  outputs := [PayoutShard.sampleOutput PayoutShard.samplePaid 20000000,
    { value := 500, scriptPubKey := ScriptPubKeyP2PK (samplePk 7),
      covenantId := none },
    CloseZkV2.sampleOutput (sampleZkState.pay 500 70) 300,
    { value := 500, scriptPubKey := ScriptPubKeyP2PK (samplePk 9),
      covenantId := none }]
  lockTime := 0

theorem sample_claimTx : ClaimTx sampleEngine sampleTwoClaimTx sampleClaims := by
  have hshard : PayoutShard.claim sampleEngine i64 PayoutShard.sampleContract
      PayoutShard.sampleClosed sampleTwoClaimTx PayoutShard.sampleWitness =
      some PayoutShard.samplePaid :=
    (PayoutShard.payLeaf_eq_some i64_lawful wordsOk_zero).mpr ⟨rfl, 70, rfl, by norm_num,
      by decide, by decide, ⟨_, rfl, rfl⟩, not_marked_zero 70, ⟨_, rfl, rfl, rfl⟩, rfl,
      PayoutShard.sample_continuation 20000000 rfl (by norm_num) (by decide)
        (wordsOk_zero.mark (not_marked_zero 70)) rfl⟩
  have hwords : WordsOk (sampleZkState.pay 500 70).w := wordsOk_zero.mark (not_marked_zero 70)
  have hzk : CloseZkV2.claim sampleEngine i64 CloseZkV2.sampleContract sampleZkState
      sampleTwoClaimTx sampleZkWitness = some (some (sampleZkState.pay 500 70)) :=
    (CloseZkV2.payLeaf_eq_some i64_lawful wordsOk_zero).mpr ⟨70, ⟨rfl, rfl, by norm_num,
      by decide, by decide, ⟨_, rfl, rfl⟩, not_marked_zero 70, ⟨_, rfl, rfl, rfl⟩⟩,
      Or.inr ⟨by decide, rfl, Tx.continues_covenantOutput
        (CloseZkV2.fields_fit (by decide) (by decide) (by decide) hwords) rfl, _, rfl, rfl⟩⟩
  refine ⟨?_, ?_, by decide⟩
  · intro cl hcl
    rcases List.mem_pair.mp hcl with rfl | rfl
    · exact ⟨_, hshard⟩
    · exact ⟨_, hzk⟩
  · intro cl hcl
    rcases List.mem_pair.mp hcl with rfl | rfl
    · exact ⟨_, rfl, rfl⟩
    · exact ⟨_, rfl, rfl⟩

theorem covered_iff_sample :
    Covered sampleTwoClaimTx sampleClaims ↔ NothingShared sampleTwoClaimTx sampleClaims :=
  covered_iff sample_claimTx

/-- Both scripts accept, the outputs are worth what the inputs are, and the winner of both markets
is paid once. -/
theorem two_claims_not_covered :
    ClaimTx sampleEngine sampleTwoClaimTx sampleClaims ∧
    (sampleTwoClaimTx.outputs.map TxOutput.value).sum =
      (sampleTwoClaimTx.inputs.map TxInput.value).sum ∧
    ¬ Covered sampleTwoClaimTx sampleClaims := by
  refine ⟨sample_claimTx, by decide, ?_⟩
  rintro ⟨hpay, -⟩
  have h := hpay (samplePk 7)
  have hlocked : lockedTo sampleTwoClaimTx (samplePk 7) = {1} := by decide
  rw [hlocked, Finset.sum_singleton] at h
  exact absurd h (by decide)

end KANet.Covenant
