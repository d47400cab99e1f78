import KANet.Payout.Proofs
import KANet.Settle.ZkEnqueue
import KANet.Zk.ClaimSplice

/-!
# `claimAutonomousTick`

After `zk_close` the console claims the leaves of the market one by one.  It does not keep the
leaves: it loads the bets again, in the order of their ids, shares the pool out again and hands a
claim over only if the root comes out as the one on the chain.  The job that was proven had the
bets in the canonical order.

* `Reached.owes` — what the claims leave is what is owed.
* `buildClaimWitness_of_root`, `claimOneLeaf_eq_none` — a claim is built if the root comes out, and
  otherwise none is.
* `claims_go_iff` — the claims go through exactly if both orders give the same shares.
-/

namespace KANet.Zk

open KANet.Lib KANet.Script KANet.Payout KANet.Covenant
open KANet.Settle (ProveDb ProveShard ProveJob JobRow SignRequest Queued bets deriveCloseFeeLeaves
  tryEnqueueZkProve enqueueZkProveJob_eq_enqueued soleShard soleShard_eq_some
  canonicalBetOrder_bets)
open CloseZkV2 (State)

/-! ### The claim -/

/-- The bets of a market of v0.7, less those of shards that were refunded by hand. -/
def getMarketBets (db : ProveDb) : List Bet :=
  ((db.market_shards.filter fun shard => !shard.manual_recovery_refunded).flatMap
    ProveShard.rows).map Row.toBet

/-- `deriveCloseFeeLeaves(marketId, pool) || []` -/
def claimFeeLeaves (db : ProveDb) (poolAtZkCloseSompi : Int) : Option (List FeeLeaf) :=
  (deriveCloseFeeLeaves db poolAtZkCloseSompi).toOption.map fun feeLeaves => feeLeaves.getD []

structure ClaimWitness where
  bettorPk : Bytes
  payout : Int
  merkle_index : Nat
  siblings : List Bytes32
  payoutRootField : Bytes32

def buildClaimWitness (e : Engine) (winnerPk : Bytes) (merkleIndex : Int) (currentState : State)
    (bettors : List Bet) (feeLeaves : List FeeLeaf) (poolTotalAtZkClose : Int) :
    Option ClaimWitness := do
  let pm ← computePariMutuelPayout bettors currentState.attestedWinner (some poolTotalAtZkClose) 0
    feeLeaves
  require (pm.degenerate = false)
  let payouts := pm.payoutLeaves
  require (0 ≤ merkleIndex)
  let idx := merkleIndex.toNat
  let l ← payouts[idx]?
  require (l.pk = winnerPk)
  let payout := l.amount
  require (1 ≤ payout)
  require (payout ≤ currentState.consolidated_pool)
  let root ← payoutRoot e payouts
  require (root = currentState.payoutRootField)
  let siblings ← merkleProof e payouts idx
  let leaf ← Payout.payoutLeaf e winnerPk payout
  require (climbProof e leaf idx siblings = currentState.payoutRootField)
  let set ← isNullifierBitSet currentState idx
  require (set = false)
  some { bettorPk := winnerPk, payout, merkle_index := idx, siblings
         payoutRootField := currentState.payoutRootField }

/-- The first leaf from `i` on that has not been claimed. -/
def claimTarget (s : State) (i : Nat) : List Leaf → Option Nat
  | [] => none
  | _ :: ls => do
    let set ← isNullifierBitSet s i
    if set then claimTarget s (i + 1) ls else some i

/-- `_claimOneMarket`, up to the witness. -/
def claimOneLeaf (e : Engine) (db : ProveDb) (poolAtZkCloseSompi : Int) (currentState : State) :
    Option ClaimWitness := do
  let bettors := getMarketBets db
  let feeLeaves ← claimFeeLeaves db poolAtZkCloseSompi
  let pm ← computePariMutuelPayout bettors currentState.attestedWinner (some poolAtZkCloseSompi) 0
    feeLeaves
  require (pm.degenerate = false)
  let targetIdx ← claimTarget currentState 0 pm.payoutLeaves
  let target ← pm.payoutLeaves[targetIdx]?
  buildClaimWitness e target.pk targetIdx currentState bettors feeLeaves poolAtZkCloseSompi

/-! ### What is owed -/

/-- What leaves from `i` on are owed: the amounts of those that have not been claimed. -/
def owed (w : Words) (i : Nat) : List Leaf → Int
  | [] => 0
  | l :: ls => (if Marked w i then 0 else l.amount) + owed w (i + 1) ls

theorem owed_zero (i : Nat) (ls : List Leaf) : owed Words.zero i ls = sumAmounts ls := by
  induction ls generalizing i with
  | nil => rfl
  | cons l ls ih => rw [owed, if_neg (not_marked_zero i), ih, sumAmounts_cons]

/-- A mark before the leaves does not matter. -/
theorem owed_mark_of_lt {w : Words} {i k : Nat} {ls : List Leaf} (hw : WordsOk w)
    (hk : ¬ Marked w k) (hlt : k < i) (hlen : i + ls.length ≤ 1024) :
    owed (mark w k) i ls = owed w i ls := by
  induction ls generalizing i with
  | nil => rfl
  | cons l ls ih =>
    rw [List.length_cons] at hlen
    have hsame : Marked (mark w k) i ↔ Marked w i := by
      rw [marked_mark hw hk (by omega) (by omega), or_iff_right (by omega)]
    rw [owed, owed, ih (by omega) (by omega)]
    simp only [hsame]

/-- **A claim takes the amount of its leaf off what is owed.** -/
theorem owed_mark {w : Words} {i j : Nat} {ls : List Leaf} {l : Leaf} (hw : WordsOk w)
    (hl : ls[j]? = some l) (hfree : ¬ Marked w (i + j)) (hlen : i + ls.length ≤ 1024) :
    owed (mark w (i + j)) i ls = owed w i ls - l.amount := by
  induction ls generalizing i j with
  | nil => cases hl
  | cons l' ls ih =>
    rw [List.length_cons] at hlen
    cases j with
    | zero =>
      obtain rfl := Option.some.inj hl
      rw [Nat.add_zero] at hfree ⊢
      have hset : Marked (mark w i) i :=
        (marked_mark hw hfree (by omega) (by omega)).mpr (Or.inl rfl)
      have hrest : owed (mark w i) (i + 1) ls = owed w (i + 1) ls :=
        owed_mark_of_lt hw hfree (by omega) (by omega)
      rw [owed, owed, if_pos hset, if_neg hfree, hrest]
      ring
    | succ j =>
      rw [List.getElem?_cons_succ] at hl
      have hj := (List.getElem?_eq_some_iff.mp hl).1
      have hplace : i + (j + 1) = i + 1 + j := by omega
      rw [hplace] at hfree ⊢
      have hsame : Marked (mark w (i + 1 + j)) i ↔ Marked w i := by
        rw [marked_mark hw hfree (by omega) (by omega), or_iff_right (by omega)]
      rw [owed, owed, ih hl hfree (by omega)]
      simp only [hsame]
      ring

theorem owed_nonneg {w : Words} {i : Nat} {ls : List Leaf} (hpos : ∀ l ∈ ls, 1 ≤ l.amount) :
    0 ≤ owed w i ls := by
  induction ls generalizing i with
  | nil => exact le_rfl
  | cons l ls ih =>
    obtain ⟨hl, hls⟩ := List.forall_mem_cons.mp hpos
    have hrest := @ih (i + 1) hls
    rw [owed]
    split
    · omega
    · omega

/-- A leaf that has not been claimed is owed its amount. -/
theorem le_owed {w : Words} {i j : Nat} {ls : List Leaf} {l : Leaf}
    (hpos : ∀ l ∈ ls, 1 ≤ l.amount) (hl : ls[j]? = some l) (hfree : ¬ Marked w (i + j)) :
    l.amount ≤ owed w i ls := by
  induction ls generalizing i j with
  | nil => cases hl
  | cons l' ls ih =>
    obtain ⟨hl', hls⟩ := List.forall_mem_cons.mp hpos
    cases j with
    | zero =>
      obtain rfl := Option.some.inj hl
      have hrest := @owed_nonneg w (i + 1) ls hls
      rw [owed, if_neg (by simpa using hfree)]
      omega
    | succ j =>
      rw [List.getElem?_cons_succ] at hl
      have hplace : i + (j + 1) = i + 1 + j := by omega
      have hrest := ih hls hl (hplace ▸ hfree)
      rw [owed]
      split
      · omega
      · omega

/-! ### The claims that have been made -/

/-- The leaves that a job is proven for. -/
def jobLeaves (job : ProveJob) : List Leaf :=
  payoutLeavesOf job.ordered_bets job.attested_winner
    (distributableOf job.pool_total_sompi 0 job.fee_leaves) job.fee_leaves

/-- The state in which `zk_close` leaves the contract. -/
structure Landed (e : Engine) (job : ProveJob) (s : State) : Prop where
  closed : s.closed = 2
  winner : s.attestedWinner = job.attested_winner
  pool : s.consolidated_pool = job.pool_total_sompi
  words : s.w = Words.zero
  root : payoutRoot e (jobLeaves job) = some s.payoutRootField

/-- The states that claims of the leaves lead to. -/
inductive Reached (e : Engine) (c : CloseZkV2.Contract) (ls : List Leaf) (s₀ : State) :
    State → Prop
  | landed : Reached e c ls s₀ s₀
  | claimed {s s' : State} {tx : Tx} {wit : PayWitness} (h : Reached e c ls s₀ s)
      (hc : CloseZkV2.claim e i64 c s tx wit = some (some s'))
      (hl : ls[wit.merkle_index.toNat]? = some (claimed wit)) : Reached e c ls s₀ s'

/-- What holds from the close on. -/
structure Owes (ls : List Leaf) (s₀ s : State) : Prop where
  closed : s.closed = 2
  winner : s.attestedWinner = s₀.attestedWinner
  root : s.payoutRootField = s₀.payoutRootField
  words : WordsOk s.w
  pool : s.consolidated_pool = owed s.w 0 ls

theorem Owes.claim {e : Engine} {c : CloseZkV2.Contract} {ls : List Leaf} {s₀ s s' : State}
    {tx : Tx} {wit : PayWitness} (h : Owes ls s₀ s) (hlen : ls.length ≤ 1024)
    (hc : CloseZkV2.claim e i64 c s tx wit = some (some s'))
    (hl : ls[wit.merkle_index.toNat]? = some (claimed wit)) : Owes ls s₀ s' := by
  obtain ⟨k, hk, hnext⟩ := (CloseZkV2.payLeaf_eq_some i64_lawful h.words).mp hc
  have hs' : s' = s.pay wit.payout k := by
    rcases hnext with ⟨-, hnone⟩ | ⟨-, hsome, -⟩
    · cases hnone
    · exact Option.some.inj hsome
  rw [hk.index, Int.toNat_natCast] at hl
  subst hs'
  refine ⟨h.closed, h.winner, h.root, h.words.mark hk.unpaid, ?_⟩
  have howed := @owed_mark _ 0 _ _ _ h.words hl (by simpa using hk.unpaid) (by omega)
  rw [Nat.zero_add] at howed
  show s.consolidated_pool - wit.payout = owed (mark s.w k) 0 ls
  rw [howed, h.pool]
  rfl

/-- **What the claims leave is what is owed.** -/
theorem Reached.owes {e : Engine} {c : CloseZkV2.Contract} {ls : List Leaf} {s₀ s : State}
    (h : Reached e c ls s₀ s) (hlen : ls.length ≤ 1024) (h₀ : Owes ls s₀ s₀) : Owes ls s₀ s := by
  induction h with
  | landed => exact h₀
  | claimed _ hc hl ih => exact ih.claim hlen hc hl

theorem Landed.owes {e : Engine} {job : ProveJob} {s : State} (h : Landed e job s)
    (hsum : sumAmounts (jobLeaves job) = job.pool_total_sompi) : Owes (jobLeaves job) s s := by
  refine ⟨h.closed, rfl, rfl, ?_, ?_⟩
  · rw [h.words]
    exact wordsOk_zero
  · rw [h.words, owed_zero, h.pool, hsum]

/-! ### A claim of the tick -/

/-- A spend that carries a witness. -/
structure Carries (wit : ClaimWitness) (pw : PayWitness) : Prop where
  key : pw.bettorPk.toList = wit.bettorPk
  payout : pw.payout = wit.payout
  index : pw.merkle_index = wit.merkle_index
  siblings : pw.s.toList = wit.siblings

/-- The contract accepts every spend that carries the witness, pays it out and puts back what is
left. -/
def Accepted (e : Engine) (c : CloseZkV2.Contract) (s : State) (wit : ClaimWitness) : Prop :=
  ∀ tx pw, Carries wit pw → pw.Paid tx →
    (s.consolidated_pool ≠ wit.payout →
      CloseZkV2.Continuation e c tx pw.selfOutIdx (s.pay wit.payout wit.merkle_index)) →
    ∃ next, CloseZkV2.claim e i64 c s tx pw = some next

/-- The bit that the builder reads is the mark. -/
theorem bitSet_iff_marked {w : Words} (hw : WordsOk w) (k : Nat) : BitSet w k ↔ Marked w k := by
  obtain ⟨n, hn, -⟩ := hw.eq_cast (Fin.ofNat 17 (k / 63))
  have hcast : w (Fin.ofNat 17 (k / 63)) / 2 ^ (k % 63) % 2 =
      ((n / 2 ^ (k % 63) % 2 : Nat) : Int) := by
    rw [hn]
    rfl
  rw [← not_iff_not, not_bitSet_iff, not_marked_iff hn, hcast]
  omega

theorem isNullifierBitSet_iff {s : State} (hw : WordsOk s.w) {k : Nat} (hk : k < 1071) {b : Bool} :
    isNullifierBitSet s k = some b ↔ (b = true ↔ Marked s.w k) := by
  rw [isNullifierBitSet_natCast hk, Option.some.injEq, ← bitSet_iff_marked hw k]
  cases b with
  | true => simp
  | false => simp

section

variable {e : Engine} {c : CloseZkV2.Contract} {ls : List Leaf} {s₀ s : State} {i : Nat} {l : Leaf}

/-- **A witness is built** for a leaf that has not been claimed, if the root comes out. -/
theorem buildClaimWitness_of_root {bettors : List Bet} {feeLeaves : List FeeLeaf} {pool : Int}
    {pm : PariMutuel}
    (hpm : computePariMutuelPayout bettors s.attestedWinner (some pool) 0 feeLeaves = some pm)
    (hdeg : pm.degenerate = false) (hls : pm.payoutLeaves = ls)
    (hroot : payoutRoot e ls = some s.payoutRootField) (hs : Owes ls s₀ s)
    (hl : ls[i]? = some l) (hfree : ¬ Marked s.w i) :
    ∃ wit, buildClaimWitness e l.pk i s bettors feeLeaves pool = some wit ∧
      wit.bettorPk = l.pk ∧ wit.payout = l.amount ∧ wit.merkle_index = i ∧
      merkleProof e ls i = some wit.siblings := by
  obtain ⟨hbuild, -⟩ := payoutRoot_eq_some.mp hroot
  have hi := (List.getElem?_eq_some_iff.mp hl).1
  have hlen := hbuild.length
  have hpos : ∀ l ∈ ls, 1 ≤ l.amount := fun l hl => (hbuild.payable l hl).pos
  have hle : l.amount ≤ s.consolidated_pool := by
    rw [hs.pool]
    exact le_owed hpos hl (by simpa using hfree)
  obtain ⟨leaf, sibs, hleaf, hsibs, hclimb⟩ := climbProof_merkleProof hroot hl
  have hbit : isNullifierBitSet s i = some false :=
    (isNullifierBitSet_iff hs.words (by omega)).mpr (by simp [hfree])
  refine ⟨⟨l.pk, l.amount, i, sibs, s.payoutRootField⟩, ?_, rfl, rfl, rfl, hsibs⟩
  unfold buildClaimWitness
  simp only [Option.bind_eq_bind, Option.bind_eq_some_iff, require_eq_some, exists_const,
    Int.toNat_natCast]
  exact ⟨pm, hpm, hdeg, Int.natCast_nonneg i, l, hls ▸ hl, rfl, hpos l (List.mem_of_getElem? hl),
    hle, s.payoutRootField, hls ▸ hroot, rfl, sibs, hls ▸ hsibs, leaf, hleaf, hclimb, false, hbit,
    rfl, rfl⟩

/-- **The contract accepts it.** -/
theorem accepted_of_root {wit : ClaimWitness} (hroot : payoutRoot e ls = some s.payoutRootField)
    (hs : Owes ls s₀ s) (hl : ls[i]? = some l) (hfree : ¬ Marked s.w i)
    (hkey : wit.bettorPk = l.pk) (hpayout : wit.payout = l.amount) (hindex : wit.merkle_index = i)
    (hsibs : merkleProof e ls i = some wit.siblings) : Accepted e c s wit := by
  obtain ⟨hbuild, hrootOf⟩ := payoutRoot_eq_some.mp hroot
  have hi := (List.getElem?_eq_some_iff.mp hl).1
  have hlen := hbuild.length
  have hpos : ∀ l ∈ ls, 1 ≤ l.amount := fun l hl => (hbuild.payable l hl).pos
  have hmem := List.mem_of_getElem? hl
  have hle : l.amount ≤ s.consolidated_pool := by
    rw [hs.pool]
    exact le_owed hpos hl (by simpa using hfree)
  intro tx pw hpw hpaid hcont
  have hclaimed : claimed pw = l := by
    rw [claimed, hpw.key, hpw.payout, hkey, hpayout]
  have hopens : pw.Opens e s.payoutRootField := by
    refine opens_iff.mpr ⟨?_, ?_⟩
    · rw [hpw.payout, hpayout]
      exact (hbuild.payable l hmem).fits
    · rw [hpw.index, hindex, Int.toNat_natCast, hclaimed, hpw.siblings, ← hrootOf]
      exact (climb_merkleProof hsibs hl).2
  have hpay : CloseZkV2.Payable e s tx 2 s.payoutRootField pw i := by
    refine ⟨hs.closed, by rw [hpw.index, hindex], by omega, ?_, ?_, hopens, hfree, hpaid⟩
    · rw [hpw.payout, hpayout]
      exact hpos l hmem
    · rw [hpw.payout, hpayout]
      exact hle
  rw [← hpw.payout, hindex] at hcont
  unfold CloseZkV2.claim
  simp only [CloseZkV2.payLeaf_eq_some i64_lawful hs.words]
  by_cases hlast : s.consolidated_pool = pw.payout
  · exact ⟨none, i, hpay, Or.inl ⟨hlast, rfl⟩⟩
  · exact ⟨_, i, hpay, Or.inr ⟨hlast, rfl, hcont hlast⟩⟩

theorem claimTarget_cons {j : Nat} {l : Leaf} {ls : List Leaf} {set : Bool}
    (h : isNullifierBitSet s j = some set) :
    claimTarget s j (l :: ls) = if set then claimTarget s (j + 1) ls else some j := by
  rw [claimTarget, h, Option.bind_eq_bind, Option.bind_some]

/-- The tick takes the first leaf that has not been claimed. -/
theorem claimTarget_of_unclaimed {j : Nat} (hw : WordsOk s.w) (hl : ls[i]? = some l)
    (hfree : ¬ Marked s.w (j + i)) (hlen : j + ls.length ≤ 1024) :
    ∃ k l', claimTarget s j ls = some (j + k) ∧ ls[k]? = some l' ∧ ¬ Marked s.w (j + k) := by
  induction ls generalizing i j with
  | nil => cases hl
  | cons l' ls ih =>
    rw [List.length_cons] at hlen
    by_cases hset : Marked s.w j
    · have hbit : isNullifierBitSet s j = some true :=
        (isNullifierBitSet_iff hw (by omega)).mpr (by simp [hset])
      cases i with
      | zero => exact absurd hset hfree
      | succ i =>
        rw [List.getElem?_cons_succ] at hl
        have hplace : j + (i + 1) = j + 1 + i := by omega
        obtain ⟨k, l'', htarget, hk, hkfree⟩ := ih hl (hplace ▸ hfree) (by omega)
        have hk' : j + 1 + k = j + (k + 1) := by omega
        rw [hk'] at htarget hkfree
        refine ⟨k + 1, l'', ?_, hk, hkfree⟩
        rw [claimTarget_cons hbit, if_pos rfl, htarget]
    · have hbit : isNullifierBitSet s j = some false :=
        (isNullifierBitSet_iff hw (by omega)).mpr (by simp [hset])
      refine ⟨0, l', ?_, rfl, hset⟩
      rw [claimTarget_cons hbit, if_neg Bool.false_ne_true, Nat.add_zero]

end

/-! ### The claims go through -/

/-- What is queued has the fees that are derived again. -/
theorem tryEnqueueZkProve_enqueued {e : Engine} {coll : Collation} {db : ProveDb}
    {req : SignRequest} {job : ProveJob} {jobs : List JobRow}
    (h : tryEnqueueZkProve e coll db req = .ok (.enqueued job jobs)) :
    claimFeeLeaves db job.pool_total_sompi = some job.fee_leaves ∧
      ∃ values, Queued e coll db req.psRedeem values job.fee_leaves job := by
  unfold tryEnqueueZkProve at h
  simp only [bind_eq_ok, orRefuse_eq_ok] at h
  obtain ⟨values, -, landed, hlanded, attested, hread, feeLeaves, hfees, h⟩ := h
  cases feeLeaves with
  | none => cases h
  | some fl =>
    obtain ⟨hq, -⟩ := enqueueZkProveJob_eq_enqueued.mp h
    obtain ⟨landed', attested', hlanded', hread', -, -, hpool⟩ := hq.read
    obtain rfl := Option.some.inj (hlanded.symm.trans hlanded')
    obtain rfl := Option.some.inj (hread.symm.trans hread')
    have hfl := hq.fees
    subst hfl
    refine ⟨?_, values, hq⟩
    rw [claimFeeLeaves, hpool, hfees]
    rfl

/-- The tick shares the pool out again, to these leaves. -/
def Rebuilt (db : ProveDb) (winner pool : Int) (ls : List Leaf) : Prop :=
  ∃ feeLeaves pm, claimFeeLeaves db pool = some feeLeaves ∧
    computePariMutuelPayout (getMarketBets db) winner (some pool) 0 feeLeaves = some pm ∧
    pm.degenerate = false ∧ pm.payoutLeaves = ls

theorem rebuilt_iff {db : ProveDb} {winner pool : Int} {fl : List FeeLeaf} {ls : List Leaf}
    (hdir : winner = 0 ∨ winner = 1) (hfl : claimFeeLeaves db pool = some fl) :
    Rebuilt db winner pool ls ↔ ¬ NobodyWins (getMarketBets db) winner ∧
      payoutLeavesOf (getMarketBets db) winner (distributableOf pool 0 fl) fl = ls := by
  obtain ⟨pm, hpm, hdeg, hleaves⟩ := @computePariMutuelPayout_leaves (getMarketBets db) winner
    (some pool) 0 fl hdir
  have hfalse : pm.degenerate = false ↔ ¬ NobodyWins (getMarketBets db) winner := by
    rw [← hdeg, Bool.not_eq_true]
  constructor
  · intro h
    obtain ⟨fl', pm', hfl', hpm', hdeg', hls⟩ := h
    obtain rfl := Option.some.inj (hfl.symm.trans hfl')
    obtain rfl := Option.some.inj (hpm.symm.trans hpm')
    have hsome := hfalse.mp hdeg'
    exact ⟨hsome, (hleaves hsome).symm.trans hls⟩
  · intro h
    exact ⟨fl, pm, hfl, hpm, hfalse.mpr h.1, (hleaves h.1).trans h.2⟩

/-- The leaves come out with the landed root; and wherever the claims have led to, a witness is
built for each leaf that is left, and the contract accepts it. -/
structure ClaimsGo (e : Engine) (c : CloseZkV2.Contract) (db : ProveDb) (job : ProveJob)
    (s₀ : State) : Prop where
  root : ∃ ls, Rebuilt db s₀.attestedWinner job.pool_total_sompi ls ∧
    payoutRoot e ls = some s₀.payoutRootField
  built : ∀ s, Reached e c (jobLeaves job) s₀ s → ∀ ls feeLeaves,
    Rebuilt db s.attestedWinner job.pool_total_sompi ls →
    claimFeeLeaves db job.pool_total_sompi = some feeLeaves →
    ∀ (i : Nat) (l : Leaf), ls[i]? = some l → ¬ Marked s.w i → ∃ wit,
      buildClaimWitness e l.pk i s (getMarketBets db) feeLeaves job.pool_total_sompi = some wit ∧
        wit.payout = l.amount ∧ wit.merkle_index = i ∧ Accepted e c s wit
  tick : ∀ s, Reached e c (jobLeaves job) s₀ s →
    (∃ i l, (jobLeaves job)[i]? = some l ∧ ¬ Marked s.w i) → ∃ wit,
      claimOneLeaf e db job.pool_total_sompi s = some wit ∧ Accepted e c s wit

section

variable {e : Engine} {coll : Collation} {c : CloseZkV2.Contract} {db : ProveDb}
  {job : ProveJob} {s₀ : State}

/-- The leaves that are rebuilt are those of the job. -/
theorem ClaimsGo.of_rebuilt (hl : Landed e job s₀)
    (hsum : sumAmounts (jobLeaves job) = job.pool_total_sompi)
    (hdir : job.attested_winner = 0 ∨ job.attested_winner = 1)
    (hfees : claimFeeLeaves db job.pool_total_sompi = some job.fee_leaves)
    (hsame : Rebuilt db job.attested_winner job.pool_total_sompi (jobLeaves job)) :
    ClaimsGo e c db job s₀ := by
  have hlen := (payoutRoot_eq_some.mp hl.root).1.length
  have howes : ∀ s, Reached e c (jobLeaves job) s₀ s → Owes (jobLeaves job) s₀ s :=
    fun s hs => hs.owes hlen (hl.owes hsum)
  obtain ⟨fl, pm, hfl, hpm, hdeg, hls⟩ := hsame
  obtain rfl := Option.some.inj (hfees.symm.trans hfl)
  -- a witness for any leaf that is left
  have hbuilt : ∀ s, Reached e c (jobLeaves job) s₀ s → ∀ (i : Nat) (l : Leaf),
      (jobLeaves job)[i]? = some l → ¬ Marked s.w i → ∃ wit,
        buildClaimWitness e l.pk i s (getMarketBets db) job.fee_leaves job.pool_total_sompi =
          some wit ∧ wit.payout = l.amount ∧ wit.merkle_index = i ∧ Accepted e c s wit := by
    intro s hs i l hi hfree
    have ho := howes s hs
    have hroot : payoutRoot e (jobLeaves job) = some s.payoutRootField := by
      rw [hl.root, ho.root]
    have hwinner : s.attestedWinner = job.attested_winner := ho.winner.trans hl.winner
    rw [← hwinner] at hpm
    obtain ⟨wit, hwit, hkey, hpayout, hindex, hsibs⟩ :=
      buildClaimWitness_of_root hpm hdeg hls hroot ho hi hfree
    exact ⟨wit, hwit, hpayout, hindex,
      accepted_of_root hroot ho hi hfree hkey hpayout hindex hsibs⟩
  refine ⟨⟨jobLeaves job, ?_, hl.root⟩, ?_, ?_⟩
  · rw [hl.winner]
    exact ⟨_, pm, hfees, hpm, hdeg, hls⟩
  · intro s hs ls feeLeaves hre hfl' i l hi hfree
    obtain rfl := Option.some.inj (hfees.symm.trans hfl')
    rw [(howes s hs).winner.trans hl.winner] at hre
    have hjob : ls = jobLeaves job :=
      ((rebuilt_iff hdir hfees).mp hre).2.symm.trans
        ((rebuilt_iff hdir hfees).mp ⟨_, pm, hfees, hpm, hdeg, hls⟩).2
    exact hbuilt s hs i l (hjob ▸ hi) hfree
  · intro s hs hleft
    obtain ⟨i, l, hi, hfree⟩ := hleft
    have ho := howes s hs
    obtain ⟨k, l', htarget, hk, hkfree⟩ :=
      claimTarget_of_unclaimed ho.words hi ((Nat.zero_add i).symm ▸ hfree) (by omega)
    rw [Nat.zero_add] at htarget hkfree
    obtain ⟨wit, hwit, -, -, haccepted⟩ := hbuilt s hs k l' hk hkfree
    refine ⟨wit, ?_, haccepted⟩
    unfold claimOneLeaf
    simp only [Option.bind_eq_bind, Option.bind_eq_some_iff, require_eq_some, exists_const]
    refine ⟨job.fee_leaves, hfees, pm, ?_, hdeg, k, ?_, l', ?_, hwit⟩
    · rw [ho.winner.trans hl.winner]
      exact hpm
    · rw [hls]
      exact htarget
    · rw [hls]
      exact hk

/-- A shard that was refunded by hand has no bets any more. -/
theorem getMarketBets_of_one {shard : ProveShard} (h : db.market_shards = [shard]) :
    getMarketBets db = if shard.manual_recovery_refunded then [] else bets shard.rows := by
  rw [getMarketBets, h]
  cases hrefunded : shard.manual_recovery_refunded with
  | true => simp [hrefunded]
  | false => simp [hrefunded, bets]

/-- What the leaves of a job that is queued are. -/
theorem jobLeaves_of_queued {redeem : Bytes} {values : Settle.CloseValues} {fl : List FeeLeaf}
    (h : Queued e coll db redeem values fl job) :
    (job.attested_winner = 0 ∨ job.attested_winner = 1) ∧
      ¬ NobodyWins job.ordered_bets job.attested_winner ∧
      sumAmounts (jobLeaves job) = job.pool_total_sompi := by
  obtain ⟨pm, hpm, hdeg, hsum⟩ := h.pays
  have hdir : job.attested_winner = 0 ∨ job.attested_winner = 1 := by
    unfold computePariMutuelPayout at hpm
    exact (require_bind_eq_some.mp hpm).1
  obtain ⟨pm', hpm', hdeg', hleaves⟩ := @computePariMutuelPayout_leaves job.ordered_bets
    job.attested_winner (some job.pool_total_sompi) 0 fl hdir
  obtain rfl := Option.some.inj (hpm.symm.trans hpm')
  have hsome : ¬ NobodyWins job.ordered_bets job.attested_winner := by
    rw [← hdeg', hdeg]
    exact Bool.false_ne_true
  rw [hleaves hsome] at hsum
  refine ⟨hdir, hsome, ?_⟩
  rw [jobLeaves, h.fees]
  exact hsum

/-- Where the root comes out, the leaves are those of the job. -/
theorem rebuilt_of_root (hl : Landed e job s₀)
    (hdir : job.attested_winner = 0 ∨ job.attested_winner = 1)
    (hfees : claimFeeLeaves db job.pool_total_sompi = some job.fee_leaves)
    (hperm : (getMarketBets db).Perm job.ordered_bets)
    (hcf : CollisionFree e (treeMessages e (jobLeaves job) ++ treeMessages e
      (payoutLeavesOf (getMarketBets db) job.attested_winner
        (distributableOf job.pool_total_sompi 0 job.fee_leaves) job.fee_leaves)))
    {ls : List Leaf} (hls : Rebuilt db job.attested_winner job.pool_total_sompi ls)
    (hroot : payoutRoot e ls = some s₀.payoutRootField) : ls = jobLeaves job := by
  obtain ⟨-, rfl⟩ := (rebuilt_iff hdir hfees).mp hls
  obtain ⟨hbuild, hr⟩ := payoutRoot_eq_some.mp hroot
  obtain ⟨hbuild', hr'⟩ := payoutRoot_eq_some.mp hl.root
  exact rootOf_inj hcf.injOn hbuild hbuild' (fun m hm => List.mem_append_right _ hm)
    (fun m hm => List.mem_append_left _ hm) (Or.inl (payoutLeavesOf_length_perm hperm _ _ _))
    (hr.trans hr'.symm)

/-- **Where the root does not come out, no claim is built.** -/
theorem claimOneLeaf_eq_none {pool : Int} {s : State}
    (h : ∀ ls, Rebuilt db s.attestedWinner pool ls → payoutRoot e ls ≠ some s.payoutRootField) :
    claimOneLeaf e db pool s = none := by
  refine Option.eq_none_iff_forall_ne_some.mpr ?_
  intro wit hwit
  unfold claimOneLeaf buildClaimWitness at hwit
  simp only [Option.bind_eq_bind, Option.bind_eq_some_iff, require_eq_some, exists_const] at hwit
  obtain ⟨fl, hfl, pm, hpm, hdeg, i, -, l, -, pm', hpm', -, -, l', -, -, -, -, root, hroot, heq,
    -⟩ := hwit
  obtain rfl := Option.some.inj (hpm.symm.trans hpm')
  exact h _ ⟨fl, pm, hfl, hpm, hdeg, rfl⟩ (heq ▸ hroot)

/-- **The claims go through exactly if both orders share out alike.** -/
theorem claims_go_iff (e : Engine) (coll : Collation) (c : CloseZkV2.Contract) (db : ProveDb)
    (req : SignRequest) (job : ProveJob) (jobs : List JobRow) (s₀ : State)
    (h : tryEnqueueZkProve e coll db req = .ok (.enqueued job jobs)) (hl : Landed e job s₀)
    (hcf : CollisionFree e (treeMessages e (jobLeaves job) ++ treeMessages e
      (payoutLeavesOf (getMarketBets db) job.attested_winner
        (distributableOf job.pool_total_sompi 0 job.fee_leaves) job.fee_leaves))) :
    ClaimsGo e c db job s₀ ↔ ∃ rows ordered, soleShard db.market_shards = some rows ∧
      canonicalBetOrder coll rows = some ordered ∧
      SharesAlike job.attested_winner (distributableOf job.pool_total_sompi 0 job.fee_leaves)
        (getMarketBets db) (bets ordered) := by
  obtain ⟨hfees, values, hq⟩ := tryEnqueueZkProve_enqueued h
  obtain ⟨rows, ordered, hsole, hcanon, hbets⟩ := hq.order
  obtain ⟨hdir, hsome, hsum⟩ := jobLeaves_of_queued hq
  obtain ⟨shard, hshards, rfl⟩ := soleShard_eq_some.mp hsole
  have hmarket := getMarketBets_of_one hshards
  have hone : (∃ rows ordered', soleShard db.market_shards = some rows ∧
      canonicalBetOrder coll rows = some ordered' ∧
      SharesAlike job.attested_winner (distributableOf job.pool_total_sompi 0 job.fee_leaves)
        (getMarketBets db) (bets ordered')) ↔
      SharesAlike job.attested_winner (distributableOf job.pool_total_sompi 0 job.fee_leaves)
        (getMarketBets db) job.ordered_bets := by
    simp only [hsole, Option.some.injEq, exists_eq_left', hcanon, hbets, exists_and_left]
  rw [hone]
  cases hrefunded : shard.manual_recovery_refunded with
  | true =>
    -- there are no bets to share out
    rw [hrefunded, if_pos rfl] at hmarket
    constructor
    · intro hgo
      obtain ⟨ls, hls, -⟩ := hgo.root
      rw [hl.winner] at hls
      refine absurd ?_ ((rebuilt_iff hdir hfees).mp hls).1
      rw [hmarket]
      exact Or.inl rfl
    · intro halike
      have hlen := halike.length_eq
      rw [hmarket] at hlen
      exact absurd (Or.inl (List.length_eq_zero_iff.mp hlen.symm)) hsome
  | false =>
    rw [hrefunded, if_neg Bool.false_ne_true] at hmarket
    have hperm : (getMarketBets db).Perm job.ordered_bets := by
      rw [hmarket, hbets]
      exact (canonicalBetOrder_bets hcanon).symm
    rw [sharesAlike_iff, ← payoutLeavesOf_eq_iff hperm _ _ job.fee_leaves]
    constructor
    · intro hgo
      obtain ⟨ls, hls, hroot⟩ := hgo.root
      rw [hl.winner] at hls
      exact ((rebuilt_iff hdir hfees).mp hls).2.trans
        (rebuilt_of_root hl hdir hfees hperm hcf hls hroot)
    · intro hsame
      refine ClaimsGo.of_rebuilt hl hsum hdir hfees ((rebuilt_iff hdir hfees).mpr ⟨?_, hsame⟩)
      rwa [nobodyWins_perm hperm]

end

/-! ### Two winners -/

open KANet.Settle (CloseValues sampleKey sampleFees sampleRequest
  sampleRefundRoot proveCtx proveDb proveRequest proveSame pooledRedeem valueBytes_of_plainHex
  plainHex_hex read_pooledRedeem read_splice proveFees_eq
  deriveCloseFeeLeaves_of_pays ATTESTED_AT_MS_MIN ATTESTED_AT_MS_MAX PSV2_STATE_END_OFF
  attestValues valueBytes hex proveRoot provePays)

/-- Two bets on the side that wins; the first is locked by the older block. -/
def tickRows : List Row :=
  [⟨⟨sampleKey 3, 600000, 0⟩, some 3, some "aa"⟩, ⟨⟨sampleKey 1, 400000, 0⟩, some 7, some "bb"⟩]

/-- Where `late` holds, the settler heard of the first bet last. -/
def tickDb (late : Bool) : ProveDb :=
  { proveDb (some 2) with
    market_shards := [⟨false, if late then tickRows.reverse else tickRows⟩] }

def tickBetsRoot : Bytes32 :=
  HashChain.chain (Covenant.hashNode sampleEngine) ZERO32
    ((bets tickRows).map (Bet.hash sampleEngine))

def tickJob : ProveJob where
  ordered_bets := bets tickRows
  bets_root := tickBetsRoot.toList
  attested_winner := 0
  fee_leaves := sampleFees true 2
  pool_total_sompi := 1000000

/-- The state after the close of the job. -/
def tickState : State where
  attestedWinner := 0
  closed := 2
  payoutRootField := rootOf sampleEngine (jobLeaves tickJob)
  consolidated_pool := 1000000
  w := Words.zero

def tickRequest : SignRequest :=
  { proveRequest (some 2) [] with
    new_betsRoot := hex tickBetsRoot.toList }

theorem tick_order (late : Bool) :
    canonicalBetOrder proveCtx.coll (if late then tickRows.reverse else tickRows) =
      some tickRows := by
  refine canonicalBetOrder_of_perm ?_ (by decide) (by decide) (by decide)
  cases late with
  | false => exact .refl _
  | true => exact List.reverse_perm tickRows

theorem tick_enqueued (late : Bool) :
    tryEnqueueZkProve sampleEngine proveCtx.coll (tickDb late) tickRequest =
      .ok (.enqueued tickJob [⟨.pending, tickJob⟩]) := by
  have hrange : CloseValues.InRange ⟨(proveRoot (some 2)).toList, 0, tickBetsRoot.toList,
      sampleRefundRoot.toList, 1700000000000⟩ :=
    ⟨List.Vector.toList_length _, List.Vector.toList_length _, List.Vector.toList_length _,
      Or.inl rfl, by norm_num [ATTESTED_AT_MS_MIN, ATTESTED_AT_MS_MAX]⟩
  have hlen : PSV2_STATE_END_OFF ≤ pooledRedeem.length := by
    rw [pooledRedeem, List.length_append, List.length_replicate]
    decide
  have hvalues : attestValues tickRequest = some ⟨(proveRoot (some 2)).toList, 0,
      tickBetsRoot.toList, sampleRefundRoot.toList, 1700000000000⟩ := by
    show some (CloseValues.mk (valueBytes (hex _)) 0 (valueBytes (hex _)) (valueBytes (hex _))
      1700000000000) = _
    rw [valueBytes_of_plainHex (plainHex_hex _).symm, valueBytes_of_plainHex (plainHex_hex _).symm,
      valueBytes_of_plainHex (plainHex_hex _).symm]
  obtain ⟨landed, hlanded⟩ := hrange.splice hlen
  obtain ⟨pool, hpool, hread⟩ := read_splice hlanded hrange.winner hrange.atMs
  obtain rfl := Option.some.inj (read_pooledRedeem.symm.trans hpool)
  have hfees : deriveCloseFeeLeaves (tickDb late) 1000000 = .ok (some (sampleFees true 2)) :=
    (deriveCloseFeeLeaves_of_pays (proveSame (some 2) []) (proveFees_eq (some 2) []) provePays).1
  have hidle : ∀ j ∈ (tickDb late).zk_prove_jobs, ¬ j.Active :=
    fun j hj => absurd hj List.not_mem_nil
  unfold tryEnqueueZkProve
  simp only [bind_eq_ok, orRefuse_eq_ok]
  refine ⟨_, hvalues, landed, hlanded, _, hread, _, hfees, ?_⟩
  refine enqueueZkProveJob_eq_enqueued.mpr ⟨⟨hidle, ⟨landed, _, hlanded, hread, rfl, rfl, rfl⟩,
    ⟨_, _, rfl, tick_order late, rfl⟩, ⟨tickBetsRoot, computeBetsRoot_eq_some.mpr ⟨?_, rfl⟩, rfl⟩,
    rfl, List.cons_ne_nil _ _, by decide, ⟨_, rfl, rfl, by decide⟩⟩, rfl⟩
  intro b (hb : b ∈ bets tickRows)
  simp only [tickRows, bets, List.map_cons, List.map_nil, List.mem_cons, List.not_mem_nil,
    or_false] at hb
  rcases hb with rfl | rfl
  · exact ⟨rfl, by norm_num [Row.toBet], by decide, Or.inl rfl⟩
  · exact ⟨rfl, by norm_num [Row.toBet], by decide, Or.inl rfl⟩

theorem tick_landed : Landed sampleEngine tickJob tickState := by
  refine ⟨rfl, rfl, rfl, rfl, payoutRoot_of_buildable ⟨show 3 ≤ 1024 by norm_num, ?_⟩⟩
  have hleaves : jobLeaves tickJob =
      [⟨sampleKey 3, 594000⟩, ⟨sampleKey 1, 396000⟩, ⟨sampleKey 2, 10000⟩] := by decide
  intro w hw
  rw [hleaves] at hw
  simp only [List.mem_cons, List.not_mem_nil, or_false] at hw
  rcases hw with rfl | rfl | rfl
  · exact ⟨rfl, by norm_num, by decide⟩
  · exact ⟨rfl, by norm_num, by decide⟩
  · exact ⟨rfl, by norm_num, by decide⟩

theorem tick_collisionFree (late : Bool) : CollisionFree sampleEngine
    (treeMessages sampleEngine (jobLeaves tickJob) ++ treeMessages sampleEngine
      (payoutLeavesOf (getMarketBets (tickDb late)) tickJob.attested_winner
        (distributableOf tickJob.pool_total_sompi 0 tickJob.fee_leaves) tickJob.fee_leaves)) := by
  cases late with
  | false => decide +kernel
  | true => decide +kernel

/-- **A claim that is never built**: the settler heard of the first bet last. -/
theorem claims_stuck :
    tryEnqueueZkProve sampleEngine proveCtx.coll (tickDb true) tickRequest =
        .ok (.enqueued tickJob [⟨.pending, tickJob⟩]) ∧
      Landed sampleEngine tickJob tickState ∧
      claimOneLeaf sampleEngine (tickDb true) 1000000 tickState = none ∧
      ∀ c, ¬ ClaimsGo sampleEngine c (tickDb true) tickJob tickState := by
  obtain ⟨hfees, -, -⟩ := tryEnqueueZkProve_enqueued (tick_enqueued true)
  have hperm : (getMarketBets (tickDb true)).Perm tickJob.ordered_bets :=
    (List.reverse_perm tickRows).map _
  have hroot : ∀ ls, Rebuilt (tickDb true) 0 1000000 ls →
      payoutRoot sampleEngine ls ≠ some tickState.payoutRootField := by
    intro ls hls heq
    have hjob := rebuilt_of_root tick_landed (Or.inl rfl) hfees hperm (tick_collisionFree true)
      hls heq
    have hleaves := ((rebuilt_iff (Or.inl rfl) hfees).mp hls).2.trans hjob
    exact absurd hleaves (by decide)
  refine ⟨tick_enqueued true, tick_landed, claimOneLeaf_eq_none hroot, ?_⟩
  intro c hgo
  obtain ⟨ls, hls, heq⟩ := hgo.root
  exact hroot ls hls heq

/-- The claims go through where it heard of the bets in their order. -/
theorem claims_go_tickRows :
    ClaimsGo sampleEngine CloseZkV2.sampleContract (tickDb false) tickJob tickState := by
  refine (claims_go_iff sampleEngine proveCtx.coll CloseZkV2.sampleContract (tickDb false)
    tickRequest tickJob _ tickState (tick_enqueued false) tick_landed
    (tick_collisionFree false)).mpr ⟨tickRows, tickRows, rfl, tick_order false, ?_⟩
  exact sharesAlike_iff.mpr rfl

end KANet.Zk
