import KANet.Settle.FeeRecipients

/-!
# `zk-prove-enqueue.mjs`

Once a close of the second version has landed, the settler queues the market for its proof.  It
takes nothing over from the close: the state is spliced and read again, the bets are put in order
and their root is compared with the one that was attested, and the fees are derived anew.

* `enqueueZkProveJob_eq_enqueued` — what is queued.
* `SignsV2.values`, `SignsV2.landed` — what the settler reads of a close that was signed.
* `attested_enqueued` — a market is queued if it has one shard and pays a broker, and then with
  the fees of the attested root.
-/

namespace KANet.Settle

open KANet.Lib KANet.Script KANet.Payout

/-! ### The queue -/

inductive JobStatus
  | pending
  | in_progress
  | done
  | failed
deriving DecidableEq

structure ProveJob where
  ordered_bets : List Bet
  bets_root : Bytes
  attested_winner : Int
  fee_leaves : List FeeLeaf
  pool_total_sompi : Int
deriving DecidableEq

structure JobRow where
  status : JobStatus
  job : ProveJob
deriving DecidableEq

/-- The index lets a market have one such job. -/
def JobRow.Active (j : JobRow) : Prop := j.status = .pending ∨ j.status = .in_progress

instance (j : JobRow) : Decidable j.Active := inferInstanceAs (Decidable (_ ∨ _))

/-- A shard, with its rows in the order of their ids. -/
structure ProveShard where
  manual_recovery_refunded : Bool
  rows : List Row

/-- The settler's tables, as far as they are about one market: its broker and the rate, its
shards in their order, and its jobs. -/
structure ProveDb where
  broker_pk : Option String
  broker_fee_pct : Option Int
  market_shards : List ProveShard
  zk_prove_jobs : List JobRow

/-- `INSERT INTO zk_prove_jobs`, under the index. -/
def insertJob (jobs : List JobRow) (job : ProveJob) : Option (List JobRow) :=
  if ∃ j ∈ jobs, j.Active then none else some (jobs ++ [⟨.pending, job⟩])

inductive EnqueueError
  | values
  | splice
  | feeLeaves
  | shards
  | betOrder
  | betsRoot
  | otherBets
  | noFeeLeaves
  | feesAbovePool
  | payout
  | notConserved
deriving DecidableEq

inductive Skipped
  | queued
  | degenerate
  | noBroker
deriving DecidableEq

/-- A job was queued, or there was a reason not to. -/
inductive Enqueued
  | enqueued (job : ProveJob) (jobs : List JobRow)
  | skipped (why : Skipped)
deriving DecidableEq

/-- `shards.length !== 1` -/
def soleShard : List ProveShard → Option (List Row)
  | [shard] => some shard.rows
  | _ => none

def enqueueZkProveJob (e : Engine) (coll : Collation) (db : ProveDb) (psRedeemPreAttest : Bytes)
    (attestValues : CloseValues) (feeLeaves : List FeeLeaf) : Except EnqueueError Enqueued :=
  if ∃ j ∈ db.zk_prove_jobs, j.Active then .ok (.skipped .queued)
  else do
    let landedRedeem ← orRefuse (splicePayoutV2CloseRedeem psRedeemPreAttest attestValues) .splice
    let attested ← orRefuse (readPayoutShardV2AttestedState landedRedeem) .splice
    let rows ← orRefuse (soleShard db.market_shards) .shards
    let ordered ← orRefuse (canonicalBetOrder coll rows) .betOrder
    let bettors := bets ordered
    let recomputedBetsRoot ← orRefuse (computeBetsRoot e bettors) .betsRoot
    check (recomputedBetsRoot.toList = attested.betsRoot) .otherBets
    check (feeLeaves ≠ []) .noFeeLeaves
    let pool := attested.consolidatedPool
    check (sumAmounts (feeLeaves.map FeeLeaf.toLeaf) ≤ pool) .feesAbovePool
    let pm ← orRefuse
      (computePariMutuelPayout bettors attested.attestedWinner (some pool) 0 feeLeaves) .payout
    if pm.degenerate = true then .ok (.skipped .degenerate)
    else do
      check (sumAmounts pm.payoutLeaves = pool) .notConserved
      let job : ProveJob :=
        { ordered_bets := bettors, bets_root := attested.betsRoot
          attested_winner := attested.attestedWinner, fee_leaves := feeLeaves
          pool_total_sompi := pool }
      .ok (match insertJob db.zk_prove_jobs job with
        | some jobs => .enqueued job jobs
        | none => .skipped .queued)

/-! ### After a close has landed -/

/-- `Buffer.from(String(s).replace(/^0x/, ''), 'hex')`, which reads digits of either case. -/
def valueBytes (s : String) : Bytes := bufferFromHex (plainHex s).toList

/-- The values that the request had attested. -/
def attestValues (r : SignRequest) : Option CloseValues := do
  let winner ← r.new_attestedWinner
  let atMs ← r.new_attestedAtMs
  some { newPayoutRoot := valueBytes r.claimedPayoutRoot, newAttestedWinner := winner
         newBetsRoot := valueBytes r.new_betsRoot, newRefundRoot := valueBytes r.new_refundRoot
         newAttestedAtMs := atMs }

/-- A market without a broker, or with a rate of nothing, has no leaves: it is not proven for
now. -/
def deriveCloseFeeLeaves (db : ProveDb) (consolidatedPool : Int) :
    Except EnqueueError (Option (List FeeLeaf)) :=
  match pkHint db.broker_pk with
  | none => .ok none
  | some s =>
    if db.broker_fee_pct.getD 0 ≤ 0 then .ok none
    else do
      let key ← orRefuse (fromHex s.toList) .feeLeaves
      let feeLeaves ← orRefuse
        (deriveSettlementFeeLeaves (some key) db.broker_fee_pct consolidatedPool) .feeLeaves
      .ok (some feeLeaves)

/-- The redeem script of `req.closeInputs` is the one that was signed over. -/
def tryEnqueueZkProve (e : Engine) (coll : Collation) (db : ProveDb) (req : SignRequest) :
    Except EnqueueError Enqueued := do
  let values ← orRefuse (attestValues req) .values
  let splicedForFee ← orRefuse (splicePayoutV2CloseRedeem req.psRedeem values) .splice
  let attested ← orRefuse (readPayoutShardV2AttestedState splicedForFee) .splice
  let feeLeaves ← deriveCloseFeeLeaves db attested.consolidatedPool
  match feeLeaves with
  | none => .ok (.skipped .noBroker)
  | some feeLeaves => enqueueZkProveJob e coll db req.psRedeem values feeLeaves

/-! ### What is queued -/

/-- What has been checked of a job that is queued. -/
structure Queued (e : Engine) (coll : Collation) (db : ProveDb) (redeem : Bytes)
    (values : CloseValues) (fl : List FeeLeaf) (job : ProveJob) : Prop where
  idle : ∀ j ∈ db.zk_prove_jobs, ¬ j.Active
  read : ∃ landed attested, splicePayoutV2CloseRedeem redeem values = some landed ∧
    readPayoutShardV2AttestedState landed = some attested ∧ job.bets_root = attested.betsRoot ∧
    job.attested_winner = attested.attestedWinner ∧
    job.pool_total_sompi = attested.consolidatedPool
  order : ∃ rows ordered, soleShard db.market_shards = some rows ∧
    canonicalBetOrder coll rows = some ordered ∧ job.ordered_bets = bets ordered
  root : ∃ root, computeBetsRoot e job.ordered_bets = some root ∧ root.toList = job.bets_root
  fees : job.fee_leaves = fl
  some_fees : fl ≠ []
  fits : sumAmounts (fl.map FeeLeaf.toLeaf) ≤ job.pool_total_sompi
  pays : ∃ pm, computePariMutuelPayout job.ordered_bets job.attested_winner
      (some job.pool_total_sompi) 0 fl = some pm ∧ pm.degenerate = false ∧
    sumAmounts pm.payoutLeaves = job.pool_total_sompi

theorem enqueueZkProveJob_eq_enqueued {e : Engine} {coll : Collation} {db : ProveDb}
    {redeem : Bytes} {values : CloseValues} {fl : List FeeLeaf} {job : ProveJob}
    {jobs : List JobRow} :
    enqueueZkProveJob e coll db redeem values fl = .ok (.enqueued job jobs) ↔
      Queued e coll db redeem values fl job ∧ jobs = db.zk_prove_jobs ++ [⟨.pending, job⟩] := by
  unfold enqueueZkProveJob
  by_cases hactive : ∃ j ∈ db.zk_prove_jobs, j.Active
  · rw [if_pos hactive]
    constructor
    · intro h
      cases h
    · intro h
      obtain ⟨j, hj, ha⟩ := hactive
      exact absurd ha (h.1.idle j hj)
  · have hidle : ∀ j ∈ db.zk_prove_jobs, ¬ j.Active := fun j hj ha => hactive ⟨j, hj, ha⟩
    have hinsert : ∀ job, insertJob db.zk_prove_jobs job =
        some (db.zk_prove_jobs ++ [⟨.pending, job⟩]) := fun _ => if_neg hactive
    rw [if_neg hactive]
    simp only [bind_eq_ok, check_eq_ok, orRefuse_eq_ok, exists_const, hinsert]
    constructor
    · intro h
      obtain ⟨landed, hlanded, attested, hread, rows, hrows, ordered, hordered, root, hroot, hsame,
        hfees, hfits, pm, hpm, h⟩ := h
      by_cases hdeg : pm.degenerate = true
      · rw [if_pos hdeg] at h
        cases h
      · rw [if_neg hdeg] at h
        simp only [bind_eq_ok, check_eq_ok, exists_const, Except.ok.injEq, Enqueued.enqueued.injEq]
          at h
        obtain ⟨hsum, rfl, rfl⟩ := h
        exact ⟨⟨hidle, ⟨landed, attested, hlanded, hread, rfl, rfl, rfl⟩,
          ⟨rows, ordered, hrows, hordered, rfl⟩, ⟨root, hroot, hsame⟩, rfl, hfees, hfits,
          ⟨pm, hpm, Bool.not_eq_true _ ▸ hdeg, hsum⟩⟩, rfl⟩
    · intro h
      obtain ⟨hq, rfl⟩ := h
      obtain ⟨landed, attested, hlanded, hread, hb, hw, hp⟩ := hq.read
      obtain ⟨rows, ordered, hrows, hordered, hbets⟩ := hq.order
      obtain ⟨root, hroot, hsame⟩ := hq.root
      obtain ⟨pm, hpm, hdeg, hsum⟩ := hq.pays
      have hfits := hq.fits
      have hjob : job = ⟨bets ordered, attested.betsRoot, attested.attestedWinner, fl,
          attested.consolidatedPool⟩ := by
        rw [← hbets, ← hb, ← hw, ← hp, ← hq.fees]
      rw [hbets] at hroot hpm
      rw [hw, hp] at hpm
      rw [hp] at hfits hsum
      refine ⟨landed, hlanded, attested, hread, rows, hrows, ordered, hordered, root, hroot,
        hsame.trans hb, hq.some_fees, hfits, pm, hpm, ?_⟩
      rw [if_neg (by rw [hdeg]; exact Bool.false_ne_true)]
      simp only [bind_eq_ok, check_eq_ok, exists_const, Except.ok.injEq, Enqueued.enqueued.injEq]
      exact ⟨hsum, hjob.symm, by rw [hjob]⟩

/-! ### What is read of a close that was signed -/

theorem valueBytes_of_plainHex {s : String} {b : Bytes} (h : hex b = plainHex s) :
    valueBytes s = b := by
  rw [valueBytes, ← h, hex, String.toList_ofList]
  exact bufferFromHex_of_fromHex (fromHex_toHex b)

section

variable {e : Engine} {ctx : EnforceCtx} {r : SignRequest} {core : Core} {pool : Int}
  {fl : List FeeLeaf} {root : Bytes32} {p : Pass}

/-- The settler reads the values that were signed. -/
theorem SignsV2.values (h : SignsV2 e ctx r core pool fl root p) :
    ∃ atMs landed, (ATTESTED_AT_MS_MIN ≤ atMs ∧ atMs < ATTESTED_AT_MS_MAX) ∧
      attestValues r = some ⟨root.toList, core.winningDirection, p.betsRoot.toList,
        p.refundRoot.toList, atMs⟩ ∧
      splicePayoutV2CloseRedeem r.psRedeem ⟨root.toList, core.winningDirection,
        p.betsRoot.toList, p.refundRoot.toList, atMs⟩ = some landed := by
  obtain ⟨atMs, hatMs, hrange, -, b, hb⟩ := h.binding
  obtain ⟨_, landed, -, hsplice, -⟩ := checkBinding_ok hb
  have hroot : valueBytes r.claimedPayoutRoot = root.toList := by
    apply valueBytes_of_plainHex
    rw [h.claimed, plainHex_hex]
  refine ⟨atMs, landed, hrange, ?_, hsplice⟩
  unfold attestValues
  rw [h.winner, hatMs, hroot, valueBytes_of_plainHex h.betsRoot,
    valueBytes_of_plainHex h.refundRoot]
  rfl

/-- What the settler reads of the close. -/
theorem SignsV2.landed (h : SignsV2 e ctx r core pool fl root p)
    (hpool : poolOf ctx r.psRedeem = readPsConsolidatedPool r.psRedeem) :
    ∃ values landed attested, attestValues r = some values ∧
      splicePayoutV2CloseRedeem r.psRedeem values = some landed ∧
      readPayoutShardV2AttestedState landed = some attested ∧
      attested.consolidatedPool = pool ∧ attested.attestedWinner = core.winningDirection ∧
      attested.betsRoot = p.betsRoot.toList := by
  obtain ⟨atMs, landed, hrange, hvalues, hsplice⟩ := h.values
  obtain ⟨pool', hread, hattested⟩ :=
    read_splice hsplice (winningSide_eq_ok h.checks.side) hrange
  have hsome : some pool = some pool' := by
    rw [← h.read, h.checks.pool, hpool]
    exact hread
  refine ⟨_, landed, _, hvalues, hsplice, hattested, ?_, rfl, rfl⟩
  exact (Option.some.inj hsome).symm

end

/-! ### One order for all -/

/-- A transaction locks one bet, by the index of the table, and the collation tells the ids of
two transactions apart. -/
structure LockIndex (coll : Collation) (rows : List Row) : Prop where
  unique : ∀ a ∈ rows, ∀ b ∈ rows, ∀ t ∈ a.side_lock_tx, t ∈ b.side_lock_tx → a = b
  apart : ∀ a ∈ rows, ∀ b ∈ rows, ∀ s ∈ a.side_lock_tx, ∀ t ∈ b.side_lock_tx,
    coll.localeCompare s t ≤ 0 → coll.localeCompare t s ≤ 0 → s = t

/-- Rows that stand before each other are one row. -/
theorem LockIndex.antisymm {coll : Collation} {rows : List Row} (h : LockIndex coll rows)
    (hanchored : ∀ a ∈ rows, a.Anchored) {a b : Row} (ha : a ∈ rows) (hb : b ∈ rows)
    (hab : rowLe coll a b) (hba : rowLe coll b a) : a = b := by
  obtain ⟨s, hs⟩ := Option.ne_none_iff_exists'.mp (hanchored a ha).2
  obtain ⟨t, ht⟩ := Option.ne_none_iff_exists'.mp (hanchored b hb).2
  have hcmp : coll.localeCompare s t ≤ 0 ∧ coll.localeCompare t s ≤ 0 := by
    rw [rowLe_iff] at hab hba
    rw [hs, ht, Option.getD_some, Option.getD_some] at hab hba
    omega
  have hst := h.apart a ha b hb s hs t ht hcmp.1 hcmp.2
  exact h.unique a ha b hb s hs (hst ▸ ht)

/-- **The canonical order does not depend on the order of the rows.** -/
theorem canonicalBetOrder_perm {coll : Collation} {rows rows' : List Row}
    (h : LockIndex coll rows) (hp : rows'.Perm rows) :
    canonicalBetOrder coll rows' = canonicalBetOrder coll rows := by
  by_cases hanchored : ∀ a ∈ rows, a.Anchored
  · have hsort := List.mergeSort_perm rows (rowLe coll)
    have hmem : ∀ a ∈ rows.mergeSort (rowLe coll), a ∈ rows := fun a ha => hsort.mem_iff.mp ha
    rw [canonicalBetOrder_eq_some.mpr ⟨hanchored, rfl⟩]
    refine canonicalBetOrder_of_perm (hp.trans hsort.symm) (fun a ha => hanchored a (hmem a ha))
      (List.pairwise_mergeSort (rowLe_trans coll) (rowLe_total coll) rows) ?_
    intro a ha b hb
    exact h.antisymm hanchored (hmem a ha) (hmem b hb)
  · have hanchored' : ¬ ∀ a ∈ rows', a.Anchored := by
      intro hall
      exact hanchored fun a ha => hall a (hp.mem_iff.mpr ha)
    rw [canonicalBetOrder, canonicalBetOrder, if_neg hanchored, if_neg hanchored']

/-! ### The fees -/

def PaysBroker (db : ProveDb) : Prop := pkHint db.broker_pk ≠ none ∧ 0 < db.broker_fee_pct.getD 0

/-- The settler has the market of a request as the member has it: the pool is that of the script,
the request names the market's broker, and the rows are the same, in whatever order. -/
structure SettlerHas (ctx : EnforceCtx) (r : SignRequest) (db : ProveDb) : Prop where
  pool : poolOf ctx r.psRedeem = readPsConsolidatedPool r.psRedeem
  broker : pkHint r.broker_pk = pkHint db.broker_pk
  rate : ctx.marketBrokerFeePct = db.broker_fee_pct
  rows : (db.market_shards.flatMap ProveShard.rows).Perm ctx.loadBettors
  index : LockIndex ctx.coll ctx.loadBettors

section

variable {ctx : EnforceCtx} {r : SignRequest} {db : ProveDb} {pool : Int} {fl : List FeeLeaf}

/-- A market that pays its broker has the leaves that were signed, and some. -/
theorem deriveCloseFeeLeaves_of_pays (hm : SettlerHas ctx r db)
    (h : feeLeavesV2 ctx r pool = some fl) (hp : PaysBroker db) :
    deriveCloseFeeLeaves db pool = .ok (some fl) ∧ fl ≠ [] := by
  obtain ⟨hbroker, hrate⟩ := hp
  obtain ⟨s, hs⟩ := Option.ne_none_iff_exists'.mp hbroker
  unfold feeLeavesV2 at h
  rw [hm.broker, hs] at h
  simp only [hm.rate, if_pos hrate, Option.bind_eq_bind, Option.bind_eq_some_iff] at h
  obtain ⟨key, hkey, hfl⟩ := h
  refine ⟨?_, ?_⟩
  · unfold deriveCloseFeeLeaves
    rw [hs]
    simp only [if_neg (not_le.mpr hrate), bind_eq_ok, orRefuse_eq_ok]
    exact ⟨key, hkey, fl, hfl, rfl⟩
  · rw [deriveSettlementFeeLeaves_eq hfl, namedLeaf, Option.elim_some, if_pos hrate]
    exact List.cons_ne_nil _ _

/-- A market that pays none has no leaves. -/
theorem deriveCloseFeeLeaves_of_free (hm : SettlerHas ctx r db)
    (h : feeLeavesV2 ctx r pool = some fl) (hp : ¬ PaysBroker db) :
    deriveCloseFeeLeaves db pool = .ok none ∧ fl = [] := by
  unfold feeLeavesV2 at h
  unfold deriveCloseFeeLeaves
  rw [hm.broker] at h
  cases hs : pkHint db.broker_pk with
  | none =>
    rw [hs] at h
    refine ⟨rfl, ?_⟩
    rw [deriveSettlementFeeLeaves_eq h]
    rfl
  | some s =>
    have hrate : ¬ 0 < db.broker_fee_pct.getD 0 := by
      intro hpos
      exact hp ⟨ne_of_eq_of_ne hs (Option.some_ne_none s), hpos⟩
    rw [hs] at h
    simp only [hm.rate, if_neg hrate] at h
    refine ⟨if_pos (not_lt.mp hrate), ?_⟩
    rw [deriveSettlementFeeLeaves_eq h]
    rfl

/-- The fees are no more than the pool. -/
theorem settlementFees_le {key : Option Bytes} {bps : Option Int}
    (h : deriveSettlementFeeLeaves key bps pool = some fl) :
    sumAmounts (fl.map FeeLeaf.toLeaf) ≤ pool := by
  unfold deriveSettlementFeeLeaves at h
  simp only [Option.bind_eq_bind, Option.bind_eq_some_iff, require_eq_some, exists_const] at h
  obtain ⟨-, h⟩ := h
  obtain ⟨hvalid, hpool, rfl⟩ := deriveRoleFeeLeaves_eq_some.mp h
  generalize settlementFeeRules key (bps.getD 0) = rules at hvalid
  have hperm := List.mergeSort_perm rules.roles nameLe
  have hbps : ∀ r ∈ rules.roles, 0 ≤ r.bps := fun r hr => (hvalid.roles r hr).2.1
  have hothers : (((rules.roles.mergeSort nameLe).filter fun r => r.name ≠ "provider").map
      Role.bps).sum ≤ 10000 := by
    rw [((hperm.filter _).map _).sum_eq, ← hvalid.sum]
    exact (List.filter_sublist.map _).sum_le_sum fun b hb => by
      obtain ⟨r, hr, rfl⟩ := List.mem_map.mp hb
      exact hbps r hr
  calc _ ≤ _ * pool / 10000 :=
        sum_roleFeeLeaves_le hpool.le (fun r hr => hbps r (hperm.mem_iff.mp hr)) []
    _ ≤ 10000 * pool / 10000 :=
        Int.ediv_le_ediv (by norm_num) (mul_le_mul_of_nonneg_right hothers hpool.le)
    _ = pool := Int.mul_ediv_cancel_left _ (by norm_num)

theorem feeLeavesV2_le (h : feeLeavesV2 ctx r pool = some fl) :
    sumAmounts (fl.map FeeLeaf.toLeaf) ≤ pool := by
  unfold feeLeavesV2 at h
  cases hs : pkHint r.broker_pk with
  | none =>
    rw [hs] at h
    exact settlementFees_le h
  | some s =>
    rw [hs] at h
    by_cases hrate : 0 < ctx.marketBrokerFeePct.getD 0
    · simp only [if_pos hrate, Option.bind_eq_bind, Option.bind_eq_some_iff] at h
      obtain ⟨key, -, hfl⟩ := h
      exact settlementFees_le hfl
    · simp only [if_neg hrate] at h
      exact settlementFees_le h

end

/-! ### What was attested is queued -/

theorem soleShard_eq_some {shards : List ProveShard} {rows : List Row} :
    soleShard shards = some rows ↔ ∃ shard, shards = [shard] ∧ shard.rows = rows := by
  match shards with
  | [] => simp [soleShard]
  | [shard] => simp [soleShard]
  | _ :: _ :: _ => simp [soleShard]

/-- A job that holds what the committee attested: its fees are those of the attested root. -/
structure Attested (e : Engine) (ctx : EnforceCtx) (r : SignRequest) (p : Pass)
    (job : ProveJob) : Prop where
  winner : job.attested_winner = p.verdict
  betsRoot : job.bets_root = p.betsRoot.toList
  ofBets : computeBetsRoot e job.ordered_bets = some p.betsRoot
  order : job.ordered_bets.Perm (bets ctx.loadBettors)
  pool : poolOf ctx r.psRedeem = some job.pool_total_sompi
  fees : feeLeavesV2 ctx r job.pool_total_sompi = some job.fee_leaves
  root : ∃ root, payoutRoot e (payoutLeavesOf (bets ctx.loadBettors) p.verdict
    (distributableOf job.pool_total_sompi 0 job.fee_leaves) job.fee_leaves) = some root ∧
      r.claimedPayoutRoot = hex root.toList

theorem canonicalBetOrder_bets {coll : Collation} {rows ordered : List Row}
    (h : canonicalBetOrder coll rows = some ordered) : (bets ordered).Perm (bets rows) := by
  unfold canonicalBetOrder at h
  by_cases hanchored : ∀ a ∈ rows, a.Anchored
  · rw [if_pos hanchored] at h
    obtain rfl := Option.some.inj h
    exact (List.mergeSort_perm rows (rowLe coll)).map _
  · rw [if_neg hanchored] at h
    cases h

section

variable {e : Engine} {ctx : EnforceCtx} {r : SignRequest} {core : Core} {pool : Int}
  {fl : List FeeLeaf} {root : Bytes32} {p : Pass} {db : ProveDb}

/-- **The checks of the queue pass**, if there is one shard, and there are fees. -/
theorem SignsV2.queued (h : SignsV2 e ctx r core pool fl root p) (hm : SettlerHas ctx r db)
    (hone : db.market_shards.length = 1) (hidle : ∀ j ∈ db.zk_prove_jobs, ¬ j.Active)
    (hfl : fl ≠ []) {values : CloseValues} (hvalues : attestValues r = some values) :
    ∃ job, Queued e ctx.coll db r.psRedeem values fl job := by
  obtain ⟨values', landed, attested, hvalues', hlanded, hread, hpool, hwinner, hbetsRoot⟩ :=
    h.landed hm.pool
  obtain rfl := Option.some.inj (hvalues'.symm.trans hvalues)
  obtain ⟨ordered, hordered, hroot, -⟩ := h.order
  have hw := winningSide_eq_ok h.checks.side
  obtain ⟨shard, hshard⟩ := List.length_eq_one_iff.mp hone
  have hperm : shard.rows.Perm ctx.loadBettors := by
    have hflat := hm.rows
    rwa [hshard, List.flatMap_singleton] at hflat
  rw [h.checks.bettors] at hordered
  have hbets := canonicalBetOrder_bets hordered
  have hpays := h.pays
  rw [h.checks.bettors, ← nobodyWins_perm hbets] at hpays
  -- the leaves are payable, since there is a tree of them
  have htree := (payoutRoot_eq_some.mp h.tree).1
  have hfee : ∀ l ∈ fl, 0 < l.amount := fun l hl =>
    (htree.payable _ (List.mem_append_right _ (List.mem_map_of_mem hl))).pos
  have hstake : ∀ b ∈ bets ordered, 0 < b.stake := fun b hb =>
    ((computeBetsRoot_eq_some.mp hroot).1 b hb).pos
  have hfits := feeLeavesV2_le h.fees
  obtain ⟨pm, hpm, hdeg, hconserves⟩ := settlement_conserves (bets ordered) core.winningDirection
    (some pool) 0 fl hw hstake hfee (fun _ => rfl) hfits
  rw [← winnersOf_eq_nil, ← nobodyWins_iff hstake] at hdeg
  have hfalse : pm.degenerate = false := by
    rw [← Bool.not_eq_true, hdeg]
    exact hpays
  exact ⟨⟨bets ordered, p.betsRoot.toList, core.winningDirection, fl, pool⟩, hidle,
    ⟨landed, attested, hlanded, hread, hbetsRoot.symm, hwinner.symm, hpool.symm⟩,
    ⟨shard.rows, ordered, soleShard_eq_some.mpr ⟨shard, hshard, rfl⟩,
      (canonicalBetOrder_perm hm.index hperm).trans hordered, rfl⟩,
    ⟨p.betsRoot, hroot, rfl⟩, rfl, hfl, hfits, ⟨pm, hpm, hfalse, (hconserves hfalse).total⟩⟩

/-- What is queued is what was attested. -/
theorem SignsV2.attested (h : SignsV2 e ctx r core pool fl root p) (hm : SettlerHas ctx r db)
    {values : CloseValues} (hvalues : attestValues r = some values) {job : ProveJob}
    (hq : Queued e ctx.coll db r.psRedeem values fl job) : Attested e ctx r p job := by
  obtain ⟨values', landed, attested, hvalues', hlanded, hread, hpool, hwinner, hbetsRoot⟩ :=
    h.landed hm.pool
  obtain rfl := Option.some.inj (hvalues'.symm.trans hvalues)
  obtain ⟨landed', attested', hlanded', hread', hb, hw, hp⟩ := hq.read
  obtain rfl := Option.some.inj (hlanded.symm.trans hlanded')
  obtain rfl := Option.some.inj (hread.symm.trans hread')
  obtain ⟨rows, ordered, hsole, hordered, hjob⟩ := hq.order
  obtain ⟨root', hroot', hsame⟩ := hq.root
  have hpool' := hp.trans hpool
  have hroots : root' = p.betsRoot := List.Vector.eq _ _ (hsame.trans (hb.trans hbetsRoot))
  obtain ⟨shard, hshard, rfl⟩ := soleShard_eq_some.mp hsole
  have hrows : shard.rows.Perm ctx.loadBettors := by
    have hflat := hm.rows
    rwa [hshard, List.flatMap_singleton] at hflat
  have htree := h.tree
  rw [h.checks.bettors, ← h.verdict] at htree
  refine ⟨(hw.trans hwinner).trans h.verdict.symm, hb.trans hbetsRoot, hroots ▸ hroot', ?_, ?_, ?_,
    root, ?_, h.claimed⟩
  · rw [hjob]
    exact (canonicalBetOrder_bets hordered).trans (hrows.map _)
  · rw [hpool', ← h.checks.pool, h.read]
  · rw [hpool', hq.fees, h.fees]
  · rw [hpool', hq.fees]
    exact htree

/-- The settler hands the queue the leaves that were signed, or goes without. -/
theorem SignsV2.tryEnqueue (h : SignsV2 e ctx r core pool fl root p) (hm : SettlerHas ctx r db)
    {values : CloseValues} (hvalues : attestValues r = some values) {job : ProveJob}
    {jobs : List JobRow} :
    tryEnqueueZkProve e ctx.coll db r = .ok (.enqueued job jobs) ↔ PaysBroker db ∧
      enqueueZkProveJob e ctx.coll db r.psRedeem values fl = .ok (.enqueued job jobs) := by
  obtain ⟨values', landed, attested, hvalues', hlanded, hread, hpool, -, -⟩ := h.landed hm.pool
  obtain rfl := Option.some.inj (hvalues'.symm.trans hvalues)
  unfold tryEnqueueZkProve
  simp only [bind_eq_ok, orRefuse_eq_ok, hvalues, hlanded, hread, Option.some.injEq,
    exists_eq_left', hpool]
  by_cases hp : PaysBroker db
  · rw [(deriveCloseFeeLeaves_of_pays hm h.fees hp).1]
    simp only [Except.ok.injEq, exists_eq_left', hp, true_and]
  · rw [(deriveCloseFeeLeaves_of_free hm h.fees hp).1]
    simp only [Except.ok.injEq, exists_eq_left', hp, false_and, reduceCtorEq]

end

/-- A market that can be proven: it has one shard, pays a broker, and has no job yet. -/
structure Provable (db : ProveDb) : Prop where
  shard : db.market_shards.length = 1
  broker : PaysBroker db
  idle : ∀ j ∈ db.zk_prove_jobs, ¬ j.Active

/-- **What was attested is queued**: of the markets whose close is signed, those that can be
proven, with the leaves that were signed or with those that the settler derives; and the job
holds what was attested. -/
theorem attested_enqueued (e : Engine) (ctx : EnforceCtx) (r : SignRequest) (p : Pass)
    (db : ProveDb) (h : enforceCloseAttestV2 e ctx r = .ok p) (hm : SettlerHas ctx r db) :
    (∀ values pool fl, attestValues r = some values → poolOf ctx r.psRedeem = some pool →
      feeLeavesV2 ctx r pool = some fl →
        ((∃ job jobs, enqueueZkProveJob e ctx.coll db r.psRedeem values fl =
          .ok (.enqueued job jobs)) ↔ Provable db)) ∧
    ((∃ job jobs, tryEnqueueZkProve e ctx.coll db r = .ok (.enqueued job jobs)) ↔ Provable db) ∧
    ∀ job jobs, tryEnqueueZkProve e ctx.coll db r = .ok (.enqueued job jobs) →
      Attested e ctx r p job ∧ jobs = db.zk_prove_jobs ++ [⟨.pending, job⟩] := by
  obtain ⟨core, pool, fl, root, hs⟩ := enforceCloseAttestV2_eq_ok.mp h
  obtain ⟨values, -, -, hvalues, -⟩ := hs.landed hm.pool
  have hpool : poolOf ctx r.psRedeem = some pool := hs.checks.pool.symm.trans hs.read
  have hqueue : (∃ job jobs, enqueueZkProveJob e ctx.coll db r.psRedeem values fl =
      .ok (.enqueued job jobs)) ↔ Provable db := by
    constructor
    · intro hjob
      obtain ⟨job, jobs, hjob⟩ := hjob
      obtain ⟨hq, -⟩ := enqueueZkProveJob_eq_enqueued.mp hjob
      obtain ⟨rows, -, hsole, -⟩ := hq.order
      refine ⟨?_, ?_, hq.idle⟩
      · obtain ⟨shard, hshard, -⟩ := soleShard_eq_some.mp hsole
        rw [hshard, List.length_singleton]
      · by_contra hp
        exact hq.some_fees (deriveCloseFeeLeaves_of_free hm hs.fees hp).2
    · intro hp
      obtain ⟨job, hq⟩ := hs.queued hm hp.shard hp.idle
        (deriveCloseFeeLeaves_of_pays hm hs.fees hp.broker).2 hvalues
      exact ⟨job, _, enqueueZkProveJob_eq_enqueued.mpr ⟨hq, rfl⟩⟩
  refine ⟨?_, ⟨?_, ?_⟩, ?_⟩
  · intro values' pool' fl' hvalues' hpool' hfl'
    obtain rfl := Option.some.inj (hvalues'.symm.trans hvalues)
    obtain rfl := Option.some.inj (hpool'.symm.trans hpool)
    obtain rfl := Option.some.inj (hfl'.symm.trans hs.fees)
    exact hqueue
  · intro hjob
    obtain ⟨job, jobs, hjob⟩ := hjob
    exact hqueue.mp ⟨job, jobs, ((hs.tryEnqueue hm hvalues).mp hjob).2⟩
  · intro hp
    obtain ⟨job, jobs, hjob⟩ := hqueue.mpr hp
    exact ⟨job, jobs, (hs.tryEnqueue hm hvalues).mpr ⟨hp.broker, hjob⟩⟩
  · intro job jobs hjob
    obtain ⟨-, hjob⟩ := (hs.tryEnqueue hm hvalues).mp hjob
    obtain ⟨hq, hjobs⟩ := enqueueZkProveJob_eq_enqueued.mp hjob
    exact ⟨hs.attested hm hvalues hq, hjobs⟩

/-! ### A market with one bet -/

/-- A script with a pool of one million. -/
def pooledRedeem : Bytes := [0, 8, 0x40, 0x42, 0x0f, 0, 0, 0, 0, 0] ++ List.replicate 690 0

/-- A member who reads the pool in the script. -/
def proveCtx : EnforceCtx := { sampleCtx true with psConsolidatedPool := none }

def proveLeaves : Option UInt8 → List Leaf
  | some broker => sampleLeaves true broker
  | none => [⟨sampleKey 1, 1000000⟩]

def proveFees : Option UInt8 → List FeeLeaf
  | some broker => sampleFees true broker
  | none => []

def proveRoot (broker : Option UInt8) : Bytes32 := rootOf sampleEngine (proveLeaves broker)

/-- A request of a market with or without a broker. -/
def proveRequest (broker : Option UInt8) (spliced : Bytes) : SignRequest :=
  { sampleRequest true 0 spliced with
    psRedeem := pooledRedeem
    broker_pk := broker.map fun b => hex (sampleKey b)
    claimedPayoutRoot := hex (proveRoot broker).toList }

def proveDb (broker : Option UInt8) : ProveDb where
  broker_pk := broker.map fun b => hex (sampleKey b)
  broker_fee_pct := some 100
  market_shards := [⟨false, proveCtx.loadBettors⟩]
  zk_prove_jobs := []

theorem poolOf_proveCtx {b : Bytes} : poolOf proveCtx b = readPsConsolidatedPool b := rfl

theorem read_pooledRedeem : readPsConsolidatedPool pooledRedeem = some 1000000 := by
  have hlen : PS_STATE_START + 1 + 8 ≤ pooledRedeem.length := by
    rw [pooledRedeem, List.length_append, List.length_replicate]
    decide
  rw [readPsConsolidatedPool, readBigInt64LE, if_pos hlen]
  rfl

theorem proveCoreOk (broker : Option UInt8) (spliced : Bytes) :
    CoreOk sampleEngine proveCtx (proveRequest broker spliced) (sampleCore true) where
  mine := (sampleCoreOk true 0 spliced).mine
  commit := by
    have hcommit : onChainCommit proveCtx pooledRedeem = hex (sampleKey 0) := by
      decide +kernel
    have hne : hex (sampleKey 0) ≠ "" := hex_ne_empty (List.cons_ne_nil _ _)
    show (do
      check (hex (sampleKey 0) ≠ "") .metadataHash
      .ok (hex (sampleKey 0)).toLower) = Except.ok (onChainCommit proveCtx pooledRedeem)
    rw [hcommit, toLower_hex, check, if_pos hne]
    rfl
  side := (sampleCoreOk true 0 spliced).side
  committee := (sampleCoreOk true 0 spliced).committee
  member := (sampleCoreOk true 0 spliced).member
  some_bettors := (sampleCoreOk true 0 spliced).some_bettors
  early := (sampleCoreOk true 0 spliced).early
  complete := rfl
  bettors := rfl
  pool := (poolOf_proveCtx.trans read_pooledRedeem).symm
  rules := rfl

theorem pkHint_prove (broker : Option UInt8) :
    pkHint (broker.map fun b => hex (sampleKey b)) = broker.map fun b => hex (sampleKey b) := by
  cases broker with
  | none => rfl
  | some b => exact pkHint_sampleKey b

theorem proveFees_eq (broker : Option UInt8) (spliced : Bytes) :
    feeLeavesV2 proveCtx (proveRequest broker spliced) 1000000 = some (proveFees broker) := by
  have hhint : pkHint (proveRequest broker spliced).broker_pk =
      broker.map fun b => hex (sampleKey b) := pkHint_prove broker
  unfold feeLeavesV2
  rw [hhint]
  cases broker with
  | none =>
    have hvalid : (settlementFeeRules none 100).Valid :=
      (validateFeeRules_eq_some (u := ())).mp rfl
    have hsome : deriveRoleFeeLeaves (settlementFeeRules none 100) 1000000 [] = some _ :=
      deriveRoleFeeLeaves_eq_some.mpr ⟨hvalid, by norm_num, rfl⟩
    have hfees : deriveSettlementFeeLeaves none (some 100) 1000000 = some _ := hsome
    show deriveSettlementFeeLeaves none (some 100) 1000000 = _
    rw [hfees, deriveSettlementFeeLeaves_eq hfees]
    rfl
  | some b =>
    show (do
      let key ← fromHex (hex (sampleKey b)).toList
      deriveSettlementFeeLeaves (some key) (some 100) 1000000) = _
    rw [hex, String.toList_ofList, fromHex_toHex]
    exact sampleSettlementFees b

theorem proveBuildable (broker : Option UInt8) : Buildable (proveLeaves broker) := by
  cases broker with
  | none =>
    refine ⟨show 1 ≤ 1024 by norm_num, List.forall_mem_cons.mpr ⟨?_, List.forall_mem_nil _⟩⟩
    exact ⟨rfl, by norm_num, show Fits 8 1000000 by decide⟩
  | some b => exact sampleBuildable true b

/-- **The market is signed**, whether it has a broker or not. -/
theorem proveSigns (broker : Option UInt8) : ∃ spliced p,
    SignsV2 sampleEngine proveCtx (proveRequest broker spliced) (sampleCore true) 1000000
      (proveFees broker) (proveRoot broker) p := by
  have hrange : CloseValues.InRange ⟨(proveRoot broker).toList, 0, sampleBetsRoot.toList,
      sampleRefundRoot.toList, 1700000000000⟩ :=
    ⟨List.Vector.toList_length _, List.Vector.toList_length _, List.Vector.toList_length _,
      Or.inl rfl, by norm_num [ATTESTED_AT_MS_MIN, ATTESTED_AT_MS_MAX]⟩
  have hlen : PSV2_STATE_END_OFF ≤ pooledRedeem.length := by
    rw [pooledRedeem, List.length_append, List.length_replicate]
    decide
  obtain ⟨spliced, hsplice⟩ := hrange.splice hlen
  obtain ⟨_, _, hs⟩ := sampleSignsV2 0
  refine ⟨spliced, ⟨0, sampleBetsRoot, sampleRefundRoot⟩, proveCoreOk broker spliced, rfl,
    proveFees_eq broker spliced, hs.pays, ?_, rfl, rfl, ?_, (plainHex_hex _).symm,
    (plainHex_hex _).symm, ?_, rfl⟩
  · cases broker with
    | none => exact payoutRoot_of_buildable (proveBuildable none)
    | some b => exact payoutRoot_of_buildable (proveBuildable (some b))
  · refine ⟨proveCtx.loadBettors, ?_, ?_, ?_⟩
    · show canonicalBetOrder _ [_] = some [_]
      rw [canonicalBetOrder, if_pos (by decide), List.mergeSort_singleton]
    · refine computeBetsRoot_eq_some.mpr ⟨?_, rfl⟩
      intro b hb
      rw [List.mem_singleton.mp hb]
      exact ⟨rfl, by norm_num [Row.toBet], by decide, Or.inl rfl⟩
    · refine payoutRoot_of_buildable ⟨by decide, ?_⟩
      intro w hw
      rw [List.mem_singleton.mp hw]
      exact ⟨rfl, by norm_num, by decide⟩
  · refine ⟨1700000000000, rfl, by norm_num [ATTESTED_AT_MS_MIN, ATTESTED_AT_MS_MAX], by decide,
      ⟨p2shSpkHex sampleEngine spliced, 1⟩, ?_⟩
    show checkBinding _ (some (sampleClose _ _)) (splicePayoutV2CloseRedeem _ _) = _
    exact (congrArg _ hsplice).trans (checkBinding_sampleClose sampleEngine spliced)

theorem proveSame (broker : Option UInt8) (spliced : Bytes) :
    SettlerHas proveCtx (proveRequest broker spliced) (proveDb broker) where
  pool := poolOf_proveCtx
  broker := rfl
  rate := rfl
  rows := .refl _
  index := by
    refine ⟨?_, ?_⟩
    · intro a ha b hb _ _ _
      rw [List.mem_singleton.mp ha, List.mem_singleton.mp hb]
    · intro a ha b hb s hs t ht _ _
      rw [List.mem_singleton.mp ha] at hs
      rw [List.mem_singleton.mp hb] at ht
      exact Option.some.inj (hs.symm.trans ht)

theorem provePays : PaysBroker (proveDb (some 2)) := by
  refine ⟨?_, by decide⟩
  show pkHint (some (hex (sampleKey 2))) ≠ none
  rw [pkHint_sampleKey]
  exact Option.some_ne_none _

theorem not_active {db : ProveDb} (hjobs : db.zk_prove_jobs = []) :
    ¬ ∃ j ∈ db.zk_prove_jobs, j.Active := by
  rw [hjobs]
  intro h
  obtain ⟨j, hj, -⟩ := h
  exact absurd hj List.not_mem_nil

/-- A market with a broker is queued. -/
theorem attested_enqueued_broker : ∃ r job jobs,
    tryEnqueueZkProve sampleEngine proveCtx.coll (proveDb (some 2)) r = .ok (.enqueued job jobs) ∧
      feeLeavesV2 proveCtx r job.pool_total_sompi = some job.fee_leaves := by
  obtain ⟨spliced, p, hs⟩ := proveSigns (some 2)
  obtain ⟨-, hiff, hjob⟩ := attested_enqueued sampleEngine proveCtx (proveRequest (some 2) spliced)
    p (proveDb (some 2)) (enforceCloseAttestV2_eq_ok.mpr ⟨_, _, _, _, hs⟩)
    (proveSame (some 2) spliced)
  obtain ⟨job, jobs, h⟩ := hiff.mpr ⟨rfl, provePays, fun j hj => absurd hj List.not_mem_nil⟩
  exact ⟨_, job, jobs, h, (hjob job jobs h).1.fees⟩

/-- The market with a second shard, which has no bets. -/
def twoShardsDb : ProveDb :=
  { proveDb (some 2) with market_shards := [⟨false, proveCtx.loadBettors⟩, ⟨false, []⟩] }

/-- **Two markets that are not**: the close of each is signed, and the queue refuses the one
without a broker, and the one with two shards. -/
theorem attested_refused :
    (∃ r p values fl, enforceCloseAttestV2 sampleEngine proveCtx r = .ok p ∧
      SettlerHas proveCtx r (proveDb none) ∧ attestValues r = some values ∧
      feeLeavesV2 proveCtx r 1000000 = some fl ∧
      enqueueZkProveJob sampleEngine proveCtx.coll (proveDb none) r.psRedeem values fl =
        .error .noFeeLeaves ∧
      tryEnqueueZkProve sampleEngine proveCtx.coll (proveDb none) r =
        .ok (.skipped .noBroker)) ∧
    ∃ r p values fl, enforceCloseAttestV2 sampleEngine proveCtx r = .ok p ∧
      SettlerHas proveCtx r twoShardsDb ∧ attestValues r = some values ∧
      feeLeavesV2 proveCtx r 1000000 = some fl ∧
      enqueueZkProveJob sampleEngine proveCtx.coll twoShardsDb r.psRedeem values fl =
        .error .shards := by
  refine ⟨?_, ?_⟩
  · obtain ⟨spliced, p, hs⟩ := proveSigns none
    have hm := proveSame none spliced
    obtain ⟨values, landed, attested, hvalues, hlanded, hread, hpool, -, hbetsRoot⟩ :=
      hs.landed hm.pool
    obtain ⟨ordered, hordered, hroot, -⟩ := hs.order
    have hordered' : canonicalBetOrder proveCtx.coll proveCtx.loadBettors = some ordered := hordered
    have hsole : soleShard (proveDb none).market_shards = some proveCtx.loadBettors := rfl
    have hfree : ¬ PaysBroker (proveDb none) := fun hp => hp.1 rfl
    refine ⟨_, p, values, [], enforceCloseAttestV2_eq_ok.mpr ⟨_, _, _, _, hs⟩, hm, hvalues,
      hs.fees, ?_, ?_⟩
    · unfold enqueueZkProveJob
      rw [if_neg (@not_active (proveDb none) rfl)]
      simp only [hlanded, hread, hsole, hordered', hroot, hbetsRoot, orRefuse, check, ok_bind]
      rfl
    · have hnone := (deriveCloseFeeLeaves_of_free hm hs.fees hfree).1
      rw [← hpool] at hnone
      unfold tryEnqueueZkProve
      simp only [hvalues, hlanded, hread, hnone, orRefuse, ok_bind]
  · obtain ⟨spliced, p, hs⟩ := proveSigns (some 2)
    have hm : SettlerHas proveCtx (proveRequest (some 2) spliced) twoShardsDb :=
      { proveSame (some 2) spliced with rows := .refl _ }
    obtain ⟨values, landed, attested, hvalues, hlanded, hread, -⟩ := hs.landed hm.pool
    have hsole : soleShard twoShardsDb.market_shards = none := rfl
    refine ⟨_, p, values, _, enforceCloseAttestV2_eq_ok.mpr ⟨_, _, _, _, hs⟩, hm, hvalues,
      hs.fees, ?_⟩
    unfold enqueueZkProveJob
    rw [if_neg (@not_active twoShardsDb rfl)]
    simp only [hlanded, hread, hsole, orRefuse, ok_bind]
    rfl

end KANet.Settle
