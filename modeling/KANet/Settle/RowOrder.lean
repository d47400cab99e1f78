import KANet.Lib.StableSort
import KANet.Settle.BettorSet
import KANet.Settle.FeeRecipients

/-!
# The order of the rows

Each member of the committee loads the rows of a market in an order of its own, and works the roots
out again.  The root of the bets and that of the refunds are those of the canonical order; the
payout root is that of the rows as they come.

* `CoreOk.reload`, `SignsV1.withRows`, `SignsV2.withRows` — what a member with other rows signs.
* `ClosableV1.signs`, `ClosableV2.signs` — for which markets a close can be signed.
* `row_order_iff` — the members agree exactly if the orders share out alike.
-/

namespace KANet.Settle

open KANet.Lib KANet.Script KANet.Payout

/-! ### Two members -/

/-- The member, with its rows in another order. -/
def EnforceCtx.withRows (ctx : EnforceCtx) (rows : List Row) : EnforceCtx :=
  { ctx with loadBettors := rows }

/-- The check of completeness does not look at the order of the rows. -/
def EnforceCtx.CountsRows (ctx : EnforceCtx) : Prop := ∀ rows rows' pool, rows.Perm rows' →
  ctx.verifyBettorsCompleteFromChain rows pool = ctx.verifyBettorsCompleteFromChain rows' pool

/-- What a settler proposes for the close of a market. -/
structure Proposal where
  claimedPayoutRoot : String
  txSafeJson : Option SafeTx
  new_attestedWinner : Option Int
  new_betsRoot : String
  new_refundRoot : String
  new_attestedAtMs : Option Int

def SignRequest.propose (r : SignRequest) (q : Proposal) : SignRequest :=
  { r with
    claimedPayoutRoot := q.claimedPayoutRoot
    txSafeJson := q.txSafeJson
    new_attestedWinner := q.new_attestedWinner
    new_betsRoot := q.new_betsRoot
    new_refundRoot := q.new_refundRoot
    new_attestedAtMs := q.new_attestedAtMs }

/-- Two runs sign the same, or both refuse. -/
def SignAlike {α : Type} (x y : Except Refusal α) : Prop := ∀ a, x = .ok a ↔ y = .ok a

theorem SignAlike.symm {α : Type} {x y : Except Refusal α} (h : SignAlike x y) : SignAlike y x :=
  fun a => (h a).symm

/-- Rows that tie in the canonical order have one bet after the other in common. -/
def TiesAlike (coll : Collation) (rows rows' : List Row) : Prop :=
  ∀ a ∈ rows, bets (rows.filter (tied (rowLe coll) a)) = bets (rows'.filter (tied (rowLe coll) a))

theorem tiesAlike_iff {coll : Collation} {rows rows' : List Row} (hp : rows.Perm rows') :
    TiesAlike coll rows rows' ↔
      bets (rows.mergeSort (rowLe coll)) = bets (rows'.mergeSort (rowLe coll)) :=
  (map_mergeSort_iff (rowLe_trans coll) (rowLe_total coll) Row.toBet hp).symm

theorem bets_perm {rows rows' : List Row} (hp : rows.Perm rows') : (bets rows).Perm (bets rows') :=
  hp.map Row.toBet

/-- The check of the chain is such a check. -/
theorem countsRows_of_chain {e : Engine} {ctx : EnforceCtx} {logicalMarketId : String}
    {chain : Option Int → ChainCtx}
    (h : ∀ rows pool, ctx.verifyBettorsCompleteFromChain rows pool = true ↔
      ∃ res, verifyBettorsCompleteFromChain e logicalMarketId (bets rows) (chain pool) = .ok res) :
    ctx.CountsRows := by
  intro rows rows' pool hp
  rw [Bool.eq_iff_iff, h, h]
  simp only [complete_perm (bets_perm hp)]

/-! ### The checks -/

section

variable {e : Engine} {ctx : EnforceCtx} {r : SignRequest} {core : Core} {rows : List Row}

/-- The checks of a member with other rows. -/
theorem CoreOk.reload (h : CoreOk e ctx r core) (hne : rows ≠ [])
    (hearly : ∀ b ∈ rows, ∃ daa ∈ b.side_lock_daa, ∀ deadline ∈ ctx.deadlineDaa, daa ≤ deadline)
    (hcomplete : ctx.verifyBettorsCompleteFromChain rows (poolOf ctx r.psRedeem) = true) :
    CoreOk e (ctx.withRows rows) r { core with bettors := rows } where
  mine := h.mine
  commit := h.commit
  side := h.side
  committee := h.committee
  member := h.member
  some_bettors := hne
  early := hearly
  complete := hcomplete
  bettors := rfl
  pool := h.pool
  rules := h.rules

theorem CoreOk.withRows (h : CoreOk e ctx r core) (hc : ctx.CountsRows)
    (hp : rows.Perm ctx.loadBettors) :
    CoreOk e (ctx.withRows rows) r { core with bettors := rows } := by
  refine h.reload ?_ ?_ ?_
  · intro hnil
    rw [hnil, List.nil_perm] at hp
    exact h.some_bettors hp
  · intro b hb
    exact h.early b (hp.mem_iff.mp hb)
  · rw [hc _ _ _ hp]
    exact h.complete

theorem coreOk_propose {q : Proposal} : CoreOk e ctx (r.propose q) core ↔ CoreOk e ctx r core := by
  constructor
  · intro h
    exact ⟨h.mine, h.commit, h.side, h.committee, h.member, h.some_bettors, h.early, h.complete,
      h.bettors, h.pool, h.rules⟩
  · intro h
    exact ⟨h.mine, h.commit, h.side, h.committee, h.member, h.some_bettors, h.early, h.complete,
      h.bettors, h.pool, h.rules⟩

/-- The checks leave one thing. -/
theorem CoreOk.unique {core' : Core} (h : CoreOk e ctx r core) (h' : CoreOk e ctx r core') :
    core = core' :=
  Except.ok.inj ((core_eq_ok.mpr h).symm.trans (core_eq_ok.mpr h'))

end

/-- The leaves are those of the other order exactly if both share out alike. -/
theorem leavesOf_withRows {core : Core} {rows : List Row} (hp : rows.Perm core.bettors) (pool : Int)
    (fl : List FeeLeaf) :
    leavesOf core pool fl = leavesOf { core with bettors := rows } pool fl ↔
      SharesAlike core.winningDirection (distributableOf pool 0 fl) (bets core.bettors)
        (bets rows) := by
  rw [sharesAlike_iff, ← payoutLeavesOf_eq_iff (bets_perm hp.symm) _ _ fl, leavesOf, leavesOf]

/-- Where the roots are the same, both share out alike. -/
theorem sharesAlike_of_root {e : Engine} {core : Core} {rows : List Row} {msgs : List Bytes}
    {root : Bytes32} {pool : Int} {fl : List FeeLeaf} (hp : rows.Perm core.bettors)
    (hcf : CollisionFree e msgs) (hm : treeMessages e (leavesOf core pool fl) ⊆ msgs)
    (hm' : treeMessages e (leavesOf { core with bettors := rows } pool fl) ⊆ msgs)
    (h : payoutRoot e (leavesOf core pool fl) = some root)
    (h' : payoutRoot e (leavesOf { core with bettors := rows } pool fl) = some root) :
    SharesAlike core.winningDirection (distributableOf pool 0 fl) (bets core.bettors)
      (bets rows) := by
  obtain ⟨hb, hr⟩ := payoutRoot_eq_some.mp h
  obtain ⟨hb', hr'⟩ := payoutRoot_eq_some.mp h'
  have hlen : (leavesOf core pool fl).length =
      (leavesOf { core with bettors := rows } pool fl).length :=
    payoutLeavesOf_length_perm (bets_perm hp.symm) _ _ fl
  rw [← leavesOf_withRows hp]
  exact rootOf_inj hcf.injOn hb hb' (fun m h => hm h) (fun m h => hm' h) (Or.inl hlen)
    (hr.trans hr'.symm)

/-! ### The first version -/

/-- A market of the first version for which a close can be signed. -/
structure ClosableV1 (e : Engine) (ctx : EnforceCtx) (r : SignRequest) (core : Core)
    (fl : List FeeLeaf) : Prop where
  checks : CoreOk e ctx r core
  fees : feeLeavesV1 core.feeRules r.broker_pk r.introducer_pk (sumStakes (bets core.bettors))
    core.committee = some fl
  pays : ¬ NobodyWins (bets core.bettors) core.winningDirection
  tree : Buildable (leavesOf core (sumStakes (bets core.bettors)) fl)
  redeem : 52 ≤ r.psRedeem.length

section

variable {e : Engine} {ctx : EnforceCtx} {r : SignRequest} {core : Core} {fl : List FeeLeaf}
  {rows : List Row} {msgs : List Bytes}

theorem SignsV1.closable {q : Proposal} {root : Bytes32}
    (h : SignsV1 e ctx (r.propose q) core fl root) : ClosableV1 e ctx r core fl := by
  obtain ⟨b, hb⟩ := h.binding
  obtain ⟨_, _, -, hsplice, -⟩ := checkBinding_ok hb
  obtain ⟨-, hlen, -⟩ := splicePayoutCloseRedeem_eq_some.mp hsplice
  exact ⟨coreOk_propose.mp h.checks, h.fees, h.pays, (payoutRoot_eq_some.mp h.tree).1, hlen⟩

/-- Some close is signed. -/
theorem ClosableV1.signs (h : ClosableV1 e ctx r core fl) :
    ∃ q root, SignsV1 e ctx (r.propose q) core fl root := by
  obtain ⟨root, htree⟩ : ∃ root,
      payoutRoot e (leavesOf core (sumStakes (bets core.bettors)) fl) = some root :=
    ⟨_, payoutRoot_of_buildable h.tree⟩
  obtain ⟨spliced, hsplice⟩ : ∃ spliced,
      splicePayoutCloseRedeem r.psRedeem root.toList = some spliced :=
    ⟨_, splicePayoutCloseRedeem_eq_some.mpr ⟨List.Vector.toList_length _, h.redeem, rfl⟩⟩
  have hbind : verifyClosePayoutRootBinding e (some (sampleClose e spliced)) r.psRedeem
      root.toList = .ok ⟨p2shSpkHex e spliced, 1⟩ := by
    rw [verifyClosePayoutRootBinding, hsplice]
    exact checkBinding_sampleClose e spliced
  exact ⟨⟨hex root.toList, some (sampleClose e spliced), none, "", "", none⟩, root,
    coreOk_propose.mpr h.checks, h.fees, h.pays, htree, ⟨_, hbind⟩, rfl⟩

theorem ClosableV1.messages (h : ClosableV1 e ctx r core fl) :
    messagesV1 e ctx r = (commitTexts e ctx r).map utf8 ++
      treeMessages e (leavesOf core (sumStakes (bets core.bettors)) fl) := by
  obtain ⟨q, root, hs⟩ := h.signs
  exact hs.messages

/-- **Alike orders are signed alike.** -/
theorem SignsV1.withRows {root : Bytes32} (h : SignsV1 e ctx r core fl root)
    (hc : ctx.CountsRows) (hp : rows.Perm core.bettors)
    (halike : SharesAlike core.winningDirection
      (distributableOf (sumStakes (bets core.bettors)) 0 fl) (bets core.bettors) (bets rows)) :
    SignsV1 e (ctx.withRows rows) r { core with bettors := rows } fl root := by
  have hsum : sumStakes (bets rows) = sumStakes (bets core.bettors) := sumStakes_perm (bets_perm hp)
  refine ⟨h.checks.withRows hc (h.checks.bettors ▸ hp), ?_, ?_, ?_, h.binding, h.claimed⟩
  · show feeLeavesV1 _ _ _ (sumStakes (bets rows)) _ = _
    rw [hsum]
    exact h.fees
  · show ¬ NobodyWins (bets rows) _
    rw [nobodyWins_perm (bets_perm hp)]
    exact h.pays
  · show payoutRoot e (leavesOf { core with bettors := rows } (sumStakes (bets rows)) fl) = _
    rw [hsum, ← (leavesOf_withRows hp _ fl).mpr halike]
    exact h.tree

/-- Orders that are signed alike are alike. -/
theorem ClosableV1.alike (h : ClosableV1 e ctx r core fl) (hc : ctx.CountsRows)
    (hp : rows.Perm core.bettors) (hcf : CollisionFree e msgs) (hm : messagesV1 e ctx r ⊆ msgs)
    (hm' : messagesV1 e (ctx.withRows rows) r ⊆ msgs)
    (hall : ∀ q, SignAlike (enforceCloseAttest e ctx (r.propose q))
      (enforceCloseAttest e (ctx.withRows rows) (r.propose q))) :
    SharesAlike core.winningDirection (distributableOf (sumStakes (bets core.bettors)) 0 fl)
      (bets core.bettors) (bets rows) := by
  obtain ⟨q, root, hs⟩ := h.signs
  obtain ⟨core', fl', root', hs', -⟩ := enforceCloseAttest_eq_ok.mp
    ((hall q _).mp (enforceCloseAttest_eq_ok.mpr ⟨core, fl, root, hs, rfl⟩))
  obtain rfl := (hs.checks.withRows hc (h.checks.bettors ▸ hp)).unique hs'.checks
  have hsum : sumStakes (bets rows) = sumStakes (bets core.bettors) := sumStakes_perm (bets_perm hp)
  have hfees : feeLeavesV1 core.feeRules r.broker_pk r.introducer_pk (sumStakes (bets rows))
      core.committee = some fl' := hs'.fees
  rw [hsum] at hfees
  obtain rfl := Option.some.inj (h.fees.symm.trans hfees)
  obtain rfl := hex_toList_inj.mp (hs.claimed.symm.trans hs'.claimed)
  have htree : payoutRoot e (leavesOf { core with bettors := rows } (sumStakes (bets rows)) fl) =
      some root := hs'.tree
  have hmsgs' : messagesV1 e (ctx.withRows rows) r = (commitTexts e ctx r).map utf8 ++
      treeMessages e (leavesOf { core with bettors := rows } (sumStakes (bets rows)) fl) :=
    hs'.messages
  rw [hsum] at htree hmsgs'
  refine sharesAlike_of_root hp hcf (fun m hmem => hm ?_) (fun m hmem => hm' ?_) hs.tree htree
  · rw [h.messages]
    exact List.mem_append_right _ hmem
  · rw [hmsgs']
    exact List.mem_append_right _ hmem

end

/-! ### The second version -/

/-- What each bet gets back. -/
def refunds (bs : List Bet) : List Leaf := bs.map fun b => { pk := b.pk, amount := b.stake }

theorem refunds_buildable {bs : List Bet} (hvalid : ∀ b ∈ bs, b.Valid) (hlen : bs.length ≤ 1024) :
    Buildable (refunds bs) := by
  refine ⟨by rwa [refunds, List.length_map], ?_⟩
  intro w hw
  obtain ⟨b, hb, rfl⟩ := List.mem_map.mp hw
  exact ⟨(hvalid b hb).pk, (hvalid b hb).pos, (hvalid b hb).fits⟩

/-- What is hashed for the root of the bets. -/
def betMessages (e : Engine) (ctx : EnforceCtx) : List Bytes :=
  ((canonicalBetOrder ctx.coll ctx.loadBettors).map fun ordered =>
    chainMessages e (bets ordered)).getD []

/-- A market of the second version for which a close can be signed. -/
structure ClosableV2 (e : Engine) (ctx : EnforceCtx) (r : SignRequest) (core : Core) (pool : Int)
    (fl : List FeeLeaf) : Prop where
  checks : CoreOk e ctx r core
  read : core.psConsolidatedPool = some pool
  fees : feeLeavesV2 ctx r pool = some fl
  pays : ¬ NobodyWins (bets core.bettors) core.winningDirection
  tree : Buildable (leavesOf core pool fl)
  anchored : ∀ b ∈ core.bettors, b.Anchored
  valid : ∀ b ∈ bets core.bettors, b.Valid
  few : core.bettors.length ≤ 1024
  redeem : PSV2_STATE_END_OFF ≤ r.psRedeem.length
  clock : ∃ atMs, (ATTESTED_AT_MS_MIN ≤ atMs ∧ atMs < ATTESTED_AT_MS_MAX) ∧
    |atMs - ctx.nowMs| ≤ ATTESTED_AT_MS_CLOCK_TOLERANCE_MS

section

variable {e : Engine} {ctx : EnforceCtx} {r : SignRequest} {core : Core} {pool : Int}
  {fl : List FeeLeaf} {rows : List Row} {msgs : List Bytes}

theorem SignsV2.closable {q : Proposal} {root : Bytes32} {p : Pass}
    (h : SignsV2 e ctx (r.propose q) core pool fl root p) : ClosableV2 e ctx r core pool fl := by
  obtain ⟨atMs, -, hrange, hclock, b, hb⟩ := h.binding
  obtain ⟨_, _, -, hsplice, -⟩ := checkBinding_ok hb
  obtain ⟨-, hlen, -⟩ := splicePayoutV2CloseRedeem_eq_some.mp hsplice
  obtain ⟨ordered, hordered, hbets, hrefund⟩ := h.order
  obtain ⟨hanchored, rfl⟩ := canonicalBetOrder_eq_some.mp hordered
  have hsort := List.mergeSort_perm core.bettors (rowLe ctx.coll)
  refine ⟨coreOk_propose.mp h.checks, h.read, h.fees, h.pays, (payoutRoot_eq_some.mp h.tree).1,
    hanchored, ?_, ?_, hlen, atMs, hrange, hclock⟩
  · intro b hb
    exact (computeBetsRoot_eq_some.mp hbets).1 b ((bets_perm hsort).mem_iff.mpr hb)
  · have hfew := (payoutRoot_eq_some.mp hrefund).1.length
    rwa [List.length_map, hsort.length_eq] at hfew

/-- Some close is signed. -/
theorem ClosableV2.signs (h : ClosableV2 e ctx r core pool fl) :
    ∃ q root p, SignsV2 e ctx (r.propose q) core pool fl root p := by
  obtain ⟨root, htree⟩ : ∃ root, payoutRoot e (leavesOf core pool fl) = some root :=
    ⟨_, payoutRoot_of_buildable h.tree⟩
  have hsort := List.mergeSort_perm core.bettors (rowLe ctx.coll)
  have hordered : canonicalBetOrder ctx.coll core.bettors =
      some (core.bettors.mergeSort (rowLe ctx.coll)) :=
    canonicalBetOrder_eq_some.mpr ⟨h.anchored, rfl⟩
  have hvalid : ∀ b ∈ bets (core.bettors.mergeSort (rowLe ctx.coll)), b.Valid :=
    fun b hb => h.valid b ((bets_perm hsort).mem_iff.mp hb)
  obtain ⟨betsRoot, hbets⟩ : ∃ betsRoot,
      computeBetsRoot e (bets (core.bettors.mergeSort (rowLe ctx.coll))) = some betsRoot :=
    ⟨_, computeBetsRoot_eq_some.mpr ⟨hvalid, rfl⟩⟩
  obtain ⟨refundRoot, hrefund⟩ : ∃ refundRoot, payoutRoot e
      (refunds (bets (core.bettors.mergeSort (rowLe ctx.coll)))) = some refundRoot := by
    refine ⟨_, payoutRoot_of_buildable (refunds_buildable hvalid ?_)⟩
    rw [(bets_perm hsort).length_eq, bets, List.length_map]
    exact h.few
  rw [refunds, bets, List.map_map] at hrefund
  obtain ⟨atMs, hrange, hclock⟩ := h.clock
  have hin : CloseValues.InRange ⟨root.toList, core.winningDirection, betsRoot.toList,
      refundRoot.toList, atMs⟩ :=
    ⟨List.Vector.toList_length _, List.Vector.toList_length _, List.Vector.toList_length _,
      winningSide_eq_ok h.checks.side, hrange⟩
  obtain ⟨spliced, hsplice⟩ := hin.splice h.redeem
  have hbind : verifyClosePayoutV2Binding e (some (sampleClose e spliced)) r.psRedeem
      ⟨root.toList, core.winningDirection, betsRoot.toList, refundRoot.toList, atMs⟩ =
        .ok ⟨p2shSpkHex e spliced, 1⟩ := by
    rw [verifyClosePayoutV2Binding, hsplice]
    exact checkBinding_sampleClose e spliced
  exact ⟨⟨hex root.toList, some (sampleClose e spliced), some core.winningDirection,
    hex betsRoot.toList, hex refundRoot.toList, some atMs⟩, root,
    ⟨core.winningDirection, betsRoot, refundRoot⟩, coreOk_propose.mpr h.checks, h.read, h.fees,
    h.pays, htree, rfl, rfl, ⟨_, hordered, hbets, hrefund⟩, (plainHex_hex _).symm,
    (plainHex_hex _).symm, ⟨atMs, rfl, hrange, hclock, _, hbind⟩, rfl⟩

theorem ClosableV2.messages (h : ClosableV2 e ctx r core pool fl) :
    messagesV2 e ctx r = (commitTexts e ctx r).map utf8 ++
      treeMessages e (leavesOf core pool fl) := by
  obtain ⟨q, root, p, hs⟩ := h.signs
  exact hs.messages

/-- **Alike orders are signed alike.** -/
theorem SignsV2.withRows {root : Bytes32} {p : Pass} (h : SignsV2 e ctx r core pool fl root p)
    (hc : ctx.CountsRows) (hp : rows.Perm core.bettors)
    (halike : SharesAlike core.winningDirection (distributableOf pool 0 fl) (bets core.bettors)
      (bets rows)) (hties : TiesAlike ctx.coll core.bettors rows) :
    SignsV2 e (ctx.withRows rows) r { core with bettors := rows } pool fl root p := by
  obtain ⟨ordered, hordered, hbets, hrefund⟩ := h.order
  obtain ⟨hanchored, rfl⟩ := canonicalBetOrder_eq_some.mp hordered
  have hsame : bets (rows.mergeSort (rowLe ctx.coll)) =
      bets (core.bettors.mergeSort (rowLe ctx.coll)) := ((tiesAlike_iff hp.symm).mp hties).symm
  refine ⟨h.checks.withRows hc (h.checks.bettors ▸ hp), h.read, h.fees, ?_, ?_, h.verdict,
    h.winner, ?_, h.betsRoot, h.refundRoot, h.binding, h.claimed⟩
  · show ¬ NobodyWins (bets rows) _
    rw [nobodyWins_perm (bets_perm hp)]
    exact h.pays
  · show payoutRoot e (leavesOf { core with bettors := rows } pool fl) = _
    rw [← (leavesOf_withRows hp _ fl).mpr halike]
    exact h.tree
  · refine ⟨rows.mergeSort (rowLe ctx.coll), canonicalBetOrder_eq_some.mpr ⟨?_, rfl⟩, ?_, ?_⟩
    · intro b hb
      exact hanchored b (hp.mem_iff.mp hb)
    · rw [hsame]
      exact hbets
    · have hrefunds := congrArg refunds hsame
      simp only [refunds, bets, List.map_map] at hrefunds
      exact (congrArg (payoutRoot e) hrefunds).trans hrefund

/-- Orders that are signed alike are alike. -/
theorem ClosableV2.alike (h : ClosableV2 e ctx r core pool fl) (hc : ctx.CountsRows)
    (hp : rows.Perm core.bettors) (hcf : CollisionFree e msgs) (hm : messagesV2 e ctx r ⊆ msgs)
    (hm' : messagesV2 e (ctx.withRows rows) r ⊆ msgs) (hb : betMessages e ctx ⊆ msgs)
    (hb' : betMessages e (ctx.withRows rows) ⊆ msgs)
    (hall : ∀ q, SignAlike (enforceCloseAttestV2 e ctx (r.propose q))
      (enforceCloseAttestV2 e (ctx.withRows rows) (r.propose q))) :
    SharesAlike core.winningDirection (distributableOf pool 0 fl) (bets core.bettors)
      (bets rows) ∧ TiesAlike ctx.coll core.bettors rows := by
  obtain ⟨q, root, p, hs⟩ := h.signs
  obtain ⟨core', pool', fl', root', hs'⟩ := enforceCloseAttestV2_eq_ok.mp
    ((hall q _).mp (enforceCloseAttestV2_eq_ok.mpr ⟨core, pool, fl, root, hs⟩))
  obtain rfl := (hs.checks.withRows hc (h.checks.bettors ▸ hp)).unique hs'.checks
  obtain rfl := Option.some.inj (h.read.symm.trans hs'.read)
  obtain rfl := Option.some.inj (h.fees.symm.trans hs'.fees)
  obtain rfl := hex_toList_inj.mp (hs.claimed.symm.trans hs'.claimed)
  have hmsgs' : messagesV2 e (ctx.withRows rows) r = (commitTexts e ctx r).map utf8 ++
      treeMessages e (leavesOf { core with bettors := rows } pool fl) := hs'.messages
  refine ⟨sharesAlike_of_root hp hcf (fun m hmem => hm ?_) (fun m hmem => hm' ?_) hs.tree
    hs'.tree, ?_⟩
  · rw [h.messages]
    exact List.mem_append_right _ hmem
  · rw [hmsgs']
    exact List.mem_append_right _ hmem
  · obtain ⟨ordered, hordered, hbets, -⟩ := hs.order
    obtain ⟨ordered', hordered', hbets', -⟩ := hs'.order
    have hsort : canonicalBetOrder ctx.coll ctx.loadBettors = some ordered := by
      rw [← h.checks.bettors]
      exact hordered
    have hsort' : canonicalBetOrder ctx.coll rows = some ordered' := hordered'
    have hlen : (bets ordered).length = (bets ordered').length := by
      obtain ⟨-, rfl⟩ := canonicalBetOrder_eq_some.mp hordered
      obtain ⟨-, rfl⟩ := canonicalBetOrder_eq_some.mp hsort'
      simp only [bets, List.length_map, List.length_mergeSort, hp.length_eq]
    have hsame := computeBetsRoot_inj hcf.injOn (Or.inl hlen) (fun m h => hb ?_)
      (fun m h => hb' ?_) hbets hbets'
    · rw [tiesAlike_iff hp.symm, (canonicalBetOrder_eq_some.mp hordered).2,
        (canonicalBetOrder_eq_some.mp hsort').2]
      exact hsame
    · rw [betMessages, hsort]
      exact h
    · show m ∈ ((canonicalBetOrder ctx.coll rows).map _).getD []
      rw [hsort']
      exact h

end

/-! ### The committee agrees -/

/-- The orders share out a market of the first version alike, if its close can be signed. -/
def AlikeV1 (e : Engine) (ctx : EnforceCtx) (r : SignRequest) (rows : List Row) : Prop :=
  ∀ core fl, ClosableV1 e ctx r core fl ∨ ClosableV1 e (ctx.withRows rows) r core fl →
    SharesAlike core.winningDirection (distributableOf (sumStakes (bets ctx.loadBettors)) 0 fl)
      (bets ctx.loadBettors) (bets rows)

/-- The orders share out a market of the second version alike and sort into the same bets, if its
close can be signed. -/
def AlikeV2 (e : Engine) (ctx : EnforceCtx) (r : SignRequest) (rows : List Row) : Prop :=
  ∀ core pool fl,
    ClosableV2 e ctx r core pool fl ∨ ClosableV2 e (ctx.withRows rows) r core pool fl →
    SharesAlike core.winningDirection (distributableOf pool 0 fl) (bets ctx.loadBettors)
      (bets rows) ∧ TiesAlike ctx.coll ctx.loadBettors rows

theorem TiesAlike.symm {coll : Collation} {rows rows' : List Row} (hp : rows.Perm rows')
    (h : TiesAlike coll rows rows') : TiesAlike coll rows' rows :=
  (tiesAlike_iff hp.symm).mpr ((tiesAlike_iff hp).mp h).symm

section

variable {e : Engine} {ctx : EnforceCtx} {r : SignRequest} {rows : List Row} {msgs : List Bytes}

/-- What the one signs, the other signs. -/
theorem enforceCloseAttest_withRows (hc : ctx.CountsRows) (hp : rows.Perm ctx.loadBettors)
    (h : AlikeV1 e ctx r rows) {q : Proposal} {w : Int}
    (hok : enforceCloseAttest e ctx (r.propose q) = .ok w) :
    enforceCloseAttest e (ctx.withRows rows) (r.propose q) = .ok w := by
  obtain ⟨core, fl, root, hs, rfl⟩ := enforceCloseAttest_eq_ok.mp hok
  have halike := h core fl (Or.inl hs.closable)
  have hbettors := hs.checks.bettors
  rw [← hbettors] at hp halike
  exact enforceCloseAttest_eq_ok.mpr ⟨_, fl, root, hs.withRows hc hp halike, rfl⟩

theorem enforceCloseAttestV2_withRows (hc : ctx.CountsRows) (hp : rows.Perm ctx.loadBettors)
    (h : AlikeV2 e ctx r rows) {q : Proposal} {p : Pass}
    (hok : enforceCloseAttestV2 e ctx (r.propose q) = .ok p) :
    enforceCloseAttestV2 e (ctx.withRows rows) (r.propose q) = .ok p := by
  obtain ⟨core, pool, fl, root, hs⟩ := enforceCloseAttestV2_eq_ok.mp hok
  have halike := h core pool fl (Or.inl hs.closable)
  have hbettors := hs.checks.bettors
  rw [← hbettors] at hp halike
  exact enforceCloseAttestV2_eq_ok.mpr ⟨_, pool, fl, root, hs.withRows hc hp halike.1 halike.2⟩

theorem AlikeV1.symm (hp : rows.Perm ctx.loadBettors) (h : AlikeV1 e ctx r rows) :
    AlikeV1 e (ctx.withRows rows) r ctx.loadBettors := by
  intro core fl hclosable
  have halike := h core fl hclosable.symm
  rw [← sumStakes_perm (bets_perm hp)] at halike
  exact halike.symm

theorem AlikeV2.symm (hp : rows.Perm ctx.loadBettors) (h : AlikeV2 e ctx r rows) :
    AlikeV2 e (ctx.withRows rows) r ctx.loadBettors := by
  intro core pool fl hclosable
  have halike := h core pool fl hclosable.symm
  exact ⟨halike.1.symm, halike.2.symm hp.symm⟩

/-- Members that sign alike have orders that are alike. -/
theorem AlikeV1.of_signAlike (hc : ctx.CountsRows) (hp : rows.Perm ctx.loadBettors)
    (hcf : CollisionFree e (messagesV1 e ctx r ++ messagesV1 e (ctx.withRows rows) r))
    (hall : ∀ q, SignAlike (enforceCloseAttest e ctx (r.propose q))
      (enforceCloseAttest e (ctx.withRows rows) (r.propose q))) : AlikeV1 e ctx r rows := by
  intro core fl hclosable
  rcases hclosable with h | h
  · have halike := h.alike hc (h.checks.bettors ▸ hp) hcf (List.subset_append_left _ _)
      (List.subset_append_right _ _) hall
    rwa [h.checks.bettors] at halike
  · have hbettors : core.bettors = rows := h.checks.bettors
    have halike := @ClosableV1.alike _ (ctx.withRows rows) _ _ _ ctx.loadBettors _ h hc
      (hbettors ▸ hp.symm) hcf (List.subset_append_right _ _) (List.subset_append_left _ _)
      fun q => (hall q).symm
    rw [hbettors, sumStakes_perm (bets_perm hp)] at halike
    exact halike.symm

theorem AlikeV2.of_signAlike (hc : ctx.CountsRows) (hp : rows.Perm ctx.loadBettors)
    (hcf : CollisionFree e (messagesV2 e ctx r ++ messagesV2 e (ctx.withRows rows) r ++
      (betMessages e ctx ++ betMessages e (ctx.withRows rows))))
    (hall : ∀ q, SignAlike (enforceCloseAttestV2 e ctx (r.propose q))
      (enforceCloseAttestV2 e (ctx.withRows rows) (r.propose q))) : AlikeV2 e ctx r rows := by
  have hm := List.subset_append_of_subset_left (betMessages e ctx ++
    betMessages e (ctx.withRows rows)) (List.subset_append_left (messagesV2 e ctx r)
      (messagesV2 e (ctx.withRows rows) r))
  have hm' := List.subset_append_of_subset_left (betMessages e ctx ++
    betMessages e (ctx.withRows rows)) (List.subset_append_right (messagesV2 e ctx r)
      (messagesV2 e (ctx.withRows rows) r))
  have hb := List.subset_append_of_subset_right (messagesV2 e ctx r ++
    messagesV2 e (ctx.withRows rows) r) (List.subset_append_left (betMessages e ctx)
      (betMessages e (ctx.withRows rows)))
  have hb' := List.subset_append_of_subset_right (messagesV2 e ctx r ++
    messagesV2 e (ctx.withRows rows) r) (List.subset_append_right (betMessages e ctx)
      (betMessages e (ctx.withRows rows)))
  intro core pool fl hclosable
  rcases hclosable with h | h
  · have halike := h.alike hc (h.checks.bettors ▸ hp) hcf hm hm' hb hb' hall
    rwa [h.checks.bettors] at halike
  · have hbettors : core.bettors = rows := h.checks.bettors
    have halike := @ClosableV2.alike _ (ctx.withRows rows) _ _ _ _ ctx.loadBettors _ h hc
      (hbettors ▸ hp.symm) hcf hm' hm hb' hb fun q => (hall q).symm
    rw [hbettors] at halike
    exact ⟨halike.1.symm, halike.2.symm hp⟩

/-- **The order of the rows**: whatever a settler proposes, two members with the same rows in two
orders sign the same or both refuse, exactly if the orders share out alike and, in the second
version, tied rows come alike. -/
theorem row_order_iff (e : Engine) (ctx : EnforceCtx) (r : SignRequest) (rows : List Row)
    (hc : ctx.CountsRows) (hp : rows.Perm ctx.loadBettors)
    (hcf : CollisionFree e (messagesV1 e ctx r ++ messagesV1 e (ctx.withRows rows) r))
    (hcf' : CollisionFree e (messagesV2 e ctx r ++ messagesV2 e (ctx.withRows rows) r ++
      (betMessages e ctx ++ betMessages e (ctx.withRows rows)))) :
    ((∀ q, SignAlike (enforceCloseAttest e ctx (r.propose q))
        (enforceCloseAttest e (ctx.withRows rows) (r.propose q))) ↔ AlikeV1 e ctx r rows) ∧
    ((∀ q, SignAlike (enforceCloseAttestV2 e ctx (r.propose q))
        (enforceCloseAttestV2 e (ctx.withRows rows) (r.propose q))) ↔ AlikeV2 e ctx r rows) := by
  refine ⟨⟨AlikeV1.of_signAlike hc hp hcf, ?_⟩, ⟨AlikeV2.of_signAlike hc hp hcf', ?_⟩⟩
  · intro h q w
    exact ⟨enforceCloseAttest_withRows hc hp h,
      @enforceCloseAttest_withRows _ (ctx.withRows rows) _ ctx.loadBettors hc hp.symm (h.symm hp)
        _ _⟩
  · intro h q p
    exact ⟨enforceCloseAttestV2_withRows hc hp h,
      @enforceCloseAttestV2_withRows _ (ctx.withRows rows) _ ctx.loadBettors hc hp.symm (h.symm hp)
        _ _⟩

end

/-! ### Two winners -/

/-- Two bets on the side that wins. -/
def orderRows : List Row :=
  [⟨⟨sampleKey 1, 400000, 0⟩, some 3, some "aa"⟩, ⟨⟨sampleKey 3, 600000, 0⟩, some 4, some "bb"⟩]

/-- The rows as one member loads them, and as another does. -/
def loaded (turned : Bool) : List Row := if turned then orderRows.reverse else orderRows

def orderCtx (turned : Bool) : EnforceCtx := (sampleCtx true).withRows (loaded turned)

def orderRequest : SignRequest := sampleRequest true 2 []

def orderCore (turned : Bool) : Core := { sampleCore true with bettors := loaded turned }

def orderLeavesV1 (turned : Bool) : List Leaf :=
  (if turned then [⟨sampleKey 3, 583200⟩, ⟨sampleKey 1, 388800⟩]
    else [⟨sampleKey 1, 388800⟩, ⟨sampleKey 3, 583200⟩]) ++
    [⟨sampleKey 2, 16000⟩, ⟨sampleKey 9, 12000⟩]

def orderLeavesV2 (turned : Bool) : List Leaf :=
  (if turned then [⟨sampleKey 3, 594000⟩, ⟨sampleKey 1, 396000⟩]
    else [⟨sampleKey 1, 396000⟩, ⟨sampleKey 3, 594000⟩]) ++ [⟨sampleKey 2, 10000⟩]

theorem payable_sampleKey (k : UInt8) {a : Int} (hpos : 0 < a) (hlt : a < 2 ^ 63) :
    Leaf.Payable ⟨sampleKey k, a⟩ :=
  ⟨List.length_replicate, hpos, fits_eight.mpr ⟨by show -2 ^ 63 < a; omega, hlt⟩⟩

theorem orderLeavesV1_buildable (turned : Bool) : Buildable (orderLeavesV1 turned) := by
  have h₁ : Leaf.Payable ⟨sampleKey 1, 388800⟩ := payable_sampleKey 1 (by norm_num) (by norm_num)
  have h₃ : Leaf.Payable ⟨sampleKey 3, 583200⟩ := payable_sampleKey 3 (by norm_num) (by norm_num)
  have h₂ : Leaf.Payable ⟨sampleKey 2, 16000⟩ := payable_sampleKey 2 (by norm_num) (by norm_num)
  have h₉ : Leaf.Payable ⟨sampleKey 9, 12000⟩ := payable_sampleKey 9 (by norm_num) (by norm_num)
  cases turned with
  | false =>
    refine ⟨show 4 ≤ 1024 by norm_num, ?_⟩
    simp only [orderLeavesV1, Bool.false_eq_true, if_false, List.cons_append, List.nil_append,
      List.forall_mem_cons]
    exact ⟨h₁, h₃, h₂, h₉, List.forall_mem_nil _⟩
  | true =>
    refine ⟨show 4 ≤ 1024 by norm_num, ?_⟩
    simp only [orderLeavesV1, if_true, List.cons_append, List.nil_append, List.forall_mem_cons]
    exact ⟨h₃, h₁, h₂, h₉, List.forall_mem_nil _⟩

theorem orderLeavesV2_buildable (turned : Bool) : Buildable (orderLeavesV2 turned) := by
  have h₁ : Leaf.Payable ⟨sampleKey 1, 396000⟩ := payable_sampleKey 1 (by norm_num) (by norm_num)
  have h₃ : Leaf.Payable ⟨sampleKey 3, 594000⟩ := payable_sampleKey 3 (by norm_num) (by norm_num)
  have h₂ : Leaf.Payable ⟨sampleKey 2, 10000⟩ := payable_sampleKey 2 (by norm_num) (by norm_num)
  cases turned with
  | false =>
    refine ⟨show 3 ≤ 1024 by norm_num, ?_⟩
    simp only [orderLeavesV2, Bool.false_eq_true, if_false, List.cons_append, List.nil_append,
      List.forall_mem_cons]
    exact ⟨h₁, h₃, h₂, List.forall_mem_nil _⟩
  | true =>
    refine ⟨show 3 ≤ 1024 by norm_num, ?_⟩
    simp only [orderLeavesV2, if_true, List.cons_append, List.nil_append, List.forall_mem_cons]
    exact ⟨h₃, h₁, h₂, List.forall_mem_nil _⟩

theorem loaded_perm (turned : Bool) : (loaded turned).Perm orderRows := by
  cases turned with
  | false => exact .refl _
  | true => exact List.reverse_perm orderRows

theorem order_countsRows (turned : Bool) : (orderCtx turned).CountsRows := fun _ _ _ _ => rfl

theorem order_coreOk (turned : Bool) :
    CoreOk sampleEngine (orderCtx turned) orderRequest (orderCore turned) := by
  refine (sampleCoreOk true 2 []).reload ?_ ?_ rfl
  · cases turned with
    | false => exact List.cons_ne_nil _ _
    | true => exact List.cons_ne_nil _ _
  · intro b hb
    have hb := (loaded_perm turned).mem_iff.mp hb
    simp only [orderRows, List.mem_cons, List.not_mem_nil, or_false] at hb
    rcases hb with rfl | rfl
    · exact ⟨3, rfl, fun deadline hd => by rw [← Option.some.inj hd]; norm_num⟩
    · exact ⟨4, rfl, fun deadline hd => by rw [← Option.some.inj hd]⟩

theorem loaded_sum (turned : Bool) : sumStakes (bets (loaded turned)) = 1000000 := by
  rw [sumStakes_perm (bets_perm (loaded_perm turned))]
  decide

theorem orderLeavesV1_eq (turned : Bool) :
    leavesOf (orderCore turned) 1000000 (sampleFees false 2) = orderLeavesV1 turned := by
  cases turned with
  | false => decide
  | true => decide

theorem orderLeavesV2_eq (turned : Bool) :
    leavesOf (orderCore turned) 1000000 (sampleFees true 2) = orderLeavesV2 turned := by
  cases turned with
  | false => decide
  | true => decide

theorem order_closableV1 (turned : Bool) :
    ClosableV1 sampleEngine (orderCtx turned) orderRequest (orderCore turned)
      (sampleFees false 2) := by
  refine ⟨order_coreOk turned, ?_, ?_, ?_, ?_⟩
  · show feeLeavesV1 none (some (hex (sampleKey 2))) none (sumStakes (bets (loaded turned)))
      [sampleKey 9] = _
    rw [loaded_sum]
    exact sampleProtocolFees 2
  · cases turned with
    | false => decide
    | true => decide
  · show Buildable (leavesOf (orderCore turned) (sumStakes (bets (loaded turned))) _)
    rw [loaded_sum, orderLeavesV1_eq]
    exact orderLeavesV1_buildable turned
  · show 52 ≤ sampleRedeem.length
    rw [sampleRedeem, List.length_replicate]
    norm_num

theorem order_closableV2 (turned : Bool) :
    ClosableV2 sampleEngine (orderCtx turned) orderRequest (orderCore turned) 1000000
      (sampleFees true 2) := by
  obtain ⟨_, _, hs⟩ := sampleSignsV2 2
  refine ⟨order_coreOk turned, rfl, hs.fees, ?_, ?_, ?_, ?_, ?_, ?_, ?_⟩
  · cases turned with
    | false => decide
    | true => decide
  · rw [orderLeavesV2_eq]
    exact orderLeavesV2_buildable turned
  · cases turned with
    | false => decide
    | true => decide
  · intro b hb
    have hb := (bets_perm (loaded_perm turned)).mem_iff.mp hb
    simp only [orderRows, bets, List.map_cons, List.map_nil, List.mem_cons, List.not_mem_nil,
      or_false] at hb
    rcases hb with rfl | rfl
    · exact ⟨rfl, by norm_num [Row.toBet], by decide, Or.inl rfl⟩
    · exact ⟨rfl, by norm_num [Row.toBet], by decide, Or.inl rfl⟩
  · cases turned with
    | false => decide
    | true => decide
  · show PSV2_STATE_END_OFF ≤ sampleRedeem.length
    rw [sampleRedeem, List.length_replicate]
    decide
  · refine ⟨1700000000000, by norm_num [ATTESTED_AT_MS_MIN, ATTESTED_AT_MS_MAX], ?_⟩
    show |(1700000000000 - 1700000000000 : Int)| ≤ ATTESTED_AT_MS_CLOCK_TOLERANCE_MS
    decide

/-- The canonical order is that of the locks, whoever loads the rows. -/
theorem loaded_order (turned : Bool) :
    canonicalBetOrder (sampleCtx true).coll (loaded turned) = some orderRows :=
  canonicalBetOrder_of_perm (loaded_perm turned) (by decide) (by decide) (by decide)

/-- What is hashed for the market. -/
def orderMessagesV1 : List Bytes :=
  treeMessages sampleEngine (orderLeavesV1 false) ++ treeMessages sampleEngine (orderLeavesV1 true)

def orderMessagesV2 : List Bytes :=
  treeMessages sampleEngine (orderLeavesV2 false) ++
    treeMessages sampleEngine (orderLeavesV2 true) ++
    (chainMessages sampleEngine (bets orderRows) ++ chainMessages sampleEngine (bets orderRows))

theorem order_messagesV1 (turned : Bool) :
    messagesV1 sampleEngine (orderCtx turned) orderRequest =
      treeMessages sampleEngine (orderLeavesV1 turned) := by
  have htexts : commitTexts sampleEngine (orderCtx turned) orderRequest = [] := rfl
  rw [(order_closableV1 turned).messages, htexts, List.map_nil, List.nil_append]
  show treeMessages _ (leavesOf _ (sumStakes (bets (loaded turned))) _) = _
  rw [loaded_sum, orderLeavesV1_eq]

theorem order_messagesV2 (turned : Bool) :
    messagesV2 sampleEngine (orderCtx turned) orderRequest =
      treeMessages sampleEngine (orderLeavesV2 turned) := by
  have htexts : commitTexts sampleEngine (orderCtx turned) orderRequest = [] := rfl
  rw [(order_closableV2 turned).messages, htexts, List.map_nil, List.nil_append, orderLeavesV2_eq]

theorem order_betMessages (turned : Bool) : betMessages sampleEngine (orderCtx turned) =
    chainMessages sampleEngine (bets orderRows) := by
  show ((canonicalBetOrder (sampleCtx true).coll (loaded turned)).map _).getD [] = _
  rw [loaded_order, Option.map_some, Option.getD_some]

theorem order_collisionFree :
    CollisionFree sampleEngine (messagesV1 sampleEngine (orderCtx false) orderRequest ++
      messagesV1 sampleEngine (orderCtx true) orderRequest) ∧
    CollisionFree sampleEngine (messagesV2 sampleEngine (orderCtx false) orderRequest ++
      messagesV2 sampleEngine (orderCtx true) orderRequest ++
      (betMessages sampleEngine (orderCtx false) ++ betMessages sampleEngine (orderCtx true))) := by
  have h₁ : CollisionFree sampleEngine orderMessagesV1 := by decide +kernel
  have h₂ : CollisionFree sampleEngine orderMessagesV2 := by decide +kernel
  rw [order_messagesV1, order_messagesV1, order_messagesV2, order_messagesV2, order_betMessages,
    order_betMessages]
  exact ⟨h₁, h₂⟩

/-- **Two members disagree**: in either version, of a market with two winners they sign one close
and refuse the other. -/
theorem row_order_matters :
    (loaded true).Perm (orderCtx false).loadBettors ∧
    (¬ ∀ q, SignAlike (enforceCloseAttest sampleEngine (orderCtx false) (orderRequest.propose q))
      (enforceCloseAttest sampleEngine (orderCtx true) (orderRequest.propose q))) ∧
    ¬ ∀ q, SignAlike (enforceCloseAttestV2 sampleEngine (orderCtx false) (orderRequest.propose q))
      (enforceCloseAttestV2 sampleEngine (orderCtx true) (orderRequest.propose q)) := by
  obtain ⟨hcf, hcf'⟩ := order_collisionFree
  refine ⟨loaded_perm true, ?_, ?_⟩
  · intro hall
    have halike := AlikeV1.of_signAlike (order_countsRows false) (loaded_perm true) hcf hall
      _ _ (Or.inl (order_closableV1 false))
    exact absurd (sharesAlike_iff.mp halike) (by decide)
  · intro hall
    have halike := AlikeV2.of_signAlike (order_countsRows false) (loaded_perm true) hcf' hall
      _ _ _ (Or.inl (order_closableV2 false))
    exact absurd (sharesAlike_iff.mp halike.1) (by decide)

/-- What the theorem says of that market. -/
theorem row_order_iff_loaded :
    ((∀ q, SignAlike (enforceCloseAttest sampleEngine (orderCtx false) (orderRequest.propose q))
        (enforceCloseAttest sampleEngine (orderCtx true) (orderRequest.propose q))) ↔
      AlikeV1 sampleEngine (orderCtx false) orderRequest (loaded true)) ∧
    ((∀ q, SignAlike (enforceCloseAttestV2 sampleEngine (orderCtx false) (orderRequest.propose q))
        (enforceCloseAttestV2 sampleEngine (orderCtx true) (orderRequest.propose q))) ↔
      AlikeV2 sampleEngine (orderCtx false) orderRequest (loaded true)) :=
  row_order_iff sampleEngine (orderCtx false) orderRequest (loaded true) (order_countsRows false)
    (loaded_perm true) order_collisionFree.1 order_collisionFree.2

end KANet.Settle
