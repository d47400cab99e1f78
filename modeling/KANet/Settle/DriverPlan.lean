import KANet.Settle.Committee

/-!
# What the settler proposes

Before it asks the committee to close a market, the settler works out who has won, who the committee
is, and the root that the close pays.  A member that is asked works both out again.

* `computeSettlePlan` — the settler's plan.
* `plan_signed` — a member signs the close of a market with fee rules, if no bet came late.
* `legacy_refused` — it refuses that of a market without.
-/

namespace KANet.Settle

open KANet.Lib KANet.Script KANet.Payout KANet.Covenant

/-! ### The plan -/

/-- The row of `pool_markets`. -/
structure DriverMarket where
  id : String
  maker_pk : Option String
  broker_pk : Option String
  introducer_pk : Option String
  fee_rules : Option FeeRulesText
  deadline_daa : Int
  pool_merkle_root : Bytes

/-- What the settler reads: the bets of `getMarketBets`, how many are under the id of the market
itself, the side that wins, the block at the deadline, the members of the pool, and the address of
the closed shard with a pool and a root. -/
structure DriverCtx where
  isBshard : Bool
  bets : List Bet
  logicalBets : Nat
  winDir : Int
  endBlockHash : Int → Option Bytes
  poolMembers : List PoolMember
  closedAddr : Int → Bytes32 → Option String
  psSeedSompi : Option Int

inductive PlanRefusal
  | notBshard
  | noBets
  | commingled
  | winDir
  | degenerate
  | thrown

structure CommitteeMeta where
  pk : Bytes32
  idx : Nat
  siblings : List Bytes32

structure DriverPlan where
  winDir : Int
  payoutRoot : Bytes32
  winners : List Leaf
  poolSompi : Int
  committee : List Bytes32
  committeeMeta : List CommitteeMeta
  committeePkHash : Bytes32
  expectedClosedAddr : Option String

/-- `String(pk).toLowerCase()` -/
def keyText (pk : Option String) : String := (pk.getD "null").toLower

def driverExcludes (market : DriverMarket) (bets : List Bet) : List String :=
  [keyText market.maker_pk, keyText market.broker_pk] ++ bets.map fun b => hex b.pk

/-- The fees of the rules, and none without rules. -/
def driverFees (market : DriverMarket) (poolSompi : Int) (committee : List Bytes32) :
    Option (List FeeLeaf) :=
  match market.fee_rules with
  | some feeRules => feeRules.rules.bind fun rules =>
    deriveRoleFeeLeaves rules poolSompi (committee.map List.Vector.toList)
  | none => some []

def computeSettlePlan (e : Engine) (market : DriverMarket) (ctx : DriverCtx) :
    Except PlanRefusal DriverPlan := do
  check (ctx.isBshard = true) .notBshard
  check (ctx.bets ≠ []) .noBets
  check (ctx.logicalBets = 0) .commingled
  check (ctx.winDir = 0 ∨ ctx.winDir = 1) .winDir
  check (∃ b ∈ ctx.bets, b.direction = ctx.winDir) .degenerate
  let endBlockHash ← orRefuse (ctx.endBlockHash market.deadline_daa) .thrown
  let seed ← orRefuse (deriveCommitteeSeed e market.id endBlockHash market.pool_merkle_root) .thrown
  let sel ← orRefuse (selectCommittee e ctx.poolMembers seed (driverExcludes market ctx.bets))
    .thrown
  let asc := (sel.map PoolMember.pk).mergeSort keyLe
  let tree ← orRefuse (buildPoolMerkleTree e (ctx.poolMembers.map PoolMember.pk)) .thrown
  let poolSompi := sumStakes ctx.bets
  let feeLeaves ← orRefuse (driverFees market poolSompi asc) .thrown
  let pm ← orRefuse (computePariMutuelPayout ctx.bets ctx.winDir none 0 feeLeaves) .thrown
  check (pm.degenerate = false) .degenerate
  let root ← orRefuse (payoutRoot e pm.payoutLeaves) .thrown
  .ok
    { winDir := ctx.winDir
      payoutRoot := root
      winners := pm.payoutLeaves
      poolSompi
      committee := asc
      committeeMeta := asc.map fun pk =>
        ⟨pk, tree.sortedPks.idxOf pk, getPoolMerkleProof e tree (tree.sortedPks.idxOf pk)⟩
      committeePkHash := e.blake2b (asc.flatMap List.Vector.toList)
      expectedClosedAddr := ctx.closedAddr (poolSompi + ctx.psSeedSompi.getD PS_SEED) root }

/-- What a plan was made of. -/
structure PlanOf (e : Engine) (market : DriverMarket) (ctx : DriverCtx) (plan : DriverPlan)
    (sel : List PoolMember) (fl : List FeeLeaf) : Prop where
  winDir : plan.winDir = ctx.winDir
  side : ctx.winDir = 0 ∨ ctx.winDir = 1
  drawn : ∃ endBlockHash seed, ctx.endBlockHash market.deadline_daa = some endBlockHash ∧
    deriveCommitteeSeed e market.id endBlockHash market.pool_merkle_root = some seed ∧
    selectCommittee e ctx.poolMembers seed (driverExcludes market ctx.bets) = some sel
  committee : plan.committee = (sel.map PoolMember.pk).mergeSort keyLe
  fees : driverFees market (sumStakes ctx.bets) plan.committee = some fl
  pays : ¬ NobodyWins ctx.bets ctx.winDir
  tree : payoutRoot e (payoutLeavesOf ctx.bets ctx.winDir
    (distributableOf (sumStakes ctx.bets) 0 fl) fl) = some plan.payoutRoot

theorem computeSettlePlan_eq_ok {e : Engine} {market : DriverMarket} {d : DriverCtx}
    {plan : DriverPlan} (h : computeSettlePlan e market d = .ok plan) :
    ∃ sel fl, PlanOf e market d plan sel fl := by
  unfold computeSettlePlan at h
  simp only [bind_eq_ok, check_eq_ok, orRefuse_eq_ok, exists_const, Except.ok.injEq] at h
  obtain ⟨-, -, -, hside, -, endBlockHash, hend, seed, hseed, sel, hsel, tree, -, fl, hfl, pm, hpm,
    hdeg, root, hroot, rfl⟩ := h
  obtain ⟨pm', hpm', hdeg', hleaves⟩ := @computePariMutuelPayout_leaves d.bets d.winDir none 0 fl
    hside
  obtain rfl := Option.some.inj (hpm.symm.trans hpm')
  have hpays : ¬ NobodyWins d.bets d.winDir := by
    rw [← hdeg', hdeg]
    exact Bool.false_ne_true
  refine ⟨sel, fl, rfl, hside, ⟨endBlockHash, seed, hend, hseed, hsel⟩, rfl, hfl, hpays, ?_⟩
  rw [← hroot, hleaves hpays]
  rfl

/-- The plan of a market that can be closed. -/
theorem computeSettlePlan_ok {e : Engine} {market : DriverMarket} {d : DriverCtx}
    {endBlockHash : Bytes} {seed : Bytes32} {sel : List PoolMember} {tree : PoolTree}
    {fl : List FeeLeaf} {root : Bytes32} (hshard : d.isBshard = true) (hlogical : d.logicalBets = 0)
    (hside : d.winDir = 0 ∨ d.winDir = 1)
    (hend : d.endBlockHash market.deadline_daa = some endBlockHash)
    (hseed : deriveCommitteeSeed e market.id endBlockHash market.pool_merkle_root = some seed)
    (hsel : selectCommittee e d.poolMembers seed (driverExcludes market d.bets) = some sel)
    (htree : buildPoolMerkleTree e (d.poolMembers.map PoolMember.pk) = some tree)
    (hfees : driverFees market (sumStakes d.bets) ((sel.map PoolMember.pk).mergeSort keyLe) =
      some fl)
    (hpays : ¬ NobodyWins d.bets d.winDir)
    (hroot : payoutRoot e (payoutLeavesOf d.bets d.winDir
      (distributableOf (sumStakes d.bets) 0 fl) fl) = some root) :
    ∃ plan, computeSettlePlan e market d = .ok plan ∧ plan.payoutRoot = root ∧
      plan.committee = (sel.map PoolMember.pk).mergeSort keyLe := by
  obtain ⟨pm, hpm, hdeg, hleaves⟩ := @computePariMutuelPayout_leaves d.bets d.winDir none 0 fl hside
  have hdeg : pm.degenerate = false := by
    rw [← hdeg, Bool.not_eq_true] at hpays
    exact hpays
  have hwinner : ∃ b ∈ d.bets, b.direction = d.winDir := by
    by_contra hnone
    refine hpays (Or.inl (List.filter_eq_nil_iff.mpr ?_))
    intro b hb hdir
    exact hnone ⟨b, hb, of_decide_eq_true hdir⟩
  have hbets : d.bets ≠ [] := by
    intro hnil
    obtain ⟨b, hb, -⟩ := hwinner
    rw [hnil] at hb
    exact List.not_mem_nil hb
  rw [← Option.getD_none (a := sumStakes d.bets), ← hleaves hpays] at hroot
  unfold computeSettlePlan
  simp only [hshard, hbets, hlogical, hside, hwinner, hend, hseed, hsel, htree, hfees, hpm, hdeg,
    hroot, orRefuse, check, if_true, ok_bind, ne_eq, not_false_eq_true]
  exact ⟨_, rfl, rfl, rfl⟩

/-! ### An honest request -/

/-- A member of the market: it knows the pool, the keys, the deadline and the bets that the settler
knows, and its other checks pass. -/
structure HonestMember (e : Engine) (market : DriverMarket) (d : DriverCtx) (ctx : EnforceCtx)
    (c : CommitteeCtx) (r : SignRequest) : Prop where
  committee : ctx.reDeriveCommittee = fun psRedeem =>
    (reDeriveCommittee e market.id c psRedeem).map (·.map List.Vector.toList)
  members : c.loadPoolSnapshot.members = d.poolMembers
  maker : c.loadPoolSnapshot.maker_pk = market.maker_pk
  broker : c.loadPoolSnapshot.broker_pk = market.broker_pk
  onChain : (c.onChainPoolMerkleRoot.orElse fun _ =>
    extractOnChainPoolMerkleRoot r.psRedeem c.zk_native) = some market.pool_merkle_root
  dbRoot : ∀ dbRoot ∈ c.loadPoolSnapshot.pool_merkle_root, dbRoot = market.pool_merkle_root
  pool : ∃ built, buildPoolMerkleTree e (d.poolMembers.map PoolMember.pk) = some built ∧
    (built.root e).toList = market.pool_merkle_root
  deadline : c.deadlineDaa = some market.deadline_daa
  sameDeadline : ctx.deadlineDaa = some market.deadline_daa
  positive : 0 < market.deadline_daa
  endBlock : c.fetchEndBlockHashCanonical market.deadline_daa = d.endBlockHash market.deadline_daa
  rows : ctx.loadBettors = c.loadBettors
  bets : (bets c.loadBettors).Perm d.bets
  some_bettors : c.loadBettors ≠ []
  side : winningSide ctx.resolution r.predicate = .ok d.winDir
  commit : expectedCommit e ctx r = .ok (onChainCommit ctx r.psRedeem)
  complete : ctx.verifyBettorsCompleteFromChain ctx.loadBettors (poolOf ctx r.psRedeem) = true
  mine : r.committee_pk.toLower ∈ ctx.myOracleKeys.map String.toLower

/-- A request of the settler for its plan, to a member of the committee. -/
structure HonestRequest (e : Engine) (market : DriverMarket) (plan : DriverPlan)
    (r : SignRequest) : Prop where
  claimed : r.claimedPayoutRoot = hex plan.payoutRoot.toList
  fee_rules : r.fee_rules = market.fee_rules.map some
  broker : r.broker_pk = market.broker_pk
  introducer : r.introducer_pk = market.introducer_pk
  pays : ∃ b, verifyClosePayoutRootBinding e r.txSafeJson r.psRedeem plan.payoutRoot.toList = .ok b
  toMember : r.committee_pk.toLower ∈ plan.committee.map fun pk => hex pk.toList

/-- No bet came late. -/
def OnTime (market : DriverMarket) (rows : List Row) : Prop :=
  ∀ b ∈ rows, ∃ daa ∈ b.side_lock_daa, daa ≤ market.deadline_daa

/-- The bets share out alike in the settler's order and in the member's. -/
def SameShares (market : DriverMarket) (d : DriverCtx) (plan : DriverPlan) (rows : List Row) :
    Prop :=
  ∀ fl, driverFees market (sumStakes d.bets) plan.committee = some fl →
    SharesAlike d.winDir (distributableOf (sumStakes d.bets) 0 fl) d.bets (bets rows)

section

variable {e : Engine} {market : DriverMarket} {d : DriverCtx} {plan : DriverPlan}
  {ctx : EnforceCtx} {c : CommitteeCtx} {r : SignRequest}

/-- The fees do not depend on the order of the committee. -/
theorem deriveRoleFeeLeaves_perm {rules : FeeRules} {pool : Int} {pks pks' : List Bytes}
    (h : pks.Perm pks') :
    deriveRoleFeeLeaves rules pool pks = deriveRoleFeeLeaves rules pool pks' := by
  have hnil : pks ≠ [] ↔ pks' ≠ [] := by
    rw [ne_eq, ne_eq, ← List.length_eq_zero_iff, ← List.length_eq_zero_iff, h.length_eq]
  have hleaves : ∀ total, committeeLeaves total pks = committeeLeaves total pks' := by
    intro total
    rw [committeeLeaves, committeeLeaves, mergeSort_pkLe_perm h]
  simp only [deriveRoleFeeLeaves, hleaves, hnil]

/-- A key that is missing leaves nobody out. -/
theorem mem_keyText {pk : Bytes32} {pks : List (Option String)} :
    hex pk.toList ∈ pks.map keyText ↔ hex pk.toList ∈ keyTexts pks := by
  rw [mem_keyTexts, List.mem_map]
  refine ⟨?_, ?_⟩
  · intro h
    obtain ⟨o, ho, heq⟩ := h
    cases o with
    | none =>
      refine absurd heq.symm (hex_ne_of_length ?_)
      rw [keyText, length_toLower]
      decide
    | some s => exact ⟨s, ho, heq.symm⟩
  · intro h
    obtain ⟨s, hs, heq⟩ := h
    exact ⟨some s, hs, heq.symm⟩

/-- Where no bet is late, the settler and the member leave the same members out. -/
theorem HonestMember.excludes (h : HonestMember e market d ctx c r)
    (htime : OnTime market c.loadBettors) (pk : Bytes32) :
    hex pk.toList ∈ excludeOf c.loadPoolSnapshot c.loadBettors market.deadline_daa ↔
      hex pk.toList ∈ driverExcludes market d.bets := by
  have hrows : (c.loadBettors.filter fun b => b.side_lock_daa.any (· ≤ market.deadline_daa)) =
      c.loadBettors := by
    refine List.filter_eq_self.mpr fun b hb => ?_
    obtain ⟨daa, hdaa, hle⟩ := htime b hb
    rw [Option.mem_def.mp hdaa]
    exact decide_eq_true hle
  have hbets : hex pk.toList ∈ c.loadBettors.map (fun b => hex b.pk) ↔
      hex pk.toList ∈ d.bets.map (fun b => hex b.pk) := by
    rw [← (h.bets.map fun b => hex b.pk).mem_iff, Settle.bets, List.map_map]
    rfl
  have hkeys := @mem_keyText pk [market.maker_pk, market.broker_pk]
  rw [excludeOf, driverExcludes, hrows, h.maker, h.broker, List.mem_append, List.mem_append, hbets,
    ← hkeys]
  rfl

/-- **The member draws the committee of the settler.** -/
theorem HonestMember.reDerives {sel : List PoolMember} {fl : List FeeLeaf}
    (h : HonestMember e market d ctx c r) (htime : OnTime market c.loadBettors)
    (hplan : PlanOf e market d plan sel fl) :
    reDeriveCommittee e market.id c r.psRedeem = some (sel.map PoolMember.pk) := by
  obtain ⟨endBlockHash, seed, hend, hseed, hsel⟩ := hplan.drawn
  obtain ⟨built, hbuilt, hroot⟩ := h.pool
  have hdraw : selectCommittee e d.poolMembers seed
      (excludeOf c.loadPoolSnapshot c.loadBettors market.deadline_daa) = some sel := by
    rw [← hsel]
    exact selectCommittee_congr fun m _ => h.excludes htime m.pk
  have hne : d.poolMembers ≠ [] := by
    intro hnil
    rw [hnil] at hbuilt
    cases hbuilt
  have hanchored : ∀ b ∈ c.loadBettors, b.side_lock_daa ≠ none := by
    intro b hb
    obtain ⟨daa, hdaa, -⟩ := htime b hb
    rw [Option.mem_def.mp hdaa]
    exact Option.some_ne_none _
  unfold reDeriveCommittee
  simp only [Option.bind_eq_bind, Option.bind_eq_some_iff, require_eq_some, exists_const,
    Option.some.injEq]
  refine ⟨by rwa [h.members], _, h.onChain, h.dbRoot, built, by rwa [h.members], hroot, _, ?_,
    endBlockHash, by rwa [h.endBlock], seed, hseed, h.positive, hanchored, sel, ?_, rfl⟩
  · rw [h.deadline]
    rfl
  · rw [h.members]
    exact hdraw

/-- The member's fees are those of the settler. -/
theorem PlanOf.memberFees {sel : List PoolMember} {fl : List FeeLeaf}
    (hplan : PlanOf e market d plan sel fl) (hrules : market.fee_rules ≠ none)
    (brokerPk introducerPk : Option String) :
    feeLeavesV1 market.fee_rules brokerPk introducerPk (sumStakes d.bets)
      ((sel.map PoolMember.pk).map List.Vector.toList) = some fl := by
  obtain ⟨t, ht⟩ := Option.ne_none_iff_exists'.mp hrules
  have hperm : ((sel.map PoolMember.pk).map List.Vector.toList).Perm
      (plan.committee.map List.Vector.toList) := by
    rw [hplan.committee]
    exact (List.mergeSort_perm _ _).symm.map _
  have hfees := hplan.fees
  rw [driverFees, ht] at hfees
  rw [ht, ← hfees]
  show (t.rules.bind fun rules => deriveRoleFeeLeaves rules (sumStakes d.bets)
    ((sel.map PoolMember.pk).map List.Vector.toList)) = _
  simp only [deriveRoleFeeLeaves_perm hperm]

/-- **The close of a market with fee rules is signed**: if no bet is late and the bets share out
alike in both orders, every member of the settler's committee draws that committee, and signs the
root of the settler. -/
theorem plan_signed (hplan : computeSettlePlan e market d = .ok plan)
    (hm : HonestMember e market d ctx c r) (hr : HonestRequest e market plan r)
    (hrules : market.fee_rules ≠ none) (htime : OnTime market c.loadBettors)
    (hshares : SameShares market d plan c.loadBettors) :
    (∃ committee, reDeriveCommittee e market.id c r.psRedeem = some committee ∧
      committee.mergeSort keyLe = plan.committee) ∧
    enforceCloseAttest e ctx r = .ok plan.winDir := by
  obtain ⟨sel, fl, hp⟩ := computeSettlePlan_eq_ok hplan
  have hcommittee := hm.reDerives htime hp
  have hsum : sumStakes (bets c.loadBettors) = sumStakes d.bets := sumStakes_perm hm.bets
  refine ⟨⟨_, hcommittee, hp.committee.symm⟩, enforceCloseAttest_eq_ok.mpr ?_⟩
  refine ⟨⟨d.winDir, (sel.map PoolMember.pk).map List.Vector.toList, ctx.loadBettors,
    poolOf ctx r.psRedeem, market.fee_rules⟩, fl, plan.payoutRoot,
    ⟨?_, ?_, ?_, ?_, hr.pays, hr.claimed⟩, hp.winDir.symm⟩
  · refine ⟨hm.mine, hm.commit, hm.side, ?_, ?_, ?_, ?_, hm.complete, rfl, rfl, ?_⟩
    · rw [hm.committee]
      show (reDeriveCommittee e market.id c r.psRedeem).map _ = _
      rw [hcommittee]
      rfl
    · have hmem := hr.toMember
      rw [hp.committee] at hmem
      have hperm := (List.mergeSort_perm (sel.map PoolMember.pk) keyLe).map fun pk => hex pk.toList
      rw [List.map_map]
      exact hperm.mem_iff.mp hmem
    · rw [hm.rows]
      exact hm.some_bettors
    · intro b hb
      rw [hm.rows] at hb
      obtain ⟨daa, hdaa, hle⟩ := htime b hb
      refine ⟨daa, hdaa, ?_⟩
      intro deadline hdeadline
      rw [hm.sameDeadline] at hdeadline
      rwa [← Option.some.inj hdeadline]
    · rw [hr.fee_rules]
      cases market.fee_rules with
      | none => rfl
      | some t => rfl
  · show feeLeavesV1 _ _ _ (sumStakes (bets ctx.loadBettors)) _ = _
    rw [hm.rows, hsum]
    exact hp.memberFees hrules _ _
  · show ¬ NobodyWins (bets ctx.loadBettors) _
    rw [hm.rows, nobodyWins_perm hm.bets]
    exact hp.pays
  · show payoutRoot e (payoutLeavesOf (bets ctx.loadBettors) d.winDir
      (distributableOf (sumStakes (bets ctx.loadBettors)) 0 fl) fl) = _
    rw [hm.rows, hsum, ← (payoutLeavesOf_eq_iff hm.bets.symm _ _ fl).mpr
      (sharesAlike_iff.mp (hshares fl hp.fees))]
    exact hp.tree

end

/-! ### A market without fee rules, and one with a late bet -/

section Sample

private def planMembers : List PoolMember :=
  [⟨samplePk 0, 1⟩, ⟨samplePk 1, 1⟩, ⟨samplePk 2, 1⟩, ⟨samplePk 3, 1⟩, ⟨samplePk 4, 1⟩,
    ⟨samplePk 5, 1⟩]

private def planTree : PoolTree where
  leaves := planMembers.map (fun m => hashPoolLeaf sampleEngine m.pk) ++
    List.replicate 250 (hashPoolLeaf sampleEngine (samplePk 5))
  sortedPks := planMembers.map PoolMember.pk

private def planPool : Bytes := (planTree.root sampleEngine).toList

/-- The rules by which the winners have it all. -/
private def planRules : FeeRulesText := ⟨1, none, [⟨"provider", 10000, none, none, false⟩]⟩

private def planMarket (rules : Option FeeRulesText) : DriverMarket where
  id := "m1"
  maker_pk := none
  broker_pk := none
  introducer_pk := none
  fee_rules := rules
  deadline_daa := 4
  pool_merkle_root := planPool

/-- The first member of the pool has bet too, after the deadline. -/
private def planRows (late : Bool) : List Row :=
  ⟨⟨sampleKey 77, 1000000, 0⟩, some 3, some "aa"⟩ ::
    if late then [⟨⟨(samplePk 0).toList, 1000000, 1⟩, some 9, some "bb"⟩] else []

private def planDriver (late : Bool) : DriverCtx where
  isBshard := true
  bets := bets (planRows late)
  logicalBets := 0
  winDir := 0
  endBlockHash := fun _ => some (sampleKey 7)
  poolMembers := planMembers
  closedAddr := fun _ _ => none
  psSeedSompi := none

private def planCommitteeCtx (late : Bool) : CommitteeCtx where
  loadPoolSnapshot := ⟨none, planMembers, none, none, none⟩
  onChainPoolMerkleRoot := some planPool
  zk_native := false
  deadlineDaa := some 4
  fetchEndBlockHashCanonical := fun _ => some (sampleKey 7)
  loadBettors := planRows late

private def planCtx (late : Bool) : EnforceCtx where
  myOracleKeys := [hex (samplePk 1).toList]
  zk_native := false
  marketMetadataHash := some (hex (sampleKey 0))
  marketBrokerFeePct := none
  resolution := .blockhash_parity (some 5) (some (7, some 4))
  reDeriveCommittee := fun psRedeem =>
    (reDeriveCommittee sampleEngine "m1" (planCommitteeCtx late) psRedeem).map
      (·.map List.Vector.toList)
  loadBettors := planRows late
  deadlineDaa := some 4
  verifyBettorsCompleteFromChain := fun _ _ => true
  psConsolidatedPool := none
  nowMs := 0
  coll := (sampleCtx false).coll

private theorem planTree_eq :
    buildPoolMerkleTree sampleEngine (planMembers.map PoolMember.pk) = some planTree := by
  have hsorted : (planMembers.map PoolMember.pk).mergeSort keyLe =
      planMembers.map PoolMember.pk := List.mergeSort_of_pairwise (by decide)
  unfold buildPoolMerkleTree
  rw [hsorted]
  rfl

private def planSeed : Bytes32 := sampleHash (utf8 "m1" ++ sampleKey 7 ++ planPool)

private theorem planSeed_eq :
    deriveCommitteeSeed sampleEngine "m1" (sampleKey 7) planPool = some planSeed := by
  have hlen : planPool.length = 32 := List.Vector.toList_length _
  have hblock : (sampleKey 7).length = 32 := List.length_replicate
  simp only [deriveCommitteeSeed, require, hlen, hblock, if_true, ne_eq]
  rfl

/-- Whom the draw leaves out. -/
private theorem selectCommittee_plan {excludePks : List String} (rest : List PoolMember)
    {sel : List PoolMember}
    (hrest : (planMembers.filter fun m => hex m.pk.toList ∉ excludePks) = rest)
    (hsorted : rest.Pairwise fun a b => keyLe a.pk b.pk = true)
    (hfew : COMMITTEE_SIZE ≤ rest.length) (hstake : ∀ m ∈ rest, 0 < m.stake_sompi)
    (hdraw : drawAll sampleEngine planSeed 0 COMMITTEE_SIZE rest = some sel) :
    selectCommittee sampleEngine planMembers planSeed excludePks = some sel := by
  simp only [selectCommittee, hrest, List.mergeSort_of_pairwise hsorted, require, if_pos hfew,
    if_pos hstake]
  exact hdraw

private def planDrawn : List PoolMember :=
  [⟨samplePk 3, 1⟩, ⟨samplePk 2, 1⟩, ⟨samplePk 1, 1⟩, ⟨samplePk 0, 1⟩, ⟨samplePk 5, 1⟩]

private def planDrawnLate : List PoolMember :=
  [⟨samplePk 2, 1⟩, ⟨samplePk 3, 1⟩, ⟨samplePk 5, 1⟩, ⟨samplePk 4, 1⟩, ⟨samplePk 1, 1⟩]

private theorem drawn_all {excludePks : List String}
    (h : (planMembers.filter fun m => hex m.pk.toList ∉ excludePks) = planMembers) :
    selectCommittee sampleEngine planMembers planSeed excludePks = some planDrawn :=
  selectCommittee_plan _ h (by decide +kernel) (by decide) (by decide) (by decide +kernel)

private theorem drawn_late :
    selectCommittee sampleEngine planMembers planSeed
      (driverExcludes (planMarket none) (bets (planRows true))) = some planDrawnLate :=
  selectCommittee_plan planMembers.tail (by decide +kernel) (by decide +kernel)
    (by decide) (by decide) (by decide +kernel)

private def planLeaves (pool : Int) : List Leaf := [⟨sampleKey 77, pool⟩]

private theorem planLeaves_root {pool : Int} (hpos : 0 < pool) (hlt : pool < 2 ^ 63) :
    payoutRoot sampleEngine (planLeaves pool) = some (rootOf sampleEngine (planLeaves pool)) := by
  refine payoutRoot_of_buildable ⟨show 1 ≤ 1024 by norm_num, ?_⟩
  intro w hw
  rw [List.mem_singleton.mp hw]
  exact payable_sampleKey 77 hpos hlt

private theorem planFees {rules : Option FeeRulesText} (h : rules = none ∨ rules = some planRules)
    (pks : List Bytes32) : driverFees (planMarket rules) 1000000 pks = some [] := by
  rcases h with rfl | rfl
  · rfl
  · have hread : planRules.rules = some ⟨1, none, [⟨"provider", 10000, none, none, false⟩]⟩ :=
      rules_eq_some.mpr ⟨by decide, rfl, rfl⟩
    have hvalid : (⟨1, none, [⟨"provider", 10000, none, none, false⟩]⟩ : FeeRules).Valid :=
      (validateFeeRules_eq_some (u := ())).mp (by decide)
    show (planRules.rules.bind fun rules =>
      deriveRoleFeeLeaves rules 1000000 (pks.map List.Vector.toList)) = some []
    rw [hread]
    refine deriveRoleFeeLeaves_eq_some.mpr ⟨hvalid, by norm_num, ?_⟩
    rw [List.mergeSort_singleton]
    rfl

private theorem nobody_left_out :
    (planMembers.filter fun m => hex m.pk.toList ∉
      driverExcludes (planMarket none) (bets (planRows false))) = planMembers := by
  decide +kernel

/-- The plan of the market whose bets are on time. -/
private theorem plan_onTime {rules : Option FeeRulesText}
    (h : rules = none ∨ rules = some planRules) :
    ∃ plan, computeSettlePlan sampleEngine (planMarket rules) (planDriver false) = .ok plan ∧
      plan.payoutRoot = rootOf sampleEngine (planLeaves 1000000) ∧
      plan.committee = (planDrawn.map PoolMember.pk).mergeSort keyLe := by
  have hroot : payoutRoot sampleEngine (planLeaves 1000000) = some _ :=
    planLeaves_root (by norm_num) (by norm_num)
  exact computeSettlePlan_ok rfl rfl (Or.inl rfl) rfl planSeed_eq (drawn_all nobody_left_out)
    planTree_eq (planFees h _) (by decide) hroot

private theorem plan_late :
    ∃ plan, computeSettlePlan sampleEngine (planMarket none) (planDriver true) = .ok plan ∧
      plan.committee = (planDrawnLate.map PoolMember.pk).mergeSort keyLe := by
  have hroot : payoutRoot sampleEngine (planLeaves 2000000) = some _ :=
    planLeaves_root (by norm_num) (by norm_num)
  obtain ⟨plan, hplan, -, hcommittee⟩ := @computeSettlePlan_ok sampleEngine (planMarket none)
    (planDriver true) _ _ _ _ [] _ rfl rfl (Or.inl rfl) rfl planSeed_eq drawn_late planTree_eq rfl
    (by decide) hroot
  exact ⟨plan, hplan, hcommittee⟩

private def planRedeem (commit : Bytes32) : Bytes :=
  List.replicate 518 0 ++ commit.toList ++ List.replicate 150 0

private def planRequest (rules : Option FeeRulesText) (commit root : Bytes32) (spliced : Bytes) :
    SignRequest where
  predicate := .null
  fee_rules := rules.map some
  psRedeem := planRedeem commit
  committee_pk := hex (samplePk 1).toList
  broker_pk := none
  introducer_pk := none
  claimedPayoutRoot := hex root.toList
  txSafeJson := some (sampleClose sampleEngine spliced)
  new_attestedWinner := none
  new_betsRoot := ""
  new_refundRoot := ""
  new_attestedAtMs := none

private theorem onChainCommit_plan (late : Bool) (commit : Bytes32) :
    onChainCommit (planCtx late) (planRedeem commit) = hex commit.toList := by
  have hlen : (List.replicate 518 (0 : UInt8)).length = 518 := List.length_replicate
  have hoff : commitOffset (planCtx late) = 518 := rfl
  rw [onChainCommit, hoff, planRedeem, bufSlice, slice, List.append_assoc,
    List.drop_left' hlen, List.take_left' (List.Vector.toList_length commit)]

/-- The redeem script commits to the rules, or to the metadata. -/
private theorem commit_plan {rules : Option FeeRulesText}
    (h : rules = none ∨ rules = some planRules) (late : Bool) :
    ∃ commit, ∀ root spliced, expectedCommit sampleEngine (planCtx late)
      (planRequest rules commit root spliced) = .ok (hex commit.toList) := by
  have hne : hex (sampleKey 0) ≠ "" := hex_ne_empty (List.cons_ne_nil _ _)
  rcases h with rfl | rfl
  · refine ⟨⟨sampleKey 0, List.length_replicate⟩, ?_⟩
    intro root spliced
    show (do
      check (hex (sampleKey 0) ≠ "") .metadataHash
      .ok (hex (sampleKey 0)).toLower) = Except.ok (hex (sampleKey 0))
    rw [toLower_hex, check, if_pos hne]
    rfl
  · have hread : planRules.rules = some ⟨1, none, [⟨"provider", 10000, none, none, false⟩]⟩ :=
      rules_eq_some.mpr ⟨by decide, rfl, rfl⟩
    have hvalid : validateFeeRules ⟨1, none, [⟨"provider", 10000, none, none, false⟩]⟩ =
        some () := by decide
    obtain ⟨s, hs⟩ : ∃ s, canonicalizeFeeRules planRules = some s := by
      unfold canonicalizeFeeRules
      rw [hread]
      simp only [Option.bind_eq_bind, Option.bind_some, hvalid]
      exact ⟨_, rfl⟩
    have hcommit : computeMarketCommitV2 sampleEngine planRules .null
        (some (hex (sampleKey 0))) = some (hex32 sampleEngine (canonicalPredicate
          (rulesObj (hex32 sampleEngine s) .null (hex (sampleKey 0))))) := by
      simp only [computeMarketCommitV2, computeFeeRulesCommit, hs, Option.map_some,
        Option.getD_some, require]
      rfl
    refine ⟨sampleEngine.blake2b (utf8 (canonicalPredicate
      (rulesObj (hex32 sampleEngine s) .null (hex (sampleKey 0))))), ?_⟩
    intro root spliced
    show (do
      check (isNull .null = true → hex (sampleKey 0) ≠ "") .metadataHash
      let commit ← orRefuse (computeMarketCommitV2 sampleEngine planRules .null
        (some (hex (sampleKey 0)))) .feeRules
      check (pkHint none = rulesAddress planRules "broker") .hintBroker
      check (pkHint none = rulesAddress planRules "introducer") .hintIntroducer
      .ok commit) = Except.ok _
    rw [hcommit, check, if_pos fun _ => hne]
    rfl

private theorem plan_honest {rules : Option FeeRulesText}
    (h : rules = none ∨ rules = some planRules) (late : Bool) (root : Bytes32) :
    ∃ commit spliced, HonestMember sampleEngine (planMarket rules) (planDriver late)
        (planCtx late) (planCommitteeCtx late) (planRequest rules commit root spliced) ∧
      ∃ b, verifyClosePayoutRootBinding sampleEngine (some (sampleClose sampleEngine spliced))
        (planRedeem commit) root.toList = .ok b := by
  obtain ⟨commit, hcommit⟩ := commit_plan h late
  have hlen : 52 ≤ (planRedeem commit).length := by
    rw [planRedeem, List.length_append, List.length_replicate]
    omega
  obtain ⟨spliced, hsplice⟩ : ∃ spliced,
      splicePayoutCloseRedeem (planRedeem commit) root.toList = some spliced :=
    ⟨_, splicePayoutCloseRedeem_eq_some.mpr ⟨List.Vector.toList_length _, hlen, rfl⟩⟩
  refine ⟨commit, spliced, ?_, ⟨p2shSpkHex sampleEngine spliced, 1⟩, ?_⟩
  · refine ⟨rfl, rfl, rfl, rfl, rfl, ?_, ⟨planTree, planTree_eq, rfl⟩, rfl, rfl, ?_, rfl, rfl,
      .refl _, List.cons_ne_nil _ _, rfl, ?_, rfl, ?_⟩
    · intro dbRoot hdb
      exact absurd hdb (Option.not_mem_none dbRoot)
    · show (0 : Int) < 4
      norm_num
    · rw [hcommit]
      exact congrArg Except.ok (onChainCommit_plan late commit).symm
    · exact List.mem_singleton.mpr rfl
  · rw [verifyClosePayoutRootBinding, hsplice]
    exact checkBinding_sampleClose sampleEngine spliced

private theorem plan_request {rules : Option FeeRulesText} {plan : DriverPlan} {commit : Bytes32}
    {spliced : Bytes} {sel : List PoolMember}
    (hcommittee : plan.committee = (sel.map PoolMember.pk).mergeSort keyLe)
    (hsel : samplePk 1 ∈ sel.map PoolMember.pk)
    (hpays : ∃ b, verifyClosePayoutRootBinding sampleEngine
      (some (sampleClose sampleEngine spliced)) (planRedeem commit) plan.payoutRoot.toList =
        .ok b) :
    HonestRequest sampleEngine (planMarket rules) plan
      (planRequest rules commit plan.payoutRoot spliced) := by
  refine ⟨rfl, rfl, rfl, rfl, hpays, ?_⟩
  show (hex (samplePk 1).toList).toLower ∈ _
  rw [toLower_hex, hcommittee]
  exact List.mem_map_of_mem ((List.mergeSort_perm _ _).mem_iff.mpr hsel)

private theorem plan_time {rules : Option FeeRulesText} :
    OnTime (planMarket rules) (planRows false) := by
  intro b hb
  rw [List.mem_singleton.mp hb]
  exact ⟨3, rfl, by show (3 : Int) ≤ 4; norm_num⟩

/-- The close of the market with rules is signed. -/
theorem plan_signed_planRules : ∃ plan r,
    computeSettlePlan sampleEngine (planMarket (some planRules)) (planDriver false) = .ok plan ∧
      enforceCloseAttest sampleEngine (planCtx false) r = .ok plan.winDir := by
  obtain ⟨plan, hplan, -, hcommittee⟩ := plan_onTime (Or.inr rfl)
  obtain ⟨commit, spliced, hm, hpays⟩ := plan_honest (Or.inr rfl) false plan.payoutRoot
  exact ⟨plan, _, hplan, (plan_signed hplan hm
    (plan_request hcommittee (by decide) hpays) (Option.some_ne_none _) plan_time
    fun _ _ => sharesAlike_iff.mpr rfl).2⟩

private theorem reDerive_plan (late : Bool) (psRedeem : Bytes)
    (h : (planMembers.filter fun m => hex m.pk.toList ∉
      excludeOf (planCommitteeCtx late).loadPoolSnapshot (planRows late) 4) = planMembers) :
    reDeriveCommittee sampleEngine "m1" (planCommitteeCtx late) psRedeem =
      some (planDrawn.map PoolMember.pk) := by
  have hanchored : ∀ b ∈ planRows late, b.side_lock_daa ≠ none := by
    cases late with
    | false => decide
    | true => decide
  unfold reDeriveCommittee
  simp only [Option.bind_eq_bind, Option.bind_eq_some_iff, require_eq_some, exists_const,
    Option.some.injEq]
  exact ⟨List.cons_ne_nil _ _, planPool, rfl, fun _ hdb => absurd hdb (Option.not_mem_none _),
    planTree, planTree_eq, rfl, 4, rfl, sampleKey 7, rfl, planSeed, planSeed_eq, by decide,
    hanchored, planDrawn, drawn_all h, rfl⟩

/-- What a member pays of the market without rules. -/
private def legacyLeaves : List Leaf :=
  [⟨sampleKey 77, 988000⟩, ⟨(samplePk 0).toList, 2400⟩, ⟨(samplePk 1).toList, 2400⟩,
    ⟨(samplePk 2).toList, 2400⟩, ⟨(samplePk 3).toList, 2400⟩, ⟨(samplePk 5).toList, 2400⟩]

private theorem legacy_fees : feeLeavesV1 none none none 1000000
    ((planDrawn.map PoolMember.pk).map List.Vector.toList) = some
      [⟨⟨(samplePk 0).toList, 2400⟩, "committee"⟩, ⟨⟨(samplePk 1).toList, 2400⟩, "committee"⟩,
        ⟨⟨(samplePk 2).toList, 2400⟩, "committee"⟩, ⟨⟨(samplePk 3).toList, 2400⟩, "committee"⟩,
        ⟨⟨(samplePk 5).toList, 2400⟩, "committee"⟩] := by
  have hsorted : ((planDrawn.map PoolMember.pk).map List.Vector.toList).mergeSort pkLe =
      [(samplePk 0).toList, (samplePk 1).toList, (samplePk 2).toList, (samplePk 3).toList,
        (samplePk 5).toList] := by
    rw [← @List.mergeSort_of_pairwise _ pkLe [(samplePk 0).toList, (samplePk 1).toList,
      (samplePk 2).toList, (samplePk 3).toList, (samplePk 5).toList] (by decide)]
    exact mergeSort_pkLe_perm (by decide)
  show some (committeeLeaves 12000 _) = _
  rw [committeeLeaves, hsorted]
  rfl

/-- **Two markets that are not closed**: a member refuses the one without fee rules, because of its
root; of the one with a late bet it draws another committee. -/
theorem plan_refused :
    (∃ plan r, computeSettlePlan sampleEngine (planMarket none) (planDriver false) = .ok plan ∧
      HonestMember sampleEngine (planMarket none) (planDriver false) (planCtx false)
        (planCommitteeCtx false) r ∧
      HonestRequest sampleEngine (planMarket none) plan r ∧
      OnTime (planMarket none) (planRows false) ∧
      ∀ w, enforceCloseAttest sampleEngine (planCtx false) r ≠ .ok w) ∧
    ∃ plan r, computeSettlePlan sampleEngine (planMarket none) (planDriver true) = .ok plan ∧
      HonestMember sampleEngine (planMarket none) (planDriver true) (planCtx true)
        (planCommitteeCtx true) r ∧
      HonestRequest sampleEngine (planMarket none) plan r ∧
      ∃ committee, reDeriveCommittee sampleEngine "m1" (planCommitteeCtx true) r.psRedeem =
        some committee ∧ committee.mergeSort keyLe ≠ plan.committee := by
  refine ⟨?_, ?_⟩
  · obtain ⟨plan, hplan, hroot, hcommittee⟩ := plan_onTime (Or.inl rfl)
    obtain ⟨commit, spliced, hm, hpays⟩ := plan_honest (Or.inl rfl) false plan.payoutRoot
    have hr := @plan_request none plan commit spliced _ hcommittee (by decide) hpays
    refine ⟨plan, _, hplan, hm, hr, plan_time, ?_⟩
    intro w hw
    obtain ⟨core, fl, root, hs, -⟩ := enforceCloseAttest_eq_ok.mp hw
    have hsame : root = plan.payoutRoot :=
      hex_toList_inj.mp (hs.claimed.symm.trans hr.claimed)
    obtain ⟨side, committee, rows, pool, rules⟩ := core
    have hside : side = 0 := (Except.ok.inj hs.checks.side).symm
    have hrows : rows = planRows false := hs.checks.bettors
    have hrules : rules = none := hs.checks.rules
    have hdrawn : committee = (planDrawn.map PoolMember.pk).map List.Vector.toList := by
      have hsome : (reDeriveCommittee sampleEngine "m1" (planCommitteeCtx false) _).map _ =
        some committee := hs.checks.committee
      rw [reDerive_plan false _ (by decide)] at hsome
      exact (Option.some.inj hsome).symm
    subst hside hrows hrules hdrawn
    obtain rfl := Option.some.inj (legacy_fees.symm.trans hs.fees)
    have htree : payoutRoot sampleEngine legacyLeaves = some root := hs.tree
    have heq := (payoutRoot_eq_some.mp htree).2.trans (hsame.trans hroot)
    exact absurd heq (by decide +kernel)
  · obtain ⟨plan, hplan, hcommittee⟩ := plan_late
    obtain ⟨commit, spliced, hm, hpays⟩ := plan_honest (Or.inl rfl) true plan.payoutRoot
    refine ⟨plan, _, hplan, hm, plan_request hcommittee (by decide) hpays, _,
      reDerive_plan true _ (by decide), ?_⟩
    intro hsame
    rw [hcommittee] at hsame
    have hmem : samplePk 0 ∈ (planDrawn.map PoolMember.pk).mergeSort keyLe :=
      (List.mergeSort_perm _ _).mem_iff.mpr (by decide)
    rw [hsame, (List.mergeSort_perm _ _).mem_iff] at hmem
    exact absurd hmem (by decide)

end Sample

end KANet.Settle
