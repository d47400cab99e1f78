import KANet.Lib.Refuse
import KANet.Payout.FeeSplit
import KANet.Settle.CloseBinding
import KANet.Settle.MarketCommit

/-!
# What a member of the committee checks before signing

`enforceCloseAttest` and `enforceCloseAttestV2`: a request to close a market is checked against
the chain and what the member knows of the market, the payout root is worked out again, and the
transaction is signed if it pays that root.

* `CoreOk`, `core_eq_ok` — what both versions check first.
* `SignsV1`, `enforceCloseAttest_eq_ok` — what the first version signs.
* `SignsV2`, `enforceCloseAttestV2_eq_ok` — what the second version signs.
-/

namespace KANet.Settle

open KANet.Lib KANet.Script KANet.Payout

/-! ### Checks -/

inductive Refusal
  | skip
  | feeRules
  | metadataHash
  | hintBroker
  | hintIntroducer
  | hashBind
  | undecided
  | committee
  | notMember
  | noBettors
  | lateBet
  | incomplete
  | noPool
  | degenerate
  | attestedWinner
  | attestedAtMs
  | clock
  | betOrder
  | betsRoot
  | refundRoot
  | binding (why : BindingError)
  | claimedRoot
  | thrown

def orBinding (x : Except BindingError Bound) : Except Refusal Bound :=
  match x with
  | .ok b => .ok b
  | .error why => .error (.binding why)

@[simp] theorem orBinding_eq_ok {x : Except BindingError Bound} {b : Bound} :
    orBinding x = .ok b ↔ x = .ok b := by
  cases x with
  | error why => simp [orBinding]
  | ok b => simp [orBinding]

/-! ### Requests and what the member knows -/

/-- A request to sign a close.  Fee rules that are no rules at all are `some none`. -/
structure SignRequest where
  predicate : Json
  fee_rules : Option (Option FeeRulesText)
  psRedeem : Bytes
  committee_pk : String
  broker_pk : Option String
  introducer_pk : Option String
  claimedPayoutRoot : String
  txSafeJson : Option SafeTx
  new_attestedWinner : Option Int
  new_betsRoot : String
  new_refundRoot : String
  new_attestedAtMs : Option Int

/-- How a market is resolved: by the last byte of a block, once the chain has got there, or by
evidence, of which the member has fetched its own. -/
inductive Resolution
  | blockhash_parity (target_daa : Option Int) (chainReader : Option (Int × Option Nat))
  | evidence (ownFetch : Option StructuredEvidence)

/-- What a member knows without the settler: its keys, its row of the market, and the chain. -/
structure EnforceCtx where
  myOracleKeys : List String
  zk_native : Bool
  marketMetadataHash : Option String
  marketBrokerFeePct : Option Int
  resolution : Resolution
  reDeriveCommittee : Bytes → Option (List Bytes)
  loadBettors : List Row
  deadlineDaa : Option Int
  verifyBettorsCompleteFromChain : List Row → Option Int → Bool
  psConsolidatedPool : Option Int
  nowMs : Int
  coll : Collation

/-! ### The commitment -/

def PREDICATE_COMMIT_REDEEM_OFFSET : Nat := 518
def PREDICATE_COMMIT_REDEEM_OFFSET_V2 : Nat := 642

def commitOffset (ctx : EnforceCtx) : Nat :=
  if ctx.zk_native then PREDICATE_COMMIT_REDEEM_OFFSET_V2 else PREDICATE_COMMIT_REDEEM_OFFSET

/-- The commitment in the redeem script. -/
def onChainCommit (ctx : EnforceCtx) (psRedeem : Bytes) : String :=
  hex (bufSlice psRedeem (commitOffset ctx) (commitOffset ctx + 32))

/-- `feeRules.roles.find(r => r.name === name)?.address` -/
def rulesAddress (feeRules : FeeRulesText) (name : String) : Option String :=
  (feeRules.roles.find? fun r => r.name = name).bind RoleText.address

def expectedCommit (e : Engine) (ctx : EnforceCtx) (r : SignRequest) : Except Refusal String :=
  match r.fee_rules with
  | some none => .error .feeRules
  | some (some feeRules) => do
    check (isNull r.predicate = true → ctx.marketMetadataHash.getD "" ≠ "") .metadataHash
    let commit ← orRefuse
      (computeMarketCommitV2 e feeRules r.predicate ctx.marketMetadataHash) .feeRules
    check (pkHint r.broker_pk = rulesAddress feeRules "broker") .hintBroker
    check (pkHint r.introducer_pk = rulesAddress feeRules "introducer") .hintIntroducer
    .ok commit
  | none =>
    if isNull r.predicate then do
      check (ctx.marketMetadataHash.getD "" ≠ "") .metadataHash
      .ok (ctx.marketMetadataHash.getD "").toLower
    else if pkHint r.broker_pk = none then .ok (computePredicateCommit e r.predicate)
    else .ok (computeMarketCommit e r.predicate r.broker_pk r.introducer_pk)

/-! ### The checks of both versions -/

def winningSide (resolution : Resolution) (predicate : Json) : Except Refusal Int :=
  match resolution with
  | .blockhash_parity target_daa chainReader => do
    let target ← orRefuse target_daa .undecided
    check (0 < target) .undecided
    let (curDaa, lastByte) ← orRefuse chainReader .undecided
    check (target ≤ curDaa) .undecided
    let byte ← orRefuse lastByte .undecided
    .ok (if byte % 2 = 0 then 0 else 1)
  | .evidence ownFetch => do
    let fields ← orRefuse ownFetch .undecided
    match judgeLine predicate (some fields) with
    | .YES => .ok 0
    | .NO => .ok 1
    | .ABSTAIN => .error .undecided

def readPsConsolidatedPool (psRedeem : Bytes) : Option Int :=
  readBigInt64LE psRedeem (PS_STATE_START + 1)

/-- The pool that the member goes by. -/
def poolOf (ctx : EnforceCtx) (psRedeem : Bytes) : Option Int :=
  ctx.psConsolidatedPool.orElse fun _ => readPsConsolidatedPool psRedeem

structure Core where
  winningDirection : Int
  committee : List Bytes
  bettors : List Row
  psConsolidatedPool : Option Int
  feeRules : Option FeeRulesText

def enforceCloseAttestCore (e : Engine) (ctx : EnforceCtx) (r : SignRequest) :
    Except Refusal Core := do
  let myPk := r.committee_pk.toLower
  check (myPk ∈ ctx.myOracleKeys.map String.toLower) .skip
  let commit ← expectedCommit e ctx r
  check (commit = onChainCommit ctx r.psRedeem) .hashBind
  let winningDirection ← winningSide ctx.resolution r.predicate
  let committee ← orRefuse (ctx.reDeriveCommittee r.psRedeem) .committee
  check (myPk ∈ committee.map hex) .notMember
  let bettors := ctx.loadBettors
  check (bettors ≠ []) .noBettors
  check (∀ b ∈ bettors, ∃ daa ∈ b.side_lock_daa, ∀ deadline ∈ ctx.deadlineDaa, daa ≤ deadline)
    .lateBet
  let psConsolidatedPool := poolOf ctx r.psRedeem
  check (ctx.verifyBettorsCompleteFromChain bettors psConsolidatedPool = true) .incomplete
  .ok { winningDirection, committee, bettors, psConsolidatedPool, feeRules := r.fee_rules.join }

/-- The checks of both versions, and what they leave. -/
structure CoreOk (e : Engine) (ctx : EnforceCtx) (r : SignRequest) (core : Core) : Prop where
  mine : r.committee_pk.toLower ∈ ctx.myOracleKeys.map String.toLower
  commit : expectedCommit e ctx r = .ok (onChainCommit ctx r.psRedeem)
  side : winningSide ctx.resolution r.predicate = .ok core.winningDirection
  committee : ctx.reDeriveCommittee r.psRedeem = some core.committee
  member : r.committee_pk.toLower ∈ core.committee.map hex
  some_bettors : ctx.loadBettors ≠ []
  early : ∀ b ∈ ctx.loadBettors, ∃ daa ∈ b.side_lock_daa, ∀ deadline ∈ ctx.deadlineDaa,
    daa ≤ deadline
  complete : ctx.verifyBettorsCompleteFromChain ctx.loadBettors (poolOf ctx r.psRedeem) = true
  bettors : core.bettors = ctx.loadBettors
  pool : core.psConsolidatedPool = poolOf ctx r.psRedeem
  rules : core.feeRules = r.fee_rules.join

theorem core_eq_ok {e : Engine} {ctx : EnforceCtx} {r : SignRequest} {core : Core} :
    enforceCloseAttestCore e ctx r = .ok core ↔ CoreOk e ctx r core := by
  unfold enforceCloseAttestCore
  simp only [bind_eq_ok, check_eq_ok, orRefuse_eq_ok, exists_const, Except.ok.injEq]
  constructor
  · intro h
    obtain ⟨hmine, commit, hcommit, heq, side, hside, committee, hcommittee, hmember, hsome,
      hearly, hcomplete, rfl⟩ := h
    rw [heq] at hcommit
    exact ⟨hmine, hcommit, hside, hcommittee, hmember, hsome, hearly, hcomplete, rfl, rfl, rfl⟩
  · intro h
    refine ⟨h.mine, _, h.commit, rfl, _, h.side, _, h.committee, h.member, h.some_bettors, h.early,
      h.complete, ?_⟩
    obtain ⟨side, committee, bettors, pool, rules⟩ := core
    rw [Core.mk.injEq]
    exact ⟨rfl, rfl, h.bettors.symm, h.pool.symm, h.rules.symm⟩

/-- A side wins. -/
theorem winningSide_eq_ok {resolution : Resolution} {predicate : Json} {w : Int}
    (h : winningSide resolution predicate = .ok w) : w = 0 ∨ w = 1 := by
  cases resolution with
  | blockhash_parity target_daa chainReader =>
    unfold winningSide at h
    simp only [bind_eq_ok, check_eq_ok, orRefuse_eq_ok, exists_const, Except.ok.injEq] at h
    obtain ⟨_, -, -, ⟨curDaa, lastByte⟩, -, -, byte, -, rfl⟩ := h
    by_cases hbyte : byte % 2 = 0
    · exact Or.inl (if_pos hbyte)
    · exact Or.inr (if_neg hbyte)
  | evidence ownFetch =>
    unfold winningSide at h
    simp only [bind_eq_ok, orRefuse_eq_ok] at h
    obtain ⟨fields, -, h⟩ := h
    cases hj : judgeLine predicate (some fields) with
    | YES =>
      rw [hj] at h
      exact Or.inl (Except.ok.inj h).symm
    | NO =>
      rw [hj] at h
      exact Or.inr (Except.ok.inj h).symm
    | ABSTAIN =>
      rw [hj] at h
      cases h

/-! ### The first version -/

/-- `Buffer.from(s, 'hex')`: the bytes up to the first digit that is none. -/
def bufferFromHex : List Char → Bytes
  | a :: b :: cs =>
    match hexValue a, hexValue b with
    | some hi, some lo => UInt8.ofNat (16 * hi + lo) :: bufferFromHex cs
    | _, _ => []
  | _ => []

/-- Digits that can be read in pairs are read so. -/
theorem bufferFromHex_of_fromHex {cs : List Char} {bs : Bytes} (h : fromHex cs = some bs) :
    bufferFromHex cs = bs := by
  induction cs using fromHex.induct generalizing bs with
  | case1 a b cs ih =>
    simp only [fromHex, Option.bind_eq_bind, Option.bind_eq_some_iff, Option.map_eq_some_iff] at h
    obtain ⟨hi, ha, lo, hb, bs, hbs, rfl⟩ := h
    rw [bufferFromHex, ha, hb, ih hbs]
  | case2 => exact Option.some.inj h
  | case3 a => cases h

/-- The key that a hint names. -/
def hintKey (pk : Option String) : Option Bytes := (pkHint pk).map fun s => bufferFromHex s.toList

def bets (bettors : List Row) : List Bet := bettors.map Row.toBet

/-- The fees of the first version: those of the rules, or those of the protocol to the recipients
that the request names. -/
def feeLeavesV1 (feeRules : Option FeeRulesText) (brokerPk introducerPk : Option String)
    (poolSompi : Int) (committee : List Bytes) : Option (List FeeLeaf) :=
  match feeRules with
  | some feeRules => feeRules.rules.bind fun rules =>
    deriveRoleFeeLeaves rules poolSompi committee
  | none => some (deriveFeeLeaves poolSompi FEE_CONFIG (hintKey brokerPk) (hintKey introducerPk)
      committee)

/-- The root of what a payout pays. -/
def settlePayoutRoot (e : Engine) (pm : PariMutuel) : Option Bytes32 :=
  payoutRoot e (if pm.payoutLeaves = [] then pm.winners else pm.payoutLeaves)

/-- **What a payout is settled with**: the root of the winners' leaves and the fees. -/
theorem settle_eq_some {e : Engine} {bs : List Bet} {w : Int} {pool : Option Int}
    {fl : List FeeLeaf} {root : Bytes32} (hdir : w = 0 ∨ w = 1) :
    (∃ pm, computePariMutuelPayout bs w pool 0 fl = some pm ∧ pm.degenerate = false ∧
      settlePayoutRoot e pm = some root) ↔
      ¬ NobodyWins bs w ∧ payoutRoot e (payoutLeavesOf bs w
        (distributableOf (pool.getD (sumStakes bs)) 0 fl) fl) = some root := by
  obtain ⟨pm, hpm, hdeg, hleaves⟩ := @computePariMutuelPayout_leaves bs w pool 0 fl hdir
  have hfalse : pm.degenerate = false ↔ ¬ NobodyWins bs w := by
    rw [← hdeg, Bool.not_eq_true]
  have hroot : ¬ NobodyWins bs w → settlePayoutRoot e pm = payoutRoot e (payoutLeavesOf bs w
      (distributableOf (pool.getD (sumStakes bs)) 0 fl) fl) := by
    intro hn
    have hne : payoutLeavesOf bs w (distributableOf (pool.getD (sumStakes bs)) 0 fl) fl ≠ [] := by
      intro hnil
      have hlen := congrArg List.length (List.append_eq_nil_iff.mp hnil).1
      rw [dustTo_length, winnerShares, shares, List.length_map] at hlen
      exact hn (Or.inl (List.length_eq_zero_iff.mp hlen))
    rw [settlePayoutRoot, hleaves hn, if_neg hne]
  constructor
  · intro h
    obtain ⟨pm', hpm', hd, hr⟩ := h
    obtain rfl := Option.some.inj (hpm.symm.trans hpm')
    have hn := hfalse.mp hd
    exact ⟨hn, (hroot hn).symm.trans hr⟩
  · intro h
    exact ⟨pm, hpm, hfalse.mpr h.1, (hroot h.1).trans h.2⟩

def enforceCloseAttest (e : Engine) (ctx : EnforceCtx) (r : SignRequest) : Except Refusal Int := do
  let core ← enforceCloseAttestCore e ctx r
  let feeLeaves ← orRefuse (feeLeavesV1 core.feeRules r.broker_pk r.introducer_pk
    (sumStakes (bets core.bettors)) core.committee) .thrown
  let pm ← orRefuse (computePariMutuelPayout (bets core.bettors) core.winningDirection none 0
    feeLeaves) .thrown
  check (pm.degenerate = false) .degenerate
  let reDerivedRoot ← orRefuse (settlePayoutRoot e pm) .thrown
  let _ ← orBinding (verifyClosePayoutRootBinding e r.txSafeJson r.psRedeem reDerivedRoot.toList)
  check (r.claimedPayoutRoot = hex reDerivedRoot.toList) .claimedRoot
  .ok core.winningDirection

/-- What the first version signs: the leaves of the fees are `fl`, and the root is `root`. -/
structure SignsV1 (e : Engine) (ctx : EnforceCtx) (r : SignRequest) (core : Core)
    (fl : List FeeLeaf) (root : Bytes32) : Prop where
  checks : CoreOk e ctx r core
  fees : feeLeavesV1 core.feeRules r.broker_pk r.introducer_pk (sumStakes (bets core.bettors))
    core.committee = some fl
  pays : ¬ NobodyWins (bets core.bettors) core.winningDirection
  tree : payoutRoot e (payoutLeavesOf (bets core.bettors) core.winningDirection
    (distributableOf (sumStakes (bets core.bettors)) 0 fl) fl) = some root
  binding : ∃ b, verifyClosePayoutRootBinding e r.txSafeJson r.psRedeem root.toList = .ok b
  claimed : r.claimedPayoutRoot = hex root.toList

theorem enforceCloseAttest_eq_ok {e : Engine} {ctx : EnforceCtx} {r : SignRequest} {w : Int} :
    enforceCloseAttest e ctx r = .ok w ↔
      ∃ core fl root, SignsV1 e ctx r core fl root ∧ core.winningDirection = w := by
  unfold enforceCloseAttest
  simp only [bind_eq_ok, check_eq_ok, orRefuse_eq_ok, orBinding_eq_ok, exists_const, core_eq_ok,
    Except.ok.injEq]
  constructor
  · intro h
    obtain ⟨core, hcore, fl, hfl, pm, hpm, hdeg, root, hroot, bound, hbind, hclaim,
      hw⟩ := h
    obtain ⟨hn, hr⟩ := (settle_eq_some (winningSide_eq_ok hcore.side)).mp ⟨pm, hpm, hdeg, hroot⟩
    exact ⟨core, fl, root, ⟨hcore, hfl, hn, hr, ⟨bound, hbind⟩, hclaim⟩, hw⟩
  · intro h
    obtain ⟨core, fl, root, hs, hw⟩ := h
    have hsettle := @settle_eq_some e (bets core.bettors) core.winningDirection none fl root
      (winningSide_eq_ok hs.checks.side)
    obtain ⟨pm, hpm, hdeg, hroot⟩ := hsettle.mpr ⟨hs.pays, hs.tree⟩
    obtain ⟨bound, hbind⟩ := hs.binding
    exact ⟨core, hs.checks, fl, hs.fees, pm, hpm, hdeg, root, hroot, bound, hbind, hs.claimed, hw⟩

/-! ### The second version -/

def ATTESTED_AT_MS_CLOCK_TOLERANCE_MS : Int := 10 * 60 * 1000

/-- The fees of the second version: the market's rate, to the broker that the request names. -/
def feeLeavesV2 (ctx : EnforceCtx) (r : SignRequest) (pool : Int) : Option (List FeeLeaf) :=
  match pkHint r.broker_pk with
  | none => deriveSettlementFeeLeaves none ctx.marketBrokerFeePct pool
  | some s =>
    if 0 < ctx.marketBrokerFeePct.getD 0 then do
      let key ← fromHex s.toList
      deriveSettlementFeeLeaves (some key) ctx.marketBrokerFeePct pool
    else deriveSettlementFeeLeaves none ctx.marketBrokerFeePct pool

/-- `s.replace(/^0x/, '').toLowerCase()` -/
def plainHex (s : String) : String :=
  match s.toList with
  | '0' :: 'x' :: cs => (String.ofList cs).toLower
  | cs => (String.ofList cs).toLower

/-- What the second version attests to besides the payout root. -/
structure Pass where
  verdict : Int
  betsRoot : Bytes32
  refundRoot : Bytes32

def enforceCloseAttestV2 (e : Engine) (ctx : EnforceCtx) (r : SignRequest) :
    Except Refusal Pass := do
  let core ← enforceCloseAttestCore e ctx r
  let pool ← orRefuse core.psConsolidatedPool .noPool
  let feeLeaves ← orRefuse (feeLeavesV2 ctx r pool) .thrown
  let pmV2 ← orRefuse (computePariMutuelPayout (bets core.bettors) core.winningDirection
    (some pool) 0 feeLeaves) .thrown
  check (pmV2.degenerate = false) .degenerate
  let reDerivedRoot ← orRefuse (settlePayoutRoot e pmV2) .thrown
  let attestedWinner ← orRefuse r.new_attestedWinner .attestedWinner
  check (attestedWinner = core.winningDirection) .attestedWinner
  let attestedAtMs ← orRefuse r.new_attestedAtMs .attestedAtMs
  check (ATTESTED_AT_MS_MIN ≤ attestedAtMs ∧ attestedAtMs < ATTESTED_AT_MS_MAX) .attestedAtMs
  check (|attestedAtMs - ctx.nowMs| ≤ ATTESTED_AT_MS_CLOCK_TOLERANCE_MS) .clock
  let ordered ← orRefuse (canonicalBetOrder ctx.coll core.bettors) .betOrder
  let betsRoot ← orRefuse (computeBetsRoot e (bets ordered)) .betsRoot
  check (hex betsRoot.toList = plainHex r.new_betsRoot) .betsRoot
  let refundRoot ← orRefuse (payoutRoot e (ordered.map fun b => ⟨b.pk, b.stake⟩)) .refundRoot
  check (hex refundRoot.toList = plainHex r.new_refundRoot) .refundRoot
  let _ ← orBinding (verifyClosePayoutV2Binding e r.txSafeJson r.psRedeem
    ⟨reDerivedRoot.toList, attestedWinner, betsRoot.toList, refundRoot.toList, attestedAtMs⟩)
  check (r.claimedPayoutRoot = hex reDerivedRoot.toList) .claimedRoot
  .ok { verdict := core.winningDirection, betsRoot, refundRoot }

/-- What the second version signs: the pool is `pool`, the leaves of the fees are `fl`, and the
root is `root`. -/
structure SignsV2 (e : Engine) (ctx : EnforceCtx) (r : SignRequest) (core : Core) (pool : Int)
    (fl : List FeeLeaf) (root : Bytes32) (p : Pass) : Prop where
  checks : CoreOk e ctx r core
  read : core.psConsolidatedPool = some pool
  fees : feeLeavesV2 ctx r pool = some fl
  pays : ¬ NobodyWins (bets core.bettors) core.winningDirection
  tree : payoutRoot e (payoutLeavesOf (bets core.bettors) core.winningDirection
    (distributableOf pool 0 fl) fl) = some root
  verdict : p.verdict = core.winningDirection
  winner : r.new_attestedWinner = some core.winningDirection
  order : ∃ ordered, canonicalBetOrder ctx.coll core.bettors = some ordered ∧
    computeBetsRoot e (bets ordered) = some p.betsRoot ∧
    payoutRoot e (ordered.map fun b => ⟨b.pk, b.stake⟩) = some p.refundRoot
  betsRoot : hex p.betsRoot.toList = plainHex r.new_betsRoot
  refundRoot : hex p.refundRoot.toList = plainHex r.new_refundRoot
  binding : ∃ atMs, r.new_attestedAtMs = some atMs ∧
    (ATTESTED_AT_MS_MIN ≤ atMs ∧ atMs < ATTESTED_AT_MS_MAX) ∧
    |atMs - ctx.nowMs| ≤ ATTESTED_AT_MS_CLOCK_TOLERANCE_MS ∧
    ∃ b, verifyClosePayoutV2Binding e r.txSafeJson r.psRedeem ⟨root.toList, core.winningDirection,
      p.betsRoot.toList, p.refundRoot.toList, atMs⟩ = .ok b
  claimed : r.claimedPayoutRoot = hex root.toList

theorem enforceCloseAttestV2_eq_ok {e : Engine} {ctx : EnforceCtx} {r : SignRequest} {p : Pass} :
    enforceCloseAttestV2 e ctx r = .ok p ↔
      ∃ core pool fl root, SignsV2 e ctx r core pool fl root p := by
  unfold enforceCloseAttestV2
  simp only [bind_eq_ok, check_eq_ok, orRefuse_eq_ok, orBinding_eq_ok, exists_const, core_eq_ok,
    Except.ok.injEq]
  constructor
  · intro h
    obtain ⟨core, hcore, pool, hpool, fl, hfl, pm, hpm, hdeg, root, hroot, winner, hwinner, hw,
      atMs, hatMs, hrange, hclock, ordered, hordered, bets, hbets, hbetsHex, refund, hrefund,
      hrefundHex, bound, hbind, hclaim, rfl⟩ := h
    obtain ⟨hn, hr⟩ := (settle_eq_some (winningSide_eq_ok hcore.side)).mp ⟨pm, hpm, hdeg, hroot⟩
    subst hw
    exact ⟨core, pool, fl, root, hcore, hpool, hfl, hn, hr, rfl, hwinner,
      ⟨ordered, hordered, hbets, hrefund⟩, hbetsHex, hrefundHex,
      ⟨atMs, hatMs, hrange, hclock, bound, hbind⟩, hclaim⟩
  · intro h
    obtain ⟨core, pool, fl, root, hs⟩ := h
    have hsettle := @settle_eq_some e (bets core.bettors) core.winningDirection (some pool) fl root
      (winningSide_eq_ok hs.checks.side)
    obtain ⟨pm, hpm, hdeg, hroot⟩ := hsettle.mpr ⟨hs.pays, hs.tree⟩
    obtain ⟨ordered, hordered, hbets, hrefund⟩ := hs.order
    obtain ⟨atMs, hatMs, hrange, hclock, bound, hbind⟩ := hs.binding
    refine ⟨core, hs.checks, pool, hs.read, fl, hs.fees, pm, hpm, hdeg, root, hroot, _, hs.winner,
      rfl, atMs, hatMs, hrange, hclock, ordered, hordered, _, hbets, hs.betsRoot, _, hrefund,
      hs.refundRoot, bound, hbind, hs.claimed, ?_⟩
    rw [← hs.verdict]

end KANet.Settle
