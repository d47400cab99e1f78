import KANet.Lib.Refuse
import KANet.Settle.Consolidate
import KANet.Settle.MarketCommit

/-!
# `verifyBettorsCompleteFromChain`

Before a member of the committee signs the close of a market it asks whether the bets it has
loaded are all the bets that were registered on the chain.  The shards of the market are listed,
by the request or by the database, and the states of their leaves are looked up on the chain; what
was loaded must agree with the sum of the states, in number and in the stakes on each side.  Then
every row that is listed under a shard must have its ticket on the chain.

The rows with a ticket are not the bets that were loaded, and two rows may show one ticket.

* `verify_eq_ok` — what is checked.
* `complete_iff` — when the bets that were loaded are the tickets of the market.
-/

namespace KANet.Settle

open KANet.Lib KANet.Script KANet.Payout KANet.Covenant

/-! ### What the member can look up -/

/-- A row of `pool_bettor_sides`, or of a snapshot. -/
structure SideRow where
  bet : Bet
  side_lock_tx : Option String

/-- A shard, as a snapshot or a row of `market_shards` describes it. -/
structure ListedShard where
  shard_index : Nat
  status : ShardStatus
  shard_pool_id : Option String
  shard_market_id : String
  current_leaf_state : Option ShardLeaf.State
  shard_redeem : Option Bytes
  current_leaf_outpoint : Option String
  bettors : Option (List SideRow)

/-- What the database has on the market. -/
structure MarketDb where
  market_shards : List ListedShard
  payout_shards : Bool
  pool_bettor_sides : String → List SideRow

/-- What the member looks things up with.  Where a ticket's address cannot be derived, there is
none. -/
structure ChainCtx where
  shards : Option (List ListedShard)
  db : Option MarketDb
  p2sh : Option (Bytes → String)
  checkUtxoLanded : Option (String → Option String → Bool)
  readOutpointCreatedAddr : Option (String → Option String)
  deriveTicketAddr : Option (Bet → String → Option String)
  excludeSideLockTx : List String
  psConsolidatedPool : Option Int
  psSeed : Option Int

inductive Incomplete
  | noSource
  | noShards
  | noHooks
  | noLeafState (shard_index : Nat)
  | noOutpoint (shard_index : Nat)
  | notAnchored (shard_index : Nat)
  | noKey
  | direction
  | stake
  | count
  | pool
  | yes
  | no
  | psPool
  | noTicketAddr
  | noTicket (shard_index : Nat)
  | ticketCount
  | thrown

structure Completeness where
  applicable : Bool
  aggregate : Option ShardLeaf.State
  perTicketChecked : Nat
  perTicketVerified : Bool

/-! ### The checks -/

/-- The shards that are looked at. -/
def listedShards (ctx : ChainCtx) : Except Incomplete (List ListedShard) :=
  match ctx.shards, ctx.db with
  | some shards, _ => .ok shards
  | none, some db => .ok (db.market_shards.filter fun s => s.status ≠ .manual_recovery_refunded)
  | none, none => .error .noSource

/-- The redeem script of a leaf, with the state replaced. -/
def spliceLeafState (baseRedeem : Bytes) (st : ShardLeaf.State) : Option Bytes :=
  (serializeState st.fields).map fun state =>
    baseRedeem.take 1 ++ state ++ baseRedeem.drop (1 + state.length)

/-- The outpoint was made for the address of the leaf. -/
def leafAnchored (ctx : ChainCtx) (checkUtxoLanded : String → Option String → Bool)
    (outpoint leafAddr : String) : Bool :=
  match ctx.readOutpointCreatedAddr with
  | some readOutpointCreatedAddr =>
    match readOutpointCreatedAddr outpoint with
    | some createdAddr => createdAddr ≠ "" ∧ createdAddr.toLower = leafAddr.toLower
    | none => false
  | none => checkUtxoLanded leafAddr (outpoint.splitOn ":").head?

/-- The state of a shard's leaf.  The leaf of a shard that is being settled is not looked up. -/
def leafState (ctx : ChainCtx) (p2sh : Bytes → String)
    (checkUtxoLanded : String → Option String → Bool) (sh : ListedShard) :
    Except Incomplete ShardLeaf.State := do
  let st ← orRefuse sh.current_leaf_state (.noLeafState sh.shard_index)
  let redeem ← orRefuse sh.shard_redeem (.noOutpoint sh.shard_index)
  let outpoint ← orRefuse sh.current_leaf_outpoint (.noOutpoint sh.shard_index)
  if sh.status = .settling then .ok st
  else do
    let spliced ← orRefuse (spliceLeafState redeem st) .thrown
    check (leafAnchored ctx checkUtxoLanded outpoint (p2sh spliced) = true)
      (.notAnchored sh.shard_index)
    .ok st

def sumStates (sts : List ShardLeaf.State) : ShardLeaf.State where
  local_yes := (sts.map ShardLeaf.State.local_yes).sum
  local_no := (sts.map ShardLeaf.State.local_no).sum
  count := (sts.map ShardLeaf.State.count).sum
  pool_value := (sts.map ShardLeaf.State.pool_value).sum

def checkBettor (b : Bet) : Except Incomplete Unit := do
  check (b.pk ≠ []) .noKey
  check (b.direction = 0 ∨ b.direction = 1) .direction
  check (0 < b.stake) .stake

def PS_SEED : Int := 20000000

/-- The rows that are listed under a shard. -/
def rowsOf (ctx : ChainCtx) (sh : ListedShard) : List SideRow :=
  (sh.bettors.getD (ctx.db.elim [] fun db => db.pool_bettor_sides sh.shard_market_id)).filter
    fun r => ¬ ∃ tx ∈ r.side_lock_tx, tx ∈ ctx.excludeSideLockTx

def shardPoolId (e : Engine) (logicalMarketId : String) (sh : ListedShard) : String :=
  (sh.shard_pool_id.filter (· ≠ "")).getD
    (hex32 e (logicalMarketId ++ "-shard-" ++ toString sh.shard_index))

/-- A row has a ticket on the chain. -/
def checkTicket (deriveTicketAddr : Bet → String → Option String)
    (checkUtxoLanded : String → Option String → Bool) (poolId : String) (shard_index : Nat)
    (r : SideRow) : Except Incomplete Unit := do
  let addr ← orRefuse (deriveTicketAddr r.bet poolId) .thrown
  check (checkUtxoLanded addr none = true) (.noTicket shard_index)

def verifyBettorsCompleteFromChain (e : Engine) (logicalMarketId : String) (bettors : List Bet)
    (ctx : ChainCtx) : Except Incomplete Completeness := do
  let shards ← listedShards ctx
  if shards.isEmpty then do
    check (ctx.db.elim false MarketDb.payout_shards = false) .noShards
    .ok { applicable := false, aggregate := none, perTicketChecked := 0,
          perTicketVerified := false }
  else do
    let p2sh ← orRefuse ctx.p2sh .noHooks
    let checkUtxoLanded ← orRefuse ctx.checkUtxoLanded .noHooks
    let states ← shards.mapM (leafState ctx p2sh checkUtxoLanded)
    let chain := sumStates states
    forM bettors checkBettor
    check ((bettors.length : Int) = chain.count) .count
    check (sumStakes bettors = chain.pool_value) .pool
    check (sumStakes (bettors.filter fun b => b.direction = 0) = chain.local_yes) .yes
    check (sumStakes (bettors.filter fun b => b.direction ≠ 0) = chain.local_no) .no
    check (∀ psPool ∈ ctx.psConsolidatedPool, psPool = ctx.psSeed.getD PS_SEED + sumStakes bettors)
      .psPool
    let deriveTicketAddr ← orRefuse ctx.deriveTicketAddr .noTicketAddr
    forM shards fun sh => forM (rowsOf ctx sh) (checkTicket deriveTicketAddr checkUtxoLanded
      (shardPoolId e logicalMarketId sh) sh.shard_index)
    let perTicketChecked := (shards.flatMap (rowsOf ctx)).length
    check ((perTicketChecked : Int) = chain.count) .ticketCount
    .ok { applicable := true, aggregate := some chain, perTicketChecked,
          perTicketVerified := true }

/-- What was listed and loaded, when nothing is missing: the bets are as many as the states count,
and every row that is listed has a ticket. -/
structure Checked (e : Engine) (logicalMarketId : String) (bettors : List Bet) (ctx : ChainCtx)
    (shards : List ListedShard) (states : List ShardLeaf.State) : Prop where
  listed : shards.map ListedShard.current_leaf_state = states.map some
  valid : ∀ b ∈ bettors, b.pk ≠ [] ∧ (b.direction = 0 ∨ b.direction = 1) ∧ 0 < b.stake
  count : (bettors.length : Int) = (sumStates states).count
  pool : sumStakes bettors = (sumStates states).pool_value
  yes : sumStakes (bettors.filter fun b => b.direction = 0) = (sumStates states).local_yes
  no : sumStakes (bettors.filter fun b => b.direction ≠ 0) = (sumStates states).local_no
  psPool : ∀ psPool ∈ ctx.psConsolidatedPool,
    psPool = ctx.psSeed.getD PS_SEED + sumStakes bettors
  tickets : ∃ derive landed, ctx.deriveTicketAddr = some derive ∧
    ctx.checkUtxoLanded = some landed ∧ ∀ sh ∈ shards, ∀ r ∈ rowsOf ctx sh, ∃ addr,
      derive r.bet (shardPoolId e logicalMarketId sh) = some addr ∧ landed addr none = true
  ticketCount : ((shards.flatMap (rowsOf ctx)).length : Int) = (sumStates states).count

theorem leafState_eq_ok {ctx : ChainCtx} {p2sh : Bytes → String}
    {landed : String → Option String → Bool} {sh : ListedShard} {st : ShardLeaf.State}
    (h : leafState ctx p2sh landed sh = .ok st) : sh.current_leaf_state = some st := by
  unfold leafState at h
  simp only [bind_eq_ok, orRefuse_eq_ok] at h
  obtain ⟨st', hst, redeem, -, outpoint, -, h⟩ := h
  by_cases hs : sh.status = .settling
  · rw [if_pos hs] at h
    rw [hst, Except.ok.inj h]
  · rw [if_neg hs] at h
    simp only [bind_eq_ok, orRefuse_eq_ok, check_eq_ok, exists_const] at h
    obtain ⟨_, -, -, h⟩ := h
    rw [hst, Except.ok.inj h]

theorem map_leafState {ctx : ChainCtx} {p2sh : Bytes → String}
    {landed : String → Option String → Bool} {shards : List ListedShard}
    {states : List ShardLeaf.State} (h : shards.map (leafState ctx p2sh landed) = states.map .ok) :
    shards.map ListedShard.current_leaf_state = states.map some := by
  induction shards generalizing states with
  | nil => rw [List.map_eq_nil_iff.mp h.symm, List.map_nil, List.map_nil]
  | cons sh shards ih =>
    cases states with
    | nil => cases h
    | cons st states =>
      rw [List.map_cons, List.map_cons, List.cons.injEq] at h
      rw [List.map_cons, List.map_cons, leafState_eq_ok h.1, ih h.2]

/-- **What is checked** of a market with shards. -/
theorem checked_of_ok {e : Engine} {m : String} {bettors : List Bet} {ctx : ChainCtx}
    {res : Completeness} (h : verifyBettorsCompleteFromChain e m bettors ctx = .ok res)
    {shards : List ListedShard} (hs : listedShards ctx = .ok shards) (hne : shards ≠ []) :
    ∃ states, Checked e m bettors ctx shards states := by
  unfold verifyBettorsCompleteFromChain at h
  rw [bind_eq_ok] at h
  obtain ⟨shards', hs', h⟩ := h
  obtain rfl := Except.ok.inj (hs'.symm.trans hs)
  have hnil : ¬ shards'.isEmpty = true := fun he => hne (List.isEmpty_iff.mp he)
  rw [if_neg hnil] at h
  simp only [bind_eq_ok, orRefuse_eq_ok, check_eq_ok, forM_eq_ok, mapM_eq_ok, exists_const,
    Except.ok.injEq] at h
  obtain ⟨p2sh, -, landed, hlanded, states, hstates, hbettors, hcount, hpool, hyes, hno, hps,
    derive, hderive, htickets, htc, -⟩ := h
  refine ⟨states, map_leafState hstates, ?_, hcount, hpool, hyes, hno, hps,
    ⟨derive, landed, hderive, hlanded, ?_⟩, htc⟩
  · intro b hb
    have hok := hbettors b hb
    unfold checkBettor at hok
    simpa only [bind_eq_ok, check_eq_ok, exists_const] using hok
  · intro sh hsh r hr
    have hok := htickets sh hsh r hr
    unfold checkTicket at hok
    simpa only [bind_eq_ok, orRefuse_eq_ok, check_eq_ok] using hok

/-- The check does not look at the order of the bets. -/
theorem complete_perm {e : Engine} {m : String} {bettors bettors' : List Bet} {ctx : ChainCtx}
    {res : Completeness} (hp : bettors.Perm bettors') :
    verifyBettorsCompleteFromChain e m bettors ctx = .ok res ↔
      verifyBettorsCompleteFromChain e m bettors' ctx = .ok res := by
  have hyes := hp.filter fun b => b.direction = 0
  have hno := hp.filter fun b => b.direction ≠ 0
  unfold verifyBettorsCompleteFromChain
  simp only [bind_eq_ok]
  refine exists_congr fun shards => and_congr_right fun _ => ?_
  by_cases hnil : shards.isEmpty = true
  · rw [if_pos hnil, if_pos hnil]
  · rw [if_neg hnil, if_neg hnil]
    simp only [bind_eq_ok, orRefuse_eq_ok, check_eq_ok, forM_eq_ok, mapM_eq_ok, exists_const,
      Except.ok.injEq, hp.mem_iff, hp.length_eq, sumStakes_perm hp, sumStakes_perm hyes,
      sumStakes_perm hno]

/-! ### What is on the chain -/

/-- A ticket on the chain: the bet, and the pool of the shard it was registered on. -/
structure Ticket where
  bet : Bet
  shardPoolId : String
deriving DecidableEq

/-- The tickets of a market with the given pools. -/
def registered (tickets : List Ticket) (pools : List String) : List Bet :=
  (tickets.filter fun t => t.shardPoolId ∈ pools).map Ticket.bet

/-- An address of a ticket on which something landed is that of a ticket on the chain. -/
def TicketsSeen (ctx : ChainCtx) (tickets : List Ticket) : Prop :=
  ∀ derive landed, ctx.deriveTicketAddr = some derive → ctx.checkUtxoLanded = some landed →
    ∀ t : Ticket, ∀ addr, derive t.bet t.shardPoolId = some addr → landed addr none = true →
      t ∈ tickets

/-- A bet that was loaded once, and is a row of some shard of the market. -/
structure Vouched (e : Engine) (logicalMarketId : String) (ctx : ChainCtx)
    (shards : List ListedShard) (pools : List String) (bettors : List Bet) (b : Bet) : Prop where
  once : bettors.count b = 1
  row : ∃ sh ∈ shards, shardPoolId e logicalMarketId sh ∈ pools ∧
    b ∈ (rowsOf ctx sh).map SideRow.bet

/-- The tickets that the listed states count. -/
def countedTickets (shards : List ListedShard) : Int :=
  (sumStates (shards.filterMap ListedShard.current_leaf_state)).count

section

variable {e : Engine} {m : String} {bettors : List Bet} {ctx : ChainCtx}
  {shards : List ListedShard} {states : List ShardLeaf.State} {tickets : List Ticket}
  {pools : List String}

theorem Checked.counted (h : Checked e m bettors ctx shards states) :
    countedTickets shards = bettors.length := by
  have hstates : shards.filterMap ListedShard.current_leaf_state = states := by
    have hmap : (shards.map ListedShard.current_leaf_state).filterMap id = states := by
      rw [h.listed, List.filterMap_map]
      exact List.filterMap_some
    rwa [List.filterMap_map] at hmap
  rw [countedTickets, hstates, h.count]

/-- **A row of a shard of the market has a ticket.** -/
theorem Checked.mem_registered (h : Checked e m bettors ctx shards states)
    (hseen : TicketsSeen ctx tickets) {b : Bet} (hb : Vouched e m ctx shards pools bettors b) :
    b ∈ registered tickets pools := by
  obtain ⟨derive, landed, hderive, hlanded, htickets⟩ := h.tickets
  obtain ⟨sh, hsh, hpool, hrow⟩ := hb.row
  obtain ⟨r, hr, rfl⟩ := List.mem_map.mp hrow
  obtain ⟨addr, haddr, hland⟩ := htickets sh hsh r hr
  have hmem := hseen derive landed hderive hlanded ⟨r.bet, shardPoolId e m sh⟩ addr haddr hland
  exact List.mem_map.mpr ⟨_, List.mem_filter.mpr ⟨hmem, by simpa using hpool⟩, rfl⟩

/-- **The bets that were loaded are the tickets of the market** when those that nothing vouches for
are tickets as often as they were loaded, and the states count all the tickets. -/
theorem Checked.perm_iff (h : Checked e m bettors ctx shards states)
    (hseen : TicketsSeen ctx tickets) :
    bettors.Perm (registered tickets pools) ↔
      (∀ b ∈ bettors, ¬ Vouched e m ctx shards pools bettors b →
        bettors.count b ≤ (registered tickets pools).count b) ∧
      ((registered tickets pools).length : Int) ≤ countedTickets shards := by
  constructor
  · intro hperm
    refine ⟨fun b _ _ => (hperm.count_eq b).le, ?_⟩
    rw [h.counted, hperm.length_eq]
  · intro hcond
    obtain ⟨hcount, hlen⟩ := hcond
    rw [h.counted] at hlen
    have hle : ∀ b ∈ bettors, bettors.count b ≤ (registered tickets pools).count b := by
      intro b hb
      by_cases hv : Vouched e m ctx shards pools bettors b
      · rw [hv.once]
        exact List.one_le_count_iff.mpr (h.mem_registered hseen hv)
      · exact hcount b hb hv
    exact (List.subperm_ext_iff.mpr hle).perm_of_length_le (by exact_mod_cast hlen)

end

/-- **When the bettors are complete.**  For a market with shards the bets that were accepted are
its tickets exactly when each of them was loaded once and is listed under a shard of the market, or
is a ticket as often as it was loaded, and when no ticket is missing from the states that are
listed.  Where no shard is listed, anything is accepted. -/
theorem complete_iff (e : Engine) (logicalMarketId : String) (bettors : List Bet) (ctx : ChainCtx)
    (res : Completeness) (tickets : List Ticket) (pools : List String)
    (hseen : TicketsSeen ctx tickets)
    (h : verifyBettorsCompleteFromChain e logicalMarketId bettors ctx = .ok res)
    (shards : List ListedShard) (hs : listedShards ctx = .ok shards) :
    (shards ≠ [] → (bettors.Perm (registered tickets pools) ↔
      (∀ b ∈ bettors, ¬ Vouched e logicalMarketId ctx shards pools bettors b →
        bettors.count b ≤ (registered tickets pools).count b) ∧
      ((registered tickets pools).length : Int) ≤ countedTickets shards)) ∧
    (shards = [] → ∀ bettors',
      verifyBettorsCompleteFromChain e logicalMarketId bettors' ctx = .ok res) := by
  refine ⟨?_, ?_⟩
  · intro hne
    obtain ⟨states, hchecked⟩ := checked_of_ok h hs hne
    exact hchecked.perm_iff hseen
  · intro hnil bettors'
    rw [← h]
    unfold verifyBettorsCompleteFromChain
    rw [hs, hnil]
    rfl

/-! ### A ticket that is listed twice -/

def sampleBet (k : UInt8) : Bet where
  pk := List.replicate 32 k
  stake := 5
  direction := 0

/-- Two bettors with one ticket each. -/
def sampleTickets : List Ticket := [⟨sampleBet 1, "pool"⟩, ⟨sampleBet 2, "pool"⟩]

def sampleLeaf : ShardLeaf.State where
  local_yes := 10
  local_no := 0
  count := 2
  pool_value := 10

def sampleLeafRedeem : Bytes := List.replicate 100 0

def sampleShard : ListedShard where
  shard_index := 0
  status := .sealed
  shard_pool_id := some "pool"
  shard_market_id := "market-0"
  current_leaf_state := some sampleLeaf
  shard_redeem := some sampleLeafRedeem
  current_leaf_outpoint := some "tx:0"
  bettors := none

/-- The bets that the database has. -/
def sampleBettors (k : UInt8) : List Bet := [sampleBet 1, sampleBet k]

/-- A member with a database, on a chain where nothing but the tickets and the leaf has landed. -/
def sampleChainCtx (k : UInt8) : ChainCtx where
  shards := none
  db := some {
    market_shards := [sampleShard]
    payout_shards := true
    pool_bettor_sides := fun _ => (sampleBettors k).map fun bet => ⟨bet, some "tx"⟩ }
  p2sh := some hex
  checkUtxoLanded := some fun addr _ => addr ≠ "nowhere"
  readOutpointCreatedAddr := some fun _ => (spliceLeafState sampleLeafRedeem sampleLeaf).map hex
  deriveTicketAddr := some fun bet pool =>
    some (if (⟨bet, pool⟩ : Ticket) ∈ sampleTickets then hex bet.pk else "nowhere")
  excludeSideLockTx := []
  psConsolidatedPool := some 20000010
  psSeed := none

theorem sampleSeen (k : UInt8) : TicketsSeen (sampleChainCtx k) sampleTickets := by
  intro derive landed hderive hlanded t addr haddr hland
  obtain rfl := Option.some.inj hderive
  obtain rfl := Option.some.inj hlanded
  by_contra hmem
  have hnowhere : addr = "nowhere" := by
    have h := Option.some.inj haddr
    rw [if_neg hmem] at h
    exact h.symm
  exact absurd hnowhere (by simpa using hland)

theorem sampleAccepted {k : UInt8} (hk : (⟨sampleBet k, "pool"⟩ : Ticket) ∈ sampleTickets) :
    verifyBettorsCompleteFromChain sampleEngine "market" (sampleBettors k) (sampleChainCtx k) =
      .ok { applicable := true, aggregate := some sampleLeaf, perTicketChecked := 2,
            perTicketVerified := true } := by
  obtain ⟨spliced, hspliced⟩ : ∃ spliced, spliceLeafState sampleLeafRedeem sampleLeaf =
      some spliced := ⟨_, rfl⟩
  have hne : spliced ≠ [] := by
    intro hnil
    rw [hnil] at hspliced
    exact absurd (congrArg (Option.map List.length) hspliced) (by decide)
  have hleaf : leafState (sampleChainCtx k) hex (fun addr _ => addr ≠ "nowhere") sampleShard =
      .ok sampleLeaf := by
    unfold leafState
    simp only [bind_eq_ok, orRefuse_eq_ok]
    refine ⟨sampleLeaf, rfl, sampleLeafRedeem, rfl, "tx:0", rfl, ?_⟩
    rw [if_neg (by decide)]
    simp only [bind_eq_ok, orRefuse_eq_ok, check_eq_ok, exists_const]
    refine ⟨spliced, hspliced, ?_, trivial⟩
    have hread : (sampleChainCtx k).readOutpointCreatedAddr = some fun _ => some (hex spliced) := by
      show some (fun _ => (spliceLeafState sampleLeafRedeem sampleLeaf).map hex) = _
      rw [hspliced]
      rfl
    rw [leafAnchored, hread]
    show decide (hex spliced ≠ "" ∧ (hex spliced).toLower = (hex spliced).toLower) = true
    exact decide_eq_true ⟨hex_ne_empty hne, rfl⟩
  unfold verifyBettorsCompleteFromChain
  rw [bind_eq_ok]
  refine ⟨[sampleShard], rfl, ?_⟩
  rw [if_neg (by decide)]
  simp only [bind_eq_ok, orRefuse_eq_ok, check_eq_ok, forM_eq_ok, mapM_eq_ok, exists_const,
    Except.ok.injEq]
  refine ⟨hex, rfl, _, rfl, [sampleLeaf], congrArg (fun x => [x]) hleaf, ?_, rfl, rfl, rfl, rfl, ?_,
    _, rfl, ?_, rfl, rfl⟩
  · intro b hb
    rcases List.mem_pair.mp hb with rfl | rfl
    · rfl
    · rfl
  · intro psPool hps
    exact (Option.some.inj hps).symm
  · intro sh hsh r hr
    obtain rfl := List.mem_singleton.mp hsh
    have hr' : r ∈ (sampleBettors k).map fun bet => (⟨bet, some "tx"⟩ : SideRow) :=
      List.mem_of_mem_filter hr
    obtain ⟨b, hb, rfl⟩ := List.mem_map.mp hr'
    have hmem : (⟨b, "pool"⟩ : Ticket) ∈ sampleTickets := by
      rcases List.mem_pair.mp hb with rfl | rfl
      · exact List.mem_cons_self
      · exact hk
    have hpool : shardPoolId sampleEngine "market" sampleShard = "pool" := rfl
    unfold checkTicket
    simp only [bind_eq_ok, orRefuse_eq_ok, check_eq_ok, hpool, if_pos hmem]
    refine ⟨hex b.pk, rfl, ?_⟩
    rcases List.mem_pair.mp hmem with h | h
    · rw [(Ticket.mk.inj h).1]
      decide
    · rw [(Ticket.mk.inj h).1]
      decide

/-- **A bettor is missing**: what is accepted has one ticket twice and leaves another out. -/
theorem sample_incomplete : ∃ res,
    verifyBettorsCompleteFromChain sampleEngine "market" (sampleBettors 1) (sampleChainCtx 1) =
      .ok res ∧
    TicketsSeen (sampleChainCtx 1) sampleTickets ∧
    ¬ (sampleBettors 1).Perm (registered sampleTickets ["pool"]) :=
  ⟨_, sampleAccepted (by decide), sampleSeen 1, by decide⟩

theorem complete_iff_sample :
    (sampleBettors 2).Perm (registered sampleTickets ["pool"]) ↔
      (∀ b ∈ sampleBettors 2,
        ¬ Vouched sampleEngine "market" (sampleChainCtx 2) [sampleShard] ["pool"]
          (sampleBettors 2) b →
        (sampleBettors 2).count b ≤ (registered sampleTickets ["pool"]).count b) ∧
      ((registered sampleTickets ["pool"]).length : Int) ≤ countedTickets [sampleShard] :=
  (complete_iff sampleEngine "market" (sampleBettors 2) (sampleChainCtx 2) _ sampleTickets ["pool"]
    (sampleSeen 2) (sampleAccepted (by decide)) [sampleShard] rfl).1 (List.cons_ne_nil _ _)

end KANet.Settle
