import KANet.Register.ShardAllocator
import Mathlib.Data.List.Perm.Basic

/-!
# The readers of the bets

The bets of a market are stored under the ids of its shards.  Four functions read them: the settler,
the members of the committee, the proposer of a close, and the queue of the proofs.  Each joins the
shards and leaves rows out by rules of its own.

* `getMarketBets`, `loadBettorsCrossShard`, `loadBettorsFlat`, `gatherBets` — the readers.
* `readers_agree` — where they read the same rows.
-/

namespace KANet.Settle

/-! ### The tables -/

/-- A row of `pool_bettor_sides`. -/
structure PoolSide where
  id : Nat
  market_id : String
  bettor_pk : String
  direction : Int
  stake_amount : Int
  side_lock_daa : Option Int
  side_lock_tx : Option String
deriving DecidableEq

/-- A row of `market_shards`. -/
structure MarketShard where
  logical_market_id : String
  shard_index : Int
  shard_market_id : String
  status : Register.ShardStatus
deriving DecidableEq

/-- A row of `pool_markets`. -/
structure PoolMarket where
  id : String
  protocol_version : Option String
deriving DecidableEq

structure BetTables where
  pool_markets : List PoolMarket
  market_shards : List MarketShard
  pool_bettor_sides : List PoolSide

variable (db : BetTables) (logicalMarketId : String)

/-- The shards of a market in their order. -/
def listShards : List MarketShard :=
  (db.market_shards.filter (·.logical_market_id = logicalMarketId)).mergeSort
    fun a b => a.shard_index ≤ b.shard_index

/-- Without those whose stakes were paid back by hand. -/
def activeShards : List MarketShard := (listShards db logicalMarketId).filter (·.status ≠ .refunded)

/-- The rows under one id. -/
def sidesUnder (marketId : String) : List PoolSide :=
  db.pool_bettor_sides.filter (·.market_id = marketId)

/-! ### The readers -/

/-- `side_lock_tx NOT IN (…)`, which `NULL` does not satisfy. -/
def notIn (excludeSideLockTx : List String) (r : PoolSide) : Bool :=
  match r.side_lock_tx with
  | some tx => decide (tx ∉ excludeSideLockTx)
  | none => false

def getSidesByShard (shardMarketId : String) (excludeSideLockTx : List String) : List PoolSide :=
  let rows := sidesUnder db shardMarketId
  (if excludeSideLockTx = [] then rows else rows.filter (notIn excludeSideLockTx)).mergeSort
    fun a b => a.id ≤ b.id

structure MarketBet where
  pk : String
  stake : Int
  direction : Int
deriving DecidableEq

structure MarketBets where
  bets : List MarketBet
  betCount : Nat
  poolSompi : Int
  isBshard : Bool
  multiShard : Nat
deriving DecidableEq

def isBshard : Bool :=
  match db.pool_markets.find? (·.id = logicalMarketId) with
  | some mkt => (mkt.protocol_version.getD "").startsWith "v0.7"
  | none => false

/-- The rows of the shards of a market of version 0.7, and of the market itself before that. -/
def marketRows (excludeSideLockTx : List String) : List PoolSide :=
  if isBshard db logicalMarketId = true then
    (activeShards db logicalMarketId).flatMap fun s =>
      getSidesByShard db s.shard_market_id excludeSideLockTx
  else sidesUnder db logicalMarketId

def PoolSide.marketBet (r : PoolSide) : MarketBet := ⟨r.bettor_pk, r.stake_amount, r.direction⟩

def getMarketBets (excludeSideLockTx : List String) : MarketBets :=
  let bets := (marketRows db logicalMarketId excludeSideLockTx).map PoolSide.marketBet
  let shards := (activeShards db logicalMarketId).length
  { bets
    betCount := bets.length
    poolSompi := (bets.map (·.stake)).sum
    isBshard := isBshard db logicalMarketId
    multiShard := if isBshard db logicalMarketId = true ∧ 1 < shards then shards else 0 }

structure LoadedBettor where
  pk : String
  direction : Int
  stake : Int
  side_lock_daa : Option Int
  side_lock_tx : Option String
deriving DecidableEq

def PoolSide.loaded (r : PoolSide) : LoadedBettor :=
  ⟨r.bettor_pk, r.direction, r.stake_amount, r.side_lock_daa, r.side_lock_tx⟩

/-- The ids the rows are under, which without shards is that of the market. -/
def marketIds (shards : List MarketShard) : List String :=
  if shards = [] then [logicalMarketId] else shards.map MarketShard.shard_market_id

/-- `excludeSet.has(r.side_lock_tx)` -/
def excluded (excludeSideLockTx : List String) (r : PoolSide) : Bool :=
  match r.side_lock_tx with
  | some tx => decide (tx ∈ excludeSideLockTx)
  | none => false

def loadBettorsCrossShard (excludeSideLockTx : List String) : List LoadedBettor :=
  (marketIds logicalMarketId (activeShards db logicalMarketId)).flatMap fun mid =>
    ((sidesUnder db mid).filter fun r => ¬ excluded excludeSideLockTx r).map PoolSide.loaded

/-- With the key in lower case. -/
def LoadedBettor.lower (b : LoadedBettor) : LoadedBettor := { b with pk := b.pk.toLower }

def loadBettorsFlat : List LoadedBettor :=
  (marketIds logicalMarketId (listShards db logicalMarketId)).flatMap fun mid =>
    (sidesUnder db mid).map fun r => r.loaded.lower

/-- The rows that `enqueueZkProveJob` goes on with, unless it throws. -/
def gatherBets : Option (List PoolSide) :=
  match listShards db logicalMarketId with
  | [shard] => some (getSidesByShard db shard.shard_market_id [])
  | _ => none

/-! ### What they read -/

/-- What a bet of the settler has of a loaded one. -/
def LoadedBettor.marketBet (b : LoadedBettor) : MarketBet := ⟨b.pk, b.stake, b.direction⟩

/-- No shard of the market was paid back, and no row of it is left out. -/
structure NothingLeftOut (excludeSideLockTx : List String) : Prop where
  active : ∀ s ∈ listShards db logicalMarketId, s.status ≠ .refunded
  rows : ∀ mid ∈ marketIds logicalMarketId (listShards db logicalMarketId),
    ∀ r ∈ sidesUnder db mid, ¬ excluded excludeSideLockTx r

/-- Where rows are left out, every row of the market names its transaction. -/
def TicketsNamed (excludeSideLockTx : List String) : Prop :=
  excludeSideLockTx ≠ [] → ∀ s ∈ activeShards db logicalMarketId,
    ∀ r ∈ sidesUnder db s.shard_market_id, r.side_lock_tx ≠ none

variable {db logicalMarketId} {excludeSideLockTx : List String}

theorem getSidesByShard_perm (shardMarketId : String)
    (h : excludeSideLockTx ≠ [] → ∀ r ∈ sidesUnder db shardMarketId, r.side_lock_tx ≠ none) :
    (getSidesByShard db shardMarketId excludeSideLockTx).Perm
      ((sidesUnder db shardMarketId).filter fun r => ¬ excluded excludeSideLockTx r) := by
  refine (List.mergeSort_perm _ _).trans (List.Perm.of_eq ?_)
  by_cases hnil : excludeSideLockTx = []
  · rw [if_pos hnil, hnil]
    symm
    refine List.filter_eq_self.mpr fun r _ => ?_
    unfold excluded
    cases r.side_lock_tx with
    | none => rfl
    | some tx => rfl
  · rw [if_neg hnil]
    refine List.filter_congr fun r hr => ?_
    obtain ⟨tx, htx⟩ := Option.ne_none_iff_exists'.mp (h hnil r hr)
    unfold notIn excluded
    rw [htx]
    simp

/-- A market with a shard that counts. -/
theorem marketBets_perm (hv : isBshard db logicalMarketId = true)
    (hs : activeShards db logicalMarketId ≠ [])
    (hnamed : TicketsNamed db logicalMarketId excludeSideLockTx) :
    (getMarketBets db logicalMarketId excludeSideLockTx).bets.Perm
      ((loadBettorsCrossShard db logicalMarketId excludeSideLockTx).map
        LoadedBettor.marketBet) := by
  show ((marketRows db logicalMarketId excludeSideLockTx).map PoolSide.marketBet).Perm _
  rw [marketRows, if_pos hv, loadBettorsCrossShard, marketIds, if_neg hs, List.flatMap_map,
    List.map_flatMap, List.map_flatMap]
  refine List.Perm.flatMap_left _ fun s hs => ?_
  rw [List.map_map]
  exact (getSidesByShard_perm _ fun hne r hr => hnamed hne s hs r hr).map _

theorem NothingLeftOut.activeShards (h : NothingLeftOut db logicalMarketId excludeSideLockTx) :
    activeShards db logicalMarketId = listShards db logicalMarketId :=
  List.filter_eq_self.mpr fun s hs => decide_eq_true (h.active s hs)

theorem NothingLeftOut.cross (h : NothingLeftOut db logicalMarketId excludeSideLockTx) :
    loadBettorsCrossShard db logicalMarketId excludeSideLockTx =
      (marketIds logicalMarketId (listShards db logicalMarketId)).flatMap fun mid =>
        (sidesUnder db mid).map PoolSide.loaded := by
  rw [loadBettorsCrossShard, h.activeShards]
  refine List.flatMap_congr fun mid hmid => ?_
  rw [List.filter_eq_self.mpr fun r hr => decide_eq_true (h.rows mid hmid r hr)]

theorem flat_eq (h : NothingLeftOut db logicalMarketId excludeSideLockTx) :
    loadBettorsFlat db logicalMarketId =
      (loadBettorsCrossShard db logicalMarketId excludeSideLockTx).map LoadedBettor.lower := by
  rw [h.cross, List.map_flatMap]
  refine List.flatMap_congr fun mid _ => ?_
  rw [List.map_map]
  rfl

theorem gather_perm (h : NothingLeftOut db logicalMarketId excludeSideLockTx)
    {rows : List PoolSide} (hrows : gatherBets db logicalMarketId = some rows) :
    (rows.map PoolSide.loaded).Perm
      (loadBettorsCrossShard db logicalMarketId excludeSideLockTx) := by
  rw [h.cross]
  unfold gatherBets at hrows
  split at hrows
  · next shard hshard =>
    obtain rfl := Option.some.inj hrows
    rw [hshard]
    show List.Perm _ (List.flatMap _ [shard.shard_market_id])
    rw [List.flatMap_singleton]
    exact (List.mergeSort_perm _ _).map _
  · cases hrows

theorem gather_isSome :
    (gatherBets db logicalMarketId).isSome ↔ (listShards db logicalMarketId).length = 1 := by
  unfold gatherBets
  split
  · next shard hshard => simp [hshard]
  · next hne =>
    refine ⟨fun h => absurd h Bool.false_ne_true, ?_⟩
    intro hlen
    obtain ⟨shard, hshard⟩ := List.length_eq_one_iff.mp hlen
    exact absurd hshard (hne shard)

/-- A market of an earlier version, whose rows are under its own id. -/
theorem marketBets_eq (hv : isBshard db logicalMarketId = false)
    (hs : listShards db logicalMarketId = [])
    (h : NothingLeftOut db logicalMarketId excludeSideLockTx) :
    (getMarketBets db logicalMarketId excludeSideLockTx).bets =
      (loadBettorsCrossShard db logicalMarketId excludeSideLockTx).map LoadedBettor.marketBet := by
  show (marketRows db logicalMarketId excludeSideLockTx).map PoolSide.marketBet = _
  rw [marketRows, if_neg (by rw [hv]; exact Bool.false_ne_true), h.cross, hs]
  show _ = List.map _ (List.flatMap _ [logicalMarketId])
  rw [List.flatMap_singleton, List.map_map]
  rfl

/-- **Where the readers agree.**  The settler has the bets of the committee where a shard counts.
Where nothing is left out the proposer has them too, and so has the queue of the proofs, which wants
a single shard. -/
theorem readers_agree (db : BetTables) (logicalMarketId : String)
    (excludeSideLockTx : List String) :
    (isBshard db logicalMarketId = true → activeShards db logicalMarketId ≠ [] →
      TicketsNamed db logicalMarketId excludeSideLockTx →
      (getMarketBets db logicalMarketId excludeSideLockTx).bets.Perm
        ((loadBettorsCrossShard db logicalMarketId excludeSideLockTx).map
          LoadedBettor.marketBet)) ∧
    (NothingLeftOut db logicalMarketId excludeSideLockTx →
      (isBshard db logicalMarketId = false → listShards db logicalMarketId = [] →
        (getMarketBets db logicalMarketId excludeSideLockTx).bets =
          (loadBettorsCrossShard db logicalMarketId excludeSideLockTx).map
            LoadedBettor.marketBet) ∧
      loadBettorsFlat db logicalMarketId =
        (loadBettorsCrossShard db logicalMarketId excludeSideLockTx).map LoadedBettor.lower ∧
      ∀ rows, gatherBets db logicalMarketId = some rows → (rows.map PoolSide.loaded).Perm
        (loadBettorsCrossShard db logicalMarketId excludeSideLockTx)) ∧
    ((gatherBets db logicalMarketId).isSome ↔ (listShards db logicalMarketId).length = 1) := by
  refine ⟨marketBets_perm, ?_, gather_isSome⟩
  intro h
  exact ⟨fun hv hs => marketBets_eq hv hs h, flat_eq h, fun rows hrows => gather_perm h hrows⟩

section Sample

private def sampleSide (marketId : String) : PoolSide where
  id := 1
  market_id := marketId
  bettor_pk := "AB"
  direction := 0
  stake_amount := 100000000
  side_lock_daa := some 7
  side_lock_tx := some "t1"

private def oneShard : BetTables where
  pool_markets := [⟨"m", some "v0.7"⟩]
  market_shards := [⟨"m", 0, "m-s0", .sealed⟩]
  pool_bettor_sides := [sampleSide "m-s0"]

private theorem listShards_oneShard :
    listShards oneShard "m" = [⟨"m", 0, "m-s0", .sealed⟩] := by
  rw [listShards, List.filter_eq_self.mpr (by decide)]
  exact List.mergeSort_singleton _

/-- Every reader has the bet of a market with one shard. -/
theorem readers_agree_oneShard :
    (getMarketBets oneShard "m" ["t2"]).bets = [⟨"AB", 100000000, 0⟩] ∧
      loadBettorsFlat oneShard "m" = [⟨"ab", 0, 100000000, some 7, some "t1"⟩] ∧
      ∃ rows, gatherBets oneShard "m" = some rows ∧
        rows.map PoolSide.loaded = [⟨"AB", 0, 100000000, some 7, some "t1"⟩] := by
  obtain ⟨hmarket, hplain, hgather⟩ := readers_agree oneShard "m" ["t2"]
  have hactive : activeShards oneShard "m" = [⟨"m", 0, "m-s0", .sealed⟩] := by
    rw [activeShards, listShards_oneShard]
    rfl
  have hcross : loadBettorsCrossShard oneShard "m" ["t2"] =
      [⟨"AB", 0, 100000000, some 7, some "t1"⟩] := by
    rw [loadBettorsCrossShard, hactive]
    decide
  have hleft : NothingLeftOut oneShard "m" ["t2"] := by
    refine ⟨?_, ?_⟩
    · rw [listShards_oneShard]
      decide
    · rw [listShards_oneShard]
      decide
  obtain ⟨-, hflat, hrows⟩ := hplain hleft
  refine ⟨?_, ?_, ?_⟩
  · refine List.perm_singleton.mp ?_
    have hp := hmarket (by decide +kernel) (by rw [hactive]; decide) (by
      intro _
      rw [hactive]
      decide)
    rwa [hcross] at hp
  · rw [hflat, hcross]
    decide +kernel
  · obtain ⟨rows, hsome⟩ := Option.isSome_iff_exists.mp
      (hgather.mpr (by rw [listShards_oneShard]; rfl))
    refine ⟨rows, hsome, List.perm_singleton.mp ?_⟩
    rw [← hcross]
    exact hrows rows hsome

/-- A market of version 0.7 without shards, with a row under its own id. -/
private def noShards : BetTables where
  pool_markets := [⟨"m", some "v0.7"⟩]
  market_shards := []
  pool_bettor_sides := [sampleSide "m"]

/-- The settler reads none of the bets of such a market, the members and the proposer read the one
under its own id, and the queue refuses it. -/
theorem noShards_disagree :
    (getMarketBets noShards "m" []).bets = [] ∧
      loadBettorsCrossShard noShards "m" [] = [⟨"AB", 0, 100000000, some 7, some "t1"⟩] ∧
      loadBettorsFlat noShards "m" = [⟨"ab", 0, 100000000, some 7, some "t1"⟩] ∧
      gatherBets noShards "m" = none := by
  have hlist : listShards noShards "m" = [] := List.mergeSort_nil
  have hactive : activeShards noShards "m" = [] := by
    rw [activeShards, hlist]
    rfl
  refine ⟨?_, ?_, ?_, ?_⟩
  · show (marketRows noShards "m" []).map PoolSide.marketBet = []
    rw [marketRows, if_pos (by decide +kernel), hactive]
    rfl
  · rw [loadBettorsCrossShard, hactive]
    decide
  · rw [loadBettorsFlat, hlist]
    decide +kernel
  · rw [gatherBets, hlist]

end Sample

end KANet.Settle
