import KANet.Register.LeafBuilder
import Mathlib.Data.List.MinMax
import Mathlib.Data.List.Range

/-!
# The shards of a market

A market's bets are spread over shards.  The console keeps one row for each shard, and one for each
bettor, and routes the next bet to the open shard with the highest index.  A shard is sealed when it
is full, when the mass of its settlement grows too large, or when another is opened after it.

The rows here are those of one market.
-/

namespace KANet.Register

open KANet.Lib KANet.Script KANet.Covenant

def SHARD_SEAL_COUNT : Nat := 32

def SHARD_MASS_CEILING : Nat := 380000

def STORAGE_MASS_C : Nat := 1000000000000

/-- `Math.ceil(STORAGE_MASS_C / v)`, for an output of at least a thousand sompi. -/
def estimateStorageMass (outputValueSompi : Int) : Nat :=
  let safeV := max 1000 outputValueSompi.toNat
  (STORAGE_MASS_C + safeV - 1) / safeV

def projectShardSettleMass (stakeValuesSompi : List Int) : Nat :=
  (stakeValuesSompi.map estimateStorageMass).sum

inductive ShardStatus
  | isOpen
  | sealed
  | settling
  | settled
  | refunded
deriving DecidableEq

structure Outpoint where
  txid : String
  index : Nat
deriving DecidableEq

/-- A row of `market_shards`. -/
structure Shard where
  shard_index : Nat
  shard_market_id : String
  shard_p2sh : String
  bettor_count : Nat
  projected_settle_mass : Nat
  status : ShardStatus
  created_at : Option Nat
  sealed_at : Option Nat
  current_leaf_outpoint : Option Outpoint
  current_leaf_state : Option ShardLeaf.State
  shard_redeem : Option Bytes
deriving DecidableEq

/-- A row of `pool_bettor_sides`: the ticket of a bet. -/
structure Side where
  market_id : String
  bettor_pk : Bytes32
  bettor_relay_id : Option String
  direction : Int
  stake_amount : Int
  side_p2sh : String
  side_lock_tx : Option String
  merkle_index : Nat
  pay_amount_sompi : Option Nat
deriving DecidableEq

/-- The rows of the market. -/
structure Db where
  shards : List Shard
  sides : List Side
  payout_cov_id : Option Bytes32

/-- The bets of a shard, in the order they were written. -/
def Db.sidesOf (db : Db) (shardMarketId : String) : List Side :=
  db.sides.filter (·.market_id = shardMarketId)

def Db.openShards (db : Db) : List Shard := db.shards.filter (·.status = .isOpen)

/-! ### Where the next bet goes -/

/-- The bets of a shard: the state of the leaf counts where it is ahead of the rows. -/
def Shard.leafCount (shard : Shard) : Int :=
  match shard.current_leaf_state with
  | some st => max shard.bettor_count st.count
  | none => shard.bettor_count

/-- Whether one more bet fits. -/
def shardHasRoom (shard : Shard) (currentStakes : List Int) (nextStakeSompi : Int) : Bool :=
  decide (shard.leafCount + 1 ≤ SHARD_SEAL_COUNT ∧
    projectShardSettleMass (currentStakes ++ [nextStakeSompi]) ≤ SHARD_MASS_CEILING)

def findOpenShard (db : Db) : Option Shard := db.openShards.argmax (·.shard_index)

/-- The highest index of a shard, `-1` where there is none. -/
def maxShardIndex (db : Db) : Int :=
  match (db.shards.map Shard.shard_index).max? with
  | some mx => (mx : Int)
  | none => -1

def shardStakes (db : Db) (shardMarketId : String) : List Int :=
  (db.sidesOf shardMarketId).map (·.stake_amount)

inductive Alloc
  | use (shard : Shard)
  | open_new (nextIndex : Nat) (sealPrevId : Option String)

def allocateForRegister (db : Db) (nextStakeSompi : Int) : Alloc :=
  match (findOpenShard db).filter fun shard =>
      shardHasRoom shard (shardStakes db shard.shard_market_id) nextStakeSompi with
  | some shard => .use shard
  | none => .open_new (maxShardIndex db + 1).toNat ((findOpenShard db).map (·.shard_market_id))

/-! ### The updates -/

/-- Inserts an open shard, and refuses an index or a market id that is taken. -/
def registerShard (db : Db) (shardIndex : Nat) (shardMarketId shardP2sh : String)
    (currentLeafOutpoint : Outpoint) (currentLeafState : ShardLeaf.State) (shardRedeem : Bytes)
    (nowSec : Nat) : Option Db :=
  if ∃ s ∈ db.shards, s.shard_index = shardIndex ∨ s.shard_market_id = shardMarketId then none
  else some
    { db with
      shards := db.shards ++
        [{ shard_index := shardIndex
           shard_market_id := shardMarketId
           shard_p2sh := shardP2sh
           bettor_count := 0
           projected_settle_mass := 0
           status := .isOpen
           created_at := some nowSec
           sealed_at := none
           current_leaf_outpoint := some currentLeafOutpoint
           current_leaf_state := some currentLeafState
           shard_redeem := some shardRedeem }] }

def Shard.seal (s : Shard) (nowSec : Nat) : Shard :=
  { s with status := .sealed, sealed_at := some nowSec }

def sealShard (db : Db) (shardMarketId : String) (nowSec : Nat) : Db :=
  { db with
    shards := db.shards.map fun s =>
      if s.shard_market_id = shardMarketId ∧ s.status = .isOpen then s.seal nowSec else s }

/-- The shard after a bet: the rows are counted again, and the leaf is the continued one. -/
def Shard.registered (s : Shard) (stakes : List Int) (currentLeafOutpoint : Outpoint)
    (currentLeafState : ShardLeaf.State) (nowSec : Nat) : Shard :=
  let projMass := projectShardSettleMass stakes
  let full := decide (SHARD_SEAL_COUNT ≤ stakes.length ∨ SHARD_MASS_CEILING < projMass)
  { s with
    bettor_count := stakes.length
    projected_settle_mass := projMass
    status := if full then .sealed else s.status
    sealed_at := if full then some nowSec else s.sealed_at
    current_leaf_outpoint := some currentLeafOutpoint
    current_leaf_state := some currentLeafState }

/-- Refuses a shard that has no row. -/
def onBettorRegistered (db : Db) (shardMarketId : String) (currentLeafOutpoint : Outpoint)
    (currentLeafState : ShardLeaf.State) (nowSec : Nat) : Option Db :=
  if ∃ s ∈ db.shards, s.shard_market_id = shardMarketId then
    let stakes := shardStakes db shardMarketId
    some
      { db with
        shards := db.shards.map fun s =>
          if s.shard_market_id = shardMarketId then
            s.registered stakes currentLeafOutpoint currentLeafState nowSec
          else s }
  else none

/-- `INSERT OR IGNORE` of a bettor's row: a payment has one row at most.  What goes wrong with the
write itself is only logged. -/
def recordBettor (db : Db) (row : Side) (wrote : Bool) : Db :=
  if wrote ∧ ∀ s ∈ db.sides, row.side_lock_tx = none ∨ s.side_lock_tx ≠ row.side_lock_tx then
    { db with sides := db.sides ++ [row] }
  else db

/-! ### What the updates keep -/

/-- The indices count up from zero, no two shards share a market id, and one shard is open at
most. -/
structure Rolling (db : Db) : Prop where
  indices : db.shards.map (·.shard_index) = List.range db.shards.length
  ids : (db.shards.map (·.shard_market_id)).Nodup
  one_open : db.openShards.length ≤ 1

/-- A sealed shard keeps its row and its bets. -/
def Frozen (db db' : Db) : Prop :=
  ∀ s ∈ db.shards, s.status = .sealed →
    s ∈ db'.shards ∧ db'.sidesOf s.shard_market_id = db.sidesOf s.shard_market_id

theorem Frozen.refl (db : Db) : Frozen db db := fun _ hs _ => ⟨hs, rfl⟩

theorem Frozen.trans {db db' db'' : Db} (h : Frozen db db') (h' : Frozen db' db'') :
    Frozen db db'' := by
  intro s hs hsealed
  obtain ⟨hmem, hsides⟩ := h s hs hsealed
  obtain ⟨hmem', hsides'⟩ := h' s hmem hsealed
  exact ⟨hmem', hsides'.trans hsides⟩

theorem mem_openShards {db : Db} {s : Shard} :
    s ∈ db.openShards ↔ s ∈ db.shards ∧ s.status = .isOpen := by
  simp [Db.openShards]

/-- A market id names one row. -/
theorem Rolling.eq_of_id {db : Db} (h : Rolling db) {s s' : Shard} (hs : s ∈ db.shards)
    (hs' : s' ∈ db.shards) (hid : s.shard_market_id = s'.shard_market_id) : s = s' :=
  List.inj_on_of_nodup_map h.ids hs hs' hid

theorem Rolling.openShards_eq {db : Db} (h : Rolling db) {s : Shard} (hs : s ∈ db.shards)
    (hopen : s.status = .isOpen) : db.openShards = [s] := by
  have hmem : s ∈ db.openShards := mem_openShards.mpr ⟨hs, hopen⟩
  have hone : db.openShards.length = 1 :=
    Nat.le_antisymm h.one_open (List.length_pos_of_mem hmem)
  obtain ⟨a, ha⟩ := List.length_eq_one_iff.mp hone
  rw [ha] at hmem
  rw [ha, List.mem_singleton.mp hmem]

/-! ### The allocation -/

theorem max?_range (n : Nat) :
    (List.range n).max? = if n = 0 then none else some (n - 1) := by
  by_cases h : n = 0
  · simp [h]
  · rw [if_neg h, List.max?_eq_some_iff]
    refine ⟨List.mem_range.mpr (by omega), ?_⟩
    intro b hb
    have := List.mem_range.mp hb
    omega

/-- The next index is the number of shards. -/
theorem Rolling.nextIndex {db : Db} (h : Rolling db) :
    (maxShardIndex db + 1).toNat = db.shards.length := by
  rw [maxShardIndex, h.indices, max?_range]
  by_cases h0 : db.shards.length = 0
  · simp [h0]
  · rw [if_neg h0]
    show ((db.shards.length - 1 : Nat) + 1 : Int).toNat = _
    omega

theorem findOpenShard_mem {db : Db} {s : Shard} (h : findOpenShard db = some s) :
    s ∈ db.shards ∧ s.status = .isOpen :=
  mem_openShards.mp (List.argmax_mem h)

theorem findOpenShard_none {db : Db} (h : findOpenShard db = none) : db.openShards = [] :=
  List.argmax_eq_none.mp h

theorem allocateForRegister_use {db : Db} {stake : Int} {s : Shard}
    (h : allocateForRegister db stake = .use s) :
    s ∈ db.shards ∧ s.status = .isOpen ∧
      shardHasRoom s (shardStakes db s.shard_market_id) stake := by
  unfold allocateForRegister at h
  split at h
  · next s' hs' =>
    obtain ⟨hfind, hroom⟩ := Option.filter_eq_some_iff.mp hs'
    obtain rfl : s' = s := by simpa using h
    obtain ⟨hmem, hopen⟩ := findOpenShard_mem hfind
    exact ⟨hmem, hopen, hroom⟩
  · cases h

/-- A new shard takes the next index, and the open one is to be sealed. -/
theorem allocateForRegister_open_new {db : Db} (hdb : Rolling db) {stake : Int} {i : Nat}
    {prev : Option String} (h : allocateForRegister db stake = .open_new i prev) :
    i = db.shards.length ∧ ∀ s ∈ db.openShards, prev = some s.shard_market_id := by
  unfold allocateForRegister at h
  split at h
  · cases h
  · obtain ⟨rfl, rfl⟩ := Alloc.open_new.inj h
    refine ⟨hdb.nextIndex, ?_⟩
    intro s hs
    cases hfind : findOpenShard db with
    | none =>
      rw [findOpenShard_none hfind] at hs
      exact absurd hs List.not_mem_nil
    | some s' =>
      obtain ⟨hmem, hopen⟩ := findOpenShard_mem hfind
      rw [hdb.openShards_eq hmem hopen] at hs
      rw [List.mem_singleton.mp hs]
      rfl

/-- A shard with room is not full. -/
theorem count_lt_of_room {s : Shard} {stakes : List Int} {stake : Int} {st : ShardLeaf.State}
    (hst : s.current_leaf_state = some st) (h : shardHasRoom s stakes stake) :
    st.count + 1 ≤ SHARD_SEAL_COUNT := by
  obtain ⟨hcount, -⟩ := of_decide_eq_true h
  have hmax : st.count ≤ s.leafCount := by
    rw [Shard.leafCount, hst]
    exact le_max_right _ _
  omega

/-! ### Each update -/

/-- An update that keeps the indices and the ids and opens nothing keeps the rows in order. -/
theorem Rolling.map {db : Db} (h : Rolling db) {f : Shard → Shard}
    (hindex : ∀ s, (f s).shard_index = s.shard_index)
    (hid : ∀ s, (f s).shard_market_id = s.shard_market_id)
    (hopen : ∀ s, (f s).status = .isOpen → s.status = .isOpen) :
    Rolling { db with shards := db.shards.map f } := by
  refine ⟨?_, ?_, ?_⟩
  · show (db.shards.map f).map _ = List.range (db.shards.map f).length
    rw [List.map_map, List.length_map, ← h.indices]
    exact List.map_congr_left fun s _ => hindex s
  · show ((db.shards.map f).map _).Nodup
    rw [List.map_map]
    have hsame : db.shards.map (Shard.shard_market_id ∘ f) = db.shards.map Shard.shard_market_id :=
      List.map_congr_left fun s _ => hid s
    rw [hsame]
    exact h.ids
  · show ((db.shards.map f).filter _).length ≤ 1
    rw [List.filter_map, List.length_map]
    refine le_trans (List.Sublist.length_le (List.monotone_filter_right _ ?_)) h.one_open
    intro s hs
    simpa using hopen s (by simpa using hs)

theorem sealShard_rolling {db : Db} (h : Rolling db) (id : String) (now : Nat) :
    Rolling (sealShard db id now) := by
  refine h.map ?_ ?_ ?_
  · intro s
    split
    · rfl
    · rfl
  · intro s
    split
    · rfl
    · rfl
  · intro s hs
    split at hs
    · cases hs
    · exact hs

/-- What stays open was open, under another id. -/
theorem mem_openShards_sealShard {db : Db} {id : String} {now : Nat} {s : Shard}
    (h : s ∈ (sealShard db id now).openShards) : s ∈ db.openShards ∧ s.shard_market_id ≠ id := by
  obtain ⟨hmem, hopen⟩ := mem_openShards.mp h
  obtain ⟨s', hs', rfl⟩ := List.mem_map.mp hmem
  split at hopen
  · cases hopen
  · next hno =>
    rw [if_neg hno]
    exact ⟨mem_openShards.mpr ⟨hs', hopen⟩, fun hid => hno ⟨hid, hopen⟩⟩

theorem sealShard_frozen (db : Db) (id : String) (now : Nat) :
    Frozen db (sealShard db id now) := by
  intro s hs hsealed
  refine ⟨List.mem_map.mpr ⟨s, hs, ?_⟩, rfl⟩
  rw [if_neg]
  intro hc
  rw [hsealed] at hc
  cases hc.2

theorem registerShard_eq_some {db db' : Db} {i : Nat} {id addr : String} {o : Outpoint}
    {st : ShardLeaf.State} {redeem : Bytes} {now : Nat}
    (h : registerShard db i id addr o st redeem now = some db') :
    (∀ s ∈ db.shards, s.shard_market_id ≠ id) ∧
      ∃ s : Shard, s.shard_index = i ∧ s.shard_market_id = id ∧ s.status = .isOpen ∧
        s.current_leaf_state = some st ∧ s.bettor_count = 0 ∧
        db' = { db with shards := db.shards ++ [s] } := by
  unfold registerShard at h
  split at h
  · cases h
  · next hnew =>
    refine ⟨fun s hs hid => hnew ⟨s, hs, Or.inr hid⟩, _, ?_, ?_, ?_, ?_, ?_,
      (Option.some.inj h).symm⟩
    all_goals rfl

/-- A shard opened at the next index, where none is open, keeps the rows in order. -/
theorem Rolling.append {db : Db} (hdb : Rolling db) {s : Shard}
    (hindex : s.shard_index = db.shards.length)
    (hnew : ∀ s' ∈ db.shards, s'.shard_market_id ≠ s.shard_market_id)
    (hnone : db.openShards = []) : Rolling { db with shards := db.shards ++ [s] } := by
  refine ⟨?_, ?_, ?_⟩
  · show (db.shards ++ [s]).map _ = List.range (db.shards ++ [s]).length
    rw [List.map_append, hdb.indices, List.length_append, List.length_singleton, List.range_succ,
      List.map_singleton, hindex]
  · show ((db.shards ++ [s]).map _).Nodup
    rw [List.map_append, List.map_singleton]
    refine hdb.ids.append (List.nodup_singleton _) ?_
    intro id hid hid'
    obtain ⟨s', hs', rfl⟩ := List.mem_map.mp hid
    exact hnew s' hs' (List.mem_singleton.mp hid')
  · show ((db.shards ++ [s]).filter _).length ≤ 1
    have hopen : db.shards.filter (·.status = .isOpen) = [] := hnone
    rw [List.filter_append, hopen, List.nil_append]
    exact List.length_filter_le _ _

theorem onBettorRegistered_eq_some {db db' : Db} {id : String} {o : Outpoint}
    {st : ShardLeaf.State} {now : Nat} (h : onBettorRegistered db id o st now = some db') :
    db' = { db with
      shards := db.shards.map fun s =>
        if s.shard_market_id = id then s.registered (shardStakes db id) o st now else s } := by
  unfold onBettorRegistered at h
  split at h
  · exact (Option.some.inj h).symm
  · cases h

theorem onBettorRegistered_of_mem {db : Db} {s : Shard} (hs : s ∈ db.shards) (o : Outpoint)
    (st : ShardLeaf.State) (now : Nat) :
    (onBettorRegistered db s.shard_market_id o st now).isSome := by
  rw [onBettorRegistered, if_pos ⟨s, hs, rfl⟩]
  rfl

theorem onBettorRegistered_rolling {db db' : Db} (h : Rolling db) {id : String} {o : Outpoint}
    {st : ShardLeaf.State} {now : Nat} (hreg : onBettorRegistered db id o st now = some db') :
    Rolling db' := by
  rw [onBettorRegistered_eq_some hreg]
  refine h.map ?_ ?_ ?_
  · intro s
    split
    · rfl
    · rfl
  · intro s
    split
    · rfl
    · rfl
  · intro s hs
    split at hs
    · simp only [Shard.registered] at hs
      split at hs
      · cases hs
      · exact hs
    · exact hs

end KANet.Register
