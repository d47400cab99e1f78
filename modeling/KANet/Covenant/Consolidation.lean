import KANet.Covenant.PayoutRun
import KANet.Covenant.ShardLeaf
import Mathlib.Algebra.Order.BigOperators.Group.List

/-!
# Consolidating shards: who looks at which output

A consolidation spends the market's `PayoutShard` through `absorb` and any number of
its shards through `consolidate_to_payout`.  Each script is run on the same
transaction and looks only at the output its spender points it to.  Nothing counts the
shards, so two of them can be satisfied by one output that took in only one.

`lossless_iff` says exactly when nothing is lost, whatever indices the spenders choose:
`absorb` must name a shard next to which no other shard of value is spent, or some other
input that is worth them all.
-/

namespace KANet.Covenant

open KANet.Lib KANet.Script

/-- A shard spent in a transaction: the input it is, its state, and the two indices its spender
supplies. -/
structure LeafSpend where
  inIdx : Nat
  contract : ShardLeaf.Contract
  state : ShardLeaf.State
  psInIdx : Int
  psOutIdx : Int

/-- A transaction that the `PayoutShard` at input `psIdx` and all the given shards accept. -/
structure Consolidation (e : Engine) (tx : Tx) (c : PayoutShard.Contract) (s : PayoutShard.State)
    (psIdx : Nat) (selfOutIdx shardInIdx : Int) (leaves : List LeafSpend) : Prop where
  payoutShard : ∃ psIn, tx.inputs[psIdx]? = some psIn ∧
    (psIn.value : Int) = s.consolidated_pool ∧
    ∀ l ∈ leaves, psIn.covenantId = some l.contract.payout_cov_id
  absorbed : ∃ s', PayoutShard.absorb e i64 c s tx selfOutIdx shardInIdx = some s'
  leafValue : ∀ l ∈ leaves, ∃ leafIn, tx.inputs[l.inIdx]? = some leafIn ∧
    (leafIn.value : Int) = l.state.pool_value
  consolidated : ∀ l ∈ leaves,
    ShardLeaf.consolidate_to_payout i64 l.contract l.state tx l.psInIdx l.psOutIdx = some ()
  distinct : (psIdx :: leaves.map LeafSpend.inIdx).Nodup

/-- The pools of the spent shards together. -/
def poolSum (leaves : List LeafSpend) : Int := (leaves.map fun l => l.state.pool_value).sum

/-- The continuation is worth the `PayoutShard` and every shard spent into it. -/
def Lossless (tx : Tx) (psIdx : Nat) (selfOutIdx : Int) (leaves : List LeafSpend) : Prop :=
  ∃ psIn out, tx.inputs[psIdx]? = some psIn ∧ tx.output selfOutIdx = some out ∧
    (psIn.value : Int) + poolSum leaves ≤ out.value

/-- `absorb` names a shard next to which no other shard of value is spent, or an input that is no
shard and covers them all. -/
def OneShard (tx : Tx) (shardInIdx : Int) (leaves : List LeafSpend) : Prop :=
  ((∃ l ∈ leaves, shardInIdx = l.inIdx) ∧
    ∀ l ∈ leaves, shardInIdx ≠ l.inIdx → l.state.pool_value = 0) ∨
  ((∀ l ∈ leaves, shardInIdx ≠ l.inIdx) ∧
    ∃ shard, tx.input shardInIdx = some shard ∧ poolSum leaves ≤ shard.value)

/-! ### When nothing is lost -/

theorem sum_le_zero_iff {α : Type} {f : α → Int} {l : List α} (h : ∀ a ∈ l, 0 ≤ f a) :
    (l.map f).sum ≤ 0 ↔ ∀ a ∈ l, f a = 0 := by
  constructor
  · intro hsum a ha
    have hle : f a ≤ (l.map f).sum :=
      List.single_le_sum (fun x hx => by
        obtain ⟨b, hb, rfl⟩ := List.mem_map.mp hx
        exact h b hb) _ (List.mem_map_of_mem ha)
    have := h a ha
    omega
  · intro hz
    have : l.map f = l.map fun _ => (0 : Int) := List.map_congr_left hz
    rw [this]
    simp

/-- Among distinct shards, one is worth them all exactly when the others are worth nothing. -/
theorem poolSum_le_iff {leaves : List LeafSpend} {l : LeafSpend} (hl : l ∈ leaves)
    (hnn : ∀ l ∈ leaves, 0 ≤ l.state.pool_value) (hd : (leaves.map LeafSpend.inIdx).Nodup) :
    poolSum leaves ≤ l.state.pool_value ↔
      ∀ l' ∈ leaves, l.inIdx ≠ l'.inIdx → l'.state.pool_value = 0 := by
  obtain ⟨as, bs, rfl⟩ := List.append_of_mem hl
  have hother : ∀ l' ∈ as ++ bs, l.inIdx ≠ l'.inIdx := by
    intro l' hl' he
    rw [List.map_append, List.map_cons, List.nodup_middle, List.nodup_cons, ← List.map_append]
      at hd
    exact hd.1 (List.mem_map.mpr ⟨l', hl', he.symm⟩)
  have hsum : poolSum (as ++ l :: bs) =
      l.state.pool_value + ((as ++ bs).map fun l => l.state.pool_value).sum := by
    simp only [poolSum, List.map_append, List.map_cons, List.sum_append, List.sum_cons]
    ring
  have hnn' : ∀ l' ∈ as ++ bs, 0 ≤ l'.state.pool_value := by
    intro l' hl'
    refine hnn l' ?_
    rcases List.mem_append.mp hl' with h | h
    · exact List.mem_append_left _ h
    · exact List.mem_append_right _ (List.mem_cons_of_mem _ h)
  have hz := sum_le_zero_iff (f := fun l : LeafSpend => l.state.pool_value) hnn'
  rw [hsum]
  constructor
  · intro hle l' hl' hne
    refine hz.mp (by omega) l' ?_
    rcases List.mem_append.mp hl' with h | h
    · exact List.mem_append_left _ h
    · rcases List.mem_cons.mp h with rfl | h
      · exact absurd rfl hne
      · exact List.mem_append_right _ h
  · intro hall
    have : ((as ++ bs).map fun l : LeafSpend => l.state.pool_value).sum ≤ 0 := by
      refine hz.mpr fun l' hl' => hall l' ?_ (hother l' hl')
      rcases List.mem_append.mp hl' with h | h
      · exact List.mem_append_left _ h
      · exact List.mem_append_right _ (List.mem_cons_of_mem _ h)
    omega

theorem Consolidation.pool_nonneg {e : Engine} {tx : Tx} {c : PayoutShard.Contract}
    {s : PayoutShard.State} {psIdx : Nat} {i j : Int} {leaves : List LeafSpend}
    (h : Consolidation e tx c s psIdx i j leaves) : ∀ l ∈ leaves, 0 ≤ l.state.pool_value := by
  intro l hl
  obtain ⟨leafIn, -, hv⟩ := h.leafValue l hl
  omega

/-- Everything hangs on the one input that `absorb` adds to the pool. -/
theorem Consolidation.lossless_iff_shard {e : Engine} {tx : Tx} {c : PayoutShard.Contract}
    {s : PayoutShard.State} {psIdx : Nat} {i j : Int} {leaves : List LeafSpend}
    (h : Consolidation e tx c s psIdx i j leaves) :
    ∃ shard, tx.input j = some shard ∧
      (Lossless tx psIdx i leaves ↔ poolSum leaves ≤ shard.value) := by
  obtain ⟨s', hs⟩ := h.absorbed
  obtain ⟨-, shard, hj, rfl, -, out, ho, hv⟩ := (PayoutShard.absorb_eq_some i64_lawful).mp hs
  obtain ⟨psIn, hps, hval, -⟩ := h.payoutShard
  dsimp only at hv
  refine ⟨shard, hj, ?_, ?_⟩
  · rintro ⟨psIn', out', hps', ho', hle⟩
    rw [hps] at hps'
    rw [ho] at ho'
    obtain rfl := Option.some.inj hps'
    obtain rfl := Option.some.inj ho'
    omega
  · intro hle
    exact ⟨psIn, out, hps, ho, by omega⟩

/-- **When a consolidation loses nothing**, whatever the indices its spenders chose. -/
theorem lossless_iff {e : Engine} {tx : Tx} {c : PayoutShard.Contract} {s : PayoutShard.State}
    {psIdx : Nat} {selfOutIdx shardInIdx : Int} {leaves : List LeafSpend}
    (h : Consolidation e tx c s psIdx selfOutIdx shardInIdx leaves) :
    Lossless tx psIdx selfOutIdx leaves ↔ OneShard tx shardInIdx leaves := by
  obtain ⟨shard, hj, hiff⟩ := h.lossless_iff_shard
  rw [hiff]
  have hd := (List.nodup_cons.mp h.distinct).2
  by_cases hleaf : ∃ l ∈ leaves, shardInIdx = l.inIdx
  · obtain ⟨l, hl, rfl⟩ := hleaf
    obtain ⟨leafIn, hin, hv⟩ := h.leafValue l hl
    rw [Tx.input, atIndex_natCast, hin] at hj
    obtain rfl := Option.some.inj hj
    have hone := poolSum_le_iff hl h.pool_nonneg hd
    rw [hv, hone]
    constructor
    · intro hz
      exact Or.inl ⟨⟨l, hl, rfl⟩, fun l' hl' hne => hz l' hl' fun he => hne (by rw [he])⟩
    · rintro (⟨-, hz⟩ | ⟨hno, -⟩)
      · exact fun l' hl' hne => hz l' hl' fun he => hne (by exact_mod_cast he)
      · exact absurd rfl (hno l hl)
  · have hno : ∀ l ∈ leaves, shardInIdx ≠ l.inIdx := fun l hl he => hleaf ⟨l, hl, he⟩
    constructor
    · exact fun hle => Or.inr ⟨hno, shard, hj, hle⟩
    · rintro (⟨hyes, -⟩ | ⟨-, shard', hj', hle⟩)
      · exact absurd hyes hleaf
      · rw [hj] at hj'
        obtain rfl := Option.some.inj hj'
        exact hle

/-! ### Two shards, one output

Both shards and the `PayoutShard` accept the first output, which takes in one shard; the pool of
the other leaves by the second output. -/

def sampleCov : Bytes32 := List.Vector.replicate 32 7

def sampleShard : ShardLeaf.Contract where
  market_id := ZERO32
  ps_tmpl_hash := ZERO32
  shard_pool_id := ZERO32
  seal_count := 32
  min_bet := 100000
  payout_cov_id := sampleCov
  deadline := 1783500000
  template := { templatePrefix := [0x6b], templateSuffix := [0xac] }

def sampleShardState : ShardLeaf.State where
  local_yes := 300000
  local_no := 200000
  count := 2
  pool_value := 500000

/-- The shard at input `i`, pointed at the `PayoutShard` and its continuation. -/
def sampleLeafSpend (i : Nat) : LeafSpend where
  inIdx := i
  contract := sampleShard
  state := sampleShardState
  psInIdx := 0
  psOutIdx := 0

def sampleAbsorbed : PayoutShard.State :=
  { PayoutShard.sampleMinted with consolidated_pool := 20500000 }

def sampleTwoShardTx : Tx where
  inputs := [{ value := 20000000, scriptPubKey := [], covenantId := some sampleCov },
    { value := 500000, scriptPubKey := [], covenantId := none },
    { value := 500000, scriptPubKey := [], covenantId := none }]
  outputs := [covenantOutput sampleEngine PayoutShard.sampleContract.template
      sampleAbsorbed.fields 20500000 (some sampleCov),
    { value := 500000, scriptPubKey := ScriptPubKeyP2PK (samplePk 9),
      covenantId := none }]
  lockTime := 1783500000000

theorem sample_consolidation :
    Consolidation sampleEngine sampleTwoShardTx PayoutShard.sampleContract
      PayoutShard.sampleMinted 0 0 1 [sampleLeafSpend 1, sampleLeafSpend 2] := by
  have hleaf : ∀ l ∈ [sampleLeafSpend 1, sampleLeafSpend 2],
      l = sampleLeafSpend 1 ∨ l = sampleLeafSpend 2 := by
    intro l hl
    simpa using hl
  have hconsolidated : ShardLeaf.consolidate_to_payout i64 sampleShard sampleShardState
      sampleTwoShardTx 0 0 = some () :=
    ShardLeaf.consolidate_eq_some.mpr ⟨Or.inr ⟨by decide, by decide⟩, by decide, _, _, rfl, rfl,
      rfl, rfl, rfl⟩
  refine ⟨⟨_, rfl, rfl, ?_⟩, ⟨sampleAbsorbed, ?_⟩, ?_, ?_, by decide⟩
  · intro l hl
    rcases hleaf l hl with rfl | rfl <;> rfl
  · have hfit : ∀ f ∈ sampleAbsorbed.fields, f.Fits :=
      PayoutShard.fields_fit (by decide) (by decide) wordsOk_zero
    exact (PayoutShard.absorb_eq_some i64_lawful).mpr ⟨rfl, _, rfl, rfl,
      Tx.continues_covenantOutput hfit rfl, _, rfl, rfl⟩
  · intro l hl
    rcases hleaf l hl with rfl | rfl
    · exact ⟨_, rfl, rfl⟩
    · exact ⟨_, rfl, rfl⟩
  · intro l hl
    rcases hleaf l hl with rfl | rfl <;> exact hconsolidated

theorem lossless_iff_sample :
    Lossless sampleTwoShardTx 0 0 [sampleLeafSpend 1, sampleLeafSpend 2] ↔
      OneShard sampleTwoShardTx 1 [sampleLeafSpend 1, sampleLeafSpend 2] :=
  lossless_iff sample_consolidation

/-- All three scripts accept, the outputs are worth what the inputs are, and half a million sompi
of the second shard are gone. -/
theorem two_shards_not_lossless :
    Consolidation sampleEngine sampleTwoShardTx PayoutShard.sampleContract
      PayoutShard.sampleMinted 0 0 1 [sampleLeafSpend 1, sampleLeafSpend 2] ∧
    (sampleTwoShardTx.outputs.map TxOutput.value).sum =
      (sampleTwoShardTx.inputs.map TxInput.value).sum ∧
    ¬ Lossless sampleTwoShardTx 0 0 [sampleLeafSpend 1, sampleLeafSpend 2] := by
  refine ⟨sample_consolidation, by decide, ?_⟩
  rintro ⟨psIn, out, hps, ho, hle⟩
  obtain rfl := Option.some.inj hps
  obtain rfl := Option.some.inj ho
  exact absurd hle (by decide)

end KANet.Covenant
