import KANet.Lib.Ledger
import KANet.Lib.Refuse
import KANet.Settle.Consolidate

/-!
# `autoDetectConsolidateResume`

A consolidation that was interrupted has spent some shards that the database still lists.  The
settler finds where it was by the coins it sees: it computes the address the `PayoutShard` would
have after each shard, and takes the first address that holds exactly one coin, worth exactly the
pool.

Anybody can pay to these addresses.

* `consolidateAllShardsOn` — the settler, on a ledger.
* `autoDetect_eq_none`, `autoDetect_eq_some`, `detectFrom_eq_some` — what it finds.
-/

namespace KANet.Settle

open KANet.Lib KANet.Script KANet.Covenant

/-! ### The settler on a ledger -/

inductive ResumeError
  | settle (err : SettleError)
  | utxoNotFound (shard_index : Nat)

/-- The address of a `PayoutShard` that has taken in a pool. -/
def psScript (env : Env) (pool : Int) : Bytes :=
  (covenantOutput env.engine env.payoutShard.template (psState pool).fields 0 none).scriptPubKey

def getUtxos (l : Ledger TxInput) (script : Bytes) : List (Unspent TxInput) :=
  l.unspent.filter fun u => u.coin.scriptPubKey = script

/-- `_matchUtxo`: the coin at an address under an outpoint. -/
def matchUtxo (l : Ledger TxInput) (script : Bytes) (o : Outpoint) : Option (Unspent TxInput) :=
  l.find (fun coin => coin.scriptPubKey = script) o

/-- The ledger, and the shards whose leaf a consolidation has spent. -/
structure Chain where
  ledger : Ledger TxInput
  consolidated : List Nat

/-- Where the settler takes the `PayoutShard` to be, and the pool in its script. -/
structure Tip where
  outpoint : Outpoint
  pool : Int

section

variable (env : Env) (leafOutpoint : Nat → Outpoint)

/-- One turn of the loop: the coins are looked up and spent, and the next `PayoutShard` is made. -/
def consolidateOn (lockTime : Nat) (s : Tip × Chain) (row : ShardRow) :
    Except ResumeError (Tip × Chain) := do
  check (row.shard_redeem.isSome ∧ row.current_leaf_state.isSome)
    (.settle (.missingRedeemOrState row.shard_index))
  let ps ← orRefuse (matchUtxo s.2.ledger (psScript env s.1.pool) s.1.outpoint)
    (.utxoNotFound row.shard_index)
  let leaf ← orRefuse (matchUtxo s.2.ledger row.leafCoin.scriptPubKey
    (leafOutpoint row.shard_index)) (.utxoNotFound row.shard_index)
  let next ← (consolidateShard env lockTime ⟨ps.coin, s.1.pool⟩
    { row with leafCoin := leaf.coin }).mapError .settle
  .ok (⟨s.2.ledger.nextOutpoint, next.consolidated_pool⟩,
    { ledger := s.2.ledger.post [ps.outpoint, leaf.outpoint] next.coin
      consolidated := s.2.consolidated ++ [row.shard_index] })

/-- The coin at an address, if it is alone there and worth the amount. -/
def soleExact (l : Ledger TxInput) (script : Bytes) (amount : Int) : Option (Unspent TxInput) :=
  match getUtxos l script with
  | [u] => if (u.coin.value : Int) = amount then some u else none
  | _ => none

structure Resume where
  fromShardIdx : Nat
  tip : Tip

def leafPool (row : ShardRow) : Int := row.current_leaf_state.elim 0 ShardLeaf.State.pool_value

/-- From a pool on, the first shard after which there is a coin of the `PayoutShard`'s. -/
def detectFrom (l : Ledger TxInput) (pool : Int) : List ShardRow → Option Resume
  | [] => none
  | row :: rows =>
    match soleExact l (psScript env (pool + leafPool row)) (pool + leafPool row) with
    | some u => some ⟨row.shard_index + 1, ⟨u.outpoint, pool + leafPool row⟩⟩
    | none => detectFrom l (pool + leafPool row) rows

def autoDetectConsolidateResume (l : Ledger TxInput) (genesisPool : Int) (rows : List ShardRow) :
    Option Resume :=
  if (soleExact l (psScript env genesisPool) genesisPool).isSome then none
  else detectFrom env l genesisPool (settledRows rows)

/-- The shards that are still to be taken in. -/
def remaining (resume : Option Resume) (rows : List ShardRow) : List ShardRow :=
  match resume with
  | some r => (settledRows rows).filter fun row => r.fromShardIdx ≤ row.shard_index
  | none => settledRows rows

/-- `consolidateAllShards`, from the `PayoutShard` in the database or from the one that is found. -/
def consolidateAllShardsOn (deadline : Nat) (genesis : Tip) (chain : Chain)
    (rows : List ShardRow) : Except ResumeError (Tip × Chain) := do
  let resume := autoDetectConsolidateResume env chain.ledger genesis.pool rows
  check (deadline ≠ 0) (.settle .deadlineRequired)
  (remaining resume rows).foldlM (consolidateOn env leafOutpoint (deadline * 1000))
    (resume.elim genesis Resume.tip, chain)

end

/-! ### What is found -/

variable {env : Env} {leafOutpoint : Nat → Outpoint}

theorem matchUtxo_eq_some {l : Ledger TxInput} {script : Bytes} {o : Outpoint}
    {u : Unspent TxInput} :
    matchUtxo l script o = some u ↔
      u ∈ l.unspent ∧ u.coin.scriptPubKey = script ∧ u.outpoint = o := by
  rw [matchUtxo, Ledger.find_eq_some, decide_eq_true_eq]

theorem mem_getUtxos {l : Ledger TxInput} {script : Bytes} {u : Unspent TxInput} :
    u ∈ getUtxos l script ↔ u ∈ l.unspent ∧ u.coin.scriptPubKey = script := by
  rw [getUtxos, List.mem_filter, decide_eq_true_eq]

theorem soleExact_eq_some {l : Ledger TxInput} {script : Bytes} {amount : Int}
    {u : Unspent TxInput} :
    soleExact l script amount = some u ↔
      getUtxos l script = [u] ∧ (u.coin.value : Int) = amount := by
  unfold soleExact
  split
  · next v hv =>
    rw [hv]
    by_cases h : (v.coin.value : Int) = amount
    · rw [if_pos h, Option.some.injEq, List.cons.injEq, and_iff_left rfl]
      constructor
      · intro he
        exact ⟨he, he ▸ h⟩
      · exact fun he => he.1
    · rw [if_neg h, List.cons.injEq]
      refine ⟨nofun, ?_⟩
      intro he
      obtain ⟨⟨rfl, -⟩, hv⟩ := he
      exact absurd hv h
  · next hno =>
    refine ⟨nofun, ?_⟩
    intro he
    exact absurd he.1 (hno u)

/-- The pool once some shards are in. -/
def poolAfter (pool : Int) (rows : List ShardRow) : Int := pool + (rows.map leafPool).sum

theorem poolAfter_nil (pool : Int) : poolAfter pool [] = pool := by
  rw [poolAfter, List.map_nil, List.sum_nil, add_zero]

theorem poolAfter_cons (pool : Int) (row : ShardRow) (rows : List ShardRow) :
    poolAfter pool (row :: rows) = poolAfter (pool + leafPool row) rows := by
  rw [poolAfter, poolAfter, List.map_cons, List.sum_cons, add_assoc]

/-- The coin that would be taken for the `PayoutShard` after some shards. -/
def candidate (env : Env) (l : Ledger TxInput) (pool : Int) (rows : List ShardRow) :
    Option (Unspent TxInput) :=
  soleExact l (psScript env (poolAfter pool rows)) (poolAfter pool rows)

/-- Nothing is found after any of the shards. -/
theorem detectFrom_eq_none {l : Ledger TxInput} {pool : Int} {rows : List ShardRow} :
    detectFrom env l pool rows = none ↔
      ∀ p q, rows = p ++ q → p ≠ [] → candidate env l pool p = none := by
  induction rows generalizing pool with
  | nil =>
    refine ⟨fun _ p q h hp => ?_, fun _ => rfl⟩
    exact absurd (List.append_eq_nil_iff.mp h.symm).1 hp
  | cons row rows ih =>
    have hone : candidate env l pool [row] =
        soleExact l (psScript env (pool + leafPool row)) (pool + leafPool row) := by
      rw [candidate, poolAfter_cons, poolAfter_nil]
    rw [detectFrom, ← hone]
    cases hc : candidate env l pool [row] with
    | some u =>
      refine ⟨nofun, fun h => ?_⟩
      have := h [row] rows rfl (List.cons_ne_nil _ _)
      rw [hc] at this
      cases this
    | none =>
      show detectFrom env l (pool + leafPool row) rows = none ↔ _
      rw [ih]
      constructor
      · intro h p q hpq hp
        cases p with
        | nil => exact absurd rfl hp
        | cons r p =>
          obtain ⟨rfl, hrest⟩ := List.cons.inj hpq
          cases p with
          | nil => exact hc
          | cons r' p =>
            have := h (r' :: p) q hrest (List.cons_ne_nil _ _)
            rwa [candidate, ← poolAfter_cons] at this
      · intro h p q hpq hp
        have := h (row :: p) q (by rw [hpq]; rfl) (List.cons_ne_nil _ _)
        rwa [candidate, poolAfter_cons] at this

/-- **What is found**: the first of the shards after which there is a candidate. -/
theorem detectFrom_eq_some {l : Ledger TxInput} {pool : Int} {rows : List ShardRow} {r : Resume} :
    detectFrom env l pool rows = some r ↔
      ∃ p row q u, rows = p ++ row :: q ∧
        (∀ p' q', p = p' ++ q' → p' ≠ [] → candidate env l pool p' = none) ∧
          candidate env l pool (p ++ [row]) = some u ∧
            r = ⟨row.shard_index + 1, ⟨u.outpoint, poolAfter pool (p ++ [row])⟩⟩ := by
  induction rows generalizing pool with
  | nil =>
    refine ⟨nofun, ?_⟩
    intro h
    obtain ⟨p, row, q, u, h, -⟩ := h
    exact absurd h.symm (List.append_ne_nil_of_right_ne_nil _ (List.cons_ne_nil _ _))
  | cons row rows ih =>
    have hone : candidate env l pool [row] =
        soleExact l (psScript env (pool + leafPool row)) (pool + leafPool row) := by
      rw [candidate, poolAfter_cons, poolAfter_nil]
    have hpool : poolAfter pool [row] = pool + leafPool row := by
      rw [poolAfter_cons, poolAfter_nil]
    rw [detectFrom, ← hone]
    cases hc : candidate env l pool [row] with
    | some u =>
      show some _ = some r ↔ _
      rw [Option.some.injEq]
      constructor
      · intro hr
        refine ⟨[], row, rows, u, rfl, ?_, hc, ?_⟩
        · intro p' q' h hp'
          exact absurd (List.append_eq_nil_iff.mp h.symm).1 hp'
        · rw [← hr, List.nil_append, hpool]
      · intro h
        obtain ⟨p, row', q, u', hsplit, hnone, hu', rfl⟩ := h
        cases p with
        | nil =>
          obtain ⟨rfl, -⟩ := List.cons.inj hsplit
          rw [List.nil_append, hc, Option.some.injEq] at hu'
          rw [List.nil_append, hpool, hu']
        | cons r' p =>
          obtain ⟨rfl, -⟩ := List.cons.inj hsplit
          have := hnone [row] p rfl (List.cons_ne_nil _ _)
          rw [hc] at this
          cases this
    | none =>
      show detectFrom env l (pool + leafPool row) rows = some r ↔ _
      rw [ih]
      constructor
      · intro h
        obtain ⟨p, row', q, u, rfl, hnone, hu, rfl⟩ := h
        refine ⟨row :: p, row', q, u, rfl, ?_, ?_, ?_⟩
        · intro p' q' hp hne
          cases p' with
          | nil => exact absurd rfl hne
          | cons r' p' =>
            obtain ⟨rfl, hrest⟩ := List.cons.inj hp
            cases p' with
            | nil => exact hc
            | cons r'' p' =>
              have := hnone (r'' :: p') q' hrest (List.cons_ne_nil _ _)
              rwa [candidate, ← poolAfter_cons] at this
        · rwa [List.cons_append, candidate, poolAfter_cons]
        · rw [List.cons_append, poolAfter_cons]
      · intro h
        obtain ⟨p, row', q, u, hsplit, hnone, hu, rfl⟩ := h
        cases p with
        | nil =>
          obtain ⟨rfl, -⟩ := List.cons.inj hsplit
          rw [List.nil_append, hc] at hu
          cases hu
        | cons r' p =>
          obtain ⟨rfl, rfl⟩ := List.cons.inj hsplit
          refine ⟨p, row', q, u, rfl, ?_, ?_, ?_⟩
          · intro p' q' hp hne
            have := hnone (row :: p') q' (by rw [hp]; rfl) (List.cons_ne_nil _ _)
            rwa [candidate, poolAfter_cons] at this
          · rwa [List.cons_append, candidate, poolAfter_cons] at hu
          · rw [List.cons_append, poolAfter_cons]

theorem autoDetect_eq_none {l : Ledger TxInput} {pool : Int} {rows : List ShardRow} :
    autoDetectConsolidateResume env l pool rows = none ↔
      candidate env l pool [] ≠ none ∨ detectFrom env l pool (settledRows rows) = none := by
  rw [autoDetectConsolidateResume, candidate, poolAfter_nil]
  cases soleExact l (psScript env pool) pool with
  | none => exact ⟨Or.inr, fun h => h.resolve_left fun h => h rfl⟩
  | some u => exact ⟨fun _ => Or.inl nofun, fun _ => rfl⟩

theorem autoDetect_eq_some {l : Ledger TxInput} {pool : Int} {rows : List ShardRow}
    {r : Resume} :
    autoDetectConsolidateResume env l pool rows = some r ↔
      candidate env l pool [] = none ∧ detectFrom env l pool (settledRows rows) = some r := by
  rw [autoDetectConsolidateResume, candidate, poolAfter_nil]
  cases soleExact l (psScript env pool) pool with
  | none => exact ⟨fun h => ⟨rfl, h⟩, fun h => h.2⟩
  | some u => exact ⟨nofun, fun h => absurd h.1 nofun⟩

end KANet.Settle
