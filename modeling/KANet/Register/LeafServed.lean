import KANet.Register.LeafBuilder
import Mathlib.Algebra.Order.BigOperators.Group.List

/-!
# A leaf that the console fills

One bet after another goes to the relay.  Once its transaction has landed, the row of the shard has
the state that was sent.

* `Served` — one bet.
* `bets_fill_leaf` — what was served is a run of the covenant.
-/

namespace KANet.Register

open KANet.Lib KANet.Script KANet.Covenant

/-- A bet, and the transaction that the relay submitted for it. -/
structure LeafBet where
  bettorPk : Bytes32
  direction : Int
  stakeSompi : Int
  regTx : String
  tx : Tx

/-- What the covenant is shown for a bet. -/
def LeafBet.action (ps : PsArtifact) (b : LeafBet) : ShardLeaf.RegisterWitness × Tx :=
  ({ side := b.direction, stake := b.stakeSompi, leafOutIdx := 0, psOutIdx := 1,
     bettorPk := b.bettorPk, ps_template := ps.template }, b.tx)

/-- The command is sent, the transaction has the relay's outputs, and the row follows. -/
def Served (e : Engine) (shardPoolId : Bytes32) (ps : PsArtifact) (row : LeafRow) (b : LeafBet)
    (row' : LeafRow) : Prop :=
  ∃ cmd leaf ticket,
    registerCommand e row shardPoolId b.bettorPk b.direction b.stakeSompi ps = .ok cmd ∧
      relayOutputs e cmd = some (leaf, ticket) ∧
        b.tx.output 0 = some leaf ∧ b.tx.output 1 = some ticket ∧
          row' = { row with current_leaf_outpoint := b.regTx ++ ":0",
                            current_leaf_state := cmd.leafContinuation }

variable {e : Engine} {c : ShardLeaf.Contract} {ps : PsArtifact} {row row' : LeafRow}
  {as : List (ShardLeaf.RegisterWitness × Tx)} {u : ShardLeaf.Coin}

/-- No more bets than sompi. -/
theorem count_le_pool (hc : Compiled c) (h : Run (ShardLeaf.Step e c) ShardLeaf.genesis as u) :
    u.state.count ≤ u.state.pool_value := by
  have keep : ∀ (u : ShardLeaf.Coin) a u', u.state.count ≤ u.state.pool_value →
      ShardLeaf.Step e c u a u' → u'.state.count ≤ u'.state.pool_value := by
    intro u a u' hi hstep
    obtain ⟨-, -, hmin, -⟩ := ShardLeaf.register_append_eq_some.mp hstep.1
    rw [hc.min_bet, MIN_BET] at hmin
    rw [hstep.state_eq]
    show u.state.count + 1 ≤ u.state.pool_value + a.1.stake
    omega
  exact h.invariant keep (le_refl _)

/-- The next sums are doubles, where the pool is. -/
theorem doubles_bump (hc : Compiled c) (h : Run (ShardLeaf.Step e c) ShardLeaf.genesis as u)
    {side stake : Int} (hside : side = 0 ∨ side = 1) (hbet : MIN_BET ≤ stake)
    (hpool : u.state.pool_value + stake < 2 ^ 53) : Doubles (u.state.bump side stake) := by
  obtain ⟨hyes, hno, hcount⟩ := ShardLeaf.nonNeg (hc.min_bet ▸ by decide) h
  have hsides := (ShardLeaf.accounts h).sides
  have hle := count_le_pool hc h
  rw [MIN_BET] at hbet
  refine doubles_of_lt ?_ ?_ hpool ?_
  · rcases hside with rfl | rfl <;> constructor <;> simp only [ShardLeaf.State.bump] <;> omega
  · rcases hside with rfl | rfl <;> simp only [ShardLeaf.State.bump] <;> omega
  · show u.state.count + 1 < 2 ^ 53
    omega

/-- **A bet that is served is a step of the covenant**, and the row keeps up. -/
theorem Served.step (hc : Compiled c) (hps : ps.templateHash = c.ps_tmpl_hash) {b : LeafBet}
    (hserved : Served e c.shard_pool_id ps row b row')
    (h : Run (ShardLeaf.Step e c) ShardLeaf.genesis as u) (ht : Tracks c row u.state)
    (hroom : u.state.count < c.seal_count) (hbet : MIN_BET ≤ b.stakeSompi)
    (hpool : u.state.pool_value + b.stakeSompi < 2 ^ 53) :
    ∃ u', ShardLeaf.Step e c u (b.action ps) u' ∧ Tracks c row' u'.state := by
  obtain ⟨cmd, leaf, ticket, hcmd, hout, h₀, h₁, rfl⟩ := hserved
  have hpos := (ShardLeaf.nonNeg (hc.min_bet ▸ by decide) h).pool (ShardLeaf.accounts h)
  obtain ⟨hdir, -, -, -, _, -, hcmd'⟩ := registerCommand_eq_ok.mp hcmd
  have hnum : toNumber b.stakeSompi = b.stakeSompi := by
    rw [MIN_BET] at hbet
    exact toNumber_of_lt (by omega)
  have hwit : cmd.witness = (b.action ps).1 := by
    rw [hcmd', hnum]
    rfl
  have hstep := relay_registers h hc ht hcmd hps hroom (hwit ▸ hbet)
    (hwit ▸ doubles_bump hc h hdir hbet hpool) hout h₀ h₁
  exact ⟨_, hwit ▸ hstep, ht.born, rfl⟩

/-- What is served from a leaf that was reached. -/
theorem served_run (hc : Compiled c) (hps : ps.templateHash = c.ps_tmpl_hash) {bs : List LeafBet}
    (hserved : Run (Served e c.shard_pool_id ps) row bs row')
    (h : Run (ShardLeaf.Step e c) ShardLeaf.genesis as u) (ht : Tracks c row u.state)
    (hroom : u.state.count + bs.length ≤ c.seal_count) (hbet : ∀ b ∈ bs, MIN_BET ≤ b.stakeSompi)
    (hsum : u.state.pool_value + (bs.map LeafBet.stakeSompi).sum < 2 ^ 53) :
    ∃ u', Run (ShardLeaf.Step e c) u (bs.map (LeafBet.action ps)) u' ∧ Tracks c row' u'.state := by
  induction hserved generalizing as u with
  | nil row => exact ⟨u, .nil u, ht⟩
  | @cons row m row' b bs hb _ ih =>
    obtain ⟨hmin, hrest⟩ := List.forall_mem_cons.mp hbet
    have hnn : 0 ≤ (bs.map LeafBet.stakeSompi).sum := by
      refine List.sum_nonneg (List.forall_mem_map.mpr fun b' hb' => ?_)
      exact le_trans (by decide) (hrest b' hb')
    rw [List.map_cons, List.sum_cons] at hsum
    rw [List.length_cons, Nat.cast_succ] at hroom
    obtain ⟨u₁, hstep, ht₁⟩ := hb.step hc hps h ht (by omega) hmin (by omega)
    have hcount : u₁.state.count = u.state.count + 1 := by rw [hstep.state_eq]; rfl
    have hpool : u₁.state.pool_value = u.state.pool_value + b.stakeSompi := by
      rw [hstep.state_eq]
      rfl
    obtain ⟨u', hrun, ht'⟩ :=
      ih (h.append (.single hstep)) ht₁ (by omega) hrest (by omega)
    exact ⟨u', .cons hstep hrun, ht'⟩

/-- **The bets that the console and the relay serve are a run of the covenant**, and the row has
its state. -/
theorem bets_fill_leaf (hc : Compiled c) (hps : ps.templateHash = c.ps_tmpl_hash)
    (ht : Tracks c row ShardLeaf.genesis.state) {bs : List LeafBet}
    (h : Run (Served e c.shard_pool_id ps) row bs row') (hroom : bs.length ≤ c.seal_count)
    (hbet : ∀ b ∈ bs, MIN_BET ≤ b.stakeSompi)
    (hsum : (bs.map LeafBet.stakeSompi).sum < 2 ^ 53) :
    ∃ u, Run (ShardLeaf.Step e c) ShardLeaf.genesis (bs.map (LeafBet.action ps)) u ∧
      Tracks c row' u.state ∧ u.state.count = bs.length ∧
        u.state.pool_value = (bs.map LeafBet.stakeSompi).sum := by
  obtain ⟨u, hrun, ht'⟩ := served_run hc hps h (.nil _) ht
    (by rwa [show ShardLeaf.genesis.state.count = 0 from rfl, zero_add]) hbet
    (by rwa [show ShardLeaf.genesis.state.pool_value = 0 from rfl, zero_add])
  obtain ⟨-, hpool, hcount, -⟩ := ShardLeaf.accounts hrun
  rw [List.length_map] at hcount
  rw [ShardLeaf.stakes, List.map_map] at hpool
  exact ⟨u, hrun, ht', hcount, hpool⟩

/-- A first bet. -/
def firstBet : LeafBet where
  bettorPk := samplePk 3
  direction := 1
  stakeSompi := 150000
  regTx := "leaf"
  tx := sampleTx (sampleOutputs ShardLeaf.genesis.state 1 150000 1)
    (sampleOutputs_bounded _ (by decide))

theorem bets_fill_leaf_first : ∃ u, Run (ShardLeaf.Step sampleEngine sampleLeaf) ShardLeaf.genesis
    [firstBet.action sampleArtifact] u ∧ u.state.pool_value = 150000 := by
  have hcmd := @sample_command ShardLeaf.genesis.state 1 150000 (Or.inr rfl) (by decide)
    (by decide) (by decide)
  have hserved : Served sampleEngine (samplePk 1) sampleArtifact (sampleRow ShardLeaf.genesis.state)
      firstBet _ := ⟨_, _, _, hcmd, rfl, rfl, rfl, rfl⟩
  obtain ⟨u, hrun, -, -, hpool⟩ := bets_fill_leaf sample_compiled rfl (sample_tracks _)
    (.single hserved) (by decide) (by decide) (by decide)
  exact ⟨u, hrun, hpool⟩

end KANet.Register
