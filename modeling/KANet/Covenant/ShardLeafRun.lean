import KANet.Covenant.ShardLeaf
import KANet.Lib.Runs

/-!
# How a shard fills up

A shard is born empty: its state says nothing was staked, and the coin holds a seed
that keeps it above the dust limit.  Every registration after that welds the coin to
the pool.  So a shard with a ticket is worth exactly its pool, and a shard without one
is worth its seed while its pool is zero.
-/

namespace KANet.Covenant.ShardLeaf

open KANet.Lib KANet.Script

def SHARD_GENESIS_SEED : Nat := 20000000

/-- A value locked in a state of the shard. -/
structure Coin where
  value : Nat
  state : State
deriving DecidableEq

/-- The empty shard that is minted before its first bet. -/
def genesis : Coin where
  value := SHARD_GENESIS_SEED
  state := { local_yes := 0, local_no := 0, count := 0, pool_value := 0 }

/-- A registration spends the coin and leaves the one it is continued in. -/
def Step (e : Engine) (c : Contract) (u : Coin) (a : RegisterWitness × Tx) (u' : Coin) : Prop :=
  register_append e i64 c u.state a.2 a.1 = some u'.state ∧
    ∃ out, a.2.output a.1.leafOutIdx = some out ∧ out.value = u'.value

/-- A shard that registrations can reach. -/
def Reachable (e : Engine) (c : Contract) (u : Coin) : Prop :=
  ∃ as, Run (Step e c) genesis as u

theorem register_append_spec {e : Engine} {c : Contract} {s s' : State} {tx : Tx}
    {wit : RegisterWitness} (h : register_append e i64 c s tx wit = some s') :
    s'.count = s.count + 1 ∧ s'.pool_value = s.pool_value + wit.stake ∧
      c.min_bet ≤ wit.stake ∧ tx.Pays wit.leafOutIdx s'.pool_value := by
  simp only [register_append, Option.bind_eq_bind, Option.bind_eq_some_iff, require_eq_some,
    exists_const, requireOutputValue_eq_some, Option.some.injEq] at h
  obtain ⟨-, -, hmin, _, -, _, -, _, -, _, -, _, -, _, hcount, _, hpool, _, -, hpay,
    rfl⟩ := h
  exact ⟨i64_exact _ _ hcount, i64_exact _ _ hpool, hmin, hpay⟩

/-- The coin and its pool: empty and worth the seed, or worth exactly what was staked. -/
structure Inv (u : Coin) : Prop where
  count_nonneg : 0 ≤ u.state.count
  empty : u.state.count = 0 → u = genesis
  welded : 1 ≤ u.state.count → (u.value : Int) = u.state.pool_value

theorem inv_genesis : Inv genesis :=
  ⟨le_refl _, fun _ => rfl, fun h => absurd h (by decide)⟩

theorem Inv.step {e : Engine} {c : Contract} {u u' : Coin} {a : RegisterWitness × Tx}
    (hi : Inv u) (h : Step e c u a u') : Inv u' := by
  obtain ⟨hreg, out, ho, hv⟩ := h
  obtain ⟨hcount, -, -, hpay⟩ := register_append_spec hreg
  have hnn := hi.count_nonneg
  refine ⟨by omega, fun h0 => by omega, fun _ => ?_⟩
  rw [← hv]
  exact Tx.Pays.value_eq ⟨out, ho, rfl⟩ hpay

theorem Reachable.inv {e : Engine} {c : Contract} {u : Coin} (h : Reachable e c u) : Inv u := by
  obtain ⟨as, hr⟩ := h
  exact hr.invariant (fun _ _ _ hi hs => hi.step hs) inv_genesis

/-- **A reachable shard is worth its pool exactly when it has a ticket.** -/
theorem Reachable.value_eq_pool_iff {e : Engine} {c : Contract} {u : Coin}
    (h : Reachable e c u) : (u.value : Int) = u.state.pool_value ↔ 1 ≤ u.state.count := by
  constructor
  · intro hv
    by_contra hlt
    have h0 : u.state.count = 0 := by
      have := h.inv.count_nonneg
      omega
    rw [h.inv.empty h0] at hv
    exact absurd hv (by decide)
  · exact h.inv.welded

end KANet.Covenant.ShardLeaf
