import KANet.Covenant.Nullifier

/-!
# `ShardLeaf.sil`

A shard of a market's bets.  Bets are appended to it one at a time, each with a ticket
for the bettor, and once the shard is full or the deadline has passed its whole pool
goes to the market's `PayoutShard`, which it recognises by covenant id.

`register_append` continues the shard and returns its next state.
`consolidate_to_payout` ends it: it only checks the transaction.
-/

namespace KANet.Covenant.ShardLeaf

open KANet.Lib KANet.Script

/-- The constructor arguments that stay fixed. -/
structure Contract where
  market_id : Bytes32
  ps_tmpl_hash : Bytes32
  shard_pool_id : Bytes32
  seal_count : Int
  min_bet : Int
  payout_cov_id : Bytes32
  deadline : Int
  template : Template

structure State where
  local_yes : Int
  local_no : Int
  count : Int
  pool_value : Int
deriving DecidableEq

/-- The state in the order of its fields. -/
def State.fields (s : State) : List Field :=
  [.int s.local_yes, .int s.local_no, .int s.count, .int s.pool_value]

/-- The ticket a bet is given, in the order of its fields. -/
def ticketFields (c : Contract) (bettorPk : Bytes32) (side stake : Int) : List Field :=
  [.byte32 bettorPk, .int side, .int stake, .byte32 c.shard_pool_id]

/-- What the spender of `register_append` supplies. -/
structure RegisterWitness where
  side : Int
  stake : Int
  leafOutIdx : Int
  psOutIdx : Int
  bettorPk : Bytes32
  ps_template : Template

/-! ### The entries -/

def register_append (e : Engine) (ar : Arith) (c : Contract) (s : State) (tx : Tx)
    (wit : RegisterWitness) : Option State := do
  require (s.count < c.seal_count)
  require (wit.side = 0 ∨ wit.side = 1)
  require (c.min_bet ≤ wit.stake)
  validateOutputStateWithTemplate e tx wit.psOutIdx
    (ticketFields c wit.bettorPk wit.side wit.stake) wit.ps_template c.ps_tmpl_hash
  let yes ← ar (wit.stake * (1 - wit.side))
  let local_yes ← ar (s.local_yes + yes)
  let no ← ar (wit.stake * wit.side)
  let local_no ← ar (s.local_no + no)
  let count ← ar (s.count + 1)
  let pool_value ← ar (s.pool_value + wit.stake)
  let next : State := { local_yes, local_no, count, pool_value }
  validateOutputState e c.template tx wit.leafOutIdx next.fields
  requireOutputValue tx wit.leafOutIdx pool_value
  some next

/-- A shard that is not full waits for the deadline, baked in seconds. -/
def requireDue (ar : Arith) (c : Contract) (s : State) (tx : Tx) : Option Unit :=
  if s.count ≠ c.seal_count then do
    let due ← ar (c.deadline * 1000)
    require (due ≤ tx.lockTime)
  else some ()

def consolidate_to_payout (ar : Arith) (c : Contract) (s : State) (tx : Tx)
    (psInIdx psOutIdx : Int) : Option Unit := do
  requireDue ar c s tx
  let ps_cov ← OpInputCovenantId tx psInIdx
  require (ps_cov = c.payout_cov_id)
  require (1 ≤ OpCovOutputCount tx ps_cov)
  let out_cov ← OpOutputCovenantId tx psOutIdx
  require (out_cov = c.payout_cov_id)
  let psIn ← tx.input psInIdx
  let total ← ar (psIn.value + s.pool_value)
  requireOutputValue tx psOutIdx total

/-! ### What each entry accepts -/

/-- The shard is full, or its deadline has passed. -/
def Due (c : Contract) (s : State) (tx : Tx) : Prop :=
  s.count = c.seal_count ∨ (Fits 8 (c.deadline * 1000) ∧ c.deadline * 1000 ≤ tx.lockTime)

theorem requireDue_eq_some {c : Contract} {s : State} {tx : Tx} {u : Unit} :
    requireDue i64 c s tx = some u ↔ Due c s tx := by
  unfold requireDue Due
  by_cases h : s.count = c.seal_count
  · simp [h]
  · simp only [ne_eq, h, not_false_eq_true, if_true, false_or, Option.bind_eq_bind,
      Option.bind_eq_some_iff, require_eq_some]
    constructor
    · rintro ⟨due, hd, hle⟩
      obtain rfl := i64_exact _ _ hd
      unfold i64 at hd
      split at hd
      · exact ⟨‹_›, hle⟩
      · cases hd
    · rintro ⟨hf, hle⟩
      exact ⟨_, i64_of_fits hf, hle⟩

/-- **What a consolidation checks**: the covenant on both sides, and the value of one output. -/
theorem consolidate_eq_some {c : Contract} {s : State} {tx : Tx} {i j : Int} {u : Unit} :
    consolidate_to_payout i64 c s tx i j = some u ↔
      Due c s tx ∧ 1 ≤ OpCovOutputCount tx c.payout_cov_id ∧
        ∃ psIn psOut, tx.input i = some psIn ∧ tx.output j = some psOut ∧
          psIn.covenantId.getD ZERO32 = c.payout_cov_id ∧
          psOut.covenantId.getD ZERO32 = c.payout_cov_id ∧
          (psOut.value : Int) = psIn.value + s.pool_value := by
  simp only [consolidate_to_payout, Option.bind_eq_bind, Option.bind_eq_some_iff, require_eq_some,
    exists_const, requireDue_eq_some, OpInputCovenantId, OpOutputCovenantId,
    Option.map_eq_some_iff, requireOutputValue_eq_some]
  constructor
  · rintro ⟨hdue, _, ⟨psIn, hi, rfl⟩, hin, hcount, _, ⟨psOut, hj, rfl⟩, hout, psIn', hi', total,
      ht, hpay⟩
    rw [hi] at hi'
    obtain rfl := Option.some.inj hi'
    obtain rfl := i64_exact _ _ ht
    exact ⟨hdue, hin ▸ hcount, psIn, psOut, hi, hj, hin, hout,
      Tx.Pays.value_eq ⟨psOut, hj, rfl⟩ hpay⟩
  · rintro ⟨hdue, hcount, psIn, psOut, hi, hj, hin, hout, hv⟩
    have hpay : tx.Pays j (psIn.value + s.pool_value) := ⟨psOut, hj, hv⟩
    have hb := hpay.bounds
    refine ⟨hdue, _, ⟨psIn, hi, rfl⟩, hin, hin ▸ hcount, _, ⟨psOut, hj, rfl⟩, hout, psIn, hi,
      _, ?_, hpay⟩
    exact i64_of_fits (fits_eight.mpr ⟨by omega, hb.2⟩)

end KANet.Covenant.ShardLeaf
