import KANet.Covenant.ShardLeaf

/-!
# `FoldNode.sil` and `PoolLeaf.sil`

The leaves of a market's pool are folded, some at a time, into nodes, and the last node is sealed
into the root.  The two contracts have the same `fold` and `seal_to_root`; a `PoolLeaf` also takes
bets.

`fold` is called under a covenant attribute: the engine hands it the states of the inputs of its
group, and the state of the group's one output, wherever that stands.  The value it compares with
that state is the one of output 0.

* `fold_spec` — what a fold accepts.
* `register_append_spec`, `seal_to_root_spec` — the other two entries.
-/

namespace KANet.Covenant

open KANet.Lib KANet.Script

namespace FoldNode

open ShardLeaf (State)

/-- The constructor arguments that stay fixed. -/
structure Contract where
  market_id : Bytes32
  commit_v2 : Bytes32
  shard_count : Int
  max_fan_in : Int
  root_tmpl_hash : Bytes32
  root_init_payoutRoot : Bytes32
  template : Template

/-! ### The entries -/

/-- One round of the loop over `prev_states`. -/
def addState (ar : Arith) (sum s : State) : Option State := do
  let local_yes ← ar (sum.local_yes + s.local_yes)
  let local_no ← ar (sum.local_no + s.local_no)
  let count ← ar (sum.count + s.count)
  let pool_value ← ar (sum.pool_value + s.pool_value)
  some { local_yes, local_no, count, pool_value }

def noState : State := ⟨0, 0, 0, 0⟩

/-- Once every shard is folded, the sums are those that were committed to. -/
def requireCommit (e : Engine) (c : Contract) (sum : State) : Option Unit := do
  let yes ← num2bin sum.local_yes 8
  let no ← num2bin sum.local_no 8
  let count ← num2bin c.shard_count 4
  require (e.blake2b (yes ++ no ++ c.market_id.toList ++ count) = c.commit_v2)

def fold (e : Engine) (ar : Arith) (c : Contract) (tx : Tx) (prev_states new_states : List State) :
    Option Unit := do
  require (new_states.length = 1)
  let sum ← prev_states.foldlM (addState ar) noState
  let new0 ← new_states.head?
  require (new0.local_yes = sum.local_yes)
  require (new0.local_no = sum.local_no)
  require (new0.count = sum.count)
  require (new0.pool_value = sum.pool_value)
  requireOutputValue tx 0 new0.pool_value
  if sum.count = c.shard_count then requireCommit e c sum else some ()

/-- The state a root is born with: the account of the node, and no outcome. -/
def rootFields (c : Contract) (s : State) : List Field :=
  [.int s.local_yes, .int s.local_no, .int s.count, .int s.pool_value, .int 0, .int 0,
    .byte32 c.root_init_payoutRoot]

def seal_to_root (e : Engine) (c : Contract) (s : State) (tx : Tx) (rootOutIdx : Int)
    (root : Template) : Option Unit := do
  require (s.count = c.shard_count)
  validateOutputStateWithTemplate e tx rootOutIdx (rootFields c s) root c.root_tmpl_hash
  requireOutputValue tx rootOutIdx s.pool_value

/-! ### What they accept -/

/-- What the states come to. -/
def totals (states : List State) : State where
  local_yes := (states.map ShardLeaf.State.local_yes).sum
  local_no := (states.map ShardLeaf.State.local_no).sum
  count := (states.map ShardLeaf.State.count).sum
  pool_value := (states.map ShardLeaf.State.pool_value).sum

theorem addState_eq {ar : Arith} (har : Exact ar) {sum s next : State}
    (h : addState ar sum s = some next) :
    next = ⟨sum.local_yes + s.local_yes, sum.local_no + s.local_no, sum.count + s.count,
      sum.pool_value + s.pool_value⟩ := by
  simp only [addState, Option.bind_eq_bind, Option.bind_eq_some_iff, Option.some.injEq] at h
  obtain ⟨y, hy, n, hn, c, hc, v, hv, rfl⟩ := h
  rw [har _ _ hy, har _ _ hn, har _ _ hc, har _ _ hv]

theorem foldlM_addState_eq {ar : Arith} (har : Exact ar) {states : List State} :
    ∀ {sum next : State}, states.foldlM (addState ar) sum = some next →
      next = ⟨sum.local_yes + (totals states).local_yes, sum.local_no + (totals states).local_no,
        sum.count + (totals states).count, sum.pool_value + (totals states).pool_value⟩ := by
  induction states with
  | nil =>
    intro sum next h
    obtain rfl := Option.some.inj h
    simp [totals]
  | cons s states ih =>
    intro sum next h
    rw [List.foldlM_cons, Option.bind_eq_bind, Option.bind_eq_some_iff] at h
    obtain ⟨mid, hmid, h⟩ := h
    rw [ih h, addState_eq har hmid]
    simp only [totals, List.map_cons, List.sum_cons, add_assoc]

/-- **What a fold accepts**: the new state is the sum of the old ones, and output 0 is worth its
pool. -/
theorem fold_spec {e : Engine} {c : Contract} {tx : Tx} {prev : List State} {next : State}
    (h : fold e i64 c tx prev [next] = some ()) :
    next = totals prev ∧ tx.Pays 0 next.pool_value := by
  simp only [fold, Option.bind_eq_bind, Option.bind_eq_some_iff, require_eq_some, exists_const,
    List.head?_cons, Option.some.injEq, exists_eq_left', requireOutputValue_eq_some] at h
  obtain ⟨-, sum, hsum, hyes, hno, hcount, hpool, hpays, -⟩ := h
  have htotals := foldlM_addState_eq i64_exact hsum
  simp only [noState, zero_add] at htotals
  refine ⟨?_, hpays⟩
  obtain ⟨y, n, k, v⟩ := next
  dsimp only at hyes hno hcount hpool
  rw [hyes, hno, hcount, hpool, htotals]

end FoldNode

namespace PoolLeaf

open ShardLeaf (State RegisterWitness)

/-- The constructor arguments that stay fixed. -/
structure Contract extends FoldNode.Contract where
  ps_tmpl_hash : Bytes32
  shard_pool_id : Bytes32
  seal_count : Int
  min_bet : Int

/-- The ticket a bet is given, in the order of its fields. -/
def ticketFields (c : Contract) (bettorPk : Bytes32) (side stake : Int) : List Field :=
  [.byte32 bettorPk, .int side, .int stake, .byte32 c.shard_pool_id]

def register_append (e : Engine) (ar : Arith) (c : Contract) (s : State) (tx : Tx)
    (wit : RegisterWitness) : Option State := do
  require (s.count < c.seal_count)
  require (wit.side = 0 ∨ wit.side = 1)
  require (c.min_bet ≤ wit.stake)
  validateOutputStateWithTemplate e tx wit.psOutIdx
    (ticketFields c wit.bettorPk wit.side wit.stake) wit.ps_template c.ps_tmpl_hash
  let yes ← ar (wit.stake * (1 - wit.side))
  let local_yes ← ar (s.local_yes + yes)
  let no ← ar (wit.stake * wit.side)
  let local_no ← ar (s.local_no + no)
  let count ← ar (s.count + 1)
  let pool_value ← ar (s.pool_value + wit.stake)
  let next : State := { local_yes, local_no, count, pool_value }
  validateOutputState e c.template tx wit.leafOutIdx next.fields
  requireOutputValue tx wit.leafOutIdx pool_value
  some next

/-- `fold`, as in a node. -/
def fold (e : Engine) (ar : Arith) (c : Contract) (tx : Tx) (prev_states new_states : List State) :
    Option Unit := FoldNode.fold e ar c.toContract tx prev_states new_states

/-- `seal_to_root`, as in a node. -/
def seal_to_root (e : Engine) (c : Contract) (s : State) (tx : Tx) (rootOutIdx : Int)
    (root : Template) : Option Unit := FoldNode.seal_to_root e c.toContract s tx rootOutIdx root

/-- **What a registration leaves**: a ticket, and a leaf that is worth its pool. -/
theorem register_append_spec {e : Engine} {c : Contract} {s next : State} {tx : Tx}
    {wit : RegisterWitness} (h : register_append e i64 c s tx wit = some next) :
    tx.Continues e wit.ps_template wit.psOutIdx
        (ticketFields c wit.bettorPk wit.side wit.stake) ∧
      e.blake2b (wit.ps_template.templatePrefix ++ wit.ps_template.templateSuffix) =
        c.ps_tmpl_hash ∧
      tx.Continues e c.template wit.leafOutIdx next.fields ∧
      tx.Pays wit.leafOutIdx next.pool_value ∧
      next.pool_value = s.pool_value + wit.stake := by
  simp only [register_append, validateOutputStateWithTemplate, Option.bind_eq_bind,
    Option.bind_eq_some_iff, require_eq_some, exists_const, requireOutputValue_eq_some,
    validateOutputState_eq_some, Option.some.injEq] at h
  obtain ⟨-, -, -, ⟨hhash, hticket⟩, _, -, _, -, _, -, _, -, _, -, _, hpool, hcont, hpay, rfl⟩ := h
  exact ⟨hticket, hhash, hcont, hpay, i64_exact _ _ hpool⟩

end PoolLeaf

end KANet.Covenant
