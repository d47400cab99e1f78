import KANet.Covenant.Checks

/-!
# `PayoutShard.sil`

The settlement contract of a market.  It takes in the shards (`absorb`) until a
committee closes it one way or the other (`close_attest`, `cancel_attest`), and then
pays the leaves of the root the committee wrote (`claim`, `refund_claim`).  Every
entry continues the same contract: each function here returns the state it writes
into that continuation.

For each entry there is one lemma that says what it accepts and what it writes, with
any lawful arithmetic; none of the later files looks inside an entry again.
-/

namespace KANet.Covenant.PayoutShard

open KANet.Lib KANet.Script

/-- The constructor arguments that stay fixed. -/
structure Contract where
  poolMerkleRoot : Bytes32
  predicate_commit : Bytes32
  template : Template

structure State where
  consolidated_pool : Int
  closed : Int
  payoutRoot : Bytes32
  w : Words

/-- The state in the order of its fields. -/
def State.fields (s : State) : List Field :=
  .int s.consolidated_pool :: .int s.closed :: .byte32 s.payoutRoot ::
    (List.ofFn s.w).map Field.int

/-- `validateOutputState` and the value weld, which every entry ends in. -/
def continueAs (e : Engine) (c : Contract) (tx : Tx) (selfOutIdx : Int) (s : State) :
    Option State := do
  validateOutputState e c.template tx selfOutIdx s.fields
  requireOutputValue tx selfOutIdx s.consolidated_pool
  some s

/-! ### The entries -/

def absorb (e : Engine) (ar : Arith) (c : Contract) (s : State) (tx : Tx)
    (selfOutIdx shardInIdx : Int) : Option State := do
  require (s.closed = 0)
  let shard ← tx.input shardInIdx
  let consolidated_pool ← ar (s.consolidated_pool + shard.value)
  continueAs e c tx selfOutIdx
    { consolidated_pool, closed := 0, payoutRoot := s.payoutRoot, w := s.w }

/-- The source of `close_attest` and `cancel_attest`, which differ in the latch they set. -/
def attest (e : Engine) (c : Contract) (s : State) (tx : Tx) (latch selfOutIdx : Int)
    (new_root : Bytes32) (cw : CommitteeWitness) : Option State := do
  require (s.closed = 0)
  committeeAttests e c.poolMerkleRoot c.predicate_commit tx cw
  continueAs e c tx selfOutIdx
    { consolidated_pool := s.consolidated_pool, closed := latch, payoutRoot := new_root, w := s.w }

def close_attest (e : Engine) (c : Contract) (s : State) (tx : Tx) (selfOutIdx : Int)
    (new_payoutRoot : Bytes32) (cw : CommitteeWitness) : Option State :=
  attest e c s tx 1 selfOutIdx new_payoutRoot cw

def cancel_attest (e : Engine) (c : Contract) (s : State) (tx : Tx) (selfOutIdx : Int)
    (new_refundRoot : Bytes32) (cw : CommitteeWitness) : Option State :=
  attest e c s tx 2 selfOutIdx new_refundRoot cw

/-- The source of `claim` and `refund_claim`, which differ in the latch they demand. -/
def payLeaf (e : Engine) (ar : Arith) (c : Contract) (s : State) (tx : Tx) (latch : Int)
    (wit : PayWitness) : Option State := do
  require (s.closed = latch)
  let nw ← storePayout e ar s.payoutRoot s.consolidated_pool s.w tx wit
  let consolidated_pool ← ar (s.consolidated_pool - wit.payout)
  continueAs e c tx wit.selfOutIdx
    { consolidated_pool, closed := latch, payoutRoot := s.payoutRoot, w := nw }

def claim (e : Engine) (ar : Arith) (c : Contract) (s : State) (tx : Tx) (wit : PayWitness) :
    Option State := payLeaf e ar c s tx 1 wit

def refund_claim (e : Engine) (ar : Arith) (c : Contract) (s : State) (tx : Tx)
    (wit : PayWitness) : Option State := payLeaf e ar c s tx 2 wit

/-- A spend of the contract: the entry and its arguments. -/
inductive Call
  | absorb (selfOutIdx shardInIdx : Int)
  | close_attest (selfOutIdx : Int) (new_payoutRoot : Bytes32) (cw : CommitteeWitness)
  | cancel_attest (selfOutIdx : Int) (new_refundRoot : Bytes32) (cw : CommitteeWitness)
  | claim (wit : PayWitness)
  | refund_claim (wit : PayWitness)

def spend (e : Engine) (ar : Arith) (c : Contract) (s : State) (tx : Tx) : Call → Option State
  | .absorb selfOutIdx shardInIdx => absorb e ar c s tx selfOutIdx shardInIdx
  | .close_attest selfOutIdx root cw => close_attest e c s tx selfOutIdx root cw
  | .cancel_attest selfOutIdx root cw => cancel_attest e c s tx selfOutIdx root cw
  | .claim wit => claim e ar c s tx wit
  | .refund_claim wit => refund_claim e ar c s tx wit

/-! ### What each entry accepts -/

/-- Output `i` continues the contract in state `s`, worth its pool. -/
def Continuation (e : Engine) (c : Contract) (tx : Tx) (i : Int) (s : State) : Prop :=
  tx.Continues e c.template i s.fields ∧ tx.Pays i s.consolidated_pool

@[simp] theorem continueAs_eq_some {e : Engine} {c : Contract} {tx : Tx} {i : Int}
    {s s' : State} :
    continueAs e c tx i s = some s' ↔ Continuation e c tx i s ∧ s = s' := by
  simp only [continueAs, Option.bind_eq_bind, Option.bind_eq_some_iff, exists_const,
    validateOutputState_eq_some, requireOutputValue_eq_some, Option.some.injEq, Continuation,
    and_assoc]

theorem absorb_eq_some {e : Engine} {ar : Arith} (har : Lawful ar) {c : Contract} {s s' : State}
    {tx : Tx} {i j : Int} :
    absorb e ar c s tx i j = some s' ↔
      s.closed = 0 ∧ ∃ shard, tx.input j = some shard ∧
        s' = { s with consolidated_pool := s.consolidated_pool + shard.value } ∧
        Continuation e c tx i s' := by
  simp only [absorb, Option.bind_eq_bind, Option.bind_eq_some_iff, require_eq_some, exists_const,
    continueAs_eq_some]
  constructor
  · rintro ⟨h0, shard, hj, p, hp, hc, rfl⟩
    have hs : s = { s with closed := 0 } := by rw [← h0]
    refine ⟨h0, shard, hj, ?_, hc⟩
    rw [har.exact _ _ hp, hs]
  · rintro ⟨h0, shard, hj, rfl, hc⟩
    have hb := hc.2.bounds
    refine ⟨h0, shard, hj, _, har.nonneg _ hb.1 hb.2, ?_⟩
    rw [h0] at hc ⊢
    exact ⟨hc, rfl⟩

theorem attest_eq_some {e : Engine} {c : Contract} {s s' : State} {tx : Tx} {latch i : Int}
    {root : Bytes32} {cw : CommitteeWitness} :
    attest e c s tx latch i root cw = some s' ↔
      s.closed = 0 ∧ committeeAttests e c.poolMerkleRoot c.predicate_commit tx cw = some () ∧
        s' = { s with closed := latch, payoutRoot := root } ∧ Continuation e c tx i s' := by
  simp only [attest, Option.bind_eq_bind, Option.bind_eq_some_iff, require_eq_some, exists_const,
    continueAs_eq_some]
  constructor
  · rintro ⟨h0, _, hcom, hc, rfl⟩
    exact ⟨h0, hcom, rfl, hc⟩
  · rintro ⟨h0, hcom, rfl, hc⟩
    exact ⟨h0, (), hcom, hc, rfl⟩

theorem payLeaf_eq_some {e : Engine} {ar : Arith} (har : Lawful ar) {c : Contract}
    {s s' : State} (hw : WordsOk s.w) {tx : Tx} {latch : Int} {wit : PayWitness} :
    payLeaf e ar c s tx latch wit = some s' ↔
      s.closed = latch ∧ ∃ k : Nat, wit.merkle_index = k ∧ k < 1024 ∧ 1 ≤ wit.payout ∧
        wit.payout ≤ s.consolidated_pool ∧ wit.Opens e s.payoutRoot ∧ ¬ Marked s.w k ∧
        wit.Paid tx ∧
        s' = { s with consolidated_pool := s.consolidated_pool - wit.payout, w := mark s.w k } ∧
        Continuation e c tx wit.selfOutIdx s' := by
  simp only [payLeaf, Option.bind_eq_bind, Option.bind_eq_some_iff, require_eq_some, exists_const,
    continueAs_eq_some, storePayout_eq_some har hw]
  constructor
  · rintro ⟨rfl, _, ⟨k, hk, hlt, h1, h2, ho, hm, hpaid, rfl⟩, p, hp, hc, rfl⟩
    refine ⟨rfl, k, hk, hlt, h1, h2, ho, hm, hpaid, ?_, hc⟩
    rw [har.exact _ _ hp]
  · rintro ⟨rfl, k, hk, hlt, h1, h2, ho, hm, hpaid, rfl, hc⟩
    have hb := hc.2.bounds
    exact ⟨rfl, _, ⟨k, hk, hlt, h1, h2, ho, hm, hpaid, rfl⟩, _, har.nonneg _ hb.1 hb.2, hc, rfl⟩

/-- The output each call names as its own continuation. -/
def Call.selfOutIdx : Call → Int
  | .absorb i _ => i
  | .close_attest i _ _ => i
  | .cancel_attest i _ _ => i
  | .claim wit => wit.selfOutIdx
  | .refund_claim wit => wit.selfOutIdx

/-- **Every entry continues the contract**, in the state it returns and worth its pool. -/
theorem spend_continues {e : Engine} {ar : Arith} (har : Lawful ar) {c : Contract}
    {s s' : State} (hw : WordsOk s.w) {tx : Tx} {call : Call}
    (h : spend e ar c s tx call = some s') : Continuation e c tx call.selfOutIdx s' := by
  cases call with
  | absorb i j =>
    obtain ⟨_, _, _, _, hc⟩ := (absorb_eq_some har).mp h
    exact hc
  | close_attest i root cw => exact (attest_eq_some.mp h).2.2.2
  | cancel_attest i root cw => exact (attest_eq_some.mp h).2.2.2
  | claim wit =>
    obtain ⟨_, _, _, _, _, _, _, _, _, _, hc⟩ := (payLeaf_eq_some har hw).mp h
    exact hc
  | refund_claim wit =>
    obtain ⟨_, _, _, _, _, _, _, _, _, _, hc⟩ := (payLeaf_eq_some har hw).mp h
    exact hc

/-- From words in range, the engine's arithmetic and exact arithmetic accept the same spends with
the same result: nothing overflows. -/
theorem spend_i64_eq_unbounded (e : Engine) (c : Contract) {s : State} (hw : WordsOk s.w)
    (tx : Tx) (call : Call) : spend e i64 c s tx call = spend e unbounded c s tx call := by
  apply Option.ext
  intro s'
  cases call with
  | absorb i j => exact (absorb_eq_some i64_lawful).trans (absorb_eq_some unbounded_lawful).symm
  | close_attest i root cw => rfl
  | cancel_attest i root cw => rfl
  | claim wit =>
    exact (payLeaf_eq_some i64_lawful hw).trans (payLeaf_eq_some unbounded_lawful hw).symm
  | refund_claim wit =>
    exact (payLeaf_eq_some i64_lawful hw).trans (payLeaf_eq_some unbounded_lawful hw).symm

end KANet.Covenant.PayoutShard
