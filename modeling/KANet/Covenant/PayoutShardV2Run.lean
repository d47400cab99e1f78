import KANet.Covenant.PayoutShardV2

/-!
# `PayoutShardV2.sil`: the other entries, and what a spend can do

Before the hand-over the contract lives like a `PayoutShard`: it takes in the shards
(`absorb`) until its committee attests a result (`close_attest`) or a cancellation
(`cancel_attest`).  With a result it carries what the zero-knowledge close needs and
waits for `zk_handoff`; cancelled, it pays the leaves of the refund root
(`refund_claim`).  There is no `claim`.

* `absorb_eq_some`, `attest_eq_some`, `refund_claim_eq_some` — what each entry accepts.
* `step_cases` — what a spend can do; the invariant is read off from it.
-/

namespace KANet.Covenant.PayoutShardV2

open KANet.Lib KANet.Script

/-- The state in the order of its fields. -/
def State.fields (s : State) : List Field :=
  .int s.consolidated_pool :: .int s.closed :: .byte32 s.payoutRoot ::
    ((List.ofFn s.w).map Field.int ++
      [.int s.attestedWinner, .int s.attestedAtMs, .byte32 s.betsRootBaked,
        .byte32 s.refundRootBaked])

/-- `validateOutputState` and the value weld, which every entry before the hand-over ends in. -/
def continueAs (e : Engine) (t : Template) (tx : Tx) (selfOutIdx : Int) (s : State) :
    Option State := do
  validateOutputState e t tx selfOutIdx s.fields
  requireOutputValue tx selfOutIdx s.consolidated_pool
  some s

/-! ### The entries -/

def absorb (e : Engine) (ar : Arith) (t : Template) (s : State) (tx : Tx)
    (selfOutIdx shardInIdx : Int) : Option State := do
  require (s.closed = 0)
  let shard ← tx.input shardInIdx
  let consolidated_pool ← ar (s.consolidated_pool + shard.value)
  continueAs e t tx selfOutIdx { s with consolidated_pool, closed := 0 }

/-- What the committee attests with a result. -/
structure Result where
  new_payoutRoot : Bytes32
  new_attestedWinner : Int
  new_betsRoot : Bytes32
  new_refundRoot : Bytes32
  new_attestedAtMs : Int

/-- The checks that `close_attest` and `cancel_attest` share, and the state that either writes. -/
def attest (e : Engine) (c : Contract) (t : Template) (s : State) (tx : Tx) (selfOutIdx : Int)
    (cw : CommitteeWitness) (s' : State) : Option State := do
  require (s.closed = 0)
  committeeAttests e c.poolMerkleRoot c.predicate_commit tx cw
  continueAs e t tx selfOutIdx s'

/-- The state with a result. -/
def State.close (s : State) (r : Result) : State where
  consolidated_pool := s.consolidated_pool
  closed := 1
  payoutRoot := r.new_payoutRoot
  w := s.w
  attestedWinner := r.new_attestedWinner
  attestedAtMs := r.new_attestedAtMs
  betsRootBaked := r.new_betsRoot
  refundRootBaked := r.new_refundRoot

def close_attest (e : Engine) (c : Contract) (t : Template) (s : State) (tx : Tx)
    (selfOutIdx : Int) (r : Result) (cw : CommitteeWitness) : Option State :=
  attest e c t s tx selfOutIdx cw (s.close r)

def cancel_attest (e : Engine) (c : Contract) (t : Template) (s : State) (tx : Tx)
    (selfOutIdx : Int) (new_refundRoot : Bytes32) (cw : CommitteeWitness) : Option State :=
  attest e c t s tx selfOutIdx cw { s with closed := 2, payoutRoot := new_refundRoot }

def refund_claim (e : Engine) (ar : Arith) (t : Template) (s : State) (tx : Tx)
    (wit : PayWitness) : Option State := do
  require (s.closed = 2)
  let nw ← storePayout e ar s.payoutRoot s.consolidated_pool s.w tx wit
  let consolidated_pool ← ar (s.consolidated_pool - wit.payout)
  continueAs e t tx wit.selfOutIdx { s with consolidated_pool, closed := 2, w := nw }

/-- A spend that continues the contract: the entry and its arguments. -/
inductive Call
  | absorb (selfOutIdx shardInIdx : Int)
  | close_attest (selfOutIdx : Int) (r : Result) (cw : CommitteeWitness)
  | cancel_attest (selfOutIdx : Int) (new_refundRoot : Bytes32) (cw : CommitteeWitness)
  | refund_claim (wit : PayWitness)

def spend (e : Engine) (ar : Arith) (c : Contract) (t : Template) (s : State) (tx : Tx) :
    Call → Option State
  | .absorb selfOutIdx shardInIdx => absorb e ar t s tx selfOutIdx shardInIdx
  | .close_attest selfOutIdx r cw => close_attest e c t s tx selfOutIdx r cw
  | .cancel_attest selfOutIdx root cw => cancel_attest e c t s tx selfOutIdx root cw
  | .refund_claim wit => refund_claim e ar t s tx wit

/-! ### What each entry accepts -/

section

variable {e : Engine} {ar : Arith} {c : Contract} {t : Template} {s s' : State} {tx : Tx}

/-- Output `i` continues the contract in state `s`, worth its pool. -/
def Continuation (e : Engine) (t : Template) (tx : Tx) (i : Int) (s : State) : Prop :=
  tx.Continues e t i s.fields ∧ tx.Pays i s.consolidated_pool

@[simp] theorem continueAs_eq_some {i : Int} :
    continueAs e t tx i s = some s' ↔ Continuation e t tx i s ∧ s = s' := by
  simp only [continueAs, Option.bind_eq_bind, Option.bind_eq_some_iff, exists_const,
    validateOutputState_eq_some, requireOutputValue_eq_some, Option.some.injEq, Continuation,
    and_assoc]

theorem absorb_eq_some (har : Lawful ar) {i j : Int} :
    absorb e ar t s tx i j = some s' ↔
      s.closed = 0 ∧ ∃ shard, tx.input j = some shard ∧
        s' = { s with consolidated_pool := s.consolidated_pool + shard.value } ∧
        Continuation e t tx i s' := by
  simp only [absorb, Option.bind_eq_bind, Option.bind_eq_some_iff, require_eq_some, exists_const,
    continueAs_eq_some]
  constructor
  · rintro ⟨h0, shard, hj, p, hp, hc, rfl⟩
    have hs : s = { s with closed := 0 } := by rw [← h0]
    refine ⟨h0, shard, hj, ?_, hc⟩
    rw [har.exact _ _ hp, hs]
  · rintro ⟨h0, shard, hj, rfl, hc⟩
    have hb := hc.2.bounds
    refine ⟨h0, shard, hj, _, har.nonneg _ hb.1 hb.2, ?_⟩
    have hs : { s with consolidated_pool := s.consolidated_pool + shard.value, closed := 0 } =
        { s with consolidated_pool := s.consolidated_pool + shard.value } := by rw [← h0]
    rw [hs]
    exact ⟨hc, rfl⟩

theorem attest_eq_some {i : Int} {cw : CommitteeWitness} {u : State} :
    attest e c t s tx i cw u = some s' ↔
      s.closed = 0 ∧ committeeAttests e c.poolMerkleRoot c.predicate_commit tx cw = some () ∧
        s' = u ∧ Continuation e t tx i s' := by
  simp only [attest, Option.bind_eq_bind, Option.bind_eq_some_iff, require_eq_some, exists_const,
    continueAs_eq_some]
  constructor
  · rintro ⟨h0, _, hcom, hc, rfl⟩
    exact ⟨h0, hcom, rfl, hc⟩
  · rintro ⟨h0, hcom, rfl, hc⟩
    exact ⟨h0, (), hcom, hc, rfl⟩

/-- The state after refunding leaf `k`. -/
def State.refund (s : State) (refund : Int) (k : Nat) : State :=
  { s with consolidated_pool := s.consolidated_pool - refund, w := mark s.w k }

/-- What the refund of leaf `k` checks before it looks at the continuation. -/
structure Refundable (e : Engine) (s : State) (tx : Tx) (wit : PayWitness) (k : Nat) : Prop where
  cancelled : s.closed = 2
  index : wit.merkle_index = k
  inTree : k < 1024
  pos : 1 ≤ wit.payout
  le_pool : wit.payout ≤ s.consolidated_pool
  leaf : wit.Opens e s.payoutRoot
  unpaid : ¬ Marked s.w k
  paid : wit.Paid tx

theorem refund_claim_eq_some (har : Lawful ar) (hw : WordsOk s.w) {wit : PayWitness} :
    refund_claim e ar t s tx wit = some s' ↔
      ∃ k, Refundable e s tx wit k ∧ s' = s.refund wit.payout k ∧
        Continuation e t tx wit.selfOutIdx s' := by
  simp only [refund_claim, Option.bind_eq_bind, Option.bind_eq_some_iff, require_eq_some,
    exists_const, continueAs_eq_some, storePayout_eq_some har hw]
  constructor
  · rintro ⟨h2, _, ⟨k, hk, hlt, hpos, hle, ho, hm, hpaid, rfl⟩, p, hp, hc, rfl⟩
    refine ⟨k, ⟨h2, hk, hlt, hpos, hle, ho, hm, hpaid⟩, ?_, hc⟩
    rw [har.exact _ _ hp, State.refund, ← h2]
  · rintro ⟨k, ⟨h2, hk, hlt, hpos, hle, ho, hm, hpaid⟩, rfl, hc⟩
    have hb := hc.2.bounds
    refine ⟨h2, _, ⟨k, hk, hlt, hpos, hle, ho, hm, hpaid, rfl⟩, _, har.nonneg _ hb.1 hb.2, ?_⟩
    have hs : { s with
        consolidated_pool := s.consolidated_pool - wit.payout, closed := 2, w := mark s.w k } =
          s.refund wit.payout k := by rw [State.refund, ← h2]
    rw [hs]
    exact ⟨hc, rfl⟩

/-! ### One step -/

def Step (e : Engine) (c : Contract) (t : Template) (s : State) (call : Call) (tx : Tx)
    (s' : State) : Prop :=
  spend e i64 c t s tx call = some s'

structure Inv (s : State) : Prop where
  latch : s.closed = 0 ∨ s.closed = 1 ∨ s.closed = 2
  pool : 0 ≤ s.consolidated_pool
  words : WordsOk s.w
  unpaid : s.closed ≠ 2 → s.w = Words.zero

/-- The state the mint locks: open, nothing paid, and the seed as its pool. -/
structure Genesis (s : State) : Prop where
  closed : s.closed = 0
  words : s.w = Words.zero
  seed : 0 ≤ s.consolidated_pool

theorem Genesis.inv (h : Genesis s) : Inv s :=
  ⟨Or.inl h.closed, h.seed, h.words ▸ wordsOk_zero, fun _ => h.words⟩

/-- **What a spend can do**: take in a shard, write a result, cancel, or refund a leaf. -/
theorem step_cases {call : Call} (hw : WordsOk s.w) (h : Step e c t s call tx s') :
    (∃ i j shard, call = .absorb i j ∧ s.closed = 0 ∧ tx.input j = some shard ∧
      s' = { s with consolidated_pool := s.consolidated_pool + shard.value }) ∨
    (∃ i r cw, call = .close_attest i r cw ∧ s.closed = 0 ∧
      committeeAttests e c.poolMerkleRoot c.predicate_commit tx cw = some () ∧ s' = s.close r) ∨
    (∃ i root cw, call = .cancel_attest i root cw ∧ s.closed = 0 ∧
      committeeAttests e c.poolMerkleRoot c.predicate_commit tx cw = some () ∧
      s' = { s with closed := 2, payoutRoot := root }) ∨
    (∃ wit k, call = .refund_claim wit ∧ Refundable e s tx wit k ∧
      s' = s.refund wit.payout k) := by
  unfold Step at h
  cases call with
  | absorb i j =>
    obtain ⟨h0, shard, hj, rfl, -⟩ := (absorb_eq_some i64_lawful).mp h
    exact Or.inl ⟨i, j, shard, rfl, h0, hj, rfl⟩
  | close_attest i r cw =>
    obtain ⟨h0, hcom, rfl, -⟩ := attest_eq_some.mp h
    exact Or.inr (Or.inl ⟨i, r, cw, rfl, h0, hcom, rfl⟩)
  | cancel_attest i root cw =>
    obtain ⟨h0, hcom, rfl, -⟩ := attest_eq_some.mp h
    exact Or.inr (Or.inr (Or.inl ⟨i, root, cw, rfl, h0, hcom, rfl⟩))
  | refund_claim wit =>
    obtain ⟨k, hk, rfl, -⟩ := (refund_claim_eq_some i64_lawful hw).mp h
    exact Or.inr (Or.inr (Or.inr ⟨wit, k, rfl, hk, rfl⟩))

theorem Inv.step {call : Call} (hi : Inv s) (h : Step e c t s call tx s') : Inv s' := by
  rcases step_cases hi.words h with ⟨_, _, shard, _, h0, _, rfl⟩ | ⟨_, r, _, _, h0, _, rfl⟩ |
    ⟨_, root, _, _, h0, _, rfl⟩ | ⟨wit, k, _, hk, rfl⟩
  · have hpool : 0 ≤ s.consolidated_pool + shard.value := by
      have := hi.pool
      omega
    exact ⟨hi.latch, hpool, hi.words, hi.unpaid⟩
  · exact ⟨Or.inr (Or.inl rfl), hi.pool, hi.words, fun _ => hi.unpaid (by omega)⟩
  · exact ⟨Or.inr (Or.inr rfl), hi.pool, hi.words, fun h2 => absurd rfl h2⟩
  · have hpool : 0 ≤ s.consolidated_pool - wit.payout := sub_nonneg.mpr hk.le_pool
    exact ⟨hi.latch, hpool, hi.words.mark hk.unpaid, fun h2 => absurd hk.cancelled h2⟩

end

end KANet.Covenant.PayoutShardV2
