import KANet.Covenant.Checks

/-!
# `CloseZkV2.sil`

The contract a zero-knowledge market is handed to once its committee has attested the
result.  A proof of the payout computation moves it to the payout tree (`zk_close`);
six hours without one, and anybody may move it to the refund tree (`escape_trigger`).
Leaves are then paid out of that tree by `claim` or `escape_claim`, and the payment
that empties the pool leaves no continuation: a payment returns the state of the
continuation if there is one.
-/

namespace KANet.Covenant.CloseZkV2

open KANet.Lib KANet.Script

/-- The constructor arguments that stay fixed. -/
structure Contract where
  gateTmplHash : Bytes32
  betsRootBaked : Bytes32
  refundRootBaked : Bytes32
  attestedAtMs : Int
  template : Template

structure State where
  attestedWinner : Int
  closed : Int
  payoutRootField : Bytes32
  consolidated_pool : Int
  w : Words

/-- The state in the order of its fields. -/
def State.fields (s : State) : List Field :=
  .int s.attestedWinner :: .int s.closed :: .byte32 s.payoutRootField ::
    .int s.consolidated_pool :: (List.ofFn s.w).map Field.int

def ESCAPE_GRACE_MS : Int := 21600000

/-- `validateOutputState` and the value weld, in either order. -/
def continueAs (e : Engine) (c : Contract) (tx : Tx) (selfOutIdx : Int) (s : State) :
    Option State := do
  validateOutputState e c.template tx selfOutIdx s.fields
  requireOutputValue tx selfOutIdx s.consolidated_pool
  some s

/-! ### The entries -/

/-- `sha256(betsRootBaked + byte[](attestedWinner, 1) + guestPayoutRoot)` -/
def journalHash (e : Engine) (c : Contract) (s : State) (guestPayoutRoot : Bytes32) :
    Option Bytes32 :=
  (num2bin s.attestedWinner 1).map fun winner =>
    e.sha256 (c.betsRootBaked.toList ++ winner ++ guestPayoutRoot.toList)

def zk_close (e : Engine) (c : Contract) (s : State) (tx : Tx) (gateSuffix : Bytes)
    (guestPayoutRoot : Bytes32) (selfOutIdx : Int) : Option State := do
  require (s.closed = 1)
  let journal ← journalHash e c s guestPayoutRoot
  require (e.blake2b (0x20 :: gateSuffix) = c.gateTmplHash)
  let gateRedeemHash := e.blake2b (0x20 :: (journal.toList ++ gateSuffix))
  let gate ← tx.input 1
  require (gate.scriptPubKey = ScriptPubKeyP2SH gateRedeemHash)
  continueAs e c tx selfOutIdx { s with closed := 2, payoutRootField := guestPayoutRoot }

def escape_trigger (e : Engine) (ar : Arith) (c : Contract) (s : State) (tx : Tx)
    (selfOutIdx : Int) : Option State := do
  require (s.closed = 1)
  let after ← ar (c.attestedAtMs + ESCAPE_GRACE_MS)
  require (after ≤ tx.lockTime)
  continueAs e c tx selfOutIdx { s with closed := 3 }

/-- The source of `claim` and `escape_claim`, which differ in the latch they demand and in the
root they pay from.  A payment of the whole pool has no continuation. -/
def payLeaf (e : Engine) (ar : Arith) (c : Contract) (s : State) (tx : Tx) (latch : Int)
    (root : Bytes32) (wit : PayWitness) : Option (Option State) := do
  require (s.closed = latch)
  let nw ← storePayout e ar root s.consolidated_pool s.w tx wit
  if s.consolidated_pool = wit.payout then
    requireOutputValue tx wit.payoutOutIdx s.consolidated_pool
    some none
  else
    let consolidated_pool ← ar (s.consolidated_pool - wit.payout)
    (continueAs e c tx wit.selfOutIdx { s with closed := latch, consolidated_pool, w := nw }).map
      some

def escape_claim (e : Engine) (ar : Arith) (c : Contract) (s : State) (tx : Tx)
    (wit : PayWitness) : Option (Option State) := payLeaf e ar c s tx 3 c.refundRootBaked wit

def claim (e : Engine) (ar : Arith) (c : Contract) (s : State) (tx : Tx) (wit : PayWitness) :
    Option (Option State) := payLeaf e ar c s tx 2 s.payoutRootField wit

/-- A spend of the contract: the entry and its arguments. -/
inductive Call
  | zk_close (gateSuffix : Bytes) (guestPayoutRoot : Bytes32) (selfOutIdx : Int)
  | escape_trigger (selfOutIdx : Int)
  | escape_claim (wit : PayWitness)
  | claim (wit : PayWitness)

def spend (e : Engine) (ar : Arith) (c : Contract) (s : State) (tx : Tx) :
    Call → Option (Option State)
  | .zk_close gateSuffix guestPayoutRoot selfOutIdx =>
    (zk_close e c s tx gateSuffix guestPayoutRoot selfOutIdx).map some
  | .escape_trigger selfOutIdx => (escape_trigger e ar c s tx selfOutIdx).map some
  | .escape_claim wit => escape_claim e ar c s tx wit
  | .claim wit => claim e ar c s tx wit

/-! ### What each entry accepts -/

/-- Output `i` continues the contract in state `s`, worth its pool. -/
def Continuation (e : Engine) (c : Contract) (tx : Tx) (i : Int) (s : State) : Prop :=
  tx.Continues e c.template i s.fields ∧ tx.Pays i s.consolidated_pool

@[simp] theorem continueAs_eq_some {e : Engine} {c : Contract} {tx : Tx} {i : Int}
    {s s' : State} :
    continueAs e c tx i s = some s' ↔ Continuation e c tx i s ∧ s = s' := by
  simp only [continueAs, Option.bind_eq_bind, Option.bind_eq_some_iff, exists_const,
    validateOutputState_eq_some, requireOutputValue_eq_some, Option.some.injEq, Continuation,
    and_assoc]

/-- The second input is the gate that checks a proof of the journal. -/
def GateSpent (e : Engine) (c : Contract) (s : State) (tx : Tx) (gateSuffix : Bytes)
    (guestPayoutRoot : Bytes32) : Prop :=
  ∃ journal gate, journalHash e c s guestPayoutRoot = some journal ∧
    e.blake2b (0x20 :: gateSuffix) = c.gateTmplHash ∧ tx.input 1 = some gate ∧
    gate.scriptPubKey = ScriptPubKeyP2SH (e.blake2b (0x20 :: (journal.toList ++ gateSuffix)))

theorem zk_close_eq_some {e : Engine} {c : Contract} {s s' : State} {tx : Tx}
    {gateSuffix : Bytes} {root : Bytes32} {i : Int} :
    zk_close e c s tx gateSuffix root i = some s' ↔
      s.closed = 1 ∧ GateSpent e c s tx gateSuffix root ∧
        s' = { s with closed := 2, payoutRootField := root } ∧ Continuation e c tx i s' := by
  simp only [zk_close, Option.bind_eq_bind, Option.bind_eq_some_iff, require_eq_some,
    exists_const, continueAs_eq_some]
  constructor
  · rintro ⟨h1, journal, hj, ht, gate, hg, hs, hc, rfl⟩
    exact ⟨h1, ⟨journal, gate, hj, ht, hg, hs⟩, rfl, hc⟩
  · rintro ⟨h1, ⟨journal, gate, hj, ht, hg, hs⟩, rfl, hc⟩
    exact ⟨h1, journal, hj, ht, gate, hg, hs, hc, rfl⟩

theorem escape_trigger_eq_some {e : Engine} {ar : Arith} {c : Contract} {s s' : State} {tx : Tx}
    {i : Int} :
    escape_trigger e ar c s tx i = some s' ↔
      s.closed = 1 ∧ (∃ after, ar (c.attestedAtMs + ESCAPE_GRACE_MS) = some after ∧
        after ≤ tx.lockTime) ∧ s' = { s with closed := 3 } ∧ Continuation e c tx i s' := by
  simp only [escape_trigger, Option.bind_eq_bind, Option.bind_eq_some_iff, require_eq_some,
    exists_const, continueAs_eq_some]
  constructor
  · rintro ⟨h1, t, ht, hle, hc, rfl⟩
    exact ⟨h1, ⟨t, ht, hle⟩, rfl, hc⟩
  · rintro ⟨h1, ⟨t, ht, hle⟩, rfl, hc⟩
    exact ⟨h1, t, ht, hle, hc, rfl⟩

/-- What the payment of leaf `k` checks before it looks at the continuation. -/
structure Payable (e : Engine) (s : State) (tx : Tx) (latch : Int) (root : Bytes32)
    (wit : PayWitness) (k : Nat) : Prop where
  latched : s.closed = latch
  index : wit.merkle_index = k
  inTree : k < 1024
  pos : 1 ≤ wit.payout
  le_pool : wit.payout ≤ s.consolidated_pool
  leaf : wit.Opens e root
  unpaid : ¬ Marked s.w k
  paid : wit.Paid tx

/-- The state after paying leaf `k`. -/
def State.pay (s : State) (payout : Int) (k : Nat) : State :=
  { s with consolidated_pool := s.consolidated_pool - payout, w := mark s.w k }

/-- **What a payment accepts.**  The pool is emptied and the contract ends, or what is left
continues it. -/
theorem payLeaf_eq_some {e : Engine} {ar : Arith} (har : Lawful ar) {c : Contract} {s : State}
    (hw : WordsOk s.w) {tx : Tx} {latch : Int} {root : Bytes32} {wit : PayWitness}
    {next : Option State} :
    payLeaf e ar c s tx latch root wit = some next ↔
      ∃ k, Payable e s tx latch root wit k ∧
        ((s.consolidated_pool = wit.payout ∧ next = none) ∨
          (s.consolidated_pool ≠ wit.payout ∧ next = some (s.pay wit.payout k) ∧
            Continuation e c tx wit.selfOutIdx (s.pay wit.payout k))) := by
  simp only [payLeaf, Option.bind_eq_bind, Option.bind_eq_some_iff, require_eq_some, exists_const,
    storePayout_eq_some har hw]
  constructor
  · rintro ⟨rfl, nw, ⟨k, hk, hlt, h1, h2, ho, hm, hpaid, rfl⟩, h⟩
    refine ⟨k, ⟨rfl, hk, hlt, h1, h2, ho, hm, hpaid⟩, ?_⟩
    split at h
    · rename_i hpool
      simp only [Option.bind_eq_some_iff, requireOutputValue_eq_some, exists_const,
        Option.some.injEq] at h
      exact Or.inl ⟨hpool, h.2.symm⟩
    · rename_i hpool
      simp only [Option.bind_eq_some_iff, Option.map_eq_some_iff, continueAs_eq_some] at h
      obtain ⟨p, hp, _, ⟨hc, rfl⟩, rfl⟩ := h
      rw [har.exact _ _ hp] at hc ⊢
      exact Or.inr ⟨hpool, rfl, hc⟩
  · rintro ⟨k, ⟨rfl, hk, hlt, h1, h2, ho, hm, hpaid⟩, h⟩
    refine ⟨rfl, mark s.w k, ⟨k, hk, hlt, h1, h2, ho, hm, hpaid, rfl⟩, ?_⟩
    rcases h with ⟨hpool, rfl⟩ | ⟨hpool, rfl, hc⟩
    · rw [if_pos hpool]
      obtain ⟨out, ho', -, hv⟩ := hpaid
      simp only [Option.bind_eq_some_iff, requireOutputValue_eq_some, exists_const, and_true]
      exact ⟨out, ho', by rw [hv, hpool]⟩
    · rw [if_neg hpool]
      have hb := hc.2.bounds
      simp only [Option.bind_eq_some_iff, Option.map_eq_some_iff, continueAs_eq_some]
      exact ⟨_, har.nonneg _ hb.1 hb.2, _, ⟨hc, rfl⟩, rfl⟩

end KANet.Covenant.CloseZkV2
