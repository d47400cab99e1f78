import KANet.Covenant.Checks
import KANet.Covenant.FoldNode

/-!
# `RootClose.sil`, `RootClaim.sil` and `RefundClaim.sil`

A sealed pool is a `RootClose`.  Its committee closes it with a winner and a root of payouts, or it
is flipped to a refund once it is late; then it is converted into a `RootClaim`, from which winners
draw their leaves, or into a `RefundClaim`, from which bettors draw their stakes.

Both drawing entries read a ticket among the inputs.  What they ask of it is the template and the
pool it names; anybody can lock a coin to that.  A claim also marks the slot of its leaf.

The redeem script an input reveals comes with the witness, as template and state.

* `close_commit_spec`, `refund_flip_spec`, `convert_to_claim_spec` — the first contract.
* `claim_draw_spec`, `refund_payout_spec` — the two draws.
-/

namespace KANet.Covenant.Root

open KANet.Lib KANet.Script

structure RootState where
  local_yes : Int
  local_no : Int
  count : Int
  pool_value : Int
  closed : Int
  winningSide : Int
  payoutRoot : Bytes32
deriving DecidableEq

def RootState.fields (s : RootState) : List Field :=
  [.int s.local_yes, .int s.local_no, .int s.count, .int s.pool_value, .int s.closed,
    .int s.winningSide, .byte32 s.payoutRoot]

/-! ### `RootClose` -/

structure CloseContract where
  committee_hash : Bytes32
  deadline_ms : Int
  claim_tmpl_hash : Bytes32
  refundclaim_tmpl_hash : Bytes32
  template : Template

structure CloseWitness where
  pks : List.Vector Bytes32 5
  sigs : List.Vector Bytes 5
  rootOutIdx : Int
  new_winningSide : Int
  new_payoutRoot : Bytes32

/-- How many of the five have signed. -/
def validSigs (e : Engine) (tx : Tx) (wit : CloseWitness) : Nat :=
  (wit.sigs.toList.zip wit.pks.toList).countP fun p => e.checkSig tx p.1 p.2

def close_commit (e : Engine) (c : CloseContract) (s : RootState) (tx : Tx) (wit : CloseWitness) :
    Option RootState := do
  require (s.closed = 0)
  require (c.deadline_ms ≤ tx.lockTime)
  require (wit.new_winningSide = 0 ∨ wit.new_winningSide = 1)
  require (e.blake2b (wit.pks.toList.flatMap List.Vector.toList) = c.committee_hash)
  require (4 ≤ validSigs e tx wit)
  let next : RootState := { s with
    closed := 1, winningSide := wit.new_winningSide, payoutRoot := wit.new_payoutRoot }
  validateOutputState e c.template tx wit.rootOutIdx next.fields
  requireOutputValue tx wit.rootOutIdx s.pool_value
  some next

def refund_flip (e : Engine) (ar : Arith) (c : CloseContract) (s : RootState) (tx : Tx)
    (rootOutIdx : Int) : Option RootState := do
  require (s.closed = 0)
  let late ← ar (c.deadline_ms + 7200000)
  require (late ≤ tx.lockTime)
  let next : RootState := { s with closed := 2 }
  validateOutputState e c.template tx rootOutIdx next.fields
  requireOutputValue tx rootOutIdx s.pool_value
  some next

def convert_to_claim (e : Engine) (c : CloseContract) (s : RootState) (tx : Tx) (claimOutIdx : Int)
    (claim : Template) : Option Unit := do
  require (s.closed = 1)
  validateOutputStateWithTemplate e tx claimOutIdx (s.fields ++ [.int 0]) claim c.claim_tmpl_hash
  requireOutputValue tx claimOutIdx s.pool_value

def convert_to_refundclaim (e : Engine) (c : CloseContract) (s : RootState) (tx : Tx)
    (rcOutIdx : Int) (rc : Template) : Option Unit := do
  require (s.closed = 2)
  validateOutputStateWithTemplate e tx rcOutIdx s.fields rc c.refundclaim_tmpl_hash
  requireOutputValue tx rcOutIdx s.pool_value

/-! ### `RootClaim` and `RefundClaim` -/

structure DrawContract where
  ps_tmpl_hash : Bytes32
  shard_pool_id : Bytes32
  template : Template

/-- The state of a ticket. -/
structure Tk where
  bettorPk : Bytes32
  direction : Int
  stake : Int
  shardPoolId : Bytes32
deriving DecidableEq

def Tk.fields (tk : Tk) : List Field :=
  [.byte32 tk.bettorPk, .int tk.direction, .int tk.stake, .byte32 tk.shardPoolId]

/-- `readInputStateWithTemplate`: the input is locked to the ticket it reveals. -/
def readTicket (e : Engine) (ps_tmpl_hash : Bytes32) (tx : Tx) (ticketInIdx : Int)
    (ticket : Template) (tk : Tk) : Option Unit := do
  let inp ← tx.input ticketInIdx
  let state ← serializeState tk.fields
  require (inp.scriptPubKey = ScriptPubKeyP2SH (e.blake2b (ticket.redeem state)))
  require (e.blake2b (ticket.templatePrefix ++ ticket.templateSuffix) = ps_tmpl_hash)

structure ClaimWitness where
  rootOutIdx : Int
  payoutOutIdx : Int
  payout : Int
  merkle_index : Int
  tree_depth : Int
  siblings : List Bytes32
  ticketInIdx : Int
  ticket : Template
  tk : Tk

/-- The loop over the levels, of which there is one at most, and the number of leaves. -/
def climbLevel (e : Engine) (ar : Arith) (wit : ClaimWitness) (leaf : Bytes32) :
    Option (Bytes32 × Int) :=
  if wit.tree_depth = 0 then some (leaf, 1)
  else do
    let sibling ← wit.siblings.head?
    let div ← ar (1 * 2)
    some (climbStep e wit.merkle_index 1 leaf sibling, div)

def claim_draw (e : Engine) (ar : Arith) (c : DrawContract) (s : RootState) (claimed_bitmap : Int)
    (tx : Tx) (wit : ClaimWitness) : Option (RootState × Int) := do
  require (s.closed = 1)
  require (0 ≤ wit.tree_depth)
  require (wit.tree_depth ≤ 1)
  require (0 ≤ wit.merkle_index)
  require (1000 ≤ wit.payout)
  require (wit.payout ≤ s.pool_value)
  readTicket e c.ps_tmpl_hash tx wit.ticketInIdx wit.ticket wit.tk
  require (wit.tk.shardPoolId = c.shard_pool_id)
  require (wit.tk.direction = s.winningSide)
  let leaf ← payoutLeaf e wit.tk.bettorPk wit.payout
  let (cur, div) ← climbLevel e ar wit leaf
  require (cur = s.payoutRoot)
  require (wit.merkle_index < div)
  let mask ← maskLoop ar (min wit.merkle_index.toNat 2) 1
  require ((claimed_bitmap.tdiv mask).tmod 2 = 0)
  requireOutput tx wit.payoutOutIdx wit.tk.bettorPk wit.payout
  let rest ← ar (s.pool_value - wit.payout)
  let marked ← ar (claimed_bitmap + mask)
  let next : RootState := { s with pool_value := rest, closed := 1 }
  validateOutputState e c.template tx wit.rootOutIdx (next.fields ++ [.int marked])
  requireOutputValue tx wit.rootOutIdx rest
  some (next, marked)

structure RefundWitness where
  rootOutIdx : Int
  payoutOutIdx : Int
  ticketInIdx : Int
  ticket : Template
  tk : Tk

def refund_payout (e : Engine) (ar : Arith) (c : DrawContract) (s : RootState) (tx : Tx)
    (wit : RefundWitness) : Option RootState := do
  require (s.closed = 2)
  readTicket e c.ps_tmpl_hash tx wit.ticketInIdx wit.ticket wit.tk
  require (wit.tk.shardPoolId = c.shard_pool_id)
  requireOutput tx wit.payoutOutIdx wit.tk.bettorPk wit.tk.stake
  let rest ← ar (s.pool_value - wit.tk.stake)
  let next : RootState := { s with pool_value := rest, closed := 2 }
  validateOutputState e c.template tx wit.rootOutIdx next.fields
  requireOutputValue tx wit.rootOutIdx rest
  some next

/-! ### What they accept -/

section Spec

variable {e : Engine} {s next : RootState} {tx : Tx}

theorem close_commit_spec {c : CloseContract} {wit : CloseWitness}
    (h : close_commit e c s tx wit = some next) :
    s.closed = 0 ∧ next = { s with
      closed := 1, winningSide := wit.new_winningSide, payoutRoot := wit.new_payoutRoot } ∧
      4 ≤ validSigs e tx wit ∧ tx.Pays wit.rootOutIdx s.pool_value := by
  simp only [close_commit, Option.bind_eq_bind, Option.bind_eq_some_iff, require_eq_some,
    exists_const, requireOutputValue_eq_some, Option.some.injEq] at h
  obtain ⟨hclosed, -, -, -, hsigs, _, -, hpays, rfl⟩ := h
  exact ⟨hclosed, rfl, hsigs, hpays⟩

theorem refund_flip_spec {c : CloseContract} {rootOutIdx : Int}
    (h : refund_flip e i64 c s tx rootOutIdx = some next) :
    s.closed = 0 ∧ next = { s with closed := 2 } ∧ tx.Pays rootOutIdx s.pool_value := by
  simp only [refund_flip, Option.bind_eq_bind, Option.bind_eq_some_iff, require_eq_some,
    exists_const, requireOutputValue_eq_some, Option.some.injEq] at h
  obtain ⟨hclosed, _, -, -, _, -, hpays, rfl⟩ := h
  exact ⟨hclosed, rfl, hpays⟩

theorem convert_to_claim_spec {c : CloseContract} {claimOutIdx : Int} {claim : Template}
    (h : convert_to_claim e c s tx claimOutIdx claim = some ()) :
    s.closed = 1 ∧ tx.Pays claimOutIdx s.pool_value := by
  simp only [convert_to_claim, Option.bind_eq_bind, Option.bind_eq_some_iff, require_eq_some,
    exists_const, requireOutputValue_eq_some] at h
  obtain ⟨hclosed, _, -, hpays⟩ := h
  exact ⟨hclosed, hpays⟩

theorem convert_to_refundclaim_spec {c : CloseContract} {rcOutIdx : Int} {rc : Template}
    (h : convert_to_refundclaim e c s tx rcOutIdx rc = some ()) :
    s.closed = 2 ∧ tx.Pays rcOutIdx s.pool_value := by
  simp only [convert_to_refundclaim, Option.bind_eq_bind, Option.bind_eq_some_iff, require_eq_some,
    exists_const, requireOutputValue_eq_some] at h
  obtain ⟨hclosed, _, -, hpays⟩ := h
  exact ⟨hclosed, hpays⟩

/-- The witness opens the slot of a leaf. -/
def ClaimWitness.Opens (e : Engine) (root : Bytes32) (wit : ClaimWitness) : Prop :=
  ∃ leaf, payoutLeaf e wit.tk.bettorPk wit.payout = some leaf ∧
    Merkle.climb (hashNode e) wit.merkle_index.toNat leaf
      (wit.siblings.take wit.tree_depth.toNat) = root

/-- **What a claim accepts**: a leaf in a slot that is not marked. -/
structure Claimed (e : Engine) (c : DrawContract) (s : RootState) (bitmap : Int) (tx : Tx)
    (wit : ClaimWitness) (next : RootState) (marked : Int) : Prop where
  closed : s.closed = 1
  ticket : readTicket e c.ps_tmpl_hash tx wit.ticketInIdx wit.ticket wit.tk = some ()
  pool : wit.tk.shardPoolId = c.shard_pool_id
  direction : wit.tk.direction = s.winningSide
  opens : wit.Opens e s.payoutRoot
  slot : wit.merkle_index = 0 ∧ bitmap.tmod 2 = 0 ∧ marked = bitmap + 1 ∨
    wit.merkle_index = 1 ∧ (bitmap.tdiv 2).tmod 2 = 0 ∧ marked = bitmap + 2
  paid : tx.PaysExactly wit.payoutOutIdx wit.tk.bettorPk wit.payout
  next_eq : next = { s with pool_value := s.pool_value - wit.payout }
  pays : tx.Pays wit.rootOutIdx (s.pool_value - wit.payout)

theorem climbLevel_eq_some {wit : ClaimWitness} {leaf cur : Bytes32} {div : Int}
    (h0 : 0 ≤ wit.tree_depth) (h1 : wit.tree_depth ≤ 1) (hindex : 0 ≤ wit.merkle_index)
    (h : climbLevel e i64 wit leaf = some (cur, div)) : div ≤ 2 ∧ cur =
      Merkle.climb (hashNode e) wit.merkle_index.toNat leaf
        (wit.siblings.take wit.tree_depth.toNat) := by
  unfold climbLevel at h
  split at h
  · next hzero =>
    obtain ⟨rfl, rfl⟩ := Prod.mk.inj (Option.some.inj h)
    rw [hzero]
    exact ⟨by omega, rfl⟩
  · next hone =>
    have hdepth : wit.tree_depth = 1 := by omega
    obtain ⟨k, hk⟩ : ∃ k : Nat, wit.merkle_index = k := ⟨wit.merkle_index.toNat, by omega⟩
    simp only [Option.bind_eq_bind, Option.bind_eq_some_iff, Option.some.injEq,
      Prod.mk.injEq] at h
    obtain ⟨sibling, hsibling, d, hd, rfl, rfl⟩ := h
    obtain ⟨rest, hrest⟩ : ∃ rest, wit.siblings = sibling :: rest :=
      ⟨_, (List.cons_head?_tail hsibling).symm⟩
    have hstep := climbStep_pow e k 0 leaf sibling
    rw [pow_zero, Nat.div_one, Nat.cast_one] at hstep
    rw [i64_exact _ _ hd, hdepth, hrest, hk, hstep]
    exact ⟨by omega, rfl⟩

theorem claim_draw_spec {c : DrawContract} {bitmap marked : Int} {wit : ClaimWitness}
    (h : claim_draw e i64 c s bitmap tx wit = some (next, marked)) :
    Claimed e c s bitmap tx wit next marked := by
  simp only [claim_draw, Option.bind_eq_bind, Option.bind_eq_some_iff, require_eq_some,
    exists_const, requireOutputValue_eq_some, requireOutput_eq_some, Option.some.injEq,
    Prod.mk.injEq] at h
  obtain ⟨hclosed, h0, h1, hindex, -, -, _, hticket, hpool, hdir, leaf, hleaf, ⟨cur, div⟩, hclimb,
    hroot, hlt, mask, hmask, hfree, hpaid, rest, hrest, m, hm, _, -, hpays, rfl, rfl⟩ := h
  obtain ⟨hdiv, hcur⟩ := climbLevel_eq_some h0 h1 hindex hclimb
  obtain rfl := i64_exact _ _ hrest
  obtain rfl := i64_exact _ _ hm
  dsimp only at hroot hlt
  refine ⟨hclosed, hticket, hpool, hdir, ⟨leaf, hleaf, by rw [← hcur, hroot]⟩, ?_, hpaid, ?_,
    hpays⟩
  · obtain hzero | hone : wit.merkle_index = 0 ∨ wit.merkle_index = 1 := by omega
    · have hone : mask = 1 := by
        rw [hzero] at hmask
        exact (Option.some.inj hmask).symm
      rw [hone, Int.tdiv_one] at hfree
      exact Or.inl ⟨hzero, hfree, by rw [hone]⟩
    · have htwo : mask = 2 := by
        rw [hone] at hmask
        have htwice : maskLoop i64 (min (1 : Int).toNat 2) 1 = some 2 := by decide
        rw [htwice] at hmask
        exact (Option.some.inj hmask).symm
      rw [htwo] at hfree
      exact Or.inr ⟨hone, hfree, by rw [htwo]⟩
  · rw [← hclosed]

/-- **What a refund accepts**: any ticket of the pool. -/
theorem refund_payout_spec {c : DrawContract} {wit : RefundWitness}
    (h : refund_payout e i64 c s tx wit = some next) :
    s.closed = 2 ∧ readTicket e c.ps_tmpl_hash tx wit.ticketInIdx wit.ticket wit.tk = some () ∧
      wit.tk.shardPoolId = c.shard_pool_id ∧
      tx.PaysExactly wit.payoutOutIdx wit.tk.bettorPk wit.tk.stake ∧
      next = { s with pool_value := s.pool_value - wit.tk.stake } ∧
      tx.Pays wit.rootOutIdx (s.pool_value - wit.tk.stake) := by
  simp only [refund_payout, Option.bind_eq_bind, Option.bind_eq_some_iff, require_eq_some,
    exists_const, requireOutputValue_eq_some, requireOutput_eq_some, Option.some.injEq] at h
  obtain ⟨hclosed, _, hticket, hpool, hpaid, rest, hrest, _, -, hpays, rfl⟩ := h
  obtain rfl := i64_exact _ _ hrest
  exact ⟨hclosed, hticket, hpool, hpaid, by rw [← hclosed], hpays⟩

end Spec

end KANet.Covenant.Root
