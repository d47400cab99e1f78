import KANet.Covenant.Nullifier
import KANet.Lib.Merkle

/-!
# The checks the payout covenants share

The covenant language has no internal functions, so the same two blocks of source are
repeated from entry to entry: the one that pays a leaf of a ten-level tree once
(`storePayout`, in `claim`, `refund_claim` and `escape_claim`), and the one by which
four of five committee members speak for the pool (`committeeAttests`, in
`close_attest` and `cancel_attest`).

`storePayout_eq_some` says what the first accepts: a leaf of the tree, not paid yet,
no larger than the pool, with an output that pays it to its owner.
-/

namespace KANet.Covenant

open KANet.Lib KANet.Script

/-- `blake2b(byte[](a) + byte[](b))` -/
def hashNode (e : Engine) (a b : Bytes32) : Bytes32 := e.blake2b (a.toList ++ b.toList)

/-- One level of a path: on which side the sibling goes is `(index / div) % 2`. -/
def climbStep (e : Engine) (index div : Int) (cur s : Bytes32) : Bytes32 :=
  if (index.tdiv div).tmod 2 = 0 then hashNode e cur s else hashNode e s cur

/-! ### Paying a leaf -/

/-- The levels still to climb, with the divisor the script doubles after each. -/
def climbLoop (e : Engine) (ar : Arith) (merkle_index : Int) :
    Int → Bytes32 → List Bytes32 → Option Bytes32
  | _, cur, [] => some cur
  | div, cur, s :: ss => do
    let cur := climbStep e merkle_index div cur s
    let div ← ar (div * 2)
    climbLoop e ar merkle_index div cur ss

/-- `blake2b(byte[](pk) + byte[](amount, 8))` -/
def payoutLeaf (e : Engine) (pk : Bytes32) (amount : Int) : Option Bytes32 :=
  (num2bin amount 8).map fun bs => e.blake2b (pk.toList ++ bs)

/-- What the spender of a payout entry supplies. -/
structure PayWitness where
  selfOutIdx : Int
  payoutOutIdx : Int
  bettorPk : Bytes32
  payout : Int
  merkle_index : Int
  s : List.Vector Bytes32 10

/-- Output `payoutOutIdx` pays `payout` to the key of the leaf. -/
def requirePaid (tx : Tx) (wit : PayWitness) : Option Unit := do
  let out ← tx.output wit.payoutOutIdx
  require (out.scriptPubKey = ScriptPubKeyP2PK wit.bettorPk)
  require ((out.value : Int) = wit.payout)

/-- From the bounds on the index to the payment itself, with the words as they are afterwards. -/
def storePayout (e : Engine) (ar : Arith) (root : Bytes32) (consolidated_pool : Int) (w : Words)
    (tx : Tx) (wit : PayWitness) : Option Words := do
  require (0 ≤ wit.merkle_index)
  require (wit.merkle_index < 1024)
  require (1 ≤ wit.payout)
  require (wit.payout ≤ consolidated_pool)
  let leaf ← payoutLeaf e wit.bettorPk wit.payout
  let cur ← climbLoop e ar wit.merkle_index 1 leaf wit.s.toList
  require (cur = root)
  let nw ← nullify ar w wit.merkle_index
  requirePaid tx wit
  some nw

/-- The payment of a witness is among the outputs. -/
def PayWitness.Paid (wit : PayWitness) (tx : Tx) : Prop :=
  ∃ out, tx.output wit.payoutOutIdx = some out ∧
    out.scriptPubKey = ScriptPubKeyP2PK wit.bettorPk ∧ (out.value : Int) = wit.payout

/-- The witness opens a leaf of the tree with the given root. -/
def PayWitness.Opens (e : Engine) (wit : PayWitness) (root : Bytes32) : Prop :=
  ∃ leaf, payoutLeaf e wit.bettorPk wit.payout = some leaf ∧
    Merkle.climb (hashNode e) wit.merkle_index.toNat leaf wit.s.toList = root

@[simp] theorem requirePaid_eq_some {tx : Tx} {wit : PayWitness} {u : Unit} :
    requirePaid tx wit = some u ↔ wit.Paid tx := by
  simp [requirePaid, PayWitness.Paid, Option.bind_eq_some_iff]

theorem climbStep_pow (e : Engine) (k j : Nat) (cur s : Bytes32) :
    climbStep e (k : Int) ((2 ^ j : Nat) : Int) cur s =
      if k / 2 ^ j % 2 = 0 then hashNode e cur s else hashNode e s cur := by
  have h : ((k : Int).tdiv ((2 ^ j : Nat) : Int)).tmod 2 = ((k / 2 ^ j % 2 : Nat) : Int) := rfl
  unfold climbStep
  rw [h]
  norm_cast

theorem climbLoop_eq (e : Engine) {ar : Arith} (har : Lawful ar) (k : Nat) (ss : List Bytes32)
    (j : Nat) (cur : Bytes32) (hj : j + ss.length ≤ 62) :
    climbLoop e ar (k : Int) ((2 ^ j : Nat) : Int) cur ss =
      some (Merkle.climb (hashNode e) (k / 2 ^ j) cur ss) := by
  induction ss generalizing j cur with
  | nil => rfl
  | cons s ss ih =>
    rw [List.length_cons] at hj
    have hpow : (2 : Nat) ^ (j + 1) < 2 ^ 63 := Nat.pow_lt_pow_right (by omega) (by omega)
    have hdiv : ar (((2 ^ j : Nat) : Int) * 2) = some ((2 ^ (j + 1) : Nat) : Int) := by
      have he : ((2 ^ j : Nat) : Int) * 2 = ((2 ^ (j + 1) : Nat) : Int) := by
        push_cast
        ring
      rw [he]
      exact har.nonneg _ (by positivity) (by exact_mod_cast hpow)
    have hhalf : k / 2 ^ (j + 1) = k / 2 ^ j / 2 := by
      rw [pow_succ, Nat.div_div_eq_div_mul]
    rw [climbLoop, hdiv]
    simp only [Option.bind_eq_bind, Option.bind_some]
    rw [ih (j + 1) _ (by omega), climbStep_pow, Merkle.climb, hhalf]

/-- **What paying a leaf accepts**, with any lawful arithmetic. -/
theorem storePayout_eq_some {e : Engine} {ar : Arith} (har : Lawful ar) {root : Bytes32}
    {pool : Int} {w nw : Words} (hw : WordsOk w) {tx : Tx} {wit : PayWitness} :
    storePayout e ar root pool w tx wit = some nw ↔
      ∃ k : Nat, wit.merkle_index = k ∧ k < 1024 ∧ 1 ≤ wit.payout ∧ wit.payout ≤ pool ∧
        wit.Opens e root ∧ ¬ Marked w k ∧ wit.Paid tx ∧ nw = mark w k := by
  have hclimb : ∀ (k : Nat) (leaf : Bytes32), climbLoop e ar (k : Int) 1 leaf wit.s.toList =
      some (Merkle.climb (hashNode e) k leaf wit.s.toList) := by
    intro k leaf
    have := climbLoop_eq e har k wit.s.toList 0 leaf (by simp)
    simpa using this
  unfold storePayout
  simp only [require_bind_eq_some]
  constructor
  · rintro ⟨h0, h1, h2, h3, h⟩
    obtain ⟨k, hk⟩ : ∃ k : Nat, wit.merkle_index = k := ⟨wit.merkle_index.toNat, by omega⟩
    have hk' : k < 1024 := by omega
    simp only [Option.bind_eq_bind, Option.bind_eq_some_iff, hk, hclimb, Option.some.injEq,
      require_eq_some, nullify_eq_some har hw hk', requirePaid_eq_some] at h
    obtain ⟨leaf, hleaf, _, rfl, _, hroot, _, ⟨hm, rfl⟩, _, hpaid, rfl⟩ := h
    exact ⟨k, hk, hk', h2, h3, ⟨leaf, hleaf, by rw [hk]; exact hroot⟩, hm, hpaid, rfl⟩
  · rintro ⟨k, hk, hk', h2, h3, ⟨leaf, hleaf, hroot⟩, hm, hpaid, rfl⟩
    rw [hk, Int.toNat_natCast] at hroot
    refine ⟨by omega, by omega, h2, h3, ?_⟩
    simp only [Option.bind_eq_bind, Option.bind_eq_some_iff, hk, hclimb, Option.some.injEq,
      require_eq_some, nullify_eq_some har hw hk', requirePaid_eq_some]
    exact ⟨leaf, hleaf, _, rfl, (), hroot, _, ⟨hm, rfl⟩, (), hpaid, rfl⟩

/-! ### The committee -/

/-- A committee member: its signature, key, position in the oracle pool and path there. -/
structure Member where
  sig : Bytes
  pk : Bytes32
  idx : Int
  s : List.Vector Bytes32 8

/-- The eight levels from a member's key, with the divisors the script writes out. -/
def Member.climb (e : Engine) (c : Member) : Bytes32 :=
  ([1, 2, 4, 8, 16, 32, 64, 128].zip c.s.toList).foldl
    (fun cur p => climbStep e c.idx p.1 cur p.2) (e.blake2b c.pk.toList)

theorem foldl_climbStep (e : Engine) (k : Nat) (ss : List Bytes32) (j : Nat) (cur : Bytes32) :
    (((List.range' j ss.length).map fun i => ((2 ^ i : Nat) : Int)).zip ss).foldl
      (fun cur p => climbStep e (k : Int) p.1 cur p.2) cur =
      Merkle.climb (hashNode e) (k / 2 ^ j) cur ss := by
  induction ss generalizing j cur with
  | nil => rfl
  | cons s ss ih =>
    have hhalf : k / 2 ^ (j + 1) = k / 2 ^ j / 2 := by
      rw [pow_succ, Nat.div_div_eq_div_mul]
    rw [List.length_cons, List.range'_succ, List.map_cons, List.zip_cons_cons, List.foldl_cons,
      ih (j + 1), climbStep_pow, Merkle.climb, hhalf]

/-- Written out with constant divisors, it is still the climb of the tree. -/
theorem Member.climb_eq (e : Engine) {c : Member} {k : Nat} (hk : c.idx = k) :
    c.climb e = Merkle.climb (hashNode e) k (e.blake2b c.pk.toList) c.s.toList := by
  have hdiv : ([1, 2, 4, 8, 16, 32, 64, 128] : List Int) =
      (List.range' 0 c.s.toList.length).map fun i => ((2 ^ i : Nat) : Int) := by
    rw [List.Vector.toList_length]
    rfl
  rw [Member.climb, hdiv, hk, foldl_climbStep e k c.s.toList 0, pow_zero, Nat.div_one]

/-- What the committee supplies to an attestation. -/
structure CommitteeWitness where
  members : List.Vector Member 5
  committeePkHash : Bytes32

/-- Checks ①, ② and ③ of an attestation: four of five signatures by distinct keys, the hash of
the five keys, and each key's place in the pool. -/
def committeeAttests (e : Engine) (poolMerkleRoot predicate_commit : Bytes32) (tx : Tx)
    (cw : CommitteeWitness) : Option Unit := do
  let cs := cw.members.toList
  require (e.blake2b predicate_commit.toList ≠ predicate_commit)
  require (4 ≤ cs.countP fun c => e.checkSig tx c.sig c.pk)
  require (cs.map Member.pk).Nodup
  require (e.blake2b (cs.flatMap fun c => c.pk.toList) = cw.committeePkHash)
  require (∀ c ∈ cs, 0 ≤ c.idx ∧ c.idx < 256 ∧ c.climb e = poolMerkleRoot)

end KANet.Covenant
