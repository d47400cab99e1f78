import KANet.Covenant.Checks
import KANet.Lib.Runs
import KANet.Settle.PoolSpine

/-!
# `settle_chunk` of `PoolSpine_v08_chunk.sil`

A pool with too many winners for one transaction is paid out by a chain of them.  The first chunk
spends the pool's coin: the committee signs it, and with it the root of the plan and the number of
winners.  Each chunk pays the next segment of the plan, leaf by leaf against the root, and but for
the last leaves its change under the same script, with what is paid so far, the root and the number
as its state.

The kind of a chunk is a witness.  The committee's keys are not looked up in the pool; a later coin
may be spent as a first chunk again; and the fee is worked out from input 0, wherever the script
runs.

* `settle_chunk_eq_some` — what a chunk that is accepted is.
* `chain_pays_plan` — what a chain of them pays, and when.
-/

namespace KANet.Settle.ChunkSpine

open KANet.Lib KANet.Script KANet.Covenant KANet.Settle.PoolSpine

/-- The constructor arguments that `settle_chunk` reads, and the root of the oracle pool. -/
structure Contract where
  template : Template
  brokerPk : Bytes32
  poolMerkleRoot : Bytes32
  oracleBondAmount : Int
  maxWinnersPerChunk : Int
  init_hwm : Int
  init_plan_commit : Bytes32
  init_total_winners : Int
  maxChunkFee : Int
deriving DecidableEq

structure State where
  hwm : Int
  planCommit : Bytes32
  totalWinners : Int
deriving DecidableEq

def State.fields (s : State) : List Field := [.int s.hwm, .byte32 s.planCommit, .int s.totalWinners]

/-- The state of the pool's coin. -/
def Contract.init (c : Contract) : State := ⟨c.init_hwm, c.init_plan_commit, c.init_total_winners⟩

structure Signer where
  sig : Bytes
  pk : Bytes32

/-- What the spender supplies. -/
structure ChunkWitness where
  committee : List.Vector Signer 5
  committeePkHash : Bytes32
  winner : Int
  plan_commit_arg : Bytes32
  total_winners_arg : Int
  globalYesTotal_sompi : Int
  globalNoTotal_sompi : Int
  chunk_kind : Int
  seg_lo : Int
  seg_hi : Int
  winnerPks : List Bytes32
  winnerAmounts : List Int
  winnerSiblings : List Bytes32

/-! ### The entry -/

/-- `for (k, 0, n, …)`, of which a turn may stop the script. -/
def requireEach (turn : Nat → Option Unit) : Nat → Option Unit
  | 0 => some ()
  | n + 1 => do
    requireEach turn n
    turn n

/-- The outputs of the committee, from the `i`-th on. -/
def requireBonds (tx : Tx) (bond : Int) : Int → List Bytes32 → Option Unit
  | _, [] => some ()
  | i, pk :: pks => do
    requireLock tx i pk bond
    requireBonds tx bond (i + 1) pks

/-- What is asked of the first chunk alone. -/
def requireCommittee (e : Engine) (ar : Arith) (c : Contract) (tx : Tx) (wit : ChunkWitness) :
    Option Unit := do
  let cs := wit.committee.toList
  require (4 ≤ cs.countP fun m => e.checkSig tx m.sig m.pk)
  require (e.blake2b (cs.flatMap fun m => m.pk.toList) = wit.committeePkHash)
  requireLock tx 0 c.brokerPk 1000
  requireBonds tx c.oracleBondAmount 1 (cs.map Signer.pk)
  require (0 ≤ wit.globalYesTotal_sompi)
  require (0 ≤ wit.globalNoTotal_sompi)
  let pot ← ar (wit.globalYesTotal_sompi + wit.globalNoTotal_sompi)
  require (10000000000 ≤ pot)
  require (wit.globalYesTotal_sompi < 1000000000000000000)
  require (wit.globalNoTotal_sompi < 1000000000000000000)

/-- `prevHwm`, `effPlanCommit` and `effTotalWinners`; the first chunk has them of the witness. -/
def ChunkWitness.prev (wit : ChunkWitness) (s : State) : State :=
  if wit.chunk_kind = 0 then ⟨0, wit.plan_commit_arg, wit.total_winners_arg⟩ else s

def ChunkWitness.wOutBase (wit : ChunkWitness) : Nat := if wit.chunk_kind = 0 then 6 else 0

/-- The eight siblings of winner `k` of the segment. -/
def ChunkWitness.siblings (wit : ChunkWitness) (k : Nat) : Option (List Bytes32) :=
  (List.range 8).mapM fun lvl => wit.winnerSiblings[k * 8 + lvl]?

/-- Eight levels, with the divisors the script writes out. -/
def climbEight (e : Engine) (widx : Int) (leaf : Bytes32) (siblings : List Bytes32) : Bytes32 :=
  ([1, 2, 4, 8, 16, 32, 64, 128].zip siblings).foldl
    (fun cur p => climbStep e widx p.1 cur p.2) leaf

/-- A winner of the segment: a leaf of the plan at the next index, and the output that pays it. -/
def requireWinner (e : Engine) (ar : Arith) (tx : Tx) (wit : ChunkWitness) (plan : Bytes32)
    (k : Nat) : Option Unit := do
  let widx ← ar (wit.seg_lo + k)
  require (0 ≤ widx)
  require (widx < 256)
  let pk ← wit.winnerPks[k]?
  let amount ← wit.winnerAmounts[k]?
  let leaf ← payoutLeaf e pk amount
  let siblings ← wit.siblings k
  require (climbEight e widx leaf siblings = plan)
  requireOutput tx (wit.wOutBase + k : Nat) pk amount

/-- The change goes on under this contract. -/
def requireChange (e : Engine) (c : Contract) (tx : Tx) (changeIdx : Int) (next : State) :
    Option Unit := do
  let out ← tx.output changeIdx
  require (0 < out.value)
  validateOutputState e c.template tx changeIdx next.fields

/-- The sum of some outputs, added one by one. -/
def sumOutputs (ar : Arith) (tx : Tx) : Int → List Nat → Option Int
  | sum, [] => some sum
  | sum, i :: is => do
    let out ← tx.output i
    let sum ← ar (sum + out.value)
    sumOutputs ar tx sum is

/-- The outputs in the order in which they are added: the winners, then the broker and the
committee, then the change. -/
def ChunkWitness.summed (wit : ChunkWitness) (segLen : Nat) : List Nat :=
  (List.range segLen).map (wit.wOutBase + ·) ++ List.range wit.wOutBase ++
    if wit.chunk_kind = 2 then [] else [wit.wOutBase + segLen]

/-- The state that the change carries; the last chunk leaves none. -/
def settle_chunk (e : Engine) (ar : Arith) (c : Contract) (s : State) (tx : Tx)
    (wit : ChunkWitness) : Option (Option State) := do
  require (0 ≤ wit.chunk_kind)
  require (wit.chunk_kind ≤ 2)
  require (wit.winner = 0 ∨ wit.winner = 1)
  (if wit.chunk_kind = 0 then requireCommittee e ar c tx wit else some ())
  require (0 ≤ wit.seg_lo)
  require (wit.seg_lo < wit.seg_hi)
  let segLen ← ar (wit.seg_hi - wit.seg_lo)
  require (segLen ≤ c.maxWinnersPerChunk)
  requireEach (requireWinner e ar tx wit (wit.prev s).planCommit) segLen.toNat
  require (wit.seg_lo = (wit.prev s).hwm)
  require (wit.chunk_kind = 0 ↔ wit.seg_lo = 0)
  require (wit.chunk_kind = 2 ↔ wit.seg_hi = (wit.prev s).totalWinners)
  (if wit.chunk_kind = 2 then some ()
    else requireChange e c tx (wit.wOutBase + segLen.toNat : Nat)
      { wit.prev s with hwm := wit.seg_hi })
  require (tx.outputs.length =
    wit.wOutBase + segLen.toNat + if wit.chunk_kind = 2 then 0 else 1)
  let sumOut ← sumOutputs ar tx 0 (wit.summed segLen.toNat)
  let in0 ← tx.input 0
  let chunkMinerFee ← ar (in0.value - sumOut)
  require (0 ≤ chunkMinerFee)
  require (chunkMinerFee ≤ c.maxChunkFee)
  some (if wit.chunk_kind = 2 then none else some { wit.prev s with hwm := wit.seg_hi })

/-! ### Chains of chunks -/

/-- A spend of the pool's coin or of a change: the transaction, the input the script runs at, and
the witness. -/
structure Spend where
  tx : Tx
  activeInputIndex : Int
  wit : ChunkWitness

def Spend.segLen (a : Spend) : Nat := (a.wit.seg_hi - a.wit.seg_lo).toNat

/-- The leaves that a chunk pays. -/
def Spend.indices (a : Spend) : List Nat := List.range' a.wit.seg_lo.toNat a.segLen

/-- The coin at the end of the chain. -/
structure Tip where
  first : Bool
  state : State
  value : Nat

/-- The pool's coin. -/
def Contract.poolLock (c : Contract) (value : Nat) : Tip := ⟨true, c.init, value⟩

def stateLock (e : Engine) (c : Contract) (s : State) : Bytes :=
  ScriptPubKeyP2SH (e.blake2b (c.template.redeem ((serializeState s.fields).getD [])))

/-- The coin is spent by an accepted chunk, and its change, if there is one, is the next. -/
def Step (e : Engine) (c : Contract) (t : Option Tip) (a : Spend) (t' : Option Tip) : Prop :=
  ∃ tip, t = some tip ∧
    (∃ inp, a.tx.input a.activeInputIndex = some inp ∧ inp.value = tip.value ∧
      inp.scriptPubKey = stateLock e c tip.state) ∧
    ∃ next, settle_chunk e i64 c tip.state a.tx a.wit = some next ∧
      t' = next.bind fun s => (a.tx.output (a.wit.wOutBase + a.segLen : Nat)).map fun out =>
        ⟨false, s, out.value⟩

/-! ### What a chain should pay -/

/-- A key has a place in the oracle pool. -/
def MemberOf (e : Engine) (root : Bytes32) (pk : Bytes32) : Prop :=
  ∃ m : Member, m.pk = pk ∧ 0 ≤ m.idx ∧ m.idx < 256 ∧ m.climb e = root

/-- Four different members of the pool have signed. -/
def FourMembers (e : Engine) (c : Contract) (a : Spend) : Prop :=
  ∃ signers : List Signer, signers.Sublist a.wit.committee.toList ∧ 4 ≤ signers.length ∧
    (signers.map Signer.pk).Nodup ∧
    ∀ m ∈ signers, MemberOf e c.poolMerkleRoot m.pk ∧ e.checkSig a.tx m.sig m.pk = true

/-- Output `out` pays what the leaf at index `i` of the plan says. -/
structure PaysLeaf (e : Engine) (tx : Tx) (plan : Bytes32) (out i : Nat) (pk : Bytes32)
    (amount : Int) (leaf : Bytes32) (siblings : List Bytes32) : Prop where
  leaf_eq : payoutLeaf e pk amount = some leaf
  depth : siblings.length = 8
  index : i < 256
  climb : Merkle.climb (hashNode e) i leaf siblings = plan
  pays : tx.PaysExactly (out : Int) pk amount

/-- The committee's part of the first chunk: the broker's output, and a bond for each key. -/
structure PaysCommittee (c : Contract) (a : Spend) : Prop where
  broker : PaysKey a.tx 0 c.brokerPk 1000
  bonds : ∀ (j : Nat) (m : Signer), a.wit.committee.toList[j]? = some m →
    PaysKey a.tx ((1 + j : Nat) : Int) m.pk c.oracleBondAmount

def sumOut (tx : Tx) : Int := (tx.outputs.map fun out => (out.value : Int)).sum

/-- How much of the plan is paid when a coin is made. -/
def Tip.paid (tip : Tip) : Int := if tip.first then 0 else tip.state.hwm

/-- A chunk pays the next segment of the plan out of its own coin, and nothing else. -/
structure PaysSegment (e : Engine) (c : Contract) (plan : Bytes32) (total : Int) (tip : Tip)
    (a : Spend) (t' : Option Tip) : Prop where
  next : a.wit.seg_lo = tip.paid
  nonempty : 0 < a.segLen
  winners : ∀ k < a.segLen, ∃ pk amount leaf siblings,
    PaysLeaf e a.tx plan (a.wit.wOutBase + k) (a.wit.seg_lo.toNat + k) pk amount leaf siblings
  committee : tip.first = true → PaysCommittee c a
  base : a.wit.wOutBase = if tip.first then 6 else 0
  outputs : a.tx.outputs.length = a.wit.wOutBase + a.segLen + if t'.isSome then 1 else 0
  change : ∀ tip' ∈ t', tip'.first = false ∧ tip'.state = ⟨a.wit.seg_hi, plan, total⟩ ∧
    ∃ out, a.tx.output (a.wit.wOutBase + a.segLen : Nat) = some out ∧ out.value = tip'.value ∧
      out.scriptPubKey = stateLock e c tip'.state
  fee : 0 ≤ tip.value - sumOut a.tx ∧ tip.value - sumOut a.tx ≤ c.maxChunkFee
  ends : t' = none ↔ a.wit.seg_hi = total

/-- **The chain pays the plan of its first chunk**, each leaf once, in order, and nothing else. -/
structure PaysPlan (e : Engine) (c : Contract) (value : Nat) (a₀ : Spend) (as : List Spend)
    (t : Option Tip) : Prop where
  authorised : FourMembers e c a₀
  each : ∀ pre a post, a₀ :: as = pre ++ a :: post → ∀ t₁ t₂,
    Run (Step e c) (some (c.poolLock value)) pre t₁ → Step e c t₁ a t₂ → ∃ tip, t₁ = some tip ∧
      PaysSegment e c a₀.wit.plan_commit_arg a₀.wit.total_winners_arg tip a t₂
  leaves : ∃ n : Nat, (a₀ :: as).flatMap Spend.indices = List.range n ∧
    (n : Int) ≤ a₀.wit.total_winners_arg ∧ (t = none ↔ (n : Int) = a₀.wit.total_winners_arg)

/-- The first chunk, and no other, is spent as one; its keys are different members of the pool;
every chunk spends its coin as the first input; and none goes past the last winner. -/
structure Proper (e : Engine) (c : Contract) (a₀ : Spend) (as : List Spend) : Prop where
  first : a₀.wit.chunk_kind = 0
  later : ∀ a ∈ as, a.wit.chunk_kind ≠ 0
  distinct : (a₀.wit.committee.toList.map Signer.pk).Nodup
  members : ∀ m ∈ a₀.wit.committee.toList, MemberOf e c.poolMerkleRoot m.pk
  own : ∀ a ∈ a₀ :: as, a.activeInputIndex = 0
  within : ∀ a ∈ a₀ :: as, a.wit.seg_hi ≤ a₀.wit.total_winners_arg

/-! ### What the entry accepts -/

section Entry

variable {e : Engine} {c : Contract} {s : State} {tx : Tx} {wit : ChunkWitness}

theorem requireEach_eq_some {turn : Nat → Option Unit} {n : Nat} {u : Unit} :
    requireEach turn n = some u ↔ ∀ k < n, turn k = some () := by
  induction n with
  | zero => simp [requireEach]
  | succ n ih =>
    simp only [requireEach, Option.bind_eq_bind, Option.bind_eq_some_iff, ih, exists_const]
    constructor
    · rintro ⟨hall, hlast⟩ k hk
      rcases Nat.lt_succ_iff_lt_or_eq.mp hk with hlt | rfl
      · exact hall k hlt
      · exact hlast
    · intro h
      exact ⟨fun k hk => h k (Nat.lt_succ_of_lt hk), h n (Nat.lt_succ_self n)⟩

theorem requireBonds_eq_some {bond : Int} {pks : List Bytes32} {i : Nat} {u : Unit} :
    requireBonds tx bond i pks = some u ↔
      ∀ (j : Nat) (pk : Bytes32), pks[j]? = some pk → PaysKey tx ((i + j : Nat) : Int) pk bond := by
  induction pks generalizing i with
  | nil => simp [requireBonds]
  | cons pk pks ih =>
    have hnext : (i : Int) + 1 = ((i + 1 : Nat) : Int) := by push_cast; ring
    simp only [requireBonds, hnext, Option.bind_eq_bind, Option.bind_eq_some_iff,
      requireLock_eq_some, ih, exists_const]
    constructor
    · rintro ⟨hhead, htail⟩ j pk' hj
      cases j with
      | zero =>
        obtain rfl := Option.some.inj hj
        exact hhead
      | succ j =>
        have heq : i + (j + 1) = i + 1 + j := by omega
        rw [heq]
        exact htail j pk' hj
    · intro h
      refine ⟨h 0 pk rfl, ?_⟩
      intro j pk' hj
      have heq : i + 1 + j = i + (j + 1) := by omega
      rw [heq]
      exact h (j + 1) pk' hj

theorem climbEight_eq {i : Nat} {leaf : Bytes32} {siblings : List Bytes32}
    (h : siblings.length = 8) :
    climbEight e (i : Int) leaf siblings = Merkle.climb (hashNode e) i leaf siblings := by
  have hdiv : ([1, 2, 4, 8, 16, 32, 64, 128] : List Int) =
      (List.range' 0 siblings.length).map fun i => ((2 ^ i : Nat) : Int) := by
    rw [h]
    rfl
  rw [climbEight, hdiv, foldl_climbStep e i siblings 0, pow_zero, Nat.div_one]

theorem length_of_mapM {α β : Type} {f : α → Option β} {l : List α} {l' : List β}
    (h : l.mapM f = some l') : l'.length = l.length := by
  induction l generalizing l' with
  | nil =>
    obtain rfl := Option.some.inj h
    rfl
  | cons a l ih =>
    rw [List.mapM_cons] at h
    simp only [Option.bind_eq_bind, Option.bind_eq_some_iff, Option.pure_def,
      Option.some.injEq] at h
    obtain ⟨b, -, bs, hbs, rfl⟩ := h
    rw [List.length_cons, List.length_cons, ih hbs]

/-- A winner that is let through is paid what a leaf of the plan says. -/
theorem requireWinner_eq_some {plan : Bytes32} {k : Nat} {u : Unit} (hlo : 0 ≤ wit.seg_lo)
    (h : requireWinner e i64 tx wit plan k = some u) : ∃ pk amount leaf siblings,
      wit.winnerPks[k]? = some pk ∧ wit.winnerAmounts[k]? = some amount ∧
      wit.siblings k = some siblings ∧
      PaysLeaf e tx plan (wit.wOutBase + k) (wit.seg_lo.toNat + k) pk amount leaf siblings := by
  simp only [requireWinner, Option.bind_eq_bind, Option.bind_eq_some_iff, require_eq_some,
    exists_const, requireOutput_eq_some] at h
  obtain ⟨widx, hwidx, -, hlt, pk, hpk, amount, hamount, leaf, hleaf, sibs, hsibs, hclimb,
    hpays⟩ := h
  have hw : widx = ((wit.seg_lo.toNat + k : Nat) : Int) := by
    rw [i64_exact _ _ hwidx]
    omega
  have hlen : sibs.length = 8 := by
    rw [length_of_mapM hsibs]
    rfl
  rw [hw, climbEight_eq hlen] at hclimb
  exact ⟨pk, amount, leaf, sibs, hpk, hamount, hsibs, hleaf, hlen, by omega, hclimb, hpays⟩

/-- The value of output `i`. -/
def valueAt (tx : Tx) (i : Nat) : Int := ((tx.outputs[i]?.map TxOutput.value).getD 0 : Nat)

theorem sumOutputs_eq_some {sum n : Int} {is : List Nat} (h : sumOutputs i64 tx sum is = some n) :
    n = sum + (is.map (valueAt tx)).sum := by
  induction is generalizing sum with
  | nil =>
    obtain rfl := Option.some.inj h
    simp
  | cons i is ih =>
    simp only [sumOutputs, Option.bind_eq_bind, Option.bind_eq_some_iff] at h
    obtain ⟨out, hout, sum', hsum, hrest⟩ := h
    have hvalue : valueAt tx i = out.value := by
      have hout' : tx.outputs[i]? = some out := by simpa [Tx.output] using hout
      rw [valueAt, hout']
      rfl
    rw [ih hrest, i64_exact _ _ hsum, List.map_cons, List.sum_cons, hvalue, add_assoc]

theorem sumOut_eq (tx : Tx) :
    sumOut tx = ((List.range tx.outputs.length).map (valueAt tx)).sum := by
  have hlist : tx.outputs.map (fun out => (out.value : Int)) =
      (List.range tx.outputs.length).map (valueAt tx) := by
    apply List.ext_getElem (by simp)
    intro i hi hi'
    rw [List.length_map] at hi
    simp [valueAt, List.getElem?_eq_getElem hi]
  rw [sumOut, hlist]

/-- The outputs that are added up are all there are. -/
theorem summed_sum {n : Nat}
    (h : tx.outputs.length = wit.wOutBase + n + if wit.chunk_kind = 2 then 0 else 1) :
    ((wit.summed n).map (valueAt tx)).sum = sumOut tx := by
  rw [sumOut_eq, h, ChunkWitness.summed]
  split
  · rw [List.append_nil, Nat.add_zero, List.range_add, List.map_append, List.map_append,
      List.sum_append, List.sum_append, add_comm]
  · rw [List.range_succ, List.range_add, List.map_append, List.map_append, List.map_append,
      List.map_append, List.sum_append, List.sum_append, List.sum_append, List.sum_append,
      add_comm (List.map (valueAt tx) (List.map _ (List.range n))).sum]

/-- A chunk that is accepted. -/
structure Chunk (e : Engine) (c : Contract) (s : State) (tx : Tx) (wit : ChunkWitness)
    (next : Option State) : Prop where
  lo : 0 ≤ wit.seg_lo
  lt : wit.seg_lo < wit.seg_hi
  committee : wit.chunk_kind = 0 → requireCommittee e i64 c tx wit = some ()
  winners : ∀ k < (wit.seg_hi - wit.seg_lo).toNat,
    requireWinner e i64 tx wit (wit.prev s).planCommit k = some ()
  linked : wit.seg_lo = (wit.prev s).hwm
  last : wit.chunk_kind = 2 ↔ wit.seg_hi = (wit.prev s).totalWinners
  outputs : tx.outputs.length = wit.wOutBase + (wit.seg_hi - wit.seg_lo).toNat +
    if wit.chunk_kind = 2 then 0 else 1
  change : wit.chunk_kind ≠ 2 →
    requireChange e c tx ((wit.wOutBase + (wit.seg_hi - wit.seg_lo).toNat : Nat) : Int)
      { wit.prev s with hwm := wit.seg_hi } = some ()
  fee : ∃ in0, tx.input 0 = some in0 ∧ 0 ≤ in0.value - sumOut tx ∧
    in0.value - sumOut tx ≤ c.maxChunkFee
  next_eq : next =
    if wit.chunk_kind = 2 then none else some { wit.prev s with hwm := wit.seg_hi }

theorem settle_chunk_eq_some {next : Option State}
    (h : settle_chunk e i64 c s tx wit = some next) : Chunk e c s tx wit next := by
  simp only [settle_chunk, Option.bind_eq_bind, Option.bind_eq_some_iff, require_eq_some,
    exists_const, requireEach_eq_some] at h
  obtain ⟨-, -, -, _, hcommittee, hlo, hlt, segLen, hlen, -, hwinners, hlinked, -, hlast, _,
    hchange, houtputs, sum, hsum, in0, hin, fee, hfee, hfee0, hfee1, hnext⟩ := h
  obtain rfl := i64_exact _ _ hlen
  have hsum' : sum = sumOut tx := by
    rw [sumOutputs_eq_some hsum, zero_add, summed_sum houtputs]
  rw [i64_exact _ _ hfee, hsum'] at hfee0 hfee1
  refine ⟨hlo, hlt, ?_, hwinners, hlinked, hlast, houtputs, ?_, ⟨in0, hin, hfee0, hfee1⟩,
    (Option.some.inj hnext).symm⟩
  · intro hkind
    rwa [if_pos hkind] at hcommittee
  · intro hkind
    rwa [if_neg hkind] at hchange

/-- The broker's output and the bonds of the first chunk. -/
theorem PaysCommittee.of_requireCommittee {a : Spend}
    (h : requireCommittee e i64 c a.tx a.wit = some ()) : PaysCommittee c a := by
  simp only [requireCommittee, Option.bind_eq_bind, Option.bind_eq_some_iff, require_eq_some,
    exists_const, requireLock_eq_some] at h
  obtain ⟨-, -, hbroker, _, hbonds, -⟩ := h
  refine ⟨hbroker, ?_⟩
  intro j m hm
  apply (requireBonds_eq_some (i := 1)).mp hbonds j m.pk
  rw [List.getElem?_map, hm, Option.map_some]

/-- Where the five keys are different members of the pool, the four that signed are. -/
theorem FourMembers.of_requireCommittee {a : Spend}
    (h : requireCommittee e i64 c a.tx a.wit = some ())
    (hdistinct : (a.wit.committee.toList.map Signer.pk).Nodup)
    (hmembers : ∀ m ∈ a.wit.committee.toList, MemberOf e c.poolMerkleRoot m.pk) :
    FourMembers e c a := by
  simp only [requireCommittee, Option.bind_eq_bind, Option.bind_eq_some_iff, require_eq_some,
    exists_const] at h
  obtain ⟨hfour, -⟩ := h
  refine ⟨a.wit.committee.toList.filter fun m => e.checkSig a.tx m.sig m.pk,
    List.filter_sublist, ?_,
    (List.filter_sublist.map _).nodup hdistinct, ?_⟩
  · rw [← List.countP_eq_length_filter]
    exact hfour
  · intro m hm
    obtain ⟨hmem, hsig⟩ := List.mem_filter.mp hm
    exact ⟨hmembers m hmem, hsig⟩

end Entry

/-- **No check reads the root of the oracle pool.** -/
theorem settle_chunk_poolMerkleRoot (e : Engine) (ar : Arith) (c : Contract) (root : Bytes32) :
    settle_chunk e ar { c with poolMerkleRoot := root } = settle_chunk e ar c := rfl

/-! ### Chains -/

section Chains

variable {e : Engine} {c : Contract}

/-- What a step is: a chunk that is accepted, the coin it spends, and the one it leaves. -/
structure Spent (e : Engine) (c : Contract) (tip : Tip) (a : Spend) (t' : Option Tip) : Prop where
  coin : ∃ inp, a.tx.input a.activeInputIndex = some inp ∧ inp.value = tip.value
  chunk : Chunk e c tip.state a.tx a.wit
    (if a.wit.chunk_kind = 2 then none else some { a.wit.prev tip.state with hwm := a.wit.seg_hi })
  ends : a.wit.chunk_kind = 2 → t' = none
  goes_on : a.wit.chunk_kind ≠ 2 → ∃ out, a.tx.output (a.wit.wOutBase + a.segLen : Nat) = some out ∧
    out.scriptPubKey = stateLock e c { a.wit.prev tip.state with hwm := a.wit.seg_hi } ∧
    t' = some ⟨false, { a.wit.prev tip.state with hwm := a.wit.seg_hi }, out.value⟩

theorem requireChange_eq_some {tx : Tx} {i : Int} {next : State} {u : Unit}
    (h : requireChange e c tx i next = some u) :
    ∃ out, tx.output i = some out ∧ out.scriptPubKey = stateLock e c next := by
  simp only [requireChange, Option.bind_eq_bind, Option.bind_eq_some_iff, require_eq_some,
    exists_const, validateOutputState_eq_some] at h
  obtain ⟨out, hout, -, state, out', hstate, hout', hlock⟩ := h
  rw [hout] at hout'
  obtain rfl := Option.some.inj hout'
  refine ⟨out, hout, ?_⟩
  rw [hlock, stateLock, hstate, Option.getD_some]

theorem Step.spent {tip : Tip} {a : Spend} {t' : Option Tip} (h : Step e c (some tip) a t') :
    Spent e c tip a t' := by
  obtain ⟨tip', htip, ⟨inp, hinp, hvalue, -⟩, next, hnext, rfl⟩ := h
  obtain rfl := Option.some.inj htip
  have hchunk := settle_chunk_eq_some hnext
  obtain rfl := hchunk.next_eq
  refine ⟨⟨inp, hinp, hvalue⟩, hchunk, ?_, ?_⟩
  · intro hkind
    rw [if_pos hkind, Option.bind_none]
  · intro hkind
    obtain ⟨out, hout, hlock⟩ := requireChange_eq_some (hchunk.change hkind)
    refine ⟨out, hout, hlock, ?_⟩
    rw [if_neg hkind, Option.bind_some, Spend.segLen, hout, Option.map_some]

theorem Spent.isSome {tip : Tip} {a : Spend} {t' : Option Tip} (h : Spent e c tip a t') :
    t'.isSome = true ↔ a.wit.chunk_kind ≠ 2 := by
  by_cases hkind : a.wit.chunk_kind = 2
  · simp [h.ends hkind, hkind]
  · obtain ⟨out, -, -, rfl⟩ := h.goes_on hkind
    simp [hkind]

/-- **A chunk pays the next segment**, where its kind is that of its coin and it spends the coin as
the first input. -/
theorem Spent.pays {plan : Bytes32} {total : Int} {tip : Tip} {a : Spend} {t' : Option Tip}
    (h : Spent e c tip a t') (hkind : a.wit.chunk_kind = 0 ↔ tip.first = true)
    (hprev : a.wit.prev tip.state = ⟨tip.paid, plan, total⟩) (hown : a.activeInputIndex = 0) :
    PaysSegment e c plan total tip a t' := by
  have hchunk := h.chunk
  have hlast := hchunk.last
  rw [hprev] at hlast
  refine ⟨?_, ?_, ?_, ?_, ?_, ?_, ?_, ?_, ?_⟩
  · rw [hchunk.linked, hprev]
  · have := hchunk.lt
    unfold Spend.segLen
    omega
  · intro k hk
    obtain ⟨pk, amount, leaf, siblings, -, -, -, hpays⟩ :=
      requireWinner_eq_some hchunk.lo (hchunk.winners k hk)
    rw [hprev] at hpays
    exact ⟨pk, amount, leaf, siblings, hpays⟩
  · intro hfirst
    exact .of_requireCommittee (hchunk.committee (hkind.mpr hfirst))
  · simp only [ChunkWitness.wOutBase, hkind]
  · rw [hchunk.outputs, Spend.segLen]
    simp only [h.isSome, ne_eq, ite_not]
  · intro tip' htip'
    have hne : a.wit.chunk_kind ≠ 2 := h.isSome.mp (by rw [htip']; rfl)
    obtain ⟨out, hout, hlock, rfl⟩ := h.goes_on hne
    obtain rfl := Option.some.inj htip'
    rw [hprev] at hlock
    exact ⟨rfl, by rw [hprev], out, hout, rfl, by rw [hlock, hprev]⟩
  · obtain ⟨inp, hinp, hvalue⟩ := h.coin
    obtain ⟨in0, hin, hfee⟩ := hchunk.fee
    rw [hown, hin] at hinp
    obtain rfl := Option.some.inj hinp
    rwa [hvalue] at hfee
  · rw [← hlast, ← Option.not_isSome_iff_eq_none, h.isSome, not_not]

/-- How far a chain has come: `n` of the plan's winners are paid. -/
structure Reached (plan : Bytes32) (total : Int) (t : Option Tip) (n : Nat) : Prop where
  pos : 0 < n
  le : (n : Int) ≤ total
  ends : t = none ↔ (n : Int) = total
  tip : ∀ tip ∈ t, tip.first = false ∧ tip.state = ⟨n, plan, total⟩

/-- One more chunk. -/
theorem PaysSegment.reached {plan : Bytes32} {total : Int} {tip : Tip} {a : Spend}
    {t' : Option Tip} {n : Nat} (h : PaysSegment e c plan total tip a t') (hn : tip.paid = n)
    (hwithin : a.wit.seg_hi ≤ total) :
    Reached plan total t' (n + a.segLen) ∧ a.indices = List.range' n a.segLen := by
  have hlo : a.wit.seg_lo = n := h.next.trans hn
  have hpos := h.nonempty
  have hhi : ((n + a.segLen : Nat) : Int) = a.wit.seg_hi := by
    unfold Spend.segLen at hpos ⊢
    omega
  refine ⟨⟨by omega, by omega, ?_, ?_⟩, ?_⟩
  · rw [h.ends, hhi]
  · intro tip' htip'
    obtain ⟨hfirst, hstate, -⟩ := h.change tip' htip'
    exact ⟨hfirst, by rw [hstate, hhi]⟩
  · rw [Spend.indices, hlo, Int.toNat_natCast]

/-- The later chunks go on from where the chain has come to. -/
theorem Reached.step {plan : Bytes32} {total : Int} {t t' : Option Tip} {a : Spend} {n : Nat}
    (h : Reached plan total t n) (hstep : Step e c t a t') (hkind : a.wit.chunk_kind ≠ 0)
    (hown : a.activeInputIndex = 0) :
    ∃ tip, t = some tip ∧ tip.paid = n ∧ PaysSegment e c plan total tip a t' := by
  obtain ⟨tip, rfl, -⟩ := id hstep
  obtain ⟨hfirst, hstate⟩ := h.tip tip rfl
  have hpaid : tip.paid = n := by rw [Tip.paid, hfirst, hstate]; rfl
  refine ⟨tip, rfl, hpaid, hstep.spent.pays ?_ ?_ hown⟩
  · simp [hkind, hfirst]
  · rw [ChunkWitness.prev, if_neg hkind, hstate, hpaid]

/-- A chain that has begun. -/
theorem Reached.run {plan : Bytes32} {total : Int} {t t' : Option Tip} {as : List Spend} {n : Nat}
    (h : Reached plan total t n) (hrun : Run (Step e c) t as t')
    (hkind : ∀ a ∈ as, a.wit.chunk_kind ≠ 0) (hown : ∀ a ∈ as, a.activeInputIndex = 0)
    (hwithin : ∀ a ∈ as, a.wit.seg_hi ≤ total) :
    ∃ m, Reached plan total t' m ∧
      List.range n ++ as.flatMap Spend.indices = List.range m := by
  induction hrun generalizing n with
  | nil t => exact ⟨n, h, by simp⟩
  | @cons t t₁ t' a as hstep _ ih =>
    obtain ⟨tip, -, hpaid, hseg⟩ :=
      h.step hstep (hkind a List.mem_cons_self) (hown a List.mem_cons_self)
    obtain ⟨hreached, hindices⟩ := hseg.reached hpaid (hwithin a List.mem_cons_self)
    obtain ⟨m, hm, hall⟩ := ih hreached (fun b hb => hkind b (List.mem_cons_of_mem _ hb))
      (fun b hb => hown b (List.mem_cons_of_mem _ hb))
      (fun b hb => hwithin b (List.mem_cons_of_mem _ hb))
    refine ⟨m, hm, ?_⟩
    rw [← hall, List.flatMap_cons, ← List.append_assoc, hindices, List.range_add,
      List.range'_eq_map_range]

/-- The first chunk of a proper chain. -/
theorem Proper.first_pays {value : Nat} {a₀ : Spend} {as : List Spend} {t : Option Tip}
    (h : Proper e c a₀ as) (hstep : Step e c (some (c.poolLock value)) a₀ t) :
    PaysSegment e c a₀.wit.plan_commit_arg a₀.wit.total_winners_arg (c.poolLock value) a₀ t := by
  apply hstep.spent.pays
  · simp [h.first, Contract.poolLock]
  · rw [ChunkWitness.prev, if_pos h.first]
    rfl
  · exact h.own a₀ List.mem_cons_self

/-- **What a chain of chunks pays.** -/
theorem chain_pays_plan {value : Nat} {a₀ : Spend} {as : List Spend} {t : Option Tip}
    (hrun : Run (Step e c) (some (c.poolLock value)) (a₀ :: as) t) (hproper : Proper e c a₀ as) :
    PaysPlan e c value a₀ as t := by
  have hbegin : ∀ {t₁ : Option Tip}, Step e c (some (c.poolLock value)) a₀ t₁ →
      Reached a₀.wit.plan_commit_arg a₀.wit.total_winners_arg t₁ a₀.segLen ∧
        a₀.indices = List.range a₀.segLen := by
    intro t₁ hstep
    have hreached := (hproper.first_pays hstep).reached (n := 0) rfl
      (hproper.within a₀ List.mem_cons_self)
    rwa [zero_add, ← List.range_eq_range'] at hreached
  cases hrun with
  | @cons _ t₁ _ _ _ hstep hrest =>
    obtain ⟨hreached, hindices⟩ := hbegin hstep
    refine ⟨?_, ?_, ?_⟩
    · exact .of_requireCommittee (hstep.spent.chunk.committee hproper.first) hproper.distinct
        hproper.members
    · intro pre a post hsplit t₂ t₃ hpre hstep'
      cases pre with
      | nil =>
        obtain ⟨rfl, rfl⟩ := List.cons.inj hsplit
        cases hpre
        exact ⟨_, rfl, hproper.first_pays hstep'⟩
      | cons b pre =>
        obtain ⟨rfl, rfl⟩ := List.cons.inj hsplit
        cases hpre with
        | cons hstep₀ hpre =>
          have hmem : ∀ x ∈ pre, x ∈ pre ++ a :: post := fun x hx => List.mem_append_left _ hx
          obtain ⟨n, hn, -⟩ := (hbegin hstep₀).1.run hpre
            (fun x hx => hproper.later x (hmem x hx))
            (fun x hx => hproper.own x (List.mem_cons_of_mem _ (hmem x hx)))
            (fun x hx => hproper.within x (List.mem_cons_of_mem _ (hmem x hx)))
          obtain ⟨tip, rfl, -, hpays⟩ := hn.step hstep' (hproper.later a (by simp))
            (hproper.own a (by simp))
          exact ⟨tip, rfl, hpays⟩
    · obtain ⟨n, hn, hall⟩ := hreached.run hrest hproper.later
        (fun x hx => hproper.own x (List.mem_cons_of_mem _ hx))
        (fun x hx => hproper.within x (List.mem_cons_of_mem _ hx))
      refine ⟨n, ?_, hn.le, hn.ends⟩
      rw [List.flatMap_cons, hindices, hall]

end Chains

/-! ### Four winners in two chunks -/

def samplePath (depth : Nat) (leaves : List Bytes32) (i : Nat) : List Bytes32 :=
  Merkle.path (hashNode sampleEngine) ZERO32 depth leaves i ++ List.replicate (8 - depth) ZERO32

def samplePool : List Bytes32 := (List.range 8).map fun i => sampleHash (samplePk i).toList

def sampleMember (i : Nat) : Member where
  sig := []
  pk := samplePk i
  idx := i
  s := ⟨samplePath 3 samplePool i, by simp [samplePath, Merkle.path_length]⟩

def samplePoolRoot : Bytes32 := (sampleMember 0).climb sampleEngine

theorem sampleMember_climb :
    ∀ i ∈ List.range 5, (sampleMember i).climb sampleEngine = samplePoolRoot := by
  decide +kernel

/-- What winner `k` has. -/
def sampleAmount (k : Nat) : Nat := 100000000 * (k + 1)

def sampleLeaf (k : Nat) : Bytes32 :=
  (payoutLeaf sampleEngine (samplePk (20 + k)) (sampleAmount k)).getD ZERO32

def samplePlanPath (k : Nat) : List Bytes32 := samplePath 2 ((List.range 4).map sampleLeaf) k

def samplePlan : Bytes32 :=
  Merkle.climb (hashNode sampleEngine) 0 (sampleLeaf 0) (samplePlanPath 0)

def sampleContract : Contract where
  template := ⟨[0x51], [0x52]⟩
  brokerPk := samplePk 11
  poolMerkleRoot := samplePoolRoot
  oracleBondAmount := 100000000
  maxWinnersPerChunk := 2
  init_hwm := 0
  init_plan_commit := ZERO32
  init_total_winners := 0
  maxChunkFee := 100000000

def sampleOutput (value : Nat) (pk : Bytes32) : TxOutput := ⟨value, ScriptPubKeyP2PK pk, none⟩

/-- The state between the two. -/
def sampleState : State := ⟨2, samplePlan, 4⟩

/-- Winners `lo` and `lo + 1` are paid; the keys are those of these members. -/
def sampleWitness (signers : List.Vector Nat 5) (kind : Int) (lo : Nat) : ChunkWitness where
  committee := signers.map fun i => ⟨(samplePk i).toList, samplePk i⟩
  committeePkHash := sampleHash (signers.toList.flatMap fun i => (samplePk i).toList)
  winner := 0
  plan_commit_arg := samplePlan
  total_winners_arg := 4
  globalYesTotal_sompi := 9000000000
  globalNoTotal_sompi := 1000000000
  chunk_kind := kind
  seg_lo := lo
  seg_hi := lo + 2
  winnerPks := (List.range' lo 2).map fun k => samplePk (20 + k)
  winnerAmounts := (List.range' lo 2).map fun k => (sampleAmount k : Int)
  winnerSiblings := (List.range' lo 2).flatMap samplePlanPath

def firstTx (signers : List.Vector Nat 5) : Tx where
  inputs := [⟨1500101000, stateLock sampleEngine sampleContract sampleContract.init, none⟩]
  outputs := sampleOutput 1000 (samplePk 11) ::
    (signers.toList.map fun i => sampleOutput 100000000 (samplePk i)) ++
    [sampleOutput 100000000 (samplePk 20), sampleOutput 200000000 (samplePk 21),
      ⟨700050000, stateLock sampleEngine sampleContract sampleState, none⟩]
  lockTime := 0
  inputs_bounded := by simp
  outputs_bounded := by
    simp only [sampleOutput, List.cons_append, List.mem_cons, List.mem_append, List.mem_map,
      List.not_mem_nil, or_false]
    rintro o (rfl | ⟨i, -, rfl⟩ | rfl | rfl | rfl) <;> norm_num

def lastTx : Tx where
  inputs := [⟨700050000, stateLock sampleEngine sampleContract sampleState, none⟩]
  outputs := [sampleOutput 300000000 (samplePk 22), sampleOutput 400000000 (samplePk 23)]
  lockTime := 0
  inputs_bounded := by simp
  outputs_bounded := by simp [sampleOutput]

def firstChunk (signers : List.Vector Nat 5) : Spend :=
  ⟨firstTx signers, 0, sampleWitness signers 0 0⟩

def fiveSigners : List.Vector Nat 5 := List.Vector.ofFn Fin.val

def oneSigner : List.Vector Nat 5 := List.Vector.replicate 5 0

def lastChunk : Spend := ⟨lastTx, 0, sampleWitness fiveSigners 2 2⟩

theorem firstChunk_step {signers : List.Vector Nat 5}
    (h : signers = fiveSigners ∨ signers = oneSigner) :
    Step sampleEngine sampleContract (some (sampleContract.poolLock 1500101000))
      (firstChunk signers) (some ⟨false, sampleState, 700050000⟩) := by
  refine ⟨_, rfl, ⟨_, rfl, rfl, rfl⟩, some sampleState, ?_, ?_⟩
  · rcases h with rfl | rfl
    · decide +kernel
    · decide +kernel
  · rcases h with rfl | rfl
    · rfl
    · rfl

theorem lastChunk_step : Step sampleEngine sampleContract (some ⟨false, sampleState, 700050000⟩)
    lastChunk none := by
  refine ⟨_, rfl, ⟨_, rfl, rfl, rfl⟩, none, by decide +kernel, rfl⟩

theorem sampleChain_proper :
    Proper sampleEngine sampleContract (firstChunk fiveSigners) [lastChunk] := by
  refine ⟨rfl, ?_, by decide +kernel, ?_, ?_, ?_⟩
  · intro a ha
    obtain rfl := List.mem_singleton.mp ha
    decide
  · intro m hm
    rw [firstChunk, sampleWitness, List.Vector.toList_map] at hm
    obtain ⟨i, hmem, rfl⟩ := List.mem_map.mp hm
    have hi : i ∈ List.range 5 := hmem
    have hlt := List.mem_range.mp hi
    refine ⟨sampleMember i, rfl, Int.natCast_nonneg i, ?_, sampleMember_climb i hi⟩
    show (i : Int) < 256
    omega
  · intro a ha
    rcases List.mem_cons.mp ha with rfl | ha
    · rfl
    · obtain rfl := List.mem_singleton.mp ha
      rfl
  · intro a ha
    rcases List.mem_cons.mp ha with rfl | ha
    · decide
    · obtain rfl := List.mem_singleton.mp ha
      decide

theorem chain_pays_plan_sample :
    PaysPlan sampleEngine sampleContract 1500101000 (firstChunk fiveSigners) [lastChunk] none :=
  chain_pays_plan (.cons (firstChunk_step (Or.inl rfl)) (.single lastChunk_step))
    sampleChain_proper

/-- **One key is enough.**  It stands in all five places of the first chunk. -/
theorem plan_of_one :
    Run (Step sampleEngine sampleContract) (some (sampleContract.poolLock 1500101000))
        [firstChunk oneSigner] (some ⟨false, sampleState, 700050000⟩) ∧
      ¬ PaysPlan sampleEngine sampleContract 1500101000 (firstChunk oneSigner) []
        (some ⟨false, sampleState, 700050000⟩) := by
  refine ⟨.single (firstChunk_step (Or.inr rfl)), ?_⟩
  intro hpays
  obtain ⟨signers, hsub, hlen, hnodup, -⟩ := hpays.authorised
  have hone : ∀ m ∈ (firstChunk oneSigner).wit.committee.toList, m.pk = samplePk 0 := by decide
  have hkeys : signers.map Signer.pk = List.replicate signers.length (samplePk 0) := by
    refine List.eq_replicate_iff.mpr ⟨List.length_map _, ?_⟩
    intro pk hpk
    obtain ⟨m, hm, rfl⟩ := List.mem_map.mp hpk
    exact hone m (hsub.subset hm)
  rw [hkeys, List.nodup_replicate] at hnodup
  omega

end KANet.Settle.ChunkSpine
