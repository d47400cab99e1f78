import KANet.Lib.Runs
import KANet.Script.Basic
import Mathlib.Algebra.Order.BigOperators.Group.List
import Mathlib.Tactic.Linarith

/-!
# `PredictionEscrowUnanimous5.sil`

The escrow of a bet between two.  The maker and the taker each lock a stake to one script, so that
there are two coins under it.  `settle_dispute` wants the five oracles, `settle_consensual` both
parties; after the deadline `refund_both` splits two inputs by the stakes, and
`refund_maker_unjoined` gives a single input back to the maker.

Every entry looks at the inputs and outputs by position, and none at whose coin it spends.  In
particular `refund_maker_unjoined` does not ask whether the taker has joined.

* `Spend.Accepted.cases` — what a spend of an escrowed coin is.
* `takerKept_iff` — when one keeps the taker's share.
* `protected_iff` — the same over a run of deposits and spends.
-/

namespace KANet.Predict.Escrow

open KANet.Lib KANet.Script

/-- The arguments of the constructor, as `computeEscrowP2SH` lets them through. -/
structure Contract where
  makerPk : Bytes32
  takerPk : Bytes32
  brokerPk : Bytes32
  oraclePks : List.Vector Bytes32 5
  deadline : Int
  minerFee : Int
  brokerFeePct : Int
  oracleFeePct : Int
  makerStakeAmount : Int
  takerStakeAmount : Int
  unique : (makerPk :: takerPk :: brokerPk :: oraclePks.toList).Nodup
  deadline_pos : 1 ≤ deadline
  minerFee_bounds : 0 ≤ minerFee ∧ minerFee ≤ 10000000
  brokerFeePct_bounds : 0 ≤ brokerFeePct ∧ brokerFeePct ≤ 9999
  oracleFeePct_bounds : 0 ≤ oracleFeePct ∧ oracleFeePct ≤ 9999
  makerStake_pos : 1 ≤ makerStakeAmount
  takerStake_pos : 1 ≤ takerStakeAmount

/-! ### The entries -/

/-- The entry a spender calls, and what it supplies. -/
inductive Entry
  | settle_dispute (sigs : List.Vector Bytes 5) (winner : Int)
  | settle_consensual (makerSig takerSig : Bytes) (winner : Int)
  | refund_both (makerSig : Bytes)
  | refund_maker_unjoined (makerSig : Bytes)

/-- The same output for one key after the other, from the `i`-th on. -/
def requireOutputs (tx : Tx) (n : Int) : Int → List Bytes32 → Option Unit
  | _, [] => some ()
  | i, pk :: pks => do
    requireOutput tx i pk n
    requireOutputs tx n (i + 1) pks

def spendable (ar : Arith) (c : Contract) (tx : Tx) : Option Int := do
  let in0 ← tx.input 0
  let in1 ← tx.input 1
  let total ← ar (in0.value + in1.value)
  ar (total - c.minerFee)

/-- `n * pct / 10000` -/
def feeOf (ar : Arith) (n pct : Int) : Option Int := do
  let product ← ar (n * pct)
  ar (product.tdiv 10000)

def Contract.winnerPk (c : Contract) (winner : Int) : Bytes32 :=
  if winner = 0 then c.makerPk else c.takerPk

def settle_dispute (e : Engine) (ar : Arith) (c : Contract) (tx : Tx) (sigs : List.Vector Bytes 5)
    (winner : Int) : Option Unit := do
  require (∀ p ∈ sigs.toList.zip c.oraclePks.toList, e.checkSig tx p.1 p.2)
  require (winner = 0 ∨ winner = 1)
  require (tx.inputs.length = 2)
  require (tx.outputs.length = 7)
  let spendable ← spendable ar c tx
  let product ← ar (spendable * c.oracleFeePct)
  require (1250000000000 ≤ product)
  let brokerFeeAmount ← feeOf ar spendable c.brokerFeePct
  let oracleFeeAmount ← feeOf ar spendable c.oracleFeePct
  let afterBroker ← ar (spendable - brokerFeeAmount)
  let distributableAmount ← ar (afterBroker - oracleFeeAmount)
  requireOutput tx 0 (c.winnerPk winner) distributableAmount
  requireOutput tx 1 c.brokerPk brokerFeeAmount
  requireOutputs tx (oracleFeeAmount.tdiv 5) 2 c.oraclePks.toList

def settle_consensual (e : Engine) (ar : Arith) (c : Contract) (tx : Tx)
    (makerSig takerSig : Bytes) (winner : Int) : Option Unit := do
  require (e.checkSig tx makerSig c.makerPk)
  require (e.checkSig tx takerSig c.takerPk)
  require (winner = 0 ∨ winner = 1)
  require (tx.inputs.length = 2)
  require (tx.outputs.length = 2)
  let spendable ← spendable ar c tx
  let brokerFeeAmount ← feeOf ar spendable c.brokerFeePct
  let winnerAmount ← ar (spendable - brokerFeeAmount)
  requireOutput tx 0 (c.winnerPk winner) winnerAmount
  requireOutput tx 1 c.brokerPk brokerFeeAmount

/-- `require(tx.time >= deadline * 1000)` -/
def requireDeadline (ar : Arith) (c : Contract) (tx : Tx) : Option Unit := do
  let due ← ar (c.deadline * 1000)
  require (due ≤ tx.lockTime)

def refund_both (e : Engine) (ar : Arith) (c : Contract) (tx : Tx) (makerSig : Bytes) :
    Option Unit := do
  require (e.checkSig tx makerSig c.makerPk)
  requireDeadline ar c tx
  require (tx.inputs.length = 2)
  require (tx.outputs.length = 2)
  let spendable ← spendable ar c tx
  let totalStake ← ar (c.makerStakeAmount + c.takerStakeAmount)
  let product ← ar (spendable * c.makerStakeAmount)
  let makerRefund ← ar (product.tdiv totalStake)
  let takerRefund ← ar (spendable - makerRefund)
  requireOutput tx 0 c.makerPk makerRefund
  requireOutput tx 1 c.takerPk takerRefund

def refund_maker_unjoined (e : Engine) (ar : Arith) (c : Contract) (tx : Tx)
    (activeInputIndex : Int) (makerSig : Bytes) : Option Unit := do
  require (e.checkSig tx makerSig c.makerPk)
  requireDeadline ar c tx
  require (tx.inputs.length = 1)
  require (activeInputIndex = 0)
  require (tx.outputs.length = 1)
  let in0 ← tx.input 0
  let amount ← ar (in0.value - c.minerFee)
  requireOutput tx 0 c.makerPk amount

def spend (e : Engine) (ar : Arith) (c : Contract) (tx : Tx) (activeInputIndex : Int) :
    Entry → Option Unit
  | .settle_dispute sigs winner => settle_dispute e ar c tx sigs winner
  | .settle_consensual makerSig takerSig winner =>
    settle_consensual e ar c tx makerSig takerSig winner
  | .refund_both makerSig => refund_both e ar c tx makerSig
  | .refund_maker_unjoined makerSig => refund_maker_unjoined e ar c tx activeInputIndex makerSig

/-! ### Spending escrowed coins -/

def Entry.sigs : Entry → List Bytes
  | .settle_dispute sigs _ => sigs.toList
  | .settle_consensual makerSig takerSig _ => [makerSig, takerSig]
  | .refund_both makerSig => [makerSig]
  | .refund_maker_unjoined makerSig => [makerSig]

/-- A transaction, and the entry called for each of its inputs that is under the escrow's lock. -/
structure Spend where
  tx : Tx
  entry : Nat → Entry

variable (e : Engine) (c : Contract) (lock : Bytes)

/-- Each of the escrowed inputs is let through. -/
def Spend.Accepted (sp : Spend) : Prop :=
  ∀ (i : Nat) inp, sp.tx.inputs[i]? = some inp → inp.scriptPubKey = lock →
    spend e i64 c sp.tx i (sp.entry i) = some ()

def Spend.escrowed (sp : Spend) : List TxInput :=
  sp.tx.inputs.filter fun inp => inp.scriptPubKey = lock

/-- What the escrowed inputs are worth. -/
def Spend.spent (sp : Spend) : Int := ((sp.escrowed lock).map fun inp => (inp.value : Int)).sum

/-- What a key is paid. -/
def paid (tx : Tx) (pk : Bytes32) : Int :=
  ((tx.outputs.filter fun out => out.scriptPubKey = ScriptPubKeyP2PK pk).map
    fun out => (out.value : Int)).sum

/-- Somewhere among the escrowed inputs there is a signature of the key. -/
def Spend.signed (sp : Spend) (pk : Bytes32) : Bool :=
  (List.range sp.tx.inputs.length).any fun i =>
    (sp.tx.inputs[i]?.map TxInput.scriptPubKey = some lock) &&
      (sp.entry i).sigs.any fun sig => e.checkSig sp.tx sig pk

def Spend.oraclesSigned (sp : Spend) : Bool :=
  c.oraclePks.toList.all fun pk => sp.signed e lock pk

/-- The two shares of an amount, in proportion to the stakes. -/
def Contract.makerRefund (n : Int) : Int :=
  (n * c.makerStakeAmount).tdiv (c.makerStakeAmount + c.takerStakeAmount)

def Contract.takerRefund (n : Int) : Int := n - c.makerRefund n

inductive Party
  | maker | taker
deriving DecidableEq

def Contract.key : Party → Bytes32
  | .maker => c.makerPk
  | .taker => c.takerPk

def Contract.share : Party → Int → Int
  | .maker => c.makerRefund
  | .taker => c.takerRefund

/-- The share of a party of what is spent, after the miner's fee. -/
def Spend.due (sp : Spend) (p : Party) : Int := c.share p (sp.spent lock - c.minerFee)

/-- The party has its share, unless it or all the oracles have signed. -/
def Spend.Keeps (sp : Spend) (p : Party) : Prop :=
  sp.oraclesSigned e c lock = true ∨ sp.signed e lock (c.key p) = true ∨
    sp.due c lock p ≤ paid sp.tx (c.key p)

/-! ### Runs -/

/-- A coin under the lock, and who put it there. -/
structure Coin where
  owner : Option Party
  value : Nat
deriving DecidableEq

inductive Event
  | stake (owner : Option Party) (value : Nat)
  | spend (sp : Spend)

/-- What is under the lock before and after: a deposit adds a coin, and the escrowed inputs of a
transaction are coins that were there. -/
def Step (coins : List Coin) : Event → List Coin → Prop
  | .stake owner value, coins' => coins' = ⟨owner, value⟩ :: coins
  | .spend sp, coins' => sp.Accepted e c lock ∧ ∃ taken : List Coin,
      coins.Perm (taken ++ coins') ∧
      taken.map Coin.value = (sp.escrowed lock).map TxInput.value

/-- The party has made a deposit. -/
def Joined (p : Party) (events : List Event) : Prop := ∃ value, Event.stake (some p) value ∈ events

/-- The spends from when the party has joined that neither it nor the oracles signed. -/
def withoutParty (p : Party) : Bool → List Event → List Spend
  | _, [] => []
  | joined, .stake owner _ :: rest => withoutParty p (joined || owner = some p) rest
  | joined, .spend sp :: rest =>
    if joined && !(sp.oraclesSigned e c lock || sp.signed e lock (c.key p)) then
      sp :: withoutParty p joined rest
    else withoutParty p joined rest

/-- Both stakes are protected: every transaction keeps the shares of those who have joined, and so
do all of them together. -/
structure Protected (events : List Event) : Prop where
  each : ∀ p pre sp post, events = pre ++ .spend sp :: post → Joined p pre → sp.Keeps e c lock p
  total : ∀ p, ((withoutParty e c lock p false events).map fun sp => sp.due c lock p).sum ≤
    ((withoutParty e c lock p false events).map fun sp => paid sp.tx (c.key p)).sum

/-- Once the taker has joined, no coin is spent by itself, unless that takes no more than the fee,
or the one signature is also good for the taker or for the oracles. -/
def NoneAlone (events : List Event) : Prop :=
  ∀ pre sp post, events = pre ++ .spend sp :: post → Joined .taker pre →
    sp.tx.inputs.length = 1 → sp.spent lock ≤ c.minerFee ∨
      sp.signed e lock c.takerPk = true ∨ sp.oraclesSigned e c lock = true

/-! ### The shares -/

variable {e c lock}

theorem Contract.makerRefund_eq {n : Int} (h : 0 ≤ n) :
    c.makerRefund n = n * c.makerStakeAmount / (c.makerStakeAmount + c.takerStakeAmount) := by
  have hm := c.makerStake_pos
  exact Int.tdiv_eq_ediv_of_nonneg (mul_nonneg h (by omega))

theorem Contract.takerRefund_pos {n : Int} (h : 0 < n) : 0 < c.takerRefund n := by
  have hm := c.makerStake_pos
  have ht := c.takerStake_pos
  have hlt : n * c.makerStakeAmount / (c.makerStakeAmount + c.takerStakeAmount) < n := by
    apply Int.ediv_lt_of_lt_mul (by omega)
    nlinarith
  rw [takerRefund, makerRefund_eq h.le]
  omega

theorem Contract.takerRefund_nonpos {n : Int} (h : n ≤ 0) : c.takerRefund n ≤ 0 := by
  have hm := c.makerStake_pos
  have ht := c.takerStake_pos
  have hle : -n * c.makerStakeAmount / (c.makerStakeAmount + c.takerStakeAmount) ≤ -n := by
    apply Int.ediv_le_of_le_mul (by omega)
    nlinarith
  have hneg : c.makerRefund n = -c.makerRefund (-n) := by
    rw [makerRefund, makerRefund, neg_mul, Int.neg_tdiv, neg_neg]
  rw [takerRefund, hneg, makerRefund_eq (by omega)]
  omega

theorem Contract.takerRefund_mono {m n : Int} (h : 0 ≤ m) (hmn : m ≤ n) :
    c.takerRefund m ≤ c.takerRefund n := by
  have hm := c.makerStake_pos
  have ht := c.takerStake_pos
  have hle : n * c.makerStakeAmount / (c.makerStakeAmount + c.takerStakeAmount) ≤
      m * c.makerStakeAmount / (c.makerStakeAmount + c.takerStakeAmount) + (n - m) := by
    rw [← Int.add_mul_ediv_right _ _ (by omega)]
    apply Int.ediv_le_ediv (by omega)
    nlinarith
  rw [takerRefund, takerRefund, makerRefund_eq h, makerRefund_eq (h.trans hmn)]
  omega

/-! ### One spend -/

theorem paid_nonneg (tx : Tx) (pk : Bytes32) : 0 ≤ paid tx pk := by
  apply List.sum_nonneg
  intro v hv
  obtain ⟨out, -, rfl⟩ := List.mem_map.mp hv
  exact Int.natCast_nonneg _

theorem le_paid {tx : Tx} {i : Int} {pk : Bytes32} {n : Int}
    (h : tx.PaysExactly i pk n) : n ≤ paid tx pk := by
  obtain ⟨out, hout, hlock, rfl⟩ := h
  apply List.single_le_sum
  · intro v hv
    obtain ⟨out, -, rfl⟩ := List.mem_map.mp hv
    exact Int.natCast_nonneg _
  · refine List.mem_map.mpr ⟨out, List.mem_filter.mpr ⟨mem_of_atIndex hout, ?_⟩, rfl⟩
    exact decide_eq_true hlock

theorem Spend.signed_of_mem {sp : Spend} {i : Nat} {inp : TxInput} {sig : Bytes} {pk : Bytes32}
    (hi : sp.tx.inputs[i]? = some inp) (hlock : inp.scriptPubKey = lock)
    (hsig : sig ∈ (sp.entry i).sigs) (hcheck : e.checkSig sp.tx sig pk = true) :
    sp.signed e lock pk = true := by
  obtain ⟨hlt, -⟩ := List.getElem?_eq_some_iff.mp hi
  refine List.any_eq_true.mpr ⟨i, List.mem_range.mpr hlt, ?_⟩
  rw [hi, Option.map_some, hlock, decide_eq_true rfl, Bool.true_and]
  exact List.any_eq_true.mpr ⟨sig, hsig, hcheck⟩

/-- What is locked to the escrow among two inputs is worth no more than the two. -/
theorem Spend.spent_le {sp : Spend} {in0 in1 : TxInput} (h : sp.tx.inputs = [in0, in1]) :
    sp.spent lock ≤ in0.value + in1.value := by
  have hsub := (List.filter_sublist (p := fun inp : TxInput => inp.scriptPubKey = lock)
    (l := sp.tx.inputs)).map fun inp => (inp.value : Int)
  have hle := hsub.sum_le_sum (by
    intro v hv
    obtain ⟨inp, -, rfl⟩ := List.mem_map.mp hv
    exact Int.natCast_nonneg _)
  rw [h] at hle
  simpa [Spend.spent, Spend.escrowed, h] using hle

theorem spendable_eq_some {tx : Tx} {n : Int} (h : spendable i64 c tx = some n) :
    ∃ in0 in1, tx.input 0 = some in0 ∧ tx.input 1 = some in1 ∧
      n = in0.value + in1.value - c.minerFee := by
  simp only [spendable, Option.bind_eq_bind, Option.bind_eq_some_iff] at h
  obtain ⟨in0, h0, in1, h1, total, htotal, hn⟩ := h
  have hsum := i64_exact _ _ htotal
  have hdiff := i64_exact _ _ hn
  exact ⟨in0, in1, h0, h1, by rw [hdiff, hsum]⟩

/-- **What a spend of an escrowed coin is.**  The oracles have signed, or both parties, or the maker
has and the taker is paid its share of two inputs, or it has and this is the only input. -/
inductive Spend.Shape (e : Engine) (c : Contract) (lock : Bytes) (sp : Spend) : Prop
  | dispute (oracles : sp.oraclesSigned e c lock = true)
  | consensual (maker : sp.signed e lock c.makerPk = true)
      (taker : sp.signed e lock c.takerPk = true)
  | both (maker : sp.signed e lock c.makerPk = true) (in0 in1 : TxInput)
      (inputs : sp.tx.inputs = [in0, in1])
      (refund : sp.tx.PaysExactly 1 c.takerPk
        (c.takerRefund (in0.value + in1.value - c.minerFee)))
  | unjoined (maker : sp.signed e lock c.makerPk = true) (inputs : sp.tx.inputs.length = 1)
      (refund : ∃ out, sp.tx.outputs = [out] ∧ out.scriptPubKey = ScriptPubKeyP2PK c.makerPk)

theorem Spend.Accepted.shape {sp : Spend} (h : sp.Accepted e c lock) {i : Nat} {inp : TxInput}
    (hi : sp.tx.inputs[i]? = some inp) (hlock : inp.scriptPubKey = lock) :
    sp.Shape e c lock := by
  have hs := h i inp hi hlock
  have hsigned : ∀ sig ∈ (sp.entry i).sigs, ∀ pk, e.checkSig sp.tx sig pk = true →
      sp.signed e lock pk = true := fun sig hsig pk hcheck => signed_of_mem hi hlock hsig hcheck
  generalize sp.entry i = entry at hs hsigned
  cases entry with
  | settle_dispute sigs winner =>
    simp only [spend, settle_dispute, require_bind_eq_some] at hs
    refine .dispute (List.all_eq_true.mpr ?_)
    intro pk hpk
    obtain ⟨j, hj⟩ := List.mem_iff_getElem?.mp hpk
    have hlt : j < sigs.toList.length := by
      have := (List.getElem?_eq_some_iff.mp hj).1
      simpa using this
    have hmem : (sigs.toList[j], pk) ∈ sigs.toList.zip c.oraclePks.toList := by
      refine List.mem_iff_getElem?.mpr ⟨j, ?_⟩
      rw [List.getElem?_zip_eq_some]
      exact ⟨List.getElem?_eq_getElem hlt, hj⟩
    exact hsigned _ (List.getElem_mem hlt) pk (hs.1 _ hmem)
  | settle_consensual makerSig takerSig winner =>
    simp only [spend, settle_consensual, require_bind_eq_some] at hs
    exact .consensual (hsigned makerSig (by simp [Entry.sigs]) _ hs.1)
      (hsigned takerSig (by simp [Entry.sigs]) _ hs.2.1)
  | refund_both makerSig =>
    simp only [spend, refund_both, requireDeadline, Option.bind_eq_bind, Option.bind_eq_some_iff,
      require_eq_some, requireOutput_eq_some, exists_const] at hs
    obtain ⟨hmaker, -, hin, -, n, hn, total, htotal, product, hproduct, m, hm, t, ht, -, h1⟩ := hs
    obtain ⟨in0, in1, h0, h1', hsum⟩ := spendable_eq_some hn
    obtain ⟨a, b, hab⟩ := List.length_eq_two.mp hin
    obtain rfl : a = in0 := by simpa [Tx.input, atIndex, hab] using h0
    obtain rfl : b = in1 := by simpa [Tx.input, atIndex, hab] using h1'
    refine .both (hsigned makerSig (by simp [Entry.sigs]) _ hmaker) a b hab ?_
    have hrefund : t = c.takerRefund (a.value + b.value - c.minerFee) := by
      rw [i64_exact _ _ ht, i64_exact _ _ hm, i64_exact _ _ hproduct, i64_exact _ _ htotal, hsum]
      rfl
    rw [← hrefund]
    exact h1
  | refund_maker_unjoined makerSig =>
    simp only [spend, refund_maker_unjoined, requireDeadline, Option.bind_eq_bind,
      Option.bind_eq_some_iff, require_eq_some, requireOutput_eq_some, exists_const] at hs
    obtain ⟨hmaker, -, hin, -, hout, in0, -, n, -, out, hout0, hpk, -⟩ := hs
    obtain ⟨o, ho⟩ := List.length_eq_one_iff.mp hout
    obtain rfl : o = out := by simpa [Tx.output, atIndex, ho] using hout0
    exact .unjoined (hsigned makerSig (by simp [Entry.sigs]) _ hmaker) hin ⟨o, ho, hpk⟩

theorem Spend.spent_eq_zero {sp : Spend}
    (h : ∀ inp ∈ sp.tx.inputs, inp.scriptPubKey ≠ lock) : sp.spent lock = 0 := by
  have hnil : sp.escrowed lock = [] := by
    rw [Spend.escrowed, List.filter_eq_nil_iff]
    intro inp hinp
    simpa using h inp hinp
  rw [Spend.spent, hnil]
  rfl

/-- A spend of a coin under the lock, or of none. -/
theorem Spend.Accepted.cases {sp : Spend} (h : sp.Accepted e c lock) :
    sp.spent lock = 0 ∨ sp.Shape e c lock := by
  by_cases hany : ∃ inp ∈ sp.tx.inputs, inp.scriptPubKey = lock
  · obtain ⟨inp, hinp, hlock⟩ := hany
    obtain ⟨i, hi⟩ := List.mem_iff_getElem?.mp hinp
    exact Or.inr (h.shape hi hlock)
  · exact Or.inl (spent_eq_zero fun inp hinp hlock => hany ⟨inp, hinp, hlock⟩)

theorem Contract.makerRefund_nonpos {n : Int} (h : n ≤ 0) : c.makerRefund n ≤ 0 := by
  have hm := c.makerStake_pos
  have ht := c.takerStake_pos
  have hneg : c.makerRefund n = -c.makerRefund (-n) := by
    rw [makerRefund, makerRefund, neg_mul, Int.neg_tdiv, neg_neg]
  have hnonneg : 0 ≤ c.makerRefund (-n) :=
    Int.tdiv_nonneg (mul_nonneg (by omega) (by omega)) (by omega)
  omega

/-- Where nothing is taken but the fee, no share is due. -/
theorem Spend.due_nonpos {sp : Spend} (h : sp.spent lock ≤ c.minerFee) (p : Party) :
    sp.due c lock p ≤ 0 := by
  cases p with
  | maker => exact Contract.makerRefund_nonpos (by omega)
  | taker => exact Contract.takerRefund_nonpos (by omega)

/-- The maker's share is safe whatever is spent. -/
theorem Spend.Accepted.keeps_maker {sp : Spend} (h : sp.Accepted e c lock) :
    sp.Keeps e c lock .maker := by
  rcases h.cases with hzero | hshape
  · refine Or.inr (Or.inr ((due_nonpos ?_ _).trans (paid_nonneg _ _)))
    rw [hzero]
    exact c.minerFee_bounds.1
  · cases hshape with
    | dispute oracles => exact Or.inl oracles
    | consensual maker taker => exact Or.inr (Or.inl maker)
    | both maker in0 in1 inputs refund => exact Or.inr (Or.inl maker)
    | unjoined maker inputs refund => exact Or.inr (Or.inl maker)

/-- **The taker's share** is safe unless a coin is spent by itself. -/
theorem Spend.Accepted.keeps_taker_iff {sp : Spend} (h : sp.Accepted e c lock) :
    sp.Keeps e c lock .taker ↔ (sp.tx.inputs.length = 1 → sp.spent lock ≤ c.minerFee ∨
      sp.signed e lock c.takerPk = true ∨ sp.oraclesSigned e c lock = true) := by
  constructor
  · intro hkeeps hone
    rcases hkeeps with horacles | htaker | hdue
    · exact Or.inr (Or.inr horacles)
    · exact Or.inr (Or.inl htaker)
    · rcases h.cases with hzero | hshape
      · refine Or.inl ?_
        rw [hzero]
        exact c.minerFee_bounds.1
      · cases hshape with
        | dispute oracles => exact Or.inr (Or.inr oracles)
        | consensual maker taker => exact Or.inr (Or.inl taker)
        | both maker in0 in1 inputs refund =>
          rw [inputs] at hone
          cases hone
        | unjoined maker inputs refund =>
          -- the only output is the maker's
          obtain ⟨out, hout, hpk⟩ := refund
          have hne : c.makerPk ≠ c.takerPk := by
            have := c.unique
            simp only [List.nodup_cons, List.mem_cons, not_or] at this
            exact this.1.1
          have hpaid : paid sp.tx c.takerPk = 0 := by
            have hlock : ¬ out.scriptPubKey = ScriptPubKeyP2PK c.takerPk := by
              intro heq
              exact hne (ScriptPubKeyP2PK_inj (hpk.symm.trans heq))
            simp [paid, hout, hlock]
          refine Or.inl ?_
          by_contra hmore
          have hpos : 0 < c.takerRefund (sp.spent lock - c.minerFee) :=
            Contract.takerRefund_pos (by omega)
          have hle : c.takerRefund (sp.spent lock - c.minerFee) ≤ paid sp.tx c.takerPk := hdue
          omega
  · intro hone
    rcases h.cases with hzero | hshape
    · refine Or.inr (Or.inr ((due_nonpos ?_ _).trans (paid_nonneg _ _)))
      rw [hzero]
      exact c.minerFee_bounds.1
    · cases hshape with
      | dispute oracles => exact Or.inl oracles
      | consensual maker taker => exact Or.inr (Or.inl taker)
      | both maker in0 in1 inputs refund =>
        refine Or.inr (Or.inr ?_)
        have hle : sp.spent lock ≤ in0.value + in1.value := spent_le inputs
        by_cases hfee : sp.spent lock ≤ c.minerFee
        · exact (due_nonpos hfee _).trans (paid_nonneg _ _)
        · refine le_trans ?_ (le_paid refund)
          exact Contract.takerRefund_mono (by omega) (by omega)
      | unjoined maker inputs refund =>
        rcases hone inputs with hfee | htaker | horacles
        · exact Or.inr (Or.inr ((due_nonpos hfee _).trans (paid_nonneg _ _)))
        · exact Or.inr (Or.inl htaker)
        · exact Or.inl horacles

/-! ### All of them together -/

theorem mem_withoutParty {p : Party} {sp : Spend} {joined : Bool} {events : List Event}
    (h : sp ∈ withoutParty e c lock p joined events) :
    (sp.oraclesSigned e c lock || sp.signed e lock (c.key p)) = false ∧
      ∃ pre post, events = pre ++ .spend sp :: post ∧ (joined = true ∨ Joined p pre) := by
  induction events generalizing joined with
  | nil => cases h
  | cons event rest ih =>
    cases event with
    | stake owner value =>
      obtain ⟨hsigned, pre, post, rfl, hjoined⟩ := ih h
      refine ⟨hsigned, .stake owner value :: pre, post, rfl, ?_⟩
      rcases hjoined with hor | ⟨v, hv⟩
      · rw [Bool.or_eq_true, decide_eq_true_eq] at hor
        rcases hor with hj | rfl
        · exact Or.inl hj
        · exact Or.inr ⟨value, List.mem_cons_self⟩
      · exact Or.inr ⟨v, List.mem_cons_of_mem _ hv⟩
    | spend sp' =>
      have hrest : ∀ {joined : Bool}, sp ∈ withoutParty e c lock p joined rest →
          (sp.oraclesSigned e c lock || sp.signed e lock (c.key p)) = false ∧
            ∃ pre post, Event.spend sp' :: rest = pre ++ .spend sp :: post ∧
              (joined = true ∨ Joined p pre) := by
        intro joined hmem
        obtain ⟨hsigned, pre, post, rfl, hjoined⟩ := ih hmem
        refine ⟨hsigned, .spend sp' :: pre, post, rfl, hjoined.imp_right ?_⟩
        rintro ⟨v, hv⟩
        exact ⟨v, List.mem_cons_of_mem _ hv⟩
      rw [withoutParty] at h
      split at h
      · next hcond =>
        rw [Bool.and_eq_true, Bool.not_eq_true'] at hcond
        rcases List.mem_cons.mp h with rfl | hmem
        · exact ⟨hcond.2, [], rest, rfl, Or.inl hcond.1⟩
        · exact hrest hmem
      · exact hrest h

theorem accepted_of_run {coins coins' : List Coin} {pre post : List Event} {sp : Spend}
    (h : Run (Step e c lock) coins (pre ++ .spend sp :: post) coins') : sp.Accepted e c lock := by
  obtain ⟨m, m', -, hstep, -⟩ := h.split_at
  exact hstep.1

/-- **When both stakes are protected.**  Over any run of deposits and accepted spends the maker's
stake is; the taker's is exactly when, once the taker has joined, no coin is spent by itself. -/
theorem protected_iff {events : List Event} {coins : List Coin}
    (h : Run (Step e c lock) [] events coins) :
    Protected e c lock events ↔ NoneAlone e c lock events := by
  constructor
  · intro hprot pre sp post hev hjoined
    have hacc : sp.Accepted e c lock := accepted_of_run (hev ▸ h)
    exact hacc.keeps_taker_iff.mp (hprot.each .taker pre sp post hev hjoined)
  · intro hnone
    have heach : ∀ p pre sp post, events = pre ++ .spend sp :: post → Joined p pre →
        sp.Keeps e c lock p := by
      intro p pre sp post hev hjoined
      have hacc : sp.Accepted e c lock := accepted_of_run (hev ▸ h)
      cases p with
      | maker => exact hacc.keeps_maker
      | taker => exact hacc.keeps_taker_iff.mpr (hnone pre sp post hev hjoined)
    refine ⟨heach, ?_⟩
    intro p
    apply List.sum_le_sum
    intro sp hsp
    obtain ⟨hsigned, pre, post, hev, hjoined⟩ := mem_withoutParty hsp
    rw [Bool.or_eq_false_iff] at hsigned
    have hj : Joined p pre := hjoined.resolve_left Bool.false_ne_true
    rcases heach p pre sp post hev hj with horacles | hparty | hdue
    · rw [hsigned.1] at horacles
      cases horacles
    · rw [hsigned.2] at hparty
      cases hparty
    · exact hdue

/-! ### Two stakes of ten -/

def pair : Contract where
  makerPk := samplePk 0
  takerPk := samplePk 1
  brokerPk := samplePk 2
  oraclePks := ⟨[samplePk 3, samplePk 4, samplePk 5, samplePk 6, samplePk 7], rfl⟩
  deadline := 1
  minerFee := 1000000
  brokerFeePct := 100
  oracleFeePct := 100
  makerStakeAmount := 1000000000
  takerStakeAmount := 1000000000
  unique := by decide
  deadline_pos := by decide
  minerFee_bounds := by decide
  brokerFeePct_bounds := by decide
  oracleFeePct_bounds := by decide
  makerStake_pos := by decide
  takerStake_pos := by decide

def pairLock : Bytes := ScriptPubKeyP2SH (samplePk 9)

def stakeInput : TxInput := ⟨1000000000, pairLock, none⟩

/-- Both stakes go back, half of the fee from each. -/
def refundBoth : Spend where
  tx :=
    { inputs := [stakeInput, stakeInput]
      outputs := [⟨999500000, ScriptPubKeyP2PK (samplePk 0), none⟩,
        ⟨999500000, ScriptPubKeyP2PK (samplePk 1), none⟩]
      lockTime := 1000 }
  entry _ := .refund_both (samplePk 0).toList

/-- The maker takes one coin, whoever put it there. -/
def takeOne : Spend where
  tx :=
    { inputs := [stakeInput]
      outputs := [⟨999000000, ScriptPubKeyP2PK (samplePk 0), none⟩]
      lockTime := 1000 }
  entry _ := .refund_maker_unjoined (samplePk 0).toList

def makerCoin : Coin := ⟨some .maker, 1000000000⟩

def takerCoin : Coin := ⟨some .taker, 1000000000⟩

def bothStake : List Event := [.stake (some .maker) 1000000000, .stake (some .taker) 1000000000]

theorem bothStake_run (e : Engine) :
    Run (Step e pair pairLock) [] bothStake [takerCoin, makerCoin] :=
  .cons rfl (.cons rfl (.nil _))

theorem protected_iff_refundBoth :
    Protected sampleEngine pair pairLock (bothStake ++ [.spend refundBoth]) ↔
      NoneAlone sampleEngine pair pairLock (bothStake ++ [.spend refundBoth]) := by
  have hacc : refundBoth.Accepted sampleEngine pair pairLock := by
    intro i inp hi _
    have hlt : i < 2 := (List.getElem?_eq_some_iff.mp hi).1
    obtain rfl | rfl : i = 0 ∨ i = 1 := by omega
    · decide
    · decide
  have hstep : Step sampleEngine pair pairLock [takerCoin, makerCoin] (.spend refundBoth) [] :=
    ⟨hacc, [takerCoin, makerCoin], .refl _, by decide⟩
  exact protected_iff ((bothStake_run sampleEngine).append (.single hstep))

/-- **The maker takes the taker's stake.**  He leaves his own. -/
theorem taker_stake_taken :
    Run (Step sampleEngine pair pairLock) [] (bothStake ++ [.spend takeOne]) [makerCoin] ∧
      ¬ Protected sampleEngine pair pairLock (bothStake ++ [.spend takeOne]) := by
  have hacc : takeOne.Accepted sampleEngine pair pairLock := by
    intro i inp hi _
    have hlt : i < 1 := (List.getElem?_eq_some_iff.mp hi).1
    obtain rfl : i = 0 := by omega
    decide
  have hstep : Step sampleEngine pair pairLock [takerCoin, makerCoin] (.spend takeOne)
      [makerCoin] := ⟨hacc, [takerCoin], .refl _, by decide⟩
  refine ⟨(bothStake_run sampleEngine).append (.single hstep), ?_⟩
  intro hprot
  have hjoined : Joined .taker bothStake := ⟨1000000000, by simp [bothStake]⟩
  rcases hprot.each .taker bothStake takeOne [] rfl hjoined with h | h | h
  · exact absurd h (by decide)
  · exact absurd h (by decide)
  · exact absurd h (by decide)

end KANet.Predict.Escrow
