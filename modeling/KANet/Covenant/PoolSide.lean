import KANet.Covenant.Checks
import Mathlib.Data.Set.Function

/-!
# `PoolSide_v07.sil`

The coin of one bettor in a pooled market.  It is spent along with the spine of the market
(`settled_via_spine`), or by the bettor: after the settlement (`claim_winner`), or once the market
is dead (`refund_market_cancelled`).

No entry knows which input it stands at: the last two read `tx.inputs[0]` and `tx.outputs[0]`, and
the first only counts the inputs.  So it is the law of a whole transaction, with any number of sides
in it, that says what becomes of a bettor's coin.

* `claim_winner_eq_some`, `refund_market_cancelled_eq_some` — what the entries of the bettor accept.
* `kept_iff` — when every side of a transaction is kept.
-/

namespace KANet.Covenant.PoolSide

open KANet.Lib KANet.Script

structure Contract where
  bettorPk : Bytes32
  spineP2shHash : Bytes32
  poolMerkleRoot : Bytes32
  marketMetadataHash : Bytes32
  direction : Int
  deadline : Int
deriving DecidableEq

/-- What the bettor supplies to `claim_winner`. -/
structure ClaimWitness where
  bettorSig : Bytes
  members : List.Vector Member 5
  settlementWinner : Int
  totalYesPool : Int
  totalNoPool : Int
  sidesMerkleRoot : Bytes32
  bettorIdx : Int
  siblings : List.Vector Bytes32 6

inductive Entry
  | settled_via_spine
  | claim_winner (wit : ClaimWitness)
  | refund_market_cancelled (bettorSig : Bytes)

/-! ### The entries -/

/-- `spine + this side minimum` -/
def settled_via_spine (tx : Tx) : Option Unit := require (2 ≤ tx.inputs.length)

/-- The six levels from a bettor's key. -/
def ClaimWitness.climb (e : Engine) (wit : ClaimWitness) (bettorPk : Bytes32) : Bytes32 :=
  ([1, 2, 4, 8, 16, 32].zip wit.siblings.toList).foldl
    (fun cur p => climbStep e wit.bettorIdx p.1 cur p.2) (e.blake2b bettorPk.toList)

/-- The one output, which is for the bettor: it lies between two bounds, and is no dust. -/
def requireSole (ar : Arith) (tx : Tx) (bettorPk : Bytes32) (most full : Int) : Option Unit := do
  require (tx.outputs.length = 1)
  let out ← tx.output 0
  require (out.scriptPubKey = ScriptPubKeyP2PK bettorPk)
  require ((out.value : Int) ≤ most)
  let least ← ar (full - 100000000)
  require (least ≤ out.value)
  require (1000 ≤ out.value)

/-- `yesPool * (1 - winner) + noPool * winner` -/
def winnerPool (ar : Arith) (wit : ClaimWitness) : Option Int := do
  let notWinner ← ar (1 - wit.settlementWinner)
  let yes ← ar (wit.totalYesPool * notWinner)
  let no ← ar (wit.totalNoPool * wit.settlementWinner)
  ar (yes + no)

def claim_winner (e : Engine) (ar : Arith) (c : Contract) (tx : Tx) (wit : ClaimWitness) :
    Option Unit := do
  let cs := wit.members.toList
  require (e.checkSig tx wit.bettorSig c.bettorPk)
  require (4 ≤ cs.countP fun m => e.checkSig tx m.sig m.pk)
  require (wit.settlementWinner = 0 ∨ wit.settlementWinner = 1)
  require (c.direction = wit.settlementWinner)
  require (0 < wit.totalYesPool)
  require (0 < wit.totalNoPool)
  require (∀ m ∈ cs, 0 ≤ m.idx ∧ m.idx < 256 ∧ m.climb e = c.poolMerkleRoot)
  require (0 ≤ wit.bettorIdx)
  require (wit.bettorIdx < 64)
  require (wit.climb e c.bettorPk = wit.sidesMerkleRoot)
  let winnerPool ← winnerPool ar wit
  let totalPool ← ar (wit.totalYesPool + wit.totalNoPool)
  require (1 ≤ tx.inputs.length)
  let in0 ← tx.input 0
  let product ← ar (in0.value * totalPool)
  let payout ← ar (product.tdiv winnerPool)
  requireSole ar tx c.bettorPk payout payout

/-- The entry of `PoolSide_v0_7_1` is the same. -/
def refund_market_cancelled (e : Engine) (ar : Arith) (bettorPk : Bytes32) (deadline : Int)
    (tx : Tx) (bettorSig : Bytes) : Option Unit := do
  require (e.checkSig tx bettorSig bettorPk)
  let grace ← ar (deadline + 7200)
  let due ← ar (grace * 1000)
  require (due ≤ tx.lockTime)
  require (1 ≤ tx.inputs.length)
  let in0 ← tx.input 0
  let most ← ar (in0.value - 1000)
  requireSole ar tx bettorPk most in0.value

def spend (e : Engine) (ar : Arith) (c : Contract) (tx : Tx) : Entry → Option Unit
  | .settled_via_spine => settled_via_spine tx
  | .claim_winner wit => claim_winner e ar c tx wit
  | .refund_market_cancelled bettorSig =>
    refund_market_cancelled e ar c.bettorPk c.deadline tx bettorSig

/-! ### The sides of a transaction -/

/-- A side that a transaction spends: the input it stands at, its contract, and the entry that is
called. -/
structure Side where
  index : Nat
  contract : Contract
  entry : Entry

structure Spend where
  tx : Tx
  sides : List Side

/-- What the side is worth. -/
def Side.value (s : Side) (tx : Tx) : Int := ((tx.inputs[s.index]?.map TxInput.value).getD 0 : Nat)

/-- Every side is where it is said to be, and is let through. -/
structure Spend.Accepted (e : Engine) (lock : Contract → Bytes) (sp : Spend) : Prop where
  indices : (sp.sides.map Side.index).Nodup
  locks : ∀ s ∈ sp.sides, ∃ inp, sp.tx.inputs[s.index]? = some inp ∧
    inp.scriptPubKey = lock s.contract
  spends : ∀ s ∈ sp.sides, spend e i64 s.contract sp.tx s.entry = some ()

/-- The spine of the market of a side is among the inputs. -/
def SpineSpent (tx : Tx) (c : Contract) : Prop :=
  ∃ inp ∈ tx.inputs, inp.scriptPubKey = ScriptPubKeyP2SH c.spineP2shHash

/-- The stake's part of both pools, in proportion to that of the winner's. -/
def ClaimWitness.payoutOf (wit : ClaimWitness) (stake : Int) : Int :=
  (stake * (wit.totalYesPool + wit.totalNoPool)).tdiv
    (if wit.settlementWinner = 0 then wit.totalYesPool else wit.totalNoPool)

/-- What the bettor is to have of a stake, where the entry is one that pays. -/
def Entry.full : Entry → Int → Option Int
  | .settled_via_spine, _ => none
  | .claim_winner wit, stake => some (wit.payoutOf stake)
  | .refund_market_cancelled _, stake => some stake

/-- The spender relies on an output for the bettor. -/
def Side.Pays (s : Side) : Prop := s.entry ≠ .settled_via_spine

/-- Output `i` pays a key no less than this. -/
def PaysAtLeast (tx : Tx) (i : Nat) (pk : Bytes32) (n : Int) : Prop :=
  ∃ out, tx.outputs[i]? = some out ∧ out.scriptPubKey = ScriptPubKeyP2PK pk ∧ n ≤ out.value

/-- **No side is lost.**  Each goes along with its spine, or its bettor has an output of its own
that is worth the whole of what the side gives, less the greatest fee; and what the side gives is
worked out from its own value. -/
structure Spend.Kept (sp : Spend) : Prop where
  settled : ∀ s ∈ sp.sides, ¬ s.Pays → SpineSpent sp.tx s.contract
  paid : ∃ out : Side → Nat, Set.InjOn out {s | s ∈ sp.sides ∧ s.Pays} ∧
    ∀ s ∈ sp.sides, ∀ full, s.entry.full (s.value sp.tx) = some full →
      PaysAtLeast sp.tx (out s) s.contract.bettorPk (full - 100000000)
  own : ∀ s ∈ sp.sides, s.Pays → ∃ in0, sp.tx.input 0 = some in0 ∧ (in0.value : Int) = s.value sp.tx

/-- The spine is there for each side that is spent through it; no more than one other side is spent,
and that as the first input, or along with a first input of the same value. -/
structure Spend.Apart (sp : Spend) : Prop where
  spine : ∀ s ∈ sp.sides, s.entry = .settled_via_spine → SpineSpent sp.tx s.contract
  single : ∀ s ∈ sp.sides, ∀ s' ∈ sp.sides, s.Pays → s'.Pays → s = s'
  first : ∀ s ∈ sp.sides, s.Pays → s.index = 0 ∨
    sp.tx.inputs[0]?.map TxInput.value = sp.tx.inputs[s.index]?.map TxInput.value

/-! ### What the entries accept -/

section Entries

variable {e : Engine} {c : Contract} {tx : Tx} {bettorPk : Bytes32} {u : Unit}

/-- The one output pays the bettor between two bounds. -/
def Sole (tx : Tx) (bettorPk : Bytes32) (most full : Int) : Prop :=
  ∃ out, tx.outputs = [out] ∧ out.scriptPubKey = ScriptPubKeyP2PK bettorPk ∧
    (out.value : Int) ≤ most ∧ full - 100000000 ≤ out.value

theorem requireSole_eq_some {most full : Int}
    (h : requireSole i64 tx bettorPk most full = some u) : Sole tx bettorPk most full := by
  simp only [requireSole, Option.bind_eq_bind, Option.bind_eq_some_iff, require_eq_some,
    exists_const] at h
  obtain ⟨hlen, out, hout, hpk, hmost, least, hleast, hle, -⟩ := h
  obtain ⟨o, ho⟩ := List.length_eq_one_iff.mp hlen
  obtain rfl : o = out := by simpa [Tx.output, atIndex, ho] using hout
  rw [i64_exact _ _ hleast] at hle
  exact ⟨o, ho, hpk, hmost, hle⟩

theorem winnerPool_eq_some {wit : ClaimWitness} {n : Int}
    (hw : wit.settlementWinner = 0 ∨ wit.settlementWinner = 1)
    (h : winnerPool i64 wit = some n) :
    n = if wit.settlementWinner = 0 then wit.totalYesPool else wit.totalNoPool := by
  simp only [winnerPool, Option.bind_eq_bind, Option.bind_eq_some_iff] at h
  obtain ⟨m, hm, y, hy, k, hk, hn⟩ := h
  rw [i64_exact _ _ hn, i64_exact _ _ hy, i64_exact _ _ hk, i64_exact _ _ hm]
  rcases hw with h0 | h1
  · simp [h0]
  · simp [h1]

/-- **A claim** pays the bettor by the value of the first input. -/
theorem claim_winner_eq_some {wit : ClaimWitness} (h : claim_winner e i64 c tx wit = some u) :
    ∃ in0, tx.input 0 = some in0 ∧
      Sole tx c.bettorPk (wit.payoutOf in0.value) (wit.payoutOf in0.value) := by
  simp only [claim_winner, Option.bind_eq_bind, Option.bind_eq_some_iff, require_eq_some,
    exists_const] at h
  obtain ⟨-, -, hw, -, -, -, -, -, -, -, pool, hpool, total, htotal, -, in0, hin, product, hproduct,
    payout, hpayout, hsole⟩ := h
  have hsole := requireSole_eq_some hsole
  rw [i64_exact _ _ hpayout, i64_exact _ _ hproduct, i64_exact _ _ htotal,
    winnerPool_eq_some hw hpool] at hsole
  exact ⟨in0, hin, hsole⟩

/-- **A refund** does as well. -/
theorem refund_market_cancelled_eq_some {deadline : Int} {sig : Bytes}
    (h : refund_market_cancelled e i64 bettorPk deadline tx sig = some u) :
    ∃ in0, tx.input 0 = some in0 ∧ Sole tx bettorPk (in0.value - 1000) in0.value := by
  simp only [refund_market_cancelled, Option.bind_eq_bind, Option.bind_eq_some_iff,
    require_eq_some, exists_const] at h
  obtain ⟨-, _, -, _, -, -, -, in0, hin, most, hmost, hsole⟩ := h
  have hsole := requireSole_eq_some hsole
  rw [i64_exact _ _ hmost] at hsole
  exact ⟨in0, hin, hsole⟩

/-- What a side that pays is paid by. -/
theorem spend_pays {s : Side} (h : spend e i64 s.contract tx s.entry = some u) (hp : s.Pays) :
    ∃ in0 full most, tx.input 0 = some in0 ∧ s.entry.full in0.value = some full ∧
      Sole tx s.contract.bettorPk most full := by
  unfold Side.Pays at hp
  cases hentry : s.entry with
  | settled_via_spine => exact absurd hentry hp
  | claim_winner wit =>
    rw [hentry] at h
    obtain ⟨in0, hin, hsole⟩ := claim_winner_eq_some h
    exact ⟨in0, _, _, hin, rfl, hsole⟩
  | refund_market_cancelled sig =>
    rw [hentry] at h
    obtain ⟨in0, hin, hsole⟩ := refund_market_cancelled_eq_some h
    exact ⟨in0, _, _, hin, rfl, hsole⟩

end Entries

/-! ### The law of a transaction -/

section Law

variable {e : Engine} {lock : Contract → Bytes} {sp : Spend}

theorem Side.pays_of_full {s : Side} {stake full : Int} (h : s.entry.full stake = some full) :
    s.Pays := by
  intro hentry
  rw [hentry] at h
  cases h

theorem Side.full_of_pays {s : Side} (h : s.Pays) (stake : Int) :
    ∃ full, s.entry.full stake = some full := by
  unfold Side.Pays at h
  cases hentry : s.entry with
  | settled_via_spine => exact absurd hentry h
  | claim_winner wit => exact ⟨_, rfl⟩
  | refund_market_cancelled sig => exact ⟨_, rfl⟩

theorem Spend.Accepted.value_eq (h : sp.Accepted e lock) {s : Side} (hs : s ∈ sp.sides)
    {in0 : TxInput} (h0 : sp.tx.input 0 = some in0) :
    (in0.value : Int) = s.value sp.tx ↔ (s.index = 0 ∨
      sp.tx.inputs[0]?.map TxInput.value = sp.tx.inputs[s.index]?.map TxInput.value) := by
  obtain ⟨inp, hinp, -⟩ := h.locks s hs
  have h0' : sp.tx.inputs[0]? = some in0 := by simpa [Tx.input, atIndex] using h0
  have hvalue : s.value sp.tx = inp.value := by
    rw [Side.value, hinp]
    rfl
  rw [hvalue, h0', hinp, Option.map_some, Option.map_some, Option.some.injEq, Nat.cast_inj]
  constructor
  · exact Or.inr
  · rintro (hzero | heq)
    · rw [hzero, h0'] at hinp
      rw [Option.some.inj hinp]
    · exact heq

/-- Two sides that pay have but one output between them. -/
theorem Spend.Accepted.single_of_injOn (h : sp.Accepted e lock) {out : Side → Nat}
    (hinj : Set.InjOn out {s | s ∈ sp.sides ∧ s.Pays})
    (hpaid : ∀ s ∈ sp.sides, ∀ full, s.entry.full (s.value sp.tx) = some full →
      PaysAtLeast sp.tx (out s) s.contract.bettorPk (full - 100000000)) :
    ∀ s ∈ sp.sides, ∀ s' ∈ sp.sides, s.Pays → s'.Pays → s = s' := by
  have hzero : ∀ s ∈ sp.sides, s.Pays → out s = 0 := by
    intro s hs hp
    obtain ⟨_, _, _, -, -, o, houts, -⟩ := spend_pays (h.spends s hs) hp
    obtain ⟨full, hfull⟩ := s.full_of_pays hp (s.value sp.tx)
    obtain ⟨o', ho', -⟩ := hpaid s hs full hfull
    obtain ⟨hlt, -⟩ := List.getElem?_eq_some_iff.mp ho'
    rw [houts, List.length_singleton] at hlt
    omega
  intro s hs s' hs' hp hp'
  exact hinj ⟨hs, hp⟩ ⟨hs', hp'⟩ ((hzero s hs hp).trans (hzero s' hs' hp').symm)

/-- **When no side is lost.** -/
theorem kept_iff (h : sp.Accepted e lock) : sp.Kept ↔ sp.Apart := by
  constructor
  · intro hkept
    obtain ⟨out, hinj, hpaid⟩ := hkept.paid
    refine ⟨?_, h.single_of_injOn hinj hpaid, ?_⟩
    · intro s hs hentry
      exact hkept.settled s hs fun hp => hp hentry
    · intro s hs hp
      obtain ⟨in0, h0, hvalue⟩ := hkept.own s hs hp
      exact (h.value_eq hs h0).mp hvalue
  · intro hapart
    have hown : ∀ s ∈ sp.sides, s.Pays →
        ∃ in0, sp.tx.input 0 = some in0 ∧ (in0.value : Int) = s.value sp.tx := by
      intro s hs hp
      obtain ⟨in0, _, _, h0, -, -⟩ := spend_pays (h.spends s hs) hp
      exact ⟨in0, h0, (h.value_eq hs h0).mpr (hapart.first s hs hp)⟩
    refine ⟨?_, ⟨fun _ => 0, ?_, ?_⟩, hown⟩
    · intro s hs hp
      exact hapart.spine s hs (not_not.mp hp)
    · intro s hs s' hs' _
      exact hapart.single s hs.1 s' hs'.1 hs.2 hs'.2
    · intro s hs full hfull
      have hp := Side.pays_of_full hfull
      obtain ⟨in0, full', most, h0, hfull', out, houts, hpk, -, hle⟩ :=
        spend_pays (h.spends s hs) hp
      obtain ⟨in0', h0', hvalue⟩ := hown s hs hp
      rw [h0] at h0'
      obtain rfl := Option.some.inj h0'
      rw [hvalue, hfull] at hfull'
      obtain rfl := Option.some.inj hfull'
      exact ⟨out, by rw [houts]; rfl, hpk, hle⟩

end Law

/-! ### Two bettors of one market -/

def sampleSide (i : Nat) : Contract where
  bettorPk := samplePk i
  spineP2shHash := samplePk 8
  poolMerkleRoot := samplePk 9
  marketMetadataHash := samplePk 7
  direction := i
  deadline := 1

/-- What is compiled in, in place of the compiled script. -/
def sampleLock (c : Contract) : Bytes :=
  ScriptPubKeyP2SH (sampleHash (c.bettorPk.toList ++ c.poolMerkleRoot.toList))

/-- The bettor takes the stake back. -/
def refundSpend : Spend where
  tx :=
    { inputs := [⟨500000000, sampleLock (sampleSide 0), none⟩]
      outputs := [⟨499000000, ScriptPubKeyP2PK (samplePk 0), none⟩]
      lockTime := 7201000 }
  sides := [⟨0, sampleSide 0, .refund_market_cancelled (samplePk 0).toList⟩]

theorem kept_iff_refund : refundSpend.Kept ↔ refundSpend.Apart := by
  have hacc : refundSpend.Accepted sampleEngine sampleLock := by
    refine ⟨by decide, ?_, ?_⟩
    · intro s hs
      obtain rfl := List.mem_singleton.mp hs
      exact ⟨_, rfl, rfl⟩
    · intro s hs
      obtain rfl := List.mem_singleton.mp hs
      decide
  exact kept_iff hacc

/-- Two sides, and all of it to somebody else. -/
def theftSpend : Spend where
  tx :=
    { inputs := [⟨500000000, sampleLock (sampleSide 0), none⟩,
        ⟨500000000, sampleLock (sampleSide 1), none⟩]
      outputs := [⟨999000000, ScriptPubKeyP2PK (samplePk 5), none⟩]
      lockTime := 0 }
  sides := [⟨0, sampleSide 0, .settled_via_spine⟩, ⟨1, sampleSide 1, .settled_via_spine⟩]

/-- **Anybody can take two sides.**  There is no spine and there are no signatures. -/
theorem sides_stolen :
    theftSpend.Accepted sampleEngine sampleLock ∧
      theftSpend.tx.outputs = [⟨999000000, ScriptPubKeyP2PK (samplePk 5), none⟩] ∧
      ¬ theftSpend.Kept := by
  refine ⟨⟨by decide, ?_, ?_⟩, rfl, ?_⟩
  · intro s hs
    rcases List.mem_cons.mp hs with rfl | hs
    · exact ⟨_, rfl, rfl⟩
    · obtain rfl := List.mem_singleton.mp hs
      exact ⟨_, rfl, rfl⟩
  · intro s hs
    rcases List.mem_cons.mp hs with rfl | hs
    · decide
    · obtain rfl := List.mem_singleton.mp hs
      decide
  · intro hkept
    obtain ⟨inp, hinp, hspine⟩ := hkept.settled _ List.mem_cons_self fun hp => hp rfl
    have hne : ∀ inp ∈ theftSpend.tx.inputs, inp.scriptPubKey ≠ ScriptPubKeyP2SH (samplePk 8) := by
      decide +kernel
    exact hne inp hinp hspine

end KANet.Covenant.PoolSide
