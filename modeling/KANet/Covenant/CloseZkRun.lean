import KANet.Covenant.CloseZkV2
import KANet.Lib.Runs

/-!
# Runs of a `CloseZkV2`

The contract is followed as a coin: a value locked in a state, or nothing once the
last payment has emptied it.  `step_cases` says what one spend can do to a coin.  The
account and the nullifier follow by the run rules; which spends may come before which
is `Phase`, a property of the state together with the spends that led to it.

`close_run_safe` collects what holds of every run from a genesis coin.
-/

namespace KANet.Covenant.CloseZkV2

open KANet.Lib KANet.Script

/-- A value locked in a state of the contract. -/
structure Coin where
  value : Nat
  state : State

/-- One spend: the entry called, and the transaction that calls it. -/
abbrev Action := Call × Tx

/-- The output each call names as its own continuation. -/
def Call.selfOutIdx : Call → Int
  | .zk_close _ _ i => i
  | .escape_trigger i => i
  | .escape_claim wit => wit.selfOutIdx
  | .claim wit => wit.selfOutIdx

/-- What a spend leaves behind: no coin, or the output it continues in. -/
def Leaves (a : Action) (next : Option State) (u : Option Coin) : Prop :=
  match next with
  | none => u = none
  | some s =>
    ∃ out, a.2.output a.1.selfOutIdx = some out ∧ u = some { value := out.value, state := s }

/-- A coin is spent by an accepted call; where there is no coin there is no step. -/
def Step (e : Engine) (c : Contract) (u : Option Coin) (a : Action) (u' : Option Coin) : Prop :=
  ∃ coin next, u = some coin ∧ spend e i64 c coin.state a.2 a.1 = some next ∧ Leaves a next u'

/-- The coin `zk_handoff` mints: attested, with its pool as its value and nothing paid. -/
structure Genesis (g : Coin) : Prop where
  closed : g.state.closed = 1
  words : g.state.w = Words.zero
  value : (g.value : Int) = g.state.consolidated_pool

/-- The payment an action makes, if it makes one. -/
def payment (a : Action) : Option PayWitness :=
  match a.1 with
  | .claim wit => some wit
  | .escape_claim wit => some wit
  | _ => none

def merkleIndex (a : Action) : Option Int := (payment a).map PayWitness.merkle_index

def amountPaid (a : Action) : Int := ((payment a).map PayWitness.payout).getD 0

/-- `zk_close` and `escape_trigger`, the entries that set the latch. -/
def setsLatch (a : Action) : Bool := (payment a).isNone

/-- The root an action pays from, with the latch it needs. -/
def paysFrom (c : Contract) (s : State) (a : Action) : Int × Bytes32 :=
  match a.1 with
  | .escape_claim _ => (3, c.refundRootBaked)
  | _ => (2, s.payoutRootField)

def balance (u : Option Coin) : Int := (u.map fun coin => (coin.value : Int)).getD 0

/-! ### One step -/

structure Inv (coin : Coin) : Prop where
  value : (coin.value : Int) = coin.state.consolidated_pool
  words : WordsOk coin.state.w

theorem Genesis.inv {g : Coin} (h : Genesis g) : Inv g :=
  ⟨h.value, h.words ▸ wordsOk_zero⟩

/-- **What a spend can do**: close with a root, trigger the escape, or pay a leaf. -/
theorem step_cases {e : Engine} {c : Contract} {coin : Coin} {a : Action} {u : Option Coin}
    (hw : WordsOk coin.state.w) (h : Step e c (some coin) a u) :
    (∃ suffix root i tx, ∃ v : Nat, a = (.zk_close suffix root i, tx) ∧ coin.state.closed = 1 ∧
      (v : Int) = coin.state.consolidated_pool ∧
      u = some { value := v, state := { coin.state with closed := 2, payoutRootField := root } }) ∨
    (∃ i tx, ∃ v : Nat, a = (.escape_trigger i, tx) ∧ coin.state.closed = 1 ∧
      (v : Int) = coin.state.consolidated_pool ∧
      u = some { value := v, state := { coin.state with closed := 3 } }) ∨
    (∃ wit k, payment a = some wit ∧
      Payable e coin.state a.2 (paysFrom c coin.state a).1 (paysFrom c coin.state a).2 wit k ∧
      ((coin.state.consolidated_pool = wit.payout ∧ u = none) ∨
        (coin.state.consolidated_pool ≠ wit.payout ∧ ∃ v : Nat,
          (v : Int) = coin.state.consolidated_pool - wit.payout ∧
          u = some { value := v, state := coin.state.pay wit.payout k }))) := by
  obtain ⟨_, next, hu, hs, hl⟩ := h
  obtain rfl := Option.some.inj hu
  obtain ⟨call, tx⟩ := a
  have pays : ∀ (latch : Int) (root : Bytes32) (wit : PayWitness),
      payLeaf e i64 c coin.state tx latch root wit = some next →
      call.selfOutIdx = wit.selfOutIdx →
      ∃ k, Payable e coin.state tx latch root wit k ∧
        ((coin.state.consolidated_pool = wit.payout ∧ u = none) ∨
          (coin.state.consolidated_pool ≠ wit.payout ∧ ∃ v : Nat,
            (v : Int) = coin.state.consolidated_pool - wit.payout ∧
            u = some { value := v, state := coin.state.pay wit.payout k })) := by
    intro latch root wit hp hself
    obtain ⟨k, hk, ⟨hpool, rfl⟩ | ⟨hpool, rfl, hc⟩⟩ := (payLeaf_eq_some i64_lawful hw).mp hp
    · exact ⟨k, hk, Or.inl ⟨hpool, hl⟩⟩
    · obtain ⟨out, ho, rfl⟩ := hl
      rw [hself] at ho
      exact ⟨k, hk, Or.inr ⟨hpool, out.value, hc.2.value_eq ⟨out, ho, rfl⟩ ▸ rfl, rfl⟩⟩
  cases call with
  | zk_close suffix root i =>
    simp only [spend, Option.map_eq_some_iff] at hs
    obtain ⟨s', hs, rfl⟩ := hs
    obtain ⟨h1, -, rfl, hc⟩ := zk_close_eq_some.mp hs
    obtain ⟨out, ho, rfl⟩ := hl
    exact Or.inl ⟨suffix, root, i, tx, out.value, rfl, h1, hc.2.value_eq ⟨out, ho, rfl⟩ ▸ rfl, rfl⟩
  | escape_trigger i =>
    simp only [spend, Option.map_eq_some_iff] at hs
    obtain ⟨s', hs, rfl⟩ := hs
    obtain ⟨h1, -, rfl, hc⟩ := escape_trigger_eq_some.mp hs
    obtain ⟨out, ho, rfl⟩ := hl
    exact Or.inr (Or.inl ⟨i, tx, out.value, rfl, h1, hc.2.value_eq ⟨out, ho, rfl⟩ ▸ rfl, rfl⟩)
  | escape_claim wit =>
    obtain ⟨k, h⟩ := pays 3 c.refundRootBaked wit hs rfl
    exact Or.inr (Or.inr ⟨wit, k, rfl, h⟩)
  | claim wit =>
    obtain ⟨k, h⟩ := pays 2 coin.state.payoutRootField wit hs rfl
    exact Or.inr (Or.inr ⟨wit, k, rfl, h⟩)

theorem not_step_none {e : Engine} {c : Contract} {a : Action} {u : Option Coin} :
    ¬ Step e c none a u := by
  rintro ⟨_, _, h, _⟩
  cases h

/-- The invariant of whatever coin there is. -/
def InvAll (u : Option Coin) : Prop := ∀ coin, u = some coin → Inv coin

theorem InvAll.step {e : Engine} {c : Contract} {u u' : Option Coin} {a : Action}
    (hi : InvAll u) (h : Step e c u a u') : InvAll u' := by
  obtain ⟨coin, -, rfl, -⟩ := id h
  have hc := hi coin rfl
  intro coin' hu'
  rcases step_cases hc.words h with ⟨_, root, _, _, v, _, _, hv, rfl⟩ |
    ⟨_, _, v, _, _, hv, rfl⟩ | ⟨wit, k, _, hk, ⟨_, rfl⟩ | ⟨_, v, hv, rfl⟩⟩
  · obtain rfl := Option.some.inj hu'
    exact ⟨hv, hc.words⟩
  · obtain rfl := Option.some.inj hu'
    exact ⟨hv, hc.words⟩
  · cases hu'
  · obtain rfl := Option.some.inj hu'
    exact ⟨hv, hc.words.mark hk.unpaid⟩

/-- The coin loses exactly what is paid out of it. -/
theorem balance_step {e : Engine} {c : Contract} {u u' : Option Coin} {a : Action}
    (hi : InvAll u) (h : Step e c u a u') : balance u = balance u' + amountPaid a := by
  obtain ⟨coin, -, rfl, -⟩ := id h
  have hc := hi coin rfl
  have hval := hc.value
  rcases step_cases hc.words h with ⟨_, root, _, _, v, rfl, _, hv, rfl⟩ |
    ⟨_, _, v, rfl, _, hv, rfl⟩ | ⟨wit, k, hp, hk, ⟨hpool, rfl⟩ | ⟨_, v, hv, rfl⟩⟩
  · simp only [balance, amountPaid, payment, Option.map_some, Option.map_none, Option.getD_some,
      Option.getD_none]
    omega
  · simp only [balance, amountPaid, payment, Option.map_some, Option.map_none, Option.getD_some,
      Option.getD_none]
    omega
  · simp only [balance, amountPaid, hp, Option.map_some, Option.map_none, Option.getD_some,
      Option.getD_none]
    omega
  · simp only [balance, amountPaid, hp, Option.map_some, Option.getD_some]
    omega

/-- Leaf `i` has been paid, or there is nothing left to pay it from. -/
def Spent (u : Option Coin) (i : Int) : Prop :=
  ∀ coin, u = some coin → ∃ k : Nat, i = k ∧ k < 1024 ∧ Marked coin.state.w k

theorem spent_refuses {e : Engine} {c : Contract} {u u' : Option Coin} {a : Action} {i : Int}
    (hi : InvAll u) (h : Step e c u a u') (ha : merkleIndex a = some i) : ¬ Spent u i := by
  obtain ⟨coin, -, rfl, -⟩ := id h
  intro hs
  obtain ⟨k, rfl, _, hk⟩ := hs coin rfl
  rcases step_cases (hi coin rfl).words h with ⟨_, _, _, _, _, rfl, _⟩ | ⟨_, _, _, rfl, _⟩ |
    ⟨wit, k', hp, hpay, _⟩
  · cases ha
  · cases ha
  · rw [merkleIndex, hp, Option.map_some, hpay.index, Option.some.injEq] at ha
    have : k' = k := by exact_mod_cast ha
    exact hpay.unpaid (this ▸ hk)

theorem spent_marks {e : Engine} {c : Contract} {u u' : Option Coin} {a : Action} {i : Int}
    (hi : InvAll u) (h : Step e c u a u') (ha : merkleIndex a = some i) : Spent u' i := by
  obtain ⟨coin, -, rfl, -⟩ := id h
  have hw := (hi coin rfl).words
  intro coin' hu'
  rcases step_cases hw h with ⟨_, _, _, _, _, rfl, _⟩ | ⟨_, _, _, rfl, _⟩ |
    ⟨wit, k, hp, hpay, ⟨_, rfl⟩ | ⟨_, v, _, rfl⟩⟩
  · cases ha
  · cases ha
  · cases hu'
  · obtain rfl := Option.some.inj hu'
    rw [merkleIndex, hp, Option.map_some, hpay.index, Option.some.injEq] at ha
    exact ⟨k, ha.symm, hpay.inTree,
      (marked_mark hw hpay.unpaid hpay.inTree hpay.inTree).mpr (Or.inl rfl)⟩

theorem spent_stays {e : Engine} {c : Contract} {u u' : Option Coin} {a : Action} {i : Int}
    (hi : InvAll u) (h : Step e c u a u') (hs : Spent u i) : Spent u' i := by
  obtain ⟨coin, -, rfl, -⟩ := id h
  have hw := (hi coin rfl).words
  obtain ⟨k, rfl, hlt, hk⟩ := hs coin rfl
  intro coin' hu'
  rcases step_cases hw h with ⟨_, _, _, _, v, _, _, _, rfl⟩ | ⟨_, _, v, _, _, _, rfl⟩ |
    ⟨wit, k', hp, hpay, ⟨_, rfl⟩ | ⟨_, v, _, rfl⟩⟩
  · obtain rfl := Option.some.inj hu'
    exact ⟨k, rfl, hlt, hk⟩
  · obtain rfl := Option.some.inj hu'
    exact ⟨k, rfl, hlt, hk⟩
  · cases hu'
  · obtain rfl := Option.some.inj hu'
    exact ⟨k, rfl, hlt, (marked_mark hw hpay.unpaid hpay.inTree hlt).mpr (Or.inr hk)⟩

/-- A payment leaves no coin exactly when it is of the whole pool, and nothing else does. -/
theorem ends_iff {e : Engine} {c : Contract} {coin : Coin} {a : Action} {u : Option Coin}
    (hw : WordsOk coin.state.w) (h : Step e c (some coin) a u) :
    u = none ↔ ∃ wit, payment a = some wit ∧ wit.payout = coin.state.consolidated_pool := by
  rcases step_cases hw h with ⟨_, _, _, _, v, rfl, _, _, rfl⟩ | ⟨_, _, v, rfl, _, _, rfl⟩ |
    ⟨wit, k, hp, hpay, ⟨hpool, rfl⟩ | ⟨hpool, v, _, rfl⟩⟩
  · simp [payment]
  · simp [payment]
  · simp [hp, hpool]
  · simp [hp, Ne.symm hpool]

/-! ### The order of the spends -/

/-- How far the contract has come, read off from its state and from the spends behind it. -/
def Phase (as : List Action) (s : State) : Prop :=
  (s.closed = 1 ∧ as.countP setsLatch = 0) ∨
  (s.closed = 2 ∧ as.countP setsLatch = 1 ∧
    ∃ suffix i tx, (Call.zk_close suffix s.payoutRootField i, tx) ∈ as) ∨
  (s.closed = 3 ∧ as.countP setsLatch = 1 ∧ ∃ i tx, (Call.escape_trigger i, tx) ∈ as)

/-- At most one latch has been set, and the coin that is left is in phase. -/
structure History (as : List Action) (u : Option Coin) : Prop where
  one_latch : as.countP setsLatch ≤ 1
  inv : InvAll u
  phase : ∀ coin, u = some coin → Phase as coin.state

theorem Phase.count_le {as : List Action} {s : State} (h : Phase as s) :
    as.countP setsLatch ≤ 1 := by
  rcases h with ⟨_, h⟩ | ⟨_, h, _⟩ | ⟨_, h, _⟩ <;> omega

theorem setsLatch_false {a : Action} {wit : PayWitness} (h : payment a = some wit) :
    setsLatch a = false := by
  simp [setsLatch, h]

/-- Paying a leaf leaves the phase as it is. -/
theorem Phase.pay {as : List Action} {s : State} {a : Action} {wit : PayWitness} (k : Nat)
    (h : Phase as s) (ha : payment a = some wit) :
    Phase (as ++ [a]) (s.pay wit.payout k) := by
  have hcount : (as ++ [a]).countP setsLatch = as.countP setsLatch := by
    simp [List.countP_append, setsLatch_false ha]
  unfold Phase
  rw [hcount]
  rcases h with h | ⟨h2, hn, suffix, i, tx, hm⟩ | ⟨h3, hn, i, tx, hm⟩
  · exact Or.inl h
  · exact Or.inr (Or.inl ⟨h2, hn, suffix, i, tx, List.mem_append_left _ hm⟩)
  · exact Or.inr (Or.inr ⟨h3, hn, i, tx, List.mem_append_left _ hm⟩)

/-- Only an open contract has no latch behind it. -/
theorem Phase.open_count {as : List Action} {s : State} (h : Phase as s) (hc : s.closed = 1) :
    as.countP setsLatch = 0 := by
  rcases h with ⟨_, hn⟩ | ⟨h2, _⟩ | ⟨h3, _⟩
  · exact hn
  · omega
  · omega

theorem History.step {e : Engine} {c : Contract} {as : List Action} {u u' : Option Coin}
    {a : Action} (hh : History as u) (h : Step e c u a u') : History (as ++ [a]) u' := by
  obtain ⟨coin, -, rfl, -⟩ := id h
  have hphase := hh.phase coin rfl
  have hi := hh.inv.step h
  rcases step_cases (hh.inv coin rfl).words h with
    ⟨suffix, root, i, tx, v, rfl, h1, -, rfl⟩ | ⟨i, tx, v, rfl, h1, -, rfl⟩ |
    ⟨wit, k, hp, hpay, hnext⟩
  · have hn : (as ++ [(Call.zk_close suffix root i, tx)]).countP setsLatch = 1 := by
      simp [List.countP_append, hphase.open_count h1, setsLatch, payment]
    refine ⟨hn.le, hi, fun coin' hu' => ?_⟩
    obtain rfl := Option.some.inj hu'
    exact Or.inr (Or.inl ⟨rfl, hn, suffix, i, tx, by simp⟩)
  · have hn : (as ++ [(Call.escape_trigger i, tx)]).countP setsLatch = 1 := by
      simp [List.countP_append, hphase.open_count h1, setsLatch, payment]
    refine ⟨hn.le, hi, fun coin' hu' => ?_⟩
    obtain rfl := Option.some.inj hu'
    exact Or.inr (Or.inr ⟨rfl, hn, i, tx, by simp⟩)
  · have hpaid := hphase.pay k hp
    refine ⟨hpaid.count_le, hi, fun coin' hu' => ?_⟩
    rcases hnext with ⟨_, rfl⟩ | ⟨_, v, _, rfl⟩
    · cases hu'
    · obtain rfl := Option.some.inj hu'
      exact hpaid

theorem Genesis.history {g : Coin} (h : Genesis g) : History [] (some g) := by
  refine ⟨by simp, fun coin hu => ?_, fun coin hu => ?_⟩
  · obtain rfl := Option.some.inj hu
    exact h.inv
  · obtain rfl := Option.some.inj hu
    exact Or.inl ⟨h.closed, rfl⟩

theorem history_run {e : Engine} {c : Contract} {g : Coin} {as : List Action} {u : Option Coin}
    (hg : Genesis g) (h : Run (Step e c) (some g) as u) : History as u :=
  h.history (fun _ _ _ _ hh hstep => hh.step hstep) hg.history

/-! ### Whole runs -/

/-- What holds of a run from `g` by the spends `as` to what is left in `u`. -/
structure RunSafe (e : Engine) (c : Contract) (g : Coin) (as : List Action) (u : Option Coin) :
    Prop where
  one_latch : as.countP setsLatch ≤ 1
  claim_closed : ∀ xs wit tx ys, as = xs ++ (.claim wit, tx) :: ys →
    ∃ suffix root i tx', (Call.zk_close suffix root i, tx') ∈ xs ∧ wit.Opens e root
  escape_triggered : ∀ xs wit tx ys, as = xs ++ (.escape_claim wit, tx) :: ys →
    (∃ i tx', (Call.escape_trigger i, tx') ∈ xs) ∧ wit.Opens e c.refundRootBaked
  paid_once : (as.filterMap merkleIndex).Nodup
  conserved : balance u + (as.map amountPaid).sum = g.state.consolidated_pool
  welded : ∀ coin, u = some coin → (coin.value : Int) = coin.state.consolidated_pool
  last : ∀ coin a u', u = some coin → Step e c u a u' →
    (u' = none ↔ ∃ wit, payment a = some wit ∧ wit.payout = coin.state.consolidated_pool)
  final : u = none → ∀ a u', ¬ Step e c u a u'

/-- **Every run of a `CloseZkV2` is safe**, whatever the engine, the contract and the
transactions that spend it. -/
theorem close_run_safe {e : Engine} {c : Contract} {g : Coin} {as : List Action}
    {u : Option Coin} (hg : Genesis g) (h : Run (Step e c) (some g) as u) :
    RunSafe e c g as u := by
  have hh := history_run hg h
  have hinv := hg.history.inv
  have ledger := h.ledger balance amountPaid (fun _ _ _ hi => hi.step)
    (fun _ _ _ hi => balance_step hi) hinv
  constructor
  · exact hh.one_latch
  · rintro xs wit tx ys rfl
    obtain ⟨m, _, hm, hstep, -⟩ := h.split_at
    obtain ⟨coin, -, rfl, -⟩ := id hstep
    have hx := history_run hg hm
    rcases step_cases (hx.inv coin rfl).words hstep with ⟨_, _, _, _, _, ha, _⟩ |
      ⟨_, _, _, ha, _⟩ | ⟨wit', k, hp, hpay, _⟩
    · cases ha
    · cases ha
    · obtain rfl : wit = wit' := Option.some.inj hp
      have h2 : coin.state.closed = 2 := hpay.latched
      rcases hx.phase coin rfl with ⟨h1, _⟩ | ⟨_, _, suffix, i, tx', hmem⟩ | ⟨h3, _⟩
      · omega
      · exact ⟨suffix, _, i, tx', hmem, hpay.leaf⟩
      · omega
  · rintro xs wit tx ys rfl
    obtain ⟨m, _, hm, hstep, -⟩ := h.split_at
    obtain ⟨coin, -, rfl, -⟩ := id hstep
    have hx := history_run hg hm
    rcases step_cases (hx.inv coin rfl).words hstep with ⟨_, _, _, _, _, ha, _⟩ |
      ⟨_, _, _, ha, _⟩ | ⟨wit', k, hp, hpay, _⟩
    · cases ha
    · cases ha
    · obtain rfl : wit = wit' := Option.some.inj hp
      have h3 : coin.state.closed = 3 := hpay.latched
      rcases hx.phase coin rfl with ⟨h1, _⟩ | ⟨h2, _⟩ | ⟨_, _, i, tx', hmem⟩
      · omega
      · omega
      · exact ⟨⟨i, tx', hmem⟩, hpay.leaf⟩
  · exact h.nodup_keys merkleIndex Spent (fun _ _ _ hi => hi.step)
      (fun _ _ _ _ hi => spent_refuses hi) (fun _ _ _ _ hi => spent_marks hi)
      (fun _ _ _ _ hi => spent_stays hi) hinv
  · rw [← ledger, ← hg.value]
    rfl
  · exact fun coin hu => (hh.inv coin hu).value
  · rintro coin a u' rfl hstep
    exact ends_iff (hh.inv coin rfl).words hstep
  · rintro rfl a u'
    exact not_step_none

/-! ### A close on the sample engine

A pool of 800 sompi is closed on a tree with two leaves, 500 and 300, and both are claimed. -/

def sampleLeaf (i : Nat) (payout : Int) : Bytes32 :=
  sampleEngine.blake2b ((samplePk i).toList ++ signMagnitude 8 payout)

def sampleContract : Contract where
  gateTmplHash := sampleEngine.blake2b [0x20, 0x51]
  betsRootBaked := samplePk 0
  refundRootBaked := samplePk 1
  attestedAtMs := 1783500000000
  template := { templatePrefix := [0x6b], templateSuffix := [0xac] }

/-- The claim of leaf `i`, next to leaf `j`. -/
def sampleWitness (i : Nat) (payout : Int) (j : Nat) (other : Int) : PayWitness where
  selfOutIdx := 1
  payoutOutIdx := 0
  bettorPk := samplePk i
  payout := payout
  merkle_index := i
  s := sampleLeaf j other ::ᵥ List.Vector.replicate 9 ZERO32

def sampleRoot : Bytes32 :=
  Merkle.climb (hashNode sampleEngine) 0 (sampleLeaf 0 500) (sampleWitness 0 500 1 300).s.toList

def sampleAttested : State where
  attestedWinner := 1
  closed := 1
  payoutRootField := ZERO32
  consolidated_pool := 800
  w := Words.zero

def sampleClosed : State := { sampleAttested with closed := 2, payoutRootField := sampleRoot }

def sampleOutput (s : State) (value : Nat) : TxOutput :=
  covenantOutput sampleEngine sampleContract.template s.fields value none

def sampleJournal : Bytes32 :=
  sampleEngine.sha256 ((samplePk 0).toList ++ signMagnitude 1 1 ++ sampleRoot.toList)

def sampleCloseTx : Tx where
  inputs := [{ value := 800, scriptPubKey := [], covenantId := none },
    { value := 1000, covenantId := none
      scriptPubKey :=
        ScriptPubKeyP2SH (sampleEngine.blake2b (0x20 :: (sampleJournal.toList ++ [0x51]))) }]
  outputs := [sampleOutput sampleClosed 800]
  lockTime := 0

def samplePayment (i : Nat) (value : Nat) : TxOutput :=
  { value, scriptPubKey := ScriptPubKeyP2PK (samplePk i), covenantId := none }

def sampleFirstTx : Tx :=
  sampleTx [samplePayment 0 500, sampleOutput (sampleClosed.pay 500 0) 300] (by decide)

def sampleLastTx : Tx :=
  sampleTx [samplePayment 1 300] (by decide)

theorem fields_fit {s : State} (ha : Fits 8 s.attestedWinner) (hc : Fits 8 s.closed)
    (hp : Fits 8 s.consolidated_pool) (hw : WordsOk s.w) : ∀ f ∈ s.fields, f.Fits := by
  intro f hf
  simp only [State.fields, List.mem_cons, List.mem_map, List.mem_ofFn] at hf
  rcases hf with rfl | rfl | rfl | rfl | ⟨_, ⟨i, rfl⟩, rfl⟩
  · exact ha
  · exact hc
  · exact trivial
  · exact hp
  · obtain ⟨h0, h1⟩ := hw i
    exact fits_eight.mpr ⟨by omega, h1⟩

theorem sample_close :
    Step sampleEngine sampleContract (some { value := 800, state := sampleAttested })
      (.zk_close [0x51] sampleRoot 0, sampleCloseTx)
      (some { value := 800, state := sampleClosed }) := by
  refine ⟨_, some sampleClosed, rfl, ?_, _, rfl, rfl⟩
  rw [spend, Option.map_eq_some_iff]
  exact ⟨_, zk_close_eq_some.mpr ⟨rfl, ⟨sampleJournal, _, rfl, rfl, rfl, rfl⟩, rfl,
    Tx.continues_covenantOutput (fields_fit (by decide) (by decide) (by decide) wordsOk_zero) rfl,
    _, rfl, rfl⟩, rfl⟩

theorem sample_first :
    Step sampleEngine sampleContract (some { value := 800, state := sampleClosed })
      (.claim (sampleWitness 0 500 1 300), sampleFirstTx)
      (some { value := 300, state := sampleClosed.pay 500 0 }) := by
  refine ⟨_, some (sampleClosed.pay 500 0), rfl, ?_, _, rfl, rfl⟩
  have hw : WordsOk (sampleClosed.pay 500 0).w := wordsOk_zero.mark (not_marked_zero 0)
  exact (payLeaf_eq_some i64_lawful wordsOk_zero).mpr ⟨0, ⟨rfl, rfl, by norm_num, by decide,
    by decide, ⟨_, rfl, rfl⟩, not_marked_zero 0, ⟨_, rfl, rfl, rfl⟩⟩, Or.inr ⟨by decide, rfl,
    Tx.continues_covenantOutput (fields_fit (by decide) (by decide) (by decide) hw) rfl, _, rfl,
    rfl⟩⟩

theorem sample_last :
    Step sampleEngine sampleContract (some { value := 300, state := sampleClosed.pay 500 0 })
      (.claim (sampleWitness 1 300 0 500), sampleLastTx) none := by
  refine ⟨_, none, rfl, ?_, rfl⟩
  have hw : WordsOk (sampleClosed.pay 500 0).w := wordsOk_zero.mark (not_marked_zero 0)
  have hm : ¬ Marked (sampleClosed.pay 500 0).w 1 := by
    have := marked_mark wordsOk_zero (not_marked_zero 0) (by norm_num) (j := 1) (by norm_num)
    exact fun h => (this.mp h).elim (by norm_num) (not_marked_zero 1)
  exact (payLeaf_eq_some i64_lawful hw).mpr ⟨1, ⟨rfl, rfl, by norm_num, by decide, by decide,
    ⟨_, rfl, rfl⟩, hm, ⟨_, rfl, rfl, rfl⟩⟩, Or.inl ⟨by decide, rfl⟩⟩

/-- The run of that market, down to the payment that empties it. -/
theorem close_run_safe_sample :
    RunSafe sampleEngine sampleContract { value := 800, state := sampleAttested }
      [(.zk_close [0x51] sampleRoot 0, sampleCloseTx),
        (.claim (sampleWitness 0 500 1 300), sampleFirstTx),
        (.claim (sampleWitness 1 300 0 500), sampleLastTx)] none :=
  close_run_safe ⟨rfl, rfl, rfl⟩ (.cons sample_close (.cons sample_first (.single sample_last)))

end KANet.Covenant.CloseZkV2
