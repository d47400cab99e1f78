import KANet.Covenant.PayoutRun
import KANet.Covenant.PayoutShardV2Run

/-!
# The money of a zero-knowledge market

The pool of such a market lies in a `PayoutShardV2` until `zk_handoff` puts it, whole,
into a new `CloseZkV2`, which pays it out.  Here the two contracts are one machine:
its stage is the contract that has the money, and a step spends that contract.

The script of the hand-over accepts segments that are cut at other places than the
audited ones; the pool is then in a contract nothing is known of, `Stage.stray`.

* `step_cases` — the steps of the machine, from those of the two contracts.
* `History` — what the spends so far say about the stage.
* `market_run_safe` — what holds of every run from the mint.
-/

namespace KANet.Covenant.ZkMarket

open KANet.Lib KANet.Script PayoutShardV2

/-- What is fixed for a market: its contract, the code of it, and the audited `CloseZkV2`. -/
structure Market where
  e : Engine
  contract : Contract
  template : Template
  segments : Segments
  gateTmplHash : Bytes32

/-- The contract that has the money. -/
inductive Stage
  | shard (s : State)
  | close (c : CloseZkV2.Contract) (u : Option CloseZkV2.Coin)
  | stray (value : Nat)

inductive Action
  | shard (call : Call) (tx : Tx)
  | handoff (w : Segments) (selfOutIdx : Int) (tx : Tx)
  | close (a : CloseZkV2.Action)

/-- The audited contract with the values of a state at its slots. -/
def closeContract (m : Market) (s : State) : CloseZkV2.Contract where
  gateTmplHash := m.gateTmplHash
  betsRootBaked := s.betsRootBaked
  refundRootBaked := s.refundRootBaked
  attestedAtMs := s.attestedAtMs
  template := closeZkTemplate m.segments s (signMagnitude 6 s.attestedAtMs)

inductive Step (m : Market) : Stage → Action → Stage → Prop
  | shard {s s' : State} {call : Call} {tx : Tx}
      (h : PayoutShardV2.Step m.e m.contract m.template s call tx s') :
      Step m (.shard s) (.shard call tx) (.shard s')
  | handoff {s : State} {w : Segments} {i : Int} {tx : Tx} {redeem : Bytes} {out : TxOutput}
      (h : zk_handoff m.e m.contract s tx i w = some redeem) (ho : tx.output i = some out)
      (hcut : w.SameCut m.segments) :
      Step m (.shard s) (.handoff w i tx)
        (.close (closeContract m s) (some { value := out.value, state := genesisState s }))
  | astray {s : State} {w : Segments} {i : Int} {tx : Tx} {redeem : Bytes} {out : TxOutput}
      (h : zk_handoff m.e m.contract s tx i w = some redeem) (ho : tx.output i = some out)
      (hcut : ¬ w.SameCut m.segments) :
      Step m (.shard s) (.handoff w i tx) (.stray out.value)
  | close {c : CloseZkV2.Contract} {u u' : Option CloseZkV2.Coin} {a : CloseZkV2.Action}
      (h : CloseZkV2.Step m.e c u a u') : Step m (.close c u) (.close a) (.close c u')

/-! ### The account -/

/-- What the stage has. -/
def held : Stage → Int
  | .shard s => s.consolidated_pool
  | .close _ u => CloseZkV2.balance u
  | .stray value => value

/-- What a step takes in: the shard that is absorbed. -/
def absorbed : Action → Int
  | .shard (.absorb _ j) tx => ((tx.input j).map fun shard => (shard.value : Int)).getD 0
  | _ => 0

/-- What a step pays to bettors. -/
def amountPaid : Action → Int
  | .shard (.refund_claim wit) _ => wit.payout
  | .close a => CloseZkV2.amountPaid a
  | _ => 0

/-- The leaf a step pays, if it pays one. -/
def merkleIndex : Action → Option Int
  | .shard (.refund_claim wit) _ => some wit.merkle_index
  | .close a => CloseZkV2.merkleIndex a
  | _ => none

def StageInv : Stage → Prop
  | .shard s => Inv s
  | .close _ u => CloseZkV2.InvAll u
  | .stray _ => True

variable {m : Market} {u u' : Stage} {a : Action}

theorem genesis_of_handoff {s : State} {w : Segments} {i : Int} {tx : Tx} {redeem : Bytes}
    {out : TxOutput} (h : zk_handoff m.e m.contract s tx i w = some redeem)
    (ho : tx.output i = some out) :
    s.closed = 1 ∧ CloseZkV2.Genesis { value := out.value, state := genesisState s } := by
  obtain ⟨h1, -, -, -, out', ho', -, hv⟩ := zk_handoff_eq_some.mp h
  obtain rfl := Option.some.inj (ho.symm.trans ho')
  exact ⟨h1, rfl, rfl, hv⟩

theorem StageInv.step (hi : StageInv u) (h : Step m u a u') : StageInv u' := by
  cases h with
  | shard h => exact Inv.step hi h
  | handoff h ho _ =>
    intro coin hcoin
    obtain rfl := Option.some.inj hcoin
    exact (genesis_of_handoff h ho).2.inv
  | astray => trivial
  | close h => exact CloseZkV2.InvAll.step hi h

/-- **A step keeps the account**: what was there and what comes in is there still or paid. -/
theorem held_step (hi : StageInv u) (h : Step m u a u') :
    held u + absorbed a = held u' + amountPaid a := by
  cases h with
  | @shard s s' call tx h =>
    rcases PayoutShardV2.step_cases (Inv.words hi) h with ⟨_, j, shard, rfl, _, hj, rfl⟩ |
      ⟨_, r, _, rfl, _, _, rfl⟩ | ⟨_, root, _, rfl, _, _, rfl⟩ | ⟨wit, k, rfl, hk, rfl⟩
    · simp [held, absorbed, amountPaid, hj]
    · simp [held, absorbed, amountPaid, State.close]
    · simp [held, absorbed, amountPaid]
    · simp [held, absorbed, amountPaid, State.refund]
  | @handoff s w i tx redeem out h ho _ =>
    have hv := (genesis_of_handoff h ho).2.value
    simpa [held, absorbed, amountPaid, CloseZkV2.balance, genesisState] using hv.symm
  | @astray s w i tx redeem out h ho _ =>
    have hv := (genesis_of_handoff h ho).2.value
    simpa [held, absorbed, amountPaid, genesisState] using hv.symm
  | close h =>
    have hb := CloseZkV2.balance_step hi h
    simp only [held, absorbed, amountPaid, add_zero, hb]

/-! ### Each leaf once -/

/-- Leaf `i` has been paid, or there is nothing left to pay it from. -/
def Spent : Stage → Int → Prop
  | .shard s, i => ∃ k : Nat, i = k ∧ k < 1024 ∧ Marked s.w k
  | .close _ u, i => CloseZkV2.Spent u i
  | .stray _, _ => True

theorem spent_refuses {i : Int} (hi : StageInv u) (h : Step m u a u')
    (ha : merkleIndex a = some i) : ¬ Spent u i := by
  cases h with
  | @shard s s' call tx h =>
    rcases PayoutShardV2.step_cases (Inv.words hi) h with ⟨_, j, shard, rfl, _, hj, rfl⟩ |
      ⟨_, r, _, rfl, _, _, rfl⟩ | ⟨_, root, _, rfl, _, _, rfl⟩ | ⟨wit, k, rfl, hk, rfl⟩
    · cases ha
    · cases ha
    · cases ha
    · rintro ⟨k', rfl, _, hm⟩
      have heq : k = k' := by
        have := hk.index.symm.trans (Option.some.inj ha)
        exact_mod_cast this
      exact hk.unpaid (heq ▸ hm)
  | handoff => cases ha
  | astray => cases ha
  | close h => exact CloseZkV2.spent_refuses hi h ha

theorem spent_marks {i : Int} (hi : StageInv u) (h : Step m u a u')
    (ha : merkleIndex a = some i) : Spent u' i := by
  cases h with
  | @shard s s' call tx h =>
    have hw := Inv.words hi
    rcases PayoutShardV2.step_cases hw h with ⟨_, j, shard, rfl, _, hj, rfl⟩ |
      ⟨_, r, _, rfl, _, _, rfl⟩ | ⟨_, root, _, rfl, _, _, rfl⟩ | ⟨wit, k, rfl, hk, rfl⟩
    · cases ha
    · cases ha
    · cases ha
    · exact ⟨k, (Option.some.inj ha).symm.trans hk.index, hk.inTree,
        (marked_mark hw hk.unpaid hk.inTree hk.inTree).mpr (Or.inl rfl)⟩
  | handoff => cases ha
  | astray => cases ha
  | close h => exact CloseZkV2.spent_marks hi h ha

theorem spent_stays {i : Int} (hi : StageInv u) (h : Step m u a u') (hs : Spent u i) :
    Spent u' i := by
  cases h with
  | @shard s s' call tx h =>
    have hw := Inv.words hi
    obtain ⟨k, rfl, hlt, hk⟩ := hs
    rcases PayoutShardV2.step_cases hw h with ⟨_, j, shard, rfl, _, hj, rfl⟩ |
      ⟨_, r, _, rfl, _, _, rfl⟩ | ⟨_, root, _, rfl, _, _, rfl⟩ | ⟨wit, k', rfl, hk', rfl⟩
    · exact ⟨k, rfl, hlt, hk⟩
    · exact ⟨k, rfl, hlt, hk⟩
    · exact ⟨k, rfl, hlt, hk⟩
    · exact ⟨k, rfl, hlt, (marked_mark hw hk'.unpaid hk'.inTree hlt).mpr (Or.inr hk)⟩
  | @handoff s w i tx redeem out h ho _ =>
    -- before the hand-over nothing has been paid
    obtain ⟨k, rfl, hlt, hk⟩ := hs
    have h1 := (genesis_of_handoff h ho).1
    rw [Inv.unpaid hi (by omega)] at hk
    exact absurd hk (not_marked_zero k)
  | astray => trivial
  | close h => exact CloseZkV2.spent_stays hi h hs

/-! ### The order of the spends -/

def attests : Action → Bool
  | .shard (.close_attest _ _ _) _ => true
  | .shard (.cancel_attest _ _ _) _ => true
  | _ => false

def handsOver : Action → Bool
  | .handoff _ _ _ => true
  | _ => false

/-- The committee has attested this result. -/
def Attested (as : List Action) (r : Result) : Prop :=
  ∃ i cw tx, Action.shard (.close_attest i r cw) tx ∈ as

/-- The committee has cancelled with this refund root. -/
def Cancelled (as : List Action) (root : Bytes32) : Prop :=
  ∃ i cw tx, Action.shard (.cancel_attest i root cw) tx ∈ as

/-- The contract that was handed the money has the values of the result. -/
structure Serves (m : Market) (c : CloseZkV2.Contract) (r : Result) : Prop where
  gateTmplHash : c.gateTmplHash = m.gateTmplHash
  betsRootBaked : c.betsRootBaked = r.new_betsRoot
  refundRootBaked : c.refundRootBaked = r.new_refundRoot
  attestedAtMs : c.attestedAtMs = r.new_attestedAtMs

/-- `n` attestations so far, and `k` hand-overs. -/
structure Counts (as : List Action) (n k : Nat) : Prop where
  attested : as.countP attests = n
  handed : as.countP handsOver = k

/-- Nothing has been refunded. -/
def NoRefund (as : List Action) : Prop := ∀ wit tx, Action.shard (.refund_claim wit) tx ∉ as

/-- The spends so far hand the money over after this result, and go on with those in `ys`. -/
structure HandedOver (m : Market) (as : List Action) (c : CloseZkV2.Contract)
    (u : Option CloseZkV2.Coin) (xs : List Action) (ys : List CloseZkV2.Action)
    (g : CloseZkV2.Coin) (r : Result) : Prop where
  spends : ∃ w i tx, as = xs ++ .handoff w i tx :: ys.map .close
  attested : Attested xs r
  serves : Serves m c r
  genesis : CloseZkV2.Genesis g
  winner : g.state.attestedWinner = r.new_attestedWinner
  run : Run (CloseZkV2.Step m.e c) (some g) ys u

def Phase (m : Market) (as : List Action) : Stage → Prop
  | .shard s =>
    (s.closed = 0 ∧ Counts as 0 0 ∧ NoRefund as) ∨
    (s.closed = 1 ∧ Counts as 1 0 ∧ NoRefund as ∧
      ∃ (s₀ : State) (r : Result), s = s₀.close r ∧ Attested as r) ∨
    (s.closed = 2 ∧ Counts as 1 0 ∧ Cancelled as s.payoutRoot)
  | .close c u => Counts as 1 1 ∧ NoRefund as ∧ ∃ xs ys g r, HandedOver m as c u xs ys g r
  | .stray _ => Counts as 1 1 ∧ NoRefund as ∧ ∃ r, Attested as r

structure History (m : Market) (as : List Action) (u : Stage) : Prop where
  inv : StageInv u
  phase : Phase m as u

theorem Attested.mono {as bs : List Action} {r : Result} (h : Attested as r) (hsub : as ⊆ bs) :
    Attested bs r := by
  obtain ⟨i, cw, tx, hmem⟩ := h
  exact ⟨i, cw, tx, hsub hmem⟩

/-- The coin of a `CloseZkV2` keeps the winner it began with. -/
theorem winner_run {e : Engine} {c : CloseZkV2.Contract} {g : CloseZkV2.Coin}
    {ys : List CloseZkV2.Action} {u : Option CloseZkV2.Coin} (hg : CloseZkV2.Genesis g)
    (h : Run (CloseZkV2.Step e c) (some g) ys u) :
    ∀ coin, u = some coin → coin.state.attestedWinner = g.state.attestedWinner := by
  refine (h.invariant (I := fun u => CloseZkV2.InvAll u ∧
    ∀ coin, u = some coin → coin.state.attestedWinner = g.state.attestedWinner) ?_ ?_).2
  · rintro v a v' ⟨hi, hw⟩ hstep
    refine ⟨hi.step hstep, fun coin' hcoin' => ?_⟩
    obtain ⟨coin, -, rfl, -⟩ := id hstep
    have hkept := hw coin rfl
    rcases CloseZkV2.step_cases (hi coin rfl).words hstep with ⟨_, _, _, _, _, _, _, _, rfl⟩ |
      ⟨_, _, _, _, _, _, rfl⟩ | ⟨_, _, _, _, ⟨_, rfl⟩ | ⟨_, _, _, rfl⟩⟩
    · obtain rfl := Option.some.inj hcoin'
      exact hkept
    · obtain rfl := Option.some.inj hcoin'
      exact hkept
    · cases hcoin'
    · obtain rfl := Option.some.inj hcoin'
      exact hkept
  · refine ⟨fun coin hcoin => ?_, fun coin hcoin => ?_⟩
    · obtain rfl := Option.some.inj hcoin
      exact hg.inv
    · obtain rfl := Option.some.inj hcoin
      rfl

theorem Counts.add {as : List Action} {n k : Nat} (h : Counts as n k) (a : Action) :
    Counts (as ++ [a]) (n + if attests a then 1 else 0) (k + if handsOver a then 1 else 0) where
  attested := by rw [List.countP_append, h.attested, List.countP_singleton]
  handed := by rw [List.countP_append, h.handed, List.countP_singleton]

theorem NoRefund.add {as : List Action} {a : Action} (h : NoRefund as)
    (ha : ∀ wit tx, a ≠ .shard (.refund_claim wit) tx) : NoRefund (as ++ [a]) := by
  intro wit tx hmem
  rcases List.mem_append.mp hmem with hmem | hmem
  · exact h wit tx hmem
  · exact ha wit tx (List.mem_singleton.mp hmem).symm

theorem History.step {as : List Action} (hh : History m as u) (h : Step m u a u') :
    History m (as ++ [a]) u' := by
  refine ⟨hh.inv.step h, ?_⟩
  have hphase := hh.phase
  have hsub : as ⊆ as ++ [a] := List.subset_append_left _ _
  cases h with
  | @shard s s' call tx h =>
    rcases PayoutShardV2.step_cases (Inv.words hh.inv) h with ⟨i, j, shard, rfl, h0, _, rfl⟩ |
      ⟨i, r, cw, rfl, h0, _, rfl⟩ | ⟨i, root, cw, rfl, h0, _, rfl⟩ | ⟨wit, k, rfl, hk, rfl⟩
    · rcases hphase with ⟨_, hn, hu⟩ | ⟨h1, _⟩ | ⟨h2, _⟩
      · exact Or.inl ⟨h0, hn.add _, hu.add (by simp)⟩
      · omega
      · omega
    · rcases hphase with ⟨_, hn, hu⟩ | ⟨h1, _⟩ | ⟨h2, _⟩
      · exact Or.inr (Or.inl ⟨rfl, hn.add _, hu.add (by simp), s, r, rfl, i, cw, tx, by simp⟩)
      · omega
      · omega
    · rcases hphase with ⟨_, hn, hu⟩ | ⟨h1, _⟩ | ⟨h2, _⟩
      · exact Or.inr (Or.inr ⟨rfl, hn.add _, i, cw, tx, by simp⟩)
      · omega
      · omega
    · have h2 := hk.cancelled
      rcases hphase with ⟨h0, _⟩ | ⟨h1, _⟩ | ⟨_, hn, i, cw, tx', hmem⟩
      · omega
      · omega
      · exact Or.inr (Or.inr ⟨h2, hn.add _, i, cw, tx', hsub hmem⟩)
  | @handoff s w i tx redeem out h ho _ =>
    obtain ⟨h1, hg⟩ := genesis_of_handoff h ho
    rcases hphase with ⟨h0, _⟩ | ⟨_, hn, hu, s₀, r, rfl, hatt⟩ | ⟨h2, _⟩
    · omega
    · refine ⟨hn.add _, hu.add (by simp), as, [],
        { value := out.value, state := genesisState (s₀.close r) }, r, ?_⟩
      exact ⟨⟨w, i, tx, rfl⟩, hatt, ⟨rfl, rfl, rfl, rfl⟩, hg, rfl, .nil _⟩
    · omega
  | @astray s w i tx redeem out h ho _ =>
    obtain ⟨h1, -⟩ := genesis_of_handoff h ho
    rcases hphase with ⟨h0, _⟩ | ⟨_, hn, hu, s₀, r, rfl, hatt⟩ | ⟨h2, _⟩
    · omega
    · exact ⟨hn.add _, hu.add (by simp), r, hatt.mono hsub⟩
    · omega
  | @close c u u' a h =>
    obtain ⟨hn, hu, xs, ys, g, r, hover⟩ := hphase
    obtain ⟨w, i, tx, has⟩ := hover.spends
    refine ⟨hn.add _, hu.add (by simp), xs, ys ++ [a], g, r, ?_⟩
    refine ⟨⟨w, i, tx, ?_⟩, hover.attested, hover.serves, hover.genesis, hover.winner,
      hover.run.append (.single h)⟩
    rw [has]
    simp

theorem history_run {g : State} {as : List Action} (hg : Genesis g)
    (h : Run (Step m) (.shard g) as u) : History m as u := by
  refine h.history (fun _ _ _ _ hh hstep => hh.step hstep) ⟨hg.inv, ?_⟩
  exact Or.inl ⟨hg.closed, ⟨rfl, rfl⟩, fun _ _ h => nomatch h⟩

/-! ### Whole runs -/

/-- The close was made with a proof for the bets and the winner of the result. -/
structure Proven (m : Market) (r : Result) (suffix : Bytes) (root : Bytes32) (tx : Tx) : Prop where
  gate : m.e.blake2b (0x20 :: suffix) = m.gateTmplHash
  journal : ∃ winner input, num2bin r.new_attestedWinner 1 = some winner ∧
    tx.input 1 = some input ∧
    input.scriptPubKey = ScriptPubKeyP2SH (m.e.blake2b (0x20 ::
      ((m.e.sha256 (r.new_betsRoot.toList ++ winner ++ root.toList)).toList ++ suffix)))

/-- A result that was attested serves the contract that the money is handed to, and a close of that
contract is proven. -/
theorem HandedOver.proven {as : List Action} {c : CloseZkV2.Contract}
    {v : Option CloseZkV2.Coin} {xs : List Action} {ys : List CloseZkV2.Action}
    {g : CloseZkV2.Coin} {r : Result} (h : HandedOver m as c v xs ys g r) {suffix : Bytes}
    {root : Bytes32} {i : Int} {tx : Tx}
    (hmem : (CloseZkV2.Call.zk_close suffix root i, tx) ∈ ys) : Proven m r suffix root tx := by
  obtain ⟨pre, post, rfl⟩ := List.append_of_mem hmem
  obtain ⟨v₁, v₂, hrun, hstep, -⟩ := h.run.split_at
  obtain ⟨coin, next, rfl, hspend, -⟩ := id hstep
  simp only [CloseZkV2.spend, Option.map_eq_some_iff] at hspend
  obtain ⟨s', hspend, -⟩ := hspend
  obtain ⟨-, ⟨journal, input, hj, hgate, hin, hpk⟩, -⟩ := CloseZkV2.zk_close_eq_some.mp hspend
  have hwinner := (winner_run h.genesis hrun coin rfl).trans h.winner
  rw [CloseZkV2.journalHash, hwinner, h.serves.betsRootBaked, Option.map_eq_some_iff] at hj
  obtain ⟨winner, hnum, rfl⟩ := hj
  exact ⟨hgate.trans h.serves.gateTmplHash, winner, input, hnum, hin, hpk⟩

/-- The escape was triggered after its six hours of grace. -/
theorem HandedOver.late {as : List Action} {c : CloseZkV2.Contract}
    {v : Option CloseZkV2.Coin} {xs : List Action} {ys : List CloseZkV2.Action}
    {g : CloseZkV2.Coin} {r : Result} (h : HandedOver m as c v xs ys g r) {i : Int} {tx : Tx}
    (hmem : (CloseZkV2.Call.escape_trigger i, tx) ∈ ys) :
    r.new_attestedAtMs + CloseZkV2.ESCAPE_GRACE_MS ≤ tx.lockTime := by
  obtain ⟨pre, post, rfl⟩ := List.append_of_mem hmem
  obtain ⟨v₁, v₂, hrun, hstep, -⟩ := h.run.split_at
  obtain ⟨coin, next, rfl, hspend, -⟩ := id hstep
  simp only [CloseZkV2.spend, Option.map_eq_some_iff] at hspend
  obtain ⟨s', hspend, -⟩ := hspend
  obtain ⟨-, ⟨after, hafter, hle⟩, -⟩ := CloseZkV2.escape_trigger_eq_some.mp hspend
  rw [i64_exact _ _ hafter, h.serves.attestedAtMs] at hle
  exact hle

/-- What holds of a run from the mint `g` by the spends `as` to the stage `u`. -/
structure RunSafe (m : Market) (g : State) (as : List Action) (u : Stage) : Prop where
  conserved :
    g.consolidated_pool + (as.map absorbed).sum = held u + (as.map amountPaid).sum
  solvent : 0 ≤ held u
  one_result : as.countP attests ≤ 1
  one_handoff : as.countP handsOver ≤ 1
  paid_once : (as.filterMap merkleIndex).Nodup
  refund_cancelled : ∀ xs wit tx ys, as = xs ++ .shard (.refund_claim wit) tx :: ys →
    ∃ root, Cancelled xs root ∧ wit.Opens m.e root
  handed_attested : ∀ xs w i tx ys, as = xs ++ .handoff w i tx :: ys →
    NoRefund as ∧ ∃ r, Attested xs r
  claim_proven : ∀ xs wit tx ys, as = xs ++ .close (.claim wit, tx) :: ys →
    ∃ r suffix root i tx', Attested xs r ∧ .close (.zk_close suffix root i, tx') ∈ xs ∧
      Proven m r suffix root tx' ∧ wit.Opens m.e root
  escape_late : ∀ xs wit tx ys, as = xs ++ .close (.escape_claim wit, tx) :: ys →
    ∃ r i tx', Attested xs r ∧ .close (.escape_trigger i, tx') ∈ xs ∧
      r.new_attestedAtMs + CloseZkV2.ESCAPE_GRACE_MS ≤ tx'.lockTime ∧
      wit.Opens m.e r.new_refundRoot

/-- A run that has got past `xs` to a spend of the `CloseZkV2`, from the hand-over on. -/
theorem closing_spend {g : State} {xs zs : List Action} {a : CloseZkV2.Action} (hg : Genesis g)
    (h : Run (Step m) (.shard g) (xs ++ .close a :: zs) u) :
    ∃ c coin v, CloseZkV2.Step m.e c (some coin) a v ∧ CloseZkV2.Inv coin ∧
      ∃ ws ys g' r, HandedOver m xs c (some coin) ws ys g' r := by
  obtain ⟨v₁, v₂, hrun, hstep, -⟩ := h.split_at
  have hh := history_run hg hrun
  cases hstep with
  | @close c w w' _ hclose =>
    obtain ⟨coin, next, rfl, hrest⟩ := id hclose
    obtain ⟨-, -, ws, ys, g', r, hover⟩ := hh.phase
    exact ⟨c, coin, w', hclose, hh.inv coin rfl, ws, ys, g', r, hover⟩

/-- The spends of the handed-over contract are among those of the machine. -/
theorem HandedOver.mem {as : List Action} {c : CloseZkV2.Contract} {v : Option CloseZkV2.Coin}
    {xs : List Action} {ys : List CloseZkV2.Action} {g : CloseZkV2.Coin} {r : Result}
    (h : HandedOver m as c v xs ys g r) {a : CloseZkV2.Action} (ha : a ∈ ys) :
    Action.close a ∈ as := by
  obtain ⟨w, i, tx, rfl⟩ := h.spends
  exact List.mem_append_right _ (List.mem_cons_of_mem _ (List.mem_map_of_mem ha))

theorem HandedOver.attested_all {as : List Action} {c : CloseZkV2.Contract}
    {v : Option CloseZkV2.Coin} {xs : List Action} {ys : List CloseZkV2.Action}
    {g : CloseZkV2.Coin} {r : Result} (h : HandedOver m as c v xs ys g r) : Attested as r := by
  obtain ⟨w, i, tx, rfl⟩ := h.spends
  exact h.attested.mono (List.subset_append_left _ _)

theorem held_nonneg {as : List Action} (hh : History m as u) : 0 ≤ held u := by
  cases u with
  | shard s => exact Inv.pool hh.inv
  | close c v =>
    cases v with
    | none => exact le_refl _
    | some coin => exact Int.natCast_nonneg _
  | stray value => exact Int.natCast_nonneg _

theorem counts_le {as : List Action} (hh : History m as u) :
    as.countP attests ≤ 1 ∧ as.countP handsOver ≤ 1 := by
  have hle : ∀ {n k}, Counts as n k → n ≤ 1 → k ≤ 1 →
      as.countP attests ≤ 1 ∧ as.countP handsOver ≤ 1 := by
    intro n k h hn hk
    exact ⟨h.attested ▸ hn, h.handed ▸ hk⟩
  cases u with
  | shard s =>
    rcases hh.phase with ⟨_, h, _⟩ | ⟨_, h, _⟩ | ⟨_, h, _⟩
    · exact hle h (by omega) (by omega)
    · exact hle h (by omega) (by omega)
    · exact hle h (by omega) (by omega)
  | close c v => exact hle hh.phase.1 le_rfl le_rfl
  | stray value => exact hle hh.phase.1 le_rfl le_rfl

/-- Once the money has been handed over, nothing was refunded before and nothing is after. -/
theorem noRefund_of_handoff {as : List Action} (hh : History m as u) {w : Segments} {i : Int}
    {tx : Tx} (hmem : Action.handoff w i tx ∈ as) : NoRefund as := by
  have hpos : 0 < as.countP handsOver := List.countP_pos_iff.mpr ⟨_, hmem, rfl⟩
  cases u with
  | shard s =>
    rcases hh.phase with ⟨_, h, _⟩ | ⟨_, h, _⟩ | ⟨_, h, _⟩
    · exact absurd h.handed (by omega)
    · exact absurd h.handed (by omega)
    · exact absurd h.handed (by omega)
  | close c v => exact hh.phase.2.1
  | stray value => exact hh.phase.2.1

/-- **Every run of a zero-knowledge market is safe**, from the mint of its settlement contract to
the last payment of the contract it is handed to. -/
theorem market_run_safe {g : State} {as : List Action} (hg : Genesis g)
    (h : Run (Step m) (.shard g) as u) : RunSafe m g as u := by
  have hh := history_run hg h
  have hinv : StageInv (.shard g) := hg.inv
  constructor
  · have hpay : ∀ v a v', StageInv v → Step m v a v' →
        held v = held v' + (amountPaid a - absorbed a) := by
      intro v a v' hi hstep
      have := held_step hi hstep
      omega
    have hledger := h.ledger (I := StageInv) held (fun a => amountPaid a - absorbed a)
      (fun _ _ _ hi => StageInv.step hi) hpay hinv
    have hsum : ∀ bs : List Action, (bs.map fun a => amountPaid a - absorbed a).sum =
        (bs.map amountPaid).sum - (bs.map absorbed).sum := by
      intro bs
      induction bs with
      | nil => rfl
      | cons b bs ih =>
        simp only [List.map_cons, List.sum_cons, ih]
        omega
    rw [hsum] at hledger
    have hstart : held (.shard g) = g.consolidated_pool := rfl
    omega
  · exact held_nonneg hh
  · exact (counts_le hh).1
  · exact (counts_le hh).2
  · exact h.nodup_keys (I := StageInv) merkleIndex Spent (fun _ _ _ hi => StageInv.step hi)
      (fun _ _ _ _ hi => spent_refuses hi) (fun _ _ _ _ hi => spent_marks hi)
      (fun _ _ _ _ hi => spent_stays hi) hinv
  · rintro xs wit tx ys rfl
    obtain ⟨v₁, v₂, hrun, hstep, -⟩ := h.split_at
    have hx := history_run hg hrun
    cases hstep with
    | @shard s s' _ _ hspend =>
      rcases PayoutShardV2.step_cases (Inv.words hx.inv) hspend with ⟨_, _, _, ha, _⟩ |
        ⟨_, _, _, ha, _⟩ | ⟨_, _, _, ha, _⟩ | ⟨wit', k, ha, hk, _⟩
      · cases ha
      · cases ha
      · cases ha
      · cases ha
        have h2 := hk.cancelled
        rcases hx.phase with ⟨h0, _⟩ | ⟨h1, _⟩ | ⟨_, _, hcancel⟩
        · omega
        · omega
        · exact ⟨s.payoutRoot, hcancel, hk.leaf⟩
  · rintro xs w i tx ys rfl
    refine ⟨noRefund_of_handoff hh (List.mem_append_right xs List.mem_cons_self), ?_⟩
    obtain ⟨v₁, v₂, hrun, hstep, -⟩ := h.split_at
    have hx := history_run hg hrun
    have attested : ∀ {s : State}, v₁ = .shard s → s.closed = 1 → ∃ r, Attested xs r := by
      rintro s rfl h1
      rcases hx.phase with ⟨h0, _⟩ | ⟨_, _, _, _, r, _, hatt⟩ | ⟨h2, _⟩
      · omega
      · exact ⟨r, hatt⟩
      · omega
    cases hstep with
    | handoff hhand ho _ => exact attested rfl (genesis_of_handoff hhand ho).1
    | astray hhand ho _ => exact attested rfl (genesis_of_handoff hhand ho).1
  · rintro xs wit tx ys rfl
    obtain ⟨c, coin, v, hstep, hinv, ws, zs, g', r, hover⟩ := closing_spend hg h
    rcases CloseZkV2.step_cases hinv.words hstep with ⟨_, _, _, _, _, ha, _⟩ |
      ⟨_, _, _, ha, _⟩ | ⟨wit', k, hp, hpay, _⟩
    · cases ha
    · cases ha
    · obtain rfl : wit = wit' := Option.some.inj hp
      have h2 : coin.state.closed = 2 := hpay.latched
      rcases (CloseZkV2.history_run hover.genesis hover.run).phase coin rfl with ⟨h1, _⟩ |
        ⟨_, _, suffix, i, tx', hmem⟩ | ⟨h3, _⟩
      · omega
      · exact ⟨r, suffix, _, i, tx', hover.attested_all, hover.mem hmem, hover.proven hmem,
          hpay.leaf⟩
      · omega
  · rintro xs wit tx ys rfl
    obtain ⟨c, coin, v, hstep, hinv, ws, zs, g', r, hover⟩ := closing_spend hg h
    rcases CloseZkV2.step_cases hinv.words hstep with ⟨_, _, _, _, _, ha, _⟩ |
      ⟨_, _, _, ha, _⟩ | ⟨wit', k, hp, hpay, _⟩
    · cases ha
    · cases ha
    · obtain rfl : wit = wit' := Option.some.inj hp
      have h3 : coin.state.closed = 3 := hpay.latched
      rcases (CloseZkV2.history_run hover.genesis hover.run).phase coin rfl with ⟨h1, _⟩ |
        ⟨h2, _⟩ | ⟨_, _, i, tx', hmem⟩
      · omega
      · omega
      · exact ⟨r, i, tx', hover.attested_all, hover.mem hmem, hover.late hmem,
          hover.serves.refundRootBaked ▸ hpay.leaf⟩

/-! ### A market handed over on the sample engine

A shard worth 200 sompi is taken in, the committee attests a result, and the pool of 500 is handed
over. -/

def sampleMarket : Market where
  e := sampleEngine
  contract :=
    { poolMerkleRoot := PayoutShard.sampleContract.poolMerkleRoot
      predicate_commit := PayoutShard.sampleContract.predicate_commit
      closeZkTmplAnchor := sampleEngine.blake2b sampleSegments.bytes }
  template := PayoutShard.sampleContract.template
  segments := sampleSegments
  gateTmplHash := ZERO32

def sampleMinted : State where
  consolidated_pool := 300
  closed := 0
  payoutRoot := ZERO32
  w := Words.zero
  attestedWinner := -1
  attestedAtMs := 0
  betsRootBaked := ZERO32
  refundRootBaked := ZERO32

def sampleResult : Result where
  new_payoutRoot := ZERO32
  new_attestedWinner := 1
  new_betsRoot := samplePk 0
  new_refundRoot := samplePk 1
  new_attestedAtMs := 1783500000000

def sampleOpen : State := { sampleMinted with consolidated_pool := 500 }

def sampleAbsorbTx : Tx where
  inputs := [{ value := 200, scriptPubKey := [], covenantId := none }]
  outputs := [covenantOutput sampleEngine sampleMarket.template sampleOpen.fields 500 none]
  lockTime := 0

def sampleCloseTx : Tx :=
  sampleTx [covenantOutput sampleEngine sampleMarket.template
    (sampleOpen.close sampleResult).fields 500 none] (by decide)

/-- The redeem script of the contract that is handed the pool. -/
def sampleRedeem : Bytes := (genesisRedeem sampleSegments (sampleOpen.close sampleResult)).getD []

def sampleHandoffTx : Tx :=
  sampleTx [{ value := 500, covenantId := none
              scriptPubKey := ScriptPubKeyP2SH (sampleEngine.blake2b sampleRedeem) }] (by simp)

theorem sample_fits {s : State} (hp : Fits 8 s.consolidated_pool) (hc : Fits 8 s.closed)
    (hw : WordsOk s.w) (hwin : Fits 8 s.attestedWinner) (hat : Fits 8 s.attestedAtMs) :
    ∀ f ∈ s.fields, f.Fits := by
  intro f hf
  simp only [State.fields, List.mem_cons, List.mem_append, List.mem_map, List.mem_ofFn,
    List.not_mem_nil, or_false] at hf
  rcases hf with rfl | rfl | rfl | ⟨_, ⟨i, rfl⟩, rfl⟩ | rfl | rfl | rfl | rfl
  · exact hp
  · exact hc
  · exact trivial
  · obtain ⟨h0, h1⟩ := hw i
    exact fits_eight.mpr ⟨by omega, h1⟩
  · exact hwin
  · exact hat
  · exact trivial
  · exact trivial

theorem sample_absorb : Step sampleMarket (.shard sampleMinted)
    (.shard (.absorb 0 0) sampleAbsorbTx) (.shard sampleOpen) := by
  refine .shard ((absorb_eq_some i64_lawful).mpr ⟨rfl, _, rfl, rfl, ?_, _, rfl, rfl⟩)
  exact Tx.continues_covenantOutput (sample_fits (by decide) (by decide) wordsOk_zero (by decide)
    (by decide)) rfl

theorem sample_close : Step sampleMarket (.shard sampleOpen)
    (.shard (.close_attest 0 sampleResult PayoutShard.sampleCommittee) sampleCloseTx)
    (.shard (sampleOpen.close sampleResult)) := by
  refine .shard (attest_eq_some.mpr ⟨rfl, PayoutShard.sampleCommittee_attests _, rfl, ?_, _, rfl,
    rfl⟩)
  exact Tx.continues_covenantOutput (sample_fits (by decide) (by decide) wordsOk_zero (by decide)
    (by decide)) rfl

theorem sample_handoff : Step sampleMarket (.shard (sampleOpen.close sampleResult))
    (.handoff sampleSegments 0 sampleHandoffTx)
    (.close (closeContract sampleMarket (sampleOpen.close sampleResult))
      (some { value := 500, state := genesisState (sampleOpen.close sampleResult) })) := by
  obtain ⟨state, hstate⟩ := exists_genesisRedeem (s := sampleOpen.close sampleResult)
    (by decide) (by decide) ⟨by decide, by decide⟩
  have hredeem : genesisRedeem sampleSegments (sampleOpen.close sampleResult) =
      some sampleRedeem := by
    rw [sampleRedeem, hstate, Option.getD_some]
  have hacc : zk_handoff sampleEngine sampleMarket.contract (sampleOpen.close sampleResult)
      sampleHandoffTx 0 sampleSegments = some sampleRedeem :=
    zk_handoff_eq_some.mpr ⟨rfl, ⟨by decide, by decide⟩, rfl, hredeem, _, rfl, rfl, rfl⟩
  exact Step.handoff (m := sampleMarket) hacc rfl ⟨rfl, rfl, rfl⟩

/-- The run of that market, up to the hand-over. -/
theorem market_run_safe_sample :
    RunSafe sampleMarket sampleMinted
      [.shard (.absorb 0 0) sampleAbsorbTx,
        .shard (.close_attest 0 sampleResult PayoutShard.sampleCommittee) sampleCloseTx,
        .handoff sampleSegments 0 sampleHandoffTx]
      (.close (closeContract sampleMarket (sampleOpen.close sampleResult))
        (some { value := 500, state := genesisState (sampleOpen.close sampleResult) })) :=
  market_run_safe ⟨rfl, rfl, by decide⟩
    (.cons sample_absorb (.cons sample_close (.single sample_handoff)))

end KANet.Covenant.ZkMarket
