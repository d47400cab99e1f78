import KANet.Covenant.CloseZkRun
import KANet.Zk.Guest

/-!
# What a zk close fixes

Two runs of the guest whose journals name the same bets and the same winner, and the
root `zk_close` bakes for a state of the covenant.

* `sum_payouts` — the winners' leaves add up to what is left after the fees.
* `payout_root_eq_iff` — the payout roots of the two runs agree exactly when nobody
  won, or when the fee leaves and what is left after them are the same.
* `close_distribution_iff` — and what the covenant accepts is the root of the run
  behind the proof, whatever its pool and its fee leaves were.
-/

namespace KANet.Zk.Guest

open KANet.Lib KANet.Script KANet.Covenant KANet.Covenant.CloseZkV2

/-! ### One run -/

/-- Everything the program hashes. -/
def hashed (e : Engine) (input : GuestInput) : List Bytes :=
  Payout.chainMessages e (input.bettors.map Bet.toBet) ++
    if input.Degenerate then [] else Payout.treeMessages e (input.leaves.map PayoutLeaf.toLeaf)

theorem main_eq_some {e : Engine} {input : GuestInput} {j : Journal} :
    main e input = some j ↔
      Payout.computeBetsRoot e (input.bettors.map Bet.toBet) = some j.bets_root ∧
      j.winning_direction = input.winning_direction ∧
      (if input.Degenerate then j.payout_root = ZERO32
        else payout_root e input.leaves = some j.payout_root) := by
  obtain ⟨bets_root, winning_direction, root⟩ := j
  unfold main
  rw [compute_bets_root_eq]
  by_cases h : input.Degenerate
  · simp only [if_pos h, Option.bind_eq_bind, Option.bind_some, Option.bind_eq_some_iff,
      Option.some.injEq, Journal.mk.injEq]
    constructor
    · rintro ⟨_, hb, rfl, rfl, rfl⟩
      exact ⟨hb, rfl, rfl⟩
    · rintro ⟨hb, rfl, rfl⟩
      exact ⟨_, hb, rfl, rfl, rfl⟩
  · simp only [if_neg h, Option.bind_eq_bind, Option.bind_eq_some_iff, Option.some.injEq,
      Journal.mk.injEq]
    constructor
    · rintro ⟨_, hb, _, hr, rfl, rfl, rfl⟩
      exact ⟨hb, rfl, hr⟩
    · rintro ⟨hb, rfl, hr⟩
      exact ⟨_, hb, _, hr, rfl, rfl, rfl⟩

theorem payouts_length (input : GuestInput) :
    input.payouts.length = input.winners.length := by
  have h : input.shares.length = input.winners.length := by
    rw [GuestInput.shares, List.length_map]
  rw [GuestInput.payouts]
  cases hs : input.shares with
  | nil => rw [← h, hs]
  | cons p ps => rw [← h, hs, List.length_cons, List.length_cons]

/-- **Nothing is lost in rounding**, not even to a sum that wraps. -/
theorem sum_payouts {input : GuestInput} (h : input.winners ≠ []) :
    sum (input.payouts.map PayoutLeaf.amount) = input.distributable := by
  have hne : input.shares ≠ [] := by
    rw [GuestInput.shares]
    simpa using h
  obtain ⟨p, ps, hs⟩ := List.exists_cons_of_ne_nil hne
  have hassigned : input.assigned = p.amount + sum (ps.map PayoutLeaf.amount) := by
    rw [GuestInput.assigned, hs]
    rfl
  have hsum : sum (input.payouts.map PayoutLeaf.amount) =
      p.amount + (input.distributable - input.assigned) + sum (ps.map PayoutLeaf.amount) := by
    rw [GuestInput.payouts, hs]
    rfl
  rw [hsum, hassigned]
  grind

/-! ### Two runs -/

/-- The two inputs pay the same: nobody, or the same fee leaves and as much to the winners. -/
def SameSplit (i i' : GuestInput) : Prop :=
  i.Degenerate ∨ (i.fee_leaves = i'.fee_leaves ∧ i.distributable = i'.distributable)

section TwoRuns

variable {e : Engine} {i i' : GuestInput} {j j' : Journal}

theorem bettors_eq (hi : main e i = some j) (hi' : main e i' = some j')
    (hbets : j.bets_root = j'.bets_root) (hcf : Payout.CollisionFree e (hashed e i ++ hashed e i'))
    (hz : Payout.NoZeroDigest e (hashed e i ++ hashed e i')) : i.bettors = i'.bettors := by
  obtain ⟨h, -⟩ := main_eq_some.mp hi
  obtain ⟨h', -⟩ := main_eq_some.mp hi'
  rw [← hbets] at h'
  have hmap := Payout.computeBetsRoot_inj hcf.injOn (Or.inr hz)
    (fun m hm => List.mem_append_left _ (List.mem_append_left _ hm))
    (fun m hm => List.mem_append_right _ (List.mem_append_left _ hm)) h h'
  exact List.map_injective_iff.mpr Bet.toBet_inj hmap

/-- The leaves depend on the bets, on the winner and on what `SameSplit` compares. -/
theorem leaves_congr (hb : i.bettors = i'.bettors)
    (hw : i.winning_direction = i'.winning_direction) (hf : i.fee_leaves = i'.fee_leaves)
    (hd : i.distributable = i'.distributable) : i.leaves = i'.leaves := by
  have hwin : i.winners = i'.winners := by rw [GuestInput.winners, hb, hw, GuestInput.winners]
  have htot : i.total_win_stake = i'.total_win_stake := by
    rw [GuestInput.total_win_stake, hwin, GuestInput.total_win_stake]
  have hs : i.shares = i'.shares := by
    rw [GuestInput.shares, hwin, hd, htot, GuestInput.shares]
  have ha : i.assigned = i'.assigned := by rw [GuestInput.assigned, hs, GuestInput.assigned]
  rw [GuestInput.leaves, GuestInput.leaves, hf, GuestInput.payouts, GuestInput.payouts, hs, hd, ha]

/-- **What two proofs must share to end in one payout root.** -/
theorem payout_root_eq_iff (hi : main e i = some j) (hi' : main e i' = some j')
    (hbets : j.bets_root = j'.bets_root) (hwin : j.winning_direction = j'.winning_direction)
    (hcf : Payout.CollisionFree e (hashed e i ++ hashed e i'))
    (hz : Payout.NoZeroDigest e (hashed e i ++ hashed e i')) :
    j.payout_root = j'.payout_root ↔ SameSplit i i' := by
  have hb := bettors_eq hi hi' hbets hcf hz
  obtain ⟨-, hd, hr⟩ := main_eq_some.mp hi
  obtain ⟨-, hd', hr'⟩ := main_eq_some.mp hi'
  have hdir : i.winning_direction = i'.winning_direction := by rw [← hd, hwin, hd']
  have hw : i.winners = i'.winners := by rw [GuestInput.winners, hb, hdir, GuestInput.winners]
  have hdeg : i.Degenerate ↔ i'.Degenerate := by
    rw [GuestInput.Degenerate, GuestInput.total_win_stake, hw, GuestInput.Degenerate,
      GuestInput.total_win_stake]
  by_cases h : i.Degenerate
  · rw [if_pos h] at hr
    rw [if_pos (hdeg.mp h)] at hr'
    rw [hr, hr']
    exact ⟨fun _ => Or.inl h, fun _ => rfl⟩
  · have h' : ¬ i'.Degenerate := hdeg.not.mp h
    rw [if_neg h] at hr
    rw [if_neg h'] at hr'
    constructor
    · intro hroot
      obtain ⟨-, hroot₁⟩ := payout_root_eq_some.mp hr
      obtain ⟨-, hroot₂⟩ := payout_root_eq_some.mp hr'
      obtain ⟨hbuild, h₁⟩ := Payout.payoutRoot_eq_some.mp hroot₁
      obtain ⟨hbuild', h₂⟩ := Payout.payoutRoot_eq_some.mp hroot₂
      have htree : ∀ m ∈ Payout.treeMessages e (i.leaves.map PayoutLeaf.toLeaf),
          m ∈ hashed e i ++ hashed e i' := by
        intro m hm
        rw [hashed, if_neg h]
        exact List.mem_append_left _ (List.mem_append_right _ hm)
      have htree' : ∀ m ∈ Payout.treeMessages e (i'.leaves.map PayoutLeaf.toLeaf),
          m ∈ hashed e i ++ hashed e i' := by
        intro m hm
        unfold hashed
        rw [if_neg h']
        exact List.mem_append_right _ (List.mem_append_right _ hm)
      have hmap := Payout.rootOf_inj hcf.injOn hbuild hbuild' htree htree' (Or.inr hz)
        (by rw [h₁, h₂, hroot])
      have hleaves : i.payouts ++ i.fee_leaves = i'.payouts ++ i'.fee_leaves :=
        List.map_injective_iff.mpr PayoutLeaf.toLeaf_inj hmap
      obtain ⟨hpay, hfee⟩ := List.append_inj hleaves
        (by rw [payouts_length, payouts_length, hw])
      have hne : i.winners ≠ [] := fun hnil => h (Or.inl hnil)
      refine Or.inr ⟨hfee, ?_⟩
      rw [← sum_payouts hne, hpay, sum_payouts (hw ▸ hne)]
    · rintro (hd | ⟨hf, hdist⟩)
      · exact absurd hd h
      · rw [leaves_congr hb hdir hf hdist, hr'] at hr
        exact (Option.some.inj hr).symm

end TwoRuns

/-! ### The close -/

/-- The journal names the bets and the winner of this state. -/
def Carries (c : Contract) (s : State) (j : Journal) : Prop :=
  j.bets_root = c.betsRootBaked ∧ num2bin s.attestedWinner 1 = some [j.winning_direction]

/-- What the covenant hashes for the journal. -/
def preimage (c : Contract) (s : State) (guestPayoutRoot : Bytes32) : Bytes :=
  c.betsRootBaked.toList ++ signMagnitude 1 s.attestedWinner ++ guestPayoutRoot.toList

/-- A close that the covenant accepted.  Its gate was opened with a proof, and the proof is
sound: there is a run of the guest whose journal has the hash that the covenant computed. -/
structure ProvenClose (e : Engine) (c : Contract) (s : State) where
  tx : Tx
  gateSuffix : Bytes
  guestPayoutRoot : Bytes32
  selfOutIdx : Int
  next : State
  accepted : zk_close e c s tx gateSuffix guestPayoutRoot selfOutIdx = some next
  input : GuestInput
  journal : Journal
  run : main e input = some journal
  proof : journalHash e c s guestPayoutRoot = some (e.sha256 journal.bytes)

/-- The root that is baked is the one in the journal. -/
theorem ProvenClose.root_eq {e : Engine} {c : Contract} {s : State} (p : ProvenClose e c s)
    (hsha : ({p.journal.bytes, preimage c s p.guestPayoutRoot} : Set Bytes).InjOn e.sha256) :
    Carries c s p.journal ∧ p.guestPayoutRoot = p.journal.payout_root := by
  obtain ⟨winner, hw, hhash⟩ := Option.map_eq_some_iff.mp p.proof
  obtain ⟨hfits, rfl⟩ := num2bin_eq_some.mp hw
  have hbytes : preimage c s p.guestPayoutRoot = p.journal.bytes :=
    hsha (by simp) (by simp) hhash
  rw [preimage, Journal.bytes] at hbytes
  obtain ⟨hfront, hroot⟩ := List.append_inj' hbytes (by rw [List.Vector.toList_length,
    List.Vector.toList_length])
  obtain ⟨hb, hwin⟩ := List.append_inj hfront (by rw [List.Vector.toList_length,
    List.Vector.toList_length])
  exact ⟨⟨(List.Vector.eq _ _ hb).symm, num2bin_eq_some.mpr ⟨hfits, hwin⟩⟩,
    List.Vector.eq _ _ hroot⟩

/-- **What a zk close fixes.**  Of two runs for one state the payout roots agree exactly when
they split alike, and a close by one of them bakes the root of the other exactly then.  The other
run may be the one that splits the covenant's own pool among the winners and the market's fee
recipients: nothing ties the run behind the proof to it. -/
theorem close_distribution_iff {e : Engine} {c : Contract} {s : State} {i i' : GuestInput}
    {j j' : Journal} (hi : main e i = some j) (hi' : main e i' = some j') (hc : Carries c s j)
    (hc' : Carries c s j') (hcf : Payout.CollisionFree e (hashed e i ++ hashed e i'))
    (hz : Payout.NoZeroDigest e (hashed e i ++ hashed e i')) :
    (j.payout_root = j'.payout_root ↔ SameSplit i i') ∧
      ∀ p : ProvenClose e c s, p.input = i →
        ({p.journal.bytes, preimage c s p.guestPayoutRoot} : Set Bytes).InjOn e.sha256 →
        (p.guestPayoutRoot = j'.payout_root ↔ SameSplit i i') := by
  have hwin : j.winning_direction = j'.winning_direction := by
    have h := hc.2.symm.trans hc'.2
    simpa using h
  have hroots := payout_root_eq_iff hi hi' (hc.1.trans hc'.1.symm) hwin hcf hz
  refine ⟨hroots, fun p hp hsha => ?_⟩
  have hrun := p.run
  rw [hp, hi] at hrun
  rw [(p.root_eq hsha).2, ← Option.some.inj hrun, hroots]

/-! ### Two closes of one market -/

/-- One winning bet of 500 and one losing bet of 300. -/
def sampleBets : List Bet :=
  [{ pk := samplePk 1, stake := 500, direction := 1 },
    { pk := samplePk 2, stake := 300, direction := 0 }]

/-- The whole pool, with eight sompi to the broker. -/
def marketInput : GuestInput where
  bettors := sampleBets
  winning_direction := 1
  pool_total_sompi := some 800
  fee_bps := 0
  fee_leaves := [{ pk := samplePk 3, amount := 8 }]

/-- The same bets, with a fee leaf of the prover's own. -/
def skimInput : GuestInput :=
  { marketInput with fee_leaves := [{ pk := samplePk 9, amount := 799 }] }

def journalOf (input : GuestInput) : Journal :=
  (main sampleEngine input).getD
    { bets_root := ZERO32, winning_direction := 0, payout_root := ZERO32 }

def zkContract : Contract where
  gateTmplHash := sampleEngine.blake2b [0x20, 0x51]
  betsRootBaked := (journalOf marketInput).bets_root
  refundRootBaked := ZERO32
  attestedAtMs := 1783000000000
  template := { templatePrefix := [0x6b], templateSuffix := [0xac] }

def zkAttested : State where
  attestedWinner := 1
  closed := 1
  payoutRootField := ZERO32
  consolidated_pool := 800
  w := Words.zero

def zkClosed (root : Bytes32) : State :=
  { zkAttested with closed := 2, payoutRootField := root }

/-- The gate, opened with a proof of this journal, next to the coin. -/
def zkCloseTx (j : Journal) : Tx where
  inputs := [{ value := 800, scriptPubKey := [], covenantId := none },
    { value := 1000, covenantId := none
      scriptPubKey := ScriptPubKeyP2SH (sampleEngine.blake2b
        (0x20 :: ((sampleEngine.sha256 j.bytes).toList ++ [0x51]))) }]
  outputs := [covenantOutput sampleEngine zkContract.template
    (zkClosed j.payout_root).fields 800 none]
  lockTime := 0
  inputs_bounded := by simp
  outputs_bounded := by simp [covenantOutput]

theorem journalHash_zk {j : Journal} (hj : Carries zkContract zkAttested j) :
    journalHash sampleEngine zkContract zkAttested j.payout_root =
      some (sampleEngine.sha256 j.bytes) := by
  rw [journalHash, hj.2, Option.map_some, ← hj.1, Journal.bytes]

theorem zkClosed_fit (root : Bytes32) : ∀ f ∈ (zkClosed root).fields, f.Fits :=
  fields_fit (show Fits 8 (1 : Int) by decide) (show Fits 8 (2 : Int) by decide)
    (show Fits 8 (800 : Int) by decide) wordsOk_zero

/-- The covenant accepts the root of any run that names its bets and its winner. -/
def zkClose (input : GuestInput) (j : Journal) (hrun : main sampleEngine input = some j)
    (hj : Carries zkContract zkAttested j) :
    ProvenClose sampleEngine zkContract zkAttested where
  tx := zkCloseTx j
  gateSuffix := [0x51]
  guestPayoutRoot := j.payout_root
  selfOutIdx := 0
  next := zkClosed j.payout_root
  accepted := zk_close_eq_some.mpr ⟨rfl, ⟨_, _, journalHash_zk hj, rfl, rfl, rfl⟩, rfl,
    Tx.continues_covenantOutput (zkClosed_fit _) rfl, _, rfl, rfl⟩
  input := input
  journal := j
  run := hrun
  proof := journalHash_zk hj

theorem run_market : main sampleEngine marketInput = some (journalOf marketInput) := by
  decide +kernel

theorem run_skim : main sampleEngine skimInput = some (journalOf skimInput) := by
  decide +kernel

theorem carries_market : Carries zkContract zkAttested (journalOf marketInput) :=
  ⟨rfl, by decide +kernel⟩

theorem carries_skim : Carries zkContract zkAttested (journalOf skimInput) :=
  ⟨by decide +kernel, by decide +kernel⟩

/-- Two proofs for one state, and the covenant bakes two different roots. -/
theorem close_distribution_not_fixed :
    ∃ p q : ProvenClose sampleEngine zkContract zkAttested,
      Carries zkContract zkAttested p.journal ∧
      Carries zkContract zkAttested q.journal ∧
      p.journal.payout_root ≠ q.journal.payout_root ∧ p.guestPayoutRoot ≠ q.guestPayoutRoot :=
  ⟨zkClose _ _ run_market carries_market, zkClose _ _ run_skim carries_skim,
    carries_market, carries_skim, by decide +kernel, by decide +kernel⟩

theorem close_distribution_iff_sample :
    ((journalOf marketInput).payout_root = (journalOf skimInput).payout_root ↔
        SameSplit marketInput skimInput) ∧
      ∀ p : ProvenClose sampleEngine zkContract zkAttested, p.input = marketInput →
        ({p.journal.bytes, preimage zkContract zkAttested p.guestPayoutRoot} :
          Set Bytes).InjOn sampleEngine.sha256 →
        (p.guestPayoutRoot = (journalOf skimInput).payout_root ↔
          SameSplit marketInput skimInput) :=
  close_distribution_iff run_market run_skim carries_market carries_skim (by decide +kernel)
    (by decide +kernel)

end KANet.Zk.Guest
