import KANet.Lib.Hex
import KANet.Lib.ProRata
import KANet.Script.Buffer

/-!
# The payouts of a pool market

`computePoolPayouts` takes the fees from the whole pool and shares the rest among the winners;
where one of three oracles is silent, its bond is shared too.  `dispatchPhase2` splits the oracle fee
over the committee, half of it alike and half by stake, and builds the outputs.

The amounts are worked out without rounding and then turned into doubles, which keeps them below
2^53.

* `sum_winnerAmounts` — the winners get what there is to split, and the forfeit share for each
  maker among them.
* `sum_oracleBondReturns` — what the bonds come to.
* `sum_perCommFees` — the split of the oracle fee loses nothing.
* `payouts_sound_iff` — **when a market pays out what it holds.**
-/

namespace KANet.Settle.PoolPayouts

open KANet.Lib KANet.Script

/-! ### The payouts -/

structure Participant where
  stake : Int
  direction : Int
  isMaker : Bool

structure Args where
  participants : List Participant
  winner : Int
  brokerFeePct : Int
  oracleFeePct : Option Int
  makerFeePct : Option Int
  oracleBond : Int
  minerFee : Int
  unanimous : Bool
  silentOracleIndex : Option Int
  oracleCount : Option Int
  committeeMode : Bool
  minBrokerFee : Option Int

structure WinnerPayout where
  participantIndex : Nat
  isMaker : Bool
  amount : Int
  amountSompi : String

structure BondReturn where
  oracleIndex : Nat
  amount : Int

structure Payouts where
  brokerFee : Int
  oracleFeeTotal : Int
  makerFee : Int
  winnerPayouts : List WinnerPayout
  makerExtraOutput : Option Int
  oracleBondReturns : List BondReturn
  totalPool : Int
  distributable : Int

def MIN_BROKER_FEE_SOMPI : Int := 5000000

/-- What a silent oracle's bond adds to the winners, to the maker and to either other oracle. -/
structure ForfeitShares where
  winner : Int
  maker : Int
  perOracle : Int

namespace Args

variable (a : Args)

/-- The participants on the winning side, with their places. -/
def winners : List (Participant × Nat) :=
  a.participants.zipIdx.filter fun p => p.1.direction = a.winner

def losers : List Participant := a.participants.filter fun p => p.direction ≠ a.winner

def totalWinnerStake : Int := (a.winners.map fun w => w.1.stake).sum

def totalLoserStake : Int := (a.losers.map Participant.stake).sum

def totalPool : Int := a.totalWinnerStake + a.totalLoserStake

def oracleBps : Int := a.oracleFeePct.getD 100

def makerBps : Int := a.makerFeePct.getD 10

def minBroker : Int := a.minBrokerFee.getD MIN_BROKER_FEE_SOMPI

def brokerFee : Int :=
  if (a.totalPool * a.brokerFeePct).tdiv 10000 < a.minBroker then a.minBroker
  else (a.totalPool * a.brokerFeePct).tdiv 10000

def oracleFeeTotal : Int := (a.totalPool * a.oracleBps).tdiv 10000

def makerFee : Int := (a.totalPool * a.makerBps).tdiv 10000

def oracleCountForBonds : Int := a.oracleCount.getD 3

def committeeBondReserve : Int :=
  if a.committeeMode then a.oracleCountForBonds * a.oracleBond else 0

def distributable : Int :=
  a.totalPool - a.brokerFee - a.oracleFeeTotal - a.makerFee - a.committeeBondReserve - a.minerFee

/-- Whether a silent oracle loses its bond. -/
def forfeits : Bool := !a.unanimous && a.silentOracleIndex.isSome && !a.committeeMode

def forfeitShares : ForfeitShares :=
  if a.forfeits then
    { winner := (a.oracleBond * 50).tdiv 100
      maker := (a.oracleBond * 25).tdiv 100 + (a.oracleBond - ((a.oracleBond * 50).tdiv 100 +
        (a.oracleBond * 25).tdiv 100 + ((a.oracleBond * 25).tdiv 100).tdiv 2 * 2))
      perOracle := ((a.oracleBond * 25).tdiv 100).tdiv 2 }
  else ⟨0, 0, 0⟩

def poolToSplit : Int := a.distributable + a.forfeitShares.winner

def share (w : Participant × Nat) : Int :=
  if 0 < a.totalWinnerStake then (a.poolToSplit * w.1.stake).tdiv a.totalWinnerStake else 0

/-- What rounding leaves goes to the first winner. -/
def winnerDust : Int := a.poolToSplit - (a.winners.map a.share).sum

def winnerAmount (i : Nat) (w : Participant × Nat) : Int :=
  a.share w + (if i = 0 then a.winnerDust else 0) +
    (if w.1.isMaker then a.forfeitShares.maker else 0)

def winnerPayouts : List WinnerPayout :=
  a.winners.mapIdx fun i w =>
    { participantIndex := w.2
      isMaker := w.1.isMaker
      amount := toNumber (a.winnerAmount i w)
      amountSompi := toString (a.winnerAmount i w) }

def makerExtraOutput : Option Int :=
  if ¬ a.winners.any (fun w => w.1.isMaker) ∧ 0 < a.forfeitShares.maker then
    some (toNumber a.forfeitShares.maker)
  else none

/-- Whether an oracle is left out of the bond returns. -/
def skips (i : Nat) : Bool :=
  !a.committeeMode && !a.unanimous && a.silentOracleIndex = some (i : Int)

def bondReturnAmount : Int :=
  if a.committeeMode then a.oracleBond
  else toNumber (a.oracleBond + a.forfeitShares.perOracle)

/-- The oracles whose bond is returned. -/
def paidOracles : List Nat :=
  (List.range a.oracleCountForBonds.toNat).filter fun i => !a.skips i

def oracleBondReturns : List BondReturn :=
  a.paidOracles.map fun i => ⟨i, a.bondReturnAmount⟩

def payouts : Payouts where
  brokerFee := toNumber a.brokerFee
  oracleFeeTotal := toNumber a.oracleFeeTotal
  makerFee := toNumber a.makerFee
  winnerPayouts := a.winnerPayouts
  makerExtraOutput := a.makerExtraOutput
  oracleBondReturns := a.oracleBondReturns
  totalPool := toNumber a.totalPool
  distributable := toNumber a.distributable

end Args

def computePoolPayouts (a : Args) : Except String Payouts :=
  if a.minerFee < 0 then .error "minerFee required (sompi int)"
  else if a.winners = [] then .error "no winners"
  else if a.totalPool ≤ a.minerFee then
    .error ("totalPool (" ++ toString a.totalPool ++ ") <= minerFee (" ++ toString a.minerFee ++
      ") — settle impossible without fee")
  else if a.distributable < 0 then
    .error ("distributable negative (total=" ++ toString a.totalPool ++ " broker=" ++
      toString a.brokerFee ++ " oracle=" ++ toString a.oracleFeeTotal ++ " maker=" ++
      toString a.makerFee ++ " bond=" ++ toString a.committeeBondReserve ++ " miner=" ++
      toString a.minerFee ++ ") — MIN_POT guard should have prevented")
  else .ok a.payouts

/-! ### The outputs -/

/-- A row of `pool_snapshots`, as it parses. -/
structure PoolSnapshot where
  pool_pks_json : List String
  pool_stakes_json : List (Option Int)

/-- The second row is the committee; a row that is missing or does not parse is `none`. -/
def getCommitteeStakesCanonical (divisor : Nat) (snap : Option PoolSnapshot)
    (comm : Option (List String)) : List Int :=
  match snap, comm with
  | some snap, some committeePks =>
    (committeePks.map lowerCase).map fun pk =>
      (((snap.pool_pks_json.map lowerCase).idxOf? pk).bind fun i =>
        (snap.pool_stakes_json[i]?).join).getD 0
  | _, _ => List.replicate divisor 0

/-- A member's part of the fee, before what rounding leaves. -/
def memberFee (oracleFeeTotal divisor totalCommStake st : Int) : Int :=
  (oracleFeeTotal.tdiv 2).tdiv divisor +
    (if 0 < totalCommStake then
      ((oracleFeeTotal - oracleFeeTotal.tdiv 2) * st).tdiv totalCommStake else 0)

def addToFirst (d : Int) : List Int → List Int
  | [] => []
  | x :: xs => (x + d) :: xs

def perCommFees (oracleFeeTotal divisor : Int) (stakes : List Int) : List Int :=
  addToFirst
    (oracleFeeTotal - (stakes.map (memberFee oracleFeeTotal divisor stakes.sum)).sum)
    (stakes.map (memberFee oracleFeeTotal divisor stakes.sum))

structure Addresses where
  broker : String
  maker : String
  participant : Nat → String
  oracle : Nat → String

structure Output where
  address : String
  amountSompi : Int

section Build

variable (addr : Addresses) (isAnonymousPool : Bool) (payouts : Payouts) (minerFeeSompi : Int)
  (stakes : List Int)

def oracleFeeDivisor : Nat := if isAnonymousPool then 5 else 3

def oracleOutputs : List Output :=
  payouts.oracleBondReturns.map fun r =>
    ⟨addr.oracle r.oracleIndex, r.amount + ((perCommFees payouts.oracleFeeTotal
      (oracleFeeDivisor isAnonymousPool) stakes)[r.oracleIndex]?).getD 0⟩

/-- The outputs: those of the committee come second, those of three oracles last. -/
def outputs : List Output :=
  (if 0 < payouts.brokerFee then [⟨addr.broker, payouts.brokerFee⟩] else []) ++
  (if isAnonymousPool then oracleOutputs addr isAnonymousPool payouts stakes else []) ++
  payouts.winnerPayouts.map (fun w => ⟨addr.participant w.participantIndex, w.amount⟩) ++
  (if 0 < payouts.makerFee then [⟨addr.maker, payouts.makerFee⟩] else []) ++
  ((payouts.makerExtraOutput.filter (· ≠ 0)).map fun x => ⟨addr.maker, x⟩).toList ++
  (if isAnonymousPool then [] else oracleOutputs addr isAnonymousPool payouts stakes)

def outSum (outs : List Output) : Int := (outs.map Output.amountSompi).sum

def buildOutputs : Except String (List Output) :=
  if isAnonymousPool ∧ outSum (outputs addr isAnonymousPool payouts stakes) ≠
      payouts.totalPool - minerFeeSompi then
    .error ("⑥ 守恒 fail (fee-on-total): Σoutputs(" ++
      toString (outSum (outputs addr isAnonymousPool payouts stakes)) ++
      ") != totalPool−minerFee(" ++ toString (payouts.totalPool - minerFeeSompi) ++ ") [total=" ++
      toString payouts.totalPool ++ " miner=" ++ toString minerFeeSompi ++
      "] — settle aborted (sompi 泄漏防护, NWT⑤ post-construction)")
  else .ok (outputs addr isAnonymousPool payouts stakes)

end Build

/-! ### What comes back -/

/-- Stakes, rates and amounts are as they should be, and there are five members or three oracles. -/
structure Sane (a : Args) : Prop where
  stakes : ∀ p ∈ a.participants, 0 < p.stake
  broker : 0 ≤ a.brokerFeePct
  oracle : 0 ≤ a.oracleBps
  maker : 0 ≤ a.makerBps
  minBroker : 0 ≤ a.minBroker
  bond : 0 ≤ a.oracleBond
  count : a.oracleCountForBonds = if a.committeeMode then 5 else 3

/-- The checks that are passed. -/
structure Pays (a : Args) : Prop where
  miner : 0 ≤ a.minerFee
  winners : a.winners ≠ []
  pool : a.minerFee < a.totalPool
  distributable : 0 ≤ a.distributable

theorem computePoolPayouts_eq_ok {a : Args} {r : Payouts} :
    computePoolPayouts a = .ok r ↔ Pays a ∧ r = a.payouts := by
  unfold computePoolPayouts
  constructor
  · intro h
    split at h
    · cases h
    · split at h
      · cases h
      · split at h
        · cases h
        · split at h
          · cases h
          · next hm hw hp hd =>
            cases h
            exact ⟨⟨not_lt.mp hm, hw, not_le.mp hp, not_lt.mp hd⟩, rfl⟩
  · intro h
    obtain ⟨h, rfl⟩ := h
    rw [if_neg (not_lt.mpr h.miner), if_neg h.winners, if_neg (not_le.mpr h.pool),
      if_neg (not_lt.mpr h.distributable)]

/-- What the market holds: all stakes, and the bonds of three oracles. -/
def funds (a : Args) : Int := a.totalPool + if a.committeeMode then 0 else 3 * a.oracleBond

theorem toNumber_exact {n bound : Int} (h0 : 0 ≤ n) (h : n ≤ bound) (hb : bound < 2 ^ 53) :
    toNumber n = n :=
  toNumber_of_lt (by omega)

/-- How many of the winners are makers. -/
def Args.makers (a : Args) : Nat := a.winners.countP fun w => w.1.isMaker

section Sums

theorem sum_mapIdx {α : Type} (f : α → Int) (ws : List α) :
    (ws.mapIdx fun _ w => f w).sum = (ws.map f).sum := by
  induction ws with
  | nil => rfl
  | cons w ws ih => rw [List.mapIdx_cons, List.sum_cons, ih, List.map_cons, List.sum_cons]

theorem sum_mapIdx_first {α : Type} (f g : α → Int) (d : Int) {ws : List α} (hne : ws ≠ []) :
    (ws.mapIdx fun i w => f w + (if i = 0 then d else 0) + g w).sum =
      (ws.map f).sum + d + (ws.map g).sum := by
  cases ws with
  | nil => exact absurd rfl hne
  | cons w ws =>
    have hrest : (ws.mapIdx fun i w => f w + (if i + 1 = 0 then d else 0) + g w).sum =
        (ws.map f).sum + (ws.map g).sum := by
      simp only [Nat.add_eq_zero_iff, one_ne_zero, and_false, if_false, add_zero]
      rw [sum_mapIdx fun w => f w + g w, List.sum_map_add]
    rw [List.mapIdx_cons, List.sum_cons, hrest, if_pos rfl]
    simp only [List.map_cons, List.sum_cons]
    ring

theorem sum_map_if {α : Type} (p : α → Bool) (c : Int) (ws : List α) :
    (ws.map fun w => if p w then c else 0).sum = ws.countP p * c := by
  induction ws with
  | nil => simp
  | cons w ws ih =>
    rw [List.map_cons, List.sum_cons, ih, List.countP_cons]
    cases p w with
    | true => simp; ring
    | false => simp

theorem sum_addToFirst (d : Int) {xs : List Int} (hne : xs ≠ []) :
    (addToFirst d xs).sum = xs.sum + d := by
  cases xs with
  | nil => exact absurd rfl hne
  | cons x xs =>
    rw [addToFirst, List.sum_cons, List.sum_cons]
    ring

end Sums

theorem sum_winnerAmounts {a : Args} (h : a.winners ≠ []) :
    (a.winners.mapIdx a.winnerAmount).sum =
      a.poolToSplit + a.makers * a.forfeitShares.maker := by
  have hsum := sum_mapIdx_first a.share (fun w => if w.1.isMaker then a.forfeitShares.maker else 0)
    a.winnerDust h
  rw [sum_map_if] at hsum
  refine hsum.trans ?_
  rw [Args.winnerDust, Args.makers]
  ring

/-- **The split of the oracle fee loses nothing.** -/
theorem sum_perCommFees (F divisor : Int) {stakes : List Int} (hne : stakes ≠ []) :
    (perCommFees F divisor stakes).sum = F := by
  rw [perCommFees, sum_addToFirst _ (by simpa using hne)]
  ring

/-! ### Bounds -/

section Bounds

variable {a : Args}

theorem forfeitShares_of_not (h : a.forfeits = false) : a.forfeitShares = ⟨0, 0, 0⟩ := by
  rw [Args.forfeitShares, h]
  rfl

/-- The bond is given out whole. -/
theorem forfeitShares_sum (h : a.forfeits = true) :
    a.forfeitShares.winner + a.forfeitShares.maker + 2 * a.forfeitShares.perOracle =
      a.oracleBond := by
  rw [Args.forfeitShares, if_pos h]
  ring

theorem forfeitShares_nonneg (hb : 0 ≤ a.oracleBond) :
    0 ≤ a.forfeitShares.winner ∧ 0 ≤ a.forfeitShares.maker ∧ 0 ≤ a.forfeitShares.perOracle := by
  cases h : a.forfeits with
  | false =>
    rw [forfeitShares_of_not h]
    exact ⟨le_rfl, le_rfl, le_rfl⟩
  | true =>
    rw [Args.forfeitShares, if_pos h]
    simp only [Int.tdiv_eq_ediv_of_nonneg (show 0 ≤ a.oracleBond * 50 by omega),
      Int.tdiv_eq_ediv_of_nonneg (show 0 ≤ a.oracleBond * 25 by omega),
      Int.tdiv_eq_ediv_of_nonneg (show 0 ≤ a.oracleBond * 25 / 100 by omega)]
    omega

/-- The maker gets something of every bond. -/
theorem forfeitShares_maker (hb : 0 ≤ a.oracleBond) (h : a.forfeits = true) :
    a.forfeitShares.maker = 0 ↔ a.oracleBond = 0 := by
  rw [Args.forfeitShares, if_pos h]
  simp only [Int.tdiv_eq_ediv_of_nonneg (show 0 ≤ a.oracleBond * 50 by omega),
    Int.tdiv_eq_ediv_of_nonneg (show 0 ≤ a.oracleBond * 25 by omega),
    Int.tdiv_eq_ediv_of_nonneg (show 0 ≤ a.oracleBond * 25 / 100 by omega)]
  omega

variable (hs : Sane a) (hp : Pays a)

include hs

theorem winner_stake_pos {w : Participant × Nat} (hw : w ∈ a.winners) : 0 < w.1.stake :=
  hs.stakes _ (List.fst_mem_of_mem_zipIdx (List.mem_of_mem_filter hw))

/-- Where nothing is forfeited, there is nothing to add; else the bond is among the funds. -/
theorem forfeit_le_funds : a.totalPool + a.forfeitShares.winner + a.forfeitShares.maker +
    2 * a.forfeitShares.perOracle ≤ funds a := by
  have hb := hs.bond
  cases h : a.forfeits with
  | false =>
    rw [forfeitShares_of_not h, funds]
    show a.totalPool + 0 + 0 + 2 * 0 ≤ _
    split
    · omega
    · omega
  | true =>
    have hsum := forfeitShares_sum h
    have hc : a.committeeMode = false := by
      simp only [Args.forfeits, Bool.and_eq_true, Bool.not_eq_true'] at h
      exact h.2
    rw [funds, hc]
    simp only [Bool.false_eq_true, if_false]
    omega

theorem totalLoserStake_nonneg : 0 ≤ a.totalLoserStake := by
  refine List.sum_nonneg ?_
  intro x hx
  obtain ⟨p, hp, rfl⟩ := List.mem_map.mp hx
  exact (hs.stakes p (List.mem_of_mem_filter hp)).le

include hp

theorem totalWinnerStake_pos : 0 < a.totalWinnerStake := by
  refine List.sum_pos _ ?_ (by simpa using hp.winners)
  intro x hx
  obtain ⟨w, hw, rfl⟩ := List.mem_map.mp hx
  exact winner_stake_pos hs hw

theorem totalPool_pos : 0 < a.totalPool := by
  have := totalWinnerStake_pos hs hp
  have := totalLoserStake_nonneg hs
  unfold Args.totalPool
  omega

theorem fees_nonneg : 0 ≤ a.brokerFee ∧ 0 ≤ a.oracleFeeTotal ∧ 0 ≤ a.makerFee ∧
    0 ≤ a.committeeBondReserve := by
  have hpool := (totalPool_pos hs hp).le
  have hpart : ∀ bps : Int, 0 ≤ bps → 0 ≤ (a.totalPool * bps).tdiv 10000 :=
    fun bps hb => Int.tdiv_nonneg (mul_nonneg hpool hb) (by norm_num)
  have := hs.bond
  have := hs.count
  refine ⟨?_, hpart _ hs.oracle, hpart _ hs.maker, ?_⟩
  · unfold Args.brokerFee
    split
    · exact hs.minBroker
    · exact hpart _ hs.broker
  · unfold Args.committeeBondReserve
    split
    · next hc =>
      rw [hs.count, if_pos hc]
      omega
    · exact le_rfl

/-- The fees, the reserve and what is left make up the pool. -/
theorem fees_le_totalPool : a.brokerFee ≤ a.totalPool ∧ a.oracleFeeTotal ≤ a.totalPool ∧
    a.makerFee ≤ a.totalPool ∧ a.distributable ≤ a.totalPool := by
  have hd := hp.distributable
  have hm := hp.miner
  obtain ⟨hb, ho, hk, hr⟩ := fees_nonneg hs hp
  have hdef : a.distributable = a.totalPool - a.brokerFee - a.oracleFeeTotal - a.makerFee -
    a.committeeBondReserve - a.minerFee := rfl
  omega

theorem poolToSplit_nonneg : 0 ≤ a.poolToSplit :=
  add_nonneg hp.distributable (forfeitShares_nonneg hs.bond).1

theorem share_eq {w : Participant × Nat} (hw : w ∈ a.winners) :
    a.share w = w.1.stake * a.poolToSplit / a.totalWinnerStake := by
  have hmul : 0 ≤ a.poolToSplit * w.1.stake :=
    mul_nonneg (poolToSplit_nonneg hs hp) (winner_stake_pos hs hw).le
  rw [Args.share, if_pos (totalWinnerStake_pos hs hp), Int.tdiv_eq_ediv_of_nonneg hmul, mul_comm]

theorem shares_eq_floors : a.winners.map a.share =
    ProRata.floors a.poolToSplit a.totalWinnerStake (a.winners.map fun w => w.1.stake) := by
  rw [ProRata.floors, List.map_map]
  exact List.map_congr_left fun w hw => share_eq hs hp hw

theorem share_nonneg {w : Participant × Nat} (hw : w ∈ a.winners) : 0 ≤ a.share w := by
  rw [share_eq hs hp hw]
  exact Int.ediv_nonneg (mul_nonneg (winner_stake_pos hs hw).le (poolToSplit_nonneg hs hp))
    (totalWinnerStake_pos hs hp).le

/-- The forfeit share comes on top. -/
theorem le_share {w : Participant × Nat} (hw : w ∈ a.winners) :
    a.distributable * w.1.stake / a.totalWinnerStake ≤ a.share w := by
  rw [share_eq hs hp hw, mul_comm]
  refine Int.ediv_le_ediv (totalWinnerStake_pos hs hp) ?_
  refine mul_le_mul_of_nonneg_left ?_ (winner_stake_pos hs hw).le
  have := (forfeitShares_nonneg hs.bond).1
  unfold Args.poolToSplit
  omega

theorem winnerDust_nonneg : 0 ≤ a.winnerDust := by
  have hle := ProRata.sum_floors_le_self (d := a.poolToSplit) (totalWinnerStake_pos hs hp)
    (show (a.winners.map fun w => w.1.stake).sum = _ from rfl)
  rw [← shares_eq_floors hs hp] at hle
  unfold Args.winnerDust
  omega

theorem winnerAmount_bounds {i : Nat} {w : Participant × Nat} (hw : w ∈ a.winners) :
    a.share w ≤ a.winnerAmount i w ∧
      a.winnerAmount i w ≤ a.poolToSplit + a.forfeitShares.maker := by
  have hdust := winnerDust_nonneg hs hp
  have hmaker := (forfeitShares_nonneg hs.bond).2.1
  have hone : a.share w ≤ (a.winners.map a.share).sum := by
    refine List.single_le_sum ?_ _ (List.mem_map_of_mem hw)
    intro x hx
    obtain ⟨v, hv, rfl⟩ := List.mem_map.mp hx
    exact share_nonneg hs hp hv
  have hall : a.winnerDust = a.poolToSplit - (a.winners.map a.share).sum := rfl
  unfold Args.winnerAmount
  refine ⟨?_, ?_⟩
  · split
    · split
      · omega
      · omega
    · split
      · omega
      · omega
  · split
    · split
      · omega
      · omega
    · split
      · omega
      · omega

/-! ### Doubles -/

variable (hf : funds a < 2 ^ 53)

include hf

/-- Nothing is rounded. -/
theorem toNumber_fees : toNumber a.brokerFee = a.brokerFee ∧
    toNumber a.oracleFeeTotal = a.oracleFeeTotal ∧ toNumber a.makerFee = a.makerFee ∧
    toNumber a.totalPool = a.totalPool ∧ toNumber a.distributable = a.distributable := by
  have hpool : a.totalPool ≤ funds a := by
    have := hs.bond
    unfold funds
    split
    · omega
    · omega
  have hpos := totalPool_pos hs hp
  have hd := hp.distributable
  obtain ⟨hb, ho, hk, -⟩ := fees_nonneg hs hp
  obtain ⟨hb', ho', hk', hd'⟩ := fees_le_totalPool hs hp
  exact ⟨toNumber_exact hb (hb'.trans hpool) hf, toNumber_exact ho (ho'.trans hpool) hf,
    toNumber_exact hk (hk'.trans hpool) hf, toNumber_exact hpos.le hpool hf,
    toNumber_exact hd (hd'.trans hpool) hf⟩

theorem toNumber_winnerAmount {i : Nat} {w : Participant × Nat} (hw : w ∈ a.winners) :
    toNumber (a.winnerAmount i w) = a.winnerAmount i w := by
  obtain ⟨hlo, hhi⟩ := winnerAmount_bounds (i := i) hs hp hw
  have hnn := share_nonneg hs hp hw
  have hle := forfeit_le_funds hs
  have hd := (fees_le_totalPool hs hp).2.2.2
  have hper := (forfeitShares_nonneg hs.bond).2.2
  have hsplit : a.poolToSplit = a.distributable + a.forfeitShares.winner := rfl
  exact toNumber_exact (by omega) (by omega) hf

theorem winnerPayouts_amounts :
    a.winnerPayouts.map WinnerPayout.amount = a.winners.mapIdx a.winnerAmount := by
  refine List.ext_getElem (by simp [Args.winnerPayouts]) ?_
  intro i hi hi'
  simp only [Args.winnerPayouts, List.getElem_map, List.getElem_mapIdx]
  exact toNumber_winnerAmount hs hp hf (List.getElem_mem _)

theorem toNumber_maker : toNumber a.forfeitShares.maker = a.forfeitShares.maker := by
  obtain ⟨hw, hm, hper⟩ := forfeitShares_nonneg hs.bond
  have hle := forfeit_le_funds hs
  have hpos := totalPool_pos hs hp
  exact toNumber_exact hm (by omega) hf

theorem bondReturnAmount_eq :
    a.bondReturnAmount = a.oracleBond + a.forfeitShares.perOracle := by
  cases hc : a.committeeMode with
  | true =>
    have hno : a.forfeits = false := by simp [Args.forfeits, hc]
    rw [Args.bondReturnAmount, if_pos hc, forfeitShares_of_not hno]
    exact (add_zero _).symm
  | false =>
    have hb := hs.bond
    obtain ⟨hw, hm, hper⟩ := forfeitShares_nonneg hs.bond
    have hpos := totalPool_pos hs hp
    have hfunds : funds a = a.totalPool + 3 * a.oracleBond := by rw [funds, hc]; rfl
    have hle := forfeit_le_funds hs
    rw [Args.bondReturnAmount, hc]
    exact toNumber_exact (by omega) (by omega) hf

end Bounds

/-! ### Whose bond is returned -/

section Bonds

variable {a : Args}

theorem paidOracles_committee (hs : Sane a) (hc : a.committeeMode = true) :
    a.paidOracles = [0, 1, 2, 3, 4] := by
  have hskip : ∀ i, (!a.skips i) = true := by simp [Args.skips, hc]
  rw [Args.paidOracles, hs.count, if_pos hc, List.filter_eq_self.mpr fun i _ => hskip i]
  rfl

theorem paidOracles_of_not (hs : Sane a) (hc : a.committeeMode = false)
    (h : a.forfeits = false) : a.paidOracles = [0, 1, 2] := by
  have hskip : ∀ i, (!a.skips i) = true := by
    intro i
    cases hu : a.unanimous with
    | true => simp [Args.skips, hu]
    | false =>
      have hnone : a.silentOracleIndex = none := by
        simpa [Args.forfeits, hu, hc] using h
      simp [Args.skips, hnone]
  rw [Args.paidOracles, hs.count, hc, List.filter_eq_self.mpr fun i _ => hskip i]
  rfl

theorem paidOracles_silent (hs : Sane a) {j : Int} (h : a.forfeits = true)
    (hj : a.silentOracleIndex = some j) :
    a.paidOracles = [0, 1, 2].filter fun i : Nat => (i : Int) ≠ j := by
  simp only [Args.forfeits, Bool.and_eq_true, Bool.not_eq_true'] at h
  have hskip : ∀ i : Nat, (!a.skips i) = decide ((i : Int) ≠ j) := by
    intro i
    simp [Args.skips, h.1.1, h.2, hj, eq_comm]
  rw [Args.paidOracles, hs.count, h.2, funext hskip]
  rfl

theorem others_of_far {j : Int} (h0 : j ≠ 0) (h1 : j ≠ 1) (h2 : j ≠ 2) :
    ([0, 1, 2].filter fun i : Nat => (i : Int) ≠ j) = [0, 1, 2] := by
  refine List.filter_eq_self.mpr ?_
  intro i hi
  simp only [List.mem_cons, List.not_mem_nil, or_false] at hi
  rcases hi with rfl | rfl | rfl
  · simp [h0.symm]
  · simp [h1.symm]
  · simp [h2.symm]

/-- Two are left of three, if the index is one of theirs. -/
theorem length_others (j : Int) : ([0, 1, 2].filter fun i : Nat => (i : Int) ≠ j).length =
    if some j ∈ [some 0, some 1, some 2] then 2 else 3 := by
  by_cases h0 : j = 0
  · subst h0
    decide
  · by_cases h1 : j = 1
    · subst h1
      decide
    · by_cases h2 : j = 2
      · subst h2
        decide
      · rw [if_neg (by simp [h0, h1, h2]), others_of_far h0 h1 h2]
        rfl

end Bonds

/-! ### What is paid -/

def paid (r : Payouts) : Int :=
  r.brokerFee + r.oracleFeeTotal + r.makerFee + (r.winnerPayouts.map WinnerPayout.amount).sum +
    r.makerExtraOutput.getD 0 + (r.oracleBondReturns.map BondReturn.amount).sum

/-- What is paid beyond the funds: the maker's forfeit share, for each maker after the first, and
the bond of an oracle that is not one of the three. -/
def excess (a : Args) : Int :=
  if a.forfeits then
    ((a.makers - 1 : Nat) : Int) * a.forfeitShares.maker +
      (if a.silentOracleIndex ∈ [some 0, some 1, some 2] then 0
        else a.oracleBond + a.forfeitShares.perOracle)
  else 0

section Paid

variable {a : Args} (hs : Sane a) (hp : Pays a) (hf : funds a < 2 ^ 53)

include hs hp hf

theorem makerExtra_eq :
    a.makerExtraOutput.getD 0 = if a.makers = 0 then a.forfeitShares.maker else 0 := by
  have hany : (¬ a.winners.any (fun w => w.1.isMaker)) ↔ a.makers = 0 := by
    rw [Args.makers, List.countP_eq_zero]
    simp
  have hnn := (forfeitShares_nonneg hs.bond).2.1
  rw [Args.makerExtraOutput, toNumber_maker hs hp hf]
  by_cases h0 : a.makers = 0
  · by_cases hm : 0 < a.forfeitShares.maker
    · rw [if_pos ⟨hany.mpr h0, hm⟩, if_pos h0, Option.getD_some]
    · rw [if_neg fun h => hm h.2, if_pos h0, Option.getD_none]
      omega
  · rw [if_neg fun h => h0 (hany.mp h.1), if_neg h0, Option.getD_none]

/-- The maker's share is paid for each maker among the winners, and once where there is none. -/
theorem winners_and_extra :
    (a.winnerPayouts.map WinnerPayout.amount).sum + a.makerExtraOutput.getD 0 =
      a.poolToSplit + a.forfeitShares.maker +
        ((a.makers - 1 : Nat) : Int) * a.forfeitShares.maker := by
  rw [winnerPayouts_amounts hs hp hf, sum_winnerAmounts hp.winners, makerExtra_eq hs hp hf]
  cases hm : a.makers with
  | zero => simp
  | succ k =>
    rw [if_neg (Nat.succ_ne_zero k), Nat.add_sub_cancel]
    push_cast
    ring

theorem bonds_sum : (a.oracleBondReturns.map BondReturn.amount).sum =
    a.paidOracles.length * (a.oracleBond + a.forfeitShares.perOracle) := by
  rw [Args.oracleBondReturns, List.map_map, ← bondReturnAmount_eq hs hp hf]
  simp [Function.comp_def]

theorem paid_eq : paid a.payouts + a.minerFee = funds a + excess a := by
  obtain ⟨hb, ho, hk, -, -⟩ := toNumber_fees hs hp hf
  have hwin := winners_and_extra hs hp hf
  have hbonds := bonds_sum hs hp hf
  have hdef : a.distributable = a.totalPool - a.brokerFee - a.oracleFeeTotal - a.makerFee -
    a.committeeBondReserve - a.minerFee := rfl
  have hsplit : a.poolToSplit = a.distributable + a.forfeitShares.winner := rfl
  have hpaid : paid a.payouts = a.brokerFee + a.oracleFeeTotal + a.makerFee +
      ((a.winnerPayouts.map WinnerPayout.amount).sum + a.makerExtraOutput.getD 0) +
        (a.oracleBondReturns.map BondReturn.amount).sum := by
    show toNumber a.brokerFee + toNumber a.oracleFeeTotal + toNumber a.makerFee +
      (a.winnerPayouts.map WinnerPayout.amount).sum + a.makerExtraOutput.getD 0 +
        (a.oracleBondReturns.map BondReturn.amount).sum = _
    rw [hb, ho, hk]
    ring
  rw [hpaid, hwin, hbonds, excess]
  cases hfor : a.forfeits with
  | false =>
    have hz := forfeitShares_of_not hfor
    cases hc : a.committeeMode with
    | true =>
      have hreserve : a.committeeBondReserve = 5 * a.oracleBond := by
        rw [Args.committeeBondReserve, if_pos hc, hs.count, if_pos hc]
      simp only [hz, paidOracles_committee hs hc, funds, hc, if_true] at hsplit ⊢
      simp
      omega
    | false =>
      have hreserve : a.committeeBondReserve = 0 := by rw [Args.committeeBondReserve, hc]; rfl
      simp only [hz, paidOracles_of_not hs hc hfor, funds, hc] at hsplit ⊢
      simp
      omega
  | true =>
    have hc : a.committeeMode = false := by
      simp only [Args.forfeits, Bool.and_eq_true, Bool.not_eq_true'] at hfor
      exact hfor.2
    have hreserve : a.committeeBondReserve = 0 := by rw [Args.committeeBondReserve, hc]; rfl
    have hsum := forfeitShares_sum hfor
    cases hj : a.silentOracleIndex with
    | none => simp [Args.forfeits, hj] at hfor
    | some j =>
      have hlen := length_others j
      rw [paidOracles_silent hs hfor hj, hlen, funds, hc]
      simp only [if_true, Bool.false_eq_true, if_false]
      split
      · push_cast
        omega
      · push_cast
        omega

end Paid

/-- A silent oracle is one of the three, and there is one maker at most to get its share. -/
def ForfeitPlaced (a : Args) : Prop :=
  a.forfeits = true → a.oracleBond = 0 ∨
    (a.silentOracleIndex ∈ [some 0, some 1, some 2] ∧ a.makers ≤ 1)

theorem excess_eq_zero_iff {a : Args} (hb : 0 ≤ a.oracleBond) :
    excess a = 0 ↔ ForfeitPlaced a := by
  rw [excess, ForfeitPlaced]
  cases hfor : a.forfeits with
  | false => simp
  | true =>
    obtain ⟨-, hm, hper⟩ := forfeitShares_nonneg hb
    have hzero := forfeitShares_maker hb hfor
    have hsum := forfeitShares_sum hfor
    have hmul : 0 ≤ ((a.makers - 1 : Nat) : Int) * a.forfeitShares.maker :=
      mul_nonneg (Int.natCast_nonneg _) hm
    have hmul0 : ((a.makers - 1 : Nat) : Int) * a.forfeitShares.maker = 0 ↔
        a.makers ≤ 1 ∨ a.oracleBond = 0 := by
      rw [mul_eq_zero, hzero, Int.natCast_eq_zero]
      omega
    simp only [if_true, forall_const]
    by_cases hj : a.silentOracleIndex ∈ [some 0, some 1, some 2]
    · rw [if_pos hj, add_zero, hmul0]
      simp only [hj, true_and]
      exact or_comm
    · rw [if_neg hj]
      simp only [hj, false_and, or_false]
      constructor
      · intro h
        exact le_antisymm (by linarith) hb
      · intro h
        have hm0 := hmul0.mpr (Or.inr h)
        have hw := (forfeitShares_nonneg hb).1
        have hm' := hzero.mpr h
        linarith

/-! ### The outputs of a market -/

theorem outSum_append (xs ys : List Output) : outSum (xs ++ ys) = outSum xs + outSum ys := by
  rw [outSum, List.map_append, List.sum_append]
  rfl

theorem outSum_positive {addr : String} {n : Int} (h : 0 ≤ n) :
    outSum (if 0 < n then [⟨addr, n⟩] else []) = n := by
  split
  · simp [outSum]
  · simp only [outSum, List.map_nil, List.sum_nil]
    omega

theorem outSum_option {addr : String} (x : Option Int) :
    outSum ((x.filter (· ≠ 0)).map fun n => (⟨addr, n⟩ : Output)).toList = x.getD 0 := by
  cases x with
  | none => rfl
  | some n =>
    by_cases h : n = 0
    · simp [Option.filter, h, outSum]
    · simp [Option.filter, h, outSum]

/-- What one oracle gets of the fee. -/
def feeOf (fees : List Int) (i : Nat) : Int := (fees[i]?).getD 0

theorem outSum_oracleOutputs (addr : Addresses) (anonymous : Bool) (r : Payouts)
    (stakes : List Int) :
    outSum (oracleOutputs addr anonymous r stakes) =
      (r.oracleBondReturns.map BondReturn.amount).sum +
        (r.oracleBondReturns.map fun b => feeOf (perCommFees r.oracleFeeTotal
          (oracleFeeDivisor anonymous) stakes) b.oracleIndex).sum := by
  rw [outSum, oracleOutputs, List.map_map, ← List.sum_map_add]
  rfl

theorem outSum_outputs {addr : Addresses} {anonymous : Bool} {r : Payouts} {stakes : List Int}
    (hb : 0 ≤ r.brokerFee) (hm : 0 ≤ r.makerFee) :
    outSum (outputs addr anonymous r stakes) = paid r - r.oracleFeeTotal +
      (r.oracleBondReturns.map fun b => feeOf (perCommFees r.oracleFeeTotal
        (oracleFeeDivisor anonymous) stakes) b.oracleIndex).sum := by
  have hwin : outSum (r.winnerPayouts.map fun w =>
      (⟨addr.participant w.participantIndex, w.amount⟩ : Output)) =
        (r.winnerPayouts.map WinnerPayout.amount).sum := by
    rw [outSum, List.map_map]
    rfl
  have horacle := outSum_oracleOutputs addr anonymous r stakes
  rw [outputs]
  simp only [outSum_append, outSum_positive hb, outSum_positive hm, outSum_option, hwin]
  cases anonymous with
  | true =>
    simp only [if_true, horacle, paid]
    simp [outSum]
    ring
  | false =>
    simp only [Bool.false_eq_true, if_false, horacle, paid]
    simp [outSum]
    ring

/-! ### The split of the oracle fee -/

theorem length_addToFirst (d : Int) (xs : List Int) : (addToFirst d xs).length = xs.length := by
  cases xs with
  | nil => rfl
  | cons x xs => rfl

theorem length_perCommFees (F divisor : Int) (stakes : List Int) :
    (perCommFees F divisor stakes).length = stakes.length := by
  rw [perCommFees, length_addToFirst, List.length_map]

theorem sum_feeOf (fees : List Int) : ((List.range fees.length).map (feeOf fees)).sum = fees.sum := by
  congr 1
  refine List.ext_getElem (by simp) ?_
  intro i hi hi'
  simp [feeOf, hi']

/-- Without stakes all get the same, but for the first: it gets the half that goes by stake. -/
theorem perCommFees_unknown (F divisor : Int) (n : Nat) :
    perCommFees F divisor (List.replicate (n + 1) 0) =
      (F - n * (F.tdiv 2).tdiv divisor) :: List.replicate n ((F.tdiv 2).tdiv divisor) := by
  have hsum : (List.replicate (n + 1) (0 : Int)).sum = 0 := by simp
  have hfee : memberFee F divisor 0 0 = (F.tdiv 2).tdiv divisor := by
    rw [memberFee, if_neg (lt_irrefl _), add_zero]
  rw [perCommFees, hsum, List.map_replicate, hfee, List.replicate_succ, addToFirst]
  congr 1
  simp
  ring

/-- The stakes of a committee, where there are any: five, none below zero. -/
theorem committeeStakes {snap : Option PoolSnapshot} {comm : Option (List String)}
    (hcomm : ∀ pks, comm = some pks → pks.length = 5)
    (hsnap : ∀ s, snap = some s → ∀ x, some x ∈ s.pool_stakes_json → 0 ≤ x) :
    (getCommitteeStakesCanonical 5 snap comm).length = 5 ∧
      ∀ x ∈ getCommitteeStakesCanonical 5 snap comm, 0 ≤ x := by
  have hnone : (List.replicate 5 (0 : Int)).length = 5 ∧ ∀ x ∈ List.replicate 5 (0 : Int), 0 ≤ x :=
    ⟨rfl, fun x hx => (List.eq_of_mem_replicate hx).ge⟩
  cases comm with
  | none =>
    cases snap with
    | none => exact hnone
    | some s => exact hnone
  | some pks =>
    cases snap with
    | none => exact hnone
    | some s =>
      refine ⟨?_, ?_⟩
      · simp [getCommitteeStakesCanonical, hcomm pks rfl]
      · intro x hx
        simp only [getCommitteeStakesCanonical] at hx
        obtain ⟨pk, -, rfl⟩ := List.mem_map.mp hx
        cases hfound : ((s.pool_pks_json.map lowerCase).idxOf? pk).bind fun i =>
          (s.pool_stakes_json[i]?).join with
        | none => exact le_rfl
        | some v =>
          obtain ⟨i, -, hi⟩ := Option.bind_eq_some_iff.mp hfound
          rw [Option.join_eq_some_iff] at hi
          exact hsnap s rfl v (List.mem_of_getElem? hi)

/-! ### When a market pays out what it holds -/

/-- What is returned makes up the funds, nothing is negative, and every winner has its share. -/
structure Conserved (a : Args) (r : Payouts) : Prop where
  total : paid r + a.minerFee = funds a
  fees : 0 ≤ r.brokerFee ∧ 0 ≤ r.oracleFeeTotal ∧ 0 ≤ r.makerFee
  winners : ∀ w ∈ r.winnerPayouts, 0 ≤ w.amount
  extra : ∀ x, r.makerExtraOutput = some x → 0 ≤ x
  bonds : ∀ b ∈ r.oracleBondReturns, 0 ≤ b.amount
  share : ∀ i p, a.participants[i]? = some p → p.direction = a.winner →
    ∃ w ∈ r.winnerPayouts, w.participantIndex = i ∧
      r.distributable * p.stake / a.totalWinnerStake ≤ w.amount

/-- The outputs make up the funds too; the oracle fee is split over the committee, and alike, but for
what rounding leaves, where no stakes are known. -/
structure Sound (a : Args) (addr : Addresses) (stakes : List Int) (r : Payouts) : Prop where
  conserved : Conserved a r
  outputs : ∃ outs, buildOutputs addr a.committeeMode r a.minerFee stakes = .ok outs ∧
    outSum outs = funds a - a.minerFee
  split : a.committeeMode = true → (perCommFees r.oracleFeeTotal 5 stakes).length = 5 ∧
    (perCommFees r.oracleFeeTotal 5 stakes).sum = r.oracleFeeTotal
  alike : a.committeeMode = true → stakes.sum = 0 →
    ∀ x ∈ perCommFees r.oracleFeeTotal 5 stakes, ∀ y ∈ perCommFees r.oracleFeeTotal 5 stakes,
      x - y < 5

/-- The part of a silent oracle comes to nothing, and so does that of a committee without stakes:
the fee is too small. -/
structure Clean (a : Args) (stakes : List Int) : Prop where
  placed : ForfeitPlaced a
  first : a.forfeits = true → a.silentOracleIndex = some 0 → a.totalPool * a.oracleBps < 10000
  other : a.forfeits = true → a.silentOracleIndex ∈ [some 1, some 2] →
    a.totalPool * a.oracleBps < 60000
  alike : a.committeeMode = true → stakes.sum = 0 → a.totalPool * a.oracleBps < 50000

section Sound

variable {a : Args} (hs : Sane a) (hp : Pays a) (hf : funds a < 2 ^ 53)

include hs hp hf

theorem conserved_iff : Conserved a a.payouts ↔ ForfeitPlaced a := by
  have hpaid := paid_eq hs hp hf
  constructor
  · intro h
    have htotal := h.total
    exact (excess_eq_zero_iff hs.bond).mp (by omega)
  · intro h
    have hzero := (excess_eq_zero_iff hs.bond).mpr h
    obtain ⟨hb, ho, hk, -, hd⟩ := toNumber_fees hs hp hf
    obtain ⟨hb0, ho0, hk0, -⟩ := fees_nonneg hs hp
    refine ⟨by omega, ⟨hb0.trans_eq hb.symm, ho0.trans_eq ho.symm, hk0.trans_eq hk.symm⟩, ?_, ?_, ?_, ?_⟩
    · intro w hw
      have hw' : w.amount ∈ a.winners.mapIdx a.winnerAmount := by
        rw [← winnerPayouts_amounts hs hp hf]
        exact List.mem_map_of_mem hw
      obtain ⟨i, hi, heq⟩ := List.mem_mapIdx.mp hw'
      have hmem := List.getElem_mem hi
      rw [← heq]
      exact (share_nonneg hs hp hmem).trans (winnerAmount_bounds hs hp hmem).1
    · intro x hx
      have hnn := (forfeitShares_nonneg hs.bond).2.1
      have hextra := makerExtra_eq hs hp hf
      rw [show a.makerExtraOutput = some x from hx, Option.getD_some] at hextra
      rw [hextra]
      split
      · exact hnn
      · exact le_rfl
    · intro b hb
      obtain ⟨i, -, rfl⟩ := List.mem_map.mp hb
      rw [show _ = a.bondReturnAmount from rfl, bondReturnAmount_eq hs hp hf]
      exact add_nonneg hs.bond (forfeitShares_nonneg hs.bond).2.2
    · intro i p hip hdir
      have hw : (p, i) ∈ a.winners :=
        List.mem_filter.mpr ⟨List.mk_mem_zipIdx_iff_getElem?.mpr hip, by simpa using hdir⟩
      obtain ⟨j, hj, hget⟩ := List.getElem_of_mem hw
      refine ⟨_, List.mem_mapIdx.mpr ⟨j, hj, rfl⟩, by rw [hget], ?_⟩
      have hmem := List.getElem_mem hj
      rw [toNumber_winnerAmount hs hp hf hmem, hget,
        show a.payouts.distributable = a.distributable from hd]
      rw [hget] at hmem
      exact (le_share hs hp hmem).trans (winnerAmount_bounds hs hp hmem).1

theorem outSum_payouts (addr : Addresses) (stakes : List Int) :
    outSum (outputs addr a.committeeMode a.payouts stakes) + a.minerFee =
      funds a + excess a - a.oracleFeeTotal + (a.paidOracles.map (feeOf (perCommFees
        a.oracleFeeTotal (oracleFeeDivisor a.committeeMode) stakes))).sum := by
  obtain ⟨hb, ho, hk, -, -⟩ := toNumber_fees hs hp hf
  obtain ⟨hb0, -, hk0, -⟩ := fees_nonneg hs hp
  have hpaid := paid_eq hs hp hf
  have hoF : a.payouts.oracleFeeTotal = a.oracleFeeTotal := ho
  have hmap : (a.payouts.oracleBondReturns.map fun b => feeOf (perCommFees
      a.payouts.oracleFeeTotal (oracleFeeDivisor a.committeeMode) stakes) b.oracleIndex) =
        a.paidOracles.map (feeOf (perCommFees a.oracleFeeTotal
          (oracleFeeDivisor a.committeeMode) stakes)) := by
    rw [hoF]
    exact List.map_map
  rw [outSum_outputs (hb0.trans_eq hb.symm) (hk0.trans_eq hk.symm), hmap, hoF]
  omega

omit hp hf in
/-- Five members share the fee among them. -/
theorem sum_fees_committee (hc : a.committeeMode = true) {stakes : List Int}
    (hlen : stakes.length = 5) :
    (a.paidOracles.map (feeOf (perCommFees a.oracleFeeTotal 5 stakes))).sum =
      a.oracleFeeTotal := by
  have hsum := sum_feeOf (perCommFees a.oracleFeeTotal 5 stakes)
  rw [length_perCommFees, hlen] at hsum
  rw [paidOracles_committee hs hc]
  refine Eq.trans hsum (sum_perCommFees _ _ ?_)
  intro hnil
  rw [hnil] at hlen
  cases hlen

/-- What goes unpaid of the fee of three oracles. -/
def lostFee (a : Args) : Int :=
  if a.forfeits then
    if a.silentOracleIndex = some 0 then a.oracleFeeTotal - 2 * (a.oracleFeeTotal.tdiv 2).tdiv 3
    else if a.silentOracleIndex ∈ [some 1, some 2] then (a.oracleFeeTotal.tdiv 2).tdiv 3
    else 0
  else 0

omit hp hf in
theorem sum_fees_oracles (hc : a.committeeMode = false) :
    (a.paidOracles.map (feeOf (perCommFees a.oracleFeeTotal 3 (List.replicate 3 0)))).sum =
      a.oracleFeeTotal - lostFee a := by
  rw [perCommFees_unknown, lostFee]
  cases hfor : a.forfeits with
  | false =>
    rw [paidOracles_of_not hs hc hfor]
    simp [feeOf]
    ring
  | true =>
    cases hj : a.silentOracleIndex with
    | none => simp [Args.forfeits, hj] at hfor
    | some j =>
      rw [paidOracles_silent hs hfor hj]
      by_cases h0 : j = 0
      · subst h0
        simp [feeOf]
        ring
      · by_cases h1 : j = 1
        · subst h1
          simp [feeOf]
          ring
        · by_cases h2 : j = 2
          · subst h2
            simp [feeOf]
            ring
          · rw [others_of_far h0 h1 h2]
            simp [feeOf, h0, h1, h2]
            ring

omit hf in
/-- Whether a fee is lost can be seen from the pool and the rate. -/
theorem lostFee_eq_zero_iff : lostFee a = 0 ↔
    (a.forfeits = true → a.silentOracleIndex = some 0 → a.totalPool * a.oracleBps < 10000) ∧
      (a.forfeits = true → a.silentOracleIndex ∈ [some 1, some 2] →
        a.totalPool * a.oracleBps < 60000) := by
  have hT : 0 ≤ a.totalPool * a.oracleBps := mul_nonneg (totalPool_pos hs hp).le hs.oracle
  have hF : a.oracleFeeTotal = a.totalPool * a.oracleBps / 10000 :=
    Int.tdiv_eq_ediv_of_nonneg hT
  have hF0 : 0 ≤ a.oracleFeeTotal := (fees_nonneg hs hp).2.1
  have hu : (a.oracleFeeTotal.tdiv 2).tdiv 3 = a.oracleFeeTotal / 2 / 3 := by
    rw [Int.tdiv_eq_ediv_of_nonneg hF0, Int.tdiv_eq_ediv_of_nonneg (by omega)]
  rw [lostFee, hu, hF]
  generalize a.totalPool * a.oracleBps = T at hT
  cases a.forfeits with
  | false => simp
  | true =>
    simp only [if_true, forall_const]
    by_cases h0 : a.silentOracleIndex = some 0
    · rw [if_pos h0]
      simp only [h0, forall_const]
      constructor
      · intro h
        exact ⟨by omega, fun h => by simp at h⟩
      · intro h
        omega
    · rw [if_neg h0]
      by_cases h12 : a.silentOracleIndex ∈ [some 1, some 2]
      · rw [if_pos h12]
        constructor
        · intro h
          exact ⟨fun h' => absurd h' h0, fun _ => by omega⟩
        · intro h
          have := h.2 h12
          omega
      · rw [if_neg h12]
        simp [h0, h12]

omit hf in
theorem alike_iff :
    (∀ x ∈ perCommFees a.oracleFeeTotal 5 (List.replicate 5 0),
      ∀ y ∈ perCommFees a.oracleFeeTotal 5 (List.replicate 5 0), x - y < 5) ↔
      a.totalPool * a.oracleBps < 50000 := by
  have hT : 0 ≤ a.totalPool * a.oracleBps := mul_nonneg (totalPool_pos hs hp).le hs.oracle
  have hF : a.oracleFeeTotal = a.totalPool * a.oracleBps / 10000 :=
    Int.tdiv_eq_ediv_of_nonneg hT
  have hF0 : 0 ≤ a.oracleFeeTotal := (fees_nonneg hs hp).2.1
  have hu : (a.oracleFeeTotal.tdiv 2).tdiv 5 = a.oracleFeeTotal / 2 / 5 := by
    rw [Int.tdiv_eq_ediv_of_nonneg hF0, Int.tdiv_eq_ediv_of_nonneg (by omega)]
  rw [perCommFees_unknown, hu, hF]
  generalize a.totalPool * a.oracleBps = T at hT
  constructor
  · intro h
    have hfar := h _ List.mem_cons_self _
      (List.mem_cons_of_mem _ (List.mem_replicate.mpr ⟨by norm_num, rfl⟩))
    push_cast at hfar
    omega
  · intro h x hx y hy
    have hcases : ∀ z ∈ (T / 10000 - ((4 : Nat) : Int) * (T / 10000 / 2 / 5)) ::
        List.replicate 4 (T / 10000 / 2 / 5),
        z = T / 10000 - 4 * (T / 10000 / 2 / 5) ∨ z = T / 10000 / 2 / 5 := by
      intro z hz
      rcases List.mem_cons.mp hz with hz | hz
      · exact Or.inl hz
      · exact Or.inr (List.eq_of_mem_replicate hz)
    have := hcases x hx
    have := hcases y hy
    omega

theorem sound_committee_iff {stakes : List Int} (addr : Addresses) (hc : a.committeeMode = true)
    (hlen : stakes.length = 5) (hnn : ∀ x ∈ stakes, 0 ≤ x) :
    Sound a addr stakes a.payouts ↔ Clean a stakes := by
  have hF : a.payouts.oracleFeeTotal = a.oracleFeeTotal := (toNumber_fees hs hp hf).2.1
  have hpool : a.payouts.totalPool = a.totalPool := (toNumber_fees hs hp hf).2.2.2.1
  have hno : a.forfeits ≠ true := by simp [Args.forfeits, hc]
  have hpl : ForfeitPlaced a := fun h => absurd h hno
  have hfunds : funds a = a.totalPool := by rw [funds, hc]; exact add_zero _
  have hne : stakes ≠ [] := by
    intro hnil
    rw [hnil] at hlen
    cases hlen
  have hunknown : stakes.sum = 0 → stakes = List.replicate 5 0 := by
    intro h0
    refine List.eq_replicate_iff.mpr ⟨hlen, ?_⟩
    intro x hx
    exact le_antisymm ((List.single_le_sum hnn x hx).trans h0.le) (hnn x hx)
  have hsum : outSum (outputs addr true a.payouts stakes) = funds a - a.minerFee := by
    have hout := outSum_payouts hs hp hf addr stakes
    rw [hc, show ((oracleFeeDivisor true : Nat) : Int) = 5 from rfl,
      sum_fees_committee hs hc hlen, (excess_eq_zero_iff hs.bond).mpr hpl] at hout
    omega
  constructor
  · intro h
    refine ⟨hpl, fun h' => absurd h' hno, fun h' => absurd h' hno, ?_⟩
    intro _ h0
    have halike := h.alike hc h0
    rw [hF, hunknown h0] at halike
    exact (alike_iff hs hp).mp halike
  · intro h
    refine ⟨(conserved_iff hs hp hf).mpr hpl, ⟨_, ?_, hsum⟩, ?_, ?_⟩
    · rw [hc, buildOutputs, if_neg]
      rw [hsum, hpool, hfunds]
      simp
    · intro _
      rw [hF, length_perCommFees]
      exact ⟨hlen, sum_perCommFees _ _ hne⟩
    · intro _ h0
      rw [hF, hunknown h0]
      exact (alike_iff hs hp).mpr (h.alike hc h0)

theorem sound_oracles_iff (addr : Addresses) (hc : a.committeeMode = false) :
    Sound a addr (List.replicate 3 0) a.payouts ↔ Clean a (List.replicate 3 0) := by
  have hno : a.committeeMode ≠ true := by simp [hc]
  have hcons := conserved_iff hs hp hf
  have hplaced := excess_eq_zero_iff (a := a) hs.bond
  have hlost := lostFee_eq_zero_iff hs hp
  have hout : outSum (outputs addr false a.payouts (List.replicate 3 0)) + a.minerFee =
      funds a + excess a - lostFee a := by
    have hout := outSum_payouts hs hp hf addr (List.replicate 3 0)
    rw [hc, show ((oracleFeeDivisor false : Nat) : Int) = 3 from rfl,
      sum_fees_oracles hs hc] at hout
    omega
  have hbuild : buildOutputs addr a.committeeMode a.payouts a.minerFee (List.replicate 3 0) =
      .ok (outputs addr false a.payouts (List.replicate 3 0)) := by
    rw [hc]
    rfl
  constructor
  · intro h
    have hpl := hcons.mp h.conserved
    obtain ⟨outs, hb, hsum⟩ := h.outputs
    rw [hbuild] at hb
    cases hb
    have hzero := hplaced.mpr hpl
    obtain ⟨h0, h12⟩ := hlost.mp (by omega)
    exact ⟨hpl, h0, h12, fun h' => absurd h' hno⟩
  · intro h
    have h1 := hplaced.mpr h.placed
    have h2 := hlost.mpr ⟨h.first, h.other⟩
    exact ⟨hcons.mpr h.placed, ⟨_, hbuild, by omega⟩, fun h' => absurd h' hno,
      fun h' => absurd h' hno⟩

end Sound

/-- **A market pays out what it holds** exactly if it is clean.  Only a market with a committee has
a row of one, with five keys. -/
theorem payouts_sound_iff (a : Args) (addr : Addresses) (snap : Option PoolSnapshot)
    (comm : Option (List String)) (r : Payouts) (hs : Sane a) (hf : funds a < 2 ^ 53)
    (hcomm : ∀ pks, comm = some pks → a.committeeMode = true ∧ pks.length = 5)
    (hsnap : ∀ s, snap = some s → ∀ x, some x ∈ s.pool_stakes_json → 0 ≤ x)
    (h : computePoolPayouts a = .ok r) :
    Sound a addr (getCommitteeStakesCanonical (oracleFeeDivisor a.committeeMode) snap comm) r ↔
      Clean a (getCommitteeStakesCanonical (oracleFeeDivisor a.committeeMode) snap comm) := by
  obtain ⟨hp, rfl⟩ := computePoolPayouts_eq_ok.mp h
  cases hc : a.committeeMode with
  | true =>
    obtain ⟨hlen, hnn⟩ := committeeStakes (fun pks hpks => (hcomm pks hpks).2) hsnap
    exact sound_committee_iff hs hp hf addr hc hlen hnn
  | false =>
    have hnone : comm = none := by
      cases comm with
      | none => rfl
      | some pks =>
        have htrue := (hcomm pks rfl).1
        rw [hc] at htrue
        cases htrue
    have hstakes : getCommitteeStakesCanonical (oracleFeeDivisor false) snap comm =
        List.replicate 3 0 := by
      rw [hnone]
      cases snap with
      | none => rfl
      | some s => rfl
    rw [hstakes]
    exact sound_oracles_iff hs hp hf addr hc

/-! ### One market -/

/-- A maker and one bettor, and a committee of five. -/
def sampleArgs : Args where
  participants := [⟨1000000000, 0, true⟩, ⟨2000000000, 1, false⟩]
  winner := 0
  brokerFeePct := 190
  oracleFeePct := none
  makerFeePct := none
  oracleBond := 100000000
  minerFee := 2000000
  unanimous := true
  silentOracleIndex := none
  oracleCount := some 5
  committeeMode := true
  minBrokerFee := none

def sampleAddresses : Addresses := ⟨"broker", "maker", fun _ => "participant", fun _ => "oracle"⟩

theorem sampleArgs_sane : Sane sampleArgs where
  stakes := by decide
  broker := by decide
  oracle := by decide
  maker := by decide
  minBroker := by decide
  bond := by decide
  count := rfl

theorem sampleArgs_returns : computePoolPayouts sampleArgs = .ok sampleArgs.payouts :=
  computePoolPayouts_eq_ok.mpr ⟨⟨by decide, by decide, by decide, by decide⟩, rfl⟩

/-- Without a snapshot the first member gets 18000000 sompi of the fee, and any other 3000000. -/
theorem unknown_stakes : computePoolPayouts sampleArgs = .ok sampleArgs.payouts ∧
    ¬ Sound sampleArgs sampleAddresses (getCommitteeStakesCanonical 5 none none)
      sampleArgs.payouts := by
  refine ⟨sampleArgs_returns, ?_⟩
  intro h
  have hfees : perCommFees sampleArgs.payouts.oracleFeeTotal 5
      (getCommitteeStakesCanonical 5 none none) =
        [18000000, 3000000, 3000000, 3000000, 3000000] := by decide
  have halike := h.alike rfl rfl
  rw [hfees] at halike
  exact absurd (halike 18000000 (by simp) 3000000 (by simp)) (by norm_num)

def sampleKeys : List String := ["a", "b", "c", "d", "e"]

/-- With the stakes of all members the market pays out what it holds. -/
theorem payouts_sound_known : Sound sampleArgs sampleAddresses
    (getCommitteeStakesCanonical 5 (some ⟨sampleKeys, [some 1, some 2, some 3, some 4, some 5]⟩)
      (some sampleKeys)) sampleArgs.payouts := by
  refine (payouts_sound_iff sampleArgs sampleAddresses
    (some ⟨sampleKeys, [some 1, some 2, some 3, some 4, some 5]⟩) (some sampleKeys) _
    sampleArgs_sane (by decide) ?_ ?_ sampleArgs_returns).mpr ⟨?_, ?_, ?_, ?_⟩
  · intro pks h
    cases h
    exact ⟨rfl, rfl⟩
  · intro s h x hx
    cases h
    simp at hx
    omega
  · intro h
    exact absurd h (by decide)
  · intro h
    exact absurd h (by decide)
  · intro h
    exact absurd h (by decide)
  · intro _ h
    exact absurd h (by decide +kernel)

end KANet.Settle.PoolPayouts
