import KANet.Payout.Conserve
import KANet.Payout.Proofs

/-!
# Which markets can be paid out

From the bets of a market to the proofs of payment: the fees, the shares, the tree and a
path for each leaf.  A tree has no leaf of zero sompi, and rounding can make one of a
small stake or of a small rate, so a market can be paid out exactly when rounding makes
none (`payoutChain_iff`).

The first winner is safe from it, since the rounding of the others is his
(`ProRata.sub_sum_floors_pos`).
-/

namespace KANet.Payout

open KANet.Lib KANet.Script KANet.Covenant

/-- The fees a market is committed to: the rates, and whom they are paid to. -/
structure FeeTerms where
  feeConfig : FeeConfig
  brokerPk : Option Bytes
  introducerPk : Option Bytes
  committeePks : List Bytes

def FeeTerms.leaves (terms : FeeTerms) (pool : Int) : List FeeLeaf :=
  deriveFeeLeaves pool terms.feeConfig terms.brokerPk terms.introducerPk terms.committeePks

/-- The steps of a settlement: the fees, the leaves, the root, and a proof for each leaf. -/
def payoutChain (e : Engine) (bettors : List Bet) (winningDirection : Int)
    (poolTotalSompi : Option Int) (terms : FeeTerms) :
    Option (List Leaf × Bytes32 × List (List Bytes32)) := do
  let pm ← computePariMutuelPayout bettors winningDirection poolTotalSompi 0
    (terms.leaves (poolTotalSompi.getD (sumStakes bettors)))
  let root ← payoutRoot e pm.payoutLeaves
  let proofs ← (List.range pm.payoutLeaves.length).mapM (merkleProof e pm.payoutLeaves)
  some (pm.payoutLeaves, root, proofs)

/-! ### Fee leaves -/

theorem bpsAmt_pos {pool bps : Int} (hpool : 0 ≤ pool) (hbps : 0 < bps) :
    0 < bpsAmt pool bps ↔ 10000 ≤ pool * bps := by
  rw [bpsAmt, Int.tdiv_eq_ediv_of_nonneg (mul_nonneg hpool hbps.le)]
  omega

theorem bpsAmt_nonneg {pool bps : Int} (hpool : 0 ≤ pool) (hbps : 0 < bps) :
    0 ≤ bpsAmt pool bps :=
  Int.tdiv_nonneg (mul_nonneg hpool hbps.le) (by norm_num)

/-- Shared evenly, every member is paid when there is a sompi for each. -/
theorem committeeLeaves_pos {total : Int} {pks : List Bytes} (htotal : 0 ≤ total)
    (hne : pks ≠ []) :
    (∀ l : FeeLeaf, l ∈ committeeLeaves total pks → 0 < l.amount) ↔ (pks.length : Int) ≤ total := by
  have hlen : (pks.mergeSort pkLe).length = pks.length := List.length_mergeSort pks
  have hpos : 0 < pks.length := List.length_pos_iff.mpr hne
  have hdiv : total.tdiv pks.length = total / pks.length :=
    Int.tdiv_eq_ediv_of_nonneg htotal
  have hmod := Int.mul_ediv_add_emod total pks.length
  have hmod₀ := Int.emod_nonneg total (show (pks.length : Int) ≠ 0 by omega)
  have hmod₁ := Int.emod_lt_of_pos total (show 0 < (pks.length : Int) by omega)
  have heach : (pks.length : Int) ≤ total ↔ 1 ≤ total / pks.length := by
    rw [Int.le_ediv_iff_mul_le (by omega), one_mul]
  have hrest : total - total / pks.length * pks.length = total % pks.length := by
    rw [mul_comm]
    omega
  unfold committeeLeaves
  simp only [hlen, hdiv, hrest, List.mem_mapIdx]
  constructor
  · intro hall
    have hlast := hall _ ⟨pks.length - 1, by omega, rfl⟩
    rw [heach]
    by_cases h : pks.length - 1 = 0
    · have hone : pks.length = 1 := by omega
      simp only [hone, Nat.cast_one, Int.ediv_one, Int.emod_one, tsub_self, if_true] at hlast ⊢
      omega
    · simp only [if_neg h, add_zero] at hlast
      omega
  · rintro hle l ⟨i, hi, rfl⟩
    rw [heach] at hle
    show 0 < total / pks.length + if i = 0 then total % pks.length else 0
    by_cases h : i = 0
    · rw [if_pos h]
      omega
    · rw [if_neg h]
      omega

/-- No fee that has a recipient rounds to nothing. -/
structure FeesPaid (pool : Int) (feeConfig : FeeConfig) (brokerPk introducerPk : Option Bytes)
    (committeePks : List Bytes) : Prop where
  broker : brokerPk ≠ none → 0 < feeConfig.brokerBps → 10000 ≤ pool * feeConfig.brokerBps
  introducer : introducerPk ≠ none → 0 < feeConfig.introBps → 10000 ≤ pool * feeConfig.introBps
  committee : committeePks ≠ [] → 0 < feeConfig.oracleBps + feeConfig.nodeBps →
    10000 * (committeePks.length : Int) ≤ pool * (feeConfig.oracleBps + feeConfig.nodeBps)

theorem deriveFeeLeaves_pos {pool : Int} (hpool : 0 ≤ pool) {feeConfig : FeeConfig}
    {brokerPk introducerPk : Option Bytes} {committeePks : List Bytes} :
    (∀ l : FeeLeaf, l ∈ deriveFeeLeaves pool feeConfig brokerPk introducerPk committeePks →
      0 < l.amount) ↔
      FeesPaid pool feeConfig brokerPk introducerPk committeePks := by
  have hone : ∀ (bps : Int) (pk : Option Bytes) (type : String),
      (∀ l ∈ namedLeaf pool bps pk type, 0 < l.amount) ↔
        (pk ≠ none → 0 < bps → 10000 ≤ pool * bps) := by
    intro bps pk type
    cases pk with
    | none => simp [namedLeaf]
    | some pk =>
      by_cases h : 0 < bps
      · simp [namedLeaf, h, bpsAmt_pos hpool h]
      · simp [namedLeaf, h]
  have hcomm : (∀ l : FeeLeaf, l ∈ (if 0 < feeConfig.oracleBps + feeConfig.nodeBps ∧
        committeePks ≠ [] then
          committeeLeaves (bpsAmt pool (feeConfig.oracleBps + feeConfig.nodeBps)) committeePks
        else []) → 0 < l.amount) ↔
      (committeePks ≠ [] → 0 < feeConfig.oracleBps + feeConfig.nodeBps →
        10000 * (committeePks.length : Int) ≤
          pool * (feeConfig.oracleBps + feeConfig.nodeBps)) := by
    by_cases h : 0 < feeConfig.oracleBps + feeConfig.nodeBps ∧ committeePks ≠ []
    · have hnn := bpsAmt_nonneg hpool h.1
      rw [if_pos h, committeeLeaves_pos hnn h.2, bpsAmt,
        Int.tdiv_eq_ediv_of_nonneg (mul_nonneg hpool h.1.le)]
      constructor
      · intro hle _ _
        omega
      · intro hle
        have := hle h.2 h.1
        omega
    · rw [if_neg h]
      simp only [List.not_mem_nil, false_imp_iff, implies_true, true_iff]
      exact fun hne hbps => absurd ⟨hbps, hne⟩ h
  rw [deriveFeeLeaves_eq]
  refine (List.forall_mem_append.trans (and_congr (List.forall_mem_append.trans (and_congr
    (hone _ _ _) (hone _ _ _))) hcomm)).trans ?_
  constructor
  · rintro ⟨⟨hb, hi⟩, hc⟩
    exact ⟨hb, hi, hc⟩
  · intro h
    exact ⟨⟨h.broker, h.introducer⟩, h.committee⟩

/-! ### Winners' leaves -/

/-- **When every winner is paid**: something is left after the fees, and no share but the first
rounds to nothing. -/
theorem winnerLeaves_pos {bettors : List Bet} {w d : Int} (hstake : ∀ b ∈ bettors, 0 < b.stake)
    (hne : winnersOf bettors w ≠ []) :
    (∀ l : Leaf, l ∈ dustTo d (winnerShares bettors w d) → 0 < l.amount) ↔
      0 < d ∧ ∀ b ∈ (winnersOf bettors w).tail,
        sumStakes (winnersOf bettors w) ≤ b.stake * d := by
  have hshares : winnerShares bettors w d ≠ [] := by
    simpa [winnerShares, shares] using hne
  have hwin : ∀ b ∈ winnersOf bettors w, 0 < b.stake := fun b hb => hstake b (mem_winnersOf hb)
  have ht := sumStakes_pos hwin hne
  have hd : (∀ l : Leaf, l ∈ dustTo d (winnerShares bettors w d) → 0 < l.amount) → 0 < d := by
    intro hall
    have hpos := sumAmounts_pos hall (by
      rw [ne_eq, ← List.length_eq_zero_iff, dustTo_length, List.length_eq_zero_iff]
      exact hshares)
    rwa [sum_dustTo hshares] at hpos
  obtain ⟨b, bs, hbs⟩ := List.exists_cons_of_ne_nil hne
  rw [hbs, List.forall_mem_cons] at hwin
  rw [hbs] at ht
  have htdiv : 0 < d → ∀ c ∈ bs, (c.stake * d).tdiv (sumStakes (b :: bs)) =
      c.stake * d / sumStakes (b :: bs) := fun hpos c hc =>
    Int.tdiv_eq_ediv_of_nonneg (mul_nonneg (hwin.2 c hc).le hpos.le)
  rw [winnerShares, hbs, shares, List.map_cons, dustTo, List.forall_mem_cons,
    sumAmounts_cons] at hd ⊢
  rw [List.tail_cons]
  constructor
  · intro hall
    have hpos := hd hall
    refine ⟨hpos, fun c hc => ?_⟩
    have hshare := hall.2 _ (List.mem_map_of_mem hc)
    simp only [htdiv hpos c hc] at hshare
    by_contra hlt
    rw [Int.ediv_eq_zero_of_lt (mul_nonneg (hwin.2 c hc).le hpos.le) (not_le.mp hlt)] at hshare
    exact lt_irrefl _ hshare
  · rintro ⟨hpos, hle⟩
    constructor
    · -- the first winner keeps what the others' shares leave
      have hsum := shares_amounts (t := sumStakes (b :: bs)) hpos.le hwin.2
      have hnonneg : 0 ≤ (bs.map Bet.stake).sum := by
        apply List.sum_nonneg
        intro x hx
        obtain ⟨c, hc, rfl⟩ := List.mem_map.mp hx
        exact (hwin.2 c hc).le
      have hrest := ProRata.sub_sum_floors_pos hwin.1 hnonneg hpos (sumStakes_cons b bs).symm
      rw [← hsum] at hrest
      simp only [sumAmounts, shares] at hrest ⊢
      omega
    · intro l hl
      obtain ⟨c, hc, rfl⟩ := List.mem_map.mp hl
      simp only [htdiv hpos c hc]
      have : 1 ≤ c.stake * d / sumStakes (b :: bs) := by
        apply Int.le_ediv_of_mul_le ht
        rw [one_mul]
        exact hle c hc
      omega

/-! ### The chain -/

/-- A market that can be resolved: positive stakes, one of them on the winning side, the pool an
amount of money, and no more leaves than a tree has. -/
structure Resolvable (bettors : List Bet) (winningDirection pool : Int) (terms : FeeTerms) :
    Prop where
  direction : winningDirection = 0 ∨ winningDirection = 1
  stake : ∀ b ∈ bettors, 0 < b.stake
  wins : ∃ b ∈ bettors, b.direction = winningDirection
  keys : ∀ b ∈ bettors, b.pk.length = 32
  recipients : ∀ pk : Bytes, terms.brokerPk = some pk ∨ terms.introducerPk = some pk ∨
    pk ∈ terms.committeePks → pk.length = 32
  amount : 0 ≤ pool ∧ pool < 2 ^ 63
  leaves : (winnersOf bettors winningDirection).length + (terms.leaves pool).length ≤ 1024

/-- No leaf rounds to nothing. -/
structure AllPaid (bettors : List Bet) (winningDirection pool : Int) (terms : FeeTerms) :
    Prop where
  left : 0 < distributableOf pool 0 (terms.leaves pool)
  shares : ∀ b ∈ (winnersOf bettors winningDirection).tail,
    sumStakes (winnersOf bettors winningDirection) ≤
      b.stake * distributableOf pool 0 (terms.leaves pool)
  fees : FeesPaid pool terms.feeConfig terms.brokerPk terms.introducerPk terms.committeePks

theorem committeeLeaves_pk {total : Int} {pks : List Bytes} {l : FeeLeaf}
    (hl : l ∈ committeeLeaves total pks) : l.pk ∈ pks := by
  obtain ⟨i, hi, rfl⟩ := List.mem_mapIdx.mp hl
  exact List.mem_mergeSort.mp (List.getElem_mem hi)

theorem FeeTerms.leaves_pk {terms : FeeTerms} {pool : Int} {l : FeeLeaf}
    (hl : l ∈ terms.leaves pool) :
    terms.brokerPk = some l.pk ∨ terms.introducerPk = some l.pk ∨ l.pk ∈ terms.committeePks := by
  obtain ⟨cfg, brokerPk, introducerPk, committeePks⟩ := terms
  rw [FeeTerms.leaves, deriveFeeLeaves_eq] at hl
  rcases List.mem_append.mp hl with hl | hl
  · rcases List.mem_append.mp hl with hl | hl
    · exact Or.inl (mem_namedLeaf.mp hl).2.1
    · exact Or.inr (Or.inl (mem_namedLeaf.mp hl).2.1)
  · by_cases h : 0 < cfg.oracleBps + cfg.nodeBps ∧ committeePks ≠ []
    · rw [if_pos h] at hl
      exact Or.inr (Or.inr (committeeLeaves_pk hl))
    · rw [if_neg h] at hl
      exact absurd hl List.not_mem_nil

/-- Of leaves worth less than `2 ^ 63` together, any that are all worth something make a tree. -/
theorem buildable_iff_pos {ws : List Leaf} (hkeys : ∀ w ∈ ws, w.pk.length = 32)
    (hlen : ws.length ≤ 1024) (hsum : sumAmounts ws < 2 ^ 63) :
    Buildable ws ↔ ∀ w ∈ ws, 0 < w.amount := by
  constructor
  · intro hb w hw
    exact (hb.payable w hw).pos
  · intro hpos
    refine ⟨hlen, fun w hw => ⟨hkeys w hw, hpos w hw, fits_eight.mpr ?_⟩⟩
    have hle : w.amount ≤ sumAmounts ws := by
      apply List.single_le_sum
      · intro x hx
        obtain ⟨w', hw', rfl⟩ := List.mem_map.mp hx
        exact (hpos w' hw').le
      · exact List.mem_map_of_mem hw
    have := hpos w hw
    omega

theorem sum_payoutLeavesOf_le {bettors : List Bet} {w pool : Int} {fees : List FeeLeaf}
    (hne : winnersOf bettors w ≠ []) :
    sumAmounts (payoutLeavesOf bettors w (distributableOf pool 0 fees) fees) ≤ pool := by
  have hshares : winnerShares bettors w (distributableOf pool 0 fees) ≠ [] := by
    simpa [winnerShares, shares] using hne
  have hzero : bpsAmt pool 0 = 0 := by simp [bpsAmt]
  rw [payoutLeavesOf, sumAmounts_append, sum_dustTo hshares, distributableOf, hzero]
  by_cases h : 0 < sumAmounts (fees.map FeeLeaf.toLeaf)
  · rw [if_pos h]
    omega
  · rw [if_neg h]
    omega

/-- The path of every leaf. -/
def paths (e : Engine) (ws : List Leaf) : List (List Bytes32) :=
  (List.range ws.length).map
    (Merkle.path (hashNode e) ZERO32 DEPTH (Merkle.pad ZERO32 DEPTH (ws.map (Leaf.hash e))))

theorem mapM_merkleProof {e : Engine} {ws : List Leaf} (hb : Buildable ws) :
    (List.range ws.length).mapM (merkleProof e ws) = some (paths e ws) := by
  have hpath : merkleProof e ws = fun idx => some (Merkle.path (hashNode e) ZERO32 DEPTH
      (Merkle.pad ZERO32 DEPTH (ws.map (Leaf.hash e))) idx) :=
    funext fun idx => merkleProof_eq_some.mpr ⟨hb, rfl⟩
  rw [hpath]
  exact List.mapM_pure

/-- The leaf of winner `i` can be claimed from this root with this proof. -/
def Claimable (e : Engine) (leaves : List Leaf) (root : Bytes32) (proofs : List (List Bytes32))
    (i : Nat) (b : Bet) : Prop :=
  ∃ w leaf sibs, leaves[i]? = some w ∧ w.pk = b.pk ∧ payoutLeaf e w.pk w.amount = some leaf ∧
    proofs[i]? = some sibs ∧ climbProof e leaf i sibs = root

section Chain

variable {e : Engine} {bettors : List Bet} {w : Int} {pool : Option Int} {terms : FeeTerms}

/-- What the chain pays. -/
def chainLeaves (bettors : List Bet) (w pool : Int) (terms : FeeTerms) : List Leaf :=
  payoutLeavesOf bettors w (distributableOf pool 0 (terms.leaves pool)) (terms.leaves pool)

theorem Resolvable.winners_ne_nil {bettors : List Bet} {w pool : Int} {terms : FeeTerms}
    (h : Resolvable bettors w pool terms) : winnersOf bettors w ≠ [] := by
  obtain ⟨b, hb, hd⟩ := h.wins
  intro hnil
  exact winnersOf_eq_nil.mp hnil b hb hd

/-- The chain ends when its leaves make a tree. -/
theorem payoutChain_eq_some (h : Resolvable bettors w (pool.getD (sumStakes bettors)) terms)
    {r : List Leaf × Bytes32 × List (List Bytes32)} :
    payoutChain e bettors w pool terms = some r ↔
      Buildable (chainLeaves bettors w (pool.getD (sumStakes bettors)) terms) ∧
        r = (chainLeaves bettors w (pool.getD (sumStakes bettors)) terms,
          rootOf e (chainLeaves bettors w (pool.getD (sumStakes bettors)) terms),
          paths e (chainLeaves bettors w (pool.getD (sumStakes bettors)) terms)) := by
  obtain ⟨pm, hpm, -, hd, -, hleaves⟩ := @computePariMutuelPayout_fields _ _ pool 0
    (terms.leaves (pool.getD (sumStakes bettors))) h.direction
    ((nobodyWins_iff h.stake).not.mpr h.winners_ne_nil)
  rw [hd] at hleaves
  have hchain : pm.payoutLeaves = chainLeaves bettors w (pool.getD (sumStakes bettors)) terms :=
    hleaves
  unfold payoutChain
  simp only [hpm, Option.bind_eq_bind, Option.bind_some, Option.bind_eq_some_iff,
    Option.some.injEq, hchain]
  constructor
  · rintro ⟨root, hroot, proofs, hproofs, rfl⟩
    obtain ⟨hb, rfl⟩ := payoutRoot_eq_some.mp hroot
    rw [mapM_merkleProof hb] at hproofs
    exact ⟨hb, by rw [Option.some.inj hproofs]⟩
  · rintro ⟨hb, rfl⟩
    exact ⟨_, payoutRoot_of_buildable hb, _, mapM_merkleProof hb, rfl⟩

theorem chainLeaves_keys {bettors : List Bet} {w pool : Int} {terms : FeeTerms}
    (h : Resolvable bettors w pool terms) :
    ∀ l ∈ chainLeaves bettors w pool terms, l.pk.length = 32 := by
  intro l hl
  rcases List.mem_append.mp hl with hl | hl
  · have hpk : l.pk ∈ (winnersOf bettors w).map Bet.pk := by
      have := List.mem_map_of_mem (f := Leaf.pk) hl
      rwa [dustTo_keys, winnerShares, shares, List.map_map] at this
    obtain ⟨b, hb, hbl⟩ := List.mem_map.mp hpk
    rw [← hbl]
    exact h.keys b (mem_winnersOf hb)
  · obtain ⟨f, hf, rfl⟩ := List.mem_map.mp hl
    exact h.recipients f.pk (FeeTerms.leaves_pk hf)

/-- **When the leaves make a tree**: when no leaf rounds to nothing. -/
theorem chainLeaves_buildable_iff {bettors : List Bet} {w pool : Int} {terms : FeeTerms}
    (h : Resolvable bettors w pool terms) :
    Buildable (chainLeaves bettors w pool terms) ↔ AllPaid bettors w pool terms := by
  have hlen : (chainLeaves bettors w pool terms).length ≤ 1024 := by
    rw [chainLeaves, payoutLeavesOf, List.length_append, dustTo_length, winnerShares, shares,
      List.length_map, List.length_map]
    exact h.leaves
  have hfees : (∀ l : Leaf, l ∈ (terms.leaves pool).map FeeLeaf.toLeaf → 0 < l.amount) ↔
      FeesPaid pool terms.feeConfig terms.brokerPk terms.introducerPk terms.committeePks := by
    rw [List.forall_mem_map]
    exact deriveFeeLeaves_pos h.amount.1
  rw [buildable_iff_pos (chainLeaves_keys h) hlen
    ((sum_payoutLeavesOf_le h.winners_ne_nil).trans_lt h.amount.2), chainLeaves, payoutLeavesOf,
    List.forall_mem_append, winnerLeaves_pos h.stake h.winners_ne_nil, hfees]
  constructor
  · rintro ⟨⟨hleft, hshares⟩, hpaid⟩
    exact ⟨hleft, hshares, hpaid⟩
  · intro hall
    exact ⟨⟨hall.left, hall.shares⟩, hall.fees⟩

/-- The leaf of winner `i` stands at `i`, and its path is a proof. -/
theorem claimable_chainLeaves {bettors : List Bet} {w pool : Int} {terms : FeeTerms}
    (hbuild : Buildable (chainLeaves bettors w pool terms)) {i : Nat} {b : Bet}
    (hb : (winnersOf bettors w)[i]? = some b) :
    Claimable e (chainLeaves bettors w pool terms) (rootOf e (chainLeaves bettors w pool terms))
      (paths e (chainLeaves bettors w pool terms)) i b := by
  have hkeys := congrArg (fun l => l[i]?) (dustTo_keys
    (distributableOf pool 0 (terms.leaves pool))
    (winnerShares bettors w (distributableOf pool 0 (terms.leaves pool))))
  rw [winnerShares, shares, List.map_map] at hkeys
  simp only [List.getElem?_map, hb, Option.map_some, Function.comp_apply,
    Option.map_eq_some_iff] at hkeys
  obtain ⟨leaf, hleaf, hpk⟩ := hkeys
  obtain ⟨hlt, -⟩ := List.getElem?_eq_some_iff.mp hleaf
  have hget : (chainLeaves bettors w pool terms)[i]? = some leaf := by
    rw [chainLeaves, payoutLeavesOf, winnerShares, shares, List.getElem?_append_left hlt]
    exact hleaf
  obtain ⟨hash, sibs, hhash, hsibs, hclimb⟩ :=
    climbProof_merkleProof (payoutRoot_of_buildable hbuild) hget
  obtain ⟨hlt', -⟩ := List.getElem?_eq_some_iff.mp hget
  refine ⟨leaf, hash, sibs, hget, hpk, hhash, ?_, hclimb⟩
  rw [paths, List.getElem?_map, List.getElem?_range hlt', Option.map_some,
    (merkleProof_eq_some.mp hsibs).2]

/-- **Which markets can be paid out.**  The chain ends without an error exactly when no leaf rounds
to nothing, and then every winner's leaf can be claimed. -/
theorem payoutChain_iff {e : Engine} {bettors : List Bet} {w : Int} {pool : Option Int}
    {terms : FeeTerms} (h : Resolvable bettors w (pool.getD (sumStakes bettors)) terms) :
    ((∃ r, payoutChain e bettors w pool terms = some r) ↔
      AllPaid bettors w (pool.getD (sumStakes bettors)) terms) ∧
    ∀ leaves root proofs, payoutChain e bettors w pool terms = some (leaves, root, proofs) →
      ∀ (i : Nat) (b : Bet), (winnersOf bettors w)[i]? = some b →
        Claimable e leaves root proofs i b := by
  refine ⟨?_, fun leaves root proofs hr i b hb => ?_⟩
  · rw [← chainLeaves_buildable_iff h]
    constructor
    · rintro ⟨r, hr⟩
      exact ((payoutChain_eq_some h).mp hr).1
    · intro hbuild
      exact ⟨_, (payoutChain_eq_some h).mpr ⟨hbuild, rfl⟩⟩
  · obtain ⟨hbuild, heq⟩ := (payoutChain_eq_some h).mp hr
    obtain ⟨rfl, rfl, rfl⟩ : leaves = _ ∧ root = _ ∧ proofs = _ := by
      simpa only [Prod.mk.injEq] using heq
    exact claimable_chainLeaves hbuild hb

end Chain

/-! ### A stake too small to be paid -/

/-- The fees of the protocol, with a broker and nobody else. -/
def brokerTerms : FeeTerms where
  feeConfig := FEE_CONFIG
  brokerPk := some (samplePk 9).toList
  introducerPk := none
  committeePks := []

/-- Two winners, of whom the second staked one sompi. -/
def dustyBettors : List Bet :=
  [{ pk := (samplePk 1).toList, stake := 100000000, direction := 1 },
    { pk := (samplePk 2).toList, stake := 1, direction := 1 }]

theorem dusty_resolvable : Resolvable dustyBettors 1 100000001 brokerTerms where
  direction := Or.inr rfl
  stake := by decide
  wins := by decide
  keys := by decide
  recipients := by
    intro pk hpk
    rcases hpk with h | h | h
    · obtain rfl := Option.some.inj h
      exact (samplePk 9).toList_length
    · cases h
    · cases h
  amount := by norm_num
  leaves := by decide

theorem payoutChain_dusty :
    Resolvable dustyBettors 1 100000001 brokerTerms ∧
      payoutChain sampleEngine dustyBettors 1 none brokerTerms = none :=
  ⟨dusty_resolvable, by decide +kernel⟩

theorem payoutChain_iff_dusty :
    ((∃ r, payoutChain sampleEngine dustyBettors 1 none brokerTerms = some r) ↔
      AllPaid dustyBettors 1 100000001 brokerTerms) ∧
    ∀ leaves root proofs,
      payoutChain sampleEngine dustyBettors 1 none brokerTerms = some (leaves, root, proofs) →
      ∀ (i : Nat) (b : Bet), (winnersOf dustyBettors 1)[i]? = some b →
        Claimable sampleEngine leaves root proofs i b :=
  @payoutChain_iff _ _ _ none _ dusty_resolvable

end KANet.Payout
