import KANet.Payout.Conserve

/-!
# `feeSplit`

The split of a pool by a set of fee rules, for winners that somebody else has chosen.
It pays the leaves of `deriveRoleFeeLeaves` and shares the rest like
`computePariMutuelPayout`.

* `feeSplit_sum` — the pool is paid out to the sompi.
* `feeSplit_feeSompi_le` — the fees are at most the share of the roles that are not the
  provider: fees rounded down role by role are at most the whole rounded down once.
* `feeSplit_eq_computePariMutuelPayout` — both functions return the same.
-/

namespace KANet.Payout

open KANet.Lib KANet.Script

structure Winner where
  pk : Bytes
  stake : Int
deriving DecidableEq

structure FeeSplit where
  degenerate : Bool
  reason : Option String
  winners : List Leaf
  feeLeaves : List FeeLeaf
  payoutLeaves : List Leaf
  poolTotal : Int
  distributable : Int
  feeSompi : Int

def totalWinStake (winners : List Winner) : Int := (winners.map Winner.stake).sum

def feeSplit (feeRules : FeeRules) (poolSompi : Int) (winners : List Winner)
    (committeePks : List Bytes) : Option FeeSplit := do
  let feeLeaves ← deriveRoleFeeLeaves feeRules poolSompi committeePks
  let feeSompi := sumAmounts (feeLeaves.map FeeLeaf.toLeaf)
  let distributable := poolSompi - feeSompi
  if winners = [] ∨ totalWinStake winners = 0 then
    some { degenerate := true, reason := some "no winners → refund(领域侧退款路径, fee 不收)",
           winners := [], feeLeaves := [], payoutLeaves := [], poolTotal := poolSompi,
           distributable := poolSompi, feeSompi := 0 }
  else
    let payouts := dustTo distributable (winners.map fun w =>
      { pk := w.pk, amount := (w.stake * distributable).tdiv (totalWinStake winners) })
    some { degenerate := false, reason := none, winners := payouts, feeLeaves,
           payoutLeaves := payouts ++ feeLeaves.map FeeLeaf.toLeaf, poolTotal := poolSompi,
           distributable, feeSompi }

/-! ### The rules -/

/-- What the checks on one role demand, whatever the roles beside it. -/
def RoleOk (r : Role) : Prop :=
  r.name ≠ "" ∧ 0 ≤ r.bps ∧
    if r.name = "provider" then r.address = none ∧ r.derive = none ∧ PROVIDER_MIN_BPS ≤ r.bps
    else r.bps ≤ ROLE_MAX_BPS ∧
      match r.derive, r.address with
      | some derive, address => derive = "committee" ∧ address = none
      | none, some address => address.length = 32
      | none, none => r.optional = true

theorem validateRole_eq_some {names : List String} {r : Role} {u : Unit} :
    validateRole names r = some u ↔ RoleOk r ∧ r.name ∉ names := by
  unfold validateRole RoleOk
  by_cases hp : r.name = "provider"
  · simp only [if_pos hp, require_bind_eq_some, require_eq_some]
    constructor
    · rintro ⟨h₀, h₁, h₂, ⟨h₃, h₄⟩, h₅⟩
      exact ⟨⟨h₀, h₂, h₃, h₄, h₅⟩, h₁⟩
    · rintro ⟨⟨h₀, h₂, h₃, h₄, h₅⟩, h₁⟩
      exact ⟨h₀, h₁, h₂, ⟨h₃, h₄⟩, h₅⟩
  · simp only [if_neg hp, require_bind_eq_some]
    have htail : (match r.derive, r.address with
        | some derive, address => do
          require (derive = "committee")
          require (address = none)
        | none, some address => require (address.length = 32)
        | none, none => require (r.optional = true)) = some u ↔
        match r.derive, r.address with
        | some derive, address => derive = "committee" ∧ address = none
        | none, some address => address.length = 32
        | none, none => r.optional = true := by
      cases r.derive <;> cases r.address <;> simp [Option.bind_eq_some_iff, require_eq_some]
    constructor
    · rintro ⟨h₀, h₁, h₂, h₃, h₄⟩
      exact ⟨⟨h₀, h₂, h₃, htail.mp h₄⟩, h₁⟩
    · rintro ⟨⟨h₀, h₂, h₃, h₄⟩, h₁⟩
      exact ⟨h₀, h₁, h₂, h₃, htail.mpr h₄⟩

theorem validateRoles_eq_some {names : List String} {roles : List Role} {u : Unit} :
    validateRoles names roles = some u ↔
      (∀ r ∈ roles, RoleOk r ∧ r.name ∉ names) ∧ (roles.map Role.name).Nodup := by
  induction roles generalizing names with
  | nil => simp [validateRoles]
  | cons r rs ih =>
    rw [validateRoles]
    simp only [Option.bind_eq_bind, Option.bind_eq_some_iff, validateRole_eq_some, ih,
      exists_const, List.mem_cons, List.map_cons, List.nodup_cons, forall_eq_or_imp, not_or,
      List.mem_map, not_exists, not_and]
    constructor
    · rintro ⟨hr, hrs, hnd⟩
      exact ⟨⟨hr, fun r' hr' => ⟨(hrs r' hr').1, (hrs r' hr').2.2⟩⟩,
        fun r' hr' => (hrs r' hr').2.1, hnd⟩
    · rintro ⟨⟨hr, hrs⟩, hne, hnd⟩
      exact ⟨hr, fun r' hr' => ⟨(hrs r' hr').1, hne r' hr', (hrs r' hr').2⟩, hnd⟩

/-- A set of rules that passes. -/
structure FeeRules.Valid (rules : FeeRules) : Prop where
  schema : rules.schema_v ∈ SUPPORTED_SCHEMA_VERSIONS
  ne_nil : rules.roles ≠ []
  roles : ∀ r ∈ rules.roles, RoleOk r
  names : (rules.roles.map Role.name).Nodup
  provider : rules.roles.countP (fun r => r.name = "provider") = 1
  sum : (rules.roles.map Role.bps).sum = 10000

theorem validateFeeRules_eq_some {rules : FeeRules} {u : Unit} :
    validateFeeRules rules = some u ↔ rules.Valid := by
  unfold validateFeeRules
  simp only [Option.bind_eq_bind, Option.bind_eq_some_iff, validateRoles_eq_some, exists_const,
    require_eq_some, List.not_mem_nil, not_false_eq_true, and_true]
  constructor
  · rintro ⟨h₀, h₁, ⟨h₂, h₃⟩, h₄, h₅⟩
    exact ⟨h₀, h₁, h₂, h₃, h₄, h₅⟩
  · rintro ⟨h₀, h₁, h₂, h₃, h₄, h₅⟩
    exact ⟨h₀, h₁, ⟨h₂, h₃⟩, h₄, h₅⟩

/-! ### The fees -/

theorem sum_committeeLeaves {total : Int} {pks : List Bytes} (hne : pks ≠ []) :
    sumAmounts ((committeeLeaves total pks).map FeeLeaf.toLeaf) = total := by
  have hlen : (pks.mergeSort pkLe).length = pks.length := List.length_mergeSort pks
  unfold committeeLeaves
  generalize pks.mergeSort pkLe = sorted at hlen
  match sorted, hlen with
  | [], hlen => exact absurd (List.length_eq_zero_iff.mp hlen.symm) hne
  | pk :: sorted, hlen =>
    -- every member but the first gets the same
    have hrest : ∀ (each rem : Int) (l : List Bytes), sumAmounts ((l.mapIdx fun i pk =>
        ({ pk, amount := each + (if i + 1 = 0 then rem else 0), type := "committee" } :
          FeeLeaf)).map FeeLeaf.toLeaf) = each * l.length := by
      intro each rem l
      induction l using List.reverseRecOn with
      | nil => simp [sumAmounts]
      | append_singleton l a ih =>
        rw [List.mapIdx_append, List.map_append, sumAmounts_append, ih, List.length_append]
        simp [sumAmounts]
        ring
    rw [List.mapIdx_cons, List.map_cons, sumAmounts_cons, hrest, List.length_cons]
    simp only [if_true]
    push_cast
    ring

/-- The rate of a role with an address. -/
def addressedBps (r : Role) : Option Int :=
  if r.name = "provider" ∨ r.bps ≤ 0 ∨ r.derive = some "committee" then none
  else r.address.map fun _ => r.bps

theorem roleLeaf_amounts {pool : Int} (hpool : 0 ≤ pool) (roles : List Role) :
    ((roles.filterMap (roleLeaf pool)).map fun l => l.amount) =
      ProRata.floors pool 10000 (roles.filterMap addressedBps) := by
  rw [ProRata.floors, List.map_filterMap, List.map_filterMap]
  congr 1
  funext r
  unfold roleLeaf addressedBps
  by_cases h : r.name = "provider" ∨ r.bps ≤ 0 ∨ r.derive = some "committee"
  · rw [if_pos h, if_pos h]
    rfl
  · rw [if_neg h, if_neg h, Option.map_map, Option.map_map]
    obtain ⟨-, hbps, -⟩ : ¬ r.name = "provider" ∧ ¬ r.bps ≤ 0 ∧ ¬ r.derive = some "committee" := by
      simpa only [not_or] using h
    congr 1
    funext _
    show (pool * r.bps).tdiv 10000 = r.bps * pool / 10000
    rw [Int.tdiv_eq_ediv_of_nonneg (mul_nonneg hpool (not_le.mp hbps).le), mul_comm]

/-- The roles with an address and those the committee is paid by are among those that are not
the provider. -/
theorem sum_bps_le {roles : List Role} (hbps : ∀ r ∈ roles, 0 ≤ r.bps) :
    (roles.filterMap addressedBps).sum + committeeBps roles ≤
      ((roles.filter fun r => r.name ≠ "provider").map Role.bps).sum := by
  induction roles with
  | nil => simp [committeeBps]
  | cons r rs ih =>
    rw [List.forall_mem_cons] at hbps
    have hrs := ih hbps.2
    simp only [committeeBps] at hrs ⊢
    by_cases hp : r.name = "provider"
    · simpa [List.filterMap_cons, addressedBps, hp] using hrs
    · by_cases hz : r.bps ≤ 0
      · have : r.bps = 0 := le_antisymm hz hbps.1
        simpa [List.filterMap_cons, addressedBps, hp, this] using hrs
      · have hpos : 0 < r.bps := not_le.mp hz
        by_cases hc : r.derive = some "committee"
        · simp only [List.filterMap_cons, addressedBps, hc, or_true, if_true, List.filter_cons, hp,
            ne_eq, not_false_eq_true, hpos, and_self, decide_true, List.map_cons, List.sum_cons]
          simp only [ne_eq] at hrs
          omega
        · simp only [List.filterMap_cons, addressedBps, hc, hp, hz, or_self, if_false,
            List.filter_cons, ne_eq, not_false_eq_true, and_false, decide_false, decide_true,
            if_true, List.map_cons, List.sum_cons, Bool.false_eq_true]
          simp only [ne_eq] at hrs
          cases r.address with
          | none =>
            simp only [Option.map_none]
            omega
          | some pk =>
            simp only [Option.map_some, List.sum_cons]
            omega

/-- What is not the provider's, of all. -/
theorem sum_bps_others {rules : FeeRules} (h : rules.Valid) {p : Role} (hp : p ∈ rules.roles)
    (hname : p.name = "provider") :
    ((rules.roles.filter fun r => r.name ≠ "provider").map Role.bps).sum = 10000 - p.bps := by
  have hone : (rules.roles.filter fun r => r.name = "provider") = [p] := by
    have hlen := h.provider
    rw [List.countP_eq_length_filter] at hlen
    obtain ⟨q, hq⟩ := List.length_eq_one_iff.mp hlen
    have hmem : p ∈ rules.roles.filter fun r => r.name = "provider" :=
      List.mem_filter.mpr ⟨hp, by simpa using hname⟩
    rw [hq, List.mem_singleton] at hmem
    rw [hq, hmem]
  have hperm := (List.filter_append_perm (fun r => decide (r.name = "provider"))
    rules.roles).map Role.bps
  have hsum := hperm.sum_eq
  rw [hone, List.map_append, List.sum_append, h.sum] at hsum
  simp only [List.map_cons, List.map_nil, List.sum_cons, List.sum_nil, add_zero] at hsum
  have hnot : (rules.roles.filter fun r => r.name ≠ "provider") =
      rules.roles.filter fun r => !decide (r.name = "provider") := by
    apply List.filter_congr
    intro r _
    simp
  rw [hnot]
  omega

/-- The leaves of roles that are in order. -/
def roleFeeLeaves (sorted : List Role) (pool : Int) (committeePks : List Bytes) : List FeeLeaf :=
  sorted.filterMap (roleLeaf pool) ++
    if 0 < committeeBps sorted ∧ committeePks ≠ [] then
      committeeLeaves (bpsAmt pool (committeeBps sorted)) committeePks
    else []

theorem deriveRoleFeeLeaves_eq_some {rules : FeeRules} {pool : Int} {committeePks : List Bytes}
    {ls : List FeeLeaf} :
    deriveRoleFeeLeaves rules pool committeePks = some ls ↔
      rules.Valid ∧ 0 < pool ∧
        roleFeeLeaves (rules.roles.mergeSort nameLe) pool committeePks = ls := by
  unfold deriveRoleFeeLeaves
  simp only [Option.bind_eq_bind, Option.bind_eq_some_iff, validateFeeRules_eq_some,
    require_eq_some, exists_const, Option.some.injEq]
  exact Iff.rfl

/-- What the fees add up to: a rounded share for each address, and one for the committee. -/
theorem sum_roleFeeLeaves {roles : List Role} {pool : Int} (hpool : 0 ≤ pool)
    (hbps : ∀ r ∈ roles, 0 ≤ r.bps) (committeePks : List Bytes) :
    ∃ ws, ws.sum ≤ ((roles.filter fun r => r.name ≠ "provider").map Role.bps).sum ∧
      (∀ w ∈ ws, 0 ≤ w) ∧
      sumAmounts ((roleFeeLeaves roles pool committeePks).map FeeLeaf.toLeaf) =
        (ProRata.floors pool 10000 ws).sum := by
  have haddr : sumAmounts ((roles.filterMap (roleLeaf pool)).map FeeLeaf.toLeaf) =
      (ProRata.floors pool 10000 (roles.filterMap addressedBps)).sum := by
    rw [← roleLeaf_amounts hpool, sumAmounts, List.map_map]
    rfl
  have hnonneg : ∀ w ∈ roles.filterMap addressedBps, 0 ≤ w := by
    intro w hw
    obtain ⟨r, hr, hrw⟩ := List.mem_filterMap.mp hw
    unfold addressedBps at hrw
    by_cases h : r.name = "provider" ∨ r.bps ≤ 0 ∨ r.derive = some "committee"
    · rw [if_pos h] at hrw
      cases hrw
    · rw [if_neg h] at hrw
      obtain ⟨-, -, rfl⟩ := Option.map_eq_some_iff.mp hrw
      exact hbps r hr
  have hcomm : 0 ≤ committeeBps roles := by
    apply List.sum_nonneg
    intro x hx
    obtain ⟨r, hr, rfl⟩ := List.mem_map.mp hx
    exact hbps r (List.mem_of_mem_filter hr)
  have hle := sum_bps_le hbps
  rw [roleFeeLeaves, List.map_append, sumAmounts_append, haddr]
  by_cases h : 0 < committeeBps roles ∧ committeePks ≠ []
  · have hshare : bpsAmt pool (committeeBps roles) = committeeBps roles * pool / 10000 := by
      rw [bpsAmt, Int.tdiv_eq_ediv_of_nonneg (mul_nonneg hpool hcomm), mul_comm]
    refine ⟨roles.filterMap addressedBps ++ [committeeBps roles], ?_, ?_, ?_⟩
    · rw [List.sum_append, List.sum_singleton]
      exact hle
    · intro w hw
      rcases List.mem_append.mp hw with hw | hw
      · exact hnonneg w hw
      · rw [List.mem_singleton.mp hw]
        exact hcomm
    · rw [if_pos h, sum_committeeLeaves h.2, hshare, ProRata.floors, ProRata.floors,
        List.map_append, List.sum_append, List.map_singleton, List.sum_singleton]
  · refine ⟨roles.filterMap addressedBps, by omega, hnonneg, ?_⟩
    rw [if_neg h]
    simp [sumAmounts]

theorem sum_roleFeeLeaves_nonneg {roles : List Role} {pool : Int} (hpool : 0 ≤ pool)
    (hbps : ∀ r ∈ roles, 0 ≤ r.bps) (committeePks : List Bytes) :
    0 ≤ sumAmounts ((roleFeeLeaves roles pool committeePks).map FeeLeaf.toLeaf) := by
  obtain ⟨ws, -, hnn, hsum⟩ := sum_roleFeeLeaves hpool hbps committeePks
  rw [hsum]
  apply List.sum_nonneg
  intro x hx
  obtain ⟨w, hw, rfl⟩ := List.mem_map.mp hx
  exact Int.ediv_nonneg (mul_nonneg (hnn w hw) hpool) (by norm_num)

/-- **The fees stay within the rates.** -/
theorem sum_roleFeeLeaves_le {roles : List Role} {pool : Int} (hpool : 0 ≤ pool)
    (hbps : ∀ r ∈ roles, 0 ≤ r.bps) (committeePks : List Bytes) :
    sumAmounts ((roleFeeLeaves roles pool committeePks).map FeeLeaf.toLeaf) ≤
      ((roles.filter fun r => r.name ≠ "provider").map Role.bps).sum * pool / 10000 := by
  obtain ⟨ws, hle, -, hsum⟩ := sum_roleFeeLeaves hpool hbps committeePks
  rw [hsum]
  refine (ProRata.sum_floors_le (by norm_num) ws).trans ?_
  exact Int.ediv_le_ediv (by norm_num) (mul_le_mul_of_nonneg_right hle hpool)

/-! ### The split -/

/-- A winner, as a bet on the side that won. -/
def Winner.toBet (direction : Int) (w : Winner) : Bet where
  pk := w.pk
  stake := w.stake
  direction := direction

theorem sumStakes_winners (winners : List Winner) (direction : Int) :
    sumStakes (winners.map (Winner.toBet direction)) = totalWinStake winners := by
  rw [sumStakes, List.map_map, totalWinStake]
  rfl

/-- What the split pays the winners. -/
def winnerPayouts (distributable : Int) (winners : List Winner) : List Leaf :=
  dustTo distributable (winners.map fun w =>
    { pk := w.pk, amount := (w.stake * distributable).tdiv (totalWinStake winners) })

/-- What the split returns when it has somebody to pay. -/
theorem feeSplit_eq_some {rules : FeeRules} {pool : Int} {winners : List Winner}
    {committeePks : List Bytes} {r : FeeSplit} (htotal : totalWinStake winners ≠ 0) :
    feeSplit rules pool winners committeePks = some r ↔
      ∃ ls d, deriveRoleFeeLeaves rules pool committeePks = some ls ∧
        d = pool - sumAmounts (ls.map FeeLeaf.toLeaf) ∧
        r = { degenerate := false, reason := none, winners := winnerPayouts d winners,
              feeLeaves := ls, payoutLeaves := winnerPayouts d winners ++ ls.map FeeLeaf.toLeaf,
              poolTotal := pool, distributable := d,
              feeSompi := sumAmounts (ls.map FeeLeaf.toLeaf) }
    := by
  have hne : winners ≠ [] := by
    rintro rfl
    exact htotal rfl
  unfold feeSplit
  simp only [hne, htotal, or_self, if_false, Option.bind_eq_bind, Option.bind_eq_some_iff,
    Option.some.injEq]
  constructor
  · rintro ⟨ls, hls, rfl⟩
    exact ⟨ls, _, hls, rfl, rfl⟩
  · rintro ⟨ls, d, hls, rfl, rfl⟩
    exact ⟨ls, hls, rfl⟩

theorem winnerPayouts_sum {d : Int} {winners : List Winner} (htotal : totalWinStake winners ≠ 0) :
    sumAmounts (winnerPayouts d winners) = d := by
  apply sum_dustTo
  rw [ne_eq, List.map_eq_nil_iff]
  rintro rfl
  exact htotal rfl

/-- There is a split as soon as there is a pool. -/
theorem feeSplit_isSome {rules : FeeRules} (hv : rules.Valid) {pool : Int} {winners : List Winner}
    {committeePks : List Bytes} (htotal : totalWinStake winners ≠ 0) :
    (∃ r, feeSplit rules pool winners committeePks = some r) ↔ 0 < pool := by
  simp only [feeSplit_eq_some htotal, deriveRoleFeeLeaves_eq_some, hv, true_and]
  constructor
  · rintro ⟨_, _, _, ⟨hpool, -⟩, -⟩
    exact hpool
  · intro hpool
    exact ⟨_, _, _, ⟨hpool, rfl⟩, rfl, rfl⟩

theorem feeSplit_sum {rules : FeeRules} {pool : Int} {winners : List Winner}
    {committeePks : List Bytes} {r : FeeSplit} (htotal : totalWinStake winners ≠ 0)
    (h : feeSplit rules pool winners committeePks = some r) :
    sumAmounts r.payoutLeaves = pool := by
  obtain ⟨ls, d, -, hd, rfl⟩ := (feeSplit_eq_some htotal).mp h
  rw [sumAmounts_append, winnerPayouts_sum htotal, hd]
  exact Int.sub_add_cancel _ _

theorem feeSplit_feeSompi_le {rules : FeeRules} {pool : Int} {winners : List Winner}
    {committeePks : List Bytes} {r : FeeSplit} (htotal : totalWinStake winners ≠ 0)
    (h : feeSplit rules pool winners committeePks = some r) {p : Role} (hp : p ∈ rules.roles)
    (hname : p.name = "provider") : r.feeSompi ≤ pool * (10000 - p.bps) / 10000 := by
  obtain ⟨ls, d, hls, -, rfl⟩ := (feeSplit_eq_some htotal).mp h
  obtain ⟨hvalid, hpool, rfl⟩ := deriveRoleFeeLeaves_eq_some.mp hls
  have hperm := List.mergeSort_perm rules.roles nameLe
  have hsum : (((rules.roles.mergeSort nameLe).filter fun r => r.name ≠ "provider").map
      Role.bps).sum = 10000 - p.bps := by
    rw [((hperm.filter _).map _).sum_eq]
    exact sum_bps_others hvalid hp hname
  rw [mul_comm, ← hsum]
  apply sum_roleFeeLeaves_le hpool.le
  intro r hr
  exact (hvalid.roles r (hperm.mem_iff.mp hr)).2.1

/-- `r` and `pm` are one result. -/
structure SameResult (r : FeeSplit) (pm : PariMutuel) : Prop where
  degenerate : pm.degenerate = r.degenerate
  winners : pm.winners = r.winners
  payoutLeaves : pm.payoutLeaves = r.payoutLeaves
  poolTotal : pm.poolTotal = r.poolTotal
  distributable : pm.distributable = r.distributable
  feeSompi : pm.feeSompi = r.feeSompi

/-- **The split is the pari-mutuel payout**, with the leaves of the roles for its fees and with
the winners among any bets. -/
theorem feeSplit_eq_computePariMutuelPayout {rules : FeeRules} {pool : Int}
    {winners : List Winner} {committeePks : List Bytes} {r : FeeSplit} {direction : Int}
    {bets : List Bet} (hdir : direction = 0 ∨ direction = 1)
    (hbets : winnersOf bets direction = winners.map (Winner.toBet direction))
    (htotal : totalWinStake winners ≠ 0)
    (h : feeSplit rules pool winners committeePks = some r) :
    ∃ pm, computePariMutuelPayout bets direction (some pool) 0 r.feeLeaves = some pm ∧
      SameResult r pm := by
  obtain ⟨ls, d, hls, hd, rfl⟩ := (feeSplit_eq_some htotal).mp h
  obtain ⟨hvalid, hpool, hleaves⟩ := deriveRoleFeeLeaves_eq_some.mp hls
  have hnonneg : 0 ≤ sumAmounts (ls.map FeeLeaf.toLeaf) := by
    rw [← hleaves]
    exact sum_roleFeeLeaves_nonneg hpool.le
      (fun r hr => (hvalid.roles r (List.mem_mergeSort.mp hr)).2.1) committeePks
  have hsome : ¬ (winners.map (Winner.toBet direction) = [] ∨ totalWinStake winners = 0) := by
    rintro (hnil | hzero)
    · rw [List.map_eq_nil_iff] at hnil
      exact htotal (by rw [hnil]; rfl)
    · exact htotal hzero
  -- the payout falls back on a rate when the leaves add up to nothing, and the rate is zero
  have hfee : (if 0 < sumAmounts (ls.map FeeLeaf.toLeaf) then sumAmounts (ls.map FeeLeaf.toLeaf)
      else bpsAmt pool 0) = sumAmounts (ls.map FeeLeaf.toLeaf) := by
    by_cases hpos : 0 < sumAmounts (ls.map FeeLeaf.toLeaf)
    · rw [if_pos hpos]
    · rw [if_neg hpos, bpsAmt, mul_zero, Int.zero_tdiv]
      omega
  have hshares : shares d (totalWinStake winners) (winners.map (Winner.toBet direction)) =
      winners.map fun w =>
        { pk := w.pk, amount := (w.stake * d).tdiv (totalWinStake winners) } := by
    rw [shares, List.map_map]
    rfl
  unfold computePariMutuelPayout
  rw [require, if_pos hdir]
  simp only [Option.bind_eq_bind, Option.bind_some, hbets, sumStakes_winners,
    Option.getD_some, hfee, ← hd, if_neg hsome, hshares]
  exact ⟨_, rfl, rfl, rfl, rfl, rfl, rfl, rfl⟩

end KANet.Payout
