import KANet.Settle.CloseRequests
import KANet.Settle.DriverPlan
import KANet.Settle.FeeRecipients

/-!
# The plan of a market that was closed before

A settler that finds the close of a market on the ledger does not judge it again.  It takes the side
that won from the evidence it stored, or from the ledger: the side whose root, in a closed shard,
has the address of the close's first output.  It never draws the committee again, so that it knows
no committee leaf.

* `inferWinDirectionFromChain`, `deriveResumePlanFromEvidence` — the side, and the plan.
* `AttestedClose.of_plan` — what the settler proposes is such a close.
* `AttestedClose.direction` — from the same bets it infers the side that won, or none.
* `resume_follows` — what the settler resumes with is what was attested.
-/

namespace KANet.Settle

open KANet.Lib KANet.Script KANet.Payout KANet.Covenant

open Transport (truthy)

/-- `metadata.settle_evidence`, with a `close_txid`. -/
structure SettleEvidence where
  win_direction : Option Int
  payout_root : Option String

/-- What the settler reads when it resumes: the address of the closed shard with a pool and a root,
if it has the row and the function for it, and that of the close's first output, if the transaction
was seen. -/
structure ResumeCtx where
  zk_native : Bool
  closedAddr : Option (Int → Bytes32 → String)
  output0 : Option String
  isBshard : Bool
  bets : List Bet
  psSeedSompi : Option Int

inductive ResumeRefusal
  | noEvidence
  | zkNative
  | noAddress
  | noOutput
  | bets
  | feeRules
  | matching
  | degenerate
  | payoutRoot
  | thrown

structure ResumePlan where
  betCount : Nat
  poolSompi : Int
  winDir : Int
  payoutRoot : Bytes32
  winners : List Leaf

/-- The root of a side, if somebody wins there. -/
def candidateRoot (e : Engine) (bets : List Bet) (feeLeaves : List FeeLeaf) (dir : Int) :
    Option (Option Bytes32) := do
  let pm ← computePariMutuelPayout bets dir none 0 feeLeaves
  if pm.degenerate then some none else (payoutRoot e pm.payoutLeaves).map some

/-- The side that alone matches. -/
def soleMatch (matches₀ matches₁ : Bool) : Option Int :=
  match [((0 : Int), matches₀), (1, matches₁)].filter Prod.snd with
  | [m] => some m.1
  | _ => none

def inferWinDirectionFromChain (e : Engine) (market : DriverMarket) (ctx : ResumeCtx) :
    Except ResumeRefusal Int := do
  check (ctx.zk_native = false) .zkNative
  let closedAddr ← orRefuse ctx.closedAddr .noAddress
  let chainAddr ← orRefuse ctx.output0 .noOutput
  check (ctx.isBshard = true ∧ ctx.bets ≠ []) .bets
  let feeLeaves ← orRefuse (driverFees market (sumStakes ctx.bets) []) .feeRules
  let consolidatedPool := sumStakes ctx.bets + ctx.psSeedSompi.getD PS_SEED
  let root₀ ← orRefuse (candidateRoot e ctx.bets feeLeaves 0) .thrown
  let root₁ ← orRefuse (candidateRoot e ctx.bets feeLeaves 1) .thrown
  orRefuse (soleMatch (root₀.any fun r => closedAddr consolidatedPool r = chainAddr)
    (root₁.any fun r => closedAddr consolidatedPool r = chainAddr)) .matching

/-- The side that is stored, or the one on the ledger. -/
def resumeDirection (e : Engine) (market : DriverMarket) (ctx : ResumeCtx)
    (evidence : SettleEvidence) : Except ResumeRefusal Int :=
  if evidence.win_direction = some 0 then .ok 0
  else if evidence.win_direction = some 1 then .ok 1
  else inferWinDirectionFromChain e market ctx

def deriveResumePlanFromEvidence (e : Engine) (market : DriverMarket) (ctx : ResumeCtx)
    (evidence : Option SettleEvidence) : Except ResumeRefusal ResumePlan := do
  let evidence ← orRefuse evidence .noEvidence
  let winDirection ← resumeDirection e market ctx evidence
  check (ctx.isBshard = true ∧ ctx.bets ≠ []) .bets
  let resumeFeeLeaves ← orRefuse (driverFees market (sumStakes ctx.bets) []) .feeRules
  let pm ← orRefuse (computePariMutuelPayout ctx.bets winDirection none 0 resumeFeeLeaves) .thrown
  check (pm.degenerate = false) .degenerate
  let recomputedRoot ← orRefuse (payoutRoot e pm.payoutLeaves) .thrown
  check ((truthy evidence.payout_root).all fun r => hex recomputedRoot.toList = r) .payoutRoot
  .ok
    { betCount := ctx.bets.length
      poolSompi := sumStakes ctx.bets
      winDir := winDirection
      payoutRoot := recomputedRoot
      winners := pm.payoutLeaves }

/-- What is paid when a side wins. -/
def leavesFor (bets : List Bet) (dir : Int) (feeLeaves : List FeeLeaf) : List Leaf :=
  payoutLeavesOf bets dir (distributableOf (sumStakes bets) 0 feeLeaves) feeLeaves

/-! ### The close on the ledger -/

/-- A side has won, and the committee has attested the root of what it is paid.  Nobody of the
committee has bet. -/
structure AttestedClose (e : Engine) (market : DriverMarket) (bets : List Bet)
    (committee : List Bytes32) (d : Int) (fl : List FeeLeaf) (root : Bytes32) : Prop where
  side : d = 0 ∨ d = 1
  fees : driverFees market (sumStakes bets) committee = some fl
  pays : ¬ NobodyWins bets d
  tree : payoutRoot e (leavesFor bets d fl) = some root
  apart : ∀ pk ∈ committee, ∀ b ∈ bets, b.pk ≠ pk.toList

/-- The close went to the address of a shard with that root. -/
structure CloseLanded (ctx : ResumeCtx) (addr : Int → Bytes32 → String) (pool : Int)
    (root : Bytes32) : Prop where
  closedAddr : ∀ a ∈ ctx.closedAddr, a = addr
  output0 : ∀ o ∈ ctx.output0, o = addr pool root

/-- The evidence is of that close; older evidence has less. -/
structure SettleEvidence.Written (ev : SettleEvidence) (d : Int) (root : Bytes32) : Prop where
  payout_root : ∀ r ∈ truthy ev.payout_root, r = hex root.toList
  win_direction : ∀ w ∈ ev.win_direction, w = 0 ∨ w = 1 →
    w = d ∧ truthy ev.payout_root = some (hex root.toList)

/-- Nothing that the inference needs is missing. -/
structure ResumeCtx.Complete (ctx : ResumeCtx) : Prop where
  zk_native : ctx.zk_native = false
  closedAddr : ctx.closedAddr ≠ none
  output0 : ctx.output0 ≠ none
  isBshard : ctx.isBshard = true

section

variable {e : Engine} {market : DriverMarket} {bets : List Bet} {committee : List Bytes32}
  {d dir w : Int} {fl fl' : List FeeLeaf} {root : Bytes32} {ctx : ResumeCtx}
  {addr : Int → Bytes32 → String} {pool : Int}

theorem candidateRoot_eq (hdir : dir = 0 ∨ dir = 1) :
    candidateRoot e bets fl dir =
      if NobodyWins bets dir then some none
      else (payoutRoot e (leavesFor bets dir fl)).map some := by
  obtain ⟨pm, hpm, hdeg, hleaves⟩ := @computePariMutuelPayout_leaves bets dir none 0 fl hdir
  unfold candidateRoot
  rw [hpm, Option.bind_eq_bind, Option.bind_some]
  by_cases hn : NobodyWins bets dir
  · rw [if_pos hn, if_pos (hdeg.mpr hn)]
  · rw [if_neg hn, if_neg (mt hdeg.mp hn), hleaves hn]
    rfl

/-- A candidate that there is is the root of its leaves. -/
theorem candidateRoot_some (hdir : dir = 0 ∨ dir = 1)
    (h : candidateRoot e bets fl dir = some (some root)) :
    ¬ NobodyWins bets dir ∧ payoutRoot e (leavesFor bets dir fl) = some root := by
  rw [candidateRoot_eq hdir] at h
  split at h
  · cases h
  · next hn =>
    obtain ⟨r, hr, heq⟩ := Option.map_eq_some_iff.mp h
    obtain rfl := Option.some.inj heq
    exact ⟨hn, hr⟩

theorem soleMatch_eq_some {a b : Bool} :
    soleMatch a b = some w ↔ w = 0 ∧ a = true ∧ b = false ∨ w = 1 ∧ a = false ∧ b = true := by
  cases a <;> cases b <;> simp [soleMatch, eq_comm]

/-- A candidate matches the close exactly if it has its root. -/
theorem any_addr (haddr : ∀ p p' r r', addr p r = addr p' r' → r = r') {p : Int}
    {r : Option Bytes32} :
    (r.any fun r' => decide (addr p r' = addr pool root)) = true ↔
      r = some root ∧ addr p root = addr pool root := by
  rw [Option.any_eq_true]
  constructor
  · rintro ⟨r', rfl, heq⟩
    have heq := of_decide_eq_true heq
    obtain rfl := haddr _ _ _ _ heq
    exact ⟨rfl, heq⟩
  · rintro ⟨rfl, heq⟩
    exact ⟨root, rfl, decide_eq_true heq⟩

/-- What the inference has found. -/
theorem infer_eq_ok (h : inferWinDirectionFromChain e market ctx = .ok w) :
    ∃ closedAddr chainAddr fl root₀ root₁, ctx.closedAddr = some closedAddr ∧
      ctx.output0 = some chainAddr ∧ driverFees market (sumStakes ctx.bets) [] = some fl ∧
      candidateRoot e ctx.bets fl 0 = some root₀ ∧ candidateRoot e ctx.bets fl 1 = some root₁ ∧
      soleMatch
        (root₀.any fun r => closedAddr (sumStakes ctx.bets + ctx.psSeedSompi.getD PS_SEED) r =
          chainAddr)
        (root₁.any fun r => closedAddr (sumStakes ctx.bets + ctx.psSeedSompi.getD PS_SEED) r =
          chainAddr) = some w := by
  unfold inferWinDirectionFromChain at h
  simp only [bind_eq_ok, check_eq_ok, orRefuse_eq_ok, exists_const] at h
  obtain ⟨-, closedAddr, hclosed, chainAddr, hout, -, fl, hfl, root₀, h₀, root₁, h₁, hsole⟩ := h
  exact ⟨closedAddr, chainAddr, fl, root₀, root₁, hclosed, hout, hfl, h₀, h₁, hsole⟩

/-- The side that is inferred has the root of the close. -/
theorem infer_root (hland : CloseLanded ctx addr pool root)
    (haddr : ∀ p p' r r', addr p r = addr p' r' → r = r')
    (h : inferWinDirectionFromChain e market ctx = .ok w) :
    (w = 0 ∨ w = 1) ∧ ∃ fl, driverFees market (sumStakes ctx.bets) [] = some fl ∧
      ¬ NobodyWins ctx.bets w ∧ payoutRoot e (leavesFor ctx.bets w fl) = some root := by
  obtain ⟨closedAddr, chainAddr, fl, root₀, root₁, hclosed, hout, hfl, h₀, h₁, hsole⟩ :=
    infer_eq_ok h
  obtain rfl := hland.closedAddr closedAddr hclosed
  obtain rfl := hland.output0 chainAddr hout
  obtain ⟨rfl, hm, -⟩ | ⟨rfl, -, hm⟩ := soleMatch_eq_some.mp hsole
  · rw [((any_addr haddr).mp hm).1] at h₀
    exact ⟨Or.inl rfl, fl, hfl, candidateRoot_some (Or.inl rfl) h₀⟩
  · rw [((any_addr haddr).mp hm).1] at h₁
    exact ⟨Or.inr rfl, fl, hfl, candidateRoot_some (Or.inr rfl) h₁⟩

/-- **The root of the close binds what is paid.** -/
theorem AttestedClose.leaves (hclose : AttestedClose e market bets committee d fl root)
    {msgs : List Bytes} (hcf : CollisionFree e msgs) (hz : NoZeroDigest e msgs)
    (hm : treeMessages e (leavesFor bets d fl) ⊆ msgs) {ws : List Leaf}
    (hm' : treeMessages e ws ⊆ msgs) (h : payoutRoot e ws = some root) :
    ws = leavesFor bets d fl := by
  obtain ⟨hb, hr⟩ := payoutRoot_eq_some.mp h
  obtain ⟨hb', hr'⟩ := payoutRoot_eq_some.mp hclose.tree
  exact rootOf_inj hcf.injOn hb hb' (fun m h => hm' h) (fun m h => hm h) (Or.inr hz)
    (hr.trans hr'.symm)

theorem AttestedClose.candidate (hclose : AttestedClose e market bets committee d fl root) :
    candidateRoot e bets fl d = some (some root) := by
  rw [candidateRoot_eq hclose.side, if_neg hclose.pays, hclose.tree]
  rfl

theorem AttestedClose.bets_ne (hclose : AttestedClose e market bets committee d fl root) :
    bets ≠ [] := by
  rintro rfl
  exact hclose.pays (Or.inl rfl)

/-! ### The committee's leaves -/

theorem dustTo_map_pk (x : Int) (ps : List Leaf) :
    (dustTo x ps).map Leaf.pk = ps.map Leaf.pk := by
  cases ps <;> rfl

/-- The winners are among those who bet. -/
theorem countP_winners (x : Int) :
    (dustTo x (winnerShares bets dir x)).countP (fun l => l.pk ∉ bets.map Bet.pk) = 0 := by
  apply List.countP_eq_zero.mpr
  intro l hl
  have hpk : l.pk ∈ (dustTo x (winnerShares bets dir x)).map Leaf.pk := List.mem_map_of_mem hl
  rw [dustTo_map_pk, winnerShares, shares, List.map_map] at hpk
  obtain ⟨b, hb, heq⟩ := List.mem_map.mp hpk
  have hmem : l.pk ∈ bets.map Bet.pk := heq ▸ List.mem_map_of_mem (List.mem_filter.mp hb).1
  simpa using hmem

theorem countP_leavesFor :
    (leavesFor bets dir fl).countP (fun l => l.pk ∉ bets.map Bet.pk) =
      (fl.map FeeLeaf.toLeaf).countP fun l => l.pk ∉ bets.map Bet.pk := by
  unfold leavesFor payoutLeavesOf
  rw [List.countP_append, countP_winners, Nat.zero_add]

theorem committeeLeaves_length (total : Int) (pks : List Bytes) :
    (committeeLeaves total pks).length = pks.length := by
  unfold committeeLeaves
  rw [List.length_mapIdx, List.length_mergeSort]

theorem mem_committeeLeaves {total : Int} {pks : List Bytes} {l : FeeLeaf}
    (h : l ∈ committeeLeaves total pks) : l.pk ∈ pks := by
  unfold committeeLeaves at h
  obtain ⟨i, hi, rfl⟩ := List.mem_mapIdx.mp h
  exact (List.mergeSort_perm pks pkLe).subset (List.getElem_mem _)

/-- With a committee there are the same fees, or as many more as it has members. -/
theorem fees_committee (h : driverFees market pool committee = some fl)
    (h' : driverFees market pool [] = some fl') :
    fl = fl' ∨ committee ≠ [] ∧
      ∃ total, fl = fl' ++ committeeLeaves total (committee.map List.Vector.toList) := by
  unfold driverFees at h h'
  cases hrules : market.fee_rules with
  | none =>
    rw [hrules] at h h'
    exact Or.inl (Option.some.inj (h.symm.trans h'))
  | some t =>
    rw [hrules] at h h'
    obtain ⟨rules, hr, h⟩ := Option.bind_eq_some_iff.mp h
    obtain ⟨rules', hr', h'⟩ := Option.bind_eq_some_iff.mp h'
    obtain rfl := Option.some.inj (hr.symm.trans hr')
    obtain ⟨-, -, rfl⟩ := deriveRoleFeeLeaves_eq_some.mp h
    obtain ⟨-, -, rfl⟩ := deriveRoleFeeLeaves_eq_some.mp h'
    unfold roleFeeLeaves
    have hnone : ¬ (0 < committeeBps (rules.roles.mergeSort nameLe) ∧
        ([] : List Bytes32).map List.Vector.toList ≠ []) := fun hn => hn.2 rfl
    rw [if_neg hnone, List.append_nil]
    split
    · next hsome =>
      refine Or.inr ⟨fun hnil => hsome.2 ?_, _, rfl⟩
      rw [hnil]
      rfl
    · exact Or.inl (List.append_nil _)

/-- **Leaves without the committee are not leaves with it.** -/
theorem AttestedClose.fees_eq (hclose : AttestedClose e market bets committee d fl root)
    (h' : driverFees market (sumStakes bets) [] = some fl')
    (hleaves : leavesFor bets w fl' = leavesFor bets d fl) : fl = fl' := by
  obtain heq | ⟨hne, total, heq⟩ := fees_committee hclose.fees h'
  · exact heq
  · have hcount := congrArg (List.countP fun l => l.pk ∉ bets.map Bet.pk) hleaves
    rw [countP_leavesFor, countP_leavesFor, heq, List.map_append, List.countP_append] at hcount
    have hlen : ((committeeLeaves total (committee.map List.Vector.toList)).map
        FeeLeaf.toLeaf).length = committee.length := by
      rw [List.length_map, committeeLeaves_length, List.length_map]
    have hall : ((committeeLeaves total (committee.map List.Vector.toList)).map
        FeeLeaf.toLeaf).countP (fun l => l.pk ∉ bets.map Bet.pk) = committee.length := by
      rw [← hlen]
      apply List.countP_eq_length.mpr
      intro l hl
      obtain ⟨f, hf, rfl⟩ := List.mem_map.mp hl
      obtain ⟨pk, hpk, heq'⟩ := List.mem_map.mp (mem_committeeLeaves hf)
      refine decide_eq_true fun hmem => ?_
      obtain ⟨b, hb, hbpk⟩ := List.mem_map.mp hmem
      exact hclose.apart pk hpk b hb (hbpk.trans heq'.symm)
    rw [hall] at hcount
    have hpos := List.length_pos_of_ne_nil hne
    omega

/-! ### What is resumed -/

/-- **From the bets of the close the side that has won is inferred, or none.**  The other side
alone cannot match: without committee leaves the side that has won matches too, and with them
neither does. -/
theorem AttestedClose.direction (hclose : AttestedClose e market bets committee d fl root)
    (hland : CloseLanded ctx addr pool root)
    (haddr : ∀ p p' r r', addr p r = addr p' r' → r = r') {msgs : List Bytes}
    (hcf : CollisionFree e msgs) (hz : NoZeroDigest e msgs)
    (hm : treeMessages e (leavesFor bets d fl) ⊆ msgs)
    (hm' : ∀ fl', driverFees market (sumStakes bets) [] = some fl' → ∀ w, w = 0 ∨ w = 1 →
      treeMessages e (leavesFor bets w fl') ⊆ msgs)
    (hbets : ctx.bets = bets) (h : inferWinDirectionFromChain e market ctx = .ok w) : w = d := by
  obtain ⟨hw, fl', hfl', -, hroot⟩ := infer_root hland haddr h
  rw [hbets] at hfl' hroot
  have hleaves := hclose.leaves hcf hz hm (hm' fl' hfl' w hw) hroot
  obtain rfl := hclose.fees_eq hfl' hleaves
  by_contra hne
  obtain ⟨closedAddr, chainAddr, fl₁, root₀, root₁, hclosed, hout, hfl₁, h₀, h₁, hsole⟩ :=
    infer_eq_ok h
  obtain rfl := hland.closedAddr closedAddr hclosed
  obtain rfl := hland.output0 chainAddr hout
  rw [hbets] at hfl₁ h₀ h₁ hsole
  obtain rfl := Option.some.inj (hfl'.symm.trans hfl₁)
  -- the side that has won has the root too, at the same address
  obtain ⟨rfl, hhit, hmiss⟩ | ⟨rfl, hmiss, hhit⟩ := soleMatch_eq_some.mp hsole
  · obtain rfl := hclose.side.resolve_left (Ne.symm hne)
    obtain rfl := Option.some.inj (h₁.symm.trans hclose.candidate)
    rw [(any_addr haddr).mpr ⟨rfl, ((any_addr haddr).mp hhit).2⟩] at hmiss
    cases hmiss
  · obtain rfl := hclose.side.resolve_right (Ne.symm hne)
    obtain rfl := Option.some.inj (h₀.symm.trans hclose.candidate)
    rw [(any_addr haddr).mpr ⟨rfl, ((any_addr haddr).mp hhit).2⟩] at hmiss
    cases hmiss

/-- The sides that are stored or inferred. -/
theorem resumeDirection_side {ev : SettleEvidence}
    (h : resumeDirection e market ctx ev = .ok w) : w = 0 ∨ w = 1 := by
  unfold resumeDirection at h
  split at h
  · exact Or.inl (Except.ok.inj h).symm
  split at h
  · exact Or.inr (Except.ok.inj h).symm
  · obtain ⟨_, _, _, _, _, -, -, -, -, -, hsole⟩ := infer_eq_ok h
    exact (soleMatch_eq_some.mp hsole).imp And.left And.left

/-- What a plan was resumed from. -/
theorem resume_eq_ok {evidence : Option SettleEvidence} {plan : ResumePlan}
    (h : deriveResumePlanFromEvidence e market ctx evidence = .ok plan) :
    ∃ ev fl, evidence = some ev ∧ resumeDirection e market ctx ev = .ok plan.winDir ∧
      driverFees market (sumStakes ctx.bets) [] = some fl ∧
      plan.winners = leavesFor ctx.bets plan.winDir fl ∧
      payoutRoot e plan.winners = some plan.payoutRoot ∧
      ∀ r ∈ truthy ev.payout_root, hex plan.payoutRoot.toList = r := by
  unfold deriveResumePlanFromEvidence at h
  simp only [bind_eq_ok, check_eq_ok, orRefuse_eq_ok, exists_const, Except.ok.injEq] at h
  obtain ⟨ev, hev, w, hw, -, fl, hfl, pm, hpm, hdeg, root, hroot, hcheck, rfl⟩ := h
  obtain ⟨pm', hpm', hdeg', hleaves⟩ :=
    @computePariMutuelPayout_leaves ctx.bets w none 0 fl (resumeDirection_side hw)
  obtain rfl := Option.some.inj (hpm.symm.trans hpm')
  have hpays : ¬ NobodyWins ctx.bets w := by
    rw [← hdeg', hdeg]
    exact Bool.false_ne_true
  refine ⟨ev, fl, hev, hw, hfl, hleaves hpays, hroot, fun r hr => ?_⟩
  rw [Option.mem_def.mp hr] at hcheck
  exact of_decide_eq_true hcheck

/-- **What is resumed is what was attested.** -/
theorem AttestedClose.resumed (hclose : AttestedClose e market bets committee d fl root)
    (hland : CloseLanded ctx addr pool root)
    (haddr : ∀ p p' r r', addr p r = addr p' r' → r = r') {msgs : List Bytes}
    (hcf : CollisionFree e msgs) (hz : NoZeroDigest e msgs)
    (hm : treeMessages e (leavesFor bets d fl) ⊆ msgs)
    (hm' : ∀ fl', driverFees market (sumStakes ctx.bets) [] = some fl' → ∀ w, w = 0 ∨ w = 1 →
      treeMessages e (leavesFor ctx.bets w fl') ⊆ msgs)
    {evidence : Option SettleEvidence} (hev : ∀ ev ∈ evidence, ev.Written d root)
    {plan : ResumePlan} (h : deriveResumePlanFromEvidence e market ctx evidence = .ok plan) :
    plan.payoutRoot = root ∧ plan.winners = leavesFor bets d fl := by
  obtain ⟨ev, fl', hevidence, hdir, hfl', hwinners, hroot, hcheck⟩ := resume_eq_ok h
  have hwritten := hev ev hevidence
  have hside := resumeDirection_side hdir
  have hsame : plan.payoutRoot = root := by
    cases hstored : truthy ev.payout_root with
    | some r =>
      exact hex_toList_inj.mp ((hcheck r hstored).trans (hwritten.payout_root r hstored))
    | none =>
      -- without a root in the evidence the side is not in it either
      have hunstored : ∀ w, w = 0 ∨ w = 1 → ev.win_direction ≠ some w := by
        intro w hw hstoredDir
        rw [(hwritten.win_direction w hstoredDir hw).2] at hstored
        cases hstored
      rw [resumeDirection, if_neg (hunstored 0 (Or.inl rfl)), if_neg (hunstored 1 (Or.inr rfl))]
        at hdir
      obtain ⟨-, fl₁, hfl₁, -, hroot₁⟩ := infer_root hland haddr hdir
      obtain rfl := Option.some.inj (hfl'.symm.trans hfl₁)
      rw [hwinners, hroot₁] at hroot
      exact (Option.some.inj hroot).symm
  refine ⟨hsame, ?_⟩
  rw [hsame] at hroot
  rw [hwinners] at hroot ⊢
  exact hclose.leaves hcf hz hm (hm' fl' hfl' plan.winDir hside) hroot

/-- A side that has the root of the close, and alone has it, is inferred. -/
theorem infer_sole (hland : CloseLanded ctx addr pool root)
    (haddr : ∀ p p' r r', addr p r = addr p' r' → r = r') (hcomplete : ctx.Complete)
    (hne : ctx.bets ≠ []) (hpool : pool = sumStakes ctx.bets + ctx.psSeedSompi.getD PS_SEED)
    (hfees : driverFees market (sumStakes ctx.bets) [] = some fl) (hside : w = 0 ∨ w = 1)
    (hown : candidateRoot e ctx.bets fl w = some (some root)) {r : Option Bytes32}
    (hother : candidateRoot e ctx.bets fl (1 - w) = some r) (hr : r ≠ some root) :
    inferWinDirectionFromChain e market ctx = .ok w := by
  obtain ⟨a, ha⟩ := Option.ne_none_iff_exists'.mp hcomplete.closedAddr
  obtain ⟨o, ho⟩ := Option.ne_none_iff_exists'.mp hcomplete.output0
  obtain rfl := hland.closedAddr a ha
  obtain rfl := hland.output0 o ho
  have hmiss : (r.any fun r' => decide (a pool r' = a pool root)) = false := by
    rw [Bool.eq_false_iff]
    exact fun hhit => hr ((any_addr haddr).mp hhit).1
  have hhit : ((some root).any fun r' => decide (a pool r' = a pool root)) = true :=
    decide_eq_true rfl
  unfold inferWinDirectionFromChain
  obtain rfl | rfl := hside
  · have hr₁ : candidateRoot e ctx.bets fl 1 = some r := hother
    simp only [hcomplete.zk_native, ha, ho, hcomplete.isBshard, hne, hfees, hown, hr₁, ← hpool,
      hmiss, hhit, orRefuse, check, if_true, ok_bind, ne_eq, not_false_eq_true, and_self]
    rfl
  · have hr₀ : candidateRoot e ctx.bets fl 0 = some r := hother
    simp only [hcomplete.zk_native, ha, ho, hcomplete.isBshard, hne, hfees, hown, hr₀, ← hpool,
      hmiss, hhit, orRefuse, check, if_true, ok_bind, ne_eq, not_false_eq_true, and_self]
    rfl

/-- From the side that has won the plan is resumed, if no other root is stored. -/
theorem AttestedClose.resumes (hclose : AttestedClose e market bets committee d fl root)
    (hbets : ctx.bets = bets) (hshard : ctx.isBshard = true)
    (hfees : driverFees market (sumStakes bets) [] = some fl) {ev : SettleEvidence}
    (hdir : resumeDirection e market ctx ev = .ok d)
    (hstored : ∀ r ∈ truthy ev.payout_root, r = hex root.toList) :
    ∃ plan, deriveResumePlanFromEvidence e market ctx (some ev) = .ok plan ∧
      plan.payoutRoot = root := by
  have hne := hclose.bets_ne
  obtain ⟨pm, hpm, hdeg, hleaves⟩ := @computePariMutuelPayout_leaves bets d none 0 fl hclose.side
  have hdeg : pm.degenerate = false := by
    have hpays := hclose.pays
    rw [← hdeg, Bool.not_eq_true] at hpays
    exact hpays
  have hroot : payoutRoot e pm.payoutLeaves = some root := by
    rw [hleaves hclose.pays]
    exact hclose.tree
  have hcheck : ((truthy ev.payout_root).all fun r => decide (hex root.toList = r)) = true := by
    cases h : truthy ev.payout_root with
    | none => rfl
    | some r => exact decide_eq_true (hstored r h).symm
  unfold deriveResumePlanFromEvidence
  simp only [hdir, hshard, hbets, hne, hfees, hpm, hdeg, hroot, hcheck, orRefuse, check, if_true,
    ok_bind, ne_eq, not_false_eq_true, and_self]
  exact ⟨_, rfl, rfl⟩

/-- The side that is stored is the one that has won, and the one that is inferred is. -/
theorem SettleEvidence.Written.direction {ev : SettleEvidence} (hev : ev.Written d root)
    (hinfer : inferWinDirectionFromChain e market ctx = .ok d) :
    resumeDirection e market ctx ev = .ok d := by
  unfold resumeDirection
  split
  · next h => rw [(hev.win_direction 0 h (Or.inl rfl)).1]
  split
  · next h => rw [(hev.win_direction 1 h (Or.inr rfl)).1]
  · exact hinfer

/-! ### The settler's own close -/

theorem draw_spec {hit : Int} {ms rest : List PoolMember} {m : PoolMember}
    (h : draw hit ms = some (m, rest)) : m ∈ ms ∧ rest ⊆ ms := by
  induction ms generalizing hit rest with
  | nil => cases h
  | cons m' ms ih =>
    unfold draw at h
    split at h
    · cases h
      exact ⟨List.mem_cons_self, List.subset_cons_self _ _⟩
    · obtain ⟨⟨m₁, rest₁⟩, hdraw, heq⟩ := Option.map_eq_some_iff.mp h
      cases heq
      obtain ⟨hmem, hsub⟩ := ih hdraw
      exact ⟨List.mem_cons_of_mem _ hmem, List.cons_subset_cons _ hsub⟩

theorem drawAll_subset {seed : Bytes32} {i n : Nat} {ms sel : List PoolMember}
    (h : drawAll e seed i n ms = some sel) : sel ⊆ ms := by
  induction n generalizing i ms sel with
  | zero =>
    obtain rfl := Option.some.inj h
    exact List.nil_subset _
  | succ n ih =>
    unfold drawAll at h
    obtain ⟨⟨m, rest⟩, hdraw, h⟩ := Option.bind_eq_some_iff.mp h
    obtain ⟨sel', hsel', h⟩ := Option.bind_eq_some_iff.mp h
    obtain rfl := Option.some.inj h
    obtain ⟨hmem, hsub⟩ := draw_spec hdraw
    exact List.cons_subset.mpr ⟨hmem, fun x hx => hsub (ih hsel' hx)⟩

/-- Nobody of the committee is left out of the draw. -/
theorem selectCommittee_spec {members sel : List PoolMember} {seed : Bytes32}
    {excludePks : List String} (h : selectCommittee e members seed excludePks = some sel) :
    ∀ m ∈ sel, hex m.pk.toList ∉ excludePks := by
  unfold selectCommittee at h
  simp only [Option.bind_eq_bind, Option.bind_eq_some_iff, require_eq_some, exists_const] at h
  obtain ⟨-, -, hdraw⟩ := h
  intro m hm
  have hsorted := drawAll_subset hdraw hm
  have hmem := (List.mem_filter.mp ((List.mergeSort_perm _ _).subset hsorted)).2
  simpa using hmem

/-- **The settler's plan, once it is attested.** -/
theorem AttestedClose.of_plan {c : DriverCtx} {plan : DriverPlan}
    (h : computeSettlePlan e market c = .ok plan) :
    ∃ fl, AttestedClose e market c.bets plan.committee plan.winDir fl plan.payoutRoot := by
  obtain ⟨sel, fl, hp⟩ := computeSettlePlan_eq_ok h
  refine ⟨fl, ?_, hp.fees, ?_, ?_, ?_⟩
  · rw [hp.winDir]
    exact hp.side
  · rw [hp.winDir]
    exact hp.pays
  · rw [hp.winDir]
    exact hp.tree
  · intro pk hpk b hb heq
    obtain ⟨_, _, -, -, hsel⟩ := hp.drawn
    rw [hp.committee] at hpk
    obtain ⟨m, hm, rfl⟩ := List.mem_map.mp ((List.mergeSort_perm _ _).subset hpk)
    refine selectCommittee_spec hsel m hm ?_
    rw [← heq]
    exact List.mem_append_right _ (List.mem_map_of_mem hb)

/-- What is hashed for the root of the close and for those of the candidates. -/
def resumeMessages (e : Engine) (market : DriverMarket) (bets : List Bet) (d : Int)
    (fl : List FeeLeaf) (ctx : ResumeCtx) : List Bytes :=
  treeMessages e (leavesFor bets d fl) ++
    (driverFees market (sumStakes ctx.bets) []).elim [] fun fl' =>
      treeMessages e (leavesFor ctx.bets 0 fl') ++ treeMessages e (leavesFor ctx.bets 1 fl')

theorem candidate_messages (hfl' : driverFees market (sumStakes ctx.bets) [] = some fl')
    (hw : w = 0 ∨ w = 1) :
    treeMessages e (leavesFor ctx.bets w fl') ⊆ resumeMessages e market bets d fl ctx := by
  unfold resumeMessages
  rw [hfl']
  intro m hm
  apply List.mem_append_right
  obtain rfl | rfl := hw
  · exact List.mem_append_left _ hm
  · exact List.mem_append_right _ hm

/-- **Resuming follows the ledger.**  From the bets of the close the side that has won is inferred
or none; from any bets, a side that is paid what was attested.  The plan that is resumed has the
root and the winners of the close.  Where the bets are those of the close, no committee leaf was
attested, the pool is what the settler takes it for and the other side has another root, neither
fails. -/
theorem resume_follows {evidence : Option SettleEvidence}
    (hclose : AttestedClose e market bets committee d fl root)
    (hland : CloseLanded ctx addr pool root)
    (haddr : ∀ p p' r r', addr p r = addr p' r' → r = r')
    (hev : ∀ ev ∈ evidence, ev.Written d root)
    (hcf : CollisionFree e (resumeMessages e market bets d fl ctx))
    (hz : NoZeroDigest e (resumeMessages e market bets d fl ctx)) :
    (ctx.bets = bets → ∀ w, inferWinDirectionFromChain e market ctx = .ok w → w = d) ∧
    (∀ w, inferWinDirectionFromChain e market ctx = .ok w →
      ∃ fl', driverFees market (sumStakes ctx.bets) [] = some fl' ∧
        leavesFor ctx.bets w fl' = leavesFor bets d fl) ∧
    (∀ plan, deriveResumePlanFromEvidence e market ctx evidence = .ok plan →
      plan.payoutRoot = root ∧ plan.winners = leavesFor bets d fl) ∧
    (ctx.bets = bets → ctx.Complete → pool = sumStakes bets + ctx.psSeedSompi.getD PS_SEED →
      driverFees market (sumStakes bets) [] = some fl →
      ∀ r, candidateRoot e bets fl (1 - d) = some r → r ≠ some root →
        inferWinDirectionFromChain e market ctx = .ok d ∧ ∀ ev ∈ evidence, ∃ plan,
          deriveResumePlanFromEvidence e market ctx (some ev) = .ok plan) := by
  have hm : treeMessages e (leavesFor bets d fl) ⊆ resumeMessages e market bets d fl ctx :=
    List.subset_append_left _ _
  have hm' : ∀ fl', driverFees market (sumStakes ctx.bets) [] = some fl' → ∀ w, w = 0 ∨ w = 1 →
      treeMessages e (leavesFor ctx.bets w fl') ⊆ resumeMessages e market bets d fl ctx :=
    fun _ hfl' _ hw => candidate_messages hfl' hw
  refine ⟨fun hbets w hw => ?_, fun w hw => ?_, fun plan hplan => ?_,
    fun hbets hcomplete hpool hfees r hother hr => ?_⟩
  · rw [hbets] at hm'
    exact hclose.direction hland haddr hcf hz hm hm' hbets hw
  · obtain ⟨hside, fl', hfl', -, hroot⟩ := infer_root hland haddr hw
    exact ⟨fl', hfl', hclose.leaves hcf hz hm (hm' fl' hfl' w hside) hroot⟩
  · exact hclose.resumed hland haddr hcf hz hm hm' hev hplan
  · have hinfer : inferWinDirectionFromChain e market ctx = .ok d := by
      rw [← hbets] at hpool hfees hother
      have hown := hclose.candidate
      rw [← hbets] at hown
      exact infer_sole hland haddr hcomplete (hbets ▸ hclose.bets_ne) hpool hfees hclose.side hown
        hother hr
    refine ⟨hinfer, fun ev hevidence => ?_⟩
    have hwritten := hev ev hevidence
    obtain ⟨plan, hplan, -⟩ := hclose.resumes hbets hcomplete.isBshard hfees
      (hwritten.direction hinfer) hwritten.payout_root
    exact ⟨plan, hplan⟩

end

section Sample

private def resumeMarket (rules : Option FeeRulesText) : DriverMarket where
  id := "m1"
  maker_pk := none
  broker_pk := none
  introducer_pk := none
  fee_rules := rules
  deadline_daa := 4
  pool_merkle_root := []

private def shareRules : FeeRulesText :=
  ⟨1, none, [⟨"committee", 1000, none, some "committee", false⟩,
    ⟨"provider", 9000, none, none, false⟩]⟩

/-- One bet on each side. -/
private def resumeBets (flipped : Bool) : List Bet :=
  [⟨sampleKey 77, 1000000, if flipped then 1 else 0⟩,
    ⟨sampleKey 78, 1000000, if flipped then 0 else 1⟩]

private def resumeAddr (_ : Int) (root : Bytes32) : String := hex root.toList

private theorem resumeAddr_inj (p p' : Int) (r r' : Bytes32)
    (h : resumeAddr p r = resumeAddr p' r') : r = r' := hex_toList_inj.mp h

private def resumeCtx (bets : List Bet) (root : Bytes32) : ResumeCtx where
  zk_native := false
  closedAddr := some resumeAddr
  output0 := some (resumeAddr 22000000 root)
  isBshard := true
  bets := bets
  psSeedSompi := none

private theorem resumeCtx_landed (bets : List Bet) (root : Bytes32) :
    CloseLanded (resumeCtx bets root) resumeAddr 22000000 root where
  closedAddr _ h := (Option.some.inj h).symm
  output0 _ h := (Option.some.inj h).symm

private theorem resumeCtx_complete (bets : List Bet) (root : Bytes32) :
    (resumeCtx bets root).Complete :=
  ⟨rfl, Option.some_ne_none _, Option.some_ne_none _, rfl⟩

private def wholeLeaves (key : UInt8) : List Leaf := [⟨sampleKey key, 2000000⟩]

private theorem wholeLeaves_root (key : UInt8) : payoutRoot sampleEngine (wholeLeaves key) =
    some (rootOf sampleEngine (wholeLeaves key)) := by
  refine payoutRoot_of_buildable ⟨show 1 ≤ 1024 by norm_num, ?_⟩
  intro w hw
  rw [List.mem_singleton.mp hw]
  exact payable_sampleKey key (by norm_num) (by norm_num)

private theorem wholeLeaves_apart : rootOf sampleEngine (wholeLeaves 77) ≠
    rootOf sampleEngine (wholeLeaves 78) := by
  decide +kernel

/-- The bettor on the side that wins has it all. -/
private theorem leavesFor_resumeBets (flipped : Bool) :
    leavesFor (resumeBets flipped) (if flipped then 1 else 0) [] = wholeLeaves 77 ∧
      leavesFor (resumeBets flipped) (if flipped then 0 else 1) [] = wholeLeaves 78 := by
  cases flipped <;> decide +kernel

private theorem resume_closed (flipped : Bool) : AttestedClose sampleEngine (resumeMarket none)
    (resumeBets flipped) [] 0 []
    (rootOf sampleEngine (wholeLeaves (if flipped then 78 else 77))) where
  side := Or.inl rfl
  fees := rfl
  pays := by cases flipped <;> decide
  tree := by
    have hleaves : leavesFor (resumeBets flipped) 0 [] =
        wholeLeaves (if flipped then 78 else 77) := by
      cases flipped with
      | false => exact (leavesFor_resumeBets false).1
      | true => exact (leavesFor_resumeBets true).2
    rw [hleaves]
    exact wholeLeaves_root _
  apart _ h := absurd h List.not_mem_nil

private theorem candidate_resumeBets (flipped : Bool) :
    candidateRoot sampleEngine (resumeBets flipped) [] (if flipped then 1 else 0) =
        some (some (rootOf sampleEngine (wholeLeaves 77))) ∧
      candidateRoot sampleEngine (resumeBets flipped) [] (if flipped then 0 else 1) =
        some (some (rootOf sampleEngine (wholeLeaves 78))) := by
  obtain ⟨h₇₇, h₇₈⟩ := leavesFor_resumeBets flipped
  have hpays : ∀ dir : Int, dir = 0 ∨ dir = 1 → ¬ NobodyWins (resumeBets flipped) dir := by
    rintro dir (rfl | rfl) <;> cases flipped <;> decide
  have hside : ∀ b : Bool, (if b then (1 : Int) else 0) = 0 ∨ (if b then (1 : Int) else 0) = 1 :=
    by decide
  have hside' : ∀ b : Bool, (if b then (0 : Int) else 1) = 0 ∨ (if b then (0 : Int) else 1) = 1 :=
    by decide
  refine ⟨?_, ?_⟩
  · rw [candidateRoot_eq (hside flipped), if_neg (hpays _ (hside flipped)), h₇₇, wholeLeaves_root]
    rfl
  · rw [candidateRoot_eq (hside' flipped), if_neg (hpays _ (hside' flipped)), h₇₈,
      wholeLeaves_root]
    rfl

/-- The side is found, and its bettor is the winner. -/
theorem resume_follows_sample : ∃ ctx plan,
    inferWinDirectionFromChain sampleEngine (resumeMarket none) ctx = .ok 0 ∧
      deriveResumePlanFromEvidence sampleEngine (resumeMarket none) ctx (some ⟨none, none⟩) =
        .ok plan ∧
      plan.winners = [⟨sampleKey 77, 2000000⟩] := by
  have hcf : CollisionFree sampleEngine (resumeMessages sampleEngine (resumeMarket none)
      (resumeBets false) 0 []
      (resumeCtx (resumeBets false) (rootOf sampleEngine (wholeLeaves 77)))) := by
    decide +kernel
  have hz : NoZeroDigest sampleEngine (resumeMessages sampleEngine (resumeMarket none)
      (resumeBets false) 0 []
      (resumeCtx (resumeBets false) (rootOf sampleEngine (wholeLeaves 77)))) := by
    decide +kernel
  have hwritten : ∀ ev ∈ some (⟨none, none⟩ : SettleEvidence),
      ev.Written 0 (rootOf sampleEngine (wholeLeaves 77)) := by
    intro ev hev
    obtain rfl := Option.some.inj hev
    refine ⟨fun r hr => ?_, fun w hw => ?_⟩
    · cases hr
    · cases hw
  obtain ⟨-, -, hresumed, hfound⟩ := resume_follows (resume_closed false)
    (resumeCtx_landed (resumeBets false) _) resumeAddr_inj hwritten hcf hz
  obtain ⟨hinfer, hplans⟩ := hfound rfl (resumeCtx_complete _ _) rfl rfl _
    (candidate_resumeBets false).2 fun h => wholeLeaves_apart (Option.some.inj h).symm
  obtain ⟨plan, hplan⟩ := hplans _ rfl
  exact ⟨_, plan, hinfer, hplan, (hresumed plan hplan).2.trans (leavesFor_resumeBets false).1⟩

private def shareKey : Bytes32 := ⟨sampleKey 9, List.length_replicate⟩

private def shareLeaves : List Leaf := [⟨sampleKey 77, 1800000⟩, ⟨sampleKey 9, 200000⟩]

private theorem shareFees (pks : List Bytes32) :
    driverFees (resumeMarket (some shareRules)) 2000000 pks = some
      (if pks ≠ [] then committeeLeaves 200000 (pks.map List.Vector.toList) else []) := by
  have hread : shareRules.rules = some
      ⟨1, none, [⟨"committee", 1000, none, some "committee", false⟩,
        ⟨"provider", 9000, none, none, false⟩]⟩ := rules_eq_some.mpr ⟨by decide, rfl, rfl⟩
  have hvalid : (⟨1, none, [⟨"committee", 1000, none, some "committee", false⟩,
      ⟨"provider", 9000, none, none, false⟩]⟩ : FeeRules).Valid :=
    (validateFeeRules_eq_some (u := ())).mp (by decide)
  show (shareRules.rules.bind fun rules =>
    deriveRoleFeeLeaves rules 2000000 (pks.map List.Vector.toList)) = _
  rw [hread]
  refine deriveRoleFeeLeaves_eq_some.mpr ⟨hvalid, by norm_num, ?_⟩
  rw [List.mergeSort_of_pairwise (by decide)]
  cases pks with
  | nil => rfl
  | cons pk pks => rfl

private theorem share_closed : AttestedClose sampleEngine (resumeMarket (some shareRules))
    (resumeBets false) [shareKey] 0 [⟨⟨sampleKey 9, 200000⟩, "committee"⟩]
    (rootOf sampleEngine shareLeaves) where
  side := Or.inl rfl
  fees := by
    have hsum : sumStakes (resumeBets false) = 2000000 := by decide
    rw [hsum, shareFees, if_pos (List.cons_ne_nil _ _), committeeLeaves]
    rw [List.map_singleton, List.mergeSort_singleton]
    rfl
  pays := by decide
  tree := by
    have hleaves : leavesFor (resumeBets false) 0 [⟨⟨sampleKey 9, 200000⟩, "committee"⟩] =
        shareLeaves := by decide +kernel
    rw [hleaves]
    refine payoutRoot_of_buildable ⟨show 2 ≤ 1024 by norm_num, ?_⟩
    intro w hw
    obtain rfl | hw := List.mem_cons.mp hw
    · exact payable_sampleKey 77 (by norm_num) (by norm_num)
    · rw [List.mem_singleton.mp hw]
      exact payable_sampleKey 9 (by norm_num) (by norm_num)
  apart pk hpk b hb := by
    obtain rfl := List.mem_singleton.mp hpk
    revert b
    decide

/-- **The committee's share, and other bets.**  From the bets of the close, nothing is resumed when
the committee was paid a share; from bets on the other sides, the side that has lost is inferred,
and from a side stored without a root, another root is resumed with. -/
theorem resume_refused : (∃ fl root,
    AttestedClose sampleEngine (resumeMarket (some shareRules)) (resumeBets false) [shareKey] 0 fl
      root ∧
    CloseLanded (resumeCtx (resumeBets false) root) resumeAddr 22000000 root ∧
    (∀ w, inferWinDirectionFromChain sampleEngine (resumeMarket (some shareRules))
      (resumeCtx (resumeBets false) root) ≠ .ok w) ∧
    ∀ plan, deriveResumePlanFromEvidence sampleEngine (resumeMarket (some shareRules))
      (resumeCtx (resumeBets false) root) (some ⟨none, none⟩) ≠ .ok plan) ∧
    ∃ root, AttestedClose sampleEngine (resumeMarket none) (resumeBets false) [] 0 [] root ∧
      CloseLanded (resumeCtx (resumeBets true) root) resumeAddr 22000000 root ∧
      inferWinDirectionFromChain sampleEngine (resumeMarket none)
        (resumeCtx (resumeBets true) root) = .ok 1 ∧
      ∃ plan, deriveResumePlanFromEvidence sampleEngine (resumeMarket none)
        (resumeCtx (resumeBets true) root) (some ⟨some 0, none⟩) = .ok plan ∧
          plan.payoutRoot ≠ root := by
  have hnone : ∀ w, inferWinDirectionFromChain sampleEngine (resumeMarket (some shareRules))
      (resumeCtx (resumeBets false) (rootOf sampleEngine shareLeaves)) ≠ .ok w := by
    intro w hw
    obtain ⟨hside, fl, hfl, -, hroot⟩ := infer_root (resumeCtx_landed _ _) resumeAddr_inj hw
    have hsum : sumStakes (resumeBets false) = 2000000 := by decide
    have hnil : driverFees (resumeMarket (some shareRules)) (sumStakes (resumeBets false)) [] =
        some [] := by
      rw [hsum, shareFees, if_neg (not_not.mpr rfl)]
    obtain rfl := Option.some.inj (hnil.symm.trans hfl)
    obtain rfl | rfl := hside
    · have hleaves : leavesFor (resumeBets false) 0 [] = wholeLeaves 77 :=
        (leavesFor_resumeBets false).1
      have hwhole : payoutRoot sampleEngine (wholeLeaves 77) = _ := hleaves ▸ hroot
      rw [wholeLeaves_root] at hwhole
      exact absurd (Option.some.inj hwhole) (by decide +kernel)
    · have hleaves : leavesFor (resumeBets false) 1 [] = wholeLeaves 78 :=
        (leavesFor_resumeBets false).2
      have hwhole : payoutRoot sampleEngine (wholeLeaves 78) = _ := hleaves ▸ hroot
      rw [wholeLeaves_root] at hwhole
      exact absurd (Option.some.inj hwhole) (by decide +kernel)
  refine ⟨⟨_, _, share_closed, resumeCtx_landed _ _, hnone, fun plan hplan => ?_⟩,
    _, resume_closed false, resumeCtx_landed _ _, ?_, ?_⟩
  · obtain ⟨ev, fl, hev, hdir, -⟩ := resume_eq_ok hplan
    obtain rfl := Option.some.inj hev
    exact hnone plan.winDir hdir
  · refine infer_sole (resumeCtx_landed _ _) resumeAddr_inj (resumeCtx_complete _ _)
      (List.cons_ne_nil _ _) rfl rfl (Or.inr rfl) (candidate_resumeBets true).1
      (candidate_resumeBets true).2 fun h => wholeLeaves_apart (Option.some.inj h).symm
  · have hdir : resumeDirection sampleEngine (resumeMarket none)
        (resumeCtx (resumeBets true) (rootOf sampleEngine (wholeLeaves 77))) ⟨some 0, none⟩ =
          .ok 0 := rfl
    have hstored : ∀ r ∈ truthy (⟨some 0, none⟩ : SettleEvidence).payout_root,
        r = hex (rootOf sampleEngine (wholeLeaves (if true then 78 else 77))).toList := by
      intro r hr
      cases hr
    obtain ⟨plan, hplan, hroot⟩ := (resume_closed true).resumes rfl rfl rfl hdir hstored
    refine ⟨plan, hplan, ?_⟩
    rw [hroot]
    exact wholeLeaves_apart.symm

end Sample

end KANet.Settle
