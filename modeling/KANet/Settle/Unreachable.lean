import KANet.Relay.EndBlock
import Mathlib.Data.List.Nodup
import Mathlib.Tactic.Linarith
import Mathlib.Tactic.NormNum

/-!
# Markets that are given up

A market whose end block the relay cannot find any more is skipped by the settle daemon, and
refunded by the settler.  Both compare the score of the tip with the deadline; the walk of the relay
counts blocks of the chain, and has the console's index and the blocks it remembers besides.

* `backward_ok_iff` — the walk finds the end block exactly if the chain has it within its steps.
* `getBlockAtDaa_ok_iff` — when the relay answers.
* `verdicts_iff` — the two verdicts are right exactly where the end block is out of reach.
-/

namespace KANet.Settle.Unreachable

open KANet.Lib KANet.Relay

variable {H : Type} [DecidableEq H]

/-! ### Chains -/

/-- A block, and the next of the list as its selected parent. -/
def Linked : List (Block H) → Prop
  | [] => True
  | [b] => b.selectedParentHash = none
  | b :: p :: bs => b.selectedParentHash = some p.hash ∧ Linked (p :: bs)

/-- A selected chain from its tip down, along which the scores decrease, by any steps. -/
structure Chain (H : Type) where
  tip : Block H
  below : List (Block H)
  linked : Linked (tip :: below)
  decreasing : (tip :: below).Pairwise fun b c => c.daaScore < b.daaScore
  nodup : ((tip :: below).map Block.hash).Nodup

def Chain.blocks (c : Chain H) : List (Block H) := c.tip :: c.below

/-- A node that knows the chain, and answers what it is asked; its pages are any. -/
def Chain.rpc (c : Chain H) (getBlocks : H → Option (Page H)) : Rpc H where
  getBlock h := c.blocks.find? fun b => b.hash = h
  getBlocks := getBlocks
  sink := some c.tip.hash

/-! ### The two verdicts -/

/-- What the gate of the daemon reads of a market. -/
structure GatedMarket where
  deadline_daa : Option ℚ
  walk_exhausted_confirmed : Bool
  close_txid : Bool

/-- `PREGATE_MAX_WALK` has the default of the relay's `MAX_WALK`. -/
def unreachablePreGate (PREGATE_MAX_WALK : ℕ) (m : GatedMarket) (currentDaa : ℚ)
    (floor : Option ℚ) : Bool :=
  match m.deadline_daa with
  | none => false
  | some deadline =>
    (floor.any (deadline < ·) || m.walk_exhausted_confirmed) &&
      decide ((PREGATE_MAX_WALK : ℚ) < currentDaa - deadline) && !m.close_txid

def MAX_SPC_WALK : ℕ := 50000
def SAFETY_MARGIN : ℕ := 100
def REFUND_THRESHOLD : ℕ := MAX_SPC_WALK - SAFETY_MARGIN

/-- What the settler reads of a market; old markets have no score. -/
structure SettlerMarket where
  deadline_daa : Option ℚ
  deadline : ℚ

def deadlineDaaOf (m : SettlerMarket) (currentDaa nowSec : ℚ) : ℚ :=
  (m.deadline_daa.filter (· ≠ 0)).getD (max 1 (currentDaa - max 0 ((nowSec - m.deadline) * 10)))

/-- The market is refunded for good. -/
def unrecoverable (tipDaaUR deadlineDaa : ℚ) : Bool :=
  decide ((REFUND_THRESHOLD : ℚ) < tipDaaUR - deadlineDaa)

/-! ### What is asked of them -/

/-- The relay answers. -/
def Answers (rpc : Rpc H) (index : Option (EndBlock H)) (MAX_WALK : ℕ)
    (recentBlocks : List (RecentBlock H)) (deadlineDaa : ℚ) : Prop :=
  ∃ e, getBlockAtDaa rpc index MAX_WALK recentBlocks deadlineDaa = .ok e

/-- The chain has its end block among the first `n`, and the walk sees that it is: nothing is below
it, or the next block is among them too, or its score is the deadline. -/
def Within (deadlineDaa : ℚ) (n : ℕ) (chain : List (Block H)) : Prop :=
  ∃ i b, chain[i]? = some b ∧ i < n ∧ deadlineDaa ≤ b.daaScore ∧
    ∀ p ∈ chain[i + 1]?, (p.daaScore : ℚ) < deadlineDaa ∧
      (i + 1 = n → (b.daaScore : ℚ) = deadlineDaa) ∧ (i + 1 < n → p.daaScore ≠ 0)

/-- Neither the index nor the remembered blocks nor the walk leads to the end block. -/
def OutOfReach (c : Chain H) (getBlocks : H → Option (Page H)) (index : Option (EndBlock H))
    (MAX_WALK : ℕ) (recentBlocks : List (RecentBlock H)) (deadlineDaa : ℚ) : Prop :=
  0 < deadlineDaa → index = none ∧
    (∀ a ∈ anchorOf recentBlocks deadlineDaa,
      ∀ b ∈ (pages (c.rpc getBlocks) MAX_PAGES a.hash).flatten, ¬ Crosses deadlineDaa b) ∧
    ¬ Within deadlineDaa MAX_WALK c.blocks

/-- **A market is given up only if the relay cannot answer.** -/
structure Right (c : Chain H) (getBlocks : H → Option (Page H)) (index : Option (EndBlock H))
    (MAX_WALK PREGATE_MAX_WALK : ℕ) (recentBlocks : List (RecentBlock H)) (gated : GatedMarket)
    (floor : Option ℚ) (settled : SettlerMarket) (nowSec : ℚ) : Prop where
  skipped : ∀ deadlineDaa ∈ gated.deadline_daa,
    unreachablePreGate PREGATE_MAX_WALK gated c.tip.daaScore floor = true →
    ¬ Answers (c.rpc getBlocks) index MAX_WALK recentBlocks deadlineDaa
  refunded : unrecoverable c.tip.daaScore (deadlineDaaOf settled c.tip.daaScore nowSec) = true →
    ¬ Answers (c.rpc getBlocks) index MAX_WALK recentBlocks
      (deadlineDaaOf settled c.tip.daaScore nowSec)

/-! ### The walk -/

section

variable {rpc : Rpc H} {deadlineDaa : ℚ} {n : ℕ} {b p : Block H} {bs : List (Block H)}

omit [DecidableEq H] in
theorem within_zero {chain : List (Block H)} : ¬ Within deadlineDaa 0 chain := by
  rintro ⟨i, -, -, hi, -⟩
  omega

omit [DecidableEq H] in
/-- The end block is the first, or further down. -/
theorem within_cons : Within deadlineDaa (n + 1) (b :: bs) ↔
    (deadlineDaa ≤ b.daaScore ∧ ∀ p ∈ bs.head?, (p.daaScore : ℚ) < deadlineDaa ∧
      (n = 0 → (b.daaScore : ℚ) = deadlineDaa) ∧ (0 < n → p.daaScore ≠ 0)) ∨
    Within deadlineDaa n bs := by
  constructor
  · rintro ⟨i, x, hx, hi, hle, hnext⟩
    cases i with
    | zero =>
      obtain rfl := Option.some.inj hx
      refine Or.inl ⟨hle, ?_⟩
      intro p hp
      obtain ⟨hlt, hend, hzero⟩ := hnext p (by simpa [List.head?_eq_getElem?] using hp)
      exact ⟨hlt, fun hn => hend (by omega), fun hn => hzero (by omega)⟩
    | succ i =>
      refine Or.inr ⟨i, x, hx, by omega, hle, ?_⟩
      intro p hp
      obtain ⟨hlt, hend, hzero⟩ := hnext p hp
      exact ⟨hlt, fun hn => hend (by omega), fun hn => hzero (by omega)⟩
  · rintro (⟨hle, hnext⟩ | ⟨i, x, hx, hi, hle, hnext⟩)
    · refine ⟨0, b, rfl, by omega, hle, ?_⟩
      intro p hp
      obtain ⟨hlt, hend, hzero⟩ := hnext p (by simpa [List.head?_eq_getElem?] using hp)
      exact ⟨hlt, fun hn => hend (by omega), fun hn => hzero (by omega)⟩
    · refine ⟨i + 1, x, hx, by omega, hle, ?_⟩
      intro p hp
      obtain ⟨hlt, hend, hzero⟩ := hnext p hp
      exact ⟨hlt, fun hn => hend (by omega), fun hn => hzero (by omega)⟩

omit [DecidableEq H] in
/-- Below a block that has not reached the deadline none has. -/
theorem not_within_of_lt (hdec : (b :: bs).Pairwise fun b c => c.daaScore < b.daaScore)
    (hlt : (b.daaScore : ℚ) < deadlineDaa) : ¬ Within deadlineDaa n (b :: bs) := by
  rintro ⟨i, x, hx, -, hle, -⟩
  have hxb : x.daaScore ≤ b.daaScore := by
    rcases List.mem_cons.mp (List.mem_of_getElem? hx) with rfl | hmem
    · exact le_refl _
    · exact ((List.pairwise_cons.mp hdec).1 x hmem).le
  have hcast : (x.daaScore : ℚ) ≤ b.daaScore := by exact_mod_cast hxb
  linarith

omit [DecidableEq H] in
/-- The rest of the walk, from below a block that has reached the deadline. -/
theorem backward_below (hpos : 0 < deadlineDaa) {e : EndBlock H}
    (hget : ∀ x ∈ b :: bs, rpc.getBlock x.hash = some x) (hlinked : Linked (b :: bs))
    (hdec : (b :: bs).Pairwise fun b c => c.daaScore < b.daaScore)
    (hreached : deadlineDaa ≤ e.daaScore) (habove : b.daaScore < e.daaScore) :
    (∃ r, backward rpc deadlineDaa n b.hash (some e) = .ok r) ↔
      ((b.daaScore : ℚ) < deadlineDaa ∧ (n = 0 → (e.daaScore : ℚ) = deadlineDaa) ∧
        (0 < n → b.daaScore ≠ 0)) ∨ Within deadlineDaa n (b :: bs) := by
  induction n generalizing b bs e with
  | zero =>
    have hcast : (b.daaScore : ℚ) < e.daaScore := by exact_mod_cast habove
    simp only [backward, orRefuse, ok_bind, bind_eq_ok, check_eq_ok, exists_const]
    constructor
    · rintro ⟨r, hle, -⟩
      exact Or.inl ⟨by linarith [not_lt.mp hle], fun _ => le_antisymm (not_lt.mp hle) hreached,
        fun h => absurd h (by omega)⟩
    · rintro (⟨-, heq, -⟩ | h)
      · exact ⟨e, by rw [heq trivial]; exact lt_irrefl _, rfl⟩
      · exact absurd h within_zero
  | succ n ih =>
    have hb := hget b List.mem_cons_self
    by_cases hzero : b.daaScore = 0
    · -- a block without a score is malformed
      have hlt : (b.daaScore : ℚ) < deadlineDaa := by rw [hzero]; exact_mod_cast hpos
      constructor
      · rintro ⟨r, h⟩
        simp only [backward, hb, orRefuse, ok_bind, bind_eq_ok, check_eq_ok] at h
        exact absurd hzero h.choose_spec.1
      · rintro (⟨-, -, h⟩ | h)
        · exact absurd hzero (h (by omega))
        · exact absurd h (not_within_of_lt hdec hlt)
    · have hcheck : check (b.daaScore ≠ 0) WalkError.malformed = .ok () := check_eq_ok.mpr hzero
      by_cases hdaa : deadlineDaa ≤ b.daaScore
      · have hnot : ¬ (b.daaScore : ℚ) < deadlineDaa := not_lt.mpr hdaa
        cases bs with
        | nil =>
          have hparent : b.selectedParentHash = none := hlinked
          simp only [backward, hb, orRefuse, ok_bind, hcheck, if_pos hdaa, hparent]
          refine ⟨fun _ => Or.inr (within_cons.mpr (Or.inl ⟨hdaa, ?_⟩)), fun _ => ⟨_, rfl⟩⟩
          intro p hp
          cases hp
        | cons p bs =>
          obtain ⟨hparent, hrest⟩ := hlinked
          obtain ⟨hbelow, hdec'⟩ := List.pairwise_cons.mp hdec
          have hstep := @ih p bs b.toEnd
            (fun x hx => hget x (List.mem_cons_of_mem b hx)) hrest hdec' hdaa
            (hbelow p List.mem_cons_self)
          simp only [backward, hb, orRefuse, ok_bind, hcheck, if_pos hdaa, hparent]
          rw [hstep, within_cons]
          constructor
          · rintro (h | h)
            · exact Or.inr (Or.inl ⟨hdaa, fun q hq => Option.some.inj hq ▸ h⟩)
            · exact Or.inr (Or.inr h)
          · rintro (h | h | h)
            · exact absurd h.1 hnot
            · exact Or.inl (h.2 p rfl)
            · exact Or.inr h
      · simp only [backward, hb, orRefuse, ok_bind, hcheck, if_neg hdaa]
        exact ⟨fun _ => Or.inl ⟨not_le.mp hdaa, fun h => absurd h (by omega), fun _ => hzero⟩,
          fun _ => ⟨e, rfl⟩⟩

omit [DecidableEq H] in
/-- **The walk finds the end block exactly if the chain has it within its steps.** -/
theorem backward_ok_iff (hpos : 0 < deadlineDaa)
    (hget : ∀ x ∈ b :: bs, rpc.getBlock x.hash = some x) (hlinked : Linked (b :: bs))
    (hdec : (b :: bs).Pairwise fun b c => c.daaScore < b.daaScore) :
    (∃ r, backward rpc deadlineDaa n b.hash none = .ok r) ↔ Within deadlineDaa n (b :: bs) := by
  cases n with
  | zero =>
    refine ⟨?_, fun h => absurd h within_zero⟩
    rintro ⟨r, h⟩
    cases h
  | succ n =>
    have hb := hget b List.mem_cons_self
    by_cases hdaa : deadlineDaa ≤ b.daaScore
    · have hzero : b.daaScore ≠ 0 := by
        intro h
        rw [h] at hdaa
        exact absurd (lt_of_lt_of_le hpos hdaa) (by norm_num)
      have hcheck : check (b.daaScore ≠ 0) WalkError.malformed = .ok () := check_eq_ok.mpr hzero
      cases bs with
      | nil =>
        have hparent : b.selectedParentHash = none := hlinked
        simp only [backward, hb, orRefuse, ok_bind, hcheck, if_pos hdaa, hparent]
        refine ⟨fun _ => within_cons.mpr (Or.inl ⟨hdaa, ?_⟩), fun _ => ⟨_, rfl⟩⟩
        intro p hp
        cases hp
      | cons p bs =>
        obtain ⟨hparent, hrest⟩ := hlinked
        obtain ⟨hbelow, hdec'⟩ := List.pairwise_cons.mp hdec
        have hstep := backward_below (n := n) (e := b.toEnd) hpos
          (fun x hx => hget x (List.mem_cons_of_mem b hx)) hrest hdec' hdaa
          (hbelow p List.mem_cons_self)
        simp only [backward, hb, orRefuse, ok_bind, hcheck, if_pos hdaa, hparent]
        rw [hstep, within_cons]
        constructor
        · rintro (h | h)
          · exact Or.inl ⟨hdaa, fun q hq => Option.some.inj hq ▸ h⟩
          · exact Or.inr h
        · rintro (h | h)
          · exact Or.inl (h.2 p rfl)
          · exact Or.inr h
    · refine ⟨?_, fun h => absurd h (not_within_of_lt hdec (not_le.mp hdaa))⟩
      rintro ⟨r, h⟩
      simp only [backward, hb, orRefuse, ok_bind, if_neg hdaa, bind_eq_ok] at h
      obtain ⟨-, -, h⟩ := h
      cases h

end

/-! ### The relay -/

section

variable {c : Chain H} {getBlocks : H → Option (Page H)} {index : Option (EndBlock H)}
  {MAX_WALK : ℕ} {recentBlocks : List (RecentBlock H)} {deadlineDaa : ℚ}

theorem getBlock_rpc {b : Block H} (hb : b ∈ c.blocks) :
    (c.rpc getBlocks).getBlock b.hash = some b := by
  show c.blocks.find? (fun x => x.hash = b.hash) = some b
  cases h : c.blocks.find? (fun x => x.hash = b.hash) with
  | none => exact absurd (decide_eq_true rfl) (List.find?_eq_none.mp h b hb)
  | some x =>
    have hhash : x.hash = b.hash := by simpa using List.find?_some h
    rw [List.inj_on_of_nodup_map c.nodup (List.mem_of_find?_eq_some h) hb hhash]

theorem walk_iff (hpos : 0 < deadlineDaa) :
    (∃ e, backward (c.rpc getBlocks) deadlineDaa MAX_WALK c.tip.hash none = .ok e) ↔
      Within deadlineDaa MAX_WALK c.blocks :=
  backward_ok_iff hpos (fun _ hx => getBlock_rpc hx) c.linked c.decreasing

/-- **When the relay answers.** -/
theorem answers_iff (c : Chain H) (getBlocks : H → Option (Page H)) (index : Option (EndBlock H))
    (MAX_WALK : ℕ) (recentBlocks : List (RecentBlock H)) (deadlineDaa : ℚ) :
    Answers (c.rpc getBlocks) index MAX_WALK recentBlocks deadlineDaa ↔
      ¬ OutOfReach c getBlocks index MAX_WALK recentBlocks deadlineDaa := by
  unfold Answers OutOfReach
  by_cases hpos : 0 < deadlineDaa
  · have hcheck : check (0 < deadlineDaa) WalkError.deadline = .ok () := check_eq_ok.mpr hpos
    cases index with
    | some e =>
      refine ⟨fun _ h => (by cases (h hpos).1), fun _ => ⟨e, ?_⟩⟩
      rw [getBlockAtDaa, hcheck]
      rfl
    | none =>
      cases hfor : (anchorOf recentBlocks deadlineDaa).bind fun anchor =>
          forward (c.rpc getBlocks) deadlineDaa MAX_PAGES anchor.hash with
      | some best =>
        obtain ⟨a, ha, hforward⟩ := Option.bind_eq_some_iff.mp hfor
        obtain ⟨b, hb, hcross⟩ := crosses_of_forward hforward
        refine ⟨fun _ h => (h hpos).2.1 a ha b hb hcross, fun _ => ⟨best, ?_⟩⟩
        rw [getBlockAtDaa, hcheck, ok_bind, hfor]
      | none =>
        have hnone : ∀ a ∈ anchorOf recentBlocks deadlineDaa,
            ∀ b ∈ (pages (c.rpc getBlocks) MAX_PAGES a.hash).flatten,
              ¬ Crosses deadlineDaa b := by
          intro a ha b hb hcross
          obtain ⟨e, he⟩ := forward_of_crosses hb hcross
          rw [Option.bind_eq_none_iff.mp hfor a ha] at he
          cases he
        have hwalk : (∃ e, getBlockAtDaa (c.rpc getBlocks) none MAX_WALK recentBlocks deadlineDaa =
            .ok e) ↔ ∃ e, backward (c.rpc getBlocks) deadlineDaa MAX_WALK c.tip.hash none =
              .ok e := by
          rw [getBlockAtDaa, hcheck, ok_bind, hfor]
          rfl
        rw [hwalk, walk_iff hpos]
        exact ⟨fun h hout => (hout hpos).2.2 h, fun h => by_contra fun hnot =>
          h fun _ => ⟨rfl, hnone, hnot⟩⟩
  · refine ⟨?_, fun h => absurd (fun hp => absurd hp hpos) h⟩
    rintro ⟨e, he⟩
    unfold getBlockAtDaa at he
    rw [bind_eq_ok] at he
    obtain ⟨u, hcheck, -⟩ := he
    exact absurd (check_eq_ok.mp hcheck) hpos

theorem unreachablePreGate_iff {PREGATE_MAX_WALK : ℕ} {m : GatedMarket} {currentDaa : ℚ}
    {floor : Option ℚ} (h : m.deadline_daa = some deadlineDaa) :
    unreachablePreGate PREGATE_MAX_WALK m currentDaa floor = true ↔
      ((∃ f ∈ floor, deadlineDaa < f) ∨ m.walk_exhausted_confirmed = true) ∧
        (PREGATE_MAX_WALK : ℚ) < currentDaa - deadlineDaa ∧ m.close_txid = false := by
  unfold unreachablePreGate
  rw [h]
  cases floor with
  | none => simp [and_assoc]
  | some f => simp [and_assoc]

/-- **The verdicts are right exactly if the end block is out of reach** wherever the scores are
further apart than each guard has it. -/
theorem verdicts_iff (c : Chain H) (getBlocks : H → Option (Page H)) (index : Option (EndBlock H))
    (MAX_WALK PREGATE_MAX_WALK : ℕ) (recentBlocks : List (RecentBlock H)) (gated : GatedMarket)
    (floor : Option ℚ) (settled : SettlerMarket) (nowSec : ℚ) :
    Right c getBlocks index MAX_WALK PREGATE_MAX_WALK recentBlocks gated floor settled nowSec ↔
      (∀ d ∈ gated.deadline_daa,
        ((∃ f ∈ floor, d < f) ∨ gated.walk_exhausted_confirmed = true) →
        (PREGATE_MAX_WALK : ℚ) < c.tip.daaScore - d → gated.close_txid = false →
        OutOfReach c getBlocks index MAX_WALK recentBlocks d) ∧
      ((REFUND_THRESHOLD : ℚ) < c.tip.daaScore - deadlineDaaOf settled c.tip.daaScore nowSec →
        OutOfReach c getBlocks index MAX_WALK recentBlocks
          (deadlineDaaOf settled c.tip.daaScore nowSec)) := by
  have hout : ∀ d, OutOfReach c getBlocks index MAX_WALK recentBlocks d ↔
      ¬ Answers (c.rpc getBlocks) index MAX_WALK recentBlocks d := by
    intro d
    rw [answers_iff, not_not]
  constructor
  · intro h
    refine ⟨fun d hd hold hgap htx => ?_, fun hgap => ?_⟩
    · exact (hout d).mpr (h.skipped d hd ((unreachablePreGate_iff hd).mpr ⟨hold, hgap, htx⟩))
    · exact (hout _).mpr (h.refunded (decide_eq_true hgap))
  · rintro ⟨hskip, hrefund⟩
    refine ⟨fun d hd hgate => ?_, fun hgap => ?_⟩
    · obtain ⟨hold, hgap, htx⟩ := (unreachablePreGate_iff hd).mp hgate
      exact (hout d).mp (hskip d hd hold hgap htx)
    · exact (hout _).mp (hrefund (of_decide_eq_true hgap))

end

section Sample

/-- Three blocks, the last of which came long after the others. -/
private def sampleChain : Chain ℕ where
  tip := ⟨3, 400000, 30, true, some 2⟩
  below := [⟨2, 100, 20, true, some 1⟩, ⟨1, 50, 10, true, none⟩]
  linked := ⟨rfl, rfl, rfl⟩
  decreasing := by decide
  nodup := by decide

private def sampleGated : GatedMarket := ⟨some 100, false, false⟩

private def sampleSettled : SettlerMarket := ⟨some 100, 0⟩

/-- Skipped and refunded, and the relay finds the end block in three steps. -/
theorem given_up_in_reach :
    unreachablePreGate 250000 sampleGated sampleChain.tip.daaScore (some 200) = true ∧
      unrecoverable sampleChain.tip.daaScore
        (deadlineDaaOf sampleSettled sampleChain.tip.daaScore 0) = true ∧
      getBlockAtDaa (sampleChain.rpc fun _ => none) none 250000 [] 100 = .ok ⟨2, 100, 20⟩ ∧
      ¬ Right sampleChain (fun _ => none) none 250000 250000 [] sampleGated (some 200)
        sampleSettled 0 := by
  have hgate : unreachablePreGate 250000 sampleGated sampleChain.tip.daaScore (some 200) =
      true := by
    decide +kernel
  have hok : getBlockAtDaa (sampleChain.rpc fun _ => none) none 250000 [] 100 =
      .ok ⟨2, 100, 20⟩ := by
    decide +kernel
  refine ⟨hgate, by decide +kernel, hok, ?_⟩
  intro h
  exact h.skipped 100 rfl hgate ⟨_, hok⟩

end Sample

end KANet.Settle.Unreachable
