import KANet.Covenant.CloseZkRun
import KANet.Covenant.PayoutShard
import KANet.Payout.Root

/-!
# Proofs of payment

A leaf of the payout tree is claimed with its ten siblings.  `merkleProof` finds
them, and the `claim` entries of `PayoutShard` and `CloseZkV2` climb them.

* `climbProof_merkleProof` — the proof of a leaf climbs to the root.
* `eq_of_opens` — what climbs to the root at an index is the leaf there.  A leaf hashes
  40 bytes and a node 64, so a node is no leaf where nothing collides; and a pad is no
  leaf where nothing hashes to `ZERO32`.
* `claim_opens` — a claim that is accepted has climbed to the root.
-/

namespace KANet.Payout

open KANet.Lib KANet.Script KANet.Covenant

/-! ### Completeness -/

theorem climbProof_merkleProof {e : Engine} {ws : List Leaf} {root : Bytes32}
    (hroot : payoutRoot e ws = some root) {idx : Nat} {w : Leaf} (hw : ws[idx]? = some w) :
    ∃ leaf sibs, payoutLeaf e w.pk w.amount = some leaf ∧ merkleProof e ws idx = some sibs ∧
      climbProof e leaf idx sibs = root := by
  obtain ⟨hb, rfl⟩ := payoutRoot_eq_some.mp hroot
  have hleaf : payoutLeaf e w.pk w.amount = some (w.hash e) :=
    payoutLeaf_eq_some.mpr ⟨hb.payable w (List.mem_of_getElem? hw), rfl⟩
  obtain ⟨sibs, hsibs⟩ : ∃ sibs, merkleProof e ws idx = some sibs :=
    ⟨_, merkleProof_eq_some.mpr ⟨hb, rfl⟩⟩
  obtain ⟨hlen, hclimb⟩ := climb_merkleProof hsibs hw
  exact ⟨w.hash e, sibs, hleaf, hsibs, by rw [climbProof_eq hlen, hclimb]⟩

/-! ### Soundness -/

/-- The leaf that a spender claims. -/
def claimed (wit : PayWitness) : Leaf where
  pk := wit.bettorPk.toList
  amount := wit.payout

/-- What the script hashes when it checks a claim. -/
def claimMessages (e : Engine) (wit : PayWitness) : List Bytes :=
  (claimed wit).message :: (Merkle.steps (hashNode e) wit.merkle_index.toNat
    ((claimed wit).hash e) wit.s.toList).map nodeMessage

/-- The leaf of the script is the leaf of `pool-payout-root.mjs`. -/
theorem opens_iff {e : Engine} {wit : PayWitness} {root : Bytes32} :
    wit.Opens e root ↔ Fits 8 wit.payout ∧
      Merkle.climb (hashNode e) wit.merkle_index.toNat ((claimed wit).hash e) wit.s.toList =
        root := by
  unfold PayWitness.Opens Covenant.payoutLeaf
  simp only [Option.map_eq_some_iff, num2bin_eq_some]
  constructor
  · rintro ⟨_, ⟨_, ⟨hf, rfl⟩, rfl⟩, hclimb⟩
    exact ⟨hf, hclimb⟩
  · rintro ⟨hf, hclimb⟩
    exact ⟨_, ⟨_, ⟨hf, rfl⟩, rfl⟩, hclimb⟩

/-- **A claim opens the leaf at its index**, and no pad, no node and no other leaf. -/
theorem eq_of_opens {e : Engine} {ws : List Leaf} {wit : PayWitness} (hb : Buildable ws)
    (hidx : wit.merkle_index.toNat < 1024) (hpos : 1 ≤ wit.payout)
    (ho : wit.Opens e (rootOf e ws))
    (hcf : CollisionFree e (treeMessages e ws ++ claimMessages e wit))
    (hz : NoZeroDigest e (claimMessages e wit)) :
    ws[wit.merkle_index.toNat]? = some (claimed wit) := by
  obtain ⟨hfits, hclimb⟩ := opens_iff.mp ho
  have hle : (ws.map (Leaf.hash e)).length ≤ 2 ^ DEPTH := by
    rw [List.length_map]
    exact hb.length
  have hpay : (claimed wit).Payable := ⟨wit.bettorPk.toList_length, hpos, hfits⟩
  rw [rootOf, Merkle.prefixRoot_eq (d := ZERO32) hle] at hclimb
  have hleaf := Merkle.eq_of_climb_eq_root (injOn_hashNode hcf.injOn)
    (fun p hp => List.mem_append_left _ (List.mem_append_right _
      (List.mem_map_of_mem (Merkle.joins_pad hle hp))))
    (fun p hp => List.mem_append_right _ (List.mem_cons_of_mem _ (List.mem_map_of_mem hp)))
    (Merkle.pad_length hle) hidx wit.s.toList_length hclimb
  cases hw : ws[wit.merkle_index.toNat]? with
  | some w =>
    obtain ⟨hlt, -⟩ := List.getElem?_eq_some_iff.mp hw
    rw [Merkle.pad, List.getD_append _ _ _ _ (by rw [List.length_map]; exact hlt),
      List.getD_eq_getElem?_getD, List.getElem?_map, hw] at hleaf
    have hmem := List.mem_of_getElem? hw
    have hmsg := hcf _ (List.mem_append_right _ List.mem_cons_self) _
      (List.mem_append_left _ (List.mem_append_left _ (List.mem_map_of_mem hmem))) hleaf
    rw [Leaf.message_inj hpay (hb.payable w hmem) hmsg]
  | none =>
    -- a pad stands at the index
    rw [List.getElem?_eq_none_iff] at hw
    have hlt : wit.merkle_index.toNat - (ws.map (Leaf.hash e)).length <
        2 ^ DEPTH - (ws.map (Leaf.hash e)).length := by
      rw [List.length_map]
      exact Nat.sub_lt_sub_right hw hidx
    rw [Merkle.pad, List.getD_append_right _ _ _ _ (by rw [List.length_map]; exact hw),
      List.getD_replicate _ hlt] at hleaf
    exact absurd hleaf (hz _ List.mem_cons_self)

/-! ### The claims of the two covenants -/

/-- A payment has climbed to the root, whatever the words say. -/
theorem storePayout_opens {e : Engine} {ar : Arith} (har : Lawful ar) {root : Bytes32}
    {pool : Int} {w nw : Words} {tx : Tx} {wit : PayWitness}
    (h : storePayout e ar root pool w tx wit = some nw) :
    wit.merkle_index.toNat < 1024 ∧ 1 ≤ wit.payout ∧ wit.Opens e root := by
  unfold storePayout at h
  simp only [require_bind_eq_some] at h
  obtain ⟨h₀, h₁, h₂, -, h⟩ := h
  simp only [Option.bind_eq_bind, Option.bind_eq_some_iff, require_eq_some] at h
  obtain ⟨leaf, hleaf, cur, hcur, -, hroot, -⟩ := h
  have hidx : wit.merkle_index = (wit.merkle_index.toNat : Int) := by omega
  have hclimb := climbLoop_eq e har wit.merkle_index.toNat wit.s.toList 0 leaf (by simp)
  rw [← hidx, pow_zero, Nat.div_one] at hclimb
  refine ⟨by omega, h₂, leaf, hleaf, ?_⟩
  rw [← hroot]
  exact Option.some.inj (hclimb.symm.trans hcur)

theorem shard_claim_opens {e : Engine} {c : PayoutShard.Contract} {s s' : PayoutShard.State}
    {tx : Tx} {wit : PayWitness} (h : PayoutShard.claim e i64 c s tx wit = some s') :
    wit.merkle_index.toNat < 1024 ∧ 1 ≤ wit.payout ∧ wit.Opens e s.payoutRoot := by
  unfold PayoutShard.claim PayoutShard.payLeaf at h
  simp only [Option.bind_eq_bind, Option.bind_eq_some_iff] at h
  obtain ⟨-, -, nw, hpay, -⟩ := h
  exact storePayout_opens i64_lawful hpay

theorem zk_claim_opens {e : Engine} {c : CloseZkV2.Contract} {s : CloseZkV2.State}
    {next : Option CloseZkV2.State} {tx : Tx} {wit : PayWitness}
    (h : CloseZkV2.claim e i64 c s tx wit = some next) :
    wit.merkle_index.toNat < 1024 ∧ 1 ≤ wit.payout ∧ wit.Opens e s.payoutRootField := by
  unfold CloseZkV2.claim CloseZkV2.payLeaf at h
  simp only [Option.bind_eq_bind, Option.bind_eq_some_iff] at h
  obtain ⟨-, -, nw, hpay, -⟩ := h
  exact storePayout_opens i64_lawful hpay

/-- **Proofs of payment are complete and sound.** -/
theorem payout_proofs_exact {e : Engine} {ws : List Leaf} {root : Bytes32}
    (hroot : payoutRoot e ws = some root) :
    (∀ (idx : Nat) (w : Leaf), ws[idx]? = some w → ∃ leaf sibs,
      payoutLeaf e w.pk w.amount = some leaf ∧ merkleProof e ws idx = some sibs ∧
        climbProof e leaf idx sibs = root) ∧
    ∀ wit : PayWitness, CollisionFree e (treeMessages e ws ++ claimMessages e wit) →
      NoZeroDigest e (claimMessages e wit) →
      (∀ (c : PayoutShard.Contract) (s s' : PayoutShard.State) (tx : Tx), s.payoutRoot = root →
        PayoutShard.claim e i64 c s tx wit = some s' →
          ws[wit.merkle_index.toNat]? = some (claimed wit)) ∧
      (∀ (c : CloseZkV2.Contract) (s : CloseZkV2.State) (next : Option CloseZkV2.State) (tx : Tx),
        s.payoutRootField = root → CloseZkV2.claim e i64 c s tx wit = some next →
          ws[wit.merkle_index.toNat]? = some (claimed wit)) := by
  refine ⟨fun idx w hw => climbProof_merkleProof hroot hw, fun wit hcf hz => ⟨?_, ?_⟩⟩
  · intro c s s' tx hs h
    obtain ⟨hb, rfl⟩ := payoutRoot_eq_some.mp hroot
    obtain ⟨hidx, hpos, ho⟩ := shard_claim_opens h
    exact eq_of_opens hb hidx hpos (hs ▸ ho) hcf hz
  · intro c s next tx hs h
    obtain ⟨hb, rfl⟩ := payoutRoot_eq_some.mp hroot
    obtain ⟨hidx, hpos, ho⟩ := zk_claim_opens h
    exact eq_of_opens hb hidx hpos (hs ▸ ho) hcf hz

def paidLeaves : List Leaf :=
  [{ pk := (samplePk 0).toList, amount := 500 }, { pk := (samplePk 1).toList, amount := 300 }]

theorem buildable_paidLeaves : Buildable paidLeaves := by
  refine ⟨by decide, fun w hw => ?_⟩
  rcases List.mem_pair.mp hw with rfl | rfl
  · exact ⟨rfl, by decide, by decide⟩
  · exact ⟨rfl, by decide, by decide⟩

/-- The claim of the second leaf, with the siblings that `merkleProof` finds. -/
def paidWitness : PayWitness where
  selfOutIdx := 0
  payoutOutIdx := 0
  bettorPk := samplePk 1
  payout := 300
  merkle_index := 1
  s := ⟨Merkle.path (hashNode sampleEngine) ZERO32 DEPTH
    (Merkle.pad ZERO32 DEPTH (paidLeaves.map (Leaf.hash sampleEngine))) 1, Merkle.path_length _ _ _⟩

/-- The rest of the pool, which is the second leaf. -/
def paidState : CloseZkV2.State where
  attestedWinner := 1
  closed := 2
  payoutRootField := rootOf sampleEngine paidLeaves
  consolidated_pool := 300
  w := Words.zero

theorem claim_paidWitness :
    CloseZkV2.claim sampleEngine i64 CloseZkV2.sampleContract paidState
      (sampleTx [CloseZkV2.samplePayment 1 300] (by decide)) paidWitness = some none := by
  have hsibs : merkleProof sampleEngine paidLeaves 1 = some paidWitness.s.toList :=
    merkleProof_eq_some.mpr ⟨buildable_paidLeaves, rfl⟩
  have ho : paidWitness.Opens sampleEngine (rootOf sampleEngine paidLeaves) :=
    opens_iff.mpr ⟨by decide, (climb_merkleProof hsibs rfl).2⟩
  exact (CloseZkV2.payLeaf_eq_some i64_lawful wordsOk_zero).mpr ⟨1, ⟨rfl, rfl, by norm_num,
    by decide, by decide, ho, not_marked_zero 1, ⟨_, rfl, rfl, rfl⟩⟩, Or.inl ⟨rfl, rfl⟩⟩

theorem payout_proofs_exact_paidLeaves :
    (∃ leaf sibs, payoutLeaf sampleEngine (samplePk 1).toList 300 = some leaf ∧
      merkleProof sampleEngine paidLeaves 1 = some sibs ∧
      climbProof sampleEngine leaf 1 sibs = rootOf sampleEngine paidLeaves) ∧
    paidLeaves[1]? = some (claimed paidWitness) := by
  obtain ⟨hcomplete, hsound⟩ :=
    payout_proofs_exact (payoutRoot_of_buildable (e := sampleEngine) buildable_paidLeaves)
  refine ⟨hcomplete 1 _ rfl, ?_⟩
  exact (hsound paidWitness (by decide +kernel) (by decide +kernel)).2 _ _ _ _ rfl
    claim_paidWitness

end KANet.Payout
