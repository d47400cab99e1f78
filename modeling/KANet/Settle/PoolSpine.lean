import KANet.Covenant.Checks
import KANet.Payout.Root
import KANet.Settle.Committee

/-!
# `PoolSpine_v07.sil`

The contract that holds the maker's stake of a pooled market.  `settle_aggregate` spends it: five
keys of the oracle pool are named, four of them have signed, the broker is paid, and each of the
five has its bond back.

Unlike the attestations of `PayoutShard` it never asks the five keys to be different, and the hash
of the market's metadata is a constructor argument that no entry reads.

* `mem_of_climb` — a key that climbs to the root of the pool is in the pool.
* `settle_aggregate_authorised_iff` — what a settlement guarantees, and when.
-/

namespace KANet.Settle.PoolSpine

open KANet.Lib KANet.Script KANet.Covenant KANet.Payout

structure Contract where
  makerPk : Bytes32
  brokerPk : Bytes32
  poolMerkleRoot : Bytes32
  deadline : Int
  minerFee : Int
  brokerFeePct : Int
  oracleFeePct : Int
  oracleBondAmount : Int
  makerStakeAmount : Int
  marketMetadataHash : Bytes32
  shard_id : Int
  shard_count : Int
  market_id : Bytes32
deriving DecidableEq

/-- What the spender of `settle_aggregate` supplies. -/
structure SettleWitness where
  members : List.Vector Member 5
  committeePkHash : Bytes32
  winner : Int
  sidesMerkleRoot : Bytes32
  globalYesTotal_sompi : Int
  globalNoTotal_sompi : Int
  global_commit_id : Bytes32

/-! ### The entry -/

/-- An output with the lock of a key, and a floor for its value. -/
def requireLock (tx : Tx) (i : Int) (pk : Bytes32) (floor : Int) : Option Unit := do
  let out ← tx.output i
  require (out.scriptPubKey = ScriptPubKeyP2PK pk)
  require (floor ≤ out.value)

/-- The outputs of the committee, from the `i`-th on. -/
def requireBonds (tx : Tx) (bond : Int) : Int → List Member → Option Unit
  | _, [] => some ()
  | i, c :: cs => do
    requireLock tx i c.pk bond
    requireBonds tx bond (i + 1) cs

/-- The guards on the amounts that are baked in. -/
def requireAmounts (c : Contract) : Option Unit := do
  require (0 < c.oracleBondAmount)
  require (c.oracleBondAmount < 1000000000000000)
  require (0 < c.makerStakeAmount)
  require (c.makerStakeAmount < 1000000000000000)
  require (0 < c.minerFee)
  require (c.minerFee < 100000000)
  require (100000000 ≤ c.makerStakeAmount)

/-- The floor of the pot, and that of the losing side. -/
def requirePot (ar : Arith) (c : Contract) (wit : SettleWitness) : Option Unit := do
  require (0 ≤ wit.globalYesTotal_sompi)
  require (0 ≤ wit.globalNoTotal_sompi)
  let pot ← ar (wit.globalYesTotal_sompi + wit.globalNoTotal_sompi)
  require (10000000000 ≤ pot)
  require (wit.globalYesTotal_sompi < 1000000000000000000)
  require (wit.globalNoTotal_sompi < 1000000000000000000)
  let oneMinusWinner ← ar (1 - wit.winner)
  let yes ← ar (wit.globalYesTotal_sompi * wit.winner)
  let no ← ar (wit.globalNoTotal_sompi * oneMinusWinner)
  let losingPool ← ar (yes + no)
  let bonds ← ar (5 * c.oracleBondAmount)
  require (bonds ≤ losingPool)

/-- The totals, the market and the number of its shards, as they are hashed. -/
def commitPreimage (c : Contract) (wit : SettleWitness) : Option Bytes := do
  let yes ← num2bin wit.globalYesTotal_sompi 8
  let no ← num2bin wit.globalNoTotal_sompi 8
  let count ← num2bin c.shard_count 4
  some (yes ++ no ++ c.market_id.toList ++ count)

def settle_aggregate (e : Engine) (ar : Arith) (c : Contract) (tx : Tx) (wit : SettleWitness) :
    Option Unit := do
  let cs := wit.members.toList
  require (4 ≤ cs.countP fun m => e.checkSig tx m.sig m.pk)
  require (wit.winner = 0 ∨ wit.winner = 1)
  require (e.blake2b (cs.flatMap fun m => m.pk.toList) = wit.committeePkHash)
  require (∀ m ∈ cs, 0 ≤ m.idx ∧ m.idx < 256 ∧ m.climb e = c.poolMerkleRoot)
  require (1 ≤ tx.inputs.length)
  require (6 ≤ tx.outputs.length)
  requireLock tx 0 c.brokerPk 1000
  requireBonds tx c.oracleBondAmount 1 cs
  requireAmounts c
  requirePot ar c wit
  require (0 ≤ c.shard_id)
  require (1 ≤ c.shard_count)
  require (c.shard_id < c.shard_count)
  let preimage ← commitPreimage c wit
  require (e.blake2b preimage = wit.global_commit_id)

/-! ### What it guarantees -/

/-- Output `i` pays a key no less than the floor. -/
def PaysKey (tx : Tx) (i : Int) (pk : Bytes32) (floor : Int) : Prop :=
  ∃ out, tx.output i = some out ∧ out.scriptPubKey = ScriptPubKeyP2PK pk ∧ floor ≤ out.value

/-- Four signatures of the witness are good, and are those of different members of the pool. -/
def FourSigned (e : Engine) (pks : List Bytes32) (tx : Tx) (wit : SettleWitness) : Prop :=
  ∃ signers : List Member, signers.Sublist wit.members.toList ∧ 4 ≤ signers.length ∧
    (signers.map Member.pk).Nodup ∧ ∀ m ∈ signers, m.pk ∈ pks ∧ e.checkSig tx m.sig m.pk = true

/-- Outputs 1 to 5 pay five different members of the pool their bond. -/
def FivePaid (pks : List Bytes32) (bond : Int) (tx : Tx) : Prop :=
  ∃ payees : List Bytes32, payees.length = 5 ∧ payees.Nodup ∧ (∀ pk ∈ payees, pk ∈ pks) ∧
    ∀ (i : Nat) (pk : Bytes32), payees[i]? = some pk → PaysKey tx ((1 + i : Nat) : Int) pk bond

/-- Two contracts are of one market: its id, its shard and its metadata. -/
def Contract.SameMarket (c c' : Contract) : Prop :=
  c'.market_id = c.market_id ∧ c'.shard_id = c.shard_id ∧ c'.shard_count = c.shard_count ∧
    c'.marketMetadataHash = c.marketMetadataHash

/-- The address of a contract, given what the compiler makes of it. -/
def spineLock (e : Engine) (redeem : Contract → Bytes) (c : Contract) : Bytes :=
  ScriptPubKeyP2SH (e.blake2b (redeem c))

/-- No input that is signed for, and that is of the one contract, is also of the other, unless both
are of one market. -/
def BindsMarket (e : Engine) (redeem : Contract → Bytes) (tx : Tx) (c c' : Contract) : Prop :=
  ∀ inp ∈ tx.inputs, inp.scriptPubKey = spineLock e redeem c →
    inp.scriptPubKey = spineLock e redeem c' → c.SameMarket c'

/-- The arguments that some entry reads: all but the percentages and the metadata.  Only these are
compiled in. -/
def Contract.referenced (c : Contract) : Contract :=
  { c with brokerFeePct := 0, oracleFeePct := 0, marketMetadataHash := ZERO32 }

/-- A settlement is authorised, and for this market alone. -/
structure Authorised (e : Engine) (redeem : Contract → Bytes) (pks : List Bytes32)
    (c c' : Contract) (tx : Tx) (wit : SettleWitness) : Prop where
  signed : FourSigned e pks tx wit
  committee : FivePaid pks c.oracleBondAmount tx
  broker : PaysKey tx 0 c.brokerPk 1000
  market : BindsMarket e redeem tx c c'

/-! ### The pool -/

/-- What the script hashes on the path of a member. -/
def memberMessages (e : Engine) (m : Member) : List Bytes :=
  m.pk.toList :: (Merkle.steps (hashNode e) m.idx.toNat (hashPoolLeaf e m.pk) m.s.toList).map
    nodeMessage

/-- **A key that climbs to the root is in the pool.** -/
theorem mem_of_climb {e : Engine} {pks : List Bytes32} {tree : PoolTree} {msgs : List Bytes}
    (htree : buildPoolMerkleTree e pks = some tree) {m : Member}
    (hcf : CollisionFree e msgs) (hpool : poolMessages e tree ⊆ msgs)
    (hm : memberMessages e m ⊆ msgs) (h0 : 0 ≤ m.idx) (h1 : m.idx < 256)
    (hclimb : m.climb e = tree.root e) : m.pk ∈ pks := by
  obtain ⟨hperm, -, hlen, hleaves⟩ := pool_spec htree
  have hidx : m.idx = (m.idx.toNat : Int) := by omega
  have hk : m.idx.toNat < 2 ^ POOL_DEPTH := by
    show m.idx.toNat < 256
    omega
  have hle : (tree.sortedPks.map (hashPoolLeaf e)).length ≤ 2 ^ POOL_DEPTH := by
    rw [List.length_map]
    exact hlen
  rw [Member.climb_eq e hidx, PoolTree.root, hleaves] at hclimb
  have hleaf := Merkle.eq_of_climb_eq_root (injOn_hashNode hcf.injOn)
    (fun p hp => hpool (List.mem_append_right _ (List.mem_map_of_mem (Merkle.joins_pad hle hp))))
    (fun p hp => hm (List.mem_cons_of_mem _ (List.mem_map_of_mem hp)))
    (Merkle.pad_length hle) hk m.s.toList_length hclimb
  have hmem := leaf_mem htree hk
  rw [hleaves, ← hleaf] at hmem
  obtain ⟨pk, hpk, heq⟩ := List.mem_map.mp hmem
  have hbytes := hcf _ (hpool (List.mem_append_left _ (List.mem_map_of_mem hpk))) _
    (hm List.mem_cons_self) heq
  rw [← List.Vector.eq _ _ hbytes]
  exact hperm.mem_iff.mp hpk

/-! ### What the entry accepts -/

section Entry

variable {e : Engine} {ar : Arith} {c c' : Contract} {tx : Tx} {wit : SettleWitness}
  {pks : List Bytes32}

theorem requireLock_eq_some {i : Int} {pk : Bytes32} {floor : Int} {u : Unit} :
    requireLock tx i pk floor = some u ↔ PaysKey tx i pk floor := by
  simp [requireLock, PaysKey, Option.bind_eq_some_iff]

theorem requireBonds_eq_some {bond : Int} {cs : List Member} {i : Nat} {u : Unit} :
    requireBonds tx bond i cs = some u ↔
      ∀ (j : Nat) (m : Member), cs[j]? = some m → PaysKey tx ((i + j : Nat) : Int) m.pk bond := by
  induction cs generalizing i with
  | nil => simp [requireBonds]
  | cons m cs ih =>
    have hnext : (i : Int) + 1 = ((i + 1 : Nat) : Int) := by push_cast; ring
    simp only [requireBonds, hnext, Option.bind_eq_bind, Option.bind_eq_some_iff,
      requireLock_eq_some, ih, exists_const]
    refine ⟨?_, ?_⟩
    · intro h j m' hm'
      cases j with
      | zero =>
        obtain rfl := Option.some.inj hm'
        exact h.1
      | succ j =>
        have heq : i + (j + 1) = i + 1 + j := by omega
        rw [heq]
        exact h.2 j m' hm'
    · intro h
      refine ⟨h 0 m rfl, ?_⟩
      intro j m' hm'
      have heq : i + 1 + j = i + (j + 1) := by omega
      rw [heq]
      exact h (j + 1) m' hm'

/-- The checks of a settlement that its guarantees rest on. -/
structure Accepted (e : Engine) (c : Contract) (tx : Tx) (wit : SettleWitness) : Prop where
  signed : 4 ≤ wit.members.toList.countP fun m => e.checkSig tx m.sig m.pk
  members : ∀ m ∈ wit.members.toList, 0 ≤ m.idx ∧ m.idx < 256 ∧ m.climb e = c.poolMerkleRoot
  broker : PaysKey tx 0 c.brokerPk 1000
  bonds : ∀ (j : Nat) (m : Member), wit.members.toList[j]? = some m →
    PaysKey tx ((1 + j : Nat) : Int) m.pk c.oracleBondAmount

theorem Accepted.of_settle (h : settle_aggregate e ar c tx wit = some ()) :
    Accepted e c tx wit := by
  simp only [settle_aggregate, require_bind_eq_some] at h
  obtain ⟨hsigned, -, -, hmembers, -, -, h⟩ := h
  simp only [Option.bind_eq_bind, Option.bind_eq_some_iff] at h
  obtain ⟨_, hbroker, _, hbonds, -⟩ := h
  exact ⟨hsigned, hmembers, requireLock_eq_some.mp hbroker,
    (requireBonds_eq_some (i := 1)).mp hbonds⟩

/-- Where the five keys differ, the four that signed do. -/
theorem Accepted.fourSigned (h : Accepted e c tx wit)
    (hpool : ∀ m ∈ wit.members.toList, m.pk ∈ pks)
    (hnodup : (wit.members.toList.map Member.pk).Nodup) : FourSigned e pks tx wit := by
  refine ⟨wit.members.toList.filter fun m => e.checkSig tx m.sig m.pk, List.filter_sublist, ?_,
    (List.filter_sublist.map _).nodup hnodup, ?_⟩
  · rw [← List.countP_eq_length_filter]
    exact h.signed
  · intro m hm
    obtain ⟨hmem, hsig⟩ := List.mem_filter.mp hm
    exact ⟨hpool m hmem, hsig⟩

theorem Accepted.fivePaid (h : Accepted e c tx wit)
    (hpool : ∀ m ∈ wit.members.toList, m.pk ∈ pks)
    (hnodup : (wit.members.toList.map Member.pk).Nodup) :
    FivePaid pks c.oracleBondAmount tx := by
  refine ⟨wit.members.toList.map Member.pk, by simp, hnodup, ?_, ?_⟩
  · intro pk hpk
    obtain ⟨m, hm, rfl⟩ := List.mem_map.mp hpk
    exact hpool m hm
  · intro i pk hpk
    rw [List.getElem?_map, Option.map_eq_some_iff] at hpk
    obtain ⟨m, hm, rfl⟩ := hpk
    exact h.bonds i m hm

/-- The outputs of the committee are those of the five keys, so if they differ the keys do. -/
theorem Accepted.nodup (h : Accepted e c tx wit) (hpaid : FivePaid pks c.oracleBondAmount tx) :
    (wit.members.toList.map Member.pk).Nodup := by
  obtain ⟨payees, hlen, hnodup, -, hpays⟩ := hpaid
  have heq : wit.members.toList.map Member.pk = payees := by
    refine List.ext_getElem (by simp [hlen]) ?_
    intro i hi hi'
    rw [List.length_map] at hi
    obtain ⟨out, hout, hlock, -⟩ := hpays i _ (List.getElem?_eq_getElem hi')
    obtain ⟨out', hout', hlock', -⟩ := h.bonds i _ (List.getElem?_eq_getElem hi)
    rw [hout] at hout'
    obtain rfl := Option.some.inj hout'
    rw [List.getElem_map]
    exact ScriptPubKeyP2PK_inj (hlock'.symm.trans hlock)
  rw [heq]
  exact hnodup

/-! ### The market -/

/-- Contracts with the same arguments compiled in are of one market when their metadata agree. -/
theorem sameMarket_iff (h : c.referenced = c'.referenced) :
    c.SameMarket c' ↔ c'.marketMetadataHash = c.marketMetadataHash := by
  simp only [Contract.referenced, Contract.mk.injEq] at h
  obtain ⟨-, -, -, -, -, -, -, -, -, -, hid, hcount, hmarket⟩ := h
  refine ⟨fun hs => hs.2.2.2, ?_⟩
  intro hmeta
  exact ⟨hmarket.symm, hid.symm, hcount.symm, hmeta⟩

theorem bindsMarket_iff {redeem : Contract → Bytes}
    (hbake : redeem c = redeem c' ↔ c.referenced = c'.referenced)
    (hcf : CollisionFree e [redeem c, redeem c'])
    (hspend : ∃ inp ∈ tx.inputs, inp.scriptPubKey = spineLock e redeem c) :
    BindsMarket e redeem tx c c' ↔
      (c.referenced = c'.referenced → c'.marketMetadataHash = c.marketMetadataHash) := by
  refine ⟨?_, ?_⟩
  · intro h href
    obtain ⟨inp, hinp, hlock⟩ := hspend
    have hsame : spineLock e redeem c = spineLock e redeem c' := by
      rw [spineLock, spineLock, hbake.mpr href]
    exact (sameMarket_iff href).mp (h inp hinp hlock (hlock.trans hsame))
  · intro h inp _ hlock hlock'
    have hhash := ScriptPubKeyP2SH_inj (hlock.symm.trans hlock')
    have href := hbake.mp (hcf _ List.mem_cons_self _ (by simp) hhash)
    exact (sameMarket_iff href).mpr (h href)

/-- **What a settlement guarantees.**  Every transaction that the entry accepts pays the broker.  It
is signed by four members of the pool and returns five bonds, and cannot be one of another market,
exactly when its five keys are different and the other market does not differ in its metadata
alone. -/
theorem settle_aggregate_authorised_iff {tree : PoolTree} {redeem : Contract → Bytes}
    (htree : buildPoolMerkleTree e pks = some tree) (hroot : c.poolMerkleRoot = tree.root e)
    (hcf : CollisionFree e (poolMessages e tree ++ wit.members.toList.flatMap (memberMessages e)))
    (hbake : redeem c = redeem c' ↔ c.referenced = c'.referenced)
    (hredeem : CollisionFree e [redeem c, redeem c'])
    (hspend : ∃ inp ∈ tx.inputs, inp.scriptPubKey = spineLock e redeem c)
    (h : settle_aggregate e i64 c tx wit = some ()) :
    PaysKey tx 0 c.brokerPk 1000 ∧ (Authorised e redeem pks c c' tx wit ↔
      (wit.members.toList.map Member.pk).Nodup ∧
        (c.referenced = c'.referenced → c'.marketMetadataHash = c.marketMetadataHash)) := by
  have ha := Accepted.of_settle h
  have hpool : ∀ m ∈ wit.members.toList, m.pk ∈ pks := by
    intro m hm
    obtain ⟨h0, h1, hclimb⟩ := ha.members m hm
    refine mem_of_climb htree hcf (List.subset_append_left _ _) ?_ h0 h1 (hclimb.trans hroot)
    intro b hb
    exact List.mem_append_right _ (List.mem_flatMap.mpr ⟨m, hm, hb⟩)
  refine ⟨ha.broker, ?_, ?_⟩
  · intro hauth
    exact ⟨ha.nodup hauth.committee, (bindsMarket_iff hbake hredeem hspend).mp hauth.market⟩
  · intro hcond
    exact ⟨ha.fourSigned hpool hcond.1, ha.fivePaid hpool hcond.1, ha.broker,
      (bindsMarket_iff hbake hredeem hspend).mpr hcond.2⟩

end Entry

/-! ### A pool of five, and the settlement of one of them -/

section Sample

private def spinePks : List Bytes32 := [samplePk 0, samplePk 1, samplePk 2, samplePk 3, samplePk 4]

private def spineLeaf (i : Nat) : Bytes32 := hashPoolLeaf sampleEngine (samplePk i)

private def spineTree : PoolTree where
  leaves := spinePks.map (hashPoolLeaf sampleEngine) ++ List.replicate 251 (spineLeaf 4)
  sortedPks := spinePks

private theorem spineTree_eq : buildPoolMerkleTree sampleEngine spinePks = some spineTree := by
  have hsorted : spinePks.mergeSort keyLe = spinePks := List.mergeSort_of_pairwise (by decide)
  unfold buildPoolMerkleTree
  rw [hsorted]
  rfl

private def node : Bytes32 → Bytes32 → Bytes32 := hashNode sampleEngine

/-- The subtrees that only fill up, level by level. -/
private def fill : Nat → Bytes32
  | 0 => spineLeaf 4
  | n + 1 => node (fill n) (fill n)

private def left : Bytes32 := node (spineLeaf 0) (spineLeaf 1)

private def right : Bytes32 := node (spineLeaf 2) (spineLeaf 3)

private def spineRoot : Bytes32 :=
  Merkle.prefixRoot (hashNode sampleEngine) POOL_DEPTH (spineLeaf 4)
    (spinePks.map (hashPoolLeaf sampleEngine))

private theorem spineRoot_eq : spineRoot = spineTree.root sampleEngine := by
  refine Merkle.prefixRoot_eq ?_
  rw [List.length_map]
  decide

/-- The siblings of a member, up to the level of all five. -/
private def siblings : Nat → Bytes32 × Bytes32 × Bytes32
  | 0 => (spineLeaf 1, right, fill 2)
  | 1 => (spineLeaf 0, right, fill 2)
  | 2 => (spineLeaf 3, left, fill 2)
  | 3 => (spineLeaf 2, left, fill 2)
  | _ => (fill 0, fill 1, node left right)

private def spineMember (i : Nat) : Member where
  sig := (samplePk i).toList
  pk := samplePk i
  idx := i
  s := ⟨[(siblings i).1, (siblings i).2.1, (siblings i).2.2, fill 3, fill 4, fill 5, fill 6,
    fill 7], rfl⟩

private theorem spineMember_climb :
    ∀ i ∈ List.range 5, (spineMember i).climb sampleEngine = spineRoot := by
  decide +kernel

private def spineContract (market_id : Nat) : Contract where
  makerPk := samplePk 10
  brokerPk := samplePk 11
  poolMerkleRoot := spineRoot
  deadline := 1000
  minerFee := 50000
  brokerFeePct := 1
  oracleFeePct := 1
  oracleBondAmount := 100000000
  makerStakeAmount := 100000000
  marketMetadataHash := samplePk 12
  shard_id := 0
  shard_count := 1
  market_id := samplePk market_id

private def spineCommit : Bytes32 :=
  sampleHash (signMagnitude 8 9000000000 ++ signMagnitude 8 1000000000 ++ (samplePk 20).toList ++
    signMagnitude 4 1)

/-- The settlement in which the five slots are given to these members. -/
private def spineWitness (ks : List.Vector Nat 5) : SettleWitness where
  members := ks.map spineMember
  committeePkHash := sampleHash ((ks.map spineMember).toList.flatMap fun m => m.pk.toList)
  winner := 0
  sidesMerkleRoot := ZERO32
  globalYesTotal_sompi := 9000000000
  globalNoTotal_sompi := 1000000000
  global_commit_id := spineCommit

/-- What the compiler bakes in, one argument after another. -/
private def spineRedeem (c : Contract) : Bytes :=
  (serializeState
    [.byte32 c.makerPk, .byte32 c.brokerPk, .byte32 c.poolMerkleRoot, .int c.deadline,
      .int c.minerFee, .int c.oracleBondAmount, .int c.makerStakeAmount, .int c.shard_id,
      .int c.shard_count, .byte32 c.market_id]).getD []

private def payTo (value : Nat) (pk : Bytes32) : TxOutput where
  value := value
  scriptPubKey := ScriptPubKeyP2PK pk
  covenantId := none

private def spineTx (payees : List Nat) : Tx where
  inputs := [⟨100000000, spineLock sampleEngine spineRedeem (spineContract 20), none⟩]
  outputs := payTo 1000 (samplePk 11) :: payees.map fun i => payTo 100000000 (samplePk i)
  lockTime := 0
  outputs_bounded := by
    intro o ho
    rcases List.mem_cons.mp ho with rfl | ho
    · decide
    · obtain ⟨i, -, rfl⟩ := List.mem_map.mp ho
      show (100000000 : Nat) < 2 ^ 63
      norm_num

private theorem spine_settles {ks : List.Vector Nat 5} (hks : ∀ i ∈ ks.toList, i ∈ List.range 5) :
    settle_aggregate sampleEngine i64 (spineContract 20) (spineTx ks.toList) (spineWitness ks) =
      some () := by
  have hmem : ∀ m ∈ (spineWitness ks).members.toList, ∃ i ∈ List.range 5, m = spineMember i := by
    intro m hm
    rw [spineWitness, List.Vector.toList_map] at hm
    obtain ⟨i, hi, rfl⟩ := List.mem_map.mp hm
    exact ⟨i, hks i hi, rfl⟩
  have hbonds : requireBonds (spineTx ks.toList) 100000000 1 (spineWitness ks).members.toList =
      some () := by
    refine (requireBonds_eq_some (i := 1)).mpr ?_
    intro j m hm
    rw [spineWitness, List.Vector.toList_map, List.getElem?_map, Option.map_eq_some_iff] at hm
    obtain ⟨k, hk, rfl⟩ := hm
    refine ⟨payTo 100000000 (samplePk k), ?_, rfl, le_refl (100000000 : Int)⟩
    rw [Tx.output, atIndex_natCast, Nat.add_comm]
    show (ks.toList.map fun i => payTo 100000000 (samplePk i))[j]? = _
    rw [List.getElem?_map, hk, Option.map_some]
  simp only [settle_aggregate, require_bind_eq_some]
  refine ⟨?_, Or.inl rfl, rfl, ?_, le_refl 1, ?_, ?_⟩
  · have hall : (spineWitness ks).members.toList.countP
        (fun m => sampleEngine.checkSig (spineTx ks.toList) m.sig m.pk) = 5 := by
      refine Eq.trans (List.countP_eq_length.mpr ?_) (spineWitness ks).members.toList_length
      intro m hm
      obtain ⟨i, -, rfl⟩ := hmem m hm
      exact decide_eq_true rfl
    omega
  · intro m hm
    obtain ⟨i, hi, rfl⟩ := hmem m hm
    have hlt := List.mem_range.mp hi
    refine ⟨Int.natCast_nonneg i, ?_, spineMember_climb i hi⟩
    show (i : Int) < 256
    omega
  · simp [spineTx]
  · have hbroker : requireLock (spineTx ks.toList) 0 (spineContract 20).brokerPk 1000 = some () :=
      requireLock_eq_some.mpr ⟨payTo 1000 (samplePk 11), rfl, rfl, le_refl (1000 : Int)⟩
    rw [hbroker]
    show (requireBonds (spineTx ks.toList) 100000000 1 _ >>= _) = _
    rw [hbonds]
    have hamounts : requireAmounts (spineContract 20) = some () := by decide
    have hpot : requirePot i64 (spineContract 20) (spineWitness ks) = some () := by
      show requirePot i64 (spineContract 20) (spineWitness ⟨[0, 0, 0, 0, 0], rfl⟩) = some ()
      decide
    have hpreimage : commitPreimage (spineContract 20) (spineWitness ks) =
        some (signMagnitude 8 9000000000 ++ signMagnitude 8 1000000000 ++
          (spineContract 20).market_id.toList ++ signMagnitude 4 1) := rfl
    have hcommit : sampleEngine.blake2b (signMagnitude 8 9000000000 ++
        signMagnitude 8 1000000000 ++ (spineContract 20).market_id.toList ++ signMagnitude 4 1) =
          (spineWitness ks).global_commit_id := rfl
    rw [hamounts, hpot, hpreimage]
    simp only [Option.bind_eq_bind, Option.bind_some, require, hcommit, if_true]
    decide

private def oneForAll : List.Vector Nat 5 := ⟨[0, 0, 0, 0, 0], rfl⟩

private def eachOne : List.Vector Nat 5 := ⟨[0, 1, 2, 3, 4], rfl⟩

private theorem spine_collisionFree {ks : List.Vector Nat 5} (h : ks = oneForAll ∨ ks = eachOne) :
    CollisionFree sampleEngine (poolMessages sampleEngine spineTree ++
      (spineWitness ks).members.toList.flatMap (memberMessages sampleEngine)) := by
  rcases h with rfl | rfl
  · decide +kernel
  · decide +kernel

/-- One member settles the market alone: its key stands in all five places.  And a settlement by
five members is as good for a market that differs in its metadata. -/
theorem settled_by_one :
    (∃ (tree : PoolTree) (c : Contract) (tx : Tx) (wit : SettleWitness),
      buildPoolMerkleTree sampleEngine spinePks = some tree ∧
        c.poolMerkleRoot = tree.root sampleEngine ∧
        CollisionFree sampleEngine (poolMessages sampleEngine tree ++
          wit.members.toList.flatMap (memberMessages sampleEngine)) ∧
        settle_aggregate sampleEngine i64 c tx wit = some () ∧
        (∀ m ∈ wit.members.toList, m.pk = samplePk 0) ∧
        ¬ FourSigned sampleEngine spinePks tx wit ∧ ¬ FivePaid spinePks c.oracleBondAmount tx) ∧
      ¬ BindsMarket sampleEngine spineRedeem (spineTx eachOne.toList) (spineContract 20)
        { spineContract 20 with marketMetadataHash := samplePk 13 } := by
  refine ⟨?_, ?_⟩
  · have hsettle := @spine_settles oneForAll (by decide)
    have hone : ∀ m ∈ (spineWitness oneForAll).members.toList, m.pk = samplePk 0 := by decide
    refine ⟨spineTree, spineContract 20, spineTx oneForAll.toList, spineWitness oneForAll,
      spineTree_eq, spineRoot_eq, spine_collisionFree (Or.inl rfl), hsettle, hone, ?_, ?_⟩
    · intro h
      obtain ⟨signers, hsub, hlen, hnodup, -⟩ := h
      have hkeys : signers.map Member.pk = List.replicate signers.length (samplePk 0) := by
        refine List.eq_replicate_iff.mpr ⟨List.length_map _, ?_⟩
        intro pk hpk
        obtain ⟨m, hm, rfl⟩ := List.mem_map.mp hpk
        exact hone m (hsub.subset hm)
      rw [hkeys, List.nodup_replicate] at hnodup
      omega
    · intro h
      exact absurd ((Accepted.of_settle hsettle).nodup h) (by decide)
  · intro h
    have hsame := h _ List.mem_cons_self rfl rfl
    exact absurd hsame.2.2.2 (by decide)

theorem settle_aggregate_authorised_iff_eachOne :
    PaysKey (spineTx eachOne.toList) 0 (spineContract 20).brokerPk 1000 ∧
      (Authorised sampleEngine spineRedeem spinePks (spineContract 20) (spineContract 21)
        (spineTx eachOne.toList) (spineWitness eachOne) ↔
      ((spineWitness eachOne).members.toList.map Member.pk).Nodup ∧
        ((spineContract 20).referenced = (spineContract 21).referenced →
          (spineContract 21).marketMetadataHash = (spineContract 20).marketMetadataHash)) := by
  have hmarket : (spineContract 20).market_id ≠ (spineContract 21).market_id := by decide
  have hbake : spineRedeem (spineContract 20) = spineRedeem (spineContract 21) ↔
      (spineContract 20).referenced = (spineContract 21).referenced := by
    refine iff_of_false (by decide +kernel) ?_
    intro h
    exact hmarket (congrArg (fun c => c.market_id) h)
  exact settle_aggregate_authorised_iff spineTree_eq spineRoot_eq
    (spine_collisionFree (Or.inr rfl)) hbake (by decide +kernel)
    ⟨_, List.mem_cons_self, rfl⟩ (spine_settles (by decide))

end Sample

end KANet.Settle.PoolSpine
