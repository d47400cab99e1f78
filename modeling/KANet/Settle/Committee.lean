import KANet.Lib.Merkle
import KANet.Settle.RowOrder

/-!
# The committee

The five members that sign the close of a market are drawn from a pool of oracles, weighted by what
they have staked.  The draw is seeded with the block at the deadline, and leaves out the maker, the
broker and whoever has bet.  The settler draws them, and each member draws them again.

* `selectCommittee`, `reDeriveCommittee` — the draw, and how a member comes to it.
* `selectCommittee_congr` — the draw depends on whom it leaves out, not on how they are listed.
-/

namespace KANet.Settle

open KANet.Lib KANet.Script KANet.Payout KANet.Covenant

/-! ### The draw -/

def COMMITTEE_SIZE : Nat := 5

structure PoolMember where
  pk : Bytes32
  stake_sompi : Int
deriving DecidableEq

def keyLe (a b : Bytes32) : Bool := pkLe a.toList b.toList

def bigEndian (bs : Bytes) : Nat := bs.foldl (fun n b => n * 256 + b.toNat) 0

/-- The member that is hit, and those that remain. -/
def draw (hit : Int) : List PoolMember → Option (PoolMember × List PoolMember)
  | [] => none
  | m :: ms =>
    if hit < m.stake_sompi then some (m, ms)
    else (draw (hit - m.stake_sompi) ms).map fun r => (r.1, m :: r.2)

/-- The draws from the `i`-th on. -/
def drawAll (e : Engine) (seed : Bytes32) : Nat → Nat → List PoolMember → Option (List PoolMember)
  | _, 0, _ => some []
  | i, n + 1, remaining => do
    let randHash := e.blake2b (seed.toList ++ (leBytes 4 i).reverse)
    let totalStake := (remaining.map PoolMember.stake_sompi).sum
    let (drawn, remaining) ← draw (bigEndian randHash.toList % totalStake) remaining
    let rest ← drawAll e seed (i + 1) n remaining
    some (drawn :: rest)

def selectCommittee (e : Engine) (members : List PoolMember) (seed : Bytes32)
    (excludePks : List String) : Option (List PoolMember) := do
  let sorted := (members.filter fun m => hex m.pk.toList ∉ excludePks).mergeSort
    fun a b => keyLe a.pk b.pk
  require (COMMITTEE_SIZE ≤ sorted.length)
  require (∀ m ∈ sorted, 0 < m.stake_sompi)
  drawAll e seed 0 COMMITTEE_SIZE sorted

def deriveCommitteeSeed (e : Engine) (marketId : String) (endBlockHash poolMerkleRoot : Bytes) :
    Option Bytes32 := do
  require (marketId ≠ "")
  require (endBlockHash.length = 32)
  require (poolMerkleRoot.length = 32)
  some (e.blake2b (utf8 marketId ++ endBlockHash ++ poolMerkleRoot))

/-! ### The pool -/

def POOL_DEPTH : Nat := 8

def POOL_MAX_SIZE : Nat := 1 <<< POOL_DEPTH

def hashPoolLeaf (e : Engine) (pk : Bytes32) : Bytes32 := e.blake2b pk.toList

structure PoolTree where
  leaves : List Bytes32
  sortedPks : List Bytes32

/-- The leaves are filled up with the last one. -/
def buildPoolMerkleTree (e : Engine) (pks : List Bytes32) : Option PoolTree := do
  require (pks ≠ [])
  require (pks.length ≤ POOL_MAX_SIZE)
  let sortedPks := pks.mergeSort keyLe
  let leaves := sortedPks.map (hashPoolLeaf e)
  some
    { leaves := leaves ++
        List.replicate (POOL_MAX_SIZE - leaves.length) (leaves.getLast?.getD ZERO32)
      sortedPks }

def PoolTree.root (e : Engine) (tree : PoolTree) : Bytes32 :=
  Merkle.root (hashNode e) ZERO32 POOL_DEPTH tree.leaves

def getPoolMerkleProof (e : Engine) (tree : PoolTree) (leafIndex : Nat) : List Bytes32 :=
  Merkle.path (hashNode e) ZERO32 POOL_DEPTH tree.leaves leafIndex

/-! ### How a member comes to it -/

def PMR_COMMITTEE_CHECK_OFFSETS : List Nat := [1002, 1266, 1530, 1794, 2058]
def PMR_COMMITTEE_CHECK_OFFSETS_V2 : List Nat := [1126, 1390, 1654, 1918, 2182]

/-- The root in the redeem script, which has it in five places. -/
def extractOnChainPoolMerkleRoot (psRedeem : Bytes) (isV2 : Bool) : Option Bytes := do
  let offsets := if isV2 then PMR_COMMITTEE_CHECK_OFFSETS_V2 else PMR_COMMITTEE_CHECK_OFFSETS
  let reads ← offsets.mapM fun o =>
    if psRedeem.length < o + 32 ∨ psRedeem[o - 1]? ≠ some 0x20 then none
    else some (bufSlice psRedeem o (o + 32))
  require (∀ r ∈ reads, some r = reads.head?)
  reads.head?

/-- The row of `pool_snapshots`, frozen when the market was made. -/
structure PoolSnapshot where
  pool_merkle_root : Option Bytes
  members : List PoolMember
  maker_pk : Option String
  broker_pk : Option String
  deadline_daa : Option Int

structure CommitteeCtx where
  loadPoolSnapshot : PoolSnapshot
  onChainPoolMerkleRoot : Option Bytes
  zk_native : Bool
  deadlineDaa : Option Int
  fetchEndBlockHashCanonical : Int → Option Bytes
  loadBettors : List Row

/-- `[a, b].filter(Boolean).map(p => String(p).toLowerCase())` -/
def keyTexts (pks : List (Option String)) : List String :=
  (pks.filterMap (·.filter (· ≠ ""))).map String.toLower

/-- The maker, the broker, and who bet before the deadline. -/
def excludeOf (snap : PoolSnapshot) (bettors : List Row) (deadlineDaa : Int) : List String :=
  keyTexts [snap.maker_pk, snap.broker_pk] ++
    (bettors.filter fun b => b.side_lock_daa.any (· ≤ deadlineDaa)).map fun b => hex b.pk

def reDeriveCommittee (e : Engine) (marketId : String) (ctx : CommitteeCtx) (psRedeem : Bytes) :
    Option (List Bytes32) := do
  let snap := ctx.loadPoolSnapshot
  require (snap.members ≠ [])
  let onChainRoot ← ctx.onChainPoolMerkleRoot.orElse fun _ =>
    extractOnChainPoolMerkleRoot psRedeem ctx.zk_native
  require (∀ dbRoot ∈ snap.pool_merkle_root, dbRoot = onChainRoot)
  let built ← buildPoolMerkleTree e (snap.members.map PoolMember.pk)
  require ((built.root e).toList = onChainRoot)
  let deadlineDaa ← ctx.deadlineDaa.orElse fun _ => snap.deadline_daa
  let endBlockHash ← ctx.fetchEndBlockHashCanonical deadlineDaa
  let seed ← deriveCommitteeSeed e marketId endBlockHash onChainRoot
  require (0 < deadlineDaa)
  require (∀ b ∈ ctx.loadBettors, b.side_lock_daa ≠ none)
  let sel ← selectCommittee e snap.members seed (excludeOf snap ctx.loadBettors deadlineDaa)
  some (sel.map PoolMember.pk)

/-! ### The order of the keys -/

theorem pkLe_antisymm {a b : Bytes} (h : pkLe a b) (h' : pkLe b a) : a = b := by
  simp only [pkLe, Bool.not_eq_true', decide_eq_false_iff_not] at h h'
  exact List.le_antisymm h h'

theorem pkLe_trans (a b c : Bytes) (h : pkLe a b) (h' : pkLe b c) : pkLe a c := by
  simp only [pkLe, Bool.not_eq_true', decide_eq_false_iff_not] at h h' ⊢
  exact List.le_trans h h'

theorem pkLe_total (a b : Bytes) : pkLe a b || pkLe b a := by
  simp only [pkLe, Bool.or_eq_true, Bool.not_eq_true', decide_eq_false_iff_not]
  exact List.le_total a b

theorem mergeSort_pkLe_perm {pks pks' : List Bytes} (h : pks.Perm pks') :
    pks.mergeSort pkLe = pks'.mergeSort pkLe := by
  have hp := ((List.mergeSort_perm pks pkLe).trans h).trans (List.mergeSort_perm pks' pkLe).symm
  refine @List.Perm.eq_of_pairwise _ (fun a b => pkLe a b = true) _ _ ?_ ?_ ?_ hp
  · intro a b _ _
    exact pkLe_antisymm
  · exact List.pairwise_mergeSort pkLe_trans pkLe_total pks
  · exact List.pairwise_mergeSort pkLe_trans pkLe_total pks'

/-! ### What the draw depends on -/

theorem selectCommittee_congr {e : Engine} {members : List PoolMember} {seed : Bytes32}
    {excludePks excludePks' : List String}
    (h : ∀ m ∈ members, hex m.pk.toList ∈ excludePks ↔ hex m.pk.toList ∈ excludePks') :
    selectCommittee e members seed excludePks = selectCommittee e members seed excludePks' := by
  have hfilter : (members.filter fun m => hex m.pk.toList ∉ excludePks) =
      members.filter fun m => hex m.pk.toList ∉ excludePks' :=
    List.filter_congr fun m hm => decide_eq_decide.mpr (not_congr (h m hm))
  unfold selectCommittee
  rw [hfilter]

theorem length_hex (b : Bytes) : (hex b).toList.length = 2 * b.length := by
  rw [hex, String.toList_ofList]
  induction b with
  | nil => rfl
  | cons x b ih =>
    show (toHex b).length + 1 + 1 = _
    rw [ih, List.length_cons]
    ring

/-- A key is no word that is shorter. -/
theorem hex_ne_of_length {pk : Bytes32} {s : String} (h : s.toList.length ≠ 64) :
    hex pk.toList ≠ s := by
  intro heq
  rw [← heq, length_hex, List.Vector.toList_length] at h
  exact h rfl

theorem length_toLower (s : String) : s.toLower.toList.length = s.toList.length := by
  rw [toList_toLower, List.length_map]

theorem mem_keyTexts {pk : Bytes32} {pks : List (Option String)} :
    hex pk.toList ∈ keyTexts pks ↔ ∃ s, some s ∈ pks ∧ hex pk.toList = s.toLower := by
  rw [keyTexts, List.mem_map]
  refine ⟨?_, ?_⟩
  · intro h
    obtain ⟨s, hs, heq⟩ := h
    obtain ⟨o, ho, hos⟩ := List.mem_filterMap.mp hs
    obtain ⟨hsome, -⟩ := Option.filter_eq_some_iff.mp hos
    exact ⟨s, hsome ▸ ho, heq.symm⟩
  · intro h
    obtain ⟨s, hs, heq⟩ := h
    refine ⟨s, List.mem_filterMap.mpr ⟨some s, hs, ?_⟩, heq.symm⟩
    refine Option.filter_eq_some_iff.mpr ⟨rfl, ?_⟩
    refine decide_eq_true ?_
    intro hnil
    refine absurd heq (hex_ne_of_length ?_)
    rw [hnil, length_toLower]
    decide

/-! ### What the root of a pool binds -/

section Pool

variable {e : Engine} {pks : List Bytes32} {tree : PoolTree}

/-- The leaf that fills the tree up. -/
def lastLeaf (e : Engine) (tree : PoolTree) : Bytes32 :=
  ((tree.sortedPks.map (hashPoolLeaf e)).getLast?).getD ZERO32

/-- Everything that is hashed for the root of a pool. -/
def poolMessages (e : Engine) (tree : PoolTree) : List Bytes :=
  tree.sortedPks.map List.Vector.toList ++
    (Merkle.prefixJoins (hashNode e) POOL_DEPTH (lastLeaf e tree)
      (tree.sortedPks.map (hashPoolLeaf e))).map nodeMessage

theorem pool_spec (h : buildPoolMerkleTree e pks = some tree) :
    tree.sortedPks.Perm pks ∧ tree.sortedPks ≠ [] ∧ tree.sortedPks.length ≤ 2 ^ POOL_DEPTH ∧
      tree.leaves =
        Merkle.pad (lastLeaf e tree) POOL_DEPTH (tree.sortedPks.map (hashPoolLeaf e)) := by
  simp only [buildPoolMerkleTree, require_bind_eq_some] at h
  obtain ⟨hne, hlen, h⟩ := h
  obtain rfl := Option.some.inj h
  have hperm := List.mergeSort_perm pks keyLe
  refine ⟨hperm, ?_, ?_, rfl⟩
  · intro hnil
    exact hne (List.perm_nil.mp (hnil ▸ hperm.symm))
  · exact hperm.length_eq.trans_le hlen

theorem lastLeaf_mem (hne : tree.sortedPks ≠ []) :
    lastLeaf e tree ∈ tree.sortedPks.map (hashPoolLeaf e) := by
  have hmap : tree.sortedPks.map (hashPoolLeaf e) ≠ [] := by
    intro h
    exact hne (List.map_eq_nil_iff.mp h)
  rw [lastLeaf, List.getLast?_eq_some_getLast hmap, Option.getD_some]
  exact List.getLast_mem hmap

/-- Every place of the tree has the leaf of a member, also those that are filled up. -/
theorem leaf_mem (h : buildPoolMerkleTree e pks = some tree) {k : Nat} (hk : k < 2 ^ POOL_DEPTH) :
    tree.leaves.getD k ZERO32 ∈ tree.sortedPks.map (hashPoolLeaf e) := by
  obtain ⟨-, hne, hlen, hleaves⟩ := pool_spec h
  have hk' : k < tree.leaves.length := by
    rw [hleaves, Merkle.pad_length (by rw [List.length_map]; exact hlen)]
    exact hk
  have hall : ∀ leaf ∈ tree.leaves, leaf ∈ tree.sortedPks.map (hashPoolLeaf e) := by
    intro leaf hleaf
    rw [hleaves] at hleaf
    rcases List.mem_append.mp hleaf with hleaf | hleaf
    · exact hleaf
    · rw [(List.mem_replicate.mp hleaf).2]
      exact lastLeaf_mem hne
  rw [List.getD_eq_getElem _ _ hk']
  exact hall _ (List.getElem_mem hk')

end Pool

end KANet.Settle
