import KANet.Settle.CommitteeSampler

/-!
# The members that a root anchors

`pool-merkle-v06.mjs` reads the keys of a list, in either case and with or without `0x`, and anchors
them by a root; a proof takes a key to it.  A member of the committee that is handed a list builds
the root anew and compares.

* `leaf_of_climb` — whatever climbs to the root is a leaf, with siblings of any length.
* `anchors_of_level` — the root stands for the set of the keys, and the committee for the list if
  the entries of a key are alike.
-/

namespace KANet.Settle.PoolAnchor

open KANet.Lib KANet.Script KANet.Payout KANet.Covenant

/-! ### Keys and proofs -/

def clean (s : String) : String :=
  if s.toList.take 2 = ['0', 'x'] then String.ofList (s.toList.drop 2) else s

def pkToBytes (pkHex : String) : Option Bytes32 := readKey (clean pkHex)

/-- The tree of a list of keys. -/
def buildTree (e : Engine) (pkHexList : List String) : Option PoolTree := do
  let pks ← pkHexList.mapM pkToBytes
  buildPoolMerkleTree e pks

/-- What is hashed with a sibling. -/
def joinSide (idx : ℤ) (cur : Bytes32) (sib : Bytes) : Bytes :=
  if idx % 2 = 0 then cur.toList ++ sib else sib ++ cur.toList

def climb (e : Engine) : ℤ → Bytes32 → List Bytes → Bytes32
  | _, cur, [] => cur
  | idx, cur, sib :: siblings => climb e (idx / 2) (e.blake2b (joinSide idx cur sib)) siblings

/-- Everything that is hashed on the way. -/
def climbMessages (e : Engine) : ℤ → Bytes32 → List Bytes → List Bytes
  | _, _, [] => []
  | idx, cur, sib :: siblings =>
    joinSide idx cur sib ::
      climbMessages e (idx / 2) (e.blake2b (joinSide idx cur sib)) siblings

def verifyPoolMerkleProof (e : Engine) (leafPkHex : String) (leafIndex : ℤ) (siblings : List Bytes)
    (expectedRoot : Bytes32) : Option Bool := do
  require (siblings.length = POOL_DEPTH)
  let pk ← pkToBytes leafPkHex
  some (climb e leafIndex (hashPoolLeaf e pk) siblings = expectedRoot)

/-- Everything that is hashed for a proof. -/
def proofMessages (e : Engine) (pk : Bytes32) (leafIndex : ℤ) (siblings : List Bytes) :
    List Bytes :=
  pk.toList :: climbMessages e leafIndex (hashPoolLeaf e pk) siblings

/-! ### The committee of a list -/

def onChainRootOf (ctx : CommitteeCtx) (psRedeem : Bytes) : Option Bytes :=
  ctx.onChainPoolMerkleRoot.orElse fun _ => extractOnChainPoolMerkleRoot psRedeem ctx.zk_native

/-- The keys as they are listed; the market's snapshot has the rest. -/
def reDeriveCommittee (e : Engine) (marketId : String) (ctx : CommitteeCtx)
    (members : List ListedMember) (psRedeem : Bytes) : Option (List String) := do
  let snap := ctx.loadPoolSnapshot
  require (members ≠ [])
  let onChainRoot ← onChainRootOf ctx psRedeem
  require (∀ dbRoot ∈ snap.pool_merkle_root, dbRoot = onChainRoot)
  let built ← buildTree e (members.map ListedMember.pk_hex)
  require ((built.root e).toList = onChainRoot)
  let deadlineDaa ← ctx.deadlineDaa.orElse fun _ => snap.deadline_daa
  let endBlockHash ← ctx.fetchEndBlockHashCanonical deadlineDaa
  let seed ← deriveCommitteeSeed e marketId endBlockHash onChainRoot
  require (0 < deadlineDaa)
  require (∀ b ∈ ctx.loadBettors, b.side_lock_daa ≠ none)
  let sel ← (Sampler.selectCommittee e members seed
    (excludeOf snap ctx.loadBettors deadlineDaa)).toOption
  some sel.keys

/-! ### What is asked of the root -/

/-- The key is one of the list's. -/
def Listed (l : List ListedMember) (pk : Bytes32) : Prop :=
  ∃ m ∈ l, pkToBytes m.pk_hex = some pk

/-- **The root of a list anchors its members.** -/
structure Anchors (e : Engine) (l : List ListedMember) (tree : PoolTree) : Prop where
  perm : ∀ l' : List ListedMember, l'.Perm l → buildTree e (l'.map ListedMember.pk_hex) = some tree
  letters : ∀ l' : List ListedMember, (l'.map fun m => lowerCase (clean m.pk_hex)) =
      (l.map fun m => lowerCase (clean m.pk_hex)) →
    buildTree e (l'.map ListedMember.pk_hex) = some tree
  placed : ∀ m ∈ l, ∃ (i : ℕ) (pk : Bytes32),
    pkToBytes m.pk_hex = some pk ∧ tree.sortedPks[i]? = some pk
  complete : ∀ s pk, ∀ i : ℕ, pkToBytes s = some pk → tree.sortedPks[i]? = some pk →
    verifyPoolMerkleProof e s i ((getPoolMerkleProof e tree i).map List.Vector.toList)
      (tree.root e) = some true
  sound : ∀ s pk idx siblings, pkToBytes s = some pk →
    CollisionFree e (poolMessages e tree ++ proofMessages e pk idx siblings) →
    verifyPoolMerkleProof e s idx siblings (tree.root e) = some true → Listed l pk
  accepted : ∀ (l' : List ListedMember) marketId ctx psRedeem committee,
    (∀ tree', buildTree e (l'.map ListedMember.pk_hex) = some tree' →
      CollisionFree e (poolMessages e tree ++ poolMessages e tree')) →
    onChainRootOf ctx psRedeem = some (tree.root e).toList →
    reDeriveCommittee e marketId ctx l' psRedeem = some committee →
    ∀ pk, Listed l' pk ↔ Listed l pk
  ordered : ∀ l' : List ListedMember, l'.Perm l → ∀ marketId ctx psRedeem,
    reDeriveCommittee e marketId ctx l' psRedeem = reDeriveCommittee e marketId ctx l psRedeem

section

variable {e : Engine} {l l' : List ListedMember} {tree : PoolTree}

theorem mapM_perm {α β : Type} {f : α → Option β} {as bs : List α} (h : as.Perm bs) :
    ∀ ys, as.mapM f = some ys → ∃ zs, bs.mapM f = some zs ∧ ys.Perm zs := by
  induction h with
  | nil =>
    intro ys hys
    exact ⟨ys, hys, .refl ys⟩
  | cons a _ ih =>
    intro ys hys
    simp only [List.mapM_cons, Option.bind_eq_bind, Option.bind_eq_some_iff, Option.pure_def,
      Option.some.injEq] at hys
    obtain ⟨y, hy, ys, hys, rfl⟩ := hys
    obtain ⟨zs, hzs, hp⟩ := ih ys hys
    exact ⟨y :: zs, by simp [hy, hzs], hp.cons y⟩
  | swap a b as =>
    intro ys hys
    simp only [List.mapM_cons, Option.bind_eq_bind, Option.bind_eq_some_iff, Option.pure_def,
      Option.some.injEq] at hys
    obtain ⟨y, hy, _, ⟨z, hz, ys, hys, rfl⟩, rfl⟩ := hys
    exact ⟨z :: y :: ys, by simp [hy, hz, hys], .swap z y ys⟩
  | trans _ _ ih ih' =>
    intro ys hys
    obtain ⟨zs, hzs, hp⟩ := ih ys hys
    obtain ⟨ws, hws, hp'⟩ := ih' zs hzs
    exact ⟨ws, hws, hp.trans hp'⟩

theorem buildTree_eq_some {keys : List String} : buildTree e keys = some tree ↔
    ∃ pks, keys.mapM pkToBytes = some pks ∧ buildPoolMerkleTree e pks = some tree := by
  unfold buildTree
  rw [Option.bind_eq_bind, Option.bind_eq_some_iff]

theorem buildTree_perm {keys keys' : List String} (hp : keys'.Perm keys)
    (h : buildTree e keys = some tree) : buildTree e keys' = some tree := by
  obtain ⟨pks, hpks, htree⟩ := buildTree_eq_some.mp h
  obtain ⟨pks', hpks', hp'⟩ := mapM_perm hp.symm pks hpks
  refine buildTree_eq_some.mpr ⟨pks', hpks', ?_⟩
  rw [buildPoolMerkleTree_perm hp'.symm, htree]

/-- The order of a list decides neither whether it has a tree nor which. -/
theorem buildTree_eq_perm {keys keys' : List String} (hp : keys'.Perm keys) :
    buildTree e keys' = buildTree e keys := by
  cases h : buildTree e keys with
  | some tree => exact buildTree_perm hp h
  | none =>
    cases h' : buildTree e keys' with
    | none => rfl
    | some tree =>
      rw [buildTree_perm hp.symm h'] at h
      cases h

theorem hexDigit_ne_x : ∀ n < 16, hexDigits.getD n '0' ≠ 'x' := by
  decide

/-- The digits of a key have no `0x` before them. -/
theorem clean_hex (bs : Bytes) : clean (hex bs) = hex bs := by
  unfold clean
  refine if_neg ?_
  rw [hex, String.toList_ofList]
  cases bs with
  | nil => decide
  | cons b bs =>
    intro h
    have hcons : (toHex (b :: bs)).take 2 =
        [hexDigits.getD (b.toNat / 16) '0', hexDigits.getD (b.toNat % 16) '0'] := rfl
    rw [hcons, List.cons.injEq, List.cons.injEq] at h
    exact hexDigit_ne_x _ (by omega) h.2.1

theorem pkToBytes_hex (pk : Bytes32) : pkToBytes (hex pk.toList) = some pk := by
  unfold pkToBytes
  rw [clean_hex, readKey_hex]

theorem pkToBytes_lowerCase (s : String) : pkToBytes s = readKey (lowerCase (clean s)) := by
  unfold pkToBytes
  rw [readKey_lowerCase]

theorem mapM_pkToBytes (l : List ListedMember) : (l.map ListedMember.pk_hex).mapM pkToBytes =
    (l.map fun m => lowerCase (clean m.pk_hex)).mapM readKey := by
  induction l with
  | nil => simp
  | cons m l ih =>
    rw [List.map_cons, List.map_cons, List.mapM_cons, List.mapM_cons, ih, pkToBytes_lowerCase]

/-- The keys at the leaves are those of the list. -/
theorem mem_sortedPks (h : buildTree e (l.map ListedMember.pk_hex) = some tree) {pk : Bytes32} :
    pk ∈ tree.sortedPks ↔ Listed l pk := by
  obtain ⟨pks, hpks, htree⟩ := buildTree_eq_some.mp h
  rw [(pool_spec htree).1.mem_iff]
  have hread := mapM_eq_some.mp hpks
  rw [List.map_map] at hread
  constructor
  · intro hpk
    have hmem : some pk ∈ pks.map some := List.mem_map_of_mem hpk
    rw [← hread] at hmem
    obtain ⟨m, hm, hkey⟩ := List.mem_map.mp hmem
    exact ⟨m, hm, hkey⟩
  · rintro ⟨m, hm, hkey⟩
    have hmem : some pk ∈ l.map (pkToBytes ∘ ListedMember.pk_hex) := List.mem_map.mpr ⟨m, hm, hkey⟩
    rw [hread] at hmem
    obtain ⟨pk', hpk', heq⟩ := List.mem_map.mp hmem
    rwa [← Option.some.inj heq]

/-! ### Climbing -/

/-- With siblings of 32 bytes it is the climb of the tree library. -/
theorem climb_eq (k : ℕ) (cur : Bytes32) (siblings : List Bytes32) :
    climb e k cur (siblings.map List.Vector.toList) =
      Merkle.climb (hashNode e) k cur siblings := by
  induction siblings generalizing k cur with
  | nil => rfl
  | cons sib siblings ih =>
    have hhalf : (k : ℤ) / 2 = (k / 2 : ℕ) := by omega
    rw [List.map_cons, climb, Merkle.climb, hhalf, ih]
    congr 1
    unfold joinSide hashNode
    by_cases hk : k % 2 = 0
    · rw [if_pos hk, if_pos (by omega)]
    · rw [if_neg hk, if_neg (by omega)]

/-- **Whatever climbs to the root is a leaf**, from any index, with siblings of any length. -/
theorem leaf_of_climb {S : Set Bytes} (hS : S.InjOn e.blake2b) {d : Bytes32} {n : ℕ}
    {leaves : List Bytes32} {idx : ℤ} {cur : Bytes32} {siblings : List Bytes}
    (hl : ∀ p ∈ Merkle.joins (hashNode e) n leaves, nodeMessage p ∈ S)
    (hx : ∀ m ∈ climbMessages e idx cur siblings, m ∈ S) (hlen : leaves.length = 2 ^ n)
    (hsib : siblings.length = n)
    (h : climb e idx cur siblings = Merkle.root (hashNode e) d n leaves) :
    ∃ k < 2 ^ n, cur = leaves.getD k d := by
  induction n generalizing leaves idx cur siblings with
  | zero =>
    obtain rfl := List.length_eq_zero_iff.mp hsib
    obtain ⟨a, rfl⟩ := List.length_eq_one_iff.mp (hlen.trans (pow_zero 2))
    exact ⟨0, by omega, h⟩
  | succ n ih =>
    cases siblings with
    | nil => cases hsib
    | cons sib siblings =>
      have hpow : (2 : ℕ) ^ (n + 1) = 2 * 2 ^ n := by ring
      obtain ⟨j, hj, heq⟩ := ih (fun p hp => hl p (List.mem_append_right _ hp))
        (fun m hm => hx m (List.mem_cons_of_mem _ hm)) (Merkle.joinPairs_length_pow hlen)
        (Nat.succ.inj hsib) h
      rw [Merkle.joinPairs_getD leaves j (by omega)] at heq
      have hpair := hl _ (List.mem_append_left _ (Merkle.pairs_mem (d := d) leaves j (by omega)))
      have hsame := hS (hx _ List.mem_cons_self) hpair heq
      unfold joinSide nodeMessage at hsame
      have hwidth : ∀ b : Bytes32, b.toList.length = 32 := fun b => b.toList_length
      split at hsame
      · obtain ⟨hleft, -⟩ := List.append_inj hsame ((hwidth _).trans (hwidth _).symm)
        exact ⟨2 * j, by omega, List.Vector.eq _ _ hleft⟩
      · -- the two halves are 64 bytes together, so this sibling has 32
        have htotal := congrArg List.length hsame
        rw [List.length_append, List.length_append, hwidth, hwidth, hwidth] at htotal
        obtain ⟨-, hright⟩ := List.append_inj hsame (by rw [hwidth]; omega)
        exact ⟨2 * j + 1, by omega, List.Vector.eq _ _ hright⟩

theorem verify_eq_true {s : String} {idx : ℤ} {siblings : List Bytes} {root pk : Bytes32}
    (hpk : pkToBytes s = some pk) : verifyPoolMerkleProof e s idx siblings root = some true ↔
      siblings.length = POOL_DEPTH ∧ climb e idx (hashPoolLeaf e pk) siblings = root := by
  unfold verifyPoolMerkleProof
  rw [require_bind_eq_some, hpk]
  simp

/-- **A proof of a place of the tree verifies.** -/
theorem verify_complete (h : buildTree e (l.map ListedMember.pk_hex) = some tree) {s : String}
    {pk : Bytes32} {i : ℕ} (hpk : pkToBytes s = some pk) (hi : tree.sortedPks[i]? = some pk) :
    verifyPoolMerkleProof e s i ((getPoolMerkleProof e tree i).map List.Vector.toList)
      (tree.root e) = some true := by
  obtain ⟨pks, -, htree⟩ := buildTree_eq_some.mp h
  obtain ⟨-, -, hlen, hleaves⟩ := pool_spec htree
  obtain ⟨hlt, hget⟩ := List.getElem?_eq_some_iff.mp hi
  have hpad : tree.leaves.length = 2 ^ POOL_DEPTH := by
    rw [hleaves, Merkle.pad_length (by rw [List.length_map]; exact hlen)]
  have hleaf : tree.leaves.getD i ZERO32 = hashPoolLeaf e pk := by
    rw [hleaves, Merkle.pad, List.getD_append _ _ _ _ (by rwa [List.length_map]),
      List.getD_eq_getElem _ _ (by rwa [List.length_map]), List.getElem_map, hget]
  refine (verify_eq_true hpk).mpr ⟨?_, ?_⟩
  · rw [List.length_map, getPoolMerkleProof, Merkle.path_length]
  · rw [climb_eq, ← hleaf, getPoolMerkleProof,
      Merkle.climb_path hpad (lt_of_lt_of_le hlt hlen), PoolTree.root]

/-- **A key that verifies is listed.** -/
theorem listed_of_verify (h : buildTree e (l.map ListedMember.pk_hex) = some tree) {s : String}
    {pk : Bytes32} {idx : ℤ} {siblings : List Bytes} (hpk : pkToBytes s = some pk)
    (hcf : CollisionFree e (poolMessages e tree ++ proofMessages e pk idx siblings))
    (hverify : verifyPoolMerkleProof e s idx siblings (tree.root e) = some true) :
    Listed l pk := by
  obtain ⟨pks, -, htree⟩ := buildTree_eq_some.mp h
  obtain ⟨-, -, hlen, hleaves⟩ := pool_spec htree
  obtain ⟨hsib, hroot⟩ := (verify_eq_true hpk).mp hverify
  have hle : (tree.sortedPks.map (hashPoolLeaf e)).length ≤ 2 ^ POOL_DEPTH := by
    rw [List.length_map]
    exact hlen
  have hjoins : ∀ p ∈ Merkle.joins (hashNode e) POOL_DEPTH tree.leaves,
      nodeMessage p ∈ {m | m ∈ poolMessages e tree ++ proofMessages e pk idx siblings} := by
    intro p hp
    rw [hleaves] at hp
    exact List.mem_append_left _ (List.mem_append_right _
      (List.mem_map_of_mem (Merkle.joins_pad hle hp)))
  have hclimb : ∀ m ∈ climbMessages e idx (hashPoolLeaf e pk) siblings,
      m ∈ {m | m ∈ poolMessages e tree ++ proofMessages e pk idx siblings} :=
    fun m hm => List.mem_append_right _ (List.mem_cons_of_mem _ hm)
  obtain ⟨k, hk, hleaf⟩ := leaf_of_climb hcf.injOn hjoins hclimb
    (by rw [hleaves, Merkle.pad_length hle]) hsib hroot
  obtain ⟨key, hkey, hhash⟩ := List.mem_map.mp (leaf_mem htree hk)
  have hsame : pk.toList = key.toList := by
    refine hcf.injOn (List.mem_append_right _ List.mem_cons_self)
      (List.mem_append_left _ (List.mem_append_left _ (List.mem_map_of_mem hkey))) ?_
    rw [← hleaf] at hhash
    exact hhash.symm
  obtain rfl : pk = key := List.Vector.eq _ _ hsame
  exact (mem_sortedPks h).mp hkey

/-! ### The list and its committee -/

/-- What a committee is drawn from has the root that is on the chain. -/
theorem root_of_reDerive {marketId : String} {ctx : CommitteeCtx} {psRedeem : Bytes}
    {committee : List String} (h : reDeriveCommittee e marketId ctx l psRedeem = some committee) :
    ∃ tree, buildTree e (l.map ListedMember.pk_hex) = some tree ∧
      onChainRootOf ctx psRedeem = some (tree.root e).toList := by
  unfold reDeriveCommittee at h
  rw [require_bind_eq_some] at h
  obtain ⟨-, h⟩ := h
  obtain ⟨root, hroot, h⟩ := Option.bind_eq_some_iff.mp h
  rw [require_bind_eq_some] at h
  obtain ⟨-, h⟩ := h
  obtain ⟨tree, htree, h⟩ := Option.bind_eq_some_iff.mp h
  rw [require_bind_eq_some] at h
  obtain ⟨heq, -⟩ := h
  exact ⟨tree, htree, hroot.trans (congrArg some heq.symm)⟩

/-- **The root anchors the members**, and the committee if the entries of a key are alike. -/
theorem anchors_of_level (h : buildTree e (l.map ListedMember.pk_hex) = some tree)
    (hlevel : Sampler.Level l) : Anchors e l tree := by
  refine
    { perm := fun l' hp => buildTree_perm (hp.map _) h
      letters := fun l' heq => ?_
      placed := fun m hm => ?_
      complete := fun s pk i hpk hi => verify_complete h hpk hi
      sound := fun s pk idx siblings hpk hcf hverify => listed_of_verify h hpk hcf hverify
      accepted := fun l' marketId ctx psRedeem committee hcf hroot hcommittee pk => ?_
      ordered := fun l' hp marketId ctx psRedeem => ?_ }
  · unfold buildTree at h ⊢
    rw [mapM_pkToBytes] at h ⊢
    rw [heq, h]
  · obtain ⟨pks, hpks, -⟩ := buildTree_eq_some.mp h
    have hsome : pkToBytes m.pk_hex ∈ pks.map some := by
      rw [← mapM_eq_some.mp hpks, List.map_map]
      exact List.mem_map_of_mem hm
    obtain ⟨pk, -, hpk⟩ := List.mem_map.mp hsome
    obtain ⟨i, hi⟩ := List.getElem?_of_mem ((mem_sortedPks h).mpr ⟨m, hm, hpk.symm⟩)
    exact ⟨i, pk, hpk.symm, hi⟩
  · obtain ⟨tree', htree', hroot'⟩ := root_of_reDerive hcommittee
    obtain ⟨pks, -, hbuilt⟩ := buildTree_eq_some.mp h
    obtain ⟨pks', -, hbuilt'⟩ := buildTree_eq_some.mp htree'
    rw [hroot, Option.some.injEq] at hroot'
    obtain ⟨hkeys, -⟩ := root_binds_keys hbuilt hbuilt' (hcf tree' htree')
      (List.Vector.eq _ _ hroot')
    rw [← mem_sortedPks htree', ← mem_sortedPks h, (pool_spec hbuilt').1.mem_iff,
      (pool_spec hbuilt).1.mem_iff]
    exact (hkeys pk).symm
  · have hnil : l' = [] ↔ l = [] := by
      rw [← List.length_eq_zero_iff, hp.length_eq, List.length_eq_zero_iff]
    unfold reDeriveCommittee
    simp only [ne_eq, hnil, buildTree_eq_perm (hp.map ListedMember.pk_hex),
      Sampler.selectCommittee_perm hp hlevel]

end

section Sample

private def list (ws : List (ℕ × ℤ)) : List ListedMember :=
  ws.map fun w => ⟨hex (samplePk w.1).toList, w.2⟩

private def even : List ListedMember := list [(0, 1), (1, 1), (2, 1), (3, 1), (4, 1)]

/-- One key twice, with more stake the second time or the first. -/
private def rising : List ListedMember := list [(0, 1), (0, 3), (1, 1), (2, 1), (3, 1)]

private def falling : List ListedMember := list [(0, 3), (0, 1), (1, 1), (2, 1), (3, 1)]

private theorem exists_tree (e : Engine) (ws : List (ℕ × ℤ)) (hne : ws ≠ [])
    (hlen : ws.length ≤ POOL_MAX_SIZE) :
    ∃ tree, buildTree e ((list ws).map ListedMember.pk_hex) = some tree := by
  have hread : ((list ws).map ListedMember.pk_hex).mapM pkToBytes =
      some (ws.map fun w => samplePk w.1) := by
    rw [mapM_eq_some, list, List.map_map, List.map_map, List.map_map]
    exact List.map_congr_left fun w _ => pkToBytes_hex (samplePk w.1)
  have hne' : (ws.map fun w => samplePk w.1) ≠ [] := by simpa using hne
  have hlen' : (ws.map fun w => samplePk w.1).length ≤ POOL_MAX_SIZE := by rwa [List.length_map]
  unfold buildTree buildPoolMerkleTree
  rw [hread]
  simp only [Option.bind_eq_bind, Option.bind_some, require, if_pos hne', if_pos hlen']
  exact ⟨_, rfl⟩

theorem anchors_of_level_even :
    ∃ tree, buildTree sampleEngine (even.map ListedMember.pk_hex) = some tree ∧
      Anchors sampleEngine even tree := by
  obtain ⟨tree, htree⟩ := exists_tree sampleEngine [(0, 1), (1, 1), (2, 1), (3, 1), (4, 1)]
    (by decide) (by decide)
  exact ⟨tree, htree, anchors_of_level htree (by unfold Sampler.Level; decide +kernel)⟩

private def sampleCtx (root : Bytes32) : CommitteeCtx where
  loadPoolSnapshot := ⟨none, [], none, none, none⟩
  onChainPoolMerkleRoot := some root.toList
  zk_native := false
  deadlineDaa := some 4
  fetchEndBlockHashCanonical := fun _ => some (List.replicate 32 7)
  loadBettors := []

/-- A hash whose rounds fall on the start of the list, and then one further. -/
private def sampleAim : Engine := Sampler.aimed 0 1

private theorem rand_sampleAim (seed : Bytes32) :
    Sampler.rand sampleAim seed = fun i => if some (UInt8.ofNat i) = some 0 then 0 else 1 := by
  funext i
  unfold sampleAim
  rw [Sampler.rand_aimed]
  split <;> rfl

private theorem committee_of_draws {l : List ListedMember} (sel : List ListedMember)
    {tree : PoolTree}
    (htree : buildTree sampleAim (l.map ListedMember.pk_hex) = some tree)
    (hsorted : l.Pairwise fun a b => Sampler.keyLe a b = true)
    (hread : (l.map Sampler.readMember).filter
      (fun m => m.pk_hex ∉ ([] : List String).map lowerCase) = l)
    (hlen : 5 ≤ l.length) (hpos : ∀ m ∈ l, 0 < m.stake_sompi)
    (hdraws : Sampling.draws ListedMember.stake_sompi
      (fun i => if some (UInt8.ofNat i) = some 0 then 0 else 1) 0 5 l = some sel) :
    reDeriveCommittee sampleAim "m1" (sampleCtx (tree.root sampleAim)) l [] =
      some (sel.map ListedMember.pk_hex) := by
  have heligible : Sampler.eligible l [] = l := Sampler.eligible_eq hread hsorted
  have hne : l ≠ [] := List.ne_nil_of_length_pos (by omega)
  have hseed : deriveCommitteeSeed sampleAim "m1" (List.replicate 32 7)
      (tree.root sampleAim).toList = some (sampleAim.blake2b
        (utf8 "m1" ++ List.replicate 32 7 ++ (tree.root sampleAim).toList)) := by
    simp only [deriveCommitteeSeed, require, List.length_replicate, List.Vector.toList_length,
      if_true, ne_eq]
    rfl
  obtain ⟨s, hs, hkeys⟩ : ∃ s, Sampler.selectCommittee sampleAim l (sampleAim.blake2b
      (utf8 "m1" ++ List.replicate 32 7 ++ (tree.root sampleAim).toList)) [] = .ok s ∧
      s.keys = sel.map ListedMember.pk_hex :=
    Sampler.select_of_draws (by rwa [heligible]) (by rwa [heligible])
      (by rw [heligible, rand_sampleAim]; exact hdraws)
  have hexclude : excludeOf ⟨none, [], none, none, none⟩ [] 4 = [] := rfl
  simp only [reDeriveCommittee, sampleCtx, onChainRootOf, require, if_pos hne, Option.orElse_some,
    Option.bind_eq_bind, Option.bind_some, htree, hseed, hexclude, hs]
  rw [← hkeys]
  rfl

/-- One set of members with one root, in two orders, and two committees. -/
theorem two_committees :
    rising.Perm falling ∧
      (∃ tree, buildTree sampleAim (rising.map ListedMember.pk_hex) = some tree) ∧
      ∀ tree, buildTree sampleAim (rising.map ListedMember.pk_hex) = some tree →
        ¬ Anchors sampleAim rising tree := by
  have hperm : falling.Perm rising := List.Perm.swap _ _ _
  refine ⟨hperm.symm, exists_tree sampleAim _ (by decide) (by decide), ?_⟩
  intro tree htree hanchors
  have htree' := hanchors.perm falling hperm
  have hsame := hanchors.ordered falling hperm "m1" (sampleCtx (tree.root sampleAim)) []
  rw [committee_of_draws (list [(0, 1), (0, 3), (2, 1), (3, 1), (1, 1)]) htree
      (by decide +kernel) (by decide +kernel) (by decide) (by decide) (by decide +kernel),
    committee_of_draws (list [(0, 3), (1, 1), (2, 1), (3, 1), (0, 1)]) htree'
      (by decide +kernel) (by decide +kernel) (by decide) (by decide) (by decide +kernel)] at hsame
  exact absurd hsame (by decide +kernel)

end Sample

end KANet.Settle.PoolAnchor
