import KANet.Lib.StableSort
import KANet.Settle.Committee
import Mathlib.Data.List.MinMax
import Mathlib.Data.List.Pairwise

/-!
# The lists a committee is drawn from

The pool of a market is anchored by its root, and each node draws from a list of its own: the row
that its scan of the chain has left, or the list that came with the market.  The root hashes the
keys alone, in their order, and fills the tree up with the last of them.

* `root_binds_keys` — the root fixes the keys, and how often each is listed, but for the greatest.
* `committee_determined_iff` — two lists with one root draw alike exactly when they list the same
  stakes for each key, in the same order.
-/

namespace KANet.Settle

open KANet.Lib KANet.Script KANet.Payout KANet.Covenant

/-! ### Lists and rows -/

/-- A member as a list has it, with its key in hex digits of either case. -/
structure ListedMember where
  pk_hex : String
  stake_sompi : Int
deriving DecidableEq

/-- 64 digits. -/
def readKey (s : String) : Option Bytes32 := do
  let bs ← fromHex (lowerCase s).toList
  if h : bs.length = 32 then some ⟨bs, h⟩ else none

def readMember (m : ListedMember) : Option PoolMember :=
  (readKey m.pk_hex).map fun pk => ⟨pk, m.stake_sompi⟩

/-- A list with a key that is no key has no tree. -/
def readMembers (l : List ListedMember) : Option (List PoolMember) := l.mapM readMember

/-- The tree of a list. -/
def listTree (e : Engine) (l : List ListedMember) : Option PoolTree := do
  let members ← readMembers l
  buildPoolMerkleTree e (members.map PoolMember.pk)

/-- A row of `oracle_pool_chain_view`. -/
structure ChainView where
  snapshot_daa : Nat
  leaves : List ListedMember
  merkle_root : Bytes
  pool_size : Nat

/-- A row of `pool_snapshots`. -/
structure SnapshotRow where
  pool_merkle_root : Bytes
  pool_size : Nat
  pool_pks : List String
  pool_stakes : Option (List Int)

def bake (leaves : List ListedMember) (root : Bytes) (pool_size : Nat) : SnapshotRow where
  pool_merkle_root := root
  pool_size := pool_size
  pool_pks := leaves.map fun l => lowerCase l.pk_hex
  pool_stakes := some (leaves.map ListedMember.stake_sompi)

/-- The row of a market afterwards: as it was, or the latest of the chain with this root. -/
def ensurePoolSnapshotByRoot (existing : Option SnapshotRow) (view : List ChainView)
    (expectedPoolMerkleRoot : Bytes) : Option SnapshotRow :=
  existing.orElse fun _ =>
    ((view.filter fun v : ChainView => v.merkle_root = expectedPoolMerkleRoot).argmax
      ChainView.snapshot_daa).map fun v => bake v.leaves v.merkle_root v.pool_size

def loadPoolSnapshot (row : SnapshotRow) : Option (List ListedMember) := do
  require (row.pool_pks.length = row.pool_size)
  let stakes ← row.pool_stakes
  require (stakes.length = row.pool_size ∧ stakes.length = row.pool_pks.length)
  some (List.zipWith ListedMember.mk row.pool_pks stakes)

/-! ### The two ways to the committee -/

/-- A member of the committee draws it from the list of its own row. -/
def reDeriveFrom (e : Engine) (marketId : String) (ctx : CommitteeCtx) (l : List ListedMember)
    (psRedeem : Bytes) : Option (List Bytes32) := do
  let members ← readMembers l
  reDeriveCommittee e marketId
    { ctx with loadPoolSnapshot := { ctx.loadPoolSnapshot with members } } psRedeem

/-- What the settler reads of a market and of its two relays. -/
structure SampledMarket where
  deadline_daa : Option Int
  maker_pk : Option String
  broker_pk : Option String
  maker_address : Option String
  broker_address : Option String

/-- A row of `pool_bettor_sides`. -/
structure BettorSide where
  bettor_pk : Option String
  side_lock_daa : Option Int

/-- The key that an address has enrolled with is left out too. -/
def sampleExcludes (staker_pk_x : String → Option String) (m : SampledMarket)
    (bettors : List BettorSide) : Option (List String) := do
  let deadlineDaa ← m.deadline_daa
  require (0 < deadlineDaa)
  require (∀ b ∈ bettors, b.side_lock_daa ≠ none)
  let brokerAddress := m.broker_address.filter fun a => m.maker_address ≠ some a
  some (keyTexts [m.broker_pk, m.maker_pk, m.maker_address.bind staker_pk_x,
      brokerAddress.bind staker_pk_x] ++
    keyTexts ((bettors.filter fun b => b.side_lock_daa.any (· ≤ deadlineDaa)).map
      BettorSide.bettor_pk))

def deriveCommitteePkHash (e : Engine) (pks : List Bytes32) : Bytes32 :=
  e.blake2b (pks.flatMap List.Vector.toList)

/-- A row of `pool_committee`. -/
structure CommitteeRow where
  committee_relay_ids : List String
  committee_pks : List Bytes32
  committee_pk_hash : Bytes32
  vrf_seed : Bytes32

def sampleAndStoreCommittee (e : Engine) (staker_pk_x : String → Option String)
    (resolveOracleAddress : Bytes32 → Option String) (marketId : String) (endBlockHash : Bytes)
    (market : SampledMarket) (bettors : List BettorSide) (row : SnapshotRow) :
    Option CommitteeRow := do
  let snapshot ← loadPoolSnapshot row
  let seed ← deriveCommitteeSeed e marketId endBlockHash row.pool_merkle_root
  let excludePks ← sampleExcludes staker_pk_x market bettors
  let members ← readMembers snapshot
  let selected ← selectCommittee e members seed excludePks
  let committeePks := selected.map PoolMember.pk
  let committee_relay_ids ← committeePks.mapM resolveOracleAddress
  some
    { committee_relay_ids
      committee_pks := committeePks
      committee_pk_hash := deriveCommitteePkHash e committeePks
      vrf_seed := seed }

/-- The members that are drawn from, with their weights, in the order of the draw. -/
def drawnFrom (l : List ListedMember) (excludePks : List String) : Option (List PoolMember) :=
  (readMembers l).map fun members =>
    (members.filter fun m => hex m.pk.toList ∉ excludePks).mergeSort fun a b => keyLe a.pk b.pk

/-- The stakes that a list has for a key, in its order. -/
def stakesOf (l : List ListedMember) (pk : Bytes32) : List Int :=
  (l.filter fun m => readKey m.pk_hex = some pk).map ListedMember.stake_sompi

/-- Two lists draw alike, in every market, at every end block, whoever is left out. -/
structure DrawAlike (e : Engine) (root : Bytes) (l l' : List ListedMember) : Prop where
  weights : ∀ excludePks, drawnFrom l excludePks = drawnFrom l' excludePks
  reDerived : ∀ marketId ctx psRedeem,
    reDeriveFrom e marketId ctx l psRedeem = reDeriveFrom e marketId ctx l' psRedeem
  sampled : ∀ staker_pk_x resolveOracleAddress marketId endBlockHash market bettors,
    sampleAndStoreCommittee e staker_pk_x resolveOracleAddress marketId endBlockHash market bettors
        (bake l root l.length) =
      sampleAndStoreCommittee e staker_pk_x resolveOracleAddress marketId endBlockHash market
        bettors (bake l' root l'.length)

/-! ### Reading -/

theorem readKey_lowerCase (s : String) : readKey (lowerCase s) = readKey s := by
  rw [readKey, readKey, lowerCase_lowerCase]

theorem readKey_hex (pk : Bytes32) : readKey (hex pk.toList) = some pk := by
  have hlower : lowerCase (hex pk.toList) = hex pk.toList := by
    rw [lowerCase, hex, String.toList_ofList, map_toLower_toHex]
  have hread : fromHex (hex pk.toList).toList = some pk.toList := by
    rw [hex, String.toList_ofList, fromHex_toHex]
  rw [readKey, hlower, hread]
  simp

/-- What is baked is read back, whatever the case of the digits. -/
theorem loadPoolSnapshot_bake (l : List ListedMember) (root : Bytes) :
    loadPoolSnapshot (bake l root l.length) =
      some (l.map fun m => ⟨lowerCase m.pk_hex, m.stake_sompi⟩) := by
  have hzip : List.zipWith ListedMember.mk (l.map fun m => lowerCase m.pk_hex)
      (l.map ListedMember.stake_sompi) = l.map fun m => ⟨lowerCase m.pk_hex, m.stake_sompi⟩ := by
    rw [List.zipWith_map, List.zipWith_self]
  simp [loadPoolSnapshot, bake, require, hzip]

theorem readMembers_lowerCase (l : List ListedMember) :
    readMembers (l.map fun m => ⟨lowerCase m.pk_hex, m.stake_sompi⟩) = readMembers l := by
  induction l with
  | nil => rfl
  | cons m l ih =>
    have hm : readMember ⟨lowerCase m.pk_hex, m.stake_sompi⟩ = readMember m := by
      rw [readMember, readMember, readKey_lowerCase]
    unfold readMembers at ih ⊢
    rw [List.map_cons, List.mapM_cons, List.mapM_cons, ih, hm]

/-- A row that is baked from the chain has the list of one of its rows. -/
theorem ensurePoolSnapshotByRoot_eq_some {view : List ChainView} {root : Bytes} {row : SnapshotRow}
    (h : ensurePoolSnapshotByRoot none view root = some row) :
    ∃ v ∈ view, v.merkle_root = root ∧ row = bake v.leaves root v.pool_size := by
  rw [ensurePoolSnapshotByRoot, Option.orElse_none, Option.map_eq_some_iff] at h
  obtain ⟨v, hv, rfl⟩ := h
  obtain ⟨hmem, hroot⟩ := List.mem_filter.mp (List.argmax_mem hv)
  refine ⟨v, hmem, of_decide_eq_true hroot, ?_⟩
  rw [of_decide_eq_true hroot]

theorem readMembers_eq_some {l : List ListedMember} {ms : List PoolMember} :
    readMembers l = some ms ↔ l.map readMember = ms.map some := by
  unfold readMembers
  induction l generalizing ms with
  | nil => cases ms <;> simp
  | cons m l ih =>
    rw [List.mapM_cons, List.map_cons]
    simp only [Option.bind_eq_bind, Option.bind_eq_some_iff, Option.pure_def, Option.some.injEq,
      ih]
    refine ⟨?_, ?_⟩
    · intro h
      obtain ⟨p, hp, ps, hps, rfl⟩ := h
      rw [hp, hps, List.map_cons]
    · intro h
      cases ms with
      | nil => cases h
      | cons p ps =>
        obtain ⟨hp, hps⟩ := List.cons.inj h
        exact ⟨p, hp, ps, hps, rfl⟩

/-- A list that can be read has, for each key, the stakes that it is read with. -/
theorem stakesOf_eq {l : List ListedMember} {ms : List PoolMember} (h : readMembers l = some ms)
    (pk : Bytes32) :
    stakesOf l pk = (ms.filter fun m => m.pk = pk).map PoolMember.stake_sompi := by
  rw [readMembers_eq_some] at h
  induction l generalizing ms with
  | nil =>
    obtain rfl : ms = [] := by simpa using h.symm
    rfl
  | cons m l ih =>
    cases ms with
    | nil => cases h
    | cons p ms =>
      rw [List.map_cons, List.map_cons] at h
      obtain ⟨hm, hl⟩ := List.cons.inj h
      obtain ⟨key, hkey, rfl⟩ := Option.map_eq_some_iff.mp hm
      have hrest := ih hl
      unfold stakesOf at hrest ⊢
      by_cases hpk : key = pk
      · rw [List.filter_cons_of_pos (by simp [hkey, hpk]),
          List.filter_cons_of_pos (by simp [hpk]), List.map_cons, List.map_cons, hrest]
      · rw [List.filter_cons_of_neg (by simp [hkey, hpk]),
          List.filter_cons_of_neg (by simp [hpk]), hrest]

/-! ### What the root fixes -/

theorem keyLe_trans (a b c : Bytes32) (h : keyLe a b) (h' : keyLe b c) : keyLe a c :=
  pkLe_trans _ _ _ h h'

theorem keyLe_total (a b : Bytes32) : keyLe a b || keyLe b a := pkLe_total _ _

theorem keyLe_antisymm {a b : Bytes32} (h : keyLe a b) (h' : keyLe b a) : a = b :=
  List.Vector.eq _ _ (pkLe_antisymm h h')

section Root

variable {e : Engine} {pks pks' : List Bytes32} {tree tree' : PoolTree}

/-- The keys at the leaves, with the greatest repeated. -/
def paddedKeys (tree : PoolTree) : List Bytes32 :=
  Merkle.pad (tree.sortedPks.getLast?.getD ZERO32) POOL_DEPTH tree.sortedPks

theorem leaves_eq_map (h : buildPoolMerkleTree e pks = some tree) :
    tree.leaves = (paddedKeys tree).map (hashPoolLeaf e) := by
  obtain ⟨-, hne, -, hleaves⟩ := pool_spec h
  have hlast : lastLeaf e tree = hashPoolLeaf e (tree.sortedPks.getLast?.getD ZERO32) := by
    rw [lastLeaf, List.getLast?_map, List.getLast?_eq_some_getLast hne]
    rfl
  rw [hleaves, hlast, paddedKeys, Merkle.pad, Merkle.pad, List.map_append, List.map_replicate,
    List.length_map]

theorem mem_paddedKeys (h : buildPoolMerkleTree e pks = some tree) {pk : Bytes32} :
    pk ∈ paddedKeys tree ↔ pk ∈ tree.sortedPks := by
  obtain ⟨-, hne, -⟩ := pool_spec h
  rw [paddedKeys, Merkle.pad, List.mem_append]
  refine ⟨?_, Or.inl⟩
  intro hmem
  rcases hmem with hmem | hmem
  · exact hmem
  · rw [(List.mem_replicate.mp hmem).2, List.getLast?_eq_some_getLast hne, Option.getD_some]
    exact List.getLast_mem hne

theorem count_paddedKeys {pk : Bytes32} (h : pk ≠ tree.sortedPks.getLast?.getD ZERO32) :
    (paddedKeys tree).count pk = tree.sortedPks.count pk := by
  rw [paddedKeys, Merkle.pad, List.count_append, List.count_replicate, if_neg, Nat.add_zero]
  simpa using Ne.symm h

/-- The last of the sorted keys is the greatest. -/
theorem keyLe_getLast (h : buildPoolMerkleTree e pks = some tree) {pk : Bytes32}
    (hpk : pk ∈ tree.sortedPks) : keyLe pk (tree.sortedPks.getLast?.getD ZERO32) = true := by
  have hsorted : tree.sortedPks.Pairwise fun a b => keyLe a b = true := by
    simp only [buildPoolMerkleTree, require_bind_eq_some] at h
    obtain ⟨-, -, h⟩ := h
    obtain rfl := Option.some.inj h
    exact List.pairwise_mergeSort keyLe_trans keyLe_total pks
  have hne : tree.sortedPks ≠ [] := List.ne_nil_of_mem hpk
  have hrefl : ∀ a, keyLe a a = true := by
    intro a
    simpa using keyLe_total a a
  rw [List.getLast?_eq_some_getLast hne, Option.getD_some]
  exact hsorted.rel_getLast_of_rel_getLast_getLast hpk (hrefl _)

/-- **The root fixes the keys**, and how often each is listed but the greatest. -/
theorem root_binds_keys (h : buildPoolMerkleTree e pks = some tree)
    (h' : buildPoolMerkleTree e pks' = some tree')
    (hcf : CollisionFree e (poolMessages e tree ++ poolMessages e tree'))
    (hroot : tree.root e = tree'.root e) :
    (∀ pk, pk ∈ pks ↔ pk ∈ pks') ∧
      ∀ pk, (∃ other ∈ pks, other ≠ pk ∧ keyLe pk other = true) → pks.count pk = pks'.count pk := by
  obtain ⟨hperm, hne, hlen, hleaves⟩ := pool_spec h
  obtain ⟨hperm', hne', hlen', hleaves'⟩ := pool_spec h'
  have hle : (tree.sortedPks.map (hashPoolLeaf e)).length ≤ 2 ^ POOL_DEPTH := by
    rw [List.length_map]
    exact hlen
  have hle' : (tree'.sortedPks.map (hashPoolLeaf e)).length ≤ 2 ^ POOL_DEPTH := by
    rw [List.length_map]
    exact hlen'
  have hsame : tree.leaves = tree'.leaves := by
    rw [PoolTree.root, PoolTree.root, hleaves, hleaves'] at hroot
    rw [hleaves, hleaves']
    refine Merkle.root_inj (injOn_hashNode hcf.injOn) ?_ ?_ (Merkle.pad_length hle)
      (Merkle.pad_length hle') hroot
    · intro p hp
      exact List.mem_append_left _ (List.mem_append_right _
        (List.mem_map_of_mem (Merkle.joins_pad hle hp)))
    · intro p hp
      exact List.mem_append_right _ (List.mem_append_right _
        (List.mem_map_of_mem (Merkle.joins_pad hle' hp)))
  have hkeys : paddedKeys tree = paddedKeys tree' := by
    rw [leaves_eq_map h, leaves_eq_map h'] at hsame
    have hinj : ∀ a b : Bytes32, True → True → a.toList = b.toList → a = b :=
      fun a b _ _ hab => List.Vector.eq a b hab
    refine map_hash_inj hcf.injOn hinj ?_ ?_ ?_ ?_ hsame
    · intro a _
      trivial
    · intro a _
      trivial
    · intro a ha
      exact List.mem_append_left _ (List.mem_append_left _
        (List.mem_map_of_mem ((mem_paddedKeys h).mp ha)))
    · intro a ha
      exact List.mem_append_right _ (List.mem_append_left _
        (List.mem_map_of_mem ((mem_paddedKeys h').mp ha)))
  have hmem : ∀ pk, pk ∈ pks ↔ pk ∈ pks' := by
    intro pk
    rw [← hperm.mem_iff, ← hperm'.mem_iff, ← mem_paddedKeys h, ← mem_paddedKeys h', hkeys]
  refine ⟨hmem, ?_⟩
  intro pk hless
  obtain ⟨other, hother, hneq, hle⟩ := hless
  -- what has a greater key beside it is the last of neither list
  have hnot : ∀ {pks : List Bytes32} {tree : PoolTree}, buildPoolMerkleTree e pks = some tree →
      other ∈ pks → pk ≠ tree.sortedPks.getLast?.getD ZERO32 := by
    intro pks tree h hother heq
    have hback := keyLe_getLast h ((pool_spec h).1.mem_iff.mpr hother)
    rw [← heq] at hback
    exact hneq (keyLe_antisymm hback hle)
  rw [← hperm.count_eq, ← hperm'.count_eq, ← count_paddedKeys (hnot h hother),
    ← count_paddedKeys (hnot h' ((hmem other).mp hother)), hkeys]

end Root

/-! ### What the draw depends on -/

section Draw

variable {e : Engine} {ms ms' : List PoolMember} {l l' : List ListedMember}

def memberLe (a b : PoolMember) : Bool := keyLe a.pk b.pk

theorem memberLe_trans (a b c : PoolMember) (h : memberLe a b) (h' : memberLe b c) :
    memberLe a c :=
  keyLe_trans _ _ _ h h'

theorem memberLe_total (a b : PoolMember) : memberLe a b || memberLe b a := keyLe_total _ _

/-- The entries that tie are those of one key. -/
theorem tied_memberLe (a : PoolMember) : tied memberLe a = fun m => decide (m.pk = a.pk) := by
  funext m
  rw [Bool.eq_iff_iff, tied, Bool.and_eq_true, decide_eq_true_iff]
  refine ⟨?_, ?_⟩
  · intro h
    exact keyLe_antisymm h.2 h.1
  · intro h
    have hrefl : keyLe a.pk a.pk = true := by simpa using keyLe_total a.pk a.pk
    rw [memberLe, memberLe, h]
    exact ⟨hrefl, hrefl⟩

/-- The entries of a key are known from their stakes. -/
theorem filter_pk_eq (ms : List PoolMember) (pk : Bytes32) :
    (ms.filter fun m => m.pk = pk) =
      ((ms.filter fun m => m.pk = pk).map PoolMember.stake_sompi).map (PoolMember.mk pk) := by
  rw [List.map_map]
  refine (List.map_id _).symm.trans (List.map_congr_left ?_)
  intro m hm
  have hpk : m.pk = pk := of_decide_eq_true (List.mem_filter.mp hm).2
  rw [Function.comp_apply, ← hpk]
  rfl

theorem sorted_eq_iff :
    ms.mergeSort memberLe = ms'.mergeSort memberLe ↔
      ∀ pk, (ms.filter fun m => m.pk = pk).map PoolMember.stake_sompi =
        (ms'.filter fun m => m.pk = pk).map PoolMember.stake_sompi := by
  rw [mergeSort_eq_iff memberLe_trans memberLe_total]
  refine ⟨?_, ?_⟩
  · intro h pk
    have hpk := h ⟨pk, 0⟩
    rw [tied_memberLe] at hpk
    rw [hpk]
  · intro h a
    rw [tied_memberLe, filter_pk_eq ms, filter_pk_eq ms', h]

theorem buildPoolMerkleTree_perm {pks pks' : List Bytes32} (h : pks.Perm pks') :
    buildPoolMerkleTree e pks = buildPoolMerkleTree e pks' := by
  have hsort : pks.mergeSort keyLe = pks'.mergeSort keyLe := by
    have hp := ((List.mergeSort_perm pks keyLe).trans h).trans (List.mergeSort_perm pks' keyLe).symm
    refine @List.Perm.eq_of_pairwise _ (fun a b => keyLe a b = true) _ _ ?_ ?_ ?_ hp
    · intro a b _ _
      exact keyLe_antisymm
    · exact List.pairwise_mergeSort keyLe_trans keyLe_total pks
    · exact List.pairwise_mergeSort keyLe_trans keyLe_total pks'
  have hnil : pks = [] ↔ pks' = [] := by
    refine ⟨?_, ?_⟩
    · rintro rfl
      exact List.nil_perm.mp h
    · rintro rfl
      exact List.perm_nil.mp h
  simp only [buildPoolMerkleTree, ne_eq, hnil, h.length_eq, hsort]

/-- Whoever is left out, what remains is listed alike. -/
theorem sorted_filter_eq {p : Bytes32 → Bool}
    (h : ∀ pk, (ms.filter fun m => m.pk = pk).map PoolMember.stake_sompi =
      (ms'.filter fun m => m.pk = pk).map PoolMember.stake_sompi) :
    (ms.filter fun m => p m.pk).mergeSort memberLe =
      (ms'.filter fun m => p m.pk).mergeSort memberLe := by
  refine sorted_eq_iff.mpr ?_
  intro pk
  rw [List.filter_comm, List.filter_comm _ _ ms', filter_pk_eq ms, filter_pk_eq ms', h]

theorem selectCommittee_alike {seed : Bytes32} {excludePks : List String}
    (h : ∀ pk, (ms.filter fun m => m.pk = pk).map PoolMember.stake_sompi =
      (ms'.filter fun m => m.pk = pk).map PoolMember.stake_sompi) :
    selectCommittee e ms seed excludePks = selectCommittee e ms' seed excludePks := by
  have hsorted := sorted_filter_eq (p := fun pk => decide (hex pk.toList ∉ excludePks)) h
  unfold memberLe at hsorted
  unfold selectCommittee
  rw [hsorted]

theorem perm_of_alike
    (h : ∀ pk, (ms.filter fun m => m.pk = pk).map PoolMember.stake_sompi =
      (ms'.filter fun m => m.pk = pk).map PoolMember.stake_sompi) : ms.Perm ms' :=
  ((List.mergeSort_perm ms memberLe).symm.trans (sorted_eq_iff.mpr h ▸ List.Perm.refl _)).trans
    (List.mergeSort_perm ms' memberLe)

theorem reDeriveCommittee_alike {marketId : String} {ctx : CommitteeCtx} {psRedeem : Bytes}
    (h : ∀ pk, (ms.filter fun m => m.pk = pk).map PoolMember.stake_sompi =
      (ms'.filter fun m => m.pk = pk).map PoolMember.stake_sompi) :
    reDeriveCommittee e marketId
        { ctx with loadPoolSnapshot := { ctx.loadPoolSnapshot with members := ms } } psRedeem =
      reDeriveCommittee e marketId
        { ctx with loadPoolSnapshot := { ctx.loadPoolSnapshot with members := ms' } } psRedeem := by
  have hp := perm_of_alike h
  have hnil : ms = [] ↔ ms' = [] := by
    refine ⟨?_, ?_⟩
    · rintro rfl
      exact List.nil_perm.mp hp
    · rintro rfl
      exact List.perm_nil.mp hp
  have htree := buildPoolMerkleTree_perm (e := e) (hp.map PoolMember.pk)
  have hselect : ∀ seed excl, selectCommittee e ms seed excl = selectCommittee e ms' seed excl :=
    fun seed excl => selectCommittee_alike h
  simp only [reDeriveCommittee, ne_eq, hnil, htree, hselect, excludeOf]

/-- **What the committee is determined by.**  Two lists whose keys have the anchored root have the
same keys, the greatest of which may be listed more often in one of them.  They draw alike exactly
when they list the same stakes for each key, in the same order. -/
theorem committee_determined_iff {root : Bytes32} {tree tree' : PoolTree}
    (htree : listTree e l = some tree) (htree' : listTree e l' = some tree')
    (hroot : tree.root e = root) (hroot' : tree'.root e = root)
    (hcf : CollisionFree e (poolMessages e tree ++ poolMessages e tree')) :
    (∀ pk, pk ∈ tree.sortedPks ↔ pk ∈ tree'.sortedPks) ∧
      (∀ pk, (∃ other ∈ tree.sortedPks, other ≠ pk ∧ keyLe pk other = true) →
        tree.sortedPks.count pk = tree'.sortedPks.count pk) ∧
      (DrawAlike e root.toList l l' ↔ ∀ pk, stakesOf l pk = stakesOf l' pk) := by
  simp only [listTree, Option.bind_eq_bind, Option.bind_eq_some_iff] at htree htree'
  obtain ⟨ms, hms, hbuilt⟩ := htree
  obtain ⟨ms', hms', hbuilt'⟩ := htree'
  have hperm := (pool_spec hbuilt).1
  have hperm' := (pool_spec hbuilt').1
  obtain ⟨hkeys, hcount⟩ := root_binds_keys hbuilt hbuilt' hcf (hroot.trans hroot'.symm)
  refine ⟨?_, ?_, ?_, ?_⟩
  · intro pk
    rw [hperm.mem_iff, hperm'.mem_iff]
    exact hkeys pk
  · intro pk h
    obtain ⟨other, hother, hle⟩ := h
    rw [hperm.count_eq, hperm'.count_eq]
    exact hcount pk ⟨other, hperm.mem_iff.mp hother, hle⟩
  · intro h pk
    have hnone := h.weights []
    have hall : ∀ ms : List PoolMember,
        (ms.filter fun m => hex m.pk.toList ∉ ([] : List String)) = ms := by
      intro ms
      exact List.filter_eq_self.mpr fun m _ => by simp
    simp only [drawnFrom, hms, hms', hall, Option.map_some, Option.some.injEq] at hnone
    rw [stakesOf_eq hms, stakesOf_eq hms']
    exact sorted_eq_iff.mp hnone pk
  · intro h
    have halike : ∀ pk, (ms.filter fun m => m.pk = pk).map PoolMember.stake_sompi =
        (ms'.filter fun m => m.pk = pk).map PoolMember.stake_sompi := by
      intro pk
      rw [← stakesOf_eq hms, ← stakesOf_eq hms', h]
    refine ⟨?_, ?_, ?_⟩
    · intro excludePks
      have hsorted := sorted_filter_eq (p := fun pk => decide (hex pk.toList ∉ excludePks)) halike
      unfold memberLe at hsorted
      rw [drawnFrom, drawnFrom, hms, hms', Option.map_some, Option.map_some, hsorted]
    · intro marketId ctx psRedeem
      rw [reDeriveFrom, reDeriveFrom, hms, hms']
      exact reDeriveCommittee_alike halike
    · intro staker_pk_x resolveOracleAddress marketId endBlockHash market bettors
      simp only [sampleAndStoreCommittee, loadPoolSnapshot_bake, readMembers_lowerCase, hms, hms',
        Option.bind_eq_bind, Option.bind_some, selectCommittee_alike halike]
      rfl

end Draw

/-! ### Six keys, listed three ways -/

section Sample

private def list (ws : List (Nat × Int)) : List ListedMember :=
  ws.map fun w => ⟨hex (samplePk w.1).toList, w.2⟩

private def listed (ws : List (Nat × Int)) : List PoolMember := ws.map fun w => ⟨samplePk w.1, w.2⟩

private theorem readMembers_list (ws : List (Nat × Int)) :
    readMembers (list ws) = some (listed ws) := by
  refine readMembers_eq_some.mpr ?_
  rw [list, listed, List.map_map, List.map_map]
  refine List.map_congr_left ?_
  intro w _
  rw [Function.comp_apply, readMember, readKey_hex]
  rfl

/-- All stakes are alike; the fifth member has more; the greatest key is there five times. -/
private def even : List (Nat × Int) := [(0, 1), (1, 1), (2, 1), (3, 1), (4, 1), (5, 1)]

private def uneven : List (Nat × Int) := [(0, 1), (1, 1), (2, 1), (3, 1), (4, 1000), (5, 1)]

private def repeated : List (Nat × Int) :=
  [(0, 1), (1, 1), (2, 1), (3, 1), (4, 1), (5, 1000), (5, 1000), (5, 1000), (5, 1000), (5, 1000)]

private def listTreeOf (ws : List (Nat × Int)) : PoolTree where
  leaves := (ws.map fun w => hashPoolLeaf sampleEngine (samplePk w.1)) ++
    List.replicate (256 - ws.length) (hashPoolLeaf sampleEngine (samplePk 5))
  sortedPks := ws.map fun w => samplePk w.1

private theorem listTree_of {ws : List (Nat × Int)} (hne : ws ≠ []) (hlen : ws.length ≤ 256)
    (hsorted : (ws.map fun w => samplePk w.1).Pairwise fun a b => keyLe a b = true)
    (hlast : ws.getLast?.map Prod.fst = some 5) :
    listTree sampleEngine (list ws) = some (listTreeOf ws) := by
  have hkeys : (listed ws).map PoolMember.pk = ws.map fun w => samplePk w.1 := by
    rw [listed, List.map_map]
    rfl
  have hne' : (ws.map fun w => samplePk w.1) ≠ [] := by simpa using hne
  have hlen' : (listed ws).length ≤ POOL_MAX_SIZE := by
    rw [listed, List.length_map]
    exact hlen
  obtain ⟨w, hw, h5⟩ := Option.map_eq_some_iff.mp hlast
  have hlast' : ((ws.map fun w => samplePk w.1).map (hashPoolLeaf sampleEngine)).getLast?.getD
      ZERO32 = hashPoolLeaf sampleEngine (samplePk 5) := by
    rw [List.getLast?_map, List.getLast?_map, hw, ← h5]
    rfl
  rw [listTree, readMembers_list]
  simp only [Option.bind_eq_bind, Option.bind_some, hkeys, buildPoolMerkleTree, require,
    if_pos hne', if_pos hlen', List.mergeSort_of_pairwise hsorted, hlast', List.length_map]
  rw [listTreeOf, List.map_map]
  rfl

private def listRoot : Bytes32 :=
  Merkle.prefixRoot (hashNode sampleEngine) POOL_DEPTH (hashPoolLeaf sampleEngine (samplePk 5))
    (even.map fun w => hashPoolLeaf sampleEngine (samplePk w.1))

private theorem listRoot_even : (listTreeOf even).root sampleEngine = listRoot :=
  (Merkle.prefixRoot_eq (by rw [List.length_map]; decide)).symm

private theorem listRoot_uneven : (listTreeOf uneven).root sampleEngine = listRoot := listRoot_even

private theorem listRoot_repeated : (listTreeOf repeated).root sampleEngine = listRoot := by
  have hleaves : (listTreeOf repeated).leaves = (listTreeOf even).leaves := rfl
  rw [PoolTree.root, hleaves]
  exact listRoot_even

private def listCtx : CommitteeCtx where
  loadPoolSnapshot := ⟨none, [], none, none, none⟩
  onChainPoolMerkleRoot := some listRoot.toList
  zk_native := false
  deadlineDaa := some 4
  fetchEndBlockHashCanonical := fun _ => some (List.replicate 32 7)
  loadBettors := []

private def listSeed : Bytes32 := sampleHash (utf8 "m1" ++ List.replicate 32 7 ++ listRoot.toList)

private theorem reDeriveFrom_list {ws : List (Nat × Int)} (sel : List PoolMember)
    (htree : listTree sampleEngine (list ws) = some (listTreeOf ws))
    (hroot : (listTreeOf ws).root sampleEngine = listRoot) (hlen : 5 ≤ (listed ws).length)
    (hstakes : ∀ m ∈ listed ws, 0 < m.stake_sompi)
    (hsorted : (listed ws).Pairwise fun a b => keyLe a.pk b.pk = true)
    (hdraw : drawAll sampleEngine listSeed 0 5 (listed ws) = some sel) :
    reDeriveFrom sampleEngine "m1" listCtx (list ws) [] = some (sel.map PoolMember.pk) := by
  have hseed : deriveCommitteeSeed sampleEngine "m1" (List.replicate 32 7) listRoot.toList =
      some listSeed := by
    simp only [deriveCommitteeSeed, require, List.length_replicate, List.Vector.toList_length,
      if_true, ne_eq]
    rfl
  have hall : ((listed ws).filter fun m => hex m.pk.toList ∉ ([] : List String)) = listed ws :=
    List.filter_eq_self.mpr fun m _ => by simp
  have hselect : selectCommittee sampleEngine (listed ws) listSeed [] = some sel := by
    simp only [selectCommittee, hall, List.mergeSort_of_pairwise hsorted, require, COMMITTEE_SIZE,
      if_pos hlen, if_pos hstakes]
    exact hdraw
  have hne : listed ws ≠ [] := by
    intro hnil
    rw [hnil] at hlen
    exact absurd hlen (by decide)
  have hbuilt : buildPoolMerkleTree sampleEngine ((listed ws).map PoolMember.pk) =
      some (listTreeOf ws) := by
    rw [listTree, readMembers_list] at htree
    exact htree
  have hexclude : excludeOf ⟨none, listed ws, none, none, none⟩ [] 4 = [] := rfl
  rw [reDeriveFrom, readMembers_list]
  simp only [reDeriveCommittee, listCtx, Option.bind_eq_bind, Option.bind_some, require, if_pos hne,
    Option.orElse_some, hbuilt, hroot, hseed, hexclude, hselect]
  rfl

/-- Three lists with one root, and three committees: the second swaps a member for one with more
stake, and in the third one key sits in all five seats. -/
theorem one_root_three_committees :
    (∀ ws ∈ [even, uneven, repeated], ∃ tree, listTree sampleEngine (list ws) = some tree ∧
      tree.root sampleEngine = listRoot) ∧
    reDeriveFrom sampleEngine "m1" listCtx (list even) [] = some ([3, 2, 1, 0, 5].map samplePk) ∧
    reDeriveFrom sampleEngine "m1" listCtx (list uneven) [] =
      some ([4, 2, 1, 0, 5].map samplePk) ∧
    reDeriveFrom sampleEngine "m1" listCtx (list repeated) [] =
      some ([5, 5, 5, 5, 5].map samplePk) := by
  have heven : listTree sampleEngine (list even) = some (listTreeOf even) :=
    listTree_of (by decide) (by decide) (by decide) rfl
  have huneven : listTree sampleEngine (list uneven) = some (listTreeOf uneven) :=
    listTree_of (by decide) (by decide) (by decide) rfl
  have hrepeated : listTree sampleEngine (list repeated) = some (listTreeOf repeated) :=
    listTree_of (by decide) (by decide) (by decide) rfl
  refine ⟨?_, ?_, ?_, ?_⟩
  · intro ws hws
    rcases List.mem_cons.mp hws with rfl | hws
    · exact ⟨_, heven, listRoot_even⟩
    · rcases List.mem_pair.mp hws with rfl | rfl
      · exact ⟨_, huneven, listRoot_uneven⟩
      · exact ⟨_, hrepeated, listRoot_repeated⟩
  · exact reDeriveFrom_list (listed [(3, 1), (2, 1), (1, 1), (0, 1), (5, 1)]) heven
      listRoot_even (by decide) (by decide) (by decide) (by decide +kernel)
  · exact reDeriveFrom_list (listed [(4, 1000), (2, 1), (1, 1), (0, 1), (5, 1)]) huneven
      listRoot_uneven (by decide) (by decide) (by decide) (by decide +kernel)
  · exact reDeriveFrom_list
      (listed [(5, 1000), (5, 1000), (5, 1000), (5, 1000), (5, 1000)]) hrepeated
      listRoot_repeated (by decide) (by decide) (by decide) (by decide +kernel)

theorem committee_determined_iff_uneven :
    (∀ pk, pk ∈ (listTreeOf even).sortedPks ↔ pk ∈ (listTreeOf uneven).sortedPks) ∧
      (∀ pk, (∃ other ∈ (listTreeOf even).sortedPks, other ≠ pk ∧ keyLe pk other = true) →
        (listTreeOf even).sortedPks.count pk = (listTreeOf uneven).sortedPks.count pk) ∧
      (DrawAlike sampleEngine listRoot.toList (list even) (list uneven) ↔
        ∀ pk, stakesOf (list even) pk = stakesOf (list uneven) pk) :=
  committee_determined_iff (listTree_of (by decide) (by decide) (by decide) rfl)
    (listTree_of (by decide) (by decide) (by decide) rfl) listRoot_even listRoot_uneven
    (by decide +kernel)

end Sample

end KANet.Settle
