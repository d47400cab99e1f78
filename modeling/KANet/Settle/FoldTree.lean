import Mathlib.Data.List.Basic
import Mathlib.Data.List.Nodup
import Mathlib.Tactic.Ring

/-!
# Planning the folds: `pool-fold.mjs`

The shards of a market are folded into one, `k` at a time, level by level.  Everybody
plans the same tree from the same leaves: a level is cut into groups from the left, and
a node is named by its level and its place there.

* `inputs_foldLoop` — what is consumed, in order: the leaves, then every node but the root.
* `leavesUnder_foldLoop` — opened from the root, the tree has the leaves it was made of.
* `txCount_foldLoop` — the planned transactions are as many as `foldTxCount` says.
* `buildFoldTree_plans` — all of it, of every list of leaves.
-/

namespace KANet.Settle

/-- One fold: the node it makes and what it consumes. -/
structure FoldOp where
  node : String
  inputs : List String
deriving DecidableEq

structure FoldTree where
  levels : List (List FoldOp)
  rootId : String
  txCount : Nat
deriving DecidableEq

def nodeId (levelNo place : Nat) : String :=
  "fold:L" ++ Nat.repr levelNo ++ ":" ++ Nat.repr place

/-! ### The loops -/

section Loops

variable {k : Nat} (hk : 2 ≤ k)

/-- `for (let i = 0; i < cur.length; i += k)` -/
def levelOps (hk : 2 ≤ k) (levelNo : Nat) (cur : List String) (i : Nat) : List FoldOp :=
  if i < cur.length then
    { node := nodeId levelNo (i / k), inputs := (cur.drop i).take k } ::
      levelOps hk levelNo cur (i + k)
  else []
termination_by cur.length - i

theorem levelOps_inputs (levelNo : Nat) (cur : List String) (i : Nat) :
    (levelOps hk levelNo cur i).flatMap FoldOp.inputs = cur.drop i := by
  induction i using levelOps.induct hk cur with
  | case1 i hi ih =>
    rw [levelOps, if_pos hi, List.flatMap_cons, ih, ← List.drop_drop, List.take_append_drop]
  | case2 i hi => rw [levelOps, if_neg hi, List.drop_eq_nil_of_le (by omega), List.flatMap_nil]

theorem levelOps_fanIn {levelNo : Nat} {cur : List String} {i : Nat} {op : FoldOp}
    (hop : op ∈ levelOps hk levelNo cur i) : 1 ≤ op.inputs.length ∧ op.inputs.length ≤ k := by
  induction i using levelOps.induct hk cur with
  | case1 i hi ih =>
    rw [levelOps, if_pos hi] at hop
    rcases List.mem_cons.mp hop with rfl | hop
    · rw [List.length_take, List.length_drop]
      omega
    · exact ih hop
  | case2 i hi =>
    rw [levelOps, if_neg hi] at hop
    cases hop

/-- How many groups there are: `Math.ceil(n / k)`. -/
theorem levelOps_length (levelNo : Nat) (cur : List String) (i : Nat) :
    (levelOps hk levelNo cur i).length = (cur.length - i + k - 1) / k := by
  induction i using levelOps.induct hk cur with
  | case1 i hi ih =>
    have hstep : cur.length - i + k - 1 = cur.length - (i + k) + k - 1 + k ∨
        cur.length - (i + k) = 0 ∧ cur.length - i + k - 1 = cur.length - i - 1 + k := by omega
    rw [levelOps, if_pos hi, List.length_cons, ih]
    rcases hstep with hstep | ⟨hzero, hstep⟩
    · rw [hstep, Nat.add_div_right _ (by omega)]
    · rw [hzero, hstep, Nat.add_div_right _ (by omega), Nat.div_eq_of_lt (by omega),
        Nat.div_eq_of_lt (by omega)]
  | case2 i hi =>
    rw [levelOps, if_neg hi, Nat.div_eq_of_lt (by omega), List.length_nil]

/-- The places of the nodes count up from the first. -/
theorem levelOps_nodes (levelNo : Nat) (cur : List String) (j : Nat) :
    (levelOps hk levelNo cur (j * k)).map FoldOp.node =
      (List.range' j (levelOps hk levelNo cur (j * k)).length).map (nodeId levelNo) := by
  obtain ⟨n, hn⟩ : ∃ n, cur.length - j * k = n := ⟨_, rfl⟩
  induction n using Nat.strong_induction_on generalizing j with
  | _ n ih =>
    by_cases h : j * k < cur.length
    · have hnext : j * k + k = (j + 1) * k := (Nat.succ_mul j k).symm
      rw [levelOps, if_pos h, hnext, List.map_cons, List.length_cons, List.range'_succ,
        List.map_cons, ih (cur.length - (j + 1) * k) (by omega) (j + 1) rfl,
        Nat.mul_div_cancel _ (by omega)]
    · rw [levelOps, if_neg h]
      rfl

/-- Groups of at least two are fewer than what is grouped. -/
theorem ceil_lt (hk : 2 ≤ k) {n : Nat} (hn : 1 < n) : (n + k - 1) / k < n := by
  rw [Nat.div_lt_iff_lt_mul (by omega)]
  obtain ⟨m, rfl⟩ : ∃ m, n = m + 2 := ⟨n - 2, by omega⟩
  obtain ⟨j, rfl⟩ : ∃ j, k = j + 2 := ⟨k - 2, by omega⟩
  have hmul : (m + 2) * (j + 2) = m * j + 2 * m + 2 * j + 4 := by ring
  omega

theorem levelOps_shorter {levelNo : Nat} {cur : List String} (h : 1 < cur.length) :
    (levelOps hk levelNo cur 0).length < cur.length := by
  rw [levelOps_length, Nat.sub_zero]
  exact ceil_lt hk h

/-- `while (cur.length > 1)` -/
def foldLoop (hk : 2 ≤ k) (cur : List String) (levelNo : Nat) : FoldTree :=
  if 1 < cur.length then
    let ops := levelOps hk levelNo cur 0
    let above := foldLoop hk (ops.map FoldOp.node) (levelNo + 1)
    { above with levels := ops :: above.levels, txCount := ops.length + above.txCount }
  else { levels := [], rootId := cur.headD "", txCount := 0 }
termination_by cur.length
decreasing_by
  rw [List.length_map]
  exact levelOps_shorter hk ‹_›

/-- The loop of `foldTxCount`. -/
def countLoop (hk : 2 ≤ k) (n : Nat) : Nat :=
  if 1 < n then (n + k - 1) / k + countLoop hk ((n + k - 1) / k) else 0
termination_by n
decreasing_by exact ceil_lt hk ‹_›

end Loops

def buildFoldTree (shardLeaves : List String) (k : Nat) : Except String FoldTree :=
  if hk : k < 2 then .error ("fan-in k must be >= 2, got " ++ Nat.repr k)
  else
    match shardLeaves with
    | [] => .error "no shard leaves to fold"
    | [id] => .ok { levels := [], rootId := id, txCount := 0 }
    | ids => .ok (foldLoop (not_lt.mp hk) ids 0)

def foldTxCount {k : Nat} (hk : 2 ≤ k) (nShards : Nat) : Nat :=
  if nShards ≤ 1 then 0 else countLoop hk nShards

/-! ### The names -/

theorem toList_repr_inj {m n : Nat} (h : (Nat.repr m).toList = (Nat.repr n).toList) : m = n := by
  rw [Nat.toList_repr, Nat.toList_repr] at h
  rw [← @Nat.ofDigitChars_ten_toDigits m, h, Nat.ofDigitChars_ten_toDigits]

theorem colon_not_mem_repr (n : Nat) : ':' ∉ (Nat.repr n).toList := by
  intro h
  have hdigit := Nat.isDigit_of_mem_toDigits (by decide) (by decide)
    (Nat.toList_repr ▸ h : ':' ∈ Nat.toDigits 10 n)
  exact absurd hdigit (by decide)

/-- What stands before the first colon. -/
theorem append_colon_inj {a b c d : List Char} (ha : ':' ∉ a) (hb : ':' ∉ b)
    (h : a ++ ':' :: c = b ++ ':' :: d) : a = b ∧ c = d := by
  have htake : ∀ {a c : List Char}, ':' ∉ a →
      (a ++ ':' :: c).takeWhile (fun x => x ≠ ':') = a := by
    intro a c ha
    rw [List.takeWhile_append_of_pos (by
      intro x hx
      simp only [ne_eq, decide_eq_true_eq]
      rintro rfl
      exact ha hx)]
    simp
  have hab : a = b := by
    rw [← htake (c := c) ha, h, htake hb]
  subst hab
  exact ⟨rfl, List.cons.inj (List.append_cancel_left h) |>.2⟩

theorem nodeId_inj {l l' p p' : Nat} : nodeId l p = nodeId l' p' ↔ l = l' ∧ p = p' := by
  constructor
  · intro h
    have hlist : (Nat.repr l).toList ++ ':' :: (Nat.repr p).toList =
        (Nat.repr l').toList ++ ':' :: (Nat.repr p').toList := by
      have := congrArg String.toList h
      simpa [nodeId] using this
    obtain ⟨hl, hp⟩ := append_colon_inj (colon_not_mem_repr l) (colon_not_mem_repr l') hlist
    exact ⟨toList_repr_inj hl, toList_repr_inj hp⟩
  · rintro ⟨rfl, rfl⟩
    rfl

/-! ### The tree -/

namespace FoldTree

variable (t : FoldTree)

def nodes : List String := t.levels.flatMap fun ops => ops.map FoldOp.node

def inputs : List String := t.levels.flatMap fun ops => ops.flatMap FoldOp.inputs

end FoldTree

/-- What the nodes of a level were made of. -/
def openLevel (ops : List FoldOp) (ids : List String) : List String :=
  ids.flatMap fun id => ((ops.find? fun op => op.node = id).map FoldOp.inputs).getD []

/-- The root opened level by level, down to the leaves. -/
def FoldTree.leavesUnder (t : FoldTree) : List String := t.levels.foldr openLevel [t.rootId]

section Tree

variable {k : Nat} (hk : 2 ≤ k)

theorem foldLoop_of_le {cur : List String} (h : ¬ 1 < cur.length) (levelNo : Nat) :
    foldLoop hk cur levelNo = { levels := [], rootId := cur.headD "", txCount := 0 } := by
  rw [foldLoop, if_neg h]

theorem singleton_of_le {cur : List String} (hne : cur ≠ []) (h : ¬ 1 < cur.length) :
    cur = [cur.headD ""] := by
  match cur, hne, h with
  | [a], _, _ => rfl
  | a :: b :: cur, _, h => exact absurd (by simp) h

theorem levelOps_ne_nil (levelNo : Nat) {cur : List String} (h : 1 < cur.length) :
    (levelOps hk levelNo cur 0).map FoldOp.node ≠ [] := by
  rw [levelOps, if_pos (by omega), List.map_cons]
  exact List.cons_ne_nil _ _

theorem levelOps_inputs_zero (levelNo : Nat) (cur : List String) :
    (levelOps hk levelNo cur 0).flatMap FoldOp.inputs = cur := by
  rw [levelOps_inputs, List.drop_zero]

theorem levelOps_nodes_zero (levelNo : Nat) (cur : List String) :
    (levelOps hk levelNo cur 0).map FoldOp.node =
      (List.range (levelOps hk levelNo cur 0).length).map (nodeId levelNo) := by
  have h := levelOps_nodes hk levelNo cur 0
  rwa [Nat.zero_mul, ← List.range_eq_range'] at h

theorem nodup_levelOps (levelNo : Nat) (cur : List String) :
    ((levelOps hk levelNo cur 0).map FoldOp.node).Nodup := by
  rw [levelOps_nodes_zero]
  exact List.nodup_range.map fun p p' he => (nodeId_inj.mp he).2

/-- **Everything but the root is consumed**, in order: the list that is folded, and then the nodes
as they are made. -/
theorem inputs_foldLoop {cur : List String} (hne : cur ≠ []) (levelNo : Nat) :
    (foldLoop hk cur levelNo).inputs ++ [(foldLoop hk cur levelNo).rootId] =
      cur ++ (foldLoop hk cur levelNo).nodes := by
  induction cur, levelNo using foldLoop.induct hk with
  | case1 cur levelNo h ops ih =>
    have hstep := ih (levelOps_ne_nil hk levelNo h)
    have hin : ops.flatMap FoldOp.inputs = cur := levelOps_inputs_zero hk levelNo cur
    rw [foldLoop, if_pos h]
    simp only [FoldTree.inputs, FoldTree.nodes, List.flatMap_cons] at hstep ⊢
    rw [List.append_assoc, hstep, hin]
  | case2 cur levelNo h =>
    rw [foldLoop_of_le hk h]
    exact (singleton_of_le hne h).symm ▸ rfl

/-- No node is made twice: those made from a level on are named by that level and later ones. -/
theorem nodes_foldLoop (cur : List String) (levelNo : Nat) :
    (foldLoop hk cur levelNo).nodes.Nodup ∧
      ∀ id ∈ (foldLoop hk cur levelNo).nodes, ∃ l p, levelNo ≤ l ∧ id = nodeId l p := by
  induction cur, levelNo using foldLoop.induct hk with
  | case1 cur levelNo h ops ih =>
    have hnodes : ops.map FoldOp.node = (List.range ops.length).map (nodeId levelNo) :=
      levelOps_nodes_zero hk levelNo cur
    obtain ⟨hnd, hlater⟩ := ih
    rw [foldLoop, if_pos h]
    simp only [FoldTree.nodes, List.flatMap_cons] at hnd hlater ⊢
    have hfirst : ∀ id ∈ ops.map FoldOp.node, ∃ p, id = nodeId levelNo p := by
      intro id hid
      rw [hnodes] at hid
      obtain ⟨p, -, rfl⟩ := List.mem_map.mp hid
      exact ⟨p, rfl⟩
    refine ⟨List.nodup_append.mpr ⟨nodup_levelOps hk levelNo cur, hnd, ?_⟩, ?_⟩
    · rintro id hid _ hid' rfl
      obtain ⟨p, hp⟩ := hfirst id hid
      obtain ⟨l, p', hl, hp'⟩ := hlater id hid'
      have := (nodeId_inj.mp (hp.symm.trans hp')).1
      omega
    · intro id hid
      rcases List.mem_append.mp hid with hid | hid
      · obtain ⟨p, rfl⟩ := hfirst id hid
        exact ⟨levelNo, p, le_rfl, rfl⟩
      · obtain ⟨l, p, hl, rfl⟩ := hlater id hid
        exact ⟨l, p, by omega, rfl⟩
  | case2 cur levelNo h =>
    rw [foldLoop_of_le hk h]
    exact ⟨List.nodup_nil, fun id hid => by cases hid⟩

theorem find_node {ops : List FoldOp} (hnd : (ops.map FoldOp.node).Nodup) {op : FoldOp}
    (hop : op ∈ ops) : ops.find? (fun o => o.node = op.node) = some op := by
  induction ops with
  | nil => cases hop
  | cons o ops ih =>
    rw [List.map_cons, List.nodup_cons] at hnd
    rcases List.mem_cons.mp hop with rfl | hop
    · exact List.find?_cons_of_pos (by simp)
    · have hne : o.node ≠ op.node := fun he => hnd.1 (he ▸ List.mem_map_of_mem hop)
      rw [List.find?_cons_of_neg (by simpa using hne), ih hnd.2 hop]

/-- The nodes of a level, opened. -/
theorem openLevel_nodes {ops : List FoldOp} (hnd : (ops.map FoldOp.node).Nodup) :
    openLevel ops (ops.map FoldOp.node) = ops.flatMap FoldOp.inputs := by
  rw [openLevel, List.flatMap_map]
  apply List.flatMap_congr
  intro op hop
  rw [find_node hnd hop]
  rfl

/-- **The leaves come back in their order.** -/
theorem leavesUnder_foldLoop {cur : List String} (hne : cur ≠ []) (levelNo : Nat) :
    (foldLoop hk cur levelNo).leavesUnder = cur := by
  induction cur, levelNo using foldLoop.induct hk with
  | case1 cur levelNo h ops ih =>
    have hnd : (ops.map FoldOp.node).Nodup := nodup_levelOps hk levelNo cur
    have hstep := ih (levelOps_ne_nil hk levelNo h)
    rw [foldLoop, if_pos h]
    simp only [FoldTree.leavesUnder, List.foldr_cons] at hstep ⊢
    rw [hstep, openLevel_nodes hnd, levelOps_inputs_zero]
  | case2 cur levelNo h =>
    rw [foldLoop_of_le hk h]
    exact (singleton_of_le hne h).symm

theorem fanIn_foldLoop {cur : List String} {levelNo : Nat} {ops : List FoldOp} {op : FoldOp}
    (hops : ops ∈ (foldLoop hk cur levelNo).levels) (hop : op ∈ ops) :
    1 ≤ op.inputs.length ∧ op.inputs.length ≤ k := by
  induction cur, levelNo using foldLoop.induct hk with
  | case1 cur levelNo h first ih =>
    rw [foldLoop, if_pos h] at hops
    rcases List.mem_cons.mp hops with rfl | hops
    · exact levelOps_fanIn hk hop
    · exact ih hops
  | case2 cur levelNo h =>
    rw [foldLoop_of_le hk h] at hops
    cases hops

/-- The last level makes one node, which is the root. -/
theorem lastLevel_foldLoop {cur : List String} (h : 1 < cur.length) (levelNo : Nat) :
    ∃ below op, (foldLoop hk cur levelNo).levels = below ++ [[op]] ∧
      op.node = (foldLoop hk cur levelNo).rootId := by
  induction cur, levelNo using foldLoop.induct hk with
  | case1 cur levelNo _ ops ih =>
    rw [foldLoop, if_pos h]
    by_cases hmore : 1 < (ops.map FoldOp.node).length
    · obtain ⟨below, op, hlevels, hroot⟩ := ih hmore
      refine ⟨ops :: below, op, ?_, hroot⟩
      show ops :: (foldLoop hk (ops.map FoldOp.node) (levelNo + 1)).levels = _
      rw [hlevels, List.cons_append]
    · obtain ⟨op, hop⟩ : ∃ op, ops = [op] := by
        have hpos := List.length_pos_iff.mpr (levelOps_ne_nil hk levelNo h)
        apply List.length_eq_one_iff.mp
        rw [List.length_map] at hmore hpos
        exact le_antisymm (not_lt.mp hmore) hpos
      refine ⟨[], op, ?_, ?_⟩
      · show ops :: (foldLoop hk (ops.map FoldOp.node) (levelNo + 1)).levels = _
        rw [foldLoop_of_le hk hmore, hop]
        rfl
      · show op.node = (foldLoop hk (ops.map FoldOp.node) (levelNo + 1)).rootId
        rw [foldLoop_of_le hk hmore, hop]
        rfl
  | case2 cur levelNo hle => exact absurd h hle

/-- **The transactions that are planned**: one for each node, and as many as are counted ahead. -/
theorem txCount_foldLoop (cur : List String) (levelNo : Nat) :
    (foldLoop hk cur levelNo).txCount = (foldLoop hk cur levelNo).nodes.length ∧
      (foldLoop hk cur levelNo).txCount = countLoop hk cur.length := by
  induction cur, levelNo using foldLoop.induct hk with
  | case1 cur levelNo h ops ih =>
    obtain ⟨hnodes, hcount⟩ := ih
    have hlen : ops.length = (cur.length + k - 1) / k := levelOps_length hk levelNo cur 0
    rw [List.length_map] at hcount
    rw [foldLoop, if_pos h, countLoop, if_pos h, ← hlen]
    simp only [FoldTree.nodes, List.flatMap_cons, List.length_append] at hnodes ⊢
    rw [← hnodes, ← hcount, List.length_map]
    exact ⟨rfl, rfl⟩
  | case2 cur levelNo h =>
    rw [foldLoop_of_le hk h, countLoop, if_neg h]
    exact ⟨rfl, rfl⟩

theorem foldTxCount_eq (n : Nat) : foldTxCount hk n = countLoop hk n := by
  unfold foldTxCount
  by_cases h : n ≤ 1
  · rw [if_pos h, countLoop, if_neg (not_lt.mpr h)]
  · rw [if_neg h]

end Tree

/-! ### The plan -/

/-- What a plan to fold some leaves, at most `k` at a time, must be. -/
structure Plans (k : Nat) (shardLeaves : List String) (t : FoldTree) : Prop where
  consumed : t.inputs ++ [t.rootId] = shardLeaves ++ t.nodes
  distinct : t.nodes.Nodup
  fanIn : ∀ ops ∈ t.levels, ∀ op ∈ ops, 1 ≤ op.inputs.length ∧ op.inputs.length ≤ k
  root : (t.levels = [] ∧ shardLeaves = [t.rootId]) ∨
    ∃ below op, t.levels = below ++ [[op]] ∧ op.node = t.rootId
  leaves : t.leavesUnder = shardLeaves
  txCount : t.txCount = t.nodes.length

theorem foldLoop_plans {k : Nat} (hk : 2 ≤ k) {ids : List String} (hne : ids ≠ []) :
    Plans k ids (foldLoop hk ids 0) where
  consumed := inputs_foldLoop hk hne 0
  distinct := (nodes_foldLoop hk ids 0).1
  fanIn := fun _ hops _ hop => fanIn_foldLoop hk hops hop
  root := by
    by_cases h : 1 < ids.length
    · exact Or.inr (lastLevel_foldLoop hk h 0)
    · rw [foldLoop_of_le hk h]
      exact Or.inl ⟨rfl, singleton_of_le hne h⟩
  leaves := leavesUnder_foldLoop hk hne 0
  txCount := (txCount_foldLoop hk ids 0).1

theorem buildFoldTree_eq {k : Nat} (hk : 2 ≤ k) {ids : List String} (hne : ids ≠ []) :
    buildFoldTree ids k = .ok (foldLoop hk ids 0) := by
  rw [buildFoldTree, dif_neg (not_lt.mpr hk)]
  match ids, hne with
  | [id], _ =>
    rw [foldLoop_of_le hk (by simp)]
    rfl
  | a :: b :: ids, _ => rfl

/-- **Fold planning**, of every list of leaves: without a leaf there is nothing to fold, and
otherwise there is a plan, of as many transactions as are counted ahead. -/
theorem buildFoldTree_plans {k : Nat} (hk : 2 ≤ k) (shardLeaves : List String) :
    (shardLeaves = [] → buildFoldTree shardLeaves k = .error "no shard leaves to fold") ∧
      (shardLeaves ≠ [] → ∃ t, buildFoldTree shardLeaves k = .ok t ∧ Plans k shardLeaves t ∧
        t.txCount = foldTxCount hk shardLeaves.length) := by
  refine ⟨?_, fun hne => ⟨_, buildFoldTree_eq hk hne, foldLoop_plans hk hne, ?_⟩⟩
  · rintro rfl
    rw [buildFoldTree, dif_neg (not_lt.mpr hk)]
  · rw [foldTxCount_eq]
    exact (txCount_foldLoop hk shardLeaves 0).2

theorem buildFoldTree_nothing : ¬ ∃ t, buildFoldTree [] 2 = .ok t := by
  rintro ⟨t, ht⟩
  cases ht

/-- Five shards by twos: a shard is left over on the first level, and a node on the second. -/
theorem buildFoldTree_plans_five :
    ∃ t, buildFoldTree ["a", "b", "c", "d", "e"] 2 = .ok t ∧
      Plans 2 ["a", "b", "c", "d", "e"] t ∧ t.txCount = foldTxCount le_rfl 5 :=
  (buildFoldTree_plans le_rfl ["a", "b", "c", "d", "e"]).2 (List.cons_ne_nil _ _)

end KANet.Settle
