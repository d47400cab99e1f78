import KANet.Zk.Guest

/-!
# The tree that the guest builds

`payout_root` keeps a level without its pads.  Where the last node of a level stands
alone, its sibling is looked up in a table of the roots of trees of pads only.  Here the
table is filled and a level is walked turn by turn, as the program does it.

* `zero_at_table_getD` — the table holds the roots of the trees of pads.
* `compact_root_eq` — the walk ends at the root of the full tree of 1024 leaves.
-/

namespace KANet.Zk.Guest

open KANet.Lib KANet.Script KANet.Covenant

/-- The turn `d` of the loop that fills the table. -/
def tableTurn (e : Engine) (t : List Bytes32) (d : Nat) : List Bytes32 :=
  t.set (d + 1) (hashNode e (t.getD d ZERO32) (t.getD d ZERO32))

def zero_at_table (e : Engine) : List Bytes32 :=
  (List.range Payout.DEPTH).foldl (tableTurn e) (List.replicate (Payout.DEPTH + 1) ZERO32)

/-- `while i < width`, with the next level so far. -/
def pairLoop (e : Engine) (zero : Bytes32) (level : List Bytes32) (i : Nat)
    (next : List Bytes32) : List Bytes32 :=
  if i < level.length then
    let left := level.getD i ZERO32
    let right := if i + 1 < level.length then level.getD (i + 1) ZERO32 else zero
    pairLoop e zero level (i + 2) (next ++ [hashNode e left right])
  else next
termination_by level.length - i

/-- `payout_root` from the hashed leaves on. -/
def compact_root (e : Engine) (hashes : List Bytes32) : Option Bytes32 :=
  ((List.range Payout.DEPTH).foldl
    (fun level d => pairLoop e ((zero_at_table e).getD d ZERO32) level 0 []) hashes).head?

/-- The last level of `levelsOf`, from the hashed leaves on. -/
def padded_root (e : Engine) (hashes : List Bytes32) : Bytes32 :=
  ((Payout.levelsFrom e Payout.DEPTH (Merkle.pad ZERO32 Payout.DEPTH hashes)).getD
    Payout.DEPTH []).headD ZERO32

/-! ### The table -/

/-- What is written after `n` turns, of a table with room for more. -/
theorem tableTurns_getD (e : Engine) {m n d : Nat} (hn : n ≤ m) (hd : d ≤ n) :
    ((List.range n).foldl (tableTurn e) (List.replicate (m + 1) ZERO32)).length = m + 1 ∧
      ((List.range n).foldl (tableTurn e) (List.replicate (m + 1) ZERO32)).getD d ZERO32 =
        zero_at e d := by
  induction n generalizing d with
  | zero =>
    obtain rfl : d = 0 := by omega
    exact ⟨List.length_replicate, rfl⟩
  | succ n ih =>
    have hlast := (ih (by omega) le_rfl).2
    rw [List.range_succ, List.foldl_append, List.foldl_cons, List.foldl_nil]
    generalize (List.range n).foldl (tableTurn e) (List.replicate (m + 1) ZERO32) = t at ih hlast
    have hlen : t.length = m + 1 := (ih (by omega) (Nat.zero_le n)).1
    refine ⟨by rw [tableTurn, List.length_set, hlen], ?_⟩
    rw [tableTurn, hlast, List.getD_eq_getElem?_getD]
    rcases Nat.lt_or_ge n d with h | h
    · -- the entry that this turn writes
      obtain rfl : d = n + 1 := by omega
      rw [List.getElem?_set_self (by omega), Option.getD_some, zero_at]
    · rw [List.getElem?_set_ne (by omega), ← List.getD_eq_getElem?_getD]
      exact (ih (by omega) h).2

theorem zero_at_table_getD (e : Engine) {d : Nat} (hd : d ≤ Payout.DEPTH) :
    (zero_at_table e).getD d ZERO32 = zero_at e d :=
  (tableTurns_getD e le_rfl hd).2

/-! ### The levels -/

theorem pairLoop_eq (e : Engine) (zero : Bytes32) (level : List Bytes32) (i : Nat)
    (next : List Bytes32) :
    pairLoop e zero level i next =
      next ++ Merkle.joinPrefix (hashNode e) zero (level.drop i) := by
  induction i, next using pairLoop.induct e zero level with
  | case1 i next hi left right ih =>
    rw [pairLoop, if_pos hi]
    refine ih.trans ?_
    rw [List.append_assoc, List.drop_eq_getElem_cons hi]
    have hleft : left = level[i] := List.getD_eq_getElem _ _ hi
    by_cases hr : i + 1 < level.length
    · have hright : right = level[i + 1] :=
        (if_pos hr).trans (List.getD_eq_getElem _ _ hr)
      rw [hleft, hright, List.drop_eq_getElem_cons hr]
      rfl
    · have hright : right = zero := if_neg hr
      rw [hleft, hright, List.drop_eq_nil_of_le (by omega), List.drop_eq_nil_of_le (by omega)]
      rfl
  | case2 i next hi =>
    rw [pairLoop, if_neg hi, List.drop_eq_nil_of_le (by omega), Merkle.joinPrefix,
      List.append_nil]

/-- The turns from level `d` on. -/
theorem levelTurns_eq (e : Engine) {n d : Nat} (h : d + n ≤ Payout.DEPTH)
    (level : List Bytes32) :
    (List.range' d n).foldl
        (fun level d => pairLoop e ((zero_at_table e).getD d ZERO32) level 0 []) level =
      levelLoop e n d level := by
  induction n generalizing d level with
  | zero => rfl
  | succ n ih =>
    rw [List.range'_succ, List.foldl_cons, ih (by omega), levelLoop, pairLoop_eq,
      zero_at_table_getD e (by omega), List.nil_append, List.drop_zero]

theorem compact_root_eq_levelLoop (e : Engine) (hashes : List Bytes32) :
    compact_root e hashes = (levelLoop e Payout.DEPTH 0 hashes).head? := by
  rw [compact_root, List.range_eq_range', levelTurns_eq e (Nat.zero_add _).le]

theorem mapM_payout_leaf {e : Engine} {leaves : List PayoutLeaf} {hashes : List Bytes32} :
    leaves.mapM (fun w => payout_leaf e w.pk w.amount) = some hashes ↔
      (∀ w ∈ leaves, w.toLeaf.Payable) ∧ (leaves.map fun w => w.toLeaf.hash e) = hashes := by
  have hmap : leaves.mapM (fun w => payout_leaf e w.pk w.amount) =
      (leaves.map PayoutLeaf.toLeaf).mapM fun w => Payout.payoutLeaf e w.pk w.amount := by
    rw [List.mapM_map]
    exact congrArg (fun f => leaves.mapM f) (funext fun w => payout_leaf_eq e w)
  rw [hmap, Payout.mapM_payoutLeaf, List.map_map]
  simp only [List.forall_mem_map]
  exact Iff.rfl

theorem payout_root_eq_compact {e : Engine} {leaves : List PayoutLeaf} {hashes : List Bytes32}
    (hne : leaves ≠ []) (hcap : leaves.length ≤ Payout.CAP)
    (hh : leaves.mapM (fun w => payout_leaf e w.pk w.amount) = some hashes) :
    payout_root e leaves = compact_root e hashes := by
  rw [payout_root, require, if_pos hcap, require, if_pos hne, hh, compact_root_eq_levelLoop]
  rfl

theorem compact_root_eq {e : Engine} {hashes : List Bytes32} (hne : hashes ≠ [])
    (hcap : hashes.length ≤ Payout.CAP) :
    compact_root e hashes = some (padded_root e hashes) := by
  rw [compact_root_eq_levelLoop, levelLoop_head e _ _ hne, padded_root, Payout.levelsFrom_last]
  exact congrArg some (Merkle.prefixRoot_eq hcap)

/-- **The compact tree is the padded tree.**  From 1 to 1024 hashed leaves both ways of building
end at one root; and when these are the leaves of a list, it is the root that the guest
commits to and that `pool-payout-root.mjs` computes. -/
theorem compact_tree (e : Engine) {hashes : List Bytes32} (hne : hashes ≠ [])
    (hcap : hashes.length ≤ Payout.CAP) :
    compact_root e hashes = some (padded_root e hashes) ∧
      ∀ leaves : List PayoutLeaf,
        leaves.mapM (fun w => payout_leaf e w.pk w.amount) = some hashes →
          payout_root e leaves = some (padded_root e hashes) ∧
            Payout.payoutRoot e (leaves.map PayoutLeaf.toLeaf) =
              some (padded_root e hashes) := by
  have hroot := compact_root_eq (e := e) hne hcap
  refine ⟨hroot, fun leaves hleaves => ?_⟩
  have hlen : leaves.length = hashes.length := by
    rw [← (mapM_payout_leaf.mp hleaves).2, List.length_map]
  have hleft : leaves ≠ [] := by
    rintro rfl
    exact hne (List.length_eq_zero_iff.mp hlen.symm)
  have hguest := (payout_root_eq_compact hleft (hlen.trans_le hcap) hleaves).trans hroot
  exact ⟨hguest, (payout_root_eq_some.mp hguest).2⟩

def compactLeaves : List PayoutLeaf := [⟨samplePk 0, 500⟩, ⟨samplePk 1, 128⟩, ⟨samplePk 2, 1⟩]

def compactHashes : List Bytes32 := compactLeaves.map fun w => w.toLeaf.hash sampleEngine

theorem compact_tree_sample :
    compact_root sampleEngine compactHashes = some (padded_root sampleEngine compactHashes) ∧
      payout_root sampleEngine compactLeaves = some (padded_root sampleEngine compactHashes) := by
  have hpay : ∀ w ∈ compactLeaves, w.toLeaf.Payable := by
    have h : ∀ w ∈ compactLeaves, 0 < w.toLeaf.amount ∧ Fits 8 w.toLeaf.amount := by decide
    exact fun w hw => ⟨w.pk.toList_length, (h w hw).1, (h w hw).2⟩
  have h := compact_tree sampleEngine (List.cons_ne_nil _ _ : compactHashes ≠ [])
    (show 3 ≤ 1024 by norm_num)
  exact ⟨h.1, (h.2 compactLeaves (mapM_payout_leaf.mpr ⟨hpay, rfl⟩)).1⟩

end KANet.Zk.Guest
