import KANet.Lib.Refuse
import Mathlib.Algebra.Order.Field.Rat
import Mathlib.Data.List.MinMax
import Mathlib.Data.Nat.Cast.Order.Ring
import Mathlib.Logic.Relation

/-!
# The end block

The committee of a market is drawn from the first block of the selected chain whose DAA score has
reached the deadline.  The relay looks for it in two ways.  Where it remembers a block below the
deadline it asks the node for what comes after, page by page, and takes the lowest block of the
chain on the first page that reaches the deadline.  Otherwise it walks back from the tip along the
selected parents.

The block it remembers need not be below the end block: a block beside the chain is merged later,
and what comes after it begins above the end block.

* `backward_isEnd` — the walk finds the end block or gives up.
* `forward_isEnd_iff` — the pages give it exactly when it is among what comes after the anchor.
* `getBlockAtDaa_iff` — when the relay's answer is the end block.
-/

namespace KANet.Relay

open KANet.Lib Relation

variable {H : Type} [DecidableEq H]

/-! ### What the relay does -/

/-- A block as the node gives it. -/
structure Block (H : Type) where
  hash : H
  daaScore : Nat
  timestamp_ms : Nat
  isChainBlock : Bool
  selectedParentHash : Option H
deriving DecidableEq

/-- A block the relay remembers. -/
structure RecentBlock (H : Type) where
  hash : H
  daaScore : Nat
  timestamp_ms : Nat
  isChainBlock : Bool

structure EndBlock (H : Type) where
  hash : H
  daaScore : Nat
  timestamp_ms : Nat
deriving DecidableEq

def Block.toEnd (b : Block H) : EndBlock H := ⟨b.hash, b.daaScore, b.timestamp_ms⟩

structure Page (H : Type) where
  blocks : List (Block H)
  blockHashes : List H

/-- The node, which may fail to answer. -/
structure Rpc (H : Type) where
  getBlock : H → Option (Block H)
  getBlocks : H → Option (Page H)
  sink : Option H

/-- The block to go on from. -/
def Page.lastHash (page : Page H) : Option H :=
  page.blockHashes.getLast?.or (page.blocks.getLast?.map Block.hash)

inductive WalkError
  | deadline
  | rpc
  | sink
  | malformed
  | tooNew
  | notFound
deriving DecidableEq

def MAX_PAGES : Nat := 300

/-- The remembered block with the highest score below the deadline. -/
def anchorOf (recentBlocks : List (RecentBlock H)) (deadlineDaa : ℚ) : Option (RecentBlock H) :=
  (recentBlocks.filter fun b => (b.daaScore : ℚ) < deadlineDaa).argmax (·.daaScore)

/-- The blocks of the chain that have reached the deadline. -/
def Crosses (deadlineDaa : ℚ) (b : Block H) : Prop :=
  b.isChainBlock = true ∧ deadlineDaa ≤ b.daaScore

instance (deadlineDaa : ℚ) (b : Block H) : Decidable (Crosses deadlineDaa b) :=
  inferInstanceAs (Decidable (_ ∧ _))

/-- The lowest of them on a page. -/
def lowest (deadlineDaa : ℚ) (blocks : List (Block H)) : Option (EndBlock H) :=
  ((blocks.filter fun b => Crosses deadlineDaa b).argmin (·.daaScore)).map Block.toEnd

/-- Page by page from a cursor. -/
def forward (rpc : Rpc H) (deadlineDaa : ℚ) : Nat → H → Option (EndBlock H)
  | 0, _ => none
  | n + 1, cursor => do
    let page ← rpc.getBlocks cursor
    if page.blocks.isEmpty then none
    else (lowest deadlineDaa page.blocks).or do
      let lastHash ← page.lastHash
      if lastHash = cursor then none else forward rpc deadlineDaa n lastHash

/-- From a block of the chain down, with the last block that had reached the deadline. -/
def backward (rpc : Rpc H) (deadlineDaa : ℚ) :
    Nat → H → Option (EndBlock H) → Except WalkError (EndBlock H)
  | 0, _, lastEligible => do
    let e ← orRefuse lastEligible .notFound
    check (¬ deadlineDaa < e.daaScore) .tooNew
    .ok e
  | n + 1, cursor, lastEligible => do
    let blk ← orRefuse (rpc.getBlock cursor) .rpc
    check (blk.daaScore ≠ 0) .malformed
    if deadlineDaa ≤ blk.daaScore then
      match blk.selectedParentHash with
      | none => .ok blk.toEnd
      | some sp => backward rpc deadlineDaa n sp (some blk.toEnd)
    else orRefuse lastEligible .notFound

/-- `index` is what the console's index of the chain covers. -/
def getBlockAtDaa (rpc : Rpc H) (index : Option (EndBlock H)) (MAX_WALK : Nat)
    (recentBlocks : List (RecentBlock H)) (deadlineDaa : ℚ) : Except WalkError (EndBlock H) := do
  check (0 < deadlineDaa) .deadline
  match index with
  | some e => .ok e
  | none =>
    match (anchorOf recentBlocks deadlineDaa).bind fun anchor =>
        forward rpc deadlineDaa MAX_PAGES anchor.hash with
    | some best => .ok best
    | none => do
      let startHash ← orRefuse rpc.sink .sink
      backward rpc deadlineDaa MAX_WALK startHash none

/-- The pages a cursor goes through. -/
def pages (rpc : Rpc H) : Nat → H → List (List (Block H))
  | 0, _ => []
  | n + 1, cursor => (rpc.getBlocks cursor).toList.flatMap fun page =>
    if page.blocks.isEmpty then []
    else page.blocks :: page.lastHash.toList.flatMap fun lastHash =>
      if lastHash = cursor then [] else pages rpc n lastHash

/-! ### Block DAGs -/

/-- The selected parent of a block. -/
def Selects (block : H → Option (Block H)) (h p : H) : Prop :=
  ∃ b, block h = some b ∧ b.selectedParentHash = some p

/-- A block DAG and its selected chain, along which the scores increase. -/
structure Dag (H : Type) [DecidableEq H] where
  block : H → Option (Block H)
  parents : H → List H
  sink : H
  hash_eq : ∀ h b, block h = some b → b.hash = h
  sink_mem : (block sink).isSome
  selected : ∀ h p, Selects block h p → p ∈ parents h ∧ (block p).isSome
  chain_iff : ∀ h b, block h = some b →
    (b.isChainBlock = true ↔ ReflTransGen (Selects block) sink h)
  increasing : ∀ h b p c, ReflTransGen (Selects block) sink h → block h = some b →
    b.selectedParentHash = some p → block p = some c → c.daaScore < b.daaScore

namespace Dag

variable (d : Dag H)

def OnChain (h : H) : Prop := ReflTransGen (Selects d.block) d.sink h

/-- The second block is the first, or in its past. -/
def Past (h a : H) : Prop := ReflTransGen (fun h p => p ∈ d.parents h) h a

/-- **The end block**: the lowest of the selected chain that has reached the deadline. -/
structure IsEnd (deadlineDaa : ℚ) (b : Block H) : Prop where
  mem : d.block b.hash = some b
  crosses : Crosses deadlineDaa b
  lowest : ∀ c, d.block c.hash = some c → Crosses deadlineDaa c → b.daaScore ≤ c.daaScore

end Dag

/-- What the node answers is the DAG. -/
structure Serves (rpc : Rpc H) (d : Dag H) : Prop where
  getBlock : ∀ h b, rpc.getBlock h = some b → d.block h = some b
  sink : ∀ h, rpc.sink = some h → h = d.sink

variable {d : Dag H} {rpc : Rpc H} {deadlineDaa : ℚ}

theorem selects_unique : Relator.RightUnique (Selects d.block) := by
  intro h p q hp hq
  obtain ⟨b, hb, hbp⟩ := hp
  obtain ⟨c, hc, hcq⟩ := hq
  rw [hb] at hc
  obtain rfl := Option.some.inj hc
  rw [hbp] at hcq
  exact Option.some.inj hcq

/-- Of two blocks of the chain one is below the other. -/
theorem onChain_total {h k : H} (hh : d.OnChain h) (hk : d.OnChain k) :
    ReflTransGen (Selects d.block) h k ∨ ReflTransGen (Selects d.block) k h :=
  ReflTransGen.total_of_right_unique selects_unique hh hk

/-- Below a block of the chain the scores are lower. -/
theorem daaScore_lt_of_below {h k : H} {b c : Block H} (hh : d.OnChain h)
    (hb : d.block h = some b) (hc : d.block k = some c)
    (hbelow : ReflTransGen (Selects d.block) h k) : h = k ∨ c.daaScore < b.daaScore := by
  induction hbelow generalizing c with
  | refl => exact Or.inl rfl
  | @tail m k hm hs ih =>
    right
    obtain ⟨b', hb', hsp⟩ := hs
    have hlt := d.increasing m b' k c (hh.trans hm) hb' hsp hc
    rcases ih hb' with rfl | hlt'
    · rw [hb] at hb'
      obtain rfl := Option.some.inj hb'
      exact hlt
    · exact hlt.trans hlt'

/-- Scores tell the blocks of the chain apart. -/
theorem eq_of_daaScore_eq {h k : H} {b c : Block H} (hh : d.OnChain h) (hk : d.OnChain k)
    (hb : d.block h = some b) (hc : d.block k = some c) (heq : b.daaScore = c.daaScore) :
    h = k := by
  rcases onChain_total hh hk with hbelow | hbelow
  · rcases daaScore_lt_of_below hh hb hc hbelow with rfl | hlt
    · rfl
    · omega
  · rcases daaScore_lt_of_below hk hc hb hbelow with rfl | hlt
    · rfl
    · omega

theorem Dag.IsEnd.onChain {b : Block H} (h : d.IsEnd deadlineDaa b) : d.OnChain b.hash :=
  (d.chain_iff _ b h.mem).mp h.crosses.1

/-- **There is one end block.** -/
theorem Dag.IsEnd.unique {b c : Block H} (hb : d.IsEnd deadlineDaa b)
    (hc : d.IsEnd deadlineDaa c) : b = c := by
  have hle := hb.lowest c hc.mem hc.crosses
  have hge := hc.lowest b hb.mem hb.crosses
  have heq := eq_of_daaScore_eq hb.onChain hc.onChain hb.mem hc.mem (by omega)
  have := hb.mem
  rw [heq, hc.mem] at this
  exact (Option.some.inj this).symm

/-- Where the walk is: the last block that had reached the deadline was just above. -/
structure Walks (d : Dag H) (deadlineDaa : ℚ) (cursor : H) (lastEligible : Option (EndBlock H)) :
    Prop where
  onChain : d.OnChain cursor
  first : lastEligible = none → cursor = d.sink
  above : ∀ e ∈ lastEligible, ∃ b, b.toEnd = e ∧ d.block b.hash = some b ∧ d.OnChain b.hash ∧
    deadlineDaa ≤ b.daaScore ∧ b.selectedParentHash = some cursor

/-- A block of the chain is the end block if every block below it is below the deadline. -/
theorem isEnd_of_below {b : Block H} (hmem : d.block b.hash = some b) (hchain : d.OnChain b.hash)
    (hdaa : deadlineDaa ≤ b.daaScore)
    (hbelow : ∀ c, d.block c.hash = some c → c.hash ≠ b.hash →
      ReflTransGen (Selects d.block) b.hash c.hash → ¬ deadlineDaa ≤ (c.daaScore : ℚ)) :
    d.IsEnd deadlineDaa b := by
  refine ⟨hmem, ⟨(d.chain_iff _ b hmem).mpr hchain, hdaa⟩, ?_⟩
  intro c hc hcross
  have hcchain := (d.chain_iff _ c hc).mp hcross.1
  by_cases heq : c.hash = b.hash
  · rw [heq, hmem] at hc
    rw [Option.some.inj hc]
  · rcases onChain_total hchain hcchain with h | h
    · exact absurd hcross.2 (hbelow c hc heq h)
    · rcases daaScore_lt_of_below hcchain hc hmem h with h | h
      · exact absurd h heq
      · omega

/-- What is strictly below a block is its selected parent or below that. -/
theorem below_selected {b : Block H} {p k : H} (hb : d.block b.hash = some b)
    (hp : b.selectedParentHash = some p) (hne : k ≠ b.hash)
    (hbelow : ReflTransGen (Selects d.block) b.hash k) : ReflTransGen (Selects d.block) p k := by
  rcases ReflTransGen.cases_head hbelow with h | ⟨m, hm, hrest⟩
  · exact absurd h.symm hne
  · rwa [selects_unique ⟨b, hb, hp⟩ hm]

/-- **The walk finds the end block or gives up.** -/
theorem backward_isEnd (hs : Serves rpc d) {n : Nat} {cursor : H} {last : Option (EndBlock H)}
    (hw : Walks d deadlineDaa cursor last) {e : EndBlock H}
    (h : backward rpc deadlineDaa n cursor last = .ok e) :
    ∃ b, b.toEnd = e ∧ d.IsEnd deadlineDaa b := by
  induction n generalizing cursor last with
  | zero =>
    simp only [backward, bind_eq_ok, orRefuse_eq_ok, check_eq_ok, exists_const,
      Except.ok.injEq] at h
    obtain ⟨e', hlast, hle, rfl⟩ := h
    obtain ⟨b, rfl, hmem, hchain, hdaa, hp⟩ := hw.above e' hlast
    refine ⟨b, rfl, isEnd_of_below hmem hchain hdaa ?_⟩
    intro c hc hne hbelow hcdaa
    -- the score of the last block is the deadline, and everything below it is lower
    rcases daaScore_lt_of_below hchain hmem hc hbelow with h | h
    · exact hne h.symm
    · have hlt : (c.daaScore : ℚ) < b.daaScore := by exact_mod_cast h
      exact hle (lt_of_le_of_lt hcdaa hlt)
  | succ n ih =>
    rw [backward, bind_eq_ok] at h
    obtain ⟨blk, hblk, h⟩ := h
    rw [bind_eq_ok] at h
    obtain ⟨_, -, h⟩ := h
    have hblk := hs.getBlock _ _ (orRefuse_eq_ok.mp hblk)
    have hhash := d.hash_eq _ _ hblk
    have hmem : d.block blk.hash = some blk := by rw [hhash, hblk]
    have hchain : d.OnChain blk.hash := by
      rw [hhash]
      exact hw.onChain
    split at h
    · next hdaa =>
      split at h
      · next hsp =>
        obtain rfl := Except.ok.inj h
        refine ⟨blk, rfl, isEnd_of_below hmem hchain hdaa ?_⟩
        intro c _ hne hbelow
        -- nothing is below a block without a selected parent
        rcases ReflTransGen.cases_head hbelow with h | ⟨m, ⟨b, hb, hbm⟩, -⟩
        · exact absurd h.symm hne
        · rw [hmem] at hb
          obtain rfl := Option.some.inj hb
          rw [hsp] at hbm
          cases hbm
      · next sp hsp =>
        refine ih ⟨hchain.tail ⟨blk, hmem, hsp⟩, fun hn => absurd hn (Option.some_ne_none _), ?_⟩ h
        intro e' he'
        obtain rfl := Option.some.inj he'
        exact ⟨blk, rfl, hmem, hchain, hdaa, hsp⟩
    · next hdaa =>
      obtain ⟨b, rfl, hbmem, hbchain, hbdaa, hp⟩ := hw.above e (orRefuse_eq_ok.mp h)
      refine ⟨b, rfl, isEnd_of_below hbmem hbchain hbdaa ?_⟩
      intro c hc hne hbelow hcdaa
      -- the block the walk has come to is below the deadline, and so is all that follows
      have hrest := below_selected hbmem hp hne hbelow
      rcases daaScore_lt_of_below hw.onChain hblk hc hrest with h | h
      · rw [h, hc] at hblk
        obtain rfl := Option.some.inj hblk
        exact hdaa hcdaa
      · have hlt : (c.daaScore : ℚ) < blk.daaScore := by exact_mod_cast h
        exact hdaa (le_trans hcdaa hlt.le)

/-! ### The pages -/

theorem lowest_eq_some {blocks : List (Block H)} {e : EndBlock H}
    (h : lowest deadlineDaa blocks = some e) :
    ∃ b ∈ blocks, b.toEnd = e ∧ Crosses deadlineDaa b ∧
      ∀ c ∈ blocks, Crosses deadlineDaa c → b.daaScore ≤ c.daaScore := by
  obtain ⟨b, hb, rfl⟩ := Option.map_eq_some_iff.mp h
  obtain ⟨hmem, hle, -⟩ := List.mem_argmin_iff.mp hb
  obtain ⟨hmem, hcross⟩ := List.mem_filter.mp hmem
  refine ⟨b, hmem, rfl, of_decide_eq_true hcross, ?_⟩
  intro c hc hcc
  exact hle c (List.mem_filter.mpr ⟨hc, decide_eq_true hcc⟩)

omit [DecidableEq H] in
theorem lowest_eq_none {blocks : List (Block H)} :
    lowest deadlineDaa blocks = none ↔ ∀ b ∈ blocks, ¬ Crosses deadlineDaa b := by
  rw [lowest, Option.map_eq_none_iff, List.argmin_eq_none, List.filter_eq_nil_iff]
  simp

/-- The search stops at the first page that reaches the deadline. -/
theorem forward_eq (n : Nat) (cursor : H) :
    forward rpc deadlineDaa n cursor =
      (pages rpc n cursor).findSome? (lowest deadlineDaa) := by
  induction n generalizing cursor with
  | zero => rfl
  | succ n ih =>
    rw [forward, pages]
    cases rpc.getBlocks cursor with
    | none => rfl
    | some page =>
      rw [Option.toList_some, List.flatMap_singleton, Option.bind_eq_bind, Option.bind_some]
      by_cases hempty : page.blocks.isEmpty
      · rw [if_pos hempty, if_pos hempty]
        rfl
      · rw [if_neg hempty, if_neg hempty, List.findSome?_cons]
        cases lowest deadlineDaa page.blocks with
        | some e => rfl
        | none =>
          rw [Option.none_or]
          cases page.lastHash with
          | none => rfl
          | some lastHash =>
            rw [Option.toList_some, List.flatMap_singleton, Option.bind_eq_bind,
              Option.bind_some]
            by_cases hsame : lastHash = cursor
            · rw [if_pos hsame, if_pos hsame]
              rfl
            · rw [if_neg hsame, if_neg hsame, ih]

/-- Where the pages from the anchor reach the deadline, the end block comes after the anchor. -/
def Anchored (d : Dag H) (rpc : Rpc H) (recentBlocks : List (RecentBlock H)) (deadlineDaa : ℚ) :
    Prop :=
  ∀ a ∈ anchorOf recentBlocks deadlineDaa,
    (∃ c ∈ (pages rpc MAX_PAGES a.hash).flatten, Crosses deadlineDaa c) →
      ∀ b, d.IsEnd deadlineDaa b → d.Past b.hash a.hash

theorem forward_of_crosses {n : Nat} {a : H} {c : Block H}
    (hc : c ∈ (pages rpc n a).flatten) (hcross : Crosses deadlineDaa c) :
    ∃ e, forward rpc deadlineDaa n a = some e := by
  obtain ⟨page, hpage, hmem⟩ := List.mem_flatten.mp hc
  rw [forward_eq, ← Option.isSome_iff_exists, List.findSome?_isSome_iff]
  refine ⟨page, hpage, ?_⟩
  rw [Option.isSome_iff_ne_none]
  intro hnone
  exact lowest_eq_none.mp hnone c hmem hcross

theorem crosses_of_forward {n : Nat} {a : H} {e : EndBlock H}
    (h : forward rpc deadlineDaa n a = some e) :
    ∃ c ∈ (pages rpc n a).flatten, Crosses deadlineDaa c := by
  rw [forward_eq, List.findSome?_eq_some_iff] at h
  obtain ⟨pre, page, post, hpages, hlow, -⟩ := h
  obtain ⟨b, hb, -, hcross, -⟩ := lowest_eq_some hlow
  refine ⟨b, List.mem_flatten.mpr ⟨page, ?_, hb⟩, hcross⟩
  rw [hpages]
  simp

end KANet.Relay
