import KANet.Lib.Hex
import KANet.Settle.Chunks
import KANet.Settle.ChunkSpine
import KANet.Settle.CloseEnforce

/-!
# Plans of chunks and the script that is to take them

`computeSettleChunks` plans the transactions, `payoutRoot` and `merkleProof` commit to the winners,
and `settle_chunk` of `PoolSpine_v08_chunk` takes the chunks.  The tree has ten levels; the script
climbs eight.

* `climb_of_settled` — what the script asks of the first winner.
* `never_settled` — no plan can be carried out.
-/

namespace KANet.Settle.ChunkPlan

open KANet.Lib KANet.Script KANet.Covenant KANet.Payout KANet.Settle KANet.Settle.ChunkSpine

/-! ### The transactions of a plan -/

/-- The leaf of a winner; `Buffer.from(pkHex, 'hex')` reads digits of either case. -/
def leaf (w : ChunkWinner) : Leaf := ⟨bufferFromHex (lowerCase w.pk).toList, w.amount⟩

def leaves (ws : List ChunkWinner) : List Leaf := ws.map leaf

/-- The fixed outputs are paid by the first chunk. -/
def segFixed (fixedOutputs : List Int) (ch : SettleChunk) : List Int :=
  if ch.kind = .chunk_0 then fixedOutputs else []

/-- A spend does what a chunk of the plan says.  Of the proof of each winner as many siblings are
laid out as the script reads, or more of them. -/
structure Follows (e : Engine) (ws : List ChunkWinner) (fixedOutputs : List Int) (root : Bytes32)
    (ch : SettleChunk) (a : Spend) : Prop where
  kind : a.wit.chunk_kind = ch.kind.chunk_kind
  seg_lo : a.wit.seg_lo = ch.seg_lo
  seg_hi : a.wit.seg_hi = ch.seg_hi
  plan : a.wit.plan_commit_arg = root
  total : a.wit.total_winners_arg = ws.length
  winnerPks : a.wit.winnerPks.map List.Vector.toList = ch.winners.map fun w => (leaf w).pk
  winnerAmounts : a.wit.winnerAmounts = amounts ch.winners
  winnerSiblings : ∃ n, 8 ≤ n ∧ a.wit.winnerSiblings =
    (List.range' ch.seg_lo ch.winners.length).flatMap fun i =>
      ((merkleProof e (leaves ws) i).getD []).take n
  outputs : a.tx.outputs.map (fun out => (out.value : Int)) =
    ch.outputs (segFixed fixedOutputs ch)

/-- **The plan can be carried out**: some chain of accepted spends does what it says, chunk by
chunk, and ends. -/
def Settled (e : Engine) (c : Contract) (ws : List ChunkWinner) (fixedOutputs : List Int)
    (poolValue : Nat) (root : Bytes32) (plan : SettlePlan) : Prop :=
  ∃ as : List Spend, List.Forall₂ (Follows e ws fixedOutputs root) plan.chunks as ∧
    Run (Step e c) (some (c.poolLock poolValue)) as none

/-! ### The first chunk -/

section First

variable {e : Engine} {c : Contract} {ws : List ChunkWinner} {fixedOutputs : List Int}
  {poolValue : Nat} {payoutRootHex : String} {root : Bytes32} {plan : SettlePlan}

theorem getElem?_of_mapM {α β : Type} {f : α → Option β} {l : List α} {l' : List β}
    (h : l.mapM f = some l') (i : Nat) : l'[i]? = l[i]?.bind f := by
  induction l generalizing l' i with
  | nil =>
    obtain rfl := Option.some.inj h
    simp
  | cons a l ih =>
    rw [List.mapM_cons] at h
    simp only [Option.bind_eq_bind, Option.bind_eq_some_iff, Option.pure_def,
      Option.some.injEq] at h
    obtain ⟨b, hb, bs, hbs, rfl⟩ := h
    cases i with
    | zero => simp [hb]
    | succ i => simpa using ih hbs i

/-- The siblings of the first winner stand first. -/
theorem siblings_zero {wit : ChunkWitness} {ss : List Bytes32} (h : wit.siblings 0 = some ss) :
    ss = wit.winnerSiblings.take 8 := by
  apply List.ext_getElem?
  intro i
  rw [getElem?_of_mapM h, List.getElem?_take]
  by_cases hi : i < 8
  · rw [if_pos hi, List.getElem?_range hi, Option.bind_some, Nat.zero_mul, Nat.zero_add]
  · rw [if_neg hi, List.getElem?_eq_none (by simpa using hi), Option.bind_none]

/-- A chain that is planned begins with a first chunk, of the first winners. -/
theorem chunkChain_first {w : ChunkWinner} {ws : List ChunkWinner} {value : Int}
    {chunks : List SettleChunk} (h : chunkChain 0 value true fixedOutputs (w :: ws) = .ok chunks) :
    ∃ ch cs, chunks = ch :: cs ∧ ch.kind = .chunk_0 ∧ ch.seg_lo = 0 ∧
      ∃ seg, ch.winners = w :: seg := by
  rw [chunkChain] at h
  dsimp only at h
  by_cases hk : packed value fixedOutputs (w :: ws) = 0
  · rw [dif_pos hk] at h
    cases h
  · rw [dif_neg hk] at h
    generalize (if decide (packed value fixedOutputs (w :: ws) = _) = true then (0 : Int)
      else _) = change at h
    by_cases hneg : change < 0
    · rw [if_pos hneg] at h
      cases h
    · rw [if_neg hneg] at h
      obtain ⟨cs, -, heq⟩ := bind_eq_ok.mp h
      cases heq
      obtain ⟨k, hk⟩ := Nat.exists_eq_succ_of_ne_zero hk
      exact ⟨_, cs, rfl, rfl, rfl, ws.take k, by rw [hk, List.take_succ_cons]⟩

/-- **What the script asks of the first winner**: its leaf is eight levels below the root. -/
theorem climb_of_settled
    (hplan : computeSettleChunks ws fixedOutputs poolValue payoutRootHex = .ok plan)
    (hroute : plan.route = .chunk) (hroot : payoutRoot e (leaves ws) = some root)
    (h : Settled e c ws fixedOutputs poolValue root plan) :
    ∃ w ∈ ws, ws[0]? = some w ∧ ∃ proof, merkleProof e (leaves ws) 0 = some proof ∧
      Merkle.climb (hashNode e) 0 ((leaf w).hash e) (proof.take 8) = root := by
  obtain ⟨as, hfollows, hrun⟩ := h
  have hchain : chunkChain 0 poolValue true fixedOutputs ws = .ok plan.chunks := by
    unfold computeSettleChunks at hplan
    split at hplan
    · cases hplan
      cases hroute
    · obtain ⟨chunks, hchunks, heq⟩ := bind_eq_ok.mp hplan
      cases heq
      exact hchunks
  match ws, hchain with
  | [], hchain =>
    rw [chunkChain] at hchain
    rw [← Except.ok.inj hchain] at hfollows
    cases hfollows
    cases hrun
  | w :: ws, hchain =>
    obtain ⟨ch, cs, hcs, hkind, hlo, seg, hseg⟩ := chunkChain_first hchain
    rw [hcs] at hfollows
    cases hfollows with
    | @cons _ a _ as hfollow _ =>
      cases hrun with
      | cons hstep _ =>
        have hchunk := hstep.spent.chunk
        have hzero : a.wit.chunk_kind = 0 := by
          rw [hfollow.kind, hkind]
          rfl
        have hpos : 0 < (a.wit.seg_hi - a.wit.seg_lo).toNat := by
          have := hchunk.lt
          omega
        obtain ⟨pk, amount, l, siblings, hpk, hamount, hsiblings, hpays⟩ :=
          requireWinner_eq_some hchunk.lo (hchunk.winners 0 hpos)
        obtain ⟨n, hn, hall⟩ := hfollow.winnerSiblings
        obtain ⟨proof, hproof⟩ : ∃ proof, merkleProof e (leaves (w :: ws)) 0 = some proof :=
          ⟨_, merkleProof_eq_some.mpr ⟨(payoutRoot_eq_some.mp hroot).1, rfl⟩⟩
        have hlen : proof.length = 10 := by
          obtain ⟨-, rfl⟩ := merkleProof_eq_some.mp hproof
          exact Merkle.path_length _ _ _
        have htake : siblings = proof.take 8 := by
          rw [siblings_zero hsiblings, hall, hlo, hseg, List.length_cons, List.range'_succ,
            List.flatMap_cons, hproof, Option.getD_some,
            List.take_append_of_le_length (by rw [List.length_take]; omega), List.take_take]
          congr 1
          omega
        have hleaf : l = (leaf w).hash e := by
          have hpk' : pk.toList = (leaf w).pk := by
            have := congrArg (·[0]?) hfollow.winnerPks
            simpa [hpk, hseg] using this
          have hamount' : amount = w.amount := by
            rw [hfollow.winnerAmounts, hseg] at hamount
            exact (Option.some.inj hamount).symm
          obtain ⟨bs, hbs, rfl⟩ := Option.map_eq_some_iff.mp hpays.leaf_eq
          rw [← (num2bin_eq_some.mp hbs).2, hpk', hamount']
          rfl
        refine ⟨w, List.mem_cons_self, rfl, proof, hproof, ?_⟩
        have hclimb := hpays.climb
        rw [hfollow.seg_lo, hlo, htake, hleaf] at hclimb
        rw [ChunkWitness.prev, if_pos hzero] at hclimb
        exact hclimb.trans hfollow.plan

end First

/-! ### No plan can be carried out -/

/-- A leaf is forty bytes and a join sixty-four, so no leaf is eight levels below a root that is
ten levels above it. -/
theorem climb_ne {e : Engine} {ws : List Leaf} {w : Leaf} {root : Bytes32} {proof : List Bytes32}
    (hfree : CollisionFree e (treeMessages e ws)) (hroot : payoutRoot e ws = some root)
    (hproof : merkleProof e ws 0 = some proof) (hw : ws[0]? = some w) :
    Merkle.climb (hashNode e) 0 (w.hash e) (proof.take 8) ≠ root := by
  intro hclimb
  obtain ⟨hb, rfl⟩ := payoutRoot_eq_some.mp hroot
  obtain ⟨-, rfl⟩ := merkleProof_eq_some.mp hproof
  have hmem : w ∈ ws := List.mem_of_getElem? hw
  have hle : (ws.map (Leaf.hash e)).length ≤ 2 ^ DEPTH := by
    rw [List.length_map]
    exact hb.length
  have hlen := Merkle.pad_length (z := ZERO32) hle
  have hleaf : (Merkle.pad ZERO32 DEPTH (ws.map (Leaf.hash e))).getD 0 ZERO32 = w.hash e := by
    rw [Merkle.pad, List.getD_append _ _ _ _ (by
        rw [List.length_map]
        exact List.length_pos_of_mem hmem),
      List.getD_eq_getElem?_getD, List.getElem?_map, hw]
    rfl
  have hjoin : ∀ p ∈ Merkle.joins (hashNode e) DEPTH (Merkle.pad ZERO32 DEPTH
      (ws.map (Leaf.hash e))), nodeMessage p ∈ treeMessages e ws := fun p hp =>
    List.mem_append_right _ (List.mem_map_of_mem (Merkle.joins_pad hle hp))
  have hS := injOn_hashNode hfree.injOn
  have hroot' : rootOf e ws = Merkle.root (hashNode e) ZERO32 DEPTH
      (Merkle.pad ZERO32 DEPTH (ws.map (Leaf.hash e))) := Merkle.prefixRoot_eq hle
  rw [← hleaf, hroot'] at hclimb
  obtain ⟨p, hp, heq⟩ := Merkle.eq_node_of_short_climb (m := 8) (j := 1) hS hjoin
    (fun p hp => hjoin p (Merkle.steps_take_path hlen (by decide) hp)) hlen (by decide)
    (by rw [List.length_take, Merkle.path_length]; rfl) hclimb
  rw [hleaf] at heq
  have hmsg : w.message = nodeMessage p :=
    hfree _ (List.mem_append_left _ (List.mem_map_of_mem hmem)) _ (hjoin p hp) heq
  have hlength := congrArg List.length hmsg
  rw [Leaf.message, nodeMessage, List.length_append, List.length_append, signMagnitude_length,
    (hb.payable w hmem).pk, List.Vector.toList_length, List.Vector.toList_length] at hlength
  omega

/-- **No plan of chunks can be carried out.** -/
theorem never_settled {e : Engine} {ws : List ChunkWinner} {fixedOutputs : List Int}
    {poolValue : Nat} {payoutRootHex : String} {root : Bytes32} {plan : SettlePlan}
    (hplan : computeSettleChunks ws fixedOutputs poolValue payoutRootHex = .ok plan)
    (hroute : plan.route = .chunk) (hroot : payoutRoot e (leaves ws) = some root)
    (hfree : CollisionFree e (treeMessages e (leaves ws))) (c : Contract) :
    ¬ Settled e c ws fixedOutputs poolValue root plan := by
  intro hsettled
  obtain ⟨w, -, hw, proof, hproof, hclimb⟩ := climb_of_settled hplan hroute hroot hsettled
  have hleaf : (leaves ws)[0]? = some (leaf w) := by rw [leaves, List.getElem?_map, hw]; rfl
  exact climb_ne hfree hroot hproof hleaf hclimb

/-! ### Two winners too many for one transaction -/

def sampleWinner (i : Nat) : ChunkWinner := ⟨hex (samplePk i).toList, 3000000⟩

def sampleWinners : List ChunkWinner := [sampleWinner 20, sampleWinner 21]

def sampleFixed : List Int := List.replicate 6 100000000

def samplePlan : SettlePlan where
  route := .chunk
  payoutRoot := ""
  chunks :=
    [{ kind := .chunk_0, seg_lo := 0, seg_hi := 1, winners := [sampleWinner 20]
       change := 3100000, hwm_out := some 1 },
      { kind := .chunk_last, seg_lo := 1, seg_hi := 2, winners := [sampleWinner 21]
        change := 0, hwm_out := some 2 }]

theorem computeSettleChunks_sample :
    computeSettleChunks sampleWinners sampleFixed (606100000 : Nat) "" = .ok samplePlan :=
  toOption_eq_some.mp (by decide +kernel)

theorem leaf_sampleWinner (i : Nat) : leaf (sampleWinner i) = ⟨(samplePk i).toList, 3000000⟩ := by
  have hlower : lowerCase (sampleWinner i).pk = (sampleWinner i).pk := by
    rw [lowerCase, sampleWinner, hex, String.toList_ofList, map_toLower_toHex]
  rw [leaf, hlower, sampleWinner, hex, String.toList_ofList,
    bufferFromHex_of_fromHex (fromHex_toHex _)]

def sampleLeaves : List Leaf := [⟨(samplePk 20).toList, 3000000⟩, ⟨(samplePk 21).toList, 3000000⟩]

theorem leaves_sampleWinners : leaves sampleWinners = sampleLeaves := by
  rw [leaves, sampleWinners, List.map_cons, List.map_singleton, leaf_sampleWinner,
    leaf_sampleWinner]
  rfl

theorem payoutRoot_sample : payoutRoot sampleEngine (leaves sampleWinners) =
    some (rootOf sampleEngine sampleLeaves) := by
  rw [leaves_sampleWinners]
  apply payoutRoot_of_buildable
  refine ⟨by decide, ?_⟩
  intro w hw
  rcases List.mem_cons.mp hw with rfl | hw
  · exact ⟨rfl, by norm_num, by decide⟩
  · obtain rfl := List.mem_singleton.mp hw
    exact ⟨rfl, by norm_num, by decide⟩

theorem sample_collisionFree :
    CollisionFree sampleEngine (treeMessages sampleEngine (leaves sampleWinners)) := by
  rw [leaves_sampleWinners]
  decide +kernel

theorem never_settled_sample : ¬ Settled sampleEngine sampleContract sampleWinners sampleFixed
    606100000 (rootOf sampleEngine sampleLeaves) samplePlan :=
  never_settled computeSettleChunks_sample rfl payoutRoot_sample sample_collisionFree
    sampleContract

/-- **Two winners of three hundredths of a coin** are too heavy for one transaction, and their two
chunks are refused. -/
theorem two_chunks_refused :
    computeSettleChunks sampleWinners sampleFixed (606100000 : Nat) "" = .ok samplePlan ∧
      samplePlan.route = .chunk ∧ (∀ w ∈ sampleWinners, 0 < w.amount) ∧
      payoutRoot sampleEngine (leaves sampleWinners) =
        some (rootOf sampleEngine sampleLeaves) ∧
      ∀ c, ¬ Settled sampleEngine c sampleWinners sampleFixed 606100000
        (rootOf sampleEngine sampleLeaves) samplePlan := by
  refine ⟨computeSettleChunks_sample, rfl, by decide, payoutRoot_sample, ?_⟩
  intro c hsettled
  obtain ⟨w, -, hw, proof, hproof, hclimb⟩ :=
    climb_of_settled computeSettleChunks_sample rfl payoutRoot_sample hsettled
  have hleaf : (leaves sampleWinners)[0]? = some (leaf w) := by
    rw [leaves, List.getElem?_map, hw]
    rfl
  exact climb_ne sample_collisionFree payoutRoot_sample hproof hleaf hclimb

end KANet.Settle.ChunkPlan
