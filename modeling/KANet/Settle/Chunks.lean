import KANet.Lib.Greedy
import KANet.Lib.Refuse
import Mathlib.Algebra.Order.BigOperators.Group.List
import Mathlib.Algebra.Order.Floor.Ring
import Mathlib.Data.Rat.Floor
import Mathlib.Tactic.Linarith
import Mathlib.Tactic.NormNum

/-!
# Settling in chunks

`pool-settle-chunks.mjs`: a pool is paid out in one transaction, if that is not too heavy, and
otherwise in a chain of chunks, each of which spends the change of the one before.  A chunk takes
winners as long as it fits.

The masses are those of `kip9-mass.mjs`; they are exact rationals here where the planner adds
doubles.

* `chunkChain_pays` — what a chain pays: the winners in order, each once, and nothing is left.
* `payable_iff` — when every chunk that is planned is within the limits.
* `dust_not_payable` — a plan that is not: a chunk is tried with the change of the chunk
  before, and its own is smaller.
-/

namespace KANet.Settle

open KANet.Lib

/-! ### Masses -/

def STORAGE_MASS_C : ℚ := 1000000000000

def STORAGE_MASS_SAFE_THRESHOLD : Int := 470000

def COMPUTE_CAP : Nat := 500000

def TRANSIENT_CAP : Nat := 1000000

def MAX_WINNERS_PER_CHUNK : Nat := 47

def REDEEM_BASE : Nat := 2878

def REDEEM_PER_WINNER : Nat := 601

def WITNESS_PER_WINNER : Nat := 314

def SPK : Nat := 35

def TX_FIXED : Nat := 564

def SIG_OPS : Nat := 5

/-- `Math.round` -/
def mathRound (x : ℚ) : Int := ⌊x + 1 / 2⌋

/-- `v > 0 ? 1 / v : 0` -/
def recip (v : Int) : ℚ := if 0 < v then 1 / v else 0

def estimateMultiOutputStorageMass (inputValues outputValues : List Int) : Int :=
  let sumOutInv := (outputValues.map recip).sum
  let sumIn := inputValues.sum
  let inputsTerm : ℚ :=
    if 0 < sumIn then (inputValues.length * inputValues.length : ℚ) / sumIn else 0
  max 0 (mathRound (STORAGE_MASS_C * (sumOutInv - inputsTerm)))

structure ChunkMass where
  compute : Nat
  transient : Nat
  deriving DecidableEq

def chunkComputeMass (nWinners nFixedOut : Nat) (hasChange : Bool) : ChunkMass :=
  let nOut := nFixedOut + nWinners + (if hasChange then 1 else 0)
  let txBytes := TX_FIXED + REDEEM_BASE + nWinners * REDEEM_PER_WINNER +
    nWinners * WITNESS_PER_WINNER + nOut * SPK
  { compute := txBytes + nOut * SPK * 10 + SIG_OPS * 1000, transient := txBytes }

def fits (inputVals outVals : List Int) (nWinners nFixedOut : Nat) (hasChange applyKCap : Bool) :
    Bool :=
  if applyKCap && MAX_WINNERS_PER_CHUNK < nWinners then false
  else if STORAGE_MASS_SAFE_THRESHOLD < estimateMultiOutputStorageMass inputVals outVals then false
  else
    let cm := chunkComputeMass nWinners nFixedOut hasChange
    cm.compute ≤ COMPUTE_CAP && cm.transient ≤ TRANSIENT_CAP

/-! ### The plan -/

structure ChunkWinner where
  pk : String
  amount : Int
  deriving DecidableEq

inductive ChunkKind
  | aggregate | chunk_0 | chunk_mid | chunk_last
  deriving DecidableEq

def ChunkKind.chunk_kind : ChunkKind → Nat
  | .aggregate => 0
  | .chunk_0 => 0
  | .chunk_mid => 1
  | .chunk_last => 2

structure SettleChunk where
  kind : ChunkKind
  seg_lo : Nat
  seg_hi : Nat
  winners : List ChunkWinner
  change : Int
  hwm_out : Option Nat
  deriving DecidableEq

inductive Route
  | aggregate | chunk
  deriving DecidableEq

structure SettlePlan where
  route : Route
  payoutRoot : String
  chunks : List SettleChunk
  deriving DecidableEq

def SettlePlan.numChunks (plan : SettlePlan) : Nat := plan.chunks.length

inductive ChunkError
  | cannotFit (lo : Nat) (payout : Int)
  | negativeChange (lo : Nat) (prevChange segPaid fixedPaid : Int)
  deriving DecidableEq

def ChunkError.text : ChunkError → String
  | .cannotFit lo payout =>
    "cannot fit even 1 winner at idx " ++ toString lo ++ " (payout=" ++ toString payout ++
      " → storage>" ++ toString STORAGE_MASS_SAFE_THRESHOLD ++ ")"
  | .negativeChange lo prevChange segPaid fixedPaid =>
    "negative change chunk lo=" ++ toString lo ++ ": prevChange=" ++ toString prevChange ++
      " segPaid=" ++ toString segPaid ++ " fixedPaid=" ++ toString fixedPaid

def amounts (ws : List ChunkWinner) : List Int := ws.map ChunkWinner.amount

def paid (ws : List ChunkWinner) : Int := (amounts ws).sum

/-- Whether the first `k` of the winners that are left fit one chunk.  The change is not known yet:
unless these are all, the change of the chunk before stands in for it. -/
def tryFits (prevChange : Int) (segFixed : List Int) (rest : List ChunkWinner) (k : Nat) : Bool :=
  let segNum := amounts (rest.take k)
  let isFinalTry : Bool := k = rest.length
  let outVals := if isFinalTry then segFixed ++ segNum else segFixed ++ segNum ++ [prevChange]
  fits [prevChange] outVals k segFixed.length (!isFinalTry) true

/-- How many of the winners that are left the next chunk takes. -/
def packed (prevChange : Int) (segFixed : List Int) (rest : List ChunkWinner) : Nat :=
  extend (tryFits prevChange segFixed rest) 0 rest.length

/-- The chain of chunks for the winners from `lo` on. -/
def chunkChain (lo : Nat) (prevChange : Int) (isFirst : Bool) (segFixed : List Int) :
    List ChunkWinner → Except ChunkError (List SettleChunk)
  | [] => .ok []
  | w :: ws =>
    let k := packed prevChange segFixed (w :: ws)
    if _ : k = 0 then .error (.cannotFit lo w.amount)
    else
      let seg := (w :: ws).take k
      let isLast : Bool := k = (w :: ws).length
      let change := if isLast then 0 else prevChange - paid seg - segFixed.sum
      if change < 0 then .error (.negativeChange lo prevChange (paid seg) segFixed.sum)
      else do
        let chunks ← chunkChain (lo + k) change false [] ((w :: ws).drop k)
        .ok ({ kind := if isFirst then .chunk_0 else if isLast then .chunk_last else .chunk_mid
               seg_lo := lo, seg_hi := lo + k, winners := seg, change := change
               hwm_out := some (lo + k) } :: chunks)
  termination_by rest => rest.length
  decreasing_by
    rw [List.length_drop, List.length_cons]
    omega

def computeSettleChunks (winners : List ChunkWinner) (fixedOutputs : List Int) (poolValue : Int)
    (payoutRootHex : String) : Except ChunkError SettlePlan :=
  if fits [poolValue] (fixedOutputs ++ amounts winners) winners.length fixedOutputs.length false
      false then
    .ok { route := .aggregate, payoutRoot := payoutRootHex
          chunks := [{ kind := .aggregate, seg_lo := 0, seg_hi := winners.length
                       winners := winners, change := 0, hwm_out := none }] }
  else do
    let chunks ← chunkChain 0 poolValue true fixedOutputs winners
    .ok { route := .chunk, payoutRoot := payoutRootHex, chunks := chunks }

/-! ### What a plan should be -/

/-- What the transaction of a chunk pays out: the change only if there is any. -/
def SettleChunk.outputs (segFixed : List Int) (c : SettleChunk) : List Int :=
  segFixed ++ amounts c.winners ++ (if c.change = 0 then [] else [c.change])

/-- The chunk, with the change it leaves, is within the limits. -/
structure WithinLimits (input : Int) (segFixed : List Int) (c : SettleChunk) : Prop where
  storage : estimateMultiOutputStorageMass [input] (c.outputs segFixed) ≤
    STORAGE_MASS_SAFE_THRESHOLD
  compute : (chunkComputeMass c.winners.length segFixed.length (c.change ≠ 0)).compute ≤ COMPUTE_CAP
  transient : (chunkComputeMass c.winners.length segFixed.length (c.change ≠ 0)).transient ≤
    TRANSIENT_CAP

/-- The chunks are the winners from `lo` on, in order and one after the other. -/
def Segments : Nat → List SettleChunk → List ChunkWinner → Prop
  | _, [], rest => rest = []
  | lo, c :: cs, rest => c.seg_lo = lo ∧ c.seg_hi = lo + c.winners.length ∧
    ∃ rest', rest = c.winners ++ rest' ∧ Segments c.seg_hi cs rest'

/-- No chunk pays more than it spends, and the last leaves nothing. -/
def Flows : Int → List Int → List SettleChunk → Prop
  | _, _, [] => False
  | input, segFixed, [c] => c.change = 0 ∧ (c.outputs segFixed).sum = input
  | input, segFixed, c :: c' :: cs =>
    (c.outputs segFixed).sum ≤ input ∧ Flows c.change [] (c' :: cs)

def AllWithin : Int → List Int → List SettleChunk → Prop
  | _, _, [] => True
  | input, segFixed, c :: cs => WithinLimits input segFixed c ∧ AllWithin c.change [] cs

/-- A plan can be paid: it pays every winner, out of what there is, within the limits. -/
structure Payable (winners : List ChunkWinner) (fixedOutputs : List Int) (poolValue : Int)
    (plan : SettlePlan) : Prop where
  segments : Segments 0 plan.chunks winners
  flows : Flows poolValue fixedOutputs plan.chunks
  within : AllWithin poolValue fixedOutputs plan.chunks

/-! ### Where the packing stops -/

/-- What is before the planner when it begins a chunk. -/
structure Packing where
  prevChange : Int
  segFixed : List Int
  rest : List ChunkWinner

/-- The first `k` fit, and no more, though there are more. -/
structure Packing.Stops (s : Packing) (k : Nat) : Prop where
  short : k < s.rest.length
  fit : ∀ j, 0 < j → j ≤ k → tryFits s.prevChange s.segFixed s.rest j = true
  stop : tryFits s.prevChange s.segFixed s.rest (k + 1) = false

/-- What is before it at the next chunk: the winners that are left, and what is left for them. -/
def Packing.next (s : Packing) (k : Nat) : Packing := ⟨paid (s.rest.drop k), [], s.rest.drop k⟩

def Passes (s s' : Packing) : Prop := ∃ k, s.Stops k ∧ s' = s.next k

/-- The mass of the chunk, with what is left as its change. -/
def Packing.cutMass (s : Packing) (k : Nat) : ℚ :=
  STORAGE_MASS_C * (((s.segFixed ++ amounts (s.rest.take k)).map recip).sum +
    recip (paid (s.rest.drop k)) - recip s.prevChange)

/-- Wherever the packing stops short of the end, enough is left. -/
def LeavesEnough (s₀ : Packing) : Prop :=
  ∀ s k, Relation.ReflTransGen Passes s₀ s → s.Stops k →
    s.cutMass k < STORAGE_MASS_SAFE_THRESHOLD + 1 / 2

theorem Packing.Stops.unique {s : Packing} {k k' : Nat} (h : s.Stops k) (h' : s.Stops k') :
    k = k' := by
  rcases lt_trichotomy k k' with hlt | heq | hgt
  · have hfit := h'.fit (k + 1) (Nat.succ_pos k) hlt
    rw [h.stop] at hfit
    cases hfit
  · exact heq
  · have hfit := h.fit (k' + 1) (Nat.succ_pos k') hgt
    rw [h'.stop] at hfit
    cases hfit

/-- A cut, and the cuts after it. -/
theorem leavesEnough_iff {s : Packing} {k : Nat} (h : s.Stops k) :
    LeavesEnough s ↔ s.cutMass k < STORAGE_MASS_SAFE_THRESHOLD + 1 / 2 ∧
      LeavesEnough (s.next k) := by
  constructor
  · intro hall
    refine ⟨hall s k .refl h, fun s' k' hs' hk' => hall s' k' ?_ hk'⟩
    exact .head ⟨k, h, rfl⟩ hs'
  · intro hall s' k' hs' hk'
    rcases Relation.ReflTransGen.cases_head hs' with rfl | ⟨t, ⟨j, hj, rfl⟩, ht⟩
    · rw [← h.unique hk']
      exact hall.1
    · rw [← h.unique hj] at ht
      exact hall.2 s' k' ht hk'

/-- Where the rest fits as a whole there is no cut. -/
theorem leavesEnough_of_all {s : Packing}
    (h : ∀ j, 0 < j → j ≤ s.rest.length → tryFits s.prevChange s.segFixed s.rest j = true) :
    LeavesEnough s := by
  have hno : ∀ k, ¬ s.Stops k := by
    intro k hk
    have hfit := h (k + 1) (Nat.succ_pos k) hk.short
    rw [hk.stop] at hfit
    cases hfit
  intro s' k' hs' hk'
  rcases Relation.ReflTransGen.cases_head hs' with rfl | ⟨t, ⟨j, hj, -⟩, -⟩
  · exact absurd hk' (hno k')
  · exact absurd hj (hno j)

/-! ### The limits -/

/-- The limit on the storage mass of a chunk, without the rounding. -/
theorem storage_le_iff {input : Int} {outVals : List Int} :
    estimateMultiOutputStorageMass [input] outVals ≤ STORAGE_MASS_SAFE_THRESHOLD ↔
      STORAGE_MASS_C * ((outVals.map recip).sum - recip input) <
        STORAGE_MASS_SAFE_THRESHOLD + 1 / 2 := by
  have hterm : (if 0 < [input].sum then (([input].length * [input].length : Nat) : ℚ) /
      ([input].sum : Int) else 0) = recip input := by
    rw [List.sum_singleton, recip]
    norm_num
  have hmass : estimateMultiOutputStorageMass [input] outVals =
      max 0 (mathRound (STORAGE_MASS_C * ((outVals.map recip).sum - recip input))) := by
    rw [← hterm]
    unfold estimateMultiOutputStorageMass
    norm_num
  rw [hmass, max_le_iff, and_iff_right (by decide), mathRound, ← Int.lt_add_one_iff, Int.floor_lt]
  push_cast
  constructor
  · intro h
    linarith
  · intro h
    linarith

/-- What a chunk is tested for. -/
theorem fits_iff {input : Int} {outVals : List Int} {nWinners nFixedOut : Nat}
    {hasChange applyKCap : Bool} : fits [input] outVals nWinners nFixedOut hasChange applyKCap ↔
      (applyKCap = true → nWinners ≤ MAX_WINNERS_PER_CHUNK) ∧
      estimateMultiOutputStorageMass [input] outVals ≤ STORAGE_MASS_SAFE_THRESHOLD ∧
      (chunkComputeMass nWinners nFixedOut hasChange).compute ≤ COMPUTE_CAP ∧
      (chunkComputeMass nWinners nFixedOut hasChange).transient ≤ TRANSIENT_CAP := by
  unfold fits
  cases applyKCap with
  | false => simp
  | true =>
    by_cases hk : MAX_WINNERS_PER_CHUNK < nWinners
    · simp [hk]
    · simp [not_lt.mp hk]

/-! ### One chunk -/

theorem paid_take_add_drop (ws : List ChunkWinner) (k : Nat) :
    paid (ws.take k) + paid (ws.drop k) = paid ws := by
  rw [paid, paid, paid, amounts, amounts, amounts, List.map_take, List.map_drop,
    List.sum_take_add_sum_drop]

theorem paid_pos {ws : List ChunkWinner} (hpos : ∀ w ∈ ws, 0 < w.amount) (hne : ws ≠ []) :
    0 < paid ws := by
  apply List.sum_pos
  · intro a ha
    obtain ⟨w, hw, rfl⟩ := List.mem_map.mp ha
    exact hpos w hw
  · exact fun h => hne (List.map_eq_nil_iff.mp h)

theorem packed_le (prevChange : Int) (segFixed : List Int) (rest : List ChunkWinner) :
    packed prevChange segFixed rest ≤ rest.length := by
  have h := @extend_le (tryFits prevChange segFixed rest) 0 rest.length
  rwa [Nat.zero_add] at h

theorem tryFits_packed {prevChange : Int} {segFixed : List Int} {rest : List ChunkWinner} {j : Nat}
    (h : 0 < j) (hj : j ≤ packed prevChange segFixed rest) :
    tryFits prevChange segFixed rest j = true :=
  ok_of_le_extend h hj

theorem packed_stops {s : Packing} (h : packed s.prevChange s.segFixed s.rest < s.rest.length) :
    s.Stops (packed s.prevChange s.segFixed s.rest) :=
  ⟨h, fun _ => tryFits_packed, not_ok_extend (by rwa [Nat.zero_add])⟩

/-- A chunk that is planned. -/
structure Planned (lo : Nat) (s : Packing) (c : SettleChunk) : Prop where
  packs : 0 < packed s.prevChange s.segFixed s.rest
  seg_lo : c.seg_lo = lo
  seg_hi : c.seg_hi = lo + packed s.prevChange s.segFixed s.rest
  winners : c.winners = s.rest.take (packed s.prevChange s.segFixed s.rest)
  change : c.change = if packed s.prevChange s.segFixed s.rest = s.rest.length then 0
    else s.prevChange - paid c.winners - s.segFixed.sum

/-- What a chain that does not throw begins with. -/
theorem chunkChain_cons {lo : Nat} {prevChange : Int} {isFirst : Bool} {segFixed : List Int}
    {w : ChunkWinner} {ws : List ChunkWinner} {chunks : List SettleChunk}
    (h : chunkChain lo prevChange isFirst segFixed (w :: ws) = .ok chunks) :
    ∃ c cs, chunks = c :: cs ∧ Planned lo ⟨prevChange, segFixed, w :: ws⟩ c ∧
      chunkChain c.seg_hi c.change false []
        ((w :: ws).drop (packed prevChange segFixed (w :: ws))) = .ok cs := by
  rw [chunkChain] at h
  dsimp only at h
  by_cases hk : packed prevChange segFixed (w :: ws) = 0
  · rw [dif_pos hk] at h
    cases h
  · rw [dif_neg hk] at h
    generalize hchange : (if decide (packed prevChange segFixed (w :: ws) = _) = true then (0 : Int)
      else _) = change at h
    simp only [decide_eq_true_eq] at hchange
    by_cases hneg : change < 0
    · rw [if_pos hneg] at h
      cases h
    · rw [if_neg hneg] at h
      obtain ⟨cs, hcs, heq⟩ := bind_eq_ok.mp h
      cases heq
      exact ⟨_, cs, rfl, ⟨Nat.pos_of_ne_zero hk, rfl, rfl, rfl, hchange.symm⟩, hcs⟩

variable {s : Packing} {lo : Nat} {c : SettleChunk}

/-- The change of a chunk that is not the last: what is left for the winners that are left. -/
theorem Planned.change_eq (h : Planned lo s c)
    (hprev : s.prevChange = s.segFixed.sum + paid s.rest) :
    c.change = paid (s.rest.drop (packed s.prevChange s.segFixed s.rest)) := by
  have hsplit := paid_take_add_drop s.rest (packed s.prevChange s.segFixed s.rest)
  rw [h.change, h.winners]
  split
  · next hall =>
    rw [hall, List.drop_length]
    rfl
  · omega

theorem Planned.outputs_sum (h : Planned lo s c)
    (hprev : s.prevChange = s.segFixed.sum + paid s.rest) :
    (c.outputs s.segFixed).sum = s.prevChange := by
  have hsplit := paid_take_add_drop s.rest (packed s.prevChange s.segFixed s.rest)
  have hchange := h.change_eq hprev
  have hrest : (if c.change = 0 then [] else [c.change]).sum = c.change := by
    split
    · next hzero => rw [hzero, List.sum_nil]
    · exact List.sum_singleton
  rw [SettleChunk.outputs, List.sum_append, List.sum_append, hrest, hchange, h.winners]
  unfold paid at hsplit hprev ⊢
  omega

/-- The limits of the chunk that takes all there is are the ones it was tested for. -/
theorem Planned.within_last (h : Planned lo s c)
    (hall : packed s.prevChange s.segFixed s.rest = s.rest.length) :
    WithinLimits s.prevChange s.segFixed c := by
  have htested := tryFits_packed h.packs le_rfl
  have hchange := h.change
  rw [if_pos hall] at hchange
  have hwinners := h.winners
  rw [hall, List.take_length] at hwinners
  rw [hall, tryFits, decide_eq_true rfl, List.take_length, if_pos rfl, fits_iff] at htested
  obtain ⟨-, hstorage, hcompute, htransient⟩ := htested
  have hno : decide (c.change ≠ 0) = !true := by
    rw [hchange]
    rfl
  refine ⟨?_, ?_, ?_⟩
  · rw [SettleChunk.outputs, if_pos hchange, List.append_nil, hwinners]
    exact hstorage
  · rw [hno, hwinners]
    exact hcompute
  · rw [hno, hwinners]
    exact htransient

/-- The limits of any other are those and the one on what it leaves. -/
theorem Planned.within_iff (h : Planned lo s c)
    (hprev : s.prevChange = s.segFixed.sum + paid s.rest) (hpos : ∀ w ∈ s.rest, 0 < w.amount)
    (hshort : packed s.prevChange s.segFixed s.rest < s.rest.length) :
    WithinLimits s.prevChange s.segFixed c ↔
      s.cutMass (packed s.prevChange s.segFixed s.rest) < STORAGE_MASS_SAFE_THRESHOLD + 1 / 2 := by
  have hchange := h.change_eq hprev
  have hne : c.change ≠ 0 := by
    rw [hchange]
    refine (paid_pos (fun w hw => hpos w (List.mem_of_mem_drop hw)) ?_).ne'
    rw [Ne, List.drop_eq_nil_iff]
    exact not_le.mpr hshort
  have htested := tryFits_packed h.packs le_rfl
  have hfinal : decide (packed s.prevChange s.segFixed s.rest = s.rest.length) = false :=
    decide_eq_false hshort.ne
  rw [tryFits, hfinal, fits_iff] at htested
  obtain ⟨-, -, hcompute, htransient⟩ := htested
  have hlen : c.winners.length = packed s.prevChange s.segFixed s.rest := by
    rw [h.winners, List.length_take_of_le hshort.le]
  have hyes : decide (c.change ≠ 0) = !false := decide_eq_true hne
  have hstorage : estimateMultiOutputStorageMass [s.prevChange] (c.outputs s.segFixed) ≤
      STORAGE_MASS_SAFE_THRESHOLD ↔ s.cutMass (packed s.prevChange s.segFixed s.rest) <
        STORAGE_MASS_SAFE_THRESHOLD + 1 / 2 := by
    rw [storage_le_iff, SettleChunk.outputs, if_neg hne, Packing.cutMass, List.map_append,
      List.sum_append, List.map_singleton, List.sum_singleton, hchange, h.winners]
  constructor
  · intro hw
    exact hstorage.mp hw.storage
  · intro hcut
    refine ⟨hstorage.mpr hcut, ?_, ?_⟩
    · rw [hyes, hlen]
      exact hcompute
    · rw [hyes, hlen]
      exact htransient

/-! ### A chain of chunks -/

/-- **What a chain pays**, and when it is within the limits. -/
theorem chunkChain_pays {prevChange : Int} {isFirst : Bool} {segFixed : List Int}
    {rest : List ChunkWinner} {chunks : List SettleChunk} (hne : rest ≠ [])
    (hpos : ∀ w ∈ rest, 0 < w.amount) (hprev : prevChange = segFixed.sum + paid rest)
    (h : chunkChain lo prevChange isFirst segFixed rest = .ok chunks) :
    Segments lo chunks rest ∧ Flows prevChange segFixed chunks ∧
      (AllWithin prevChange segFixed chunks ↔ LeavesEnough ⟨prevChange, segFixed, rest⟩) := by
  induction hn : rest.length using Nat.strong_induction_on generalizing lo prevChange isFirst
    segFixed rest chunks with
  | _ n ih =>
    obtain ⟨w, ws, rfl⟩ := List.exists_cons_of_ne_nil hne
    obtain ⟨c, cs, rfl, hc, hcs⟩ := chunkChain_cons h
    have hchange := hc.change_eq hprev
    have hsum := hc.outputs_sum hprev
    have hseg : w :: ws = c.winners ++ (w :: ws).drop (packed prevChange segFixed (w :: ws)) := by
      rw [hc.winners]
      exact (List.take_append_drop _ _).symm
    have hlen : c.seg_hi = lo + c.winners.length := by
      rw [hc.seg_hi, hc.winners, List.length_take_of_le (packed_le _ _ _)]
    rcases (packed_le prevChange segFixed (w :: ws)).lt_or_eq with hshort | hall
    · -- the rest is left to the chunks that follow
      have hmore : (w :: ws).drop (packed prevChange segFixed (w :: ws)) ≠ [] := by
        rw [Ne, List.drop_eq_nil_iff]
        exact not_le.mpr hshort
      have hnext := ih _ (by
        have hpacks := hc.packs
        rw [← hn, List.length_drop]
        simp only at hpacks hshort ⊢
        omega) hmore (fun w hw => hpos w (List.mem_of_mem_drop hw))
        (by rw [hchange, List.sum_nil, zero_add]) hcs rfl
      obtain ⟨hsegs, hflows, hwithin⟩ := hnext
      have hstops : Packing.Stops ⟨prevChange, segFixed, w :: ws⟩
          (packed prevChange segFixed (w :: ws)) := packed_stops hshort
      refine ⟨⟨hc.seg_lo, hlen, _, hseg, hsegs⟩, ?_, ?_⟩
      · cases cs with
        | nil => exact hflows.elim
        | cons c' cs => exact ⟨hsum.le, hflows⟩
      · rw [leavesEnough_iff hstops, AllWithin, hwithin, hchange]
        exact and_congr_left' (hc.within_iff hprev hpos hshort)
    · -- these are all
      have hdrop : (w :: ws).drop (packed prevChange segFixed (w :: ws)) = [] := by
        rw [hall, List.drop_length]
      rw [hdrop, chunkChain] at hcs
      cases hcs
      rw [hdrop] at hseg hchange
      refine ⟨⟨hc.seg_lo, hlen, [], hseg, rfl⟩, ⟨hchange, hsum⟩, ?_⟩
      refine iff_of_true ⟨hc.within_last hall, trivial⟩ (leavesEnough_of_all ?_)
      intro j hj hle
      exact tryFits_packed hj (hle.trans hall.ge)

/-! ### A plan -/

/-- **When a plan can be paid.**  In one transaction, if all fits it; otherwise in chunks, if there
is a winner and enough is left wherever a chunk stops short of the last. -/
theorem payable_iff {winners : List ChunkWinner} {fixedOutputs : List Int} {poolValue : Int}
    {payoutRootHex : String} {plan : SettlePlan} (hpos : ∀ w ∈ winners, 0 < w.amount)
    (hpool : poolValue = fixedOutputs.sum + paid winners)
    (h : computeSettleChunks winners fixedOutputs poolValue payoutRootHex = .ok plan) :
    Payable winners fixedOutputs poolValue plan ↔
      fits [poolValue] (fixedOutputs ++ amounts winners) winners.length fixedOutputs.length false
        false = true ∨
      winners ≠ [] ∧ LeavesEnough ⟨poolValue, fixedOutputs, winners⟩ := by
  unfold computeSettleChunks at h
  split at h
  · next hfits =>
    cases h
    refine iff_of_true ⟨?_, ?_, ?_⟩ (Or.inl hfits)
    · exact ⟨rfl, (Nat.zero_add _).symm, [], (List.append_nil _).symm, rfl⟩
    · refine ⟨rfl, ?_⟩
      rw [SettleChunk.outputs, if_pos rfl, List.append_nil, List.sum_append, hpool]
      rfl
    · obtain ⟨-, hstorage, hcompute, htransient⟩ := fits_iff.mp hfits
      refine ⟨⟨?_, hcompute, htransient⟩, trivial⟩
      rw [SettleChunk.outputs, if_pos rfl, List.append_nil]
      exact hstorage
  · next hfits =>
    obtain ⟨chunks, hchunks, heq⟩ := bind_eq_ok.mp h
    cases heq
    rw [or_iff_right hfits]
    by_cases hne : winners = []
    · rw [hne, chunkChain] at hchunks
      cases hchunks
      exact iff_of_false (fun hpay => hpay.flows) fun hleaves => hleaves.1 hne
    · obtain ⟨hsegs, hflows, hwithin⟩ := chunkChain_pays hne hpos hpool hchunks
      rw [and_iff_right hne, ← hwithin]
      exact ⟨fun hpay => hpay.within, fun hall => ⟨hsegs, hflows, hall⟩⟩

/-! ### A plan that cannot be paid

The second of two winners is left one hundredth of a coin.  The first chunk was tried with the pool
in place of that. -/

def dustWinners : List ChunkWinner := [⟨"a", 100000000⟩, ⟨"b", 1000000⟩]

def dustPlan : SettlePlan where
  route := .chunk
  payoutRoot := "root"
  chunks :=
    [{ kind := .chunk_0, seg_lo := 0, seg_hi := 1, winners := [⟨"a", 100000000⟩]
       change := 1000000, hwm_out := some 1 },
      { kind := .chunk_last, seg_lo := 1, seg_hi := 2, winners := [⟨"b", 1000000⟩], change := 0
        hwm_out := some 2 }]

theorem dust_not_payable :
    computeSettleChunks dustWinners [] 101000000 "root" = .ok dustPlan ∧
      (∀ w ∈ dustWinners, 0 < w.amount) ∧ (101000000 : Int) = [].sum + paid dustWinners ∧
      ¬ Payable dustWinners [] 101000000 dustPlan := by
  refine ⟨toOption_eq_some.mp (by decide +kernel), by decide, by decide, ?_⟩
  intro hpay
  have hheavy : STORAGE_MASS_SAFE_THRESHOLD <
      estimateMultiOutputStorageMass [101000000] [100000000, 1000000] := by
    decide +kernel
  exact absurd hpay.within.1.storage hheavy.not_ge

def cutWinners : List ChunkWinner := [⟨"a", 3000000⟩, ⟨"b", 3000000⟩, ⟨"c", 1000000000000⟩]

def cutPlan : SettlePlan where
  route := .chunk
  payoutRoot := "root"
  chunks :=
    [{ kind := .chunk_0, seg_lo := 0, seg_hi := 1, winners := [⟨"a", 3000000⟩]
       change := 1000003000000, hwm_out := some 1 },
      { kind := .chunk_last, seg_lo := 1, seg_hi := 3
        winners := [⟨"b", 3000000⟩, ⟨"c", 1000000000000⟩], change := 0
        hwm_out := some 3 }]

theorem payable_iff_cut :
    Payable cutWinners [] 1000006000000 cutPlan ↔
      fits [1000006000000] ([] ++ amounts cutWinners) 3 0 false false = true ∨
      cutWinners ≠ [] ∧ LeavesEnough ⟨1000006000000, [], cutWinners⟩ :=
  payable_iff (by decide) (by decide)
    (toOption_eq_some.mp (by decide +kernel :
      (computeSettleChunks cutWinners [] 1000006000000 "root").toOption = some cutPlan))

end KANet.Settle
