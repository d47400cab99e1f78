import KANet.Relay.SpcIndex

/-!
# The score of the block that locks a bet

A node stores with a bet the DAA score of the block that accepts its transaction.  It looks for that
block where the log of transactions says that the transaction was seen, or walks back along the
selected parents, from the tip or from where the index has the deadline, to the first block that
carries the transaction.

A block that carries a transaction is not the block that accepts it: a block of the selected chain
accepts what the blocks it merges carry, its selected parent among them.

* `captureSideLockDaa` — `trade-protocol-filter.js`.
* `recaptureSideLockDaaForMarket` — `pool-market-settler-v06.mjs`.
* `capture_eq_ok` — which score it gives.
* `capture_iff` — when that is the score of the block that accepts the transaction.
-/

namespace KANet.Relay.LockDaa

open KANet.Lib Relation

variable {H : Type} [DecidableEq H]

/-! ### The call -/

/-- A block as the node gives it, with its transactions. -/
structure RpcBlock (H : Type) where
  daaScore : Option Nat
  transactions : List String
  selectedParentHash : Option H

structure DagInfo (H : Type) where
  sink : Option H
  virtualDaaScore : Option Nat

/-- The node that is asked, which may fail to answer; what it says of the DAG at the start of the
walk and at the end of the call. -/
structure Rpc (H : Type) where
  url : Bool
  connects : Bool
  getBlock : H → Option (RpcBlock H)
  first : Option (DagInfo H)
  last : Option (DagInfo H)

/-- What a node has in its tables: the block that the log has for a transaction, and the index. -/
structure Db (H : Type) where
  blockHash : String → Option H
  spc_daa_index : Table (EndBlock.daaScore (H := H))
  spc_daa_index_coverage : Table SpcIndex.Coverage.id

inductive Reason
  | noRpc
  | noBlockHash
  | rpcFail
  | daaUnresolved
  | notYetFinal (tip block : Nat)
deriving DecidableEq, Repr

def CAPTURE_FINALITY_DEPTH : Nat := 50

def MAX_STEPS : Nat := 10000

/-- The block that the index has for the hint, where that is covered. -/
def indexed (db : Db H) (approxDaaHint : Option Nat) : Option H := do
  let daa ← approxDaaHint
  let cov ← (db.spc_daa_index.rows.filter (daa ≤ ·.daaScore)).argmin (·.daaScore)
  if db.spc_daa_index_coverage.rows.any fun r => r.start_daa ≤ daa && daa ≤ r.end_daa then
    some cov.hash
  else none

def resolveStartCursor (rpc : Rpc H) (db : Db H) (approxDaaHint : Option Nat) :
    Except Reason (Option H) :=
  match indexed db approxDaaHint with
  | some h => .ok (some h)
  | none => do
    let info ← orRefuse rpc.first .rpcFail
    .ok info.sink

/-- To the first block that carries the transaction. -/
def scanBackwardForTx (rpc : Rpc H) (tx : String) : Nat → H → Except Reason (Option (RpcBlock H))
  | 0, _ => .ok none
  | n + 1, cursor => do
    let blk ← orRefuse (rpc.getBlock cursor) .rpcFail
    if tx ∈ blk.transactions then .ok (some blk)
    else
      match blk.selectedParentHash with
      | none => .ok none
      | some sp => scanBackwardForTx rpc tx n sp

/-- The block that the score is taken from. -/
def lookup (rpc : Rpc H) (db : Db H) (tx : String) (approxDaaHint : Option Nat) :
    Except Reason (RpcBlock H) :=
  match db.blockHash tx with
  | some h => orRefuse (rpc.getBlock h) .rpcFail
  | none => do
    let cursor ← resolveStartCursor rpc db approxDaaHint
    let cursor ← orRefuse cursor .noBlockHash
    let blk ← scanBackwardForTx rpc tx MAX_STEPS cursor
    orRefuse blk .noBlockHash

def Rpc.tip (rpc : Rpc H) : Option Nat := rpc.last.bind DagInfo.virtualDaaScore

/-- A score, or nothing for a reason. -/
def captureSideLockDaa (rpc : Rpc H) (db : Db H) (tx : String) (approxDaaHint : Option Nat) :
    Except Reason Nat := do
  check (rpc.url = true) .noRpc
  check (rpc.connects = true) .rpcFail
  let blk ← lookup rpc db tx approxDaaHint
  let tip ← orRefuse rpc.tip .rpcFail
  let daa ← orRefuse blk.daaScore .daaUnresolved
  check (daa + CAPTURE_FINALITY_DEPTH ≤ tip) (.notYetFinal tip daa)
  .ok daa

/-- A row of `pool_bettor_sides`. -/
structure Side where
  id : String
  side_lock_tx : String
  side_lock_daa : Option Nat

/-- What has no score is looked up; `deadline_daa` is the hint. -/
def recaptureSideLockDaaForMarket (rpc : Rpc H) (db : Db H) (deadline_daa : Option Nat)
    (sides : List Side) : List Side :=
  sides.map fun b =>
    match b.side_lock_daa with
    | some _ => b
    | none =>
      { b with
        side_lock_daa := (captureSideLockDaa rpc db b.side_lock_tx deadline_daa).toOption }

/-! ### Which block accepts -/

/-- A block DAG with the transactions of its blocks. -/
structure TxDag (H : Type) [DecidableEq H] extends Dag H where
  transactions : H → List String

/-- A block of the selected chain **accepts** a transaction that a block it merges carries: one in
its past, and of its selected parent's past only that parent. -/
structure TxDag.Accepts (d : TxDag H) (tx : String) (b : Block H) : Prop where
  mem : d.block b.hash = some b
  onChain : b.isChainBlock = true
  merged : ∃ m, tx ∈ d.transactions m ∧ m ≠ b.hash ∧ d.Past b.hash m ∧
    ∀ p, b.selectedParentHash = some p → d.Past p m → m = p

/-- The node answers, and what it says is the DAG. -/
structure Answers (rpc : Rpc H) (d : TxDag H) : Prop where
  url : rpc.url = true
  connects : rpc.connects = true
  getBlock : ∀ h c, d.block h = some c → ∃ blk, rpc.getBlock h = some blk ∧
    blk.daaScore = some c.daaScore ∧ blk.transactions = d.transactions h ∧
      blk.selectedParentHash = c.selectedParentHash
  first : rpc.first.isSome
  tip : rpc.tip.isSome

/-- The block is as deep as it takes. -/
def Final (rpc : Rpc H) (daaScore : Nat) : Prop :=
  ∃ tip, rpc.tip = some tip ∧ daaScore + CAPTURE_FINALITY_DEPTH ≤ tip

/-! ### Where it looks -/

/-- So many selected parents down. -/
def ancestor (rpc : Rpc H) : Nat → H → Option H
  | 0, h => some h
  | n + 1, h => (rpc.getBlock h).bind fun blk => blk.selectedParentHash.bind (ancestor rpc n)

/-- Where the walk starts. -/
def start (rpc : Rpc H) (db : Db H) (approxDaaHint : Option Nat) : Option H :=
  (indexed db approxDaaHint).or (rpc.first.bind DagInfo.sink)

/-- The first block on the way down from another that carries the transaction. -/
structure FirstBelow (rpc : Rpc H) (tx : String) (n : Nat) (cursor : H) (blk : RpcBlock H) :
    Prop where
  at_hash : ∃ m < n, ∃ h, ancestor rpc m cursor = some h ∧ rpc.getBlock h = some blk ∧
    ∀ l < m, ∀ k blk', ancestor rpc l cursor = some k → rpc.getBlock k = some blk' →
      tx ∉ blk'.transactions
  carries : tx ∈ blk.transactions

/-- **The block that carries the transaction**, for a node: the one in its log, or the first on the
way down. -/
def Carrier (rpc : Rpc H) (db : Db H) (tx : String) (approxDaaHint : Option Nat)
    (blk : RpcBlock H) : Prop :=
  match db.blockHash tx with
  | some h => rpc.getBlock h = some blk
  | none => ∃ cursor, start rpc db approxDaaHint = some cursor ∧
      FirstBelow rpc tx MAX_STEPS cursor blk

/-- The block is within the bound of the walk. -/
def Within (rpc : Rpc H) (db : Db H) (approxDaaHint : Option Nat) (b : Block H) : Prop :=
  ∃ cursor, start rpc db approxDaaHint = some cursor ∧
    ∃ n < MAX_STEPS, ancestor rpc n cursor = some b.hash

/-- **The score is a fact of the chain**: none, or that of the block that accepts the transaction;
and not none when that block is final and within the bound. -/
structure Anchored (rpc : Rpc H) (db : Db H) (d : TxDag H) (tx : String)
    (approxDaaHint : Option Nat) : Prop where
  fact : ∀ b, d.Accepts tx b → ∀ daa, captureSideLockDaa rpc db tx approxDaaHint = .ok daa →
    daa = b.daaScore
  resolved : ∀ b, d.Accepts tx b → Answers rpc d → Final rpc b.daaScore →
    Within rpc db approxDaaHint b → ∃ daa, captureSideLockDaa rpc db tx approxDaaHint = .ok daa

/-- The block that carries the transaction has the score of the one that accepts it, once it is
final; and it is there and final when that one is. -/
structure Agrees (rpc : Rpc H) (db : Db H) (d : TxDag H) (tx : String)
    (approxDaaHint : Option Nat) : Prop where
  score : ∀ b, d.Accepts tx b → rpc.url = true → rpc.connects = true → ∀ blk daa,
    Carrier rpc db tx approxDaaHint blk → blk.daaScore = some daa → Final rpc daa →
      daa = b.daaScore
  found : ∀ b, d.Accepts tx b → Answers rpc d → Final rpc b.daaScore →
    Within rpc db approxDaaHint b → ∃ blk daa, Carrier rpc db tx approxDaaHint blk ∧
      blk.daaScore = some daa ∧ Final rpc daa

/-! ### What it finds -/

variable {rpc : Rpc H} {db : Db H} {tx : String} {hint : Option Nat} {blk : RpcBlock H}

omit [DecidableEq H] in
theorem resolveStartCursor_eq_ok {cursor : H} :
    resolveStartCursor rpc db hint = .ok (some cursor) ↔ start rpc db hint = some cursor := by
  unfold resolveStartCursor start
  cases indexed db hint with
  | some h => simp
  | none =>
    cases rpc.first with
    | none => simp [orRefuse, bind, Except.bind]
    | some info => simp [orRefuse, bind, Except.bind]

omit [DecidableEq H] in
/-- **The walk** finds the first block that carries the transaction. -/
theorem scanBackwardForTx_eq_ok {n : Nat} {cursor : H} :
    scanBackwardForTx rpc tx n cursor = .ok (some blk) ↔ FirstBelow rpc tx n cursor blk := by
  induction n generalizing cursor with
  | zero =>
    constructor
    · intro h
      cases h
    · rintro ⟨⟨m, hm, -⟩, -⟩
      exact absurd hm (Nat.not_lt_zero m)
  | succ n ih =>
    cases hcur : rpc.getBlock cursor with
    | none =>
      constructor
      · intro h
        simp [scanBackwardForTx, hcur, orRefuse, bind, Except.bind] at h
      · rintro ⟨⟨m, -, h, hanc, hget, -⟩, -⟩
        cases m with
        | zero =>
          obtain rfl := Option.some.inj hanc
          rw [hcur] at hget
          cases hget
        | succ m =>
          rw [ancestor, hcur] at hanc
          cases hanc
    | some blk' =>
      by_cases htx : tx ∈ blk'.transactions
      · have hscan : scanBackwardForTx rpc tx (n + 1) cursor = .ok (some blk') := by
          simp [scanBackwardForTx, hcur, orRefuse, bind, Except.bind, htx]
        rw [hscan]
        constructor
        · intro h
          obtain rfl : blk' = blk := by simpa using h
          exact ⟨⟨0, Nat.succ_pos n, cursor, rfl, hcur, fun l hl => absurd hl (Nat.not_lt_zero l)⟩,
            htx⟩
        · rintro ⟨⟨m, -, h, hanc, hget, hbefore⟩, -⟩
          cases m with
          | zero =>
            obtain rfl := Option.some.inj hanc
            rw [hcur] at hget
            rw [Option.some.inj hget]
          | succ m => exact absurd htx (hbefore 0 (Nat.succ_pos m) cursor blk' rfl hcur)
      · cases hsp : blk'.selectedParentHash with
        | none =>
          have hscan : scanBackwardForTx rpc tx (n + 1) cursor = .ok none := by
            simp [scanBackwardForTx, hcur, orRefuse, bind, Except.bind, htx, hsp]
          rw [hscan]
          constructor
          · intro h
            cases h
          · rintro ⟨⟨m, -, h, hanc, hget, -⟩, hin⟩
            cases m with
            | zero =>
              obtain rfl := Option.some.inj hanc
              rw [hcur] at hget
              rw [Option.some.inj hget] at htx
              exact absurd hin htx
            | succ m =>
              rw [ancestor, hcur, Option.bind_some, hsp] at hanc
              cases hanc
        | some sp =>
          have hscan : scanBackwardForTx rpc tx (n + 1) cursor = scanBackwardForTx rpc tx n sp := by
            simp [scanBackwardForTx, hcur, orRefuse, bind, Except.bind, htx, hsp]
          have hdown : ∀ m, ancestor rpc (m + 1) cursor = ancestor rpc m sp := by
            intro m
            rw [ancestor, hcur, Option.bind_some, hsp, Option.bind_some]
          rw [hscan, ih]
          constructor
          · rintro ⟨⟨m, hm, h, hanc, hget, hbefore⟩, hin⟩
            refine ⟨⟨m + 1, Nat.succ_lt_succ hm, h, (hdown m).trans hanc, hget, ?_⟩, hin⟩
            intro l hl k b hk hb
            cases l with
            | zero =>
              obtain rfl := Option.some.inj hk
              rw [hcur] at hb
              rwa [← Option.some.inj hb]
            | succ l => exact hbefore l (Nat.lt_of_succ_lt_succ hl) k b ((hdown l).symm.trans hk) hb
          · rintro ⟨⟨m, hm, h, hanc, hget, hbefore⟩, hin⟩
            cases m with
            | zero =>
              obtain rfl := Option.some.inj hanc
              rw [hcur] at hget
              rw [Option.some.inj hget] at htx
              exact absurd hin htx
            | succ m =>
              refine ⟨⟨m, Nat.lt_of_succ_lt_succ hm, h, (hdown m).symm.trans hanc, hget, ?_⟩, hin⟩
              intro l hl k b hk hb
              exact hbefore (l + 1) (Nat.succ_lt_succ hl) k b ((hdown l).trans hk) hb

omit [DecidableEq H] in
theorem lookup_eq_ok : lookup rpc db tx hint = .ok blk ↔ Carrier rpc db tx hint blk := by
  unfold lookup Carrier
  cases db.blockHash tx with
  | some h => exact orRefuse_eq_ok
  | none =>
    simp only [bind_eq_ok, orRefuse_eq_ok]
    constructor
    · rintro ⟨_, hcur, cursor, rfl, _, hscan, rfl⟩
      exact ⟨cursor, resolveStartCursor_eq_ok.mp hcur, scanBackwardForTx_eq_ok.mp hscan⟩
    · rintro ⟨cursor, hcur, hfirst⟩
      exact ⟨_, resolveStartCursor_eq_ok.mpr hcur, cursor, rfl, _,
        scanBackwardForTx_eq_ok.mpr hfirst, rfl⟩

omit [DecidableEq H] in
/-- **The score that it gives** is that of the block that carries the transaction. -/
theorem capture_eq_ok {daa : Nat} : captureSideLockDaa rpc db tx hint = .ok daa ↔
    rpc.url = true ∧ rpc.connects = true ∧ (∃ blk, Carrier rpc db tx hint blk ∧
      blk.daaScore = some daa) ∧ Final rpc daa := by
  unfold captureSideLockDaa Final
  simp only [bind_eq_ok, check_eq_ok, orRefuse_eq_ok, lookup_eq_ok, Except.ok.injEq]
  constructor
  · rintro ⟨-, hurl, -, hcon, blk, hblk, tip, htip, daa', hdaa, -, hfin, rfl⟩
    exact ⟨hurl, hcon, ⟨blk, hblk, hdaa⟩, tip, htip, hfin⟩
  · rintro ⟨hurl, hcon, ⟨blk, hblk, hdaa⟩, tip, htip, hfin⟩
    exact ⟨(), hurl, (), hcon, blk, hblk, tip, htip, daa, hdaa, (), hfin, rfl⟩

/-- **When the score is a fact of the chain.** -/
theorem capture_iff (rpc : Rpc H) (db : Db H) (d : TxDag H) (tx : String) (hint : Option Nat) :
    Anchored rpc db d tx hint ↔ Agrees rpc db d tx hint := by
  constructor
  · intro h
    refine ⟨fun b hb hurl hcon blk daa hblk hdaa hfin => ?_, fun b hb hans hfin hin => ?_⟩
    · exact h.fact b hb daa (capture_eq_ok.mpr ⟨hurl, hcon, ⟨blk, hblk, hdaa⟩, hfin⟩)
    · obtain ⟨daa, hok⟩ := h.resolved b hb hans hfin hin
      obtain ⟨-, -, ⟨blk, hblk, hdaa⟩, hfin⟩ := capture_eq_ok.mp hok
      exact ⟨blk, daa, hblk, hdaa, hfin⟩
  · intro h
    refine ⟨fun b hb daa hok => ?_, fun b hb hans hfin hin => ?_⟩
    · obtain ⟨hurl, hcon, ⟨blk, hblk, hdaa⟩, hfin⟩ := capture_eq_ok.mp hok
      exact h.score b hb hurl hcon blk daa hblk hdaa hfin
    · obtain ⟨blk, daa, hblk, hdaa, hfin⟩ := h.found b hb hans hfin hin
      exact ⟨daa, capture_eq_ok.mpr ⟨hans.url, hans.connects, ⟨blk, hblk, hdaa⟩, hfin⟩⟩

/-- What is filled in for a market is then the score of the block that accepts each bet. -/
theorem recapture_anchored {d : TxDag H} {deadline_daa : Option Nat} {sides : List Side}
    (h : ∀ b ∈ sides, Anchored rpc db d b.side_lock_tx deadline_daa) {b' : Side}
    (hb' : b' ∈ recaptureSideLockDaaForMarket rpc db deadline_daa sides) :
    b' ∈ sides ∨ ∀ daa, b'.side_lock_daa = some daa → ∀ b, d.Accepts b'.side_lock_tx b →
      daa = b.daaScore := by
  obtain ⟨side, hside, rfl⟩ := List.mem_map.mp hb'
  cases hdaa : side.side_lock_daa with
  | some daa => exact Or.inl hside
  | none =>
    refine Or.inr fun daa hok b hb => ?_
    exact (h side hside).fact b hb daa (toOption_eq_some.mp hok)

/-! ### A bet on a chain -/

/-- The chain, with a transaction in one of its blocks. -/
def betLine : TxDag Nat :=
  { SpcIndex.line with transactions := fun h => if h = 5 then ["t"] else [] }

def betRpc : Rpc Nat where
  url := true
  connects := true
  getBlock h := (SpcIndex.lineBlock h).map fun c =>
    ⟨some c.daaScore, betLine.transactions h, c.selectedParentHash⟩
  first := some ⟨some 70, some 71⟩
  last := some ⟨some 70, some 71⟩

/-- A node that has the block in its log, or nothing. -/
def betDb (blockHash : Option Nat) : Db Nat := ⟨fun _ => blockHash, .empty _, .empty _⟩

theorem betLine_accepts : betLine.Accepts "t" ⟨6, 7, 0, true, some 5⟩ where
  mem := rfl
  onChain := rfl
  merged := by
    refine ⟨5, List.mem_singleton.mpr rfl, by decide, .single (List.mem_singleton.mpr rfl), ?_⟩
    intro p hp _
    exact Option.some.inj hp

theorem betRpc_answers : Answers betRpc betLine where
  url := rfl
  connects := rfl
  getBlock h c hc := by
    have hline : SpcIndex.lineBlock h = some c := hc
    have hget : betRpc.getBlock h = (SpcIndex.lineBlock h).map fun c =>
      ⟨some c.daaScore, betLine.transactions h, c.selectedParentHash⟩ := rfl
    rw [hline] at hget
    exact ⟨_, hget, rfl, rfl, rfl⟩
  first := rfl
  tip := rfl

/-- The score of the block that carries the bet is stored, not of the one that accepts it. -/
theorem carrier_not_accepting :
    Answers betRpc betLine ∧ betLine.Accepts "t" ⟨6, 7, 0, true, some 5⟩ ∧
      captureSideLockDaa betRpc (betDb (some 5)) "t" none = .ok 6 ∧
        captureSideLockDaa betRpc (betDb none) "t" none = .ok 6 ∧
          ¬ Anchored betRpc (betDb (some 5)) betLine "t" none ∧
            ¬ Anchored betRpc (betDb none) betLine "t" none := by
  have hlogged : captureSideLockDaa betRpc (betDb (some 5)) "t" none = .ok 6 := by decide +kernel
  have hwalked : captureSideLockDaa betRpc (betDb none) "t" none = .ok 6 := by decide +kernel
  refine ⟨betRpc_answers, betLine_accepts, hlogged, hwalked, fun h => ?_, fun h => ?_⟩
  · exact absurd (h.fact _ betLine_accepts 6 hlogged) (by decide)
  · exact absurd (h.fact _ betLine_accepts 6 hwalked) (by decide)

end KANet.Relay.LockDaa
