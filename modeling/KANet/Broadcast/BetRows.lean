import KANet.Broadcast.MarketRows

/-!
# `trade-protocol-filter.js`: the bets a node hears of

A bet that was placed on another node is announced by a broadcast that nobody signs.  What is
checked of it is that the address it names is the one of that market, key and direction.  Of the
transaction that should have paid that address the node looks up the block, for its score; a
transaction without one is stored without a score, and what it pays is not looked at.

An announcement for a market that the node has not heard of is dropped, and delivered again once it
has.  Compiling the address is outside, as is reading a number as a `BigInt`.

* `mem_step` — where a row of a node comes from.
* `Fair.step` — an announcement that is what it says.
* `funded_run` — a node that hears such announcements only.
-/

namespace KANet.Broadcast.Bets

open KANet.Lib

open KANet.Predict.Oracles (textOf)

open Markets (PoolMarket hasAll orElse bindable truthy)

/-! ### The score of a payment -/

structure Block where
  transactions : List String
  selectedParentHash : Option String
  daaScore : Option Int

structure DagInfo where
  sink : Option String
  virtualDaaScore : Int

/-- What a node says when it is asked, and what the indexer has; nothing, where a call fails. -/
structure Answers where
  url : Bool
  connects : Bool
  block_hash : String → Option String
  spc_daa_index : Int → Option String
  getBlockDagInfo : Option DagInfo
  getBlock : String → Option Block

inductive Reason
  | no_rpc
  | rpc_fail
  | no_block_hash
  | daa_unresolved
  | not_yet_finality_safe
  | ok
deriving DecidableEq

structure Capture where
  daa : Option Int
  reason : Reason

def MAX_STEPS : Nat := 10000

def CAPTURE_FINALITY_DEPTH : Int := 50

/-- From the hint if the index covers it, else from the tip. -/
def resolveStartCursor (ans : Answers) (approxDaaHint : Option Int) : Option (Option String) :=
  match approxDaaHint.bind ans.spc_daa_index with
  | some hash => some (some hash)
  | none => ans.getBlockDagInfo.map DagInfo.sink

/-- Back along the selected parents, up to the block with the transaction: nothing where a call
fails, and no block where there is none within so many steps. -/
def walkBack (ans : Answers) (side_lock_tx : Option String) : Nat → String → Option (Option Block)
  | 0, _ => some none
  | steps + 1, cursor =>
    match ans.getBlock cursor with
    | none => none
    | some blk =>
      if side_lock_tx.any (· ∈ blk.transactions) then some (some blk)
      else
        match blk.selectedParentHash with
        | none => some none
        | some sp =>
          if sp = "" ∨ sp = String.ofList (List.replicate 64 '0') then some none
          else walkBack ans side_lock_tx steps sp

def scanBackwardForTx (ans : Answers) (side_lock_tx : Option String) (approxDaaHint : Option Int) :
    Option (Option Block) :=
  match resolveStartCursor ans approxDaaHint with
  | none => none
  | some none => some none
  | some (some cursor) => walkBack ans side_lock_tx MAX_STEPS cursor

/-- The block of the payment, as far as it is found. -/
def findBlock (ans : Answers) (key : String) (side_lock_tx : Option String)
    (approxDaaHint : Option Int) : Option (Option Block) :=
  match ans.block_hash key with
  | some hash => (ans.getBlock hash).map some
  | none => scanBackwardForTx ans side_lock_tx approxDaaHint

def captureSideLockDaa (ans : Answers) (key : String) (side_lock_tx : Option String)
    (approxDaaHint : Option Int) : Capture :=
  if !ans.url then ⟨none, .no_rpc⟩
  else if !ans.connects then ⟨none, .rpc_fail⟩
  else
    match findBlock ans key side_lock_tx approxDaaHint with
    | none => ⟨none, .rpc_fail⟩
    | some none => ⟨none, .no_block_hash⟩
    | some (some blk) =>
      match ans.getBlockDagInfo with
      | none => ⟨none, .rpc_fail⟩
      | some tipInfo =>
        match blk.daaScore with
        | none => ⟨none, .daa_unresolved⟩
        | some daa =>
          if tipInfo.virtualDaaScore - daa < CAPTURE_FINALITY_DEPTH then
            ⟨none, .not_yet_finality_safe⟩
          else ⟨some daa, .ok⟩

/-! ### Announcements -/

/-- How numbers are read, and the address and redeem script of a side by its key, market, direction
and stake; nothing, where the compiler throws. -/
structure Env extends Markets.Env where
  bigInt : Json → Option Int
  computeSideP2SH_v07 : Json → PoolMarket → Json → Option (String × String)
  computeSideP2SH_v06 : Json → PoolMarket → Json → Json → Option (String × String)

/-- A bet as it is announced. -/
structure Bet where
  market_id : String
  bettor_pk : Json
  direction : Json
  stake_amount : Json
  side_p2sh : String

/-- A row of `pool_bettor_sides`. -/
structure BettorSide extends Bet where
  side_lock_tx : String
  merkle_index : Option Json
  side_redeem_script_hex : String
  side_lock_daa : Option Int

def BETTOR_MIN_STAKE_POLICY_SOMPI : Int := 100000000

/-- The stake is a number, and not under the floor. -/
def stakeEnough (env : Env) (msg : Json) : Bool :=
  ((msg.get "stake_amount").bind env.bigInt).any (BETTOR_MIN_STAKE_POLICY_SOMPI ≤ ·)

/-- The side of a bet, as the version of the message has it, or else that of the market. -/
def recomputed (env : Env) (market : PoolMarket) (msg : Json) : Option (String × String) := do
  let bettor_pk ← msg.get "bettor_pk"
  let direction ← msg.get "direction"
  let stake_amount ← msg.get "stake_amount"
  match textOf (orElse (msg.get "protocol_version") market.protocol_version) with
  | some ver =>
    if ver = "v0.7" then env.computeSideP2SH_v07 bettor_pk market direction
    else if ver = "v0.6" then env.computeSideP2SH_v06 bettor_pk market direction stake_amount
    else none
  | none => none

def requiredOfBet : List String :=
  ["market_id", "bettor_pk", "direction", "stake_amount", "side_p2sh", "side_lock_tx"]

/-- The bet that a message announces for a market, if the address is that of the market. -/
def betOf (env : Env) (market : PoolMarket) (msg : Json) : Option (Bet × String) := do
  let side ← recomputed env market msg
  let bettor_pk ← msg.get "bettor_pk"
  let direction ← msg.get "direction"
  let stake_amount ← msg.get "stake_amount"
  if textOf (msg.get "side_p2sh") = some side.1 then
    some (⟨market.id, bettor_pk, direction, stake_amount, side.1⟩, side.2)
  else none

/-- The row of a bet, unless the node cannot be asked or the driver throws. -/
def rowOf (ans : Answers) (side_lock_tx : String) (msg : Json) (bet : Bet) (redeem : String) :
    Option BettorSide :=
  let cap := captureSideLockDaa ans side_lock_tx (textOf (msg.get "side_lock_tx")) none
  if cap.reason = .no_rpc ∨ cap.reason = .rpc_fail then none
  else if [some bet.bettor_pk, some bet.direction, some bet.stake_amount,
      orElse (msg.get "merkle_index") none].all bindable then
    some { bet with
      side_lock_tx := side_lock_tx
      merkle_index := orElse (msg.get "merkle_index") none
      side_redeem_script_hex := redeem
      side_lock_daa := cap.daa }
  else none

/-- What a message is stored as, whether or not its transaction has a row already. -/
def announced (env : Env) (ans : Answers) (pool_markets : Table PoolMarket.id) (msg : Json) :
    Option BettorSide :=
  if !hasAll requiredOfBet msg then none
  else if !stakeEnough env msg then none
  else do
    let side_lock_tx ← env.bindKey (msg.get "side_lock_tx")
    let market ← (env.marketId msg).bind pool_markets.get
    let bet ← betOf env market msg
    rowOf ans side_lock_tx msg bet.1 bet.2

def handlePoolBetRegistered (env : Env) (ans : Answers) (pool_markets : Table PoolMarket.id)
    (sides : Table BettorSide.side_lock_tx) (msg : Json) : Table BettorSide.side_lock_tx :=
  if !hasAll requiredOfBet msg then sides
  else if !stakeEnough env msg then sides
  else
    match env.bindKey (msg.get "side_lock_tx") with
    | none => sides
    | some side_lock_tx =>
      if (sides.get side_lock_tx).isSome then sides
      else
        match (env.marketId msg).bind pool_markets.get with
        | none => sides
        | some market =>
          match betOf env market msg with
          | none => sides
          | some (bet, redeem) =>
            match rowOf ans side_lock_tx msg bet redeem with
            | none => sides
            -- `INSERT OR IGNORE`
            | some row => (sides.insert row).getD sides

/-! ### A node -/

structure Node where
  pool_markets : Table PoolMarket.id
  sides : Table BettorSide.side_lock_tx

inductive Event
  /-- The node hears of a market. -/
  | market (row : PoolMarket)
  /-- A broadcast, from anybody, with what is answered then. -/
  | bet (ans : Answers) (msg : Json)

def step (env : Env) (n : Node) : Event → Node
  | .market row => { n with pool_markets := (n.pool_markets.insert row).getD n.pool_markets }
  | .bet ans msg => { n with sides := handlePoolBetRegistered env ans n.pool_markets n.sides msg }

def Step (env : Env) (n : Node) (ev : Event) (n' : Node) : Prop := n' = step env n ev

/-! ### What is true -/

/-- What the transactions pay, and the bet that an honest node has paid with a transaction. -/
structure Truth where
  outputs : String → List (String × Int)
  bet : String → Option Bet

/-- The transaction pays the address of the side the stake. -/
def Bet.PaidBy (env : Env) (t : Truth) (tx : String) (b : Bet) : Prop :=
  ∃ stake v, env.bigInt b.stake_amount = some stake ∧ stake ≤ v ∧ (b.side_p2sh, v) ∈ t.outputs tx

/-- A bet that was placed was paid. -/
def Truth.Sound (env : Env) (t : Truth) : Prop := ∀ tx b, t.bet tx = some b → b.PaidBy env t tx

/-- The address is the one of the market, the key and the direction. -/
def Bet.Derived (env : Env) (market : PoolMarket) (b : Bet) : Prop :=
  b.market_id = market.id ∧ ∃ redeem,
    env.computeSideP2SH_v07 b.bettor_pk market b.direction = some (b.side_p2sh, redeem) ∨
    env.computeSideP2SH_v06 b.bettor_pk market b.direction b.stake_amount =
      some (b.side_p2sh, redeem)

/-- The block of the payment is found, and final. -/
def Scored (ans : Answers) (key : String) (side_lock_tx : Option String) : Prop :=
  ∃ blk tipInfo daa, findBlock ans key side_lock_tx none = some (some blk) ∧
    ans.getBlockDagInfo = some tipInfo ∧ blk.daaScore = some daa ∧
    CAPTURE_FINALITY_DEPTH ≤ tipInfo.virtualDaaScore - daa

/-- The rows are bets that were placed, with a score, on markets the node knows. -/
structure Node.Fair (env : Env) (t : Truth) (n : Node) : Prop where
  placed : ∀ row ∈ n.sides.rows, t.bet row.side_lock_tx = some row.toBet
  scored : ∀ row ∈ n.sides.rows, row.side_lock_daa ≠ none
  derived : ∀ row ∈ n.sides.rows, ∃ market ∈ n.pool_markets.rows, row.toBet.Derived env market

/-- The announcement is what it says: a bet whose transaction has no row yet is the one that was
placed with that transaction, and the block of that is found and final. -/
def Genuine (env : Env) (t : Truth) (n : Node) : Event → Prop
  | .market _ => True
  | .bet ans msg => ∀ row, announced env ans n.pool_markets msg = some row →
    n.sides.get row.side_lock_tx = none → t.bet row.side_lock_tx = some row.toBet ∧
      Scored ans row.side_lock_tx (textOf (msg.get "side_lock_tx"))

/-- **Only bets that were paid are recorded.** -/
structure FundedOnly (env : Env) (t : Truth) (start : Node) (evs : List Event) (n : Node) :
    Prop where
  /-- The transaction of a row pays the stake to the side of that market, key and direction. -/
  funded : ∀ row ∈ n.sides.rows, row.toBet.PaidBy env t row.side_lock_tx ∧
    ∃ market ∈ n.pool_markets.rows, row.toBet.Derived env market
  /-- No transaction backs two rows. -/
  once : (n.sides.rows.map BettorSide.side_lock_tx).Nodup
  /-- Nobody adds a bet that was not placed. -/
  placed : ∀ row ∈ n.sides.rows, t.bet row.side_lock_tx = some row.toBet
  /-- A bet that was placed is recorded when it is heard, whatever was heard before. -/
  recorded : ∀ pre ans msg post m row, evs = pre ++ .bet ans msg :: post →
    Run (Step env) start pre m → Run (Step env) m (.bet ans msg :: post) n →
    announced env ans m.pool_markets msg = some row → t.bet row.side_lock_tx = some row.toBet →
      ∃ row' ∈ n.sides.rows, row'.side_lock_tx = row.side_lock_tx ∧ row'.toBet = row.toBet
  /-- Every row has the score that the committee's sampling asks for. -/
  scored : ∀ row ∈ n.sides.rows, row.side_lock_daa ≠ none

/-! ### One message -/

section Step

variable {env : Env} {ans : Answers} {markets : Table PoolMarket.id}
  {sides : Table BettorSide.side_lock_tx} {n : Node} {t : Truth}

theorem rowOf_spec {tx : String} {msg : Json} {bet : Bet} {redeem : String} {row : BettorSide}
    (h : rowOf ans tx msg bet redeem = some row) : row.toBet = bet ∧ row.side_lock_tx = tx ∧
      row.side_lock_daa =
        (captureSideLockDaa ans tx (textOf (msg.get "side_lock_tx")) none).daa := by
  unfold rowOf at h
  dsimp only at h
  split_ifs at h with hfail hbind
  obtain rfl := Option.some.inj h
  exact ⟨rfl, rfl, rfl⟩

/-- A payment that is found and final has a score. -/
theorem capture_daa {key : String} {tx : Option String}
    (hcap : (captureSideLockDaa ans key tx none).reason ≠ .no_rpc ∧
      (captureSideLockDaa ans key tx none).reason ≠ .rpc_fail) (h : Scored ans key tx) :
    (captureSideLockDaa ans key tx none).daa ≠ none := by
  obtain ⟨blk, tipInfo, daa, hblk, htip, hdaa, hfinal⟩ := h
  obtain ⟨hno, hfail⟩ := hcap
  have hdeep : ¬ tipInfo.virtualDaaScore - daa < CAPTURE_FINALITY_DEPTH := not_lt.mpr hfinal
  unfold captureSideLockDaa at hno hfail ⊢
  simp only [hblk, htip, hdaa, hdeep, if_false] at hno hfail ⊢
  split_ifs at hno hfail ⊢ with hurl hconnects
  · exact absurd rfl hno
  · exact absurd rfl hfail
  · exact Option.some_ne_none daa

theorem rowOf_answered {tx : String} {msg : Json} {bet : Bet} {redeem : String} {row : BettorSide}
    (h : rowOf ans tx msg bet redeem = some row) :
    (captureSideLockDaa ans tx (textOf (msg.get "side_lock_tx")) none).reason ≠ .no_rpc ∧
      (captureSideLockDaa ans tx (textOf (msg.get "side_lock_tx")) none).reason ≠ .rpc_fail := by
  unfold rowOf at h
  dsimp only at h
  split_ifs at h with hfail hbind
  exact not_or.mp hfail

theorem betOf_spec {market : PoolMarket} {msg : Json} {bet : Bet} {redeem : String}
    (h : betOf env market msg = some (bet, redeem)) : bet.Derived env market := by
  simp only [betOf, Option.bind_eq_bind, Option.bind_eq_some_iff] at h
  obtain ⟨side, hside, bettor_pk, hpk, direction, hdir, stake, hstake, h⟩ := h
  split_ifs at h with haddr
  obtain ⟨rfl, -⟩ := Prod.mk.inj (Option.some.inj h)
  simp only [recomputed, hpk, hdir, hstake, Option.bind_eq_bind, Option.bind_some] at hside
  refine ⟨rfl, side.2, ?_⟩
  split at hside
  · split_ifs at hside
    · exact Or.inl hside
    · exact Or.inr hside
  · cases hside

/-- **What is stored for a message.** -/
theorem announced_spec {msg : Json} {row : BettorSide}
    (h : announced env ans markets msg = some row) :
    (∃ market ∈ markets.rows, row.toBet.Derived env market) ∧
      (Scored ans row.side_lock_tx (textOf (msg.get "side_lock_tx")) →
        row.side_lock_daa ≠ none) := by
  unfold announced at h
  split_ifs at h with hall hstake
  simp only [Option.bind_eq_bind, Option.bind_eq_some_iff] at h
  obtain ⟨tx, htx, market, ⟨id, hid, hmarket⟩, ⟨bet, redeem⟩, hbet, hrow⟩ := h
  obtain ⟨hrowbet, hrowtx, hrowdaa⟩ := rowOf_spec hrow
  refine ⟨⟨market, Table.mem_of_get hmarket, ?_⟩, ?_⟩
  · rw [hrowbet]
    exact betOf_spec hbet
  · intro hscored
    rw [hrowtx] at hscored
    rw [hrowdaa]
    exact capture_daa (rowOf_answered hrow) hscored

/-- **What a message does**: what it announces is inserted, if it can be. -/
theorem bet_eq (env : Env) (ans : Answers) (markets : Table PoolMarket.id)
    (sides : Table BettorSide.side_lock_tx) (msg : Json) :
    handlePoolBetRegistered env ans markets sides msg =
      ((announced env ans markets msg).bind sides.insert).getD sides := by
  unfold handlePoolBetRegistered announced
  split_ifs with hall hstake
  · rfl
  · rfl
  · cases htx : env.bindKey (msg.get "side_lock_tx") with
    | none => rfl
    | some tx =>
      simp only [Option.bind_eq_bind, Option.bind_some]
      cases hmarket : (env.marketId msg).bind markets.get with
      | none => exact ite_self _
      | some market =>
        simp only [Option.bind_some]
        cases hbet : betOf env market msg with
        | none => exact ite_self _
        | some bet =>
          simp only [Option.bind_some]
          cases hrow : rowOf ans tx msg bet.1 bet.2 with
          | none => exact ite_self _
          | some row =>
            split
            · next hhave =>
              -- the insertion is refused as well
              rw [← (rowOf_spec hrow).2.1, ← Table.insert_eq_none] at hhave
              rw [Option.bind_some, hhave]
              rfl
            · rfl

/-- What is announced is stored, unless its transaction has a row. -/
theorem bet_new {msg : Json} {row : BettorSide} (h : announced env ans markets msg = some row)
    (hnew : sides.get row.side_lock_tx = none) :
    (handlePoolBetRegistered env ans markets sides msg).rows = sides.rows ++ [row] := by
  rw [bet_eq, h, Option.bind_some]
  cases hins : sides.insert row with
  | none =>
    rw [Table.insert_eq_none, hnew] at hins
    cases hins
  | some sides' => exact Table.rows_of_insert hins

theorem bet_rows (env : Env) (ans : Answers) (markets : Table PoolMarket.id)
    (sides : Table BettorSide.side_lock_tx) (msg : Json) :
    handlePoolBetRegistered env ans markets sides msg = sides ∨
      ∃ row, announced env ans markets msg = some row ∧ sides.get row.side_lock_tx = none ∧
        (handlePoolBetRegistered env ans markets sides msg).rows = sides.rows ++ [row] := by
  cases hann : announced env ans markets msg with
  | none =>
    left
    rw [bet_eq, hann]
    rfl
  | some row =>
    cases hins : sides.insert row with
    | none =>
      left
      rw [bet_eq, hann, Option.bind_some, hins]
      rfl
    | some sides' =>
      have hnew := Table.free_of_insert hins
      exact Or.inr ⟨row, rfl, hnew, bet_new hann hnew⟩

/-- Where a row comes from. -/
inductive Became (env : Env) (n : Node) : Event → BettorSide → Prop
  | kept {ev row} (mem : row ∈ n.sides.rows) : Became env n ev row
  | heard {ans msg row} (stored : announced env ans n.pool_markets msg = some row)
      (new : n.sides.get row.side_lock_tx = none) : Became env n (.bet ans msg) row

/-- **The inversion of a step.** -/
theorem mem_step {ev : Event} {row : BettorSide} (h : row ∈ (step env n ev).sides.rows) :
    Became env n ev row := by
  cases ev with
  | market m => exact .kept h
  | bet ans msg =>
    have hrow : row ∈ (handlePoolBetRegistered env ans n.pool_markets n.sides msg).rows := h
    rcases bet_rows env ans n.pool_markets n.sides msg with hsame | ⟨r, hann, hnew, hrows⟩
    · rw [hsame] at hrow
      exact .kept hrow
    · rw [hrows] at hrow
      rcases List.mem_append.mp hrow with hold | hold
      · exact .kept hold
      · obtain rfl := List.mem_singleton.mp hold
        exact .heard hann hnew

/-- A row stays. -/
theorem kept_step (env : Env) (ev : Event) {row : BettorSide} (h : row ∈ n.sides.rows) :
    row ∈ (step env n ev).sides.rows := by
  cases ev with
  | market m => exact h
  | bet ans msg =>
    show row ∈ (handlePoolBetRegistered env ans n.pool_markets n.sides msg).rows
    rcases bet_rows env ans n.pool_markets n.sides msg with hsame | ⟨r, -, -, hrows⟩
    · rw [hsame]
      exact h
    · rw [hrows]
      exact List.mem_append_left _ h

/-- A market stays. -/
theorem market_step (env : Env) (ev : Event) {market : PoolMarket}
    (h : market ∈ n.pool_markets.rows) : market ∈ (step env n ev).pool_markets.rows := by
  cases ev with
  | market m =>
    show market ∈ ((n.pool_markets.insert m).getD n.pool_markets).rows
    cases hins : n.pool_markets.insert m with
    | none => exact h
    | some markets' =>
      rw [Option.getD_some, Table.rows_of_insert hins]
      exact List.mem_append_left _ h
  | bet ans msg => exact h

/-- What is announced has a row afterwards. -/
theorem heard_step {msg : Json} {row : BettorSide}
    (h : announced env ans n.pool_markets msg = some row) :
    ∃ row' ∈ (step env n (.bet ans msg)).sides.rows, row'.side_lock_tx = row.side_lock_tx := by
  cases hget : n.sides.get row.side_lock_tx with
  | some row' =>
    exact ⟨row', kept_step env _ (Table.mem_of_get hget), Table.key_of_get hget⟩
  | none =>
    refine ⟨row, ?_, rfl⟩
    show row ∈ (handlePoolBetRegistered env ans n.pool_markets n.sides msg).rows
    rw [bet_new h hget]
    exact List.mem_append_right _ (List.mem_singleton_self _)

/-- **The step lemma.** -/
theorem Node.Fair.step {ev : Event} (h : n.Fair env t) (hgen : Genuine env t n ev) :
    (step env n ev).Fair env t := by
  refine ⟨?_, ?_, ?_⟩
  · intro row hrow
    cases mem_step hrow with
    | kept hmem => exact h.placed row hmem
    | heard hann hnew => exact (hgen row hann hnew).1
  · intro row hrow
    cases mem_step hrow with
    | kept hmem => exact h.scored row hmem
    | heard hann hnew => exact (announced_spec hann).2 (hgen row hann hnew).2
  · intro row hrow
    cases mem_step hrow with
    | kept hmem =>
      obtain ⟨market, hmarket, hderived⟩ := h.derived row hmem
      exact ⟨market, market_step env ev hmarket, hderived⟩
    | heard hann hnew =>
      obtain ⟨market, hmarket, hderived⟩ := (announced_spec hann).1
      exact ⟨market, market_step env _ hmarket, hderived⟩

end Step

/-! ### Runs -/

section Runs

variable {env : Env} {t : Truth} {n n' : Node} {evs : List Event}

/-- A run in which every announcement is what it says. -/
abbrev HeardGenuine (env : Env) (t : Truth) :=
  Run fun n ev n' => Step env n ev n' ∧ Genuine env t n ev

/-- **The run lemma.** -/
theorem Node.Fair.run (h : HeardGenuine env t n evs n') (hn : n.Fair env t) : n'.Fair env t := by
  refine Run.invariant (I := Node.Fair env t) ?_ h hn
  rintro m ev m' hm ⟨rfl, hgen⟩
  exact hm.step hgen

theorem kept_run (h : Run (Step env) n evs n') : ∀ row ∈ n.sides.rows, row ∈ n'.sides.rows := by
  induction h with
  | nil m => exact fun row hrow => hrow
  | cons hstep _ ih =>
    intro row hrow
    obtain rfl := hstep
    exact ih row (kept_step env _ hrow)

/-- **Only bets that were paid are recorded** where every announcement is what it says. -/
theorem funded_run (ht : t.Sound env) (hn : n.Fair env t) (h : HeardGenuine env t n evs n') :
    FundedOnly env t n evs n' := by
  have hfair := hn.run h
  refine ⟨?_, n'.sides.unique, hfair.placed, ?_, hfair.scored⟩
  · exact fun row hrow => ⟨ht _ _ (hfair.placed row hrow), hfair.derived row hrow⟩
  · intro pre ans msg post m row _ _ hrun hann hbet
    cases hrun with
    | cons hstep hrest =>
      obtain rfl := hstep
      obtain ⟨row', hrow', htx⟩ := heard_step hann
      have hrow'' := kept_run hrest row' hrow'
      -- the transaction of a row is that of one bet only
      have hplaced := hfair.placed row' hrow''
      rw [htx, hbet] at hplaced
      exact ⟨row', hrow'', htx, (Option.some.inj hplaced).symm⟩

end Runs

/-! ### A bettor and a stranger -/

/-- The address of a side is its key. -/
def sampleEnv : Env where
  toEnv := Markets.sampleEnv
  bigInt
    | .num n => some n
    | _ => none
  computeSideP2SH_v07 pk _ _ := (textOf (some pk)).map fun addr => (addr, "redeem")
  computeSideP2SH_v06 _ _ _ _ := none

def sampleMsg (key tx : String) : Json :=
  .obj [("t", .str "pool_bet_registered_v1"), ("market_id", .str "m"), ("bettor_pk", .str key),
    ("direction", .num 1), ("stake_amount", .num 300000000), ("side_p2sh", .str key),
    ("side_lock_tx", .str tx), ("protocol_version", .str "v0.7")]

def sampleBet (key : String) : Bet := ⟨"m", .str key, .num 1, .num 300000000, key⟩

def sampleSide (key tx : String) (daa : Option Int) : BettorSide where
  toBet := sampleBet key
  side_lock_tx := tx
  merkle_index := none
  side_redeem_script_hex := "redeem"
  side_lock_daa := daa

/-- One bet has been placed, and is in the only block. -/
def sampleTruth : Truth where
  outputs tx := if tx = "t" then [("a", 300000000)] else []
  bet tx := if tx = "t" then some (sampleBet "a") else none

def sampleAnswers : Answers where
  url := true
  connects := true
  block_hash _ := none
  spc_daa_index _ := none
  getBlockDagInfo := some ⟨some "tip", 1000⟩
  getBlock _ := some ⟨["t"], none, some 900⟩

theorem nodup_waiting : ([Markets.waitingRow].map PoolMarket.id).Nodup :=
  List.nodup_singleton Markets.waitingRow.id

def sampleNode : Node :=
  ⟨⟨[Markets.waitingRow], nodup_waiting⟩, Table.empty BettorSide.side_lock_tx⟩

theorem sampleNode_fair : sampleNode.Fair sampleEnv sampleTruth :=
  ⟨fun _ h => absurd h List.not_mem_nil, fun _ h => absurd h List.not_mem_nil,
    fun _ h => absurd h List.not_mem_nil⟩

theorem sample_sound : sampleTruth.Sound sampleEnv := by
  intro tx b hb
  unfold sampleTruth at hb
  dsimp only at hb
  split at hb
  · next htx =>
    obtain rfl := Option.some.inj hb
    subst htx
    exact ⟨300000000, 300000000, rfl, le_refl _, List.mem_singleton_self _⟩
  · cases hb

theorem bettor_announced : announced sampleEnv sampleAnswers sampleNode.pool_markets
    (sampleMsg "a" "t") = some (sampleSide "a" "t" (some 900)) := by
  rfl

theorem stranger_announced : announced sampleEnv sampleAnswers sampleNode.pool_markets
    (sampleMsg "c" "t") = some (sampleSide "c" "t" (some 900)) := by
  rfl

theorem unknown_announced : announced sampleEnv sampleAnswers sampleNode.pool_markets
    (sampleMsg "c" "x") = some (sampleSide "c" "x" none) := by
  rfl

theorem funded_run_bettor : FundedOnly sampleEnv sampleTruth sampleNode
    [.bet sampleAnswers (sampleMsg "a" "t")]
    (step sampleEnv sampleNode (.bet sampleAnswers (sampleMsg "a" "t"))) := by
  refine funded_run sample_sound sampleNode_fair (.single ⟨rfl, ?_⟩)
  intro row hrow _
  rw [bettor_announced] at hrow
  obtain rfl := Option.some.inj hrow
  exact ⟨rfl, _, _, _, rfl, rfl, rfl, by decide⟩

theorem mem_announced {msg : Json} {row : BettorSide}
    (h : announced sampleEnv sampleAnswers sampleNode.pool_markets msg = some row) :
    row ∈ (step sampleEnv sampleNode (.bet sampleAnswers msg)).sides.rows := by
  show row ∈ (handlePoolBetRegistered _ _ _ _ msg).rows
  rw [bet_new h rfl]
  exact List.mem_singleton_self _

/-- **A stranger takes the transaction of a bet** before the bettor is heard, **and adds a bet** that
no transaction pays. -/
theorem stranger_heard_first :
    (¬ FundedOnly sampleEnv sampleTruth sampleNode
      [.bet sampleAnswers (sampleMsg "c" "t"), .bet sampleAnswers (sampleMsg "a" "t")]
      (step sampleEnv (step sampleEnv sampleNode (.bet sampleAnswers (sampleMsg "c" "t")))
        (.bet sampleAnswers (sampleMsg "a" "t")))) ∧
    ¬ FundedOnly sampleEnv sampleTruth sampleNode [.bet sampleAnswers (sampleMsg "c" "x")]
      (step sampleEnv sampleNode (.bet sampleAnswers (sampleMsg "c" "x"))) := by
  constructor
  · intro h
    have hmem := kept_step sampleEnv (.bet sampleAnswers (sampleMsg "a" "t"))
      (mem_announced stranger_announced)
    have hbet : sampleBet "a" = sampleBet "c" := Option.some.inj (h.placed _ hmem)
    exact absurd (congrArg Bet.side_p2sh hbet) (by decide)
  · intro h
    have hbet := h.placed _ (mem_announced unknown_announced)
    cases hbet

end KANet.Broadcast.Bets
