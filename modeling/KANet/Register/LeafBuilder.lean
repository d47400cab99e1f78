import KANet.Covenant.ShardLeafTickets
import KANet.Lib.Refuse
import KANet.Payout.Root
import KANet.Script.Buffer

/-!
# The registration the console builds

The console keeps the state of a shard's leaf beside the redeem script the shard was born with.  For
a bet it splices the state into that script, which gives the script of the leaf it spends, computes
the next state, and sends both to the relay; the relay splices the next state in and makes the
outputs.

The console counts in doubles and writes two's complement.  The covenant counts in script numbers
and writes a sign and a magnitude.

* `registerCommand` — what the console sends.
* `relayOutputs` — what the relay makes of it.
* `relay_registers` — the covenant accepts it.
* `leaf_accounts` — the covenant's account of a shard's registrations, and where the console agrees.
-/

namespace KANet.Register

open KANet.Lib KANet.Script KANet.Payout KANet.Covenant

def MIN_BET : Int := 100000

def TICKET_DUST : Nat := 20000000

/-! ### The console -/

/-- `a + b` of two numbers. -/
def addNumber (a b : Int) : Int := toNumber (a + b)

/-- `_push8(_i64LE(n))` -/
def pushI64 (n : Int) : Option Bytes := (i64LE n).map (0x08 :: ·)

/-- The redeem script of a leaf, with the state replaced. -/
def spliceLeafState (baseRedeem : Bytes) (st : ShardLeaf.State) : Option Bytes := do
  let yes ← pushI64 st.local_yes
  let no ← pushI64 st.local_no
  let count ← pushI64 st.count
  let pool ← pushI64 st.pool_value
  let state := yes ++ no ++ count ++ pool
  some (baseRedeem.take 1 ++ state ++ baseRedeem.drop (1 + state.length))

/-- The state in the bytes of the covenant, which a new shard is compared with. -/
def serializeLeafState (st : ShardLeaf.State) : Option Bytes := do
  require (0 ≤ st.local_yes ∧ 0 ≤ st.local_no ∧ 0 ≤ st.count ∧ 0 ≤ st.pool_value)
  let yes ← serializeI64 st.local_yes (some 8)
  let no ← serializeI64 st.local_no (some 8)
  let count ← serializeI64 st.count (some 8)
  let pool ← serializeI64 st.pool_value (some 8)
  let out := (0x08 :: yes) ++ (0x08 :: no) ++ (0x08 :: count) ++ (0x08 :: pool)
  require (out.length = 36)
  some out

/-- The state after a bet, as the console computes it. -/
def newState (st : ShardLeaf.State) (direction stake : Int) : ShardLeaf.State where
  local_yes := addNumber st.local_yes (if direction = 0 then stake else 0)
  local_no := addNumber st.local_no (if direction = 1 then stake else 0)
  count := addNumber st.count 1
  pool_value := addNumber st.pool_value stake

/-- A compiled ticket contract, with the hash of the bytes around its state. -/
structure PsArtifact where
  template : Template
  templateHash : Bytes32

inductive RegisterError
  | direction
  | stake
  | side
  | leafOutIdx
  | psOutIdx
  | selfVerify
  | range

def buildRegisterWitness (e : Engine) (side stake leafOutIdx psOutIdx : Int) (bettorPk : Bytes32)
    (psArtifact : PsArtifact) : Except RegisterError ShardLeaf.RegisterWitness := do
  check (side = 0 ∨ side = 1) .side
  check (0 < stake) .stake
  check (0 ≤ leafOutIdx) .leafOutIdx
  check (0 ≤ psOutIdx) .psOutIdx
  check (e.blake2b (psArtifact.template.templatePrefix ++ psArtifact.template.templateSuffix) =
    psArtifact.templateHash) .selfVerify
  .ok { side, stake, leafOutIdx, psOutIdx, bettorPk, ps_template := psArtifact.template }

/-- The state of the ticket that is to be made. -/
structure TicketState where
  bettorPk : Bytes32
  direction : Int
  stake : Int
  shardPoolId : Bytes32

/-- What the relay is asked for. -/
structure RegisterCommand where
  witness : ShardLeaf.RegisterWitness
  leafOutpointTxid : String
  leafRedeem : Bytes
  currentState : ShardLeaf.State
  leafAmountSompi : Int
  leafContinuation : ShardLeaf.State
  ticketAmountSompi : Nat
  ticket : TicketState

def buildRegisterCommand (witness : ShardLeaf.RegisterWitness) (leafOutpointTxid : String)
    (leafRedeem : Bytes) (currentLeafState : ShardLeaf.State) (leafValueSompi : Int)
    (leafContinuationState : ShardLeaf.State) (ticketDustSompi : Nat) (shardPoolId : Bytes32) :
    RegisterCommand where
  witness := witness
  leafOutpointTxid := leafOutpointTxid
  leafRedeem := leafRedeem
  currentState := currentLeafState
  leafAmountSompi := leafValueSompi + witness.stake
  leafContinuation := leafContinuationState
  ticketAmountSompi := ticketDustSompi
  ticket :=
    { bettorPk := witness.bettorPk, direction := witness.side, stake := witness.stake, shardPoolId }

/-- The shard as the console has it. -/
structure LeafRow where
  shard_redeem : Bytes
  current_leaf_outpoint : String
  current_leaf_state : ShardLeaf.State

/-- The command that registers a bet on the leaf of an open shard. -/
def registerCommand (e : Engine) (shard : LeafRow) (shardPoolId bettorPk : Bytes32)
    (direction stakeSompi : Int) (psArtifact : PsArtifact) :
    Except RegisterError RegisterCommand := do
  check (direction = 0 ∨ direction = 1) .direction
  check (0 < stakeSompi) .stake
  let stake := toNumber stakeSompi
  let st := shard.current_leaf_state
  let curRedeem ← orRefuse (spliceLeafState shard.shard_redeem st) .range
  let next := newState st direction stake
  let witness ← buildRegisterWitness e direction stake 0 1 bettorPk psArtifact
  .ok (buildRegisterCommand witness shard.current_leaf_outpoint curRedeem st st.pool_value next
    TICKET_DUST shardPoolId)

/-! ### The relay -/

/-- `_continuationAddress`: what a continued contract is locked to. -/
def continuationScript (e : Engine) (inputRedeem : Bytes) (fields : List Field) : Option Bytes :=
  (serializeState fields).map fun state =>
    ScriptPubKeyP2SH
      (e.blake2b (inputRedeem.take 1 ++ state ++ inputRedeem.drop (1 + state.length)))

/-- `_ticketAddress` -/
def ticketScript (e : Engine) (ps : Template) (ticket : TicketState) : Option Bytes :=
  (serializeState [.byte32 ticket.bettorPk, .int ticket.direction, .int ticket.stake,
    .byte32 ticket.shardPoolId]).map fun state => ScriptPubKeyP2SH (e.blake2b (ps.redeem state))

/-- The leaf and the ticket that the relay makes. -/
def relayOutputs (e : Engine) (cmd : RegisterCommand) : Option (TxOutput × TxOutput) := do
  let leaf ← continuationScript e cmd.leafRedeem cmd.leafContinuation.fields
  let ticket ← ticketScript e cmd.witness.ps_template cmd.ticket
  some ({ value := cmd.leafAmountSompi.toNat, scriptPubKey := leaf, covenantId := none },
    { value := cmd.ticketAmountSompi, scriptPubKey := ticket, covenantId := none })

/-! ### Where the two agree -/

/-- The leaf is what the console compiles: the state begins at the second byte, and no bet is
smaller than the console's smallest. -/
structure Compiled (c : ShardLeaf.Contract) : Prop where
  start : c.template.templatePrefix.length = 1
  min_bet : c.min_bet = MIN_BET

/-- The console has the script the shard was born with, and the state of its leaf. -/
structure Tracks (c : ShardLeaf.Contract) (shard : LeafRow) (s : ShardLeaf.State) : Prop where
  born : ∃ state, serializeState ShardLeaf.genesis.state.fields = some state ∧
    shard.shard_redeem = c.template.redeem state
  state : shard.current_leaf_state = s

/-- The numbers of a state are doubles. -/
structure Doubles (s : ShardLeaf.State) : Prop where
  yes : toNumber s.local_yes = s.local_yes
  no : toNumber s.local_no = s.local_no
  count : toNumber s.count = s.count
  pool : toNumber s.pool_value = s.pool_value

theorem newState_eq_bump {s : ShardLeaf.State} {direction stake : Int}
    (hd : direction = 0 ∨ direction = 1) (h : Doubles (s.bump direction stake)) :
    newState s direction stake = s.bump direction stake := by
  obtain ⟨hyes, hno, hcount, hpool⟩ := h
  have hy : stake * (1 - direction) = if direction = 0 then stake else 0 := by
    rcases hd with rfl | rfl <;> simp
  have hn : stake * direction = if direction = 1 then stake else 0 := by
    rcases hd with rfl | rfl <;> simp
  simp only [ShardLeaf.State.bump, hy, hn] at hyes hno hcount hpool
  simp only [newState, ShardLeaf.State.bump, addNumber, hy, hn, hyes, hno, hcount, hpool]

/-- From zero on the console writes a number as the covenant does. -/
theorem pushI64_eq_serialize {n : Int} (h0 : 0 ≤ n) (hf : Fits 8 n) :
    pushI64 n = (Field.int n).serialize := by
  rw [pushI64, i64LE_of_fits hf, serialize_int hf,
    twosComplement_eq_signMagnitude (by norm_num) h0 hf]
  rfl

theorem splice_redeem {t : Template} (ht : t.templatePrefix.length = 1) {old state : Bytes}
    (hlen : old.length = state.length) :
    (t.redeem old).take 1 ++ state ++ (t.redeem old).drop (1 + state.length) = t.redeem state := by
  rw [Template.redeem, Template.redeem, List.append_assoc t.templatePrefix, ← ht, List.take_left,
    ← hlen, ← List.length_append, ← List.append_assoc t.templatePrefix, List.drop_left]

theorem length_state {s : ShardLeaf.State} {state : Bytes}
    (h : serializeState s.fields = some state) : state.length = 36 :=
  length_serializeState h

/-- **The console's splice makes the script of the leaf in its state.** -/
theorem spliceLeafState_redeem {t : Template} (ht : t.templatePrefix.length = 1)
    {s : ShardLeaf.State} (hn : ShardLeaf.NonNeg s) (hp : 0 ≤ s.pool_value) {old state : Bytes}
    (hold : old.length = 36) (hs : serializeState s.fields = some state) :
    spliceLeafState (t.redeem old) s = some (t.redeem state) := by
  have hfits : ∀ n, Field.int n ∈ s.fields → Fits 8 n := fun n h => fits_of_serializeState hs h
  have hlen : old.length = state.length := hold.trans (length_state hs).symm
  rw [ShardLeaf.State.fields] at hs
  obtain ⟨yes, _, hyes, h₁, rfl⟩ := serializeState_cons.mp hs
  obtain ⟨no, _, hno, h₂, rfl⟩ := serializeState_cons.mp h₁
  obtain ⟨count, _, hcount, h₃, rfl⟩ := serializeState_cons.mp h₂
  obtain ⟨pool, _, hpool, h₄, rfl⟩ := serializeState_cons.mp h₃
  obtain rfl := Option.some.inj h₄
  have hflat : yes ++ no ++ count ++ pool = yes ++ (no ++ (count ++ (pool ++ []))) := by
    rw [List.append_nil, List.append_assoc, List.append_assoc]
  rw [spliceLeafState, pushI64_eq_serialize hn.yes (hfits _ (by simp [ShardLeaf.State.fields])),
    pushI64_eq_serialize hn.no (hfits _ (by simp [ShardLeaf.State.fields])),
    pushI64_eq_serialize hn.count (hfits _ (by simp [ShardLeaf.State.fields])),
    pushI64_eq_serialize hp (hfits _ (by simp [ShardLeaf.State.fields])),
    hyes, hno, hcount, hpool]
  show some _ = some _
  rw [hflat, splice_redeem ht hlen]

theorem pushed_eq_serialize {n : Int} (h0 : 0 ≤ n) {b : Bytes}
    (h : (Field.int n).serialize = some b) :
    ∃ bytes, serializeI64 n (some 8) = some bytes ∧ 0x08 :: bytes = b := by
  obtain ⟨bytes, hb, rfl⟩ := Option.map_eq_some_iff.mp h
  exact ⟨bytes, (serializeI64_eq h0 (by norm_num)).trans hb, rfl⟩

theorem serializeLeafState_eq {s : ShardLeaf.State} (hn : ShardLeaf.NonNeg s)
    (hp : 0 ≤ s.pool_value) {state : Bytes} (hs : serializeState s.fields = some state) :
    serializeLeafState s = some state := by
  have hlen := length_state hs
  rw [ShardLeaf.State.fields] at hs
  obtain ⟨_, _, hyes, h₁, rfl⟩ := serializeState_cons.mp hs
  obtain ⟨_, _, hno, h₂, rfl⟩ := serializeState_cons.mp h₁
  obtain ⟨_, _, hcount, h₃, rfl⟩ := serializeState_cons.mp h₂
  obtain ⟨_, _, hpool, h₄, rfl⟩ := serializeState_cons.mp h₃
  obtain rfl := Option.some.inj h₄
  obtain ⟨yes, wyes, rfl⟩ := pushed_eq_serialize hn.yes hyes
  obtain ⟨no, wno, rfl⟩ := pushed_eq_serialize hn.no hno
  obtain ⟨count, wcount, rfl⟩ := pushed_eq_serialize hn.count hcount
  obtain ⟨pool, wpool, rfl⟩ := pushed_eq_serialize hp hpool
  have hflat : (0x08 :: yes) ++ (0x08 :: no) ++ (0x08 :: count) ++ (0x08 :: pool) =
      0x08 :: yes ++ (0x08 :: no ++ (0x08 :: count ++ (0x08 :: pool ++ []))) := by
    rw [List.append_nil, List.append_assoc, List.append_assoc]
  have hgood : 0 ≤ s.local_yes ∧ 0 ≤ s.local_no ∧ 0 ≤ s.count ∧ 0 ≤ s.pool_value :=
    ⟨hn.yes, hn.no, hn.count, hp⟩
  rw [serializeLeafState, wyes, wno, wcount, wpool, require, if_pos hgood]
  show (require _ >>= fun _ => some _) = some _
  rw [hflat, require_bind_eq_some]
  exact ⟨hlen, rfl⟩

theorem registerCommand_eq_ok {e : Engine} {shard : LeafRow} {shardPoolId bettorPk : Bytes32}
    {direction stakeSompi : Int} {ps : PsArtifact} {cmd : RegisterCommand} :
    registerCommand e shard shardPoolId bettorPk direction stakeSompi ps = .ok cmd ↔
      (direction = 0 ∨ direction = 1) ∧ 0 < stakeSompi ∧ 0 < toNumber stakeSompi ∧
        e.blake2b (ps.template.templatePrefix ++ ps.template.templateSuffix) = ps.templateHash ∧
          ∃ curRedeem, spliceLeafState shard.shard_redeem shard.current_leaf_state =
              some curRedeem ∧
            cmd = buildRegisterCommand
              { side := direction, stake := toNumber stakeSompi, leafOutIdx := 0, psOutIdx := 1,
                bettorPk, ps_template := ps.template }
              shard.current_leaf_outpoint curRedeem shard.current_leaf_state
              shard.current_leaf_state.pool_value
              (newState shard.current_leaf_state direction (toNumber stakeSompi))
              TICKET_DUST shardPoolId := by
  simp only [registerCommand, buildRegisterWitness, bind_eq_ok, check_eq_ok, orRefuse_eq_ok,
    exists_const, Except.ok.injEq]
  constructor
  · intro h
    obtain ⟨hd, hs, cur, hcur, _, ⟨-, hpos, -, -, hhash, rfl⟩, rfl⟩ := h
    exact ⟨hd, hs, hpos, hhash, cur, hcur, rfl⟩
  · intro h
    obtain ⟨hd, hs, hpos, hhash, cur, hcur, rfl⟩ := h
    exact ⟨hd, hs, cur, hcur, _, ⟨hd, hpos, le_refl _, by decide, hhash, rfl⟩, rfl⟩

/-- What the console computed is what the covenant asks for: the script of the leaf that is spent,
the next state and its bytes, the value of its output, and the script that output is locked to. -/
structure Agrees (e : Engine) (c : ShardLeaf.Contract) (shard : LeafRow) (cmd : RegisterCommand)
    (tx : Tx) (s s' : ShardLeaf.State) : Prop where
  spent : ∃ state, serializeState s.fields = some state ∧
    cmd.leafRedeem = c.template.redeem state
  state : cmd.leafContinuation = s'
  serialized : serializeLeafState cmd.leafContinuation = serializeState s'.fields
  amount : cmd.leafAmountSompi = s'.pool_value
  redeem : ∃ redeem out, spliceLeafState shard.shard_redeem cmd.leafContinuation = some redeem ∧
    tx.output cmd.witness.leafOutIdx = some out ∧
      out.scriptPubKey = ScriptPubKeyP2SH (e.blake2b redeem)

variable {e : Engine} {c : ShardLeaf.Contract} {as : List (ShardLeaf.RegisterWitness × Tx)}
  {u : ShardLeaf.Coin}

/-- The fields of a leaf that was reached have been written once. -/
theorem reached_serializes (h : Run (ShardLeaf.Step e c) ShardLeaf.genesis as u) :
    ∃ state, serializeState u.state.fields = some state := by
  have keep : ∀ (m : ShardLeaf.Coin) a m', (∃ state, serializeState m.state.fields = some state) →
      ShardLeaf.Step e c m a m' → ∃ state, serializeState m'.state.fields = some state := by
    intro m a m' _ hstep
    obtain ⟨hreg, -⟩ := hstep
    obtain ⟨-, -, -, -, -, -, ⟨state, _, hs, -⟩, -⟩ :=
      ShardLeaf.register_append_eq_some.mp hreg
    exact ⟨state, hs⟩
  exact h.invariant keep ⟨_, rfl⟩

theorem born_spliced (hc : Compiled c) {shard : LeafRow} {s : ShardLeaf.State}
    (hn : ShardLeaf.NonNeg s) (hp : 0 ≤ s.pool_value) {state : Bytes}
    (hs : serializeState s.fields = some state)
    (hborn : ∃ born, serializeState ShardLeaf.genesis.state.fields = some born ∧
      shard.shard_redeem = c.template.redeem born) :
    spliceLeafState shard.shard_redeem s = some (c.template.redeem state) := by
  obtain ⟨born, hb, hr⟩ := hborn
  rw [hr]
  exact spliceLeafState_redeem hc.start hn hp (length_state hb) hs

/-- **The console's registration is the covenant's**, where doubles hold the sums. -/
theorem agrees_of_step (h : Run (ShardLeaf.Step e c) ShardLeaf.genesis as u) (hc : Compiled c)
    {shard : LeafRow} (ht : Tracks c shard u.state) {shardPoolId bettorPk : Bytes32}
    {direction stakeSompi : Int} {ps : PsArtifact} {cmd : RegisterCommand}
    (hcmd : registerCommand e shard shardPoolId bettorPk direction stakeSompi ps = .ok cmd)
    {tx : Tx} {u' : ShardLeaf.Coin} (hstep : ShardLeaf.Step e c u (cmd.witness, tx) u')
    (hd : Doubles u'.state) : Agrees e c shard cmd tx u.state u'.state := by
  have hmin : 0 ≤ c.min_bet := by
    rw [hc.min_bet]
    decide
  have hnn := ShardLeaf.nonNeg hmin h
  have hpool := hnn.pool (ShardLeaf.accounts h)
  have hrun := h.append (.single hstep)
  have hnn' := ShardLeaf.nonNeg hmin hrun
  have hpool' := hnn'.pool (ShardLeaf.accounts hrun)
  obtain ⟨state, hs⟩ := reached_serializes h
  have hnext := hstep.state_eq
  obtain ⟨hreg, -⟩ := hstep
  obtain ⟨-, -, -, -, -, -, ⟨state', out, hs', ho, hscript⟩, -⟩ :=
    ShardLeaf.register_append_eq_some.mp hreg
  obtain ⟨hdir, -, -, -, cur, hcur, rfl⟩ := registerCommand_eq_ok.mp hcmd
  rw [ht.state] at hcur ⊢
  have hnew : newState u.state direction (toNumber stakeSompi) = u'.state := by
    rw [hnext] at hd ⊢
    exact newState_eq_bump hdir hd
  refine ⟨⟨state, hs, ?_⟩, hnew, ?_, ?_, ⟨c.template.redeem state', out, ?_, ho, hscript⟩⟩
  · rw [born_spliced hc hnn hpool hs ht.born] at hcur
    exact (Option.some.inj hcur).symm
  · show serializeLeafState (newState u.state direction (toNumber stakeSompi)) = _
    rw [hnew, hs']
    exact serializeLeafState_eq hnn' hpool' hs'
  · rw [hnext]
    rfl
  · show spliceLeafState shard.shard_redeem (newState u.state direction (toNumber stakeSompi)) = _
    rw [hnew]
    exact born_spliced hc hnn' hpool' hs' ht.born

theorem relayOutputs_eq_some {cmd : RegisterCommand} {leaf ticket : TxOutput} :
    relayOutputs e cmd = some (leaf, ticket) ↔
      ∃ state tstate, serializeState cmd.leafContinuation.fields = some state ∧
        serializeState [.byte32 cmd.ticket.bettorPk, .int cmd.ticket.direction,
          .int cmd.ticket.stake, .byte32 cmd.ticket.shardPoolId] = some tstate ∧
        leaf = { value := cmd.leafAmountSompi.toNat, covenantId := none,
                 scriptPubKey := ScriptPubKeyP2SH (e.blake2b (cmd.leafRedeem.take 1 ++ state ++
                   cmd.leafRedeem.drop (1 + state.length))) } ∧
        ticket = { value := cmd.ticketAmountSompi, covenantId := none,
                   scriptPubKey := ScriptPubKeyP2SH
                     (e.blake2b (cmd.witness.ps_template.redeem tstate)) } := by
  simp only [relayOutputs, continuationScript, ticketScript, Option.bind_eq_bind,
    Option.bind_eq_some_iff, Option.map_eq_some_iff, Option.some.injEq, Prod.mk.injEq]
  constructor
  · intro h
    obtain ⟨_, ⟨state, hs, rfl⟩, _, ⟨tstate, ht, rfl⟩, rfl, rfl⟩ := h
    exact ⟨state, tstate, hs, ht, rfl, rfl⟩
  · intro h
    obtain ⟨state, tstate, hs, ht, rfl, rfl⟩ := h
    exact ⟨_, ⟨state, hs, rfl⟩, _, ⟨tstate, ht, rfl⟩, rfl, rfl⟩

/-- **The relay's outputs register the bet**, where doubles hold the sums and the shard has room. -/
theorem relay_registers (h : Run (ShardLeaf.Step e c) ShardLeaf.genesis as u) (hc : Compiled c)
    {shard : LeafRow} (ht : Tracks c shard u.state) {bettorPk : Bytes32}
    {direction stakeSompi : Int} {ps : PsArtifact} {cmd : RegisterCommand}
    (hcmd : registerCommand e shard c.shard_pool_id bettorPk direction stakeSompi ps = .ok cmd)
    (hps : ps.templateHash = c.ps_tmpl_hash) (hroom : u.state.count < c.seal_count)
    (hbet : MIN_BET ≤ cmd.witness.stake)
    (hd : Doubles (u.state.bump cmd.witness.side cmd.witness.stake)) {leaf ticket : TxOutput}
    (hout : relayOutputs e cmd = some (leaf, ticket)) {tx : Tx}
    (h₀ : tx.output 0 = some leaf) (h₁ : tx.output 1 = some ticket) :
    ShardLeaf.Step e c u (cmd.witness, tx) ⟨leaf.value, cmd.leafContinuation⟩ := by
  have hmin : 0 ≤ c.min_bet := by
    rw [hc.min_bet]
    decide
  have hnn := ShardLeaf.nonNeg hmin h
  have hpool := hnn.pool (ShardLeaf.accounts h)
  obtain ⟨old, hold⟩ := reached_serializes h
  obtain ⟨hdir, -, hpos, hhash, cur, hcur, rfl⟩ := registerCommand_eq_ok.mp hcmd
  obtain ⟨state, tstate, hs, hts, rfl, rfl⟩ := relayOutputs_eq_some.mp hout
  have hst := ht.state
  rw [hst, born_spliced hc hnn hpool hold ht.born] at hcur
  obtain rfl := Option.some.inj hcur
  have hnew : newState u.state direction (toNumber stakeSompi) =
      u.state.bump direction (toNumber stakeSompi) := newState_eq_bump hdir hd
  simp only [buildRegisterCommand, hst, hnew] at hs hts h₀ h₁ hbet ⊢
  have hnext : ∀ f ∈ (u.state.bump direction (toNumber stakeSompi)).fields, f.Fits := by
    intro f hf
    have hint : ∃ n, f = .int n := by
      simp only [ShardLeaf.State.fields, List.mem_cons, List.not_mem_nil, or_false] at hf
      rcases hf with rfl | rfl | rfl | rfl <;> exact ⟨_, rfl⟩
    obtain ⟨n, rfl⟩ := hint
    exact fits_of_serializeState hs hf
  have hfits := ShardLeaf.State.FitsBump.ofNext hdir hpos.le hnn.yes hnn.no hnext
  have hstake : Fits 8 (toNumber stakeSompi) := fits_of_serializeState hts (by simp)
  have hlen : old.length = state.length := (length_state hold).trans (length_state hs).symm
  refine ⟨ShardLeaf.register_append_of_outputs (w := TICKET_DUST) hroom hdir
    (by rw [hc.min_bet]; exact hbet) (hhash.trans hps) hfits
    (Int.toNat_of_nonneg (add_nonneg hpool hpos.le)) ?_ ?_ hstake, _, h₀, rfl⟩
  · show tx.output 0 = _
    rw [h₀, covenantOutput, hs, splice_redeem hc.start hlen]
    rfl
  · show tx.output 1 = _
    rw [h₁, covenantOutput, ShardLeaf.ticketFields, hts]
    rfl

/-- Sums below 2^53 are doubles. -/
theorem doubles_of_lt {s : ShardLeaf.State} (hn : ShardLeaf.NonNeg s)
    (hs : s.local_yes + s.local_no = s.pool_value) (hp : s.pool_value < 2 ^ 53)
    (hc : s.count < 2 ^ 53) : Doubles s := by
  obtain ⟨hyes, hno, hcount⟩ := hn
  exact ⟨toNumber_of_lt (by omega), toNumber_of_lt (by omega), toNumber_of_lt (by omega),
    toNumber_of_lt (by omega)⟩

/-- **A shard's state is the account of its registrations**, each of which has locked the output it
points to to the ticket of its bet.  The console computes the same next state and the same script,
as long as doubles hold the sums. -/
theorem leaf_accounts (h : Run (ShardLeaf.Step e c) ShardLeaf.genesis as u) :
    ShardLeaf.Accounts c as u.state ∧
      (∀ a ∈ as, ShardLeaf.Ticketed e c a.1 a.2) ∧
      (Compiled c → ∀ shard : LeafRow, Tracks c shard u.state →
        ∀ shardPoolId bettorPk direction stakeSompi ps cmd,
          registerCommand e shard shardPoolId bettorPk direction stakeSompi ps = .ok cmd →
            ∀ tx u', ShardLeaf.Step e c u (cmd.witness, tx) u' → Doubles u'.state →
              Agrees e c shard cmd tx u.state u'.state) := by
  refine ⟨ShardLeaf.accounts h, ?_, ?_⟩
  · intro a ha
    obtain ⟨before, after, rfl⟩ := List.append_of_mem ha
    obtain ⟨m, m', -, ⟨hreg, -⟩, -⟩ := h.split_at
    obtain ⟨-, -, -, hticket, -⟩ := ShardLeaf.register_append_eq_some.mp hreg
    exact hticket
  · intro hc shard ht shardPoolId bettorPk direction stakeSompi ps cmd hcmd tx u' hstep hd
    exact agrees_of_step h hc ht hcmd hstep hd

/-! ### A leaf -/

def samplePs : Template := { templatePrefix := [0x52], templateSuffix := [0xbb] }

def sampleLeaf : ShardLeaf.Contract where
  market_id := samplePk 0
  ps_tmpl_hash := sampleHash [0x52, 0xbb]
  shard_pool_id := samplePk 1
  seal_count := 32
  min_bet := MIN_BET
  payout_cov_id := samplePk 2
  deadline := 1
  template := { templatePrefix := [0x51], templateSuffix := [0xaa] }

def sampleWitness (side stake : Int) : ShardLeaf.RegisterWitness where
  side := side
  stake := stake
  leafOutIdx := 0
  psOutIdx := 1
  bettorPk := samplePk 3
  ps_template := samplePs

/-- The next leaf, and some outputs that are locked to the ticket. -/
def sampleOutputs (s : ShardLeaf.State) (side stake : Int) (tickets : Nat) : List TxOutput :=
  covenantOutput sampleEngine sampleLeaf.template (s.bump side stake).fields
      (s.pool_value + stake).toNat none ::
    List.replicate tickets (covenantOutput sampleEngine samplePs
      (ShardLeaf.ticketFields sampleLeaf (samplePk 3) side stake) TICKET_DUST none)

theorem sampleOutputs_bounded {s : ShardLeaf.State} {side stake : Int} (tickets : Nat)
    (h : s.pool_value + stake < 2 ^ 63) : ∀ o ∈ sampleOutputs s side stake tickets,
      o.value < 2 ^ 63 := by
  intro o ho
  rcases List.mem_cons.mp ho with rfl | ho
  · show (s.pool_value + stake).toNat < 2 ^ 63
    omega
  · rw [List.eq_of_mem_replicate ho]
    show TICKET_DUST < 2 ^ 63
    decide

/-- A registration that makes one ticket or more. -/
theorem sample_step {u : ShardLeaf.Coin} {side stake : Int} {tickets : Nat}
    (hseal : u.state.count < 32) (hside : side = 0 ∨ side = 1) (hmin : MIN_BET ≤ stake)
    (hfits : u.state.FitsBump side stake) (hstake : Fits 8 stake)
    (hpool : 0 ≤ u.state.pool_value + stake) (hmax : u.state.pool_value + stake < 2 ^ 63) :
    ShardLeaf.Step sampleEngine sampleLeaf u
      (sampleWitness side stake,
        sampleTx (sampleOutputs u.state side stake (tickets + 1))
          (sampleOutputs_bounded _ hmax))
      ⟨(u.state.pool_value + stake).toNat, u.state.bump side stake⟩ := by
  refine ⟨ShardLeaf.register_append_of_outputs (v := (u.state.pool_value + stake).toNat)
    hseal hside hmin rfl hfits ?_ rfl rfl hstake, _, rfl, rfl⟩
  exact Int.toNat_of_nonneg hpool

def sampleArtifact : PsArtifact where
  template := samplePs
  templateHash := sampleHash [0x52, 0xbb]

/-- The console's row of a leaf. -/
def sampleRow (s : ShardLeaf.State) : LeafRow where
  shard_redeem := sampleLeaf.template.redeem
    ((serializeState ShardLeaf.genesis.state.fields).getD [])
  current_leaf_outpoint := "leaf:0"
  current_leaf_state := s

def sampleCommand (s : ShardLeaf.State) (side stake : Int) : RegisterCommand :=
  buildRegisterCommand (sampleWitness side stake) "leaf:0"
    ((spliceLeafState (sampleRow s).shard_redeem s).getD []) s s.pool_value
    (newState s side stake) TICKET_DUST (samplePk 1)

theorem sample_command {s : ShardLeaf.State} {side stake : Int} (hside : side = 0 ∨ side = 1)
    (hstake : 0 < stake) (hnum : toNumber stake = stake)
    (hs : (spliceLeafState (sampleRow s).shard_redeem s).isSome) :
    registerCommand sampleEngine (sampleRow s) (samplePk 1) (samplePk 3) side stake
      sampleArtifact = .ok (sampleCommand s side stake) := by
  obtain ⟨cur, hcur⟩ := Option.isSome_iff_exists.mp hs
  refine registerCommand_eq_ok.mpr ⟨hside, hstake, by rwa [hnum], rfl, cur, hcur, ?_⟩
  rw [sampleCommand, hcur, hnum]
  rfl

theorem sample_compiled : Compiled sampleLeaf := ⟨rfl, rfl⟩

theorem sample_tracks (s : ShardLeaf.State) : Tracks sampleLeaf (sampleRow s) s :=
  ⟨⟨_, rfl, rfl⟩, rfl⟩

/-- The leaf after one bet of the smallest size. -/
def firstLeaf : ShardLeaf.Coin where
  value := 100000
  state := ShardLeaf.genesis.state.bump 1 100000

theorem first_step : ShardLeaf.Step sampleEngine sampleLeaf ShardLeaf.genesis
    (sampleWitness 1 100000, sampleTx (sampleOutputs ShardLeaf.genesis.state 1 100000 1)
      (sampleOutputs_bounded _ (by decide))) firstLeaf :=
  sample_step (by decide) (Or.inr rfl) (by decide) (by decide) (by decide) (by decide) (by decide)

/-- The console agrees on the bet after the first one. -/
theorem leaf_accounts_second :
    ShardLeaf.Accounts sampleLeaf [(sampleWitness 1 100000,
        sampleTx (sampleOutputs ShardLeaf.genesis.state 1 100000 1)
          (sampleOutputs_bounded _ (by decide)))] firstLeaf.state ∧
      ∃ tx u', Agrees sampleEngine sampleLeaf (sampleRow firstLeaf.state)
        (sampleCommand firstLeaf.state 0 200000) tx firstLeaf.state u' := by
  have h := leaf_accounts (Run.single first_step)
  have hcmd := @sample_command firstLeaf.state 0 200000 (Or.inl rfl) (by decide)
    (by decide) (by decide)
  have hstep := @sample_step firstLeaf 0 200000 0 (by decide) (Or.inl rfl) (by decide) (by decide)
    (by decide) (by decide) (by decide)
  exact ⟨h.1, _, _, h.2.2 sample_compiled _ (sample_tracks _) _ _ _ _ _ _ hcmd _ _ hstep
    ⟨by decide, by decide, by decide, by decide⟩⟩

/-- The leaf after one bet of 2^53 sompi. -/
def largeLeaf : ShardLeaf.Coin where
  value := 2 ^ 53
  state := ShardLeaf.genesis.state.bump 0 (2 ^ 53)

theorem large_step : ShardLeaf.Step sampleEngine sampleLeaf ShardLeaf.genesis
    (sampleWitness 0 (2 ^ 53), sampleTx (sampleOutputs ShardLeaf.genesis.state 0 (2 ^ 53) 2)
      (sampleOutputs_bounded _ (by decide))) largeLeaf :=
  sample_step (by decide) (Or.inl rfl) (by decide) (by decide) (by decide) (by decide) (by decide)

/-- The scripts of a transaction that are locked to the ticket of a bet. -/
def ticketsOf (e : Engine) (c : ShardLeaf.Contract) (a : ShardLeaf.RegisterWitness × Tx) : Nat :=
  a.2.outputs.countP fun o => some o.scriptPubKey =
    ticketScript e a.1.ps_template ⟨a.1.bettorPk, a.1.side, a.1.stake, c.shard_pool_id⟩

/-- One registration makes two tickets.  And from the leaf it leaves, the console computes a pool
that the covenant does not ask for. -/
theorem tickets_and_sums_drift :
    ∃ a u, Run (ShardLeaf.Step sampleEngine sampleLeaf) ShardLeaf.genesis [a] u ∧
      Compiled sampleLeaf ∧ u.state.count = 1 ∧ ticketsOf sampleEngine sampleLeaf a = 2 ∧
        ∃ shard cmd tx u', Tracks sampleLeaf shard u.state ∧
          registerCommand sampleEngine shard (samplePk 1) (samplePk 3) 0 100001 sampleArtifact =
              .ok cmd ∧
            ShardLeaf.Step sampleEngine sampleLeaf u (cmd.witness, tx) u' ∧
              cmd.leafContinuation.pool_value ≠ u'.state.pool_value :=
  ⟨_, largeLeaf, .single large_step, sample_compiled, rfl, by decide +kernel,
    sampleRow largeLeaf.state, sampleCommand largeLeaf.state 0 100001, _, _,
    sample_tracks _,
    sample_command (Or.inl rfl) (by decide) (by decide) (by decide),
    @sample_step largeLeaf 0 100001 0 (by decide) (Or.inl rfl) (by decide) (by decide) (by decide)
      (by decide) (by decide),
    by decide⟩

end KANet.Register
