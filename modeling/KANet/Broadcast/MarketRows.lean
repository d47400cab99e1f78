import KANet.Broadcast.Reassembly
import KANet.Lib.Runs
import KANet.Predict.OracleVotes

/-!
# `trade-protocol-filter.js`: the markets a node hears of

A market of another node is announced by a broadcast, whole or in chunks, and that it is settled by
another.  An announcement is signed by the key that it names itself; what is looked up on the chain
is that the spine has been locked, not by whom.  The first announcement of an id is the one that
stays.  Whoever says that a market is settled is believed.

What is stored a second time, or put together from stored chunks, is delivered like any other
message, and the answer to a lookup comes with the message.  A JSON number as a market's id is bound
as text in the driver's own way.

* `mem_step` — where a row of a node comes from.
* `Faithful.step` — a message that is what it says.
* `unforged_run` — nodes that hear such messages only.
-/

namespace KANet.Broadcast.Markets

open KANet.Lib

open KANet.Predict.Oracles (coerceMember textOf)

/-! ### Messages -/

def isNull : Json → Bool
  | .null => true
  | _ => false

/-- Whether a value counts as true. -/
def truthy : Json → Bool
  | .null => false
  | .bool b => b
  | .num n => n ≠ 0
  | .str s => s ≠ ""
  | _ => true

/-- `v || d` -/
def orElse (v d : Option Json) : Option Json := if v.any truthy then v else d

/-- None of the keys is missing or `null`. -/
def hasAll (required : List String) (msg : Json) : Bool :=
  required.all fun k => (msg.get k).any fun v => !isNull v

/-- The driver binds numbers, texts and `null`, and throws on anything else. -/
def bindable : Option Json → Bool
  | some (.bool _) => false
  | some (.arr _) => false
  | some (.obj _) => false
  | _ => true

/-- How texts are hashed and read, which signatures are good (none where the library throws), and
how a number is bound to a column of text. -/
structure Env where
  sha256 : String → String
  parse : String → Option Json
  verifyMessage : List Char → String → List Char → Bool
  numberKey : Json → String

/-- The key of a row. -/
def Env.bindKey (env : Env) : Option Json → Option String
  | some (.str s) => some s
  | some (.num n) => some (env.numberKey (.num n))
  | some (.dec d) => some (env.numberKey (.dec d))
  | _ => none

def Env.marketId (env : Env) (msg : Json) : Option String := env.bindKey (msg.get "market_id")

/-! ### Rows -/

/-- What a row says of the protocol. -/
structure Protocol where
  spine_p2sh : Option Json
  spine_lock_tx : Option Json
  market_metadata_hash : Option Json
  oracle1_pk : Option Json
  oracle2_pk : Option Json
  oracle3_pk : Option Json
  broker_pk : Option Json
  maker_pk : Option Json
  deadline : Option Json
  miner_fee : Option Json
  broker_fee_pct : Option Json
  oracle_bond_amount : Option Json
  maker_stake_amount : Option Json
  outcome_market_source : Option Json
  outcome_condition_id : Option Json
  outcome_token_id : Option Json
  outcome_side : Option Json
  resolution_rule_spec : Option Json
  category : Option Json
  protocol_version : Option Json
  pool_merkle_root : Option Json
  deadline_daa : Option Json

/-- The columns that are bound. -/
def Protocol.columns (p : Protocol) : List (Option Json) :=
  [p.spine_p2sh, p.spine_lock_tx, p.market_metadata_hash, p.oracle1_pk, p.oracle2_pk, p.oracle3_pk,
    p.broker_pk, p.maker_pk, p.deadline, p.miner_fee, p.broker_fee_pct, p.oracle_bond_amount,
    p.maker_stake_amount, p.outcome_market_source, p.outcome_condition_id, p.outcome_token_id,
    p.outcome_side, p.resolution_rule_spec, p.category, p.protocol_version, p.pool_merkle_root,
    p.deadline_daa]

/-- `oraclePks[i] || null` -/
def oraclePk (msg : Json) (i : Nat) : Option Json :=
  match msg.get "oracle_relay_pks" with
  | some (.arr pks) => orElse pks[i]? none
  | _ => none

def protocolOf (msg : Json) : Protocol where
  spine_p2sh := msg.get "spine_p2sh"
  spine_lock_tx := msg.get "spine_lock_tx"
  market_metadata_hash := msg.get "market_metadata_hash"
  oracle1_pk := oraclePk msg 0
  oracle2_pk := oraclePk msg 1
  oracle3_pk := oraclePk msg 2
  broker_pk := msg.get "broker_pk"
  maker_pk := msg.get "maker_relay_pk"
  deadline := msg.get "deadline"
  miner_fee := msg.get "miner_fee"
  broker_fee_pct := msg.get "broker_fee_pct"
  oracle_bond_amount := msg.get "oracle_bond_amount"
  maker_stake_amount := msg.get "maker_stake_amount"
  outcome_market_source := msg.get "outcome_market_source"
  outcome_condition_id := msg.get "outcome_condition_id"
  outcome_token_id := msg.get "outcome_token_id"
  outcome_side := msg.get "outcome_side"
  resolution_rule_spec := msg.get "resolution_rule_spec"
  category := msg.get "category"
  protocol_version := orElse (msg.get "protocol_version") (some (.str "v0.5"))
  pool_merkle_root := msg.get "pool_merkle_root"
  deadline_daa := orElse (msg.get "deadline_daa") none

/-- A row of `pool_markets`. -/
structure PoolMarket extends Protocol where
  id : String
  maker_relay_id : String
  protocol_status : String
  settle_txid : Option Json
  metadata : Json

/-! ### Announcements -/

def requiredToPublish : List String :=
  ["market_id", "spine_p2sh", "market_metadata_hash", "maker_relay_pk", "signature",
    "outcome_market_source", "outcome_condition_id", "outcome_token_id", "outcome_side",
    "resolution_rule_spec", "deadline"]

/-- What the metadata hash is of. -/
def metaInput (msg : Json) : Json :=
  .obj [("source", (msg.get "outcome_market_source").getD .null),
    ("condition", (msg.get "outcome_condition_id").getD .null),
    ("token", (msg.get "outcome_token_id").getD .null),
    ("side", (msg.get "outcome_side").getD .null),
    ("end", (msg.get "deadline").getD .null),
    ("rule", (msg.get "resolution_rule_spec").getD .null)]

def hashMatches (env : Env) (msg : Json) : Bool :=
  textOf (msg.get "market_metadata_hash") = some (env.sha256 (String.ofList (metaInput msg).text))

/-- The members that are not signed. -/
def stripped : List String := ["signature", "_tx", "_from", "_channel", "_at"]

def unsignedCopy : Json → Json
  | .obj ms => .obj (ms.filter fun m => m.1 ∉ stripped)
  | v => v

/-- `String(msg.maker_relay_pk).toLowerCase()` -/
def publicKey (msg : Json) : List Char :=
  (coerceMember (msg.get "maker_relay_pk")).map Char.toLower

def sigValid (env : Env) (msg : Json) : Bool :=
  (textOf (msg.get "signature")).any fun signature =>
    env.verifyMessage (unsignedCopy msg).text signature (publicKey msg)

/-- The unspent outputs of an address, by their transactions; nothing, where the node fails. -/
abbrev Utxos := String → Option (List String)

/-- The spine is there, unspent. -/
def spineMatch (utxos : Utxos) (msg : Json) : Bool :=
  (textOf (msg.get "spine_p2sh")).any fun spine_p2sh =>
    (textOf (msg.get "spine_lock_tx")).any fun spine_lock_tx =>
      (utxos spine_p2sh).any fun txids => spine_lock_tx ∈ txids

/-- Where a message came from. -/
structure Origin where
  tx_hash : String
  sender_address : String

/-- The row of an announcement. -/
def publishedRow (origin : Origin) (id : String) (msg : Json) : PoolMarket where
  toProtocol := protocolOf msg
  id := id
  maker_relay_id := String.ofList ("cross-node:".toList ++ coerceMember (msg.get "maker_relay_pk"))
  protocol_status := "pending_bettors"
  settle_txid := none
  metadata := .obj ([("cross_node_origin", .bool true), ("source_tx", .str origin.tx_hash),
    ("source_addr", .str origin.sender_address)] ++
    (msg.get "published_at").toList.map fun v => ("published_at", v))

/-- What an announcement has to pass, whatever the node knows. -/
def accepts (env : Env) (utxos : Utxos) (msg : Json) : Bool :=
  hasAll requiredToPublish msg && hashMatches env msg && sigValid env msg && spineMatch utxos msg &&
    (protocolOf msg).columns.all bindable

def handlePoolMarketPublished (env : Env) (utxos : Utxos) (origin : Origin)
    (pool_markets : Table PoolMarket.id) (msg : Json) : Table PoolMarket.id :=
  if !hasAll requiredToPublish msg then pool_markets
  else
    match env.marketId msg with
    | none => pool_markets
    | some id =>
      if (pool_markets.get id).isSome then pool_markets
      else if !hashMatches env msg then pool_markets
      else if !sigValid env msg then pool_markets
      else if !spineMatch utxos msg then pool_markets
      else if !(protocolOf msg).columns.all bindable then pool_markets
      -- `INSERT OR IGNORE`
      else (pool_markets.insert (publishedRow origin id msg)).getD pool_markets

/-! ### Settlements -/

def PoolMarket.settle (settle_txid : Option Json) (row : PoolMarket) : PoolMarket :=
  { row with settle_txid := settle_txid, protocol_status := "completed" }

/-- A market that waits for a settlement. -/
def PoolMarket.waits (row : PoolMarket) : Bool :=
  row.protocol_status = "verifying" || row.protocol_status = "collecting_sigs"

def handlePoolMarketSettled (env : Env) (pool_markets : Table PoolMarket.id) (msg : Json) :
    Table PoolMarket.id :=
  if !hasAll ["market_id", "settle_txid", "winner"] msg then pool_markets
  else
    match env.marketId msg with
    | none => pool_markets
    | some id =>
      match pool_markets.get id with
      | none => pool_markets
      | some row =>
        if row.protocol_status = "completed" && row.settle_txid.any truthy then pool_markets
        else if !row.waits then pool_markets
        else if !bindable (msg.get "settle_txid") then pool_markets
        else pool_markets.updateWhere (fun r => r.id = id)
          (PoolMarket.settle (msg.get "settle_txid")) fun _ => rfl

/-! ### A node -/

inductive Content
  | published (msg : Json)
  | settled (msg : Json)
  | chunk (msg : Chunk)

structure Node where
  pool_markets : Table PoolMarket.id
  chunks : Cache

inductive Event
  /-- A broadcast, with the time and what the lookup says then. -/
  | broadcast (now : Int) (utxos : Utxos) (origin : Origin) (content : Content)
  /-- The node itself moves a market on, other than by completing it. -/
  | moved (id status : String) (other : status ≠ "completed")

/-- The payload of an announcement says what it is, and which market it is of. -/
def innerOf (msg : Json) : Option Inner := do
  let t ← textOf (msg.get "t")
  some ⟨t, (textOf (msg.get "market_id")).getD ""⟩

def Env.codec (env : Env) : Codec := ⟨env.sha256, fun payload => (env.parse payload).bind innerOf⟩

/-- The announcement that a broadcast delivers, itself or as the last of its chunks. -/
def Node.published (env : Env) (n : Node) (now : Int) : Content → Option Json
  | .published msg => some msg
  | .settled _ => none
  | .chunk c => do
    let d ← (handlePoolMarketChunk env.codec now n.chunks c).2
    let inner ← env.parse d.payload
    if textOf (inner.get "t") = some "pool_market_published_v1" then some inner else none

def Node.hear (env : Env) (utxos : Utxos) (origin : Origin) (n : Node) : Option Json → Node
  | none => n
  | some msg =>
    { n with pool_markets := handlePoolMarketPublished env utxos origin n.pool_markets msg }

def PoolMarket.move (status : String) (row : PoolMarket) : PoolMarket :=
  { row with protocol_status := status }

def moveMarket (id status : String) (pool_markets : Table PoolMarket.id) : Table PoolMarket.id :=
  pool_markets.updateWhere (fun r => r.id = id) (PoolMarket.move status) fun _ => rfl

def step (env : Env) (n : Node) : Event → Node
  | .broadcast now utxos origin (.published msg) =>
    n.hear env utxos origin (n.published env now (.published msg))
  | .broadcast _ _ _ (.settled msg) =>
    { n with pool_markets := handlePoolMarketSettled env n.pool_markets msg }
  | .broadcast now utxos origin (.chunk c) =>
    Node.hear env utxos origin
      ⟨n.pool_markets, (handlePoolMarketChunk env.codec now n.chunks c).1⟩
      (n.published env now (.chunk c))
  | .moved id status _ => { n with pool_markets := moveMarket id status n.pool_markets }

def Step (env : Env) (n : Node) (ev : Event) (n' : Node) : Prop := n' = step env n ev


/-! ### What is true -/

/-- The key that funded the spine of each market, what the owner of each key has signed, and which
transactions spend the output of a lock. -/
structure Truth where
  funder : String → Option (List Char)
  wrote : List Char → Json → Prop
  spends : Json → Json → Prop

/-- Signatures are not forged, and a maker announces a market in one way. -/
structure Truth.Sound (t : Truth) (env : Env) : Prop where
  unforgeable : ∀ u signature key, env.verifyMessage (Json.text u) signature key = true →
    t.wrote key u
  once : ∀ id key u u', t.funder id = some key → t.wrote key u → t.wrote key u' →
    env.marketId u = some id → env.marketId u' = some id → protocolOf u = protocolOf u'

/-- The row is what the key that funded the market's spine has signed. -/
def PoolMarket.Carries (env : Env) (t : Truth) (row : PoolMarket) : Prop :=
  ∃ key u, t.funder row.id = some key ∧ t.wrote key u ∧ env.marketId u = some row.id ∧
    row.toProtocol = protocolOf u

/-- Where the market is completed, the settlement spends its spine. -/
def PoolMarket.Settled (t : Truth) (row : PoolMarket) : Prop :=
  row.protocol_status = "completed" → ∃ tx lock, row.settle_txid = some tx ∧
    row.spine_lock_tx = some lock ∧ t.spends tx lock

structure Node.Faithful (env : Env) (t : Truth) (n : Node) : Prop where
  carries : ∀ row ∈ n.pool_markets.rows, row.Carries env t
  settled : ∀ row ∈ n.pool_markets.rows, row.Settled t

/-- The broadcast is what it says: an announcement that would be stored is signed by the key that
funded the spine of the market it names, and a settlement that finds its market waiting spends the
spine of that. -/
def Genuine (env : Env) (t : Truth) (n : Node) : Event → Prop
  | .broadcast now utxos _ content =>
    (∀ msg id, n.published env now content = some msg → accepts env utxos msg = true →
      env.marketId msg = some id → n.pool_markets.get id = none →
        t.funder id = some (publicKey msg)) ∧
    ∀ msg row tx, content = .settled msg → env.marketId msg = some row.id →
      n.pool_markets.get row.id = some row → row.waits = true →
        msg.get "settle_txid" = some tx →
          ∃ lock, row.spine_lock_tx = some lock ∧ t.spends tx lock
  | .moved _ _ _ => True

/-- A run of one node. -/
abbrev Heard (env : Env) := Run (Step env)

/-- A run in which every broadcast is what it says. -/
abbrev HeardGenuine (env : Env) (t : Truth) :=
  Run fun n ev n' => Step env n ev n' ∧ Genuine env t n ev

/-- **Nobody forges the state of a market**, on any of the nodes. -/
structure Unforged {κ : Type} (env : Env) (t : Truth) (start : κ → Node) (evs : κ → List Event)
    (n : κ → Node) : Prop where
  /-- Every row carries what the maker signed, and is completed by a settlement only. -/
  faithful : ∀ k, (n k).Faithful env t
  /-- The nodes agree on the rows they have. -/
  agree : ∀ k l, ∀ row ∈ (n k).pool_markets.rows, ∀ row' ∈ (n l).pool_markets.rows,
    row.id = row'.id → row.toProtocol = row'.toProtocol
  /-- No message changes what a row says of the protocol. -/
  kept : ∀ k pre post m, evs k = pre ++ post → Heard env (start k) pre m →
    Heard env m post (n k) → ∀ row ∈ m.pool_markets.rows, ∃ row' ∈ (n k).pool_markets.rows,
      row'.id = row.id ∧ row'.toProtocol = row.toProtocol
  /-- The maker's announcement is taken whenever it comes. -/
  taken : ∀ k pre now utxos origin content post m msg id,
    evs k = pre ++ .broadcast now utxos origin content :: post → Heard env (start k) pre m →
    Heard env m (.broadcast now utxos origin content :: post) (n k) →
    m.published env now content = some msg → accepts env utxos msg = true →
    env.marketId msg = some id → t.funder id = some (publicKey msg) →
      ∃ row ∈ (n k).pool_markets.rows, row.id = id ∧ row.toProtocol = protocolOf msg

/-! ### One message -/

section Step

variable {env : Env} {utxos : Utxos} {origin : Origin} {markets : Table PoolMarket.id} {n : Node}
  {t : Truth}

theorem get_unsignedCopy (msg : Json) {k : String} (hk : k ∉ stripped) :
    (unsignedCopy msg).get k = msg.get k := by
  cases msg with
  | obj ms =>
    show ((ms.filter fun m => decide (m.1 ∉ stripped)).filter fun m =>
      decide (m.1 = k)).head?.map Prod.snd = (ms.filter fun m => decide (m.1 = k)).head?.map Prod.snd
    rw [List.filter_filter]
    have hsame : ms.filter (fun m => decide (m.1 = k) && decide (m.1 ∉ stripped)) =
        ms.filter fun m => decide (m.1 = k) := by
      refine List.filter_congr fun m _ => ?_
      by_cases h : m.1 = k
      · simp [h, hk]
      · simp [h]
    rw [hsame]
  | _ => rfl

/-- Everything a row is made of is signed. -/
theorem protocolOf_unsignedCopy (msg : Json) : protocolOf (unsignedCopy msg) = protocolOf msg := by
  have h : ∀ k ∉ stripped, (unsignedCopy msg).get k = msg.get k :=
    fun k hk => get_unsignedCopy msg hk
  unfold protocolOf oraclePk
  simp (disch := simp [stripped]) only [h]

theorem marketId_unsignedCopy (msg : Json) : env.marketId (unsignedCopy msg) = env.marketId msg := by
  unfold Env.marketId
  rw [get_unsignedCopy msg (by simp [stripped])]

/-- What an announcement that passes was signed with. -/
theorem wrote_of_accepts {msg : Json} (ht : t.Sound env) (h : accepts env utxos msg = true) :
    t.wrote (publicKey msg) (unsignedCopy msg) := by
  unfold accepts at h
  simp only [Bool.and_eq_true] at h
  obtain ⟨⟨⟨⟨-, -⟩, hsig⟩, -⟩, -⟩ := h
  unfold sigValid at hsig
  cases hsignature : textOf (msg.get "signature") with
  | none =>
    rw [hsignature] at hsig
    cases hsig
  | some signature =>
    rw [hsignature] at hsig
    exact ht.unforgeable _ _ _ hsig

/-- An announcement that passes is stored under a new id. -/
theorem published_new {msg : Json} {id : String} (h : accepts env utxos msg = true)
    (hid : env.marketId msg = some id) (hnew : markets.get id = none) :
    (handlePoolMarketPublished env utxos origin markets msg).rows =
      markets.rows ++ [publishedRow origin id msg] := by
  unfold accepts at h
  simp only [Bool.and_eq_true] at h
  obtain ⟨⟨⟨⟨hall, hhash⟩, hsig⟩, hspine⟩, hbind⟩ := h
  unfold handlePoolMarketPublished
  rw [hid]
  simp only [hall, hhash, hsig, hspine, hbind, hnew, Bool.not_true, Bool.false_eq_true, if_false,
    Option.isSome_none]
  cases hins : markets.insert (publishedRow origin id msg) with
  | none =>
    rw [Table.insert_eq_none] at hins
    have hnone : markets.get (publishedRow origin id msg).id = none := hnew
    rw [hnone] at hins
    cases hins
  | some markets' => exact Table.rows_of_insert hins

/-- **What an announcement does**: nothing, or it adds a row for a new id. -/
theorem published_rows (env : Env) (utxos : Utxos) (origin : Origin)
    (markets : Table PoolMarket.id) (msg : Json) :
    handlePoolMarketPublished env utxos origin markets msg = markets ∨
      ∃ id, accepts env utxos msg = true ∧ env.marketId msg = some id ∧ markets.get id = none ∧
        (handlePoolMarketPublished env utxos origin markets msg).rows =
          markets.rows ++ [publishedRow origin id msg] := by
  by_cases hacc : accepts env utxos msg = true
  · cases hid : env.marketId msg with
    | none =>
      left
      unfold handlePoolMarketPublished
      rw [hid]
      split <;> rfl
    | some id =>
      cases hget : markets.get id with
      | none => exact Or.inr ⟨id, hacc, rfl, hget, published_new hacc hid hget⟩
      | some row =>
        left
        unfold handlePoolMarketPublished
        rw [hid]
        simp only [hget, Option.isSome_some, if_true]
        split <;> rfl
  · left
    unfold handlePoolMarketPublished
    split
    · rfl
    · next hall =>
      cases hid : env.marketId msg with
      | none => rfl
      | some id =>
        simp only
        split_ifs with hhave hhash hsig hspine hbind
        · rfl
        · rfl
        · rfl
        · rfl
        · rfl
        · -- every check was passed
          refine absurd ?_ hacc
          simp only [accepts, Bool.and_eq_true]
          simp_all

/-- An announcement that passes leaves a row for its id. -/
theorem published_mem {msg : Json} {id : String} (h : accepts env utxos msg = true)
    (hid : env.marketId msg = some id) :
    ∃ row ∈ (handlePoolMarketPublished env utxos origin markets msg).rows, row.id = id := by
  cases hget : markets.get id with
  | none =>
    refine ⟨publishedRow origin id msg, ?_, rfl⟩
    rw [published_new h hid hget]
    exact List.mem_append_right _ (List.mem_singleton_self _)
  | some row =>
    have hrow : row ∈ markets.rows := Table.mem_of_get hget
    refine ⟨row, ?_, Table.key_of_get hget⟩
    rcases published_rows env utxos origin markets msg with hsame | ⟨_, -, -, -, hrows⟩
    · rw [hsame]
      exact hrow
    · rw [hrows]
      exact List.mem_append_left _ hrow

/-- **What a settlement does**: nothing, or it completes a market that waits. -/
theorem settled_rows (env : Env) (markets : Table PoolMarket.id) (msg : Json) :
    handlePoolMarketSettled env markets msg = markets ∨
      ∃ row tx, env.marketId msg = some row.id ∧ markets.get row.id = some row ∧
        row.waits = true ∧ msg.get "settle_txid" = some tx ∧
        (handlePoolMarketSettled env markets msg).rows =
          markets.rows.map fun r => if r.id = row.id then r.settle (some tx) else r := by
  unfold handlePoolMarketSettled
  split
  · exact Or.inl rfl
  · next hall =>
    cases hid : env.marketId msg with
    | none => exact Or.inl rfl
    | some id =>
      simp only
      cases hget : markets.get id with
      | none => exact Or.inl rfl
      | some row =>
        simp only
        split_ifs with hdone hwaits hbind
        · exact Or.inl rfl
        · exact Or.inl rfl
        · exact Or.inl rfl
        · obtain rfl := Table.key_of_get hget
          obtain ⟨tx, htx⟩ : ∃ tx, msg.get "settle_txid" = some tx := by
            cases htx : msg.get "settle_txid" with
            | some tx => exact ⟨tx, rfl⟩
            | none => simp [hasAll, htx] at hall
          refine Or.inr ⟨row, tx, rfl, hget, by simpa using hwaits, htx, ?_⟩
          rw [htx]
          simp [Table.updateWhere]

/-- Where a row comes from. -/
inductive Became (env : Env) (n : Node) : Event → PoolMarket → Prop
  | kept {ev row} (mem : row ∈ n.pool_markets.rows) : Became env n ev row
  | heard {now utxos origin content msg id}
      (published : n.published env now content = some msg) (accepted : accepts env utxos msg = true)
      (named : env.marketId msg = some id) (new : n.pool_markets.get id = none) :
      Became env n (.broadcast now utxos origin content) (publishedRow origin id msg)
  | settled {now utxos origin msg row tx} (named : env.marketId msg = some row.id)
      (found : n.pool_markets.get row.id = some row) (waits : row.waits = true)
      (spent : msg.get "settle_txid" = some tx) :
      Became env n (.broadcast now utxos origin (.settled msg)) (row.settle (some tx))
  | moved {id status other row} (mem : row ∈ n.pool_markets.rows) :
      Became env n (.moved id status other) (row.move status)

theorem mem_hear {m : Node} {now : Int} {content : Content} {row : PoolMarket}
    (hm : m.pool_markets = n.pool_markets)
    (h : row ∈ (m.hear env utxos origin (n.published env now content)).pool_markets.rows) :
    Became env n (.broadcast now utxos origin content) row := by
  cases hpub : n.published env now content with
  | none =>
    rw [hpub, Node.hear, hm] at h
    exact .kept h
  | some msg =>
    rw [hpub] at h
    have hrow : row ∈ (handlePoolMarketPublished env utxos origin n.pool_markets msg).rows := by
      rw [← hm]
      exact h
    rcases published_rows env utxos origin n.pool_markets msg with hsame | ⟨id, hacc, hid, hnew, hrows⟩
    · rw [hsame] at hrow
      exact .kept hrow
    · rw [hrows] at hrow
      rcases List.mem_append.mp hrow with hold | hold
      · exact .kept hold
      · obtain rfl := List.mem_singleton.mp hold
        exact .heard hpub hacc hid hnew

/-- **The inversion of a step.** -/
theorem mem_step {ev : Event} {row : PoolMarket} (h : row ∈ (step env n ev).pool_markets.rows) :
    Became env n ev row := by
  cases ev with
  | broadcast now utxos origin content =>
    cases content with
    | published msg => exact mem_hear rfl h
    | chunk c =>
      exact mem_hear (m := ⟨n.pool_markets, (handlePoolMarketChunk env.codec now n.chunks c).1⟩)
        rfl h
    | settled msg =>
      have hrow : row ∈ (handlePoolMarketSettled env n.pool_markets msg).rows := h
      rcases settled_rows env n.pool_markets msg with
        hsame | ⟨old, tx, hid, hget, hwaits, htx, hrows⟩
      · rw [hsame] at hrow
        exact .kept hrow
      · rw [hrows, List.mem_map] at hrow
        obtain ⟨r, hr, rfl⟩ := hrow
        split
        · next hold =>
          -- the rows of a table are told apart by their ids
          have heq := Table.get_of_mem hr
          rw [hold, hget] at heq
          obtain rfl := Option.some.inj heq
          exact .settled hid hget hwaits htx
        · exact .kept hr
  | moved id status other =>
    have hrow : row ∈ n.pool_markets.rows.map fun r =>
        if decide (r.id = id) then r.move status else r := h
    obtain ⟨r, hr, rfl⟩ := List.mem_map.mp hrow
    split
    · exact .moved hr
    · exact .kept hr

theorem kept_hear {m : Node} (hm : m.pool_markets = n.pool_markets) (heard : Option Json)
    {row : PoolMarket} (h : row ∈ n.pool_markets.rows) :
    row ∈ (m.hear env utxos origin heard).pool_markets.rows := by
  cases heard with
  | none =>
    rw [Node.hear, hm]
    exact h
  | some msg =>
    show row ∈ (handlePoolMarketPublished env utxos origin m.pool_markets msg).rows
    rw [hm]
    rcases published_rows env utxos origin n.pool_markets msg with hsame | ⟨id, -, -, -, hrows⟩
    · rw [hsame]
      exact h
    · rw [hrows]
      exact List.mem_append_left _ h

/-- What a row says of the protocol stays. -/
theorem kept_step (env : Env) (ev : Event) {row : PoolMarket} (h : row ∈ n.pool_markets.rows) :
    ∃ row' ∈ (step env n ev).pool_markets.rows,
      row'.id = row.id ∧ row'.toProtocol = row.toProtocol := by
  cases ev with
  | broadcast now utxos origin content =>
    cases content with
    | published msg => exact ⟨row, kept_hear rfl _ h, rfl, rfl⟩
    | chunk c => exact ⟨row, kept_hear rfl _ h, rfl, rfl⟩
    | settled msg =>
      show ∃ row' ∈ (handlePoolMarketSettled env n.pool_markets msg).rows, _
      rcases settled_rows env n.pool_markets msg with
        hsame | ⟨old, tx, -, -, -, -, hrows⟩
      · rw [hsame]
        exact ⟨row, h, rfl, rfl⟩
      · rw [hrows]
        refine ⟨_, List.mem_map_of_mem h, ?_⟩
        split
        · exact ⟨rfl, rfl⟩
        · exact ⟨rfl, rfl⟩
  | moved id status other =>
    show ∃ row' ∈ n.pool_markets.rows.map fun r =>
      if decide (r.id = id) = true then r.move status else r, _
    refine ⟨_, List.mem_map_of_mem h, ?_⟩
    split
    · exact ⟨rfl, rfl⟩
    · exact ⟨rfl, rfl⟩

/-- An announcement that passes leaves a row for its id. -/
theorem heard_step {now : Int} {content : Content} {msg : Json} {id : String}
    (hpub : n.published env now content = some msg) (h : accepts env utxos msg = true)
    (hid : env.marketId msg = some id) :
    ∃ row ∈ (step env n (.broadcast now utxos origin content)).pool_markets.rows, row.id = id := by
  cases content with
  | published m =>
    show ∃ row ∈ (n.hear env utxos origin (n.published env now (.published m))).pool_markets.rows, _
    rw [hpub]
    exact published_mem h hid
  | settled m => cases hpub
  | chunk c =>
    show ∃ row ∈ (Node.hear env utxos origin _ (n.published env now (.chunk c))).pool_markets.rows, _
    rw [hpub]
    exact published_mem h hid

/-- **The step lemma.** -/
theorem Node.Faithful.step {ev : Event} (ht : t.Sound env) (h : n.Faithful env t)
    (hgen : Genuine env t n ev) : (step env n ev).Faithful env t := by
  constructor
  · intro row hrow
    cases mem_step hrow with
    | kept hmem => exact h.carries row hmem
    | heard hpub hacc hid hnew =>
      refine ⟨_, _, hgen.1 _ _ hpub hacc hid hnew, wrote_of_accepts ht hacc, ?_, ?_⟩
      · rw [marketId_unsignedCopy]
        exact hid
      · exact (protocolOf_unsignedCopy _).symm
    | @settled _ _ _ _ old _ _ hget _ _ =>
      have hold : old.Carries env t := h.carries old (Table.mem_of_get hget)
      exact hold
    | @moved _ _ _ old hmem =>
      have hold : old.Carries env t := h.carries old hmem
      exact hold
  · intro row hrow
    cases mem_step hrow with
    | kept hmem => exact h.settled row hmem
    | heard _ _ _ _ => exact fun hdone => absurd hdone (by simp [publishedRow])
    | settled hid hget hwaits htx =>
      obtain ⟨lock, hlock, hspends⟩ := hgen.2 _ _ _ rfl hid hget hwaits htx
      exact fun _ => ⟨_, lock, rfl, hlock, hspends⟩
    | @moved id status other old hmem => exact fun hdone => absurd hdone other

end Step

/-! ### Runs -/

section Runs

variable {env : Env} {t : Truth} {n n' : Node} {evs : List Event}

/-- **The run lemma.** -/
theorem Node.Faithful.run (ht : t.Sound env) (h : HeardGenuine env t n evs n')
    (hn : n.Faithful env t) : n'.Faithful env t := by
  refine Run.invariant (I := Node.Faithful env t) ?_ h hn
  rintro m ev m' hm ⟨rfl, hgen⟩
  exact hm.step ht hgen

theorem kept_run (h : Heard env n evs n') : ∀ row ∈ n.pool_markets.rows,
    ∃ row' ∈ n'.pool_markets.rows, row'.id = row.id ∧ row'.toProtocol = row.toProtocol := by
  induction h with
  | nil m => exact fun row hrow => ⟨row, hrow, rfl, rfl⟩
  | cons hstep _ ih =>
    intro row hrow
    obtain rfl := hstep
    obtain ⟨row', hrow', hid', hsame'⟩ := kept_step env _ hrow
    obtain ⟨row'', hrow'', hid'', hsame''⟩ := ih row' hrow'
    exact ⟨row'', hrow'', hid''.trans hid', hsame''.trans hsame'⟩

/-- Two rows that carry what the maker of one market signed say the same. -/
theorem PoolMarket.Carries.agree {row row' : PoolMarket} (ht : t.Sound env)
    (h : row.Carries env t) (h' : row'.Carries env t) (hid : row.id = row'.id) :
    row.toProtocol = row'.toProtocol := by
  obtain ⟨key, u, hkey, hwrote, hmarket, hcols⟩ := h
  obtain ⟨key', u', hkey', hwrote', hmarket', hcols'⟩ := h'
  rw [← hid] at hkey' hmarket'
  rw [hkey] at hkey'
  obtain rfl := Option.some.inj hkey'
  rw [hcols, hcols']
  exact ht.once _ _ _ _ hkey hwrote hwrote' hmarket hmarket'

/-- **Nobody forges the state of a market** where every broadcast is what it says. -/
theorem unforged_run {κ : Type} {start end_ : κ → Node} {evs : κ → List Event} (ht : t.Sound env)
    (hstart : ∀ k, (start k).Faithful env t)
    (h : ∀ k, HeardGenuine env t (start k) (evs k) (end_ k)) : Unforged env t start evs end_ := by
  have hfaithful : ∀ k, (end_ k).Faithful env t := fun k => (hstart k).run ht (h k)
  refine ⟨hfaithful, ?_, ?_, ?_⟩
  · intro k l row hrow row' hrow' hid
    exact ((hfaithful k).carries row hrow).agree ht ((hfaithful l).carries row' hrow') hid
  · exact fun k pre post m _ _ hpost => kept_run hpost
  · intro k pre now utxos origin content post m msg id _ _ hrun hpub hacc hid hfunder
    cases hrun with
    | cons hstep hrest =>
      obtain rfl := hstep
      obtain ⟨row, hrow, hrowid⟩ := heard_step hpub hacc hid
      obtain ⟨row', hrow', hid', -⟩ := kept_run hrest row hrow
      have hcarries := (hfaithful k).carries row' hrow'
      obtain ⟨key, u, hkey, hwrote, hmarket, hcols⟩ := hcarries
      rw [hid', hrowid] at hkey hmarket
      rw [hfunder] at hkey
      obtain rfl := Option.some.inj hkey
      refine ⟨row', hrow', hid'.trans hrowid, ?_⟩
      rw [hcols, ← protocolOf_unsignedCopy msg]
      refine ht.once _ _ _ _ hfunder hwrote (wrote_of_accepts ht hacc) hmarket ?_
      rw [marketId_unsignedCopy]
      exact hid

end Runs

/-! ### A maker and a stranger -/

/-- An announcement of the market `m`, signed with the key that it names. -/
def sampleMembers (maker lock broker : String) : List (String × Json) :=
  [("t", .str "pool_market_published_v1"), ("market_id", .str "m"), ("spine_p2sh", .str lock),
    ("spine_lock_tx", .str lock), ("market_metadata_hash", .str "hash"),
    ("maker_relay_pk", .str maker), ("outcome_market_source", .str "source"),
    ("outcome_condition_id", .str "condition"), ("outcome_token_id", .str "token"),
    ("outcome_side", .num 0), ("resolution_rule_spec", .str "rule"), ("deadline", .num 100),
    ("broker_pk", .str broker)]

def sampleMsg (maker lock broker : String) : Json :=
  .obj (sampleMembers maker lock broker ++ [("signature", .str maker)])

/-- What the maker of `m` has signed, and nothing else. -/
def makers : Json := .obj (sampleMembers "a" "l" "b")

/-- A key is its own signature; the maker's is good for one message only. -/
def sampleEnv : Env where
  sha256 _ := "hash"
  parse _ := none
  verifyMessage text signature key :=
    decide (signature.toList = key) && (decide (key ≠ ['a']) || decide (text = makers.text))
  numberKey _ := ""

def sampleTruth : Truth where
  funder id := if id = "m" then some ['a'] else none
  wrote key u := key ≠ ['a'] ∨ u = makers
  spends tx _ := tx = .str "s"

def sampleUtxos : Utxos := fun address => some [address]

def sampleOrigin : Origin := ⟨"tx", "sender"⟩

def sampleHeard (maker lock broker : String) : Event :=
  .broadcast 0 sampleUtxos sampleOrigin (.published (sampleMsg maker lock broker))

def noMarkets : Node := ⟨Table.empty _, .empty⟩

/-- A market whose committee has voted. -/
def waitingRow : PoolMarket :=
  (publishedRow sampleOrigin "m" (sampleMsg "a" "l" "b")).move "verifying"

def sampleWaiting : Node := ⟨⟨[waitingRow], List.nodup_singleton _⟩, .empty⟩

def strangersSettlement : Event :=
  .broadcast 0 sampleUtxos sampleOrigin (.settled (.obj [("market_id", .str "m"),
    ("settle_txid", .str "x"), ("winner", .num 0)]))

theorem sample_sound : sampleTruth.Sound sampleEnv := by
  constructor
  · intro u signature key hverify
    simp only [sampleEnv, Bool.and_eq_true, Bool.or_eq_true, decide_eq_true_eq] at hverify
    exact hverify.2.imp_right Json.text_inj
  · intro id key u u' hkey hu hu' _ _
    have ha : key = ['a'] := by
      unfold sampleTruth at hkey
      dsimp only at hkey
      split at hkey
      · exact (Option.some.inj hkey).symm
      · cases hkey
    obtain hne | rfl := hu
    · exact absurd ha hne
    · obtain hne | rfl := hu'
      · exact absurd ha hne
      · rfl

theorem thief_accepted : accepts sampleEnv sampleUtxos (sampleMsg "c" "d" "c") = true := by
  decide +kernel

theorem noMarkets_faithful : noMarkets.Faithful sampleEnv sampleTruth :=
  ⟨fun _ h => absurd h List.not_mem_nil, fun _ h => absurd h List.not_mem_nil⟩

theorem unforged_run_maker : Unforged sampleEnv sampleTruth (fun _ : Unit => noMarkets)
    (fun _ => [sampleHeard "a" "l" "b"])
    fun _ => step sampleEnv noMarkets (sampleHeard "a" "l" "b") := by
  refine unforged_run sample_sound (fun _ => noMarkets_faithful)
    fun _ => .single ⟨rfl, ?_, ?_⟩
  · intro msg id hpub _ hid _
    obtain rfl := Option.some.inj hpub
    obtain rfl := Option.some.inj hid
    decide +kernel
  · intro msg row tx hcontent
    cases hcontent

/-- **A stranger takes the id of a market** with a spine of its own before the maker is heard, **and
completes another** with a transaction that spends nothing. -/
theorem thief_heard_first :
    (¬ Unforged sampleEnv sampleTruth (fun _ : Unit => noMarkets)
      (fun _ => [sampleHeard "c" "d" "c", sampleHeard "a" "l" "b"])
      fun _ => step sampleEnv (step sampleEnv noMarkets (sampleHeard "c" "d" "c"))
        (sampleHeard "a" "l" "b")) ∧
    ¬ Unforged sampleEnv sampleTruth (fun _ : Unit => sampleWaiting)
      (fun _ => [strangersSettlement])
      fun _ => step sampleEnv sampleWaiting strangersSettlement := by
  constructor
  · intro h
    have hrows : (step sampleEnv noMarkets (sampleHeard "c" "d" "c")).pool_markets.rows =
        [publishedRow sampleOrigin "m" (sampleMsg "c" "d" "c")] :=
      published_new thief_accepted rfl rfl
    have hmem : publishedRow sampleOrigin "m" (sampleMsg "c" "d" "c") ∈
        (step sampleEnv noMarkets (sampleHeard "c" "d" "c")).pool_markets.rows := by
      rw [hrows]
      exact List.mem_singleton_self _
    obtain ⟨row, hrow, hid, hcols⟩ := kept_step sampleEnv (sampleHeard "a" "l" "b") hmem
    obtain ⟨key, u, hkey, hwrote, -, hrowcols⟩ := (h.faithful ()).carries row hrow
    rw [hid] at hkey
    obtain rfl := Option.some.inj hkey
    obtain hne | rfl := hwrote
    · exact hne rfl
    · have hmaker := congrArg Protocol.maker_pk (hcols.symm.trans hrowcols)
      have htext := congrArg (fun v => v.map Json.text) hmaker
      exact absurd htext (by decide +kernel)
  · intro h
    have hrows : (step sampleEnv sampleWaiting strangersSettlement).pool_markets.rows =
        [waitingRow.settle (some (.str "x"))] := by
      rfl
    have hmem : waitingRow.settle (some (.str "x")) ∈
        (step sampleEnv sampleWaiting strangersSettlement).pool_markets.rows := by
      rw [hrows]
      exact List.mem_singleton_self _
    obtain ⟨tx, lock, htx, -, rfl⟩ := (h.faithful ()).settled _ hmem rfl
    have hx := Json.str.inj (Option.some.inj htx)
    exact absurd hx (by decide)

end KANet.Broadcast.Markets
