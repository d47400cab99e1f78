import KANet.Broadcast.MarketRows
import KANet.Lib.Like
import Mathlib.Data.Rat.Floor

/-!
# `trade-protocol-filter.js`: requests for an oracle's signature

The settlement of a pool market is sent to the committee by a broadcast, the transaction in it.
Every local oracle of the committee signs its spine inputs and broadcasts each signature.  What is
signed is the transaction of the message, and the relay signs what it is given.

A signature counts as made already if there is a stored row that looks like its response, by three
`LIKE` patterns; a response is stored for whoever names a member of the committee.

A message is as the filter hands it on, with `_tx` and the rest in it.  What `kaspa-wasm` makes of
an image is a parameter.

* `handle_spec` — what is signed for a request.
* `own_run` — what a run of messages signs, and which requests are answered.
-/

namespace KANet.Broadcast.SignRequests

open KANet.Lib

open KANet.Predict.Oracles (coerceMember textOf)

open Markets (hasAll orElse truthy)

/-! ### Messages -/

abbrev Outpoint := String × Nat

/-- A transaction: what it spends, and the script and value of each output. -/
structure Image where
  inputs : List Outpoint
  outputs : List (String × Int)
deriving DecidableEq

/-- How numbers are read, and what a transaction object comes to, where that does not throw. -/
structure Env extends Markets.Env where
  number : Json → Option ℚ
  image : Json → Option Image

/-- A market with its committee, as the node has them, and the settlement that it derives itself for
the winner it agreed on, which the handlers do not read. -/
structure Market where
  id : String
  phase2_tx_obj : Option Json
  committee_pks : List String
  settlement : Option Image

/-- A relay that is an oracle, and its key. -/
structure Oracle where
  id : String
  x_only_pubkey : String
deriving DecidableEq

/-- Which of the commands to the relays succeed. -/
structure Relays where
  get_pubkey : Oracle → Bool
  sign_input_for_settle : Oracle → Nat → Bool
  send_broadcast : Oracle → Nat → Bool

/-- A row of `chain_events` of the type `pool_oracle_tx_sig`. -/
structure SigRow where
  txid : String
  payload : List Char

/-- A signature that has been broadcast. -/
structure Signature where
  oracle : Oracle
  market_id : String
  image : Image
  input_index : Nat

/-- The signatures are a log that nobody reads. -/
structure Node where
  markets : String → Option Market
  oracles : List Oracle
  chain_events : List SigRow
  signed : List Signature

/-! ### Responses -/

def hexKey (cs : List Char) : Bool :=
  cs.length = 64 && cs.all fun c => c.isDigit || c ∈ ['a', 'b', 'c', 'd', 'e', 'f']

/-- `String(msg.voter_pubkey || '').toLowerCase()` -/
def voterPkNorm (msg : Json) : List Char :=
  (coerceMember (orElse (msg.get "voter_pubkey") (some (.str "")))).map Char.toLower

def handlePoolOracleTxSignResp (env : Env) (n : Node) (tx : String) (msg : Json) : List SigRow :=
  if !hasAll ["market_id", "voter_pubkey", "signature", "input_index"] msg then n.chain_events
  else if !hexKey (voterPkNorm msg) then n.chain_events
  else
    match (env.marketId msg).bind n.markets with
    | none => n.chain_events
    | some market =>
      if market.committee_pks = [] then n.chain_events
      else if String.ofList (voterPkNorm msg) ∉ market.committee_pks then n.chain_events
      -- `INSERT OR IGNORE`
      else if n.chain_events.any (·.txid = tx) then n.chain_events
      else n.chain_events ++ [⟨tx, msg.text⟩]

/-! ### Requests -/

def marketPattern (id : String) : List Char :=
  containing ("\"market_id\":\"".toList ++ id.toList ++ ['"'])

def indexPattern (inputIdx : Nat) : List Char :=
  containing ("\"input_index\":".toList ++ Json.digits inputIdx)

def voterPattern (voterPubkey : String) : List Char :=
  containing ("\"voter_pubkey\":\"".toList ++ voterPubkey.toList ++ ['"'])

/-- A row that looks like the response to this signature. -/
def existing (rows : List SigRow) (id : String) (inputIdx : Nat) (voterPubkey : String) : Bool :=
  rows.any fun row => like (marketPattern id) row.payload &&
    like (indexPattern inputIdx) row.payload && like (voterPattern voterPubkey) row.payload

/-- `msg.phase2_tx_obj || meta.phase2_tx_obj` -/
def phase2TxObj (market : Market) (msg : Json) : Option Json :=
  (orElse (msg.get "phase2_tx_obj") market.phase2_tx_obj).filter truthy

/-- `Number(msg.spine_input_count) || 1`, as the number of rounds of the loop. -/
def spineInputCount (env : Env) (msg : Json) : Nat :=
  match (msg.get "spine_input_count").bind env.number with
  | none => 1
  | some q => if q = 0 then 1 else ⌈q⌉.toNat

/-- The oracle that a request excuses. -/
def silentIdx (msg : Json) : Option Int :=
  let unanimous := msg.get "unanimous"
  if unanimous.map Json.text = some "false".toList ∨ textOf unanimous = some "false" then
    match msg.get "silent_oracle_index" with
    | some (.num i) => some i
    | _ => none
  else none

/-- One input of one oracle. -/
def signInput (env : Env) (relays : Relays) (rows : List SigRow) (id : String) (txObj : Json)
    (oracle : Oracle) (inputIdx : Nat) : Option Signature :=
  if existing rows id inputIdx oracle.x_only_pubkey then none
  else
    match env.image txObj with
    | none => none
    | some image =>
      if inputIdx < image.inputs.length && relays.sign_input_for_settle oracle inputIdx &&
          relays.send_broadcast oracle inputIdx then
        some ⟨oracle, id, image, inputIdx⟩
      else none

/-- One oracle. -/
def signAs (env : Env) (relays : Relays) (rows : List SigRow) (market : Market) (txObj msg : Json)
    (oracle : Oracle) : List Signature :=
  if !relays.get_pubkey oracle then []
  else
    match market.committee_pks.idxOf? oracle.x_only_pubkey with
    | none => []
    | some myIdx =>
      if silentIdx msg = some (myIdx : Int) then []
      else (List.range (spineInputCount env msg)).filterMap
        (signInput env relays rows market.id txObj oracle)

def handlePoolOracleTxSignReq (env : Env) (relays : Relays) (n : Node) (msg : Json) :
    List Signature :=
  if !hasAll ["market_id", "winner", "input_count", "spine_input_count"] msg then []
  else
    match (env.marketId msg).bind n.markets with
    | none => []
    | some market =>
      match phase2TxObj market msg with
      | none => []
      | some txObj =>
        if market.committee_pks = [] then []
        else n.oracles.flatMap (signAs env relays n.chain_events market txObj msg)

/-! ### A node -/

inductive Event
  | sign_req (relays : Relays) (msg : Json)
  | sign_resp (tx : String) (msg : Json)
  /-- What the node itself has of a market changes. -/
  | market (market : Market)

def step (env : Env) (n : Node) : Event → Node
  | .sign_req relays msg =>
    { n with signed := n.signed ++ handlePoolOracleTxSignReq env relays n msg }
  | .sign_resp tx msg => { n with chain_events := handlePoolOracleTxSignResp env n tx msg }
  | .market market => { n with markets := Function.update n.markets market.id (some market) }

def receive (env : Env) (n : Node) (evs : List Event) : Node := evs.foldl (step env) n

/-! ### What should be signed -/

/-- The outputs that a market's spine and its sides are, and those of an oracle's wallet. -/
structure Truth where
  spine : String → List Outpoint
  sides : String → List Outpoint
  wallet : Oracle → List Outpoint
  apart : ∀ oracle id o, o ∈ wallet oracle → o ∉ spine id ++ sides id

/-- What the node derives spends the spine and the sides of the market. -/
def Market.Derives (t : Truth) (market : Market) : Prop :=
  ∀ image, market.settlement = some image →
    ∀ o ∈ image.inputs, o ∈ t.spine market.id ++ t.sides market.id

/-- The node's own derivations are of their markets. -/
def Event.Derives (t : Truth) : Event → Prop
  | .market m => m.Derives t
  | _ => True

def Node.Derives (t : Truth) (n : Node) : Prop :=
  ∀ id market, n.markets id = some market → market.id = id ∧ market.Derives t

/-- The signature is over the settlement of the market, and over no coin of the oracle. -/
structure Signature.Safe (t : Truth) (n : Node) (s : Signature) : Prop where
  settlement : ∃ market, n.markets s.market_id = some market ∧ market.settlement = some s.image
  inputs : ∀ o ∈ s.image.inputs, o ∈ t.spine s.market_id ++ t.sides s.market_id
  foreign : ∀ o, s.image.inputs[s.input_index]? = some o → o ∉ t.wallet s.oracle

/-- The oracle is of the committee, and not excused. -/
def Asked (relays : Relays) (market : Market) (msg : Json) (oracle : Oracle) : Prop :=
  relays.get_pubkey oracle = true ∧ ∃ myIdx : Nat,
    market.committee_pks.idxOf? oracle.x_only_pubkey = some myIdx ∧
      silentIdx msg ≠ some (myIdx : Int)

/-- The request names a market of the node, and there is an image to sign. -/
structure Requested (env : Env) (n : Node) (msg : Json) (market : Market) (txObj : Json) : Prop where
  complete : hasAll ["market_id", "winner", "input_count", "spine_input_count"] msg = true
  found : (env.marketId msg).bind n.markets = some market
  carries : phase2TxObj market msg = some txObj

/-- It is the image that the node derives, with the number of its spine inputs. -/
structure Current (env : Env) (t : Truth) (n : Node) (msg : Json) (market : Market) : Prop where
  requested : ∃ txObj, Requested env n msg market txObj ∧
    (env.image txObj).isSome = true ∧ env.image txObj = market.settlement
  count : spineInputCount env msg = (t.spine market.id).length
  inputs : ∀ image, market.settlement = some image → (t.spine market.id).length ≤ image.inputs.length

/-- This oracle has signed this input of the settlement. -/
def Answered (n : Node) (market : Market) (oracle : Oracle) (inputIdx : Nat) : Prop :=
  ∃ s ∈ n.signed, s.oracle = oracle ∧ s.market_id = market.id ∧
    market.settlement = some s.image ∧ s.input_index = inputIdx

/-- A request that somebody here would sign carries the settlement of its market, and a row that
looks like the response of one who is asked is that of a signature over it. -/
def Genuine (env : Env) (n : Node) : Event → Prop
  | .sign_req relays msg => ∀ market txObj oracle, Requested env n msg market txObj →
    oracle ∈ n.oracles → Asked relays market msg oracle →
      (∀ image, env.image txObj = some image → market.settlement = some image) ∧
      ∀ inputIdx < spineInputCount env msg,
        existing n.chain_events market.id inputIdx oracle.x_only_pubkey = true →
          Answered n market oracle inputIdx
  | _ => True

/-- **The oracles sign their markets' settlements**, and nothing else. -/
structure SignsOwn (env : Env) (t : Truth) (start : Node) (evs : List Event) : Prop where
  safe : ∀ pre relays msg post, evs = pre ++ .sign_req relays msg :: post →
    ∀ s ∈ handlePoolOracleTxSignReq env relays (receive env start pre) msg,
      s.Safe t (receive env start pre)
  /-- A request for the current image is answered, by everyone who is asked and whose relay works. -/
  answered : ∀ pre relays msg post market oracle inputIdx,
    evs = pre ++ .sign_req relays msg :: post →
    Current env t (receive env start pre) msg market →
    oracle ∈ (receive env start pre).oracles → Asked relays market msg oracle →
    inputIdx < (t.spine market.id).length → relays.sign_input_for_settle oracle inputIdx = true →
    relays.send_broadcast oracle inputIdx = true →
      Answered (receive env start evs) market oracle inputIdx

/-! ### One request -/

section Step

variable {env : Env} {relays : Relays} {n : Node} {msg : Json} {t : Truth}

theorem signInput_eq_some {rows : List SigRow} {id : String} {txObj : Json} {oracle : Oracle}
    {inputIdx : Nat} {s : Signature} :
    signInput env relays rows id txObj oracle inputIdx = some s ↔
      existing rows id inputIdx oracle.x_only_pubkey = false ∧ ∃ image,
        env.image txObj = some image ∧ inputIdx < image.inputs.length ∧
        relays.sign_input_for_settle oracle inputIdx = true ∧
        relays.send_broadcast oracle inputIdx = true ∧ s = ⟨oracle, id, image, inputIdx⟩ := by
  unfold signInput
  cases hex : existing rows id inputIdx oracle.x_only_pubkey with
  | true => simp
  | false =>
    cases himage : env.image txObj with
    | none => simp
    | some image =>
      simp only [Bool.false_eq_true, if_false, Bool.and_eq_true, decide_eq_true_eq, true_and,
        Option.some.injEq, exists_eq_left']
      constructor
      · intro h
        split_ifs at h with hall
        obtain ⟨⟨hlt, hsign⟩, hcast⟩ := hall
        exact ⟨hlt, hsign, hcast, (Option.some.inj h).symm⟩
      · rintro ⟨hlt, hsign, hcast, rfl⟩
        rw [if_pos ⟨⟨hlt, hsign⟩, hcast⟩]

theorem mem_signAs {rows : List SigRow} {market : Market} {txObj : Json} {oracle : Oracle}
    {s : Signature} : s ∈ signAs env relays rows market txObj msg oracle ↔
      Asked relays market msg oracle ∧ ∃ inputIdx < spineInputCount env msg,
        signInput env relays rows market.id txObj oracle inputIdx = some s := by
  unfold signAs Asked
  cases hkey : relays.get_pubkey oracle with
  | false => simp
  | true =>
    cases hidx : market.committee_pks.idxOf? oracle.x_only_pubkey with
    | none => simp
    | some myIdx =>
      by_cases hsilent : silentIdx msg = some (myIdx : Int)
      · simp [hsilent]
      · simp [hsilent, List.mem_filterMap]

/-- **What is signed for a request.** -/
theorem handle_spec {s : Signature} : s ∈ handlePoolOracleTxSignReq env relays n msg ↔
    ∃ market txObj oracle, Requested env n msg market txObj ∧ oracle ∈ n.oracles ∧
      Asked relays market msg oracle ∧ ∃ inputIdx < spineInputCount env msg,
        signInput env relays n.chain_events market.id txObj oracle inputIdx = some s := by
  unfold handlePoolOracleTxSignReq
  cases hall : hasAll ["market_id", "winner", "input_count", "spine_input_count"] msg with
  | false =>
    constructor
    · exact fun h => absurd h List.not_mem_nil
    · rintro ⟨_, _, _, hreq, -⟩
      exact absurd hreq.complete (by simp [hall])
  | true =>
    cases hmarket : (env.marketId msg).bind n.markets with
    | none =>
      constructor
      · exact fun h => absurd h List.not_mem_nil
      · rintro ⟨_, _, _, hreq, -⟩
        exact absurd hreq.found (by simp [hmarket])
    | some market =>
      cases himage : phase2TxObj market msg with
      | none =>
        simp only [Bool.not_true, Bool.false_eq_true, if_false, himage]
        constructor
        · exact fun h => absurd h List.not_mem_nil
        · rintro ⟨market', _, _, hreq, -⟩
          obtain rfl := Option.some.inj (hmarket.symm.trans hreq.found)
          exact absurd hreq.carries (by simp [himage])
      | some txObj =>
        simp only [Bool.not_true, Bool.false_eq_true, if_false, himage]
        constructor
        · intro h
          split_ifs at h with hnone
          · exact absurd h List.not_mem_nil
          · obtain ⟨oracle, horacle, hs⟩ := List.mem_flatMap.mp h
            obtain ⟨hasked, hinput⟩ := mem_signAs.mp hs
            exact ⟨market, txObj, oracle, ⟨hall, hmarket, himage⟩, horacle, hasked, hinput⟩
        · rintro ⟨market', txObj', oracle, hreq, horacle, hasked, hinput⟩
          obtain rfl := Option.some.inj (hmarket.symm.trans hreq.found)
          obtain rfl := Option.some.inj (himage.symm.trans hreq.carries)
          have hsome : market.committee_pks ≠ [] := by
            intro hnil
            obtain ⟨-, myIdx, hidx, -⟩ := hasked
            rw [hnil] at hidx
            cases hidx
          rw [if_neg hsome]
          exact List.mem_flatMap.mpr ⟨oracle, horacle, mem_signAs.mpr ⟨hasked, hinput⟩⟩

/-- What is signed for a request that is what it claims to be. -/
theorem safe_of_genuine (hn : n.Derives t) (hgen : Genuine env n (.sign_req relays msg))
    {s : Signature} (hs : s ∈ handlePoolOracleTxSignReq env relays n msg) : s.Safe t n := by
  obtain ⟨market, txObj, oracle, hreq, horacle, hasked, inputIdx, hlt, hinput⟩ :=
    handle_spec.mp hs
  obtain ⟨-, image, himage, -, -, -, rfl⟩ := signInput_eq_some.mp hinput
  have hsettle := (hgen market txObj oracle hreq horacle hasked).1 image himage
  obtain ⟨id, -, hid⟩ := Option.bind_eq_some_iff.mp hreq.found
  obtain ⟨rfl, hderives⟩ := hn id market hid
  have hinputs := hderives image hsettle
  refine ⟨⟨market, hid, hsettle⟩, hinputs, ?_⟩
  intro o ho hwallet
  exact t.apart oracle market.id o hwallet (hinputs o (List.mem_of_getElem? ho))

/-- A request for the current image is answered at once, or has been. -/
theorem answered_of_genuine {market : Market} {oracle : Oracle} {inputIdx : Nat}
    (hgen : Genuine env n (.sign_req relays msg)) (hcur : Current env t n msg market)
    (horacle : oracle ∈ n.oracles) (hasked : Asked relays market msg oracle)
    (hlt : inputIdx < (t.spine market.id).length)
    (hsign : relays.sign_input_for_settle oracle inputIdx = true)
    (hcast : relays.send_broadcast oracle inputIdx = true) :
    Answered (step env n (.sign_req relays msg)) market oracle inputIdx := by
  obtain ⟨txObj, hreq, hsome, hsettle⟩ := hcur.requested
  obtain ⟨image, himage⟩ := Option.isSome_iff_exists.mp hsome
  rw [himage] at hsettle
  have hcount : inputIdx < spineInputCount env msg := hcur.count ▸ hlt
  cases hex : existing n.chain_events market.id inputIdx oracle.x_only_pubkey with
  | true =>
    obtain ⟨s, hs, hrest⟩ := (hgen market txObj oracle hreq horacle hasked).2 inputIdx hcount hex
    exact ⟨s, List.mem_append_left _ hs, hrest⟩
  | false =>
    have hlen : inputIdx < image.inputs.length := hlt.trans_le (hcur.inputs image hsettle.symm)
    refine ⟨⟨oracle, market.id, image, inputIdx⟩, List.mem_append_right _ ?_, rfl, rfl,
      hsettle.symm, rfl⟩
    refine handle_spec.mpr ⟨market, txObj, oracle, hreq, horacle, hasked, inputIdx, hcount, ?_⟩
    exact signInput_eq_some.mpr ⟨hex, image, himage, hlen, hsign, hcast, rfl⟩

end Step

/-! ### Runs -/

section Runs

variable {env : Env} {t : Truth} {n : Node}

/-- **The step lemma.** -/
theorem Node.Derives.step {ev : Event} (h : n.Derives t) (hev : ev.Derives t) :
    (step env n ev).Derives t := by
  cases ev with
  | sign_req relays msg => exact h
  | sign_resp tx msg => exact h
  | market market =>
    intro id m hm
    have hupdate : Function.update n.markets market.id (some market) id = some m := hm
    by_cases hid : id = market.id
    · subst hid
      rw [Function.update_self] at hupdate
      obtain rfl := Option.some.inj hupdate
      exact ⟨rfl, hev⟩
    · rw [Function.update_of_ne hid] at hupdate
      exact h id m hupdate

theorem Node.Derives.receive {evs : List Event} (h : n.Derives t)
    (hevs : ∀ ev ∈ evs, ev.Derives t) : (receive env n evs).Derives t := by
  induction evs generalizing n with
  | nil => exact h
  | cons ev evs ih =>
    exact ih (h.step (hevs ev List.mem_cons_self)) fun e he => hevs e (List.mem_cons_of_mem _ he)

/-- A signature stays in the log. -/
theorem signed_receive (evs : List Event) {s : Signature} (hs : s ∈ n.signed) :
    s ∈ (receive env n evs).signed := by
  induction evs generalizing n with
  | nil => exact hs
  | cons ev evs ih =>
    refine ih (n := step env n ev) ?_
    cases ev with
    | sign_req relays msg => exact List.mem_append_left _ hs
    | sign_resp tx msg => exact hs
    | market market => exact hs

/-- **The oracles sign their markets' settlements** where every request carries one and every row
that looks like a response is one. -/
theorem own_run {evs : List Event} (hn : n.Derives t) (hevs : ∀ ev ∈ evs, ev.Derives t)
    (hgen : ∀ pre ev post, evs = pre ++ ev :: post → Genuine env (receive env n pre) ev) :
    SignsOwn env t n evs := by
  constructor
  · intro pre relays msg post heq s hs
    have hpre : ∀ ev ∈ pre, ev.Derives t := fun ev hev => hevs ev (heq ▸ List.mem_append_left _ hev)
    exact safe_of_genuine (hn.receive hpre) (hgen pre _ post heq) hs
  · intro pre relays msg post market oracle inputIdx heq hcur horacle hasked hlt hsign hcast
    obtain ⟨s, hs, hrest⟩ :=
      answered_of_genuine (hgen pre _ post heq) hcur horacle hasked hlt hsign hcast
    refine ⟨s, ?_, hrest⟩
    rw [heq, receive, List.foldl_append, List.foldl_cons]
    exact signed_receive post hs

end Runs

/-! ### A settlement and a drain -/

def settleImage : Image := ⟨[("spine", 0), ("side", 0)], [("bettor", 5)]⟩

/-- It spends a coin of the oracle. -/
def drainImage : Image := ⟨[("wallet", 0)], [("stranger", 5)]⟩

def sampleEnv : Env where
  toEnv := Markets.sampleEnv
  number
    | .num n => some n
    | _ => none
  image v := if textOf (some v) = some "settle" then some settleImage
    else if textOf (some v) = some "drain" then some drainImage
    else none

def sampleOracle : Oracle := ⟨"o", String.ofList (List.replicate 64 'a')⟩

def sampleMarket : Market := ⟨"m", none, [sampleOracle.x_only_pubkey], some settleImage⟩

def sampleTruth : Truth where
  spine _ := [("spine", 0)]
  sides _ := [("side", 0)]
  wallet _ := [("wallet", 0)]
  apart _ _ o h := by
    obtain rfl := List.mem_singleton.mp h
    decide

def sampleNode : Node where
  markets id := if id = "m" then some sampleMarket else none
  oracles := [sampleOracle]
  chain_events := []
  signed := []

def workingRelays : Relays := ⟨fun _ => true, fun _ _ => true, fun _ _ => true⟩

def sampleRequest (image : String) : Json :=
  .obj [("market_id", .str "m"), ("winner", .num 0), ("input_count", .num 2),
    ("spine_input_count", .num 1), ("phase2_tx_obj", .str image)]

def forgedResponse : Json :=
  .obj [("market_id", .str "m"), ("voter_pubkey", .str sampleOracle.x_only_pubkey),
    ("input_index", .num 0), ("signature", .str "none")]

theorem sampleNode_derives : sampleNode.Derives sampleTruth := by
  intro id market h
  unfold sampleNode at h
  dsimp only at h
  split at h
  · next hid =>
    obtain rfl := Option.some.inj h
    refine ⟨hid.symm, fun image himage => ?_⟩
    obtain rfl := Option.some.inj himage
    decide
  · cases h

theorem sample_requested {image : String} (h : image ≠ "") :
    Requested sampleEnv sampleNode (sampleRequest image) sampleMarket (.str image) := by
  have htruthy : truthy (.str image) = true := decide_eq_true h
  have hobj : orElse ((sampleRequest image).get "phase2_tx_obj") none = some (.str image) :=
    if_pos htruthy
  refine ⟨rfl, rfl, ?_⟩
  show (orElse ((sampleRequest image).get "phase2_tx_obj") none).filter truthy = _
  rw [hobj, Option.filter_some, if_pos htruthy]

theorem sample_asked (image : String) :
    Asked workingRelays sampleMarket (sampleRequest image) sampleOracle := by
  have hsilent : silentIdx (sampleRequest image) = none := rfl
  refine ⟨rfl, 0, rfl, ?_⟩
  rw [hsilent]
  exact (Option.some_ne_none _).symm

theorem sample_current : Current sampleEnv sampleTruth sampleNode (sampleRequest "settle")
    sampleMarket := by
  refine ⟨⟨_, sample_requested (by decide), rfl, rfl⟩, by decide +kernel, fun image himage => ?_⟩
  obtain rfl := Option.some.inj himage
  decide

theorem own_run_settle :
    SignsOwn sampleEnv sampleTruth sampleNode [.sign_req workingRelays (sampleRequest "settle")] := by
  refine own_run sampleNode_derives (fun ev hev => ?_) fun pre ev post heq => ?_
  · obtain rfl := List.mem_singleton.mp hev
    trivial
  · cases pre with
    | cons e pre => exact absurd (List.cons.inj heq).2.symm (by simp)
    | nil =>
      obtain ⟨rfl, -⟩ := List.cons.inj heq
      intro market txObj oracle hreq _ _
      have hmarket : some sampleMarket = some market := hreq.found
      obtain rfl := Option.some.inj hmarket
      have hcarries := (@sample_requested "settle" (by decide)).carries
      obtain rfl := Option.some.inj (hcarries.symm.trans hreq.carries)
      refine ⟨fun image himage => himage, fun inputIdx _ hex => ?_⟩
      cases hex

/-- **An oracle signs away its own coin** for a stranger, **and is kept from signing** the settlement
of its market by a response that somebody made up. -/
theorem drained_and_silenced :
    (¬ SignsOwn sampleEnv sampleTruth sampleNode
      [.sign_req workingRelays (sampleRequest "drain")]) ∧
    ¬ SignsOwn sampleEnv sampleTruth sampleNode
      [.sign_resp "tx" forgedResponse, .sign_req workingRelays (sampleRequest "settle")] := by
  constructor
  · intro h
    have hsigned : ⟨sampleOracle, "m", drainImage, 0⟩ ∈ handlePoolOracleTxSignReq sampleEnv
        workingRelays sampleNode (sampleRequest "drain") := by
      refine handle_spec.mpr ⟨sampleMarket, _, sampleOracle, sample_requested (by decide),
        List.mem_singleton_self _, sample_asked "drain", 0, by decide +kernel, ?_⟩
      exact signInput_eq_some.mpr ⟨rfl, drainImage, rfl, by decide, rfl, rfl, rfl⟩
    have hsafe := h.safe [] workingRelays (sampleRequest "drain") [] rfl _ hsigned
    exact hsafe.foreign ("wallet", 0) rfl (List.mem_singleton_self _)
  · intro h
    have hnone : (receive sampleEnv sampleNode [.sign_resp "tx" forgedResponse,
        .sign_req workingRelays (sampleRequest "settle")]).signed.length = 0 := by
      decide +kernel
    have hcurrent : Current sampleEnv sampleTruth (receive sampleEnv sampleNode
        [.sign_resp "tx" forgedResponse]) (sampleRequest "settle") sampleMarket := by
      obtain ⟨txObj, hreq, himage⟩ := sample_current.requested
      exact ⟨⟨txObj, ⟨hreq.complete, hreq.found, hreq.carries⟩, himage⟩, sample_current.count,
        sample_current.inputs⟩
    obtain ⟨s, hs, -⟩ := h.answered [.sign_resp "tx" forgedResponse] workingRelays
      (sampleRequest "settle") [] sampleMarket sampleOracle 0 rfl hcurrent
      (List.mem_singleton_self _) (sample_asked "settle") (by decide) rfl rfl
    rw [List.length_eq_zero_iff.mp hnone] at hs
    exact absurd hs List.not_mem_nil

end KANet.Broadcast.SignRequests
