import KANet.Lib.Along
import KANet.Lib.Like
import KANet.Predict.OracleVotes
import Mathlib.Data.List.TakeWhile
import Mathlib.Logic.Function.Basic

/-!
# `bettor-prediction-voter.js`: the ticks that sign

While a pool market or an offer collects signatures, every voter of this node looks at each tick
whether it should sign, and signs each input of the transaction in the metadata that it has not
signed yet.  What it has signed it looks for among the rows of `chain_events`, by `LIKE`.

* `processPoolTxSign`, `processPoolRefundDisagreementTxSign`, `handleTxSignReq` — one voter at one
  market or offer.
* `sigsByInput` — `pool-market-settler.js`: the signatures that are collected for an input.
* `Job.stored` — what a loop over the inputs leaves behind.
* `signs_run` — runs in which every image gets its signatures.

What a signature is over, no column says; the rows here do.  A loop over the markets is a run of
such ticks.
-/

namespace KANet.Predict.TxSign

open KANet.Lib

open Oracles (coerceMember parseInt textOf)

/-! ### Rows -/

/-- A row of `chain_events`, with what the signature in it is over. -/
structure SigRow where
  event_type : String
  from_address : String
  payload : Json
  image : Option Json
  input : Nat

/-- `%"key":"value"%` -/
def keyPattern (key value : String) : List Char :=
  containing (('"' :: key.toList) ++ "\":\"".toList ++ value.toList ++ ['"'])

/-- `%"key":n%` -/
def numPattern (key : String) (n : Nat) : List Char :=
  containing (('"' :: key.toList) ++ "\":".toList ++ Json.digits n)

def SigRow.shows (row : SigRow) (pattern : List Char) : Bool := like pattern row.payload.text

def isOwn (event_type address : String) (patterns : List (List Char)) (row : SigRow) : Bool :=
  row.event_type = event_type && row.from_address = address && patterns.all row.shows

/-- The rows that a voter finds of its own. -/
def own (rows : List SigRow) (event_type address : String) (patterns : List (List Char)) :
    List SigRow :=
  rows.filter (isOwn event_type address patterns)

/-! ### Voters, markets and offers -/

structure Voter where
  id : String
  address : String
  x_only_pubkey : String

/-- The keys of `metadata` that are read; an object that is missing or `null` is none. -/
structure Meta where
  phase2_tx_obj : Option Json
  phase2_unanimous : Bool
  -- where it is a number
  phase2_silent_oracle_index : Option Int
  phase2_spine_input_count : Nat
  phase2_winner : Option Json
  refund_disagreement_dispatched_at : Bool
  refund_disagreement_tx_obj : Option Json
  refund_disagreement_signing_pair : Option Int
  refund_disagreement_silent_oracle_index : Option Json
  refund_disagreement_input_count : Nat

structure Market where
  id : String
  oracle_relay_ids : List String
  metadata : Meta
  collecting_sigs : Bool
  -- in `market_shards`
  sharded : Bool

structure Offer where
  id : String
  outcome_oracle_relay_id : Option String
  outcome_oracle_relay_ids : List String
  outcome_side : String
  revote_round : Nat
  phase2_winner : Option Int
  phase2_tx_obj : Option Json
  -- `phase2_tx_obj.inputs.length`
  inputs : Option Nat
  -- and its end date has passed
  collecting_sigs : Bool

/-- The answer to a request for a signature. -/
inductive Answer
  | signature (s : String)
  | refused
  | threw

/-- What the relay of the voter answers. -/
structure Relay where
  get_pubkey : Bool
  sign_input_for_settle : Nat → Answer
  send_message : Nat → Bool

/-- `%"value"%` in the column of a list. -/
def listed (value : String) (l : List String) : Bool :=
  like (containing (('"' :: value.toList) ++ ['"'])) (Json.arr (l.map Json.str)).text

/-- `indexOf` -/
def indexOf (l : List String) (value : String) : Int := ((l.idxOf? value).map Int.ofNat).getD (-1)

/-! ### Signing the inputs -/

/-- What a voter is about to sign: where it looks for what it has signed of it, and the row of a
signature. -/
structure Job where
  event_type : String
  address : String
  patterns : Nat → List (List Char)
  row : Nat → String → SigRow

def Job.finds (j : Job) (row : SigRow) (i : Nat) : Bool :=
  isOwn j.event_type j.address (j.patterns i) row

/-- The input is taken for signed. -/
def Job.seen (j : Job) (rows : List SigRow) (i : Nat) : Bool :=
  own rows j.event_type j.address (j.patterns i) ≠ []

/-- A signature that is refused leaves the input to the next tick; a failure ends the loop. -/
def Job.signInputs (j : Job) (relay : Relay) : List Nat → List SigRow → List SigRow
  | [], rows => rows
  | i :: is, rows =>
    if j.seen rows i then j.signInputs relay is rows
    else
      match relay.sign_input_for_settle i with
      | .signature s => j.signInputs relay is (rows ++ [j.row i s])
      | .refused => j.signInputs relay is rows
      | .threw => rows

/-! ### Pool markets -/

def settleInputs (m : Meta) : Nat :=
  if m.phase2_spine_input_count = 0 then 1 else m.phase2_spine_input_count

/-- Legacy rows and new ones of one market. -/
def mixed (rows : List SigRow) (id : String) : Bool :=
  let ofMarket := rows.filter fun row =>
    row.event_type = "pool_oracle_tx_sig" && row.shows (keyPattern "market_id" id)
  (ofMarket.any fun row =>
      !row.shows (containing "\"epoch\":".toList) ||
        row.shows (containing "\"epoch\":null".toList)) &&
    ofMarket.any fun row => row.shows (numPattern "epoch" 1)

/-- The oracle that is excused from a settlement. -/
def Meta.silent (m : Meta) (index : Int) : Bool :=
  !m.phase2_unanimous && m.phase2_silent_oracle_index = some index

/-- The oracles that sign a refund. -/
def Meta.signingIndices (m : Meta) : List Int :=
  if m.refund_disagreement_signing_pair = some 0 then [0, 1]
  else if m.refund_disagreement_signing_pair = some 1 then [0, 2]
  else [1, 2]

def settlePayload (voter : Voter) (market : Market) (i : Nat) (signature : String) : Json :=
  .obj ([("t", .str "kanet_pool_oracle_tx_sign_resp_v1"), ("market_id", .str market.id),
      ("voter_pubkey", .str voter.x_only_pubkey), ("voter_relay_id", .str voter.id),
      ("input_index", .num i)] ++
    (market.metadata.phase2_winner.map fun w => ("winner", w)).toList ++
    [("signature", .str signature), ("epoch", .num 1)])

def settleJob (voter : Voter) (market : Market) (image : Json) : Job where
  event_type := "pool_oracle_tx_sig"
  address := voter.address
  patterns i := [keyPattern "market_id" market.id, numPattern "input_index" i]
  row i signature :=
    ⟨"pool_oracle_tx_sig", voter.address, settlePayload voter market i signature, some image, i⟩

/-- The voter is an oracle of the market, and not the one it takes for excused. -/
def settleGoes (voter : Voter) (market : Market) : Bool :=
  market.collecting_sigs && !market.sharded && listed voter.address market.oracle_relay_ids &&
    voter.address ∈ market.oracle_relay_ids &&
      !market.metadata.silent (indexOf market.oracle_relay_ids voter.id)

def processPoolTxSign (relay : Relay) (rows : List SigRow) (voter : Voter) (market : Market) :
    List SigRow :=
  if !settleGoes voter market then rows
  else
    match market.metadata.phase2_tx_obj with
    | none => rows
    | some image =>
      if mixed rows market.id then rows
      else if !relay.get_pubkey then rows
      else (settleJob voter market image).signInputs relay
        (List.range (settleInputs market.metadata)) rows

def refundPayload (voter : Voter) (market : Market) (i : Nat) (signature : String) : Json :=
  .obj ([("t", .str "kanet_pool_oracle_refund_disagreement_tx_sig_v1"),
      ("market_id", .str market.id), ("voter_relay_id", .str voter.id), ("input_index", .num i)] ++
    (market.metadata.refund_disagreement_silent_oracle_index.map fun v =>
      ("silent_oracle_index", v)).toList ++
    (market.metadata.refund_disagreement_signing_pair.map fun n =>
      ("signing_pair", .num n)).toList ++
    [("signature", .str signature), ("epoch", .num 1)])

def refundJob (voter : Voter) (market : Market) (image : Json) : Job where
  event_type := "pool_oracle_refund_disagreement_tx_sig"
  address := voter.address
  patterns i := [keyPattern "market_id" market.id, numPattern "input_index" i]
  row i signature :=
    ⟨"pool_oracle_refund_disagreement_tx_sig", voter.address,
      refundPayload voter market i signature, some image, i⟩

def refundGoes (voter : Voter) (market : Market) : Bool :=
  market.collecting_sigs && !market.sharded && listed voter.address market.oracle_relay_ids &&
    market.metadata.refund_disagreement_dispatched_at &&
      voter.address ∈ market.oracle_relay_ids &&
        indexOf market.oracle_relay_ids voter.id ∈ market.metadata.signingIndices

def processPoolRefundDisagreementTxSign (relay : Relay) (rows : List SigRow) (voter : Voter)
    (market : Market) : List SigRow :=
  if !refundGoes voter market then rows
  else
    match market.metadata.refund_disagreement_tx_obj with
    | none => rows
    | some image => (refundJob voter market image).signInputs relay
      (List.range market.metadata.refund_disagreement_input_count) rows

/-! ### Offers -/

def offerPatterns (offer : Offer) : List (List Char) :=
  [keyPattern "offer_id" offer.id, numPattern "revote_round" offer.revote_round]

/-- The inputs whose rows of this round it finds. -/
def signedInputs (rows : List SigRow) (voter : Voter) (offer : Offer) : List Int :=
  (own rows "oracle_tx_sig" voter.address (offerPatterns offer)).filterMap fun row =>
    (row.payload.get "input_index").bind fun
      | .num n => if n = 0 ∨ n = 1 then some n else none
      | _ => none

def expectedOutcome (offer : Offer) (winner : Int) : String :=
  if winner = 0 then (if offer.outcome_side = "YES" then "YES" else "NO")
  else if offer.outcome_side = "YES" then "NO" else "YES"

/-- The vote that the voter finds of its own, in this round. -/
def myOutcome (rows : List SigRow) (voter : Voter) (offer : Offer) : Option String :=
  (own rows "oracle_vote" voter.address (offerPatterns offer)).head?.bind fun row =>
    textOf (row.payload.get "outcome")

def offerPayload (voter : Voter) (offer : Offer) (winner : Int) (i : Nat) (signature : String) :
    Json :=
  .obj [("t", .str "kanet_oracle_tx_sign_resp_v1"), ("offer_id", .str offer.id),
    ("voter_relay_id", .str voter.id), ("revote_round", .num offer.revote_round),
    ("winner", .num winner), ("input_index", .num i), ("signature", .str signature)]

def offerRow (voter : Voter) (offer : Offer) (winner : Int) (image : Json) (i : Nat)
    (signature : String) : SigRow :=
  ⟨"oracle_tx_sig", voter.address, offerPayload voter offer winner i signature, some image, i⟩

/-- Both inputs, one after the other; the first failure ends the tick. -/
def signBoth (relay : Relay) (signed : List Int) (row : Nat → String → SigRow) :
    List Nat → List SigRow → List SigRow
  | [], rows => rows
  | i :: is, rows =>
    if (i : Int) ∈ signed then signBoth relay signed row is rows
    else
      match relay.sign_input_for_settle i with
      | .signature s =>
        if relay.send_message i then signBoth relay signed row is (rows ++ [row i s])
        else rows ++ [row i s]
      | _ => rows

def offerGoes (voter : Voter) (offer : Offer) : Bool :=
  offer.collecting_sigs && (offer.outcome_oracle_relay_id = some voter.id ||
    listed voter.id offer.outcome_oracle_relay_ids)

def handleTxSignReq (relay : Relay) (rows : List SigRow) (voter : Voter) (offer : Offer) :
    List SigRow :=
  if !offerGoes voter offer then rows
  else if 0 ∈ signedInputs rows voter offer ∧ 1 ∈ signedInputs rows voter offer then rows
  else
    match offer.phase2_winner.filter (fun w => w = 0 ∨ w = 1), offer.phase2_tx_obj with
    | some winner, some image =>
      if myOutcome rows voter offer ≠ some (expectedOutcome offer winner) then rows
      else if offer.inputs ≠ some 2 then rows
      else signBoth relay (signedInputs rows voter offer) (offerRow voter offer winner image) [0, 1]
        rows
    | _, _ => rows

/-! ### The node -/

inductive Lane
  | settle | refund | offer
  deriving DecidableEq

structure Node where
  markets : String → Option Market
  offers : String → Option Offer
  chain_events : List SigRow

inductive Event
  /-- The settler writes a market or an offer anew. -/
  | market (m : Market)
  | offer (o : Offer)
  /-- A row that somebody else wrote. -/
  | row (r : SigRow)
  | tick (lane : Lane) (relay : Relay) (voter : Voter) (id : String)

def tickRows (n : Node) (relay : Relay) (voter : Voter) (id : String) : Lane → List SigRow
  | .settle => (n.markets id).elim n.chain_events (processPoolTxSign relay n.chain_events voter)
  | .refund => (n.markets id).elim n.chain_events
      (processPoolRefundDisagreementTxSign relay n.chain_events voter)
  | .offer => (n.offers id).elim n.chain_events (handleTxSignReq relay n.chain_events voter)

def step (n : Node) : Event → Node
  | .market m => { n with markets := Function.update n.markets m.id (some m) }
  | .offer o => { n with offers := Function.update n.offers o.id (some o) }
  | .row r => { n with chain_events := n.chain_events ++ [r] }
  | .tick lane relay voter id => { n with chain_events := tickRows n relay voter id lane }

def run (n : Node) (es : List Event) : Node := es.foldl step n

/-! ### What is to be signed -/

/-- The image in the metadata, the number of its inputs, and the rows that count for it. -/
structure Request where
  event_type : String
  patterns : List (List Char)
  image : Json
  inputs : Nat

def Request.reads (req : Request) (row : SigRow) : Bool :=
  row.event_type = req.event_type && req.patterns.all row.shows

/-- `handleCollectingSigs` goes on with the refund. -/
def Meta.refunding (m : Meta) : Bool :=
  m.refund_disagreement_dispatched_at && m.refund_disagreement_tx_obj.isSome

def settleRequest (m : Market) : Option Request :=
  if m.collecting_sigs && !m.metadata.refunding then
    m.metadata.phase2_tx_obj.map fun image =>
      ⟨"pool_oracle_tx_sig", [keyPattern "market_id" m.id], image, settleInputs m.metadata⟩
  else none

def refundRequest (m : Market) : Option Request :=
  if m.collecting_sigs && m.metadata.refund_disagreement_dispatched_at then
    m.metadata.refund_disagreement_tx_obj.map fun image =>
      ⟨"pool_oracle_refund_disagreement_tx_sig", [keyPattern "market_id" m.id], image,
        m.metadata.refund_disagreement_input_count⟩
  else none

def offerRequest (o : Offer) : Option Request :=
  if o.collecting_sigs then
    o.phase2_tx_obj.map fun image => ⟨"oracle_tx_sig", offerPatterns o, image, 2⟩
  else none

def Node.request (n : Node) (id : String) : Lane → Option Request
  | .settle => (n.markets id).bind settleRequest
  | .refund => (n.markets id).bind refundRequest
  | .offer => (n.offers id).bind offerRequest

/-- The place of a voter in the list, whichever way the list names it. -/
def position (voter : Voter) (m : Market) : Option Nat :=
  (m.oracle_relay_ids.idxOf? voter.address).or (m.oracle_relay_ids.idxOf? voter.id)

/-- The outcome that the voter has voted for, in this round of the offer. -/
def voted (rows : List SigRow) (voter : Voter) (o : Offer) : Option String :=
  (rows.find? fun row => row.event_type = "oracle_vote" && row.from_address = voter.address &&
    textOf (row.payload.get "offer_id") = some o.id &&
      parseInt (coerceMember (row.payload.get "revote_round")) = some (o.revote_round : Int)).bind
        fun row => textOf (row.payload.get "outcome")

/-- The voter is one that is expected to sign: all but the silent one for a settlement, the pair for
a refund, those who voted for the winner for an offer. -/
def Expected (n : Node) (voter : Voter) (id : String) : Lane → Prop
  | .settle => ∃ m i, n.markets id = some m ∧ position voter m = some i ∧
      m.metadata.silent i = false
  | .refund => ∃ m i, n.markets id = some m ∧ position voter m = some i ∧
      (i : Int) ∈ m.metadata.signingIndices
  | .offer => ∃ o w, n.offers id = some o ∧
      (o.outcome_oracle_relay_id = some voter.id ∨ voter.id ∈ o.outcome_oracle_relay_ids) ∧
      o.phase2_winner = some w ∧ (w = 0 ∨ w = 1) ∧ o.inputs = some 2 ∧
      voted n.chain_events voter o = some (expectedOutcome o w)

/-- This voter has signed this input of the image. -/
structure SigRow.Signs (req : Request) (voter : Voter) (i : Nat) (row : SigRow) : Prop where
  event_type : row.event_type = req.event_type
  address : row.from_address = voter.address
  image : row.image = some req.image
  input : row.input = i

/-- The signature is over the image, and over the input that the row names. -/
structure SigRow.Over (req : Request) (row : SigRow) : Prop where
  image : row.image = some req.image
  input : parseInt (coerceMember (row.payload.get "input_index")) = some (row.input : Int)

/-! ### Collecting -/

/-- The type of a message that the settler counts; it does not read the offers. -/
def Lane.t : Lane → Option String
  | .settle => some "kanet_pool_oracle_tx_sign_resp_v1"
  | .refund => some "kanet_pool_oracle_refund_disagreement_tx_sig_v1"
  | .offer => none

def truthy : Json → Bool
  | .null => false
  | .bool b => b
  | .num n => n ≠ 0
  | .str s => s ≠ ""
  | _ => true

/-- `String(p.voter_pubkey || p.voter_relay_id || '').toLowerCase()` -/
def signerKey (p : Json) : List Char :=
  ([p.get "voter_pubkey", p.get "voter_relay_id"].reduceOption.find? truthy).elim [] fun v =>
    (Oracles.coerce v).map Char.toLower

/-- The first row of each signer. -/
def firstOfEach : List (List Char) → List SigRow → List SigRow
  | _, [] => []
  | seen, row :: rows =>
    if seen.contains (signerKey row.payload) then firstOfEach seen rows
    else row :: firstOfEach (signerKey row.payload :: seen) rows

def sigsByInput (rows : List SigRow) (t : String) (req : Request) (i : Nat) : List SigRow :=
  firstOfEach [] (rows.filter fun row => req.reads row && textOf (row.payload.get "t") = some t &&
    parseInt (coerceMember (row.payload.get "input_index")) = some (i : Int) &&
      signerKey row.payload ≠ [] && (row.payload.get "signature").any truthy)

/-! ### Every image gets its signatures -/

/-- Each command to the relay of the voter succeeds. -/
structure Relay.Works (relay : Relay) : Prop where
  get_pubkey : relay.get_pubkey = true
  sign : ∀ i, ∃ s, relay.sign_input_for_settle i = .signature s
  send : ∀ i, relay.send_message i = true

def Asked (n : Node) (voter : Voter) (id : String) (lane : Lane) : Prop :=
  n.request id lane ≠ none ∧ Expected n voter id lane

structure Signs (start : Node) (es : List Event) : Prop where
  /-- A voter that is expected to sign has signed every input after a tick where all goes well. -/
  complete : ∀ pre lane relay voter id post, es = pre ++ .tick lane relay voter id :: post →
    ∀ req, (run start pre).request id lane = some req → Expected (run start pre) voter id lane →
      relay.Works → ∀ i < req.inputs,
        ∃ row ∈ (run start (pre ++ [.tick lane relay voter id])).chain_events,
          row.Signs req voter i
  /-- Nobody else signs. -/
  excused : ∀ pre lane relay voter id post, es = pre ++ .tick lane relay voter id :: post →
    ¬ Asked (run start pre) voter id lane →
      (run start (pre ++ [.tick lane relay voter id])).chain_events = (run start pre).chain_events
  /-- What is counted for an input is over that input of the current image. -/
  counted : ∀ pre, pre <+: es → ∀ lane t id req, Lane.t lane = some t →
    (run start pre).request id lane = some req → ∀ i,
      ∀ row ∈ sigsByInput (run start pre).chain_events t req i,
        row.image = some req.image ∧ row.input = i

/-! ### The condition -/

/-- An oracle of a market that is to sign the settlement is in the list by its address, and not
excused by its relay id; one that is excused is so by its relay id too. -/
structure SettleTold (rows : List SigRow) (voter : Voter) (m : Market) (i : Nat) : Prop where
  expected : m.metadata.silent i = false → m.metadata.refunding = false ∧ m.sharded = false ∧
    voter.address ∈ m.oracle_relay_ids ∧ listed voter.address m.oracle_relay_ids = true ∧
      m.metadata.silent (indexOf m.oracle_relay_ids voter.id) = false ∧ mixed rows m.id = false
  excused : m.metadata.silent i = true → voter.address ∈ m.oracle_relay_ids →
    m.metadata.silent (indexOf m.oracle_relay_ids voter.id) = true

/-- An oracle of the pair that signs a refund is in the list by its address and by its relay id;
the others are not in the pair by their relay id. -/
structure RefundTold (voter : Voter) (m : Market) (i : Nat) : Prop where
  expected : (i : Int) ∈ m.metadata.signingIndices → m.sharded = false ∧
    voter.address ∈ m.oracle_relay_ids ∧ listed voter.address m.oracle_relay_ids = true ∧
      indexOf m.oracle_relay_ids voter.id ∈ m.metadata.signingIndices
  excused : (i : Int) ∉ m.metadata.signingIndices → voter.address ∈ m.oracle_relay_ids →
    indexOf m.oracle_relay_ids voter.id ∉ m.metadata.signingIndices

/-- The list and the vote that a voter finds for an offer are the ones there are. -/
structure OfferTold (rows : List SigRow) (voter : Voter) (o : Offer) : Prop where
  listed : listed voter.id o.outcome_oracle_relay_ids = true ↔ voter.id ∈ o.outcome_oracle_relay_ids
  voted : myOutcome rows voter o = voted rows voter o

/-- The voter is told by the list whether it is expected. -/
def Told (n : Node) (voter : Voter) (id : String) : Lane → Prop
  | .settle => ∀ m, n.markets id = some m → m.collecting_sigs = true →
      m.metadata.phase2_tx_obj ≠ none → ∀ i, position voter m = some i →
        SettleTold n.chain_events voter m i
  | .refund => ∀ m, n.markets id = some m → m.collecting_sigs = true →
      m.metadata.refund_disagreement_dispatched_at = true →
        m.metadata.refund_disagreement_tx_obj ≠ none → ∀ i, position voter m = some i →
          RefundTold voter m i
  | .offer => ∀ o, n.offers id = some o → o.collecting_sigs = true →
      OfferTold n.chain_events voter o

/-- Where a loop would find a row for an input, among those there are and those of the inputs
before, the input is signed. -/
def Job.Found (j : Job) (inputs : Nat) (rows : List SigRow) (P : Nat → SigRow → Prop) : Prop :=
  ∀ i < inputs, (j.seen rows i = true ∨ ∃ k < i, ∃ s, j.finds (j.row k s) i = true) →
    ∃ row ∈ rows, P i row

/-- What a voter takes for its signatures are its signatures over those inputs of the image. -/
def Found (n : Node) (voter : Voter) (id : String) (req : Request) : Lane → Prop
  | .settle => ∀ m, n.markets id = some m →
      (settleJob voter m req.image).Found req.inputs n.chain_events (SigRow.Signs req voter)
  | .refund => ∀ m, n.markets id = some m →
      (refundJob voter m req.image).Found req.inputs n.chain_events (SigRow.Signs req voter)
  | .offer => ∀ o, n.offers id = some o → ∀ i : Nat,
      (i : Int) ∈ signedInputs n.chain_events voter o →
        ∃ row ∈ n.chain_events, row.Signs req voter i

/-- The rows that a tick may write. -/
def Writes (n : Node) (voter : Voter) (id : String) (image : Json) : Lane → SigRow → Prop
  | .settle, row => ∃ m i s, n.markets id = some m ∧ row = (settleJob voter m image).row i s
  | .refund, row => ∃ m i s, n.markets id = some m ∧ row = (refundJob voter m image).row i s
  | .offer, row => ∃ o w i s, n.offers id = some o ∧ row = offerRow voter o w image i s

/-- What is read for a request is over its image: the rows there are when it is written, those that
others write, and those that the ticks for another write. -/
def Fair (n : Node) : Event → Prop
  | .market m => ∀ lane req, (step n (.market m)).request m.id lane = some req →
      ∀ row ∈ n.chain_events, req.reads row = true → row.Over req
  | .offer o => ∀ lane req, (step n (.offer o)).request o.id lane = some req →
      ∀ row ∈ n.chain_events, req.reads row = true → row.Over req
  | .row r => ∀ id lane req, n.request id lane = some req → req.reads r = true → r.Over req
  | .tick lane _ voter id => Told n voter id lane ∧
      ∀ req, n.request id lane = some req → Expected n voter id lane →
        Found n voter id req lane ∧ ∀ row, Writes n voter id req.image lane row →
          ∀ id' lane' req', n.request id' lane' = some req' → req'.reads row = true →
            req'.image = req.image

def FairRun (start : Node) (es : List Event) : Prop :=
  ∀ pre e post, es = pre ++ e :: post → Fair (run start pre) e

/-- What is read for a request is over its image. -/
def AllOver (n : Node) : Prop :=
  ∀ id lane req, n.request id lane = some req → ∀ row ∈ n.chain_events, req.reads row = true →
    row.Over req

/-! ### The loops -/

section Loops

variable {j : Job} {relay : Relay} {inputs : List Nat} {rows : List SigRow} {row : SigRow}

theorem seen_iff {i : Nat} : j.seen rows i = true ↔ ∃ row ∈ rows, j.finds row i = true := by
  unfold Job.seen own
  rw [decide_eq_true_eq, ne_eq, List.filter_eq_nil_iff]
  push Not
  rfl

/-- The loop only adds rows of its own. -/
theorem mem_signInputs (h : row ∈ j.signInputs relay inputs rows) :
    row ∈ rows ∨ ∃ i s, row = j.row i s := by
  induction inputs generalizing rows with
  | nil => exact Or.inl h
  | cons i is ih =>
    rw [Job.signInputs] at h
    split at h
    · exact ih h
    · split at h
      · next s _ =>
        rcases ih h with h | h
        · rcases List.mem_append.mp h with h | h
          · exact Or.inl h
          · exact Or.inr ⟨i, s, List.mem_singleton.mp h⟩
        · exact Or.inr h
      · exact ih h
      · exact Or.inl h

theorem subset_signInputs : rows ⊆ j.signInputs relay inputs rows := by
  induction inputs generalizing rows with
  | nil => exact List.Subset.refl _
  | cons i is ih =>
    rw [Job.signInputs]
    split
    · exact ih
    · split
      · exact List.Subset.trans (List.subset_append_left _ _) ih
      · exact ih
      · exact List.Subset.refl _

/-- **What the loop leaves behind** where every command succeeds: for each input a row over it, if
the rows that it takes for one are. -/
theorem Job.stored {P : Nat → SigRow → Prop} (hsign : ∀ i, ∃ s,
    relay.sign_input_for_settle i = .signature s) (hrow : ∀ i s, P i (j.row i s))
    (hseen : ∀ i ∈ inputs, j.seen rows i = true → ∃ row ∈ rows, P i row)
    (hnew : inputs.Pairwise fun k i => ∀ s, j.finds (j.row k s) i = true → ∃ row ∈ rows, P i row) :
    ∀ i ∈ inputs, ∃ row ∈ j.signInputs relay inputs rows, P i row := by
  induction inputs generalizing rows with
  | nil => exact fun i hi => absurd hi List.not_mem_nil
  | cons k is ih =>
    obtain ⟨hk, his⟩ := List.pairwise_cons.mp hnew
    rw [Job.signInputs]
    split
    · next hs =>
      intro i hi
      rcases List.mem_cons.mp hi with rfl | hi
      · obtain ⟨row, hmem, hP⟩ := hseen i List.mem_cons_self hs
        exact ⟨row, subset_signInputs hmem, hP⟩
      · exact ih (fun i hi => hseen i (List.mem_cons_of_mem _ hi)) his i hi
    · obtain ⟨s, hs⟩ := hsign k
      rw [hs]
      have hmono : ∀ {i}, (∃ row ∈ rows, P i row) → ∃ row ∈ rows ++ [j.row k s], P i row :=
        fun ⟨row, hmem, hP⟩ => ⟨row, List.mem_append_left _ hmem, hP⟩
      intro i hi
      rcases List.mem_cons.mp hi with rfl | hi
      · exact ⟨j.row i s, subset_signInputs (List.mem_append_right _ List.mem_cons_self), hrow i s⟩
      · refine ih (fun i hi hfound => hmono ?_) (his.imp fun h s hs => hmono (h s hs)) i hi
        obtain ⟨row, hmem, hrow⟩ := seen_iff.mp hfound
        rcases List.mem_append.mp hmem with hmem | hmem
        · exact hseen i (List.mem_cons_of_mem _ hi) (seen_iff.mpr ⟨row, hmem, hrow⟩)
        · rw [List.mem_singleton.mp hmem] at hrow
          exact hk i hi s hrow

/-- The same over all inputs of an image. -/
theorem Job.stored_range {n : Nat} {P : Nat → SigRow → Prop} (hworks : relay.Works)
    (hrow : ∀ i s, P i (j.row i s)) (hfound : j.Found n rows P) :
    ∀ i < n, ∃ row ∈ j.signInputs relay (List.range n) rows, P i row := by
  intro i hi
  refine Job.stored hworks.sign hrow (fun i hi hs => hfound i (List.mem_range.mp hi) (Or.inl hs))
    ?_ i (List.mem_range.mpr hi)
  exact List.pairwise_lt_range.imp_of_mem fun {k i} _ hi hlt s hs =>
    hfound i (List.mem_range.mp hi) (Or.inr ⟨k, hlt, s, hs⟩)

variable {signed : List Int} {newRow : Nat → String → SigRow}

theorem mem_signBoth (h : row ∈ signBoth relay signed newRow inputs rows) :
    row ∈ rows ∨ ∃ i s, row = newRow i s := by
  induction inputs generalizing rows with
  | nil => exact Or.inl h
  | cons i is ih =>
    have hadd : ∀ {s}, row ∈ rows ++ [newRow i s] → row ∈ rows ∨ ∃ i s, row = newRow i s := by
      intro s h
      rcases List.mem_append.mp h with h | h
      · exact Or.inl h
      · exact Or.inr ⟨i, s, List.mem_singleton.mp h⟩
    rw [signBoth] at h
    split at h
    · exact ih h
    · split at h
      · split at h
        · exact (ih h).elim hadd Or.inr
        · exact hadd h
      · exact Or.inl h

theorem subset_signBoth : rows ⊆ signBoth relay signed newRow inputs rows := by
  induction inputs generalizing rows with
  | nil => exact List.Subset.refl _
  | cons i is ih =>
    rw [signBoth]
    split
    · exact ih
    · split
      · split
        · exact List.Subset.trans (List.subset_append_left _ _) ih
        · exact List.subset_append_left _ _
      · exact List.Subset.refl _

theorem signBoth_stored {P : Nat → SigRow → Prop} (hworks : relay.Works)
    (hrow : ∀ i s, P i (newRow i s))
    (hsigned : ∀ i : Nat, (i : Int) ∈ signed → ∃ row ∈ rows, P i row) :
    ∀ i ∈ inputs, ∃ row ∈ signBoth relay signed newRow inputs rows, P i row := by
  induction inputs generalizing rows with
  | nil => exact fun i hi => absurd hi List.not_mem_nil
  | cons k is ih =>
    intro i hi
    rw [signBoth]
    split
    · next hk =>
      rcases List.mem_cons.mp hi with rfl | hi
      · obtain ⟨row, hmem, hP⟩ := hsigned i hk
        exact ⟨row, subset_signBoth hmem, hP⟩
      · exact ih hsigned i hi
    · obtain ⟨s, hs⟩ := hworks.sign k
      rw [hs]
      dsimp only
      rw [if_pos (hworks.send k)]
      rcases List.mem_cons.mp hi with rfl | hi
      · exact ⟨newRow i s, subset_signBoth (List.mem_append_right _ List.mem_cons_self), hrow i s⟩
      · refine ih (fun i h => ?_) i hi
        obtain ⟨row, hmem, hP⟩ := hsigned i h
        exact ⟨row, List.mem_append_left _ hmem, hP⟩

end Loops

/-! ### The input that a row names -/

theorem foldl_digits (cs : List Char) (n : Nat) :
    cs.foldl (fun n c => 10 * n + Json.digitValue c) n =
      n * 10 ^ cs.length + Nat.ofDigits 10 (cs.reverse.map Json.digitValue) := by
  induction cs generalizing n with
  | nil => simp
  | cons c cs ih =>
    rw [List.foldl_cons, ih, List.reverse_cons, List.map_append, Nat.ofDigits_append]
    simp only [List.length_cons, List.map_cons, List.map_nil, Nat.ofDigits_singleton,
      List.length_map, List.length_reverse]
    ring

theorem digit_plain {c : Char} (h : c.isDigit = true) :
    c.isWhitespace = false ∧ c ≠ '-' ∧ c ≠ '+' := by
  have hne : ∀ d ∈ [' ', '\t', '\r', '\n', '-', '+'], c ≠ d := by
    rintro d hd rfl
    have hdig : ∀ d ∈ [' ', '\t', '\r', '\n', '-', '+'], d.isDigit = false := by
      simp only [List.forall_mem_cons]
      exact ⟨rfl, rfl, rfl, rfl, rfl, rfl, List.forall_mem_nil _⟩
    rw [hdig c hd] at h
    cases h
  simp only [List.forall_mem_cons] at hne
  obtain ⟨h₀, h₁, h₂, h₃, h₄, h₅, -⟩ := hne
  refine ⟨?_, h₄, h₅⟩
  simp [Char.isWhitespace, h₀, h₁, h₂, h₃]

/-- What is written for a number is read as it. -/
theorem parseInt_digits (i : Nat) : parseInt (Json.digits i) = some (i : Int) := by
  have hdigit : ∀ c ∈ Json.digits i, c.isDigit = true := Json.digits_isDigit
  have hval := foldl_digits (Json.digits i) 0
  rw [Json.ofDigits_digits, Nat.zero_mul, Nat.zero_add] at hval
  obtain ⟨c, cs, hc⟩ := List.exists_cons_of_ne_nil (Json.digits_ne_nil i)
  obtain ⟨hspace, hminus, hplus⟩ := digit_plain (hdigit c (by rw [hc]; exact List.mem_cons_self))
  have hdrop : (Json.digits i).dropWhile Char.isWhitespace = Json.digits i := by
    rw [hc, List.dropWhile_cons_of_neg (by rw [hspace]; nofun)]
  have hhead : (Json.digits i).head? = some c := by rw [hc]; rfl
  have htake : (Json.digits i).takeWhile Char.isDigit = Json.digits i :=
    List.takeWhile_eq_self_iff.mpr hdigit
  unfold parseInt
  simp [hdrop, hhead, hminus, hplus, htake, hval, Json.digits_ne_nil]

/-! ### One tick -/

section Tick

variable {n : Node} {voter : Voter} {relay : Relay} {id : String} {lane : Lane} {req : Request}
  {m : Market} {o : Offer} {row : SigRow}

theorem position_of_mem (h : voter.address ∈ m.oracle_relay_ids) :
    ∃ i, position voter m = some i := by
  unfold position
  cases hi : m.oracle_relay_ids.idxOf? voter.address with
  | none => exact absurd h (List.idxOf?_eq_none_iff.mp hi)
  | some i => exact ⟨i, rfl⟩

theorem settleGoes_iff : settleGoes voter m = true ↔ m.collecting_sigs = true ∧
    m.sharded = false ∧ listed voter.address m.oracle_relay_ids = true ∧
      voter.address ∈ m.oracle_relay_ids ∧
        m.metadata.silent (indexOf m.oracle_relay_ids voter.id) = false := by
  unfold settleGoes
  simp [and_assoc]

theorem refundGoes_iff : refundGoes voter m = true ↔ m.collecting_sigs = true ∧
    m.sharded = false ∧ listed voter.address m.oracle_relay_ids = true ∧
      m.metadata.refund_disagreement_dispatched_at = true ∧
        voter.address ∈ m.oracle_relay_ids ∧
          indexOf m.oracle_relay_ids voter.id ∈ m.metadata.signingIndices := by
  unfold refundGoes
  simp [and_assoc]

theorem settleRequest_eq_some : settleRequest m = some req ↔ m.collecting_sigs = true ∧
    m.metadata.refunding = false ∧ ∃ image, m.metadata.phase2_tx_obj = some image ∧
      req = ⟨"pool_oracle_tx_sig", [keyPattern "market_id" m.id], image,
        settleInputs m.metadata⟩ := by
  unfold settleRequest
  constructor
  · intro h
    split at h
    · next hc =>
      obtain ⟨image, himage, rfl⟩ := Option.map_eq_some_iff.mp h
      rw [Bool.and_eq_true, Bool.not_eq_true'] at hc
      exact ⟨hc.1, hc.2, image, himage, rfl⟩
    · cases h
  · rintro ⟨hcollecting, hrefunding, image, himage, rfl⟩
    rw [hcollecting, hrefunding, himage]
    rfl

theorem refundRequest_eq_some : refundRequest m = some req ↔ m.collecting_sigs = true ∧
    m.metadata.refund_disagreement_dispatched_at = true ∧
      ∃ image, m.metadata.refund_disagreement_tx_obj = some image ∧
        req = ⟨"pool_oracle_refund_disagreement_tx_sig", [keyPattern "market_id" m.id], image,
          m.metadata.refund_disagreement_input_count⟩ := by
  unfold refundRequest
  constructor
  · intro h
    split at h
    · next hc =>
      obtain ⟨image, himage, rfl⟩ := Option.map_eq_some_iff.mp h
      rw [Bool.and_eq_true] at hc
      exact ⟨hc.1, hc.2, image, himage, rfl⟩
    · cases h
  · rintro ⟨hcollecting, hat, image, himage, rfl⟩
    rw [hcollecting, hat, himage]
    rfl

theorem offerRequest_eq_some : offerRequest o = some req ↔ o.collecting_sigs = true ∧
    ∃ image, o.phase2_tx_obj = some image ∧ req = ⟨"oracle_tx_sig", offerPatterns o, image, 2⟩ := by
  unfold offerRequest
  constructor
  · intro h
    split at h
    · next hc =>
      obtain ⟨image, himage, rfl⟩ := Option.map_eq_some_iff.mp h
      exact ⟨hc, image, himage, rfl⟩
    · cases h
  · rintro ⟨hcollecting, image, himage, rfl⟩
    rw [hcollecting, himage]
    rfl

/-- Who goes to a settlement is asked for it. -/
theorem asked_settle (hm : n.markets id = some m) (htold : Told n voter id .settle)
    (hgoes : settleGoes voter m = true) (himage : m.metadata.phase2_tx_obj ≠ none) :
    Asked n voter id .settle := by
  obtain ⟨hcollecting, -, -, haddr, hsilent⟩ := settleGoes_iff.mp hgoes
  obtain ⟨i, hi⟩ := position_of_mem haddr
  have ht := htold m hm hcollecting himage i hi
  have hexp : m.metadata.silent i = false := by
    rw [← Bool.not_eq_true]
    intro h
    rw [ht.excused h haddr] at hsilent
    cases hsilent
  obtain ⟨image, himage⟩ := Option.ne_none_iff_exists'.mp himage
  refine ⟨?_, m, i, hm, hi, hexp⟩
  unfold Node.request
  rw [hm, Option.bind_some, Option.ne_none_iff_exists']
  exact ⟨_, settleRequest_eq_some.mpr ⟨hcollecting, (ht.expected hexp).1, image, himage, rfl⟩⟩

theorem asked_refund (hm : n.markets id = some m) (htold : Told n voter id .refund)
    (hgoes : refundGoes voter m = true) (himage : m.metadata.refund_disagreement_tx_obj ≠ none) :
    Asked n voter id .refund := by
  obtain ⟨hcollecting, -, -, hat, haddr, hpair⟩ := refundGoes_iff.mp hgoes
  obtain ⟨i, hi⟩ := position_of_mem haddr
  have ht := htold m hm hcollecting hat himage i hi
  have hexp : (i : Int) ∈ m.metadata.signingIndices := by
    by_contra h
    exact ht.excused h haddr hpair
  obtain ⟨image, himage⟩ := Option.ne_none_iff_exists'.mp himage
  refine ⟨?_, m, i, hm, hi, hexp⟩
  unfold Node.request
  rw [hm, Option.bind_some, Option.ne_none_iff_exists']
  exact ⟨_, refundRequest_eq_some.mpr ⟨hcollecting, hat, image, himage, rfl⟩⟩

/-- Where a voter signs for an offer. -/
def offerReady (rows : List SigRow) (voter : Voter) (o : Offer) (w : Int) : Prop :=
  offerGoes voter o = true ∧ o.phase2_winner = some w ∧ (w = 0 ∨ w = 1) ∧
    myOutcome rows voter o = some (expectedOutcome o w) ∧ o.inputs = some 2

theorem asked_offer {w : Int} (ho : n.offers id = some o) (htold : Told n voter id .offer)
    (hready : offerReady n.chain_events voter o w) (himage : o.phase2_tx_obj ≠ none) :
    Asked n voter id .offer := by
  obtain ⟨hgoes, hw, hw', hvote, hinputs⟩ := hready
  obtain ⟨hcollecting, hlist⟩ := Bool.and_eq_true_iff.mp hgoes
  have ht := htold o ho hcollecting
  obtain ⟨image, himage⟩ := Option.ne_none_iff_exists'.mp himage
  refine ⟨?_, o, w, ho, ?_, hw, hw', hinputs, ht.voted ▸ hvote⟩
  · unfold Node.request
    rw [ho, Option.bind_some, Option.ne_none_iff_exists']
    exact ⟨_, offerRequest_eq_some.mpr ⟨hcollecting, image, himage, rfl⟩⟩
  · rw [Bool.or_eq_true, decide_eq_true_eq] at hlist
    exact hlist.imp_right ht.listed.mp

/-- **The settlement tick**: nothing, or the loop over the inputs of what is asked. -/
theorem settle_cases (hm : n.markets id = some m) (htold : Told n voter id .settle) :
    processPoolTxSign relay n.chain_events voter m = n.chain_events ∨
      Asked n voter id .settle ∧ ∃ image, m.metadata.phase2_tx_obj = some image ∧
        processPoolTxSign relay n.chain_events voter m = (settleJob voter m image).signInputs relay
          (List.range (settleInputs m.metadata)) n.chain_events := by
  unfold processPoolTxSign
  split
  · exact Or.inl rfl
  · next hgoes =>
    split
    · exact Or.inl rfl
    · next image himage =>
      have hasked : Asked n voter id .settle :=
        asked_settle hm htold (by simpa using hgoes) (by rw [himage]; nofun)
      split
      · exact Or.inl rfl
      · split
        · exact Or.inl rfl
        · exact Or.inr ⟨hasked, image, himage, rfl⟩

theorem refund_cases (hm : n.markets id = some m) (htold : Told n voter id .refund) :
    processPoolRefundDisagreementTxSign relay n.chain_events voter m = n.chain_events ∨
      Asked n voter id .refund ∧ ∃ image, m.metadata.refund_disagreement_tx_obj = some image ∧
        processPoolRefundDisagreementTxSign relay n.chain_events voter m =
          (refundJob voter m image).signInputs relay
            (List.range m.metadata.refund_disagreement_input_count) n.chain_events := by
  unfold processPoolRefundDisagreementTxSign
  split
  · exact Or.inl rfl
  · next hgoes =>
    split
    · exact Or.inl rfl
    · next image himage =>
      refine Or.inr ⟨asked_refund hm htold (by simpa using hgoes) ?_, image, himage, rfl⟩
      rw [himage]
      nofun

theorem offer_cases (ho : n.offers id = some o) (htold : Told n voter id .offer) :
    handleTxSignReq relay n.chain_events voter o = n.chain_events ∨
      Asked n voter id .offer ∧ ∃ w image, o.phase2_tx_obj = some image ∧
        handleTxSignReq relay n.chain_events voter o =
          signBoth relay (signedInputs n.chain_events voter o) (offerRow voter o w image) [0, 1]
            n.chain_events := by
  unfold handleTxSignReq
  split
  · exact Or.inl rfl
  · next hgoes =>
    split
    · exact Or.inl rfl
    · split
      · next w image hw himage =>
        obtain ⟨hw, hw'⟩ := Option.filter_eq_some_iff.mp hw
        split
        · exact Or.inl rfl
        · next hvote =>
          split
          · exact Or.inl rfl
          · next hinputs =>
            refine Or.inr ⟨asked_offer (w := w) ho htold ⟨by simpa using hgoes, hw, ?_, ?_, ?_⟩ ?_,
              w, image, himage, rfl⟩
            · simpa using hw'
            · exact not_not.mp hvote
            · exact not_not.mp hinputs
            · rw [himage]
              nofun
      · exact Or.inl rfl

/-- Whoever is not asked signs nothing. -/
theorem tick_idle (htold : Told n voter id lane) (h : ¬ Asked n voter id lane) :
    tickRows n relay voter id lane = n.chain_events := by
  cases lane with
  | settle =>
    cases hm : n.markets id with
    | none => rw [tickRows, hm, Option.elim_none]
    | some m =>
      rw [tickRows, hm, Option.elim_some]
      exact (settle_cases hm htold).resolve_right fun hc => h hc.1
  | refund =>
    cases hm : n.markets id with
    | none => rw [tickRows, hm, Option.elim_none]
    | some m =>
      rw [tickRows, hm, Option.elim_some]
      exact (refund_cases hm htold).resolve_right fun hc => h hc.1
  | offer =>
    cases ho : n.offers id with
    | none => rw [tickRows, ho, Option.elim_none]
    | some o =>
      rw [tickRows, ho, Option.elim_some]
      exact (offer_cases ho htold).resolve_right fun hc => h hc.1

/-- Whoever is asked writes rows over what it is asked for. -/
theorem mem_tick (htold : Told n voter id lane) (hreq : n.request id lane = some req)
    (h : row ∈ tickRows n relay voter id lane) :
    row ∈ n.chain_events ∨ Writes n voter id req.image lane row := by
  cases lane with
  | settle =>
    obtain ⟨m, hm, hreq⟩ := Option.bind_eq_some_iff.mp hreq
    rw [tickRows, hm, Option.elim_some] at h
    obtain ⟨-, -, image, himage, rfl⟩ := settleRequest_eq_some.mp hreq
    rcases settle_cases hm htold with hc | ⟨-, image', himage', hc⟩
    · rw [hc] at h
      exact Or.inl h
    · obtain rfl := Option.some.inj (himage.symm.trans himage')
      rw [hc] at h
      refine (mem_signInputs h).imp_right ?_
      rintro ⟨i, s, hrow⟩
      exact ⟨m, i, s, hm, hrow⟩
  | refund =>
    obtain ⟨m, hm, hreq⟩ := Option.bind_eq_some_iff.mp hreq
    rw [tickRows, hm, Option.elim_some] at h
    obtain ⟨-, -, image, himage, rfl⟩ := refundRequest_eq_some.mp hreq
    rcases refund_cases hm htold with hc | ⟨-, image', himage', hc⟩
    · rw [hc] at h
      exact Or.inl h
    · obtain rfl := Option.some.inj (himage.symm.trans himage')
      rw [hc] at h
      refine (mem_signInputs h).imp_right ?_
      rintro ⟨i, s, hrow⟩
      exact ⟨m, i, s, hm, hrow⟩
  | offer =>
    obtain ⟨o, ho, hreq⟩ := Option.bind_eq_some_iff.mp hreq
    rw [tickRows, ho, Option.elim_some] at h
    obtain ⟨-, image, himage, rfl⟩ := offerRequest_eq_some.mp hreq
    rcases offer_cases ho htold with hc | ⟨-, w, image', himage', hc⟩
    · rw [hc] at h
      exact Or.inl h
    · obtain rfl := Option.some.inj (himage.symm.trans himage')
      rw [hc] at h
      refine (mem_signBoth h).imp_right ?_
      rintro ⟨i, s, hrow⟩
      exact ⟨o, w, i, s, ho, hrow⟩

theorem settle_complete (hm : n.markets id = some m) (htold : Told n voter id .settle)
    (hreq : settleRequest m = some req) (hexp : Expected n voter id .settle)
    (hfound : Found n voter id req .settle) (hworks : relay.Works) :
    ∀ i < req.inputs, ∃ row ∈ processPoolTxSign relay n.chain_events voter m,
      row.Signs req voter i := by
  obtain ⟨m', i, hm', hi, hsilent⟩ := hexp
  obtain rfl := Option.some.inj (hm.symm.trans hm')
  obtain ⟨hcollecting, -, image, himage, rfl⟩ := settleRequest_eq_some.mp hreq
  have ht := htold m hm hcollecting (by rw [himage]; nofun) i hi
  obtain ⟨-, hsharded, haddr, hlisted, hmine, hmixed⟩ := ht.expected hsilent
  have hgoes : settleGoes voter m = true :=
    settleGoes_iff.mpr ⟨hcollecting, hsharded, hlisted, haddr, hmine⟩
  unfold processPoolTxSign
  rw [hgoes, himage]
  simp only [Bool.not_true, Bool.false_eq_true, if_false, hmixed, hworks.get_pubkey]
  exact Job.stored_range hworks (fun i s => ⟨rfl, rfl, rfl, rfl⟩) (hfound m hm)

theorem refund_complete (hm : n.markets id = some m) (htold : Told n voter id .refund)
    (hreq : refundRequest m = some req) (hexp : Expected n voter id .refund)
    (hfound : Found n voter id req .refund) (hworks : relay.Works) :
    ∀ i < req.inputs, ∃ row ∈ processPoolRefundDisagreementTxSign relay n.chain_events voter m,
      row.Signs req voter i := by
  obtain ⟨m', i, hm', hi, hpair⟩ := hexp
  obtain rfl := Option.some.inj (hm.symm.trans hm')
  obtain ⟨hcollecting, hat, image, himage, rfl⟩ := refundRequest_eq_some.mp hreq
  have ht := htold m hm hcollecting hat (by rw [himage]; nofun) i hi
  obtain ⟨hsharded, haddr, hlisted, hmine⟩ := ht.expected hpair
  have hgoes : refundGoes voter m = true :=
    refundGoes_iff.mpr ⟨hcollecting, hsharded, hlisted, hat, haddr, hmine⟩
  unfold processPoolRefundDisagreementTxSign
  rw [hgoes, himage]
  exact Job.stored_range hworks (fun i s => ⟨rfl, rfl, rfl, rfl⟩) (hfound m hm)

theorem offer_complete (ho : n.offers id = some o) (htold : Told n voter id .offer)
    (hreq : offerRequest o = some req) (hexp : Expected n voter id .offer)
    (hfound : Found n voter id req .offer) (hworks : relay.Works) :
    ∀ i < req.inputs, ∃ row ∈ handleTxSignReq relay n.chain_events voter o,
      row.Signs req voter i := by
  obtain ⟨o', w, ho', hlist, hw, hw', hinputs, hvote⟩ := hexp
  obtain rfl := Option.some.inj (ho.symm.trans ho')
  obtain ⟨hcollecting, image, himage, rfl⟩ := offerRequest_eq_some.mp hreq
  have ht := htold o ho hcollecting
  have hgoes : offerGoes voter o = true := by
    unfold offerGoes
    rw [hcollecting, Bool.true_and, Bool.or_eq_true, decide_eq_true_eq]
    exact hlist.imp_right ht.listed.mpr
  have hsigned := hfound o ho
  have hwinner : o.phase2_winner.filter (fun w => w = 0 ∨ w = 1) = some w :=
    Option.filter_eq_some_iff.mpr ⟨hw, decide_eq_true hw'⟩
  intro i hi
  unfold handleTxSignReq
  rw [hgoes, hwinner, himage]
  simp only [Bool.not_true, Bool.false_eq_true, if_false, ht.voted, hvote, hinputs, ne_eq,
    not_true_eq_false]
  have hi' : i ∈ [0, 1] := by
    have : i < 2 := hi
    simp only [List.mem_cons, List.not_mem_nil, or_false]
    omega
  split
  · next hboth =>
    refine hsigned i ?_
    rcases List.mem_pair.mp hi' with rfl | rfl
    · exact hboth.1
    · exact hboth.2
  · exact signBoth_stored hworks (fun i s => ⟨rfl, rfl, rfl, rfl⟩) hsigned i hi'

theorem tick_complete (htold : Told n voter id lane) (hreq : n.request id lane = some req)
    (hexp : Expected n voter id lane) (hfound : Found n voter id req lane) (hworks : relay.Works) :
    ∀ i < req.inputs, ∃ row ∈ tickRows n relay voter id lane, row.Signs req voter i := by
  cases lane with
  | settle =>
    obtain ⟨m, hm, hreq⟩ := Option.bind_eq_some_iff.mp hreq
    rw [tickRows, hm, Option.elim_some]
    exact settle_complete hm htold hreq hexp hfound hworks
  | refund =>
    obtain ⟨m, hm, hreq⟩ := Option.bind_eq_some_iff.mp hreq
    rw [tickRows, hm, Option.elim_some]
    exact refund_complete hm htold hreq hexp hfound hworks
  | offer =>
    obtain ⟨o, ho, hreq⟩ := Option.bind_eq_some_iff.mp hreq
    rw [tickRows, ho, Option.elim_some]
    exact offer_complete ho htold hreq hexp hfound hworks

end Tick

/-! ### Runs -/

section Runs

variable {start n : Node} {es : List Event} {row : SigRow} {req : Request}

/-- A row that a tick writes names the input that it is over. -/
theorem over_of_writes {voter : Voter} {id : String} {lane : Lane} {image : Json}
    (h : Writes n voter id image lane row) :
    row.image = some image ∧
      parseInt (coerceMember (row.payload.get "input_index")) = some (row.input : Int) := by
  cases lane with
  | settle =>
    obtain ⟨m, i, s, -, rfl⟩ := h
    exact ⟨rfl, parseInt_digits i⟩
  | refund =>
    obtain ⟨m, i, s, -, rfl⟩ := h
    exact ⟨rfl, parseInt_digits i⟩
  | offer =>
    obtain ⟨o, w, i, s, -, rfl⟩ := h
    exact ⟨rfl, parseInt_digits i⟩

theorem request_market {m : Market} {id : String} {lane : Lane} (h : id ≠ m.id) :
    (step n (.market m)).request id lane = n.request id lane := by
  cases lane <;> simp [Node.request, step, Function.update_of_ne h]

theorem request_offer {o : Offer} {id : String} {lane : Lane} (h : id ≠ o.id) :
    (step n (.offer o)).request id lane = n.request id lane := by
  cases lane <;> simp [Node.request, step, Function.update_of_ne h]

theorem AllOver.step {e : Event} (h : AllOver n) (hfair : Fair n e) : AllOver (step n e) := by
  intro id lane req hreq row hrow hreads
  cases e with
  | market m =>
    by_cases hid : id = m.id
    · subst hid
      exact hfair lane req hreq row hrow hreads
    · exact h id lane req (request_market hid ▸ hreq) row hrow hreads
  | offer o =>
    by_cases hid : id = o.id
    · subst hid
      exact hfair lane req hreq row hrow hreads
    · exact h id lane req (request_offer hid ▸ hreq) row hrow hreads
  | row r =>
    rcases List.mem_append.mp hrow with hrow | hrow
    · exact h id lane req hreq row hrow hreads
    · rw [List.mem_singleton.mp hrow] at hreads ⊢
      exact hfair id lane req hreq hreads
  | tick lane' relay voter id' =>
    have hreq' : n.request id lane = some req := hreq
    by_cases hasked : Asked n voter id' lane'
    · obtain ⟨req', himage⟩ := Option.ne_none_iff_exists'.mp hasked.1
      rcases mem_tick hfair.1 himage hrow with hrow | hwrites
      · exact h id lane req hreq' row hrow hreads
      · obtain ⟨-, hapart⟩ := hfair.2 req' himage hasked.2
        obtain ⟨hover, hinput⟩ := over_of_writes hwrites
        exact ⟨by rw [hover, hapart row hwrites id lane req hreq' hreads], hinput⟩
    · have hsame : tickRows n relay voter id' lane' = n.chain_events := tick_idle hfair.1 hasked
      exact h id lane req hreq' row (hsame ▸ hrow) hreads

theorem run_append (start : Node) (es es' : List Event) :
    run start (es ++ es') = run (run start es) es' := List.foldl_append

theorem FairRun.initial {pre : List Event} (h : FairRun start es) (hpre : pre <+: es) :
    FairRun start pre := Along.initial h hpre

theorem FairRun.nil : FairRun start [] := Along.nil

theorem FairRun.cons {e : Event} (h : Fair start e) (hes : FairRun (step start e) es) :
    FairRun start (e :: es) := Along.cons h hes

theorem AllOver.run (h : AllOver start) (hfair : FairRun start es) : AllOver (run start es) :=
  Along.invariant (I := fun _ n => AllOver n) hfair h fun _ _ hover he => hover.step he

theorem firstOfEach_subset (seen : List (List Char)) (rows : List SigRow) :
    firstOfEach seen rows ⊆ rows := by
  induction rows generalizing seen with
  | nil => exact List.Subset.refl _
  | cons row rows ih =>
    rw [firstOfEach]
    split
    · exact List.subset_cons_of_subset _ (ih _)
    · exact List.cons_subset_cons _ (ih _)

theorem mem_sigsByInput {rows : List SigRow} {t : String} {i : Nat}
    (h : row ∈ sigsByInput rows t req i) : row ∈ rows ∧ req.reads row = true ∧
      parseInt (coerceMember (row.payload.get "input_index")) = some (i : Int) := by
  have h := List.mem_filter.mp (firstOfEach_subset _ _ h)
  simp only [Bool.and_eq_true, decide_eq_true_eq] at h
  exact ⟨h.1, h.2.1.1.1.1, h.2.1.1.2⟩

/-- **Every image gets its signatures**, in a run in which everybody is told by the list and finds
its own, and no row is read for an image that it is not over. -/
theorem signs_run (hstart : AllOver start) (hfair : FairRun start es) : Signs start es where
  complete := by
    rintro pre lane relay voter id post rfl req hreq hexp hworks i hi
    obtain ⟨htold, hown⟩ := hfair pre _ post rfl
    rw [run_append]
    exact tick_complete htold hreq hexp (hown req hreq hexp).1 hworks i hi
  excused := by
    rintro pre lane relay voter id post rfl hasked
    rw [run_append]
    exact tick_idle (hfair pre _ post rfl).1 hasked
  counted := by
    intro pre hpre lane t id req ht hreq i row hrow
    obtain ⟨hmem, hreads, hinput⟩ := mem_sigsByInput hrow
    have hover := hstart.run (hfair.initial hpre) id lane req hreq row hmem hreads
    refine ⟨hover.image, ?_⟩
    have h := Option.some.inj (hover.input.symm.trans hinput)
    exact Int.ofNat.inj h

end Runs

/-! ### A settlement by addresses -/

section Sample

def sampleVoter : Voter := ⟨"r", "a", "p"⟩

def sampleRelay : Relay := ⟨true, fun _ => .signature "s", fun _ => true⟩

/-- Three oracles by their addresses; what is asked of them is in the metadata. -/
def sampleMarket (metadata : Meta) : Market :=
  ⟨"m", ["a", "b", "c"], metadata, true, false⟩

def settlement (unanimous : Bool) (image : String) : Meta where
  phase2_tx_obj := some (.str image)
  phase2_unanimous := unanimous
  phase2_silent_oracle_index := some 0
  phase2_spine_input_count := 1
  phase2_winner := some (.num 0)
  refund_disagreement_dispatched_at := false
  refund_disagreement_tx_obj := none
  refund_disagreement_signing_pair := none
  refund_disagreement_silent_oracle_index := none
  refund_disagreement_input_count := 0

def disagreement : Meta where
  phase2_tx_obj := none
  phase2_unanimous := false
  phase2_silent_oracle_index := none
  phase2_spine_input_count := 0
  phase2_winner := none
  refund_disagreement_dispatched_at := true
  refund_disagreement_tx_obj := some (.str "x")
  refund_disagreement_signing_pair := some 0
  refund_disagreement_silent_oracle_index := none
  refund_disagreement_input_count := 1

def emptyNode : Node := ⟨fun _ => none, fun _ => none, []⟩

def sampleNode (metadata : Meta) : Node := run emptyNode [.market (sampleMarket metadata)]

theorem sampleNode_markets {metadata : Meta} {id : String} {m : Market}
    (h : (sampleNode metadata).markets id = some m) : id = "m" ∧ m = sampleMarket metadata := by
  by_cases hid : id = "m"
  · subst hid
    have hsome : (sampleNode metadata).markets "m" = some (sampleMarket metadata) := rfl
    exact ⟨rfl, Option.some.inj (h.symm.trans hsome)⟩
  · have hnone : (sampleNode metadata).markets id = none := Function.update_of_ne hid _ _
    rw [hnone] at h
    cases h

theorem sampleNode_request {unanimous : Bool} {image id : String} {lane : Lane} {req : Request}
    (h : (sampleNode (settlement unanimous image)).request id lane = some req) :
    lane = .settle ∧ req = ⟨"pool_oracle_tx_sig", [keyPattern "market_id" "m"], .str image, 1⟩ := by
  cases lane with
  | settle =>
    obtain ⟨m, hm, hreq⟩ := Option.bind_eq_some_iff.mp h
    obtain ⟨-, rfl⟩ := sampleNode_markets hm
    exact ⟨rfl, (Option.some.inj hreq).symm⟩
  | refund =>
    obtain ⟨m, hm, hreq⟩ := Option.bind_eq_some_iff.mp h
    obtain ⟨-, rfl⟩ := sampleNode_markets hm
    cases hreq
  | offer => cases h

theorem emptyNode_allOver : AllOver emptyNode := by
  intro id lane req h
  cases lane <;> cases h

theorem sample_told (image : String) :
    Told (sampleNode (settlement true image)) sampleVoter "m" .settle := by
  rintro m hm - - i -
  obtain ⟨-, rfl⟩ := sampleNode_markets hm
  have haddr : "a" ∈ ["a", "b", "c"] := List.mem_cons_self
  have hlisted : listed "a" ["a", "b", "c"] = true := by decide +kernel
  exact ⟨fun _ => ⟨rfl, rfl, haddr, hlisted, rfl, rfl⟩, nofun⟩

/-- An oracle signs a unanimous settlement. -/
theorem unanimous_signed : Signs emptyNode
    [.market (sampleMarket (settlement true "x")),
      .tick .settle sampleRelay sampleVoter "m"] := by
  refine signs_run emptyNode_allOver (.cons ?_ (.cons ⟨sample_told "x", fun req hreq _ => ⟨?_, ?_⟩⟩
    .nil))
  · exact fun _ _ _ _ hmem => absurd hmem List.not_mem_nil
  · intro m hm i hi hfound
    obtain ⟨-, rfl⟩ := sampleNode_request hreq
    obtain rfl : i = 0 := Nat.lt_one_iff.mp hi
    rcases hfound with hseen | ⟨k, hk, -⟩
    · cases hseen
    · exact absurd hk (Nat.not_lt_zero k)
  · intro row _ id' lane' req' hreq' _
    rw [(sampleNode_request hreq).2, (sampleNode_request hreq').2]

/-- By its address, the oracle that is excused is not found by its relay id, and signs; one of the
pair is not found either, and never signs; and a second image finds the signature of the first. -/
theorem unsigned_images :
    (¬ Signs emptyNode [.market (sampleMarket (settlement false "x")),
      .tick .settle sampleRelay sampleVoter "m"]) ∧
    (¬ Signs emptyNode [.market (sampleMarket disagreement),
      .tick .refund sampleRelay sampleVoter "m"]) ∧
    ¬ Signs emptyNode [.market (sampleMarket (settlement true "x")),
      .tick .settle sampleRelay sampleVoter "m", .market (sampleMarket (settlement true "y")),
      .tick .settle sampleRelay sampleVoter "m"] := by
  refine ⟨fun h => ?_, fun h => ?_, fun h => ?_⟩
  · have hidle := h.excused [.market (sampleMarket (settlement false "x"))] .settle sampleRelay
      sampleVoter "m" [] rfl ?_
    · exact absurd (congrArg List.length hidle) (by decide +kernel)
    · rintro ⟨-, m, i, hm, hi, hsilent⟩
      obtain ⟨-, rfl⟩ := sampleNode_markets hm
      obtain rfl : i = 0 := (Option.some.inj hi).symm
      cases hsilent
  · obtain ⟨row, hmem, -⟩ := h.complete [.market (sampleMarket disagreement)] .refund sampleRelay
      sampleVoter "m" [] rfl _ rfl ⟨_, 0, rfl, rfl, List.mem_cons_self⟩
      ⟨rfl, fun _ => ⟨_, rfl⟩, fun _ => rfl⟩ 0 Nat.zero_lt_one
    have hnone : (run emptyNode [.market (sampleMarket disagreement),
        .tick .refund sampleRelay sampleVoter "m"]).chain_events = [] :=
      List.eq_nil_iff_length_eq_zero.mpr (by decide +kernel)
    rw [List.cons_append, List.nil_append, hnone] at hmem
    exact absurd hmem List.not_mem_nil
  · obtain ⟨row, hmem, hsigns⟩ := h.complete [.market (sampleMarket (settlement true "x")),
      .tick .settle sampleRelay sampleVoter "m", .market (sampleMarket (settlement true "y"))]
      .settle sampleRelay sampleVoter "m" [] rfl _ rfl ⟨_, 0, rfl, rfl, rfl⟩
      ⟨rfl, fun _ => ⟨_, rfl⟩, fun _ => rfl⟩ 0 Nat.zero_lt_one
    have hold : ∀ row ∈ (run emptyNode [.market (sampleMarket (settlement true "x")),
        .tick .settle sampleRelay sampleVoter "m", .market (sampleMarket (settlement true "y")),
        .tick .settle sampleRelay sampleVoter "m"]).chain_events,
        row.image.map Json.text = some (Json.text (.str "x")) := by
      decide +kernel
    have hx := hold row hmem
    rw [hsigns.image] at hx
    exact absurd (Json.text_inj (Option.some.inj hx)) (by simp)

end Sample

end KANet.Predict.TxSign
