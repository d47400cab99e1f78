import KANet.Lib.Like
import KANet.Lib.Runs
import KANet.Settle.CloseRequests

/-!
# Votes on the second version of a close

`processCloseRequestV2` of `bshard-close-voter.js`, and what the settler collects of it.  A member
checks what it has signed before, lets its enforcement decide, signs the image and writes the
signature into `chain_events`, under an id that is put together from parts of other ids.  Each of
these is a step of its own, since the member waits in between; requests are replaced meanwhile.

* `Safe` — a voter signs one root of a market; a quorum has signed the image of the request; what
  is counted as signed is on record.
* `votes_safe` — a run is safe in which requests that are published again under an old root and
  time keep the image and the committee, ids do not collide, and the ticks of a voter do not
  overlap.
* `other_image` — four signatures for one image are taken for signatures of another.
-/

namespace KANet.Settle.Votes

open KANet.Lib KANet.Settle.Transport

/-! ### Signatures on record -/

structure CollectedSig where
  committee_pk : String
  signature : String
  idx : Option Json
  siblings_hex : Option Json
  verdict : Int
  attestedWinner : Int
  betsRoot : String
  refundRoot : String
  attestedAtMs : Int

/-- The payload of a `bshard_close_sig_v2`. -/
structure SigPayload extends CollectedSig where
  market_id : String
  payout_root : String
  input_index : Nat

/-- `JSON.stringify` leaves out what is undefined. -/
def optional (k : String) (v : Option Json) : List (String × Json) :=
  (v.map fun v => (k, v)).toList

def SigPayload.fields (p : SigPayload) : List (String × Json) :=
  [("t", .str "bshard_close_sig_v2"), ("market_id", .str p.market_id),
    ("committee_pk", .str p.committee_pk), ("payout_root", .str p.payout_root),
    ("input_index", .num p.input_index)] ++
  (optional "idx" p.idx ++ optional "siblings_hex" p.siblings_hex) ++
  [("signature", .str p.signature), ("verdict", .num p.verdict),
    ("attestedWinner", .num p.attestedWinner), ("betsRoot", .str p.betsRoot),
    ("refundRoot", .str p.refundRoot), ("attestedAtMs", .num p.attestedAtMs)]

/-- A row of `chain_events` of this type. -/
structure SigRow where
  txid : String
  from_address : String
  payload : SigPayload
  observed_by : String

def SigRow.text (r : SigRow) : List Char := Json.text (.obj r.payload.fields)

/-- `payload LIKE '%"k":"v"%'` -/
def SigRow.hasField (r : SigRow) (k v : String) : Bool :=
  like (containing ('"' :: (k.toList ++ ['"', ':', '"'] ++ v.toList ++ ['"']))) r.text

/-- The order in which SQLite returns rows; no query here asks for one. -/
structure Scan where
  rows : List SigRow → List SigRow
  perm : ∀ l, (rows l).Perm l

/-! ### A vote -/

/-- A relay with `is_oracle = 1`. -/
structure Voter where
  id : String
  name : String
  address : String

inductive Result
  | signed
  | skipped
  | refused (reason : Option String)
  | errored (reason : Option String)

def first (k : Nat) (s : String) : String := String.ofList (s.toList.take k)

def last (k : Nat) (s : String) : String := String.ofList (s.toList.drop (s.toList.length - k))

def priorSigs (scan : Scan) (events : List SigRow) (voter : Voter) (marketId : String) :
    List SigRow :=
  scan.rows (events.filter fun r =>
    r.from_address = voter.address && r.hasField "market_id" marketId)

/-- What the loop over the earlier signatures returns. -/
def dedup (req : Request) : List SigRow → Option Result
  | [] => none
  | ps :: rest =>
    if ps.payload.payout_root ≠ req.claimedPayoutRoot then
      some (.refused (some ("D1 equivocation(V2): 已对 market 签过不同 root " ++
        first 10 ps.payload.payout_root ++ ", 拒签 " ++ first 10 req.claimedPayoutRoot)))
    else if ps.payload.attestedAtMs = req.new_attestedAtMs then some .skipped
    else dedup req rest

/-- Up to the enforcement; `pubkey` is what the relay answers, if it does. -/
def takeUp (scan : Scan) (events : List SigRow) (voter : Voter) (marketId : String) (req : Request)
    (pubkey : Option String) : Except Result String :=
  match pubkey with
  | none => .error (.errored none)
  | some key =>
    if (lowerCase key).length ≠ 64 then .error .skipped
    else if req.committee_pks ≠ [] ∧ lowerCase key ∉ req.committee_pks.map lowerCase then
      .error .skipped
    else
      match dedup req (priorSigs scan events voter marketId) with
      | some r => .error r
      | none => .ok (lowerCase key)

/-- What `enforceCloseAttestV2` returns; it brings no signature with it. -/
inductive Verdict
  | skip
  | refuse (reason : Option String)
  | pass (verdict : Int) (verifiedTxHash : Option String) (betsRootHex refundRootHex : String)

/-- Whether the input that is signed is at the address of the redeem script. -/
inductive ChainBound
  | landed
  | elsewhere (psAddr : String)
  | failed (message : String)

/-- What the voter is answered: by its enforcement, by the chain and by its relay, which signs the
image or does not. -/
structure Answers where
  enforcement : Except String Verdict
  chainBound : ChainBound
  signature : Except String { s : String // s ≠ "" }

/-- A signature that is not written down yet. -/
structure Held where
  voterPk : String
  signature : { s : String // s ≠ "" }
  verdict : Int
  betsRootHex : String
  refundRootHex : String

/-- From the enforcement to the signature. -/
def sign (blake2bHex : String → String) (req : Request) (voterPk : String) (a : Answers) :
    Except Result Held :=
  match a.enforcement with
  | .error e => .error (.errored (some e))
  | .ok .skip => .error .skipped
  | .ok (.refuse reason) => .error (.refused reason)
  | .ok (.pass verdict verifiedTxHash betsRootHex refundRootHex) =>
    match a.chainBound with
    | .failed e => .error (.errored (some ("命门① chain-bound(V2) check fail: " ++ e)))
    | .elsewhere psAddr =>
      .error (.refused (some ("命门① chain-bound(V2): p2sh(psRedeem)=" ++ first 16 psAddr ++
        " != 被签 PS input 链上地址")))
    | .landed =>
      if (truthy verifiedTxHash).any (· ≠ blake2bHex req.txSafeJson) then
        .error (.refused (some "C3 TOCTOU(V2): 要签 tx hash != enforce verifiedTxHash"))
      else
        match a.signature with
        | .error e => .error (.errored (some e))
        | .ok signature => .ok { voterPk, signature, verdict, betsRootHex, refundRootHex }

def memberMeta (req : Request) (voterPk : String) : MemberMeta :=
  (req.committee_meta.bind (·.get voterPk)).getD ⟨none, none⟩

def payloadOf (marketId : String) (req : Request) (h : Held) : SigPayload where
  market_id := marketId
  committee_pk := h.voterPk
  payout_root := req.claimedPayoutRoot
  input_index := req.input_index
  idx := (memberMeta req h.voterPk).idx
  siblings_hex := (memberMeta req h.voterPk).siblings_hex
  signature := h.signature
  verdict := h.verdict
  attestedWinner := req.new_attestedWinner
  betsRoot := h.betsRootHex
  refundRoot := h.refundRootHex
  attestedAtMs := req.new_attestedAtMs

def synthTxid (voter : Voter) (marketId : String) (req : Request) : String :=
  "bshard_close_sig_v2:" ++ first 8 voter.id ++ ":" ++ last 6 marketId ++ ":" ++
    first 8 req.claimedPayoutRoot ++ ":" ++ last 8 (toString req.new_attestedAtMs)

def rowOf (voter : Voter) (marketId : String) (req : Request) (h : Held) : SigRow where
  txid := synthTxid voter marketId req
  from_address := voter.address
  payload := payloadOf marketId req h
  observed_by := voter.id

/-- `INSERT OR IGNORE INTO chain_events`, if it changes anything: the id and the type of a row are
unique. -/
def insertOrIgnore (events : List SigRow) (row : SigRow) : Option (List SigRow) :=
  if row.txid ∈ events.map SigRow.txid then none else some (events ++ [row])

/-- The end of `processCloseRequestV2`. -/
def store (events : List SigRow) (voter : Voter) (marketId : String) (req : Request) (h : Held) :
    List SigRow × Result :=
  match insertOrIgnore events (rowOf voter marketId req h) with
  | some events' => (events', .signed)
  | none =>
    if synthTxid voter marketId req ∈ events.map SigRow.txid then (events, .signed)
    else
      (events, .errored (some ("sig INSERT changes=0 且该 txid 查无此行 — 静默失败(非幂等重复), " ++
        "不能计入 signed")))

/-! ### What the settler collects -/

def QUORUM : Nat := 4

/-- One more row for `byPk`. -/
def addSig (sigs : List CollectedSig) (p : SigPayload) : List CollectedSig :=
  if p.committee_pk ≠ "" ∧ p.signature ≠ "" ∧ p.committee_pk ∉ sigs.map CollectedSig.committee_pk
    then sigs ++ [p.toCollectedSig] else sigs

def collectCloseSigsV2 (scan : Scan) (events : List SigRow) (marketId payoutRoot : String)
    (attestedAtMs : Option Int) : List CollectedSig :=
  (((scan.rows (events.filter fun r =>
    r.hasField "market_id" marketId && r.hasField "payout_root" payoutRoot)).map
      SigRow.payload).filter fun p => attestedAtMs.all (p.attestedAtMs = ·)).foldl addSig []

def ready (sigs : List CollectedSig) : Bool := QUORUM ≤ sigs.length

structure WitnessSlot where
  pk_hex : String
  sig_hex : String
  idx : Option Json
  siblings_hex : Option Json

def witnessSlot (committeeMeta : Option (OrderedMap String MemberMeta)) (sigs : List CollectedSig)
    (pk : String) : WitnessSlot :=
  match sigs.find? fun x => lowerCase x.committee_pk = lowerCase pk with
  | some s => ⟨pk, s.signature, s.idx, s.siblings_hex⟩
  | none =>
    ⟨pk, "00", (committeeMeta.bind (·.get pk)).bind MemberMeta.idx,
      (committeeMeta.bind (·.get pk)).bind MemberMeta.siblings_hex⟩

def buildCommitteeWitness (committeePks : List String)
    (committeeMeta : Option (OrderedMap String MemberMeta)) (sigs : List CollectedSig) :
    List WitnessSlot :=
  committeePks.map (witnessSlot committeeMeta sigs)

/-! ### Ticks over the markets -/

/-- How far a vote has got. -/
inductive Stage
  | read
  | checked (voterPk : String)
  | holding (held : Held)
  | counted (held : Held)
  | ended (r : Result)

/-- A voter's vote on the request that its tick read at the start. -/
structure Vote where
  voter : Voter
  market : String
  req : Request
  stage : Stage

/-- The markets, the signatures on record, and all votes so far, those in flight included. -/
structure Node where
  markets : Markets
  chain_events : List SigRow
  votes : List Vote

/-- The pending requests of a tick. -/
def pendingV2 (t : Markets) : List (String × Request) :=
  t.rows.filterMap fun m =>
    if m.protocol_version = "v0.7" ∧ m.protocol_status = .collecting_sigs ∧ m.zk_native then
      (m.request.filter (·.txSafeJson ≠ "")).map fun r => (m.id, r)
    else none

/-- The votes of a tick. -/
def taken (voterRelays : List Voter) (t : Markets) : List Vote :=
  (pendingV2 t).flatMap fun p => voterRelays.map fun voter => ⟨voter, p.1, p.2, .read⟩

/-- What happens between two awaits.  Votes are told apart by their number. -/
inductive Event
  | publishCloseRequestV2 (marketId : String) (req : NewRequest)
  | tick (voterRelays : List Voter)
  | takeUp (vote : Nat) (pubkey : Option String)
  | sign (vote : Nat) (answers : Answers)
  | store (vote : Nat)
  | markSubmittedV2 (marketId txid psContAddress : String)
  | clearCloseRequest (marketId : String) (finalStatus : MarketStatus)

def Node.setStage (n : Node) (i : Nat) (s : Stage) : Node :=
  { n with votes := n.votes.modify i fun v => { v with stage := s } }

section Steps

variable (blake2bHex : String → String) (scan : Scan)

def stageOf : Except Result Stage → Stage
  | .ok s => s
  | .error r => .ended r

/-- The stage of a vote after its next step, up to the signature. -/
def takeUpVote (n : Node) (v : Vote) (pubkey : Option String) : Stage :=
  match v.stage with
  | .read => stageOf ((takeUp scan n.chain_events v.voter v.market v.req pubkey).map .checked)
  | s => s

def signVote (v : Vote) (a : Answers) : Stage :=
  match v.stage with
  | .checked voterPk => stageOf ((sign blake2bHex v.req voterPk a).map .holding)
  | s => s

def storeVote (n : Node) (i : Nat) (v : Vote) : Node :=
  match v.stage with
  | .holding held =>
    match store n.chain_events v.voter v.market v.req held with
    | (events, .signed) => { n with chain_events := events }.setStage i (.counted held)
    | (events, r) => { n with chain_events := events }.setStage i (.ended r)
  | _ => n

def step (n : Node) : Event → Node
  | .publishCloseRequestV2 marketId req =>
    match publishCloseRequestV2 n.markets marketId req with
    | .ok t => { n with markets := t }
    | .error _ => n
  | .tick voterRelays => { n with votes := n.votes ++ taken voterRelays n.markets }
  | .takeUp i pubkey =>
    match n.votes[i]? with
    | some v => n.setStage i (takeUpVote scan n v pubkey)
    | none => n
  | .sign i a =>
    match n.votes[i]? with
    | some v => n.setStage i (signVote blake2bHex v a)
    | none => n
  | .store i =>
    match n.votes[i]? with
    | some v => storeVote n i v
    | none => n
  | .markSubmittedV2 marketId txid psContAddress =>
    { n with markets := markSubmittedV2 n.markets marketId txid psContAddress }
  | .clearCloseRequest marketId finalStatus =>
    { n with markets := clearCloseRequest n.markets marketId finalStatus }

end Steps

/-! ### Safety -/

/-- The signature that a vote has made. -/
def Stage.held : Stage → Option Held
  | .holding h => some h
  | .counted h => some h
  | _ => none

def Vote.row (v : Vote) (h : Held) : SigRow := rowOf v.voter v.market v.req h

/-- What the settler collects for a request. -/
def collected (scan : Scan) (n : Node) (marketId : String) (req : Request) : List CollectedSig :=
  collectCloseSigsV2 scan n.chain_events marketId req.claimedPayoutRoot
    (some req.new_attestedAtMs)

/-- Four members have signed the image of the request, and their signatures are in their slots. -/
def Quorum (n : Node) (req : Request) (sigs : List CollectedSig) : Prop :=
  ∃ members : List String, QUORUM ≤ members.length ∧ members.Nodup ∧
    ∀ pk ∈ members, pk ∈ req.committee_pks ∧ ∃ v ∈ n.votes, ∃ h, v.stage.held = some h ∧
      h.voterPk = pk ∧ v.req.txSafeJson = req.txSafeJson ∧
      ∀ slot ∈ buildCommitteeWitness req.committee_pks req.committee_meta sigs,
        slot.pk_hex = pk → slot.sig_hex = h.signature

structure Safe (scan : Scan) (n : Node) : Prop where
  oneRoot : ∀ v ∈ n.votes, ∀ w ∈ n.votes, v.voter.address = w.voter.address →
    v.market = w.market → v.stage.held.isSome → w.stage.held.isSome →
    v.req.claimedPayoutRoot = w.req.claimedPayoutRoot
  quorum : ∀ marketId req, requestOf n.markets marketId = some req →
    ready (collected scan n marketId req) = true →
    Quorum n req (collected scan n marketId req)
  stored : ∀ v ∈ n.votes, ∀ h, v.stage = .counted h → v.row h ∈ n.chain_events ∧
    ∃ s ∈ collected scan n v.market v.req, s.committee_pk = h.voterPk ∧ s.signature = h.signature

/-! ### The condition -/

/-- JSON writes the text as it is. -/
def Plain (s : String) : Prop := ∀ c ∈ s.toList, Json.escape c = none

instance (s : String) : Decidable (Plain s) :=
  List.decidableBAll (fun c => Json.escape c = none) s.toList

/-- The search for the signatures of a request finds the row. -/
def Finds (marketId : String) (req : Request) (r : SigRow) : Prop :=
  r.hasField "market_id" marketId = true ∧
    r.hasField "payout_root" req.claimedPayoutRoot = true ∧
    r.payload.attestedAtMs = req.new_attestedAtMs

/-- Whether a vote is between its check and its end. -/
def Stage.busy : Stage → Bool
  | .checked _ => true
  | .holding _ => true
  | _ => false

/-- If the search finds the signature, it is by a member and for the same image. -/
def Fits (marketId : String) (req : Request) (v : Vote) (h : Held) : Prop :=
  Finds marketId req (v.row h) →
    v.req.txSafeJson = req.txSafeJson ∧ h.voterPk ∈ req.committee_pks

/-- A request names a committee, and what was signed under its root and time fits it. -/
def CleanRequest (n : Node) (marketId : String) (req : Request) : Prop :=
  Plain marketId ∧ Plain req.claimedPayoutRoot ∧ req.committee_pks ≠ [] ∧
    ∀ v ∈ n.votes, ∀ h, v.stage = .counted h → Fits marketId req v h

/-- No other vote of the voter for this market is under way. -/
def Alone (n : Node) (v : Vote) : Prop :=
  ∀ w ∈ n.votes, w.stage.busy = true → w.voter.address = v.voter.address → w.market ≠ v.market

/-- The id of the signature is free, it fits the requests that are open, and no other signature by
the same key is mistaken for it. -/
structure CleanStore (n : Node) (v : Vote) (h : Held) : Prop where
  free : ∀ r ∈ n.chain_events, r.txid ≠ synthTxid v.voter v.market v.req
  fits : ∀ marketId req, requestOf n.markets marketId = some req → Fits marketId req v h
  own : ∀ r ∈ n.chain_events, Finds v.market v.req r → r.payload.committee_pk ≠ h.voterPk
  others : ∀ w ∈ n.votes, ∀ h', w.stage = .counted h' → Finds w.market w.req (v.row h) →
    h.voterPk ≠ h'.voterPk

def Clean (n : Node) : Event → Prop
  | .publishCloseRequestV2 marketId req => ∀ r, newRequest req = .ok r → CleanRequest n marketId r
  | .takeUp i _ => ∀ v, n.votes[i]? = some v → v.stage = .read → Alone n v
  | .store i => ∀ v h, n.votes[i]? = some v → v.stage = .holding h → CleanStore n v h
  | _ => True

def CleanStep (blake2bHex : String → String) (scan : Scan) (n : Node) (e : Event) (n' : Node) :
    Prop :=
  Clean n e ∧ step blake2bHex scan n e = n'

/-- A node that has published nothing. -/
structure Fresh (n : Node) : Prop where
  requests : ∀ marketId, requestOf n.markets marketId = none
  chain_events : n.chain_events = []
  votes : n.votes = []

/-! ### What a search finds -/

theorem text_contains {p : SigPayload} {k v : String} (hk : Plain k) (hv : Plain v)
    (h : (k, Json.str v) ∈ p.fields) :
    '"' :: (k.toList ++ ['"', ':', '"'] ++ v.toList ++ ['"']) <:+: Json.text (.obj p.fields) := by
  have hin := Json.member_within h true
  rw [Json.quote_plain hk, Json.text, Json.quote_plain hv] at hin
  rw [Json.text]
  refine List.IsInfix.trans ?_ (List.suffix_cons _ _).isInfix
  simpa using hin

theorem hasField_row {marketId : String} {req : Request} {voter : Voter} {h : Held}
    (hm : Plain marketId) (hr : Plain req.claimedPayoutRoot) :
    (rowOf voter marketId req h).hasField "market_id" marketId = true ∧
      (rowOf voter marketId req h).hasField "payout_root" req.claimedPayoutRoot = true := by
  refine ⟨like_containing (text_contains (by decide +kernel) hm ?_),
    like_containing (text_contains (by decide +kernel) hr ?_)⟩
  · simp [SigPayload.fields, rowOf, payloadOf]
  · simp [SigPayload.fields, rowOf, payloadOf]

/-- A signature is found by its own request. -/
theorem finds_own {v : Vote} {h : Held} (hm : Plain v.market)
    (hr : Plain v.req.claimedPayoutRoot) : Finds v.market v.req (v.row h) :=
  ⟨(hasField_row hm hr).1, (hasField_row hm hr).2, rfl⟩

theorem mem_addSig {sigs : List CollectedSig} {p : SigPayload} {s : CollectedSig}
    (h : s ∈ addSig sigs p) : s ∈ sigs ∨ s = p.toCollectedSig := by
  unfold addSig at h
  split at h
  · simpa using h
  · exact Or.inl h

theorem mem_foldl_addSig {ps : List SigPayload} {sigs : List CollectedSig} {s : CollectedSig}
    (h : s ∈ ps.foldl addSig sigs) : s ∈ sigs ∨ ∃ p ∈ ps, s = p.toCollectedSig := by
  induction ps generalizing sigs with
  | nil => exact Or.inl h
  | cons p ps ih =>
    rcases ih h with h | ⟨q, hq, rfl⟩
    · rcases mem_addSig h with h | rfl
      · exact Or.inl h
      · exact Or.inr ⟨p, by simp, rfl⟩
    · exact Or.inr ⟨q, by simp [hq], rfl⟩

theorem nodup_foldl_addSig {ps : List SigPayload} {sigs : List CollectedSig}
    (h : (sigs.map CollectedSig.committee_pk).Nodup) :
    ((ps.foldl addSig sigs).map CollectedSig.committee_pk).Nodup := by
  induction ps generalizing sigs with
  | nil => exact h
  | cons p ps ih =>
    refine ih ?_
    unfold addSig
    split
    · next hp =>
      rw [List.map_append, List.map_singleton]
      exact h.append (List.nodup_singleton _) (by simpa using hp.2.2)
    · exact h

theorem addSig_mono {sigs : List CollectedSig} {p : SigPayload} {pk : String}
    (h : pk ∈ sigs.map CollectedSig.committee_pk) :
    pk ∈ (addSig sigs p).map CollectedSig.committee_pk := by
  unfold addSig
  split
  · rw [List.map_append]
    exact List.mem_append_left _ h
  · exact h

theorem foldl_addSig_mono {ps : List SigPayload} {sigs : List CollectedSig} {pk : String}
    (h : pk ∈ sigs.map CollectedSig.committee_pk) :
    pk ∈ (ps.foldl addSig sigs).map CollectedSig.committee_pk := by
  induction ps generalizing sigs with
  | nil => exact h
  | cons p ps ih => exact ih (addSig_mono h)

theorem key_foldl_addSig {ps : List SigPayload} {sigs : List CollectedSig} {p : SigPayload}
    (h : p ∈ ps) (hpk : p.committee_pk ≠ "") (hsig : p.signature ≠ "") :
    p.committee_pk ∈ (ps.foldl addSig sigs).map CollectedSig.committee_pk := by
  induction ps generalizing sigs with
  | nil => cases h
  | cons q ps ih =>
    rw [List.foldl_cons]
    rcases List.mem_cons.mp h with rfl | h
    · refine foldl_addSig_mono ?_
      unfold addSig
      split
      · simp
      · next hno => simpa [hpk, hsig] using hno
    · exact ih h

section

variable {scan : Scan} {n : Node} {marketId : String} {req : Request}

theorem mem_collected {s : CollectedSig} (h : s ∈ collected scan n marketId req) :
    ∃ r ∈ n.chain_events, Finds marketId req r ∧ s = r.payload.toCollectedSig := by
  rcases mem_foldl_addSig h with h | ⟨p, hp, rfl⟩
  · cases h
  · obtain ⟨hp, ht⟩ := List.mem_filter.mp hp
    obtain ⟨r, hr, rfl⟩ := List.mem_map.mp hp
    rw [(scan.perm _).mem_iff, List.mem_filter, Bool.and_eq_true] at hr
    exact ⟨r, hr.1, ⟨hr.2.1, hr.2.2, by simpa using ht⟩, rfl⟩

theorem collected_nodup :
    ((collected scan n marketId req).map CollectedSig.committee_pk).Nodup :=
  nodup_foldl_addSig List.nodup_nil

theorem key_collected {r : SigRow} (h : r ∈ n.chain_events) (hf : Finds marketId req r)
    (hpk : r.payload.committee_pk ≠ "") (hsig : r.payload.signature ≠ "") :
    ∃ s ∈ collected scan n marketId req, s.committee_pk = r.payload.committee_pk := by
  refine List.mem_map.mp (key_foldl_addSig (List.mem_filter.mpr
    ⟨List.mem_map_of_mem ((scan.perm _).mem_iff.mpr (List.mem_filter.mpr ⟨h, ?_⟩)), ?_⟩) hpk hsig)
  · simp [hf.1, hf.2.1]
  · simp [hf.2.2]

end

/-! ### The invariant -/

/-- The key of a vote that is past its check. -/
def Stage.pk : Stage → Option String
  | .checked pk => some pk
  | .holding h => some h.voterPk
  | .counted h => some h.voterPk
  | _ => none

/-- A request whose signatures are found again. -/
structure Readable (marketId : String) (req : Request) : Prop where
  market : Plain marketId
  root : Plain req.claimedPayoutRoot
  committee : req.committee_pks ≠ []
  lower : ∃ pks : List String, req.committee_pks = pks.map lowerCase

theorem Readable.lower_eq {marketId pk : String} {req : Request} (h : Readable marketId req)
    (hpk : pk ∈ req.committee_pks) : lowerCase pk = pk := by
  obtain ⟨pks, hpks⟩ := h.lower
  rw [hpks] at hpk
  obtain ⟨p, -, rfl⟩ := List.mem_map.mp hpk
  exact lowerCase_lowerCase p

structure Inv (n : Node) : Prop where
  requests : ∀ marketId req, requestOf n.markets marketId = some req → Readable marketId req
  readable : ∀ v ∈ n.votes, Readable v.market v.req
  member : ∀ v ∈ n.votes, ∀ pk, v.stage.pk = some pk → pk ≠ "" ∧ pk ∈ v.req.committee_pks
  alone : ∀ (i j : Nat) (v w : Vote), n.votes[i]? = some v → n.votes[j]? = some w →
    v.stage.busy = true →
    w.stage.busy = true → v.voter.address = w.voter.address → v.market = w.market → i = j
  agrees : ∀ v ∈ n.votes, ∀ w ∈ n.votes, ∀ h, v.stage.pk.isSome → w.stage = .counted h →
    v.voter.address = w.voter.address → v.market = w.market →
    v.req.claimedPayoutRoot = w.req.claimedPayoutRoot
  rows : ∀ r ∈ n.chain_events, ∃ v ∈ n.votes, ∃ h, v.stage = .counted h ∧ r = v.row h
  onRecord : ∀ v ∈ n.votes, ∀ h, v.stage = .counted h → v.row h ∈ n.chain_events
  fits : ∀ marketId req, requestOf n.markets marketId = some req →
    ∀ v ∈ n.votes, ∀ h, v.stage = .counted h → Fits marketId req v h
  own : ∀ v ∈ n.votes, ∀ h, v.stage = .counted h → ∀ r ∈ n.chain_events,
    Finds v.market v.req r → r.payload.committee_pk = h.voterPk → r = v.row h

theorem Fresh.inv {n : Node} (h : Fresh n) : Inv n := by
  refine ⟨?_, ?_, ?_, ?_, ?_, ?_, ?_, ?_, ?_⟩ <;>
    simp [h.requests, h.chain_events, h.votes]

/-! ### What a vote goes through -/

theorem dedup_eq_none {req : Request} {rs : List SigRow} (h : dedup req rs = none) :
    ∀ r ∈ rs, r.payload.payout_root = req.claimedPayoutRoot := by
  induction rs with
  | nil => simp
  | cons ps rest ih =>
    rw [dedup] at h
    split at h
    · cases h
    · next hroot =>
      split at h
      · cases h
      · intro r hr
        rcases List.mem_cons.mp hr with rfl | hr
        · simpa using hroot
        · exact ih h r hr

theorem takeUp_eq_ok {scan : Scan} {events : List SigRow} {voter : Voter} {marketId pk : String}
    {req : Request} {pubkey : Option String}
    (h : takeUp scan events voter marketId req pubkey = .ok pk) :
    pk ≠ "" ∧ (req.committee_pks ≠ [] → pk ∈ req.committee_pks.map lowerCase) ∧
      ∀ r ∈ events, r.from_address = voter.address → r.hasField "market_id" marketId = true →
        r.payload.payout_root = req.claimedPayoutRoot := by
  unfold takeUp at h
  split at h
  · cases h
  · next key =>
    split at h
    · cases h
    · next hlen =>
      split at h
      · cases h
      · next hmem =>
        split at h
        · cases h
        · next hdedup =>
          cases h
          refine ⟨?_, ?_, ?_⟩
          · intro hempty
            rw [hempty] at hlen
            exact hlen (by decide)
          · intro hc
            by_contra hno
            exact hmem ⟨hc, hno⟩
          · intro r hr ha hf
            refine dedup_eq_none hdedup r ((scan.perm _).mem_iff.mpr (List.mem_filter.mpr ⟨hr, ?_⟩))
            simp [ha, hf]

theorem sign_eq_ok {blake2bHex : String → String} {req : Request} {voterPk : String} {a : Answers}
    {held : Held} (h : sign blake2bHex req voterPk a = .ok held) : held.voterPk = voterPk := by
  unfold sign at h
  split at h
  · cases h
  · cases h
  · cases h
  · split at h
    · cases h
    · cases h
    · split at h
      · cases h
      · split at h
        · cases h
        · cases h
          rfl

theorem mem_taken {voterRelays : List Voter} {t : Markets} {v : Vote}
    (h : v ∈ taken voterRelays t) : v.stage = .read ∧ requestOf t v.market = some v.req := by
  obtain ⟨p, hp, hv⟩ := List.mem_flatMap.mp h
  obtain ⟨voter, -, rfl⟩ := List.mem_map.mp hv
  refine ⟨rfl, ?_⟩
  obtain ⟨m, hm, hreq⟩ := List.mem_filterMap.mp hp
  split at hreq
  · obtain ⟨r, hr, rfl⟩ := Option.map_eq_some_iff.mp hreq
    rw [requestOf, Table.get_of_mem hm]
    exact (Option.filter_eq_some_iff.mp hr).1
  · cases hreq

section Stages

variable {n : Node} {i : Nat} {s : Stage}

theorem getElem?_setStage (n : Node) (i j : Nat) (s : Stage) :
    (n.setStage i s).votes[j]? =
      n.votes[j]?.map fun v => if i = j then { v with stage := s } else v := by
  rw [Node.setStage, List.getElem?_modify]
  rfl

theorem setStage_self {v : Vote} (h : n.votes[i]? = some v) : n.setStage i v.stage = n := by
  have hvotes : (n.setStage i v.stage).votes = n.votes := by
    apply List.ext_getElem?
    intro j
    rw [getElem?_setStage]
    by_cases hj : i = j
    · subst hj
      simp [h]
    · simp [hj]
  obtain ⟨markets, events, votes⟩ := n
  simp only [Node.setStage] at hvotes ⊢
  rw [hvotes]

/-- A vote is the one that moved, or another that was there before. -/
theorem mem_setStage {v : Vote} (h : v ∈ (n.setStage i s).votes) :
    (∃ j, j ≠ i ∧ n.votes[j]? = some v) ∨
      ∃ u, n.votes[i]? = some u ∧ v = { u with stage := s } := by
  obtain ⟨j, hj⟩ := List.mem_iff_getElem?.mp h
  rw [getElem?_setStage] at hj
  obtain ⟨u, hu, rfl⟩ := Option.map_eq_some_iff.mp hj
  by_cases hij : i = j
  · subst hij
    exact Or.inr ⟨u, hu, by simp⟩
  · exact Or.inl ⟨j, Ne.symm hij, by simp [hij, hu]⟩

theorem mem_setStage_of_ne {v u : Vote} {h : Held} (hv : v ∈ n.votes) (hs : v.stage = .counted h)
    (hu : n.votes[i]? = some u) (hne : ∀ h, u.stage ≠ .counted h) :
    v ∈ (n.setStage i s).votes := by
  obtain ⟨j, hj⟩ := List.mem_iff_getElem?.mp hv
  refine List.mem_iff_getElem?.mpr ⟨j, ?_⟩
  rw [getElem?_setStage, hj]
  by_cases hij : i = j
  · subst hij
    rw [hu] at hj
    obtain rfl := Option.some.inj hj
    exact absurd hs (hne h)
  · simp [hij]

end Stages

/-! ### What a step keeps -/

section Keep

variable {n : Node} {i : Nat} {u : Vote} {s : Stage}

/-- A vote that moves without its signature being written. -/
theorem Inv.setStage (h : Inv n) (hu : n.votes[i]? = some u)
    (hnot : ∀ held, u.stage ≠ .counted held) (hs : ∀ held, s ≠ .counted held)
    (hpk : ∀ pk, s.pk = some pk → pk ≠ "" ∧ pk ∈ u.req.committee_pks)
    (halone : s.busy = true → ∀ j w, j ≠ i → n.votes[j]? = some w → w.stage.busy = true →
      w.voter.address = u.voter.address → w.market ≠ u.market)
    (hroot : s.pk.isSome → ∀ w ∈ n.votes, ∀ held, w.stage = .counted held →
      u.voter.address = w.voter.address → u.market = w.market →
      u.req.claimedPayoutRoot = w.req.claimedPayoutRoot) : Inv (n.setStage i s) := by
  -- what is counted was counted before
  have hold : ∀ v ∈ (n.setStage i s).votes, ∀ held, v.stage = .counted held → v ∈ n.votes := by
    intro v hv held hc
    rcases mem_setStage hv with ⟨j, -, hj⟩ | ⟨u', -, rfl⟩
    · exact List.mem_of_getElem? hj
    · exact absurd hc (hs held)
  have hmem : u ∈ n.votes := List.mem_of_getElem? hu
  refine ⟨h.requests, ?_, ?_, ?_, ?_, ?_, ?_, ?_, ?_⟩
  · intro v hv
    rcases mem_setStage hv with ⟨j, -, hj⟩ | ⟨u', hu', rfl⟩
    · exact h.readable v (List.mem_of_getElem? hj)
    · exact h.readable u' (List.mem_of_getElem? hu')
  · intro v hv pk hvpk
    rcases mem_setStage hv with ⟨j, -, hj⟩ | ⟨u', hu', rfl⟩
    · exact h.member v (List.mem_of_getElem? hj) pk hvpk
    · obtain rfl := Option.some.inj (hu.symm.trans hu')
      exact hpk pk hvpk
  · intro j k v w hv hw hvb hwb ha hm
    rw [getElem?_setStage] at hv hw
    obtain ⟨v', hv', rfl⟩ := Option.map_eq_some_iff.mp hv
    obtain ⟨w', hw', rfl⟩ := Option.map_eq_some_iff.mp hw
    by_cases hj : i = j
    · by_cases hk : i = k
      · exact hj.symm.trans hk
      · subst hj
        obtain rfl := Option.some.inj (hu.symm.trans hv')
        simp only [if_true, hk, if_false] at hvb hwb ha hm
        exact absurd hm.symm (halone hvb k w' (Ne.symm hk) hw' hwb ha.symm)
    · by_cases hk : i = k
      · subst hk
        obtain rfl := Option.some.inj (hu.symm.trans hw')
        simp only [if_true, hj, if_false] at hvb hwb ha hm
        exact absurd hm (halone hwb j v' (Ne.symm hj) hv' hvb ha)
      · simp only [hj, hk, if_false] at hvb hwb ha hm
        exact h.alone j k v' w' hv' hw' hvb hwb ha hm
  · intro v hv w hw held hvpk hc ha hm
    have hw' := hold w hw held hc
    rcases mem_setStage hv with ⟨j, -, hj⟩ | ⟨u', hu', rfl⟩
    · exact h.agrees v (List.mem_of_getElem? hj) w hw' held hvpk hc ha hm
    · obtain rfl := Option.some.inj (hu.symm.trans hu')
      exact hroot hvpk w hw' held hc ha hm
  · intro r hr
    obtain ⟨v, hv, held, hc, hrow⟩ := h.rows r hr
    exact ⟨v, mem_setStage_of_ne hv hc hu hnot, held, hc, hrow⟩
  · intro v hv held hc
    exact h.onRecord v (hold v hv held hc) held hc
  · intro marketId req hreq v hv held hc
    exact h.fits marketId req hreq v (hold v hv held hc) held hc
  · intro v hv held hc
    exact h.own v (hold v hv held hc) held hc

theorem Inv.ended (h : Inv n) (hu : n.votes[i]? = some u)
    (hnot : ∀ held, u.stage ≠ .counted held) (r : Result) : Inv (n.setStage i (.ended r)) := by
  refine h.setStage hu hnot ?_ ?_ ?_ ?_ <;> simp [Stage.pk, Stage.busy]

theorem Inv.takeUp {scan : Scan} {pubkey : Option String} (h : Inv n) (hu : n.votes[i]? = some u)
    (hclean : u.stage = .read → Alone n u) : Inv (n.setStage i (takeUpVote scan n u pubkey)) := by
  cases hs : u.stage with
  | read =>
    rw [takeUpVote, hs]
    dsimp only
    have hnot : ∀ held, u.stage ≠ .counted held := by simp [hs]
    cases ha : Votes.takeUp scan n.chain_events u.voter u.market u.req pubkey with
    | error r => exact h.ended hu hnot r
    | ok pk =>
      have hread := h.readable u (List.mem_of_getElem? hu)
      obtain ⟨hne, hmem, hprior⟩ := takeUp_eq_ok ha
      refine h.setStage hu hnot (by simp [Except.map, stageOf]) ?_ ?_ ?_
      · intro pk' hpk'
        obtain rfl := Option.some.inj hpk'
        obtain ⟨p, hp, hlow⟩ := List.mem_map.mp (hmem hread.committee)
        rw [hread.lower_eq hp] at hlow
        exact ⟨hne, hlow ▸ hp⟩
      · intro _ j w _ hw hwb haddr
        exact hclean hs w (List.mem_of_getElem? hw) hwb haddr
      · intro _ w hw held hc haddr hmarket
        have hr := h.onRecord w hw held hc
        have hw' := h.readable w hw
        refine (hprior (w.row held) hr haddr.symm ?_).symm
        rw [hmarket]
        exact (hasField_row hw'.market hw'.root).1
  | _ =>
    have hsame : takeUpVote scan n u pubkey = u.stage := by simp [takeUpVote, hs]
    rw [hsame, setStage_self hu]
    exact h

theorem Inv.sign {blake2bHex : String → String} {a : Answers} (h : Inv n)
    (hu : n.votes[i]? = some u) : Inv (n.setStage i (signVote blake2bHex u a)) := by
  cases hs : u.stage with
  | checked pk =>
    rw [signVote, hs]
    dsimp only
    have hnot : ∀ held, u.stage ≠ .counted held := by simp [hs]
    have hmem := List.mem_of_getElem? hu
    cases ha : Votes.sign blake2bHex u.req pk a with
    | error r => exact h.ended hu hnot r
    | ok held =>
      have hkey := sign_eq_ok ha
      refine h.setStage hu hnot (by simp [Except.map, stageOf]) ?_ ?_ ?_
      · intro pk' hpk'
        obtain rfl := Option.some.inj hpk'
        rw [hkey]
        exact h.member u hmem pk (by rw [hs]; rfl)
      · intro _ j w hj hw hwb haddr hmarket
        exact hj (h.alone j i w u hw hu hwb (by rw [hs]; rfl) haddr hmarket)
      · intro _ w hw held' hc
        exact h.agrees u hmem w hw held' (by rw [hs]; rfl) hc
  | _ =>
    have hsame : signVote blake2bHex u a = u.stage := by simp [signVote, hs]
    rw [hsame, setStage_self hu]
    exact h

/-- A signature that is written down. -/
theorem Inv.counted {held : Held} (h : Inv n) (hu : n.votes[i]? = some u)
    (hs : u.stage = .holding held) (hclean : CleanStore n u held) :
    Inv ({ n with chain_events := n.chain_events ++ [u.row held] }.setStage i
      (.counted held)) := by
  have hmem : u ∈ n.votes := List.mem_of_getElem? hu
  have hbusy : u.stage.busy = true := by rw [hs]; rfl
  have hpk : u.stage.pk = some held.voterPk := by rw [hs]; rfl
  have hnot : ∀ held, u.stage ≠ .counted held := by simp [hs]
  have hold : ∀ v ∈ ({ n with chain_events := n.chain_events ++ [u.row held] }.setStage i
      (.counted held)).votes, (∃ j, j ≠ i ∧ n.votes[j]? = some v) ∨
        v = { u with stage := .counted held } := by
    intro v hv
    rcases mem_setStage hv with hj | ⟨u', hu', rfl⟩
    · exact Or.inl hj
    · obtain rfl := Option.some.inj (hu.symm.trans hu')
      exact Or.inr rfl
  refine ⟨h.requests, ?_, ?_, ?_, ?_, ?_, ?_, ?_, ?_⟩
  · intro v hv
    rcases hold v hv with ⟨j, -, hj⟩ | rfl
    · exact h.readable v (List.mem_of_getElem? hj)
    · exact h.readable u hmem
  · intro v hv pk hvpk
    rcases hold v hv with ⟨j, -, hj⟩ | rfl
    · exact h.member v (List.mem_of_getElem? hj) pk hvpk
    · exact h.member u hmem pk (hpk.trans hvpk)
  · intro j k v w hv hw hvb hwb ha hm
    rw [getElem?_setStage] at hv hw
    obtain ⟨v', hv', rfl⟩ := Option.map_eq_some_iff.mp hv
    obtain ⟨w', hw', rfl⟩ := Option.map_eq_some_iff.mp hw
    by_cases hj : i = j
    · simp [hj, Stage.busy] at hvb
    · by_cases hk : i = k
      · simp [hk, Stage.busy] at hwb
      · simp only [hj, hk, if_false] at hvb hwb ha hm
        exact h.alone j k v' w' hv' hw' hvb hwb ha hm
  · intro v hv w hw held' hvpk hc ha hm
    rcases hold v hv with ⟨j, hj, hvj⟩ | rfl
    · rcases hold w hw with ⟨k, -, hwk⟩ | rfl
      · exact h.agrees v (List.mem_of_getElem? hvj) w (List.mem_of_getElem? hwk) held' hvpk hc ha hm
      · -- the other vote is not under way, so it is counted
        have hv' := List.mem_of_getElem? hvj
        cases hvs : v.stage with
        | counted heldv => exact (h.agrees u hmem v hv' heldv (by simp [hpk]) hvs ha.symm hm.symm).symm
        | read => simp [hvs, Stage.pk] at hvpk
        | ended r => simp [hvs, Stage.pk] at hvpk
        | _ => exact absurd (h.alone j i v u hvj hu (by rw [hvs]; rfl) hbusy ha hm) hj
    · rcases hold w hw with ⟨k, -, hwk⟩ | rfl
      · exact h.agrees u hmem w (List.mem_of_getElem? hwk) held' (by simp [hpk]) hc ha hm
      · rfl
  · intro r hr
    rcases List.mem_append.mp hr with hr | hr
    · obtain ⟨v, hv, held', hc, hrow⟩ := h.rows r hr
      exact ⟨v, mem_setStage_of_ne hv hc hu hnot, held', hc, hrow⟩
    · refine ⟨{ u with stage := .counted held }, ?_, held, rfl, List.mem_singleton.mp hr⟩
      refine List.mem_iff_getElem?.mpr ⟨i, ?_⟩
      rw [getElem?_setStage]
      simp [hu]
  · intro v hv held' hc
    rcases hold v hv with ⟨j, -, hj⟩ | rfl
    · exact List.mem_append_left _ (h.onRecord v (List.mem_of_getElem? hj) held' hc)
    · cases hc
      exact List.mem_append_right _ (List.mem_singleton.mpr rfl)
  · intro marketId req hreq v hv held' hc
    rcases hold v hv with ⟨j, -, hj⟩ | rfl
    · exact h.fits marketId req hreq v (List.mem_of_getElem? hj) held' hc
    · cases hc
      exact hclean.fits marketId req hreq
  · intro v hv held' hc r hr hf hkey
    rcases hold v hv with ⟨j, -, hj⟩ | rfl
    · have hv' := List.mem_of_getElem? hj
      rcases List.mem_append.mp hr with hr | hr
      · exact h.own v hv' held' hc r hr hf hkey
      · obtain rfl := List.mem_singleton.mp hr
        exact absurd hkey (hclean.others v hv' held' hc hf)
    · cases hc
      rcases List.mem_append.mp hr with hr | hr
      · exact absurd hkey (hclean.own r hr hf)
      · exact List.mem_singleton.mp hr

theorem Inv.store (h : Inv n) (hu : n.votes[i]? = some u)
    (hclean : ∀ held, u.stage = .holding held → CleanStore n u held) : Inv (storeVote n i u) := by
  cases hs : u.stage with
  | holding held =>
    have hfree : (rowOf u.voter u.market u.req held).txid ∉ n.chain_events.map SigRow.txid := by
      intro hin
      obtain ⟨r, hr, htx⟩ := List.mem_map.mp hin
      exact (hclean held hs).free r hr htx
    rw [storeVote, hs]
    dsimp only
    rw [Votes.store, insertOrIgnore, if_neg hfree]
    exact h.counted hu hs (hclean held hs)
  | _ =>
    rw [storeVote, hs]
    exact h

end Keep

/-- The requests of some markets were written. -/
theorem Inv.markets {n : Node} {t : Markets} (h : Inv n)
    (ht : ∀ marketId req, requestOf t marketId = some req → Readable marketId req ∧
      ∀ v ∈ n.votes, ∀ held, v.stage = .counted held → Fits marketId req v held) :
    Inv { n with markets := t } where
  requests marketId req hreq := (ht marketId req hreq).1
  readable := h.readable
  member := h.member
  alone := h.alone
  agrees := h.agrees
  rows := h.rows
  onRecord := h.onRecord
  fits marketId req hreq := (ht marketId req hreq).2
  own := h.own

theorem Inv.tick {n : Node} (h : Inv n) (voterRelays : List Voter) :
    Inv { n with votes := n.votes ++ taken voterRelays n.markets } := by
  have hsplit : ∀ v ∈ n.votes ++ taken voterRelays n.markets,
      v ∈ n.votes ∨ (v.stage = .read ∧ requestOf n.markets v.market = some v.req) := by
    intro v hv
    rcases List.mem_append.mp hv with hv | hv
    · exact Or.inl hv
    · exact Or.inr (mem_taken hv)
  have hold : ∀ v ∈ n.votes ++ taken voterRelays n.markets, v.stage.pk.isSome → v ∈ n.votes := by
    intro v hv hpk
    rcases hsplit v hv with hv | ⟨hs, -⟩
    · exact hv
    · simp [hs, Stage.pk] at hpk
  have hpk : ∀ {v : Vote} {held : Held}, v.stage = .counted held → v.stage.pk.isSome := by
    intro v held hc
    rw [hc]
    rfl
  refine ⟨h.requests, ?_, ?_, ?_, ?_, ?_, ?_, ?_, ?_⟩
  · intro v hv
    rcases hsplit v hv with hv | ⟨-, hreq⟩
    · exact h.readable v hv
    · exact h.requests v.market v.req hreq
  · intro v hv pk hvpk
    exact h.member v (hold v hv (by simp [hvpk])) pk hvpk
  · intro i j v w hv hw hvb hwb
    have hin : ∀ {k : Nat} {x : Vote}, (n.votes ++ taken voterRelays n.markets)[k]? = some x →
        x.stage.busy = true → n.votes[k]? = some x := by
      intro k x hx hb
      rw [List.getElem?_append] at hx
      split at hx
      · exact hx
      · have := (mem_taken (List.mem_of_getElem? hx)).1
        simp [this, Stage.busy] at hb
    exact h.alone i j v w (hin hv hvb) (hin hw hwb) hvb hwb
  · intro v hv w hw held hvpk hc
    exact h.agrees v (hold v hv hvpk) w (hold w hw (hpk hc)) held hvpk hc
  · intro r hr
    obtain ⟨v, hv, hrow⟩ := h.rows r hr
    exact ⟨v, List.mem_append_left _ hv, hrow⟩
  · intro v hv held hc
    exact h.onRecord v (hold v hv (hpk hc)) held hc
  · intro marketId req hreq v hv held hc
    exact h.fits marketId req hreq v (hold v hv (hpk hc)) held hc
  · intro v hv held hc
    exact h.own v (hold v hv (hpk hc)) held hc

theorem Inv.step {blake2bHex : String → String} {scan : Scan} {n : Node} {e : Event} (h : Inv n)
    (hclean : Clean n e) : Inv (step blake2bHex scan n e) := by
  cases e with
  | publishCloseRequestV2 marketId req =>
    rw [Votes.step]
    split
    · next t ht =>
      obtain ⟨r, hr, hreq⟩ := requestOf_publish ht
      obtain ⟨hm, hroot, hcommittee, hfits⟩ := hclean r hr
      refine h.markets ?_
      intro x rx hx
      rw [hreq] at hx
      split at hx
      · next hxm =>
        obtain rfl := Option.some.inj hx
        subst hxm
        exact ⟨⟨hm, hroot, hcommittee, (lower_of_newRequest hr).2⟩, hfits⟩
      · exact ⟨h.requests x rx hx, h.fits x rx hx⟩
    · exact h
  | tick voterRelays => exact h.tick voterRelays
  | takeUp i pubkey =>
    rw [Votes.step]
    split
    · next v hv => exact h.takeUp hv (hclean v hv)
    · exact h
  | sign i a =>
    rw [Votes.step]
    split
    · next v hv => exact h.sign hv
    · exact h
  | store i =>
    rw [Votes.step]
    split
    · next v hv => exact h.store hv fun held => hclean v held hv
    · exact h
  | markSubmittedV2 marketId txid psContAddress =>
    refine h.markets ?_
    intro x rx hx
    rw [requestOf_markSubmitted] at hx
    obtain ⟨r, hr, rfl⟩ := Option.map_eq_some_iff.mp hx
    have hread := h.requests x r hr
    have hfits := h.fits x r hr
    split
    · exact ⟨⟨hread.market, hread.root, hread.committee, hread.lower⟩, hfits⟩
    · exact ⟨hread, hfits⟩
  | clearCloseRequest marketId finalStatus =>
    refine h.markets ?_
    intro x rx hx
    rw [requestOf_clear] at hx
    split at hx
    · cases hx
    · exact ⟨h.requests x rx hx, h.fits x rx hx⟩

/-! ### Every state of a clean run -/

section

variable {scan : Scan} {n : Node}

theorem Inv.oneRoot (h : Inv n) {v w : Vote} (hv : v ∈ n.votes) (hw : w ∈ n.votes)
    (ha : v.voter.address = w.voter.address) (hm : v.market = w.market)
    (hvh : v.stage.held.isSome) (hwh : w.stage.held.isSome) :
    v.req.claimedPayoutRoot = w.req.claimedPayoutRoot := by
  have hpk : ∀ {x : Vote}, x.stage.held.isSome → x.stage.pk.isSome := by
    intro x hx
    cases hs : x.stage <;> simp_all [Stage.held, Stage.pk]
  cases hws : w.stage with
  | counted heldw => exact h.agrees v hv w hw heldw (hpk hvh) hws ha hm
  | holding heldw =>
    cases hvs : v.stage with
    | counted heldv => exact (h.agrees w hw v hv heldv (hpk hwh) hvs ha.symm hm.symm).symm
    | holding heldv =>
      obtain ⟨i, hi⟩ := List.mem_iff_getElem?.mp hv
      obtain ⟨j, hj⟩ := List.mem_iff_getElem?.mp hw
      have hij := h.alone i j v w hi hj (by rw [hvs]; rfl) (by rw [hws]; rfl) ha hm
      rw [hij, hj] at hi
      rw [Option.some.inj hi]
    | _ => simp [hvs, Stage.held] at hvh
  | _ => simp [hws, Stage.held] at hwh

theorem Inv.quorum (h : Inv n) {marketId : String} {req : Request}
    (hreq : requestOf n.markets marketId = some req)
    (hready : ready (collected scan n marketId req) = true) :
    Quorum n req (collected scan n marketId req) := by
  have hread := h.requests marketId req hreq
  -- what a collected signature stands for
  have hsig : ∀ s ∈ collected scan n marketId req, ∃ v ∈ n.votes, ∃ held,
      v.stage = .counted held ∧ v.req.txSafeJson = req.txSafeJson ∧
      s.committee_pk = held.voterPk ∧ s.committee_pk ∈ req.committee_pks ∧
      s.signature = held.signature := by
    intro s hs
    obtain ⟨r, hr, hf, rfl⟩ := mem_collected hs
    obtain ⟨v, hv, held, hc, rfl⟩ := h.rows r hr
    obtain ⟨himage, hpk⟩ := h.fits marketId req hreq v hv held hc hf
    exact ⟨v, hv, held, hc, himage, rfl, hpk, rfl⟩
  refine ⟨(collected scan n marketId req).map CollectedSig.committee_pk, ?_, collected_nodup, ?_⟩
  · rw [List.length_map]
    simpa [ready] using hready
  · intro pk hpk
    obtain ⟨s, hs, rfl⟩ := List.mem_map.mp hpk
    obtain ⟨v, hv, held, hc, himage, hkey, hmem, hsame⟩ := hsig s hs
    refine ⟨hmem, v, hv, held, by rw [hc]; rfl, hkey.symm, himage, ?_⟩
    intro slot hslot hslotpk
    obtain ⟨pk, -, rfl⟩ := List.mem_map.mp hslot
    have hpk' : (witnessSlot req.committee_meta (collected scan n marketId req) pk).pk_hex = pk := by
      rw [witnessSlot]
      split <;> rfl
    rw [hpk'] at hslotpk
    subst hslotpk
    rw [witnessSlot]
    split
    · next s' hs' =>
      have hs'mem := List.mem_of_find?_eq_some hs'
      have hlow : lowerCase s'.committee_pk = lowerCase s.committee_pk := by
        simpa using List.find?_some hs'
      obtain ⟨-, -, -, -, -, -, hmem', -⟩ := hsig s' hs'mem
      rw [hread.lower_eq hmem', hread.lower_eq hmem] at hlow
      rw [List.inj_on_of_nodup_map collected_nodup hs'mem hs hlow, hsame]
    · next hnone =>
      have := List.find?_eq_none.mp hnone s hs
      simp at this

theorem Inv.stored (h : Inv n) {v : Vote} {held : Held} (hv : v ∈ n.votes)
    (hc : v.stage = .counted held) : v.row held ∈ n.chain_events ∧
      ∃ s ∈ collected scan n v.market v.req, s.committee_pk = held.voterPk ∧
        s.signature = held.signature := by
  have hread := h.readable v hv
  have hrow := h.onRecord v hv held hc
  obtain ⟨hne, -⟩ := h.member v hv held.voterPk (by rw [hc]; rfl)
  refine ⟨hrow, ?_⟩
  obtain ⟨s, hs, hkey⟩ := @key_collected scan n v.market v.req _ hrow
    (finds_own hread.market hread.root) hne held.signature.2
  obtain ⟨r, hr, hf, rfl⟩ := mem_collected hs
  refine ⟨_, hs, hkey, ?_⟩
  rw [h.own v hv held hc r hr hf hkey]
  rfl

end

/-- **Votes are safe** in every state of a run whose steps all meet the condition. -/
theorem votes_safe (blake2bHex : String → String) (scan : Scan) (n n' : Node) (es : List Event)
    (h : Fresh n) (hrun : Run (CleanStep blake2bHex scan) n es n') : Safe scan n' := by
  have hinv : Inv n' := by
    refine hrun.invariant ?_ h.inv
    intro m e m' hm hstep
    obtain ⟨hclean, rfl⟩ := hstep
    exact hm.step hclean
  refine ⟨?_, ?_, ?_⟩
  · intro v hv w hw ha hm hvh hwh
    exact hinv.oneRoot hv hw ha hm hvh hwh
  · intro marketId req hreq hready
    exact hinv.quorum hreq hready
  · intro v hv held hc
    exact hinv.stored hv hc

/-! ### A market with one request -/

def sampleScan : Scan := ⟨id, fun _ => .refl _⟩

def samplePk (c : Char) : String := String.ofList (List.replicate 64 c)

def sampleVoter (c : Char) : Voter where
  id := String.ofList [c]
  name := "oracle"
  address := String.ofList [c]

/-- The close of one market, built on this image. -/
def closeOf (image : String) : NewRequest where
  txSafeJson := some image
  claimedPayoutRoot := some "ab"
  committee_pks := some (['1', '2', '3', '4', '5'].map samplePk)
  new_attestedWinner := some 1
  new_betsRoot := some "cd"
  new_refundRoot := some "ef"
  new_attestedAtMs := some 1783465981208
  payoutshard := some ⟨"00", "11", 0⟩
  fee := some ⟨"fee", "22", 1⟩

def sampleNode : Node where
  markets := ⟨[⟨"market", "v0.7", .other "verifying", true, none⟩], List.nodup_singleton _⟩
  chain_events := []
  votes := []

theorem sampleNode_fresh : Fresh sampleNode := by
  refine ⟨?_, rfl, rfl⟩
  intro marketId
  by_cases h : "market" = marketId
  · simp [requestOf, sampleNode, Table.get, h]
  · simp [requestOf, sampleNode, Table.get, h]

def sampleAnswers : Answers where
  enforcement := .ok (.pass 1 none "cd" "ef")
  chainBound := .landed
  signature := .ok ⟨"30", by decide⟩

/-- The request that is stored for an image. -/
def requestFor (image : String) : Request where
  txSafeJson := image
  claimedPayoutRoot := "ab"
  committee_pks := ['1', '2', '3', '4', '5'].map fun c => lowerCase (samplePk c)
  committee_meta := none
  input_index := 0
  new_attestedWinner := 1
  new_betsRoot := "cd"
  new_refundRoot := "ef"
  new_attestedAtMs := 1783465981208
  closeInputs := ⟨⟨"00", "11", 0⟩, ⟨"fee", "22", 1⟩⟩
  pendingTx := none

/-- What a member holds once it has signed. -/
def heldBy (c : Char) : Held := ⟨lowerCase (samplePk c), ⟨"30", by decide⟩, 1, "cd", "ef"⟩

/-- The vote of a member on the old image. -/
def voteOf (c : Char) (s : Stage) : Vote := ⟨sampleVoter c, "market", requestFor "old", s⟩

/-- The market asks for signatures of an image. -/
def asking (image : String) : Markets :=
  ⟨[⟨"market", "v0.7", .collecting_sigs, true, some (requestFor image)⟩], List.nodup_singleton _⟩

theorem length_samplePk (c : Char) : (lowerCase (samplePk c)).length = 64 := by
  simp [lowerCase, samplePk]

theorem samplePk_inj {c d : Char} :
    lowerCase (samplePk c) = lowerCase (samplePk d) ↔ c.toLower = d.toLower := by
  simp [lowerCase, samplePk]

theorem samplePk_ne_empty (c : Char) : lowerCase (samplePk c) ≠ "" := by
  intro h
  have hlen := length_samplePk c
  rw [h] at hlen
  exact absurd hlen (by decide)

/-- A member of the committee takes the request up while no signature is on record. -/
theorem takeUp_first {c : Char} (h : c ∈ ['1', '2', '3', '4', '5']) :
    takeUp sampleScan [] (sampleVoter c) "market" (requestFor "old") (some (samplePk c)) =
      .ok (lowerCase (samplePk c)) := by
  have hmem : lowerCase (samplePk c) ∈ (requestFor "old").committee_pks.map lowerCase := by
    rw [← lowerCase_lowerCase]
    exact List.mem_map_of_mem (List.mem_map_of_mem h)
  rw [takeUp, if_neg (not_not_intro (length_samplePk c)), if_neg fun hout => hout.2 hmem]
  rfl

theorem step_takeUp_first {n : Node} {i : Nat} {c : Char}
    (hv : n.votes[i]? = some (voteOf c .read)) (he : n.chain_events = [])
    (h : c ∈ ['1', '2', '3', '4', '5']) :
    step id sampleScan n (.takeUp i (some (samplePk c))) =
      n.setStage i (.checked (lowerCase (samplePk c))) := by
  have hstage : takeUpVote sampleScan n (voteOf c .read) (some (samplePk c)) =
      .checked (lowerCase (samplePk c)) := by
    show stageOf ((takeUp sampleScan n.chain_events (sampleVoter c) "market" (requestFor "old")
      (some (samplePk c))).map .checked) = _
    rw [he, takeUp_first h]
    rfl
  simp only [step, hv, hstage]

/-! ### Four votes for another image -/

/-- Four members sign an image, side by side. -/
def signedAll : List Event :=
  [.takeUp 0 (some (samplePk '1')), .takeUp 1 (some (samplePk '2')),
    .takeUp 2 (some (samplePk '3')), .takeUp 3 (some (samplePk '4')),
    .sign 0 sampleAnswers, .sign 1 sampleAnswers, .sign 2 sampleAnswers, .sign 3 sampleAnswers,
    .store 0, .store 1, .store 2, .store 3]

/-- Then the settler publishes another one, with a new fee. -/
def republished : List Event :=
  [.publishCloseRequestV2 "market" (closeOf "old"), .tick (['1', '2', '3', '4'].map sampleVoter)] ++
    signedAll ++ [.publishCloseRequestV2 "market" (closeOf "new")]

def rowBy (c : Char) : SigRow := rowOf (sampleVoter c) "market" (requestFor "old") (heldBy c)

/-- The node with the four votes. -/
def fourVotes (image : String) : Node where
  markets := asking image
  chain_events := ['1', '2', '3', '4'].map rowBy
  votes := ['1', '2', '3', '4'].map fun c => voteOf c (.counted (heldBy c))

theorem signedAll_fourVotes :
    signedAll.foldl (step id sampleScan)
      ⟨asking "old", [], ['1', '2', '3', '4'].map fun c => voteOf c .read⟩ = fourVotes "old" := by
  rw [signedAll, List.foldl_cons, step_takeUp_first rfl rfl (by simp),
    List.foldl_cons, step_takeUp_first rfl rfl (by simp),
    List.foldl_cons, step_takeUp_first rfl rfl (by simp),
    List.foldl_cons, step_takeUp_first rfl rfl (by simp)]
  rfl

theorem republished_fourVotes :
    republished.foldl (step id sampleScan) sampleNode = fourVotes "new" := by
  have hread : [Event.publishCloseRequestV2 "market" (closeOf "old"),
      .tick (['1', '2', '3', '4'].map sampleVoter)].foldl (step id sampleScan) sampleNode =
        ⟨asking "old", [], ['1', '2', '3', '4'].map fun c => voteOf c .read⟩ := rfl
  rw [republished, List.foldl_append, List.foldl_append, hread, signedAll_fourVotes]
  rfl

theorem rowBy_found (c : Char) : (rowBy c).hasField "market_id" "market" = true ∧
    (rowBy c).hasField "payout_root" "ab" = true :=
  @hasField_row "market" (requestFor "old") (sampleVoter c) (heldBy c) (by decide) (by decide)

theorem addSig_rowBy {sigs : List CollectedSig} {c : Char}
    (h : ∀ s ∈ sigs, s.committee_pk ≠ lowerCase (samplePk c)) :
    addSig sigs (rowBy c).payload = sigs ++ [(rowBy c).payload.toCollectedSig] := by
  refine if_pos ⟨samplePk_ne_empty c, show "30" ≠ "" by decide, ?_⟩
  intro hin
  obtain ⟨s, hs, heq⟩ := List.mem_map.mp hin
  exact h s hs heq

/-- Each member's signature is taken once. -/
theorem length_addSigs {cs : List Char} (h : (cs.map Char.toLower).Nodup) :
    ∀ {sigs : List CollectedSig},
      (∀ c ∈ cs, ∀ s ∈ sigs, s.committee_pk ≠ lowerCase (samplePk c)) →
      ((cs.map fun c => (rowBy c).payload).foldl addSig sigs).length =
        sigs.length + cs.length := by
  induction cs with
  | nil => simp
  | cons c cs ih =>
    intro sigs hnew
    rw [List.map_cons, List.nodup_cons] at h
    rw [List.map_cons, List.foldl_cons, addSig_rowBy (hnew c (by simp)), ih h.2 ?_]
    · simp [Nat.add_comm, Nat.add_left_comm]
    · intro d hd s hs
      rcases List.mem_append.mp hs with hs | hs
      · exact hnew d (by simp [hd]) s hs
      · rw [List.mem_singleton.mp hs]
        intro heq
        exact h.1 (List.mem_map.mpr ⟨d, hd, (samplePk_inj.mp heq).symm⟩)

theorem collected_fourVotes :
    ready (collected sampleScan (fourVotes "new") "market" (requestFor "new")) = true := by
  have hfound : ((fourVotes "new").chain_events.filter fun r => r.hasField "market_id" "market" &&
      r.hasField "payout_root" (requestFor "new").claimedPayoutRoot) =
        ['1', '2', '3', '4'].map rowBy := by
    refine List.filter_eq_self.mpr ?_
    intro r hr
    obtain ⟨c, -, rfl⟩ := List.mem_map.mp hr
    exact Bool.and_eq_true_iff.mpr (rowBy_found c)
  have hlen := @length_addSigs ['1', '2', '3', '4'] (by decide) [] (by simp)
  rw [collected, collectCloseSigsV2, hfound, ready, decide_eq_true_eq]
  exact hlen.ge

theorem not_safe_of_other {n : Node} {req : Request}
    (hvotes : ∀ v ∈ n.votes, v.req.txSafeJson ≠ req.txSafeJson)
    (hreq : requestOf n.markets "market" = some req)
    (hready : ready (collected sampleScan n "market" req) = true) : ¬ Safe sampleScan n := by
  intro hsafe
  obtain ⟨members, hlen, -, hmembers⟩ := hsafe.quorum "market" req hreq hready
  cases members with
  | nil => exact absurd hlen (by decide)
  | cons pk rest =>
    obtain ⟨-, v, hv, held, -, -, hsame, -⟩ := hmembers pk (by simp)
    exact hvotes v hv hsame

/-- The fee input was replaced and the root and the time were not: four signatures for one image
are taken for signatures of another. -/
theorem other_image : Fresh sampleNode ∧
    ¬ Safe sampleScan (republished.foldl (step id sampleScan) sampleNode) := by
  refine ⟨sampleNode_fresh, ?_⟩
  rw [republished_fourVotes]
  refine not_safe_of_other ?_ rfl collected_fourVotes
  intro v hv
  obtain ⟨c, -, rfl⟩ := List.mem_map.mp hv
  show "old" ≠ "new"
  decide

/-! ### One vote -/

/-- The node while the first member votes. -/
def oneVote (s : Stage) : Node := ⟨asking "old", [], [voteOf '1' s]⟩

theorem oneVote_published : CleanStep id sampleScan sampleNode
    (.publishCloseRequestV2 "market" (closeOf "old")) { oneVote .read with votes := [] } := by
  refine ⟨?_, rfl⟩
  intro r hr
  cases hr
  exact ⟨by decide, by decide, by simp, by simp [sampleNode]⟩

theorem oneVote_takenUp : CleanStep id sampleScan (oneVote .read)
    (.takeUp 0 (some (samplePk '1'))) (oneVote (.checked (lowerCase (samplePk '1')))) := by
  refine ⟨?_, step_takeUp_first rfl rfl (by simp)⟩
  intro v hv _ w hw hb
  obtain rfl := List.mem_singleton.mp hw
  cases hb

theorem oneVote_stored : CleanStep id sampleScan (oneVote (.holding (heldBy '1'))) (.store 0)
    { oneVote (.counted (heldBy '1')) with
      chain_events := [rowBy '1'] } := by
  refine ⟨?_, rfl⟩
  intro v h hv hs
  obtain rfl := Option.some.inj hv
  cases hs
  refine ⟨?_, ?_, ?_, ?_⟩
  · simp [oneVote]
  · intro marketId req hreq _
    by_cases hm : "market" = marketId
    · simp only [requestOf, oneVote, asking, Table.get, hm, List.find?_cons, decide_true,
        Option.bind_some, Option.some.injEq] at hreq
      subst hreq
      exact ⟨rfl, List.mem_map.mpr ⟨'1', by simp, rfl⟩⟩
    · simp [requestOf, oneVote, asking, Table.get, hm] at hreq
  · simp [oneVote]
  · intro w hw h' hc
    obtain rfl := List.mem_singleton.mp hw
    cases hc

/-- A member signs, and its signature is on record. -/
theorem votes_safe_one : Safe sampleScan
    { oneVote (.counted (heldBy '1')) with
      chain_events := [rowBy '1'] } :=
  votes_safe id sampleScan sampleNode _
    [.publishCloseRequestV2 "market" (closeOf "old"), .tick [sampleVoter '1'],
      .takeUp 0 (some (samplePk '1')), .sign 0 sampleAnswers, .store 0]
    sampleNode_fresh
    (.cons oneVote_published (.cons ⟨trivial, rfl⟩ (.cons oneVote_takenUp
      (.cons ⟨trivial, rfl⟩ (.cons oneVote_stored (.nil _))))))

end KANet.Settle.Votes
