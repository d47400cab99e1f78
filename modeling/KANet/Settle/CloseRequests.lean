import KANet.Lib.Hex
import KANet.Lib.Json
import KANet.Lib.OrderedMap
import KANet.Lib.Table

/-!
# `bshard-close-transport.mjs`

The settler asks the committee to sign a close by a request in the metadata of the market.  The
second version keeps its request under a key of its own, `bshard_close_request_v2`; of the
metadata only that is modelled here.

* `requestOf_publish`, `requestOf_markSubmitted`, `requestOf_clear` — the request of each market
  after the three writes.
-/

namespace KANet.Settle.Transport

open KANet.Lib

/-! ### Requests -/

/-- An entry of `committee_meta`: the place of a member in the tree of the pool. -/
structure MemberMeta where
  idx : Option Json
  siblings_hex : Option Json

structure PsInput where
  redeem_hex : String
  outpointTxid : String
  index : Nat
  deriving DecidableEq

structure FeeInput where
  address : String
  outpointTxid : String
  index : Nat
  deriving DecidableEq

/-- The inputs that the image was built from. -/
structure CloseInputs where
  payoutshard : PsInput
  fee : FeeInput
  deriving DecidableEq

/-- `bshard_close_submit_v2_pending_txid` -/
structure PendingTx where
  txid : String
  psContAddress : String
  deriving DecidableEq

/-- `bshard_close_request_v2`, without what only the enforcement reads. -/
structure Request where
  txSafeJson : String
  claimedPayoutRoot : String
  committee_pks : List String
  committee_meta : Option (OrderedMap String MemberMeta)
  input_index : Nat
  new_attestedWinner : Int
  new_betsRoot : String
  new_refundRoot : String
  new_attestedAtMs : Int
  closeInputs : CloseInputs
  pendingTx : Option PendingTx

/-- What `publishCloseRequestV2` is given. -/
structure NewRequest where
  txSafeJson : Option String
  claimedPayoutRoot : Option String
  committee_pks : Option (List String)
  committee_meta : Option (OrderedMap String MemberMeta) := none
  input_index : Option Nat := none
  new_attestedWinner : Option Int
  new_betsRoot : Option String
  new_refundRoot : Option String
  new_attestedAtMs : Option Int
  payoutshard : Option PsInput
  fee : Option FeeInput

/-- A text that JavaScript takes for true. -/
def truthy (s : Option String) : Option String := s.filter (· ≠ "")

/-- The request that is stored, or why there is none. -/
def newRequest (req : NewRequest) : Except String Request :=
  match truthy req.txSafeJson, truthy req.claimedPayoutRoot, req.committee_pks with
  | some txSafeJson, some claimedPayoutRoot, some committee_pks =>
    match req.payoutshard, req.fee with
    | some payoutshard, some fee =>
      match req.new_attestedWinner, truthy req.new_betsRoot, truthy req.new_refundRoot,
        req.new_attestedAtMs with
      | some new_attestedWinner, some new_betsRoot, some new_refundRoot, some new_attestedAtMs =>
        .ok
          { txSafeJson, claimedPayoutRoot
            committee_pks := committee_pks.map lowerCase
            committee_meta := req.committee_meta
            input_index := req.input_index.getD 0
            new_attestedWinner, new_betsRoot, new_refundRoot, new_attestedAtMs
            closeInputs := ⟨payoutshard, fee⟩
            pendingTx := none }
      | _, _, _, _ =>
        .error ("publishCloseRequestV2: new_attestedWinner/new_betsRoot/new_refundRoot/" ++
          "new_attestedAtMs 必需 (W2 4 新字段)")
    | _, _ =>
      .error "publishCloseRequestV2: closeInputs.payoutshard + closeInputs.fee 必需 (卡2③ submit 阶段依赖)"
  | _, _, _ => .error "publishCloseRequestV2: txSafeJson + claimedPayoutRoot + committee_pks 必需"

theorem lower_of_newRequest {req : NewRequest} {r : Request} (h : newRequest req = .ok r) :
    r.pendingTx = none ∧ ∃ pks : List String, r.committee_pks = pks.map lowerCase := by
  unfold newRequest at h
  split at h
  · split at h
    · split at h
      · cases h
        exact ⟨rfl, _, rfl⟩
      · cases h
    · cases h
  · cases h

/-! ### Markets -/

inductive MarketStatus
  | collecting_sigs
  | attested_v2
  | other (name : String)
  deriving DecidableEq

/-- A row of `pool_markets`.  `zk_native` is whether the resolution rule says so. -/
structure Market where
  id : String
  protocol_version : String
  protocol_status : MarketStatus
  zk_native : Bool
  request : Option Request

abbrev Markets := Table Market.id

def requestOf (t : Markets) (marketId : String) : Option Request :=
  (t.get marketId).bind Market.request

/-- `UPDATE pool_markets SET … WHERE id = ?` -/
def setMarket (t : Markets) (marketId : String) (f : Market → Market)
    (h : ∀ m, (f m).id = m.id) : Markets :=
  t.updateWhere (fun m => m.id = marketId) f h

def publishCloseRequestV2 (t : Markets) (marketId : String) (req : NewRequest) :
    Except String Markets :=
  match newRequest req with
  | .error e => .error e
  | .ok r =>
    match t.get marketId with
    | none => .error ("publishCloseRequestV2: market " ++ marketId ++ " 不存在")
    | some row =>
      if row.protocol_version ≠ "v0.7" then
        .error ("publishCloseRequestV2: 需 v0.7, got " ++ row.protocol_version)
      else
        .ok (setMarket t marketId
          (fun m => { m with request := some r, protocol_status := .collecting_sigs })
          fun _ => rfl)

/-- The transaction that was broadcast, if the request is still there. -/
def markSubmittedV2 (t : Markets) (marketId txid psContAddress : String) : Markets :=
  setMarket t marketId
    (fun m => { m with
      request := m.request.map fun r => { r with pendingTx := some ⟨txid, psContAddress⟩ } })
    fun _ => rfl

def clearCloseRequest (t : Markets) (marketId : String) (finalStatus : MarketStatus) : Markets :=
  setMarket t marketId
    (fun m => { m with request := none, protocol_status := finalStatus })
    fun _ => rfl

/-! ### The requests after a write -/

variable {t t' : Markets} {marketId : String}

theorem get_setMarket {f : Market → Market} {h : ∀ m, (f m).id = m.id} (x : String) :
    (setMarket t marketId f h).get x = (t.get x).map fun m => if x = marketId then f m else m := by
  rw [setMarket, Table.get_updateWhere]
  cases hx : t.get x with
  | none => rfl
  | some m => simp [Table.key_of_get hx]

theorem publish_eq_ok {req : NewRequest} (h : publishCloseRequestV2 t marketId req = .ok t') :
    ∃ r row, newRequest req = .ok r ∧ t.get marketId = some row ∧
      t' = setMarket t marketId
        (fun m => { m with request := some r, protocol_status := .collecting_sigs })
        fun _ => rfl := by
  unfold publishCloseRequestV2 at h
  split at h
  · cases h
  · next r hr =>
    split at h
    · cases h
    · next row hrow =>
      split at h
      · cases h
      · cases h
        exact ⟨r, row, hr, hrow, rfl⟩

theorem requestOf_publish {req : NewRequest} (h : publishCloseRequestV2 t marketId req = .ok t') :
    ∃ r, newRequest req = .ok r ∧
      ∀ x, requestOf t' x = if x = marketId then some r else requestOf t x := by
  obtain ⟨r, row, hr, hrow, rfl⟩ := publish_eq_ok h
  refine ⟨r, hr, ?_⟩
  intro x
  rw [requestOf, get_setMarket]
  by_cases hx : x = marketId
  · simp [hx, hrow]
  · simp [hx, requestOf]

theorem requestOf_markSubmitted (txid psContAddress x : String) :
    requestOf (markSubmittedV2 t marketId txid psContAddress) x =
      (requestOf t x).map fun r =>
        if x = marketId then { r with pendingTx := some ⟨txid, psContAddress⟩ } else r := by
  rw [requestOf, markSubmittedV2, get_setMarket, requestOf]
  cases t.get x with
  | none => rfl
  | some m =>
    by_cases hx : x = marketId
    · simp [hx]
    · simp [hx]

theorem requestOf_clear (finalStatus : MarketStatus) (x : String) :
    requestOf (clearCloseRequest t marketId finalStatus) x =
      if x = marketId then none else requestOf t x := by
  rw [requestOf, clearCloseRequest, get_setMarket, requestOf]
  cases t.get x with
  | none => simp
  | some m =>
    by_cases hx : x = marketId
    · simp [hx]
    · simp [hx]

end KANet.Settle.Transport
