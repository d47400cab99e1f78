import KANet.Lib.Json
import KANet.Lib.OrderedMap
import KANet.Lib.Runs

/-!
# The metadata of a market

The column `metadata` of `pool_markets` is written in two ways.  `setManualHold`, the clearing
functions and the markers of the settle daemon change single keys of the text that is there
(`json_set`, `json_remove`); `scheduleUmaRejudge` and the write-back of `_settleOneMarketAttempt`
put back a whole object, parsed from a row that was read before the awaits in between.

* `step` — one market, any number of ticks over it, every point at which they can interleave.
* `Kept` — the row has all the keys that were written and not cleared since, and a hold that was
  set keeps the market from being selected.
* `hold_lost` — a hold set while an attempt is in flight does not outlive the write-back.
* `metadata_kept` — in runs where no object older than the row's keys is put back, nothing is lost.
-/

namespace KANet.Settle.Metadata

open KANet.Lib

/-! ### The column -/

inductive MetadataText
  | null
  | malformed
  | object (fields : OrderedMap String Json)

namespace MetadataText

/-- `JSON.parse(metadata || '{}')`, and `{}` where that throws -/
def parse : MetadataText → OrderedMap String Json
  | .null => .empty
  | .malformed => .empty
  | .object fields => fields

/-- `json_set(metadata, …)`: NULL stays NULL, and SQLite refuses what is no JSON. -/
def jsonSet (sets : List (String × Json)) : MetadataText → Option MetadataText
  | .null => some .null
  | .malformed => none
  | .object fields => some (.object (fields.setAll sets))

def jsonRemove (keys : List String) : MetadataText → Option MetadataText
  | .null => some .null
  | .malformed => none
  | .object fields => some (.object (fields.eraseAll keys))

/-- `COALESCE(metadata, '{}')` -/
def coalesce : MetadataText → MetadataText
  | .null => .object .empty
  | .malformed => .malformed
  | .object fields => .object fields

/-- A marker of the daemon: when SQLite throws, that is logged and nothing is written. -/
def mark (sets : List (String × Json)) (t : MetadataText) : MetadataText :=
  (t.coalesce.jsonSet sets).getD t

end MetadataText

/-- The members of a value that is an object. -/
def membersOf : Option Json → List (String × Json)
  | some (.obj ms) => ms
  | _ => []

def strOf : Option Json → Option String
  | some (.str s) => some s
  | _ => none

/-- A text that JavaScript takes for true. -/
def textOf (v : Option Json) : Option String := (strOf v).filter (· ≠ "")

/-- `n || 0`; only numbers are written there. -/
def numberOf : Option Json → Int
  | some (.num n) => n
  | _ => 0

def settleEvidence (fields : OrderedMap String Json) : List (String × Json) :=
  membersOf (fields.get "settle_evidence")

/-! ### The row and its gates -/

inductive ProtocolStatus
  | pending_bettors | verifying | settled_partial_claims | completed | needs_manual_attribution
  | settle_failed | needs_rolling | other (name : String)
  deriving DecidableEq, Repr

structure MarketRow where
  metadata : MetadataText
  protocol_status : ProtocolStatus
  settle_txid : Option String
  deadline_daa : Nat

def PREGATE_MAX_WALK : Nat := 250000

def REPEAT_OFFENDER_THRESHOLD : Int := 3

/-- `meta?.manual_hold_reason != null` -/
def heldIn (fields : OrderedMap String Json) : Bool :=
  match fields.get "manual_hold_reason" with
  | none => false
  | some .null => false
  | some _ => true

def manualHoldGate (m : MarketRow) : Bool := heldIn m.metadata.parse

def repeatOffenderGate (m : MarketRow) : Bool :=
  match m.metadata.parse.get "repeat_offender_confirmed" with
  | some (.bool b) => b
  | _ => false

def walkExhausted (m : MarketRow) : Bool :=
  match m.metadata.parse.get "walk_exhausted_confirmed" with
  | some (.bool b) => b
  | _ => false

/-- `floor` is the first DAA score the index covers, when it covers any. -/
def unreachablePreGate (m : MarketRow) (currentDaa : Nat) (floor : Option Nat) : Bool :=
  (floor.any (m.deadline_daa < ·) || walkExhausted m) &&
    decide (PREGATE_MAX_WALK < currentDaa - m.deadline_daa) &&
    (textOf ((settleEvidence m.metadata.parse).lookup "close_txid")).isNone

/-- What a tick sees beside the row: `others` is whether the conditions hold that read other
columns, the bets or the clock (the version, the deadline, the back-off). -/
structure TickView where
  currentDaa : Nat
  floor : Option Nat
  others : Bool

/-- Whether `selectRipeMarkets` returns the market. -/
def selectRipeMarkets (m : MarketRow) (view : TickView) : Bool :=
  view.others &&
    (m.settle_txid.isNone && (m.protocol_status = .pending_bettors || m.protocol_status = .verifying)
      || m.protocol_status = .settled_partial_claims) &&
    !unreachablePreGate m view.currentDaa view.floor &&
    !repeatOffenderGate m &&
    !manualHoldGate m

/-! ### What settling a market leaves behind -/

structure Claim where
  pk : String
  amount : String
  txId : Option String
  received : Bool
  error : Option String

/-- `c.txId && c.received === true && !c.error` -/
def Claim.landed (c : Claim) : Bool :=
  c.txId.any (· ≠ "") && c.received && !c.error.any (· ≠ "")

/-- What `settleMarketLive` returns when it got through, with the parts of the plan read here. -/
structure SettleResult where
  closeTxid : String
  payoutRoot : String
  winDir : Nat
  winners : Nat
  claims : List Claim
  complete : Bool
  needsManualAttribution : Bool
  consolidatedPool : Option String

def text (s : Option String) : Json := s.elim .null .str

def evidence (r : SettleResult) (now : String) : List (String × Json) :=
  let landedClaims := r.claims.filter Claim.landed
  [("settled_by", .str "bshard-settle-daemon"),
   ("close_txid", .str r.closeTxid),
   ("payout_root", .str r.payoutRoot),
   ("consolidated_pool", text r.consolidatedPool),
   ("winners", .num landedClaims.length),
   ("claim_txids", .arr (landedClaims.map fun c => text c.txId)),
   ("winner_details", .arr (landedClaims.map fun c =>
      .obj [("pk", .str c.pk), ("amount", .str c.amount), ("txId", text c.txId)])),
   ("win_direction", .num r.winDir),
   ("expected_winners", .num r.winners),
   ("attempted", .num r.claims.length),
   ("complete", .bool r.complete),
   ("chain_settled", .bool true),
   ("settled_at", .str now)]

/-- `{ ...old, ...new }` -/
def spread (old new : List (String × Json)) : List (String × Json) :=
  old.map (fun e => (e.1, (new.lookup e.1).getD e.2)) ++
    new.filter fun e => e.1 ∉ old.map Prod.fst

def newStatus (r : SettleResult) : ProtocolStatus :=
  if r.complete then .completed
  else if r.needsManualAttribution then .needs_manual_attribution
  else .settled_partial_claims

/-- The object that the write-back puts in the place of the metadata: `market` is the row as the
attempt read it at its start. -/
def settledFields (market : MarketRow) (r : SettleResult) (now : String) :
    OrderedMap String Json :=
  market.metadata.parse.set "settle_evidence"
    (.obj (spread (settleEvidence market.metadata.parse) (evidence r now)))

def umaMarker (fields : OrderedMap String Json) (nowIso : String) : List (String × Json) :=
  (if textOf (fields.get "uma_pending_since") = none
    then [("uma_pending_since", .str nowIso)] else []) ++
    [("uma_last_attempt_at", .str nowIso),
     ("uma_retry_count", .num (numberOf (fields.get "uma_retry_count") + 1))]

/-- The object that `scheduleUmaRejudge` writes: `market` is the row as it was selected. -/
def rejudgedFields (market : MarketRow) (nowIso : String) : OrderedMap String Json :=
  market.metadata.parse.setAll (umaMarker market.metadata.parse nowIso)

def repeatStreak (fields : OrderedMap String Json) (sig : String) : Int :=
  (if strOf (fields.get "repeat_failure_sig") = some sig
    then numberOf (fields.get "repeat_failure_streak") else 0) + 1

/-- What `settleOneMarket` writes when the last of its attempts failed for a transient reason with
this signature. -/
def repeatMarker (m : MarketRow) (sig : String) : List (String × Json) :=
  if REPEAT_OFFENDER_THRESHOLD ≤ repeatStreak m.metadata.parse sig
    then [("repeat_failure_sig", .str sig), ("repeat_offender_confirmed", .bool true)]
    else [("repeat_failure_sig", .str sig),
      ("repeat_failure_streak", .num (repeatStreak m.metadata.parse sig))]

/-! ### Ticks over the market -/

/-- Why `settleOneMarket` gave up: the class of the failure, or more than 1024 winners. -/
inductive Failure
  | transient | businessPending | unclassified | needsRolling
  deriving DecidableEq, Repr

/-- How far a tick has got.  It keeps the row it selected, and within an attempt the row the
attempt read. -/
inductive Phase
  | selected (market : MarketRow) (attempt : Nat)
  | attempting (market row : MarketRow) (attempt : Nat)
  | exhausted (market : MarketRow)
  | failed (market : MarketRow) (failure : Failure)

def RETRY_MAX_ATTEMPTS : Nat := 3

structure World where
  row : MarketRow
  ticks : Nat → Option Phase

/-- How an attempt ends: the walk back to the deadline ran out, another failure, or a settlement
that is written back. -/
inductive Outcome
  | walkExhausted
  | failed (failure : Failure)
  | settled (r : SettleResult) (now : String)

/-- What happens between two awaits.  Ticks are told apart by a number; a hold and the clearing
come from an operator at any time. -/
inductive Action
  | setManualHold (reason now : String)
  | clearManualHold
  | clearRepeatOffenderMarker
  | select (tick : Nat) (view : TickView)
  | attempt (tick : Nat)
  | finish (tick : Nat) (outcome : Outcome)
  | repeatFailure (tick : Nat) (sig : String)
  | scheduleUmaRejudge (tick : Nat) (nowIso : String) (timedOut : Bool)
  | giveUp (tick : Nat)

def World.setTick (w : World) (tick : Nat) (phase : Option Phase) : World :=
  { w with ticks := Function.update w.ticks tick phase }

def World.setMetadata (w : World) (t : MetadataText) : World :=
  { w with row := { w.row with metadata := t } }

@[simp] theorem World.setTick_row (w : World) (tick : Nat) (phase : Option Phase) :
    (w.setTick tick phase).row = w.row := rfl

@[simp] theorem World.setMetadata_metadata (w : World) (t : MetadataText) :
    (w.setMetadata t).row.metadata = t := rfl

def holdKeys : List String := ["manual_hold_reason", "manual_hold_at"]

def repeatKeys : List String :=
  ["repeat_offender_confirmed", "repeat_failure_sig", "repeat_failure_streak"]

def setManualHold (t : MetadataText) (reason now : String) : Option MetadataText :=
  t.jsonSet [("manual_hold_reason", .str reason), ("manual_hold_at", .str now)]

def clearManualHold (m : MarketRow) : Option MetadataText :=
  if manualHoldGate m then m.metadata.jsonRemove holdKeys else none

def clearRepeatOffenderMarker (m : MarketRow) : Option MetadataText :=
  if repeatOffenderGate m then m.metadata.jsonRemove repeatKeys else none

/-- How an attempt ends.  `market` is what the tick selected, `row` what the attempt read. -/
def finish (w : World) (tick : Nat) (market row : MarketRow) (attempt : Nat) : Outcome → World
  | .walkExhausted =>
    (w.setMetadata (w.row.metadata.mark [("walk_exhausted_confirmed", .bool true)])).setTick tick
      (some (.failed market .unclassified))
  | .failed failure =>
    w.setTick tick <| some <|
      if failure = .transient then
        if attempt < RETRY_MAX_ATTEMPTS then .selected market (attempt + 1) else .exhausted market
      else .failed market failure
  | .settled r now =>
    { w with row := { w.row with
        metadata := .object (settledFields row r now)
        protocol_status := newStatus r
        settle_txid := some r.closeTxid } }.setTick tick none

def step (w : World) : Action → Option World
  | .setManualHold reason now => (setManualHold w.row.metadata reason now).map w.setMetadata
  | .clearManualHold => (clearManualHold w.row).map w.setMetadata
  | .clearRepeatOffenderMarker => (clearRepeatOffenderMarker w.row).map w.setMetadata
  | .select tick view =>
    match w.ticks tick with
    | none => if selectRipeMarkets w.row view then some (w.setTick tick (some (.selected w.row 1)))
        else none
    | some _ => none
  | .attempt tick =>
    match w.ticks tick with
    | some (.selected market attempt) =>
      some (w.setTick tick (some (.attempting market w.row attempt)))
    | _ => none
  | .finish tick outcome =>
    match w.ticks tick with
    | some (.attempting market row attempt) => some (finish w tick market row attempt outcome)
    | _ => none
  | .repeatFailure tick sig =>
    match w.ticks tick with
    | some (.exhausted market) =>
      some ((w.setMetadata (w.row.metadata.mark (repeatMarker w.row sig))).setTick tick
        (some (.failed market .transient)))
    | _ => none
  | .scheduleUmaRejudge tick nowIso timedOut =>
    match w.ticks tick with
    | some (.failed market .businessPending) =>
      some ({ w with row := { w.row with
        metadata := .object (rejudgedFields market nowIso)
        protocol_status := if timedOut then .settle_failed else w.row.protocol_status } }.setTick
          tick none)
    | _ => none
  | .giveUp tick =>
    match w.ticks tick with
    | some (.failed _ .needsRolling) =>
      some ({ w with row := { w.row with protocol_status := .needs_rolling } }.setTick tick none)
    | some (.failed _ .transient) => some (w.setTick tick none)
    | some (.failed _ .unclassified) => some (w.setTick tick none)
    | _ => none

/-! ### The keys that are owed -/

/-- A key of the metadata, or one of the `settle_evidence` in it. -/
inductive Key
  | top (k : String)
  | evidence (k : String)
  deriving DecidableEq, Repr

def Holds (fields : OrderedMap String Json) : Key → Prop
  | .top k => k ∈ fields.keys
  | .evidence k => k ∈ (settleEvidence fields).map Prod.fst

def keysOf (sets : List (String × Json)) : List Key := sets.map fun e => .top e.1

/-- Nothing is written into a text that is no JSON. -/
def MetadataText.marked (sets : List (String × Json)) : MetadataText → List Key
  | .malformed => []
  | _ => keysOf sets

def evidenceKeys (r : SettleResult) (now : String) : List Key :=
  .top "settle_evidence" :: (evidence r now).map fun e => .evidence e.1

/-- The keys a step writes. -/
def Action.writes (w : World) : Action → List Key
  | .setManualHold _ _ => holdKeys.map .top
  | .finish _ .walkExhausted =>
    w.row.metadata.marked [("walk_exhausted_confirmed", .bool true)]
  | .finish _ (.settled r now) => evidenceKeys r now
  | .repeatFailure _ sig => w.row.metadata.marked (repeatMarker w.row sig)
  | .scheduleUmaRejudge tick nowIso _ =>
    match w.ticks tick with
    | some (.failed market _) => keysOf (umaMarker market.metadata.parse nowIso)
    | _ => []
  | _ => []

/-- The keys a step clears. -/
def Action.clears : Action → List Key
  | .clearManualHold => holdKeys.map .top
  | .clearRepeatOffenderMarker => repeatKeys.map .top
  | _ => []

/-- A world, and the keys that were written in it and have not been cleared since. -/
structure Traced where
  world : World
  owed : List Key

def traced (s : Traced) (a : Action) : Option Traced :=
  (step s.world a).map fun w => ⟨w, s.owed.filter (· ∉ a.clears) ++ a.writes s.world⟩

def start (row : MarketRow) : Traced := ⟨⟨row, fun _ => none⟩, []⟩

/-- **Nothing is lost**: what is owed is there, and a hold that is owed gates the market. -/
structure Kept (s : Traced) : Prop where
  holds : ∀ k ∈ s.owed, Holds s.world.row.metadata.parse k
  gated : Key.top "manual_hold_reason" ∈ s.owed →
    ∀ view, selectRipeMarkets s.world.row view = false

/-- The row `old` has all the keys that the row `now` has, and holds the market if that does. -/
structure UpToDate (now old : MarketRow) : Prop where
  holds : ∀ k, Holds now.metadata.parse k → Holds old.metadata.parse k
  gated : manualHoldGate now = true → manualHoldGate old = true

/-- A hold is put on a row that has metadata, and an object is put back only where the row it was
read from is up to date. -/
def Careful (w : World) : Action → Prop
  | .setManualHold _ _ => w.row.metadata ≠ .null
  | .finish tick (.settled _ _) => ∀ market row attempt,
    w.ticks tick = some (.attempting market row attempt) → UpToDate w.row row
  | .scheduleUmaRejudge tick _ _ => ∀ market,
    w.ticks tick = some (.failed market .businessPending) → UpToDate w.row market
  | _ => True

/-! ### Single changes of the fields -/

variable {m : OrderedMap String Json} {sets new : List (String × Json)} {k : Key}

theorem settleEvidence_setAll (he : "settle_evidence" ∉ sets.map Prod.fst) :
    settleEvidence (m.setAll sets) = settleEvidence m := by
  rw [settleEvidence, OrderedMap.get_setAll_of_notMem he, settleEvidence]

theorem holds_setAll (he : "settle_evidence" ∉ sets.map Prod.fst) (hk : Holds m k) :
    Holds (m.setAll sets) k := by
  cases k with
  | top k => exact OrderedMap.mem_keys_setAll.mpr (Or.inr hk)
  | evidence k =>
    rw [Holds, settleEvidence_setAll he]
    exact hk

theorem holds_of_keysOf (hk : k ∈ keysOf sets) : Holds (m.setAll sets) k := by
  obtain ⟨e, he, rfl⟩ := List.mem_map.mp hk
  exact OrderedMap.mem_keys_setAll.mpr (Or.inl (List.mem_map_of_mem he))

theorem heldIn_setAll (hh : "manual_hold_reason" ∉ sets.map Prod.fst) :
    heldIn (m.setAll sets) = heldIn m := by
  rw [heldIn, OrderedMap.get_setAll_of_notMem hh, heldIn]

theorem holds_eraseAll {ks : List String} (he : "settle_evidence" ∉ ks)
    (hn : k ∉ ks.map Key.top) (hk : Holds m k) : Holds (m.eraseAll ks) k := by
  cases k with
  | top k =>
    refine (OrderedMap.mem_keys_eraseAll ?_).mpr hk
    intro hmem
    exact hn (List.mem_map_of_mem hmem)
  | evidence k =>
    rw [Holds, settleEvidence, OrderedMap.get_eraseAll he]
    exact hk

theorem keys_spread {old : List (String × Json)} {x : String} :
    x ∈ (spread old new).map Prod.fst ↔ x ∈ old.map Prod.fst ∨ x ∈ new.map Prod.fst := by
  have hold : (old.map fun e => (e.1, (new.lookup e.1).getD e.2)).map Prod.fst =
      old.map Prod.fst := by
    rw [List.map_map]
    rfl
  rw [spread, List.map_append, List.mem_append, hold]
  refine ⟨?_, ?_⟩
  · intro h
    refine h.imp_right fun h => ?_
    obtain ⟨e, he, rfl⟩ := List.mem_map.mp h
    exact List.mem_map_of_mem (List.mem_of_mem_filter he)
  · intro h
    by_cases hx : x ∈ old.map Prod.fst
    · exact Or.inl hx
    · obtain ⟨e, he, rfl⟩ := List.mem_map.mp (h.resolve_left hx)
      exact Or.inr (List.mem_map_of_mem (List.mem_filter.mpr ⟨he, by simpa using hx⟩))

section SettledFields

variable {row : MarketRow} {r : SettleResult} {now : String}

theorem settleEvidence_settledFields :
    settleEvidence (settledFields row r now) =
      spread (settleEvidence row.metadata.parse) (evidence r now) := by
  rw [settleEvidence, settledFields, OrderedMap.get_set, if_pos rfl]
  rfl

theorem holds_settledFields (hk : Holds row.metadata.parse k) :
    Holds (settledFields row r now) k := by
  cases k with
  | top k => exact OrderedMap.mem_keys_set.mpr (Or.inr hk)
  | evidence k =>
    rw [Holds, settleEvidence_settledFields, keys_spread]
    exact Or.inl hk

theorem holds_of_evidenceKeys (hk : k ∈ evidenceKeys r now) :
    Holds (settledFields row r now) k := by
  rcases List.mem_cons.mp hk with rfl | hk
  · exact OrderedMap.mem_keys_set.mpr (Or.inl rfl)
  · obtain ⟨e, he, rfl⟩ := List.mem_map.mp hk
    rw [Holds, settleEvidence_settledFields, keys_spread]
    exact Or.inr (List.mem_map_of_mem he)

theorem heldIn_settledFields : heldIn (settledFields row r now) = manualHoldGate row := by
  rw [heldIn, settledFields, OrderedMap.get_set, if_neg (by decide), manualHoldGate, heldIn]

end SettledFields

/-! ### Single changes of the text -/

section Text

variable {t t' : MetadataText}

theorem parse_jsonSet (hn : t ≠ .null) (h : t.jsonSet sets = some t') :
    t'.parse = t.parse.setAll sets := by
  cases t with
  | null => exact absurd rfl hn
  | malformed => cases h
  | object fields =>
    obtain rfl := Option.some.inj h
    rfl

theorem parse_jsonRemove {ks : List String} (h : t.jsonRemove ks = some t') :
    t'.parse = t.parse.eraseAll ks := by
  cases t with
  | null =>
    obtain rfl := Option.some.inj h
    rfl
  | malformed => cases h
  | object fields =>
    obtain rfl := Option.some.inj h
    rfl

theorem parse_mark (t : MetadataText) (sets : List (String × Json)) :
    (t.mark sets).parse = t.parse ∧ t.marked sets = [] ∨
      (t.mark sets).parse = t.parse.setAll sets ∧ t.marked sets = keysOf sets := by
  cases t with
  | null => exact Or.inr ⟨rfl, rfl⟩
  | malformed => exact Or.inl ⟨rfl, rfl⟩
  | object fields => exact Or.inr ⟨rfl, rfl⟩

end Text

/-! ### Nothing is lost in one step -/

/-- What is owed is there, and a hold that is owed is not null. -/
structure Owing (owed : List Key) (fields : OrderedMap String Json) : Prop where
  holds : ∀ k ∈ owed, Holds fields k
  held : Key.top "manual_hold_reason" ∈ owed → heldIn fields = true

variable {owed keys : List Key} {m' : OrderedMap String Json}

/-- A change that only adds. -/
theorem Owing.append (h : Owing owed m) (hkeep : ∀ k, Holds m k → Holds m' k)
    (hheld : heldIn m = true → heldIn m' = true) (hnew : ∀ k ∈ keys, Holds m' k)
    (hhold : Key.top "manual_hold_reason" ∈ keys → heldIn m' = true) :
    Owing (owed ++ keys) m' := by
  refine ⟨?_, ?_⟩
  · intro k hk
    rcases List.mem_append.mp hk with hk | hk
    · exact hkeep k (h.holds k hk)
    · exact hnew k hk
  · intro hk
    rcases List.mem_append.mp hk with hk | hk
    · exact hheld (h.held hk)
    · exact hhold hk

theorem Owing.setAll (h : Owing owed m) (he : "settle_evidence" ∉ sets.map Prod.fst)
    (hh : "manual_hold_reason" ∉ sets.map Prod.fst) :
    Owing (owed ++ keysOf sets) (m.setAll sets) := by
  refine h.append (fun k => holds_setAll he) ?_ (fun k => holds_of_keysOf) ?_
  · rw [heldIn_setAll hh]
    exact id
  · intro hk
    obtain ⟨e, hmem, heq⟩ := List.mem_map.mp hk
    exact absurd (List.mem_map.mpr ⟨e, hmem, Key.top.inj heq⟩) hh

theorem Owing.mark {t : MetadataText} (h : Owing owed t.parse)
    (he : "settle_evidence" ∉ sets.map Prod.fst)
    (hh : "manual_hold_reason" ∉ sets.map Prod.fst) :
    Owing (owed ++ t.marked sets) (t.mark sets).parse := by
  rcases parse_mark t sets with ⟨hp, hm⟩ | ⟨hp, hm⟩
  · rw [hp, hm, List.append_nil]
    exact h
  · rw [hp, hm]
    exact h.setAll he hh

theorem Owing.eraseAll {ks : List String} (h : Owing owed m) (he : "settle_evidence" ∉ ks) :
    Owing (owed.filter (· ∉ ks.map Key.top)) (m.eraseAll ks) := by
  refine ⟨?_, ?_⟩
  · intro k hk
    obtain ⟨hmem, hn⟩ := List.mem_filter.mp hk
    exact holds_eraseAll he (by simpa using hn) (h.holds k hmem)
  · intro hk
    obtain ⟨hmem, hn⟩ := List.mem_filter.mp hk
    have hnot : "manual_hold_reason" ∉ ks := by
      intro hks
      exact (by simpa using hn : Key.top "manual_hold_reason" ∉ ks.map Key.top)
        (List.mem_map_of_mem hks)
    rw [heldIn, OrderedMap.get_eraseAll hnot]
    exact h.held hmem

theorem Owing.putBack {now old : MarketRow} (h : Owing owed now.metadata.parse)
    (hu : UpToDate now old) : Owing owed old.metadata.parse where
  holds k hk := hu.holds k (h.holds k hk)
  held hk := hu.gated (h.held hk)

/-- A step that clears nothing. -/
theorem filter_nil_clears : owed.filter (· ∉ ([] : List Key)) = owed := by simp

section Step

variable {w w' : World} {tick : Nat}

theorem owing_setManualHold {reason now : String} (h : Owing owed w.row.metadata.parse)
    (hn : w.row.metadata ≠ .null)
    (hs : (setManualHold w.row.metadata reason now).map w.setMetadata = some w') :
    Owing (owed ++ holdKeys.map Key.top) w'.row.metadata.parse := by
  obtain ⟨t, ht, rfl⟩ := Option.map_eq_some_iff.mp hs
  have he : "settle_evidence" ∉
      [("manual_hold_reason", Json.str reason), ("manual_hold_at", .str now)].map Prod.fst := by
    simp
  rw [World.setMetadata_metadata, parse_jsonSet hn ht]
  have hheld : heldIn (w.row.metadata.parse.setAll
      [("manual_hold_reason", .str reason), ("manual_hold_at", .str now)]) = true := by
    rw [heldIn, OrderedMap.setAll, List.foldl_cons, List.foldl_cons, List.foldl_nil,
      OrderedMap.get_set, if_neg (by simp), OrderedMap.get_set, if_pos rfl]
  exact h.append (fun k => holds_setAll he) (fun _ => hheld) (fun k hk => holds_of_keysOf hk)
    fun _ => hheld

theorem owing_repeatMarker (h : Owing owed w.row.metadata.parse) (sig : String) :
    Owing (owed ++ w.row.metadata.marked (repeatMarker w.row sig))
      (w.row.metadata.mark (repeatMarker w.row sig)).parse := by
  have hkeys : "settle_evidence" ∉ (repeatMarker w.row sig).map Prod.fst ∧
      "manual_hold_reason" ∉ (repeatMarker w.row sig).map Prod.fst := by
    unfold repeatMarker
    split <;> simp
  exact h.mark hkeys.1 hkeys.2

theorem owing_rejudge {market : MarketRow} (h : Owing owed w.row.metadata.parse)
    (hu : UpToDate w.row market) (nowIso : String) :
    Owing (owed ++ keysOf (umaMarker market.metadata.parse nowIso))
      (rejudgedFields market nowIso) := by
  have hkeys : "settle_evidence" ∉ (umaMarker market.metadata.parse nowIso).map Prod.fst ∧
      "manual_hold_reason" ∉ (umaMarker market.metadata.parse nowIso).map Prod.fst := by
    unfold umaMarker
    split <;> simp
  exact (h.putBack hu).setAll hkeys.1 hkeys.2

theorem owing_finish {market row : MarketRow} {attempt : Nat} {outcome : Outcome}
    (h : Owing owed w.row.metadata.parse)
    (hu : ∀ r now, outcome = .settled r now → UpToDate w.row row) :
    Owing (owed ++ (Action.finish tick outcome).writes w)
      (finish w tick market row attempt outcome).row.metadata.parse := by
  cases outcome with
  | walkExhausted => exact h.mark (by decide) (by decide)
  | failed failure =>
    rw [show (Action.finish tick (.failed failure)).writes w = [] from rfl, List.append_nil]
    exact h
  | settled r now =>
    refine (h.putBack (hu r now rfl)).append (fun k => holds_settledFields) ?_
      (fun k => holds_of_evidenceKeys) ?_
    · intro hh
      exact heldIn_settledFields.trans hh
    · intro hk
      obtain ⟨e, -, heq⟩ := List.mem_map.mp ((List.mem_cons.mp hk).resolve_left (by decide))
      cases heq

end Step

theorem owing_step {s s' : Traced} {a : Action} (h : Owing s.owed s.world.row.metadata.parse)
    (hc : Careful s.world a) (hs : traced s a = some s') :
    Owing s'.owed s'.world.row.metadata.parse := by
  obtain ⟨w, hw, rfl⟩ := Option.map_eq_some_iff.mp hs
  have hnone : ∀ b : Action, b.clears = [] → s.owed.filter (· ∉ b.clears) = s.owed := by
    intro b hb
    rw [hb, filter_nil_clears]
  cases a with
  | setManualHold reason now =>
    rw [hnone _ rfl]
    exact owing_setManualHold h hc hw
  | clearManualHold =>
    obtain ⟨t, ht, rfl⟩ := Option.map_eq_some_iff.mp hw
    rw [clearManualHold, Option.ite_none_right_eq_some] at ht
    rw [World.setMetadata_metadata, parse_jsonRemove ht.2]
    exact (List.append_nil _).symm ▸ h.eraseAll (by decide)
  | clearRepeatOffenderMarker =>
    obtain ⟨t, ht, rfl⟩ := Option.map_eq_some_iff.mp hw
    rw [clearRepeatOffenderMarker, Option.ite_none_right_eq_some] at ht
    rw [World.setMetadata_metadata, parse_jsonRemove ht.2]
    exact (List.append_nil _).symm ▸ h.eraseAll (by decide)
  | select tick view =>
    rw [hnone _ rfl]
    simp only [step] at hw
    split at hw
    · rw [Option.ite_none_right_eq_some] at hw
      obtain rfl := Option.some.inj hw.2
      exact (List.append_nil _).symm ▸ h
    · cases hw
  | attempt tick =>
    rw [hnone _ rfl]
    simp only [step] at hw
    split at hw
    · obtain rfl := Option.some.inj hw
      exact (List.append_nil _).symm ▸ h
    · cases hw
  | finish tick outcome =>
    rw [hnone _ rfl]
    simp only [step] at hw
    split at hw
    · next market row attempt hphase =>
      obtain rfl := Option.some.inj hw
      refine owing_finish h ?_
      intro r now heq
      subst heq
      exact hc market row attempt hphase
    · cases hw
  | repeatFailure tick sig =>
    rw [hnone _ rfl]
    simp only [step] at hw
    split at hw
    · obtain rfl := Option.some.inj hw
      exact owing_repeatMarker h sig
    · cases hw
  | scheduleUmaRejudge tick nowIso timedOut =>
    rw [hnone _ rfl]
    simp only [step] at hw
    split at hw
    · next market hphase =>
      obtain rfl := Option.some.inj hw
      simp only [Action.writes, hphase]
      exact owing_rejudge h (hc market hphase) nowIso
    · cases hw
  | giveUp tick =>
    rw [hnone _ rfl]
    simp only [step] at hw
    split at hw <;> cases hw <;> exact (List.append_nil _).symm ▸ h

/-! ### Nothing is lost in a run -/

theorem not_selected {m : MarketRow} (h : manualHoldGate m = true) (view : TickView) :
    selectRipeMarkets m view = false := by
  rw [selectRipeMarkets, h]
  simp

theorem Owing.kept {s : Traced} (h : Owing s.owed s.world.row.metadata.parse) : Kept s where
  holds := h.holds
  gated hk := not_selected (h.held hk)

/-- **In a run that puts back no object older than the keys of the row, nothing is lost.** -/
theorem metadata_kept (row : MarketRow) {as : List Action} {s : Traced}
    (h : Run (fun s a s' => Careful s.world a ∧ traced s a = some s') (start row) as s) :
    Kept s := by
  have hstart : Owing (start row).owed (start row).world.row.metadata.parse :=
    ⟨fun k hk => absurd hk List.not_mem_nil, fun hk => absurd hk List.not_mem_nil⟩
  refine (h.invariant (I := fun s => Owing s.owed s.world.row.metadata.parse) ?_ hstart).kept
  intro s a s' hs ha
  exact owing_step hs ha.1 ha.2

/-! ### A settlement in flight -/

def ripeRow : MarketRow where
  metadata := .object .empty
  protocol_status := .verifying
  settle_txid := none
  deadline_daa := 58695372

def ripeView : TickView where
  currentDaa := 58700000
  floor := some 56983539
  others := true

/-- The close landed, the only claim did not. -/
def partialResult : SettleResult where
  closeTxid := "c1"
  payoutRoot := "f0"
  winDir := 0
  winners := 1
  claims := [⟨"aa", "100000000", none, false, some "claim not landed"⟩]
  complete := false
  needsManualAttribution := false
  consolidatedPool := some "200000000"

/-- A settlement with nobody in between, and a hold after it. -/
def aloneRun : List Action :=
  [.select 0 ripeView, .attempt 0, .finish 0 (.settled partialResult "10:00"),
    .setManualHold "reconcile" "10:01"]

theorem metadata_kept_alone :
    ∃ s, aloneRun.foldlM traced (start ripeRow) = some s ∧ Kept s := by
  refine ⟨_, rfl, @metadata_kept ripeRow aloneRun _ ?_⟩
  refine .cons ⟨trivial, rfl⟩ (.cons ⟨trivial, rfl⟩ ?_)
  refine .cons ⟨?_, rfl⟩ (.cons ⟨?_, rfl⟩ (.nil _))
  · intro market row attempt h
    cases h
    exact ⟨fun _ => id, id⟩
  · intro h
    cases h

/-- The hold is set while the attempt is in flight, and the market is ripe again after it. -/
theorem hold_lost :
    ¬ ∀ row as s, Run (fun s a s' => traced s a = some s') (start row) as s → Kept s := by
  intro h
  have hrun : ∃ s, [.select 0 ripeView, .attempt 0, .setManualHold "reconcile" "10:00",
      .finish 0 (.settled partialResult "10:01")].foldlM traced (start ripeRow) = some s ∧
      Key.top "manual_hold_reason" ∈ s.owed ∧ selectRipeMarkets s.world.row ripeView = true :=
    ⟨_, rfl, by decide, by decide⟩
  obtain ⟨s, hs, howed, hripe⟩ := hrun
  have hgated := (h ripeRow _ s (Run.of_foldlM hs)).gated howed ripeView
  rw [hripe] at hgated
  cases hgated

end KANet.Settle.Metadata
