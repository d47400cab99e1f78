import KANet.Lib.Runs
import KANet.Trade.ExchangeMachine
import Mathlib.Algebra.Order.Floor.Ring
import Mathlib.Data.Rat.Floor

/-!
# `bettor-prediction-settler.js`: the custodial payout

`settlePredictionOutcomes` selects the predictions that are over, has each verified, and pays the
winner out of the escrow relay's own coins.  A tick is a walk over the rows it has selected; it
waits for the verification, for the configuration and for every attempt to pay, and the process may
be restarted wherever it waits.

The status goes to `delivering` before anything is paid, and `delivering` is none of the statuses
that a tick selects.  What `transition` does not allow it only logs, and the settler goes on.

Offers with a contract of their own are settled by another path and are left out, and so are the
log of reputations, the messages and the times.  Amounts are exact.

* `step_inv` — what one step keeps.
* `exactly_once` — what a run of ticks pays, and when.
-/

namespace KANet.Predict.Custodial

open KANet.Lib
open KANet.Trade (truthy)
open KANet.Trade.Exchange (OfferId Status VALID_TRANSITIONS TERMINAL valid_of_terminal)

/-! ### Offers -/

/-- `metadata`, with what the settler reads and writes. -/
structure Metadata where
  stake_locked_kas : Option ℚ := none
  settle_winner : Option String := none
  maker_outcome_side : Option String := none
  maker_won : Option Bool := none
  settle_kas_delta : Option ℚ := none
  payout_tx : Option String := none
  payout_target : Option String := none
  settle_outcome_phase : Option String := none
deriving DecidableEq

/-- A row of `exchange_offers`; the amounts are what `parseFloat` makes of them, nothing for a
NaN. -/
structure Offer where
  id : OfferId
  give_asset : String
  want_asset : String
  want_amount : Option ℚ
  maker : Option String
  maker_kaspa_addr : Option String
  taker : Option String
  outcome_side : Option String
  outcome_end_date : Option Nat
  protocol_status : Status
  metadata : Metadata
deriving DecidableEq

abbrev Db := Table Offer.id

def SHARE : String := "prediction_outcome_share"

/-- It is a prediction, and it is over. -/
def Offer.due (o : Offer) (now : Nat) : Bool :=
  (o.give_asset = SHARE || o.want_asset = SHARE) && o.outcome_end_date.any (· ≤ now)

def SELECTED : List Status := [.matched, .verifying, .collecting_sigs]

/-- The rows that a tick selects. -/
def expired (db : Db) (now : Nat) : List Offer :=
  db.rows.filter fun o => o.due now && o.protocol_status ∈ SELECTED

def Offer.move (o : Offer) (newStatus : Status) (metadata : Option Metadata) : Offer :=
  { o with protocol_status := newStatus, metadata := metadata.getD o.metadata }

theorem Offer.move_id (o : Offer) (newStatus : Status) (metadata : Option Metadata) :
    (o.move newStatus metadata).id = o.id := rfl

/-- `transition(id, newStatus, { metadata })`: what is not allowed is logged and changes nothing. -/
def transition (db : Db) (id : OfferId) (newStatus : Status) (metadata : Option Metadata) : Db :=
  match db.get id with
  | none => db
  | some offer =>
    if offer.protocol_status ∈ TERMINAL then db
    else if newStatus ∉ VALID_TRANSITIONS offer.protocol_status then db
    else db.updateWhere (fun o => o.id = id) (fun o => o.move newStatus metadata)
      (fun o => o.move_id newStatus metadata)

/-- `parseFloat(meta.stake_locked_kas) || parseFloat(offer.want_amount) || 0` -/
def Offer.stakeKas (o : Offer) : ℚ :=
  ((o.metadata.stake_locked_kas.filter (· ≠ 0)).or o.want_amount).getD 0

/-- `x.toFixed(8)` -/
def toFixed8 (x : ℚ) : ℚ :=
  if x < 0 then -(⌊-x * 10 ^ 8 + 1 / 2⌋ : ℚ) / 10 ^ 8 else (⌊x * 10 ^ 8 + 1 / 2⌋ : ℚ) / 10 ^ 8

def Offer.makerWon (o : Offer) (winner : String) : Bool := o.outcome_side = some winner

def Offer.winnerAddr (o : Offer) (winner : String) : Option String :=
  if o.makerWon winner then (truthy o.maker_kaspa_addr).or (truthy o.maker) else truthy o.taker

/-- The address is one of the chain. -/
def onKaspa (addr : String) : Bool :=
  "kaspa:".toList.isPrefixOf addr.toList || "kaspatest:".toList.isPrefixOf addr.toList

def Offer.metaAfterDetect (o : Offer) (winner : String) : Metadata :=
  { o.metadata with
    settle_winner := some winner
    maker_outcome_side := o.outcome_side
    maker_won := some (o.makerWon winner)
    settle_kas_delta := some (if o.makerWon winner then o.stakeKas else -o.stakeKas) }

def Offer.metaFinal (o : Offer) (winner payoutTxId winnerAddr : String) : Metadata :=
  { o.metaAfterDetect winner with
    payout_tx := some payoutTxId
    payout_target := some winnerAddr
    settle_outcome_phase := some "paid" }

/-! ### Ticks -/

/-- What verifying an offer gives. -/
inductive Verdict
  | failed | pending | resolved (winner : String)
deriving DecidableEq

/-- How far the settler is with an offer. -/
inductive Stage
  | begin
  | verify
  | deliver (winner : String)
  | lookup (winner : String)
  | attempt (winner winnerAddr escrowRelay : String) (n : Nat)
  | complete (winner winnerAddr payoutTxId : String)
deriving DecidableEq

/-- A tick under way: the offer at hand as it was selected, and those still to come. -/
structure Tick where
  offer : Offer
  stage : Stage
  rest : List Offer
deriving DecidableEq

/-- A transfer that took effect. -/
structure Payment where
  offer : OfferId
  relay : String
  target : String
  amount : ℚ
  tx : String
deriving DecidableEq

/-- `payments` is the chain's; `found` are the offers that a tick has found resolved, which the
settler does not keep. -/
structure Sys where
  db : Db
  tick : Option Tick
  clock : Nat
  payments : List Payment
  found : List OfferId

inductive Event
  /-- The cron fires. -/
  | tick (now : Nat)
  /-- A status is written, or the write throws. -/
  | write (ok : Bool)
  | verified (verdict : Verdict)
  /-- The relay of the configured escrow address, if both are there. -/
  | config (escrowRelay : Option String)
  /-- A transfer command: what it did, and what came back. -/
  | sent (onChain reply : Option String)
  | restart

def PAYOUT_MAX_ATTEMPTS : Nat := 3

/-- The tick goes on with the first of these. -/
def goOn : List Offer → Option Tick
  | [] => none
  | o :: rest => some ⟨o, .begin, rest⟩

/-- What an answer does to a tick. -/
def advance (s : Sys) (t : Tick) : Event → Option Sys
  | .write ok =>
    match t.stage with
    | .begin =>
      some { s with
        db := if t.offer.protocol_status = .matched ∧ ok = true then
            transition s.db t.offer.id .verifying none
          else s.db
        tick := some { t with stage := .verify } }
    | .deliver winner =>
      if ok then
        some { s with
          db := transition s.db t.offer.id .delivering none
          tick := some { t with stage := .lookup winner } }
      else some { s with tick := goOn t.rest }
    | .complete winner winnerAddr payoutTxId =>
      some { s with
        db := if ok then
            transition s.db t.offer.id .completed
              (some (t.offer.metaFinal winner payoutTxId winnerAddr))
          else s.db
        tick := goOn t.rest }
    | _ => none
  | .verified verdict =>
    match t.stage, verdict with
    | .verify, .resolved winner =>
      some { s with
        tick := some { t with stage := .deliver winner }
        found := t.offer.id :: s.found }
    | .verify, _ => some { s with tick := goOn t.rest }
    | _, _ => none
  | .config escrowRelay =>
    match t.stage with
    | .lookup winner =>
      match (t.offer.winnerAddr winner).filter onKaspa, escrowRelay with
      | some winnerAddr, some relay =>
        some { s with tick := some { t with stage := .attempt winner winnerAddr relay 1 } }
      -- left in `delivering`
      | _, _ => some { s with tick := goOn t.rest }
    | _ => none
  | .sent onChain reply =>
    match t.stage with
    | .attempt winner winnerAddr relay n =>
      some { s with
        payments := s.payments ++
          onChain.toList.map fun tx =>
            ⟨t.offer.id, relay, winnerAddr, toFixed8 t.offer.stakeKas, tx⟩
        tick := match truthy reply with
          | some payoutTxId => some { t with stage := .complete winner winnerAddr payoutTxId }
          | none =>
            if n < PAYOUT_MAX_ATTEMPTS then
              some { t with stage := .attempt winner winnerAddr relay (n + 1) }
            -- left in `delivering`
            else goOn t.rest }
    | _ => none
  | _ => none

/-- A tick that finds another under way is skipped. -/
def step (s : Sys) : Event → Option Sys
  | .tick now =>
    if now < s.clock then none
    else some { s with clock := now, tick := s.tick.or (goOn (expired s.db now)) }
  | .restart => some { s with tick := none }
  | ev => s.tick.bind fun t => advance s t ev

/-! ### Paid exactly once -/

def Sys.paidTimes (s : Sys) (id : OfferId) : Nat := s.payments.countP fun p => p.offer = id

def Offer.recorded (o : Offer) : Bool := o.metadata.payout_tx.isSome

/-- **Every resolved offer is paid once.**  None is paid more often; one whose payout is recorded
has been paid; and one without is selected by every later tick. -/
structure Sys.ExactlyOnce (s : Sys) : Prop where
  once : ∀ id, s.paidTimes id ≤ 1
  recorded : ∀ id ∈ s.found, ∀ o, s.db.get id = some o → o.recorded = true → s.paidTimes id = 1
  again : s.tick = none → ∀ id ∈ s.found, ∃ o, s.db.get id = some o ∧
    (o.recorded = true ∨ ∀ now, s.clock ≤ now → o ∈ expired s.db now)

/-- Nothing goes wrong from `delivering` on: the row is in `verifying` when it is moved there, the
winner has an address and the escrow a relay, an attempt says what it did and the last one is good,
the payout is recorded, and the process is not restarted in between. -/
def Tick.Proper (db : Db) (t : Tick) (ev : Event) : Prop :=
  match t.stage, ev with
  | .deliver _, .write true => (db.get t.offer.id).map Offer.protocol_status = some .verifying
  | .lookup winner, .config escrowRelay =>
    ((t.offer.winnerAddr winner).filter onKaspa).isSome = true ∧ escrowRelay.isSome = true
  | .attempt _ _ _ n, .sent onChain reply =>
    onChain = truthy reply ∧ (PAYOUT_MAX_ATTEMPTS ≤ n → onChain.isSome = true)
  | .complete _ _ _, .write ok => ok = true
  | .lookup _, .restart => False
  | .attempt _ _ _ _, .restart => False
  | .complete _ _ _, .restart => False
  | _, _ => True

def Sys.Proper (s : Sys) (ev : Event) : Prop := ∀ t, s.tick = some t → t.Proper s.db ev

/-- The service as it starts: nothing is under way, and no offer that a tick would select has been
paid. -/
structure Sys.Fresh (s : Sys) : Prop where
  tick : s.tick = none
  payments : s.payments = []
  found : s.found = []
  unpaid : ∀ id o, s.db.get id = some o → o.protocol_status ∈ SELECTED → o.recorded = false

/-! ### The table -/

/-- A transition that is allowed moves its row; any other changes nothing. -/
theorem transition_cases (db : Db) (id : OfferId) (st : Status) (m : Option Metadata) :
    (∃ o, db.get id = some o ∧ st ∈ VALID_TRANSITIONS o.protocol_status ∧
      ∀ x, (transition db id st m).get x = if x = id then some (o.move st m) else db.get x) ∨
    ((∀ o, db.get id = some o → st ∉ VALID_TRANSITIONS o.protocol_status) ∧
      transition db id st m = db) := by
  unfold transition
  split
  · next hnone =>
    refine Or.inr ⟨?_, rfl⟩
    intro o ho
    rw [hnone] at ho
    cases ho
  · next o ho =>
    have hinvalid : st ∉ VALID_TRANSITIONS o.protocol_status →
        ∀ o', db.get id = some o' → st ∉ VALID_TRANSITIONS o'.protocol_status := by
      intro hst o' ho'
      rw [ho] at ho'
      obtain rfl := Option.some.inj ho'
      exact hst
    split
    · next hterm =>
      refine Or.inr ⟨hinvalid ?_, rfl⟩
      rw [valid_of_terminal hterm]
      exact List.not_mem_nil
    · split
      · next hst => exact Or.inr ⟨hinvalid hst, rfl⟩
      · next hst =>
        refine Or.inl ⟨o, ho, not_not.mp hst, ?_⟩
        intro x
        rw [Table.get_updateWhere]
        by_cases hx : x = id
        · subst hx
          have hid : o.id = x := Table.key_of_get ho
          simp [ho, hid]
        · rw [if_neg hx]
          cases hget : db.get x with
          | none => rfl
          | some r =>
            have hid : r.id = x := Table.key_of_get hget
            simp [hid, hx]

theorem get_transition {db : Db} {id : OfferId} {st : Status} {m : Option Metadata} {o : Offer}
    (h : db.get id = some o) (hvalid : st ∈ VALID_TRANSITIONS o.protocol_status) (x : OfferId) :
    (transition db id st m).get x = if x = id then some (o.move st m) else db.get x := by
  rcases transition_cases db id st m with ⟨o', ho', -, hget⟩ | ⟨hinvalid, -⟩
  · rw [h] at ho'
    obtain rfl := Option.some.inj ho'
    exact hget x
  · exact absurd hvalid (hinvalid o h)

theorem Offer.due_mono {o : Offer} {now now' : Nat} (h : o.due now = true) (hle : now ≤ now') :
    o.due now' = true := by
  unfold Offer.due at h ⊢
  rw [Bool.and_eq_true, Option.any_eq_true] at h ⊢
  obtain ⟨hasset, d, hd, hdue⟩ := h
  refine ⟨hasset, d, hd, ?_⟩
  rw [decide_eq_true_eq] at hdue ⊢
  omega

theorem mem_expired {db : Db} {now : Nat} {o : Offer} :
    o ∈ expired db now ↔ o ∈ db.rows ∧ o.due now = true ∧ o.protocol_status ∈ SELECTED := by
  simp [expired, List.mem_filter]

/-! ### The invariant -/

/-- Between `delivering` and the record of the payout. -/
def Stage.paying : Stage → Bool
  | .lookup _ => true
  | .attempt _ _ _ _ => true
  | .complete _ _ _ => true
  | _ => false

/-- How often the offer at hand has been paid. -/
def Stage.paidTimes : Stage → Nat
  | .complete _ _ _ => 1
  | _ => 0

theorem Stage.paidTimes_le (st : Stage) : st.paidTimes ≤ 1 := by
  cases st <;> simp [Stage.paidTimes]

/-- The offer at hand has been found resolved. -/
def Stage.resolved : Stage → Bool
  | .begin => false
  | .verify => false
  | _ => true

/-- A tick would select the row. -/
def Waiting (s : Sys) (id : OfferId) : Prop :=
  ∃ o, s.db.get id = some o ∧ o.due s.clock = true ∧ o.protocol_status ∈ SELECTED

def Recorded (s : Sys) (id : OfferId) : Prop :=
  ∃ o, s.db.get id = some o ∧ o.recorded = true ∧ s.paidTimes id = 1

def Paying (s : Sys) (id : OfferId) : Prop :=
  ∃ t, s.tick = some t ∧ t.stage.paying = true ∧ t.offer.id = id

/-- A tick under way. -/
structure Tick.Ok (s : Sys) (t : Tick) : Prop where
  nodup : ((t.offer :: t.rest).map Offer.id).Nodup
  rest : ∀ o ∈ t.rest, Waiting s o.id
  waiting : t.stage.paying = false → Waiting s t.offer.id
  paying : t.stage.paying = true → ∃ o, s.db.get t.offer.id = some o ∧
    o.protocol_status = .delivering ∧ o.recorded = false ∧
    s.paidTimes t.offer.id = t.stage.paidTimes
  found : t.stage.resolved = true → t.offer.id ∈ s.found

structure Inv (s : Sys) : Prop where
  unpaid : ∀ id o, s.db.get id = some o → o.protocol_status ∈ SELECTED →
    o.recorded = false ∧ s.paidTimes id = 0
  unfound : ∀ id, id ∉ s.found → s.paidTimes id = 0
  found : ∀ id ∈ s.found, Waiting s id ∨ Paying s id ∨ Recorded s id
  tick : ∀ t, s.tick = some t → t.Ok s

section Frames

variable {s s' : Sys} {id x : OfferId} {r : Offer} {t : Tick}

/-- One row has changed, and of what the invariant reads nothing else but the tick. -/
structure Moved (s s' : Sys) (id : OfferId) (r : Offer) : Prop where
  get : ∀ x, s'.db.get x = if x = id then some r else s.db.get x
  clock : s'.clock = s.clock
  payments : s'.payments = s.payments
  found : s'.found = s.found

theorem Sys.paidTimes_congr (h : s'.payments = s.payments) (x : OfferId) :
    s'.paidTimes x = s.paidTimes x := by
  rw [Sys.paidTimes, h, Sys.paidTimes]

theorem Moved.get_ne (h : Moved s s' id r) (hx : x ≠ id) : s'.db.get x = s.db.get x := by
  rw [h.get, if_neg hx]

theorem Moved.get_self (h : Moved s s' id r) : s'.db.get id = some r := by
  rw [h.get, if_pos rfl]

theorem Moved.waiting_iff (h : Moved s s' id r) (hx : x ≠ id) : Waiting s' x ↔ Waiting s x := by
  unfold Waiting
  rw [h.get_ne hx, h.clock]

theorem Moved.recorded_iff (h : Moved s s' id r) (hx : x ≠ id) :
    Recorded s' x ↔ Recorded s x := by
  unfold Recorded
  rw [h.get_ne hx, Sys.paidTimes_congr h.payments]

theorem Tick.Ok.ne_of_mem (h : t.Ok s) {o : Offer} (ho : o ∈ t.rest) : o.id ≠ t.offer.id := by
  intro heq
  have hnodup := h.nodup
  rw [List.map_cons, List.nodup_cons] at hnodup
  exact hnodup.1 (heq ▸ List.mem_map_of_mem ho)

theorem goOn_eq_some {rest : List Offer} (h : goOn rest = some t) :
    rest = t.offer :: t.rest ∧ t.stage = .begin := by
  cases rest with
  | nil => cases h
  | cons o rest =>
    obtain rfl := Option.some.inj h
    exact ⟨rfl, rfl⟩

theorem not_paying_of_tick (ht : s.tick = some t) (hp : t.stage.paying = false) :
    ¬ Paying s x := by
  rintro ⟨t', ht', hpaying, -⟩
  rw [ht] at ht'
  obtain rfl := Option.some.inj ht'
  rw [hp] at hpaying
  cases hpaying

theorem not_paying_of_idle (ht : s.tick = none) : ¬ Paying s x := by
  rintro ⟨t', ht', -⟩
  rw [ht] at ht'
  cases ht'

theorem Inv.found_of_not_paying (h : Inv s) (hp : ∀ x, ¬ Paying s x) :
    ∀ x ∈ s.found, Waiting s x ∨ Recorded s x := by
  intro x hx
  rcases h.found x hx with hw | hpaying | hr
  · exact Or.inl hw
  · exact absurd hpaying (hp x)
  · exact Or.inr hr

/-- With nothing being paid, the tick goes on with rows that wait. -/
theorem Inv.of_goOn {rest : List Offer} (htick : s.tick = goOn rest)
    (hunpaid : ∀ x o, s.db.get x = some o → o.protocol_status ∈ SELECTED →
      o.recorded = false ∧ s.paidTimes x = 0)
    (hunfound : ∀ x, x ∉ s.found → s.paidTimes x = 0)
    (hfound : ∀ x ∈ s.found, Waiting s x ∨ Recorded s x)
    (hnodup : (rest.map Offer.id).Nodup) (hrest : ∀ o ∈ rest, Waiting s o.id) : Inv s := by
  refine ⟨hunpaid, hunfound, ?_, ?_⟩
  · intro x hx
    exact (hfound x hx).imp_right Or.inr
  · intro t ht
    rw [htick] at ht
    obtain ⟨rfl, hstage⟩ := goOn_eq_some ht
    rw [List.forall_mem_cons] at hrest
    refine ⟨hnodup, hrest.2, fun _ => hrest.1, ?_, ?_⟩
    · intro hpaying
      rw [hstage] at hpaying
      cases hpaying
    · intro hresolved
      rw [hstage] at hresolved
      cases hresolved

/-- The offer at hand is left before anything is paid. -/
theorem Inv.leave (h : Inv s) (ht : s.tick = some t) (hp : t.stage.paying = false) :
    Inv { s with tick := goOn t.rest } := by
  have hok := h.tick t ht
  have hnodup := hok.nodup
  rw [List.map_cons, List.nodup_cons] at hnodup
  exact @Inv.of_goOn { s with tick := goOn t.rest } t.rest rfl h.unpaid h.unfound
    (h.found_of_not_paying fun _ => not_paying_of_tick ht hp) hnodup.2 hok.rest

/-- The tick goes on with the same offer, on the same side of `delivering`. -/
theorem Inv.stage (h : Inv s) (ht : s.tick = some t) {st : Stage}
    (hp : st.paying = t.stage.paying) (hpaid : st.paidTimes = t.stage.paidTimes)
    (hr : st.resolved = true → t.offer.id ∈ s.found) :
    Inv { s with tick := some { t with stage := st } } := by
  have hok := h.tick t ht
  refine ⟨h.unpaid, h.unfound, ?_, ?_⟩
  · intro x hx
    refine (h.found x hx).imp_right (Or.imp_left ?_)
    rintro ⟨t', ht', hpaying, hid⟩
    rw [ht] at ht'
    obtain rfl := Option.some.inj ht'
    exact ⟨_, rfl, hp.trans hpaying, hid⟩
  · intro t' ht'
    obtain rfl := Option.some.inj ht'
    refine ⟨hok.nodup, hok.rest, ?_, ?_, hr⟩
    · intro hpaying
      exact hok.waiting (hp.symm.trans hpaying)
    · intro hpaying
      obtain ⟨o, ho, hdelivering, hrecorded, htimes⟩ := hok.paying (hp.symm.trans hpaying)
      exact ⟨o, ho, hdelivering, hrecorded, htimes.trans hpaid.symm⟩

end Frames

/-! ### Steps -/

section Steps

variable {s : Sys} {t : Tick}

theorem Waiting.mono {x : OfferId} {now : Nat} {tick : Option Tick} (h : Waiting s x)
    (hnow : s.clock ≤ now) : Waiting { s with clock := now, tick := tick } x := by
  obtain ⟨o, ho, hdue, hselected⟩ := h
  exact ⟨o, ho, o.due_mono hdue hnow, hselected⟩

/-- The cron fires. -/
theorem Inv.fire (h : Inv s) {now : Nat} (hnow : s.clock ≤ now) :
    Inv { s with clock := now, tick := s.tick.or (goOn (expired s.db now)) } := by
  cases ht : s.tick with
  | none =>
    refine @Inv.of_goOn { s with clock := now, tick := goOn (expired s.db now) }
      (expired s.db now) rfl h.unpaid h.unfound ?_ ?_ ?_
    · intro x hx
      exact (h.found_of_not_paying (fun _ => not_paying_of_idle ht) x hx).imp_left
        fun hw => hw.mono hnow
    · exact (List.filter_sublist.map _).nodup s.db.unique
    · intro o ho
      obtain ⟨hmem, hdue, hselected⟩ := mem_expired.mp ho
      exact ⟨o, Table.get_of_mem hmem, hdue, hselected⟩
  | some t =>
    have hok := h.tick t ht
    refine ⟨h.unpaid, h.unfound, ?_, ?_⟩
    · intro x hx
      rcases h.found x hx with hw | ⟨t', ht', hpaying⟩ | hr
      · exact Or.inl (hw.mono hnow)
      · rw [ht] at ht'
        obtain rfl := Option.some.inj ht'
        exact Or.inr (Or.inl ⟨t, rfl, hpaying⟩)
      · exact Or.inr (Or.inr hr)
    · intro t' ht'
      obtain rfl := Option.some.inj ht'
      exact ⟨hok.nodup, fun o ho => (hok.rest o ho).mono hnow,
        fun hp => (hok.waiting hp).mono hnow, hok.paying, hok.found⟩

/-- `matched → verifying`, whether it is written or not. -/
theorem Inv.begin (h : Inv s) (ht : s.tick = some t) (hstage : t.stage = .begin) {db : Db}
    (hdb : db = s.db ∨ db = transition s.db t.offer.id .verifying none) :
    Inv { s with db := db, tick := some { t with stage := .verify } } := by
  have hp : t.stage.paying = false := by rw [hstage]; rfl
  have hverify : Inv { s with tick := some { t with stage := .verify } } := by
    refine h.stage ht ?_ ?_ ?_
    · rw [hstage]
      rfl
    · rw [hstage]
      rfl
    · intro hr
      cases hr
  rcases hdb with rfl | rfl
  · exact hverify
  rcases transition_cases s.db t.offer.id .verifying none with ⟨o, ho, -, hget⟩ | ⟨-, heq⟩
  · have hok := h.tick t ht
    obtain ⟨o', ho', hdue, hselected⟩ := hok.waiting hp
    rw [ho] at ho'
    obtain rfl := Option.some.inj ho'
    have hmoved : Moved s { s with
        db := transition s.db t.offer.id .verifying none
        tick := some { t with stage := .verify } } t.offer.id (o.move .verifying none) :=
      ⟨hget, rfl, rfl, rfl⟩
    have hself : Waiting { s with
        db := transition s.db t.offer.id .verifying none
        tick := some { t with stage := .verify } } t.offer.id :=
      ⟨_, hmoved.get_self, hdue, (by decide : Status.verifying ∈ SELECTED)⟩
    have hwait : ∀ x, Waiting s x → Waiting { s with
        db := transition s.db t.offer.id .verifying none
        tick := some { t with stage := .verify } } x := by
      intro x hw
      by_cases hx : x = t.offer.id
      · rw [hx]
        exact hself
      · exact (hmoved.waiting_iff hx).mpr hw
    refine ⟨?_, h.unfound, ?_, ?_⟩
    · intro x r hr hsel
      by_cases hx : x = t.offer.id
      · subst hx
        rw [hmoved.get_self] at hr
        obtain rfl := Option.some.inj hr
        exact h.unpaid _ o ho hselected
      · rw [hmoved.get_ne hx] at hr
        exact h.unpaid x r hr hsel
    · intro x hx
      rcases h.found_of_not_paying (fun _ => not_paying_of_tick ht hp) x hx with hw | hr
      · exact Or.inl (hwait x hw)
      · by_cases hxid : x = t.offer.id
        · rw [hxid]
          exact Or.inl hself
        · exact Or.inr (Or.inr ((hmoved.recorded_iff hxid).mpr hr))
    · intro t' ht'
      obtain rfl := Option.some.inj ht'
      refine ⟨hok.nodup, fun x hx => hwait _ (hok.rest x hx), fun _ => hself, ?_, ?_⟩
      · intro hpaying
        cases hpaying
      · intro hr
        cases hr
  · rw [heq]
    exact hverify

/-- The offer at hand is found resolved. -/
theorem Inv.resolve (h : Inv s) (ht : s.tick = some t) (hstage : t.stage = .verify)
    {winner : String} :
    Inv { s with
      tick := some { t with stage := .deliver winner }
      found := t.offer.id :: s.found } := by
  have hok := h.tick t ht
  have hp : t.stage.paying = false := by rw [hstage]; rfl
  have hself := hok.waiting hp
  refine ⟨h.unpaid, ?_, ?_, ?_⟩
  · intro x hx
    exact h.unfound x fun hmem => hx (List.mem_cons_of_mem _ hmem)
  · intro x hx
    rcases List.mem_cons.mp hx with rfl | hx
    · exact Or.inl hself
    · exact (h.found_of_not_paying (fun _ => not_paying_of_tick ht hp) x hx).imp_right Or.inr
  · intro t' ht'
    obtain rfl := Option.some.inj ht'
    refine ⟨hok.nodup, hok.rest, fun _ => hself, ?_, fun _ => List.mem_cons_self⟩
    intro hpaying
    cases hpaying

/-- **The move to `delivering`**, of a row that is in `verifying`. -/
theorem Inv.deliver (h : Inv s) (ht : s.tick = some t) {winner : String}
    (hstage : t.stage = .deliver winner)
    (hverifying : (s.db.get t.offer.id).map Offer.protocol_status = some .verifying) :
    Inv { s with
      db := transition s.db t.offer.id .delivering none
      tick := some { t with stage := .lookup winner } } := by
  have hok := h.tick t ht
  have hp : t.stage.paying = false := by rw [hstage]; rfl
  have hfound : t.offer.id ∈ s.found := hok.found (by rw [hstage]; rfl)
  obtain ⟨o, ho, hstatus⟩ := Option.map_eq_some_iff.mp hverifying
  obtain ⟨hrecorded, hpaid⟩ := h.unpaid _ o ho (by rw [hstatus]; decide)
  have hget := @get_transition _ _ .delivering none _ ho (by rw [hstatus]; decide)
  have hmoved : Moved s { s with
      db := transition s.db t.offer.id .delivering none
      tick := some { t with stage := .lookup winner } } t.offer.id (o.move .delivering none) :=
    ⟨hget, rfl, rfl, rfl⟩
  refine ⟨?_, h.unfound, ?_, ?_⟩
  · intro x r hr hsel
    by_cases hx : x = t.offer.id
    · subst hx
      rw [hmoved.get_self] at hr
      obtain rfl := Option.some.inj hr
      exact absurd hsel (by decide : Status.delivering ∉ SELECTED)
    · rw [hmoved.get_ne hx] at hr
      exact h.unpaid x r hr hsel
  · intro x hx
    by_cases hxid : x = t.offer.id
    · exact Or.inr (Or.inl ⟨_, rfl, rfl, hxid.symm⟩)
    · rcases h.found_of_not_paying (fun _ => not_paying_of_tick ht hp) x hx with hw | hr
      · exact Or.inl ((hmoved.waiting_iff hxid).mpr hw)
      · exact Or.inr (Or.inr ((hmoved.recorded_iff hxid).mpr hr))
  · intro t' ht'
    obtain rfl := Option.some.inj ht'
    refine ⟨hok.nodup, ?_, ?_, ?_, fun _ => hfound⟩
    · intro x hx
      exact (hmoved.waiting_iff (hok.ne_of_mem hx)).mpr (hok.rest x hx)
    · intro hpaying
      cases hpaying
    · intro _
      exact ⟨_, hmoved.get_self, rfl, hrecorded, hpaid⟩

/-- **An attempt that pays**, and says so. -/
theorem Inv.paid (h : Inv s) (ht : s.tick = some t) {winner winnerAddr relay payoutTxId : String}
    {n : Nat} (hstage : t.stage = .attempt winner winnerAddr relay n) {p : Payment}
    (hp : p.offer = t.offer.id) :
    Inv { s with
      payments := s.payments ++ [p]
      tick := some { t with stage := .complete winner winnerAddr payoutTxId } } := by
  have hok := h.tick t ht
  have hpaying : t.stage.paying = true := by rw [hstage]; rfl
  obtain ⟨o, ho, hdelivering, hrecorded, htimes⟩ := hok.paying hpaying
  have hzero : s.paidTimes t.offer.id = 0 := by
    rw [htimes, hstage]
    rfl
  have hone : (s.payments ++ [p]).countP (fun q => q.offer = t.offer.id) = 1 := by
    rw [List.countP_append, List.countP_singleton, if_pos (decide_eq_true hp)]
    exact congrArg (· + 1) hzero
  have hsame : ∀ x, x ≠ t.offer.id →
      (s.payments ++ [p]).countP (fun q => q.offer = x) = s.paidTimes x := by
    intro x hx
    have hne : ¬ p.offer = x := fun heq => hx (heq.symm.trans hp)
    rw [List.countP_append, List.countP_singleton, if_neg (by simpa using hne), Nat.add_zero,
      Sys.paidTimes]
  have hfound : t.offer.id ∈ s.found := hok.found (by rw [hstage]; rfl)
  refine ⟨?_, ?_, ?_, ?_⟩
  · intro x r hr hsel
    have hx : x ≠ t.offer.id := by
      rintro rfl
      rw [ho] at hr
      obtain rfl := Option.some.inj hr
      rw [hdelivering] at hsel
      exact absurd hsel (by decide)
    obtain ⟨hrec, htimes⟩ := h.unpaid x r hr hsel
    exact ⟨hrec, (hsame x hx).trans htimes⟩
  · intro x hx
    have hne : x ≠ t.offer.id := by
      rintro rfl
      exact hx hfound
    exact (hsame x hne).trans (h.unfound x hx)
  · intro x hx
    by_cases hxid : x = t.offer.id
    · exact Or.inr (Or.inl ⟨_, rfl, rfl, hxid.symm⟩)
    · rcases h.found x hx with hw | ⟨t', ht', -, hid⟩ | ⟨r, hr, hrec, htimes⟩
      · exact Or.inl hw
      · rw [ht] at ht'
        obtain rfl := Option.some.inj ht'
        exact absurd hid.symm hxid
      · exact Or.inr (Or.inr ⟨r, hr, hrec, (hsame x hxid).trans htimes⟩)
  · intro t' ht'
    obtain rfl := Option.some.inj ht'
    refine ⟨hok.nodup, hok.rest, ?_, ?_, fun _ => hfound⟩
    · intro hp
      cases hp
    · intro _
      exact ⟨o, ho, hdelivering, hrecorded, hone⟩

/-- **The payout is recorded.** -/
theorem Inv.complete (h : Inv s) (ht : s.tick = some t) {winner winnerAddr payoutTxId : String}
    (hstage : t.stage = .complete winner winnerAddr payoutTxId) :
    Inv { s with
      db := transition s.db t.offer.id .completed
        (some (t.offer.metaFinal winner payoutTxId winnerAddr))
      tick := goOn t.rest } := by
  have hok := h.tick t ht
  have hpaying : t.stage.paying = true := by rw [hstage]; rfl
  obtain ⟨o, ho, hdelivering, -, htimes⟩ := hok.paying hpaying
  have hget := @get_transition _ _ .completed
    (some (t.offer.metaFinal winner payoutTxId winnerAddr)) _ ho (by rw [hdelivering]; decide)
  have hmoved : Moved s { s with
      db := transition s.db t.offer.id .completed
        (some (t.offer.metaFinal winner payoutTxId winnerAddr))
      tick := goOn t.rest } t.offer.id
        (o.move .completed (some (t.offer.metaFinal winner payoutTxId winnerAddr))) :=
    ⟨hget, rfl, rfl, rfl⟩
  have hnodup := hok.nodup
  rw [List.map_cons, List.nodup_cons] at hnodup
  refine Inv.of_goOn rfl ?_ h.unfound ?_ hnodup.2 ?_
  · intro x r hr hsel
    by_cases hx : x = t.offer.id
    · subst hx
      rw [hmoved.get_self] at hr
      obtain rfl := Option.some.inj hr
      exact absurd hsel (by decide : Status.completed ∉ SELECTED)
    · rw [hmoved.get_ne hx] at hr
      exact h.unpaid x r hr hsel
  · intro x hx
    by_cases hxid : x = t.offer.id
    · refine Or.inr ⟨_, by rw [hxid]; exact hmoved.get_self, rfl, ?_⟩
      rw [hxid]
      show s.paidTimes t.offer.id = 1
      rw [htimes, hstage]
      rfl
    · rcases h.found x hx with hw | ⟨t', ht', -, hid⟩ | hr
      · exact Or.inl ((hmoved.waiting_iff hxid).mpr hw)
      · rw [ht] at ht'
        obtain rfl := Option.some.inj ht'
        exact absurd hid.symm hxid
      · exact Or.inr ((hmoved.recorded_iff hxid).mpr hr)
  · intro x hx
    exact (hmoved.waiting_iff (hok.ne_of_mem hx)).mpr (hok.rest x hx)

/-- What an answer keeps, where nothing goes wrong. -/
theorem Inv.advance (h : Inv s) (ht : s.tick = some t) {ev : Event} {s' : Sys}
    (hproper : t.Proper s.db ev) (hstep : advance s t ev = some s') : Inv s' := by
  cases ev with
  | tick now => cases hstep
  | restart => cases hstep
  | write ok =>
    cases hstage : t.stage with
    | begin =>
      simp only [Custodial.advance, hstage, Option.some.injEq] at hstep
      subst hstep
      refine h.begin ht hstage ?_
      split
      · exact Or.inr rfl
      · exact Or.inl rfl
    | deliver winner =>
      simp only [Custodial.advance, hstage] at hstep
      cases ok with
      | true =>
        obtain rfl := Option.some.inj hstep
        refine h.deliver ht hstage ?_
        simpa only [Tick.Proper, hstage] using hproper
      | false =>
        obtain rfl := Option.some.inj hstep
        exact h.leave ht (by rw [hstage]; rfl)
    | complete winner winnerAddr payoutTxId =>
      simp only [Custodial.advance, hstage, Option.some.injEq] at hstep
      simp only [Tick.Proper, hstage] at hproper
      subst hstep
      rw [if_pos hproper]
      exact h.complete ht hstage
    | verify => simp [Custodial.advance, hstage] at hstep
    | lookup winner => simp [Custodial.advance, hstage] at hstep
    | attempt winner winnerAddr relay n => simp [Custodial.advance, hstage] at hstep
  | verified verdict =>
    cases hstage : t.stage with
    | verify =>
      have hp : t.stage.paying = false := by rw [hstage]; rfl
      cases verdict with
      | resolved winner =>
        simp only [Custodial.advance, hstage, Option.some.injEq] at hstep
        subst hstep
        exact h.resolve ht hstage
      | failed =>
        simp only [Custodial.advance, hstage, Option.some.injEq] at hstep
        subst hstep
        exact h.leave ht hp
      | pending =>
        simp only [Custodial.advance, hstage, Option.some.injEq] at hstep
        subst hstep
        exact h.leave ht hp
    | begin => simp [Custodial.advance, hstage] at hstep
    | deliver winner => simp [Custodial.advance, hstage] at hstep
    | lookup winner => simp [Custodial.advance, hstage] at hstep
    | attempt winner winnerAddr relay n => simp [Custodial.advance, hstage] at hstep
    | complete winner winnerAddr payoutTxId => simp [Custodial.advance, hstage] at hstep
  | config escrowRelay =>
    cases hstage : t.stage with
    | lookup winner =>
      simp only [Tick.Proper, hstage, Option.isSome_iff_exists] at hproper
      obtain ⟨⟨winnerAddr, haddr⟩, relay, hrelay⟩ := hproper
      simp only [Custodial.advance, hstage, haddr, hrelay, Option.some.injEq] at hstep
      subst hstep
      refine h.stage ht ?_ ?_ ?_
      · rw [hstage]
        rfl
      · rw [hstage]
        rfl
      · intro _
        exact (h.tick t ht).found (by rw [hstage]; rfl)
    | begin => simp [Custodial.advance, hstage] at hstep
    | verify => simp [Custodial.advance, hstage] at hstep
    | deliver winner => simp [Custodial.advance, hstage] at hstep
    | attempt winner winnerAddr relay n => simp [Custodial.advance, hstage] at hstep
    | complete winner winnerAddr payoutTxId => simp [Custodial.advance, hstage] at hstep
  | sent onChain reply =>
    cases hstage : t.stage with
    | attempt winner winnerAddr relay n =>
      simp only [Tick.Proper, hstage] at hproper
      obtain ⟨rfl, hlast⟩ := hproper
      simp only [Custodial.advance, hstage, Option.some.injEq] at hstep
      subst hstep
      cases hreply : truthy reply with
      | some payoutTxId => exact h.paid ht hstage rfl
      | none =>
        have hmore : n < PAYOUT_MAX_ATTEMPTS := by
          by_contra hdone
          have hpaid := hlast (not_lt.mp hdone)
          rw [hreply] at hpaid
          cases hpaid
        simp only [Option.toList_none, List.map_nil, List.append_nil, if_pos hmore]
        refine h.stage ht ?_ ?_ ?_
        · rw [hstage]
          rfl
        · rw [hstage]
          rfl
        · intro _
          exact (h.tick t ht).found (by rw [hstage]; rfl)
    | begin => simp [Custodial.advance, hstage] at hstep
    | verify => simp [Custodial.advance, hstage] at hstep
    | deliver winner => simp [Custodial.advance, hstage] at hstep
    | lookup winner => simp [Custodial.advance, hstage] at hstep
    | complete winner winnerAddr payoutTxId => simp [Custodial.advance, hstage] at hstep

/-- A restart before anything is paid. -/
theorem Inv.restart (h : Inv s) (hproper : s.Proper .restart) : Inv { s with tick := none } := by
  refine @Inv.of_goOn { s with tick := none } [] rfl h.unpaid h.unfound ?_ List.nodup_nil ?_
  · refine h.found_of_not_paying ?_
    rintro x ⟨t, ht, hpaying, -⟩
    have ht := hproper t ht
    unfold Tick.Proper at ht
    cases hstage : t.stage with
    | lookup winner => rwa [hstage] at ht
    | attempt winner winnerAddr relay n => rwa [hstage] at ht
    | complete winner winnerAddr payoutTxId => rwa [hstage] at ht
    | begin => rw [hstage] at hpaying; cases hpaying
    | verify => rw [hstage] at hpaying; cases hpaying
    | deliver winner => rw [hstage] at hpaying; cases hpaying
  · intro o ho
    cases ho

/-- **What one step keeps.** -/
theorem step_inv {ev : Event} {s' : Sys} (h : Inv s) (hproper : s.Proper ev)
    (hstep : step s ev = some s') : Inv s' := by
  have hanswer : ∀ {ev : Event}, s.Proper ev → (s.tick.bind fun t => advance s t ev) = some s' →
      Inv s' := by
    intro ev hproper hstep
    obtain ⟨t, ht, hadvance⟩ := Option.bind_eq_some_iff.mp hstep
    exact h.advance ht (hproper t ht) hadvance
  cases ev with
  | tick now =>
    simp only [step] at hstep
    split at hstep
    · cases hstep
    · next hnow =>
      obtain rfl := Option.some.inj hstep
      exact h.fire (not_lt.mp hnow)
  | restart =>
    obtain rfl := Option.some.inj hstep
    exact h.restart hproper
  | write ok => exact hanswer hproper hstep
  | verified verdict => exact hanswer hproper hstep
  | config escrowRelay => exact hanswer hproper hstep
  | sent onChain reply => exact hanswer hproper hstep

end Steps

/-! ### Runs -/

/-- The settler takes a step. -/
def Step (s : Sys) (ev : Event) (s' : Sys) : Prop := step s ev = some s'

/-- Every event of a run comes where nothing goes wrong. -/
def ProperRun (s₀ : Sys) (evs : List Event) : Prop :=
  ∀ pre ev post, evs = pre ++ ev :: post → ∀ s, Run Step s₀ pre s → s.Proper ev

theorem Sys.Fresh.inv {s : Sys} (h : s.Fresh) : Inv s := by
  have hzero : ∀ x, s.paidTimes x = 0 := by
    intro x
    rw [Sys.paidTimes, h.payments, List.countP_nil]
  refine ⟨fun x o ho hsel => ⟨h.unpaid x o ho hsel, hzero x⟩, fun x _ => hzero x, ?_, ?_⟩
  · intro x hx
    rw [h.found] at hx
    cases hx
  · intro t ht
    rw [h.tick] at ht
    cases ht

theorem Inv.run {s s' : Sys} {evs : List Event} (h : Inv s) (hrun : Run Step s evs s')
    (hproper : ProperRun s evs) : Inv s' := by
  induction hrun with
  | nil s => exact h
  | @cons s m s' ev evs hstep _ ih =>
    refine ih (step_inv h (hproper [] ev evs rfl s (.nil s)) hstep) ?_
    intro pre ev' post hsplit m' hpre
    exact hproper (ev :: pre) ev' post (by rw [hsplit]; rfl) m' (.cons hstep hpre)

theorem ProperRun.nil (s : Sys) : ProperRun s [] := by
  intro pre ev post hsplit
  cases pre <;> cases hsplit

theorem ProperRun.cons {s m : Sys} {ev : Event} {evs : List Event} (h : s.Proper ev)
    (hstep : Step s ev m) (hrest : ProperRun m evs) : ProperRun s (ev :: evs) := by
  intro pre ev' post hsplit m' hpre
  cases pre with
  | nil =>
    obtain ⟨rfl, -⟩ := List.cons.inj hsplit
    cases hpre
    exact h
  | cons e pre =>
    obtain ⟨rfl, rfl⟩ := List.cons.inj hsplit
    cases hpre with
    | cons hstep' hpre =>
      obtain rfl := Option.some.inj (hstep.symm.trans hstep')
      exact hrest pre ev' post rfl m' hpre

theorem Inv.exactlyOnce {s : Sys} (h : Inv s) : s.ExactlyOnce := by
  have htimes : ∀ x, Waiting s x → s.paidTimes x = 0 := by
    rintro x ⟨o, ho, -, hsel⟩
    exact (h.unpaid x o ho hsel).2
  refine ⟨?_, ?_, ?_⟩
  · intro x
    by_cases hx : x ∈ s.found
    · rcases h.found x hx with hw | ⟨t, ht, hpaying, rfl⟩ | ⟨o, -, -, hone⟩
      · rw [htimes x hw]
        exact Nat.zero_le 1
      · obtain ⟨o, -, -, -, hpaid⟩ := (h.tick t ht).paying hpaying
        rw [hpaid]
        exact t.stage.paidTimes_le
      · exact hone.le
    · rw [h.unfound x hx]
      exact Nat.zero_le 1
  · intro x hx o ho hrecorded
    rcases h.found x hx with ⟨o', ho', -, hsel⟩ | ⟨t, ht, hpaying, rfl⟩ | ⟨o', -, -, hone⟩
    · rw [ho] at ho'
      obtain rfl := Option.some.inj ho'
      rw [(h.unpaid x o ho hsel).1] at hrecorded
      cases hrecorded
    · obtain ⟨o', ho', -, hunrecorded, -⟩ := (h.tick t ht).paying hpaying
      rw [ho] at ho'
      obtain rfl := Option.some.inj ho'
      rw [hunrecorded] at hrecorded
      cases hrecorded
    · exact hone
  · intro htick x hx
    rcases h.found_of_not_paying (fun _ => not_paying_of_idle htick) x hx with
      ⟨o, ho, hdue, hsel⟩ | ⟨o, ho, hrecorded, -⟩
    · refine ⟨o, ho, Or.inr ?_⟩
      intro now hnow
      exact mem_expired.mpr ⟨Table.mem_of_get ho, o.due_mono hdue hnow, hsel⟩
    · exact ⟨o, ho, Or.inl hrecorded⟩

/-- **What a run of ticks pays.** -/
theorem exactly_once {s₀ s : Sys} {evs : List Event} (hfresh : s₀.Fresh)
    (hrun : Run Step s₀ evs s) (hproper : ProperRun s₀ evs) : s.ExactlyOnce :=
  (hfresh.inv.run hrun hproper).exactlyOnce

/-! ### One prediction, won by its maker -/

def sampleOffer : Offer where
  id := "offer"
  give_asset := SHARE
  want_asset := "KAS"
  want_amount := some 10
  maker := some "kaspatest:maker"
  maker_kaspa_addr := none
  taker := some "kaspatest:taker"
  outcome_side := some "YES"
  outcome_end_date := some 100
  protocol_status := .matched
  metadata := {}

def sampleSys : Sys where
  db := ⟨[sampleOffer], List.nodup_singleton _⟩
  tick := none
  clock := 0
  payments := []
  found := []

/-- The offer is at hand. -/
def atStage (s : Sys) (st : Stage) : Sys := { s with tick := some ⟨sampleOffer, st, []⟩ }

def firedSys : Sys := { sampleSys with clock := 100 }

def verifyingSys : Sys :=
  { firedSys with db := transition firedSys.db "offer" .verifying none, found := [] }

def deliveringSys : Sys :=
  { verifyingSys with
    db := transition verifyingSys.db "offer" .delivering none
    found := ["offer"] }

/-- The transfer to the maker. -/
def samplePayment (tx : String) : Payment := 
  ⟨"offer", "relay", "kaspatest:maker", toFixed8 sampleOffer.stakeKas, tx⟩

def paidSys (txs : List String) : Sys := { deliveringSys with payments := txs.map samplePayment }

def completedSys : Sys :=
  { paidSys ["tx"] with
    db := transition deliveringSys.db "offer" .completed
      (some (sampleOffer.metaFinal "YES" "tx" "kaspatest:maker")) }

theorem fresh_sampleSys : sampleSys.Fresh := by
  refine ⟨rfl, rfl, rfl, ?_⟩
  intro id o ho _
  obtain rfl := List.mem_singleton.mp (Table.mem_of_get ho)
  rfl

theorem proper_atStage {s : Sys} {st : Stage} {ev : Event}
    (h : Tick.Proper s.db ⟨sampleOffer, st, []⟩ ev) : (atStage s st).Proper ev := by
  intro t ht
  obtain rfl := Option.some.inj ht
  exact h

def untilLookup : List Event :=
  [.tick 100, .write true, .verified (.resolved "YES"), .write true]

theorem run_untilLookup : Run Step sampleSys untilLookup (atStage deliveringSys (.lookup "YES")) :=
  .cons (m := atStage firedSys .begin) rfl (.cons (m := atStage verifyingSys .verify) rfl
    (.cons (m := atStage { verifyingSys with found := ["offer"] } (.deliver "YES")) rfl
      (.single rfl)))

def goodEvents : List Event :=
  [.config (some "relay"), .sent (some "tx") (some "tx"), .write true]

theorem run_good : Run Step (atStage deliveringSys (.lookup "YES")) goodEvents completedSys :=
  .cons (m := atStage deliveringSys (.attempt "YES" "kaspatest:maker" "relay" 1)) rfl
    (.cons (m := atStage (paidSys ["tx"]) (.complete "YES" "kaspatest:maker" "tx")) rfl
      (.single rfl))

theorem proper_good : ProperRun sampleSys (untilLookup ++ goodEvents) := by
  have htick : sampleSys.Proper (.tick 100) := by
    intro t ht
    cases ht
  refine .cons (m := atStage firedSys .begin) htick rfl ?_
  refine .cons (m := atStage verifyingSys .verify) (proper_atStage trivial) rfl ?_
  refine .cons (m := atStage { verifyingSys with found := ["offer"] } (.deliver "YES"))
    (proper_atStage trivial) rfl ?_
  refine .cons (m := atStage deliveringSys (.lookup "YES")) (proper_atStage rfl) rfl ?_
  refine .cons (m := atStage deliveringSys (.attempt "YES" "kaspatest:maker" "relay" 1))
    (proper_atStage ⟨rfl, rfl⟩) rfl ?_
  refine .cons (m := atStage (paidSys ["tx"]) (.complete "YES" "kaspatest:maker" "tx"))
    (proper_atStage ⟨rfl, fun _ => rfl⟩) rfl ?_
  exact .cons (m := completedSys) (proper_atStage rfl) rfl (.nil _)

theorem exactly_once_sample : completedSys.ExactlyOnce :=
  exactly_once fresh_sampleSys (run_untilLookup.append run_good) proper_good

/-- An attempt that pays and says nothing, and another. -/
def doubleEvents : List Event :=
  [.config (some "relay"), .sent (some "tx") none, .sent (some "tx'") (some "tx'")]

/-- **No escrow relay, and the offer stays in `delivering`**: nothing is paid and no later tick
selects it.  And where an attempt pays and its answer is lost, the winner is paid twice. -/
theorem abandoned_or_paid_twice :
    (∃ s, Run Step sampleSys (untilLookup ++ [.config none]) s ∧ s.tick = none ∧
      s.found = ["offer"] ∧ s.payments = [] ∧ (∀ now, expired s.db now = []) ∧
      ¬ s.ExactlyOnce) ∧
    ∃ s, Run Step sampleSys (untilLookup ++ doubleEvents) s ∧ s.paidTimes "offer" = 2 ∧
      ¬ s.ExactlyOnce := by
  refine ⟨⟨deliveringSys, run_untilLookup.append (.single rfl), rfl, rfl, rfl, ?_, ?_⟩, ?_⟩
  · intro now
    rw [List.eq_nil_iff_forall_not_mem]
    intro o ho
    obtain ⟨hmem, -, hsel⟩ := mem_expired.mp ho
    have hstatus : ∀ o ∈ deliveringSys.db.rows, o.protocol_status ∉ SELECTED := by decide
    exact hstatus o hmem hsel
  · intro h
    obtain ⟨o, ho, hagain⟩ := h.again rfl "offer" List.mem_cons_self
    have hmem := Table.mem_of_get ho
    have hrow : ∀ o ∈ deliveringSys.db.rows, o.recorded = false ∧ o.protocol_status ∉ SELECTED := by
      decide
    rcases hagain with hrecorded | hselected
    · rw [(hrow o hmem).1] at hrecorded
      cases hrecorded
    · exact (hrow o hmem).2 (mem_expired.mp (hselected _ le_rfl)).2.2
  · refine ⟨atStage (paidSys ["tx", "tx'"]) (.complete "YES" "kaspatest:maker" "tx'"),
      run_untilLookup.append (.cons (m := atStage deliveringSys
        (.attempt "YES" "kaspatest:maker" "relay" 1)) rfl (.cons (m := atStage (paidSys ["tx"])
          (.attempt "YES" "kaspatest:maker" "relay" 2)) rfl (.single rfl))), rfl, ?_⟩
    intro h
    have htwice : (atStage (paidSys ["tx", "tx'"])
        (.complete "YES" "kaspatest:maker" "tx'")).paidTimes "offer" = 2 := rfl
    have honce := h.once "offer"
    rw [htwice] at honce
    omega

end KANet.Predict.Custodial
