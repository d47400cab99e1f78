import KANet.Trade.ExchangeMachine

/-!
# Raising a dispute

`processDispute` writes the reason of the dispute and then asks for the move to `disputed`.  It
takes a matched offer too, from which the table has no such move, and does not look at what the
transition has made of it.

* `processDispute_snd` — the rows it leaves are those of `KANet.Trade.ExchangeMachine`.
* `atomic_iff` — it does all or nothing except on a matched offer.
-/

namespace KANet.Trade.Exchange.Raised

open KANet.Lib

/-- What the caller is told. -/
inductive Reply
  | offer_not_found
  | only_parties_can_dispute
  | invalid_status (current : Status)
  | ok
deriving DecidableEq

def Reply.error : Reply → Option String
  | .offer_not_found => some "offer_not_found"
  | .only_parties_can_dispute => some "only_parties_can_dispute"
  | .invalid_status _ => some "invalid_status"
  | .ok => none

def DISPUTABLE : List Status := [.verifying, .awaiting_manual_confirm, .matched]

/-- `reason || 'No reason provided'` -/
def disputeReason (reason : Option String) : String := (truthy reason).getD "No reason provided"

theorem dispute_id (disputer : Option String) (reason : String) (o : Offer) :
    (o.dispute disputer reason).id = o.id := rfl

def processDispute (now : Nat) (db : Db) (offer_id : OfferId) (disputer_address : String)
    (reason : Option String) : Reply × Db :=
  match db.offer offer_id with
  | none => (.offer_not_found, db)
  | some offer =>
    if !offer.isParty (some disputer_address) then (.only_parties_can_dispute, db)
    else if offer.protocol_status ∉ DISPUTABLE then
      (.invalid_status offer.protocol_status, db)
    else
      let db := db.update offer_id (Offer.dispute (some disputer_address) (disputeReason reason))
        (dispute_id _ _)
      (.ok, transition now db offer_id .disputed none)

/-- The offer is disputed, and says by whom and why. -/
def Recorded (db : Db) (id : OfferId) (disputer : String) (reason : Option String) : Prop :=
  ∃ o, db.offer id = some o ∧ o.protocol_status = .disputed ∧
    o.verification_meta.dispute_by = some disputer ∧
    o.verification_meta.dispute_reason = some (disputeReason reason)

/-- The offer and the locks are as they were. -/
def Unchanged (db db' : Db) (id : OfferId) : Prop :=
  db'.offer id = db.offer id ∧ db'.fund_locks = db.fund_locks

/-- **All or nothing**: a dispute is raised and recorded, or nothing is changed. -/
structure Atomic (now : Nat) (db : Db) (id : OfferId) (disputer : String)
    (reason : Option String) : Prop where
  ok : (processDispute now db id disputer reason).1.error = none →
    Recorded (processDispute now db id disputer reason).2 id disputer reason
  error : (processDispute now db id disputer reason).1.error ≠ none →
    Unchanged db (processDispute now db id disputer reason).2 id
  refused : ¬ Moves db id .disputed → Unchanged db (processDispute now db id disputer reason).2 id

/-- A party of the offer calls before the other has paid. -/
def CallsMatched (db : Db) (id : OfferId) (disputer : String) : Prop :=
  ∃ o, db.offer id = some o ∧ o.isParty (some disputer) = true ∧ o.protocol_status = .matched

section

variable {now : Nat} {db : Db} {id : OfferId} {disputer : String} {reason : Option String}

/-- The rows are those of the call that reports nothing. -/
theorem processDispute_snd :
    (processDispute now db id disputer reason).2 =
      Exchange.processDispute now db id disputer reason := by
  unfold processDispute Exchange.processDispute
  cases ho : db.offer id with
  | none => rfl
  | some offer =>
    dsimp only
    have hid : offer.id = id := Db.offer_id ho
    split
    · rfl
    · unfold DISPUTABLE
      split
      · rfl
      · rw [hid]
        rfl

/-- What a call does: it is refused, or writes the dispute and asks for the move. -/
theorem processDispute_cases (now : Nat) (db : Db) (id : OfferId) (disputer : String)
    (reason : Option String) :
    ((processDispute now db id disputer reason).1.error ≠ none ∧
      (processDispute now db id disputer reason).2 = db) ∨
    ∃ o, db.offer id = some o ∧ o.isParty (some disputer) = true ∧
      o.protocol_status ∈ DISPUTABLE ∧
      processDispute now db id disputer reason =
        (.ok, transition now (db.update id
          (Offer.dispute (some disputer) (disputeReason reason)) (dispute_id _ _)) id .disputed
            none) := by
  unfold processDispute
  cases ho : db.offer id with
  | none => exact Or.inl ⟨by simp [Reply.error], rfl⟩
  | some offer =>
    dsimp only
    split
    · exact Or.inl ⟨by simp [Reply.error], rfl⟩
    · next hparty =>
      split
      · exact Or.inl ⟨by simp [Reply.error], rfl⟩
      · next hstatus =>
        exact Or.inr ⟨offer, rfl, by simpa using hparty, not_not.mp hstatus, rfl⟩

theorem offer_dispute (disputer : String) (reason : Option String) {o : Offer}
    (ho : db.offer id = some o) :
    (db.update id (Offer.dispute (some disputer) (disputeReason reason))
      (dispute_id _ _)).offer id = some (o.dispute (some disputer) (disputeReason reason)) := by
  rw [Db.offer_update, if_pos rfl, ho, Option.map_some]

/-- Of the statuses that can be disputed, the table moves all but one. -/
theorem disputed_valid {s : Status} (h : s ∈ DISPUTABLE) :
    Status.disputed ∈ VALID_TRANSITIONS s ↔ s ≠ .matched := by
  revert h
  cases s
  all_goals decide

/-- **A dispute does all or nothing, except where a party of a matched offer raises it.** -/
theorem atomic_iff (now : Nat) (db : Db) (id : OfferId) (disputer : String)
    (reason : Option String) :
    Atomic now db id disputer reason ↔ ¬ CallsMatched db id disputer := by
  rcases processDispute_cases now db id disputer reason with
    ⟨herror, hdb⟩ | ⟨o, ho, hparty, hstatus, heq⟩
  · refine ⟨fun _ hmatched => ?_, fun _ => ⟨fun hok => absurd hok herror, ?_, ?_⟩⟩
    · obtain ⟨o, ho, hparty, hmatched⟩ := hmatched
      refine herror ?_
      simp [processDispute, ho, hparty, hmatched, DISPUTABLE, Reply.error]
    · intro _
      rw [hdb]
      exact ⟨rfl, rfl⟩
    · intro _
      rw [hdb]
      exact ⟨rfl, rfl⟩
  · have hoffer := offer_dispute disputer reason ho
    have hmoves : Moves (db.update id (Offer.dispute (some disputer) (disputeReason reason))
        (dispute_id _ _)) id .disputed ↔ o.protocol_status ≠ .matched := by
      rw [← disputed_valid hstatus]
      refine ⟨?_, fun h => ⟨_, hoffer, h⟩⟩
      rintro ⟨o', ho', h⟩
      rw [hoffer] at ho'
      obtain rfl := Option.some.inj ho'
      exact h
    constructor
    · rintro hatomic ⟨o', ho', -, hmatched⟩
      rw [ho] at ho'
      obtain rfl := Option.some.inj ho'
      -- the reason is written, the move is not made, and the caller is told that it is
      obtain ⟨o', ho', hdisputed, -⟩ := hatomic.ok (by rw [heq]; rfl)
      rw [heq, transition_of_not (hmoves.not.mpr (not_not.mpr hmatched)), hoffer] at ho'
      obtain rfl := Option.some.inj ho'
      have hsame : o.protocol_status = .disputed := hdisputed
      rw [hmatched] at hsame
      cases hsame
    · intro hcalls
      have hnot : o.protocol_status ≠ .matched := fun h => hcalls ⟨o, ho, hparty, h⟩
      refine ⟨fun _ => ?_, fun herror => absurd (by rw [heq]; rfl) herror, fun hrefused => ?_⟩
      · refine ⟨(o.dispute (some disputer) (disputeReason reason)).move now .disputed none, ?_, rfl,
          rfl, rfl⟩
        rw [heq, offer_transition_of (hmoves.mpr hnot), if_pos rfl, hoffer, Option.map_some]
      · exact absurd ⟨o, ho, (disputed_valid hstatus).mpr hnot⟩ hrefused

end

section Sample

private def sampleOffer : Offer where
  id := "o1"
  broadcast_tx_id := "t"
  message_index := 0
  give_asset := "KAS"
  give_amount := some 100
  give_chain := none
  want_asset := "USDT"
  want_amount := some 10
  maker := "m"
  expires_at := none
  verification := "on_chain"
  verification_meta := {}
  protocol_status := .matched
  price_tolerance := none
  taker := some "k"
  taker_chain := none
  taker_payment_address := none
  payment_tx := none
  delivery_tx := none
  matched_at := some 5
  verifying_started_at := none
  delivering_at := none
  maker_confirmed_at := none
  taker_confirmed_at := none

private def sampleDb : Db := { Db.empty with exchange_offers := ⟨[sampleOffer], by decide⟩ }

/-- The taker is told that the matched offer is disputed; it is still matched, with the reason
written. -/
theorem disputed_while_matched :
    (processDispute 9 sampleDb "o1" "k" (some "no payment")).1 = .ok ∧
      (processDispute 9 sampleDb "o1" "k" (some "no payment")).2.status "o1" = some .matched ∧
      ((processDispute 9 sampleDb "o1" "k" (some "no payment")).2.offer "o1").map
          (fun o => o.verification_meta.dispute_reason) = some (some "no payment") ∧
      ¬ Atomic 9 sampleDb "o1" "k" (some "no payment") := by
  refine ⟨by decide, by decide, by decide, ?_⟩
  intro h
  obtain ⟨o, ho, hdisputed, -⟩ := h.ok (by decide)
  have hstatus : (processDispute 9 sampleDb "o1" "k" (some "no payment")).2.status "o1" =
      some .matched := by decide
  unfold Db.status at hstatus
  rw [ho, Option.map_some, hdisputed] at hstatus
  cases hstatus

end Sample

end KANet.Trade.Exchange.Raised
