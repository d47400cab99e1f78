import KANet.Lib.Along
import KANet.Trade.AutoPay

/-!
# Where a delivery goes

An offer that is reopened loses the columns of its match and keeps its
`verification_meta`, where the accept wrote the addresses to deliver to.

* `Accept.target` — where the accept by itself has the offer delivered.
* `Accept.Replaces` — it overrides every address that is left in the offer and would
  be delivered to.
* `Offer.Next` — what the calls do to an offer that no accept takes: it stays sound,
  and past its match neither its addresses nor its taker change.
* `State` — the exchange, with the accept that holds each offer.
* `delivered_to_holder` — while every accept replaces what is left, every delivery goes
  where the accept of the taker says.
-/

namespace KANet.Trade.Exchange

open KANet.Lib

/-- Where the accept by itself has the offer delivered. -/
def Accept.target (msg : Accept) (give_asset : String) : Option String :=
  if give_asset = "KAS" then
    ((truthy msg.receive_address).filter (hasPrefix "kaspa:")).or (some msg.taker)
  else
    (((truthy msg.evm_recv_address).filter (hasPrefix "0x")).or
      ((truthy msg.receive_address).filter (hasPrefix "0x"))).or
        ((truthy msg.receive_address).filter fun a => !hasPrefix "kaspa:" a)

/-- No address that the offer has before it is delivered to once the accept has taken it. -/
structure Accept.Replaces (msg : Accept) (o : Offer) : Prop where
  kaspa : o.give_asset = "KAS" → truthy msg.receive_address = none →
    o.verification_meta.receive_address.filter (hasPrefix "kaspa:") = none
  evm : o.give_asset ≠ "KAS" → truthy msg.evm_recv_address = none →
    o.verification_meta.evm_recv_address.filter (hasPrefix "0x") = none
  other : o.give_asset ≠ "KAS" →
    (truthy msg.evm_recv_address).filter (hasPrefix "0x") = none →
    truthy msg.receive_address = none →
    (truthy o.verification_meta.receive_address).filter (fun a => !hasPrefix "kaspa:" a) = none

instance (msg : Accept) (o : Offer) : Decidable (msg.Replaces o) :=
  decidable_of_iff
    ((o.give_asset = "KAS" → truthy msg.receive_address = none →
        o.verification_meta.receive_address.filter (hasPrefix "kaspa:") = none) ∧
      (o.give_asset ≠ "KAS" → truthy msg.evm_recv_address = none →
        o.verification_meta.evm_recv_address.filter (hasPrefix "0x") = none) ∧
      (o.give_asset ≠ "KAS" →
        (truthy msg.evm_recv_address).filter (hasPrefix "0x") = none →
        truthy msg.receive_address = none →
        (truthy o.verification_meta.receive_address).filter
          (fun a => !hasPrefix "kaspa:" a) = none))
    ⟨fun h => ⟨h.1, h.2.1, h.2.2⟩, fun h => ⟨h.kaspa, h.evm, h.other⟩⟩

/-! ### What a delivery reads -/

def VerificationMeta.addresses (m : VerificationMeta) : Option String × Option String :=
  (m.receive_address, m.evm_recv_address)

def Offer.addresses (o : Offer) :
    String × (Option String × Option String) × Option String × Option String :=
  (o.give_asset, o.verification_meta.addresses, o.taker, o.taker_payment_address)

/-- A taker has the offer, and it may still be delivered. -/
def UNDER_MATCH : List Status :=
  [.matched, .verifying, .delivering, .verified, .awaiting_manual_confirm, .awaiting_oracle,
    .collecting_sigs]

/-- From here no offer is opened again. -/
def PAST_MATCH : List Status :=
  [.verifying, .delivering, .verified, .awaiting_manual_confirm, .awaiting_oracle,
    .collecting_sigs, .completed, .disputed, .timed_out, .failed, .cancelled, .expired, .refunded]

/-- The offer says what the accept of its taker says. -/
structure Offer.Sound (holder : Option Accept) (o : Offer) : Prop where
  opened : o.protocol_status = .opened → o.taker_payment_address = none
  held : o.protocol_status ∈ UNDER_MATCH → ∃ msg, holder = some msg ∧
    o.taker = some msg.taker ∧ o.deliveryTarget = msg.target o.give_asset

structure Offer.Next (o o' : Offer) : Prop where
  sound : ∀ holder, o.Sound holder → o'.Sound holder
  past : o.protocol_status ∈ PAST_MATCH →
    o'.protocol_status ∈ PAST_MATCH ∧ o'.addresses = o.addresses

section

variable {now : Nat} {db db' db'' : Db} {id : OfferId} {s s' : Status} {o o' o'' : Offer}
  {msg : Accept}

theorem taker_of_addresses (h : o'.addresses = o.addresses) : o'.taker = o.taker := by
  simp only [Offer.addresses, Prod.mk.injEq] at h
  exact h.2.2.1

theorem payment_of_addresses (h : o'.addresses = o.addresses) :
    o'.taker_payment_address = o.taker_payment_address := by
  simp only [Offer.addresses, Prod.mk.injEq] at h
  exact h.2.2.2

theorem asset_of_addresses (h : o'.addresses = o.addresses) : o'.give_asset = o.give_asset := by
  simp only [Offer.addresses, Prod.mk.injEq] at h
  exact h.1

theorem target_of_addresses (h : o'.addresses = o.addresses) :
    o'.deliveryTarget = o.deliveryTarget := by
  simp only [Offer.addresses, VerificationMeta.addresses, Prod.mk.injEq] at h
  obtain ⟨hasset, ⟨hrecv, hevm⟩, htaker, hpay⟩ := h
  unfold Offer.deliveryTarget
  rw [hasset, hrecv, hevm, htaker, hpay]

theorem meta_of_addresses (h : o'.addresses = o.addresses) :
    o'.verification_meta.addresses = o.verification_meta.addresses := by
  simp only [Offer.addresses, Prod.mk.injEq] at h
  exact h.2.1

theorem Offer.Next.refl (o : Offer) : o.Next o := ⟨fun _ h => h, fun h => ⟨h, rfl⟩⟩

theorem Offer.Next.trans (h : o.Next o') (h' : o'.Next o'') : o.Next o'' where
  sound holder hs := h'.sound holder (h.sound holder hs)
  past hp := by
    obtain ⟨hp', ha⟩ := h.past hp
    obtain ⟨hp'', ha'⟩ := h'.past hp'
    exact ⟨hp'', ha'.trans ha⟩

theorem Offer.Next.same (ha : o'.addresses = o.addresses)
    (hs : o'.protocol_status = o.protocol_status) : o.Next o' where
  sound holder h := by
    refine ⟨fun hopen => ?_, fun hu => ?_⟩
    · rw [payment_of_addresses ha]
      exact h.opened (hs ▸ hopen)
    · rw [target_of_addresses ha, taker_of_addresses ha, asset_of_addresses ha]
      exact h.held (hs ▸ hu)
  past hp := ⟨hs ▸ hp, ha⟩

/-- A move past the match. -/
theorem Offer.Next.onward (ha : o'.addresses = o.addresses) (hp : o'.protocol_status ∈ PAST_MATCH)
    (hu : o'.protocol_status ∈ UNDER_MATCH → o.protocol_status ∈ UNDER_MATCH) : o.Next o' where
  sound holder h := by
    refine ⟨fun hopen => ?_, fun hheld => ?_⟩
    · rw [hopen] at hp
      exact absurd hp (by decide)
    · rw [target_of_addresses ha, taker_of_addresses ha, asset_of_addresses ha]
      exact h.held (hu hheld)
  past _ := ⟨hp, ha⟩

theorem Offer.Next.reopen (h : o.protocol_status = .matched) : o.Next o.reopen where
  sound _ _ := by
    refine ⟨fun _ => rfl, fun hu => ?_⟩
    have hnot : o.reopen.protocol_status ∉ UNDER_MATCH := by
      show Status.opened ∉ UNDER_MATCH
      decide
    exact absurd hu hnot
  past hp := by
    rw [h] at hp
    exact absurd hp (by decide)

/-- Nothing but an accept leads to a match. -/
theorem under_of_valid (hv : s' ∈ VALID_TRANSITIONS s) (hp : s' ∈ PAST_MATCH)
    (hu : s' ∈ UNDER_MATCH) : s ∈ UNDER_MATCH := by
  have hall : ∀ s' ∈ VALID_TRANSITIONS s, s' ∈ PAST_MATCH → s' ∈ UNDER_MATCH →
      s ∈ UNDER_MATCH := by
    cases s <;> decide
  exact hall s' hv hp hu

theorem addresses_move (o : Offer) (now : Nat) (s : Status) :
    (o.move now s none).addresses = o.addresses := by
  cases s <;> rfl

/-! ### What the calls on the database do to the offers -/

def Db.Next (db db' : Db) : Prop := ∀ id, Option.Rel Offer.Next (db.offer id) (db'.offer id)

theorem Db.Next.refl (db : Db) : db.Next db := by
  intro id
  cases db.offer id with
  | none => exact .none
  | some o => exact .some (Offer.Next.refl o)

theorem Db.Next.trans (h : db.Next db') (h' : db'.Next db'') : db.Next db'' := by
  intro id
  have h₁ := h id
  have h₂ := h' id
  generalize db.offer id = a at h₁ ⊢
  generalize db'.offer id = b at h₁ h₂
  generalize db''.offer id = c at h₂ ⊢
  cases h₁ with
  | none => exact h₂
  | some h₁ =>
    cases h₂ with
    | some h₂ => exact .some (h₁.trans h₂)

theorem Db.Next.update (id : OfferId) {f : Offer → Offer} (hf : ∀ o, (f o).id = o.id)
    (h : ∀ o, db.offer id = some o → o.Next (f o)) : db.Next (db.update id f hf) := by
  intro x
  rw [Db.offer_update]
  by_cases hx : x = id
  · subst hx
    rw [if_pos rfl]
    cases ho : db.offer x with
    | none => exact .none
    | some o => exact .some (h o ho)
  · rw [if_neg hx]
    exact Db.Next.refl db x

/-- An update of other columns. -/
theorem Db.Next.write (id : OfferId) {f : Offer → Offer} (hf : ∀ o, (f o).id = o.id)
    (ha : ∀ o, (f o).addresses = o.addresses)
    (hs : ∀ o, (f o).protocol_status = o.protocol_status) : db.Next (db.update id f hf) :=
  Db.Next.update id hf fun o _ => Offer.Next.same (ha o) (hs o)

theorem Db.Next.foldl {α : Type} {f : Db → α → Db} (hf : ∀ (db : Db) a, db.Next (f db a))
    (l : List α) : ∀ db : Db, db.Next (l.foldl f db) := by
  induction l with
  | nil => exact Db.Next.refl
  | cons a l ih => exact fun db => (hf db a).trans (ih _)

theorem next_transition (hs : s ∈ PAST_MATCH) : db.Next (transition now db id s none) := by
  intro x
  by_cases hm : Moves db id s
  · rw [offer_transition_of hm]
    by_cases hx : x = id
    · subst hx
      obtain ⟨o, ho, hv⟩ := hm
      rw [if_pos rfl, ho]
      exact .some (Offer.Next.onward (addresses_move o now s) hs (under_of_valid hv hs))
    · rw [if_neg hx]
      exact Db.Next.refl db x
  · rw [transition_of_not hm]
    exact Db.Next.refl db x

theorem next_processManualConfirm (msg : Confirm) :
    db.Next (processManualConfirm now db msg) := by
  unfold processManualConfirm
  split
  · exact Db.Next.refl db
  split
  · exact Db.Next.refl db
  · next offer _ =>
    have hmark : db.Next (db.update offer.id (msg.mark now) fun _ => rfl) :=
      Db.Next.write _ _ (fun _ => rfl) fun _ => rfl
    split
    · exact Db.Next.refl db
    split
    · exact Db.Next.refl db
    split
    · exact hmark.trans (next_transition (by decide))
    · exact hmark

theorem next_processCancel (sender : String) : db.Next (processCancel now db id sender) := by
  unfold processCancel
  split
  · exact Db.Next.refl db
  split
  · exact Db.Next.refl db
  · split
    · exact Db.Next.refl db
    split
    · exact Db.Next.refl db
    · exact next_transition (by decide)

theorem next_dispute (disputer : Option String) (reason : String) :
    db.Next (transition now (db.update id (Offer.dispute disputer reason) (fun _ => rfl)) id
      .disputed none) := by
  refine Db.Next.trans ?_ (next_transition (by decide))
  exact Db.Next.write _ _ (fun _ => rfl) fun _ => rfl

theorem next_processDispute (disputer : String) (reason : Option String) :
    db.Next (processDispute now db id disputer reason) := by
  unfold processDispute
  split
  · exact Db.Next.refl db
  · split
    · exact Db.Next.refl db
    split
    · exact Db.Next.refl db
    · exact next_dispute _ _

theorem next_handleExchangeDispute (msg : Dispute) :
    db.Next (handleExchangeDispute now db msg) := by
  unfold handleExchangeDispute
  split
  · exact Db.Next.refl db
  split
  · exact Db.Next.refl db
  · split
    · exact Db.Next.refl db
    split
    · exact Db.Next.refl db
    split
    · exact Db.Next.refl db
    · exact next_dispute _ _

theorem next_handleExchangeDelivered (delivery_tx : String) :
    db.Next (handleExchangeDelivered now db id delivery_tx) := by
  unfold handleExchangeDelivered
  split
  · exact Db.Next.refl db
  split
  · exact Db.Next.refl db
  · split
    · have hpast : Status.completed ∈ PAST_MATCH := by decide
      have hunder : Status.completed ∉ UNDER_MATCH := by decide
      have hnext : db.Next (db.update id (Offer.deliver delivery_tx) fun _ => rfl) :=
        Db.Next.update _ _ fun _ _ => Offer.Next.onward rfl hpast fun hu => absurd hu hunder
      exact hnext
    · exact Db.Next.refl db

/-- An offer that is matched is opened again. -/
theorem next_reopenOffer (h : db.status id = some .matched) : db.Next (reopenOffer now db id) := by
  have hnext : db.Next (db.update id Offer.reopen fun _ => rfl) := by
    refine Db.Next.update _ _ ?_
    intro o ho
    unfold Db.status at h
    rw [ho] at h
    exact Offer.Next.reopen (Option.some.inj h)
  exact hnext

theorem next_handleExchangeTimeout : db.Next (handleExchangeTimeout now db id) := by
  unfold handleExchangeTimeout
  split
  · exact Db.Next.refl db
  split
  · exact Db.Next.refl db
  · next offer ho =>
    split
    · exact Db.Next.refl db
    · next hmatched =>
      apply next_reopenOffer
      unfold Db.status
      rw [ho, Option.map_some, not_not.mp hmatched]

theorem next_reopenIfMatched : db.Next (World.reopenIfMatched now db id) := by
  unfold World.reopenIfMatched
  split
  · next hmatched => exact next_reopenOffer hmatched
  · exact Db.Next.refl db

theorem next_expireStale : db.Next (expireStale now db) := by
  have hpast : Status.expired ∈ PAST_MATCH := by decide
  exact Db.Next.foldl (fun _ _ => next_transition hpast) _ _

theorem next_revertDelivering : db.Next (World.revertDelivering now db) := by
  have hpast : Status.verified ∈ PAST_MATCH := by decide
  exact Db.Next.foldl (fun _ _ => next_transition hpast) _ _

theorem next_handleExchangeResolve (msg : Resolve) :
    db.Next (handleExchangeResolve now db msg) := by
  unfold handleExchangeResolve
  split
  · exact Db.Next.refl db
  split
  · exact Db.Next.refl db
  · split
    · exact Db.Next.refl db
    · split
      · exact Db.Next.refl db
      · next outcome _ =>
        split
        · exact Db.Next.refl db
        · have hpast : outcome.status ∈ PAST_MATCH := by cases outcome <;> decide
          have hunder : outcome.status ∉ UNDER_MATCH := by cases outcome <;> decide
          have hnext : db.Next
              (db.update msg.offer_id (Offer.resolve msg.resolver msg.tx outcome) fun _ => rfl) :=
            Db.Next.update _ _ fun _ _ => Offer.Next.onward rfl hpast fun hu => absurd hu hunder
          exact hnext

theorem next_toVerifying (o : Offer) : db.Next (World.toVerifying now db o) := by
  unfold World.toVerifying
  split
  · exact next_transition (by decide)
  · exact Db.Next.refl db

theorem next_complete (delivery_tx : String) :
    db.Next (World.complete now db id delivery_tx) := by
  refine Db.Next.trans ?_ (next_transition (by decide))
  exact Db.Next.write _ _ (fun _ => rfl) fun _ => rfl

theorem next_completeUndelivered (payment_tx : String) :
    db.Next (World.completeUndelivered now db id payment_tx) := by
  refine Db.Next.trans ?_ (next_transition (by decide))
  refine Db.Next.trans ?_ (next_transition (by decide))
  exact Db.Next.write _ _ (fun _ => rfl) fun _ => rfl

/-! ### What an accept does -/

/-- One that takes no offer leaves them as they are, or its offer expires. -/
theorem next_processAccept (h : taken now db msg = none) (stops : Bool) :
    db.Next (processAccept now db msg stops) := by
  obtain ⟨-, heq⟩ | heq | ⟨o, -, -, heq⟩ := processAccept_refused h stops
  · rw [heq]
    exact Db.Next.refl db
  · rw [heq]
    exact Db.Next.refl db
  · rw [heq]
    exact next_transition (by decide)

theorem offer_processAccept_ne (h : taken now db msg = some o) (stops : Bool) {x : OfferId}
    (hx : x ≠ o.id) : (processAccept now db msg stops).offer x = db.offer x := by
  have hmatch : (matchOffer now db msg o).offer x = db.offer x := by
    unfold matchOffer
    rw [offer_transition_ne hx]
    split
    · exact (Db.offer_update db o.id x msg.record_id).trans (if_neg hx)
    · rfl
  rw [processAccept_of_taken h]
  split
  · exact hmatch
  · unfold routeToVerification
    split
    · exact hmatch
    · split
      · exact hmatch
      · rw [offer_transition_ne hx, hmatch]

/-- The offer as the accept leaves it. -/
theorem offer_accepted (h : taken now db msg = some o) (stops : Bool) :
    ∃ o', (processAccept now db msg stops).offer o.id = some o' ∧
      o'.protocol_status ∈ UNDER_MATCH ∧
      o'.addresses = ((msg.recorded o).move now .matched (some msg.taker)).addresses := by
  cases stops with
  | true =>
    obtain ⟨hget, hfits⟩ := taken_spec h
    rw [← Db.offer_id hget] at hget
    refine ⟨_, ?_, ?_, rfl⟩
    · rw [processAccept_of_taken h, if_pos rfl]
      exact offer_matchOffer hget (Accept.opened_of_fits hfits)
    · rw [Offer.move_status]
      decide
  | false =>
    refine ⟨_, offer_processAccept h, ?_, addresses_move _ now _⟩
    unfold Accept.take
    rw [Offer.move_status]
    obtain hs | hs | hs := verificationState_cases o <;> rw [hs] <;> decide

theorem Accept.unnamed (h : ¬ msg.named = true) : truthy msg.selected_chain = none ∧
    truthy msg.receive_address = none ∧ truthy msg.evm_recv_address = none := by
  simpa [Accept.named, and_assoc] using h

theorem recorded_receive (msg : Accept) (o : Offer) :
    (msg.recorded o).verification_meta.receive_address =
      (truthy msg.receive_address).or o.verification_meta.receive_address := by
  unfold Accept.recorded
  split
  · rfl
  · next h =>
    rw [(Accept.unnamed h).2.1]
    rfl

theorem recorded_evm (msg : Accept) (o : Offer) :
    (msg.recorded o).verification_meta.evm_recv_address =
      (truthy msg.evm_recv_address).or o.verification_meta.evm_recv_address := by
  unfold Accept.recorded
  split
  · rfl
  · next h =>
    rw [(Accept.unnamed h).2.2]
    rfl

theorem recorded_payment (msg : Accept) (h : o.taker_payment_address = none) :
    (msg.recorded o).taker_payment_address = truthy msg.receive_address := by
  unfold Accept.recorded
  split
  · rfl
  · next hn => rw [(Accept.unnamed hn).2.1, h]

theorem recorded_asset (msg : Accept) (o : Offer) :
    (msg.recorded o).give_asset = o.give_asset := by
  unfold Accept.recorded
  split <;> rfl

theorem truthy_truthy (a : Option String) : truthy (truthy a) = truthy a := by
  unfold truthy
  rw [Option.filter_filter]
  congr 1
  funext s
  exact Bool.and_self _

/-- **An offer that is taken is delivered where its accept says.** -/
theorem target_matched (hpay : o.taker_payment_address = none) (hr : msg.Replaces o) :
    ((msg.recorded o).move now .matched (some msg.taker)).deliveryTarget =
      msg.target o.give_asset := by
  unfold Offer.deliveryTarget Accept.target
  simp only [Offer.move, Offer.stamp, recorded_receive, recorded_evm, recorded_payment msg hpay,
    recorded_asset, Option.some_or]
  by_cases hkas : o.give_asset = "KAS"
  · rw [if_pos hkas, if_pos hkas]
    cases hrecv : truthy msg.receive_address with
    | none =>
      rw [Option.none_or, hr.kaspa hkas hrecv]
      rfl
    | some a => rw [Option.some_or]
  · rw [if_neg hkas, if_neg hkas]
    have hfirst : ((truthy msg.evm_recv_address).or
        o.verification_meta.evm_recv_address).filter (hasPrefix "0x") =
          (truthy msg.evm_recv_address).filter (hasPrefix "0x") := by
      cases hevm : truthy msg.evm_recv_address with
      | none =>
        rw [Option.none_or, hr.evm hkas hevm]
        rfl
      | some a => rw [Option.some_or]
    rw [hfirst]
    cases hevm : (truthy msg.evm_recv_address).filter (hasPrefix "0x") with
    | some a => rw [Option.some_or, Option.some_or, Option.some_or]
    | none =>
      cases hrecv : truthy msg.receive_address with
      | none => rw [Option.none_or, Option.none_or, hr.other hkas hevm hrecv]
                rfl
      | some a => rw [Option.some_or, ← hrecv, truthy_truthy]

theorem sound_accepted (h : taken now db msg = some o) {holder : Option Accept}
    (hs : o.Sound holder) (hr : msg.Replaces o) (stops : Bool) :
    ∃ o', (processAccept now db msg stops).offer o.id = some o' ∧ o'.Sound (some msg) := by
  obtain ⟨o', ho', hu, ha⟩ := offer_accepted h stops
  have hopen := Accept.opened_of_fits (taken_spec h).2
  refine ⟨o', ho', fun hs' => ?_, fun _ => ⟨msg, rfl, ?_, ?_⟩⟩
  · rw [hs'] at hu
    exact absurd hu (by decide)
  · rw [taker_of_addresses ha]
    rfl
  · rw [target_of_addresses ha, asset_of_addresses ha, target_matched (hs.opened hopen) hr]
    congr 1
    exact (recorded_asset msg o).symm

end

namespace Targets

open AutoPay (Match matchOf matchesOf replays stored)

abbrev Holder := OfferId → Option Accept

/-- An accept that takes an offer holds it from then on. -/
def hold (holder : Holder) (ms : List Match) : Holder :=
  ms.foldl (fun holder m => Function.update holder m.offer.id (some m.accept)) holder

/-- Offers stay sound, and those past their match stay as they are. -/
structure Follows (db : Db) (holder : Holder) (db' : Db) (holder' : Holder) : Prop where
  sound : (∀ id o, db.offer id = some o → o.Sound (holder id)) →
    ∀ id o, db'.offer id = some o → o.Sound (holder' id)
  past : ∀ id o, db.offer id = some o → o.protocol_status ∈ PAST_MATCH →
    holder' id = holder id ∧ ∃ o', db'.offer id = some o' ∧
      o'.protocol_status ∈ PAST_MATCH ∧ o'.addresses = o.addresses

section

variable {now : Nat} {db db' db'' : Db} {holder holder' holder'' : Holder} {msg : Accept}
  {id : OfferId}

theorem Follows.trans (h : Follows db holder db' holder')
    (h' : Follows db' holder' db'' holder'') : Follows db holder db'' holder'' where
  sound hs := h'.sound (h.sound hs)
  past id o ho hp := by
    obtain ⟨hh, o', ho', hp', ha⟩ := h.past id o ho hp
    obtain ⟨hh', o'', ho'', hp'', ha'⟩ := h'.past id o' ho' hp'
    exact ⟨hh'.trans hh, o'', ho'', hp'', ha'.trans ha⟩

theorem Follows.of_next (h : db.Next db') : Follows db holder db' holder where
  sound hs id o' ho' := by
    have hrel := h id
    rw [ho'] at hrel
    cases hget : db.offer id with
    | none =>
      rw [hget] at hrel
      cases hrel
    | some o =>
      rw [hget] at hrel
      cases hrel with
      | some hn => exact hn.sound _ (hs id o hget)
  past id o ho hp := by
    have hrel := h id
    rw [ho] at hrel
    cases hget : db'.offer id with
    | none =>
      rw [hget] at hrel
      cases hrel
    | some o' =>
      rw [hget] at hrel
      cases hrel with
      | some hn => exact ⟨rfl, o', rfl, hn.past hp⟩

theorem follows_accept (stops : Bool)
    (hfair : ∀ m ∈ matchOf now db msg, m.accept.Replaces m.offer) :
    Follows db holder (processAccept now db msg stops)
      (hold holder (matchOf now db msg).toList) := by
  cases ht : taken now db msg with
  | none =>
    rw [AutoPay.matchOf_eq_none ht]
    exact Follows.of_next (next_processAccept ht stops)
  | some o =>
    have hm := AutoPay.matchOf_eq ht
    have hr : msg.Replaces o := hfair _ hm
    obtain ⟨hget, hfits⟩ := taken_spec ht
    rw [← Db.offer_id hget] at hget
    rw [hm]
    refine ⟨fun hs x o' ho' => ?_, fun x o' ho' hp => ?_⟩
    · show o'.Sound (Function.update holder o.id (some msg) x)
      by_cases hx : x = o.id
      · obtain ⟨o'', ho'', hsound⟩ := sound_accepted ht (hs o.id o hget) hr stops
        rw [hx, ho''] at ho'
        obtain rfl := Option.some.inj ho'
        rw [hx, Function.update_self]
        exact hsound
      · rw [offer_processAccept_ne ht stops hx] at ho'
        rw [Function.update_of_ne hx]
        exact hs x o' ho'
    · have hx : x ≠ o.id := by
        intro hx
        rw [hx, hget] at ho'
        obtain rfl := Option.some.inj ho'
        rw [Accept.opened_of_fits hfits] at hp
        exact absurd hp (by decide)
      refine ⟨Function.update_of_ne hx _ _, o', ?_, hp, rfl⟩
      exact (offer_processAccept_ne ht stops hx).trans ho'

/-- The accepts that came before the offer, one after the other. -/
theorem follows_replays (ps : List PendingAccept)
    (hfair : ∀ m ∈ replays now db ps, m.accept.Replaces m.offer) :
    Follows db holder (ps.foldl (replay now) db) (hold holder (replays now db ps)) := by
  induction ps generalizing db holder with
  | nil => exact Follows.of_next (Db.Next.refl db)
  | cons p ps ih =>
    rw [replays] at hfair ⊢
    have hforget : Follows db holder (db.forget p.msg.tx) holder :=
      Follows.of_next (Db.Next.refl db)
    have hone : Follows (db.forget p.msg.tx) holder (replay now db p)
        (hold holder (matchOf now (db.forget p.msg.tx) p.msg).toList) :=
      follows_accept false fun m hm => hfair m (List.mem_append_left _ (Option.mem_toList.mpr hm))
    have hrest : Follows (replay now db p)
        (hold holder (matchOf now (db.forget p.msg.tx) p.msg).toList)
        (ps.foldl (replay now) (replay now db p))
        (hold (hold holder (matchOf now (db.forget p.msg.tx) p.msg).toList)
          (replays now (replay now db p) ps)) :=
      ih fun m hm => hfair m (List.mem_append_right _ hm)
    unfold hold at hrest ⊢
    rw [List.foldl_append]
    exact (hforget.trans hone).trans hrest

theorem insert_of_stored {pub : Publish} {offers : Table Offer.id}
    (h : stored db pub = some offers) : db.exchange_offers.insert pub.offer = some offers := by
  unfold stored at h
  split at h
  · cases h
  · split at h
    · cases h
    · exact h

/-- An offer is opened with nothing of a match. -/
theorem follows_insert {pub : Publish} {offers : Table Offer.id}
    (h : stored db pub = some offers) :
    Follows db holder { db with exchange_offers := offers } holder := by
  have hins := insert_of_stored h
  refine ⟨fun hs x o ho => ?_, fun x o ho hp => ⟨rfl, o, Table.get_of_insert hins ho, hp, rfl⟩⟩
  have hget : offers.get x = some o := ho
  rw [Table.get_insert hins] at hget
  split at hget
  · obtain rfl := Option.some.inj hget
    have hopen : Status.opened ∉ UNDER_MATCH := by decide
    exact ⟨fun _ => rfl, fun hu => absurd hu hopen⟩
  · exact hs x o hget

theorem follows_publish {pub : Publish}
    (hfair : ∀ m ∈ matchesOf now db (.publish pub), m.accept.Replaces m.offer) :
    Follows db holder (handleExchange now db pub)
      (hold holder (matchesOf now db (.publish pub))) := by
  have heq : matchesOf now db (.publish pub) = (stored db pub).elim [] fun offers =>
      replays now { db with exchange_offers := offers } (db.orphans pub.id) := rfl
  rw [heq] at hfair
  rw [AutoPay.handleExchange_eq, heq]
  cases hstored : stored db pub with
  | none => exact Follows.of_next (Db.Next.refl db)
  | some offers =>
    rw [hstored] at hfair
    exact (follows_insert hstored).trans (follows_replays (db.orphans pub.id) hfair)

/-! ### What the tasks hold -/

/-- The target is where the accept of the taker says, and the offer is not opened again. -/
def Due (db : Db) (holder : Holder) (id : OfferId) (asset target : String) : Prop :=
  ∃ o msg, db.offer id = some o ∧ o.protocol_status ∈ PAST_MATCH ∧ holder id = some msg ∧
    o.taker = some msg.taker ∧ msg.target asset = some target

/-- A row that was read while the payment was being verified. -/
def Bound (db : Db) (holder : Holder) (offer : Offer) : Prop :=
  ∃ o msg, db.offer offer.id = some o ∧ o.protocol_status ∈ PAST_MATCH ∧
    holder offer.id = some msg ∧ o.taker = some msg.taker ∧
    o.deliveryTarget = msg.target o.give_asset ∧
    offer.verification_meta.addresses = o.verification_meta.addresses

def SoundTask (db : Db) (holder : Holder) : Task → Prop
  | .verifying offer _ _ _ => Bound db holder offer
  | .transferring deliveringOffer deliveryTarget _ _ =>
    Due db holder deliveringOffer.id deliveringOffer.give_asset deliveryTarget
  | .pausing deliveringOffer deliveryTarget _ =>
    Due db holder deliveringOffer.id deliveringOffer.give_asset deliveryTarget
  | _ => True

structure Inv (w : World) (holder : Holder) : Prop where
  offers : ∀ id o, w.db.offer id = some o → o.Sound (holder id)
  tasks : ∀ t ∈ w.tasks, SoundTask w.db holder t
  requests : ∀ r ∈ w.requests, Due w.db holder r.offer_id r.asset r.target

theorem Due.follows {asset target : String} (h : Due db holder id asset target)
    (hf : Follows db holder db' holder') : Due db' holder' id asset target := by
  obtain ⟨o, msg, ho, hp, hh, htaker, ht⟩ := h
  obtain ⟨hh', o', ho', hp', ha⟩ := hf.past id o ho hp
  exact ⟨o', msg, ho', hp', hh'.trans hh, (taker_of_addresses ha).trans htaker, ht⟩

theorem Bound.follows {offer : Offer} (h : Bound db holder offer)
    (hf : Follows db holder db' holder') : Bound db' holder' offer := by
  obtain ⟨o, msg, ho, hp, hh, htaker, ht, hm⟩ := h
  obtain ⟨hh', o', ho', hp', ha⟩ := hf.past offer.id o ho hp
  refine ⟨o', msg, ho', hp', hh'.trans hh, (taker_of_addresses ha).trans htaker, ?_, ?_⟩
  · rw [target_of_addresses ha, asset_of_addresses ha, ht]
  · rw [hm, meta_of_addresses ha]

theorem SoundTask.follows {t : Task} (h : SoundTask db holder t)
    (hf : Follows db holder db' holder') : SoundTask db' holder' t := by
  cases t with
  | verifying offer payment_tx payment_chain attempt => exact Bound.follows h hf
  | transferring offer target attempt request => exact Due.follows h hf
  | pausing offer target attempt => exact Due.follows h hf
  | _ => trivial

end

section

variable {now : Nat} {relay : String → Bool} {w : World} {holder : Holder} {id : OfferId}
  {o offer : Offer} {t : Task}

open World

theorem Inv.follows (h : Inv w holder) {db' : Db} {holder' : Holder}
    (hf : Follows w.db holder db' holder') : Inv (w.withDb db') holder' where
  offers := hf.sound h.offers
  tasks t ht := (h.tasks t ht).follows hf
  requests r hr := (h.requests r hr).follows hf

theorem Inv.withDb (h : Inv w holder) {db' : Db} (hn : w.db.Next db') :
    Inv (w.withDb db') holder := h.follows (Follows.of_next hn)

theorem Inv.await (h : Inv w holder) (ht : SoundTask w.db holder t) :
    Inv (w.await t) holder where
  offers := h.offers
  tasks t' ht' := by
    obtain ht' | ht' := List.mem_append.mp ht'
    · exact h.tasks t' ht'
    · rw [List.mem_singleton.mp ht']
      exact ht
  requests := h.requests

theorem Inv.only (h : Inv w holder) {tasks : List Task} (hs : tasks ⊆ w.tasks) :
    Inv { w with tasks := tasks } holder where
  offers := h.offers
  tasks t ht := h.tasks t (hs ht)
  requests := h.requests

/-- What is noted about a transfer is not where it goes. -/
theorem Inv.note (h : Inv w holder) (i : Nat) {f : Request → Request}
    (hf : ∀ r, (f r).offer_id = r.offer_id ∧ (f r).asset = r.asset ∧ (f r).target = r.target) :
    Inv { w with requests := w.requests.modify i f } holder where
  offers := h.offers
  tasks := h.tasks
  requests r hr := by
    obtain ⟨j, hj⟩ := List.mem_iff_getElem?.mp hr
    have hget : (w.requests.modify i f)[j]? =
        (fun r => if i = j then f r else r) <$> w.requests[j]? := List.getElem?_modify _ _ _ _
    rw [hget, Option.map_eq_map, Option.map_eq_some_iff] at hj
    obtain ⟨r₀, hr₀, rfl⟩ := hj
    have hdue := h.requests r₀ (List.mem_of_getElem? hr₀)
    split
    · obtain ⟨hid, hasset, htarget⟩ := hf r₀
      rw [hid, hasset, htarget]
      exact hdue
    · exact hdue

theorem Inv.requestTransfer (h : Inv w holder) {target : String}
    (hd : Due w.db holder o.id o.give_asset target) (attempt : Nat) :
    Inv (w.requestTransfer o target attempt) holder where
  offers := h.offers
  tasks t ht := by
    obtain ht | ht := List.mem_append.mp ht
    · exact h.tasks t ht
    · rw [List.mem_singleton.mp ht]
      exact hd
  requests r hr := by
    obtain hr | hr := List.mem_append.mp hr
    · exact h.requests r hr
    · rw [List.mem_singleton.mp hr]
      exact hd

theorem Inv.beginDelivery (h : Inv w holder) (hb : Bound w.db holder offer) :
    Inv (beginDelivery relay w offer.id) holder := by
  obtain ⟨o, msg, ho, hp, hh, htaker, ht, -⟩ := hb
  have hid := Db.offer_id ho
  unfold World.beginDelivery
  rw [ho]
  dsimp only
  split
  · split
    · exact h
    · next target htarget =>
      refine h.requestTransfer ⟨o, msg, ?_, hp, ?_, htaker, ht.symm.trans htarget⟩ 1
      · rw [hid, ho]
      · rw [hid, hh]
  · exact h

/-- An offer that is being verified has its taker. -/
theorem Inv.bound (h : Inv w holder) (ho : w.db.offer id = some offer)
    (hs : offer.protocol_status = .verifying) : Bound w.db holder offer := by
  have hunder : offer.protocol_status ∈ UNDER_MATCH := by
    rw [hs]
    decide
  have hpast : offer.protocol_status ∈ PAST_MATCH := by
    rw [hs]
    decide
  obtain rfl := Db.offer_id ho
  obtain ⟨msg, hh, htaker, ht⟩ := (h.offers offer.id offer ho).held hunder
  exact ⟨offer, msg, ho, hpast, hh, htaker, ht, rfl⟩

/-- The metadata that is written back has the addresses of the offer. -/
theorem Bound.addresses (hb : Bound w.db holder offer) (ho : w.db.offer offer.id = some o)
    {o' : Offer} (hasset : o'.give_asset = o.give_asset) (htaker : o'.taker = o.taker)
    (hpay : o'.taker_payment_address = o.taker_payment_address)
    (hm : o'.verification_meta.addresses = offer.verification_meta.addresses) :
    o'.addresses = o.addresses := by
  obtain ⟨o₁, msg, ho₁, -, -, -, -, hm₁⟩ := hb
  rw [ho] at ho₁
  obtain rfl := Option.some.inj ho₁
  unfold Offer.addresses
  rw [hasset, htaker, hpay, hm, hm₁]

theorem next_record (hb : Bound w.db holder offer) (payment_tx : String) :
    w.db.Next (w.record offer payment_tx).db :=
  Db.Next.update _ _ fun _ ho => Offer.Next.same (hb.addresses ho rfl rfl rfl rfl) rfl

theorem Inv.confirmed (h : Inv w holder) (hb : Bound w.db holder offer)
    (payment_tx payment_chain : String) :
    Inv (confirmed now relay w offer payment_tx payment_chain) holder := by
  have hnext := next_record hb payment_tx
  have hdb := h.withDb hnext
  have hrecord : Inv (w.record offer payment_tx) holder := ⟨hdb.offers, hdb.tasks, hdb.requests⟩
  unfold World.confirmed
  split
  · exact hrecord.withDb (next_completeUndelivered payment_tx)
  · have hmove : (w.record offer payment_tx).db.Next
        (transition now (w.record offer payment_tx).db offer.id .delivering none) :=
      next_transition (by decide)
    exact (hrecord.withDb hmove).beginDelivery (hb.follows (Follows.of_next (hnext.trans hmove)))

theorem Inv._verifyAndComplete (h : Inv w holder) (payment_tx payment_chain : String)
    (attempt : Nat) :
    Inv (_verifyAndComplete now relay w id payment_tx payment_chain attempt) holder := by
  unfold World._verifyAndComplete
  split
  · exact h
  · next offer ho =>
    split
    · exact h
    · next hs =>
      have hb := h.bound ho (not_not.mp hs)
      split
      · exact h.confirmed hb payment_tx payment_chain
      · exact h.await hb

theorem Inv.unconfirmed (h : Inv w holder) (hb : Bound w.db holder offer)
    (payment_tx payment_chain : String) (attempt : Nat) (error : String) :
    Inv (unconfirmed now w offer payment_tx payment_chain attempt error) holder := by
  unfold World.unconfirmed
  split
  · exact h.await trivial
  · refine h.withDb (Db.Next.trans ?_ (next_transition (by decide)))
    exact Db.Next.update _ _ fun _ ho => Offer.Next.same (hb.addresses ho rfl rfl rfl rfl) rfl

theorem Inv.processPaymentSubmit (h : Inv w holder) (payment_tx : String)
    (payment_chain : Option String) :
    Inv (processPaymentSubmit now relay w id payment_tx payment_chain) holder := by
  unfold World.processPaymentSubmit
  split
  · exact h
  · split
    · exact h
    split
    · exact h
    split
    · exact h
    · split
      · exact h
      · refine Inv._verifyAndComplete ?_ _ _ _
        exact h.withDb (Db.Next.write _ _ (fun _ => rfl) fun _ => rfl)

theorem Inv.handleExchangePaid (h : Inv w holder) (msg : Paid) (stops : Bool) :
    Inv (handleExchangePaid now relay w msg stops) holder := by
  unfold World.handleExchangePaid
  split
  · exact h
  split
  · exact h
  · split
    · exact h
    split
    · exact h
    split
    · exact h
    split
    · exact h.withDb (Db.Next.write _ _ (fun _ => rfl) fun _ => rfl)
    · refine Inv.processPaymentSubmit (h.withDb (Db.Next.trans ?_ (next_toVerifying _))) _ _
      refine Db.Next.trans ?_ (Db.Next.write _ _ (fun _ => rfl) fun _ => rfl)
      exact Db.Next.write _ _ (fun _ => rfl) fun _ => rfl

theorem Inv.nextAttempt (h : Inv w holder) {target : String}
    (hd : Due w.db holder o.id o.give_asset target) (attempt : Nat) (pauses : Bool) :
    Inv (nextAttempt now w o target attempt pauses) holder := by
  unfold World.nextAttempt
  split
  · exact h.withDb (next_transition (by decide))
  split
  · exact h.await hd
  · exact h.requestTransfer hd (attempt + 1)

theorem Inv.reportFailed (h : Inv w holder) (request : Nat) :
    Inv (w.reportFailed request) holder := h.note request fun _ => ⟨rfl, rfl, rfl⟩

theorem Inv.timeOut (h : Inv w holder) (sweep : Sweep) (ids : List OfferId) :
    Inv (timeOut now w sweep id ids) holder :=
  (h.withDb (next_transition (by decide))).await trivial

theorem Inv.sweepOn (h : Inv w holder) (sweep : Sweep) (ids : List OfferId) :
    Inv (sweepOn now relay w sweep ids) holder := by
  cases ids with
  | nil =>
    cases sweep with
    | verifying => exact (h.withDb next_revertDelivering).await trivial
    | verified => exact h
  | cons id ids =>
    cases sweep <;> simp only [World.sweepOn]
    all_goals
      split
      · exact h.await trivial
      · split
        · exact h.await trivial
        · exact h.timeOut _ ids

theorem Inv.reopenMatched (h : Inv w holder) (ids : List OfferId) :
    Inv (reopenMatched now w id ids) holder := (h.withDb next_reopenIfMatched).await trivial

theorem Inv.reopenOn (h : Inv w holder) (ids : List OfferId) :
    Inv (reopenOn now relay w ids) holder := by
  cases ids with
  | nil => exact h
  | cons id ids =>
    simp only [World.reopenOn]
    split
    · exact h.await trivial
    · split
      · exact h.await trivial
      · exact h.reopenMatched ids

theorem Inv.answer (h : Inv w holder) (ht : SoundTask w.db holder t) (reply : Reply) :
    Inv (answer now relay w t reply) holder := by
  have hback : Inv (w.await t) holder := h.await ht
  cases t with
  | retry id payment_tx payment_chain attempt =>
    cases reply with
    | go => exact h._verifyAndComplete payment_tx payment_chain attempt
    | _ => exact hback
  | verifying offer payment_tx payment_chain attempt =>
    cases reply with
    | verification confirmed error =>
      cases confirmed with
      | true => exact h.confirmed ht payment_tx payment_chain
      | false => exact h.unconfirmed ht payment_tx payment_chain attempt error
    | threw => exact h
    | _ => exact hback
  | transferring offer target attempt request =>
    cases reply with
    | txId tx => exact h.await trivial
    | noTx => exact (h.reportFailed request).nextAttempt ht attempt false
    | threw => exact (h.reportFailed request).nextAttempt ht attempt true
    | _ => exact hback
  | pausing offer target attempt =>
    cases reply with
    | go => exact h.requestTransfer ht (attempt + 1)
    | _ => exact hback
  | announcing offer deliveryTxId attempt =>
    cases reply with
    | txId tx => exact h.withDb (next_complete deliveryTxId)
    | noTx | threw =>
      simp only [World.answer]
      split
      · exact h.await trivial
      · exact h
    | _ => exact hback
  | sweeping sweep ids =>
    cases reply with
    | go => exact h.sweepOn sweep ids
    | _ => exact hback
  | emitting sweep id ids attempt =>
    cases reply with
    | txId tx => exact h.timeOut sweep ids
    | noTx | threw =>
      simp only [World.answer]
      split
      · exact h.await trivial
      · exact h.await trivial
    | _ => exact hback
  | reopening ids =>
    cases reply with
    | go => exact h.reopenOn ids
    | _ => exact hback
  | emittingReopen id ids attempt =>
    cases reply with
    | txId tx => exact h.reopenMatched ids
    | noTx | threw =>
      simp only [World.answer]
      split
      · exact h.await trivial
      · exact h.await trivial
    | _ => exact hback

theorem Inv.restart (h : Inv w holder) : Inv w.restart holder := h.only (List.nil_subset _)

theorem Inv.stopIf (h : Inv w holder) (stops : Bool) : Inv (stopIf stops w) holder := by
  unfold World.stopIf
  split
  · exact h.restart
  · exact h

end

/-! ### Runs -/

structure State where
  world : World
  /-- The accept that took the offer last. -/
  holder : Holder

def start : State := ⟨World.empty, fun _ => none⟩

def step (relay : String → Bool) (s : State) (e : Nat × Event) : State :=
  ⟨s.world.step relay e, hold s.holder (matchesOf e.1 s.world.db e.2)⟩

def run (relay : String → Bool) (es : List (Nat × Event)) : State := es.foldl (step relay) start

/-- The accepts that take an offer leave no other address in it. -/
def Fair (s : State) (e : Nat × Event) : Prop :=
  ∀ m ∈ matchesOf e.1 s.world.db e.2, m.accept.Replaces m.offer

instance (s : State) (e : Nat × Event) : Decidable (Fair s e) :=
  inferInstanceAs (Decidable (∀ m ∈ matchesOf e.1 s.world.db e.2, m.accept.Replaces m.offer))

theorem inv_start : Inv start.world start.holder where
  offers _ _ h := by cases h
  tasks _ h := absurd h List.not_mem_nil
  requests _ h := absurd h List.not_mem_nil

/-- **The invariant is kept by every fair step.** -/
theorem Inv.step {relay : String → Bool} {s : State} (h : Inv s.world s.holder)
    (e : Nat × Event) (hfair : Fair s e) :
    Inv (step relay s e).world (step relay s e).holder := by
  obtain ⟨now, e⟩ := e
  cases e with
  | publish msg => exact h.follows (follows_publish hfair)
  | accept msg stops =>
    exact (h.follows (follows_accept stops fun m hm =>
      hfair m (Option.mem_toList.mpr hm))).stopIf stops
  | confirm msg => exact h.withDb (next_processManualConfirm msg)
  | cancel offer_id sender => exact h.withDb (next_processCancel sender)
  | paid msg stops => exact (h.handleExchangePaid msg stops).stopIf stops
  | delivered offer_id sender delivery_tx =>
    exact h.withDb (next_handleExchangeDelivered delivery_tx)
  | timeout offer_id sender => exact h.withDb next_handleExchangeTimeout
  | dispute msg => exact h.withDb (next_handleExchangeDispute msg)
  | resolve msg => exact h.withDb (next_handleExchangeResolve msg)
  | submitPayment offer_id payment_tx payment_chain =>
    exact h.processPaymentSubmit payment_tx payment_chain
  | raiseDispute offer_id disputer reason => exact h.withDb (next_processDispute disputer reason)
  | refund offer_id => exact h.withDb (next_transition (by decide))
  | expireStale => exact h.withDb next_expireStale
  | cleanupStaleOrphanAccepts => exact h.withDb (Db.Next.refl s.world.db)
  | timeoutVerifying => exact h.await trivial
  | checkMatchedTimeout => exact h.await trivial
  | broadcast request tx => exact h.note request fun _ => ⟨rfl, rfl, rfl⟩
  | resume task reply =>
    show Inv (World.step relay s.world (now, .resume task reply)) s.holder
    simp only [World.step]
    split
    · exact h
    · next t ht =>
      have hrest : Inv { s.world with tasks := s.world.tasks.eraseIdx task } s.holder :=
        h.only (List.eraseIdx_sublist _ _).subset
      exact hrest.answer (h.tasks t (List.mem_of_getElem? ht)) reply.read
  | restart => exact h.restart

/-- **Deliveries go to the current taker.**  In every state that a run reaches whose accepts
replace what is left of earlier ones, each transfer that was asked for goes where the accept says
that holds the offer, whose sender or user is the offer's taker. -/
theorem delivered_to_holder (relay : String → Bool) {es : List (Nat × Event)}
    (h : Along Fair (step relay) start es) :
    ∀ r ∈ (run relay es).world.requests, ∃ o msg,
      (run relay es).world.db.offer r.offer_id = some o ∧
      (run relay es).holder r.offer_id = some msg ∧
      o.taker = some msg.taker ∧ msg.target r.asset = some r.target := by
  have hinv : Inv (run relay es).world (run relay es).holder :=
    h.invariant (I := fun _ s => Inv s.world s.holder) inv_start
      fun es e hi hf => hi.step e hf
  intro r hr
  obtain ⟨o, msg, ho, -, hh, htaker, ht⟩ := hinv.requests r hr
  exact ⟨o, msg, ho, hh, htaker, ht⟩

section Sample

private def coinPublish : Publish where
  id := "offer"
  sender := "maker"
  tx := "t0"
  message_index := 0
  give_asset := "KAS"
  give_amount := some 100
  give_chain := none
  want_asset := "USDT"
  want_amount := some 5
  expires_at := none
  verification := some "cross_chain_tx"
  verification_meta := { accepted_chains := [⟨"bnb", some "0xmaker"⟩] }

private def coinAccept (sender : String) (receive_address : Option String) : Accept where
  offer_id := "offer"
  sender := sender
  tx := "t1"
  receive_address := receive_address
  selected_chain := some "bnb"
  evm_recv_address := none
  amount := none
  price := none

private def coinRelay (address : String) : Bool := address = "maker"

/-- The process stops when the first taker has the offer, the match times out, and another takes
it and pays. -/
private def coinRetaken (receive_address : Option String) : List (Nat × Event) :=
  [(0, .publish coinPublish), (1, .accept (coinAccept "kaspa:first" (some "kaspa:user")) true),
    (1900, .timeout "offer" "maker"),
    (1901, .accept (coinAccept "kaspa:second" receive_address) false),
    (1902, .paid ⟨"offer", "kaspa:second", "0xpaid", some "bnb"⟩ false),
    (1903, .resume 0 (.verification true ""))]

theorem fair_coinRetaken :
    Along Fair (step coinRelay) start (coinRetaken (some "kaspa:other")) := by
  refine .cons ?_ (.cons ?_ (.cons ?_ (.cons ?_ (.cons ?_ (.cons ?_ .nil)))))
  all_goals decide +kernel

/-- The second names where to, and is delivered to. -/
theorem delivered_to_holder_second :
    (run coinRelay (coinRetaken (some "kaspa:other"))).world.requests.map Request.target =
        ["kaspa:other"] ∧
      ∀ r ∈ (run coinRelay (coinRetaken (some "kaspa:other"))).world.requests, ∃ o msg,
        (run coinRelay (coinRetaken (some "kaspa:other"))).world.db.offer r.offer_id = some o ∧
        (run coinRelay (coinRetaken (some "kaspa:other"))).holder r.offer_id = some msg ∧
        o.taker = some msg.taker ∧ msg.target r.asset = some r.target :=
  ⟨by decide +kernel, delivered_to_holder coinRelay fair_coinRetaken⟩

/-- The second names no address, and the user of the first is delivered to. -/
theorem delivered_to_the_first :
    (run coinRelay (coinRetaken none)).world.requests.map Request.target = ["kaspa:user"] ∧
      ((run coinRelay (coinRetaken none)).world.db.offer "offer").bind Offer.taker =
        some "kaspa:second" ∧
      ((run coinRelay (coinRetaken none)).holder "offer").bind (fun msg => msg.target "KAS") =
        some "kaspa:second" := by
  decide +kernel

end Sample

end Targets

end KANet.Trade.Exchange
