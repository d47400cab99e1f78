import KANet.Trade.ExchangeRun
import Mathlib.Data.List.Perm.Basic

/-!
# Deliveries are made once

An offer under delivery has one transfer on its way at a time.  `Inv` counts the
tasks that can still ask a relay for a transfer and the transfers that were asked
for and not reported as failed: at most one of each, and none of the first while a
second is left open elsewhere.  Such an offer is `delivering`, or where a delivery
leads from there, and never where it could be offered again.

A step keeps this when it is `Safe`: a verification comes back to an offer that is
still being verified, the relay reports the transfers it broadcasts, and an offer
with a delivery under way is neither timed out nor resolved for the taker.
-/

namespace KANet.Trade.Exchange

open KANet.Lib

/-- Where a delivery leads. -/
def DELIVERY : List Status := [.delivering, .verified, .completed, .disputed, .refunded]

def InDelivery (db : Db) (id : OfferId) : Prop := ∃ s ∈ DELIVERY, db.status id = some s

/-! ### What the calls on the database keep -/

def Keeps (db db' : Db) : Prop := ∀ id, InDelivery db id → InDelivery db' id

section

variable {now : Nat} {db db' db'' : Db} {id : OfferId}

theorem Keeps.refl (db : Db) : Keeps db db := fun _ h => h

theorem Keeps.trans (h : Keeps db db') (h' : Keeps db' db'') : Keeps db db'' :=
  fun id hid => h' id (h id hid)

theorem Keeps.of_status (h : ∀ id, db'.status id = db.status id) : Keeps db db' := by
  intro id hid
  obtain ⟨s, hs, he⟩ := hid
  exact ⟨s, hs, (h id).trans he⟩

theorem keeps_update (id : OfferId) {f : Offer → Offer} (hf : ∀ o, (f o).id = o.id)
    (hs : ∀ o, (f o).protocol_status = o.protocol_status) : Keeps db (db.update id f hf) :=
  Keeps.of_status fun x => Db.status_update db id x hf hs

theorem Keeps.foldl {α : Type} {f : Db → α → Db} (hf : ∀ db a, Keeps db (f db a)) (l : List α) :
    ∀ db, Keeps db (l.foldl f db) := by
  induction l with
  | nil => exact Keeps.refl
  | cons a l ih => exact fun db => (hf db a).trans (ih _)

theorem delivery_of_valid {s s' : Status} (hs : s ∈ DELIVERY) (hs' : s' ∈ VALID_TRANSITIONS s)
    (ht : s' ≠ .timed_out) : s' ∈ DELIVERY := by
  have hall : ∀ s ∈ DELIVERY, ∀ s' ∈ VALID_TRANSITIONS s, s' ≠ .timed_out → s' ∈ DELIVERY := by
    decide
  exact hall s hs s' hs' ht

/-- Only a timeout leads out. -/
theorem keeps_transition {s : Status} (hs : s ≠ .timed_out) (taker : Option String) :
    Keeps db (transition now db id s taker) := by
  intro x hx
  by_cases hm : Moves db id s
  · by_cases hxid : x = id
    · obtain ⟨s₀, hs₀, hstatus⟩ := hx
      subst hxid
      have hmoves := hm
      obtain ⟨o, ho, hv⟩ := hmoves
      unfold Db.status at hstatus
      rw [ho] at hstatus
      obtain rfl := Option.some.inj hstatus
      exact ⟨s, delivery_of_valid hs₀ hv hs, status_transition_of hm⟩
    · obtain ⟨s₀, hs₀, hstatus⟩ := hx
      exact ⟨s₀, hs₀, (status_transition_ne hxid).trans hstatus⟩
  · rw [transition_of_not hm]
    exact hx

/-- Rows that are not under delivery may change as they like. -/
theorem keeps_other {f : Offer → Offer} (hf : ∀ o, (f o).id = o.id)
    (hs : ∀ o, db.offer id = some o → o.protocol_status ∈ DELIVERY →
      (f o).protocol_status ∈ DELIVERY) : Keeps db (db.update id f hf) := by
  intro x hx
  obtain ⟨s, hmem, hstatus⟩ := hx
  by_cases hxid : x = id
  · subst hxid
    obtain ⟨o, ho, rfl⟩ := Option.map_eq_some_iff.mp hstatus
    refine ⟨(f o).protocol_status, hs o ho hmem, ?_⟩
    unfold Db.status
    rw [Db.offer_update, if_pos rfl, ho]
    rfl
  · exact ⟨s, hmem, (Db.status_update_ne hxid hf).trans hstatus⟩

theorem keeps_matchOffer (msg : Accept) (offer : Offer) :
    Keeps db (matchOffer now db msg offer) := by
  unfold matchOffer
  refine Keeps.trans ?_ (keeps_transition (by decide) _)
  split
  · exact keeps_update _ _ fun _ => rfl
  · exact Keeps.refl db

theorem verificationState_ne (o : Offer) : verificationState o ≠ .timed_out := by
  unfold verificationState
  split
  · decide
  · split <;> decide

theorem keeps_routeToVerification : Keeps db (routeToVerification now db id) := by
  unfold routeToVerification
  split
  · exact Keeps.refl db
  · next offer h =>
    split
    · exact Keeps.refl db
    · exact keeps_transition (verificationState_ne offer) none

theorem keeps_processAccept (msg : Accept) (stops : Bool) :
    Keeps db (processAccept now db msg stops) := by
  unfold processAccept
  split
  · exact Keeps.refl db
  split
  · exact Keeps.refl db
  · next offer h =>
    split
    · exact Keeps.refl db
    split
    · exact Keeps.refl db
    split
    · exact keeps_transition (by decide) none
    split
    · exact Keeps.refl db
    split
    · exact Keeps.refl db
    split
    · exact keeps_matchOffer msg offer
    · exact (keeps_matchOffer msg offer).trans keeps_routeToVerification

theorem keeps_handleExchange (msg : Publish) : Keeps db (handleExchange now db msg) := by
  unfold handleExchange
  split
  · exact Keeps.refl db
  split
  · exact Keeps.refl db
  split
  · exact Keeps.refl db
  · next offers h =>
    have hnew : Keeps db { db with exchange_offers := offers } := by
      intro x hx
      obtain ⟨s, hs, hstatus⟩ := hx
      obtain ⟨o, ho, rfl⟩ := Option.map_eq_some_iff.mp hstatus
      refine ⟨_, hs, ?_⟩
      show (offers.get x).map Offer.protocol_status = _
      rw [Table.get_of_insert h ho]
      rfl
    refine hnew.trans (Keeps.foldl ?_ _ _)
    intro db p
    have h : Keeps (db.forget p.msg.tx) (processAccept now (db.forget p.msg.tx) p.msg false) :=
      keeps_processAccept p.msg false
    exact h

theorem keeps_processManualConfirm (msg : Confirm) :
    Keeps db (processManualConfirm now db msg) := by
  unfold processManualConfirm
  split
  · exact Keeps.refl db
  split
  · exact Keeps.refl db
  · split
    · exact Keeps.refl db
    split
    · exact Keeps.refl db
    split
    · refine Keeps.trans ?_ (keeps_transition (by decide) none)
      exact keeps_update _ _ fun _ => rfl
    · exact keeps_update _ _ fun _ => rfl

theorem keeps_processCancel (sender : String) : Keeps db (processCancel now db id sender) := by
  unfold processCancel
  split
  · exact Keeps.refl db
  split
  · exact Keeps.refl db
  · split
    · exact Keeps.refl db
    split
    · exact Keeps.refl db
    · exact keeps_transition (by decide) none

theorem keeps_dispute (disputer : Option String) (reason : String) :
    Keeps db (transition now (db.update id (Offer.dispute disputer reason) (fun _ => rfl)) id
      .disputed none) := by
  refine Keeps.trans ?_ (keeps_transition (by decide) none)
  exact keeps_update _ _ fun _ => rfl

theorem keeps_processDispute (disputer : String) (reason : Option String) :
    Keeps db (processDispute now db id disputer reason) := by
  unfold processDispute
  split
  · exact Keeps.refl db
  · split
    · exact Keeps.refl db
    split
    · exact Keeps.refl db
    · exact keeps_dispute _ _

theorem keeps_handleExchangeDispute (msg : Dispute) :
    Keeps db (handleExchangeDispute now db msg) := by
  unfold handleExchangeDispute
  split
  · exact Keeps.refl db
  split
  · exact Keeps.refl db
  · split
    · exact Keeps.refl db
    split
    · exact Keeps.refl db
    split
    · exact Keeps.refl db
    · exact keeps_dispute _ _

theorem keeps_handleExchangeDelivered (delivery_tx : String) :
    Keeps db (handleExchangeDelivered now db id delivery_tx) := by
  unfold handleExchangeDelivered
  split
  · exact Keeps.refl db
  split
  · exact Keeps.refl db
  · split
    · have hcompleted : Status.completed ∈ DELIVERY := by decide
      have hkeeps : Keeps db (db.update id (Offer.deliver delivery_tx) fun _ => rfl) :=
        keeps_other _ fun _ _ _ => hcompleted
      exact hkeeps
    · exact Keeps.refl db

theorem keeps_handleExchangeTimeout : Keeps db (handleExchangeTimeout now db id) := by
  unfold handleExchangeTimeout
  split
  · exact Keeps.refl db
  split
  · exact Keeps.refl db
  · next offer h =>
    split
    · exact Keeps.refl db
    · next hmatched =>
      have hkeeps : Keeps db (db.update id Offer.reopen fun _ => rfl) := by
        refine keeps_other _ ?_
        intro o ho hs
        rw [h] at ho
        obtain rfl := Option.some.inj ho
        rw [not_not.mp hmatched] at hs
        exact absurd hs (by decide)
      exact hkeeps

theorem keeps_reopenIfMatched : Keeps db (World.reopenIfMatched now db id) := by
  unfold World.reopenIfMatched
  split
  · next hmatched =>
    have hkeeps : Keeps db (db.update id Offer.reopen fun _ => rfl) := by
      refine keeps_other _ ?_
      intro o ho hs
      obtain ⟨o', ho', hstatus⟩ := Option.map_eq_some_iff.mp hmatched
      rw [ho] at ho'
      obtain rfl := Option.some.inj ho'
      rw [hstatus] at hs
      exact absurd hs (by decide)
    exact hkeeps
  · exact Keeps.refl db

theorem keeps_expireStale : Keeps db (expireStale now db) :=
  Keeps.foldl (fun _ _ => keeps_transition (by decide) none) _ _

theorem keeps_revertDelivering : Keeps db (World.revertDelivering now db) :=
  Keeps.foldl (fun _ _ => keeps_transition (by decide) none) _ _

/-- The maker gives in. -/
def Concedes (db : Db) (msg : Resolve) : Prop :=
  ∃ o ∈ db.offer msg.offer_id, o.protocol_status = .disputed ∧
    o.concede msg.resolver = some .taker_wins ∧ msg.outcome = Outcome.taker_wins.text

/-- A dispute that is not resolved for the taker stays with the delivery. -/
theorem keeps_handleExchangeResolve (msg : Resolve) (h : ¬ Concedes db msg) :
    Keeps db (handleExchangeResolve now db msg) := by
  unfold handleExchangeResolve
  split
  · exact Keeps.refl db
  split
  · exact Keeps.refl db
  · next offer ho =>
    split
    · exact Keeps.refl db
    · next hdisputed =>
      split
      · exact Keeps.refl db
      · next outcome hconcede =>
        split
        · exact Keeps.refl db
        · next htext =>
          cases outcome with
          | maker_wins =>
            have hcompleted : Status.completed ∈ DELIVERY := by decide
            have hkeeps : Keeps db
                (db.update msg.offer_id (Offer.resolve msg.resolver msg.tx .maker_wins)
                  fun _ => rfl) :=
              keeps_other _ fun _ _ _ => hcompleted
            exact hkeeps
          | taker_wins =>
            exact absurd ⟨offer, ho, not_not.mp hdisputed, hconcede, not_not.mp htext⟩ h

theorem status_handleExchangeResolve_ne {msg : Resolve} {x : OfferId} (hx : x ≠ msg.offer_id) :
    (handleExchangeResolve now db msg).status x = db.status x := by
  unfold handleExchangeResolve
  split
  · rfl
  split
  · rfl
  · split
    · rfl
    split
    · rfl
    · split
      · rfl
      · rw [Db.status_settle]
        exact Db.status_update_ne hx _

/-- A delivered offer times out from `verified` only. -/
theorem inDelivery_timedOut {x : OfferId} (h : x ≠ id ∨ db.status id ≠ some .verified)
    (hx : InDelivery db x) : InDelivery (transition now db id .timed_out none) x := by
  by_cases hm : Moves db id .timed_out
  · by_cases hxid : x = id
    · subst hxid
      obtain ⟨s, hs, hstatus⟩ := hx
      obtain ⟨o, ho, hv⟩ := hm
      obtain ⟨o', ho', rfl⟩ := Option.map_eq_some_iff.mp hstatus
      rw [ho] at ho'
      obtain rfl := Option.some.inj ho'
      have hverified : ∀ s ∈ DELIVERY, Status.timed_out ∈ VALID_TRANSITIONS s → s = .verified := by
        decide
      rw [hverified _ hs hv] at hstatus
      exact absurd hstatus (h.resolve_left fun hne => hne rfl)
    · obtain ⟨s, hs, hstatus⟩ := hx
      exact ⟨s, hs, (status_transition_ne hxid).trans hstatus⟩
  · rw [transition_of_not hm]
    exact hx

end

/-! ### What is under way -/

/-- Two elements that satisfy `p`, in a list with one, are the same element. -/
theorem index_unique {α : Type} {p : α → Bool} {l : List α} (h : l.countP p ≤ 1) {i j : Nat}
    {a b : α} (hi : l[i]? = some a) (hj : l[j]? = some b) (ha : p a = true) (hb : p b = true) :
    i = j := by
  induction l generalizing i j with
  | nil => simp at hi
  | cons c l ih =>
    rw [List.countP_cons] at h
    cases i with
    | zero =>
      cases j with
      | zero => rfl
      | succ j =>
        rw [List.getElem?_cons_zero, Option.some.injEq] at hi
        rw [List.getElem?_cons_succ] at hj
        subst hi
        rw [if_pos ha] at h
        have hpos := List.countP_pos_iff.mpr ⟨b, List.mem_of_getElem? hj, hb⟩
        omega
    | succ i =>
      rw [List.getElem?_cons_succ] at hi
      have hpos := List.countP_pos_iff.mpr ⟨a, List.mem_of_getElem? hi, ha⟩
      cases j with
      | zero =>
        rw [List.getElem?_cons_zero, Option.some.injEq] at hj
        subst hj
        rw [if_pos hb] at h
        omega
      | succ j =>
        rw [List.getElem?_cons_succ] at hj
        have hle : l.countP p ≤ 1 := (Nat.le_add_right _ _).trans h
        exact congrArg Nat.succ (ih hle hi hj)

theorem countP_modify_le {α : Type} {p : α → Bool} {f : α → α} {l : List α} {i : Nat}
    (h : ∀ a, l[i]? = some a → p (f a) = true → p a = true) :
    (l.modify i f).countP p ≤ l.countP p := by
  induction l generalizing i with
  | nil => simp
  | cons c l ih =>
    cases i with
    | zero =>
      rw [List.modify_zero_cons, List.countP_cons, List.countP_cons]
      have hc := h c rfl
      split
      · next hf => rw [if_pos (hc hf)]
      · exact Nat.add_le_add_left (Nat.zero_le _) _
    | succ i =>
      rw [List.modify_succ_cons, List.countP_cons, List.countP_cons]
      exact Nat.add_le_add_right (ih h) _

/-- The task is waiting to deliver the offer, and asks again when the answer is bad. -/
def Task.delivers (id : OfferId) : Task → Bool
  | .transferring deliveringOffer _ _ _ => deliveringOffer.id = id
  | .pausing deliveringOffer _ _ => deliveringOffer.id = id
  | _ => false

def Task.isDelivery : Task → Bool
  | .transferring .. => true
  | .pausing .. => true
  | _ => false

/-- The transfer is on the chain, or may come there. -/
def Request.stands (id : OfferId) (r : Request) : Bool :=
  r.offer_id = id && (r.tx.isSome || !r.failed)

@[simp] theorem stands_request (o : Offer) (target : String) (id : OfferId) :
    (o.request target).stands id = decide (o.id = id) :=
  Bool.and_true _

def Request.sent (id : OfferId) (r : Request) : Bool := r.offer_id = id && r.tx.isSome

def Reply.confirms : Reply → Bool
  | .verification confirmed _ => confirmed
  | _ => false

def Reply.fails : Reply → Bool
  | .noTx => true
  | .threw => true
  | _ => false

namespace World

def Underway (w : World) (id : OfferId) : Prop :=
  (∃ t ∈ w.tasks, t.delivers id = true) ∨ ∃ r ∈ w.requests, r.stands id = true

instance (w : World) (id : OfferId) : Decidable (w.Underway id) :=
  inferInstanceAs (Decidable (_ ∨ _))

structure Inv (w : World) : Prop where
  one_task : ∀ id, w.tasks.countP (Task.delivers id) ≤ 1
  one_request : ∀ id, w.requests.countP (Request.stands id) ≤ 1
  /-- A task that waits for a transfer was not told that it failed. -/
  waits : ∀ o target attempt request, Task.transferring o target attempt request ∈ w.tasks →
    ∃ r, w.requests[request]? = some r ∧ r.offer_id = o.id ∧ r.failed = false
  /-- A task asks again when every transfer before has failed. -/
  pauses : ∀ o target attempt, Task.pausing o target attempt ∈ w.tasks →
    ∀ r ∈ w.requests, r.stands o.id = false
  status : ∀ id, w.Underway id → InDelivery w.db id

end World

theorem isDelivery_of_delivers {t : Task} {id : OfferId} (h : t.delivers id = true) :
    t.isDelivery = true := by
  cases t <;> first | rfl | cases h

theorem countP_delivers (l : List Task) (id : OfferId) :
    l.countP (Task.delivers id) = (l.filter Task.isDelivery).countP (Task.delivers id) := by
  rw [List.countP_filter]
  refine List.countP_congr ?_
  intro t _
  rw [Bool.and_eq_true]
  exact ⟨fun h => ⟨h, isDelivery_of_delivers h⟩, And.left⟩

namespace World

variable {now : Nat} {relay : String → Bool} {w w' : World} {id : OfferId} {o : Offer} {t : Task}

/-- A step that asks for nothing and takes no offer out of its delivery. -/
structure Quiet (w w' : World) : Prop where
  tasks : (w'.tasks.filter Task.isDelivery).Sublist (w.tasks.filter Task.isDelivery)
  requests : w'.requests = w.requests
  status : ∀ id, w.Underway id → InDelivery w.db id → InDelivery w'.db id

theorem Quiet.mem (hq : Quiet w w') (ht : t ∈ w'.tasks) (hd : t.isDelivery = true) :
    t ∈ w.tasks :=
  (List.mem_filter.mp (hq.tasks.subset (List.mem_filter.mpr ⟨ht, hd⟩))).1

theorem Quiet.underway (hq : Quiet w w') (h : w'.Underway id) : w.Underway id := by
  obtain ⟨t, ht, hd⟩ | h := h
  · exact Or.inl ⟨t, hq.mem ht (isDelivery_of_delivers hd), hd⟩
  · rw [hq.requests] at h
    exact Or.inr h

theorem Inv.quiet (h : Inv w) (hq : Quiet w w') : Inv w' where
  one_task id := by
    rw [countP_delivers]
    refine hq.tasks.countP_le.trans ?_
    rw [← countP_delivers]
    exact h.one_task id
  one_request id := by
    rw [hq.requests]
    exact h.one_request id
  waits o target attempt request ht := by
    rw [hq.requests]
    exact h.waits o target attempt request (hq.mem ht rfl)
  pauses o target attempt ht := by
    rw [hq.requests]
    exact h.pauses o target attempt (hq.mem ht rfl)
  status id hu := hq.status id (hq.underway hu) (h.status id (hq.underway hu))

theorem Inv.withDb (h : Inv w) {db : Db} (hk : Keeps w.db db) : Inv (w.withDb db) :=
  h.quiet ⟨List.Sublist.refl _, rfl, fun id _ hid => hk id hid⟩

theorem Inv.await (h : Inv w) (ht : t.isDelivery = false) : Inv (w.await t) := by
  refine h.quiet ⟨?_, rfl, fun _ _ hid => hid⟩
  show ((w.tasks ++ [t]).filter _).Sublist _
  rw [List.filter_append, List.filter_cons_of_neg (by simp [ht]), List.filter_nil, List.append_nil]

theorem Inv.drop (h : Inv w) {tasks : List Task} (hs : tasks.Sublist w.tasks) :
    Inv { w with tasks := tasks } :=
  h.quiet ⟨hs.filter _, rfl, fun _ _ hid => hid⟩

theorem Inv.perm (h : Inv w) {tasks : List Task} (hp : tasks.Perm w.tasks) :
    Inv { w with tasks := tasks } where
  one_task id := by
    show tasks.countP _ ≤ 1
    rw [hp.countP_eq]
    exact h.one_task id
  one_request := h.one_request
  waits o target attempt request ht := h.waits o target attempt request (hp.subset ht)
  pauses o target attempt ht := h.pauses o target attempt (hp.subset ht)
  status id hu := by
    refine h.status id ?_
    obtain ⟨t, ht, hd⟩ | hr := hu
    · exact Or.inl ⟨t, hp.subset ht, hd⟩
    · exact Or.inr hr

/-- The next transfer of an offer can be asked for when nothing of it is under way. -/
theorem Inv.requestTransfer (h : Inv w) (hu : ¬ w.Underway o.id) (hs : InDelivery w.db o.id)
    (target : String) (attempt : Nat) : Inv (w.requestTransfer o target attempt) := by
  have htask : ∀ t ∈ w.tasks, t.delivers o.id = false := by
    intro t ht
    exact Bool.eq_false_iff.mpr fun hd => hu (Or.inl ⟨t, ht, hd⟩)
  have hreq : ∀ r ∈ w.requests, r.stands o.id = false := by
    intro r hr
    exact Bool.eq_false_iff.mpr fun hd => hu (Or.inr ⟨r, hr, hd⟩)
  refine ⟨?_, ?_, ?_, ?_, ?_⟩
  · intro id
    show (w.tasks ++ [_]).countP _ ≤ 1
    rw [List.countP_append, List.countP_singleton]
    by_cases hid : o.id = id
    · subst hid
      rw [List.countP_eq_zero.mpr fun t ht => by simp [htask t ht]]
      split <;> decide
    · simpa [Task.delivers, hid] using h.one_task id
  · intro id
    show (w.requests ++ [_]).countP _ ≤ 1
    rw [List.countP_append, List.countP_singleton]
    by_cases hid : o.id = id
    · subst hid
      rw [List.countP_eq_zero.mpr fun r hr => by simp [hreq r hr]]
      split <;> decide
    · simpa [hid] using h.one_request id
  · intro o' target' attempt' request ht
    obtain ht | ht := List.mem_append.mp ht
    · obtain ⟨r, hr, hrest⟩ := h.waits o' target' attempt' request ht
      exact ⟨r, by
        show (w.requests ++ [_])[request]? = some r
        rw [List.getElem?_append_left (List.getElem?_eq_some_iff.mp hr).1]
        exact hr, hrest⟩
    · rw [List.mem_singleton] at ht
      cases ht
      exact ⟨o.request target, List.getElem?_concat_length, rfl, rfl⟩
  · intro o' target' attempt' ht r hr
    obtain ht | ht := List.mem_append.mp ht
    · obtain hr | hr := List.mem_append.mp hr
      · exact h.pauses o' target' attempt' ht r hr
      · have hne : o.id ≠ o'.id := by
          intro he
          have := htask _ ht
          simp [Task.delivers, he] at this
        rw [List.mem_singleton.mp hr]
        simp [hne]
    · exact absurd (List.mem_singleton.mp ht) (by simp)
  · intro id hid
    by_cases he : o.id = id
    · subst he
      exact hs
    · refine h.status id ?_
      obtain ⟨t, ht, hd⟩ | ⟨r, hr, hd⟩ := hid
      · obtain ht | ht := List.mem_append.mp ht
        · exact Or.inl ⟨t, ht, hd⟩
        · rw [List.mem_singleton.mp ht] at hd
          exact absurd (decide_eq_true_iff.mp hd) he
      · obtain hr | hr := List.mem_append.mp hr
        · exact Or.inr ⟨r, hr, hd⟩
        · rw [List.mem_singleton.mp hr] at hd
          simp [he] at hd

/-- A task may wait for its next try when nothing of its offer is under way. -/
theorem Inv.pausing (h : Inv w) (hu : ¬ w.Underway o.id) (hs : InDelivery w.db o.id)
    (target : String) (attempt : Nat) : Inv (w.await (.pausing o target attempt)) := by
  have htask : ∀ t ∈ w.tasks, t.delivers o.id = false := by
    intro t ht
    exact Bool.eq_false_iff.mpr fun hd => hu (Or.inl ⟨t, ht, hd⟩)
  refine ⟨?_, h.one_request, ?_, ?_, ?_⟩
  · intro id
    show (w.tasks ++ [_]).countP _ ≤ 1
    rw [List.countP_append, List.countP_singleton]
    by_cases hid : o.id = id
    · subst hid
      rw [List.countP_eq_zero.mpr fun t ht => by simp [htask t ht]]
      split <;> decide
    · simpa [Task.delivers, hid] using h.one_task id
  · intro o' target' attempt' request ht
    obtain ht | ht := List.mem_append.mp ht
    · exact h.waits o' target' attempt' request ht
    · exact absurd (List.mem_singleton.mp ht) (by simp)
  · intro o' target' attempt' ht r hr
    obtain ht | ht := List.mem_append.mp ht
    · exact h.pauses o' target' attempt' ht r hr
    · rw [List.mem_singleton] at ht
      cases ht
      exact Bool.eq_false_iff.mpr fun hd => hu (Or.inr ⟨r, hr, hd⟩)
  · intro id hid
    by_cases he : o.id = id
    · subst he
      exact hs
    · refine h.status id ?_
      obtain ⟨t, ht, hd⟩ | hr := hid
      · obtain ht | ht := List.mem_append.mp ht
        · exact Or.inl ⟨t, ht, hd⟩
        · rw [List.mem_singleton.mp ht] at hd
          exact absurd (decide_eq_true_iff.mp hd) he
      · exact Or.inr hr

/-! ### Answers -/

theorem not_underway_of_verifying (h : Inv w) (hs : w.db.status id = some .verifying) :
    ¬ w.Underway id := by
  intro hu
  obtain ⟨s, hmem, hstatus⟩ := h.status id hu
  rw [hs] at hstatus
  obtain rfl := Option.some.inj hstatus
  exact absurd hmem (by decide)

theorem Inv.beginDelivery (h : Inv w) (hu : ¬ w.Underway id) (hs : InDelivery w.db id) :
    Inv (beginDelivery relay w id) := by
  unfold World.beginDelivery
  split
  · exact h
  · next o ho =>
    obtain rfl := Db.offer_id ho
    split
    · split
      · exact h
      · exact h.requestTransfer hu hs _ _
    · exact h

theorem keeps_record (o : Offer) (payment_tx : String) : Keeps w.db (w.record o payment_tx).db :=
  keeps_update _ _ fun _ => rfl

theorem keeps_complete {db : Db} (delivery_tx : String) :
    Keeps db (complete now db id delivery_tx) := by
  refine Keeps.trans ?_ (keeps_transition (by decide) none)
  exact keeps_update _ _ fun _ => rfl

theorem keeps_completeUndelivered {db : Db} (payment_tx : String) :
    Keeps db (completeUndelivered now db id payment_tx) := by
  refine Keeps.trans ?_ (keeps_transition (by decide) none)
  refine Keeps.trans ?_ (keeps_transition (by decide) none)
  exact keeps_update _ _ fun _ => rfl

/-- A verification that comes back to an offer in `verifying` starts its first delivery. -/
theorem Inv.confirmed (h : Inv w) (hs : w.db.status o.id = some .verifying)
    (payment_tx payment_chain : String) :
    Inv (confirmed now relay w o payment_tx payment_chain) := by
  have hstatus : (w.record o payment_tx).db.status o.id = some .verifying := by
    rw [← hs]
    exact Db.status_update _ _ _ _ fun _ => rfl
  have hrecord : Inv (w.record o payment_tx) :=
    h.quiet ⟨List.Sublist.refl _, rfl, fun id _ hid => keeps_record o payment_tx id hid⟩
  unfold World.confirmed
  split
  · exact hrecord.withDb (keeps_completeUndelivered payment_tx)
  · have hmoves : Moves (w.record o payment_tx).db o.id .delivering := by
      obtain ⟨r, hr, hverifying⟩ := Option.map_eq_some_iff.mp hstatus
      refine ⟨r, hr, ?_⟩
      rw [hverifying]
      decide
    have hu : ¬ w.Underway o.id := not_underway_of_verifying h hs
    refine (hrecord.withDb (keeps_transition (by decide) none)).beginDelivery hu ?_
    exact ⟨.delivering, by decide, status_transition_of hmoves⟩

theorem Inv._verifyAndComplete (h : Inv w) (payment_tx payment_chain : String) (attempt : Nat) :
    Inv (_verifyAndComplete now relay w id payment_tx payment_chain attempt) := by
  unfold World._verifyAndComplete
  split
  · exact h
  · next offer ho =>
    obtain rfl := Db.offer_id ho
    split
    · exact h
    · next hs =>
      split
      · refine h.confirmed ?_ payment_tx payment_chain
        unfold Db.status
        rw [ho, Option.map_some, not_not.mp hs]
      · exact h.await rfl

theorem Inv.unconfirmed (h : Inv w) (payment_tx payment_chain : String) (attempt : Nat)
    (error : String) : Inv (unconfirmed now w o payment_tx payment_chain attempt error) := by
  unfold World.unconfirmed
  split
  · exact h.await rfl
  · refine h.withDb (Keeps.trans ?_ (keeps_transition (by decide) none))
    exact keeps_update _ _ fun _ => rfl

theorem Inv.processPaymentSubmit (h : Inv w) (payment_tx : String) (payment_chain : Option String) :
    Inv (processPaymentSubmit now relay w id payment_tx payment_chain) := by
  unfold World.processPaymentSubmit
  split
  · exact h
  · split
    · exact h
    split
    · exact h
    split
    · exact h
    · split
      · exact h
      · refine Inv._verifyAndComplete ?_ _ _ _
        exact h.withDb (keeps_update _ _ fun _ => rfl)

theorem keeps_toVerifying {db : Db} (o : Offer) : Keeps db (toVerifying now db o) := by
  unfold toVerifying
  split
  · exact keeps_transition (by decide) none
  · exact Keeps.refl db

theorem Inv.handleExchangePaid (h : Inv w) (msg : Paid) (stops : Bool) :
    Inv (handleExchangePaid now relay w msg stops) := by
  unfold World.handleExchangePaid
  split
  · exact h
  split
  · exact h
  · split
    · exact h
    split
    · exact h
    split
    · exact h
    split
    · exact h.withDb (keeps_update _ _ fun _ => rfl)
    · refine Inv.processPaymentSubmit (h.withDb (Keeps.trans ?_ (keeps_toVerifying _))) _ _
      refine Keeps.trans ?_ (keeps_update _ _ fun _ => rfl)
      exact keeps_update _ _ fun _ => rfl

/-- The answer that a transfer has failed clears its offer, if it was not broadcast. -/
theorem Inv.reportFailed {target : String} {attempt request : Nat}
    (h : Inv { w with tasks := .transferring o target attempt request :: w.tasks })
    (hsafe : ∀ r, w.requests[request]? = some r → r.tx = none) :
    Inv (w.reportFailed request) ∧ ¬ (w.reportFailed request).Underway o.id ∧
      InDelivery w.db o.id := by
  obtain ⟨r, hr, hid, hlive⟩ := h.waits o target attempt request List.mem_cons_self
  have hstands : r.stands o.id = true := by simp [Request.stands, hid, hlive]
  have hrest : ∀ t ∈ w.tasks, t.delivers o.id = false := by
    intro t ht
    have hone := h.one_task o.id
    refine Bool.eq_false_iff.mpr ?_
    intro hd
    have hpos := List.countP_pos_iff.mpr ⟨t, ht, hd⟩
    have hself : Task.delivers o.id (.transferring o target attempt request) = true :=
      decide_eq_true rfl
    rw [List.countP_cons, if_pos hself] at hone
    omega
  have hget : ∀ j, (w.reportFailed request).requests[j]? =
      (fun r => if request = j then { r with failed := true } else r) <$> w.requests[j]? :=
    fun j => List.getElem?_modify _ _ _ _
  -- the transfer that was waited for was the only one that stood
  have hnone : ∀ r' ∈ (w.reportFailed request).requests, r'.stands o.id = false := by
    intro r' hr'
    obtain ⟨j, hj⟩ := List.mem_iff_getElem?.mp hr'
    rw [hget, Option.map_eq_map, Option.map_eq_some_iff] at hj
    obtain ⟨r₀, hr₀, rfl⟩ := hj
    by_cases hjk : request = j
    · subst hjk
      rw [if_pos rfl]
      simp [Request.stands, hsafe r₀ hr₀]
    · rw [if_neg hjk]
      refine Bool.eq_false_iff.mpr ?_
      intro hs₀
      exact hjk (index_unique (h.one_request o.id) hr hr₀ hstands hs₀)
  have hfewer : ∀ id, (w.reportFailed request).requests.countP (Request.stands id) ≤
      w.requests.countP (Request.stands id) := by
    intro id
    refine countP_modify_le ?_
    intro a ha hs
    simp only [Request.stands, hsafe a ha] at hs
    simp at hs
  have hunder : ∀ id, (w.reportFailed request).Underway id → w.Underway id := by
    intro id hu
    obtain ht | ⟨r', hr', hd⟩ := hu
    · exact Or.inl ht
    · have hpos := List.countP_pos_iff.mpr ⟨r', hr', hd⟩
      obtain ⟨r₀, hr₀, hd₀⟩ := List.countP_pos_iff.mp (hpos.trans_le (hfewer id))
      exact Or.inr ⟨r₀, hr₀, hd₀⟩
  have hrestInv : Inv w := h.drop (List.sublist_cons_self _ _)
  refine ⟨⟨hrestInv.one_task, fun id => (hfewer id).trans (hrestInv.one_request id), ?_, ?_,
    fun id hu => hrestInv.status id (hunder id hu)⟩, ?_, ?_⟩
  · intro o' target' attempt' request' ht
    obtain ⟨r', hr', hid', hlive'⟩ := hrestInv.waits o' target' attempt' request' ht
    have hne : request ≠ request' := by
      intro he
      rw [← he, hr] at hr'
      obtain rfl := Option.some.inj hr'
      have := hrest _ ht
      simp [Task.delivers, ← hid', hid] at this
    refine ⟨r', ?_, hid', hlive'⟩
    rw [hget, hr', Option.map_eq_map, Option.map_some, if_neg hne]
  · intro o' target' attempt' ht r' hr'
    have hzero : w.requests.countP (Request.stands o'.id) = 0 := by
      refine List.countP_eq_zero.mpr ?_
      intro r hr
      rw [hrestInv.pauses o' target' attempt' ht r hr]
      decide
    have hle := hfewer o'.id
    rw [hzero, Nat.le_zero, List.countP_eq_zero] at hle
    exact Bool.eq_false_iff.mpr (hle r' hr')
  · intro hu
    obtain ⟨t, ht, hd⟩ | ⟨r', hr', hd⟩ := hu
    · rw [hrest t ht] at hd
      cases hd
    · rw [hnone r' hr'] at hd
      cases hd
  · exact h.status o.id (Or.inl ⟨_, List.mem_cons_self, decide_eq_true rfl⟩)

theorem Inv.nextAttempt (h : Inv w) (hu : ¬ w.Underway o.id) (hs : InDelivery w.db o.id)
    (target : String) (attempt : Nat) (pauses : Bool) :
    Inv (nextAttempt now w o target attempt pauses) := by
  unfold World.nextAttempt
  split
  · exact h.withDb (keeps_transition (by decide) none)
  split
  · exact h.pausing hu hs target attempt
  · exact h.requestTransfer hu hs target (attempt + 1)

/-- An offer that times out is not under delivery, or not in a state that times out. -/
def TimesOut (w : World) (id : OfferId) : Prop :=
  w.db.status id = some .verified → ¬ w.Underway id

instance (w : World) (id : OfferId) : Decidable (w.TimesOut id) :=
  inferInstanceAs (Decidable (_ → _))

theorem Inv.timeOut (h : Inv w) (hsafe : w.TimesOut id) (sweep : Sweep) (ids : List OfferId) :
    Inv (timeOut now w sweep id ids) := by
  refine Inv.await (h.quiet ⟨List.Sublist.refl _, rfl, ?_⟩) rfl
  intro x hu hx
  refine inDelivery_timedOut ?_ hx
  by_cases hxid : x = id
  · subst hxid
    exact Or.inr fun hs => hsafe hs hu
  · exact Or.inl hxid

theorem Inv.sweepOn (h : Inv w) (sweep : Sweep) (ids : List OfferId)
    (hsafe : ∀ id ∈ ids.head?, w.TimesOut id) : Inv (sweepOn now relay w sweep ids) := by
  cases ids with
  | nil =>
    cases sweep with
    | verifying => exact Inv.await (h.withDb keeps_revertDelivering) rfl
    | verified => exact h
  | cons id ids =>
    cases sweep with
    | verifying =>
      simp only [World.sweepOn]
      split
      · exact h.await rfl
      · split
        · exact h.await rfl
        · exact h.timeOut (hsafe id rfl) .verifying ids
    | verified =>
      simp only [World.sweepOn]
      split
      · exact h.await rfl
      · split
        · exact h.await rfl
        · exact h.timeOut (hsafe id rfl) .verified ids

theorem Inv.reopenMatched (h : Inv w) (ids : List OfferId) : Inv (reopenMatched now w id ids) :=
  Inv.await (h.withDb keeps_reopenIfMatched) rfl

theorem Inv.reopenOn (h : Inv w) (ids : List OfferId) : Inv (reopenOn now relay w ids) := by
  cases ids with
  | nil => exact h
  | cons id ids =>
    simp only [World.reopenOn]
    split
    · exact h.await rfl
    · split
      · exact h.await rfl
      · exact h.reopenMatched ids

/-! ### Steps -/

/-- What a task must find when it goes on. -/
def SafeAnswer (w : World) (reply : Reply) : Task → Prop
  | .verifying offer _ _ _ => reply.confirms → w.db.status offer.id = some .verifying
  | .transferring _ _ _ request => reply.fails → ∀ r ∈ w.requests[request]?, r.tx = none
  | .sweeping _ ids => ∀ id ∈ ids.head?, w.TimesOut id
  | .emitting _ id _ _ => w.TimesOut id
  | _ => True

theorem TimesOut.drop (h : w.TimesOut id) {tasks : List Task} (hs : tasks.Sublist w.tasks) :
    TimesOut { w with tasks := tasks } id := by
  intro hstatus hu
  refine h hstatus ?_
  obtain ⟨t, ht, hd⟩ | hr := hu
  · exact Or.inl ⟨t, hs.subset ht, hd⟩
  · exact Or.inr hr

theorem SafeAnswer.drop {reply : Reply} (h : w.SafeAnswer reply t) {tasks : List Task}
    (hs : tasks.Sublist w.tasks) : SafeAnswer { w with tasks := tasks } reply t := by
  cases t with
  | sweeping sweep ids => exact fun id hid => (h id hid).drop hs
  | emitting sweep id ids attempt => exact TimesOut.drop h hs
  | _ => exact h

def Safe (w : World) : Event → Prop
  | .resolve msg => Concedes w.db msg → ¬ w.Underway msg.offer_id
  | .broadcast request _ => ∀ r ∈ w.requests[request]?, r.failed = false
  | .resume task reply => ∀ t ∈ w.tasks[task]?, w.SafeAnswer reply.read t
  | _ => True

theorem Inv.answer (h : Inv { w with tasks := t :: w.tasks }) {reply : Reply}
    (hsafe : w.SafeAnswer reply t) : Inv (answer now relay w t reply) := by
  have hrest : Inv w := h.drop (List.sublist_cons_self _ _)
  have hback : Inv (w.await t) := h.perm (List.perm_append_singleton t w.tasks)
  cases t with
  | retry id payment_tx payment_chain attempt =>
    cases reply with
    | go => exact hrest._verifyAndComplete payment_tx payment_chain attempt
    | _ => exact hback
  | verifying offer payment_tx payment_chain attempt =>
    cases reply with
    | verification confirmed error =>
      cases confirmed with
      | true => exact hrest.confirmed (hsafe rfl) payment_tx payment_chain
      | false => exact hrest.unconfirmed payment_tx payment_chain attempt error
    | threw => exact hrest
    | _ => exact hback
  | transferring offer target attempt request =>
    cases reply with
    | txId tx => exact hrest.await rfl
    | noTx =>
      obtain ⟨hinv, hu, hs⟩ := h.reportFailed fun r hr => hsafe rfl r hr
      exact hinv.nextAttempt hu hs target attempt false
    | threw =>
      obtain ⟨hinv, hu, hs⟩ := h.reportFailed fun r hr => hsafe rfl r hr
      exact hinv.nextAttempt hu hs target attempt true
    | _ => exact hback
  | pausing offer target attempt =>
    cases reply with
    | go =>
      have hself : Task.delivers offer.id (.pausing offer target attempt) = true :=
        decide_eq_true rfl
      refine hrest.requestTransfer ?_ ?_ target (attempt + 1)
      · intro hu
        obtain ⟨t, ht, hd⟩ | ⟨r, hr, hd⟩ := hu
        · have hone := h.one_task offer.id
          have hpos := List.countP_pos_iff.mpr ⟨t, ht, hd⟩
          rw [List.countP_cons, if_pos hself] at hone
          omega
        · rw [h.pauses offer target attempt List.mem_cons_self r hr] at hd
          cases hd
      · exact h.status offer.id (Or.inl ⟨_, List.mem_cons_self, hself⟩)
    | _ => exact hback
  | announcing offer deliveryTxId attempt =>
    cases reply with
    | txId tx => exact hrest.withDb (keeps_complete deliveryTxId)
    | noTx | threw =>
      simp only [World.answer]
      split
      · exact hrest.await rfl
      · exact hrest
    | _ => exact hback
  | sweeping sweep ids =>
    cases reply with
    | go => exact hrest.sweepOn sweep ids hsafe
    | _ => exact hback
  | emitting sweep id ids attempt =>
    cases reply with
    | txId tx => exact hrest.timeOut hsafe sweep ids
    | noTx | threw =>
      simp only [World.answer]
      split
      · exact hrest.await rfl
      · exact hrest.await rfl
    | _ => exact hback
  | reopening ids =>
    cases reply with
    | go => exact hrest.reopenOn ids
    | _ => exact hback
  | emittingReopen id ids attempt =>
    cases reply with
    | txId tx => exact hrest.reopenMatched ids
    | noTx | threw =>
      simp only [World.answer]
      split
      · exact hrest.await rfl
      · exact hrest.await rfl
    | _ => exact hback

/-- A transfer that was not reported as failed may reach the chain. -/
theorem Inv.broadcast (h : Inv w) {request : Nat} (tx : String)
    (hsafe : ∀ r ∈ w.requests[request]?, r.failed = false) :
    Inv { w with
      requests := w.requests.modify request fun r => { r with tx := r.tx.or (some tx) } } := by
  have hfewer : ∀ id, (w.requests.modify request fun r =>
      { r with tx := r.tx.or (some tx) }).countP (Request.stands id) ≤
        w.requests.countP (Request.stands id) := by
    intro id
    refine countP_modify_le ?_
    intro r hr hs
    have hid : r.offer_id = id := by
      simp only [Request.stands, Bool.and_eq_true, decide_eq_true_iff] at hs
      exact hs.1
    simp [Request.stands, hid, hsafe r hr]
  refine ⟨h.one_task, fun id => (hfewer id).trans (h.one_request id), ?_, ?_, ?_⟩
  · intro o target attempt request' ht
    obtain ⟨r, hr, hid, hlive⟩ := h.waits o target attempt request' ht
    by_cases hk : request = request'
    · refine ⟨{ r with tx := r.tx.or (some tx) }, ?_, hid, hlive⟩
      rw [List.getElem?_modify, hr, Option.map_eq_map, Option.map_some, if_pos hk]
    · refine ⟨r, ?_, hid, hlive⟩
      rw [List.getElem?_modify, hr, Option.map_eq_map, Option.map_some, if_neg hk]
  · intro o target attempt ht r hr
    have hzero : w.requests.countP (Request.stands o.id) = 0 := by
      refine List.countP_eq_zero.mpr ?_
      intro r' hr'
      rw [h.pauses o target attempt ht r' hr']
      decide
    have hle := hfewer o.id
    rw [hzero, Nat.le_zero, List.countP_eq_zero] at hle
    exact Bool.eq_false_iff.mpr (hle r hr)
  · intro id hu
    refine h.status id ?_
    obtain ht | ⟨r, hr, hd⟩ := hu
    · exact Or.inl ht
    · have hpos := List.countP_pos_iff.mpr ⟨r, hr, hd⟩
      obtain ⟨r', hr', hd'⟩ := List.countP_pos_iff.mp (hpos.trans_le (hfewer id))
      exact Or.inr ⟨r', hr', hd'⟩

theorem Inv.restart (h : Inv w) : Inv w.restart := h.drop (List.nil_sublist _)

theorem Inv.stopIf (h : Inv w) (stops : Bool) : Inv (stopIf stops w) := by
  unfold World.stopIf
  split
  · exact h.restart
  · exact h

/-- **The invariant is kept by every safe step.** -/
theorem Inv.step (h : Inv w) (e : Nat × Event) (hsafe : w.Safe e.2) : Inv (step relay w e) := by
  obtain ⟨now, e⟩ := e
  cases e with
  | publish msg => exact h.withDb (keeps_handleExchange msg)
  | accept msg stops => exact (h.withDb (keeps_processAccept msg stops)).stopIf stops
  | confirm msg => exact h.withDb (keeps_processManualConfirm msg)
  | cancel offer_id sender => exact h.withDb (keeps_processCancel sender)
  | paid msg stops => exact (h.handleExchangePaid msg stops).stopIf stops
  | delivered offer_id sender delivery_tx =>
    exact h.withDb (keeps_handleExchangeDelivered delivery_tx)
  | timeout offer_id sender => exact h.withDb keeps_handleExchangeTimeout
  | dispute msg => exact h.withDb (keeps_handleExchangeDispute msg)
  | resolve msg =>
    refine h.quiet ⟨List.Sublist.refl _, rfl, ?_⟩
    intro id hu hid
    by_cases hconcedes : Concedes w.db msg
    · have hne : id ≠ msg.offer_id := by
        rintro rfl
        exact hsafe hconcedes hu
      obtain ⟨s, hs, hstatus⟩ := hid
      exact ⟨s, hs, (status_handleExchangeResolve_ne hne).trans hstatus⟩
    · exact keeps_handleExchangeResolve msg hconcedes id hid
  | submitPayment offer_id payment_tx payment_chain =>
    exact h.processPaymentSubmit payment_tx payment_chain
  | raiseDispute offer_id disputer reason => exact h.withDb (keeps_processDispute disputer reason)
  | refund offer_id => exact h.withDb (keeps_transition (by decide) none)
  | expireStale => exact h.withDb keeps_expireStale
  | cleanupStaleOrphanAccepts => exact h.withDb (Keeps.of_status fun _ => rfl)
  | timeoutVerifying => exact h.await rfl
  | checkMatchedTimeout => exact h.await rfl
  | broadcast request tx => exact h.broadcast tx hsafe
  | resume task reply =>
    simp only [World.step]
    split
    · exact h
    · next t ht =>
      obtain ⟨hlt, rfl⟩ := List.getElem?_eq_some_iff.mp ht
      have hinv : Inv { w with tasks := w.tasks[task] :: w.tasks.eraseIdx task } :=
        h.perm (List.getElem_cons_eraseIdx_perm hlt)
      exact Inv.answer hinv ((hsafe _ ht).drop (List.eraseIdx_sublist _ _))
  | restart => exact h.restart

/-! ### Runs -/

instance (w : World) (reply : Reply) : (t : Task) → Decidable (w.SafeAnswer reply t)
  | .retry .. => isTrue trivial
  | .verifying .. => inferInstanceAs (Decidable (_ → _))
  | .transferring .. => inferInstanceAs (Decidable (_ → _))
  | .pausing .. => isTrue trivial
  | .announcing .. => isTrue trivial
  | .sweeping _ ids => inferInstanceAs (Decidable (∀ id ∈ ids.head?, w.TimesOut id))
  | .emitting _ id _ _ => inferInstanceAs (Decidable (w.TimesOut id))
  | .reopening _ => isTrue trivial
  | .emittingReopen .. => isTrue trivial

instance (db : Db) (msg : Resolve) : Decidable (Concedes db msg) :=
  inferInstanceAs (Decidable (∃ o ∈ db.offer msg.offer_id, _))

instance (w : World) : (e : Event) → Decidable (w.Safe e)
  | .publish _ => isTrue trivial
  | .accept .. => isTrue trivial
  | .confirm _ => isTrue trivial
  | .cancel .. => isTrue trivial
  | .paid .. => isTrue trivial
  | .delivered .. => isTrue trivial
  | .timeout .. => isTrue trivial
  | .dispute _ => isTrue trivial
  | .resolve msg =>
    inferInstanceAs (Decidable (Concedes w.db msg → ¬ w.Underway msg.offer_id))
  | .submitPayment .. => isTrue trivial
  | .raiseDispute .. => isTrue trivial
  | .refund _ => isTrue trivial
  | .expireStale => isTrue trivial
  | .cleanupStaleOrphanAccepts => isTrue trivial
  | .timeoutVerifying => isTrue trivial
  | .checkMatchedTimeout => isTrue trivial
  | .broadcast request _ =>
    inferInstanceAs (Decidable (∀ r ∈ w.requests[request]?, r.failed = false))
  | .resume task reply =>
    inferInstanceAs (Decidable (∀ t ∈ w.tasks[task]?, w.SafeAnswer reply.read t))
  | .restart => isTrue trivial

def SafeRun (relay : String → Bool) : World → List (Nat × Event) → Prop
  | _, [] => True
  | w, e :: es => w.Safe e.2 ∧ SafeRun relay (w.step relay e) es

instance decidableSafeRun (relay : String → Bool) :
    (w : World) → (es : List (Nat × Event)) → Decidable (SafeRun relay w es)
  | _, [] => isTrue trivial
  | w, e :: es =>
    have := decidableSafeRun relay (w.step relay e) es
    inferInstanceAs (Decidable (w.Safe e.2 ∧ _))

/-- The machine as it comes up on a database. -/
def start (db : Db) : World := ⟨db, [], [], []⟩

theorem inv_start (db : Db) : Inv (start db) where
  one_task _ := Nat.zero_le 1
  one_request _ := Nat.zero_le 1
  waits _ _ _ _ h := absurd h List.not_mem_nil
  pauses _ _ _ h := absurd h List.not_mem_nil
  status _ h := by
    obtain ⟨_, h, -⟩ | ⟨_, h, -⟩ := h
    · exact absurd h List.not_mem_nil
    · exact absurd h List.not_mem_nil

theorem Inv.run {es : List (Nat × Event)} (h : Inv w) (hsafe : SafeRun relay w es) :
    Inv (w.run relay es) := by
  induction es generalizing w with
  | nil => exact h
  | cons e es ih => exact ih (h.step e hsafe.1) hsafe.2

theorem SafeRun.of_prefix {es before : List (Nat × Event)} (h : SafeRun relay w es)
    (hb : before <+: es) : SafeRun relay w before := by
  induction before generalizing w es with
  | nil => trivial
  | cons e before ih =>
    obtain ⟨after, rfl⟩ := hb
    exact ⟨h.1, ih h.2 (List.prefix_append _ _)⟩

/-- **Deliveries are made once.**  In every state that a safe run reaches, at most one transfer
of an offer has been broadcast, and an offer with one is delivering, verified, completed, disputed
or refunded. -/
theorem deliveries_once (relay : String → Bool) (db : Db) {es before : List (Nat × Event)}
    (hsafe : SafeRun relay (start db) es) (hb : before <+: es) (id : OfferId) :
    ((start db).run relay before).requests.countP (Request.sent id) ≤ 1 ∧
      ((∃ r ∈ ((start db).run relay before).requests, r.sent id = true) →
        InDelivery ((start db).run relay before).db id) := by
  have h : Inv ((start db).run relay before) := (inv_start db).run (hsafe.of_prefix hb)
  have hsent : ∀ r : Request, r.sent id = true → r.stands id = true := by
    intro r hr
    simp only [Request.sent, Bool.and_eq_true] at hr
    simp [Request.stands, hr.1, hr.2]
  refine ⟨?_, ?_⟩
  · exact (List.countP_mono_left fun r _ hr => hsent r hr).trans (h.one_request id)
  · intro hr
    obtain ⟨r, hmem, hr⟩ := hr
    exact h.status id (Or.inr ⟨r, hmem, hsent r hr⟩)

section Sample

private def salePublish : Publish where
  id := "offer"
  sender := "maker"
  tx := "t0"
  message_index := 0
  give_asset := "KAS"
  give_amount := some 100
  give_chain := none
  want_asset := "USDT"
  want_amount := some 5
  expires_at := none
  verification := some "cross_chain_tx"
  verification_meta := { accepted_chains := [⟨"bnb", some "0xmaker"⟩] }

private def saleAccept : Accept where
  offer_id := "offer"
  sender := "taker"
  tx := "t1"
  receive_address := none
  selected_chain := some "bnb"
  evm_recv_address := none
  amount := none
  price := none

private def saleRelay (address : String) : Bool := address = "maker"

/-- The offer is paid and its payment is being verified. -/
private def salePaid : List (Nat × Event) :=
  [(0, .publish salePublish), (1, .accept saleAccept false),
    (2, .paid ⟨"offer", "taker", "0xpaid", some "bnb"⟩ false)]

/-- It is delivered, and the delivery is announced. -/
private def saleDone : List (Nat × Event) :=
  salePaid ++ [(3, .resume 0 (.verification true "")), (4, .broadcast 0 "d0"),
    (5, .resume 0 (.txId "d0")), (6, .resume 0 (.txId "t2"))]

/-- The payment is submitted once more while it is being verified, and both verifications come
back. -/
private def saleTwice : List (Nat × Event) :=
  salePaid ++ [(3, .submitPayment "offer" "0xpaid" (some "bnb")),
    (4, .resume 0 (.verification true "")), (5, .resume 0 (.verification true "")),
    (6, .broadcast 0 "d0"), (7, .broadcast 1 "d1")]

/-- The relay broadcasts a transfer after it was given up for lost. -/
private def saleLate : List (Nat × Event) :=
  salePaid ++ [(3, .resume 0 (.verification true "")), (34, .resume 0 .threw),
    (44, .resume 0 .go), (45, .broadcast 0 "d0"), (46, .broadcast 1 "d1")]

/-- The offer is delivered, the delivery cannot be announced, and it times out. -/
private def saleLost : List (Nat × Event) :=
  salePaid ++ [(3, .resume 0 (.verification true "")), (4, .broadcast 0 "d0"),
    (5, .resume 0 (.txId "d0")), (6, .resume 0 .threw), (7, .resume 0 .threw),
    (8, .resume 0 .threw), (9, .resume 0 .threw), (10, .resume 0 .threw),
    (3700, .timeoutVerifying), (3700, .resume 0 .go), (3700, .resume 0 .go),
    (7300, .timeoutVerifying), (7300, .resume 0 .go), (7300, .resume 0 .go),
    (7301, .resume 0 (.txId "t3"))]

theorem deliveries_once_sale :
    ((start Db.empty).run saleRelay saleDone).requests.countP (Request.sent "offer") = 1 ∧
      ((start Db.empty).run saleRelay saleDone).requests.countP (Request.sent "offer") ≤ 1 ∧
      ((∃ r ∈ ((start Db.empty).run saleRelay saleDone).requests, r.sent "offer" = true) →
        InDelivery ((start Db.empty).run saleRelay saleDone).db "offer") :=
  ⟨by decide +kernel,
    deliveries_once saleRelay Db.empty (by decide +kernel) (List.prefix_refl saleDone) "offer"⟩

/-- Two verifications of one payment, a transfer that the relay was late with, and a delivery that
could not be announced. -/
theorem delivered_twice_and_timed_out :
    ((start Db.empty).run saleRelay saleTwice).requests.countP (Request.sent "offer") = 2 ∧
      ((start Db.empty).run saleRelay saleLate).requests.countP (Request.sent "offer") = 2 ∧
      ((start Db.empty).run saleRelay saleLost).requests.countP (Request.sent "offer") = 1 ∧
      ((start Db.empty).run saleRelay saleLost).db.status "offer" = some .timed_out := by
  decide +kernel

end Sample

end World

end KANet.Trade.Exchange
