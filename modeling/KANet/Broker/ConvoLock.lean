import KANet.Broker.OrderState

/-!
# Locks of a conversation

`broker-state-authority.js` keeps what a user has declared in the order of the conversation: a
direction, and an address for what the user receives or pays from.  What has been declared is not
declared otherwise.

An update writes the address of a seller into two columns, one of which is for the broker's own
address; an insert writes it into one.  The broker's address is written where an offer is published.
Times are left out, and so are the profile and the contact of the user.

* `setConvoStateLock_eq_ok` — what a call that goes through leaves.
* `exact_run` — in which runs the locks are exact.
-/

namespace KANet.Broker.ConvoLock

open OrderState (State)

/-! ### Orders and what is reported of them -/

inductive Side
  | sell_kas
  | buy_kas
deriving DecidableEq

/-- A row of `retail_dex_orders`. -/
structure Order where
  side : Side
  qty : Option String
  price : Option String
  pay_chain : Option String
  pay_address : Option String
  receive_address : Option String
  agent_pay_addr : Option String
  mid_price_at_quote : Option String
  broker_fee_kas : Option String
  net_delivery_kas : Option String
  state : State
deriving DecidableEq

def ORDER_STATE_TO_PHASE : List (State × String) :=
  [(.aligning, "fields_collection"), (.confirming, "preview_shown"),
    (.awaiting_payment, "awaiting_payment"), (.paid, "paid"), (.executing, "delivering"),
    (.completed, "completed"), (.refunding, "disputed"), (.refunded, "cancelled"),
    (.failed, "cancelled"), (.expired, "expired")]

def phaseOf (state : State) : String :=
  (((ORDER_STATE_TO_PHASE.find? fun e => e.1 = state)).map Prod.snd).getD ""

/-- Of two states with one phase, the last. -/
def PHASE_TO_ORDER_STATE (phase : String) : Option State :=
  (ORDER_STATE_TO_PHASE.reverse.find? fun e => e.2 = phase).map Prod.fst

def ACTIVE_ORDER_STATES : List State :=
  [.aligning, .confirming, .awaiting_payment, .paid, .executing, .refunding]

/-- `v || null` -/
def orNull (v : Option String) : Option String := v.filter (· ≠ "")

/-- `a || b` -/
def orElse (a b : Option String) : Option String := (orNull a).or (orNull b)

structure ConvoState where
  direction : String
  give_asset : String
  want_asset : String
  qty : Option String
  pay_chain : Option String
  recv_chain : Option String
  recv_address : Option String
  evm_pay_address : Option String
  limit_price : Option String
  lifecycle_phase : String
  locked : Bool
deriving DecidableEq

def directionOf : Side → String
  | .sell_kas => "sell"
  | .buy_kas => "buy"

def orderToConvoState (o : Order) : ConvoState where
  direction := directionOf o.side
  give_asset := if o.side = .sell_kas then "KAS" else "USDT"
  want_asset := if o.side = .sell_kas then "USDT" else "KAS"
  qty := o.qty
  pay_chain := orNull o.pay_chain
  recv_chain := if o.side = .sell_kas then orNull o.pay_chain else some "kaspa"
  recv_address :=
    if o.side = .sell_kas then orElse o.pay_address o.receive_address else none
  evm_pay_address :=
    if o.side = .buy_kas then orElse o.agent_pay_addr o.pay_address else none
  limit_price := o.price
  lifecycle_phase := phaseOf o.state
  locked := o.state ≠ .aligning

/-- The order of the conversation, while it is active. -/
def existing (order : Option Order) : Option Order :=
  order.filter fun o => o.state ∈ ACTIVE_ORDER_STATES

def getConvoState (order : Option Order) : Option ConvoState :=
  (existing order).map orderToConvoState

/-! ### Calls -/

structure Fields where
  direction : Option String := none
  qty : Option String := none
  limit_price : Option String := none
  pay_chain : Option String := none
  recv_address : Option String := none
  evm_pay_address : Option String := none
  lifecycle_phase : Option String := none
  mid_price_at_quote : Option String := none
  broker_fee_kas : Option String := none
  net_delivery_kas : Option String := none

inductive LockError
  | direction (locked attempted : String)
  | address
deriving DecidableEq

/-- What is no sale is a purchase. -/
def newSide (f : Fields) : Option Side :=
  (orNull f.direction).map fun d => if d = "sell" then .sell_kas else .buy_kas

/-- `AND (column IS NULL OR :new IS NULL OR column = :new)` -/
def fits (column new : Option String) : Bool := column.isNone || new.isNone || column = new

/-- The state for a phase that the caller gives. -/
def newOrderState (f : Fields) (state : State) : State :=
  ((orNull f.lifecycle_phase).bind PHASE_TO_ORDER_STATE).getD state

def insertOrder (f : Fields) (side : Side) : Order where
  side := side
  qty := f.qty
  price := f.limit_price
  pay_chain := orNull f.pay_chain
  pay_address := if f.direction = some "sell" then orNull f.recv_address else none
  receive_address := none
  agent_pay_addr := if f.direction = some "buy" then orNull f.evm_pay_address else none
  mid_price_at_quote := f.mid_price_at_quote
  broker_fee_kas := f.broker_fee_kas
  net_delivery_kas := f.net_delivery_kas
  state := .aligning

/-- The user's address, as a seller has it; it is written to both columns. -/
def sellerAddress (f : Fields) (o : Order) : Option String :=
  if o.side = .sell_kas then orNull f.recv_address else none

def buyerAddress (f : Fields) (o : Order) : Option String :=
  if o.side = .buy_kas then orNull f.evm_pay_address else none

def updateOrder (f : Fields) (o : Order) : Order where
  side := o.side
  qty := o.qty.or f.qty
  price := o.price.or f.limit_price
  pay_chain := o.pay_chain.or (orNull f.pay_chain)
  pay_address := o.pay_address.or (sellerAddress f o)
  receive_address := o.receive_address.or (sellerAddress f o)
  agent_pay_addr := o.agent_pay_addr.or (buyerAddress f o)
  mid_price_at_quote := f.mid_price_at_quote.or o.mid_price_at_quote
  broker_fee_kas := f.broker_fee_kas.or o.broker_fee_kas
  net_delivery_kas := f.net_delivery_kas.or o.net_delivery_kas
  state := newOrderState f o.state

def setConvoStateLock (order : Option Order) (f : Fields) : Except LockError (Option Order) :=
  match existing order with
  | none =>
    match newSide f with
    | none => .ok order
    | some side => .ok (some (insertOrder f side))
  | some o =>
    if newSide f ≠ none ∧ newSide f ≠ some o.side then
      .error (.direction (directionOf o.side) (f.direction.getD ""))
    else if fits o.pay_address (sellerAddress f o) ∧ fits o.receive_address (sellerAddress f o) ∧
        fits o.agent_pay_addr (buyerAddress f o) then
      .ok (some (updateOrder f o))
    else .error .address

/-! ### Runs -/

inductive Event
  | set (f : Fields)
  | get
  -- the finaliser of an offer
  | publish

/-- The last order of a user, and the phases that have been reported. -/
structure Convo where
  order : Option Order
  reported : List String

def report (c : Convo) : Convo :=
  { c with reported := ((getConvoState c.order).map ConvoState.lifecycle_phase).toList ++
    c.reported }

def setOrder (c : Convo) (f : Fields) : Convo :=
  match setConvoStateLock c.order f with
  | .ok order => report { c with order := order }
  | .error _ => c

/-- The broker's own address is written to the order. -/
def publishOffer (broker : String) (order : Option Order) : Option Order :=
  order.map fun o =>
    if o.state ∈ ACTIVE_ORDER_STATES then { o with receive_address := some broker } else o

def step (broker : String) (c : Convo) : Event → Convo
  | .set f => setOrder c f
  | .get => report c
  | .publish => { c with order := publishOffer broker c.order }

def run (broker : String) (c : Convo) (es : List Event) : Convo := es.foldl (step broker) c

def start : Convo := ⟨none, []⟩

/-! ### Exact locks -/

/-- A value that is given, other than the one that is set. -/
def Differs (given locked : Option String) : Prop :=
  ∃ a b, orNull given = some a ∧ locked = some b ∧ a ≠ b

/-- What a call declares otherwise than it is reported. -/
def Conflicts (f : Fields) (v : ConvoState) : Prop :=
  Differs f.direction (some v.direction) ∨ Differs f.recv_address v.recv_address ∨
    Differs f.evm_pay_address v.evm_pay_address

/-- What is set stays. -/
def Kept (v v' : ConvoState) : Prop :=
  v'.direction = v.direction ∧ (∀ a, v.recv_address = some a → v'.recv_address = some a) ∧
    ∀ a, v.evm_pay_address = some a → v'.evm_pay_address = some a

/-- What a step is to do, while the order stays active. -/
structure Exact (broker : String) (c : Convo) (e : Event) : Prop where
  kept : ∀ v v', getConvoState c.order = some v →
    getConvoState (step broker c e).order = some v' → Kept v v'
  throws : ∀ f, e = .set f → ((∃ err, setConvoStateLock c.order f = .error err) ↔
    ∃ v, getConvoState c.order = some v ∧ Conflicts f v)
  unchanged : ∀ f err, e = .set f → setConvoStateLock c.order f = .error err →
    (step broker c e).order = c.order
  again : ∀ f order, e = .set f → setConvoStateLock c.order f = .ok order →
    getConvoState order ≠ none → setConvoStateLock order f = .ok order
  phase : ∀ f order o o' p, e = .set f → setConvoStateLock c.order f = .ok order →
    existing c.order = some o → order = some o' → f.lifecycle_phase = some p → p ∈ c.reported →
    o'.state = o.state

/-- A direction that is none of the two is given to no purchase; the first call of a sale has no
address, and the first call of all no other phase than the first; the address of a sale is not
given again once another one is in the second column; and a phase that was reported is given back
only while it is that of the order. -/
structure Safe (c : Convo) (f : Fields) : Prop where
  direction : ∀ d, orNull f.direction = some d → d = "buy" ∨ d = "sell" ∨
    ∃ o, existing c.order = some o ∧ o.side = .sell_kas
  first : existing c.order = none → newSide f ≠ none →
    (newSide f = some .sell_kas → orNull f.recv_address = none) ∧
      newOrderState f .aligning = .aligning
  second : ∀ o a b, existing c.order = some o → o.side = .sell_kas →
    newSide f ≠ some .buy_kas → orNull f.recv_address = some a → o.pay_address = some a →
    o.receive_address = some b → a = b
  phase : ∀ o p, existing c.order = some o → f.lifecycle_phase = some p → p ∈ c.reported →
    newOrderState f o.state = o.state

section

variable {broker : String} {order order' : Option Order} {o : Order} {f : Fields}

/-! ### What a call does -/

theorem existing_eq_some :
    existing order = some o ↔ order = some o ∧ o.state ∈ ACTIVE_ORDER_STATES := by
  unfold existing
  rw [Option.filter_eq_some_iff, decide_eq_true_eq]

theorem getConvoState_eq_some {v : ConvoState} :
    getConvoState order = some v ↔ ∃ o, existing order = some o ∧ orderToConvoState o = v :=
  Option.map_eq_some_iff

/-- The direction of a call is that of the order, or none. -/
def SameSide (f : Fields) (o : Order) : Prop := newSide f = none ∨ newSide f = some o.side

def FitsAddresses (f : Fields) (o : Order) : Prop :=
  fits o.pay_address (sellerAddress f o) = true ∧
    fits o.receive_address (sellerAddress f o) = true ∧
    fits o.agent_pay_addr (buyerAddress f o) = true

theorem set_none (h : existing order = none) :
    setConvoStateLock order f = .ok (match newSide f with
      | none => order
      | some side => some (insertOrder f side)) := by
  unfold setConvoStateLock
  rw [h]
  cases newSide f with
  | none => rfl
  | some side => rfl

theorem set_some (h : existing order = some o) (hside : SameSide f o)
    (hfits : FitsAddresses f o) :
    setConvoStateLock order f = .ok (some (updateOrder f o)) := by
  have hsame : ¬ (newSide f ≠ none ∧ newSide f ≠ some o.side) := by
    rintro ⟨hnone, hne⟩
    rcases hside with heq | heq
    · exact hnone heq
    · exact hne heq
  unfold setConvoStateLock
  rw [h]
  dsimp only
  rw [if_neg hsame]
  exact if_pos hfits

theorem set_refused (h : existing order = some o) (hnot : ¬ (SameSide f o ∧ FitsAddresses f o)) :
    ∃ err, setConvoStateLock order f = .error err := by
  unfold setConvoStateLock
  rw [h]
  dsimp only
  split
  · exact ⟨_, rfl⟩
  · next hsame =>
    rw [if_neg]
    · exact ⟨_, rfl⟩
    · intro hfits
      refine hnot ⟨?_, hfits⟩
      by_contra hside
      exact hsame (not_or.mp hside)

/-- **What a call that goes through leaves**. -/
theorem setConvoStateLock_eq_ok (h : setConvoStateLock order f = .ok order') :
    (existing order = none ∧ newSide f = none ∧ order' = order) ∨
    (existing order = none ∧ ∃ side, newSide f = some side ∧
      order' = some (insertOrder f side)) ∨
    ∃ o, existing order = some o ∧ SameSide f o ∧ FitsAddresses f o ∧
      order' = some (updateOrder f o) := by
  cases hexisting : existing order with
  | none =>
    rw [set_none hexisting] at h
    cases hside : newSide f with
    | none =>
      rw [hside] at h
      exact Or.inl ⟨rfl, rfl, (Except.ok.inj h).symm⟩
    | some side =>
      rw [hside] at h
      exact Or.inr (Or.inl ⟨rfl, side, rfl, (Except.ok.inj h).symm⟩)
  | some o =>
    by_cases hok : SameSide f o ∧ FitsAddresses f o
    · rw [set_some hexisting hok.1 hok.2] at h
      exact Or.inr (Or.inr ⟨o, rfl, hok.1, hok.2, (Except.ok.inj h).symm⟩)
    · obtain ⟨err, herr⟩ := set_refused hexisting hok
      rw [herr] at h
      cases h

theorem set_error_iff :
    (∃ err, setConvoStateLock order f = .error err) ↔
      ∃ o, existing order = some o ∧ ¬ (SameSide f o ∧ FitsAddresses f o) := by
  constructor
  · rintro ⟨err, herr⟩
    cases hexisting : existing order with
    | none =>
      rw [set_none hexisting] at herr
      cases herr
    | some o =>
      refine ⟨o, rfl, ?_⟩
      rintro ⟨hside, hfits⟩
      rw [set_some hexisting hside hfits] at herr
      cases herr
  · rintro ⟨o, hexisting, hnot⟩
    exact set_refused hexisting hnot

/-! ### Addresses -/

theorem orNull_ne {v : Option String} {a : String} (h : orNull v = some a) : a ≠ "" := by
  have hne := (Option.filter_eq_some_iff.mp h).2
  exact of_decide_eq_true hne

theorem orNull_some {a : String} (h : a ≠ "") : orNull (some a) = some a := by
  simp [orNull, h]

theorem fits_iff {column new : Option String} :
    fits column new = true ↔ ∀ a b, column = some a → new = some b → a = b := by
  cases column with
  | none => simp [fits]
  | some a =>
    cases new with
    | none => simp [fits]
    | some b => simp [fits]

/-- No address is empty, a purchase has none to pay to, and where the seller's is missing, the
broker's alone can stand. -/
structure Proper (broker : String) (o : Order) : Prop where
  pay : ∀ a, o.pay_address = some a → a ≠ ""
  receive : ∀ a, o.receive_address = some a → a ≠ ""
  agent : ∀ a, o.agent_pay_addr = some a → a ≠ ""
  buyer : o.side = .buy_kas → o.pay_address = none
  unpaid : o.pay_address = none → ∀ a, o.receive_address = some a → a = broker

theorem recv_of_pay {a : String} (hside : o.side = .sell_kas) (ha : a ≠ "")
    (h : o.pay_address = some a) : (orderToConvoState o).recv_address = some a := by
  simp [orderToConvoState, hside, orElse, h, orNull_some ha]

theorem recv_of_receive (hproper : Proper broker o) (hside : o.side = .sell_kas)
    (h : o.pay_address = none) :
    (orderToConvoState o).recv_address = o.receive_address := by
  cases hreceive : o.receive_address with
  | none => simp [orderToConvoState, hside, orElse, h, hreceive, orNull]
  | some a =>
    simp [orderToConvoState, hside, orElse, h, hreceive, orNull, hproper.receive a hreceive]

theorem recv_of_buyer (hside : o.side = .buy_kas) :
    (orderToConvoState o).recv_address = none := by
  simp [orderToConvoState, hside]

theorem evm_of_seller (hside : o.side = .sell_kas) :
    (orderToConvoState o).evm_pay_address = none := by
  simp [orderToConvoState, hside]

theorem evm_of_buyer (hproper : Proper broker o) (hside : o.side = .buy_kas) :
    (orderToConvoState o).evm_pay_address = o.agent_pay_addr := by
  cases hagent : o.agent_pay_addr with
  | none =>
    simp [orderToConvoState, hside, orElse, hagent, hproper.buyer hside, orNull]
  | some a =>
    simp [orderToConvoState, hside, orElse, hagent, orNull, hproper.agent a hagent]

theorem direction_eq : (orderToConvoState o).direction = directionOf o.side := rfl

end

/-! ### When a call is refused -/

section

variable {broker : String} {order order' : Option Order} {o : Order} {f : Fields} {c : Convo}

theorem sameSide_iff (h : ∀ d, orNull f.direction = some d → d = "buy" ∨ d = "sell" ∨
    o.side = .sell_kas) :
    SameSide f o ↔ ¬ Differs f.direction (some (directionOf o.side)) := by
  unfold SameSide newSide Differs
  cases hd : orNull f.direction with
  | none => simp
  | some d =>
    cases hside : o.side with
    | sell_kas =>
      by_cases hsell : d = "sell"
      · simp [hsell, directionOf]
      · simp [hsell, directionOf]
    | buy_kas =>
      have hknown := h d hd
      rw [hside] at hknown
      rcases hknown with rfl | rfl | hne
      · simp [directionOf]
      · simp [directionOf]
      · cases hne

theorem not_differs_none {given : Option String} : ¬ Differs given none := by
  rintro ⟨a, b, -, hb, -⟩
  cases hb

theorem not_differs_iff {given locked : Option String} :
    ¬ Differs given locked ↔ ∀ a b, locked = some a → orNull given = some b → a = b := by
  constructor
  · intro h a b ha hb
    by_contra hne
    exact h ⟨b, a, hb, ha, Ne.symm hne⟩
  · rintro h ⟨b, a, hb, ha, hne⟩
    exact hne (h a b ha hb).symm

/-- The addresses of a call fit if they are those that are reported. -/
theorem fitsAddresses_iff (hproper : Proper broker o)
    (hsecond : ∀ a b, o.side = .sell_kas → orNull f.recv_address = some a →
      o.pay_address = some a → o.receive_address = some b → a = b) :
    FitsAddresses f o ↔ ¬ Differs f.recv_address (orderToConvoState o).recv_address ∧
      ¬ Differs f.evm_pay_address (orderToConvoState o).evm_pay_address := by
  unfold FitsAddresses
  rw [fits_iff, fits_iff, fits_iff]
  cases hside : o.side with
  | sell_kas =>
    have hseller : sellerAddress f o = orNull f.recv_address := if_pos hside
    have hbuyer : buyerAddress f o = none := if_neg (by rw [hside]; decide)
    rw [hseller, hbuyer, evm_of_seller hside]
    cases hpay : o.pay_address with
    | some u =>
      rw [recv_of_pay hside (hproper.pay u hpay) hpay, not_differs_iff]
      constructor
      · rintro ⟨hfits, -, -⟩
        exact ⟨hfits, not_differs_none⟩
      · rintro ⟨hsame, -⟩
        refine ⟨hsame, ?_, ?_⟩
        · intro b a hb ha
          obtain rfl := hsame u a rfl ha
          exact (hsecond u b hside ha hpay hb).symm
        · intro a b _ hb
          cases hb
    | none =>
      rw [recv_of_receive hproper hside hpay, not_differs_iff]
      constructor
      · rintro ⟨-, hfits, -⟩
        exact ⟨hfits, not_differs_none⟩
      · rintro ⟨hsame, -⟩
        refine ⟨?_, hsame, ?_⟩
        · intro a b ha
          cases ha
        · intro a b _ hb
          cases hb
  | buy_kas =>
    have hseller : sellerAddress f o = none := if_neg (by rw [hside]; decide)
    have hbuyer : buyerAddress f o = orNull f.evm_pay_address := if_pos hside
    rw [hseller, hbuyer, recv_of_buyer hside, evm_of_buyer hproper hside, not_differs_iff]
    have hnone : ∀ (column : Option String) (a b : String), column = some a →
        (none : Option String) = some b → a = b := by
      intro column a b _ hb
      cases hb
    rw [not_differs_iff]
    constructor
    · rintro ⟨-, -, hfits⟩
      refine ⟨?_, hfits⟩
      intro a b ha
      cases ha
    · rintro ⟨-, hsame⟩
      exact ⟨hnone _, hnone _, hsame⟩

/-- **A call is refused if it declares otherwise what is reported**. -/
theorem throws_iff (hproper : ∀ o, c.order = some o → Proper broker o) (hsafe : Safe c f) :
    (∃ err, setConvoStateLock c.order f = .error err) ↔
      ∃ v, getConvoState c.order = some v ∧ Conflicts f v := by
  rw [set_error_iff]
  have hiff : ∀ o, existing c.order = some o →
      (¬ (SameSide f o ∧ FitsAddresses f o) ↔ Conflicts f (orderToConvoState o)) := by
    intro o ho
    have hside := sameSide_iff (f := f) (o := o) (by
      intro d hd
      rcases hsafe.direction d hd with hbuy | hsell | ⟨o', ho', hside⟩
      · exact Or.inl hbuy
      · exact Or.inr (Or.inl hsell)
      · rw [Option.some.inj (ho.symm.trans ho')]
        exact Or.inr (Or.inr hside))
    unfold Conflicts
    rw [direction_eq]
    by_cases hsame : SameSide f o
    · have hfits := fitsAddresses_iff (f := f) (hproper o (existing_eq_some.mp ho).1) (by
        intro a b hsell ha hpay hb
        refine hsafe.second o a b ho hsell ?_ ha hpay hb
        intro hbuy
        rcases hsame with heq | heq
        · rw [heq] at hbuy
          cases hbuy
        · rw [heq, hsell] at hbuy
          cases hbuy)
      rw [hfits, ← not_or, not_and_not_right]
      tauto
    · have hdiffers := not_not.mp (mt hside.mpr hsame)
      exact iff_of_true (fun h => hsame h.1) (Or.inl hdiffers)
  constructor
  · rintro ⟨o, ho, hnot⟩
    exact ⟨_, getConvoState_eq_some.mpr ⟨o, ho, rfl⟩, (hiff o ho).mp hnot⟩
  · rintro ⟨v, hv, hconflicts⟩
    obtain ⟨o, ho, rfl⟩ := getConvoState_eq_some.mp hv
    exact ⟨o, ho, (hiff o ho).mpr hconflicts⟩

end

/-! ### Once more -/

section

variable {broker : String} {order order' : Option Order} {o : Order} {f : Fields} {c : Convo}

theorem or_or {α : Type} (a b : Option α) : (a.or b).or b = a.or b := by
  cases a with
  | none => cases b <;> rfl
  | some a => rfl

theorem or_left {α : Type} (a b : Option α) : a.or (a.or b) = a.or b := by
  cases a <;> rfl

theorem newOrderState_twice (state : State) :
    newOrderState f (newOrderState f state) = newOrderState f state := by
  unfold newOrderState
  cases (orNull f.lifecycle_phase).bind PHASE_TO_ORDER_STATE <;> rfl

theorem updateOrder_twice : updateOrder f (updateOrder f o) = updateOrder f o := by
  have hseller : sellerAddress f (updateOrder f o) = sellerAddress f o := rfl
  have hbuyer : buyerAddress f (updateOrder f o) = buyerAddress f o := rfl
  rw [updateOrder, hseller, hbuyer]
  simp only [updateOrder, or_or, or_left, newOrderState_twice]

theorem fits_or {column new : Option String} (h : fits column new = true) :
    fits (column.or new) new = true := by
  cases column with
  | none =>
    cases new with
    | none => rfl
    | some b => simp [fits]
  | some a => exact h

/-- A call that went through goes through again, and leaves what it left. -/
theorem again_update (hside : SameSide f o) (hfits : FitsAddresses f o)
    (hactive : (updateOrder f o).state ∈ ACTIVE_ORDER_STATES) :
    setConvoStateLock (some (updateOrder f o)) f = .ok (some (updateOrder f o)) := by
  have hexisting : existing (some (updateOrder f o)) = some (updateOrder f o) :=
    existing_eq_some.mpr ⟨rfl, hactive⟩
  rw [set_some hexisting hside ⟨fits_or hfits.1, fits_or hfits.2.1, fits_or hfits.2.2⟩,
    updateOrder_twice]

theorem again_insert {side : Side} (hside : newSide f = some side)
    (hknown : ∀ d, orNull f.direction = some d → d = "buy" ∨ d = "sell")
    (hseller : side = .sell_kas → orNull f.recv_address = none)
    (hstate : newOrderState f .aligning = .aligning) :
    setConvoStateLock (some (insertOrder f side)) f = .ok (some (insertOrder f side)) := by
  have hactive : State.aligning ∈ ACTIVE_ORDER_STATES := by decide
  have hexisting : existing (some (insertOrder f side)) = some (insertOrder f side) :=
    existing_eq_some.mpr ⟨rfl, hactive⟩
  have hself : ∀ v : Option String, fits v v = true := by
    intro v
    rw [fits_iff]
    intro a b ha hb
    exact Option.some.inj (ha.symm.trans hb)
  obtain ⟨d, hd, hdside⟩ := Option.map_eq_some_iff.mp hside
  have hdirection : f.direction = some d := (Option.filter_eq_some_iff.mp hd).1
  rcases hknown d hd with rfl | rfl
  · obtain rfl : side = .buy_kas := by
      rw [← hdside]
      rfl
    have hupdate : updateOrder f (insertOrder f .buy_kas) = insertOrder f .buy_kas := by
      simp [updateOrder, insertOrder, sellerAddress, buyerAddress, hdirection, hstate]
    rw [set_some hexisting (Or.inr hside), hupdate]
    simp [FitsAddresses, insertOrder, sellerAddress, buyerAddress, hdirection, hself]
  · obtain rfl : side = .sell_kas := by
      rw [← hdside]
      rfl
    have hupdate : updateOrder f (insertOrder f .sell_kas) = insertOrder f .sell_kas := by
      simp [updateOrder, insertOrder, sellerAddress, buyerAddress, hdirection, hstate,
        hseller rfl]
    rw [set_some hexisting (Or.inr hside), hupdate]
    simp [FitsAddresses, insertOrder, sellerAddress, buyerAddress, hdirection, hself, hseller rfl]

/-! ### What is set stays -/

theorem or_eq_some {column new : Option String} {a : String} (h : column = some a) :
    column.or new = some a := by
  rw [h]
  rfl

theorem Proper.insert {side : Side} (hside : newSide f = some side) :
    Proper broker (insertOrder f side) := by
  have hbuyer : side = .buy_kas → f.direction ≠ some "sell" := by
    rintro rfl hsell
    rw [newSide, hsell] at hside
    cases hside
  constructor
  · intro a ha
    simp only [insertOrder] at ha
    split at ha
    · exact orNull_ne ha
    · cases ha
  · intro a ha
    cases ha
  · intro a ha
    simp only [insertOrder] at ha
    split at ha
    · exact orNull_ne ha
    · cases ha
  · intro hbuy
    exact if_neg (hbuyer hbuy)
  · intro _ a ha
    cases ha

theorem or_ne {column new : Option String} (hcolumn : ∀ a, column = some a → a ≠ "")
    (hnew : ∀ a, new = some a → a ≠ "") : ∀ a, column.or new = some a → a ≠ "" := by
  intro a ha
  rcases Option.or_eq_some_iff.mp ha with hin | ⟨-, hin⟩
  · exact hcolumn a hin
  · exact hnew a hin

theorem Proper.update (h : Proper broker o) : Proper broker (updateOrder f o) := by
  have hseller : ∀ a, sellerAddress f o = some a → a ≠ "" := by
    intro a ha
    unfold sellerAddress at ha
    split at ha
    · exact orNull_ne ha
    · cases ha
  have hbuyer : ∀ a, buyerAddress f o = some a → a ≠ "" := by
    intro a ha
    unfold buyerAddress at ha
    split at ha
    · exact orNull_ne ha
    · cases ha
  constructor
  · exact or_ne h.pay hseller
  · exact or_ne h.receive hseller
  · exact or_ne h.agent hbuyer
  · intro hbuy
    have hside : o.side = .buy_kas := hbuy
    have hnone : sellerAddress f o = none := if_neg (by rw [hside]; decide)
    show o.pay_address.or (sellerAddress f o) = none
    rw [h.buyer hbuy, hnone]
    rfl
  · intro hunpaid a ha
    obtain ⟨hpay, hnone⟩ := Option.or_eq_none_iff.mp hunpaid
    rw [show (updateOrder f o).receive_address = o.receive_address.or (sellerAddress f o) from rfl,
      hnone, Option.or_none] at ha
    exact h.unpaid hpay a ha

theorem Proper.publish (hbroker : broker ≠ "") (h : Proper broker o) :
    Proper broker { o with receive_address := some broker } where
  pay := h.pay
  receive := by
    intro a ha
    rw [← Option.some.inj ha]
    exact hbroker
  agent := h.agent
  buyer := h.buyer
  unpaid := by
    intro _ a ha
    exact (Option.some.inj ha).symm

/-- Only columns that were empty are filled, but for the broker's own address. -/
structure Fills (broker : String) (o o' : Order) : Prop where
  side : o'.side = o.side
  pay : ∀ a, o.pay_address = some a → o'.pay_address = some a
  agent : ∀ a, o.agent_pay_addr = some a → o'.agent_pay_addr = some a
  receive : ∀ a, o.pay_address = none → o.receive_address = some a →
    o'.receive_address = some a ∧ (o'.pay_address = none ∨ o'.pay_address = some a)

theorem Fills.kept {o' : Order} (h : Fills broker o o') (hproper : Proper broker o)
    (hproper' : Proper broker o') : Kept (orderToConvoState o) (orderToConvoState o') := by
  refine ⟨congrArg directionOf h.side, ?_, ?_⟩
  · intro a ha
    cases hside : o.side with
    | buy_kas =>
      rw [recv_of_buyer hside] at ha
      cases ha
    | sell_kas =>
      have hside' : o'.side = .sell_kas := h.side.trans hside
      cases hpay : o.pay_address with
      | some u =>
        rw [recv_of_pay hside (hproper.pay u hpay) hpay] at ha
        obtain rfl := Option.some.inj ha
        exact recv_of_pay hside' (hproper.pay u hpay) (h.pay u hpay)
      | none =>
        rw [recv_of_receive hproper hside hpay] at ha
        obtain ⟨hreceive, hnone | hsome⟩ := h.receive a hpay ha
        · rw [recv_of_receive hproper' hside' hnone, hreceive]
        · exact recv_of_pay hside' (hproper.receive a ha) hsome
  · intro a ha
    cases hside : o.side with
    | sell_kas =>
      rw [evm_of_seller hside] at ha
      cases ha
    | buy_kas =>
      rw [evm_of_buyer hproper hside] at ha
      rw [evm_of_buyer hproper' (h.side.trans hside)]
      exact h.agent a ha

theorem fills_update (hfits : FitsAddresses f o) : Fills broker o (updateOrder f o) where
  side := rfl
  pay := fun a ha => or_eq_some ha
  agent := fun a ha => or_eq_some ha
  receive := by
    intro a hpay ha
    refine ⟨or_eq_some ha, ?_⟩
    show o.pay_address.or (sellerAddress f o) = none ∨ _
    rw [show (updateOrder f o).pay_address = o.pay_address.or (sellerAddress f o) from rfl, hpay,
      Option.none_or]
    cases hseller : sellerAddress f o with
    | none => exact Or.inl rfl
    | some b =>
      rw [fits_iff.mp hfits.2.1 a b ha hseller]
      exact Or.inr rfl

theorem fills_publish (hproper : Proper broker o) :
    Fills broker o { o with receive_address := some broker } where
  side := rfl
  pay := fun a ha => ha
  agent := fun a ha => ha
  receive := by
    intro a hpay ha
    rw [hproper.unpaid hpay a ha]
    exact ⟨rfl, Or.inl hpay⟩

/-! ### Runs -/

theorem order_setOrder (h : setConvoStateLock c.order f = .ok order) :
    (setOrder c f).order = order := by
  unfold setOrder
  rw [h]
  rfl

theorem setOrder_error {err : LockError} (h : setConvoStateLock c.order f = .error err) :
    setOrder c f = c := by
  unfold setOrder
  rw [h]

/-- The order of a conversation is proper. -/
def Inv (broker : String) (c : Convo) : Prop := ∀ o, c.order = some o → Proper broker o

theorem publishOffer_eq_some {o' : Order} (h : publishOffer broker order = some o') :
    ∃ o, order = some o ∧ (o' = o ∨ o' = { o with receive_address := some broker }) := by
  obtain ⟨o, ho, rfl⟩ := Option.map_eq_some_iff.mp h
  refine ⟨o, ho, ?_⟩
  split
  · exact Or.inr rfl
  · exact Or.inl rfl

theorem Inv.set (h : Inv broker c) (hset : setConvoStateLock c.order f = .ok order) :
    ∀ o, order = some o → Proper broker o := by
  intro o ho
  rcases setConvoStateLock_eq_ok hset with ⟨-, -, rfl⟩ | ⟨-, side, hside, rfl⟩ |
    ⟨o', ho', -, -, rfl⟩
  · exact h o ho
  · rw [← Option.some.inj ho]
    exact Proper.insert hside
  · rw [← Option.some.inj ho]
    exact (h o' (existing_eq_some.mp ho').1).update

theorem Inv.step (hbroker : broker ≠ "") (h : Inv broker c) (e : Event) :
    Inv broker (ConvoLock.step broker c e) := by
  intro o ho
  cases e with
  | set f =>
    cases hset : setConvoStateLock c.order f with
    | error err =>
      rw [ConvoLock.step, setOrder_error hset] at ho
      exact h o ho
    | ok order =>
      rw [ConvoLock.step, order_setOrder hset] at ho
      exact h.set hset o ho
  | get => exact h o ho
  | publish =>
    obtain ⟨o', ho', heq⟩ := publishOffer_eq_some ho
    rcases heq with rfl | rfl
    · exact h _ ho'
    · exact (h _ ho').publish hbroker

theorem inv_run (hbroker : broker ≠ "") (es : List Event) : Inv broker (run broker start es) := by
  induction es using List.reverseRecOn with
  | nil =>
    intro o ho
    cases ho
  | append_singleton es e ih =>
    unfold run at ih ⊢
    rw [List.foldl_append]
    exact ih.step hbroker e

/-- What is reported before a step is reported after it. -/
theorem kept_step (hbroker : broker ≠ "") (h : Inv broker c) (e : Event) {v v' : ConvoState}
    (hv : getConvoState c.order = some v)
    (hv' : getConvoState (step broker c e).order = some v') : Kept v v' := by
  obtain ⟨o, ho, rfl⟩ := getConvoState_eq_some.mp hv
  obtain ⟨o', ho', rfl⟩ := getConvoState_eq_some.mp hv'
  obtain ⟨horder, hactive⟩ := existing_eq_some.mp ho
  obtain ⟨horder', -⟩ := existing_eq_some.mp ho'
  have hproper := h o horder
  have hsame : ∀ o', some o = some o' → Kept (orderToConvoState o) (orderToConvoState o') := by
    intro o' heq
    rw [Option.some.inj heq]
    exact ⟨rfl, fun _ => id, fun _ => id⟩
  cases e with
  | set f =>
    cases hset : setConvoStateLock c.order f with
    | error err =>
      rw [step, setOrder_error hset, horder] at horder'
      exact hsame o' horder'
    | ok order =>
      rw [step, order_setOrder hset] at horder'
      rcases setConvoStateLock_eq_ok hset with ⟨hnone, -⟩ | ⟨hnone, -⟩ | ⟨o₁, ho₁, -, hfits, rfl⟩
      · rw [ho] at hnone
        cases hnone
      · rw [ho] at hnone
        cases hnone
      · obtain rfl := Option.some.inj (ho.symm.trans ho₁)
        rw [← Option.some.inj horder']
        exact (fills_update hfits).kept hproper hproper.update
  | get =>
    have heq : c.order = some o' := horder'
    rw [horder] at heq
    exact hsame o' heq
  | publish =>
    have heq : publishOffer broker c.order = some o' := horder'
    rw [publishOffer, horder, Option.map_some, if_pos hactive] at heq
    rw [← Option.some.inj heq]
    exact (fills_publish hproper).kept hproper (hproper.publish hbroker)

/-- **The locks are exact** at every safe call of a run. -/
theorem exact_run (hbroker : broker ≠ "") (es : List Event) (e : Event)
    (hsafe : ∀ f, e = .set f → Safe (run broker start es) f) :
    Exact broker (run broker start es) e := by
  have hinv := inv_run hbroker es
  refine ⟨fun v v' => kept_step hbroker hinv e, ?_, ?_, ?_, ?_⟩
  · intro f hf
    exact throws_iff hinv (hsafe f hf)
  · rintro f err rfl herr
    rw [step, setOrder_error herr]
  · intro f order hf hset hactive
    rcases setConvoStateLock_eq_ok hset with ⟨-, -, rfl⟩ | ⟨hnone, side, hside, rfl⟩ |
      ⟨o, ho, hside, hfits, rfl⟩
    · exact hset
    · obtain ⟨hseller, hstate⟩ := (hsafe f hf).first hnone
        (by rw [hside]; exact Option.some_ne_none side)
      refine again_insert hside ?_ ?_ hstate
      · intro d hd
        rcases (hsafe f hf).direction d hd with hbuy | hsell | ⟨o, ho, -⟩
        · exact Or.inl hbuy
        · exact Or.inr hsell
        · rw [hnone] at ho
          cases ho
      · intro heq
        exact hseller (by rw [hside, heq])
    · refine again_update hside hfits ?_
      obtain ⟨v, hv⟩ := Option.ne_none_iff_exists'.mp hactive
      obtain ⟨o', ho', -⟩ := getConvoState_eq_some.mp hv
      obtain ⟨heq, hin⟩ := existing_eq_some.mp ho'
      rwa [Option.some.inj heq]
  · intro f order o o' p hf hset ho horder hp hreported
    rcases setConvoStateLock_eq_ok hset with ⟨hnone, -⟩ | ⟨hnone, -⟩ | ⟨o₁, ho₁, -, -, rfl⟩
    · rw [ho] at hnone
      cases hnone
    · rw [ho] at hnone
      cases hnone
    · obtain rfl := Option.some.inj (ho.symm.trans ho₁)
      rw [← Option.some.inj horder]
      exact (hsafe f hf).phase o p ho hp hreported

end

/-! ### A sale -/

def userAddress : String := "0x5aAeb6053F3E94C9b9A09f33669435E7Ef1BeAed"

def brokerAddress : String := "0xfB6916095ca1df60bB79Ce92cE3Ea74c37c5d359"

def declare : Fields := { direction := some "sell", qty := some "50" }

def withAddress : Fields := { direction := some "sell", recv_address := some userAddress }

theorem exact_run_sale :
    Exact brokerAddress (run brokerAddress start [.set declare]) (.set withAddress) := by
  refine exact_run (by decide) _ _ ?_
  rintro f heq
  obtain rfl : withAddress = f := Event.set.inj heq
  have horder : ∀ o, existing (run brokerAddress start [.set declare]).order = some o →
      insertOrder declare .sell_kas = o := fun o ho => Option.some.inj ho
  constructor
  · intro d hd
    exact Or.inr (Or.inl (Option.some.inj hd).symm)
  · intro hnone
    cases hnone
  · intro o a b ho _ _ _ hpay
    rw [← horder o ho] at hpay
    cases hpay
  · intro o p _ hp
    cases hp

/-- The seller repeats the locked address after the offer is out, and is refused. -/
theorem repeated_address_refused :
    setConvoStateLock
        (run brokerAddress start [.set declare, .set withAddress, .publish]).order withAddress =
      .error .address ∧
    (getConvoState (run brokerAddress start [.set declare, .set withAddress, .publish]).order).map
        ConvoState.recv_address = some (some userAddress) ∧
    ¬ Exact brokerAddress (run brokerAddress start [.set declare, .set withAddress, .publish])
      (.set withAddress) := by
  refine ⟨by decide +kernel, by decide +kernel, ?_⟩
  intro hexact
  obtain ⟨v, hv, hconflicts⟩ := (hexact.throws withAddress rfl).mp ⟨.address, by rfl⟩
  have hreported : v.direction = "sell" ∧ v.recv_address = some userAddress ∧
      v.evm_pay_address = none := by
    rw [← Option.some.inj hv]
    exact ⟨by rfl, by rfl, by rfl⟩
  rcases hconflicts with hdirection | hrecv | hevm
  · rw [hreported.1] at hdirection
    obtain ⟨a, b, ha, hb, hne⟩ := hdirection
    exact hne ((Option.some.inj ha).symm.trans (Option.some.inj hb))
  · rw [hreported.2.1] at hrecv
    obtain ⟨a, b, ha, hb, hne⟩ := hrecv
    exact hne ((Option.some.inj ha).symm.trans (Option.some.inj hb))
  · rw [hreported.2.2] at hevm
    exact not_differs_none hevm

end KANet.Broker.ConvoLock
