import KANet.Trade.OrderMachine
import Mathlib.Logic.Relation

/-!
# What a transition reaches

A transition moves one order, then its counterparty, then the counterparty of that,
and so on, each by force to the same status.  The walk goes from an order to the one
its link names as long as that one is neither terminal nor there already: `Follows`.
The order that moved is from then on there already, so the walk never comes back to
it, and what is left to reach is what could be reached without it (`reaches_iff`).

* `transition_isSome` — the walk ends within the fuel it is given.
* `transition_ok` — a transition that goes through moves exactly the orders the walk
  reaches, and settles exactly their locks (`Synced`).
-/

namespace KANet.Trade

open KANet.Lib

/-! ### Walks that do not come back -/

/-- The steps of a relation that do not lead to `a`. -/
def Avoid {α : Type} (r : α → α → Prop) (a u v : α) : Prop := r u v ∧ v ≠ a

theorem reaches_iff {α : Type} {r : α → α → Prop} {a x : α} :
    Relation.ReflTransGen r a x ↔ Relation.ReflTransGen (Avoid r a) a x := by
  constructor
  · intro h
    induction h with
    | refl => exact .refl
    | @tail y x _ hyx ih =>
      by_cases hx : x = a
      · rw [hx]
      · exact ih.tail ⟨hyx, hx⟩
  · intro h
    have hsub : Avoid r a ≤ r := fun _ _ huv => huv.1
    exact Relation.ReflTransGen.mono hsub a x h

/-! ### Links -/

theorem syncMap_eq_some {s s' : Status} (h : syncMap s = some s') : s' = s := by
  cases s <;> simp_all [syncMap]

theorem ne_published_of_syncMap {s s' : Status} (h : syncMap s = some s') : s ≠ .published := by
  rintro rfl
  cases h

/-- The counterparty that a move to `target` is passed on to. -/
def Follows (db : Db) (target : Status) (a b : OrderId) : Prop :=
  syncMap target = some target ∧
    ∃ o c, db.order a = some o ∧ truthy o.counterparty_order_id = some b ∧
      db.order b = some c ∧ c.status ∉ TERMINAL_STATES ∧ c.status ≠ target

/-- The orders that a move of `a` to `target` is passed on to, `a` among them. -/
def Reaches (db : Db) (target : Status) (a x : OrderId) : Prop :=
  Relation.ReflTransGen (Follows db target) a x

theorem Reaches.eq_or_ne {db : Db} {target : Status} {a x : OrderId}
    (h : Reaches db target a x) : x = a ∨ ∃ c, db.order x = some c ∧ c.status ≠ target := by
  rcases Relation.ReflTransGen.cases_tail h with hx | ⟨y, -, -, o, c, -, -, hc, -, hne⟩
  · exact Or.inl hx
  · exact Or.inr ⟨c, hc, hne⟩

/-- A move that is passed on to nobody reaches one order. -/
theorem reaches_of_not_synced {db : Db} {target : Status} {a x : OrderId}
    (hs : syncMap target = none) : Reaches db target a x ↔ x = a := by
  constructor
  · intro h
    rcases Relation.ReflTransGen.cases_tail h with hx | ⟨y, -, hsome, -⟩
    · exact hx
    · rw [hs] at hsome
      cases hsome
  · rintro rfl
    exact .refl

/-! ### One move -/

@[simp] theorem chainEventStep_orders (db : Db) (order : Order) (s : Status)
    (txHash : Option String) : (chainEventStep db order s txHash).mm_orders = db.mm_orders := by
  unfold chainEventStep recordChainEvent
  split
  · split <;> rfl
  · rfl

@[simp] theorem chainEventStep_locks (db : Db) (order : Order) (s : Status)
    (txHash : Option String) : (chainEventStep db order s txHash).fund_locks = db.fund_locks := by
  unfold chainEventStep recordChainEvent
  split
  · split <;> rfl
  · rfl

@[simp] theorem moveOrder_locks (now : Nat) (db : Db) (order : Order) (s : Status) (opts : Opts) :
    (moveOrder now db order s opts).fund_locks =
      fundLockStep db.fund_locks now order.id s := by
  simp [moveOrder]

theorem moveOrder_self {now : Nat} {db : Db} {id : OrderId} {order : Order} {s : Status}
    {opts : Opts} (h : db.order id = some order) :
    (moveOrder now db order s opts).order id = some (order.set s opts now) := by
  unfold moveOrder
  dsimp only
  rw [Db.order, chainEventStep_orders, Table.get_updateWhere]
  rw [Db.order] at h
  rw [h]
  simp

theorem moveOrder_ne {now : Nat} {db : Db} {id x : OrderId} {order : Order} {s : Status}
    {opts : Opts} (h : db.order id = some order) (hx : x ≠ id) :
    (moveOrder now db order s opts).order x = db.order x := by
  unfold moveOrder
  dsimp only
  rw [Db.order, chainEventStep_orders, Table.get_updateWhere]
  have hid : order.id = id := Table.key_of_get h
  cases hr : db.mm_orders.get x with
  | none => simp [Db.order, hr]
  | some r =>
    have hrx : r.id = x := Table.key_of_get hr
    simp [Db.order, hr, hrx, hid, hx]

/-- After an order has moved, the walk goes on as before, except that it does not come back. -/
theorem follows_moveOrder {now : Nat} {db : Db} {id : OrderId} {order : Order} {s : Status}
    {opts : Opts} (h : db.order id = some order) (u v : OrderId) :
    Follows (moveOrder now db order s opts) s u v ↔ Avoid (Follows db s) id u v := by
  have hself : (moveOrder now db order s opts).order id = some (order.set s opts now) :=
    moveOrder_self h
  have hlink : syncMap s = some s →
      (order.set s opts now).counterparty_order_id = order.counterparty_order_id :=
    fun hs => order.set_counterparty opts now (ne_published_of_syncMap hs)
  constructor
  · rintro ⟨hs, o, c, ho, hl, hc, hterm, hne⟩
    have hv : v ≠ id := by
      rintro rfl
      rw [hself] at hc
      obtain rfl := Option.some.inj hc
      exact hne (order.set_status s opts now)
    rw [moveOrder_ne h hv] at hc
    refine ⟨⟨hs, ?_⟩, hv⟩
    by_cases hu : u = id
    · subst hu
      rw [hself] at ho
      obtain rfl := Option.some.inj ho
      rw [hlink hs] at hl
      exact ⟨order, c, h, hl, hc, hterm, hne⟩
    · rw [moveOrder_ne h hu] at ho
      exact ⟨o, c, ho, hl, hc, hterm, hne⟩
  · rintro ⟨⟨hs, o, c, ho, hl, hc, hterm, hne⟩, hv⟩
    rw [← moveOrder_ne h hv] at hc
    refine ⟨hs, ?_⟩
    by_cases hu : u = id
    · subst hu
      rw [h] at ho
      obtain rfl := Option.some.inj ho
      rw [← hlink hs] at hl
      exact ⟨_, c, hself, hl, hc, hterm, hne⟩
    · rw [← moveOrder_ne h hu] at ho
      exact ⟨o, c, ho, hl, hc, hterm, hne⟩

/-- What a move reaches: the order itself, and what its counterparty reaches afterwards. -/
theorem reaches_moveOrder {now : Nat} {db : Db} {id x : OrderId} {order : Order} {s : Status}
    {opts : Opts} (h : db.order id = some order) :
    Reaches db s id x ↔ x = id ∨ ∃ b, Follows (moveOrder now db order s opts) s id b ∧
      Reaches (moveOrder now db order s opts) s b x := by
  have hrel : Avoid (Follows db s) id = Follows (moveOrder now db order s opts) s := by
    funext u v
    exact propext (follows_moveOrder h u v).symm
  rw [Reaches, reaches_iff, hrel, Relation.ReflTransGen.cases_head_iff]
  exact or_congr eq_comm Iff.rfl

/-! ### The call to the counterparty -/

variable {transition' : Db → OrderId → Status → Opts → Option (Db × TransitionResult)}

/-- The sync does nothing, or it transitions the counterparty to the same status. -/
theorem syncCounterparty_cases {db db' : Db} {id : OrderId} {o order : Order} {s : Status}
    {txHash : Option String} (ho : db.order id = some o)
    (hlink : syncMap s = some s → o.counterparty_order_id = order.counterparty_order_id)
    (h : syncCounterparty transition' db order s txHash = some db') :
    (db' = db ∧ ∀ b, ¬ Follows db s id b) ∨
      ∃ b, Follows db s id b ∧ (∀ b', Follows db s id b' → b' = b) ∧
        ∃ opts r, opts.force = true ∧ transition' db b s opts = some (db', r) := by
  unfold syncCounterparty at h
  cases hl : truthy order.counterparty_order_id with
  | none =>
    rw [hl] at h
    refine Or.inl ⟨(Option.some.inj h).symm, ?_⟩
    rintro b ⟨hs, o', c, ho', hl', -⟩
    rw [ho] at ho'
    obtain rfl := Option.some.inj ho'
    rw [hlink hs, hl] at hl'
    cases hl'
  | some b =>
    have hone : ∀ b', Follows db s id b' → b' = b := by
      rintro b' ⟨hs, o', c, ho', hl', -⟩
      rw [ho] at ho'
      obtain rfl := Option.some.inj ho'
      rw [hlink hs, hl] at hl'
      exact (Option.some.inj hl').symm
    rw [hl] at h
    dsimp only at h
    cases hc : db.order b with
    | none =>
      rw [hc] at h
      refine Or.inl ⟨(Option.some.inj h).symm, ?_⟩
      intro b' hb'
      obtain rfl := hone b' hb'
      obtain ⟨-, -, c, -, -, hc', -⟩ := hb'
      rw [hc] at hc'
      cases hc'
    | some counter =>
      rw [hc] at h
      dsimp only at h
      have hid : counter.id = b := Table.key_of_get hc
      have hnone : ∀ b', Follows db s id b' →
          syncMap s = some s ∧ counter.status ∉ TERMINAL_STATES ∧ counter.status ≠ s := by
        intro b' hb'
        obtain rfl := hone b' hb'
        obtain ⟨hs, -, c, -, -, hc', hterm, hne⟩ := hb'
        rw [hc] at hc'
        obtain rfl := Option.some.inj hc'
        exact ⟨hs, hterm, hne⟩
      split at h
      · next hterm =>
        exact Or.inl ⟨(Option.some.inj h).symm, fun b' hb' => (hnone b' hb').2.1 hterm⟩
      · next hterm =>
        cases hs : syncMap s with
        | none =>
          rw [hs] at h
          refine Or.inl ⟨(Option.some.inj h).symm, fun b' hb' => ?_⟩
          rw [hs] at hnone
          cases (hnone b' hb').1
        | some s' =>
          obtain rfl := syncMap_eq_some hs
          rw [hs] at h
          dsimp only at h
          split at h
          · next hne =>
            obtain ⟨⟨db'', r⟩, hcall, rfl⟩ := Option.map_eq_some_iff.mp h
            rw [hid] at hcall
            refine Or.inr ⟨b, ⟨hs, o, counter, ho, ?_, hc, hterm, hne⟩, hone, _, r, rfl, hcall⟩
            rw [hlink hs, hl]
          · next hne =>
            exact Or.inl ⟨(Option.some.inj h).symm, fun b' hb' => hne (hnone b' hb').2.2⟩

/-! ### A whole transition -/

/-- The order is there, and the move is forced or in the table. -/
def Allowed (db : Db) (id : OrderId) (s : Status) (force : Bool) : Prop :=
  ∃ order, db.order id = some order ∧ (force = true ∨ s ∈ VALID_TRANSITIONS order.status)

theorem count_self_ne_zero {db : Db} {id : OrderId} {order : Order} (h : db.order id = some order) :
    db.mm_orders.count (fun o => o.id = id && o.status = order.status) ≠ 0 := by
  have hid : order.id = id := Table.key_of_get h
  have hpos : 0 < db.mm_orders.rows.countP fun o => o.id = id && o.status = order.status :=
    List.countP_pos_iff.mpr ⟨order, Table.mem_of_get h, by simp [hid]⟩
  exact hpos.ne'

/-- A refused transition changes nothing; any other one writes its order and calls the sync. -/
theorem transitionTx_cases {now fuel : Nat} {db db' : Db} {id : OrderId} {s : Status}
    {opts : Opts} {r : TransitionResult}
    (h : transitionTx now (fuel + 1) db id s opts = some (db', r)) :
    (¬ Allowed db id s opts.force ∧ db' = db ∧ ∃ err, r = .error err) ∨
      ∃ order, db.order id = some order ∧
        (opts.force = true ∨ s ∈ VALID_TRANSITIONS order.status) ∧ r = .ok (db'.order id) ∧
        syncCounterparty (transitionTx now fuel) (moveOrder now db order s opts) order s
          opts.txHash = some db' := by
  unfold transitionTx at h
  cases ho : db.order id with
  | none =>
    rw [ho] at h
    dsimp only at h
    cases h
    refine Or.inl ⟨?_, rfl, _, rfl⟩
    rintro ⟨order, ho', -⟩
    rw [ho] at ho'
    cases ho'
  | some order =>
    rw [ho] at h
    dsimp only at h
    split at h
    · next hrefused =>
      cases h
      simp only [Bool.and_eq_true, Bool.not_eq_true', decide_eq_true_eq] at hrefused
      refine Or.inl ⟨?_, rfl, _, rfl⟩
      rintro ⟨order', ho', hallowed⟩
      rw [ho] at ho'
      obtain rfl := Option.some.inj ho'
      rcases hallowed with hforce | hmem
      · rw [hforce] at hrefused
        cases hrefused.1
      · exact hrefused.2 hmem
    · next hallowed =>
      rw [if_neg (count_self_ne_zero ho)] at h
      obtain ⟨db'', hsync, heq⟩ := Option.map_eq_some_iff.mp h
      cases heq
      refine Or.inr ⟨order, rfl, ?_, rfl, hsync⟩
      by_cases hforce : opts.force = true
      · exact Or.inl hforce
      · exact Or.inr (by simpa [hforce] using hallowed)

/-! ### Its locks -/

theorem get_fundLockStep_ne (locks : FundLocks) (now : Nat) (s : Status) {id : OrderId}
    {k : OrderId × String} (h : k.1 ≠ id) :
    (fundLockStep locks now id s).get k = locks.get k := by
  unfold fundLockStep
  split
  · exact get_settleLocks_ne locks .spent now h
  · split
    · exact get_settleLocks_ne locks .released now h
    · rfl

/-- What becomes of a lock is read off from that lock. -/
theorem fundLockStep_congr {locks locks' : FundLocks} {k : OrderId × String}
    (h : locks.get k = locks'.get k) (now : Nat) (id : OrderId) (s : Status) :
    (fundLockStep locks now id s).get k = (fundLockStep locks' now id s).get k := by
  unfold fundLockStep spendFunds releaseFunds
  split
  · rw [get_settleLocks, get_settleLocks, h]
  · split
    · rw [get_settleLocks, get_settleLocks, h]
    · exact h

/-! ### What it does -/

/-- `db'` is `db` after a move of `id` to `s`: the orders reached are in `s` and their locks are
settled, the others are as they were. -/
structure Synced (now : Nat) (db : Db) (s : Status) (id : OrderId) (db' : Db) : Prop where
  moved : ∀ x, Reaches db s id x → ∃ o', db'.order x = some o' ∧ o'.status = s
  kept : ∀ x, ¬ Reaches db s id x → db'.order x = db.order x
  settled : ∀ k : OrderId × String, Reaches db s id k.1 →
    db'.fund_locks.get k = (fundLockStep db.fund_locks now k.1 s).get k
  locked : ∀ k : OrderId × String, ¬ Reaches db s id k.1 →
    db'.fund_locks.get k = db.fund_locks.get k

/-- A move that is passed on to nobody. -/
theorem synced_alone {now : Nat} {db : Db} {id : OrderId} {order : Order} {s : Status}
    {opts : Opts} (h : db.order id = some order)
    (hend : ∀ b, ¬ Follows (moveOrder now db order s opts) s id b) :
    Synced now db s id (moveOrder now db order s opts) := by
  have hid : order.id = id := Table.key_of_get h
  have hreach : ∀ x, Reaches db s id x ↔ x = id := by
    intro x
    apply (reaches_moveOrder h).trans
    exact or_iff_left fun ⟨b, hb, _⟩ => hend b hb
  constructor
  · intro x hx
    rw [(hreach x).mp hx]
    exact ⟨_, moveOrder_self h, order.set_status s opts now⟩
  · intro x hx
    exact moveOrder_ne h fun heq => hx ((hreach x).mpr heq)
  · intro k hk
    rw [moveOrder_locks, hid, (hreach k.1).mp hk]
  · intro k hk
    rw [moveOrder_locks, hid]
    exact get_fundLockStep_ne _ _ _ fun heq => hk ((hreach k.1).mpr heq)

/-- A move that is passed on, and what the counterparty made of it. -/
theorem synced_passed {now : Nat} {db db' : Db} {id b : OrderId} {order : Order} {s : Status}
    {opts : Opts} (h : db.order id = some order)
    (hb : Follows (moveOrder now db order s opts) s id b)
    (hone : ∀ b', Follows (moveOrder now db order s opts) s id b' → b' = b)
    (hrest : Synced now (moveOrder now db order s opts) s b db') : Synced now db s id db' := by
  have hid : order.id = id := Table.key_of_get h
  have hreach : ∀ x, Reaches db s id x ↔
      x = id ∨ Reaches (moveOrder now db order s opts) s b x := by
    intro x
    apply (reaches_moveOrder h).trans
    refine or_congr_right ⟨?_, fun hx => ⟨b, hb, hx⟩⟩
    rintro ⟨b', hb', hx⟩
    rwa [← hone b' hb']
  -- the order that moved is not reached again: it is in `s` by now
  have hself : ¬ Reaches (moveOrder now db order s opts) s b id := by
    intro hx
    have hstatus : ∀ c, (moveOrder now db order s opts).order id = some c → c.status = s := by
      intro c hc
      rw [moveOrder_self h] at hc
      obtain rfl := Option.some.inj hc
      exact order.set_status s opts now
    rcases hx.eq_or_ne with rfl | ⟨c, hc, hne⟩
    · obtain ⟨-, -, c, -, -, hc, -, hne⟩ := hb
      exact hne (hstatus c hc)
    · exact hne (hstatus c hc)
  have hne : ∀ x, Reaches (moveOrder now db order s opts) s b x → x ≠ id := by
    rintro x hx rfl
    exact hself hx
  constructor
  · intro x hx
    rcases (hreach x).mp hx with rfl | hx
    · rw [hrest.kept x hself]
      exact ⟨_, moveOrder_self h, order.set_status s opts now⟩
    · exact hrest.moved x hx
  · intro x hx
    rw [hreach, not_or] at hx
    rw [hrest.kept x hx.2, moveOrder_ne h hx.1]
  · intro k hk
    rcases (hreach k.1).mp hk with hk | hk
    · rw [hrest.locked k (hk ▸ hself), moveOrder_locks, hid, hk]
    · rw [hrest.settled k hk]
      refine fundLockStep_congr ?_ now k.1 s
      rw [moveOrder_locks, hid]
      exact get_fundLockStep_ne _ _ _ (hne k.1 hk)
  · intro k hk
    rw [hreach, not_or] at hk
    rw [hrest.locked k hk.2, moveOrder_locks, hid]
    exact get_fundLockStep_ne _ _ _ hk.1

/-- **What a transition does**: it moves what it reaches. -/
theorem transitionTx_synced {now fuel : Nat} {db db' : Db} {id : OrderId} {s : Status}
    {opts : Opts} {r : TransitionResult} (h : transitionTx now fuel db id s opts = some (db', r))
    (ha : Allowed db id s opts.force) : Synced now db s id db' := by
  induction fuel generalizing db db' id opts r with
  | zero => cases h
  | succ fuel ih =>
    rcases transitionTx_cases h with ⟨hno, -⟩ | ⟨order, ho, -, -, hsync⟩
    · exact absurd ha hno
    · have hlink : syncMap s = some s →
          (order.set s opts now).counterparty_order_id = order.counterparty_order_id :=
        fun hs => order.set_counterparty opts now (ne_published_of_syncMap hs)
      rcases syncCounterparty_cases (moveOrder_self ho) hlink hsync with
        ⟨rfl, hend⟩ | ⟨b, hb, hone, opts', r', hforce, hcall⟩
      · exact synced_alone ho hend
      · refine synced_passed ho hb hone (ih hcall ?_)
        obtain ⟨-, -, c, -, -, hc, -⟩ := hb
        exact ⟨c, hc, Or.inl hforce⟩

/-! ### It ends -/

/-- What is still to move: the orders not yet in `s`, and the one whose turn it is. -/
def pending (db : Db) (s : Status) (id : OrderId) : Nat :=
  db.mm_orders.count fun o => o.status ≠ s || o.id = id

theorem pending_moveOrder {now : Nat} {db : Db} {id b : OrderId} {order : Order} {s : Status}
    {opts : Opts} (h : db.order id = some order)
    (hb : Follows (moveOrder now db order s opts) s id b) :
    pending (moveOrder now db order s opts) s b < pending db s id := by
  have hid : order.id = id := Table.key_of_get h
  obtain ⟨⟨-, -, c, -, -, hc, -, hne⟩, hbid⟩ := (follows_moveOrder h id b).mp hb
  unfold pending moveOrder
  dsimp only
  rw [chainEventStep_orders]
  refine Table.count_updateWhere_lt _ (fun o => o.set_id s opts now) (Table.mem_of_get h)
    (by simp) (by simp [hid]) ?_ ?_
  · intro o ho
    have hoid : o.id = id := by
      rw [← hid]
      exact (by simpa using ho : o.id = order.id ∧ o.status = order.status).1
    simp [hoid, Ne.symm hbid]
  · intro o ho hq
    by_cases hs : o.status = s
    · have hob : o.id = b := by simpa [hs] using hq
      have : db.order b = some o := hob ▸ Table.get_of_mem ho
      rw [hc] at this
      obtain rfl := Option.some.inj this
      exact absurd hs hne
    · simp [hs]

theorem transitionTx_isSome {now fuel : Nat} {db : Db} {id : OrderId} {s : Status} {opts : Opts}
    (h : pending db s id < fuel) : (transitionTx now fuel db id s opts).isSome := by
  induction fuel generalizing db id opts with
  | zero => omega
  | succ fuel ih =>
    unfold transitionTx
    cases ho : db.order id with
    | none => rfl
    | some order =>
      dsimp only
      split
      · rfl
      split
      · rfl
      rw [Option.isSome_map]
      unfold syncCounterparty
      split
      · rfl
      next b hl =>
      split
      · rfl
      next c hc =>
      split
      · rfl
      next hterm =>
      split
      · rfl
      next s' hs =>
      split
      · next hne =>
        obtain rfl := syncMap_eq_some hs
        rw [Option.isSome_map]
        have hcid : c.id = b := Table.key_of_get hc
        refine ih ?_
        rw [hcid]
        have hb : Follows (moveOrder now db order s' opts) s' id b := by
          refine ⟨hs, _, c, moveOrder_self ho, ?_, hc, hterm, hne⟩
          rw [order.set_counterparty opts now (ne_published_of_syncMap hs)]
          exact hl
        have := pending_moveOrder ho hb
        omega
      · rfl

/-- A transition always returns. -/
theorem transition_isSome (now : Nat) (db : Db) (id : OrderId) (s : Status) (opts : Opts) :
    (transition now db id s opts).isSome :=
  transitionTx_isSome (Nat.lt_succ_of_le (Table.count_le_length _ _))

/-- **What a transition leaves behind.**  It is refused and changes nothing, or it moves exactly
the orders it reaches. -/
theorem transition_cases {now : Nat} {db db' : Db} {id : OrderId} {s : Status} {opts : Opts}
    {r : TransitionResult} (h : transition now db id s opts = some (db', r)) :
    (¬ Allowed db id s opts.force ∧ db' = db ∧ ∃ err, r = .error err) ∨
      (Allowed db id s opts.force ∧ Synced now db s id db' ∧ r = .ok (db'.order id)) := by
  rcases transitionTx_cases h with hno | ⟨order, ho, hallowed, hr, -⟩
  · exact Or.inl hno
  · have ha : Allowed db id s opts.force := ⟨order, ho, hallowed⟩
    exact Or.inr ⟨ha, transitionTx_synced h ha, hr⟩

end KANet.Trade
