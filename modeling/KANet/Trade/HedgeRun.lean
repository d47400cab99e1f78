import KANet.Trade.Hedge
import Mathlib.Tactic.NormNum
import Mathlib.Tactic.Positivity
import Mathlib.Tactic.Ring

/-!
# One hedge for an offer

* `Safe` — an offer has one order and one credit at most, a credit is what the exchange paid, the
  ledger's balances are its sums, and an offer without an order can still be hedged.
* `Inv` — what holds between two waits: an order that was taken is on record or still waited for.
* `hedge_run` — runs in which it is so, in any order of the calls.
-/

namespace KANet.Trade.Hedge

open KANet.Lib

variable {c : Config} {s : State}

/-! ### What is to hold -/

/-- A later call hedges the offer, if the exchange answers it. -/
def Hedgeable (c : Config) (s : State) (o : String) : Prop :=
  ∀ side qty accounts ask bid, (∃ account, bestAccount none accounts = some account ∧
    account.usable = true) → 0 < ask → 0 < bid →
    ∃ x ∈ ([.wait HEDGE_CIRCUIT_WINDOW_MS, .call o side qty none accounts,
      .quote s.calls.length (some (ask, bid)), .take s.calls.length].foldl (step c) s).orders,
      x.offerId = o

/-- **Each offer is hedged and credited once at most.** -/
structure Safe (c : Config) (s : State) : Prop where
  placed : ∀ o, (s.orders.filter fun x => x.offerId = o).length ≤ 1
  credited : ∀ o, (s.ledger.filter fun r => r.ref_order_id = o).length ≤ 1
  amount : ∀ x ∈ s.credits, x.row.balance_change = x.fill.executedQty * x.fill.executionPrice
  balanced : ∀ pre r post, s.ledger = pre ++ r :: post →
    r.balance_after = balance (pre ++ [r]) r.user_kasia_address
  retry : ∀ o row, c.offers o = some row → hedgeEnabled row = true →
    (∀ x ∈ s.orders, x.offerId ≠ o) → Hedgeable c s o

/-! ### The condition -/

def Phase.out : Phase → Bool
  | .ordering _ _ => true
  | _ => false

def Phase.taken : Phase → Bool
  | .ordering _ b => b
  | _ => false

def Phase.polls : Phase → Bool
  | .polling _ _ => true
  | _ => false

/-- Along the run:

* a call that passes the other checks finds the circuit closed;
* an order is sent only while its offer has no hedge on record, and no other order out;
* the exchange does not refuse an order, nor does the node stop before the reply for one it took;
* an order is filled at its limit, and for a sum of four decimals. -/
def Fair (s : State) : Event → Prop
  | .call o _ _ _ _ => existingHedge s o = false → isHedgeCircuitOpen s = false
  | .quote i _ => ∀ a ∈ s.calls[i]?, existingHedge s a.offerId = false ∧
    ∀ b ∈ s.calls, b.phase.out = true → b.offerId ≠ a.offerId
  | .reply i none => ∀ a ∈ s.calls[i]?, a.phase.out = true → a.phase.taken = true
  | .restart => ∀ a ∈ s.calls, a.phase.taken = false
  | .fill i fill => ∀ a ∈ s.calls[i]?, ∀ price orderId, a.phase = .polling price orderId →
    fill.executionPrice = price ∧ ∃ n : ℤ, fill.executedQty * price = n / 10000
  | _ => True

/-! ### Four decimals -/

/-- A sum of USDT to four decimals. -/
def Whole (x : ℚ) : Prop := ∃ n : ℤ, x = n / 10000

theorem Whole.zero : Whole 0 := ⟨0, by simp⟩

theorem Whole.add {x y : ℚ} (hx : Whole x) (hy : Whole y) : Whole (x + y) := by
  obtain ⟨m, rfl⟩ := hx
  obtain ⟨n, rfl⟩ := hy
  refine ⟨m + n, ?_⟩
  push_cast
  ring

theorem floor_int_add_half (n : ℤ) : ⌊(n : ℚ) + 1 / 2⌋ = n := by
  rw [Int.floor_intCast_add]
  have hhalf : ⌊(1 / 2 : ℚ)⌋ = 0 := by norm_num
  rw [hhalf, add_zero]

/-- Rounding leaves four decimals as they are. -/
theorem toFixed4_eq {x : ℚ} : Whole x → toFixed4 x = x := by
  rintro ⟨n, rfl⟩
  have hmul : (n : ℚ) / 10000 * 10000 = n := by ring
  have hneg : -((n : ℚ) / 10000) * 10000 = ((-n : ℤ) : ℚ) := by push_cast; ring
  unfold toFixed4
  split
  · rw [hneg, floor_int_add_half]
    push_cast
    ring
  · rw [hmul, floor_int_add_half]

theorem Whole.balance {ledger : List LedgerRow} (h : ∀ r ∈ ledger, Whole r.balance_change)
    (user : String) : Whole (balance ledger user) := by
  unfold Hedge.balance
  induction ledger with
  | nil => exact .zero
  | cons r rest ih =>
    have hrest := ih fun x hx => h x (List.mem_cons_of_mem _ hx)
    by_cases hr : r.user_kasia_address = user
    · rw [List.filter_cons_of_pos (by simpa using hr), List.map_cons, List.sum_cons]
      exact (h r List.mem_cons_self).add hrest
    · rw [List.filter_cons_of_neg (by simpa using hr)]
      exact hrest

theorem balance_append (pre : List LedgerRow) (r : LedgerRow) :
    balance (pre ++ [r]) r.user_kasia_address =
      balance pre r.user_kasia_address + r.balance_change := by
  simp [balance, List.filter_append]

/-! ### What is on record -/

def Hedged (s : State) (o : String) : Prop := ∃ e ∈ s.chain_events, e.txid = o

theorem existingHedge_iff {o : String} : existingHedge s o = true ↔ Hedged s o := by
  simp [existingHedge, Hedged]

theorem existingHedge_eq_false {o : String} : existingHedge s o = false ↔ ¬ Hedged s o := by
  rw [← existingHedge_iff, Bool.not_eq_true]

theorem hedged_recordChainEvent {t o : String} {et : EventType} (ht : t ≠ "") :
    Hedged (recordChainEvent s t et) o ↔ Hedged s o ∨ o = t := by
  unfold Hedged recordChainEvent insertOrIgnore
  dsimp only
  split
  · next h =>
    refine ⟨Or.inl, fun ho => ho.elim id ?_⟩
    rintro rfl
    exact ⟨_, h.resolve_left ht, rfl⟩
  · simp only [List.mem_append, List.mem_singleton]
    constructor
    · rintro ⟨e, he | rfl, rfl⟩
      exacts [Or.inl ⟨e, he, rfl⟩, Or.inr rfl]
    · rintro (⟨e, he, rfl⟩ | rfl)
      exacts [⟨e, Or.inl he, rfl⟩, ⟨_, Or.inr rfl, rfl⟩]

/-! ### The invariant -/

structure Inv (s : State) : Prop where
  failures : ∀ t ∈ s.hedgeFailures, t ≤ s.now
  named : ∀ a ∈ s.calls, a.offerId ≠ ""
  placed : ∀ o, (s.orders.filter fun x => x.offerId = o).length ≤ 1
  /-- Orders that are out have no record yet, and are of different offers. -/
  fresh : ∀ a ∈ s.calls, a.phase.out = true → ¬ Hedged s a.offerId
  apart : ∀ (i j : ℕ) (a b : Call), s.calls[i]? = some a → s.calls[j]? = some b →
    a.phase.out = true → b.phase.out = true → a.offerId = b.offerId → i = j
  /-- The exchange has what it took, and no more of an offer whose order is out. -/
  kept : ∀ a ∈ s.calls, a.phase.out = true →
    (a.phase.taken = true ↔ ∃ x ∈ s.orders, x.offerId = a.offerId)
  recorded : ∀ x ∈ s.orders, Hedged s x.offerId ∨
    ∃ a ∈ s.calls, a.phase.taken = true ∧ a.offerId = x.offerId
  hedged : ∀ o, Hedged s o → ∃ x ∈ s.orders, x.offerId = o
  /-- What is polled for is on record and not yet in the ledger. -/
  polled : ∀ a ∈ s.calls, a.phase.polls = true →
    Hedged s a.offerId ∧ ∀ r ∈ s.ledger, r.ref_order_id ≠ a.offerId
  pollsApart : ∀ (i j : ℕ) (a b : Call), s.calls[i]? = some a → s.calls[j]? = some b →
    a.phase.polls = true → b.phase.polls = true → a.offerId = b.offerId → i = j
  booked : ∀ r ∈ s.ledger, Hedged s r.ref_order_id
  credited : ∀ o, (s.ledger.filter fun r => r.ref_order_id = o).length ≤ 1
  amount : ∀ x ∈ s.credits, x.row.balance_change = x.fill.executedQty * x.fill.executionPrice
  whole : ∀ r ∈ s.ledger, Whole r.balance_change
  balanced : ∀ pre r post, s.ledger = pre ++ r :: post →
    r.balance_after = balance (pre ++ [r]) r.user_kasia_address

theorem Phase.out_of_taken {p : Phase} (h : p.taken = true) : p.out = true := by
  cases p with
  | ordering price b => rfl
  | quoting | polling | done => exact absurd h Bool.false_ne_true

theorem Phase.out_of_polls {p : Phase} (h : p.polls = true) : p.out = false := by
  cases p with
  | polling price orderId => rfl
  | quoting | ordering | done => exact absurd h Bool.false_ne_true

theorem inv_init : Inv init where
  failures := fun _ ht => absurd ht List.not_mem_nil
  named := fun _ ha => absurd ha List.not_mem_nil
  placed := fun _ => Nat.zero_le 1
  fresh := fun _ ha => absurd ha List.not_mem_nil
  apart := fun i _ _ _ hi => by simp [init] at hi
  kept := fun _ ha => absurd ha List.not_mem_nil
  recorded := fun _ hx => absurd hx List.not_mem_nil
  hedged := fun _ ho => ho.elim fun _ he => absurd he.1 List.not_mem_nil
  polled := fun _ ha => absurd ha List.not_mem_nil
  pollsApart := fun i _ _ _ hi => by simp [init] at hi
  booked := fun _ hr => absurd hr List.not_mem_nil
  credited := fun _ => Nat.zero_le 1
  amount := fun _ hx => absurd hx List.not_mem_nil
  whole := fun _ hr => absurd hr List.not_mem_nil
  balanced := fun pre r post heq => by cases pre <;> cases heq

/-! ### A call goes on -/

section Go

variable {i : ℕ} {a b : Call} {p : Phase}

theorem mem_go (hb : b ∈ (s.go i a p).calls) : b ∈ s.calls ∨ b = { a with phase := p } :=
  List.mem_or_eq_of_mem_set hb

theorem getElem?_go {j : ℕ} (hb : (s.go i a p).calls[j]? = some b) :
    j ≠ i ∧ s.calls[j]? = some b ∨ j = i ∧ b = { a with phase := p } := by
  unfold State.go at hb
  rw [List.getElem?_set] at hb
  split at hb
  · next hij =>
    split at hb
    · exact Or.inr ⟨hij.symm, (Option.some.inj hb).symm⟩
    · cases hb
  · next hij => exact Or.inl ⟨Ne.symm hij, hb⟩

theorem mem_go_of_ne {j : ℕ} (hb : s.calls[j]? = some b) (hij : j ≠ i) :
    b ∈ (s.go i a p).calls := by
  refine List.mem_of_getElem? (i := j) ?_
  unfold State.go
  rw [List.getElem?_set_ne (Ne.symm hij)]
  exact hb

/-- What holds of the calls before holds after, if it holds of the call that goes on. -/
theorem forall_go {P : Call → Prop} (h : ∀ b ∈ s.calls, P b) (hp : P { a with phase := p }) :
    ∀ b ∈ (s.go i a p).calls, P b := by
  intro b hb
  rcases mem_go hb with hb | rfl
  · exact h b hb
  · exact hp

/-- Calls of a kind stay of different offers, if the call that goes on is not of it, or its offer
has no other of it. -/
theorem apart_go {q : Phase → Bool}
    (h : ∀ (j k : ℕ) (b d : Call), s.calls[j]? = some b → s.calls[k]? = some d →
      q b.phase = true → q d.phase = true → b.offerId = d.offerId → j = k)
    (hp : q p = true → ∀ (j : ℕ) (b : Call), s.calls[j]? = some b → q b.phase = true →
      b.offerId = a.offerId → j = i) :
    ∀ (j k : ℕ) (b d : Call), (s.go i a p).calls[j]? = some b → (s.go i a p).calls[k]? = some d →
      q b.phase = true → q d.phase = true → b.offerId = d.offerId → j = k := by
  intro j k b d hj hk hb hd heq
  rcases getElem?_go hj with ⟨hji, hj'⟩ | ⟨hji, rfl⟩ <;>
    rcases getElem?_go hk with ⟨hki, hk'⟩ | ⟨hki, rfl⟩
  · exact h j k b d hj' hk' hb hd heq
  · exact absurd (hp hd j b hj' hb heq) hji
  · exact absurd (hp hb k d hk' hd heq.symm) hki
  · rw [hji, hki]

/-- An order that was taken is still waited for, unless its own call went on. -/
theorem recorded_go (h : Inv s) (hi : s.calls[i]? = some a)
    (ht : a.phase.taken = true → p.taken = true) :
    ∀ x ∈ s.orders, Hedged s x.offerId ∨
      ∃ b ∈ (s.go i a p).calls, b.phase.taken = true ∧ b.offerId = x.offerId := by
  intro x hx
  refine (h.recorded x hx).imp_right ?_
  rintro ⟨b, hb, hbt, hbo⟩
  obtain ⟨j, hj⟩ := List.mem_iff_getElem?.mp hb
  by_cases hji : j = i
  · subst hji
    obtain rfl : a = b := Option.some.inj (hi.symm.trans hj)
    have hlt : j < s.calls.length := (List.getElem?_eq_some_iff.mp hj).1
    exact ⟨{ a with phase := p }, List.mem_iff_getElem?.mpr ⟨j, by simp [State.go, hlt]⟩, ht hbt,
      hbo⟩
  · exact ⟨b, mem_go_of_ne hj hji, hbt, hbo⟩

/-- A call ends that has no order taken. -/
theorem Inv.retire (h : Inv s) (hi : s.calls[i]? = some a) (ht : a.phase.taken = false) :
    Inv (s.go i a .done) :=
  { h with
    named := forall_go h.named (h.named a (List.mem_of_getElem? hi))
    fresh := forall_go h.fresh fun hout => absurd hout Bool.false_ne_true
    apart := apart_go h.apart fun hout => absurd hout Bool.false_ne_true
    kept := forall_go h.kept fun hout => absurd hout Bool.false_ne_true
    recorded := recorded_go h hi fun htrue => absurd (ht.symm.trans htrue) Bool.false_ne_true
    polled := forall_go h.polled fun hpoll => absurd hpoll Bool.false_ne_true
    pollsApart := apart_go h.pollsApart fun hpoll => absurd hpoll Bool.false_ne_true }

/-- A call sends its order. -/
theorem Inv.send (h : Inv s) {price : ℚ} (hi : s.calls[i]? = some a) (ht : a.phase.taken = false)
    (hfresh : ¬ Hedged s a.offerId)
    (hother : ∀ b ∈ s.calls, b.phase.out = true → b.offerId ≠ a.offerId) :
    Inv (s.go i a (.ordering price false)) :=
  { h with
    named := forall_go h.named (h.named a (List.mem_of_getElem? hi))
    fresh := forall_go h.fresh fun _ => hfresh
    apart := apart_go h.apart fun _ j b hj hb heq =>
      absurd heq (hother b (List.mem_of_getElem? hj) hb)
    kept := forall_go h.kept fun _ => by
      refine ⟨fun hfalse => absurd hfalse Bool.false_ne_true, ?_⟩
      rintro ⟨x, hx, hxo⟩
      rcases h.recorded x hx with hrec | ⟨b, hb, hbt, hbo⟩
      · exact absurd (hxo ▸ hrec) hfresh
      · exact absurd (hbo.trans hxo) (hother b hb (Phase.out_of_taken hbt))
    recorded := recorded_go h hi fun htrue => absurd (ht.symm.trans htrue) Bool.false_ne_true
    polled := forall_go h.polled fun hpoll => absurd hpoll Bool.false_ne_true
    pollsApart := apart_go h.pollsApart fun hpoll => absurd hpoll Bool.false_ne_true }

/-- The exchange takes the order of a call. -/
theorem Inv.taken (h : Inv s) {price : ℚ} (hi : s.calls[i]? = some a)
    (hphase : a.phase = .ordering price false) : Inv (taken s i a price) := by
  have hmem := List.mem_of_getElem? hi
  have hout : a.phase.out = true := by rw [hphase]; rfl
  have hnone : ∀ x ∈ s.orders, x.offerId ≠ a.offerId := fun x hx hxo => by
    have htaken := (h.kept a hmem hout).mpr ⟨x, hx, hxo⟩
    rw [hphase] at htaken
    exact absurd htaken Bool.false_ne_true
  refine
    { h with
      named := forall_go h.named (h.named a hmem)
      fresh := forall_go h.fresh fun _ => h.fresh a hmem hout
      apart := apart_go h.apart fun _ j b hj hb heq => h.apart j i b a hj hi hb hout heq
      polled := forall_go h.polled fun hpoll => absurd hpoll Bool.false_ne_true
      pollsApart := apart_go h.pollsApart fun hpoll => absurd hpoll Bool.false_ne_true
      placed := ?_, kept := ?_, recorded := ?_, hedged := ?_ }
  · intro o
    simp only [Hedge.taken, List.filter_append, List.length_append]
    by_cases ho : a.offerId = o
    · have hnil : s.orders.filter (fun x => x.offerId = o) = [] :=
        List.filter_eq_nil_iff.mpr fun x hx => by simpa [ho] using hnone x hx
      simp [hnil]
      exact (List.length_filter_le _ _).trans (by simp)
    · have hnil : ([⟨a.offerId, a.exchange, a.side, a.qty, price⟩] : List Order).filter
          (fun x => x.offerId = o) = [] := by simp [ho]
      rw [hnil]
      exact h.placed o
  · intro b hb hbout
    obtain ⟨j, hj⟩ := List.mem_iff_getElem?.mp hb
    rcases getElem?_go hj with ⟨hji, hj⟩ | ⟨rfl, rfl⟩
    · have hne : b.offerId ≠ a.offerId := fun heq => hji (h.apart j i b a hj hi hbout hout heq)
      rw [h.kept b (List.mem_of_getElem? hj) hbout]
      simp only [Hedge.taken, List.mem_append, List.mem_singleton]
      constructor
      · rintro ⟨x, hx, hxo⟩
        exact ⟨x, Or.inl hx, hxo⟩
      · rintro ⟨x, hx | rfl, hxo⟩
        · exact ⟨x, hx, hxo⟩
        · exact absurd hxo.symm hne
    · exact ⟨fun _ => ⟨_, List.mem_append_right _ List.mem_cons_self, rfl⟩, fun _ => rfl⟩
  · intro x hx
    rcases List.mem_append.mp hx with hx | hx
    · exact recorded_go h hi (fun _ => rfl) x hx
    · obtain rfl := List.mem_singleton.mp hx
      have hlt : i < s.calls.length := (List.getElem?_eq_some_iff.mp hi).1
      exact Or.inr ⟨{ a with phase := .ordering price true },
        List.mem_iff_getElem?.mpr ⟨i, by simp [Hedge.taken, State.go, hlt]⟩, rfl, rfl⟩
  · intro o ho
    obtain ⟨x, hx, hxo⟩ := h.hedged o ho
    exact ⟨x, List.mem_append_left _ hx, hxo⟩

end Go

/-! ### Records -/

section Keep

variable {i : ℕ} {a : Call} {p : Phase}

/-- Another record of an offer that has one. -/
theorem Inv.record (h : Inv s) {o : String} {et : EventType} (hne : o ≠ "") (ho : Hedged s o) :
    Inv (recordChainEvent s o et) := by
  have hiff : ∀ o', Hedged (recordChainEvent s o et) o' ↔ Hedged s o' := fun o' => by
    rw [hedged_recordChainEvent hne]
    refine ⟨fun h' => h'.elim id ?_, Or.inl⟩
    rintro rfl
    exact ho
  exact
    { h with
      fresh := fun b hb hout hrec => h.fresh b hb hout ((hiff _).mp hrec)
      recorded := fun x hx => (h.recorded x hx).imp_left (hiff _).mpr
      hedged := fun o' ho' => h.hedged o' ((hiff o').mp ho')
      polled := fun b hb hpoll => (h.polled b hb hpoll).imp_left (hiff _).mpr
      booked := fun r hr => (hiff _).mpr (h.booked r hr) }

/-- The reply for an order that was taken is recorded. -/
theorem Inv.reply (h : Inv s) {et : EventType} (hi : s.calls[i]? = some a)
    (ht : a.phase.taken = true) (hp : p.out = false) :
    Inv (recordChainEvent (s.go i a p) a.offerId et) := by
  have hmem := List.mem_of_getElem? hi
  have hout := Phase.out_of_taken ht
  have hfresh := h.fresh a hmem hout
  have hiff : ∀ o, Hedged (recordChainEvent (s.go i a p) a.offerId et) o ↔
      Hedged s o ∨ o = a.offerId := fun o => hedged_recordChainEvent (h.named a hmem)
  have hpout : ∀ {P : Prop}, p.out = true → P := fun htrue =>
    absurd (hp.symm.trans htrue) Bool.false_ne_true
  refine
    { h with
      named := forall_go h.named (h.named a hmem)
      apart := apart_go h.apart hpout
      kept := forall_go h.kept hpout
      fresh := ?_, recorded := ?_, hedged := ?_, polled := ?_, pollsApart := ?_, booked := ?_ }
  · intro b hb hbout hrec
    obtain ⟨j, hj⟩ := List.mem_iff_getElem?.mp hb
    rcases getElem?_go hj with ⟨hji, hj⟩ | ⟨-, rfl⟩
    · rcases (hiff _).mp hrec with hrec | heq
      · exact h.fresh b (List.mem_of_getElem? hj) hbout hrec
      · exact hji (h.apart j i b a hj hi hbout hout heq)
    · exact hpout hbout
  · intro x hx
    rcases h.recorded x hx with hrec | ⟨b, hb, hbt, hbo⟩
    · exact Or.inl ((hiff _).mpr (Or.inl hrec))
    · obtain ⟨j, hj⟩ := List.mem_iff_getElem?.mp hb
      by_cases hji : j = i
      · subst hji
        obtain rfl : a = b := Option.some.inj (hi.symm.trans hj)
        exact Or.inl ((hiff _).mpr (Or.inr hbo.symm))
      · exact Or.inr ⟨b, mem_go_of_ne hj hji, hbt, hbo⟩
  · intro o ho
    rcases (hiff o).mp ho with ho | rfl
    · exact h.hedged o ho
    · exact (h.kept a hmem hout).mp ht
  · refine forall_go (fun b hb hpoll => ?_) fun _ => ?_
    · exact (h.polled b hb hpoll).imp_left fun hrec => (hiff _).mpr (Or.inl hrec)
    · exact ⟨(hiff _).mpr (Or.inr rfl), fun r hr heq => hfresh (heq ▸ h.booked r hr)⟩
  · exact apart_go h.pollsApart fun _ j b hj hpoll heq =>
      absurd (heq ▸ (h.polled b (List.mem_of_getElem? hj) hpoll).1) hfresh
  · exact fun r hr => (hiff _).mpr (Or.inl (h.booked r hr))

/-- The last part of a list that ends in `r`. -/
theorem split_append_singleton {α : Type*} {l pre post : List α} {x r : α}
    (h : l ++ [x] = pre ++ r :: post) :
    pre = l ∧ r = x ∨ ∃ post', l = pre ++ r :: post' := by
  rcases List.eq_nil_or_concat post with rfl | ⟨post', y, rfl⟩
  · obtain ⟨hpre, hr⟩ := List.append_inj' h rfl
    exact Or.inl ⟨hpre.symm, (List.cons.inj hr).1.symm⟩
  · rw [List.concat_eq_append, ← List.cons_append, ← List.append_assoc] at h
    exact Or.inr ⟨post', (List.append_inj' h rfl).1⟩

/-- A fill is booked. -/
theorem Inv.credit (h : Inv s) {user orderId : String} {price : ℚ} {f : Fill}
    (hi : s.calls[i]? = some a) (hphase : a.phase = .polling price orderId)
    (hprice : f.executionPrice = price) (hwhole : Whole (f.executedQty * price)) :
    Inv { s.go i a .done with
      credits := s.credits ++ [⟨creditRow s a user price orderId f, f⟩] } := by
  have hmem := List.mem_of_getElem? hi
  have hpoll : a.phase.polls = true := by rw [hphase]; rfl
  obtain ⟨hrec, hnew⟩ := h.polled a hmem hpoll
  have hretire := h.retire hi (a := a) (by rw [hphase]; rfl)
  have hledger : ∀ r, r ∈ State.ledger { s.go i a .done with
      credits := s.credits ++ [⟨creditRow s a user price orderId f, f⟩] } ↔
        r ∈ s.ledger ∨ r = creditRow s a user price orderId f := fun r => by
    simp [State.ledger, eq_comm]
  have hchange : (creditRow s a user price orderId f).balance_change = f.executedQty * price :=
    toFixed4_eq hwhole
  refine
    { hretire with
      polled := ?_, booked := ?_, credited := ?_, amount := ?_, whole := ?_, balanced := ?_ }
  · intro b hb hbpoll
    refine ⟨(hretire.polled b hb hbpoll).1, fun r hr => ?_⟩
    rcases (hledger r).mp hr with hr | rfl
    · exact (hretire.polled b hb hbpoll).2 r hr
    · intro heq
      obtain ⟨j, hj⟩ := List.mem_iff_getElem?.mp hb
      rcases getElem?_go hj with ⟨hji, hj⟩ | ⟨-, rfl⟩
      · exact hji (h.pollsApart j i b a hj hi hbpoll hpoll heq.symm)
      · exact absurd hbpoll Bool.false_ne_true
  · intro r hr
    rcases (hledger r).mp hr with hr | rfl
    · exact h.booked r hr
    · exact hrec
  · intro o
    simp only [State.ledger, List.map_append, List.filter_append, List.length_append]
    by_cases ho : a.offerId = o
    · have hnil : (s.credits.map Credit.row).filter (fun r => r.ref_order_id = o) = [] :=
        List.filter_eq_nil_iff.mpr fun r hr => by simpa [ho] using hnew r hr
      rw [hnil]
      exact (Nat.zero_add _).le.trans (List.length_filter_le _ _)
    · have hnil : ([⟨creditRow s a user price orderId f, f⟩].map Credit.row).filter
          (fun r => r.ref_order_id = o) = [] := by simp [creditRow, ho]
      rw [hnil]
      exact h.credited o
  · intro x hx
    rcases List.mem_append.mp hx with hx | hx
    · exact h.amount x hx
    · obtain rfl := List.mem_singleton.mp hx
      rw [hprice]
      exact hchange
  · intro r hr
    rcases (hledger r).mp hr with hr | rfl
    · exact h.whole r hr
    · rw [hchange]
      exact hwhole
  · intro pre r post heq
    simp only [State.ledger, List.map_append, List.map_cons, List.map_nil] at heq
    rcases split_append_singleton heq with ⟨rfl, rfl⟩ | ⟨post', heq'⟩
    · rw [balance_append, hchange]
      refine (toFixed4_eq ((Whole.balance h.whole user).add ?_)).trans ?_
      · exact (toFixed4_eq hwhole).symm ▸ hwhole
      · rw [toFixed4_eq hwhole]
        rfl
    · exact h.balanced pre r post' heq'

theorem Inv.prune (h : Inv s) : Inv { s with hedgeFailures := s.recent } :=
  { h with failures := fun t ht => h.failures t (List.mem_filter.mp ht).1 }

theorem Inv.fail (h : Inv s) : Inv s.fail :=
  { h with
    failures := fun t ht => by
      rcases List.mem_append.mp ht with ht | ht
      · exact h.failures t ht
      · exact (List.mem_singleton.mp ht).le }

/-- A call gets past its checks. -/
theorem Inv.enter (h : Inv s) (ha : a.offerId ≠ "") (hq : a.phase = .quoting) :
    Inv { s with calls := s.calls ++ [a] } := by
  have hout : a.phase.out = false := by rw [hq]; rfl
  have hpoll : a.phase.polls = false := by rw [hq]; rfl
  have hold : ∀ {q : Phase → Bool}, q a.phase = false → ∀ {j : ℕ} {b : Call},
      (s.calls ++ [a])[j]? = some b → q b.phase = true → s.calls[j]? = some b := by
    intro q hqa j b hj hb
    rw [List.getElem?_append] at hj
    split at hj
    · exact hj
    · rw [List.mem_singleton.mp (List.mem_of_getElem? hj), hqa] at hb
      exact absurd hb Bool.false_ne_true
  have hmem : ∀ {P : Call → Prop}, (∀ b ∈ s.calls, P b) → P a → ∀ b ∈ s.calls ++ [a], P b := by
    intro P hP hPa b hb
    rcases List.mem_append.mp hb with hb | hb
    · exact hP b hb
    · exact List.mem_singleton.mp hb ▸ hPa
  exact
    { h with
      named := hmem h.named ha
      fresh := hmem h.fresh fun htrue => absurd (hout.symm.trans htrue) Bool.false_ne_true
      apart := fun j k b d hj hk hb hd =>
        h.apart j k b d (hold hout hj hb) (hold hout hk hd) hb hd
      kept := hmem h.kept fun htrue => absurd (hout.symm.trans htrue) Bool.false_ne_true
      recorded := fun x hx => (h.recorded x hx).imp_right (by
        rintro ⟨b, hb, hbt⟩
        exact ⟨b, List.mem_append_left _ hb, hbt⟩)
      polled := hmem h.polled fun htrue => absurd (hpoll.symm.trans htrue) Bool.false_ne_true
      pollsApart := fun j k b d hj hk hb hd =>
        h.pollsApart j k b d (hold hpoll hj hb) (hold hpoll hk hd) hb hd }

theorem Inv.restarted (h : Inv s) (hnone : ∀ b ∈ s.calls, b.phase.taken = false) :
    Inv (restarted s) := by
  have hdone : ∀ b ∈ (Hedge.restarted s).calls, b.phase = .done := by
    intro b hb
    obtain ⟨d, -, rfl⟩ := List.mem_map.mp hb
    rfl
  have hall : ∀ {q : Phase → Bool}, q .done = false → ∀ b ∈ (Hedge.restarted s).calls,
      q b.phase = true → False := fun hq b hb htrue => by
    rw [hdone b hb, hq] at htrue
    exact Bool.false_ne_true htrue
  have hat : ∀ {q : Phase → Bool}, q .done = false → ∀ {j : ℕ} {b : Call},
      (Hedge.restarted s).calls[j]? = some b → q b.phase = true → False :=
    fun hq j b hj => hall hq b (List.mem_of_getElem? hj)
  exact
    { h with
      failures := fun t ht => absurd ht List.not_mem_nil
      named := fun b hb => by
        obtain ⟨d, hd, rfl⟩ := List.mem_map.mp hb
        exact h.named d hd
      fresh := fun b hb hout => (hall (q := Phase.out) rfl b hb hout).elim
      apart := fun j k b d hj _ hb => (hat (q := Phase.out) rfl hj hb).elim
      kept := fun b hb hout => (hall (q := Phase.out) rfl b hb hout).elim
      recorded := fun x hx => by
        rcases h.recorded x hx with hrec | ⟨b, hb, hbt, -⟩
        · exact Or.inl hrec
        · exact absurd ((hnone b hb).symm.trans hbt) Bool.false_ne_true
      polled := fun b hb hpoll => (hall (q := Phase.polls) rfl b hb hpoll).elim
      pollsApart := fun j k b d hj _ hb => (hat (q := Phase.polls) rfl hj hb).elim }

/-- The checks of a call, with the circuit closed. -/
theorem Inv.call (h : Inv s) {o : String} {side : Side} {qty : ℚ} {preferredCex : Option String}
    {accounts : List Account} (hfair : existingHedge s o = false → isHedgeCircuitOpen s = false) :
    Inv (executeHedge c s o side qty preferredCex accounts) := by
  unfold executeHedge
  split
  · split
    · exact h
    · next row hrow =>
      have hne : o ≠ "" := by
        rintro rfl
        rw [c.named] at hrow
        cases hrow
      split
      · split
        · exact h
        · next hnew =>
          rw [if_neg (by rw [hfair (Bool.not_eq_true _ ▸ hnew)]; exact Bool.false_ne_true)]
          split
          · exact h.prune
          · split
            · exact h.prune.enter hne rfl
            · exact h.prune
      · exact h
  · exact h

theorem Inv.quoted (h : Inv s) {ticker : Option (ℚ × ℚ)} (hi : s.calls[i]? = some a)
    (hphase : a.phase = .quoting)
    (hfair : existingHedge s a.offerId = false ∧
      ∀ b ∈ s.calls, b.phase.out = true → b.offerId ≠ a.offerId) :
    Inv (quoted s i a ticker) := by
  have ht : a.phase.taken = false := by rw [hphase]; rfl
  unfold Hedge.quoted
  split
  · exact (h.retire hi ht).fail
  · split
    · exact (h.retire hi ht).fail
    · exact h.send hi ht (existingHedge_eq_false.mp hfair.1) hfair.2

theorem Inv.replied (h : Inv s) {price : ℚ} {orderId : Option String} (hi : s.calls[i]? = some a)
    (ht : a.phase.taken = true) : Inv (replied s i a price orderId) := by
  cases orderId with
  | none => exact (h.reply (p := .done) hi ht rfl).fail
  | some orderId =>
    refine h.reply hi ht ?_
    split <;> rfl

theorem Inv.filled (h : Inv s) {user orderId : String} {price : ℚ} {f : Fill}
    (hi : s.calls[i]? = some a) (hphase : a.phase = .polling price orderId)
    (hprice : f.executionPrice = price) (hwhole : Whole (f.executedQty * price)) :
    Inv (Hedge.booked s i a user price orderId f) := by
  have hmem := List.mem_of_getElem? hi
  unfold Hedge.booked
  dsimp only
  split
  · exact h.retire hi (by rw [hphase]; rfl)
  · exact (h.credit hi hphase hprice hwhole).record (h.named a hmem)
      (h.polled a hmem (by rw [hphase]; rfl)).1

theorem Inv.timedOut (h : Inv s) (hi : s.calls[i]? = some a) (hpoll : a.phase.polls = true) :
    Inv (timedOut s i a) := by
  have hmem := List.mem_of_getElem? hi
  have ht : a.phase.taken = false := Bool.eq_false_iff.mpr fun htrue =>
    absurd ((Phase.out_of_polls hpoll).symm.trans (Phase.out_of_taken htrue)) Bool.false_ne_true
  exact (h.retire hi ht).record (h.named a hmem) (h.polled a hmem hpoll).1

/-- What a call makes of an answer. -/
theorem Inv.answer (h : Inv s) {e : Event} (hi : s.calls[i]? = some a) (hidx : e.index = some i)
    (hfair : Fair s e) : Inv (answer s i a e) := by
  cases e with
  | quote j ticker =>
    obtain rfl := Option.some.inj hidx
    unfold Hedge.answer
    dsimp only
    split
    · next hphase => exact h.quoted hi hphase (hfair a hi)
    · exact h
  | take j =>
    unfold Hedge.answer
    dsimp only
    split
    · next price hphase => exact h.taken hi hphase
    · exact h
  | reply j orderId =>
    obtain rfl := Option.some.inj hidx
    unfold Hedge.answer
    dsimp only
    split
    · next price hphase => exact h.replied hi (by rw [hphase]; rfl)
    · next price hphase =>
      cases orderId with
      | some orderId => exact h
      | none =>
        -- A refusal: the exchange has not taken the order.
        have htaken := hfair a hi (by rw [hphase]; rfl)
        rw [hphase] at htaken
        exact absurd htaken Bool.false_ne_true
    · exact h
  | fill j f =>
    obtain rfl := Option.some.inj hidx
    unfold Hedge.answer
    dsimp only
    split
    · next price orderId user hphase _ =>
      obtain ⟨hprice, hwhole⟩ := hfair a hi price orderId hphase
      exact h.filled hi hphase hprice hwhole
    · exact h
  | timeout j =>
    unfold Hedge.answer
    dsimp only
    split
    · next hphase => exact h.timedOut hi (by rw [hphase]; rfl)
    · exact h
  | pollError j =>
    unfold Hedge.answer
    dsimp only
    split
    · next hphase => exact h.retire hi (by rw [hphase]; rfl)
    · exact h
  | call | callRow | wait | restart => cases hidx

end Keep

theorem step_eq {e : Event} {i : ℕ} (hidx : e.index = some i) :
    step c s e = ((s.calls[i]?).map fun a => answer s i a e).getD s := by
  cases e <;> first | cases hidx; rfl | cases hidx

/-- **One step keeps the invariant.** -/
theorem Inv.step {e : Event} (h : Inv s) (hfair : Fair s e) : Inv (step c s e) := by
  cases hidx : e.index with
  | some i =>
    rw [step_eq hidx]
    cases hi : s.calls[i]? with
    | none => exact h
    | some a => exact h.answer hi hidx hfair
  | none =>
    cases e with
    | call => exact h.call hfair
    | callRow => exact h
    | wait ms =>
      exact { h with failures := fun t ht => (h.failures t ht).trans (Nat.le_add_right _ _) }
    | restart => exact h.restarted hfair
    | quote | take | reply | fill | timeout | pollError => cases hidx

/-! ### A later call -/

/-- After an hour no failure counts. -/
theorem Inv.recent_wait (h : Inv s) :
    State.recent { s with now := s.now + HEDGE_CIRCUIT_WINDOW_MS } = [] := by
  refine List.filter_eq_nil_iff.mpr fun t ht hlt => ?_
  have hle := h.failures t ht
  have hlt := of_decide_eq_true hlt
  simp only at hlt
  omega

/-- An offer without an order has no record, so that the next call orders. -/
theorem Inv.hedgeable (h : Inv s) (hcol : c.metaColumn = true) {o : String} {row : Option Json}
    (hrow : c.offers o = some row) (henabled : hedgeEnabled row = true)
    (hnone : ∀ x ∈ s.orders, x.offerId ≠ o) : Hedgeable c s o := by
  rintro side qty accounts ask bid ⟨account, hbest, husable⟩ hask hbid
  have hnew : existingHedge s o = false := existingHedge_eq_false.mpr fun hrec => by
    obtain ⟨x, hx, hxo⟩ := h.hedged o hrec
    exact hnone x hx hxo
  have hrecent := h.recent_wait
  have hcall : executeHedge c { s with now := s.now + HEDGE_CIRCUIT_WINDOW_MS } o side qty none
      accounts = { s with
        now := s.now + HEDGE_CIRCUIT_WINDOW_MS
        hedgeFailures := []
        calls := s.calls ++ [⟨o, side, qty, account.exchange, userKasia row, .quoting⟩] } := by
    have hclosed :
        isHedgeCircuitOpen { s with now := s.now + HEDGE_CIRCUIT_WINDOW_MS } = false := by
      unfold isHedgeCircuitOpen
      rw [hrecent]
      rfl
    have hnew' : existingHedge { s with now := s.now + HEDGE_CIRCUIT_WINDOW_MS } o = false := hnew
    simp [executeHedge, hcol, hrow, henabled, hnew', hclosed, hbest, husable, hrecent]
  have hprice : ∃ price, fetchHedgePrice side (some (ask, bid)) = some price ∧ price ≠ 0 := by
    cases side with
    | BUY => exact ⟨_, rfl, by positivity⟩
    | SELL => exact ⟨_, rfl, by positivity⟩
  obtain ⟨price, hfetch, hzero⟩ := hprice
  refine ⟨⟨o, account.exchange, side, qty, price⟩, ?_, rfl⟩
  simp [Hedge.step, hcall, Event.index, Hedge.answer, Hedge.quoted, hfetch, hzero, State.go,
    Hedge.taken]

/-- **Each offer is hedged and credited once at most**, in runs in which no two orders of an offer
are out at once, and none is refused or left unrecorded. -/
theorem hedge_run {es : List Event} (hcol : c.metaColumn = true)
    (hfair : Along Fair (step c) init es) : Safe c (run c es) := by
  have h : Inv (run c es) :=
    Along.invariant (I := fun _ s => Inv s) hfair inv_init fun _ _ ih hf => ih.step hf
  exact ⟨h.placed, h.credited, h.amount, h.balanced, fun _ _ hrow henabled hnone =>
    h.hedgeable hcol hrow henabled hnone⟩

/-! ### Two calls at once, and a refusal -/

section Sample

/-- One offer, to be hedged for the user `u`. -/
def sampleConfig (metaColumn : Bool) : Config where
  metaColumn := metaColumn
  offers o := if o = "o" then
    some (some (.obj [("hedge_enabled", .bool true), ("user_kasia_address", .str "kaspa:u")]))
    else none
  named := rfl

def sampleAccounts : List Account := [⟨"mexc", true, true⟩]

def sampleCall : Event := .call "o" .SELL 10 none sampleAccounts

def hedgedOnce : List Event :=
  [sampleCall, .quote 0 (some (1, 1)), .take 0, .reply 0 (some "x"), .fill 0 ⟨10, 998 / 1000⟩]

theorem hedgedOnce_fair : Along Fair (step (sampleConfig true)) init hedgedOnce := by
  refine .cons (show _ → _ from fun _ => by decide +kernel) (.cons (fun a ha => ?_)
    (.cons trivial (.cons trivial (.cons (fun a ha price orderId hphase => ?_) .nil))))
  · obtain rfl := Option.some.inj ha
    exact ⟨by decide +kernel, by decide +kernel⟩
  · have hpolls : ((run (sampleConfig true) (hedgedOnce.take 4)).calls[0]?).map Call.phase =
        some (.polling (998 / 1000) "x") := by decide +kernel
    have hpolling := (congrArg (Option.map Call.phase) ha).symm.trans hpolls
    obtain ⟨rfl, rfl⟩ := Phase.polling.inj (hphase.symm.trans (Option.some.inj hpolling))
    exact ⟨rfl, 99800, by norm_num⟩

theorem hedgedOnce_safe : Safe (sampleConfig true) (run (sampleConfig true) hedgedOnce) :=
  hedge_run rfl hedgedOnce_fair

/-- The second call passes its checks before the first has an order on record. -/
def bothAtOnce : List Event :=
  [sampleCall, sampleCall, .quote 0 (some (1, 1)), .quote 1 (some (1, 1)), .take 0, .take 1]

/-- The exchange refuses the order. -/
def refused : List Event := [sampleCall, .quote 0 (some (1, 1)), .reply 0 none]

/-- A refused order stays on record as a hedge; without the column nothing is hedged at all. -/
theorem hedged_twice_or_never :
    ¬ Safe (sampleConfig true) (run (sampleConfig true) bothAtOnce) ∧
      ¬ Safe (sampleConfig true) (run (sampleConfig true) refused) ∧
      ¬ Safe (sampleConfig false) (run (sampleConfig false) [sampleCall]) := by
  have haccount : ∃ account, bestAccount none sampleAccounts = some account ∧
      account.usable = true := ⟨⟨"mexc", true, true⟩, rfl, by decide +kernel⟩
  refine ⟨fun h => ?_, fun h => ?_, fun h => ?_⟩
  · exact absurd (h.placed "o") (by decide +kernel)
  · obtain ⟨x, hx, -⟩ := h.retry "o" _ rfl rfl (by decide +kernel) .SELL 10 sampleAccounts 1 1
      haccount (by norm_num) (by norm_num)
    exact absurd hx (List.eq_nil_iff_forall_not_mem.mp (List.isEmpty_iff.mp (by decide +kernel)) x)
  · obtain ⟨x, hx, -⟩ := h.retry "o" _ rfl rfl (by decide +kernel) .SELL 10 sampleAccounts 1 1
      haccount (by norm_num) (by norm_num)
    exact absurd hx List.not_mem_nil

end Sample

end KANet.Trade.Hedge
