import KANet.Broker.Payments
import Mathlib.Data.List.Nodup
import Mathlib.Tactic.Linarith

/-!
# A payment is taken once, for what it was made for

* `Safe` — no transfer is taken twice, nor for what was asked for after it or elsewhere; and the
  picks that are paid exactly are marked by the next scan.
* `Inv` — what holds between two waits: a copy of a purchase has as paid what was taken for it.
* `payments_run` — runs in which it is so: what a scan shows near an amount was made for it.
-/

namespace KANet.Broker.Payments

open KANet.Lib

variable {w : Wallets} {madeFor : String → Option Ref} {s : State}

/-! ### What is to hold -/

/-- **Each payment counts once, and for its own purchase.** -/
structure Safe (w : Wallets) (madeFor : String → Option Ref) (es : List Event) : Prop where
  once : ((run w es).taken.map Prod.fst).Nodup
  own : ∀ x ∈ (run w es).taken, ∃ t ∈ (run w es).chain, t.tx_hash = x.1 ∧
    ∃ q ∈ (run w es).asked, q.ref = x.2 ∧ q.since ≤ t.time ∧ q.chain = t.chain ∧
      q.address = t.recipient
  /-- A scan that comes back marks what its buyer has paid exactly. -/
  complete : ∀ pre j post, es = pre ++ .scanned j true :: post →
    ∀ v, (run w pre).verifies[j]? = some v → v.waiting = true → ∀ p ∈ v.live, ∀ i pick,
      p.picks[i]? = some pick → ∀ t ∈ (run w pre).chain,
        madeFor t.tx_hash = some (.pick p.serial i) → t.amount = pick.take_usdt →
        recent (run w pre) t = true → ∃ tx, madeFor tx = some (.pick p.serial i) ∧
          (tx, .pick p.serial i) ∈ (step w (run w pre) (.scanned j true)).taken

/-! ### The condition -/

/-- What a transfer is made for was asked for before, on its chain and for its recipient. -/
def Made (madeFor : String → Option Ref) (s : State) : Event → Prop
  | .transfer tx chain recipient _ => ∀ r, madeFor tx = some r →
    ∃ q ∈ s.asked, q.ref = r ∧ q.chain = chain ∧ q.address = recipient
  | _ => True

/-- What a call finds of the buyer's purchase, in the map or in the rows. -/
def found (s : State) (peer : String) : Option Accept :=
  match s.pending peer with
  | some i => s.accepts[i]?
  | none => storedPicks s peer

def Unpaid (s : State) (p : Purchase) : Prop :=
  ∃ i < p.picks.length, ∀ tx, (tx, .pick p.serial i) ∉ s.taken

/-- Along the run:

* a message names a transfer that was made for the first unpaid pick;
* a call finds the purchase that its buyer has open, on a chain that can be scanned; and what it
  restores is in memory no more, and unpaid;
* what a scan shows within one per cent of an unpaid pick, or of an order, was made for it; and what
  was made for an unpaid pick went to the wallet that is scanned;
* of an order, no two ticks are at the same point; it is published, and marked, without failure. -/
def Fair (w : Wallets) (madeFor : String → Option Ref) (s : State) : Event → Prop
  | .verify peer chain =>
    (∀ p ∈ openOf s peer, Unpaid s p → ∃ a, found s peer = some a ∧ a.serial = p.serial ∧
      chain.getD a.pay_chain = p.pay_chain ∧ p.pay_chain ∈ scannable ∧ (w p.pay_chain).isSome) ∧
    (s.pending peer = none → ∀ a, storedPicks s peer = some a →
      (∀ b ∈ s.accepts, b.serial ≠ a.serial) ∧ ∀ i tx, (tx, .pick a.serial i) ∉ s.taken)
  | .scanned j true => ∀ v, s.verifies[j]? = some v → ∀ obj a, v.accept = some obj →
    s.accepts[obj]? = some a → ∀ i p, a.picks[i]? = some p → p.paid_tx = none →
      (∀ t ∈ scanRecentTransfers s v.chain v.wallet, near p.take_usdt t = true →
        madeFor t.tx_hash = some (.pick a.serial i)) ∧
      ∀ t ∈ s.chain, madeFor t.tx_hash = some (.pick a.serial i) →
        t.recipient = v.wallet ∧ t.chain = v.chain ∧ t.amount ≠ 0
  | .paid peer tx => ∀ obj a i, s.pending peer = some obj → s.accepts[obj]? = some a →
    a.picks.findIdx? (fun p => p.paid_tx.isNone) = some i →
      madeFor tx = some (.pick a.serial i) ∧ ∃ t ∈ s.chain, t.tx_hash = tx
  | .turn k => ∀ t o rest, s.ticks[k]? = some t → t.orders = o :: rest →
    (∀ e ∈ t.events, near o.expectedUsdt e = true → madeFor e.tx_hash = some (.order o.id)) ∧
    ∀ t' ∈ s.ticks, ∀ c, t'.current = some c → c.1.id ≠ o.id
  | .settled k ok => ∀ t c, s.ticks[k]? = some t → t.current = some c →
    ok = true ∧ ∀ m ∈ s.markers, m.id ≠ markerId c.2.tx_hash
  | .restart => ∀ t ∈ s.ticks, t.current = none
  | _ => True

/-! ### The invariant -/

/-- A copy of a purchase. -/
structure Copy (a : Accept) (p : Purchase) : Prop where
  serial : p.serial = a.serial
  pay_chain : p.pay_chain = a.pay_chain
  expires_at : p.expires_at = a.expires_at
  picks : p.picks.map Pick.take_usdt = a.picks.map Pick.take_usdt

/-- Every pick of the purchase has been taken. -/
def Paid (s : State) (p : Purchase) : Prop :=
  ∀ i < p.picks.length, ∃ tx, (tx, .pick p.serial i) ∈ s.taken

/-- What a call looks for is in memory, or all paid. -/
def Verify.Holds (s : State) (v : Verify) (p : Purchase) : Prop :=
  Paid s p ∨ ∃ obj a, v.accept = some obj ∧ s.accepts[obj]? = some a ∧ Copy a p ∧
    v.chain ∈ scannable

structure Inv (madeFor : String → Option Ref) (s : State) : Prop where
  since : ∀ q ∈ s.asked, q.since ≤ s.now
  numbered : ∀ p ∈ s.purchases, s.purchases[p.serial]? = some p
  asked : ∀ q ∈ s.asked, ∀ n i, q.ref = .pick n i → n < s.purchases.length
  copies : ∀ a ∈ s.accepts, ∃ p ∈ s.purchases, Copy a p
  stored : ∀ r ∈ s.rows, ∀ a, r.picks_json = some a → (∃ p ∈ s.purchases, Copy a p) ∧
    ∀ p ∈ a.picks, p.paid_tx = none
  single : ∀ (i j : ℕ) (a b : Accept), s.accepts[i]? = some a → s.accepts[j]? = some b →
    a.serial = b.serial → i = j
  paid : ∀ a ∈ s.accepts, ∀ i p, a.picks[i]? = some p →
    (p.paid_tx.isSome = true ↔ ∃ tx, (tx, .pick a.serial i) ∈ s.taken)
  made : ∀ t ∈ s.chain, ∀ r, madeFor t.tx_hash = some r → ∃ q ∈ s.asked, q.ref = r ∧
    q.since ≤ t.time ∧ q.chain = t.chain ∧ q.address = t.recipient
  takenFor : ∀ x ∈ s.taken, madeFor x.1 = some x.2 ∧ ∃ t ∈ s.chain, t.tx_hash = x.1
  once : (s.taken.map Prod.fst).Nodup
  marked : ∀ tx id, (tx, .order id) ∈ s.taken → (∃ m ∈ s.markers, m.src_event_id = tx) ∨
    ∃ t ∈ s.ticks, ∃ c, t.current = some c ∧ c.2.tx_hash = tx
  current : ∀ t ∈ s.ticks, ∀ c, t.current = some c → madeFor c.2.tx_hash = some (.order c.1.id)
  events : ∀ t ∈ s.ticks, ∀ e ∈ t.events, e ∈ s.chain
  verifies : ∀ v ∈ s.verifies, v.waiting = true → ∀ p ∈ v.live, v.Holds s p

/-! ### Copies -/

theorem Copy.take {a : Accept} {p : Purchase} (h : Copy a p) {i : ℕ} {pick : Pick}
    (hi : p.picks[i]? = some pick) :
    ∃ q, a.picks[i]? = some q ∧ q.take_usdt = pick.take_usdt := by
  have htake : (a.picks.map Pick.take_usdt)[i]? = some pick.take_usdt := by
    rw [← h.picks, List.getElem?_map, hi, Option.map_some]
  rw [List.getElem?_map] at htake
  exact Option.map_eq_some_iff.mp htake

/-- A copy with another pick paid. -/
theorem Copy.modify {a : Accept} {p : Purchase} (h : Copy a p) (i : ℕ) (tx : String) :
    Copy { a with picks := a.picks.modify i (·.paidBy tx) } p where
  serial := h.serial
  pay_chain := h.pay_chain
  expires_at := h.expires_at
  picks := by
    rw [h.picks]
    refine List.ext_getElem? fun j => ?_
    rw [List.getElem?_map, List.getElem?_map, List.getElem?_modify]
    cases a.picks[j]? with
    | none => rfl
    | some q =>
      by_cases hij : i = j
      · simp [hij, Pick.paidBy]
      · simp [hij]

/-- Purchases with one number are one. -/
theorem Inv.eq_of_serial (h : Inv madeFor s) {p q : Purchase} (hp : p ∈ s.purchases)
    (hq : q ∈ s.purchases) (heq : p.serial = q.serial) : p = q := by
  have hpq := h.numbered p hp
  rw [heq, h.numbered q hq] at hpq
  exact (Option.some.inj hpq).symm

theorem Inv.serial_lt (h : Inv madeFor s) {a : Accept} (ha : a ∈ s.accepts) :
    a.serial < s.purchases.length := by
  obtain ⟨p, hp, hcopy⟩ := h.copies a ha
  rw [← hcopy.serial]
  exact (List.getElem?_eq_some_iff.mp (h.numbered p hp)).1

/-- Nothing is taken for a purchase that is still to come. -/
theorem Inv.not_taken (h : Inv madeFor s) {n : ℕ} (hn : s.purchases.length ≤ n) (i : ℕ)
    (tx : String) : (tx, .pick n i) ∉ s.taken := by
  intro hmem
  obtain ⟨hmade, t, ht, htx⟩ := h.takenFor _ hmem
  obtain ⟨q, hq, href, -⟩ := h.made t ht _ (htx ▸ hmade)
  exact absurd (h.asked q hq n i href) (Nat.not_lt.mpr hn)

/-- What a transfer was made for has not been taken, unless the transfer has. -/
theorem Inv.fresh (h : Inv madeFor s) {tx : String} {r : Ref} (hmade : madeFor tx = some r)
    (hr : ∀ tx, (tx, r) ∉ s.taken) : tx ∉ s.taken.map Prod.fst := by
  intro hmem
  obtain ⟨x, hx, rfl⟩ := List.mem_map.mp hmem
  have hxr : x.2 = r := Option.some.inj ((h.takenFor x hx).1.symm.trans hmade)
  exact hr x.1 (hxr ▸ hx)

theorem nodup_append_singleton {α : Type*} {l : List α} {a : α} (h : l.Nodup) (ha : a ∉ l) :
    (l ++ [a]).Nodup :=
  List.nodup_append.mpr ⟨h, List.nodup_singleton a, fun b hb c hc => by
    rw [List.mem_singleton.mp hc]
    exact fun heq => ha (heq ▸ hb)⟩

theorem Verify.Holds.mono {s s' : State} {v : Verify} {p : Purchase} (h : v.Holds s p)
    (ht : s.taken ⊆ s'.taken)
    (ha : ∀ (obj : ℕ) (a : Accept), s.accepts[obj]? = some a → Copy a p →
      ∃ b, s'.accepts[obj]? = some b ∧ Copy b p) : v.Holds s' p := by
  rcases h with hpaid | ⟨obj, a, hobj, ha', hcopy, hchain⟩
  · refine Or.inl fun i hi => ?_
    obtain ⟨tx, htx⟩ := hpaid i hi
    exact ⟨tx, ht htx⟩
  · obtain ⟨b, hb, hcopy'⟩ := ha obj a ha' hcopy
    exact Or.inr ⟨obj, b, hobj, hb, hcopy', hchain⟩

/-! ### A pick is marked -/

section Mark

variable {a a' : Accept} {obj i : ℕ} {p : Pick} {tx : String}

/-- The objects after a pick is marked. -/
theorem getElem?_markPaid {j : ℕ} {b : Accept} (hobj : s.accepts[obj]? = some a)
    (hb : (s.markPaid a' obj i tx).accepts[j]? = some b) :
    j ≠ obj ∧ s.accepts[j]? = some b ∨
      j = obj ∧ b = { a with picks := a.picks.modify i (·.paidBy tx) } := by
  unfold State.markPaid at hb
  rw [List.getElem?_modify] at hb
  by_cases hj : obj = j
  · subst hj
    rw [hobj] at hb
    simp only [if_true, Option.map_eq_map, Option.map_some, Option.some.injEq] at hb
    exact Or.inr ⟨rfl, hb.symm⟩
  · simp only [if_neg hj, Option.map_eq_map, Option.map_id'] at hb
    exact Or.inl ⟨Ne.symm hj, hb⟩

theorem markPaid_getElem? (hobj : s.accepts[obj]? = some a) :
    (s.markPaid a' obj i tx).accepts[obj]? =
      some { a with picks := a.picks.modify i (·.paidBy tx) } := by
  unfold State.markPaid
  rw [List.getElem?_modify, hobj]
  simp

theorem markPaid_getElem?_of_ne {j : ℕ} (hj : j ≠ obj) :
    (s.markPaid a' obj i tx).accepts[j]? = s.accepts[j]? := by
  unfold State.markPaid
  rw [List.getElem?_modify]
  simp [Ne.symm hj]

/-- A pick of which nothing was taken is marked with a transfer that was made for it. -/
theorem Inv.markPaid (h : Inv madeFor s) (hobj : s.accepts[obj]? = some a)
    (hserial : a'.serial = a.serial) (hp : a.picks[i]? = some p) (hunpaid : p.paid_tx = none)
    (hmade : madeFor tx = some (.pick a.serial i)) (hchain : ∃ t ∈ s.chain, t.tx_hash = tx) :
    Inv madeFor (s.markPaid a' obj i tx) := by
  have hmem := List.mem_of_getElem? hobj
  have htaken : (s.markPaid a' obj i tx).taken = s.taken ++ [(tx, .pick a.serial i)] := by
    rw [← hserial]
    rfl
  have hfresh : ∀ tx', (tx', .pick a.serial i) ∉ s.taken := fun tx' htx' => by
    have hsome := (h.paid a hmem i p hp).mpr ⟨tx', htx'⟩
    rw [hunpaid] at hsome
    cases hsome
  have hsub : s.taken ⊆ (s.markPaid a' obj i tx).taken := htaken ▸ List.subset_append_left _ _
  have hcopy : ∀ (j : ℕ) (b : Accept) (q : Purchase), s.accepts[j]? = some b → Copy b q →
      ∃ d, (s.markPaid a' obj i tx).accepts[j]? = some d ∧ Copy d q := by
    intro j b q hb hq
    by_cases hj : j = obj
    · subst hj
      obtain rfl := Option.some.inj (hobj.symm.trans hb)
      exact ⟨_, markPaid_getElem? hobj, hq.modify i tx⟩
    · exact ⟨b, (markPaid_getElem?_of_ne hj).trans hb, hq⟩
  refine
    { h with
      copies := ?_, single := ?_, paid := ?_, takenFor := ?_, once := ?_, marked := ?_,
      verifies := fun v hv hwait q hq => (h.verifies v hv hwait q hq).mono hsub fun j b hb =>
        hcopy j b q hb }
  · intro b hb
    obtain ⟨j, hj⟩ := List.mem_iff_getElem?.mp hb
    rcases getElem?_markPaid hobj hj with ⟨-, hj⟩ | ⟨-, rfl⟩
    · exact h.copies b (List.mem_of_getElem? hj)
    · obtain ⟨q, hq, hqc⟩ := h.copies a hmem
      exact ⟨q, hq, hqc.modify i tx⟩
  · intro j k b d hb hd heq
    have hold : ∀ {j : ℕ} {b : Accept}, (s.markPaid a' obj i tx).accepts[j]? = some b →
        ∃ b' : Accept, s.accepts[j]? = some b' ∧ b'.serial = b.serial := by
      intro j b hb
      rcases getElem?_markPaid hobj hb with ⟨-, hb⟩ | ⟨rfl, rfl⟩
      · exact ⟨b, hb, rfl⟩
      · exact ⟨a, hobj, rfl⟩
    obtain ⟨b', hb', hbs⟩ := hold hb
    obtain ⟨d', hd', hds⟩ := hold hd
    exact h.single j k b' d' hb' hd' (hbs.trans (heq.trans hds.symm))
  · intro b hb k q hq
    rw [htaken]
    simp only [List.mem_append, List.mem_singleton, Prod.mk.injEq, Ref.pick.injEq]
    obtain ⟨j, hj⟩ := List.mem_iff_getElem?.mp hb
    rcases getElem?_markPaid hobj hj with ⟨hne, hj⟩ | ⟨rfl, rfl⟩
    · rw [h.paid b (List.mem_of_getElem? hj) k q hq]
      refine exists_congr fun tx' => ⟨Or.inl, ?_⟩
      rintro (hin | ⟨-, hs, -⟩)
      · exact hin
      · exact absurd (h.single j obj b a hj hobj hs) hne
    · rw [List.getElem?_modify] at hq
      by_cases hik : i = k
      · subst hik
        rw [hp] at hq
        simp only [if_true, Option.map_eq_map, Option.map_some, Option.some.injEq] at hq
        subst hq
        exact ⟨fun _ => ⟨tx, Or.inr ⟨rfl, rfl, rfl⟩⟩, fun _ => rfl⟩
      · simp only [if_neg hik, Option.map_eq_map, Option.map_id'] at hq
        rw [h.paid a hmem k q hq]
        refine exists_congr fun tx' => ⟨Or.inl, ?_⟩
        rintro (hin | ⟨-, -, hki⟩)
        · exact hin
        · exact absurd hki.symm hik
  · intro x hx
    rw [htaken] at hx
    rcases List.mem_append.mp hx with hx | hx
    · exact h.takenFor x hx
    · rw [List.mem_singleton.mp hx]
      exact ⟨hmade, hchain⟩
  · rw [htaken, List.map_append]
    exact nodup_append_singleton h.once (h.fresh hmade hfresh)
  · intro tx' id hx
    rw [htaken] at hx
    rcases List.mem_append.mp hx with hx | hx
    · exact h.marked tx' id hx
    · cases List.mem_singleton.mp hx

end Mark

/-! ### A scan -/

theorem mem_matched {a : Accept} {events : List Transfer} {i : ℕ} {t : Transfer} :
    (i, t) ∈ matched a events ↔ ∃ p, a.picks[i]? = some p ∧ p.paid_tx = none ∧
      events.find? (near p.take_usdt) = some t := by
  unfold matched
  rw [List.mem_filterMap]
  constructor
  · rintro ⟨⟨p, k⟩, hx, heq⟩
    dsimp only at heq
    split at heq
    · cases heq
    · next hunpaid =>
      obtain ⟨t', ht', hpair⟩ := Option.map_eq_some_iff.mp heq
      obtain ⟨rfl, rfl⟩ := Prod.mk.inj hpair
      exact ⟨p, List.mem_zipIdx_iff_getElem?.mp hx, Option.not_isSome_iff_eq_none.mp hunpaid, ht'⟩
  · rintro ⟨p, hp, hunpaid, ht⟩
    refine ⟨(p, i), List.mem_zipIdx_iff_getElem?.mpr hp, ?_⟩
    rw [hunpaid, ht]
    rfl

theorem matched_apart (a : Accept) (events : List Transfer) :
    (matched a events).Pairwise fun m n => m.1 ≠ n.1 := by
  have hidx : (a.picks.zipIdx.map Prod.snd).Nodup := by
    rw [List.zipIdx_map_snd]
    exact List.nodup_range' _
  unfold matched
  rw [List.pairwise_filterMap]
  rw [List.Nodup, List.pairwise_map] at hidx
  refine hidx.imp fun {x y} hxy m hm n hn => ?_
  split at hm
  · cases hm
  · split at hn
    · cases hn
    · obtain ⟨-, -, rfl⟩ := Option.map_eq_some_iff.mp hm
      obtain ⟨-, -, rfl⟩ := Option.map_eq_some_iff.mp hn
      exact hxy

theorem taken_markAll (a : Accept) (obj : ℕ) (ms : List (ℕ × Transfer)) :
    (s.markAll a obj ms).taken =
      s.taken ++ ms.map fun m => (m.2.tx_hash, .pick a.serial m.1) := by
  induction ms generalizing s with
  | nil => simp [State.markAll]
  | cons m ms ih =>
    show ((s.markPaid a obj m.1 m.2.tx_hash).markAll a obj ms).taken = _
    rw [ih]
    simp [State.markPaid]

/-- The matches of a scan are marked one after the other. -/
theorem Inv.markAll {a b : Accept} {obj : ℕ} {ms : List (ℕ × Transfer)} (h : Inv madeFor s)
    (hobj : s.accepts[obj]? = some b) (hserial : a.serial = b.serial)
    (hapart : ms.Pairwise fun m n => m.1 ≠ n.1)
    (hms : ∀ m ∈ ms, (∃ p, b.picks[m.1]? = some p ∧ p.paid_tx = none) ∧
      madeFor m.2.tx_hash = some (.pick b.serial m.1) ∧ m.2 ∈ s.chain) :
    Inv madeFor (s.markAll a obj ms) := by
  induction ms generalizing s b with
  | nil => exact h
  | cons m ms ih =>
    obtain ⟨hfirst, hrest⟩ := List.pairwise_cons.mp hapart
    obtain ⟨⟨p, hp, hunpaid⟩, hmade, hchain⟩ := hms m List.mem_cons_self
    refine ih (h.markPaid hobj hserial hp hunpaid hmade ⟨m.2, hchain, rfl⟩)
      (markPaid_getElem? hobj) hserial hrest fun n hn => ?_
    obtain ⟨⟨q, hq, hqu⟩, hmade', hchain'⟩ := hms n (List.mem_cons_of_mem _ hn)
    refine ⟨⟨q, ?_, hqu⟩, hmade', hchain'⟩
    dsimp only
    rw [List.getElem?_modify, hq]
    simp [hfirst n hn]

theorem Inv.forget (h : Inv madeFor s) (peer : String) : Inv madeFor (s.forget peer) := { h with }

theorem Inv.settle (h : Inv madeFor s) (peer : String) (obj : ℕ) :
    Inv madeFor (s.settle peer obj) := by
  unfold State.settle
  split
  · exact h.forget peer
  · exact h

theorem taken_settle (peer : String) (obj : ℕ) : (s.settle peer obj).taken = s.taken := by
  unfold State.settle
  split <;> rfl

/-- What a scan shows near an unpaid pick was made for it. -/
def Distinct (madeFor : String → Option Ref) (s : State) (v : Verify) : Prop :=
  ∀ obj a, v.accept = some obj → s.accepts[obj]? = some a → ∀ i p, a.picks[i]? = some p →
    p.paid_tx = none → ∀ t ∈ scanRecentTransfers s v.chain v.wallet, near p.take_usdt t = true →
      madeFor t.tx_hash = some (.pick a.serial i)

theorem Inv.scanned (h : Inv madeFor s) {v : Verify} (hdistinct : Distinct madeFor s v) :
    Inv madeFor (scanned s v) := by
  unfold Payments.scanned
  split
  · exact h
  · next obj a heq =>
    obtain ⟨obj', hobj', heq⟩ := Option.bind_eq_some_iff.mp heq
    obtain ⟨a', ha', hpair⟩ := Option.map_eq_some_iff.mp heq
    obtain ⟨rfl, rfl⟩ := Prod.mk.inj hpair
    split
    · dsimp only
      split
      · exact h
      · refine (h.markAll ha' rfl (matched_apart _ _) ?_).settle _ _
        rintro ⟨i, t⟩ hm
        obtain ⟨p, hp, hunpaid, hfind⟩ := mem_matched.mp hm
        have hscan := List.mem_of_find?_eq_some hfind
        exact ⟨⟨p, hp, hunpaid⟩, hdistinct obj' a' hobj' ha' i p hp hunpaid t hscan
          (List.find?_some hfind), (List.mem_filter.mp hscan).1⟩
    · exact h

theorem Inv.paidMessage (h : Inv madeFor s) {peer tx : String}
    (hfair : Fair w madeFor s (.paid peer tx)) : Inv madeFor (paidMessage s peer tx) := by
  unfold Payments.paidMessage
  split
  · exact h
  · next obj a heq =>
    obtain ⟨obj', hobj', heq⟩ := Option.bind_eq_some_iff.mp heq
    obtain ⟨a', ha', hpair⟩ := Option.map_eq_some_iff.mp heq
    obtain ⟨rfl, rfl⟩ := Prod.mk.inj hpair
    split
    · exact h.forget peer
    · split
      · exact h
      · next i hi =>
        obtain ⟨hmade, hchain⟩ := hfair obj' a' i hobj' ha' hi
        obtain ⟨hlt, hnone, -⟩ := List.findIdx?_eq_some_iff_getElem.mp hi
        exact (h.markPaid ha' rfl (List.getElem?_eq_getElem hlt)
          (Option.isNone_iff_eq_none.mp hnone) hmade hchain).settle _ _

/-! ### A purchase -/

theorem getElem?_append_singleton {α : Type*} {l : List α} {x y : α} {i : ℕ}
    (h : (l ++ [x])[i]? = some y) : l[i]? = some y ∨ i = l.length ∧ y = x := by
  rw [List.getElem?_append] at h
  split at h
  · exact Or.inl h
  · next hle =>
    have hi : i - l.length = 0 := by
      have hlt := (List.getElem?_eq_some_iff.mp h).1
      simpa using hlt
    rw [hi] at h
    exact Or.inr ⟨by omega, (Option.some.inj h).symm⟩

/-- An unpaid copy comes into memory, of a purchase that has no other and is not paid. -/
theorem Inv.remember (h : Inv madeFor s) {peer : String} {a : Accept} {p : Purchase}
    (hp : p ∈ s.purchases) (hcopy : Copy a p) (hunpaid : ∀ q ∈ a.picks, q.paid_tx = none)
    (halone : ∀ b ∈ s.accepts, b.serial ≠ a.serial)
    (hnone : ∀ i tx, (tx, .pick a.serial i) ∉ s.taken) : Inv madeFor (s.remember peer a) := by
  have hmem : ∀ {P : Accept → Prop}, (∀ b ∈ s.accepts, P b) → P a →
      ∀ b ∈ (s.remember peer a).accepts, P b := by
    intro P hP hPa b hb
    rcases List.mem_append.mp hb with hb | hb
    · exact hP b hb
    · exact List.mem_singleton.mp hb ▸ hPa
  refine
    { h with
      copies := hmem h.copies ⟨p, hp, hcopy⟩
      paid := hmem h.paid fun i q hq => ?_
      single := ?_
      verifies := fun v hv hwait q hq => (h.verifies v hv hwait q hq).mono (List.Subset.refl _)
        fun obj b hb hbq => ⟨b, (List.getElem?_append_left
          (List.getElem?_eq_some_iff.mp hb).1).trans hb, hbq⟩ }
  · intro j k b d hb hd heq
    rcases getElem?_append_singleton hb with hbold | ⟨rfl, rfl⟩ <;>
      rcases getElem?_append_singleton hd with hdold | ⟨rfl, hda⟩
    · exact h.single j k b d hbold hdold heq
    · exact absurd (heq.trans (congrArg Accept.serial hda)) (halone b (List.mem_of_getElem? hbold))
    · exact absurd heq.symm (halone d (List.mem_of_getElem? hdold))
    · rfl
  · rw [hunpaid q (List.mem_of_getElem? hq)]
    refine ⟨fun hsome => absurd hsome Bool.false_ne_true, ?_⟩
    rintro ⟨tx, htx⟩
    exact absurd htx (hnone i tx)

theorem mem_asks {p : Purchase} {since : ℕ} {q : Asked} (h : q ∈ p.asks since) :
    q.since = since ∧ ∀ n i, q.ref = .pick n i → n = p.serial := by
  obtain ⟨i, hi, rfl⟩ := List.mem_mapIdx.mp h
  exact ⟨rfl, fun n j heq => (Ref.pick.inj heq).1.symm⟩

/-- A purchase gets the next number. -/
theorem Inv.newPurchase (h : Inv madeFor s) {p : Purchase} (hp : p.serial = s.purchases.length) :
    Inv madeFor { s with purchases := s.purchases ++ [p], asked := s.asked ++ p.asks s.now } := by
  have hbigger : ∀ {a : Accept}, (∃ q ∈ s.purchases, Copy a q) →
      ∃ q ∈ s.purchases ++ [p], Copy a q := by
    rintro a ⟨q, hq, hcopy⟩
    exact ⟨q, List.mem_append_left _ hq, hcopy⟩
  refine
    { h with
      copies := fun a ha => hbigger (h.copies a ha)
      stored := fun r hr a ha => (h.stored r hr a ha).imp_left hbigger
      since := ?_, numbered := ?_, asked := ?_, made := ?_ }
  · intro q hq
    rcases List.mem_append.mp hq with hq | hq
    · exact h.since q hq
    · exact (mem_asks hq).1.le
  · intro q hq
    rcases List.mem_append.mp hq with hq | hq
    · have hget := h.numbered q hq
      exact (List.getElem?_append_left (List.getElem?_eq_some_iff.mp hget).1).trans hget
    · rw [List.mem_singleton.mp hq, hp]
      exact List.getElem?_concat_length ..
  · intro q hq n i href
    rw [List.length_append, List.length_singleton]
    rcases List.mem_append.mp hq with hq | hq
    · exact (h.asked q hq n i href).trans (Nat.lt_succ_self _)
    · rw [(mem_asks hq).2 n i href, hp]
      exact Nat.lt_succ_self _
  · intro t ht r hr
    obtain ⟨q, hq, hrest⟩ := h.made t ht r hr
    exact ⟨q, List.mem_append_left _ hq, hrest⟩

/-- The copy that a new purchase is remembered by. -/
def newAccept (s : State) (picks : List Pick) (pay_chain : String) : Accept :=
  ⟨s.purchases.length, picks.map fun p => { p with paid_tx := none }, pay_chain,
    s.now + PENDING_ACCEPT_TTL⟩

theorem newAccept_unpaid (s : State) (picks : List Pick) (pay_chain : String) :
    ∀ p ∈ (newAccept s picks pay_chain).picks, p.paid_tx = none := by
  intro p hp
  obtain ⟨q, -, rfl⟩ := List.mem_map.mp hp
  rfl

theorem copy_newAccept (s : State) (peer : String) (picks : List Pick) (pay_chain : String) :
    ∃ p ∈ (accepted s peer picks pay_chain).purchases, Copy (newAccept s picks pay_chain) p :=
  ⟨_, List.mem_append_right _ List.mem_cons_self, rfl, rfl, rfl, rfl⟩

theorem Inv.accepted (h : Inv madeFor s) (peer : String) (picks : List Pick) (pay_chain : String) :
    Inv madeFor (accepted s peer picks pay_chain) := by
  have hnew := h.newPurchase (p := ⟨s.purchases.length, peer, (newAccept s picks pay_chain).picks,
    pay_chain, s.now + PENDING_ACCEPT_TTL⟩) rfl
  exact hnew.remember (a := newAccept s picks pay_chain)
    (List.mem_append_right _ List.mem_cons_self) ⟨rfl, rfl, rfl, rfl⟩
    (newAccept_unpaid s picks pay_chain) (fun b hb => (h.serial_lt hb).ne) fun i tx => h.not_taken le_rfl i tx

theorem Inv.finalizeBuy (h : Inv madeFor s) (peer : String) (picks : List Pick)
    (pay_chain : String) : Inv madeFor (finalizeBuy s peer picks pay_chain) := by
  have hacc := h.accepted peer picks pay_chain
  unfold Payments.finalizeBuy
  split
  · exact h
  · have hlast : (Payments.accepted s peer picks pay_chain).accepts.getLast? =
        some (newAccept s picks pay_chain) := List.getLast?_concat ..
    refine { hacc with stored := fun r hr a ha => ?_ }
    obtain ⟨r', hr', rfl⟩ := List.mem_map.mp hr
    split at ha
    · obtain rfl := Option.some.inj (hlast.symm.trans ha)
      exact ⟨copy_newAccept s peer picks pay_chain, newAccept_unpaid s picks pay_chain⟩
    · exact hacc.stored r' hr' a ha

theorem Inv.cancel (h : Inv madeFor s) (peer : String) : Inv madeFor (cancel s peer) := by
  unfold Payments.cancel
  split
  · exact h
  · split
    · exact h.forget peer
    · split
      · exact h
      · exact { h with }

/-! ### A call -/

theorem exists_row {peer : String} {a : Accept} (h : storedPicks s peer = some a) :
    ∃ r ∈ s.rows, r.picks_json = some a := by
  obtain ⟨r, hr, hra⟩ := Option.bind_eq_some_iff.mp h
  have hmem := List.mem_mergeSort.mp (List.mem_of_head? hr)
  exact ⟨r, (List.mem_filter.mp hmem).1, hra⟩

theorem Inv.restored (h : Inv madeFor s) {peer : String}
    (hfair : s.pending peer = none → ∀ a, storedPicks s peer = some a →
      (∀ b ∈ s.accepts, b.serial ≠ a.serial) ∧ ∀ i tx, (tx, .pick a.serial i) ∉ s.taken) :
    Inv madeFor (s.restored peer) := by
  unfold State.restored
  split
  · exact h
  · next hpending =>
    split
    · exact h
    · next a ha =>
      obtain ⟨halone, hnone⟩ := hfair (Option.not_isSome_iff_eq_none.mp hpending) a ha
      obtain ⟨r, hr, hra⟩ := exists_row ha
      obtain ⟨⟨p, hp, hcopy⟩, hunpaid⟩ := h.stored r hr a hra
      exact h.remember hp hcopy hunpaid halone hnone

theorem restored_taken (peer : String) : (s.restored peer).taken = s.taken := by
  unfold State.restored
  split
  · rfl
  · split <;> rfl

theorem restored_purchases (peer : String) : (s.restored peer).purchases = s.purchases := by
  unfold State.restored
  split
  · rfl
  · split <;> rfl

/-- What is found is in memory by then. -/
theorem pending_restored {peer : String} {a : Accept} (h : found s peer = some a) :
    ∃ i, (s.restored peer).pending peer = some i ∧ (s.restored peer).accepts[i]? = some a := by
  unfold found at h
  unfold State.restored
  cases hpending : s.pending peer with
  | some i =>
    rw [hpending] at h
    exact ⟨i, hpending, h⟩
  | none =>
    rw [hpending] at h
    dsimp only at h
    rw [h]
    refine ⟨s.accepts.length, ?_, List.getElem?_concat_length ..⟩
    simp [State.remember, State.pending]

theorem Inv.addVerify (h : Inv madeFor s) {v : Verify} (hv : ∀ p ∈ v.live, v.Holds s p) :
    Inv madeFor { s with verifies := s.verifies ++ [v] } :=
  { h with
    verifies := fun v' hv' hwait p hp => by
      rcases List.mem_append.mp hv' with hv' | hv'
      · exact h.verifies v' hv' hwait p hp
      · rw [List.mem_singleton.mp hv'] at hp ⊢
        exact hv p hp }

theorem scannable_subset : scannable ⊆ EVM_RPC := by decide

/-- A call looks for whatever its buyer has open, and has not paid. -/
theorem Inv.verifyPaymentForPeer (h : Inv madeFor s) {peer : String} {chain : Option String}
    (hfair : Fair w madeFor s (.verify peer chain)) :
    Inv madeFor (verifyPaymentForPeer w s peer chain) := by
  obtain ⟨hfound, hrestore⟩ := hfair
  have hres := h.restored hrestore
  -- a purchase that is open is paid, or found
  have hopen : ∀ p ∈ openOf s peer, Paid s p ∨ ∃ a i, (s.restored peer).pending peer = some i ∧
      (s.restored peer).accepts[i]? = some a ∧ Copy a p ∧ s.now < a.expires_at ∧
      chain.getD a.pay_chain = p.pay_chain ∧ p.pay_chain ∈ scannable ∧ (w p.pay_chain).isSome := by
    intro p hp
    by_cases hpaid : Paid s p
    · exact Or.inl hpaid
    · have hunpaid : Unpaid s p := by
        unfold Paid at hpaid
        push Not at hpaid
        exact hpaid
      obtain ⟨a, ha, hserial, hchain, hscan, hwallet⟩ := hfound p hp hunpaid
      obtain ⟨i, hi, hai⟩ := pending_restored ha
      obtain ⟨hmem, -, hlive, -⟩ : p ∈ s.purchases ∧ p.peer = peer ∧ s.now < p.expires_at ∧
          p.serial ∉ s.cancelled := by
        obtain ⟨hmem, hcond⟩ := List.mem_filter.mp hp
        exact ⟨hmem, of_decide_eq_true hcond⟩
      obtain ⟨q, hq, hcopy⟩ := hres.copies a (List.mem_of_getElem? hai)
      rw [restored_purchases] at hq
      obtain rfl := h.eq_of_serial hq hmem (hcopy.serial.trans hserial)
      exact Or.inr ⟨a, i, hi, hai, hcopy, hcopy.expires_at ▸ hlive, hchain, hscan, hwallet⟩
  have hpaidOf : ∀ {v : Verify} {s' : State}, s'.taken = s.taken → ∀ p, Paid s p →
      v.Holds s' p := by
    intro v s' heq p hp
    exact Or.inl fun i hi => heq ▸ hp i hi
  -- where nothing is looked for, all that is open is paid
  have hidle : (∀ a i, (s.restored peer).pending peer = some i →
      (s.restored peer).accepts[i]? = some a → ∀ p, Copy a p → s.now < a.expires_at →
      chain.getD a.pay_chain = p.pay_chain → p.pay_chain ∈ scannable →
      (w p.pay_chain).isSome → False) →
      ∀ p ∈ openOf s peer, Verify.Holds (s.restored peer)
        ⟨peer, true, none, "", "", openOf s peer⟩ p := by
    intro hno p hp
    rcases hopen p hp with hpaid | ⟨a, i, hi, hai, hcopy, hlive, hchain, hscan, hwallet⟩
    · exact hpaidOf (restored_taken peer) p hpaid
    · exact (hno a i hi hai p hcopy hlive hchain hscan hwallet).elim
  unfold Payments.verifyPaymentForPeer
  dsimp only
  split
  · next hnone =>
    exact hres.addVerify (hidle fun a i hi => by rw [hnone] at hi; cases hi)
  · next i hi =>
    split
    · next hnone =>
      refine hres.addVerify (hidle fun a j hj haj => ?_)
      rw [hi] at hj
      obtain rfl := Option.some.inj hj
      rw [hnone] at haj
      cases haj
    · next a ha =>
      have hsame : ∀ b j, (s.restored peer).pending peer = some j →
          (s.restored peer).accepts[j]? = some b → b = a ∧ j = i := by
        intro b j hj hb
        rw [hi] at hj
        obtain rfl := Option.some.inj hj
        exact ⟨Option.some.inj (hb.symm.trans ha), rfl⟩
      split
      · next hexpired =>
        refine (hres.forget peer).addVerify (hidle fun b j hj hb p hcopy hlive => ?_)
        obtain ⟨rfl, -⟩ := hsame b j hj hb
        exact absurd hlive (Nat.not_lt.mpr hexpired)
      · split
        · next hevm =>
          split
          · next hnone =>
            refine hres.addVerify (hidle fun b j hj hb p hcopy _ hchain _ hwallet => ?_)
            obtain ⟨rfl, -⟩ := hsame b j hj hb
            rw [← hchain, hnone] at hwallet
            cases hwallet
          · next wallet hw =>
            refine hres.addVerify fun p hp => ?_
            rcases hopen p hp with hpaid | ⟨b, j, hj, hb, hcopy, -, hchain, hscan, -⟩
            · exact hpaidOf (restored_taken peer) p hpaid
            · obtain ⟨rfl, rfl⟩ := hsame b j hj hb
              exact Or.inr ⟨j, b, rfl, hb, hcopy, hchain ▸ hscan⟩
        · next hevm =>
          refine hres.addVerify (hidle fun b j hj hb p hcopy _ hchain hscan _ => ?_)
          obtain ⟨rfl, -⟩ := hsame b j hj hb
          exact hevm (scannable_subset (hchain ▸ hscan))

/-! ### The watcher of the orders -/

theorem mem_chain_of_scan {chain recipient : String} {t : Transfer}
    (h : t ∈ scanRecentTransfers s chain recipient) : t ∈ s.chain :=
  (List.mem_filter.mp h).1

theorem Inv.tick (h : Inv madeFor s) : Inv madeFor (tick w s) := by
  unfold Payments.tick
  split
  · exact h
  · next wallet hw =>
    refine { h with marked := ?_, current := ?_, events := ?_ }
    · intro tx id hx
      refine (h.marked tx id hx).imp_right ?_
      rintro ⟨t, ht, hc⟩
      exact ⟨t, List.mem_append_left _ ht, hc⟩
    · intro t ht c hc
      rcases List.mem_append.mp ht with ht | ht
      · exact h.current t ht c hc
      · rw [List.mem_singleton.mp ht] at hc
        cases hc
    · intro t ht e he
      rcases List.mem_append.mp ht with ht | ht
      · exact h.events t ht e he
      · rw [List.mem_singleton.mp ht] at he
        exact mem_chain_of_scan he

theorem mem_setTick {k : ℕ} {t u v : Tick} (hk : s.ticks[k]? = some t) (hv : v ∈ s.ticks) :
    v = t ∨ v ∈ (s.setTick k u).ticks := by
  obtain ⟨i, hi⟩ := List.mem_iff_getElem?.mp hv
  by_cases hik : k = i
  · subst hik
    exact Or.inl (Option.some.inj (hi.symm.trans hk))
  · exact Or.inr (List.mem_iff_getElem?.mpr ⟨i, (List.getElem?_set_ne hik).trans hi⟩)

/-- What a tick was publishing it publishes still, or has marked. -/
theorem Inv.setTick (h : Inv madeFor s) {k : ℕ} {t u : Tick} (hk : s.ticks[k]? = some t)
    (hcurrent : ∀ c, u.current = some c → madeFor c.2.tx_hash = some (.order c.1.id))
    (hevents : ∀ e ∈ u.events, e ∈ s.chain)
    (hkept : ∀ c, t.current = some c → ∃ m ∈ s.markers, m.src_event_id = c.2.tx_hash) :
    Inv madeFor (s.setTick k u) := by
  refine { h with marked := ?_, current := ?_, events := ?_ }
  · intro tx id hx
    rcases h.marked tx id hx with hmark | ⟨v, hv, c, hc, rfl⟩
    · exact Or.inl hmark
    · rcases mem_setTick (u := u) hk hv with rfl | hv
      · exact Or.inl (hkept c hc)
      · exact Or.inr ⟨v, hv, c, hc, rfl⟩
  · intro v hv
    rcases List.mem_or_eq_of_mem_set hv with hv | rfl
    · exact h.current v hv
    · exact hcurrent
  · intro v hv
    rcases List.mem_or_eq_of_mem_set hv with hv | rfl
    · exact h.events v hv
    · exact hevents

/-- A transfer that was made for an order is taken for it. -/
theorem Inv.takeOrder (h : Inv madeFor s) {tx id : String} (hmade : madeFor tx = some (.order id))
    (hchain : ∃ t ∈ s.chain, t.tx_hash = tx) (hfresh : tx ∉ s.taken.map Prod.fst)
    (hmark : ∃ t ∈ s.ticks, ∃ c, t.current = some c ∧ c.2.tx_hash = tx) :
    Inv madeFor { s with taken := s.taken ++ [(tx, .order id)] } := by
  refine
    { h with
      paid := fun a ha i p hp => (h.paid a ha i p hp).trans (exists_congr fun tx' => ?_)
      takenFor := ?_, once := ?_, marked := ?_
      verifies := fun v hv hwait p hp => (h.verifies v hv hwait p hp).mono
        (List.subset_append_left _ _) fun obj a ha hcopy => ⟨a, ha, hcopy⟩ }
  · simp
  · intro x hx
    rcases List.mem_append.mp hx with hx | hx
    · exact h.takenFor x hx
    · rw [List.mem_singleton.mp hx]
      exact ⟨hmade, hchain⟩
  · rw [List.map_append]
    exact nodup_append_singleton h.once hfresh
  · intro tx' id' hx
    rcases List.mem_append.mp hx with hx | hx
    · exact h.marked tx' id' hx
    · obtain ⟨rfl, -⟩ := Prod.mk.inj (List.mem_singleton.mp hx)
      exact Or.inr hmark

theorem Inv.turn (h : Inv madeFor s) {k : ℕ} (hfair : Fair w madeFor s (.turn k)) :
    Inv madeFor (turn s k) := by
  unfold Payments.turn
  split
  · exact h
  · next t hk =>
    have hevents := h.events t (List.mem_of_getElem? hk)
    split
    · next o rest horders hnone =>
      obtain ⟨hmade, hapart⟩ := hfair t o rest hk horders
      have hkept : ∀ c, t.current = some c → ∃ m ∈ s.markers, m.src_event_id = c.2.tx_hash := by
        intro c hc
        rw [hnone] at hc
        cases hc
      have hpass := h.setTick (u := { t with orders := rest }) hk
        (h.current t (List.mem_of_getElem? hk)) hevents hkept
      split
      · exact hpass
      · next tx hfind =>
        have hmem := List.mem_of_find?_eq_some hfind
        have hfor := hmade tx hmem (List.find?_some hfind)
        split
        · exact hpass
        · next hmarker =>
          refine (h.setTick (u := { t with orders := rest, current := some (o, tx) }) hk ?_ hevents
            hkept).takeOrder hfor ⟨tx, hevents tx hmem, rfl⟩ ?_ ?_
          · intro c hc
            obtain rfl := Option.some.inj hc
            exact hfor
          · -- a transfer that has been taken has a marker, or another tick at this order
            intro htaken
            obtain ⟨⟨tx', r⟩, hx, htx⟩ := List.mem_map.mp htaken
            dsimp only at htx
            subst htx
            obtain rfl : r = .order o.id := Option.some.inj ((h.takenFor _ hx).1.symm.trans hfor)
            rcases h.marked _ _ hx with ⟨m, hm, hsrc⟩ | ⟨u, hu, c, hc, hctx⟩
            · exact hmarker (List.any_eq_true.mpr ⟨m, hm, decide_eq_true hsrc⟩)
            · have hcfor := h.current u hu c hc
              rw [hctx, hfor] at hcfor
              exact hapart u hu c hc (Ref.order.inj (Option.some.inj hcfor)).symm
          · exact ⟨{ t with orders := rest, current := some (o, tx) },
              List.mem_iff_getElem?.mpr ⟨k, List.getElem?_set_self
                (List.getElem?_eq_some_iff.mp hk).1⟩, (o, tx), rfl, rfl⟩
    · exact h

theorem Inv.settled (h : Inv madeFor s) {k : ℕ} {ok : Bool}
    (hfair : Fair w madeFor s (.settled k ok)) : Inv madeFor (settled s k ok) := by
  unfold Payments.settled
  split
  · exact h
  · next t hk =>
    split
    · exact h
    · next o tx hc =>
      dsimp only
      rw [if_pos (hfair t (o, tx) hk hc)]
      have hmarked : Inv madeFor
          { s with markers := s.markers ++ [⟨markerId tx.tx_hash, tx.tx_hash⟩] } := by
        refine { h with marked := fun tx' id hx => (h.marked tx' id hx).imp_left ?_ }
        rintro ⟨m, hm, hsrc⟩
        exact ⟨m, List.mem_append_left _ hm, hsrc⟩
      refine hmarked.setTick (u := { t with current := none }) hk (fun c hc => by cases hc)
        (h.events t (List.mem_of_getElem? hk)) fun c hc' => ?_
      obtain rfl := Option.some.inj (hc.symm.trans hc')
      exact ⟨_, List.mem_append_right _ List.mem_cons_self, rfl⟩

/-! ### The other steps -/

theorem inv_init : Inv madeFor init where
  since _ h := absurd h List.not_mem_nil
  numbered _ h := absurd h List.not_mem_nil
  asked _ h := absurd h List.not_mem_nil
  copies _ h := absurd h List.not_mem_nil
  stored _ h := absurd h List.not_mem_nil
  single i j a b h := by cases h
  paid _ h := absurd h List.not_mem_nil
  made _ h := absurd h List.not_mem_nil
  takenFor _ h := absurd h List.not_mem_nil
  once := List.nodup_nil
  marked _ _ h := absurd h List.not_mem_nil
  current _ h := absurd h List.not_mem_nil
  events _ h := absurd h List.not_mem_nil
  verifies _ h := absurd h List.not_mem_nil

theorem Inv.proposed (h : Inv madeFor s) (id : String) (qty price : ℚ) (expires_at : ℕ) :
    Inv madeFor (proposed w s id qty price expires_at) := by
  unfold Payments.proposed
  split
  · exact h
  · split
    · exact h
    · refine { h with since := ?_, asked := ?_, made := ?_ }
      · intro q hq
        rcases List.mem_append.mp hq with hq | hq
        · exact h.since q hq
        · rw [List.mem_singleton.mp hq]
      · intro q hq n i href
        rcases List.mem_append.mp hq with hq | hq
        · exact h.asked q hq n i href
        · rw [List.mem_singleton.mp hq] at href
          cases href
      · intro t ht r hr
        obtain ⟨q, hq, hrest⟩ := h.made t ht r hr
        exact ⟨q, List.mem_append_left _ hq, hrest⟩

theorem Inv.transfer (h : Inv madeFor s) {tx chain recipient : String} {amount : ℚ}
    (hmade : Made madeFor s (.transfer tx chain recipient amount)) :
    Inv madeFor (step w s (.transfer tx chain recipient amount)) := by
  refine { h with made := ?_, takenFor := ?_, events := ?_ }
  · intro t ht r hr
    rcases List.mem_append.mp ht with ht | ht
    · exact h.made t ht r hr
    · rw [List.mem_singleton.mp ht] at hr ⊢
      obtain ⟨q, hq, href, hchain, haddress⟩ := hmade r hr
      exact ⟨q, hq, href, h.since q hq, hchain, haddress⟩
  · intro x hx
    obtain ⟨hfor, t, ht, htx⟩ := h.takenFor x hx
    exact ⟨hfor, t, List.mem_append_left _ ht, htx⟩
  · exact fun t ht e he => List.mem_append_left _ (h.events t ht e he)

theorem Inv.advance (h : Inv madeFor s) (i : ℕ) : Inv madeFor (step w s (.advance i)) := by
  refine { h with stored := fun r hr a ha => ?_ }
  obtain ⟨j, hj⟩ := List.mem_iff_getElem?.mp hr
  unfold Payments.step at hj
  dsimp only at hj
  rw [List.getElem?_modify] at hj
  obtain ⟨r', hr', rfl⟩ := Option.map_eq_some_iff.mp hj
  refine h.stored r' (List.mem_of_getElem? hr') a ?_
  split at ha <;> exact ha

theorem Inv.draft (h : Inv madeFor s) (peer : String) : Inv madeFor (step w s (.draft peer)) := by
  refine { h with stored := fun r hr a ha => ?_ }
  rcases List.mem_append.mp hr with hr | hr
  · exact h.stored r hr a ha
  · rw [List.mem_singleton.mp hr] at ha
    cases ha

/-- A call waits no longer. -/
theorem Inv.setVerify (h : Inv madeFor s) (j : ℕ) (v : Verify) :
    Inv madeFor { s with verifies := s.verifies.set j { v with waiting := false } } := by
  refine { h with verifies := fun u hu hwait p hp => ?_ }
  rcases List.mem_or_eq_of_mem_set hu with hu | rfl
  · exact h.verifies u hu hwait p hp
  · cases hwait

theorem Inv.step {e : Event} (h : Inv madeFor s) (hmade : Made madeFor s e)
    (hfair : Fair w madeFor s e) : Inv madeFor (step w s e) := by
  cases e with
  | draft peer => exact h.draft peer
  | advance i => exact h.advance i
  | confirm peer picks pay_chain => exact h.accepted peer picks pay_chain
  | finalize peer picks pay_chain => exact h.finalizeBuy peer picks pay_chain
  | cancel peer => exact h.cancel peer
  | propose id qty price expires_at => exact h.proposed id qty price expires_at
  | close id => exact { h with }
  | transfer tx chain recipient amount => exact h.transfer hmade
  | wait seconds =>
    exact { h with since := fun q hq => (h.since q hq).trans (Nat.le_add_right _ _) }
  | block chain => exact { h with }
  | verify peer chain => exact h.verifyPaymentForPeer hfair
  | scanned j ok =>
    unfold Payments.step
    dsimp only
    split
    · exact h
    · next v hv =>
      have hset := h.setVerify j v
      split
      · next hok =>
        obtain ⟨-, rfl⟩ := hok
        exact hset.scanned fun obj a hobj ha i p hp hunpaid =>
          (hfair v hv obj a hobj ha i p hp hunpaid).1
      · exact hset
  | paid peer tx => exact h.paidMessage hfair
  | tick ok =>
    unfold Payments.step
    dsimp only
    split
    · exact h.tick
    · exact h
  | turn k => exact h.turn hfair
  | settled k ok => exact h.settled hfair
  | restart =>
    refine
      { h with
        copies := fun _ ha => absurd ha List.not_mem_nil
        single := fun i j a b ha => by cases ha
        paid := fun _ ha => absurd ha List.not_mem_nil
        marked := fun tx id hx => ?_
        current := fun _ ht => absurd ht List.not_mem_nil
        events := fun _ ht => absurd ht List.not_mem_nil
        verifies := fun _ hv => absurd hv List.not_mem_nil }
    rcases h.marked tx id hx with hmark | ⟨t, ht, c, hc, -⟩
    · exact Or.inl hmark
    · rw [hfair t ht] at hc
      cases hc

/-! ### A scan comes back -/

theorem near_of_exact {t : Transfer} {expected : ℚ} (h : t.amount = expected)
    (hne : t.amount ≠ 0) : near expected t = true := by
  subst h
  refine decide_eq_true ⟨hne, ?_⟩
  rw [sub_self, abs_zero, zero_div]
  norm_num

theorem subset_taken_scanned (v : Verify) : s.taken ⊆ (scanned s v).taken := by
  unfold scanned
  split
  · exact List.Subset.refl _
  · split
    · dsimp only
      split
      · exact List.Subset.refl _
      · rw [taken_settle, taken_markAll]
        exact List.subset_append_left _ _
    · exact List.Subset.refl _

/-- What a scan shows near an unpaid pick is taken for it. -/
theorem taken_scanned {v : Verify} {obj i : ℕ} {a : Accept} {p : Pick} {t : Transfer}
    (hobj : v.accept = some obj) (ha : s.accepts[obj]? = some a) (hchain : v.chain ∈ scannable)
    (hp : a.picks[i]? = some p) (hunpaid : p.paid_tx = none)
    (ht : t ∈ scanRecentTransfers s v.chain v.wallet) (hnear : near p.take_usdt t = true) :
    ∃ t' ∈ scanRecentTransfers s v.chain v.wallet, near p.take_usdt t' = true ∧
      (t'.tx_hash, .pick a.serial i) ∈ (scanned s v).taken := by
  obtain ⟨t', hfind⟩ := Option.isSome_iff_exists.mp
    (List.find?_isSome.mpr ⟨t, ht, hnear⟩)
  have hmatched := mem_matched.mpr ⟨p, hp, hunpaid, hfind⟩
  refine ⟨t', List.mem_of_find?_eq_some hfind, List.find?_some hfind, ?_⟩
  have hheld : (v.accept.bind fun i => (s.accepts[i]?).map fun a => (i, a)) = some (obj, a) := by
    rw [hobj, Option.bind_some, ha]
    rfl
  unfold scanned
  rw [hheld]
  dsimp only
  rw [if_pos hchain, if_neg (List.ne_nil_of_mem hmatched), taken_settle, taken_markAll]
  exact List.mem_append_right _ (List.mem_map_of_mem hmatched)

theorem Inv.complete (h : Inv madeFor s) {j : ℕ} (hfair : Fair w madeFor s (.scanned j true))
    {v : Verify} (hv : s.verifies[j]? = some v) (hwait : v.waiting = true) {p : Purchase}
    (hp : p ∈ v.live) {i : ℕ} {pick : Pick} (hpick : p.picks[i]? = some pick) {t : Transfer}
    (ht : t ∈ s.chain) (hmade : madeFor t.tx_hash = some (.pick p.serial i))
    (hamount : t.amount = pick.take_usdt) (hrecent : recent s t = true) :
    ∃ tx, madeFor tx = some (.pick p.serial i) ∧
      (tx, .pick p.serial i) ∈ (Payments.step w s (.scanned j true)).taken := by
  have hstep : Payments.step w s (.scanned j true) =
      Payments.scanned { s with verifies := s.verifies.set j { v with waiting := false } } v := by
    unfold Payments.step
    dsimp only
    rw [hv]
    exact if_pos ⟨hwait, rfl⟩
  rw [hstep]
  have hold : ∀ tx, (tx, .pick p.serial i) ∈ s.taken → ∃ tx, madeFor tx = some (.pick p.serial i) ∧
      (tx, .pick p.serial i) ∈ (Payments.scanned
        { s with verifies := s.verifies.set j { v with waiting := false } } v).taken :=
    fun tx htx => ⟨tx, (h.takenFor _ htx).1, subset_taken_scanned v htx⟩
  rcases h.verifies v (List.mem_of_getElem? hv) hwait p hp with hpaid |
    ⟨obj, a, hobj, ha, hcopy, hchain⟩
  · obtain ⟨tx, htx⟩ := hpaid i (List.getElem?_eq_some_iff.mp hpick).1
    exact hold tx htx
  · obtain ⟨q, hq, htake⟩ := hcopy.take hpick
    rw [hcopy.serial] at hmade hold ⊢
    cases hsome : q.paid_tx with
    | some tx =>
      obtain ⟨tx', htx'⟩ := (h.paid a (List.mem_of_getElem? ha) i q hq).mp
        (Option.isSome_iff_exists.mpr ⟨tx, hsome⟩)
      exact hold tx' htx'
    | none =>
      obtain ⟨hdistinct, hhere⟩ := hfair v hv obj a hobj ha i q hq hsome
      obtain ⟨hwallet, hon, hne⟩ := hhere t ht hmade
      have hscan : t ∈ scanRecentTransfers s v.chain v.wallet :=
        List.mem_filter.mpr ⟨ht, decide_eq_true ⟨hon, hwallet, hrecent⟩⟩
      obtain ⟨t', ht', hnear', htaken⟩ := taken_scanned
        (s := { s with verifies := s.verifies.set j { v with waiting := false } })
        hobj ha hchain hq hsome hscan (near_of_exact (hamount.trans htake.symm) hne)
      exact ⟨t'.tx_hash, hdistinct t' ht' hnear', htaken⟩

/-! ### Runs -/

theorem inv_run {es : List Event} (hmade : Along (Made madeFor) (step w) init es)
    (hfair : Along (Fair w madeFor) (step w) init es) : Inv madeFor (run w es) :=
  (hmade.and hfair).invariant (I := fun _ => Inv madeFor) inv_init
    fun _ _ h hfair => h.step hfair.1 hfair.2

/-- **A payment is taken once, for the purchase it was made for**, where what a scan shows near an
amount was made for it. -/
theorem payments_run {es : List Event} (hmade : Along (Made madeFor) (step w) init es)
    (hfair : Along (Fair w madeFor) (step w) init es) : Safe w madeFor es where
  once := (inv_run hmade hfair).once
  own := by
    have h := inv_run hmade hfair
    intro x hx
    obtain ⟨hfor, t, ht, htx⟩ := h.takenFor x hx
    exact ⟨t, ht, htx, h.made t ht x.2 (htx ▸ hfor)⟩
  complete := by
    rintro pre j post rfl v hv hwait p hp i pick hpick t ht hfor hamount hrecent
    have hpre : pre <+: pre ++ .scanned j true :: post := List.prefix_append _ _
    exact (inv_run (hmade.initial hpre) (hfair.initial hpre)).complete
      (hfair pre _ post rfl) hv hwait hp hpick ht hfor hamount hrecent

section Sample

def sampleWallets : Wallets := fun chain => if chain = "bnb" then some "0xbroker" else none

def samplePick (id : String) (take_usdt : ℚ) (maker_addr : String) : Pick :=
  ⟨id, take_usdt, maker_addr, none⟩

def annsPicks : List Pick := [samplePick "o1" 10 "0xbroker", samplePick "o2" 20 "0xbroker"]

/-- Two picks, and a transfer for each. -/
def paidForEach : List Event :=
  [.confirm "ann" annsPicks "bnb", .transfer "0xb" "bnb" "0xbroker" 20,
    .transfer "0xa" "bnb" "0xbroker" 10, .verify "ann" none, .scanned 0 true]

def paidForEachFor : String → Option Ref := fun tx =>
  if tx = "0xa" then some (.pick 0 0) else if tx = "0xb" then some (.pick 0 1) else none

theorem paidForEach_made :
    Along (Made paidForEachFor) (step sampleWallets) init paidForEach := by
  refine .cons trivial (.cons (fun r hr => ?_) (.cons (fun r hr => ?_)
    (.cons trivial (.cons trivial .nil))))
  · obtain rfl : Ref.pick 0 1 = r := Option.some.inj hr
    exact ⟨⟨.pick 0 1, "bnb", "0xbroker", 0⟩, by decide +kernel, rfl, rfl, rfl⟩
  · obtain rfl : Ref.pick 0 0 = r := Option.some.inj hr
    exact ⟨⟨.pick 0 0, "bnb", "0xbroker", 0⟩, by decide +kernel, rfl, rfl, rfl⟩

theorem paidForEach_fair :
    Along (Fair sampleWallets paidForEachFor) (step sampleWallets) init paidForEach := by
  refine .cons trivial (.cons trivial (.cons trivial (.cons ⟨fun p hp _ => ?_, fun hnone => ?_⟩
    (.cons (fun v hv obj a hobj ha i p hi _ => ?_) .nil))))
  · have hopen : openOf (run sampleWallets (paidForEach.take 3)) "ann" =
        [⟨0, "ann", annsPicks, "bnb", PENDING_ACCEPT_TTL⟩] := by decide +kernel
    obtain rfl := List.mem_singleton.mp ((congrArg (p ∈ ·) hopen).mp hp)
    exact ⟨⟨0, annsPicks, "bnb", PENDING_ACCEPT_TTL⟩, by decide +kernel, rfl, rfl,
      by decide +kernel, by decide +kernel⟩
  · exact absurd hnone (by decide +kernel)
  · have hv' : (run sampleWallets (paidForEach.take 4)).verifies[0]? = some
        ⟨"ann", true, some 0, "bnb", "0xbroker",
          [⟨0, "ann", annsPicks, "bnb", PENDING_ACCEPT_TTL⟩]⟩ := by decide +kernel
    obtain rfl := Option.some.inj (hv'.symm.trans hv)
    obtain rfl : 0 = obj := Option.some.inj hobj
    have ha' : (run sampleWallets (paidForEach.take 4)).accepts[0]? = some
        ⟨0, annsPicks, "bnb", PENDING_ACCEPT_TTL⟩ := by decide +kernel
    obtain rfl := Option.some.inj (ha'.symm.trans ha)
    have hall : ∀ x ∈ annsPicks.zipIdx, ∀ t ∈ (run sampleWallets (paidForEach.take 4)).chain,
        (near x.1.take_usdt t = true → paidForEachFor t.tx_hash = some (.pick 0 x.2)) ∧
        (paidForEachFor t.tx_hash = some (.pick 0 x.2) →
          t.recipient = "0xbroker" ∧ t.chain = "bnb" ∧ t.amount ≠ 0) := by decide +kernel
    have hpick := hall (p, i) (List.mem_zipIdx_iff_getElem?.mpr hi)
    exact ⟨fun t ht => (hpick t (List.mem_filter.mp ht).1).1, fun t ht => (hpick t ht).2⟩

theorem paidForEach_safe : Safe sampleWallets paidForEachFor paidForEach :=
  payments_run paidForEach_made paidForEach_fair

/-- Two buyers with one amount, and one transfer, of the first of them. -/
def oneForBoth : List Event :=
  [.confirm "ann" [samplePick "o1" 10 "0xbroker"] "bnb",
    .confirm "bob" [samplePick "o2" 10 "0xbroker"] "bnb",
    .transfer "0xa" "bnb" "0xbroker" 10, .verify "bob" none, .scanned 0 true,
    .verify "ann" none, .scanned 1 true]

/-- A pick of another maker, who is paid exactly. -/
def paidToMaker : List Event :=
  [.confirm "ann" [samplePick "o1" 10 "0xmaker"] "bnb", .transfer "0xa" "bnb" "0xmaker" 10,
    .verify "ann" none, .scanned 0 true]

def madeByAnn : String → Option Ref := fun tx => if tx = "0xa" then some (.pick 0 0) else none

/-- One transfer pays two buyers, and what is paid to a maker is never seen. -/
theorem taken_twice_or_never :
    (Along (Made madeByAnn) (step sampleWallets) init oneForBoth ∧
      ¬ Safe sampleWallets madeByAnn oneForBoth) ∧
    Along (Made madeByAnn) (step sampleWallets) init paidToMaker ∧
      ¬ Safe sampleWallets madeByAnn paidToMaker := by
  refine ⟨⟨.cons trivial (.cons trivial (.cons (fun r hr => ?_) (.cons trivial (.cons trivial
    (.cons trivial (.cons trivial .nil)))))), fun h => absurd h.once (by decide +kernel)⟩,
    .cons trivial (.cons (fun r hr => ?_) (.cons trivial (.cons trivial .nil))), fun h => ?_⟩
  · obtain rfl : Ref.pick 0 0 = r := Option.some.inj hr
    exact ⟨⟨.pick 0 0, "bnb", "0xbroker", 0⟩, by decide +kernel, rfl, rfl, rfl⟩
  · obtain rfl : Ref.pick 0 0 = r := Option.some.inj hr
    exact ⟨⟨.pick 0 0, "bnb", "0xmaker", 0⟩, by decide +kernel, rfl, rfl, rfl⟩
  · obtain ⟨tx, -, htx⟩ := h.complete (paidToMaker.take 3) 0 [] rfl
      ⟨"ann", true, some 0, "bnb", "0xbroker",
        [⟨0, "ann", [samplePick "o1" 10 "0xmaker"], "bnb", PENDING_ACCEPT_TTL⟩]⟩
      (by decide +kernel) rfl _ List.mem_cons_self 0 (samplePick "o1" 10 "0xmaker") rfl
      ⟨"0xa", "bnb", "0xmaker", 10, 0, 0⟩ (by decide +kernel) rfl rfl (by decide +kernel)
    have hnone : (step sampleWallets (run sampleWallets (paidToMaker.take 3))
        (.scanned 0 true)).taken = [] := by decide +kernel
    exact absurd (hnone ▸ htx) List.not_mem_nil

end Sample

end KANet.Broker.Payments
