import KANet.Relay.Wallet

/-!
# What the wallet spends

* `Safe` — no transaction spends what another has spent, and a call pays once.
* `Env` — what is given: the node lists what was spent for less than a minute, and nothing spends
  an output of a transaction that is still to be submitted.
* `Fair` — no reply is lost, and a chain of transactions does not break off.
* `wallet_run` — runs in which the wallet is safe.
-/

namespace KANet.Relay.Wallet

open KANet.Lib

/-! ### Safety -/

/-- Nothing that one transaction spends is spent by the other. -/
def Apart (t t' : Tx) : Prop := ∀ o ∈ t.inputs, o ∉ t'.inputs

/-- A payment of a call. -/
def Submission.pays (call : Nat) (s : Submission) : Bool :=
  s.call = call && s.taken && s.tx.payment

/-- **The wallet never spends twice and pays once.** -/
structure Safe (r : State) : Prop where
  apart : r.submitted.Pairwise fun s s' => s.taken = true → Apart s.tx s'.tx
  once : ∀ call, (r.submitted.filter (Submission.pays call)).length ≤ 1

/-- What the generator makes of entries: a chain of transactions that spend the entries and outputs
of each other, nothing twice; the last of them makes the outputs that were asked for. -/
structure Chain (entries : List Entry) (txs : List Tx) : Prop where
  inputs : ∀ t ∈ txs, ∀ o ∈ t.inputs,
    (∃ e ∈ entries, e.outpoint = o) ∨ ∃ t' ∈ txs, o.transactionId = t'.id
  apart : (entries.map Entry.outpoint).Nodup → txs.Pairwise Apart
  payment : ∀ pre t post, txs = pre ++ t :: post → t.payment = true → post = []

def Lawful (gen : Generator) : Prop := ∀ s, Chain s.entries (gen s)

/-- Nothing has spent an output of a transaction that is still to be submitted: its id is a hash. -/
def Unspent (r : State) : Prop := ∀ cur ∈ r.current, ∀ S ∈ cur.sending, ∀ t ∈ S.rest,
  ∀ s ∈ r.submitted, s.taken = true → ∀ o ∈ s.tx.inputs, o.transactionId ≠ t.id

instance (r : State) : Decidable (Unspent r) :=
  inferInstanceAs (Decidable (∀ cur ∈ r.current, ∀ S ∈ cur.sending, ∀ t ∈ S.rest,
    ∀ s ∈ r.submitted, s.taken = true → ∀ o ∈ s.tx.inputs, o.transactionId ≠ t.id))

/-- The node lists an output once, and one that was spent for less than a minute. -/
structure Listed (r : State) (a : Answer) : Prop where
  nodup : (a.entries.map Entry.outpoint).Nodup
  lag : ∀ x ∈ a.entries, ∀ s ∈ r.submitted, s.taken = true → x.outpoint ∈ s.tx.inputs →
    r.now < s.time + PENDING_UTXO_TTL_MS

def Env (c : Config) (gen : Generator) (r : State) (e : Event) : Prop :=
  Unspent (step c gen r e) ∧ ∀ a, e = .answer a → Listed r a

/-- A split that is too large, for which there is no smaller one: it marks what it has. -/
def Exhausted (c : Config) (gen : Generator) (cur : Current) (S : Sending) (e : Error) : Prop :=
  (∃ targetCount force, cur.request = .splitUtxos targetCount force) ∧ e.storageMass = true ∧
    splitAttempt c gen S.entries (S.splitCount - 1) = none

/-- No reply is lost; a call does not fail after one of its transactions was accepted; and no output
of a chain is listed that the chain has spent. -/
def Fair (c : Config) (gen : Generator) (r : State) : Event → Prop
  | .answer a => ∀ x ∈ a.entries, ∀ s ∈ r.submitted, s.taken = true → x.outpoint ∈ s.tx.inputs →
      x.outpoint ∈ s.entries.map Entry.outpoint
  | .fail e => ∀ cur ∈ r.current, ∀ S ∈ cur.sending, S.sent = false ∨ Exhausted c gen cur S e
  | .submit outcome e => ∀ cur ∈ r.current, ∀ S ∈ cur.sending, S.rest ≠ [] →
      outcome ≠ .lost ∧ (outcome = .refused → S.sent = false ∨ Exhausted c gen cur S e)
  | _ => True

/-! ### What is built -/

variable {c : Config} {gen : Generator} {r : State}

theorem selectEntries_spec {sender recipient : String} {amountSompi priorityFee amount : Nat}
    {payload : Option String} {entries selected : List Entry}
    (h : selectEntries sender recipient amountSompi priorityFee payload entries =
      some (selected, amount)) :
    (∀ e ∈ selected, e ∈ entries) ∧
      ((entries.map Entry.outpoint).Nodup → (selected.map Entry.outpoint).Nodup) := by
  have hone : ∀ {e : Entry}, e ∈ entries → (∀ x ∈ [e], x ∈ entries) ∧
      ((entries.map Entry.outpoint).Nodup → ([e].map Entry.outpoint).Nodup) := by
    intro e he
    refine ⟨fun x hx => ?_, fun _ => List.nodup_singleton _⟩
    rwa [List.mem_singleton.mp hx]
  unfold selectEntries at h
  split at h
  · obtain ⟨best, hbest, h⟩ := Option.bind_eq_some_iff.mp h
    split at h
    · cases h
    · obtain ⟨rfl, -⟩ := Prod.mk.inj (Option.some.inj h)
      exact hone ((List.mem_insertionSort _).mp (List.mem_of_head? hbest))
  · split at h
    · cases h
    · dsimp only at h
      split at h
      · next safeEntry hsafe =>
        obtain ⟨rfl, -⟩ := Prod.mk.inj (Option.some.inj h)
        exact hone ((List.mem_insertionSort _).mp (List.mem_of_find?_eq_some hsafe))
      · obtain ⟨rfl, -⟩ := Prod.mk.inj (Option.some.inj h)
        refine ⟨fun e he => (List.mem_insertionSort _).mp he, fun hnodup => ?_⟩
        exact ((List.perm_insertionSort _ entries).map _).nodup_iff.mpr hnodup

theorem splitAttempt_spec {entries : List Entry} {n m : Nat} {txs : List Tx}
    (h : splitAttempt c gen entries n = some (m, txs)) :
    ∃ s : Settings, s.entries = entries ∧ txs = gen s := by
  induction n using Nat.twoStepInduction with
  | zero => cases h
  | one => cases h
  | more n _ ih =>
    unfold splitAttempt at h
    dsimp only at h
    split at h
    · exact ih h
    · obtain ⟨-, rfl⟩ := Prod.mk.inj (Option.some.inj h)
      exact ⟨_, rfl, rfl⟩

/-- What a call takes is listed, and what it submits is made from that. -/
theorem prepare_spec {entries selected : List Entry} {a : Answer} {request : Request} {n : Nat}
    {txs : List Tx} (h : prepare c gen entries a request = some (selected, n, txs)) :
    (∀ e ∈ selected, e ∈ entries) ∧
      ((entries.map Entry.outpoint).Nodup → (selected.map Entry.outpoint).Nodup) ∧
        ∃ s : Settings, s.entries = selected ∧ txs = gen s := by
  cases request with
  | sendKaspa sender recipient amountSompi priorityFee payload =>
    unfold prepare at h
    dsimp only at h
    split at h
    · cases h
    · obtain ⟨⟨sel, amount⟩, hsel, h⟩ := Option.map_eq_some_iff.mp h
      obtain ⟨rfl, hrest⟩ := Prod.mk.inj h
      obtain ⟨-, rfl⟩ := Prod.mk.inj hrest
      obtain ⟨hmem, hnodup⟩ := selectEntries_spec hsel
      exact ⟨hmem, hnodup, _, rfl, rfl⟩
  | splitUtxos targetCount force =>
    unfold prepare at h
    dsimp only at h
    split at h
    · cases h
    · obtain ⟨⟨m, txs'⟩, hsplit, h⟩ := Option.map_eq_some_iff.mp h
      obtain ⟨rfl, hrest⟩ := Prod.mk.inj h
      obtain ⟨-, rfl⟩ := Prod.mk.inj hrest
      exact ⟨fun _ he => he, fun hnodup => hnodup, splitAttempt_spec hsplit⟩
  | consolidateUtxos minFragments =>
    obtain ⟨vdaa, -, h⟩ := Option.bind_eq_some_iff.mp h
    dsimp only at h
    split at h
    · cases h
    · obtain ⟨txs', hsweep, h⟩ := Option.map_eq_some_iff.mp h
      obtain ⟨rfl, hrest⟩ := Prod.mk.inj h
      obtain ⟨-, rfl⟩ := Prod.mk.inj hrest
      unfold sweep at hsweep
      dsimp only at hsweep
      split at hsweep
      · cases hsweep
      · obtain rfl := Option.some.inj hsweep
        refine ⟨fun e he => (List.mem_filter.mp he).1, fun hnodup => ?_, _, rfl, rfl⟩
        exact hnodup.sublist (List.filter_sublist.map _)

/-! ### Marks -/

/-- The output is left out at least until then. -/
def Marked (pending : List (Outpoint × Nat)) (o : Outpoint) (bound : Nat) : Prop :=
  ∃ p ∈ pending, p.1 = o ∧ bound ≤ p.2

theorem marked_markUtxoSpent (now : Nat) (pending : List (Outpoint × Nat)) (e : Entry) :
    Marked (markUtxoSpent now pending e) e.outpoint (now + PENDING_UTXO_TTL_MS) :=
  ⟨_, List.mem_append_right _ (List.mem_singleton_self _), rfl, le_refl _⟩

theorem Marked.markUtxoSpent {pending : List (Outpoint × Nat)} {o : Outpoint} {x now : Nat}
    (h : Marked pending o x) (hx : x ≤ now + PENDING_UTXO_TTL_MS) (e : Entry) :
    Marked (markUtxoSpent now pending e) o x := by
  by_cases heq : e.outpoint = o
  · obtain ⟨p, hp, hpo, hle⟩ := marked_markUtxoSpent now pending e
    exact ⟨p, hp, hpo.trans heq, hx.trans hle⟩
  · obtain ⟨p, hp, rfl, hle⟩ := h
    refine ⟨p, List.mem_append_left _ (List.mem_filter.mpr ⟨hp, ?_⟩), rfl, hle⟩
    exact decide_eq_true fun h => heq h.symm

theorem Marked.foldl {pending : List (Outpoint × Nat)} {o : Outpoint} {x now : Nat}
    (entries : List Entry) (h : Marked pending o x) (hx : x ≤ now + PENDING_UTXO_TTL_MS) :
    Marked (entries.foldl (Wallet.markUtxoSpent now) pending) o x := by
  induction entries generalizing pending with
  | nil => exact h
  | cons e entries ih => exact ih (h.markUtxoSpent hx e)

theorem marked_foldl (pending : List (Outpoint × Nat)) (now : Nat) {entries : List Entry}
    {e : Entry} (he : e ∈ entries) :
    Marked (entries.foldl (markUtxoSpent now) pending) e.outpoint (now + PENDING_UTXO_TTL_MS) := by
  induction entries generalizing pending with
  | nil => cases he
  | cons e' entries ih =>
    rcases List.mem_cons.mp he with rfl | he
    · exact Marked.foldl entries (marked_markUtxoSpent now pending e) (le_refl _)
    · exact ih _ he

/-! ### The invariant -/

/-- A call that is submitting: what it has still to submit spends nothing that was spent, and the
payment comes last. -/
structure SendingInv (r : State) (call : Nat) (S : Sending) : Prop where
  nodup : (S.entries.map Entry.outpoint).Nodup
  own : ∀ s ∈ r.submitted, s.taken = true → s.call = call → s.entries = S.entries ∧ S.sent = true
  clean : S.sent = false → ∀ s ∈ r.submitted, s.taken = true → ∀ e ∈ S.entries,
    e.outpoint ∉ s.tx.inputs
  apart : S.rest.Pairwise Apart
  unspent : ∀ s ∈ r.submitted, s.taken = true → ∀ t ∈ S.rest, Apart s.tx t
  last : ∀ pre t post, S.rest = pre ++ t :: post → t.payment = true → post = []
  unpaid : S.rest ≠ [] → ∀ s ∈ r.submitted, s.taken = true → s.call = call → s.tx.payment = false

structure CurrentInv (r : State) (cur : Current) : Prop where
  call : cur.call < r.calls
  asking : cur.sending = none → ∀ s ∈ r.submitted, s.taken = true → s.call ≠ cur.call
  sending : ∀ S, cur.sending = some S → SendingInv r cur.call S

structure Inv (r : State) : Prop extends Safe r where
  calls : ∀ s ∈ r.submitted, s.call < r.calls
  times : ∀ s ∈ r.submitted, s.time ≤ r.now
  /-- What the calls before have spent is left out, or no longer listed. -/
  marked : ∀ s ∈ r.submitted, s.taken = true → (∀ cur, r.current = some cur → s.call ≠ cur.call) →
    ∀ e ∈ s.entries, s.time + PENDING_UTXO_TTL_MS ≤ r.now ∨
      Marked r.pendingSpentUtxos e.outpoint (s.time + PENDING_UTXO_TTL_MS)
  current : ∀ cur, r.current = some cur → CurrentInv r cur

theorem Inv.release {cur : Current} (h : Inv r) (hcur : r.current = some cur)
    (hnone : ∀ s ∈ r.submitted, s.taken = true → s.call ≠ cur.call) : Inv r.release where
  toSafe := ⟨h.apart, h.once⟩
  calls := h.calls
  times := h.times
  marked s hs ht _ := h.marked s hs ht fun cur' hcur' => by
    rw [hcur] at hcur'
    obtain rfl := Option.some.inj hcur'
    exact hnone s hs ht
  current _ hcur := by cases hcur

theorem Inv.markRelease {cur : Current} {S : Sending} (h : Inv r) (hcur : r.current = some cur)
    (hS : cur.sending = some S) : Inv (r.mark S.entries).release where
  toSafe := ⟨h.apart, h.once⟩
  calls := h.calls
  times := h.times
  marked s hs ht _ e he := by
    have hbound : s.time + PENDING_UTXO_TTL_MS ≤ r.now + PENDING_UTXO_TTL_MS :=
      Nat.add_le_add_right (h.times s hs) _
    by_cases hcall : s.call = cur.call
    · rw [(((h.current cur hcur).sending S hS).own s hs ht hcall).1] at he
      obtain ⟨p, hp, hpo, hle⟩ := marked_foldl r.pendingSpentUtxos r.now he
      exact Or.inr ⟨p, hp, hpo, hbound.trans hle⟩
    · refine (h.marked s hs ht (fun cur' hcur' => ?_) e he).imp_right fun hm =>
        Marked.foldl S.entries hm hbound
      rw [hcur] at hcur'
      obtain rfl := Option.some.inj hcur'
      exact hcall
  current _ hcur := by cases hcur

/-- The call that has the lock is replaced by another state of it. -/
theorem Inv.setCurrent {cur cur' : Current} (h : Inv r) (hcur : r.current = some cur)
    (hcall : cur'.call = cur.call) (hinv : CurrentInv r cur') :
    Inv { r with current := some cur' } where
  toSafe := ⟨h.apart, h.once⟩
  calls := h.calls
  times := h.times
  marked s hs ht hne := h.marked s hs ht fun cur'' hcur'' => by
    rw [hcur] at hcur''
    obtain rfl := Option.some.inj hcur''
    exact hcall ▸ hne cur' rfl
  current cur'' hcur'' := by
    obtain rfl := Option.some.inj hcur''
    exact ⟨hinv.call, hinv.asking, fun S hS =>
      { nodup := (hinv.sending S hS).nodup, own := (hinv.sending S hS).own
        clean := (hinv.sending S hS).clean, apart := (hinv.sending S hS).apart
        unspent := (hinv.sending S hS).unspent, last := (hinv.sending S hS).last
        unpaid := (hinv.sending S hS).unpaid }⟩

/-- **A call that builds its transactions** from outputs that nothing has spent. -/
theorem Inv.build {cur : Current} {entries : List Entry} {n : Nat} {s : Settings} (h : Inv r)
    (hgen : Lawful gen) (hcur : r.current = some cur) (hentries : s.entries = entries)
    (hnone : ∀ s ∈ r.submitted, s.taken = true → s.call ≠ cur.call)
    (hnodup : (entries.map Entry.outpoint).Nodup)
    (hclean : ∀ s ∈ r.submitted, s.taken = true → ∀ e ∈ entries, e.outpoint ∉ s.tx.inputs)
    (hids : ∀ t ∈ gen s, ∀ s ∈ r.submitted, s.taken = true → ∀ o ∈ s.tx.inputs,
      o.transactionId ≠ t.id) :
    Inv { r with current := some { cur with sending := some ⟨entries, n, gen s, false⟩ } } := by
  have hchain := hgen s
  rw [hentries] at hchain
  refine h.setCurrent hcur rfl ⟨(h.current cur hcur).call, nofun, fun S hS => ?_⟩
  obtain rfl := Option.some.inj hS
  refine ⟨hnodup, ?_, fun _ => hclean, hchain.apart hnodup, ?_, hchain.payment, ?_⟩
  · exact fun s hs ht hcall => absurd hcall (hnone s hs ht)
  · intro s' hs' ht t hmem o ho hot
    rcases hchain.inputs t hmem o hot with ⟨e, he, rfl⟩ | ⟨t', ht', hid⟩
    · exact hclean s' hs' ht e he ho
    · exact hids t' ht' s' hs' ht o ho hid
  · exact fun _ s hs ht hcall => absurd hcall (hnone s hs ht)

/-- A call that has not submitted anything yet. -/
theorem Inv.unsent {cur : Current} (h : Inv r) (hcur : r.current = some cur)
    (hsent : ∀ S, cur.sending = some S → S.sent = false) :
    ∀ s ∈ r.submitted, s.taken = true → s.call ≠ cur.call := by
  intro s hs ht hcall
  cases hS : cur.sending with
  | none => exact (h.current cur hcur).asking hS s hs ht hcall
  | some S =>
    have hown := ((h.current cur hcur).sending S hS).own s hs ht hcall
    rw [hsent S hS] at hown
    cases hown.2

/-- A payment that is tried again asks first. -/
theorem Inv.retry {cur : Current} (h : Inv r) (hcur : r.current = some cur)
    (hnone : ∀ s ∈ r.submitted, s.taken = true → s.call ≠ cur.call) :
    Inv { r with current := some { cur with isRetry := true, sending := none } } :=
  h.setCurrent hcur rfl ⟨(h.current cur hcur).call, fun _ => hnone, nofun⟩

/-- **An error** before anything was submitted, or of a split that marks what it has. -/
theorem Inv.onError {cur : Current} {e : Error} (h : Inv r) (hgen : Lawful gen)
    (hcur : r.current = some cur)
    (hsent : ∀ S, cur.sending = some S → S.sent = false ∨ Exhausted c gen cur S e)
    (hids : Unspent (r.onError c gen cur e)) : Inv (r.onError c gen cur e) := by
  obtain ⟨call, request, isRetry, sending⟩ := cur
  cases request with
  | sendKaspa sender recipient amountSompi priorityFee payload =>
    have hnone := h.unsent hcur fun S hS => (hsent S hS).resolve_right fun hex => by
      obtain ⟨⟨n, force, hreq⟩, -⟩ := hex
      cases hreq
    cases sending with
    | none =>
      unfold State.onError
      dsimp only
      split
      · exact h.retry hcur hnone
      · exact h.release hcur hnone
    | some S =>
      unfold State.onError
      dsimp only
      split
      · exact h.retry hcur hnone
      · exact h.release hcur hnone
  | splitUtxos targetCount force =>
    cases sending with
    | none => exact h.release hcur (h.unsent hcur nofun)
    | some S =>
      have hinv := (h.current _ hcur).sending S rfl
      unfold State.onError at hids ⊢
      dsimp only at hids ⊢
      split at hids
      · next hmass =>
        rw [if_pos hmass]
        cases hsplit : splitAttempt c gen S.entries (S.splitCount - 1) with
        | some p =>
          obtain ⟨n, txs⟩ := p
          have hfalse : S.sent = false := (hsent S rfl).resolve_right fun hex => by
            rw [hex.2.2] at hsplit
            cases hsplit
          obtain ⟨s, hs, rfl⟩ := splitAttempt_spec hsplit
          rw [hsplit] at hids
          exact h.build hgen hcur hs (h.unsent hcur fun S' hS' => Option.some.inj hS' ▸ hfalse)
            hinv.nodup (hinv.clean hfalse) (hids _ rfl _ rfl)
        | none =>
          dsimp only
          split
          · exact h.markRelease hcur rfl
          · next hfalse =>
            exact h.release hcur (h.unsent hcur fun S' hS' =>
              Option.some.inj hS' ▸ Bool.eq_false_iff.mpr hfalse)
      · next hmass =>
        rw [if_neg hmass]
        exact h.release hcur (h.unsent hcur fun S' hS' => by
          obtain rfl := Option.some.inj hS'
          exact (hsent S rfl).resolve_right fun hex => hmass hex.2.1)
  | consolidateUtxos minFragments =>
    refine h.release hcur (h.unsent hcur fun S hS => ?_)
    refine (hsent S hS).resolve_right fun hex => ?_
    obtain ⟨⟨n, force, hreq⟩, -⟩ := hex
    cases hreq

/-- What is listed, and not left out, nothing has spent. -/
theorem Inv.listed {cur : Current} {a : Answer} (h : Inv r) (hcur : r.current = some cur)
    (hasking : cur.sending = none)
    (hlag : ∀ x ∈ a.entries, ∀ s ∈ r.submitted, s.taken = true → x.outpoint ∈ s.tx.inputs →
      r.now < s.time + PENDING_UTXO_TTL_MS)
    (hown : ∀ x ∈ a.entries, ∀ s ∈ r.submitted, s.taken = true → x.outpoint ∈ s.tx.inputs →
      x.outpoint ∈ s.entries.map Entry.outpoint) :
    ∀ s ∈ r.submitted, s.taken = true →
      ∀ x ∈ filterPendingUtxos (unexpired r.now r.pendingSpentUtxos) a.entries,
        x.outpoint ∉ s.tx.inputs := by
  intro s hs ht x hx hspent
  obtain ⟨hx, hleft⟩ := List.mem_filter.mp hx
  obtain ⟨e, he, heq⟩ := List.mem_map.mp (hown x hx s hs ht hspent)
  have hlate := hlag x hx s hs ht hspent
  have hother : ∀ cur', r.current = some cur' → s.call ≠ cur'.call := by
    intro cur' hcur'
    rw [hcur] at hcur'
    obtain rfl := Option.some.inj hcur'
    exact (h.current _ hcur).asking hasking s hs ht
  rcases h.marked s hs ht hother e he with hold | ⟨p, hp, hpo, hle⟩
  · exact absurd hlate (not_lt.mpr hold)
  · rw [Bool.not_eq_true'] at hleft
    have hin : (unexpired r.now r.pendingSpentUtxos).any (·.1 = x.outpoint) = true := by
      refine List.any_eq_true.mpr ⟨p, List.mem_filter.mpr ⟨hp, ?_⟩, ?_⟩
      · exact decide_eq_true (hlate.le.trans hle)
      · exact decide_eq_true (hpo.trans heq)
    rw [hin] at hleft
    cases hleft

/-- What is expired is forgotten. -/
theorem Inv.forget (h : Inv r) :
    Inv { r with pendingSpentUtxos := unexpired r.now r.pendingSpentUtxos } where
  toSafe := ⟨h.apart, h.once⟩
  calls := h.calls
  times := h.times
  marked s hs ht hne e he := by
    rcases h.marked s hs ht hne e he with hold | ⟨p, hp, hpo, hle⟩
    · exact Or.inl hold
    · by_cases hnow : r.now ≤ p.2
      · exact Or.inr ⟨p, List.mem_filter.mpr ⟨hp, decide_eq_true hnow⟩, hpo, hle⟩
      · have hnow : p.2 < r.now := not_le.mp hnow
        exact Or.inl (hle.trans hnow.le)
  current cur hcur := by
    have hinv := h.current cur hcur
    exact ⟨hinv.call, hinv.asking, fun S hS =>
      { nodup := (hinv.sending S hS).nodup, own := (hinv.sending S hS).own
        clean := (hinv.sending S hS).clean, apart := (hinv.sending S hS).apart
        unspent := (hinv.sending S hS).unspent, last := (hinv.sending S hS).last
        unpaid := (hinv.sending S hS).unpaid }⟩

theorem Inv.answer {cur : Current} {a : Answer} (h : Inv r) (hgen : Lawful gen)
    (hcur : r.current = some cur) (hasking : cur.sending = none)
    (hnodup : (a.entries.map Entry.outpoint).Nodup)
    (hlag : ∀ x ∈ a.entries, ∀ s ∈ r.submitted, s.taken = true → x.outpoint ∈ s.tx.inputs →
      r.now < s.time + PENDING_UTXO_TTL_MS)
    (hown : ∀ x ∈ a.entries, ∀ s ∈ r.submitted, s.taken = true → x.outpoint ∈ s.tx.inputs →
      x.outpoint ∈ s.entries.map Entry.outpoint)
    (hids : Unspent (answerStep c gen r cur a)) : Inv (answerStep c gen r cur a) := by
  have hlisted := h.listed hcur hasking hlag hown
  have hnone := h.unsent hcur (by rw [hasking]; nofun)
  unfold answerStep at hids ⊢
  dsimp only at hids ⊢
  cases hprep : prepare c gen (filterPendingUtxos (unexpired r.now r.pendingSpentUtxos) a.entries)
      a cur.request with
  | none => exact h.forget.release (r := { r with pendingSpentUtxos := _ }) hcur hnone
  | some p =>
    obtain ⟨entries, n, txs⟩ := p
    obtain ⟨hsub, hdistinct, s, hs, rfl⟩ := prepare_spec hprep
    rw [hprep] at hids
    refine h.forget.build (r := { r with pendingSpentUtxos := _ }) hgen hcur hs hnone ?_ ?_
      (hids _ rfl _ rfl)
    · exact hdistinct (hnodup.sublist (List.filter_sublist.map _))
    · exact fun s' hs' ht e he => hlisted s' hs' ht e (hsub e he)

section Submit

variable {cur : Current} {S : Sending} {tx : Tx} {rest : List Tx}

/-- The next transaction spends nothing that was spent. -/
theorem Inv.apart_submit (h : Inv r) (hcur : r.current = some cur) (hS : cur.sending = some S)
    (hrest : S.rest = tx :: rest) (outcome : Outcome) :
    (r.submitted ++ [(⟨cur.call, S.entries, tx, r.now, outcome⟩ : Submission)]).Pairwise
      fun s s' => s.taken = true → Apart s.tx s'.tx := by
  refine List.pairwise_append.mpr ⟨h.apart, List.pairwise_singleton _ _, fun s hs s' hs' ht => ?_⟩
  rw [List.mem_singleton.mp hs']
  exact ((h.current cur hcur).sending S hS).unspent s hs ht tx (hrest ▸ List.mem_cons_self)

theorem Inv.calls_submit (h : Inv r) (hcur : r.current = some cur) {outcome : Outcome} :
    ∀ s ∈ r.submitted ++ [⟨cur.call, S.entries, tx, r.now, outcome⟩],
      s.call < r.calls ∧ s.time ≤ r.now := by
  intro s hs
  rcases List.mem_append.mp hs with hs | hs
  · exact ⟨h.calls s hs, h.times s hs⟩
  · rw [List.mem_singleton.mp hs]
    exact ⟨(h.current cur hcur).call, le_refl _⟩

/-- A transaction that is refused changes nothing. -/
theorem Inv.refuse (h : Inv r) (hcur : r.current = some cur) (hS : cur.sending = some S)
    (hrest : S.rest = tx :: rest) : Inv { r with
      submitted := r.submitted ++ [⟨cur.call, S.entries, tx, r.now, .refused⟩] } := by
  have hold : ∀ s ∈ r.submitted ++ [⟨cur.call, S.entries, tx, r.now, .refused⟩],
      s.taken = true → s ∈ r.submitted := by
    intro s hs ht
    rcases List.mem_append.mp hs with hs | hs
    · exact hs
    · rw [List.mem_singleton.mp hs] at ht
      cases ht
  refine ⟨⟨h.apart_submit hcur hS hrest .refused, fun call => ?_⟩, ?_, ?_, ?_, ?_⟩
  · have hpays : Submission.pays call ⟨cur.call, S.entries, tx, r.now, .refused⟩ = false := by
      simp [Submission.pays, Submission.taken]
    rw [List.filter_append, List.filter_singleton, hpays]
    simpa using h.once call
  · exact fun s hs => (h.calls_submit hcur s hs).1
  · exact fun s hs => (h.calls_submit hcur s hs).2
  · exact fun s hs ht hne => h.marked s (hold s hs ht) ht hne
  · intro cur' hcur'
    have hinv := h.current cur' hcur'
    refine ⟨hinv.call, fun hnone s hs ht => hinv.asking hnone s (hold s hs ht) ht, fun S' hS' => ?_⟩
    have hsending := hinv.sending S' hS'
    exact
      { nodup := hsending.nodup
        own := fun s hs ht => hsending.own s (hold s hs ht) ht
        clean := fun hsent s hs ht => hsending.clean hsent s (hold s hs ht) ht
        apart := hsending.apart
        unspent := fun s hs ht => hsending.unspent s (hold s hs ht) ht
        last := hsending.last
        unpaid := fun hne s hs ht => hsending.unpaid hne s (hold s hs ht) ht }

/-- **A transaction that is accepted.** -/
theorem Inv.accept (h : Inv r) (hcur : r.current = some cur) (hS : cur.sending = some S)
    (hrest : S.rest = tx :: rest) : Inv { r with
      submitted := r.submitted ++ [⟨cur.call, S.entries, tx, r.now, .accepted⟩]
      current := some { cur with sending := some { S with rest, sent := true } } } := by
  have hinv := (h.current cur hcur).sending S hS
  have hpair := hinv.apart
  rw [hrest, List.pairwise_cons] at hpair
  have hunpaid := hinv.unpaid (by rw [hrest]; exact List.cons_ne_nil _ _)
  have hend : tx.payment = true → rest = [] := hinv.last [] tx rest hrest
  refine ⟨⟨h.apart_submit hcur hS hrest .accepted, fun call => ?_⟩, ?_, ?_, ?_, ?_⟩
  · rw [List.filter_append, List.length_append]
    by_cases hcall : call = cur.call
    · -- the call has not paid yet
      have hnone : r.submitted.filter (Submission.pays call) = [] := by
        refine List.filter_eq_nil_iff.mpr fun s hs hpays => ?_
        simp only [Submission.pays, Bool.and_eq_true, decide_eq_true_eq] at hpays
        obtain ⟨⟨hscall, ht⟩, hpay⟩ := hpays
        rw [hunpaid s hs ht (hscall.trans hcall)] at hpay
        cases hpay
      rw [hnone, List.length_nil, Nat.zero_add]
      exact List.length_filter_le _ _
    · have hpays : Submission.pays call ⟨cur.call, S.entries, tx, r.now, .accepted⟩ = false := by
        have hne : cur.call ≠ call := fun heq => hcall heq.symm
        simp [Submission.pays, hne]
      rw [List.filter_singleton, hpays]
      simpa using h.once call
  · exact fun s hs => (h.calls_submit hcur s hs).1
  · exact fun s hs => (h.calls_submit hcur s hs).2
  · intro s hs ht hne
    have hother : s.call ≠ cur.call := by
      have := hne _ rfl
      exact this
    rcases List.mem_append.mp hs with hs | hs
    · refine h.marked s hs ht fun cur' hcur' => ?_
      rw [hcur] at hcur'
      obtain rfl := Option.some.inj hcur'
      exact hother
    · rw [List.mem_singleton.mp hs] at hother
      exact absurd rfl hother
  · intro cur' hcur'
    obtain rfl := Option.some.inj hcur'
    refine ⟨(h.current cur hcur).call, nofun, fun S' hS' => ?_⟩
    obtain rfl := Option.some.inj hS'
    refine ⟨hinv.nodup, ?_, nofun, hpair.2, ?_, ?_, ?_⟩
    · intro s hs ht hcall
      rcases List.mem_append.mp hs with hs | hs
      · exact ⟨(hinv.own s hs ht hcall).1, rfl⟩
      · rw [List.mem_singleton.mp hs]
        exact ⟨rfl, rfl⟩
    · intro s hs ht t hmem
      rcases List.mem_append.mp hs with hs | hs
      · exact hinv.unspent s hs ht t (hrest ▸ List.mem_cons_of_mem _ hmem)
      · rw [List.mem_singleton.mp hs]
        exact hpair.1 t hmem
    · intro pre t post heq
      exact hinv.last (tx :: pre) t post (hrest.trans (congrArg (List.cons tx) heq))
    · intro hne s hs ht hcall
      rcases List.mem_append.mp hs with hs | hs
      · exact hunpaid s hs ht hcall
      · rw [List.mem_singleton.mp hs]
        exact Bool.eq_false_iff.mpr fun hpay => hne (hend hpay)

end Submit

/-! ### Runs -/

theorem inv_init : Inv init where
  apart := List.Pairwise.nil
  once _ := Nat.zero_le _
  calls _ hs := absurd hs List.not_mem_nil
  times _ hs := absurd hs List.not_mem_nil
  marked _ hs := absurd hs List.not_mem_nil
  current _ hcur := by cases hcur

/-- What changes neither what is submitted nor the call that has the lock. -/
theorem Inv.of_eq {r' : State} (h : Inv r) (hsub : r'.submitted = r.submitted)
    (hcur : r'.current = r.current) (hcalls : r'.calls = r.calls) (hnow : r.now ≤ r'.now)
    (hpending : r'.pendingSpentUtxos = r.pendingSpentUtxos) : Inv r' where
  apart := hsub ▸ h.apart
  once := hsub ▸ h.once
  calls := by rw [hsub, hcalls]; exact h.calls
  times s hs := (h.times s (hsub ▸ hs)).trans hnow
  marked s hs ht hne e he := by
    rw [hpending]
    exact (h.marked s (hsub ▸ hs) ht (hcur ▸ hne) e he).imp_left fun hle => hle.trans hnow
  current cur h' := by
    have hinv := h.current cur (hcur ▸ h')
    refine ⟨hcalls ▸ hinv.call, hsub ▸ hinv.asking, fun S hS => ?_⟩
    have hsending := hinv.sending S hS
    exact
      { nodup := hsending.nodup
        own := hsub ▸ hsending.own
        clean := hsub ▸ hsending.clean
        apart := hsending.apart
        unspent := hsub ▸ hsending.unspent
        last := hsending.last
        unpaid := hsub ▸ hsending.unpaid }

theorem Inv.acquire {request : Request} {waiting : List Request} (h : Inv r)
    (hcur : r.current = none) : Inv { r with
      calls := r.calls + 1, waiting, current := some ⟨r.calls, request, false, none⟩ } where
  apart := h.apart
  once := h.once
  calls s hs := (h.calls s hs).trans (Nat.lt_succ_self _)
  times := h.times
  marked s hs ht _ := h.marked s hs ht fun cur' hcur' => by
    rw [hcur] at hcur'
    cases hcur'
  current cur' hcur' := by
    obtain rfl := Option.some.inj hcur'
    exact ⟨Nat.lt_succ_self _, fun _ s hs _ => (h.calls s hs).ne, nofun⟩

/-- **A step** of the wallet. -/
theorem Inv.step {e : Event} (h : Inv r) (hgen : Lawful gen) (henv : Env c gen r e)
    (hfair : Fair c gen r e) : Inv (step c gen r e) := by
  obtain ⟨hids, hanswer⟩ := henv
  unfold Wallet.step at hids ⊢
  cases e with
  | call request => exact h.of_eq rfl rfl rfl (le_refl _) rfl
  | tick ms => exact h.of_eq rfl rfl rfl (Nat.le_add_right _ _) rfl
  | acquire =>
    dsimp only
    split
    · next hcur _ => exact h.acquire hcur
    · exact h
  | answer a =>
    obtain ⟨hnodup, hlag⟩ := hanswer a rfl
    dsimp only at hids ⊢
    cases hcur : r.current.filter (·.sending.isNone) with
    | none => exact h
    | some cur =>
      rw [hcur] at hids
      obtain ⟨hcur, hnone⟩ := Option.filter_eq_some_iff.mp hcur
      exact h.answer hgen hcur (Option.isNone_iff_eq_none.mp hnone) hnodup hlag hfair hids
  | fail e =>
    dsimp only at hids ⊢
    cases hcur : r.current with
    | none => exact h
    | some cur =>
      rw [hcur] at hids
      exact h.onError hgen hcur (fun S hS => hfair cur hcur S hS) hids
  | submit outcome e =>
    dsimp only at hids ⊢
    cases hcur : r.current with
    | none => exact h
    | some cur =>
      cases hS : cur.sending with
      | none =>
        rw [Option.elim_some, hS]
        exact h
      | some S =>
        rw [hcur, Option.elim_some, hS, Option.elim_some] at hids
        rw [Option.elim_some, hS, Option.elim_some]
        unfold submitStep at hids ⊢
        cases hrest : S.rest with
        | nil => exact h
        | cons tx rest =>
          obtain ⟨hlost, hrefused⟩ := hfair cur hcur S hS (hrest ▸ List.cons_ne_nil _ _)
          rw [hrest] at hids
          cases outcome with
          | accepted => exact h.accept hcur hS hrest
          | refused =>
            refine (h.refuse hcur hS hrest).onError hgen hcur (fun S' hS' => ?_) hids
            rw [hS] at hS'
            obtain rfl := Option.some.inj hS'
            exact hrefused rfl
          | lost => exact absurd rfl hlost
  | finish =>
    dsimp only
    cases hcur : r.current with
    | none => exact h
    | some cur =>
      cases hS : cur.sending with
      | none =>
        rw [Option.elim_some, hS]
        exact h
      | some S =>
        rw [Option.elim_some, hS, Option.elim_some]
        unfold finishStep
        split
        · split
          · exact h.markRelease hcur hS
          · next hfalse =>
            refine h.release hcur (h.unsent hcur fun S' hS' => ?_)
            rw [hS] at hS'
            obtain rfl := Option.some.inj hS'
            exact Bool.eq_false_iff.mpr hfalse
        · exact h

/-- **The wallet never spends twice and pays once**, in runs in which no reply is lost and no chain
of transactions breaks off. -/
theorem wallet_run {es : List Event} (hgen : Lawful gen)
    (henv : Along (Env c gen) (step c gen) init es)
    (hfair : Along (Fair c gen) (step c gen) init es) : Safe (run c gen es) :=
  (Along.invariant (I := fun _ r => Inv r) (henv.and hfair) inv_init fun _ _ ih h =>
    ih.step hgen h.1 h.2).toSafe

/-! ### A reply that is lost -/

section Sample

def sampleConfig : Config := ⟨"w", 400, 1050⟩

/-- One transaction of all entries; its id goes by the recipient and the first of them. -/
def sampleGen : Generator := fun s =>
  match s.entries.head?, s.outputs.head? with
  | some e, some o =>
    [⟨if o.1 = "q" then "v" else if e.outpoint.transactionId = "a" then "t" else "u",
      s.entries.map Entry.outpoint, true⟩]
  | _, _ => []

theorem sampleGen_lawful : Lawful sampleGen := by
  have hone : ∀ (entries : List Entry) (id : String),
      Chain entries [⟨id, entries.map Entry.outpoint, true⟩] := by
    intro entries id
    refine ⟨fun t ht o ho => ?_, fun _ => List.pairwise_singleton _ _, fun pre t post heq _ => ?_⟩
    · rw [List.mem_singleton.mp ht] at ho
      exact Or.inl (List.mem_map.mp ho)
    · cases pre with
      | nil => exact (List.cons.inj heq).2.symm
      | cons p pre =>
        have hnil := (List.cons.inj heq).2
        cases pre <;> cases hnil
  intro s
  unfold sampleGen
  split
  · exact hone _ _
  · exact ⟨fun t ht => absurd ht List.not_mem_nil, fun _ => List.Pairwise.nil,
      fun pre t post heq => by cases pre <;> cases heq⟩

/-- Ten KAS. -/
def sampleEntry (id : String) : Entry := ⟨⟨id, 0⟩, 1000000000, none, false, some "w"⟩

/-- Five KAS to someone. -/
def samplePayment (recipient : String) : Request := .sendKaspa "w" recipient 500000000 0 none

def listed (ids : List String) : Event := .answer ⟨true, ids.map sampleEntry, none⟩

/-- The reply to a payment is lost, and the next one finds the same output. -/
def spentTwice : List Event :=
  [.call (samplePayment "p"), .acquire, listed ["a"], .submit .lost ⟨false, false⟩,
    .call (samplePayment "q"), .acquire, listed ["a"], .submit .accepted ⟨false, false⟩, .finish]

/-- The reply is lost with the connection, and the payment is made again from another output. -/
def paidTwice : List Event :=
  [.call (samplePayment "p"), .acquire, listed ["a", "b"], .submit .lost ⟨true, false⟩,
    listed ["b"], .submit .accepted ⟨false, false⟩, .finish]

def paidOnce : List Event :=
  [.call (samplePayment "p"), .acquire, listed ["a", "b"], .submit .accepted ⟨false, false⟩,
    .finish]

theorem env_of_unspent {e : Event} (h : Unspent (step sampleConfig sampleGen r e))
    (he : ∀ a, e ≠ .answer a) : Env sampleConfig sampleGen r e :=
  ⟨h, fun a ha => absurd ha (he a)⟩

theorem env_of_listed {ids : List String} (h : Unspent (step sampleConfig sampleGen r (listed ids)))
    (hnodup : ((ids.map sampleEntry).map Entry.outpoint).Nodup)
    (hlag : ∀ x ∈ ids.map sampleEntry, ∀ s ∈ r.submitted, s.taken = true →
      x.outpoint ∈ s.tx.inputs → r.now < s.time + PENDING_UTXO_TTL_MS) :
    Env sampleConfig sampleGen r (listed ids) := by
  refine ⟨h, fun a ha => ?_⟩
  obtain rfl := Event.answer.inj ha
  exact ⟨hnodup, hlag⟩

theorem paidOnce_env : Along (Env sampleConfig sampleGen) (step sampleConfig sampleGen) init
    paidOnce :=
  .cons (env_of_unspent (by decide +kernel) nofun) (.cons (env_of_unspent (by decide +kernel) nofun)
    (.cons (env_of_listed (by decide +kernel) (by decide +kernel) (by decide +kernel))
      (.cons (env_of_unspent (by decide +kernel) nofun)
        (.cons (env_of_unspent (by decide +kernel) nofun) .nil))))

theorem paidOnce_fair : Along (Fair sampleConfig sampleGen) (step sampleConfig sampleGen) init
    paidOnce := by
  refine .cons trivial (.cons trivial (.cons ?_ (.cons ?_ (.cons trivial .nil))))
  · intro x _ s hs
    exact absurd hs List.not_mem_nil
  · intro cur _ S _ _
    exact ⟨nofun, nofun⟩

/-- A payment whose reply arrives. -/
theorem paidOnce_safe : Safe (run sampleConfig sampleGen paidOnce) :=
  wallet_run sampleGen_lawful paidOnce_env paidOnce_fair

theorem spentTwice_env : Along (Env sampleConfig sampleGen) (step sampleConfig sampleGen) init
    spentTwice :=
  .cons (env_of_unspent (by decide +kernel) nofun) (.cons (env_of_unspent (by decide +kernel) nofun)
    (.cons (env_of_listed (by decide +kernel) (by decide +kernel) (by decide +kernel))
      (.cons (env_of_unspent (by decide +kernel) nofun)
        (.cons (env_of_unspent (by decide +kernel) nofun)
          (.cons (env_of_unspent (by decide +kernel) nofun)
            (.cons (env_of_listed (by decide +kernel) (by decide +kernel) (by decide +kernel))
              (.cons (env_of_unspent (by decide +kernel) nofun)
                (.cons (env_of_unspent (by decide +kernel) nofun) .nil))))))))

theorem paidTwice_env : Along (Env sampleConfig sampleGen) (step sampleConfig sampleGen) init
    paidTwice :=
  .cons (env_of_unspent (by decide +kernel) nofun) (.cons (env_of_unspent (by decide +kernel) nofun)
    (.cons (env_of_listed (by decide +kernel) (by decide +kernel) (by decide +kernel))
      (.cons (env_of_unspent (by decide +kernel) nofun)
        (.cons (env_of_listed (by decide +kernel) (by decide +kernel) (by decide +kernel))
          (.cons (env_of_unspent (by decide +kernel) nofun)
            (.cons (env_of_unspent (by decide +kernel) nofun) .nil))))))

/-- **A reply that is lost**: the output is spent again, or the payment is made again. -/
theorem spent_or_paid_twice :
    (Along (Env sampleConfig sampleGen) (step sampleConfig sampleGen) init spentTwice ∧
      ¬ Safe (run sampleConfig sampleGen spentTwice)) ∧
    Along (Env sampleConfig sampleGen) (step sampleConfig sampleGen) init paidTwice ∧
      ¬ Safe (run sampleConfig sampleGen paidTwice) := by
  refine ⟨⟨spentTwice_env, fun h => ?_⟩, paidTwice_env, fun h => ?_⟩
  · have hspent : ((run sampleConfig sampleGen spentTwice).submitted.map fun s =>
        (s.taken, s.tx.inputs)) = [(true, [⟨"a", 0⟩]), (true, [⟨"a", 0⟩])] := by decide +kernel
    have hpair := List.Pairwise.map
      (R := fun s s' : Submission => s.taken = true → Apart s.tx s'.tx)
      (S := fun p q : Bool × List Outpoint => p.1 = true → ∀ o ∈ p.2, o ∉ q.2)
      (fun s => (s.taken, s.tx.inputs)) (fun _ _ hab => hab) h.apart
    rw [hspent] at hpair
    exact absurd hpair (by decide)
  · exact absurd (h.once 0) (by decide +kernel)

end Sample

end KANet.Relay.Wallet
