import KANet.Settle.ZkEnqueue

/-!
# `zk-prove-worker.mjs`

The worker takes the oldest pending job of the queue, writes the input of the guest into a file,
has it proven, and funds a gate for the proof.  That takes minutes, and the process can stop in
between.  A job that failed because its market had not been handed over yet goes back into the
queue when it has been.

* `jsonNumber_of_lt` — amounts below 2^53 reach the guest as they were queued.
* `step_moved` — what one event can do to the queue.
* `prove_jobs_amended` — what holds of every run.
-/

namespace KANet.Settle

open KANet.Lib KANet.Script KANet.Payout

/-! ### Amounts in JSON -/

/-- The shortest decimal that is read as the double `x`, tried from `j` zeros at its end downwards;
of two of one length the nearer one. -/
def shortest (x : Nat) : Nat → Nat
  | 0 => x
  | j + 1 =>
    let unit := 10 ^ (j + 1)
    let lo := x / unit * unit
    let hi := lo + unit
    if toNumber lo = x then (if toNumber hi = x ∧ hi - x < x - lo then hi else lo)
    else if toNumber hi = x then hi
    else shortest x j

/-- What `JSON.stringify(Number(n))` writes, for an `n` below 10^21. -/
def jsonNumber (n : Int) : Int :=
  let digits := shortest (toNumber n).natAbs 20
  if n < 0 then -(digits : Int) else digits

/-- The input as it is written. -/
structure WrittenInput where
  bettors : List Bet
  winning_direction : Int
  pool_total_sompi : Option Int
  fee_bps : Int
  fee_leaves : List Leaf
deriving DecidableEq

def guestInput (job : ProveJob) : WrittenInput where
  bettors := job.ordered_bets.map fun b =>
    { b with stake := jsonNumber b.stake, direction := jsonNumber b.direction }
  winning_direction := jsonNumber job.attested_winner
  pool_total_sompi := some (jsonNumber job.pool_total_sompi)
  fee_bps := 0
  fee_leaves := job.fee_leaves.map fun f => ⟨f.pk, jsonNumber f.amount⟩

/-! ### The worker -/

inductive TickError
  | settlerRelay
  | gateTmplHash
  | noFeeLeaves
  | noContinuation
  | proving
  | journal
  | otherBets
  | gate
  | notReady
deriving DecidableEq

/-- `<output>.summary.json` -/
structure Summary where
  image_id : Bytes
  bets_root : Bytes
  payout_root : Bytes
  attested_winner : Int
  journal_digest : Bytes

/-- What the worker meets while it has a job: its settings, the market's row, the prover, and the
relay that funds the gate. -/
structure Prover where
  settlerRelay : Bool
  gateTmplHashFresh : Bool
  hasZkContinuation : Bool
  spawnCargoProve : WrittenInput → Option (Summary × Bytes)
  computeJournalHash : Bytes → Bytes → Int → Bytes
  buildAndFundGate : Summary → Bytes → Bool
  updateProvingReady : Bool

/-- The receipt and the digest of its journal, or where the job fails. -/
def proveJob (env : Prover) (job : ProveJob) : Except TickError (Bytes × Bytes) := do
  check (env.settlerRelay = true) .settlerRelay
  check (env.gateTmplHashFresh = true) .gateTmplHash
  check (job.fee_leaves ≠ []) .noFeeLeaves
  check (env.hasZkContinuation = true) .noContinuation
  let (summary, receipt) ← orRefuse (env.spawnCargoProve (guestInput job)) .proving
  let journalHash :=
    env.computeJournalHash summary.bets_root summary.payout_root summary.attested_winner
  check (journalHash = summary.journal_digest) .journal
  check (job.bets_root = [] ∨ summary.bets_root = job.bets_root) .otherBets
  check (env.buildAndFundGate summary receipt = true) .gate
  check (env.updateProvingReady = true) .notReady
  .ok (receipt, journalHash)

/-! ### The queue -/

/-- A row of `zk_prove_jobs`. -/
structure QueueRow where
  id : Nat
  market_id : String
  status : JobStatus
  job : ProveJob
  error : Option TickError
  proof : Option (Bytes × Bytes)
deriving DecidableEq

/-- Pending or in progress. -/
def QueueRow.Live (r : QueueRow) : Prop := r.status = .pending ∨ r.status = .in_progress

instance (r : QueueRow) : Decidable r.Live := inferInstanceAs (Decidable (_ ∨ _))

/-- The table, in the order of insertion, which is that of `created_at`; and the job that this
process is busy with. -/
structure Queue where
  jobs : List QueueRow
  nextId : Nat
  running : Option Nat

namespace Queue

/-- The rows of a market, as `enqueueZkProveJob` looks at them. -/
def rowsOf (q : Queue) (market_id : String) : List JobRow :=
  (q.jobs.filter fun r => r.market_id = market_id).map fun r => ⟨r.status, r.job⟩

/-- `UPDATE zk_prove_jobs … WHERE id = ?` -/
def put (q : Queue) (r : QueueRow) : Queue :=
  { q with jobs := q.jobs.map fun s => if s.id = r.id then r else s }

/-- What the settler calls `enqueueZkProveJob` with. -/
structure EnqueueArgs where
  market_id : String
  db : ProveDb
  psRedeemPreAttest : Bytes
  attestValues : CloseValues
  feeLeaves : List FeeLeaf

section Step

variable (e : Engine) (coll : Collation)

def enqueue (q : Queue) (a : EnqueueArgs) : Queue :=
  match enqueueZkProveJob e coll { a.db with zk_prove_jobs := q.rowsOf a.market_id }
      a.psRedeemPreAttest a.attestValues a.feeLeaves with
  | .ok (.enqueued job _) =>
    { q with
      jobs := q.jobs ++ [⟨q.nextId, a.market_id, .pending, job, none, none⟩]
      nextId := q.nextId + 1 }
  | _ => q

/-- The start of a tick: the oldest pending job is taken. -/
def claim (q : Queue) : Queue :=
  if q.running.isSome then q
  else
    match q.jobs.find? fun r => r.status = .pending with
    | none => q
    | some r => { q.put { r with status := .in_progress } with running := some r.id }

/-- A job as it is left by the worker. -/
def finished (env : Prover) (r : QueueRow) : QueueRow :=
  match proveJob env r.job with
  | .ok proof => { r with status := .done, proof := some proof }
  | .error err => { r with status := .failed, error := some err }

/-- The rest of a tick. -/
def finish (env : Prover) (q : Queue) : Queue :=
  match q.running.bind fun id => q.jobs.find? fun r => r.id = id with
  | none => { q with running := none }
  | some r => { q.put (finished env r) with running := none }

/-- The process stops and starts again: it no longer knows of its job. -/
def restart (q : Queue) : Queue := { q with running := none }

/-- `retryZkProveJobAfterHandoffLanded`; the index refuses a second live job. -/
def retry (q : Queue) (market_id : String) : Queue :=
  match (q.jobs.filter fun r => r.market_id = market_id ∧ r.status = .failed).getLast? with
  | none => q
  | some r =>
    if r.error = some .noContinuation ∧ ∀ s ∈ q.jobs, s.market_id = market_id → ¬ s.Live then
      q.put { r with status := .pending, error := none }
    else q

inductive Event
  | enqueue (a : EnqueueArgs)
  | tick
  | finish (env : Prover)
  | restart
  | retry (market_id : String)

def step (q : Queue) : Event → Queue
  | .enqueue a => q.enqueue e coll a
  | .tick => q.claim
  | .finish env => q.finish env
  | .restart => q.restart
  | .retry market_id => q.retry market_id

def run (q : Queue) (evs : List Event) : Queue := evs.foldl (step e coll) q

end Step

def empty : Queue where
  jobs := []
  nextId := 1
  running := none

end Queue

/-! ### Below 2^53 -/

theorem le_toNumber {m : Nat} (h : 2 ^ 53 ≤ m) : (2 ^ 53 : Int) ≤ toNumber m := by
  have h0 : m ≠ 0 := by
    rintro rfl
    exact absurd h (by decide)
  have hlog : 53 ≤ m.log2 := (Nat.le_log2 h0).mpr h
  have hk : m.log2 - 52 = m.log2 - 53 + 1 := by omega
  have hq : 2 ^ 52 ≤ m / 2 ^ (m.log2 - 52) := by
    rw [Nat.le_div_iff_mul_le (by positivity), ← pow_add]
    have hexp : 52 + (m.log2 - 52) = m.log2 := by omega
    rw [hexp]
    exact Nat.log2_self_le h0
  have hpow : 2 ≤ 2 ^ (m.log2 - 52) := by
    rw [hk, pow_succ]
    have : 1 ≤ 2 ^ (m.log2 - 53) := Nat.one_le_two_pow
    omega
  have hprod : ∀ q, 2 ^ 52 ≤ q → (2 ^ 53 : Int) ≤ ((q * 2 ^ (m.log2 - 52) : Nat) : Int) := by
    intro q hq
    have := Nat.mul_le_mul hq hpow
    have h53 : (2 : Nat) ^ 52 * 2 = 2 ^ 53 := rfl
    rw [h53] at this
    exact_mod_cast this
  unfold toNumber
  simp only [Int.natAbs_natCast, if_neg (show ¬ (m : Int) < 0 by omega)]
  split
  · exact hprod _ (by omega)
  · exact hprod _ hq

theorem toNumber_natCast {m : Nat} (h : m < 2 ^ 53) : toNumber (m : Int) = m :=
  toNumber_of_lt (by simpa using h)

theorem shortest_of_lt {x : Nat} (h : x < 2 ^ 53) (j : Nat) : shortest x j = x := by
  induction j with
  | zero => rfl
  | succ j ih =>
    have hunit : 0 < 10 ^ (j + 1) := by positivity
    have hlo : x / 10 ^ (j + 1) * 10 ^ (j + 1) ≤ x := Nat.div_mul_le_self _ _
    have hhi : x < x / 10 ^ (j + 1) * 10 ^ (j + 1) + 10 ^ (j + 1) := Nat.lt_div_mul_add hunit
    -- what lies above is read as something else
    have habove : ∀ y : Nat, x < y → toNumber (y : Int) ≠ x := by
      intro y hy heq
      rcases Nat.lt_or_ge y (2 ^ 53) with hlt | hge
      · rw [toNumber_natCast hlt] at heq
        omega
      · have := le_toNumber hge
        omega
    have hno : ¬ toNumber ((x / 10 ^ (j + 1) * 10 ^ (j + 1) + 10 ^ (j + 1) : Nat) : Int) = x :=
      habove _ hhi
    have hread : toNumber ((x / 10 ^ (j + 1) * 10 ^ (j + 1) : Nat) : Int) =
        (x / 10 ^ (j + 1) * 10 ^ (j + 1) : Nat) := toNumber_natCast (by omega)
    simp only [shortest, hread, Nat.cast_inj, hno, false_and, if_false, ih]
    split
    · assumption
    · rfl

/-- **Amounts below 2^53 are written as they are.** -/
theorem jsonNumber_of_lt {n : Int} (h0 : 0 ≤ n) (h : n < 2 ^ 53) : jsonNumber n = n := by
  have hread : toNumber n = n := toNumber_of_lt (by omega)
  rw [jsonNumber, if_neg (by omega), hread, shortest_of_lt (by omega)]
  omega

/-- The amounts of a job, and the numbers beside them. -/
def ProveJob.amounts (job : ProveJob) : List Int :=
  job.pool_total_sompi :: job.attested_winner ::
    (job.ordered_bets.flatMap fun b => [b.stake, b.direction]) ++
      job.fee_leaves.map fun f => f.amount

/-- The input says what was queued. -/
structure Exact (input : WrittenInput) (job : ProveJob) : Prop where
  bettors : input.bettors = job.ordered_bets
  winner : input.winning_direction = job.attested_winner
  pool : input.pool_total_sompi = some job.pool_total_sompi
  fees : input.fee_leaves = job.fee_leaves.map FeeLeaf.toLeaf

theorem guestInput_exact {job : ProveJob} (h : ∀ n ∈ job.amounts, 0 ≤ n ∧ n < 2 ^ 53) :
    Exact (guestInput job) job := by
  have hread : ∀ n ∈ job.amounts, jsonNumber n = n :=
    fun n hn => jsonNumber_of_lt (h n hn).1 (h n hn).2
  have hbet : ∀ b ∈ job.ordered_bets, ∀ n ∈ [b.stake, b.direction], n ∈ job.amounts := by
    intro b hb n hn
    exact List.mem_cons_of_mem _ (List.mem_cons_of_mem _
      (List.mem_append_left _ (List.mem_flatMap.mpr ⟨b, hb, hn⟩)))
  refine ⟨?_, hread _ ?_, ?_, ?_⟩
  · refine (List.map_congr_left ?_).trans (List.map_id _)
    intro b hb
    rw [hread _ (hbet b hb _ List.mem_cons_self),
      hread _ (hbet b hb _ (List.mem_cons_of_mem _ List.mem_cons_self))]
    rfl
  · exact List.mem_cons_of_mem _ List.mem_cons_self
  · show some (jsonNumber job.pool_total_sompi) = _
    rw [hread _ List.mem_cons_self]
  · refine List.map_congr_left ?_
    intro f hf
    rw [hread _ (List.mem_cons_of_mem _ (List.mem_cons_of_mem _
      (List.mem_append_right _ (List.mem_map_of_mem hf))))]

/-! ### What one event can do -/

namespace Queue

/-- What holds of every queue that is reached. -/
structure Inv (q : Queue) : Prop where
  sorted : (q.jobs.map QueueRow.id).Pairwise (· < ·)
  fresh : ∀ r ∈ q.jobs, r.id < q.nextId
  one : ∀ r ∈ q.jobs, ∀ s ∈ q.jobs, r.Live → s.Live → r.market_id = s.market_id → r = s
  busy : ∀ id ∈ q.running, ∃ r ∈ q.jobs, r.id = id ∧ r.status = .in_progress

/-- The two rows are the same but for what the worker writes. -/
def SameJob (r r' : QueueRow) : Prop :=
  r'.id = r.id ∧ r'.market_id = r.market_id ∧ r'.job = r.job

/-- What one event can do to a queue. -/
inductive Moved (q : Queue) : Queue → Prop
  | same : Moved q q
  | restarted : Moved q { q with running := none }
  | enqueued (r : QueueRow) (hid : r.id = q.nextId) (hs : r.status = .pending)
      (hidle : ∀ s ∈ q.jobs, s.market_id = r.market_id → ¬ s.Live) :
      Moved q { q with jobs := q.jobs ++ [r], nextId := q.nextId + 1 }
  | claimed (r r' : QueueRow) (hidle : q.running = none) (hr : r ∈ q.jobs)
      (hs : r.status = .pending)
      (hfirst : ∀ s ∈ q.jobs, s.status = .pending → r.id ≤ s.id) (hsame : SameJob r r')
      (hs' : r'.status = .in_progress) : Moved q { q.put r' with running := some r'.id }
  | finished (r r' : QueueRow) (hbusy : q.running = some r.id) (hr : r ∈ q.jobs)
      (hs : r.status = .in_progress) (hsame : SameJob r r')
      (hs' : r'.status = .done ∨ r'.status = .failed) : Moved q { q.put r' with running := none }
  | retried (r r' : QueueRow) (hr : r ∈ q.jobs) (hs : r.status = .failed)
      (herr : r.error = some .noContinuation)
      (hidle : ∀ s ∈ q.jobs, s.market_id = r.market_id → ¬ s.Live) (hsame : SameJob r r')
      (hs' : r'.status = .pending) : Moved q (q.put r')

variable {e : Engine} {coll : Collation} {q q' : Queue} {r s : QueueRow}

theorem Inv.eq_of_id (h : q.Inv) (hr : r ∈ q.jobs) (hs : s ∈ q.jobs) (hid : r.id = s.id) : r = s :=
  List.inj_on_of_nodup_map (h.sorted.imp fun hlt => Nat.ne_of_lt hlt) hr hs hid

theorem enqueue_moved (a : EnqueueArgs) : Moved q (q.enqueue e coll a) := by
  unfold enqueue
  split
  · next job jobs h =>
    obtain ⟨hq, -⟩ := enqueueZkProveJob_eq_enqueued.mp h
    refine .enqueued _ rfl rfl ?_
    intro s hs hm hlive
    refine hq.idle ⟨s.status, s.job⟩ (List.mem_map_of_mem (List.mem_filter.mpr ⟨hs, ?_⟩)) hlive
    simpa using hm
  · exact .same

/-- The first pending row is the oldest. -/
theorem Inv.first (h : q.Inv) (hfind : (q.jobs.find? fun r => r.status = .pending) = some r) :
    r ∈ q.jobs ∧ r.status = .pending ∧ ∀ s ∈ q.jobs, s.status = .pending → r.id ≤ s.id := by
  obtain ⟨hs, before, after, hsplit, hbefore⟩ := List.find?_eq_some_iff_append.mp hfind
  refine ⟨List.mem_of_find?_eq_some hfind, of_decide_eq_true hs, ?_⟩
  intro s hmem hpending
  rw [hsplit] at hmem
  rcases List.mem_append.mp hmem with hmem | hmem
  · exact absurd (hbefore s hmem) (by simp [hpending])
  · rcases List.mem_cons.mp hmem with rfl | hmem
    · exact Nat.le_refl _
    · have hsorted := h.sorted
      rw [hsplit, List.map_append, List.map_cons] at hsorted
      have hrest := (List.pairwise_append.mp hsorted).2.1
      exact Nat.le_of_lt ((List.pairwise_cons.mp hrest).1 _ (List.mem_map_of_mem hmem))

theorem claim_moved (h : q.Inv) : Moved q q.claim := by
  unfold claim
  split
  · exact .same
  · next hidle =>
    rw [Bool.not_eq_true, Option.isSome_eq_false_iff, Option.isNone_iff_eq_none] at hidle
    split
    · exact .same
    · next r hfind =>
      obtain ⟨hmem, hs, hfirst⟩ := h.first hfind
      exact .claimed r _ hidle hmem hs hfirst ⟨rfl, rfl, rfl⟩ rfl

theorem finished_same (env : Prover) (r : QueueRow) :
    SameJob r (finished env r) ∧
      ((finished env r).status = .done ∨ (finished env r).status = .failed) := by
  unfold finished
  split
  · exact ⟨⟨rfl, rfl, rfl⟩, Or.inl rfl⟩
  · exact ⟨⟨rfl, rfl, rfl⟩, Or.inr rfl⟩

theorem finish_moved (env : Prover) (h : q.Inv) : Moved q (q.finish env) := by
  unfold finish
  split
  · exact .restarted
  · next r hfind =>
    obtain ⟨id, hrun, hfind⟩ := Option.bind_eq_some_iff.mp hfind
    have hmem := List.mem_of_find?_eq_some hfind
    have hid : r.id = id := by simpa using List.find?_some hfind
    obtain ⟨s, hs, hsid, hbusy⟩ := h.busy id hrun
    obtain rfl := h.eq_of_id hmem hs (hid.trans hsid.symm)
    obtain ⟨hsame, hdone⟩ := finished_same env r
    exact .finished r _ (hid ▸ hrun) hmem hbusy hsame hdone

theorem retry_moved (market_id : String) : Moved q (q.retry market_id) := by
  unfold retry
  split
  · exact .same
  · next r hlast =>
    have hmem := List.mem_of_getLast? hlast
    rw [List.mem_filter, decide_eq_true_iff] at hmem
    obtain ⟨hmem, hm, hs⟩ := hmem
    split
    · next hcond =>
      refine .retried r _ hmem hs hcond.1 ?_ ⟨rfl, rfl, rfl⟩ rfl
      intro t ht hmarket
      exact hcond.2 t ht (hmarket.trans hm)
    · exact .same

/-- **What one event can do to the queue.** -/
theorem step_moved (h : q.Inv) (ev : Event) : Moved q (q.step e coll ev) := by
  cases ev with
  | enqueue a => exact enqueue_moved a
  | tick => exact claim_moved h
  | finish env => exact finish_moved env h
  | restart => exact .restarted
  | retry market_id => exact retry_moved market_id

/-! ### The invariant -/

theorem mem_put {r' : QueueRow} :
    s ∈ (q.put r').jobs → (s = r' ∧ ∃ t ∈ q.jobs, t.id = r'.id) ∨ (s ∈ q.jobs ∧ s.id ≠ r'.id) := by
  intro hs
  obtain ⟨t, ht, heq⟩ := List.mem_map.mp hs
  by_cases hid : t.id = r'.id
  · rw [if_pos hid] at heq
    exact Or.inl ⟨heq.symm, t, ht, hid⟩
  · rw [if_neg hid] at heq
    exact Or.inr ⟨heq ▸ ht, heq ▸ hid⟩

theorem put_mem {r' : QueueRow} (hr : r ∈ q.jobs) (hid : r'.id = r.id) : r' ∈ (q.put r').jobs :=
  List.mem_map.mpr ⟨r, hr, if_pos hid.symm⟩

theorem put_mem_of_ne {r' : QueueRow} (hs : s ∈ q.jobs) (hid : s.id ≠ r'.id) :
    s ∈ (q.put r').jobs :=
  List.mem_map.mpr ⟨s, hs, if_neg hid⟩

theorem put_ids {r' : QueueRow} : (q.put r').jobs.map QueueRow.id = q.jobs.map QueueRow.id := by
  rw [put, List.map_map]
  refine List.map_congr_left ?_
  intro s _
  rw [Function.comp_apply]
  split
  · next h => exact h.symm
  · rfl

/-- A row may be replaced by one that is live only if it was, or if no row of its market is. -/
theorem Inv.put (h : q.Inv) {r' : QueueRow} (hr : r ∈ q.jobs) (hsame : SameJob r r')
    (hlive : r'.Live → r.Live ∨ ∀ s ∈ q.jobs, s.market_id = r.market_id → ¬ s.Live)
    {running : Option Nat} (hbusy : ∀ id ∈ running, ∃ s ∈ (q.put r').jobs, s.id = id ∧
      s.status = .in_progress) : ({ q.put r' with running := running } : Queue).Inv := by
  obtain ⟨hid, hmarket, -⟩ := hsame
  have hother : ∀ s ∈ q.jobs, s.id ≠ r'.id → r'.Live → s.Live → s.market_id ≠ r'.market_id := by
    intro s hs hne hl hl' hm
    rw [hmarket] at hm
    rcases hlive hl with hr' | hidle
    · exact hne ((h.one s hs r hr hl' hr' hm) ▸ hid.symm)
    · exact hidle s hs hm hl'
  refine ⟨?_, ?_, ?_, hbusy⟩
  · show ((q.put r').jobs.map QueueRow.id).Pairwise _
    rw [put_ids]
    exact h.sorted
  · intro s hs
    rcases mem_put hs with ⟨rfl, -⟩ | ⟨hs, -⟩
    · exact hid ▸ h.fresh r hr
    · exact h.fresh s hs
  · intro s hs t ht hls hlt hm
    rcases mem_put hs with ⟨rfl, -⟩ | ⟨hs', hne⟩
    · rcases mem_put ht with ⟨rfl, -⟩ | ⟨ht, hne'⟩
      · rfl
      · exact absurd hm.symm (hother t ht hne' hls hlt)
    · rcases mem_put ht with ⟨rfl, -⟩ | ⟨ht, -⟩
      · exact absurd hm (hother s hs' hne hlt hls)
      · exact h.one s hs' t ht hls hlt hm

theorem Moved.inv (hm : Moved q q') (h : q.Inv) : q'.Inv := by
  cases hm with
  | same => exact h
  | restarted =>
    refine ⟨h.sorted, h.fresh, h.one, ?_⟩
    intro id hid
    cases hid
  | enqueued r hid hs hidle =>
    have hfresh : ∀ s ∈ q.jobs, s.id < r.id := fun s hs => hid ▸ h.fresh s hs
    refine ⟨?_, ?_, ?_, ?_⟩
    · rw [List.map_append, List.pairwise_append]
      refine ⟨h.sorted, List.pairwise_singleton _ _, ?_⟩
      intro i hi j hj
      obtain ⟨s, hs, rfl⟩ := List.mem_map.mp hi
      obtain rfl := List.mem_singleton.mp hj
      exact hfresh s hs
    · intro s hs
      rcases List.mem_append.mp hs with hs | hs
      · exact Nat.lt_succ_of_lt (h.fresh s hs)
      · rw [List.mem_singleton.mp hs, hid]
        exact Nat.lt_succ_self _
    · intro s hs t ht hls hlt hmarket
      rcases List.mem_append.mp hs with hs | hs
      · rcases List.mem_append.mp ht with ht | ht
        · exact h.one s hs t ht hls hlt hmarket
        · rw [List.mem_singleton.mp ht] at hmarket
          exact absurd hls (hidle s hs hmarket)
      · rcases List.mem_append.mp ht with ht | ht
        · rw [List.mem_singleton.mp hs] at hmarket
          exact absurd hlt (hidle t ht hmarket.symm)
        · rw [List.mem_singleton.mp hs, List.mem_singleton.mp ht]
    · intro id hid
      obtain ⟨s, hs, hsid⟩ := h.busy id hid
      exact ⟨s, List.mem_append_left _ hs, hsid⟩
  | claimed r r' hidle hr hs hfirst hsame hs' =>
    refine h.put hr hsame (fun _ => Or.inl (Or.inl hs)) ?_
    intro id hid
    obtain rfl := Option.some.inj hid
    exact ⟨r', put_mem hr hsame.1, rfl, hs'⟩
  | finished r r' hbusy hr hs hsame hs' =>
    refine h.put hr hsame (fun _ => Or.inl (Or.inr hs)) ?_
    intro id hid
    cases hid
  | retried r r' hr hs herr hidle hsame hs' =>
    refine h.put hr hsame (fun _ => Or.inr hidle) ?_
    intro id hid
    obtain ⟨s, hmem, hsid, hstatus⟩ := h.busy id hid
    refine ⟨s, put_mem_of_ne hmem ?_, hsid, hstatus⟩
    intro heq
    obtain rfl := h.eq_of_id hmem hr (heq.trans hsame.1)
    rw [hs] at hstatus
    cases hstatus

theorem inv_empty : empty.Inv where
  sorted := List.Pairwise.nil
  fresh := by
    intro r hr
    cases hr
  one := by
    intro r hr
    cases hr
  busy := by
    intro id hid
    cases hid

theorem Inv.run (h : q.Inv) (evs : List Event) : (q.run e coll evs).Inv := by
  induction evs generalizing q with
  | nil => exact h
  | cons ev evs ih => exact ih ((step_moved h ev).inv h)

/-! ### How a job moves -/

/-- A job is taken, ends, or goes back when it failed for want of a continuation. -/
inductive Edge (r r' : QueueRow) : Prop
  | stays (h : r' = r)
  | taken (h : r.status = .pending) (h' : r'.status = .in_progress)
  | ended (h : r.status = .in_progress) (h' : r'.status = .done ∨ r'.status = .failed)
  | retried (h : r.status = .failed) (herr : r.error = some .noContinuation)
      (h' : r'.status = .pending)

/-- Every job is still there and has moved along an edge, and a new one is pending. -/
structure Moves (q q' : Queue) : Prop where
  kept : ∀ r ∈ q.jobs, ∃ r' ∈ q'.jobs, SameJob r r' ∧ Edge r r'
  added : ∀ r' ∈ q'.jobs, (∀ r ∈ q.jobs, r.id ≠ r'.id) → r'.status = .pending

theorem Inv.moves_put (h : q.Inv) {r' : QueueRow} (hr : r ∈ q.jobs) (hsame : SameJob r r')
    (hedge : Edge r r') {running : Option Nat} : Moves q { q.put r' with running := running } := by
  refine ⟨?_, ?_⟩
  · intro s hs
    by_cases hid : s.id = r'.id
    · obtain rfl := h.eq_of_id hs hr (hid.trans hsame.1)
      exact ⟨r', put_mem hs hsame.1, hsame, hedge⟩
    · exact ⟨s, put_mem_of_ne hs hid, ⟨rfl, rfl, rfl⟩, .stays rfl⟩
  · intro s hs hnew
    rcases mem_put hs with ⟨rfl, -⟩ | ⟨hs, -⟩
    · exact absurd hsame.1.symm (hnew r hr)
    · exact absurd rfl (hnew s hs)

theorem Moved.moves (hm : Moved q q') (h : q.Inv) : Moves q q' := by
  have hstay : ∀ r ∈ q.jobs, ∃ r' ∈ q.jobs, SameJob r r' ∧ Edge r r' :=
    fun r hr => ⟨r, hr, ⟨rfl, rfl, rfl⟩, .stays rfl⟩
  cases hm with
  | same => exact ⟨hstay, fun r hr hnew => absurd rfl (hnew r hr)⟩
  | restarted => exact ⟨hstay, fun r hr hnew => absurd rfl (hnew r hr)⟩
  | enqueued r hid hs hidle =>
    refine ⟨?_, ?_⟩
    · intro s hs
      exact ⟨s, List.mem_append_left _ hs, ⟨rfl, rfl, rfl⟩, .stays rfl⟩
    · intro s hs' hnew
      rcases List.mem_append.mp hs' with hs' | hs'
      · exact absurd rfl (hnew s hs')
      · rw [List.mem_singleton.mp hs']
        exact hs
  | claimed r r' hidle hr hs hfirst hsame hs' => exact h.moves_put hr hsame (.taken hs hs')
  | finished r r' hbusy hr hs hsame hs' => exact h.moves_put hr hsame (.ended hs hs')
  | retried r r' hr hs herr hidle hsame hs' => exact h.moves_put hr hsame (.retried hs herr hs')

/-! ### A pending job is taken -/

/-- The pending jobs that are older than the `n`-th. -/
def ahead (q : Queue) (n : Nat) : Nat :=
  q.jobs.countP fun r => decide (r.status = .pending ∧ r.id < n)

def Event.isTick : Event → Bool
  | .tick => true
  | _ => false

def Event.isRetry : Event → Bool
  | .retry _ => true
  | _ => false

/-- The ticks that find the worker idle. -/
def idleTicks (e : Engine) (coll : Collation) (q : Queue) : List Event → Nat
  | [] => 0
  | ev :: evs =>
    (if ev.isTick = true ∧ q.running = none then 1 else 0) + idleTicks e coll (q.step e coll ev) evs

theorem Inv.countP_put (h : q.Inv) {r' : QueueRow} (hr : r ∈ q.jobs) (hid : r'.id = r.id)
    (p : QueueRow → Bool) :
    (q.put r').jobs.countP p + (if p r = true then 1 else 0) =
      q.jobs.countP p + if p r' = true then 1 else 0 := by
  obtain ⟨before, after, hsplit⟩ := List.append_of_mem hr
  have hsorted := h.sorted
  rw [hsplit, List.map_append, List.map_cons, List.pairwise_append, List.pairwise_cons] at hsorted
  obtain ⟨-, ⟨hafter, -⟩, hbefore⟩ := hsorted
  have hkeep : ∀ l : List QueueRow, (∀ s ∈ l, s.id ≠ r.id) →
      (l.map fun s => if s.id = r'.id then r' else s) = l := by
    intro l hl
    refine (List.map_congr_left ?_).trans (List.map_id _)
    intro s hs
    rw [if_neg (hid ▸ hl s hs)]
    rfl
  have h₁ := hkeep before fun s hs => Nat.ne_of_lt
    (hbefore _ (List.mem_map_of_mem hs) _ List.mem_cons_self)
  have h₂ := hkeep after fun s hs => Nat.ne_of_gt (hafter _ (List.mem_map_of_mem hs))
  rw [Queue.put, hsplit, List.map_append, List.map_cons, h₁, h₂, if_pos hid.symm,
    List.countP_append, List.countP_cons, List.countP_append, List.countP_cons]
  omega

/-- What replacing a row does to the number of those ahead. -/
theorem Inv.ahead_put (h : q.Inv) {r' : QueueRow} (hr : r ∈ q.jobs) (hid : r'.id = r.id) (n : Nat)
    (running : Option Nat) :
    ({ q.put r' with running := running } : Queue).ahead n +
        (if r.status = .pending ∧ r.id < n then 1 else 0) =
      q.ahead n + if r'.status = .pending ∧ r'.id < n then 1 else 0 := by
  have hcount := h.countP_put hr hid fun s => decide (s.status = .pending ∧ s.id < n)
  simp only [decide_eq_true_iff] at hcount
  exact hcount

/-- A pending job is taken, or there is one job fewer ahead of it for an idle tick, and no more
than one more for a retry. -/
theorem step_rank (h : q.Inv) (hr : r ∈ q.jobs) (hs : r.status = .pending) (ev : Event) :
    (∃ r' ∈ (q.step e coll ev).jobs, r'.id = r.id ∧ r'.status = .in_progress) ∨
      (r ∈ (q.step e coll ev).jobs ∧
        (q.step e coll ev).ahead r.id + (if ev.isTick = true ∧ q.running = none then 1 else 0) ≤
          q.ahead r.id + if ev.isRetry = true then 1 else 0) := by
  -- a row that is not pending is another one
  have hother : ∀ s ∈ q.jobs, s.status ≠ .pending → r.id ≠ s.id := by
    intro s hmem hne hid
    obtain rfl := h.eq_of_id hr hmem hid
    exact hne hs
  cases ev with
  | enqueue a =>
    refine Or.inr ⟨?_, ?_⟩
    · show r ∈ (q.enqueue e coll a).jobs
      unfold enqueue
      split
      · exact List.mem_append_left _ hr
      · exact hr
    · show (q.enqueue e coll a).ahead r.id ≤ q.ahead r.id
      unfold enqueue
      split
      · have hnew : ¬ q.nextId < r.id := Nat.not_lt_of_gt (h.fresh r hr)
        simp [ahead, hnew]
      · exact Nat.le_refl _
  | tick =>
    show (∃ r' ∈ q.claim.jobs, _) ∨ (r ∈ q.claim.jobs ∧ q.claim.ahead r.id + _ ≤ _)
    cases hrun : q.running with
    | some id =>
      have hclaim : q.claim = q := by simp [claim, hrun]
      rw [hclaim]
      exact Or.inr ⟨hr, by simp⟩
    | none =>
      have hsome : (q.jobs.find? fun r => r.status = .pending).isSome := by
        rw [List.find?_isSome]
        exact ⟨r, hr, decide_eq_true hs⟩
      obtain ⟨s, hfind⟩ := Option.isSome_iff_exists.mp hsome
      obtain ⟨hmem, hpending, hfirst⟩ := h.first hfind
      have hclaim : q.claim =
          { q.put { s with status := .in_progress } with running := some s.id } := by
        simp [claim, hrun, hfind]
      rw [hclaim]
      by_cases hid : s.id = r.id
      · exact Or.inl ⟨{ s with status := .in_progress }, put_mem hmem rfl, hid, rfl⟩
      · have hlt : s.id < r.id := Nat.lt_of_le_of_ne (hfirst r hr hs) hid
        have hput : ({ s with status := .in_progress } : QueueRow).id = s.id := rfl
        have hahead := h.ahead_put hmem hput r.id (some s.id)
        simp only [hpending, hlt, and_self, if_true, reduceCtorEq, false_and, if_false] at hahead
        refine Or.inr ⟨put_mem_of_ne hr (Ne.symm hid), ?_⟩
        simp only [Event.isTick, Event.isRetry, and_self, if_true, Bool.false_eq_true, if_false]
        exact hahead.le
  | finish env =>
    show (∃ r' ∈ (q.finish env).jobs, _) ∨
      (r ∈ (q.finish env).jobs ∧ (q.finish env).ahead r.id ≤ q.ahead r.id)
    unfold finish
    split
    · exact Or.inr ⟨hr, Nat.le_refl _⟩
    · next s hfind =>
      obtain ⟨id, hrun, hfind⟩ := Option.bind_eq_some_iff.mp hfind
      have hmem := List.mem_of_find?_eq_some hfind
      have hid : s.id = id := by simpa using List.find?_some hfind
      obtain ⟨t, ht, htid, hbusy⟩ := h.busy id hrun
      obtain rfl := h.eq_of_id hmem ht (hid.trans htid.symm)
      obtain ⟨hsame, hdone⟩ := finished_same env s
      have hne : s.status ≠ .pending := by simp [hbusy]
      have hne' : (finished env s).status ≠ .pending := by
        rcases hdone with hdone | hdone <;> simp [hdone]
      have hahead := h.ahead_put hmem hsame.1 r.id none
      rw [if_neg fun hand => hne hand.1, if_neg fun hand => hne' hand.1] at hahead
      exact Or.inr ⟨put_mem_of_ne hr (hsame.1 ▸ hother s hmem hne), hahead.le⟩
  | restart => exact Or.inr ⟨hr, Nat.le_refl _⟩
  | retry market_id =>
    show (∃ r' ∈ (q.retry market_id).jobs, _) ∨
      (r ∈ (q.retry market_id).jobs ∧ (q.retry market_id).ahead r.id ≤ q.ahead r.id + 1)
    unfold retry
    split
    · exact Or.inr ⟨hr, Nat.le_succ _⟩
    · next s hlast =>
      have hmem := List.mem_of_getLast? hlast
      rw [List.mem_filter, decide_eq_true_iff] at hmem
      obtain ⟨hmem, -, hfailed⟩ := hmem
      have hne : s.status ≠ .pending := by simp [hfailed]
      split
      · have hput : ({ s with status := .pending, error := none } : QueueRow).id = s.id := rfl
        have hahead := h.ahead_put hmem hput r.id q.running
        rw [if_neg fun hand => hne hand.1] at hahead
        refine Or.inr ⟨put_mem_of_ne hr (hother s hmem hne), ?_⟩
        refine hahead.le.trans (Nat.add_le_add_left ?_ _)
        split
        · exact Nat.le_refl 1
        · exact Nat.zero_le 1
      · exact Or.inr ⟨hr, Nat.le_succ _⟩

/-- **A pending job is taken**, once the worker has been idle for more ticks than there are jobs
ahead of it and retries of others. -/
theorem picked_up (h : q.Inv) (hr : r ∈ q.jobs) (hs : r.status = .pending) {evs : List Event}
    (hticks : q.ahead r.id + evs.countP Event.isRetry < idleTicks e coll q evs) :
    ∃ before, before <+: evs ∧ ∃ r' ∈ (q.run e coll before).jobs,
      r'.id = r.id ∧ r'.status = .in_progress := by
  induction evs generalizing q with
  | nil => exact absurd hticks (Nat.not_lt_zero _)
  | cons ev evs ih =>
    rcases step_rank h hr hs ev with htaken | ⟨hstay, hrank⟩
    · exact ⟨[ev], List.prefix_append [ev] evs, htaken⟩
    · rw [idleTicks, List.countP_cons] at hticks
      obtain ⟨before, hbefore, htaken⟩ := ih ((step_moved h ev).inv h) hstay (by omega)
      exact ⟨ev :: before, List.cons_prefix_cons.mpr ⟨rfl, hbefore⟩, htaken⟩

/-! ### A job that nobody works on -/

/-- A job in progress that this process does not know of stays as it is. -/
theorem Moved.abandoned (hm : Moved q q') (h : q.Inv) (hr : r ∈ q.jobs)
    (hs : r.status = .in_progress) (hrun : q.running ≠ some r.id) :
    r ∈ q'.jobs ∧ q'.running ≠ some r.id := by
  have hother : ∀ {s r' : QueueRow}, s ∈ q.jobs → SameJob s r' → s.status ≠ .in_progress →
      r.id ≠ r'.id := by
    intro s r' hmem hsame hne hid
    obtain rfl := h.eq_of_id hr hmem (hid.trans hsame.1)
    exact hne hs
  cases hm with
  | same => exact ⟨hr, hrun⟩
  | restarted => exact ⟨hr, (Option.some_ne_none _).symm⟩
  | enqueued s hid hs' hidle => exact ⟨List.mem_append_left _ hr, hrun⟩
  | claimed s r' hidle hmem hpending hfirst hsame hs' =>
    have hne := hother hmem hsame (by simp [hpending])
    exact ⟨put_mem_of_ne hr hne, fun heq => hne (Option.some.inj heq).symm⟩
  | finished s r' hbusy hmem hprogress hsame hs' =>
    have hne : r.id ≠ r'.id := by
      intro hid
      exact hrun (hbusy.trans (congrArg some (hid.trans hsame.1).symm))
    exact ⟨put_mem_of_ne hr hne, (Option.some_ne_none _).symm⟩
  | retried s r' hmem hfailed herr hidle hsame hs' =>
    exact ⟨put_mem_of_ne hr (hother hmem hsame (by simp [hfailed])), hrun⟩

/-- **It stays for ever**, and its market is not queued again. -/
theorem abandoned (h : q.Inv) (hr : r ∈ q.jobs) (hs : r.status = .in_progress)
    (hrun : q.running ≠ some r.id) (evs : List Event) :
    r ∈ (q.run e coll evs).jobs ∧ ∀ a : EnqueueArgs, a.market_id = r.market_id →
      (q.run e coll evs).enqueue e coll a = q.run e coll evs := by
  induction evs generalizing q with
  | nil =>
    refine ⟨hr, ?_⟩
    intro a ha
    have hactive : ∃ j ∈ q.rowsOf a.market_id, j.Active := by
      refine ⟨⟨r.status, r.job⟩, List.mem_map_of_mem (List.mem_filter.mpr ⟨hr, ?_⟩), Or.inr hs⟩
      simpa using ha.symm
    show q.enqueue e coll a = q
    rw [enqueue, enqueueZkProveJob, if_pos hactive]
  | cons ev evs ih =>
    obtain ⟨hstay, hrun'⟩ := (step_moved h ev).abandoned h hr hs hrun
    exact ih ((step_moved h ev).inv h) hstay hrun'

/-- **What holds of every run.**  A market has one live job at most.  A job goes from pending to in
progress to done or failed, and back to pending only when it failed for want of a continuation.
Amounts below 2^53 reach the guest as they were queued.  A pending job is taken by a later tick,
whether the process has been restarted or not; one that was in progress when the process stopped
is left as it is. -/
theorem prove_jobs_amended (e : Engine) (coll : Collation) (evs : List Event) :
    let q := empty.run e coll evs
    (∀ r ∈ q.jobs, ∀ s ∈ q.jobs, r.Live → s.Live → r.market_id = s.market_id → r = s) ∧
    (∀ ev, Moves q (q.step e coll ev)) ∧
    (∀ r ∈ q.jobs, (∀ n ∈ r.job.amounts, 0 ≤ n ∧ n < 2 ^ 53) → Exact (guestInput r.job) r.job) ∧
    (∀ r ∈ q.jobs, r.status = .pending → ∀ more,
      q.ahead r.id + more.countP Event.isRetry < idleTicks e coll q more →
        ∃ before, before <+: more ∧ ∃ r' ∈ (q.run e coll before).jobs,
          r'.id = r.id ∧ r'.status = .in_progress) ∧
    (∀ r ∈ q.jobs, r.status = .in_progress → q.running ≠ some r.id → ∀ more,
      r ∈ (q.run e coll more).jobs ∧ ∀ a : EnqueueArgs, a.market_id = r.market_id →
        (q.run e coll more).enqueue e coll a = q.run e coll more) := by
  have h : (empty.run e coll evs).Inv := inv_empty.run evs
  refine ⟨h.one, ?_, ?_, ?_, ?_⟩
  · intro ev
    exact (step_moved h ev).moves h
  · intro r _ hsmall
    exact guestInput_exact hsmall
  · intro r hr hs more hticks
    exact picked_up h hr hs hticks
  · intro r hr hs hrun more
    exact abandoned h hr hs hrun more

/-! ### A market whose job is left, and one whose job goes back -/

section Sample

private def sampleColl : Collation := proveCtx.coll

private def row (job : ProveJob) : QueueRow where
  id := 1
  market_id := "m1"
  status := .pending
  job := job
  error := none
  proof := none

/-- A prover that finds no continuation. -/
private def early : Prover where
  settlerRelay := true
  gateTmplHashFresh := true
  hasZkContinuation := false
  spawnCargoProve := fun _ => none
  computeJournalHash := fun _ _ _ => []
  buildAndFundGate := fun _ _ => false
  updateProvingReady := false

/-- The close of a market is signed, and its job is queued. -/
private theorem queued_sample : ∃ (a : EnqueueArgs) (job : ProveJob), job.fee_leaves ≠ [] ∧
    empty.run sampleEngine sampleColl [.enqueue a] = ⟨[row job], 2, none⟩ := by
  obtain ⟨spliced, p, hs⟩ := proveSigns (some 2)
  have hm := proveSame (some 2) spliced
  obtain ⟨values, -, -, hvalues, -⟩ := hs.landed hm.pool
  have hfees := (deriveCloseFeeLeaves_of_pays hm hs.fees provePays).2
  obtain ⟨job, hq⟩ := hs.queued hm rfl (fun j hj => absurd hj List.not_mem_nil) hfees hvalues
  have hjob := enqueueZkProveJob_eq_enqueued.mpr ⟨hq, rfl⟩
  have hsome : job.fee_leaves ≠ [] := by
    rw [hq.fees]
    exact hfees
  refine ⟨⟨"m1", proveDb (some 2), (proveRequest (some 2) spliced).psRedeem, values,
    proveFees (some 2)⟩, job, hsome, ?_⟩
  show enqueue sampleEngine sampleColl empty _ = _
  unfold enqueue
  have hdb : ({ proveDb (some 2) with zk_prove_jobs := empty.rowsOf "m1" } : ProveDb) =
      proveDb (some 2) := rfl
  simp only [hdb]
  rw [sampleColl, hjob]
  rfl

private def bigJob : ProveJob where
  ordered_bets := [⟨[], 9007199254740993, 0⟩]
  bets_root := []
  attested_winner := 0
  fee_leaves := []
  pool_total_sompi := 9007199254740993

/-- A job is in progress when the process stops, and is so for ever after.  Another fails and is
pending again.  And a stake of 2^53 + 1 reaches the guest as another. -/
theorem job_abandoned :
    (∃ (a : EnqueueArgs) (r : QueueRow), r.status = .in_progress ∧ ∀ more : List Event,
      r ∈ (empty.run sampleEngine sampleColl ([.enqueue a, .tick, .restart] ++ more)).jobs) ∧
    (∃ (a : EnqueueArgs) (r r' : QueueRow), r.status = .failed ∧ r'.status = .pending ∧
      r'.id = r.id ∧
      r ∈ (empty.run sampleEngine sampleColl [.enqueue a, .tick, .finish early]).jobs ∧
      r' ∈ (empty.run sampleEngine sampleColl
        [.enqueue a, .tick, .finish early, .retry "m1"]).jobs) ∧
    ∃ job : ProveJob, (∀ n ∈ job.amounts, 0 ≤ n ∧ n < 2 ^ 63) ∧ ¬ Exact (guestInput job) job := by
  obtain ⟨a, job, hfees, hqueued⟩ := queued_sample
  have hrun : ∀ evs, empty.run sampleEngine sampleColl (.enqueue a :: evs) =
      run sampleEngine sampleColl ⟨[row job], 2, none⟩ evs := by
    intro evs
    rw [← hqueued]
    rfl
  refine ⟨?_, ?_, ?_⟩
  · refine ⟨a, { row job with status := .in_progress }, rfl, ?_⟩
    intro more
    have h : (empty.run sampleEngine sampleColl [.enqueue a, .tick, .restart]).Inv :=
      inv_empty.run _
    rw [hrun] at h
    show _ ∈ (empty.run sampleEngine sampleColl (.enqueue a :: .tick :: .restart :: more)).jobs
    rw [hrun]
    exact (abandoned h List.mem_cons_self rfl (Option.some_ne_none _).symm more).1
  · have hfail : finished early { row job with status := .in_progress } =
        { row job with status := .failed, error := some .noContinuation } := by
      have hjob : proveJob early job = .error .noContinuation := by
        simp only [proveJob, early, check, if_true, if_pos hfees, Bool.false_eq_true, if_false]
        rfl
      have hjob' : proveJob early ({ row job with status := .in_progress } : QueueRow).job =
        .error .noContinuation := hjob
      rw [finished, hjob']
    have hfinished : run sampleEngine sampleColl ⟨[row job], 2, none⟩ [.tick, .finish early] =
        ⟨[{ row job with status := .failed, error := some .noContinuation }], 2, none⟩ := by
      show { put ⟨[{ row job with status := .in_progress }], 2, some 1⟩
        (finished early { row job with status := .in_progress }) with running := none } = _
      rw [hfail]
      rfl
    refine ⟨a, { row job with status := .failed, error := some .noContinuation }, row job, rfl, rfl,
      rfl, ?_, ?_⟩
    · rw [hrun, hfinished]
      exact List.mem_cons_self
    · rw [hrun]
      show row job ∈ (run sampleEngine sampleColl (run sampleEngine sampleColl
        ⟨[row job], 2, none⟩ [.tick, .finish early]) [.retry "m1"]).jobs
      rw [hfinished]
      exact List.mem_cons_self
  · refine ⟨bigJob, by decide, ?_⟩
    intro h
    exact absurd h.pool (by decide +kernel)

end Sample

end Queue

end KANet.Settle
