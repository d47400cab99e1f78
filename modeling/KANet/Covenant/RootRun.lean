import KANet.Covenant.RootCascade
import KANet.Lib.Runs
import Mathlib.Data.List.Pairwise
import Mathlib.Data.List.Perm.Subperm

/-!
# What a sealed pool pays

Spends of any number of pools, each through its three contracts.  A transaction that spends several
pools is several actions with one number.  What the ledger guarantees is that no coin is spent twice
(`Ledger`); which coins are tickets of a registration is given by their outpoints.

A conversion that is given other template bytes than the compiled ones leaves the pool under a
script nobody knows; such a pool is followed no further.

* `Registration.spec` — what a registration leaves.
* `Pool.Good.step` — one spend.
* `Inv.step` — what it adds to the draws so far.
* `settlement_of_run` — what a run pays, when no ticket is imitated and no output is shared.
-/

namespace KANet.Covenant.Root

open KANet.Lib KANet.Script

/-! ### Registrations -/

/-- The number of a transaction, and the index of the output as a script says it. -/
abbrev Outpoint := Nat × Int

/-- A bet that a leaf has taken. -/
structure Registration (e : Engine) where
  no : Nat
  contract : PoolLeaf.Contract
  state : ShardLeaf.State
  next : ShardLeaf.State
  tx : Tx
  wit : ShardLeaf.RegisterWitness
  accepted : PoolLeaf.register_append e i64 contract state tx wit = some next

/-- The ticket it made. -/
def Registration.tk {e : Engine} (r : Registration e) : Tk where
  bettorPk := r.wit.bettorPk
  direction := r.wit.side
  stake := r.wit.stake
  shardPoolId := r.contract.shard_pool_id

def Registration.outpoint {e : Engine} (r : Registration e) : Outpoint := (r.no, r.wit.psOutIdx)

/-- The ticket is locked to its output, and its stake is in the pool. -/
theorem Registration.spec {e : Engine} (r : Registration e) :
    r.tx.Continues e r.wit.ps_template r.wit.psOutIdx r.tk.fields ∧
      r.next.pool_value = r.state.pool_value + r.tk.stake := by
  obtain ⟨hticket, -, -, -, hpool⟩ := PoolLeaf.register_append_spec r.accepted
  exact ⟨hticket, hpool⟩

/-- The registrations there have been, each under the outpoint of its ticket. -/
structure Registry (e : Engine) where
  find : Outpoint → Option (Registration e)
  outpoint_eq : ∀ o r, find o = some r → r.outpoint = o

/-! ### Spends -/

/-- The constructor arguments of the three contracts of a pool. -/
structure Market where
  close : CloseContract
  ps_tmpl_hash : Bytes32
  shard_pool_id : Bytes32
  claim_template : Template
  refundclaim_template : Template

def Market.claim (m : Market) : DrawContract := ⟨m.ps_tmpl_hash, m.shard_pool_id, m.claim_template⟩

def Market.refundclaim (m : Market) : DrawContract :=
  ⟨m.ps_tmpl_hash, m.shard_pool_id, m.refundclaim_template⟩

/-- The contract that a pool is under, and its state. -/
inductive Phase
  | close (s : RootState)
  | claim (s : RootState) (claimed_bitmap : Int)
  | refund (s : RootState)
  | stray (s : RootState)

def Phase.state : Phase → RootState
  | .close s => s
  | .claim s _ => s
  | .refund s => s
  | .stray s => s

inductive Entry
  | close_commit (wit : CloseWitness)
  | refund_flip (rootOutIdx : Int)
  | convert_to_claim (claimOutIdx : Int) (claim : Template)
  | convert_to_refundclaim (rcOutIdx : Int) (rc : Template)
  | claim_draw (wit : ClaimWitness)
  | refund_payout (wit : RefundWitness)

/-- The output that the pool goes on in. -/
def Entry.rootOutIdx : Entry → Int
  | .close_commit wit => wit.rootOutIdx
  | .refund_flip i => i
  | .convert_to_claim i _ => i
  | .convert_to_refundclaim i _ => i
  | .claim_draw wit => wit.rootOutIdx
  | .refund_payout wit => wit.rootOutIdx

/-- The outputs that the spender points to. -/
def Entry.points : Entry → List Int
  | .claim_draw wit => [wit.rootOutIdx, wit.payoutOutIdx]
  | .refund_payout wit => [wit.rootOutIdx, wit.payoutOutIdx]
  | entry => [entry.rootOutIdx]

/-- The input that is read as a ticket, and what it is read as. -/
def Entry.reveals : Entry → Option (Int × Tk)
  | .claim_draw wit => some (wit.ticketInIdx, wit.tk)
  | .refund_payout wit => some (wit.ticketInIdx, wit.tk)
  | _ => none

theorem Entry.rootOutIdx_mem (entry : Entry) : entry.rootOutIdx ∈ entry.points := by
  cases entry <;> exact List.mem_cons_self

/-- The spend of one pool in a transaction. -/
structure Action (ι : Type) where
  no : Nat
  tx : Tx
  prevouts : List Outpoint
  pool : ι
  entry : Entry

/-- What a spend pays: a leaf in a slot, or a stake. -/
structure Draw (ι : Type) where
  no : Nat
  pool : ι
  ticket : Outpoint
  tk : Tk
  amount : Int
  outIdx : Int
  slot : Option Int

variable {ι : Type}

def spend (e : Engine) (m : Market) (a : Action ι) : Phase → Option (Phase × List (Draw ι))
  | .close s =>
    match a.entry with
    | .close_commit wit => (close_commit e m.close s a.tx wit).map fun next => (.close next, [])
    | .refund_flip i => (refund_flip e i64 m.close s a.tx i).map fun next => (.close next, [])
    | .convert_to_claim i claim => (convert_to_claim e m.close s a.tx i claim).map fun _ =>
      (if claim = m.claim_template then .claim s 0 else .stray s, [])
    | .convert_to_refundclaim i rc => (convert_to_refundclaim e m.close s a.tx i rc).map fun _ =>
      (if rc = m.refundclaim_template then .refund s else .stray s, [])
    | _ => none
  | .claim s bitmap =>
    match a.entry with
    | .claim_draw wit => do
      let (next, marked) ← claim_draw e i64 m.claim s bitmap a.tx wit
      let ticket ← atIndex a.prevouts wit.ticketInIdx
      some (.claim next marked, [⟨a.no, a.pool, ticket, wit.tk, wit.payout, wit.payoutOutIdx,
        some wit.merkle_index⟩])
    | _ => none
  | .refund s =>
    match a.entry with
    | .refund_payout wit => do
      let next ← refund_payout e i64 m.refundclaim s a.tx wit
      let ticket ← atIndex a.prevouts wit.ticketInIdx
      some (.refund next, [⟨a.no, a.pool, ticket, wit.tk, wit.tk.stake, wit.payoutOutIdx, none⟩])
    | _ => none
  | .stray _ => none

/-! ### Runs -/

/-- A pool: what it was sealed with, the coin that holds it, and what that is worth. -/
structure Pool where
  market : Market
  sealedValue : Int
  coin : Outpoint
  value : Nat
  phase : Phase

structure World (ι : Type) where
  pools : ι → Pool
  draws : List (Draw ι)

variable [DecidableEq ι]

/-- One spend: the pool's coin is among the inputs, and goes on in the output that is named. -/
def Step (e : Engine) (w : World ι) (a : Action ι) (w' : World ι) : Prop :=
  ∃ phase draws out, spend e (w.pools a.pool).market a (w.pools a.pool).phase =
      some (phase, draws) ∧
    (∃ i inp, atIndex a.prevouts i = some (w.pools a.pool).coin ∧ a.tx.input i = some inp ∧
      inp.value = (w.pools a.pool).value) ∧
    a.tx.output a.entry.rootOutIdx = some out ∧
    w'.pools = Function.update w.pools a.pool { w.pools a.pool with
      coin := (a.no, a.entry.rootOutIdx), value := out.value, phase := phase } ∧
    w'.draws = w.draws ++ draws

/-- The ledger's own rule: the actions of one number are of one transaction and of different pools,
and no coin is spent by two transactions. -/
structure Ledger (evs : List (Action ι)) : Prop where
  inputs : ∀ a ∈ evs, a.prevouts.length = a.tx.inputs.length
  nodup : ∀ a ∈ evs, a.prevouts.Nodup
  together : evs.Pairwise fun a b => a.no = b.no →
    a.pool ≠ b.pool ∧ a.tx = b.tx ∧ a.prevouts = b.prevouts
  once : evs.Pairwise fun a b => a.no ≠ b.no → List.Disjoint a.prevouts b.prevouts

/-- The pools are freshly sealed, and there are no two of one name. -/
structure Sealed (w : World ι) (evs : List (Action ι)) : Prop where
  draws : w.draws = []
  closed : ∀ k, ∃ s, (w.pools k).phase = .close s ∧ s.closed = 0 ∧
    s.pool_value = (w.pools k).sealedValue ∧ ((w.pools k).value : Int) = (w.pools k).sealedValue
  ids : Function.Injective fun k => (w.pools k).market.shard_pool_id
  coins : Function.Injective fun k => (w.pools k).coin
  before : ∀ a ∈ evs, ∀ k, (w.pools k).coin.1 ≠ a.no

/-- Nobody imitates a ticket: an input that is read as one is a coin that a registration made, with
that ticket. -/
def Genuine {e : Engine} (registry : Registry e) (evs : List (Action ι)) : Prop :=
  ∀ a ∈ evs, ∀ i tk, a.entry.reveals = some (i, tk) →
    ∃ o r, atIndex a.prevouts i = some o ∧ registry.find o = some r ∧ r.tk = tk

/-- Spends of different pools in a transaction point to different outputs. -/
def Apart (evs : List (Action ι)) : Prop :=
  evs.Pairwise fun a b => a.no = b.no → List.Disjoint a.entry.points b.entry.points

def World.outcome (w : World ι) (k : ι) : Int := (w.pools k).phase.state.closed

/-- What has been drawn from a pool. -/
def World.drawn (w : World ι) (k : ι) : List (Draw ι) := w.draws.filter fun d => d.pool = k

/-- The leaf is in slot `i` under the root. -/
def Draw.Opens (e : Engine) (root : Bytes32) (d : Draw ι) (i : Int) : Prop :=
  ∃ leaf siblings, payoutLeaf e d.tk.bettorPk d.amount = some leaf ∧
    Merkle.climb (hashNode e) i.toNat leaf siblings = root

/-- The draw is an output of its transaction, and what it was drawn with is a registered ticket of
the pool. -/
structure Draw.Proper {e : Engine} (registry : Registry e) (w₀ : World ι) (evs : List (Action ι))
    (d : Draw ι) : Prop where
  paid : ∃ a ∈ evs, a.no = d.no ∧ a.pool = d.pool ∧
    a.tx.PaysExactly d.outIdx d.tk.bettorPk d.amount
  registered : ∃ r, registry.find d.ticket = some r ∧ r.tk = d.tk
  pool : d.tk.shardPoolId = (w₀.pools d.pool).market.shard_pool_id
  refund : d.slot = none → d.amount = d.tk.stake

/-- **What a run of spends pays.** -/
structure Settlement {e : Engine} (registry : Registry e) (w₀ : World ι) (evs : List (Action ι))
    (w : World ι) : Prop where
  /-- What is settled stays settled, and what is cancelled stays cancelled. -/
  outcome : ∀ pre post m, evs = pre ++ post → Run (Step e) w₀ pre m → Run (Step e) m post w →
    ∀ k, m.outcome k ≠ 0 → w.outcome k = m.outcome k
  /-- Leaves are drawn from settled pools, stakes from cancelled ones. -/
  kinds : ∀ d ∈ w.draws, w.outcome d.pool = if d.slot.isSome then 1 else 2
  /-- Every leaf is in its slot under the root that the pool was settled with. -/
  leaves : ∀ d ∈ w.draws, ∀ i, d.slot = some i →
    d.Opens e (w.pools d.pool).phase.state.payoutRoot i
  /-- No leaf is paid twice. -/
  slots : ∀ k, ((w.drawn k).filterMap Draw.slot).Nodup
  /-- Every draw is paid to the key of a registered ticket, a refund at its stake. -/
  proper : ∀ d ∈ w.draws, d.Proper registry w₀ evs
  /-- No ticket is drawn on twice. -/
  tickets : (w.draws.map Draw.ticket).Nodup
  /-- Every draw has an output of its own. -/
  outputs : (w.draws.map fun d => (d.no, d.outIdx)).Nodup
  /-- The pools are held by different coins. -/
  coins : Function.Injective fun k => (w.pools k).coin
  /-- What is left is what was sealed without what has been paid. -/
  remaining : ∀ k, ((w.pools k).value : Int) =
    (w.pools k).sealedValue - ((w.drawn k).map Draw.amount).sum

/-! ### One pool -/

section Pool

variable {e : Engine} {m : Market} {a : Action ι}

omit [DecidableEq ι] in
/-- **What a spend can do.** -/
inductive Spent (e : Engine) (m : Market) (a : Action ι) : Phase → Phase → List (Draw ι) → Prop
  | closed {s next : RootState} (open_ : s.closed = 0) (outcome : next.closed = 1 ∨ next.closed = 2)
      (pool : next.pool_value = s.pool_value) : Spent e m a (.close s) (.close next) []
  | converted {s : RootState} {phase : Phase}
      (outcome : s.closed = 1 ∧ phase = .claim s 0 ∨ s.closed = 2 ∧ phase = .refund s ∨
        s.closed ≠ 0 ∧ phase = .stray s) : Spent e m a (.close s) phase []
  | claimed {s next : RootState} {bitmap marked : Int} {wit : ClaimWitness} {ticket : Outpoint}
      (entry : a.entry = .claim_draw wit)
      (outpoint : atIndex a.prevouts wit.ticketInIdx = some ticket)
      (spec : Claimed e m.claim s bitmap a.tx wit next marked) :
      Spent e m a (.claim s bitmap) (.claim next marked)
        [⟨a.no, a.pool, ticket, wit.tk, wit.payout, wit.payoutOutIdx, some wit.merkle_index⟩]
  | refunded {s : RootState} {wit : RefundWitness} {ticket : Outpoint}
      (entry : a.entry = .refund_payout wit)
      (outpoint : atIndex a.prevouts wit.ticketInIdx = some ticket) (outcome : s.closed = 2)
      (read : readTicket e m.ps_tmpl_hash a.tx wit.ticketInIdx wit.ticket wit.tk = some ())
      (pool : wit.tk.shardPoolId = m.shard_pool_id)
      (paid : a.tx.PaysExactly wit.payoutOutIdx wit.tk.bettorPk wit.tk.stake) :
      Spent e m a (.refund s) (.refund { s with pool_value := s.pool_value - wit.tk.stake })
        [⟨a.no, a.pool, ticket, wit.tk, wit.tk.stake, wit.payoutOutIdx, none⟩]

omit [DecidableEq ι] in
/-- **The inversion of a spend.**  The output it goes on in is worth the pool. -/
theorem spend_cases {phase phase' : Phase} {draws : List (Draw ι)}
    (h : spend e m a phase = some (phase', draws)) : Spent e m a phase phase' draws ∧
      a.tx.Pays a.entry.rootOutIdx phase'.state.pool_value := by
  cases phase with
  | close s =>
    cases hentry : a.entry with
    | close_commit wit =>
      simp only [spend, hentry, Option.map_eq_some_iff, Prod.mk.injEq] at h
      obtain ⟨next, hnext, rfl, rfl⟩ := h
      obtain ⟨hopen, rfl, -, hpays⟩ := close_commit_spec hnext
      exact ⟨.closed hopen (Or.inl rfl) rfl, hpays⟩
    | refund_flip i =>
      simp only [spend, hentry, Option.map_eq_some_iff, Prod.mk.injEq] at h
      obtain ⟨next, hnext, rfl, rfl⟩ := h
      obtain ⟨hopen, rfl, hpays⟩ := refund_flip_spec hnext
      exact ⟨.closed hopen (Or.inr rfl) rfl, hpays⟩
    | convert_to_claim i claim =>
      simp only [spend, hentry, Option.map_eq_some_iff, Prod.mk.injEq] at h
      obtain ⟨u, hu, rfl, rfl⟩ := h
      obtain ⟨hclosed, hpays⟩ := convert_to_claim_spec hu
      split
      · exact ⟨.converted (Or.inl ⟨hclosed, rfl⟩), hpays⟩
      · exact ⟨.converted (Or.inr (Or.inr ⟨by omega, rfl⟩)), hpays⟩
    | convert_to_refundclaim i rc =>
      simp only [spend, hentry, Option.map_eq_some_iff, Prod.mk.injEq] at h
      obtain ⟨u, hu, rfl, rfl⟩ := h
      obtain ⟨hclosed, hpays⟩ := convert_to_refundclaim_spec hu
      split
      · exact ⟨.converted (Or.inr (Or.inl ⟨hclosed, rfl⟩)), hpays⟩
      · exact ⟨.converted (Or.inr (Or.inr ⟨by omega, rfl⟩)), hpays⟩
    | claim_draw wit =>
      simp only [spend, hentry] at h
      cases h
    | refund_payout wit =>
      simp only [spend, hentry] at h
      cases h
  | claim s bitmap =>
    cases hentry : a.entry with
    | claim_draw wit =>
      simp only [spend, hentry, Option.bind_eq_bind, Option.bind_eq_some_iff, Option.some.injEq,
        Prod.mk.injEq] at h
      obtain ⟨⟨next, marked⟩, hnext, ticket, hticket, rfl, rfl⟩ := h
      have hspec := claim_draw_spec hnext
      refine ⟨.claimed hentry hticket hspec, ?_⟩
      rw [hspec.next_eq]
      exact hspec.pays
    | close_commit _ => simp only [spend, hentry] at h; cases h
    | refund_flip _ => simp only [spend, hentry] at h; cases h
    | convert_to_claim _ _ => simp only [spend, hentry] at h; cases h
    | convert_to_refundclaim _ _ => simp only [spend, hentry] at h; cases h
    | refund_payout _ => simp only [spend, hentry] at h; cases h
  | refund s =>
    cases hentry : a.entry with
    | refund_payout wit =>
      simp only [spend, hentry, Option.bind_eq_bind, Option.bind_eq_some_iff, Option.some.injEq,
        Prod.mk.injEq] at h
      obtain ⟨next, hnext, ticket, hticket, rfl, rfl⟩ := h
      obtain ⟨hclosed, hread, hpool, hpaid, rfl, hpays⟩ := refund_payout_spec hnext
      exact ⟨.refunded hentry hticket hclosed hread hpool hpaid, hpays⟩
    | close_commit _ => simp only [spend, hentry] at h; cases h
    | refund_flip _ => simp only [spend, hentry] at h; cases h
    | convert_to_claim _ _ => simp only [spend, hentry] at h; cases h
    | convert_to_refundclaim _ _ => simp only [spend, hentry] at h; cases h
    | claim_draw _ => simp only [spend, hentry] at h; cases h
  | stray s => cases h

/-- What a draw has from the action it is of. -/
structure Draw.Made (m : Market) (a : Action ι) (d : Draw ι) : Prop where
  no : d.no = a.no
  pool : d.pool = a.pool
  ticket : ∃ i, a.entry.reveals = some (i, d.tk) ∧ atIndex a.prevouts i = some d.ticket
  name : d.tk.shardPoolId = m.shard_pool_id
  point : d.outIdx ∈ a.entry.points
  paid : a.tx.PaysExactly d.outIdx d.tk.bettorPk d.amount
  refund : d.slot = none → d.amount = d.tk.stake

omit [DecidableEq ι] in
theorem Spent.draws {phase phase' : Phase} {draws : List (Draw ι)}
    (h : Spent e m a phase phase' draws) : draws = [] ∨ ∃ d, draws = [d] ∧ d.Made m a := by
  cases h with
  | closed _ _ _ => exact Or.inl rfl
  | converted _ => exact Or.inl rfl
  | claimed hentry hticket hspec =>
    refine Or.inr ⟨_, rfl, rfl, rfl, ⟨_, ?_, hticket⟩, hspec.pool, ?_, hspec.paid, ?_⟩
    · rw [hentry]
      rfl
    · rw [hentry]
      exact List.mem_cons_of_mem _ List.mem_cons_self
    · exact fun hslot => absurd hslot (Option.some_ne_none _)
  | refunded hentry hticket _ _ hname hpaid =>
    refine Or.inr ⟨_, rfl, rfl, rfl, ⟨_, ?_, hticket⟩, hname, ?_, hpaid, fun _ => rfl⟩
    · rw [hentry]
      rfl
    · rw [hentry]
      exact List.mem_cons_of_mem _ List.mem_cons_self

/-- The bitmap says which of the two slots have been drawn. -/
structure Marks (slots : List Int) (bitmap : Int) : Prop where
  nodup : slots.Nodup
  bits : bitmap = (if (0 : Int) ∈ slots then 1 else 0) + if (1 : Int) ∈ slots then 2 else 0

theorem Marks.step {slots : List Int} {bitmap marked i : Int} (h : Marks slots bitmap)
    (hslot : i = 0 ∧ bitmap.tmod 2 = 0 ∧ marked = bitmap + 1 ∨
      i = 1 ∧ (bitmap.tdiv 2).tmod 2 = 0 ∧ marked = bitmap + 2) : Marks (slots ++ [i]) marked := by
  obtain ⟨hnodup, hbits⟩ := h
  rcases hslot with ⟨rfl, hfree, rfl⟩ | ⟨rfl, hfree, rfl⟩
  · have hnew : (0 : Int) ∉ slots := by
      intro hmem
      rw [hbits, if_pos hmem] at hfree
      split at hfree <;> exact absurd hfree (by decide)
    refine ⟨hnodup.append (List.nodup_singleton _) (List.disjoint_singleton.mpr hnew), ?_⟩
    simp only [List.mem_append, List.mem_singleton, hbits, if_neg hnew]
    split <;> simp_all
  · have hnew : (1 : Int) ∉ slots := by
      intro hmem
      rw [hbits, if_pos hmem] at hfree
      split at hfree <;> exact absurd hfree (by decide)
    refine ⟨hnodup.append (List.nodup_singleton _) (List.disjoint_singleton.mpr hnew), ?_⟩
    simp only [List.mem_append, List.mem_singleton, hbits, if_neg hnew]
    split <;> simp_all

/-- What the phase says of the draws so far. -/
def Phase.Drawn (e : Engine) (draws : List (Draw ι)) : Phase → Prop
  | .close _ => draws = []
  | .claim s bitmap => s.closed = 1 ∧
    (∀ d ∈ draws, ∃ i, d.slot = some i ∧ d.Opens e s.payoutRoot i) ∧
    Marks (draws.filterMap Draw.slot) bitmap
  | .refund s => s.closed = 2 ∧ ∀ d ∈ draws, d.slot = none
  | .stray _ => draws = []

/-- A pool that the draws have been paid from. -/
structure Pool.Good (e : Engine) (p : Pool) (draws : List (Draw ι)) : Prop where
  value : (p.value : Int) = p.phase.state.pool_value
  remaining : p.phase.state.pool_value = p.sealedValue - (draws.map Draw.amount).sum
  phase : p.phase.Drawn e draws

omit [DecidableEq ι] in
/-- A spend takes from the pool what it draws. -/
theorem Spent.pool_value {phase phase' : Phase} {draws : List (Draw ι)}
    (h : Spent e m a phase phase' draws) :
    phase'.state.pool_value = phase.state.pool_value - (draws.map Draw.amount).sum := by
  cases h with
  | closed _ _ hpool => simpa [Phase.state] using hpool
  | converted houtcome =>
    obtain ⟨-, rfl⟩ | ⟨-, rfl⟩ | ⟨-, rfl⟩ := houtcome <;> simp [Phase.state]
  | claimed _ _ hspec => simp [Phase.state, hspec.next_eq]
  | refunded _ _ _ _ _ _ => simp [Phase.state]

omit [DecidableEq ι] in
/-- An outcome is not changed. -/
theorem Spent.outcome {phase phase' : Phase} {draws : List (Draw ι)}
    (h : Spent e m a phase phase' draws) (hout : phase.state.closed ≠ 0) :
    phase'.state.closed = phase.state.closed := by
  cases h with
  | closed hopen _ _ => exact absurd hopen hout
  | converted houtcome => obtain ⟨-, rfl⟩ | ⟨-, rfl⟩ | ⟨-, rfl⟩ := houtcome <;> rfl
  | claimed _ _ hspec =>
    rw [hspec.next_eq]
    rfl
  | refunded _ _ _ _ _ _ => rfl

omit [DecidableEq ι] in
theorem Spent.drawn {phase phase' : Phase} {draws before : List (Draw ι)}
    (h : Spent e m a phase phase' draws) (hbefore : phase.Drawn e before) :
    phase'.Drawn e (before ++ draws) := by
  cases h with
  | closed _ _ _ =>
    rw [List.append_nil]
    exact hbefore
  | converted houtcome =>
    have hnone : before = [] := hbefore
    subst hnone
    obtain ⟨hclosed, rfl⟩ | ⟨hclosed, rfl⟩ | ⟨-, rfl⟩ := houtcome
    · exact ⟨hclosed, fun d hd => absurd hd List.not_mem_nil, List.nodup_nil, rfl⟩
    · exact ⟨hclosed, fun d hd => absurd hd List.not_mem_nil⟩
    · rfl
  | claimed _ _ hspec =>
    obtain ⟨hclosed, hopens, hmarks⟩ := hbefore
    obtain ⟨leaf, hleaf, hclimb⟩ := hspec.opens
    rw [hspec.next_eq]
    refine ⟨hclosed, ?_, ?_⟩
    · intro d hd
      rcases List.mem_append.mp hd with hd | hd
      · exact hopens d hd
      · obtain rfl := List.mem_singleton.mp hd
        exact ⟨_, rfl, leaf, _, hleaf, hclimb⟩
    · rw [List.filterMap_append]
      exact hmarks.step hspec.slot
  | refunded _ _ _ _ _ _ =>
    refine ⟨hbefore.1, ?_⟩
    intro d hd
    rcases List.mem_append.mp hd with hd | hd
    · exact hbefore.2 d hd
    · obtain rfl := List.mem_singleton.mp hd
      rfl

omit [DecidableEq ι] in
/-- **The step lemma of a pool.** -/
theorem Pool.Good.step {p : Pool} {before draws : List (Draw ι)} {phase' : Phase} {out : TxOutput}
    (h : p.Good e before) (hspend : spend e m a p.phase = some (phase', draws))
    (hout : a.tx.output a.entry.rootOutIdx = some out) (coin : Outpoint) :
    Pool.Good e { p with coin := coin, value := out.value, phase := phase' } (before ++ draws) := by
  obtain ⟨hspent, out', hout', hvalue⟩ := spend_cases hspend
  rw [hout] at hout'
  obtain rfl := Option.some.inj hout'
  refine ⟨hvalue, ?_, hspent.drawn h.phase⟩
  show phase'.state.pool_value = p.sealedValue - _
  rw [hspent.pool_value, h.remaining, List.map_append, List.sum_append]
  omega

end Pool

/-! ### Every pool -/

section Runs

variable {e : Engine} {registry : Registry e} {w₀ w w' : World ι} {evs pre : List (Action ι)}
  {a : Action ι}

/-- The draws so far, and the coins. -/
structure Inv (e : Engine) (w₀ : World ι) (evs : List (Action ι)) (w : World ι) : Prop where
  good : ∀ k, (w.pools k).Good e (w.drawn k)
  market : ∀ k, (w.pools k).market = (w₀.pools k).market
  made : ∀ d ∈ w.draws, ∃ a ∈ evs, d.Made (w₀.pools a.pool).market a
  tickets : (w.draws.map Draw.ticket).Nodup
  outputs : (w.draws.map fun d => (d.no, d.outIdx)).Nodup
  coins : ∀ k, (w.pools k).coin = (w₀.pools k).coin ∨
    ∃ a ∈ evs, a.pool = k ∧ (w.pools k).coin = (a.no, a.entry.rootOutIdx)

omit [DecidableEq ι] in
/-- What holds of any two actions holds of an earlier one and the last. -/
theorem rel_last {R : Action ι → Action ι → Prop} (h : evs.Pairwise R) (hpre : pre ++ [a] <+: evs) :
    ∀ b ∈ pre, R b a := by
  have hsub := h.sublist hpre.sublist
  rw [List.pairwise_append] at hsub
  exact fun b hb => hsub.2.2 b hb a (List.mem_singleton_self a)

omit [DecidableEq ι] in
/-- What a draw was drawn with is registered, and an input of the action. -/
theorem Draw.Made.genuine {d : Draw ι} (h : d.Made (w₀.pools a.pool).market a)
    (hgenuine : Genuine registry evs) (ha : a ∈ evs) :
    d.ticket ∈ a.prevouts ∧ ∃ r, registry.find d.ticket = some r ∧ r.tk = d.tk := by
  obtain ⟨i, hreveal, hticket⟩ := h.ticket
  obtain ⟨o, r, ho, hr, htk⟩ := hgenuine a ha i d.tk hreveal
  rw [hticket] at ho
  obtain rfl := Option.some.inj ho
  exact ⟨mem_of_atIndex hticket, r, hr, htk⟩

omit [DecidableEq ι] in
/-- Two draws of different actions are drawn with different tickets. -/
theorem Draw.Made.ticket_ne {b : Action ι} {c d : Draw ι} (hsealed : Sealed w₀ evs)
    (hgenuine : Genuine registry evs) (ha : a ∈ evs) (hb : b ∈ evs)
    (htogether : b.no = a.no → b.pool ≠ a.pool)
    (honce : b.no ≠ a.no → List.Disjoint b.prevouts a.prevouts)
    (hc : c.Made (w₀.pools b.pool).market b) (hd : d.Made (w₀.pools a.pool).market a) :
    c.ticket ≠ d.ticket := by
  intro heq
  obtain ⟨hcmem, r, hr, hrc⟩ := hc.genuine hgenuine hb
  obtain ⟨hdmem, r', hr', hrd⟩ := hd.genuine hgenuine ha
  by_cases hno : b.no = a.no
  · -- the ticket names one pool only
    rw [heq, hr'] at hr
    obtain rfl := Option.some.inj hr
    have hname : (w₀.pools b.pool).market.shard_pool_id =
        (w₀.pools a.pool).market.shard_pool_id := by
      rw [← hc.name, ← hd.name, ← hrc, ← hrd]
    exact htogether hno (hsealed.ids hname)
  · exact honce hno hcmem (heq ▸ hdmem)

omit [DecidableEq ι] in
/-- Two draws of different actions have different outputs. -/
theorem Draw.Made.output_ne {b : Action ι} {c d : Draw ι}
    (hapart : b.no = a.no → List.Disjoint b.entry.points a.entry.points)
    (hc : c.Made (w₀.pools b.pool).market b) (hd : d.Made (w₀.pools a.pool).market a) :
    (c.no, c.outIdx) ≠ (d.no, d.outIdx) := by
  intro heq
  obtain ⟨hno, hout⟩ := Prod.mk.inj heq
  rw [hc.no, hd.no] at hno
  exact hapart hno hc.point (hout ▸ hd.point)

/-- What is drawn from a pool after a step. -/
theorem drawn_append {draws : List (Draw ι)} {k : ι} (hw : w'.draws = w.draws ++ draws)
    (hpool : ∀ d ∈ draws, d.pool = a.pool) :
    w'.drawn k = if k = a.pool then w.drawn k ++ draws else w.drawn k := by
  unfold World.drawn
  rw [hw, List.filter_append]
  split
  · next hk =>
    rw [List.filter_eq_self.mpr fun d hd => decide_eq_true ((hpool d hd).trans hk.symm)]
  · next hk =>
    have hnone : draws.filter (fun d => d.pool = k) = [] := by
      rw [List.filter_eq_nil_iff]
      intro d hd hdk
      exact hk ((of_decide_eq_true hdk).symm.trans (hpool d hd))
    rw [hnone, List.append_nil]

theorem Inv.init (h : Sealed w₀ evs) : Inv e w₀ [] w₀ := by
  refine ⟨?_, fun k => rfl, ?_, ?_, ?_, fun k => Or.inl rfl⟩
  · intro k
    obtain ⟨s, hphase, -, hpool, hvalue⟩ := h.closed k
    have hnone : w₀.drawn k = [] := by rw [World.drawn, h.draws, List.filter_nil]
    rw [hnone]
    refine ⟨?_, ?_, ?_⟩
    · rw [hphase, hvalue]
      exact hpool.symm
    · rw [hphase]
      exact hpool.trans (Int.sub_zero _).symm
    · rw [hphase]
      rfl
  · rw [h.draws]
    exact fun d hd => absurd hd List.not_mem_nil
  · rw [h.draws]
    exact List.nodup_nil
  · rw [h.draws]
    exact List.nodup_nil

/-- **The step lemma.** -/
theorem Inv.step (hsealed : Sealed w₀ evs) (hledger : Ledger evs)
    (hgenuine : Genuine registry evs) (hapart : Apart evs) (hpre : pre ++ [a] <+: evs)
    (h : Inv e w₀ pre w) (hstep : Step e w a w') : Inv e w₀ (pre ++ [a]) w' := by
  have ha : a ∈ evs := hpre.subset (List.mem_append_right _ (List.mem_singleton_self a))
  have hmem : ∀ b ∈ pre, b ∈ evs := fun b hb => hpre.subset (List.mem_append_left _ hb)
  obtain ⟨phase, draws, out, hspend, -, hout, hpools, hdraws⟩ := hstep
  have hmade := (spend_cases hspend).1.draws
  rw [h.market a.pool] at hmade
  have hdrawn : ∀ k, w'.drawn k = if k = a.pool then w.drawn k ++ draws else w.drawn k := by
    intro k
    refine drawn_append hdraws ?_
    intro d hd
    obtain rfl | ⟨d', rfl, hd'⟩ := hmade
    · exact absurd hd List.not_mem_nil
    · obtain rfl := List.mem_singleton.mp hd
      exact hd'.pool
  refine ⟨?_, ?_, ?_, ?_, ?_, ?_⟩
  · intro k
    rw [hdrawn, hpools]
    split
    · next hk =>
      subst hk
      rw [Function.update_self]
      exact (h.good a.pool).step hspend hout _
    · next hk =>
      rw [Function.update_of_ne hk]
      exact h.good k
  · intro k
    rw [hpools]
    by_cases hk : k = a.pool
    · subst hk
      rw [Function.update_self]
      exact h.market a.pool
    · rw [Function.update_of_ne hk]
      exact h.market k
  · intro d hd
    rw [hdraws] at hd
    rcases List.mem_append.mp hd with hd | hd
    · obtain ⟨b, hb, hdb⟩ := h.made d hd
      exact ⟨b, List.mem_append_left _ hb, hdb⟩
    · obtain rfl | ⟨d', rfl, hd'⟩ := hmade
      · exact absurd hd List.not_mem_nil
      · obtain rfl := List.mem_singleton.mp hd
        exact ⟨a, List.mem_append_right _ (List.mem_singleton_self a), hd'⟩
  · rw [hdraws, List.map_append]
    obtain rfl | ⟨d, rfl, hd⟩ := hmade
    · simpa using h.tickets
    · refine h.tickets.append (List.nodup_singleton _) (List.disjoint_singleton.mpr ?_)
      rw [List.mem_map]
      rintro ⟨c, hc, heq⟩
      obtain ⟨b, hb, hcb⟩ := h.made c hc
      exact Draw.Made.ticket_ne hsealed hgenuine ha (hmem b hb)
        (fun hno => (rel_last hledger.together hpre b hb hno).1) (rel_last hledger.once hpre b hb)
        hcb hd heq
  · rw [hdraws, List.map_append]
    obtain rfl | ⟨d, rfl, hd⟩ := hmade
    · simpa using h.outputs
    · refine h.outputs.append (List.nodup_singleton _) (List.disjoint_singleton.mpr ?_)
      rw [List.mem_map]
      rintro ⟨c, hc, heq⟩
      obtain ⟨b, hb, hcb⟩ := h.made c hc
      exact Draw.Made.output_ne (rel_last hapart hpre b hb) hcb hd heq
  · intro k
    rw [hpools]
    by_cases hk : k = a.pool
    · subst hk
      rw [Function.update_self]
      exact Or.inr ⟨a, List.mem_append_right _ (List.mem_singleton_self a), rfl, rfl⟩
    · rw [Function.update_of_ne hk]
      rcases h.coins k with hcoin | ⟨b, hb, hbk, hcoin⟩
      · exact Or.inl hcoin
      · exact Or.inr ⟨b, List.mem_append_left _ hb, hbk, hcoin⟩

theorem Inv.run (hsealed : Sealed w₀ evs) (hledger : Ledger evs)
    (hgenuine : Genuine registry evs) (hapart : Apart evs) (h : Run (Step e) w₀ evs w) :
    Inv e w₀ evs w := by
  have hall : evs <+: evs → Inv e w₀ evs w := by
    refine @Run.history _ _ _ (fun pre w => pre <+: evs → Inv e w₀ pre w) ?_ _ _ _ h
      (fun _ => Inv.init hsealed)
    intro pre w a w' hinv hstep hpre
    have hinv' := hinv ((List.prefix_append pre [a]).trans hpre)
    exact hinv'.step hsealed hledger hgenuine hapart hpre hstep
  exact hall List.prefix_rfl

/-- What is settled stays settled. -/
theorem Step.outcome (h : Step e w a w') (k : ι) (hout : w.outcome k ≠ 0) :
    w'.outcome k = w.outcome k := by
  obtain ⟨phase, draws, out, hspend, -, -, hpools, -⟩ := h
  unfold World.outcome
  rw [hpools]
  by_cases hk : k = a.pool
  · subst hk
    rw [Function.update_self]
    exact (spend_cases hspend).1.outcome hout
  · rw [Function.update_of_ne hk]

theorem outcome_run {as : List (Action ι)} (h : Run (Step e) w as w') (k : ι)
    (hout : w.outcome k ≠ 0) : w'.outcome k = w.outcome k := by
  induction h with
  | nil => rfl
  | cons hstep _ ih =>
    have heq := hstep.outcome k hout
    rw [ih (heq ▸ hout), heq]

/-- The pools go on in different coins. -/
theorem Inv.coins_injective (hsealed : Sealed w₀ evs) (hapart : Apart evs) (h : Inv e w₀ evs w) :
    Function.Injective fun k => (w.pools k).coin := by
  intro k l hkl
  by_contra hne
  have hkl' : (w.pools k).coin = (w.pools l).coin := hkl
  rcases h.coins k with hk | ⟨a, ha, rfl, hk⟩
  · rcases h.coins l with hl | ⟨b, hb, rfl, hl⟩
    · exact hne (hsealed.coins ((hk.symm.trans hkl').trans hl))
    · refine hsealed.before b hb k ?_
      rw [← hk, hkl', hl]
  · rcases h.coins l with hl | ⟨b, hb, rfl, hl⟩
    · refine hsealed.before a ha l ?_
      rw [← hl, ← hkl', hk]
    · -- two actions of one transaction that point to one output
      rw [hk, hl] at hkl'
      obtain ⟨hno, hout⟩ := Prod.mk.inj hkl'
      have hab : a ≠ b := fun hab => hne (congrArg Action.pool hab)
      have hsymm : Std.Symm fun a b : Action ι =>
          a.no = b.no → List.Disjoint a.entry.points b.entry.points :=
        ⟨fun _ _ hdis heq _ ha hb => hdis heq.symm hb ha⟩
      exact List.Pairwise.forall hapart ha hb hab hno a.entry.rootOutIdx_mem
        (hout ▸ b.entry.rootOutIdx_mem)

theorem mem_drawn {d : Draw ι} (hd : d ∈ w.draws) : d ∈ w.drawn d.pool :=
  List.mem_filter.mpr ⟨hd, decide_eq_true rfl⟩

/-- **What a run of spends pays**: what it should, if no ticket is imitated and no two spends of a
transaction point to one output. -/
theorem settlement_of_run (hsealed : Sealed w₀ evs) (hledger : Ledger evs)
    (hgenuine : Genuine registry evs) (hapart : Apart evs) (h : Run (Step e) w₀ evs w) :
    Settlement registry w₀ evs w := by
  have hinv := Inv.run hsealed hledger hgenuine hapart h
  refine ⟨?_, ?_, ?_, ?_, ?_, hinv.tickets, hinv.outputs, hinv.coins_injective hsealed hapart, ?_⟩
  · exact fun _ _ _ _ _ hpost k hk => outcome_run hpost k hk
  · intro d hd
    have hphase := (hinv.good d.pool).phase
    have hmem := mem_drawn hd
    unfold World.outcome
    cases hp : (w.pools d.pool).phase with
    | close s =>
      rw [hp] at hphase
      exact absurd hmem (hphase ▸ List.not_mem_nil)
    | claim s bitmap =>
      rw [hp] at hphase
      obtain ⟨i, hi, -⟩ := hphase.2.1 d hmem
      rw [hi]
      exact hphase.1
    | refund s =>
      rw [hp] at hphase
      rw [hphase.2 d hmem]
      exact hphase.1
    | stray s =>
      rw [hp] at hphase
      exact absurd hmem (hphase ▸ List.not_mem_nil)
  · intro d hd i hi
    have hphase := (hinv.good d.pool).phase
    have hmem := mem_drawn hd
    cases hp : (w.pools d.pool).phase with
    | close s =>
      rw [hp] at hphase
      exact absurd hmem (hphase ▸ List.not_mem_nil)
    | claim s bitmap =>
      rw [hp] at hphase
      obtain ⟨j, hj, hopens⟩ := hphase.2.1 d hmem
      rw [hi] at hj
      obtain rfl := Option.some.inj hj
      exact hopens
    | refund s =>
      rw [hp] at hphase
      exact absurd ((hphase.2 d hmem).symm.trans hi) (Option.some_ne_none i).symm
    | stray s =>
      rw [hp] at hphase
      exact absurd hmem (hphase ▸ List.not_mem_nil)
  · intro k
    have hphase := (hinv.good k).phase
    cases hp : (w.pools k).phase with
    | close s =>
      rw [hp] at hphase
      have hnone : w.drawn k = [] := hphase
      rw [hnone]
      exact List.nodup_nil
    | claim s bitmap =>
      rw [hp] at hphase
      exact hphase.2.2.nodup
    | refund s =>
      rw [hp] at hphase
      have hnone : (w.drawn k).filterMap Draw.slot = [] :=
        List.filterMap_eq_nil_iff.mpr fun d hd => hphase.2 d hd
      rw [hnone]
      exact List.nodup_nil
    | stray s =>
      rw [hp] at hphase
      have hnone : w.drawn k = [] := hphase
      rw [hnone]
      exact List.nodup_nil
  · intro d hd
    obtain ⟨a, ha, hmade⟩ := hinv.made d hd
    refine ⟨⟨a, ha, hmade.no.symm, hmade.pool.symm, hmade.paid⟩, (hmade.genuine hgenuine ha).2, ?_,
      hmade.refund⟩
    rw [hmade.pool]
    exact hmade.name
  · intro k
    rw [(hinv.good k).value, (hinv.good k).remaining]

end Runs

/-! ### A pool that is cancelled, and a ticket -/

def sampleTemplate (i : UInt8) : Template := ⟨[0x6b, i], [0xac]⟩

def templateHash (t : Template) : Bytes32 :=
  sampleEngine.blake2b (t.templatePrefix ++ t.templateSuffix)

def sampleMarket : Market where
  close := ⟨ZERO32, 1000, templateHash (sampleTemplate 1), templateHash (sampleTemplate 2),
    sampleTemplate 0⟩
  ps_tmpl_hash := templateHash (sampleTemplate 3)
  shard_pool_id := samplePk 7
  claim_template := sampleTemplate 1
  refundclaim_template := sampleTemplate 2

def sampleState (closed pool_value : Int) : RootState where
  local_yes := 300000
  local_no := 200000
  count := 2
  pool_value := pool_value
  closed := closed
  winningSide := 0
  payoutRoot := ZERO32

def sampleTk : Tk := ⟨samplePk 1, 0, 300000, samplePk 7⟩

def rootOutput (t : Template) (s : RootState) (value : Nat) : TxOutput :=
  covenantOutput sampleEngine t s.fields value none

def spending (o : TxOutput) : TxInput := ⟨o.value, o.scriptPubKey, o.covenantId⟩

def ticketOutput : TxOutput :=
  covenantOutput sampleEngine (sampleTemplate 3) sampleTk.fields 20000 none

def flipTx : Tx where
  inputs := [spending (rootOutput (sampleTemplate 0) (sampleState 0 500000) 500000)]
  outputs := [rootOutput (sampleTemplate 0) (sampleState 2 500000) 500000]
  lockTime := 7201000

def convertTx : Tx where
  inputs := [spending (rootOutput (sampleTemplate 0) (sampleState 2 500000) 500000)]
  outputs := [rootOutput (sampleTemplate 2) (sampleState 2 500000) 500000]
  lockTime := 7201000

def refundTx : Tx where
  inputs := [spending (rootOutput (sampleTemplate 2) (sampleState 2 500000) 500000),
    spending ticketOutput]
  outputs := [rootOutput (sampleTemplate 2) (sampleState 2 200000) 200000,
    ⟨300000, ScriptPubKeyP2PK (samplePk 1), none⟩]
  lockTime := 7201000

def sampleRefund : RefundWitness := ⟨0, 1, 1, sampleTemplate 3, sampleTk⟩

def flipAction : Action Unit := ⟨1, flipTx, [(0, 0)], (), .refund_flip 0⟩

def convertAction : Action Unit :=
  ⟨2, convertTx, [(1, 0)], (), .convert_to_refundclaim 0 (sampleTemplate 2)⟩

def refundAction : Action Unit := ⟨3, refundTx, [(2, 0), (9, 1)], (), .refund_payout sampleRefund⟩

def sampleRun : List (Action Unit) := [flipAction, convertAction, refundAction]

def samplePool (no value : Nat) (phase : Phase) : Pool :=
  ⟨sampleMarket, 500000, (no, 0), value, phase⟩

def sampleDraw : Draw Unit := ⟨3, (), (9, 1), sampleTk, 300000, 1, none⟩

def sampleWorld : World Unit := ⟨fun _ => samplePool 0 500000 (.close (sampleState 0 500000)), []⟩

def sampleEnd : World Unit :=
  ⟨fun _ => samplePool 3 200000 (.refund (sampleState 2 200000)), [sampleDraw]⟩

theorem sampleState_fits {closed pool_value : Int} (hc : Fits 8 closed) (hp : Fits 8 pool_value) :
    ∀ f ∈ (sampleState closed pool_value).fields, f.Fits := by
  simp only [RootState.fields, sampleState, List.forall_mem_cons]
  exact ⟨(by decide : Fits 8 300000), (by decide : Fits 8 200000), (by decide : Fits 8 2), hp, hc,
    (by decide : Fits 8 0), trivial, List.forall_mem_nil _⟩

theorem sample_flip : refund_flip sampleEngine i64 sampleMarket.close (sampleState 0 500000)
    flipTx 0 = some (sampleState 2 500000) := by
  simp only [refund_flip, Option.bind_eq_bind, Option.bind_eq_some_iff, require_eq_some,
    exists_const, requireOutputValue_eq_some, validateOutputState_eq_some]
  refine ⟨rfl, 7201000, by decide, by decide, ?_, ⟨_, rfl, rfl⟩, rfl⟩
  exact Tx.continues_covenantOutput (sampleState_fits (by decide) (by decide)) rfl

theorem sample_convert : convert_to_refundclaim sampleEngine sampleMarket.close
    (sampleState 2 500000) convertTx 0 (sampleTemplate 2) = some () := by
  simp only [convert_to_refundclaim, validateOutputStateWithTemplate, Option.bind_eq_bind,
    Option.bind_eq_some_iff, require_eq_some, exists_const, requireOutputValue_eq_some,
    validateOutputState_eq_some]
  refine ⟨rfl, ⟨rfl, ?_⟩, _, rfl, rfl⟩
  exact Tx.continues_covenantOutput (sampleState_fits (by decide) (by decide)) rfl

theorem sampleTk_fits : ∀ f ∈ sampleTk.fields, f.Fits := by
  simp only [Tk.fields, sampleTk, List.forall_mem_cons]
  exact ⟨trivial, (by decide : Fits 8 0), (by decide : Fits 8 300000), trivial,
    List.forall_mem_nil _⟩

theorem sample_readTicket : readTicket sampleEngine sampleMarket.ps_tmpl_hash refundTx 1
    (sampleTemplate 3) sampleTk = some () := by
  obtain ⟨state, hstate⟩ := serializeState_of_fits sampleTk_fits
  have hlock : ticketOutput.scriptPubKey =
      ScriptPubKeyP2SH (sampleEngine.blake2b ((sampleTemplate 3).redeem state)) := by
    rw [ticketOutput, covenantOutput, hstate]
    rfl
  simp only [readTicket, Option.bind_eq_bind, Option.bind_eq_some_iff, require_eq_some,
    exists_const]
  exact ⟨spending ticketOutput, rfl, state, hstate, hlock, rfl⟩

theorem sample_refund : refund_payout sampleEngine i64 sampleMarket.refundclaim
    (sampleState 2 500000) refundTx sampleRefund = some (sampleState 2 200000) := by
  simp only [refund_payout, Option.bind_eq_bind, Option.bind_eq_some_iff, require_eq_some,
    exists_const, requireOutputValue_eq_some, requireOutput_eq_some, validateOutputState_eq_some]
  refine ⟨rfl, (), sample_readTicket, rfl, ⟨_, rfl, rfl, rfl⟩, 200000, by decide, ?_, ⟨_, rfl, rfl⟩,
    rfl⟩
  exact Tx.continues_covenantOutput (sampleState_fits (by decide) (by decide)) rfl

theorem sample_flip_spend : spend sampleEngine sampleMarket flipAction
    (.close (sampleState 0 500000)) = some (.close (sampleState 2 500000), []) := by
  simp only [spend, flipAction, sample_flip, Option.map_some]

theorem sample_convert_spend : spend sampleEngine sampleMarket convertAction
    (.close (sampleState 2 500000)) = some (.refund (sampleState 2 500000), []) := by
  simp only [spend, convertAction, sample_convert, Option.map_some]
  rfl

theorem sample_refund_spend : spend sampleEngine sampleMarket refundAction
    (.refund (sampleState 2 500000)) = some (.refund (sampleState 2 200000), [sampleDraw]) := by
  simp only [spend, refundAction, sample_refund, Option.bind_eq_bind, Option.bind_some]
  rfl

theorem sample_update (p q : Pool) (k : Unit) : (fun _ => q) = Function.update (fun _ => p) k q :=
  funext fun _ => (Function.update_self k q fun _ => p).symm

theorem sample_run : Run (Step sampleEngine) sampleWorld sampleRun sampleEnd := by
  refine .cons (m := ⟨fun _ => samplePool 1 500000 (.close (sampleState 2 500000)), []⟩) ?_
    (.cons (m := ⟨fun _ => samplePool 2 500000 (.refund (sampleState 2 500000)), []⟩) ?_
      (.single ?_))
  · exact ⟨_, _, _, sample_flip_spend, ⟨0, _, rfl, rfl, rfl⟩, rfl, sample_update _ _ _, rfl⟩
  · exact ⟨_, _, _, sample_convert_spend, ⟨0, _, rfl, rfl, rfl⟩, rfl, sample_update _ _ _, rfl⟩
  · exact ⟨_, _, _, sample_refund_spend, ⟨0, _, rfl, rfl, rfl⟩, rfl, sample_update _ _ _, rfl⟩

theorem sample_sealed : Sealed sampleWorld sampleRun := by
  refine ⟨rfl, fun _ => ⟨_, rfl, rfl, rfl, rfl⟩, fun _ _ _ => rfl, fun _ _ _ => rfl, ?_⟩
  simp [sampleRun, flipAction, convertAction, refundAction, sampleWorld, samplePool]

theorem sample_ledger : Ledger sampleRun := by
  constructor <;>
    simp [sampleRun, flipAction, convertAction, refundAction, flipTx, convertTx, refundTx]

theorem sample_apart : Apart sampleRun := by
  simp [Apart, sampleRun, flipAction, convertAction, refundAction]

def sampleLeafContract : PoolLeaf.Contract where
  market_id := ZERO32
  commit_v2 := ZERO32
  shard_count := 2
  max_fan_in := 4
  root_tmpl_hash := ZERO32
  root_init_payoutRoot := ZERO32
  template := sampleTemplate 4
  ps_tmpl_hash := templateHash (sampleTemplate 3)
  shard_pool_id := samplePk 7
  seal_count := 4
  min_bet := 1000

def registeredLeaf : ShardLeaf.State := ⟨300000, 200000, 2, 500000⟩

def registerTx : Tx where
  inputs := [spending (covenantOutput sampleEngine (sampleTemplate 4)
    (ShardLeaf.State.fields ⟨0, 200000, 1, 200000⟩) 200000 none)]
  outputs := [covenantOutput sampleEngine (sampleTemplate 4) registeredLeaf.fields 500000 none,
    ticketOutput]
  lockTime := 0

theorem sample_register : PoolLeaf.register_append sampleEngine i64 sampleLeafContract
    ⟨0, 200000, 1, 200000⟩ registerTx ⟨0, 300000, 0, 1, samplePk 1, sampleTemplate 3⟩ =
      some registeredLeaf := by
  have hleaf : ∀ f ∈ registeredLeaf.fields, f.Fits := by
    simp only [ShardLeaf.State.fields, registeredLeaf, List.forall_mem_cons]
    exact ⟨(by decide : Fits 8 300000), (by decide : Fits 8 200000), (by decide : Fits 8 2),
      (by decide : Fits 8 500000), List.forall_mem_nil _⟩
  simp only [PoolLeaf.register_append, validateOutputStateWithTemplate, Option.bind_eq_bind,
    Option.bind_eq_some_iff, require_eq_some, exists_const, requireOutputValue_eq_some,
    validateOutputState_eq_some]
  refine ⟨by decide, by decide, by decide, ⟨rfl, ?_⟩, 300000, by decide, 300000, by decide, 0,
    by decide, 200000, by decide, 2, by decide, 500000, by decide, ?_, ⟨_, rfl, rfl⟩, rfl⟩
  · exact Tx.continues_covenantOutput sampleTk_fits rfl
  · exact Tx.continues_covenantOutput hleaf rfl

def sampleRegistration : Registration sampleEngine where
  no := 9
  contract := sampleLeafContract
  state := ⟨0, 200000, 1, 200000⟩
  next := registeredLeaf
  tx := registerTx
  wit := ⟨0, 300000, 0, 1, samplePk 1, sampleTemplate 3⟩
  accepted := sample_register

/-- One ticket, of transaction 9. -/
def sampleRegistry : Registry sampleEngine where
  find o := if o = (9, 1) then some sampleRegistration else none
  outpoint_eq o r h := by
    split at h
    · next ho =>
      obtain rfl := Option.some.inj h
      exact ho.symm
    · cases h

/-- No ticket at all. -/
def emptyRegistry : Registry sampleEngine where
  find _ := none
  outpoint_eq _ _ h := nomatch h

theorem settlement_of_run_refunded :
    Settlement sampleRegistry sampleWorld sampleRun sampleEnd := by
  refine settlement_of_run sample_sealed sample_ledger ?_ sample_apart sample_run
  intro a ha i tk hreveal
  simp only [sampleRun, List.mem_cons, List.not_mem_nil, or_false] at ha
  obtain rfl | rfl | rfl := ha
  · cases hreveal
  · cases hreveal
  · obtain ⟨rfl, rfl⟩ := Prod.mk.inj (Option.some.inj hreveal)
    exact ⟨(9, 1), sampleRegistration, rfl, rfl, rfl⟩

/-- **A ticket that nobody registered draws its stake**, out of a pool that took none. -/
theorem forged_not_settlement : Sealed sampleWorld sampleRun ∧ Ledger sampleRun ∧ Apart sampleRun ∧
    Run (Step sampleEngine) sampleWorld sampleRun sampleEnd ∧
    ¬ Settlement emptyRegistry sampleWorld sampleRun sampleEnd := by
  refine ⟨sample_sealed, sample_ledger, sample_apart, sample_run, fun h => ?_⟩
  obtain ⟨r, hr, -⟩ := (h.proper sampleDraw List.mem_cons_self).registered
  cases hr

end KANet.Covenant.Root
