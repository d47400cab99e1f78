import KANet.Covenant.PayoutShard
import KANet.Lib.Runs

/-!
# Runs of a `PayoutShard`

A `PayoutShard` lives through any number of absorbs, one attestation at most, and
any number of claims.  What one spend can do is said once, in `step_cases`; the
invariant, the latch, the ledger and the nullifier are each read off from it, and
the run rules carry them over.

`payout_run_safe` collects what holds of every run from the genesis state.
-/

namespace KANet.Covenant.PayoutShard

open KANet.Lib KANet.Script

/-- One spend: the entry called, and the transaction that calls it. -/
abbrev Action := Call × Tx

def Step (e : Engine) (c : Contract) (s : State) (a : Action) (s' : State) : Prop :=
  spend e i64 c s a.2 a.1 = some s'

/-- The state the mint locks: open, nothing paid, and the seed as its pool. -/
structure Genesis (s : State) : Prop where
  closed : s.closed = 0
  words : s.w = Words.zero
  seed : 0 ≤ s.consolidated_pool

/-- The leaf a spend pays, if it pays one. -/
def merkleIndex (a : Action) : Option Int :=
  match a.1 with
  | .claim wit => some wit.merkle_index
  | .refund_claim wit => some wit.merkle_index
  | _ => none

/-- The amount a spend pays out. -/
def amountPaid (a : Action) : Int :=
  match a.1 with
  | .claim wit => wit.payout
  | .refund_claim wit => wit.payout
  | _ => 0

/-! ### One step -/

structure Inv (s : State) : Prop where
  latch : s.closed = 0 ∨ s.closed = 1 ∨ s.closed = 2
  pool : 0 ≤ s.consolidated_pool
  words : WordsOk s.w

theorem Genesis.inv {s : State} (h : Genesis s) : Inv s :=
  ⟨Or.inl h.closed, h.seed, h.words ▸ wordsOk_zero⟩

/-- **What a spend can do**: take in a shard, set the latch, or pay a leaf. -/
theorem step_cases {e : Engine} {c : Contract} {s s' : State} {a : Action} (hw : WordsOk s.w)
    (h : Step e c s a s') :
    (s.closed = 0 ∧ merkleIndex a = none ∧ ∃ v : Nat,
      s' = { s with consolidated_pool := s.consolidated_pool + v }) ∨
    (s.closed = 0 ∧ merkleIndex a = none ∧ ∃ latch root, (latch = 1 ∨ latch = 2) ∧
      s' = { s with closed := latch, payoutRoot := root }) ∨
    ((s.closed = 1 ∨ s.closed = 2) ∧ ∃ k : Nat, k < 1024 ∧ merkleIndex a = some (k : Int) ∧
      1 ≤ amountPaid a ∧ amountPaid a ≤ s.consolidated_pool ∧ ¬ Marked s.w k ∧
      s' = { s with
        consolidated_pool := s.consolidated_pool - amountPaid a, w := mark s.w k }) := by
  obtain ⟨call, tx⟩ := a
  unfold Step at h
  cases call with
  | absorb i j =>
    obtain ⟨h0, shard, -, rfl, -⟩ := (absorb_eq_some i64_lawful).mp h
    exact Or.inl ⟨h0, rfl, shard.value, rfl⟩
  | close_attest i root cw =>
    obtain ⟨h0, -, rfl, -⟩ := attest_eq_some.mp h
    exact Or.inr (Or.inl ⟨h0, rfl, 1, root, Or.inl rfl, rfl⟩)
  | cancel_attest i root cw =>
    obtain ⟨h0, -, rfl, -⟩ := attest_eq_some.mp h
    exact Or.inr (Or.inl ⟨h0, rfl, 2, root, Or.inr rfl, rfl⟩)
  | claim wit =>
    obtain ⟨h1, k, hk, hlt, hpos, hle, -, hm, -, rfl, -⟩ := (payLeaf_eq_some i64_lawful hw).mp h
    exact Or.inr (Or.inr ⟨Or.inl h1, k, hlt, congrArg some hk, hpos, hle, hm, rfl⟩)
  | refund_claim wit =>
    obtain ⟨h2, k, hk, hlt, hpos, hle, -, hm, -, rfl, -⟩ := (payLeaf_eq_some i64_lawful hw).mp h
    exact Or.inr (Or.inr ⟨Or.inr h2, k, hlt, congrArg some hk, hpos, hle, hm, rfl⟩)

theorem Inv.step {e : Engine} {c : Contract} {s s' : State} {a : Action} (hi : Inv s)
    (h : Step e c s a s') : Inv s' := by
  rcases step_cases hi.words h with ⟨_, _, v, rfl⟩ | ⟨_, _, latch, _, hl, rfl⟩ |
    ⟨_, k, _, _, _, hle, hm, rfl⟩
  · have := hi.pool
    exact ⟨hi.latch, by dsimp only; omega, hi.words⟩
  · exact ⟨Or.inr hl, hi.pool, hi.words⟩
  · exact ⟨hi.latch, by dsimp only; omega, hi.words.mark hm⟩

/-- A closed contract keeps its latch and its root. -/
theorem closed_step {e : Engine} {c : Contract} {s s' : State} {a : Action} (hi : Inv s)
    (hc : s.closed ≠ 0) (h : Step e c s a s') :
    s'.closed = s.closed ∧ s'.payoutRoot = s.payoutRoot := by
  rcases step_cases hi.words h with ⟨h0, _⟩ | ⟨h0, _⟩ | ⟨_, k, _, _, _, _, _, rfl⟩
  · exact absurd h0 hc
  · exact absurd h0 hc
  · exact ⟨rfl, rfl⟩

/-- A closed contract loses from its pool exactly what it pays. -/
theorem pool_step {e : Engine} {c : Contract} {s s' : State} {a : Action} (hi : Inv s)
    (hc : s.closed ≠ 0) (h : Step e c s a s') :
    s.consolidated_pool = s'.consolidated_pool + amountPaid a := by
  rcases step_cases hi.words h with ⟨h0, _⟩ | ⟨h0, _⟩ | ⟨_, k, _, _, _, _, _, rfl⟩
  · exact absurd h0 hc
  · exact absurd h0 hc
  · exact (sub_add_cancel _ _).symm

/-- Leaf `i` of the tree has been paid. -/
def Spent (s : State) (i : Int) : Prop := ∃ k : Nat, i = k ∧ k < 1024 ∧ Marked s.w k

theorem spent_refuses {e : Engine} {c : Contract} {s s' : State} {a : Action} {i : Int}
    (hi : Inv s) (h : Step e c s a s') (ha : merkleIndex a = some i) : ¬ Spent s i := by
  rintro ⟨k, rfl, _, hk⟩
  rcases step_cases hi.words h with ⟨_, hn, _⟩ | ⟨_, hn, _⟩ | ⟨_, k', _, hs, _, _, hm, _⟩
  · simp [hn] at ha
  · simp [hn] at ha
  · rw [hs, Option.some.injEq] at ha
    have : k' = k := by exact_mod_cast ha
    exact hm (this ▸ hk)

theorem spent_marks {e : Engine} {c : Contract} {s s' : State} {a : Action} {i : Int}
    (hi : Inv s) (h : Step e c s a s') (ha : merkleIndex a = some i) : Spent s' i := by
  rcases step_cases hi.words h with ⟨_, hn, _⟩ | ⟨_, hn, _⟩ | ⟨_, k, hlt, hs, _, _, hm, rfl⟩
  · simp [hn] at ha
  · simp [hn] at ha
  · rw [hs, Option.some.injEq] at ha
    exact ⟨k, ha.symm, hlt, (marked_mark hi.words hm hlt hlt).mpr (Or.inl rfl)⟩

theorem spent_stays {e : Engine} {c : Contract} {s s' : State} {a : Action} {i : Int}
    (hi : Inv s) (h : Step e c s a s') (hs : Spent s i) : Spent s' i := by
  obtain ⟨k, rfl, hlt, hk⟩ := hs
  rcases step_cases hi.words h with ⟨_, _, v, rfl⟩ | ⟨_, _, latch, _, _, rfl⟩ |
    ⟨_, k', hlt', _, _, _, hm, rfl⟩
  · exact ⟨k, rfl, hlt, hk⟩
  · exact ⟨k, rfl, hlt, hk⟩
  · exact ⟨k, rfl, hlt, (marked_mark hi.words hm hlt' hlt).mpr (Or.inr hk)⟩

theorem absorb_closed {e : Engine} {c : Contract} {s : State} (hc : s.closed ≠ 0) (tx : Tx)
    (i j : Int) : absorb e i64 c s tx i j = none := by
  rw [Option.eq_none_iff_forall_ne_some]
  intro s' h
  exact hc ((absorb_eq_some i64_lawful).mp h).1

/-! ### Whole runs -/

theorem Inv.run {e : Engine} {c : Contract} {s t : State} {as : List Action} (hi : Inv s)
    (h : Run (Step e c) s as t) : Inv t :=
  h.invariant (fun _ _ _ hi h => hi.step h) hi

/-- A run that starts closed stays where it is latched, with the root it is latched on. -/
theorem closed_run {e : Engine} {c : Contract} {s t : State} {as : List Action} (hi : Inv s)
    (hc : s.closed ≠ 0) (h : Run (Step e c) s as t) :
    t.closed = s.closed ∧ t.payoutRoot = s.payoutRoot := by
  refine (h.invariant (I := fun t => Inv t ∧ t.closed = s.closed ∧ t.payoutRoot = s.payoutRoot)
    ?_ ⟨hi, rfl, rfl⟩).2
  rintro u a v ⟨hu, hl, hr⟩ hstep
  obtain ⟨hl', hr'⟩ := closed_step hu (hl ▸ hc) hstep
  exact ⟨hu.step hstep, hl'.trans hl, hr'.trans hr⟩

theorem pool_run {e : Engine} {c : Contract} {s t : State} {as : List Action} (hi : Inv s)
    (hc : s.closed ≠ 0) (h : Run (Step e c) s as t) :
    s.consolidated_pool = t.consolidated_pool + (as.map amountPaid).sum := by
  refine h.ledger (I := fun t => Inv t ∧ t.closed ≠ 0) State.consolidated_pool amountPaid
    ?_ ?_ ⟨hi, hc⟩
  · rintro u a v ⟨hu, hcu⟩ hstep
    exact ⟨hu.step hstep, (closed_step hu hcu hstep).1 ▸ hcu⟩
  · rintro u a v ⟨hu, hcu⟩ hstep
    exact pool_step hu hcu hstep

theorem indices_nodup {e : Engine} {c : Contract} {s t : State} {as : List Action} (hi : Inv s)
    (h : Run (Step e c) s as t) : (as.filterMap merkleIndex).Nodup :=
  h.nodup_keys (I := Inv) merkleIndex Spent (fun _ _ _ hi h => hi.step h)
    (fun _ _ _ _ hi h => spent_refuses hi h) (fun _ _ _ _ hi h => spent_marks hi h)
    (fun _ _ _ _ hi h => spent_stays hi h) hi

/-- What holds of a run that reaches `m` by the spends `as` and goes on to `s` by `bs`. -/
structure RunSafe (e : Engine) (c : Contract) (as : List Action) (m : State) (bs : List Action)
    (s : State) : Prop where
  latch : s.closed = 0 ∨ s.closed = 1 ∨ s.closed = 2
  latch_stays : m.closed ≠ 0 → s.closed = m.closed
  root_stays : m.closed ≠ 0 → s.payoutRoot = m.payoutRoot
  no_absorb : s.closed ≠ 0 → ∀ tx i j, absorb e i64 c s tx i j = none
  paid_once : ((as ++ bs).filterMap merkleIndex).Nodup
  conserved : m.closed ≠ 0 →
    m.consolidated_pool = s.consolidated_pool + (bs.map amountPaid).sum
  solvent : 0 ≤ s.consolidated_pool
  words : ∀ i, 0 ≤ s.w i ∧ s.w i < 2 ^ 63
  no_overflow : ∀ tx call, spend e i64 c s tx call = spend e unbounded c s tx call

/-- **Every run of a `PayoutShard` is safe**, whatever the engine, the contract and the
transactions that spend it. -/
theorem payout_run_safe {e : Engine} {c : Contract} {g m s : State} {as bs : List Action}
    (hg : Genesis g) (h₁ : Run (Step e c) g as m) (h₂ : Run (Step e c) m bs s) :
    RunSafe e c as m bs s := by
  have hm : Inv m := hg.inv.run h₁
  have hs : Inv s := hm.run h₂
  exact {
    latch := hs.latch
    latch_stays := fun hc => (closed_run hm hc h₂).1
    root_stays := fun hc => (closed_run hm hc h₂).2
    no_absorb := fun hc tx i j => absorb_closed hc tx i j
    paid_once := indices_nodup hg.inv (h₁.append h₂)
    conserved := fun hc => pool_run hm hc h₂
    solvent := hs.pool
    words := hs.words
    no_overflow := spend_i64_eq_unbounded e c hs.words }

/-! ### A market settled on the sample engine

Five oracles hold the first five places of a pool; one shard worth 500 sompi is taken in, the
committee closes on a tree with one leaf, and that leaf is claimed. -/

def samplePool : List Bytes32 :=
  (List.range 256).map fun i =>
    if i < 5 then sampleEngine.blake2b (samplePk i).toList else ZERO32

def sampleMember (i : Nat) : Member where
  sig := (samplePk i).toList
  pk := samplePk i
  idx := i
  s := ⟨Merkle.path (hashNode sampleEngine) ZERO32 8 samplePool i, Merkle.path_length _ _ _⟩

def sampleCommittee : CommitteeWitness where
  members := ⟨(List.range 5).map sampleMember, rfl⟩
  committeePkHash := sampleEngine.blake2b ((List.range 5).flatMap fun i => (samplePk i).toList)

def sampleContract : Contract where
  poolMerkleRoot := Merkle.root (hashNode sampleEngine) ZERO32 8 samplePool
  predicate_commit := samplePk 0
  template := { templatePrefix := [0x6b], templateSuffix := [0xac] }

theorem sampleMember_climb {i : Nat} (hi : i < 5) :
    (sampleMember i).climb sampleEngine = sampleContract.poolMerkleRoot := by
  have hlen : samplePool.length = 2 ^ 8 := by simp [samplePool]
  have hleaf : sampleEngine.blake2b (samplePk i).toList = samplePool.getD i ZERO32 := by
    have h256 : i < 256 := by omega
    simp [samplePool, List.getD, h256, hi]
  rw [Member.climb_eq sampleEngine (k := i) rfl]
  exact hleaf ▸ Merkle.climb_path hlen (by omega)

theorem sampleCommittee_attests (tx : Tx) :
    committeeAttests sampleEngine sampleContract.poolMerkleRoot sampleContract.predicate_commit tx
      sampleCommittee = some () := by
  have hmem : ∀ c ∈ sampleCommittee.members.toList, ∃ i < 5, c = sampleMember i := by
    intro c hc
    obtain ⟨i, hi, rfl⟩ := List.mem_map.mp hc
    exact ⟨i, List.mem_range.mp hi, rfl⟩
  simp only [committeeAttests, Option.bind_eq_bind, Option.bind_eq_some_iff, require_eq_some,
    exists_const]
  refine ⟨by decide, ?_, by decide, rfl, ?_⟩
  · have hall : sampleCommittee.members.toList.countP
        (fun c => sampleEngine.checkSig tx c.sig c.pk) = 5 := by
      refine List.countP_eq_length.mpr fun c hc => ?_
      obtain ⟨i, -, rfl⟩ := hmem c hc
      simp [sampleEngine, sampleMember]
    omega
  · intro c hc
    obtain ⟨i, hi, rfl⟩ := hmem c hc
    refine ⟨by simp [sampleMember], ?_, sampleMember_climb hi⟩
    simp only [sampleMember]
    omega

def sampleWitness : PayWitness where
  selfOutIdx := 0
  payoutOutIdx := 1
  bettorPk := samplePk 7
  payout := 500
  merkle_index := 70
  s := List.Vector.replicate 10 ZERO32

/-- The root of the one-leaf tree, as the path of `sampleWitness` reaches it. -/
def samplePayoutRoot : Bytes32 :=
  Merkle.climb (hashNode sampleEngine) 70
    (sampleEngine.blake2b ((samplePk 7).toList ++ signMagnitude 8 500)) sampleWitness.s.toList

/-- The states of that market: minted, with the shard, closed, and after the claim. -/
def sampleState (consolidated_pool closed : Int) (payoutRoot : Bytes32) (w : Words) : State :=
  { consolidated_pool, closed, payoutRoot, w }

def sampleMinted : State := sampleState 20000000 0 ZERO32 Words.zero
def sampleOpen : State := sampleState 20000500 0 ZERO32 Words.zero
def sampleClosed : State := sampleState 20000500 1 samplePayoutRoot Words.zero
def samplePaid : State := sampleState 20000000 1 samplePayoutRoot (mark Words.zero 70)

def sampleOutput (s : State) (value : Nat) : TxOutput :=
  covenantOutput sampleEngine sampleContract.template s.fields value none

def sampleAbsorbTx : Tx where
  inputs := [{ value := 500, scriptPubKey := [], covenantId := none }]
  outputs := [sampleOutput sampleOpen 20000500]
  lockTime := 0

def sampleCloseTx : Tx :=
  sampleTx [sampleOutput sampleClosed 20000500] (by decide)

def sampleClaimTx : Tx :=
  sampleTx [sampleOutput samplePaid 20000000,
    { value := 500, scriptPubKey := ScriptPubKeyP2PK (samplePk 7), covenantId := none }] (by decide)

theorem fields_fit {s : State} (hp : Fits 8 s.consolidated_pool) (hc : Fits 8 s.closed)
    (hw : WordsOk s.w) : ∀ f ∈ s.fields, f.Fits := by
  intro f hf
  simp only [State.fields, List.mem_cons, List.mem_map, List.mem_ofFn] at hf
  rcases hf with rfl | rfl | rfl | ⟨_, ⟨i, rfl⟩, rfl⟩
  · exact hp
  · exact hc
  · exact trivial
  · obtain ⟨h0, h1⟩ := hw i
    exact fits_eight.mpr ⟨by omega, h1⟩

theorem sample_continuation (value : Nat) {tx : Tx} {s : State} (hp : s.consolidated_pool = value)
    (hv : value < 2 ^ 63) (hc : Fits 8 s.closed) (hw : WordsOk s.w)
    (h : tx.output 0 = some (sampleOutput s value)) :
    Continuation sampleEngine sampleContract tx 0 s := by
  have hfit : Fits 8 s.consolidated_pool := fits_eight.mpr ⟨by omega, by omega⟩
  exact ⟨Tx.continues_covenantOutput (fields_fit hfit hc hw) h, _, h, hp.symm⟩

theorem sample_absorb :
    Step sampleEngine sampleContract sampleMinted (.absorb 0 0, sampleAbsorbTx) sampleOpen :=
  (absorb_eq_some i64_lawful).mpr ⟨rfl, _, rfl, rfl,
    sample_continuation 20000500 rfl (by norm_num) (by decide) wordsOk_zero rfl⟩

theorem sample_close :
    Step sampleEngine sampleContract sampleOpen
      (.close_attest 0 samplePayoutRoot sampleCommittee, sampleCloseTx) sampleClosed :=
  attest_eq_some.mpr ⟨rfl, sampleCommittee_attests _, rfl,
    sample_continuation 20000500 rfl (by norm_num) (by decide) wordsOk_zero rfl⟩

theorem sample_claim :
    Step sampleEngine sampleContract sampleClosed (.claim sampleWitness, sampleClaimTx)
      samplePaid :=
  (payLeaf_eq_some i64_lawful wordsOk_zero).mpr ⟨rfl, 70, rfl, by norm_num, by decide, by decide,
    ⟨_, rfl, rfl⟩, not_marked_zero 70, ⟨_, rfl, rfl, rfl⟩, rfl,
    sample_continuation 20000000 rfl (by norm_num) (by decide)
      (wordsOk_zero.mark (not_marked_zero 70)) rfl⟩

/-- The run of that market, from the mint to the paid claim. -/
theorem payout_run_safe_sample :
    RunSafe sampleEngine sampleContract
      [(.absorb 0 0, sampleAbsorbTx),
        (.close_attest 0 samplePayoutRoot sampleCommittee, sampleCloseTx)]
      sampleClosed [(.claim sampleWitness, sampleClaimTx)] samplePaid :=
  payout_run_safe ⟨rfl, rfl, by decide⟩ (.cons sample_absorb (.single sample_close))
    (.single sample_claim)

end KANet.Covenant.PayoutShard
