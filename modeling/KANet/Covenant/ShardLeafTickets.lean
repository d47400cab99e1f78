import KANet.Covenant.ShardLeafRun

/-!
# What a shard has been paid

A registration adds its stake to one side of the shard and to the pool, counts one, and locks one
output to the ticket of the bet.  So the state of a shard is the account of its registrations.

The covenant looks at the output that the spender points to.  What the other outputs are locked to
is not its concern.

* `register_append_eq_some` — what a registration checks, and the state it leads to.
* `accounts` — the state after a run of registrations.
-/

namespace KANet.Covenant.ShardLeaf

open KANet.Lib KANet.Script

variable {e : Engine} {c : Contract}

/-- The state once a stake is added on a side. -/
def State.bump (s : State) (side stake : Int) : State where
  local_yes := s.local_yes + stake * (1 - side)
  local_no := s.local_no + stake * side
  count := s.count + 1
  pool_value := s.pool_value + stake

/-- The output that the spender points to is the ticket of the bet. -/
def Ticketed (e : Engine) (c : Contract) (wit : RegisterWitness) (tx : Tx) : Prop :=
  e.blake2b (wit.ps_template.templatePrefix ++ wit.ps_template.templateSuffix) = c.ps_tmpl_hash ∧
    tx.Continues e wit.ps_template wit.psOutIdx (ticketFields c wit.bettorPk wit.side wit.stake)

/-- No number of the sum is too large for the engine. -/
def State.FitsBump (s : State) (side stake : Int) : Prop :=
  Fits 8 (stake * (1 - side)) ∧ Fits 8 (s.local_yes + stake * (1 - side)) ∧
    Fits 8 (stake * side) ∧ Fits 8 (s.local_no + stake * side) ∧ Fits 8 (s.count + 1) ∧
      Fits 8 (s.pool_value + stake)

instance (s : State) (side stake : Int) : Decidable (s.FitsBump side stake) :=
  inferInstanceAs (Decidable (_ ∧ _))

theorem i64_eq_some {m n : Int} : i64 m = some n ↔ Fits 8 m ∧ n = m := by
  unfold i64
  by_cases h : Fits 8 m
  · rw [if_pos h, Option.some.injEq, eq_comm]
    exact (and_iff_right h).symm
  · rw [if_neg h]
    exact ⟨nofun, fun h' => absurd h'.1 h⟩

/-- **What a registration checks, and where it leads.** -/
theorem register_append_eq_some {s s' : State} {tx : Tx} {wit : RegisterWitness} :
    register_append e i64 c s tx wit = some s' ↔
      s.count < c.seal_count ∧ (wit.side = 0 ∨ wit.side = 1) ∧ c.min_bet ≤ wit.stake ∧
        Ticketed e c wit tx ∧ s.FitsBump wit.side wit.stake ∧ s' = s.bump wit.side wit.stake ∧
          tx.Continues e c.template wit.leafOutIdx s'.fields ∧
            tx.Pays wit.leafOutIdx s'.pool_value := by
  simp only [register_append, validateOutputStateWithTemplate, Option.bind_eq_bind,
    Option.bind_eq_some_iff, require_eq_some, exists_const, requireOutputValue_eq_some,
    validateOutputState_eq_some, Option.some.injEq, i64_eq_some]
  constructor
  · intro h
    obtain ⟨hseal, hside, hmin, ht, _, ⟨f₁, rfl⟩, _, ⟨f₂, rfl⟩, _, ⟨f₃, rfl⟩, _, ⟨f₄, rfl⟩, _,
      ⟨f₅, rfl⟩, _, ⟨f₆, rfl⟩, hcont, hpay, rfl⟩ := h
    exact ⟨hseal, hside, hmin, ht, ⟨f₁, f₂, f₃, f₄, f₅, f₆⟩, rfl, hcont, hpay⟩
  · intro h
    obtain ⟨hseal, hside, hmin, ht, ⟨f₁, f₂, f₃, f₄, f₅, f₆⟩, rfl, hcont, hpay⟩ := h
    exact ⟨hseal, hside, hmin, ht, _, ⟨f₁, rfl⟩, _, ⟨f₂, rfl⟩, _, ⟨f₃, rfl⟩, _, ⟨f₄, rfl⟩, _,
      ⟨f₅, rfl⟩, _, ⟨f₆, rfl⟩, hcont, hpay, rfl⟩

theorem State.FitsBump.ofNext {s : State} {side stake : Int} (hside : side = 0 ∨ side = 1)
    (hstake : 0 ≤ stake) (hyes : 0 ≤ s.local_yes) (hno : 0 ≤ s.local_no)
    (h : ∀ f ∈ (s.bump side stake).fields, f.Fits) : s.FitsBump side stake := by
  have hf : ∀ n, Field.int n ∈ (s.bump side stake).fields → -2 ^ 63 < n ∧ n < 2 ^ 63 :=
    fun n hn => fits_eight.mp (h _ hn)
  have hy := hf (s.local_yes + stake * (1 - side)) (by simp [State.fields, State.bump])
  have hn := hf (s.local_no + stake * side) (by simp [State.fields, State.bump])
  have hc := hf (s.count + 1) (by simp [State.fields, State.bump])
  have hp := hf (s.pool_value + stake) (by simp [State.fields, State.bump])
  have hyes' : 0 ≤ stake * (1 - side) := by
    rcases hside with rfl | rfl <;> omega
  have hno' : 0 ≤ stake * side := by
    rcases hside with rfl | rfl <;> omega
  exact ⟨fits_eight.mpr ⟨by omega, by omega⟩, fits_eight.mpr hy,
    fits_eight.mpr ⟨by omega, by omega⟩, fits_eight.mpr hn, fits_eight.mpr hc, fits_eight.mpr hp⟩

/-- **A transaction with the two outputs is accepted.** -/
theorem register_append_of_outputs {s : State} {tx : Tx} {wit : RegisterWitness} {v w : Nat}
    (hseal : s.count < c.seal_count) (hside : wit.side = 0 ∨ wit.side = 1)
    (hmin : c.min_bet ≤ wit.stake)
    (hhash : e.blake2b (wit.ps_template.templatePrefix ++ wit.ps_template.templateSuffix) =
      c.ps_tmpl_hash)
    (hfits : s.FitsBump wit.side wit.stake) (hv : (v : Int) = s.pool_value + wit.stake)
    (hleaf : tx.output wit.leafOutIdx =
      some (covenantOutput e c.template (s.bump wit.side wit.stake).fields v none))
    (hticket : tx.output wit.psOutIdx = some (covenantOutput e wit.ps_template
      (ticketFields c wit.bettorPk wit.side wit.stake) w none))
    (hstake : Fits 8 wit.stake) :
    register_append e i64 c s tx wit = some (s.bump wit.side wit.stake) := by
  have ⟨_, hyes, _, hno, hcount, hpool⟩ := hfits
  have hnext : ∀ f ∈ (s.bump wit.side wit.stake).fields, f.Fits := by
    simp only [State.fields, State.bump, List.forall_mem_cons, List.not_mem_nil, false_implies,
      implies_true, and_true]
    exact ⟨hyes, hno, hcount, hpool⟩
  have hsideFits : Fits 8 wit.side := by
    rcases hside with h | h <;> rw [h] <;> decide
  have hfields : ∀ f ∈ ticketFields c wit.bettorPk wit.side wit.stake, f.Fits := by
    simp only [ticketFields, List.forall_mem_cons, List.not_mem_nil, false_implies, implies_true,
      and_true]
    exact ⟨trivial, hsideFits, hstake, trivial⟩
  exact register_append_eq_some.mpr ⟨hseal, hside, hmin,
    ⟨hhash, Tx.continues_covenantOutput hfields hticket⟩, hfits, rfl,
    Tx.continues_covenantOutput hnext hleaf, _, hleaf, hv⟩

theorem Step.state_eq {u u' : Coin} {a : RegisterWitness × Tx} (h : Step e c u a u') :
    u'.state = u.state.bump a.1.side a.1.stake := by
  obtain ⟨hreg, -⟩ := h
  obtain ⟨-, -, -, -, -, hs, -⟩ := register_append_eq_some.mp hreg
  exact hs

/-! ### The account of the registrations -/

/-- The stakes of some registrations. -/
def stakes (as : List (RegisterWitness × Tx)) : Int := (as.map fun a => a.1.stake).sum

/-- What the state says is what the registrations brought. -/
structure Accounts (c : Contract) (as : List (RegisterWitness × Tx)) (s : State) : Prop where
  sides : s.local_yes + s.local_no = s.pool_value
  pool : s.pool_value = stakes as
  count : s.count = as.length
  sealed : s.count ≤ max c.seal_count 0

theorem accounts_genesis : Accounts c [] genesis.state :=
  ⟨rfl, rfl, rfl, le_max_right _ _⟩

theorem Accounts.step {as : List (RegisterWitness × Tx)} {u u' : Coin}
    {a : RegisterWitness × Tx} (hi : Accounts c as u.state) (h : Step e c u a u') :
    Accounts c (as ++ [a]) u'.state := by
  obtain ⟨hreg, -⟩ := h
  obtain ⟨hseal, -, -, -, -, hs, -⟩ := register_append_eq_some.mp hreg
  obtain ⟨hsides, hpool, hcount, -⟩ := hi
  rw [hs]
  refine ⟨?_, ?_, ?_, ?_⟩
  · show u.state.local_yes + a.1.stake * (1 - a.1.side) +
      (u.state.local_no + a.1.stake * a.1.side) = u.state.pool_value + a.1.stake
    rw [← hsides]
    ring
  · show u.state.pool_value + a.1.stake = stakes (as ++ [a])
    rw [hpool, stakes, stakes, List.map_append, List.sum_append, List.map_singleton,
      List.sum_singleton]
  · show u.state.count + 1 = ((as ++ [a]).length : Int)
    rw [hcount, List.length_append, List.length_singleton]
    push_cast
    rfl
  · show u.state.count + 1 ≤ max c.seal_count 0
    exact le_max_of_le_left (by omega)

/-- **The state of a shard is the account of its registrations.** -/
theorem accounts {as : List (RegisterWitness × Tx)} {u : Coin}
    (h : Run (Step e c) genesis as u) : Accounts c as u.state := by
  have keep : ∀ as (u : Coin) a u', Accounts c as u.state → Step e c u a u' →
      Accounts c (as ++ [a]) u'.state := fun _ _ _ _ hi hs => hi.step hs
  exact h.history keep accounts_genesis

/-! ### No number below zero -/

structure NonNeg (s : State) : Prop where
  yes : 0 ≤ s.local_yes
  no : 0 ≤ s.local_no
  count : 0 ≤ s.count

theorem NonNeg.pool {as : List (RegisterWitness × Tx)} {s : State} (h : NonNeg s)
    (ha : Accounts c as s) : 0 ≤ s.pool_value := by
  have hyes := h.yes
  have hno := h.no
  have hsides := ha.sides
  omega

theorem NonNeg.step (hmin : 0 ≤ c.min_bet) {u u' : Coin} {a : RegisterWitness × Tx}
    (hi : NonNeg u.state) (h : Step e c u a u') : NonNeg u'.state := by
  obtain ⟨hreg, -⟩ := h
  obtain ⟨-, hside, hbet, -, -, hs, -⟩ := register_append_eq_some.mp hreg
  obtain ⟨hyes, hno, hcount⟩ := hi
  have hstake : 0 ≤ a.1.stake := le_trans hmin hbet
  rw [hs]
  rcases hside with h0 | h1
  · rw [h0]
    refine ⟨?_, ?_, ?_⟩
    · show 0 ≤ u.state.local_yes + a.1.stake * (1 - 0)
      omega
    · show 0 ≤ u.state.local_no + a.1.stake * 0
      omega
    · show 0 ≤ u.state.count + 1
      omega
  · rw [h1]
    refine ⟨?_, ?_, ?_⟩
    · show 0 ≤ u.state.local_yes + a.1.stake * (1 - 1)
      omega
    · show 0 ≤ u.state.local_no + a.1.stake * 1
      omega
    · show 0 ≤ u.state.count + 1
      omega

theorem nonNeg (hmin : 0 ≤ c.min_bet) {as : List (RegisterWitness × Tx)} {u : Coin}
    (h : Run (Step e c) genesis as u) : NonNeg u.state := by
  have keep : ∀ (u : Coin) a u', NonNeg u.state → Step e c u a u' → NonNeg u'.state :=
    fun _ _ _ hi hs => hi.step hmin hs
  exact h.invariant keep ⟨le_refl _, le_refl _, le_refl _⟩

end KANet.Covenant.ShardLeaf
