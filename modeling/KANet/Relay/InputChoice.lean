import KANet.Script.Basic
import Mathlib.Algebra.Order.BigOperators.Group.List
import Mathlib.Algebra.Order.Field.Basic
import Mathlib.Tactic.FieldSimp
import Mathlib.Tactic.Linarith
import Mathlib.Tactic.Ring

/-!
# The inputs of a transfer

`_sendKaspaInner` spends one output of the wallet that it takes to be large enough, the
smallest such, or else all of them.  What decides is the storage mass: small change weighs
more than the block lets through.  The change is computed without the fee that is paid.

* `admits_iff` — the limit, as an inequality of reciprocals.
* `admits_of_part` — without a large output, all of them do if some do.
* `not_admits_single`, `admits_single_of_safe` — amounts too small, and large enough, for one.
* `served_iff` — when the choice is one that can be sent.
-/

namespace KANet.Relay.Inputs

open KANet.Script

/-! ### The mass -/

def STORAGE_MASS_C : ℚ := 1000000000000

/-- `estimateMultiOutputStorageMass`, in exact numbers. -/
def estimateMultiOutputStorageMass (inputValues outputValues : List Int) : ℚ :=
  let sumOutInv := (outputValues.map fun v : Int => if 0 < v then 1 / (v : ℚ) else 0).sum
  let sumIn := inputValues.sum
  let inputsTerm := if 0 < sumIn then
    (inputValues.length : ℚ) * inputValues.length / (sumIn : ℚ) else 0
  max 0 (STORAGE_MASS_C * (sumOutInv - inputsTerm))

/-- `limit=100,000` -/
def MASS_LIMIT : ℚ := 100000

/-- What the inputs leave. -/
def changeOf (inputs : List Int) (amountSompi fee : Int) : Int := inputs.sum - amountSompi - fee

/-- The inputs pay the amount and the fee, and the change can be sent along. -/
def Admits (inputs : List Int) (amountSompi fee : Int) : Prop :=
  0 < changeOf inputs amountSompi fee ∧
    estimateMultiOutputStorageMass inputs [amountSompi, changeOf inputs amountSompi fee] ≤
      MASS_LIMIT

/-! ### The choice -/

/-- An output of the wallet. -/
structure Utxo where
  amount : Int
  pos : 0 < amount
deriving DecidableEq

def FEE_RESERVE_BASE : Int := 300000
def STRUCTURE_FLOOR_FEE : Int := 200000
def KIP9_SAFE_CHANGE : Int := 150000000

def amounts (entries : List Utxo) : List Int := entries.map Utxo.amount

def totalBalance (entries : List Utxo) : Int := (amounts entries).sum

/-- The amount, the change it is thought to need, and a reserve. -/
def minSafeUtxo (amountSompi : Int) : Int :=
  amountSompi + amountSompi * 65 / 100 + FEE_RESERVE_BASE

/-- The fee that is paid. -/
def effectivePriorityFee (priorityFee : Int) : Int :=
  if 3000000 < priorityFee then priorityFee else 3000000

def selectedEntries (entries : List Utxo) (amountSompi : Int) : List Utxo :=
  let sorted := entries.mergeSort fun a b => decide (a.amount ≤ b.amount)
  match sorted.find? fun e => decide (minSafeUtxo amountSompi ≤ e.amount) with
  | some safeEntry => [safeEntry]
  | none => sorted

/-- The entries that `_sendKaspaInner` hands to the generator, if the balance suffices. -/
def chooseInputs (entries : List Utxo) (amountSompi priorityFee : Int) : Option (List Utxo) := do
  require (entries ≠ [])
  require (amountSompi + FEE_RESERVE_BASE + priorityFee ≤ totalBalance entries)
  some (selectedEntries entries amountSompi)

def estimateFeeReserve (payloadHex : String) : Int :=
  if payloadHex = "" then FEE_RESERVE_BASE
  else
    let payloadBytes : Int := ((payloadHex.length + 1) / 2 : Nat)
    let dynamic := payloadBytes * 1000 + STRUCTURE_FLOOR_FEE
    let estimated := if FEE_RESERVE_BASE < dynamic then dynamic else FEE_RESERVE_BASE
    if estimated < 100000000 then estimated else 100000000

/-- A payment of nothing to oneself. -/
structure SelfFull where
  best : Utxo
  outputAmount : Int
  changeAmount : Int
deriving DecidableEq

/-- The largest output, in two parts. -/
def chooseSelfFull (entries : List Utxo) (payloadHex : String) : Option SelfFull := do
  let baseReserve := estimateFeeReserve payloadHex
  let feeReserve := if KIP9_SAFE_CHANGE < baseReserve then baseReserve else KIP9_SAFE_CHANGE
  let best ← (entries.mergeSort fun a b => decide (b.amount ≤ a.amount)).head?
  require (feeReserve * 2 ≤ best.amount)
  some { best, outputAmount := best.amount - feeReserve, changeAmount := feeReserve }

/-- The choice can be sent. -/
def Served (entries : List Utxo) (amountSompi priorityFee : Int) : Prop :=
  ∃ selected, chooseInputs entries amountSompi priorityFee = some selected ∧
    Admits (amounts selected) amountSompi (effectivePriorityFee priorityFee)

/-! ### The limit -/

/-- Of two outputs: the reciprocals against the limit. -/
theorem mass_le_iff {inputs : List Int} {a b : Int} (hin : 0 < inputs.sum) (ha : 0 < a)
    (hb : 0 < b) :
    estimateMultiOutputStorageMass inputs [a, b] ≤ MASS_LIMIT ↔
      1 / (a : ℚ) + 1 / b - (inputs.length : ℚ) ^ 2 / (inputs.sum : ℚ) ≤ 1 / 10000000 := by
  have hlimit : (0 : ℚ) ≤ MASS_LIMIT := by norm_num [MASS_LIMIT]
  unfold estimateMultiOutputStorageMass
  simp only [List.map_cons, List.map_nil, List.sum_cons, List.sum_nil, if_pos hin, if_pos ha,
    if_pos hb, add_zero, max_le_iff, hlimit, true_and]
  rw [← pow_two]
  unfold STORAGE_MASS_C MASS_LIMIT
  constructor
  · intro h
    linarith
  · intro h
    linarith

theorem effectivePriorityFee_ge (priorityFee : Int) :
    3000000 ≤ effectivePriorityFee priorityFee := by
  unfold effectivePriorityFee
  by_cases h : 3000000 < priorityFee
  · rw [if_pos h]
    exact h.le
  · rw [if_neg h]

theorem admits_iff {inputs : List Int} {s fee : Int} (hs : 0 < s) (hfee : 0 < fee) :
    Admits inputs s fee ↔ 0 < changeOf inputs s fee ∧
      1 / (s : ℚ) + 1 / (changeOf inputs s fee : ℚ) -
        (inputs.length : ℚ) ^ 2 / (inputs.sum : ℚ) ≤ 1 / 10000000 := by
  unfold Admits
  constructor
  · rintro ⟨hc, hmass⟩
    have hin : 0 < inputs.sum := by
      unfold changeOf at hc
      omega
    exact ⟨hc, (mass_le_iff hin hs hc).mp hmass⟩
  · rintro ⟨hc, hmass⟩
    have hin : 0 < inputs.sum := by
      unfold changeOf at hc
      omega
    exact ⟨hc, (mass_le_iff hin hs hc).mpr hmass⟩

/-- What one input of `z` adds to the reciprocals, when it pays `A`. -/
theorem recip_gap {A z : ℚ} (hA : 0 ≤ A) (hz : A < z) :
    1 / (z - A) - 1 / z = A / ((z - A) * z) := by
  have h₁ : z - A ≠ 0 := by linarith
  have h₂ : z ≠ 0 := by linarith
  rw [div_sub_div _ _ h₁ h₂]
  ring

theorem recip_gap_anti {A x y : ℚ} (hA : 0 ≤ A) (hx : A < x) (hxy : x ≤ y) :
    1 / (y - A) - 1 / y ≤ 1 / (x - A) - 1 / x := by
  rw [recip_gap hA hx, recip_gap hA (hx.trans_le hxy)]
  have hxA : 0 < x - A := by linarith
  have hx0 : 0 < x := by linarith
  exact div_le_div_of_nonneg_left hA (mul_pos hxA hx0)
    (mul_le_mul (by linarith) hxy hx0.le (by linarith))

theorem admits_single_iff {s fee x : Int} (hs : 0 < s) (hfee : 0 < fee) :
    Admits [x] s fee ↔ ((s : ℚ) + fee) < x ∧
      1 / (s : ℚ) + (1 / ((x : ℚ) - (s + fee)) - 1 / x) ≤ 1 / 10000000 := by
  rw [admits_iff hs hfee]
  have hc : 0 < changeOf [x] s fee ↔ ((s : ℚ) + fee) < x := by
    rw [changeOf, List.sum_singleton]
    constructor
    · intro h
      exact_mod_cast (by omega : s + fee < x)
    · intro h
      have : s + fee < x := by exact_mod_cast h
      omega
  have hchange : ((changeOf [x] s fee : Int) : ℚ) = (x : ℚ) - (s + fee) := by
    rw [changeOf, List.sum_singleton]
    push_cast
    ring
  rw [hc, hchange, List.length_singleton, List.sum_singleton, Nat.cast_one, one_pow,
    ← add_sub_assoc]

/-- **Where one input is enough, any larger one is.** -/
theorem admits_single_mono {s fee x y : Int} (hs : 0 < s) (hfee : 0 < fee) (hxy : x ≤ y)
    (h : Admits [x] s fee) : Admits [y] s fee := by
  rw [admits_single_iff hs hfee] at h ⊢
  obtain ⟨hc, hmass⟩ := h
  have hxy' : (x : ℚ) ≤ y := by exact_mod_cast hxy
  have hA : (0 : ℚ) ≤ (s : ℚ) + fee := by exact_mod_cast (by omega : 0 ≤ s + fee)
  have hanti := recip_gap_anti hA hc hxy'
  exact ⟨hc.trans_le hxy', by linarith⟩

/-- One input is never enough for an amount that by itself has the mass of the limit. -/
theorem not_admits_single {s fee x : Int} (hs : 0 < s) (hle : s ≤ 10000000) (hfee : 0 < fee) :
    ¬ Admits [x] s fee := by
  rw [admits_single_iff hs hfee]
  rintro ⟨hc, hmass⟩
  have hs' : (0 : ℚ) < s := by exact_mod_cast hs
  have hA : (0 : ℚ) < (s : ℚ) + fee := by exact_mod_cast (by omega : 0 < s + fee)
  have hout : 1 / (10000000 : ℚ) ≤ 1 / s := one_div_le_one_div_of_le hs' (by exact_mod_cast hle)
  have hgap : 0 < ((s : ℚ) + fee) / (((x : ℚ) - (s + fee)) * x) :=
    div_pos hA (mul_pos (by linarith) (by linarith))
  rw [recip_gap hA.le hc] at hmass
  linarith

/-! ### The whole wallet -/

/-- **More inputs do no harm**, when each is below `M`.  Of inputs that pay `A` and leave `c`,
`k` of them, each falls short of `M`, together by `r`; with `m` more, which bring `X`, what they
are worth in the mass is at least `(sig + X + r)² / (M² (sig + X))`. -/
theorem recip_le_of_part {s A M c X k m sig δ : ℚ} (hs : 0 < s) (hA : 0 < A) (hM : 0 < M)
    (hc : 0 < c) (hX : 0 ≤ X) (hsig : sig = A + c) (hk : sig ≤ k * M) (hm : X ≤ m * M)
    (hbig : M ^ 2 ≤ s * (A + 2 * M)) (hδ : 0 ≤ δ) (h : 1 / s + 1 / c - k ^ 2 / sig ≤ δ) :
    1 / s + 1 / (c + X) - (k + m) ^ 2 / (sig + X) ≤ δ := by
  have hsig0 : 0 < sig := by linarith
  have hT : 0 < sig + X := by linarith
  have hcX : 0 < c + X := by linarith
  obtain ⟨r, hr⟩ : ∃ r, r = k * M - sig := ⟨_, rfl⟩
  have hr0 : 0 ≤ r := by linarith
  have hpart : k ^ 2 / sig = (sig + 2 * r) / M ^ 2 + r ^ 2 / (M ^ 2 * sig) := by
    have hk' : k = (sig + r) / M := by
      rw [hr, eq_div_iff hM.ne']
      ring
    rw [hk']
    field_simp
    ring
  have hall : (sig + X + 2 * r) / M ^ 2 + r ^ 2 / (M ^ 2 * (sig + X)) ≤
      (k + m) ^ 2 / (sig + X) := by
    have hK : (sig + X + r) / M ≤ k + m := by
      rw [div_le_iff₀ hM, hr]
      linarith
    have hsq : ((sig + X + r) / M) ^ 2 ≤ (k + m) ^ 2 := pow_le_pow_left₀ (by positivity) hK 2
    have heq : (sig + X + 2 * r) / M ^ 2 + r ^ 2 / (M ^ 2 * (sig + X)) =
        ((sig + X + r) / M) ^ 2 / (sig + X) := by
      field_simp
      ring
    rw [heq]
    exact div_le_div_of_nonneg_right hsq hT.le
  have hmore : (sig + X + 2 * r) / M ^ 2 = (sig + 2 * r) / M ^ 2 + X / M ^ 2 := by ring
  by_cases hcase : c * (c + X) * r ^ 2 ≤ sig * (sig + X) * M ^ 2
  · -- the change gains more than the inputs lose
    have hgain : 1 / c - 1 / (c + X) = X / (c * (c + X)) := by
      field_simp
      ring
    have hloss : r ^ 2 / (M ^ 2 * sig) - r ^ 2 / (M ^ 2 * (sig + X)) =
        r ^ 2 * X / (M ^ 2 * sig * (sig + X)) := by
      field_simp
      ring
    have hle : r ^ 2 * X / (M ^ 2 * sig * (sig + X)) ≤ X / (c * (c + X)) := by
      rw [div_le_div_iff₀ (by positivity) (by positivity)]
      have hmul := mul_le_mul_of_nonneg_left hcase hX
      linarith
    have hX2 : 0 ≤ X / M ^ 2 := by positivity
    rw [hpart] at h
    linarith
  · -- the inputs are so many that they outweigh the output by themselves
    have hlt := (not_le.mp hcase).le
    have hstep : M ^ 2 * (sig + X) ≤ r ^ 2 * (c + X) := by
      have hle : c * ((c + X) * r ^ 2) ≤ sig * ((c + X) * r ^ 2) :=
        mul_le_mul_of_nonneg_right (by linarith) (by positivity)
      have hmul : sig * (M ^ 2 * (sig + X)) ≤ sig * (r ^ 2 * (c + X)) := by linarith
      exact le_of_mul_le_mul_left hmul hsig0
    have hrecip : 1 / (c + X) ≤ r ^ 2 / (M ^ 2 * (sig + X)) := by
      rw [div_le_div_iff₀ hcX (by positivity)]
      linarith
    have hMr : M ≤ r := by
      have hsq : M ^ 2 * (sig + X) ≤ r ^ 2 * (sig + X) :=
        hstep.trans (mul_le_mul_of_nonneg_left (by linarith) (by positivity))
      exact (pow_le_pow_iff_left₀ hM.le hr0 two_ne_zero).mp (le_of_mul_le_mul_right hsq hT)
    have hout : 1 / s ≤ (sig + X + 2 * r) / M ^ 2 := by
      rw [div_le_div_iff₀ hs (by positivity), one_mul]
      have hgrow : s * (A + 2 * M) ≤ s * (sig + X + 2 * r) :=
        mul_le_mul_of_nonneg_left (by linarith) hs.le
      linarith
    linarith

theorem minSafeUtxo_bounds (s : Int) :
    100 * minSafeUtxo s ≤ 165 * s + 30000000 ∧ 165 * s + 30000000 < 100 * minSafeUtxo s + 100 := by
  unfold minSafeUtxo FEE_RESERVE_BASE
  omega

/-- From here on a payment outweighs what many small inputs are short of. -/
theorem minSafeUtxo_sq {s fee : Int} (hs : 34000 ≤ s) (hfee : 3000000 ≤ fee) :
    (minSafeUtxo s : ℚ) ^ 2 ≤ (s : ℚ) * ((s : ℚ) + fee + 2 * minSafeUtxo s) := by
  obtain ⟨hhi, hlo⟩ := minSafeUtxo_bounds s
  have hs' : (34000 : ℚ) ≤ s := by exact_mod_cast hs
  have hfee' : (3000000 : ℚ) ≤ fee := by exact_mod_cast hfee
  have hM : 100 * (minSafeUtxo s : ℚ) ≤ 165 * s + 30000000 := by exact_mod_cast hhi
  have hsM : (s : ℚ) ≤ minSafeUtxo s := by
    have : s ≤ minSafeUtxo s := by omega
    exact_mod_cast this
  generalize (minSafeUtxo s : ℚ) = M at hM hsM ⊢
  generalize (s : ℚ) = x at hs' hM hsM ⊢
  generalize (fee : ℚ) = f at hfee' ⊢
  -- `M (M - 2 x)` grows with `M`, up to the bound on it
  have hgrow : M * (M - 2 * x) ≤ (1.65 * x + 300000) * (1.65 * x + 300000 - 2 * x) := by
    nlinarith
  nlinarith

/-- **From 0.23 KAS on, what counts as large enough is**, at the lowest fee. -/
theorem admits_single_of_safe {s x : Int} (hs : 23000000 ≤ s) (hx : minSafeUtxo s ≤ x) :
    Admits [x] s 3000000 := by
  have hlo := (minSafeUtxo_bounds s).2
  refine admits_single_mono (by omega) (by norm_num) hx ?_
  rw [admits_single_iff (by omega) (by norm_num)]
  have hs' : (23000000 : ℚ) ≤ s := by exact_mod_cast hs
  have hM : 165 * (s : ℚ) + 30000000 < 100 * minSafeUtxo s + 100 := by exact_mod_cast hlo
  generalize (minSafeUtxo s : ℚ) = M at hM ⊢
  generalize (s : ℚ) = a at hs' hM ⊢
  push_cast
  -- the least that `M` can be
  have hL : 1.65 * a + 299999 ≤ M := by linarith
  have hA : (0 : ℚ) ≤ a + 3000000 := by linarith
  have hAL : a + 3000000 < 1.65 * a + 299999 := by linarith
  have hanti := recip_gap_anti hA hAL hL
  rw [recip_gap hA hAL] at hanti
  have hden : 0 < (1.65 * a + 299999 - (a + 3000000)) * (1.65 * a + 299999) :=
    mul_pos (by linarith) (by linarith)
  have hcubic : (a + 3000000) / ((1.65 * a + 299999 - (a + 3000000)) * (1.65 * a + 299999)) ≤
      1 / 10000000 - 1 / a := by
    have hroom : 1 / 10000000 - 1 / a = (a - 10000000) / (10000000 * a) := by
      have ha : a ≠ 0 := by linarith
      field_simp
    rw [hroom, div_le_div_iff₀ hden (by linarith)]
    obtain ⟨t, rfl⟩ : ∃ t, a = 23000000 + t := ⟨a - 23000000, by ring⟩
    have ht : 0 ≤ t := by linarith
    nlinarith [mul_nonneg ht ht, mul_nonneg (mul_nonneg ht ht) ht]
  exact ⟨by linarith, by linarith⟩

theorem sum_le_of_lt {l : List Utxo} {M : Int} (h : ∀ e ∈ l, e.amount < M) :
    (amounts l).sum ≤ l.length * M := by
  induction l with
  | nil => simp [amounts]
  | cons e l ih =>
    have he := h e List.mem_cons_self
    have hl := ih fun e' he' => h e' (List.mem_cons_of_mem e he')
    unfold amounts at hl ⊢
    rw [List.map_cons, List.sum_cons, List.length_cons]
    push_cast
    linarith

theorem amounts_sum_nonneg (l : List Utxo) : 0 ≤ (amounts l).sum := by
  apply List.sum_nonneg
  intro x hx
  obtain ⟨e, -, rfl⟩ := List.mem_map.mp hx
  exact e.pos.le

/-- What the inputs are together is all that counts. -/
theorem admits_congr {l l' : List Int} (hsum : l.sum = l'.sum) (hlen : l.length = l'.length)
    {s fee : Int} (hs : 0 < s) (hfee : 0 < fee) : Admits l s fee ↔ Admits l' s fee := by
  rw [admits_iff hs hfee, admits_iff hs hfee, changeOf, changeOf, hsum, hlen]

/-- **Without a large output, all of them do if some do.** -/
theorem admits_of_part {entries part : List Utxo} {s fee : Int} (hs : 34000 ≤ s)
    (hfee : 3000000 ≤ fee) (hsmall : ∀ e ∈ entries, e.amount < minSafeUtxo s)
    (hsub : part.Sublist entries) (h : Admits (amounts part) s fee) :
    Admits (amounts entries) s fee := by
  have hs0 : 0 < s := by omega
  have hfee0 : 0 < fee := by omega
  obtain ⟨rest, hperm⟩ := hsub.exists_perm_append
  have hsum : (amounts entries).sum = (amounts part).sum + (amounts rest).sum := by
    unfold amounts
    rw [(hperm.map Utxo.amount).sum_eq, List.map_append, List.sum_append]
  have hlen : (amounts entries).length = (amounts part).length + (amounts rest).length := by
    unfold amounts
    rw [(hperm.map Utxo.amount).length_eq, List.map_append, List.length_append]
  rw [admits_iff hs0 hfee0] at h ⊢
  obtain ⟨hc, hmass⟩ := h
  have hX := amounts_sum_nonneg rest
  have hchange : changeOf (amounts entries) s fee =
      changeOf (amounts part) s fee + (amounts rest).sum := by
    rw [changeOf, changeOf, hsum]
    ring
  refine ⟨by omega, ?_⟩
  have hpart := sum_le_of_lt fun e he => hsmall e (hsub.subset he)
  have hrest : (amounts rest).sum ≤ rest.length * minSafeUtxo s :=
    sum_le_of_lt fun e he => hsmall e (hperm.mem_iff.mpr (List.mem_append_right part he))
  have hM : 0 < minSafeUtxo s := by
    have := minSafeUtxo_bounds s
    omega
  have hpay : (amounts part).sum = s + fee + changeOf (amounts part) s fee := by
    rw [changeOf]
    ring
  rw [hchange, hlen, hsum, Int.cast_add, Int.cast_add, Nat.cast_add]
  apply recip_le_of_part (A := (s : ℚ) + fee) (M := (minSafeUtxo s : ℚ))
  · exact_mod_cast hs0
  · exact_mod_cast (by omega : 0 < s + fee)
  · exact_mod_cast hM
  · exact_mod_cast hc
  · exact_mod_cast hX
  · exact_mod_cast hpay
  · rw [amounts, List.length_map]
    exact_mod_cast hpart
  · rw [amounts, List.length_map]
    exact_mod_cast hrest
  · exact minSafeUtxo_sq hs hfee
  · norm_num
  · exact hmass

/-! ### The choice that is made -/

/-- The smallest output that is large enough, or everything. -/
theorem selectedEntries_cases (entries : List Utxo) (s : Int) :
    (∃ e ∈ entries, minSafeUtxo s ≤ e.amount ∧
        (∀ e' ∈ entries, minSafeUtxo s ≤ e'.amount → e.amount ≤ e'.amount) ∧
        selectedEntries entries s = [e]) ∨
      (∀ e ∈ entries, e.amount < minSafeUtxo s) ∧ (selectedEntries entries s).Perm entries := by
  have hperm := List.mergeSort_perm entries fun a b => decide (a.amount ≤ b.amount)
  have hsorted : (entries.mergeSort fun a b => decide (a.amount ≤ b.amount)).Pairwise
      fun a b => decide (a.amount ≤ b.amount) = true :=
    List.pairwise_mergeSort
      (fun a b c hab hbc => decide_eq_true ((of_decide_eq_true hab).trans (of_decide_eq_true hbc)))
      (fun a b => by
        rcases le_total a.amount b.amount with h | h
        · simp [h]
        · simp [h]) entries
  unfold selectedEntries
  dsimp only
  generalize (entries.mergeSort fun a b => decide (a.amount ≤ b.amount)) = sorted at hperm hsorted
  cases hfind : sorted.find? fun e => decide (minSafeUtxo s ≤ e.amount) with
  | none =>
    right
    refine ⟨fun e he => ?_, hperm⟩
    have hnot := List.find?_eq_none.mp hfind e (hperm.mem_iff.mpr he)
    simpa using hnot
  | some e =>
    left
    obtain ⟨hsafe, before, after, rfl, hbefore⟩ := List.find?_eq_some_iff_append.mp hfind
    refine ⟨e, hperm.mem_iff.mp (by simp), of_decide_eq_true hsafe, fun e' he' hsafe' => ?_, rfl⟩
    rcases List.mem_append.mp (hperm.mem_iff.mpr he') with hin | hin
    · have hnot := hbefore e' hin
      simp only [Bool.not_eq_true', decide_eq_false_iff_not] at hnot
      exact absurd hsafe' hnot
    · rcases List.mem_cons.mp hin with rfl | hin
      · exact le_refl _
      · have htail := (List.pairwise_append.mp hsorted).2.1
        exact of_decide_eq_true ((List.pairwise_cons.mp htail).1 e' hin)

theorem served_eq {entries : List Utxo} {s p : Int} :
    Served entries s p ↔ entries ≠ [] ∧ s + FEE_RESERVE_BASE + p ≤ totalBalance entries ∧
      Admits (amounts (selectedEntries entries s)) s (effectivePriorityFee p) := by
  unfold Served chooseInputs
  simp only [Option.bind_eq_bind, Option.bind_eq_some_iff, require_eq_some, exists_const,
    Option.some.injEq, and_assoc, exists_and_left, exists_eq_left']

/-- **When the choice can be sent**, of a wallet with inputs that can: no output that counts as
large enough is too small, and the total covers the reserve. -/
theorem served_iff {entries : List Utxo} {s p : Int} (hs : 0 < s)
    (hsome : ∃ part : List Utxo, part.Sublist entries ∧
      Admits (amounts part) s (effectivePriorityFee p)) :
    Served entries s p ↔ s + FEE_RESERVE_BASE + p ≤ totalBalance entries ∧
      (∀ e ∈ entries, minSafeUtxo s ≤ e.amount →
        Admits [e.amount] s (effectivePriorityFee p)) ∧
      (s < 34000 → (∀ e ∈ entries, e.amount < minSafeUtxo s) →
        Admits (amounts entries) s (effectivePriorityFee p)) := by
  have hfee := effectivePriorityFee_ge p
  have hfee0 : 0 < effectivePriorityFee p := by omega
  obtain ⟨part, hsub, hpart⟩ := hsome
  have hne : entries ≠ [] := by
    rintro rfl
    obtain rfl := List.sublist_nil.mp hsub
    have hc : 0 < 0 - s - effectivePriorityFee p := hpart.1
    omega
  rw [served_eq]
  rcases selectedEntries_cases entries s with ⟨e, he, hsafe, hmin, hsel⟩ | ⟨hsmall, hsel⟩
  · rw [hsel]
    constructor
    · rintro ⟨-, hbal, hone⟩
      refine ⟨hbal, fun e' he' hsafe' => ?_, fun _ hnone => ?_⟩
      · exact admits_single_mono hs hfee0 (hmin e' he' hsafe') hone
      · have := hnone e he
        omega
    · rintro ⟨hbal, hall, -⟩
      exact ⟨hne, hbal, hall e he hsafe⟩
  · have hsum : (amounts (selectedEntries entries s)).sum = (amounts entries).sum :=
      (hsel.map _).sum_eq
    have hlen : (amounts (selectedEntries entries s)).length = (amounts entries).length :=
      (hsel.map _).length_eq
    rw [admits_congr hsum hlen hs hfee0]
    constructor
    · rintro ⟨-, hbal, hall⟩
      refine ⟨hbal, fun e he hsafe => ?_, fun _ _ => hall⟩
      have := hsmall e he
      omega
    · rintro ⟨hbal, -, hdust⟩
      refine ⟨hne, hbal, ?_⟩
      by_cases hlow : s < 34000
      · exact hdust hlow hsmall
      · exact admits_of_part (not_lt.mp hlow) hfee hsmall hsub hpart

/-- **Amounts from 0.23 KAS on are served**, unless the fee that is asked for is near the one that
is paid in any case. -/
theorem served_of_large {entries : List Utxo} {s p : Int} (hs : 23000000 ≤ s) (hp : p ≤ 2700000)
    (hsome : ∃ part : List Utxo, part.Sublist entries ∧
      Admits (amounts part) s (effectivePriorityFee p)) : Served entries s p := by
  have hfee : effectivePriorityFee p = 3000000 := if_neg (by omega)
  apply (served_iff (by omega) hsome).mpr
  obtain ⟨part, hsub, hpart⟩ := hsome
  rw [hfee] at hpart ⊢
  refine ⟨?_, fun e _ hsafe => admits_single_of_safe hs hsafe, fun hlow => by omega⟩
  have hc : 0 < (amounts part).sum - s - 3000000 := hpart.1
  obtain ⟨rest, hperm⟩ := hsub.exists_perm_append
  have hsum : totalBalance entries = (amounts part).sum + (amounts rest).sum := by
    unfold totalBalance amounts
    rw [(hperm.map Utxo.amount).sum_eq, List.map_append, List.sum_append]
  have hrest := amounts_sum_nonneg rest
  unfold FEE_RESERVE_BASE
  omega

/-! ### The wallet's payment to itself -/

theorem selfFull_light {entries : List Utxo} {payloadHex : String} {sf : SelfFull}
    (h : chooseSelfFull entries payloadHex = some sf) :
    sf.outputAmount + sf.changeAmount = sf.best.amount ∧
      estimateMultiOutputStorageMass [sf.best.amount] [sf.outputAmount, sf.changeAmount] ≤
        MASS_LIMIT := by
  simp only [chooseSelfFull, Option.bind_eq_bind, Option.bind_eq_some_iff, require_eq_some,
    exists_const, Option.some.injEq] at h
  obtain ⟨best, -, hlarge, rfl⟩ := h
  have hreserve : 150000000 ≤ if KIP9_SAFE_CHANGE < estimateFeeReserve payloadHex then
      estimateFeeReserve payloadHex else KIP9_SAFE_CHANGE := by
    unfold KIP9_SAFE_CHANGE
    by_cases hbig : 150000000 < estimateFeeReserve payloadHex
    · rw [if_pos hbig]
      exact hbig.le
    · rw [if_neg hbig]
  generalize (if KIP9_SAFE_CHANGE < estimateFeeReserve payloadHex then
      estimateFeeReserve payloadHex else KIP9_SAFE_CHANGE) = r at hlarge hreserve ⊢
  refine ⟨by ring, ?_⟩
  dsimp only
  have hin : 0 < ([best.amount] : List Int).sum := by
    rw [List.sum_singleton]
    exact best.pos
  rw [mass_le_iff hin (by omega) (by omega)]
  have hrecip : ∀ x : Int, 150000000 ≤ x → 1 / (x : ℚ) ≤ 1 / 150000000 := by
    intro x hx
    exact one_div_le_one_div_of_le (by norm_num) (by exact_mod_cast hx)
  have h₁ := hrecip (best.amount - r) (by omega)
  have h₂ := hrecip r hreserve
  have h₃ : (0 : ℚ) ≤ (([best.amount] : List Int).length : ℚ) ^ 2 /
      (([best.amount] : List Int).sum : ℚ) := by
    have : (0 : ℚ) < (([best.amount] : List Int).sum : ℚ) := by exact_mod_cast hin
    positivity
  linarith

/-- **The wallet's choice of inputs.**  Where some of the outputs can pay the amount and the fee,
those that are chosen can if and only if the total covers the reserve too, every output that is
taken to be large enough is so by itself, and, of amounts below 34000, the whole wallet is when
there is no such output.  A payment of nothing to oneself is always light enough. -/
theorem input_choice (entries : List Utxo) (amountSompi priorityFee : Int)
    (payloadHex : String) :
    (0 < amountSompi →
      (∃ part : List Utxo, part.Sublist entries ∧
        Admits (amounts part) amountSompi (effectivePriorityFee priorityFee)) →
      (Served entries amountSompi priorityFee ↔
        amountSompi + FEE_RESERVE_BASE + priorityFee ≤ totalBalance entries ∧
        (∀ e ∈ entries, minSafeUtxo amountSompi ≤ e.amount →
          Admits [e.amount] amountSompi (effectivePriorityFee priorityFee)) ∧
        (amountSompi < 34000 → (∀ e ∈ entries, e.amount < minSafeUtxo amountSompi) →
          Admits (amounts entries) amountSompi (effectivePriorityFee priorityFee)))) ∧
    ∀ sf : SelfFull, chooseSelfFull entries payloadHex = some sf →
      sf.outputAmount + sf.changeAmount = sf.best.amount ∧
        estimateMultiOutputStorageMass [sf.best.amount] [sf.outputAmount, sf.changeAmount] ≤
          MASS_LIMIT :=
  ⟨fun hs hsome => served_iff hs hsome, fun _ h => selfFull_light h⟩

/-- Two outputs, the smaller of which counts as large enough for 0.2 KAS. -/
def sampleWallet : List Utxo := [⟨33300000, by norm_num⟩, ⟨1000000000, by norm_num⟩]

def sampleOutput : Utxo := ⟨1000000000, by norm_num⟩

theorem large_admits : ∃ part : List Utxo, part.Sublist sampleWallet ∧
    Admits (amounts part) 20000000 (effectivePriorityFee 0) := by
  refine ⟨[⟨1000000000, by norm_num⟩], List.sublist_cons_self _ _, ?_⟩
  have hone : Admits [1000000000] 20000000 3000000 := by
    rw [admits_single_iff (by norm_num) (by norm_num)]
    norm_num
  exact hone

/-- **The change is short of the fee**: the larger output could pay, and the smaller is chosen. -/
theorem input_choice_heavy :
    (∃ part : List Utxo, part.Sublist sampleWallet ∧
      Admits (amounts part) 20000000 (effectivePriorityFee 0)) ∧
    ¬ Served sampleWallet 20000000 0 := by
  refine ⟨large_admits, fun h => ?_⟩
  have hone := ((served_iff (by norm_num) large_admits).mp h).2.1 ⟨33300000, by norm_num⟩
    List.mem_cons_self (by decide)
  have hfee : effectivePriorityFee 0 = 3000000 := by decide
  rw [hfee, admits_single_iff (by norm_num) (by norm_num)] at hone
  norm_num at hone

/-- The larger output alone is chosen, and can be sent. -/
theorem input_choice_one : Served [sampleOutput] 20000000 0 := by
  have hone : Admits [1000000000] 20000000 3000000 := by
    rw [admits_single_iff (by norm_num) (by norm_num)]
    norm_num
  refine ((input_choice [sampleOutput] 20000000 0 "").1 (by norm_num)
    ⟨_, List.Sublist.refl _, hone⟩).mpr ⟨by decide, ?_, fun hlow => ?_⟩
  · intro e he _
    obtain rfl := List.mem_singleton.mp he
    exact hone
  · exact absurd hlow (by norm_num)

end KANet.Relay.Inputs
