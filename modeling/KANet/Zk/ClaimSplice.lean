import KANet.Zk.ClaimBuilder

/-!
# The splice and the covenant

`spliceClaimContinuationRedeem` predicts the redeem script that `CloseZkV2.claim` demands of
its continuation.

* `spliceFrom_eq` — what the splice does with a leaf that some word has a bit for.
* `claim_eq_some_some` — what the covenant accepts and does not empty.
* `refines_iff` — the splice does what the covenant demands, and refuses what the
  covenant refuses, but for the bits of the last word that belong to no leaf and for a
  negative index that takes the whole pool.
-/

namespace KANet.Zk

open KANet.Lib KANet.Script KANet.Covenant
open CloseZkV2 (State)

/-! ### What is written -/

/-- The words as the builder writes them. -/
theorem wordsLE_eq {vs : List Int} (h : ∀ v ∈ vs, TwosFits 8 v) :
    wordsLE vs = some (vs.flatMap fun v => 0x08 :: twosComplement 8 v) := by
  induction vs with
  | nil => rfl
  | cons v vs ih =>
    rw [wordsLE, i64LE, if_pos (h v List.mem_cons_self),
      ih fun x hx => h x (List.mem_cons_of_mem _ hx), List.flatMap_cons]
    rfl

/-- The words as the contract writes them. -/
theorem serialize_words {vs : List Int} (h : ∀ v ∈ vs, Fits 8 v) :
    serializeState (vs.map Field.int) = some (vs.flatMap fun v => 0x08 :: signMagnitude 8 v) := by
  induction vs with
  | nil => rfl
  | cons v vs ih =>
    rw [List.map_cons, serializeState, ih fun x hx => h x (List.mem_cons_of_mem _ hx),
      Field.serialize, num2bin, if_pos (h v List.mem_cons_self), List.flatMap_cons]
    rfl

/-- The numbers of a state are such that the contract can write them. -/
structure StateFits (s : State) : Prop where
  winner : Fits 8 s.attestedWinner
  closed : Fits 8 s.closed
  pool : Fits 8 s.consolidated_pool
  words : ∀ i, Fits 8 (s.w i)

/-- A state, its numbers written by `enc`. -/
def encodeState (enc : Int → Bytes) (s : State) : Bytes :=
  0x08 :: (signMagnitude 8 s.attestedWinner ++ (0x08 :: (enc s.closed ++
    (0x20 :: (s.payoutRootField.toList ++ (0x08 :: (enc s.consolidated_pool ++
      (List.ofFn s.w).flatMap fun v => 0x08 :: enc v)))))))

theorem serializeState_of_stateFits {s : State} (h : StateFits s) :
    serializeState s.fields = some (encodeState (signMagnitude 8) s) := by
  have hwords : ∀ v ∈ List.ofFn s.w, Fits 8 v := by
    intro v hv
    obtain ⟨i, rfl⟩ := List.mem_ofFn.mp hv
    exact h.words i
  rw [State.fields, serializeState, serializeState, serializeState, serializeState,
    serialize_int h.winner, serialize_int h.closed, serialize_int h.pool, serialize_words hwords]
  rfl

theorem stateFits_of_serializeState {s : State} {bytes : Bytes}
    (h : serializeState s.fields = some bytes) : StateFits s where
  winner := fits_of_serializeState h List.mem_cons_self
  closed := fits_of_serializeState h (List.mem_cons_of_mem _ List.mem_cons_self)
  pool := fits_of_serializeState h (by simp [State.fields])
  words := fun i => fits_of_serializeState h (List.mem_of_getElem? (fields_word s i))

/-! ### Bits -/

/-- The bit of leaf `k`, as the builder tests it. -/
def BitSet (w : Words) (k : Nat) : Prop := w (wordIndex (k / 63)) / 2 ^ (k % 63) % 2 = 1

instance (w : Words) (k : Nat) : Decidable (BitSet w k) := inferInstanceAs (Decidable (_ = _))

theorem nullifierBitPosition_natCast {k : Nat} (hk : k < 1071) :
    nullifierBitPosition k = some (((k / 63 : Nat) : Int), ((k % 63 : Nat) : Int)) := by
  have hq : (k : Int) / 63 = ((k / 63 : Nat) : Int) := rfl
  have hr : (k : Int).tmod 63 = ((k % 63 : Nat) : Int) := rfl
  have hlt : ((k / 63 : Nat) : Int) < NULLIFIER_WORDS := by
    show ((k / 63 : Nat) : Int) < 17
    omega
  unfold nullifierBitPosition
  rw [hq, hr, require_bind_eq_some]
  exact ⟨hlt, rfl⟩

theorem wordAt_natCast (w : Words) {q : Nat} (hq : q < 17) :
    wordAt w (q : Int) = some (w (Fin.ofNat 17 q)) := by
  have hin : (0 : Int) ≤ (q : Int) ∧ (q : Int) < 17 := by omega
  have hi : (⟨(q : Int).toNat, by omega⟩ : Fin 17) = Fin.ofNat 17 q := by
    apply Fin.ext
    rw [Fin.val_ofNat, Nat.mod_eq_of_lt hq]
    exact Int.toNat_natCast q
  rw [wordAt, dif_pos hin, hi]

theorem isNullifierBitSet_natCast {s : State} {k : Nat} (hk : k < 1071) :
    isNullifierBitSet s k = some (decide (BitSet s.w k)) := by
  unfold isNullifierBitSet
  rw [nullifierBitPosition_natCast hk]
  simp only [Option.bind_eq_bind, Option.bind_some]
  rw [wordAt_natCast s.w (by omega), Option.getD_some, shiftRight, if_pos (Int.natCast_nonneg _),
    Int.toNat_natCast]
  rfl

/-! ### The splice -/

/-- The state after the claim, as the splice writes it. -/
def splicedState (s : State) (k : Nat) (payout : Int) : State :=
  { s.pay payout k with closed := 2 }

theorem spliceFrom_of_ge {redeem : Bytes} {merkleIndex payout : Int} {s : State}
    (h : 1071 ≤ merkleIndex) : spliceFrom redeem merkleIndex payout s = none := by
  have hpos : nullifierBitPosition merkleIndex = none := by
    apply Option.eq_none_iff_forall_ne_some.mpr
    intro p hp
    unfold nullifierBitPosition at hp
    have hlt : merkleIndex / 63 < 17 := (require_bind_eq_some.mp hp).1
    omega
  unfold spliceFrom
  rw [hpos]
  rfl

/-- A negative index has no word: nothing can be written, but the last payment writes
nothing. -/
theorem spliceFrom_of_neg {redeem : Bytes} {merkleIndex payout : Int} {s : State}
    (h : merkleIndex < 0) {r : Splice} : spliceFrom redeem merkleIndex payout s = some r ↔
      1 ≤ payout ∧ payout = s.consolidated_pool ∧
        r = { isLast := true, redeemHex := none, newPool := 0 } := by
  have hpos : nullifierBitPosition merkleIndex =
      some (merkleIndex / 63, merkleIndex.tmod 63) := by
    unfold nullifierBitPosition
    rw [require_bind_eq_some]
    exact ⟨show merkleIndex / 63 < 17 by omega, rfl⟩
  have hword : wordAt s.w (merkleIndex / 63) = none := by
    rw [wordAt, dif_neg]
    omega
  have hclear : isNullifierBitSet s merkleIndex = some false := by
    unfold isNullifierBitSet
    rw [hpos]
    simp only [Option.bind_eq_bind, Option.bind_some, hword, Option.getD_none, shiftRight,
      Int.zero_ediv, zero_mul, ite_self]
    rfl
  unfold spliceFrom
  simp only [hpos, hclear, Option.bind_eq_bind, Option.bind_some, Option.bind_eq_some_iff,
    require_eq_some, exists_const, true_and]
  constructor
  · rintro ⟨⟨h1, hle⟩, hr⟩
    by_cases hz : s.consolidated_pool - payout = 0
    · rw [if_pos hz] at hr
      exact ⟨h1, by omega, (Option.some.inj hr).symm⟩
    · rw [if_neg hz] at hr
      simp [hword] at hr
  · rintro ⟨h1, heq, rfl⟩
    exact ⟨⟨h1, heq.le⟩, if_pos (by omega)⟩

theorem fits_setBit {w : Int} {b : Nat} (hw : Fits 8 w) (hb : b < 63)
    (hclear : w / 2 ^ b % 2 = 0) : Fits 8 (w + 2 ^ b) := by
  obtain ⟨hlo, hhi⟩ := fits_eight.mp hw
  have hpos : (0 : Int) < 2 ^ b := by positivity
  have hmask : (2 : Int) ^ b ≤ 2 ^ 62 := pow_le_pow_right₀ (by norm_num) (by omega)
  apply fits_eight.mpr
  refine ⟨by omega, ?_⟩
  by_cases h0 : 0 ≤ w
  · obtain ⟨n, rfl⟩ := Int.eq_ofNat_of_zero_le h0
    have hn : n / 2 ^ b % 2 = 0 := by exact_mod_cast hclear
    exact_mod_cast add_two_pow_lt (n := 63) (by exact_mod_cast hhi) hb hn
  · have h62 : (2 : Int) ^ 62 < 2 ^ 63 := by norm_num
    omega

theorem not_bitSet_iff {w : Words} {k : Nat} :
    ¬ BitSet w k ↔ w (Fin.ofNat 17 (k / 63)) / 2 ^ (k % 63) % 2 = 0 := by
  unfold BitSet wordIndex
  omega

/-- The words after the claim fit if those before do. -/
theorem fits_mark {w : Words} {k : Nat} (hw : ∀ i, Fits 8 (w i)) (hk : ¬ BitSet w k) (i : Fin 17) :
    Fits 8 (mark w k i) := by
  unfold mark
  by_cases hi : i = Fin.ofNat 17 (k / 63)
  · rw [hi, Function.update_self]
    exact fits_setBit (hw _) (Nat.mod_lt _ (by norm_num)) (not_bitSet_iff.mp hk)
  · rw [Function.update_of_ne hi]
    exact hw i

/-- Where the pieces that the splice keeps lie. -/
theorem kept_pieces {t : Template} (ht : t.templatePrefix.length = 1) {s : State}
    {bytes : Bytes} (h : serializeState s.fields = some bytes) :
    slice (t.redeem bytes) STATE_START STATE_LEN = bytes ∧
      (t.redeem bytes).take 1 = t.templatePrefix ∧
      (t.redeem bytes).drop (STATE_START + STATE_LEN) = t.templateSuffix ∧
      slice bytes 1 8 = signMagnitude 8 s.attestedWinner ∧
      slice bytes 18 33 = 0x20 :: s.payoutRootField.toList := by
  have hlen := length_state h
  refine ⟨?_, ?_, ?_, ?_, ?_⟩
  · rw [Template.redeem, List.append_assoc]
    exact slice_append_mid ht hlen
  · rw [Template.redeem, List.append_assoc, ← ht, List.take_left]
  · rw [Template.redeem, ← hlen, STATE_START, ← ht, ← List.length_append, List.drop_left]
  · obtain ⟨b, hb, hs⟩ := serializeState_at h (i := 0) rfl
    rw [serialize_int (stateFits_of_serializeState h).winner] at hb
    obtain rfl := Option.some.inj hb
    exact (slice_eq_cons hs).2
  · obtain ⟨b, hb, hs⟩ := serializeState_at h (i := 2) rfl
    obtain rfl := Option.some.inj hb
    exact hs

/-- What the splice returns for a payment of leaf `k`. -/
def spliceResult (t : Template) (s : State) (k : Nat) (payout : Int) : Splice :=
  if payout = s.consolidated_pool then { isLast := true, redeemHex := none, newPool := 0 }
  else
    { isLast := false
      redeemHex := some (t.redeem (encodeState (twosComplement 8) (splicedState s k payout)))
      newPool := s.consolidated_pool - payout }

/-- **What the splice makes of a leaf that has a bit.** -/
theorem spliceFrom_eq {t : Template} (ht : t.templatePrefix.length = 1) {s : State}
    {bytes : Bytes} (h : serializeState s.fields = some bytes) {k : Nat} (hk : k < 1071)
    {payout : Int} {r : Splice} : spliceFrom (t.redeem bytes) k payout s = some r ↔
      ¬ BitSet s.w k ∧ (1 ≤ payout ∧ payout ≤ s.consolidated_pool) ∧
        spliceResult t s k payout = r := by
  obtain ⟨hregion, hpre, hsuf, hwinner, hroot⟩ := kept_pieces ht h
  have hfits := stateFits_of_serializeState h
  unfold spliceFrom
  rw [nullifierBitPosition_natCast hk, isNullifierBitSet_natCast hk]
  simp only [Option.bind_eq_bind, Option.bind_some, Option.bind_eq_some_iff, require_eq_some,
    exists_const, decide_eq_false_iff_not, hregion, hwinner, hroot, hpre, hsuf]
  apply and_congr_right
  intro hclear
  apply and_congr_right
  rintro ⟨h1, hle⟩
  by_cases hlast : s.consolidated_pool - payout = 0
  · rw [if_pos hlast, spliceResult, if_pos (by omega), Option.some.injEq]
  · have hpool : Fits 8 (s.consolidated_pool - payout) := by
      have hb := fits_eight.mp hfits.pool
      exact fits_eight.mpr (by omega)
    have hlor := lor_two_pow (not_bitSet_iff.mp hclear)
    have hwords : wordsLE (List.ofFn (mark s.w k)) =
        some ((List.ofFn (mark s.w k)).flatMap fun v => 0x08 :: twosComplement 8 v) := by
      apply wordsLE_eq
      intro v hv
      obtain ⟨i, rfl⟩ := List.mem_ofFn.mp hv
      exact (fits_mark hfits.words hclear i).twosFits
    rw [if_neg hlast, spliceResult, if_neg (by omega), i64LE_of_fits (by decide),
      i64LE_of_fits hpool, wordAt_natCast s.w (by omega)]
    simp only [Option.bind_some, Int.toNat_natCast, hlor]
    rw [← mark, hwords, Option.bind_some, Option.some.injEq]
    exact Iff.rfl

/-! ### The covenant -/

/-- The two tests of a bit agree on the words that are read as they were written. -/
theorem tdiv_tmod_iff {v : Int} (hv : 0 ≤ v ∨ v = -2 ^ 62) {b : Nat} (hb : b < 63) :
    (v.tdiv (2 ^ b)).tmod 2 = 0 ↔ v / 2 ^ b % 2 = 0 := by
  have hdiv : v.tdiv (2 ^ b) = v / 2 ^ b := by
    rcases hv with hv | rfl
    · exact Int.tdiv_eq_ediv_of_nonneg hv
    · apply Int.tdiv_eq_ediv_of_dvd
      exact (pow_dvd_pow (2 : Int) (by omega : b ≤ 62)).trans (Int.dvd_neg.mpr dvd_rfl)
  rw [hdiv, ← Int.dvd_iff_tmod_eq_zero, ← Int.dvd_iff_emod_eq_zero]

/-- **The nullifier of a state that is read back.** -/
theorem nullify_eq_some_of_reads {w nw : Words} (hfits : ∀ i, Fits 8 (w i))
    (hw : ∀ i, reread (w i) = w i) {k : Nat} (hk : k < 1024) :
    nullify i64 w k = some nw ↔ ¬ BitSet w k ∧ mark w k = nw := by
  have hq : (k : Int).tdiv 63 = ((k / 63 : Nat) : Int) := rfl
  have hr : (k : Int).tmod 63 = ((k % 63 : Nat) : Int) := rfl
  have hr63 : k % 63 < 63 := Nat.mod_lt _ (by omega)
  have hturns : min ((k % 63 : Nat) : Int).toNat 63 = k % 63 := by omega
  have hmask : maskLoop i64 (k % 63) 1 = some (2 ^ (k % 63)) := by
    have hb : 1 * 2 ^ (k % 63) < 2 ^ 63 := by
      rw [one_mul]
      exact Nat.pow_lt_pow_right (by omega) hr63
    have := maskLoop_eq i64_lawful (k % 63) 1 hb
    rw [one_mul] at this
    exact_mod_cast this
  have hbit := tdiv_tmod_iff ((reread_eq_self_iff (hfits (Fin.ofNat 17 (k / 63)))).mp (hw _)) hr63
  unfold nullify
  rw [hq, hr]
  dsimp only
  rw [hturns, hmask, branch_natCast (by omega)]
  simp only [Option.bind_eq_bind, Option.bind_some]
  rw [← Option.bind_eq_bind, require_bind_eq_some, hbit, ← not_bitSet_iff]
  apply and_congr_right
  intro hclear
  have hfit := fits_setBit (hfits (Fin.ofNat 17 (k / 63))) hr63 (not_bitSet_iff.mp hclear)
  rw [i64_of_fits hfit]
  simp only [Option.bind_some, Option.some.injEq]
  exact Iff.rfl

/-- What a claim that leaves something accepts. -/
theorem claim_continues {e : Engine} {c : CloseZkV2.Contract} {s next : State} {tx : Tx}
    {wit : PayWitness} (h : CloseZkV2.claim e i64 c s tx wit = some (some next)) :
    ∃ k : Nat, wit.merkle_index = k ∧ k < 1024 ∧ s.closed = 2 ∧ 1 ≤ wit.payout ∧
      wit.payout ≤ s.consolidated_pool ∧ wit.payout ≠ s.consolidated_pool ∧
      ∃ nw, nullify i64 s.w k = some nw ∧
        next = { s with consolidated_pool := s.consolidated_pool - wit.payout, w := nw } := by
  unfold CloseZkV2.claim CloseZkV2.payLeaf storePayout at h
  simp only [Option.bind_eq_bind, Option.bind_eq_some_iff, require_eq_some, exists_const,
    Option.some.injEq] at h
  obtain ⟨hclosed, nw, ⟨h0, h1, h2, h3, leaf, -, cur, -, -, nw', hnull, _, -, rfl⟩, h⟩ := h
  obtain ⟨k, hk⟩ : ∃ k : Nat, wit.merkle_index = k := ⟨wit.merkle_index.toNat, by omega⟩
  rw [hk] at hnull
  by_cases hpool : s.consolidated_pool = wit.payout
  · rw [if_pos hpool] at h
    simp only [Option.bind_eq_some_iff, Option.some.injEq, reduceCtorEq, and_false,
      exists_false] at h
  · rw [if_neg hpool] at h
    simp only [Option.bind_eq_some_iff, Option.map_eq_some_iff, CloseZkV2.continueAs_eq_some,
      Option.some.injEq] at h
    obtain ⟨p, hp, _, ⟨-, rfl⟩, rfl⟩ := h
    refine ⟨k, hk, by omega, hclosed, h2, h3, fun heq => hpool heq.symm, nw', hnull, ?_⟩
    rw [i64_exact _ _ hp, hclosed]

/-! ### An accepted claim -/

/-- Hashing gives the root of `s`, whatever is hashed. -/
def constEngine (root : Bytes32) : Engine where
  blake2b := fun _ => root
  sha256 := fun _ => root
  checkSig := fun _ _ _ => false

theorem climb_constEngine (root leaf : Bytes32) (k : Nat) {ss : List Bytes32} (h : ss ≠ []) :
    Merkle.climb (hashNode (constEngine root)) k leaf ss = root := by
  induction ss generalizing k leaf with
  | nil => exact absurd rfl h
  | cons x ss ih =>
    cases ss with
    | nil =>
      rw [Merkle.climb, Merkle.climb]
      by_cases hk : k % 2 = 0
      · rw [if_pos hk]
        rfl
      · rw [if_neg hk]
        rfl
    | cons y ss =>
      rw [Merkle.climb]
      exact ih _ _ (List.cons_ne_nil _ _)

/-- The claim of `payout` from leaf `k`, with its payment in the second output. -/
def claimOf (payout : Int) (k : Nat) : PayWitness where
  selfOutIdx := 0
  payoutOutIdx := 1
  bettorPk := ZERO32
  payout := payout
  merkle_index := k
  s := List.Vector.replicate 10 ZERO32

/-- The covenant accepts a claim on every leaf whose bit it finds clear. -/
theorem exists_claim (t : Template) {s : State} (hfits : StateFits s) (hclosed : s.closed = 2)
    {k : Nat} (hk : k < 1024) {nw : Words} (hnull : nullify i64 s.w k = some nw)
    (hnw : ∀ i, Fits 8 (nw i)) {payout : Int} (h1 : 1 ≤ payout)
    (hlt : payout < s.consolidated_pool) :
    ∃ (e : Engine) (c : CloseZkV2.Contract) (tx : Tx) (wit : PayWitness), c.template = t ∧
      wit.merkle_index = k ∧ wit.payout = payout ∧
      CloseZkV2.claim e i64 c s tx wit =
        some (some { s with consolidated_pool := s.consolidated_pool - payout, w := nw }) := by
  have hb := fits_eight.mp hfits.pool
  have hpay : Fits 8 payout := fits_eight.mpr (by omega)
  have hleft : Fits 8 (s.consolidated_pool - payout) := fits_eight.mpr (by omega)
  obtain ⟨paid, rfl⟩ := Int.eq_ofNat_of_zero_le (by omega : 0 ≤ payout)
  obtain ⟨left, hl⟩ := Int.eq_ofNat_of_zero_le (by omega : 0 ≤ s.consolidated_pool - paid)
  let next : State :=
    { s with closed := 2, consolidated_pool := s.consolidated_pool - paid, w := nw }
  let outs : List TxOutput :=
    [{ value := left, scriptPubKey := ScriptPubKeyP2SH s.payoutRootField, covenantId := none },
      { value := paid, scriptPubKey := ScriptPubKeyP2PK ZERO32, covenantId := none }]
  have houts : ∀ o ∈ outs, o.value < 2 ^ 63 := by
    intro o ho
    rcases List.mem_pair.mp ho with rfl | rfl
    · show left < 2 ^ 63
      omega
    · show paid < 2 ^ 63
      omega
  have hnext : StateFits next := ⟨hfits.winner, (by decide : Fits 8 2), hleft, hnw⟩
  have hcont : CloseZkV2.Continuation (constEngine s.payoutRootField)
      ⟨ZERO32, ZERO32, ZERO32, 0, t⟩ (sampleTx outs houts) 0 next :=
    ⟨⟨_, _, serializeState_of_stateFits hnext, rfl, rfl⟩, ⟨_, rfl, hl.symm⟩⟩
  have hstore : storePayout (constEngine s.payoutRootField) i64 s.payoutRootField
      s.consolidated_pool s.w (sampleTx outs houts) (claimOf paid k) = some nw := by
    have hclimb := climbLoop_eq (constEngine s.payoutRootField) i64_lawful k
      (List.replicate 10 ZERO32) 0 s.payoutRootField (by decide)
    rw [climb_constEngine _ _ _ (by decide)] at hclimb
    have hleaf : payoutLeaf (constEngine s.payoutRootField) ZERO32 paid =
        some s.payoutRootField := by
      rw [payoutLeaf, num2bin, if_pos hpay]
      rfl
    unfold storePayout
    simp only [Option.bind_eq_bind, Option.bind_eq_some_iff, require_eq_some, exists_const,
      Option.some.injEq, requirePaid_eq_some]
    have hlast : (claimOf paid k).merkle_index < 1024 := by
      show (k : Int) < 1024
      omega
    exact ⟨Int.natCast_nonneg k, hlast, h1, hlt.le, _, hleaf, _, hclimb, rfl, nw, hnull,
      ⟨_, rfl, rfl, rfl⟩, rfl⟩
  refine ⟨constEngine s.payoutRootField, ⟨ZERO32, ZERO32, ZERO32, 0, t⟩, sampleTx outs houts,
    claimOf paid k, rfl, rfl, rfl, ?_⟩
  have hne : ¬ s.consolidated_pool = (claimOf paid k).payout := fun heq => hlt.ne heq.symm
  have hsub : i64 (s.consolidated_pool - (claimOf paid k).payout) =
      some (s.consolidated_pool - paid) := i64_of_fits hleft
  unfold CloseZkV2.claim CloseZkV2.payLeaf
  rw [require_bind_eq_some]
  refine ⟨hclosed, ?_⟩
  rw [hstore]
  simp only [Option.bind_eq_bind, Option.bind_some, if_neg hne, hsub, Option.map_eq_some_iff]
  refine ⟨next, CloseZkV2.continueAs_eq_some.mpr ⟨hcont, rfl⟩, ?_⟩
  rw [hclosed]

/-! ### The splice refines the covenant -/

/-- What the splice may be handed for the state: nothing, or what is read for a claim. -/
def Given (redeem : Bytes) (cur : Option State) : Prop :=
  cur = none ∨ cur = parseCloseZkV2State redeem (some 2)

/-- The builder does with this leaf and amount what the covenant demands. -/
structure Refines (t : Template) (s : State) (redeem : Bytes) (merkleIndex payout : Int) :
    Prop where
  parses : ∀ expectedClosed, expectedClosed = none ∨ expectedClosed = some s.closed →
    parseCloseZkV2State redeem expectedClosed = some s
  splices : ∀ cur, Given redeem cur →
    ∀ (e : Engine) (c : CloseZkV2.Contract) (tx : Tx) (wit : PayWitness) (next : State),
      c.template = t → wit.merkle_index = merkleIndex → wit.payout = payout →
      CloseZkV2.claim e i64 c s tx wit = some (some next) →
      ∃ bytes, serializeState next.fields = some bytes ∧
        spliceClaimContinuationRedeem redeem merkleIndex payout cur =
          some { isLast := false, redeemHex := some (t.redeem bytes),
                 newPool := next.consolidated_pool }
  refuses : ∀ cur, Given redeem cur →
    ¬ (0 ≤ merkleIndex ∧ merkleIndex < 1024) ∨ nullify i64 s.w merkleIndex = none ∨
      ¬ (1 ≤ payout ∧ payout ≤ s.consolidated_pool) →
    spliceClaimContinuationRedeem redeem merkleIndex payout cur = none

/-- The splice gets as far as the payment. -/
def InPlay (s : State) (payout : Int) : Prop :=
  s.closed = 2 ∧ 1 ≤ payout ∧ payout ≤ s.consolidated_pool

/-- The state is read back, and the index is none that the builder takes for another's. -/
structure Safe (s : State) (merkleIndex payout : Int) : Prop where
  readable : Readable s
  -- `undefined | 1n` throws, but the last payment never gets there
  negative : InPlay s payout → merkleIndex < 0 → payout ≠ s.consolidated_pool
  -- the bits of `w16` from 16 on
  above : InPlay s payout → ∀ k : Nat, merkleIndex = k → 1024 ≤ k → k < 1071 → BitSet s.w k
  -- a word of -2^62 is read as it was written, and written in another way
  sign : InPlay s payout → payout ≠ s.consolidated_pool → ∀ k : Nat, merkleIndex = k → k < 1024 →
    ¬ BitSet s.w k → 0 ≤ s.w (Fin.ofNat 17 (k / 63))

section

variable {t : Template} {s : State} {bytes : Bytes}

/-- What the splice starts from. -/
theorem splice_given (ht : t.templatePrefix.length = 1)
    (h : serializeState s.fields = some bytes) (hr : Readable s) {cur : Option State}
    (hcur : Given (t.redeem bytes) cur) (merkleIndex payout : Int) :
    spliceClaimContinuationRedeem (t.redeem bytes) merkleIndex payout cur =
      if s.closed = 2 then spliceFrom (t.redeem bytes) merkleIndex payout s else none := by
  have hparse : parseCloseZkV2State (t.redeem bytes) (some 2) =
      if s.closed = 2 then some s else none := by
    by_cases hclosed : s.closed = 2
    · rw [if_pos hclosed]
      refine (parse_eq_self_iff ht h).mpr ⟨hr, ?_⟩
      rintro c ⟨⟩
      exact hclosed
    · rw [if_neg hclosed]
      apply Option.eq_none_iff_forall_ne_some.mpr
      intro s' hs'
      obtain ⟨-, hc, -⟩ := (parseCloseZkV2State_redeem ht h).mp hs'
      rw [rereadState_of_readable hr] at hc
      exact hclosed (hc 2 rfl)
  have hnone : spliceClaimContinuationRedeem (t.redeem bytes) merkleIndex payout none =
      (if s.closed = 2 then some s else none) >>=
        spliceFrom (t.redeem bytes) merkleIndex payout := by
    unfold spliceClaimContinuationRedeem
    rw [hparse]
  have heq : spliceClaimContinuationRedeem (t.redeem bytes) merkleIndex payout cur =
      (if s.closed = 2 then some s else none) >>=
        spliceFrom (t.redeem bytes) merkleIndex payout := by
    rcases hcur with rfl | rfl
    · exact hnone
    · rw [hparse]
      by_cases hclosed : s.closed = 2
      · rw [if_pos hclosed]
        rfl
      · rw [if_neg hclosed, hnone, if_neg hclosed]
  rw [heq]
  by_cases hclosed : s.closed = 2
  · rw [if_pos hclosed, if_pos hclosed]
    rfl
  · rw [if_neg hclosed, if_neg hclosed]
    rfl

/-- Where the words agree in both encodings, so do the states. -/
theorem encodeState_congr {s : State} (hc : twosComplement 8 s.closed = signMagnitude 8 s.closed)
    (hp : twosComplement 8 s.consolidated_pool = signMagnitude 8 s.consolidated_pool)
    (hw : ∀ i, twosComplement 8 (s.w i) = signMagnitude 8 (s.w i)) :
    encodeState (twosComplement 8) s = encodeState (signMagnitude 8) s := by
  have hwords : ((List.ofFn s.w).flatMap fun v => (0x08 :: twosComplement 8 v : Bytes)) =
      (List.ofFn s.w).flatMap fun v => 0x08 :: signMagnitude 8 v := by
    rw [List.flatMap_def, List.flatMap_def]
    congr 1
    apply List.map_congr_left
    intro v hv
    obtain ⟨i, rfl⟩ := List.mem_ofFn.mp hv
    rw [hw i]
  rw [encodeState, encodeState, hc, hp, hwords]

theorem stateFits_pay {payout : Int} {k : Nat} (hfits : StateFits s) (hclear : ¬ BitSet s.w k)
    (h1 : 1 ≤ payout) (hle : payout ≤ s.consolidated_pool) : StateFits (s.pay payout k) where
  winner := hfits.winner
  closed := hfits.closed
  pool := by
    have hb := fits_eight.mp hfits.pool
    apply fits_eight.mpr
    show -2 ^ 63 < s.consolidated_pool - payout ∧ s.consolidated_pool - payout < 2 ^ 63
    omega
  words := fits_mark hfits.words hclear

/-- **The continuation the covenant demands.** -/
theorem splicedState_alike {payout : Int} {k : Nat} (hfits : StateFits s) (hr : Readable s)
    (hclosed : s.closed = 2) (hclear : ¬ BitSet s.w k) (h1 : 1 ≤ payout)
    (hle : payout ≤ s.consolidated_pool) (hsign : 0 ≤ s.w (Fin.ofNat 17 (k / 63))) :
    encodeState (twosComplement 8) (splicedState s k payout) =
      encodeState (signMagnitude 8) (s.pay payout k) := by
  have hstate : splicedState s k payout = s.pay payout k := by
    unfold splicedState State.pay
    rw [hclosed]
  have hpay := stateFits_pay hfits hclear h1 hle
  rw [hstate]
  apply encodeState_congr
  · show twosComplement 8 s.closed = signMagnitude 8 s.closed
    rw [hclosed]
    decide
  · apply twosComplement_eq_signMagnitude (by norm_num) _ hpay.pool
    show 0 ≤ s.consolidated_pool - payout
    omega
  · intro i
    by_cases hi : i = Fin.ofNat 17 (k / 63)
    · apply twosComplement_eq_signMagnitude (by norm_num) _ (hpay.words i)
      show 0 ≤ mark s.w k i
      rw [hi, mark, Function.update_self]
      positivity
    · show twosComplement 8 (mark s.w k i) = signMagnitude 8 (mark s.w k i)
      rw [mark, Function.update_of_ne hi]
      exact (reread_iff_alike (hfits.words i)).mp (hr.words i)

theorem refines_of_safe (ht : t.templatePrefix.length = 1)
    (h : serializeState s.fields = some bytes) {merkleIndex payout : Int}
    (hsafe : Safe s merkleIndex payout) : Refines t s (t.redeem bytes) merkleIndex payout := by
  have hr := hsafe.readable
  have hfits := stateFits_of_serializeState h
  refine ⟨?_, ?_, ?_⟩
  · intro ec hec
    refine (parse_eq_self_iff ht h).mpr ⟨hr, ?_⟩
    rcases hec with rfl | rfl
    · rintro c ⟨⟩
    · rintro c ⟨⟩
      rfl
  · rintro cur hcur e c tx wit next - hidx rfl hclaim
    obtain ⟨k, hk, hlt, hclosed, h1, hle, hne, nw, hnull, rfl⟩ := claim_continues hclaim
    rw [← hidx, hk]
    obtain ⟨hclear, rfl⟩ := (nullify_eq_some_of_reads hfits.words hr.words hlt).mp hnull
    have hsign := hsafe.sign ⟨hclosed, h1, hle⟩ hne k (hidx.symm.trans hk) hlt hclear
    refine ⟨_, serializeState_of_stateFits (stateFits_pay hfits hclear h1 hle), ?_⟩
    rw [splice_given ht h hr hcur, if_pos hclosed]
    apply (spliceFrom_eq ht h (by omega)).mpr
    refine ⟨hclear, ⟨h1, hle⟩, ?_⟩
    rw [spliceResult, if_neg hne, splicedState_alike hfits hr hclosed hclear h1 hle hsign]
    rfl
  · intro cur hcur hrefused
    rw [splice_given ht h hr hcur]
    by_cases hclosed : s.closed = 2
    · rw [if_pos hclosed]
      apply Option.eq_none_iff_forall_ne_some.mpr
      intro r hsome
      by_cases hneg : merkleIndex < 0
      · obtain ⟨h1, heq, -⟩ := (spliceFrom_of_neg hneg).mp hsome
        exact hsafe.negative ⟨hclosed, h1, heq.le⟩ hneg heq
      · obtain ⟨k, rfl⟩ := Int.eq_ofNat_of_zero_le (not_lt.mp hneg)
        by_cases hk : k < 1071
        · obtain ⟨hclear, hin, -⟩ := (spliceFrom_eq ht h hk).mp hsome
          by_cases hleaf : k < 1024
          · have hnull := (nullify_eq_some_of_reads hfits.words hr.words hleaf).mpr
              ⟨hclear, rfl⟩
            rcases hrefused with hout | hnone | hrange
            · omega
            · rw [hnone] at hnull
              cases hnull
            · exact hrange hin
          · exact hclear (hsafe.above ⟨hclosed, hin.1, hin.2⟩ k rfl (by omega) hk)
        · rw [spliceFrom_of_ge (by omega)] at hsome
          cases hsome
    · rw [if_neg hclosed]

/-- Pieces of one length that make up the same string are the same. -/
theorem flatMap_inj {f g : Int → Bytes} (hlen : ∀ v, (f v).length = (g v).length) {vs : List Int}
    (h : vs.flatMap f = vs.flatMap g) : ∀ v ∈ vs, f v = g v := by
  induction vs with
  | nil =>
    intro v hv
    cases hv
  | cons x vs ih =>
    rw [List.flatMap_cons, List.flatMap_cons] at h
    obtain ⟨hx, hvs⟩ := List.append_inj h (hlen x)
    intro v hv
    rcases List.mem_cons.mp hv with rfl | hv
    · exact hx
    · exact ih hvs v hv

/-- States that are written alike have words that are written alike. -/
theorem words_alike {a b : State} (hw : a.w = b.w)
    (h : encodeState (twosComplement 8) a = encodeState (signMagnitude 8) b) (i : Fin 17) :
    twosComplement 8 (b.w i) = signMagnitude 8 (b.w i) := by
  unfold encodeState at h
  rw [hw] at h
  obtain ⟨-, h₁⟩ := List.append_inj (List.cons.inj h).2 (by simp)
  obtain ⟨-, h₂⟩ := List.append_inj (List.cons.inj h₁).2 (by simp)
  obtain ⟨-, h₃⟩ := List.append_inj (List.cons.inj h₂).2 (by simp)
  obtain ⟨-, h₄⟩ := List.append_inj (List.cons.inj h₃).2 (by simp)
  have hword := flatMap_inj (by simp) h₄ (b.w i) (List.mem_ofFn.mpr ⟨i, rfl⟩)
  exact (List.cons.inj hword).2

theorem safe_of_refines (ht : t.templatePrefix.length = 1)
    (h : serializeState s.fields = some bytes) {merkleIndex payout : Int}
    (href : Refines t s (t.redeem bytes) merkleIndex payout) : Safe s merkleIndex payout := by
  have hfits := stateFits_of_serializeState h
  have hr := ((parse_eq_self_iff ht h).mp (href.parses none (Or.inl rfl))).1
  refine ⟨hr, ?_, ?_, ?_⟩
  · rintro ⟨hclosed, h1, -⟩ hneg heq
    have hnone := href.refuses none (Or.inl rfl) (Or.inl (by omega))
    rw [splice_given ht h hr (Or.inl rfl), if_pos hclosed,
      (spliceFrom_of_neg hneg).mpr ⟨h1, heq, rfl⟩] at hnone
    cases hnone
  · rintro ⟨hclosed, h1, hle⟩ k rfl hge hlt
    by_contra hclear
    have hnone := href.refuses none (Or.inl rfl) (Or.inl (by omega))
    rw [splice_given ht h hr (Or.inl rfl), if_pos hclosed,
      (spliceFrom_eq ht h hlt).mpr ⟨hclear, ⟨h1, hle⟩, rfl⟩] at hnone
    cases hnone
  · rintro ⟨hclosed, h1, hle⟩ hne k rfl hlt hclear
    by_contra hneg
    have hnull := (nullify_eq_some_of_reads hfits.words hr.words hlt).mpr ⟨hclear, rfl⟩
    obtain ⟨e, c, tx, wit, hc, hidx, hpay, hclaim⟩ := exists_claim t hfits hclosed hlt hnull
      (fits_mark hfits.words hclear) h1 (lt_of_le_of_ne hle hne)
    obtain ⟨bytes', hbytes, hsplice⟩ := href.splices none (Or.inl rfl) e c tx wit _ hc hidx hpay
      hclaim
    rw [splice_given ht h hr (Or.inl rfl), if_pos hclosed,
      (spliceFrom_eq ht h (by omega)).mpr ⟨hclear, ⟨h1, hle⟩, rfl⟩, spliceResult, if_neg hne]
      at hsplice
    have hredeem := Option.some.inj (Splice.mk.inj (Option.some.inj hsplice)).2.1
    have hbytes' : encodeState (twosComplement 8) (splicedState s k payout) = bytes' :=
      List.append_cancel_left (List.append_cancel_right hredeem)
    have hdemand := serializeState_of_stateFits (stateFits_pay hfits hclear h1 hle)
    have hsame : encodeState (twosComplement 8) (splicedState s k payout) =
        encodeState (signMagnitude 8) (s.pay payout k) :=
      hbytes'.trans (Option.some.inj (hbytes.symm.trans hdemand))
    have halike := words_alike (a := splicedState s k payout) (b := s.pay payout k) rfl hsame
      (Fin.ofNat 17 (k / 63))
    have hword := (stateFits_pay hfits hclear h1 hle).words (Fin.ofNat 17 (k / 63))
    have hreads := (reread_eq_self_iff hword).mp ((reread_iff_alike hword).mpr halike)
    have hold := (reread_eq_self_iff (hfits.words (Fin.ofNat 17 (k / 63)))).mp (hr.words _)
    have hnew : (s.pay payout k).w (Fin.ofNat 17 (k / 63)) =
        s.w (Fin.ofNat 17 (k / 63)) + 2 ^ (k % 63) := by
      show mark s.w k _ = _
      rw [mark, Function.update_self]
    have hmask : (2 : Int) ^ (k % 63) ≤ 2 ^ 62 :=
      pow_le_pow_right₀ (by norm_num) (by omega)
    have hpos : (0 : Int) < 2 ^ (k % 63) := by positivity
    have hbit := not_bitSet_iff.mp hclear
    rw [hnew] at hreads
    have hword' : s.w (Fin.ofNat 17 (k / 63)) = -2 ^ 62 := hold.resolve_left hneg
    have hmask' : (2 : Int) ^ (k % 63) = 2 ^ 62 := by omega
    rw [hword', hmask'] at hbit
    exact absurd hbit (by norm_num)

/-- **When the splice refines the covenant.**  Whatever state the contract wrote, index and
amount: the builder reads the state back, splices the continuation that an accepted claim
demands and refuses what the covenant refuses, exactly when the claim is `Safe`. -/
theorem refines_iff (ht : t.templatePrefix.length = 1)
    (h : serializeState s.fields = some bytes) (merkleIndex payout : Int) :
    Refines t s (t.redeem bytes) merkleIndex payout ↔ Safe s merkleIndex payout :=
  ⟨safe_of_refines ht h, refines_of_safe ht h⟩

end

/-- A contract whose first byte is the one before its state. -/
def splicedTemplate : Template := ⟨[107], [0x51]⟩

/-- Closed, with a thousand sompi and nothing paid. -/
def unpaidState : State where
  attestedWinner := 0
  closed := 2
  payoutRootField := ZERO32
  consolidated_pool := 1000
  w := Words.zero

theorem stateFits_unpaidState : StateFits unpaidState :=
  ⟨by decide, by decide, by decide, fun _ => (by decide : Fits 8 0)⟩

theorem readable_unpaidState : Readable unpaidState :=
  ⟨Or.inl rfl, by decide, reread_of_nonneg (by decide) (by decide),
    fun _ => reread_of_nonneg (le_refl 0) (by decide : Fits 8 0)⟩

theorem safe_unpaidState : Safe unpaidState 3 400 where
  readable := readable_unpaidState
  negative := fun _ hneg => absurd hneg (by decide)
  above := fun _ k hk hge _ => by omega
  sign := fun _ _ _ _ _ _ => le_refl 0

/-- A claim of leaf 3. -/
theorem refines_iff_unpaidState :
    Refines splicedTemplate unpaidState
      (splicedTemplate.redeem (encodeState (signMagnitude 8) unpaidState)) 3 400 :=
  (refines_iff rfl (serializeState_of_stateFits stateFits_unpaidState) 3 400).mpr safe_unpaidState

/-- There is no leaf 1024, and the splice is made all the same: it sets bit 16 of `w16`. -/
theorem splices_past_tree :
    (∃ r, spliceClaimContinuationRedeem
      (splicedTemplate.redeem (encodeState (signMagnitude 8) unpaidState)) 1024 400 none =
        some r) ∧
    ¬ Refines splicedTemplate unpaidState
      (splicedTemplate.redeem (encodeState (signMagnitude 8) unpaidState)) 1024 400 := by
  have h := serializeState_of_stateFits stateFits_unpaidState
  refine ⟨⟨spliceResult splicedTemplate unpaidState 1024 400, ?_⟩, ?_⟩
  · rw [splice_given rfl h readable_unpaidState (Or.inl rfl)]
    exact (spliceFrom_eq rfl h (k := 1024) (by norm_num)).mpr ⟨by decide, by decide, rfl⟩
  · intro href
    have hset := (safe_of_refines rfl h href).above ⟨rfl, by decide, by decide⟩ 1024 rfl
      (le_refl _) (by norm_num)
    exact absurd hset (by decide)

end KANet.Zk
