import KANet.Settle.ClaimThread

/-!
# Paying the leaves of a closed shard

The claims of a closed shard one after the other: the winners' after `close_attest`
(`settleMarketLive`), the stakes after `cancel_attest` (`cancelMarketLive`).  Everybody may spend a
closed shard, and the relay and the ledger may refuse; the settler stops at the first claim that
does not go through.

* `claimLoop` — the loop of both.
* `AtTip.turn` — what one turn of it does.
* `claimLoop_safe` — what holds however the loop ends.
* `claimLoop_complete` — when every leaf is paid.
* `claims_paid` — the loop from the attestation on.
-/

namespace KANet.Settle.Claims

open KANet.Lib KANet.Script KANet.Payout KANet.Covenant KANet.Register
open PayoutShard (State Contract)

/-! ### The loop -/

inductive ClaimError
  | climb
  | roundTrip
  | submit
  | notLanded
  | splice
deriving DecidableEq

structure Claim where
  pk : Bytes
  amount : Int
  txId : Option String
  received : Bool
  error : Option ClaimError
deriving DecidableEq

inductive Ended
  | through
  | broke
  | threw
deriving DecidableEq

/-- What the loop has done: its record, the spends of the shard, and the coin they leave. -/
structure Walk where
  claims : List Claim
  spends : List PayoutShard.Action
  coin : ShardCoin
  ended : Ended

/-- What one turn of the loop does: pass a claim over, stop, or go on from another coin. -/
inductive Turn
  | skip (claim : Claim)
  | stop (walk : Walk)
  | next (claim : Claim) (spend : PayoutShard.Action) (th : Thread) (coin : ShardCoin)

def Walk.cons (claim : Claim) (spends : List PayoutShard.Action) (w : Walk) : Walk :=
  { w with claims := claim :: w.claims, spends := spends ++ w.spends }

/-- The address of a key reads back as the lock of the key. -/
def Addresses.RoundTrip (addrs : Addresses) (pk : Bytes) : Prop :=
  ∀ p2pkSpk ∈ addrs.p2pkSpk, p2pkSpk (addrs.p2pkAddr pk) = 0x20 :: (pk ++ [0xac])

instance (addrs : Addresses) (pk : Bytes) : Decidable (addrs.RoundTrip pk) :=
  inferInstanceAs (Decidable (∀ p2pkSpk ∈ addrs.p2pkSpk, _ = _))

section

variable (e : Engine) (c : Contract) (chain : Chain) (addrs : Addresses) (env : Nat → Attempt)
  (kind : ClaimKind) (root : Bytes32)

def claimTurn (cd : ClaimData) (th : Thread) (coin : ShardCoin) : Turn :=
  let claim : Option String → Bool → Option ClaimError → Claim := Claim.mk cd.pk cd.amount
  let attempt := env cd.merkle_index
  if cd.climbOk = false then .skip (claim none false (some .climb))
  else if ¬ addrs.RoundTrip cd.pk then .skip (claim none false (some .roundTrip))
  else match attempt.feeUtxo with
    | none => .stop ⟨[], [], coin, .threw⟩
    | some fee =>
      match submit e c chain coin fee attempt.accepts (claimCommand addrs kind th cd) with
      | none => .stop ⟨[claim none false (some .submit)], [], coin, .broke⟩
      | some sub =>
        if attempt.landed = false then
          .stop ⟨[claim (some sub.coin.txid) false (some .notLanded)], [sub.spend], sub.coin,
            .broke⟩
        else match th.next kind root cd with
          | none => .stop ⟨[], [sub.spend], sub.coin, .threw⟩
          | some next =>
            if ScriptPubKeyP2SH (e.blake2b next.2) ≠ sub.psContAddress then
              .stop ⟨[claim (some sub.coin.txid) true (some .splice)], [sub.spend], sub.coin,
                .broke⟩
            else
              .next (claim (some sub.coin.txid) true none) sub.spend
                (th.advance cd sub.coin.txid next) sub.coin

def claimLoop : List ClaimData → Thread → ShardCoin → Walk
  | [], _, coin => ⟨[], [], coin, .through⟩
  | cd :: cds, th, coin =>
    match claimTurn e c chain addrs env kind root cd th coin with
    | .skip claim => (claimLoop cds th coin).cons claim []
    | .stop walk => walk
    | .next claim spend th' coin' => (claimLoop cds th' coin').cons claim [spend]

end

/-- `complete`: an entry for every claim, each received and without an error. -/
def Walk.Complete (w : Walk) (claims : Nat) : Prop :=
  w.ended ≠ .threw ∧ w.claims.length = claims ∧
    ∀ claim ∈ w.claims, claim.received = true ∧ claim.error = none

instance (w : Walk) (claims : Nat) : Decidable (w.Complete claims) :=
  inferInstanceAs (Decidable (_ ∧ _))

/-! ### One turn of the loop -/

/-- What is asked of everybody else. -/
structure Ready (chain : Chain) (addrs : Addresses) (attempt : Attempt) (w : Leaf) : Prop where
  roundTrip : addrs.RoundTrip w.pk
  address : chain.payToAddressScript (addrs.p2pkAddr w.pk) = 0x20 :: (w.pk ++ [0xac])
  fee : ∃ fee : FeeUtxo, attempt.feeUtxo = some fee ∧ 2000000 ≤ fee.value
  accepted : attempt.accepts = true
  landed : attempt.landed = true

/-- The spend pays leaf `k` to its owner. -/
def Pays (kind : ClaimKind) (a : PayoutShard.Action) (p : Leaf × Nat) : Prop :=
  ∃ wit : PayWitness, a.1 = kind.call wit ∧ claimed wit = p.1 ∧ wit.merkle_index = p.2 ∧
    wit.Paid a.2

/-- Leaf `k` is paid, and `th'` is the thread that follows. -/
structure GoesOn (e : Engine) (c : Contract) (chain : Chain) (kind : ClaimKind) (root : Bytes32)
    (ws : List Leaf) (th : Thread) (coin : ShardCoin) (w : Leaf) (k : Nat) (th' : Thread)
    (a : PayoutShard.Action) (coin' : ShardCoin) : Prop where
  tip : AtTip e c kind root th' coin'
  thread : ∃ next, th.next kind root (datumOf e ws w k) = some next ∧
    th' = th.advance (datumOf e ws w k) coin'.txid next
  state : coin'.state = paidState coin.state w.amount k
  value : (coin'.value : Int) = coin.value - w.amount
  pays : Pays kind a (w, k)
  step : PayoutShard.Step e c coin.state a coin'.state
  txid : coin'.txid = chain.txId a.2

/-- The loop goes no further than leaf `k`: nothing is spent, or the payment of that leaf is. -/
structure Stops (e : Engine) (c : Contract) (chain : Chain) (kind : ClaimKind) (root : Bytes32)
    (ws : List Leaf) (th : Thread) (coin : ShardCoin) (w : Leaf) (k : Nat) (r : Walk) : Prop where
  record : r.ended = .threw ∧ r.claims = [] ∨
    ∃ txId error, r.claims = [⟨w.pk, w.amount, txId, false, some error⟩]
  spent : r.spends = [] ∧ r.coin = coin ∨ ∃ th' a, r.spends = [a] ∧
    GoesOn e c chain kind root ws th coin w k th' a r.coin

section

variable {e : Engine} {c : Contract} {chain : Chain} {addrs : Addresses} {env : Nat → Attempt}
  {kind : ClaimKind} {root : Bytes32} {th : Thread} {coin : ShardCoin} {ws : List Leaf} {w : Leaf}
  {k : Nat}

/-- **One turn of the loop**: the key is skipped, the loop stops, or it pays the leaf and goes on
with the thread at the tip. -/
theorem AtTip.turn (ht : c.template.templatePrefix.length = 1) (hmass : FeeCovers chain)
    (h : AtTip e c kind root th coin) (hroot : root = rootOf e ws) (hb : Buildable ws)
    (hw : ws[k]? = some w)
    (hm : ¬ Marked coin.state.w k) {turn : Turn}
    (hturn : claimTurn e c chain addrs env kind root (datumOf e ws w k) th coin = turn) :
    (¬ addrs.RoundTrip w.pk ∧ turn = .skip ⟨w.pk, w.amount, none, false, some .roundTrip⟩) ∨
    (¬ (Ready chain addrs (env k) w ∧ 1000 ≤ w.amount ∧ w.amount + 1000 ≤ coin.value) ∧
      ∃ walk, turn = .stop walk ∧ Stops e c chain kind root ws th coin w k walk) ∨
    ((Ready chain addrs (env k) w ∧ 1000 ≤ w.amount ∧ w.amount + 1000 ≤ coin.value) ∧
      ∃ th' a coin', turn = .next ⟨w.pk, w.amount, some coin'.txid, true, none⟩ a th' coin' ∧
        GoesOn e c chain kind root ws th coin w k th' a coin') := by
  have hpay := hb.payable w (List.mem_of_getElem? hw)
  have hpos := hpay.pos
  have hk : k < 1024 := lt_of_lt_of_le (List.getElem?_eq_some_iff.mp hw).1 hb.length
  obtain ⟨bytes, hs⟩ := h.serialize_paid hpay hm
  have hv := h.value
  have hpk : (datumOf e ws w k).pk = w.pk := rfl
  have hidx : (datumOf e ws w k).merkle_index = k := rfl
  have hclimb : (datumOf e ws w k).climbOk = true := rfl
  unfold claimTurn at hturn
  simp only [hpk, hidx, hclimb, Bool.true_eq_false, if_false] at hturn
  by_cases hround : addrs.RoundTrip w.pk
  · rw [if_neg (not_not.mpr hround)] at hturn
    right
    cases hfee : (env k).feeUtxo with
    | none =>
      rw [hfee] at hturn
      refine Or.inl ⟨?_, _, hturn.symm, Or.inl ⟨rfl, rfl⟩, Or.inl ⟨rfl, rfl⟩⟩
      rintro ⟨hr, -, -⟩
      obtain ⟨fee, hfee', -⟩ := hr.fee
      rw [hfee] at hfee'
      cases hfee'
    | some fee =>
      rw [hfee] at hturn
      dsimp only at hturn
      have hsubmit := fun sub => @AtTip.submit_eq_some e c chain addrs kind root th coin fee
        (env k).accepts ws w k ht hmass h hroot hb hw hm hpay.pk bytes hs sub
      cases hsub : submit e c chain coin fee (env k).accepts
          (claimCommand addrs kind th (datumOf e ws w k)) with
      | none =>
        rw [hsub] at hturn
        refine Or.inl ⟨?_, _, hturn.symm, Or.inr ⟨none, .submit, rfl⟩, Or.inl ⟨rfl, rfl⟩⟩
        rintro ⟨hr, hpaid, hleft⟩
        obtain ⟨fee', hfee', henough⟩ := hr.fee
        obtain rfl := Option.some.inj (hfee.symm.trans hfee')
        obtain ⟨tx, hbuilt⟩ := (@AtTip.built_iff e c chain addrs kind root th coin fee ws w k ht
          hmass h hk bytes hs _).mpr ⟨rfl, henough, hpaid, hleft⟩
        have hgoes := (hsubmit _).mpr
          ⟨⟨hr.accepted, hpaid, hleft, henough, hr.address⟩, tx, hbuilt, rfl⟩
        rw [hsub] at hgoes
        cases hgoes
      | some sub =>
        obtain ⟨hg, tx, hbuilt, rfl⟩ := (hsubmit sub).mp hsub
        rw [hsub] at hturn
        have hle : w.amount ≤ coin.value := by
          have := hg.left
          omega
        have hspend := (h.spend_iff hroot hb hw hm hpay.pk hs hbuilt).mpr ⟨hg.address, rfl⟩
        have hpays : Pays kind (kind.call (witnessOf e ws w k hpay.pk), tx) (w, k) := by
          refine ⟨_, rfl, rfl, rfl, ⟨_, hbuilt.outputs.1, hg.address, ?_⟩⟩
          show ((w.amount.toNat : Nat) : Int) = w.amount
          omega
        have hnext : th.next kind root (datumOf e ws w k) =
            some (paidState coin.state w.amount k, c.template.redeem bytes) :=
          h.next ht hk hm (by omega) hpos hs
        have hvalue : ((coin.value - w.amount.toNat : Nat) : Int) = coin.value - w.amount := by
          omega
        have hgo : GoesOn e c chain kind root ws th coin w k _ _ (paidCoin chain coin w k _ tx) :=
          ⟨h.advance hpay hm hle hs tx, ⟨_, hnext, rfl⟩, rfl, hvalue, hpays, hspend, rfl⟩
        cases hland : (env k).landed with
        | true =>
          simp only [hland, hnext, Bool.true_eq_false, if_false, ne_eq, not_true_eq_false]
            at hturn
          refine Or.inr ⟨⟨⟨hround, hg.address, ⟨fee, hfee, hg.fee⟩, hg.accepted, hland⟩, hg.paid,
            hg.left⟩, _, _, _, hturn.symm, hgo⟩
        | false =>
          simp only [hland, if_true] at hturn
          refine Or.inl ⟨?_, _, hturn.symm, Or.inr ⟨_, .notLanded, rfl⟩,
            Or.inr ⟨_, _, rfl, hgo⟩⟩
          rintro ⟨hr, -, -⟩
          rw [hr.landed] at hland
          cases hland
  · rw [if_pos hround] at hturn
    exact Or.inl ⟨hround, hturn.symm⟩

/-! ### Whole loops -/

/-- The record of a walk speaks of its spends: a claim that was received is a payment. -/
def Honest (chain : Chain) (kind : ClaimKind) (walk : Walk) : Prop :=
  ∀ claim ∈ walk.claims, claim.received = true → ∃ a ∈ walk.spends,
    claim.txId = some (chain.txId a.2) ∧ ∃ i, Pays kind a (⟨claim.pk, claim.amount⟩, i)

/-- What holds however the loop ends. -/
structure WalkSafe (e : Engine) (c : Contract) (chain : Chain) (kind : ClaimKind)
    (coin : ShardCoin) (leaves : List (Leaf × Nat)) (walk : Walk) : Prop where
  run : Run (PayoutShard.Step e c) coin.state walk.spends walk.coin.state
  pays : ∃ paid : List (Leaf × Nat), paid.Sublist leaves ∧
    List.Forall₂ (Pays kind) walk.spends paid
  honest : Honest chain kind walk

/-- Leaf `k` and those after it are unpaid. -/
def UnpaidFrom (w : Words) (k : Nat) : Prop := ∀ j < 1024, Marked w j → j < k

theorem UnpaidFrom.not_marked {w : Words} (h : UnpaidFrom w k) (hk : k < 1024) : ¬ Marked w k :=
  fun hm => absurd (h k hk hm) (lt_irrefl k)

theorem UnpaidFrom.mark {w : Words} (h : UnpaidFrom w k) (hk : k < 1024) (hw : WordsOk w) :
    UnpaidFrom (mark w k) (k + 1) := by
  intro j hj hm
  rcases (marked_mark hw (h.not_marked hk) hk hj).mp hm with rfl | hm
  · exact Nat.lt_succ_self j
  · exact Nat.lt_succ_of_lt (h j hj hm)

theorem UnpaidFrom.succ {w : Words} (h : UnpaidFrom w k) : UnpaidFrom w (k + 1) :=
  fun j hj hm => Nat.lt_succ_of_lt (h j hj hm)

theorem dataFrom_cons {rest : List Leaf} :
    dataFrom e ws k (w :: rest) = datumOf e ws w k :: dataFrom e ws (k + 1) rest := rfl

theorem Stops.safe {walk : Walk} (h : Stops e c chain kind root ws th coin w k walk)
    (rest : List (Leaf × Nat)) :
    WalkSafe e c chain kind coin ((w, k) :: rest) walk := by
  have hhonest : Honest chain kind walk := by
    intro claim hclaim hr
    rcases h.record with ⟨-, hnone⟩ | ⟨txId, error, hone⟩
    · rw [hnone] at hclaim
      cases hclaim
    · rw [hone] at hclaim
      obtain rfl := List.mem_singleton.mp hclaim
      cases hr
  rcases h.spent with ⟨hnil, hcoin⟩ | ⟨th', a, ha, hgo⟩
  · refine ⟨?_, ⟨[], List.nil_sublist _, ?_⟩, hhonest⟩
    · rw [hnil, hcoin]
      exact .nil _
    · rw [hnil]
      exact .nil
  · refine ⟨?_, ⟨[(w, k)], ?_, ?_⟩, hhonest⟩
    · rw [ha]
      exact Run.single hgo.step
    · exact (List.nil_sublist rest).cons_cons (w, k)
    · rw [ha]
      exact .cons hgo.pays .nil

theorem Stops.not_complete {walk : Walk} (h : Stops e c chain kind root ws th coin w k walk)
    (n : Nat) :
    ¬ walk.Complete n := by
  rintro ⟨hended, -, hall⟩
  rcases h.record with ⟨hthrew, -⟩ | ⟨txId, error, hone⟩
  · exact hended hthrew
  · obtain ⟨hr, -⟩ := hall _ (by rw [hone]; exact List.mem_singleton.mpr rfl)
    cases hr

/-- What the whole loop needs. -/
def AllReady (chain : Chain) (addrs : Addresses) (env : Nat → Attempt) (leaves : List (Leaf × Nat))
    (value : Int) : Prop :=
  (∀ p ∈ leaves, Ready chain addrs (env p.2) p.1 ∧ 1000 ≤ p.1.amount) ∧
    (leaves ≠ [] → sumAmounts (leaves.map Prod.fst) + 1000 ≤ value)

theorem allReady_cons {rest : List (Leaf × Nat)} {value : Int}
    (hpos : ∀ p ∈ rest, 0 < p.1.amount) :
    AllReady chain addrs env ((w, k) :: rest) value ↔
      (Ready chain addrs (env k) w ∧ 1000 ≤ w.amount ∧ w.amount + 1000 ≤ value) ∧
        AllReady chain addrs env rest (value - w.amount) := by
  have hsum : 0 ≤ sumAmounts (rest.map Prod.fst) := by
    refine List.sum_nonneg fun x hx => ?_
    obtain ⟨l, hl, rfl⟩ := List.mem_map.mp hx
    obtain ⟨p, hp, rfl⟩ := List.mem_map.mp hl
    exact (hpos p hp).le
  unfold AllReady
  rw [List.forall_mem_cons, List.map_cons, sumAmounts_cons]
  constructor
  · rintro ⟨⟨⟨hr, hpaid⟩, hrest⟩, hle⟩
    have := hle (List.cons_ne_nil _ _)
    dsimp only at this hpaid
    exact ⟨⟨hr, hpaid, by omega⟩, hrest, fun _ => by omega⟩
  · rintro ⟨⟨hr, hpaid, hleft⟩, hrest, hle⟩
    refine ⟨⟨⟨hr, hpaid⟩, hrest⟩, fun _ => ?_⟩
    dsimp only
    cases rest with
    | nil =>
      simp only [List.map_nil, sumAmounts, List.sum_nil] at hsum ⊢
      omega
    | cons p rest =>
      have := hle (List.cons_ne_nil _ _)
      omega

/-- **However the loop ends**, it has spent the shard as the covenant allows, paid leaves of its
list in their order to their owners, and reports no payment that was not made. -/
theorem claimLoop_safe (ht : c.template.templatePrefix.length = 1) (hmass : FeeCovers chain)
    (hroot : root = rootOf e ws) (hb : Buildable ws) (rest : List Leaf) (hrest : ws.drop k = rest)
    (h : AtTip e c kind root th coin) (hu : UnpaidFrom coin.state.w k) :
    WalkSafe e c chain kind coin (rest.zipIdx k)
      (claimLoop e c chain addrs env kind root (dataFrom e ws k rest) th coin) := by
  induction rest generalizing k th coin with
  | nil => exact ⟨.nil _, ⟨[], List.Sublist.refl _, .nil⟩, fun _ hc => by cases hc⟩
  | cons w rest ih =>
    have hw : ws[k]? = some w := by
      rw [← List.head?_drop, hrest, List.head?_cons]
    have htail : ws.drop (k + 1) = rest := by
      rw [← List.tail_drop, hrest, List.tail_cons]
    have hk : k < 1024 := lt_of_lt_of_le (List.getElem?_eq_some_iff.mp hw).1 hb.length
    rw [dataFrom_cons, claimLoop, List.zipIdx_cons]
    rcases h.turn ht hmass hroot hb hw (hu.not_marked hk) rfl with ⟨-, hturn⟩ |
      ⟨-, walk, hturn, hstop⟩ | ⟨-, th', a, coin', hturn, hgo⟩
    · rw [hturn]
      obtain ⟨hrun, ⟨paid, hsub, hpaid⟩, hhonest⟩ := ih htail h hu.succ
      refine ⟨hrun, ⟨paid, hsub.cons _, hpaid⟩, fun claim hclaim hr => ?_⟩
      rcases List.mem_cons.mp hclaim with rfl | hclaim
      · cases hr
      · exact hhonest claim hclaim hr
    · rw [hturn]
      exact hstop.safe _
    · rw [hturn]
      have hu' : UnpaidFrom coin'.state.w (k + 1) := by
        rw [hgo.state]
        exact hu.mark hk h.words
      obtain ⟨hrun, ⟨paid, hsub, hpaid⟩, hhonest⟩ := ih htail hgo.tip hu'
      refine ⟨.cons hgo.step hrun, ⟨(w, k) :: paid, hsub.cons_cons _, .cons hgo.pays hpaid⟩,
        fun claim hclaim hr => ?_⟩
      rcases List.mem_cons.mp hclaim with rfl | hclaim
      · exact ⟨a, List.mem_cons_self, congrArg some hgo.txid, k, hgo.pays⟩
      · obtain ⟨a', ha', hclaimed⟩ := hhonest claim hclaim hr
        exact ⟨a', List.mem_cons_of_mem _ ha', hclaimed⟩

theorem complete_cons {claim : Claim} {spends : List PayoutShard.Action} {walk : Walk} {n : Nat} :
    (walk.cons claim spends).Complete (n + 1) ↔
      (claim.received = true ∧ claim.error = none) ∧ walk.Complete n := by
  unfold Walk.Complete Walk.cons
  simp only [List.length_cons, Nat.add_right_cancel_iff, List.forall_mem_cons]
  tauto

/-- **When the loop completes**: it finds every key and nothing is dust; then every leaf is paid,
and the rest of the pool is left. -/
theorem claimLoop_complete (ht : c.template.templatePrefix.length = 1) (hmass : FeeCovers chain)
    (hroot : root = rootOf e ws) (hb : Buildable ws) (rest : List Leaf) (hrest : ws.drop k = rest)
    (h : AtTip e c kind root th coin) (hu : UnpaidFrom coin.state.w k) {walk : Walk}
    (hwalk : claimLoop e c chain addrs env kind root (dataFrom e ws k rest) th coin = walk) :
    (walk.Complete rest.length ↔ AllReady chain addrs env (rest.zipIdx k) coin.value) ∧
      (walk.Complete rest.length → List.Forall₂ (Pays kind) walk.spends (rest.zipIdx k) ∧
        walk.coin.state.consolidated_pool =
          coin.state.consolidated_pool - sumAmounts rest) := by
  induction rest generalizing k th coin walk with
  | nil =>
    subst hwalk
    have hready : AllReady chain addrs env [] coin.value :=
      ⟨fun p hp => absurd hp List.not_mem_nil, fun hne => absurd rfl hne⟩
    refine ⟨⟨fun _ => hready, fun _ => ?_⟩, fun _ => ⟨.nil, ?_⟩⟩
    · exact ⟨Ended.noConfusion, rfl, fun claim hclaim => absurd hclaim List.not_mem_nil⟩
    · rw [sumAmounts, List.map_nil, List.sum_nil, sub_zero]
      rfl
  | cons w rest ih =>
    have hw : ws[k]? = some w := by
      rw [← List.head?_drop, hrest, List.head?_cons]
    have htail : ws.drop (k + 1) = rest := by
      rw [← List.tail_drop, hrest, List.tail_cons]
    have hk : k < 1024 := lt_of_lt_of_le (List.getElem?_eq_some_iff.mp hw).1 hb.length
    have hpos : ∀ p ∈ rest.zipIdx (k + 1), 0 < p.1.amount := by
      intro p hp
      have hmem : p.1 ∈ ws.drop (k + 1) := htail ▸ List.fst_mem_of_mem_zipIdx hp
      exact (hb.payable _ (List.mem_of_mem_drop hmem)).pos
    rw [dataFrom_cons, claimLoop] at hwalk
    rw [List.zipIdx_cons, List.length_cons, allReady_cons hpos, sumAmounts_cons]
    rcases h.turn ht hmass hroot hb hw (hu.not_marked hk) rfl with ⟨hno, hturn⟩ |
      ⟨hno, walk', hturn, hstop⟩ | ⟨hyes, th', a, coin', hturn, hgo⟩
    · rw [hturn] at hwalk
      have hnot : ¬ walk.Complete (rest.length + 1) := by
        rw [← hwalk, complete_cons]
        rintro ⟨⟨hr, -⟩, -⟩
        cases hr
      exact ⟨⟨fun hc => absurd hc hnot, fun hall => absurd hall.1.1.roundTrip hno⟩,
        fun hc => absurd hc hnot⟩
    · rw [hturn] at hwalk
      subst hwalk
      exact ⟨⟨fun hc => absurd hc (hstop.not_complete _), fun hall => absurd hall.1 hno⟩,
        fun hc => absurd hc (hstop.not_complete _)⟩
    · rw [hturn] at hwalk
      have hu' : UnpaidFrom coin'.state.w (k + 1) := by
        rw [hgo.state]
        exact hu.mark hk h.words
      obtain ⟨hiff, hpaid⟩ := ih htail hgo.tip hu' rfl
      have hcomplete : walk.Complete (rest.length + 1) ↔ (claimLoop e c chain addrs env kind root
          (dataFrom e ws (k + 1) rest) th' coin').Complete rest.length := by
        rw [← hwalk, complete_cons]
        exact ⟨fun hc => hc.2, fun hc => ⟨⟨rfl, rfl⟩, hc⟩⟩
      rw [hcomplete, hiff, hgo.value]
      refine ⟨⟨fun hall => ⟨hyes, hall⟩, fun hall => hall.2⟩, fun hc => ?_⟩
      obtain ⟨hall, hpool⟩ := hpaid (hiff.mpr (hgo.value ▸ hc))
      rw [← hwalk]
      refine ⟨.cons hgo.pays hall, ?_⟩
      show _ = coin.state.consolidated_pool - (w.amount + sumAmounts rest)
      have hstate : coin'.state.consolidated_pool = coin.state.consolidated_pool - w.amount := by
        rw [hgo.state, paidState]
      rw [← sub_sub, ← hstate, ← hpool]
      rfl

end

/-! ### From the attestation on -/

/-- `close_attest` and `cancel_attest`. -/
def ClaimKind.attest (root : Bytes32) (cw : CommitteeWitness) : ClaimKind → PayoutShard.Call
  | .payout => .close_attest 0 root cw
  | .refund => .cancel_attest 0 root cw

/-- The closed shard as the settler compiles it, nothing paid, in the first output of the
attestation. -/
def startThread (t : Template) (kind : ClaimKind) (root : Bytes32) (txid : String)
    (consolidatedPool : Int) : Option Thread := do
  let curState : State :=
    { consolidated_pool := consolidatedPool, closed := kind.latch, payoutRoot := root
      w := Words.zero }
  let state ← serializeState curState.fields
  some
    { psOutTxid := txid
      psOutIdx := 0
      curPool := consolidatedPool
      curState
      curRedeem := t.redeem state }

/-- The coin that an attestation leaves. -/
def attestedCoin (chain : Chain) (tx : Tx) (out : TxOutput) (s : State) : ShardCoin where
  txid := chain.txId tx
  index := 0
  value := out.value
  scriptPubKey := out.scriptPubKey
  covenantId := out.covenantId
  state := s

/-- Nothing is paid of a shard that is open. -/
def Untouched (s : State) : Prop := s.closed = 0 → s.w = Words.zero

theorem untouched_run {e : Engine} {c : Contract} {g s : State} {as : List PayoutShard.Action}
    (hg : PayoutShard.Genesis g) (h : Run (PayoutShard.Step e c) g as s) :
    PayoutShard.Inv s ∧ Untouched s := by
  refine h.invariant (I := fun s => PayoutShard.Inv s ∧ Untouched s) ?_
    ⟨hg.inv, fun _ => hg.words⟩
  rintro s a t ⟨hi, hu⟩ hstep
  refine ⟨hi.step hstep, fun h0 => ?_⟩
  rcases PayoutShard.step_cases hi.words hstep with ⟨hs, -, v, rfl⟩ |
    ⟨-, -, latch, _, hl, rfl⟩ | ⟨hs, k, -, -, -, -, -, rfl⟩
  · exact hu hs
  · simp only at h0
    omega
  · simp only at h0
    omega

theorem spend_attest {e : Engine} {c : Contract} {s s' : State} {tx : Tx} {kind : ClaimKind}
    {root : Bytes32} {cw : CommitteeWitness} :
    PayoutShard.Step e c s (kind.attest root cw, tx) s' ↔
      PayoutShard.attest e c s tx kind.latch 0 root cw = some s' := by
  cases kind with
  | payout => exact Iff.rfl
  | refund => exact Iff.rfl

/-- **The settler starts at the shard.** -/
theorem startThread_atTip {e : Engine} {c : Contract} {chain : Chain} {kind : ClaimKind}
    {g s s' : State} {as : List PayoutShard.Action} {tx : Tx} {root : Bytes32}
    {cw : CommitteeWitness} {out : TxOutput} (hg : PayoutShard.Genesis g)
    (hrun : Run (PayoutShard.Step e c) g as s)
    (hattest : PayoutShard.Step e c s (kind.attest root cw, tx) s')
    (hout : tx.output 0 = some out) (hcov : out.covenantId ≠ none) :
    s'.w = Words.zero ∧ ∃ th, startThread c.template kind root (chain.txId tx)
        s.consolidated_pool = some th ∧
      AtTip e c kind root th (attestedCoin chain tx out s') := by
  obtain ⟨hi, hu⟩ := untouched_run hg hrun
  obtain ⟨h0, -, rfl, ⟨state, out', hs, hout', hscript⟩, hpays⟩ :=
    PayoutShard.attest_eq_some.mp (spend_attest.mp hattest)
  obtain rfl := Option.some.inj (hout.symm.trans hout')
  have hvalue : (out.value : Int) = s.consolidated_pool := by
    obtain ⟨o, ho, hv⟩ := hpays
    obtain rfl := Option.some.inj (hout.symm.trans ho)
    exact hv
  have hw := hu h0
  have hbound := Tx.output_bounded hout
  have hstate : ({ s with closed := kind.latch, payoutRoot := root } : State) =
      ⟨s.consolidated_pool, kind.latch, root, Words.zero⟩ :=
    congrArg (State.mk s.consolidated_pool kind.latch root) hw
  rw [hstate] at hs ⊢
  refine ⟨rfl, ⟨chain.txId tx, 0, s.consolidated_pool,
    ⟨s.consolidated_pool, kind.latch, root, Words.zero⟩, c.template.redeem state⟩, ?_,
    ⟨rfl, rfl, rfl, rfl, ⟨state, hs, rfl⟩, hscript, hvalue, hbound, hcov, rfl, rfl, wordsOk_zero⟩⟩
  unfold startThread
  dsimp only
  rw [hs]
  rfl

/-- What becomes of the leaves `ws` of a shard that was just closed. -/
structure ClaimsPaid (e : Engine) (c : Contract) (chain : Chain) (addrs : Addresses)
    (env : Nat → Attempt) (kind : ClaimKind) (ws : List Leaf) (coin : ShardCoin) (walk : Walk) :
    Prop where
  run : Run (PayoutShard.Step e c) coin.state walk.spends walk.coin.state
  pays : ∃ paid : List (Leaf × Nat), paid.Sublist ws.zipIdx ∧
    List.Forall₂ (Pays kind) walk.spends paid
  honest : Honest chain kind walk
  complete_iff : walk.Complete ws.length ↔
    (∀ (i : Nat) (w : Leaf), ws[i]? = some w → Ready chain addrs (env i) w ∧ 1000 ≤ w.amount) ∧
      (ws ≠ [] → sumAmounts ws + 1000 ≤ coin.value)
  complete : walk.Complete ws.length → List.Forall₂ (Pays kind) walk.spends ws.zipIdx ∧
    walk.coin.state.consolidated_pool = coin.value - sumAmounts ws

/-- The loop from the attestation on. -/
theorem claims_of_attest {e : Engine} {c : Contract} (chain : Chain) (addrs : Addresses)
    (env : Nat → Attempt) {kind : ClaimKind} {g s s' : State} {as : List PayoutShard.Action}
    {tx : Tx} {root : Bytes32} {cw : CommitteeWitness} {out : TxOutput} {ws : List Leaf}
    (ht : c.template.templatePrefix.length = 1) (hmass : FeeCovers chain) (hb : Buildable ws)
    (hroot : root = rootOf e ws) (hg : PayoutShard.Genesis g)
    (hrun : Run (PayoutShard.Step e c) g as s)
    (hattest : PayoutShard.Step e c s (kind.attest root cw, tx) s')
    (hout : tx.output 0 = some out) (hcov : out.covenantId ≠ none) :
    ∃ th, startThread c.template kind root (chain.txId tx) s.consolidated_pool = some th ∧
      ClaimsPaid e c chain addrs env kind ws (attestedCoin chain tx out s')
        (claimLoop e c chain addrs env kind root (dataFrom e ws 0 ws) th
          (attestedCoin chain tx out s')) := by
  obtain ⟨hw, th, hth, htip⟩ :=
    @startThread_atTip e c chain kind g s s' as tx root cw out hg hrun hattest hout hcov
  have hu : UnpaidFrom (attestedCoin chain tx out s').state.w 0 := by
    intro j _ hm
    have hz : ¬ Marked s'.w j := by
      rw [hw]
      exact not_marked_zero j
    exact absurd hm hz
  obtain ⟨hrun', hpays, hhonest⟩ :=
    @claimLoop_safe e c chain addrs env kind root th _ ws 0 ht hmass hroot hb ws rfl htip hu
  obtain ⟨hiff, hall⟩ :=
    @claimLoop_complete e c chain addrs env kind root th _ ws 0 ht hmass hroot hb ws rfl htip hu _
      rfl
  refine ⟨th, hth, hrun', hpays, hhonest, hiff.trans ?_, fun hc => ?_⟩
  · unfold AllReady
    have hmap : ws.zipIdx.map Prod.fst = ws := List.zipIdx_map_fst 0 ws
    have hne : ws.zipIdx ≠ [] ↔ ws ≠ [] := by
      rw [ne_eq, ne_eq, List.zipIdx_eq_nil_iff]
    rw [hmap, hne, Prod.forall]
    simp only [List.mk_mem_zipIdx_iff_getElem?]
    exact and_congr_left' forall_comm
  · obtain ⟨hp, hpool⟩ := hall hc
    exact ⟨hp, hpool.trans (congrArg (· - sumAmounts ws) htip.value.symm)⟩

/-- **Paying the leaves of a closed shard**, of `close_attest` and of `cancel_attest`.  However the
relay and the ledger answer, what is spent is what the covenant allows, each leaf is paid once at
most, to its owner, and what is reported received was paid.  The settler reports that it is complete
exactly when every claim goes through and no output of it is dust. -/
theorem claims_paid {e : Engine} {c : Contract} (chain : Chain) (addrs : Addresses)
    (env : Nat → Attempt) {kind : ClaimKind} {g s s' : State} {as : List PayoutShard.Action}
    {tx : Tx} {root : Bytes32} {cw : CommitteeWitness} {out : TxOutput} {ws : List Leaf}
    (ht : c.template.templatePrefix.length = 1) (hmass : FeeCovers chain)
    (hroot : payoutRoot e ws = some root)
    (hg : PayoutShard.Genesis g) (hrun : Run (PayoutShard.Step e c) g as s)
    (hattest : PayoutShard.Step e c s (kind.attest root cw, tx) s')
    (hout : tx.output 0 = some out) (hcov : out.covenantId ≠ none) :
    ∃ cds th, claimData e ws = some cds ∧
      startThread c.template kind root (chain.txId tx) s.consolidated_pool = some th ∧
      ClaimsPaid e c chain addrs env kind ws (attestedCoin chain tx out s')
        (claimLoop e c chain addrs env kind root cds th (attestedCoin chain tx out s')) := by
  obtain ⟨hb, hroot'⟩ := payoutRoot_eq_some.mp hroot
  obtain ⟨th, hth, hpaid⟩ :=
    claims_of_attest chain addrs env ht hmass hb hroot'.symm hg hrun hattest hout hcov
  exact ⟨_, th, claimData_eq hb, hth, hpaid⟩

/-! ### Two winners on the sample engine -/

def sampleWinners : List Leaf :=
  [{ pk := (samplePk 0).toList, amount := 500000 }, { pk := (samplePk 1).toList, amount := 300000 }]

theorem buildable_sampleWinners : Buildable sampleWinners := by
  refine ⟨by decide, fun w hw => ?_⟩
  rcases List.mem_pair.mp hw with rfl | rfl
  · exact ⟨rfl, by decide, by decide⟩
  · exact ⟨rfl, by decide, by decide⟩

/-- Addresses are the hex of the keys. -/
def sampleAddresses : Addresses where
  p2pkAddr := fun pk => String.ofList (toHex pk)
  p2pkSpk := none
  changeAddress := ""

def sampleChain : Chain where
  payToAddressScript := fun a => 0x20 :: ((fromHex a.toList).getD [] ++ [0xac])
  txId := fun tx => String.ofList (toHex ((tx.outputs.map TxOutput.scriptPubKey).flatten))
  mass := fun tx => some (tx.inputs.length * 5000 + tx.outputs.length * 3000)

theorem sampleChain_feeCovers : FeeCovers sampleChain := by
  intro tx m hin hout hm
  obtain rfl := Option.some.inj hm
  omega

/-- Everything goes through. -/
def sampleAttempts : Nat → Attempt := fun _ =>
  { feeUtxo := some { value := 3000000, scriptPubKey := [], bounded := by decide }
    accepts := true
    landed := true }

def sampleSettled : State :=
  PayoutShard.sampleState 20000000 1 (rootOf sampleEngine sampleWinners) Words.zero

def sampleSettledOutput : TxOutput :=
  covenantOutput sampleEngine PayoutShard.sampleContract.template sampleSettled.fields 20000000
    (some (samplePk 9))

def sampleSettleTx : Tx := sampleTx [sampleSettledOutput] (by decide)

theorem sample_attest :
    PayoutShard.Step sampleEngine PayoutShard.sampleContract PayoutShard.sampleMinted
      (ClaimKind.payout.attest (rootOf sampleEngine sampleWinners) PayoutShard.sampleCommittee,
        sampleSettleTx) sampleSettled :=
  PayoutShard.attest_eq_some.mpr ⟨rfl, PayoutShard.sampleCommittee_attests _, rfl,
    Tx.continues_covenantOutput (PayoutShard.fields_fit (by decide) (by decide) wordsOk_zero) rfl,
    _, rfl, rfl⟩

theorem ready_sample {i : Nat} (w : Leaf) :
    Ready sampleChain sampleAddresses (sampleAttempts i) w := by
  have hround : sampleAddresses.RoundTrip w.pk := by
    intro p2pkSpk h
    cases h
  refine ⟨hround, ?_, ⟨_, rfl, by decide⟩, rfl, rfl⟩
  simp only [sampleChain, sampleAddresses, String.toList_ofList, fromHex_toHex, Option.getD_some]

/-- Both winners are paid. -/
theorem claims_paid_sample : ∃ cds th,
    claimData sampleEngine sampleWinners = some cds ∧
    startThread PayoutShard.sampleContract.template .payout (rootOf sampleEngine sampleWinners)
      (sampleChain.txId sampleSettleTx) 20000000 = some th ∧
    (claimLoop sampleEngine PayoutShard.sampleContract sampleChain sampleAddresses sampleAttempts
      .payout (rootOf sampleEngine sampleWinners) cds th
      (attestedCoin sampleChain sampleSettleTx sampleSettledOutput sampleSettled)).Complete 2 := by
  have hout : sampleSettleTx.output 0 = some sampleSettledOutput := rfl
  obtain ⟨cds, th, hcds, hth, hpaid⟩ := claims_paid sampleChain sampleAddresses sampleAttempts rfl
    sampleChain_feeCovers (payoutRoot_of_buildable buildable_sampleWinners) ⟨rfl, rfl, by decide⟩
    (Run.nil PayoutShard.sampleMinted) sample_attest hout (Option.some_ne_none _)
  refine ⟨cds, th, hcds, hth,
    hpaid.complete_iff.mpr ⟨fun i w hw => ⟨ready_sample w, ?_⟩, fun _ => ?_⟩⟩
  · rcases List.mem_pair.mp (List.mem_of_getElem? hw) with rfl | rfl
    · decide
    · decide
  · show sumAmounts sampleWinners + 1000 ≤ ((20000000 : Nat) : Int)
    decide

end KANet.Settle.Claims
