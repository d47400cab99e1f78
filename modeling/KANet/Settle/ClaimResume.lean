import KANet.Settle.ClaimLoop

/-!
# Taking up the claims where they were left

The claims of a large market take more than one run of the settler, and any of them may end early.
The next run goes over what was written down (`winner_details`), then looks on the ledger for claims
that were made and not written down, and goes on from there.

* `replay`, `threadWalk`, `resumeClaims` — the rest of `settleMarketLive`.
* `resumeClaims_eq` — where the lookups show the shard, a run goes on from its coin, whatever part
  of the record it was left.
* `resumes_pay` — any number of runs, each stopped anywhere.
-/

namespace KANet.Settle.Claims

open KANet.Lib KANet.Script KANet.Payout KANet.Covenant KANet.Register
open PayoutShard (State Contract)

/-- An entry of `winner_details`. -/
structure WinnerDetail where
  pk : Bytes
  amount : Int
  txId : String

/-- What the settler looks up: the coins at an address, with their transaction and amount, and the
first transaction of the log that names the address.  The first may fail. -/
structure View where
  getUtxos : Bytes → Option (List (String × Int))
  histRow : Bytes → Option String

inductive ResumeError
  | count
  | mismatch
  | amount
  | threw
deriving DecidableEq

def receipt (cd : ClaimData) (txId : String) : Claim := ⟨cd.pk, cd.amount, some txId, true, none⟩

/-- `ctx.p2shAddr` -/
def lockOf (e : Engine) (redeem : Bytes) : Bytes := ScriptPubKeyP2SH (e.blake2b redeem)

/-- What was recovered, what is still to be claimed, and the thread. -/
abbrev Recovered := List Claim × List ClaimData × Thread

section

variable (e : Engine) (view : View) (kind : ClaimKind) (root : Bytes32)

/-- The entries that were written down, each against the claim at its position. -/
def replay : List WinnerDetail → List ClaimData → Thread → Except ResumeError Recovered
  | [], cds, th => .ok ([], cds, th)
  | _ :: _, [], _ => .error .count
  | d :: ds, cd :: cds, th => do
    check (d.pk = cd.pk ∧ d.amount = cd.amount) .mismatch
    let next ← orRefuse (th.next kind root cd) .threw
    let r ← replay ds cds (th.advance cd d.txId next)
    .ok (receipt cd d.txId :: r.1, r.2)

/-- The claims that the ledger has and the record has not.  A coin at the tip must hold what is left
of the pool; a lookup that fails ends the search. -/
def threadWalk : List ClaimData → Thread → Except ResumeError Recovered
  | [], th => .ok ([], [], th)
  | cd :: cds, th =>
    match view.getUtxos (lockOf e th.curRedeem) with
    | none => .ok ([], cd :: cds, th)
    | some (entry :: entries) =>
      let tipEntry := ((entry :: entries).find? fun en => en.1 = th.psOutTxid).getD entry
      if tipEntry.2 = th.curPool then .ok ([], cd :: cds, th) else .error .amount
    | some [] =>
      match th.next kind root cd with
      | none => .ok ([], cd :: cds, th)
      | some next =>
        let nextAddr := lockOf e next.2
        let foundTxId := (view.histRow nextAddr).orElse fun _ =>
          ((view.getUtxos nextAddr).getD []).head?.map Prod.fst
        match foundTxId with
        | none => .ok ([], cd :: cds, th)
        | some txId => do
          let r ← threadWalk cds (th.advance cd txId next)
          .ok (receipt cd txId :: r.1, r.2)

end

/-- The claims of a run of `settleMarketLive` whose market was closed before. -/
def resumeClaims (e : Engine) (c : Contract) (chain : Chain) (addrs : Addresses)
    (env : Nat → Attempt) (view : View) (root : Bytes32) (priorWinnerDetails : List WinnerDetail)
    (claimData : List ClaimData) (th : Thread) (coin : ShardCoin) : Except ResumeError Walk := do
  check (priorWinnerDetails.length ≤ claimData.length) .count
  let r ← replay .payout root priorWinnerDetails claimData th
  let q ← threadWalk e view .payout root r.2.1 r.2.2
  let walk := claimLoop e c chain addrs env .payout root q.2.1 q.2.2 coin
  .ok { walk with claims := r.1 ++ q.1 ++ walk.claims }

/-- `landedClaims`, as they are written down. -/
def landedClaims (claims : List Claim) : List WinnerDetail :=
  claims.filterMap fun claim =>
    if claim.received = true ∧ claim.error = none then
      claim.txId.map fun txId => ⟨claim.pk, claim.amount, txId⟩
    else none

/-! ### Following the shard -/

/-- The thread after claims that were made by these transactions. -/
def follow (kind : ClaimKind) (root : Bytes32) :
    Thread → List ClaimData → List String → Option Thread
  | th, _, [] => some th
  | _, [], _ :: _ => none
  | th, cd :: cds, id :: ids => do
    let next ← th.next kind root cd
    follow kind root (th.advance cd id next) cds ids

/-- The lookups show the shard as it was spent by these transactions: nothing but its own coin ever
lies at its addresses, and the log has every one of its transactions. -/
def Shows (e : Engine) (view : View) (kind : ClaimKind) (root : Bytes32) :
    Thread → List ClaimData → List String → Prop
  | th, _, [] => view.getUtxos (lockOf e th.curRedeem) = some [(th.psOutTxid, th.curPool)]
  | _, [], _ :: _ => False
  | th, cd :: cds, id :: ids => view.getUtxos (lockOf e th.curRedeem) = some [] ∧
    ∀ next, th.next kind root cd = some next → view.histRow (lockOf e next.2) = some id ∧
      Shows e view kind root (th.advance cd id next) cds ids

def receipts (cds : List ClaimData) (ids : List String) : List Claim := cds.zipWith receipt ids

def record (cds : List ClaimData) (ids : List String) : List WinnerDetail :=
  cds.zipWith (fun cd id => ⟨cd.pk, cd.amount, id⟩) ids

section

variable {e : Engine} {view : View} {kind : ClaimKind} {root : Bytes32} {th th' : Thread}
  {cds : List ClaimData} {ids ids' : List String}

theorem follow_nil : follow kind root th cds [] = some th := by
  rw [follow]

theorem follow_cons {cd : ClaimData} {id : String} :
    follow kind root th (cd :: cds) (id :: ids) = some th' ↔
      ∃ next, th.next kind root cd = some next ∧
        follow kind root (th.advance cd id next) cds ids = some th' := by
  rw [follow, Option.bind_eq_bind, Option.bind_eq_some_iff]

theorem follow_append (h : follow kind root th cds (ids ++ ids') = some th') :
    ∃ m, follow kind root th cds ids = some m ∧
      follow kind root m (cds.drop ids.length) ids' = some th' := by
  induction ids generalizing th cds with
  | nil => exact ⟨th, by rw [follow], h⟩
  | cons id ids ih =>
    cases cds with
    | nil => cases h
    | cons cd cds =>
      obtain ⟨next, hnext, hrest⟩ := follow_cons.mp h
      obtain ⟨m, hm, hm'⟩ := ih hrest
      exact ⟨m, follow_cons.mpr ⟨next, hnext, hm⟩, hm'⟩

theorem follow_trans {m : Thread} (h : follow kind root th cds ids = some m)
    (h' : follow kind root m (cds.drop ids.length) ids' = some th') :
    follow kind root th cds (ids ++ ids') = some th' := by
  induction ids generalizing th cds with
  | nil =>
    rw [follow, Option.some.injEq] at h
    exact h ▸ h'
  | cons id ids ih =>
    cases cds with
    | nil => cases h
    | cons cd cds =>
      obtain ⟨next, hnext, hrest⟩ := follow_cons.mp h
      exact follow_cons.mpr ⟨next, hnext, ih hrest h'⟩

theorem length_of_follow (h : follow kind root th cds ids = some th') :
    ids.length ≤ cds.length := by
  induction ids generalizing th cds with
  | nil => exact Nat.zero_le _
  | cons id ids ih =>
    cases cds with
    | nil => cases h
    | cons cd cds =>
      obtain ⟨next, -, hrest⟩ := follow_cons.mp h
      exact Nat.succ_le_succ (ih hrest)

theorem Shows.rest {m : Thread} (h : Shows e view kind root th cds (ids ++ ids'))
    (hm : follow kind root th cds ids = some m) :
    Shows e view kind root m (cds.drop ids.length) ids' := by
  induction ids generalizing th cds with
  | nil =>
    rw [follow, Option.some.injEq] at hm
    exact hm ▸ h
  | cons id ids ih =>
    cases cds with
    | nil => cases hm
    | cons cd cds =>
      obtain ⟨next, hnext, hrest⟩ := follow_cons.mp hm
      exact ih (h.2 next hnext).2 hrest

/-- **The record is gone over to its end.** -/
theorem replay_record (h : follow kind root th cds ids = some th') :
    replay kind root (record cds ids) cds th =
      .ok (receipts cds ids, cds.drop ids.length, th') := by
  induction ids generalizing th cds with
  | nil =>
    rw [follow, Option.some.injEq] at h
    subst h
    cases cds <;> rfl
  | cons id ids ih =>
    cases cds with
    | nil => cases h
    | cons cd cds =>
      obtain ⟨next, hnext, hrest⟩ := follow_cons.mp h
      have hr := ih hrest
      show replay kind root (⟨cd.pk, cd.amount, id⟩ :: record cds ids) (cd :: cds) th = _
      rw [replay]
      simp only [check, hnext, orRefuse, and_self, if_true, ok_bind, hr]
      rfl

/-- **The search ends at the coin of the shard.** -/
theorem threadWalk_shows (hs : Shows e view kind root th cds ids)
    (h : follow kind root th cds ids = some th') :
    threadWalk e view kind root cds th =
      .ok (receipts cds ids, cds.drop ids.length, th') := by
  induction ids generalizing th cds with
  | nil =>
    rw [follow, Option.some.injEq] at h
    subst h
    cases cds with
    | nil => rfl
    | cons cd cds =>
      have hcoin : view.getUtxos (lockOf e th.curRedeem) = some [(th.psOutTxid, th.curPool)] := hs
      rw [threadWalk, hcoin]
      have hfind : ([(th.psOutTxid, th.curPool)].find? fun en => en.1 = th.psOutTxid) =
          some (th.psOutTxid, th.curPool) :=
        List.find?_cons_of_pos (by simp)
      simp only [hfind, Option.getD_some, if_true]
      rfl
  | cons id ids ih =>
    cases cds with
    | nil => cases h
    | cons cd cds =>
      obtain ⟨next, hnext, hrest⟩ := follow_cons.mp h
      obtain ⟨hspent, hlog⟩ := hs
      obtain ⟨hrow, hs'⟩ := hlog next hnext
      have hr := ih hs' hrest
      rw [threadWalk, hspent]
      simp only [hnext, hrow, Option.orElse_some, hr, ok_bind]
      rfl

theorem receipts_append (h : ids.length ≤ cds.length) :
    receipts cds (ids ++ ids') = receipts cds ids ++ receipts (cds.drop ids.length) ids' := by
  induction ids generalizing cds with
  | nil =>
    cases cds <;> rfl
  | cons id ids ih =>
    cases cds with
    | nil => cases h
    | cons cd cds => exact congrArg (receipt cd id :: ·) (ih (Nat.le_of_succ_le_succ h))

theorem received_receipts :
    ∀ claim ∈ receipts cds ids, claim.received = true ∧ claim.error = none := by
  induction ids generalizing cds with
  | nil =>
    intro claim hclaim
    rw [receipts, List.zipWith_nil_right] at hclaim
    cases hclaim
  | cons id ids ih =>
    cases cds with
    | nil =>
      intro claim hclaim
      cases hclaim
    | cons cd cds => exact List.forall_mem_cons.mpr ⟨⟨rfl, rfl⟩, ih⟩

theorem record_append (h : ids.length ≤ cds.length) :
    record cds (ids ++ ids') = record cds ids ++ record (cds.drop ids.length) ids' := by
  induction ids generalizing cds with
  | nil =>
    cases cds <;> rfl
  | cons id ids ih =>
    cases cds with
    | nil => cases h
    | cons cd cds =>
      exact congrArg (WinnerDetail.mk cd.pk cd.amount id :: ·) (ih (Nat.le_of_succ_le_succ h))

theorem landedClaims_receipts : landedClaims (receipts cds ids) = record cds ids := by
  induction ids generalizing cds with
  | nil =>
    cases cds <;> rfl
  | cons id ids ih =>
    cases cds with
    | nil => rfl
    | cons cd cds => exact congrArg (WinnerDetail.mk cd.pk cd.amount id :: ·) ih

/-- **A run goes on where the shard is**, whatever part of the claims was written down. -/
theorem resumeClaims_eq {c : Contract} {chain : Chain} {addrs : Addresses} {env : Nat → Attempt}
    {coin : ShardCoin} {m : Nat} (h : follow .payout root th cds ids = some th')
    (hs : Shows e view .payout root th cds ids) :
    resumeClaims e c chain addrs env view root (record cds (ids.take m)) cds th coin =
      .ok { claimLoop e c chain addrs env .payout root (cds.drop ids.length) th' coin with
        claims := receipts cds ids ++ (claimLoop e c chain addrs env .payout root
          (cds.drop ids.length) th' coin).claims } := by
  have hids : ids.take m ++ ids.drop m = ids := List.take_append_drop m ids
  obtain ⟨mid, hmid, hrest⟩ := follow_append (hids.symm ▸ h)
  have hshow := Shows.rest (hids.symm ▸ hs) hmid
  have hle := length_of_follow hmid
  have hcount : (record cds (ids.take m)).length ≤ cds.length := by
    unfold record
    rw [List.length_zipWith]
    exact Nat.min_le_left _ _
  have hdrop : (cds.drop (ids.take m).length).drop (ids.drop m).length = cds.drop ids.length := by
    rw [List.drop_drop, ← List.length_append, hids]
  have hreceipts := @receipts_append cds (ids.take m) (ids.drop m) hle
  rw [hids] at hreceipts
  unfold resumeClaims
  simp only [check, hcount, if_true, ok_bind, replay_record hmid, threadWalk_shows hshow hrest,
    hdrop, hreceipts, List.append_assoc]

end

/-! ### What a walk leaves behind -/

/-- The transactions of these spends. -/
def idsOf (chain : Chain) (spends : List PayoutShard.Action) : List String :=
  spends.map fun a => chain.txId a.2

/-- A walk over the leaves from `k` on pays the first of them, and records the first of those. -/
structure Walked (e : Engine) (c : Contract) (chain : Chain) (kind : ClaimKind) (root : Bytes32)
    (ws : List Leaf) (k : Nat) (rest : List Leaf) (th : Thread) (coin : ShardCoin) (walk : Walk) :
    Prop where
  tip : ∃ th', follow kind root th (dataFrom e ws k rest) (idsOf chain walk.spends) = some th' ∧
    AtTip e c kind root th' walk.coin
  unpaid : UnpaidFrom walk.coin.state.w (k + walk.spends.length)
  run : Run (PayoutShard.Step e c) coin.state walk.spends walk.coin.state
  pays : List.Forall₂ (Pays kind) walk.spends ((rest.zipIdx k).take walk.spends.length)
  record : ∃ r, r ≤ walk.spends.length ∧
    landedClaims walk.claims = record (dataFrom e ws k rest) ((idsOf chain walk.spends).take r)

section

variable {e : Engine} {c : Contract} {chain : Chain} {addrs : Addresses} {env : Nat → Attempt}
  {kind : ClaimKind} {root : Bytes32} {th : Thread} {coin : ShardCoin} {ws : List Leaf} {k : Nat}

theorem Stops.walked {w : Leaf} {rest : List Leaf} {walk : Walk}
    (h : Stops e c chain kind root ws th coin w k walk) (ht : AtTip e c kind root th coin)
    (hk : k < 1024) (hu : UnpaidFrom coin.state.w k) :
    Walked e c chain kind root ws k (w :: rest) th coin walk := by
  have hrecord : landedClaims walk.claims = [] := by
    rcases h.record with ⟨-, hnone⟩ | ⟨txId, error, hone⟩
    · rw [hnone]
      rfl
    · rw [hone]
      rfl
  rcases h.spent with ⟨hnil, hcoin⟩ | ⟨th', a, ha, hgo⟩
  · refine ⟨⟨th, ?_, hcoin ▸ ht⟩, ?_, ?_, ?_, 0, Nat.zero_le _, hrecord⟩
    · rw [hnil]
      rfl
    · rw [hnil, hcoin]
      exact hu
    · rw [hnil, hcoin]
      exact .nil _
    · rw [hnil]
      exact .nil
  · obtain ⟨next, hnext, rfl⟩ := hgo.thread
    refine ⟨⟨_, ?_, hgo.tip⟩, ?_, ?_, ?_, 0, Nat.zero_le _, hrecord⟩
    · rw [ha, dataFrom_cons]
      exact follow_cons.mpr ⟨next, hnext, by rw [hgo.txid]; exact follow_nil⟩
    · rw [ha, hgo.state]
      exact hu.mark hk ht.words
    · rw [ha]
      exact Run.single hgo.step
    · rw [ha]
      exact .cons hgo.pays .nil

/-- **What a run of the loop leaves behind**, if every key has an address. -/
theorem claimLoop_walked (ht : c.template.templatePrefix.length = 1) (hmass : FeeCovers chain)
    (hroot : root = rootOf e ws) (hb : Buildable ws) (hround : ∀ w ∈ ws, addrs.RoundTrip w.pk)
    (rest : List Leaf) (hrest : ws.drop k = rest) (h : AtTip e c kind root th coin)
    (hu : UnpaidFrom coin.state.w k) :
    Walked e c chain kind root ws k rest th coin
      (claimLoop e c chain addrs env kind root (dataFrom e ws k rest) th coin) := by
  induction rest generalizing k th coin with
  | nil => exact ⟨⟨th, rfl, h⟩, hu, .nil _, .nil, 0, Nat.zero_le _, rfl⟩
  | cons w rest ih =>
    have hw : ws[k]? = some w := by
      rw [← List.head?_drop, hrest, List.head?_cons]
    have htail : ws.drop (k + 1) = rest := by
      rw [← List.tail_drop, hrest, List.tail_cons]
    have hk : k < 1024 := lt_of_lt_of_le (List.getElem?_eq_some_iff.mp hw).1 hb.length
    rw [dataFrom_cons, claimLoop]
    rcases h.turn ht hmass hroot hb hw (hu.not_marked hk) rfl with ⟨hno, -⟩ |
      ⟨-, walk, hturn, hstop⟩ | ⟨-, th', a, coin', hturn, hgo⟩
    · exact absurd (hround w (List.mem_of_getElem? hw)) hno
    · rw [hturn]
      exact hstop.walked h hk hu
    · rw [hturn]
      have hu' : UnpaidFrom coin'.state.w (k + 1) := by
        rw [hgo.state]
        exact hu.mark hk h.words
      have hwalked := ih htail hgo.tip hu'
      dsimp only
      generalize claimLoop e c chain addrs env kind root (dataFrom e ws (k + 1) rest) th' coin' =
        walk at hwalked ⊢
      obtain ⟨⟨th₂, hfollow, htip⟩, hun, hrun, hpays, r, hr, hrecord⟩ := hwalked
      obtain ⟨next, hnext, rfl⟩ := hgo.thread
      rw [hgo.txid] at hfollow
      refine ⟨⟨th₂, follow_cons.mpr ⟨next, hnext, hfollow⟩, htip⟩, ?_,
        .cons hgo.step hrun, .cons hgo.pays hpays, r + 1, Nat.succ_le_succ hr, ?_⟩
      · rw [Nat.add_right_comm] at hun
        exact hun
      · rw [hgo.txid]
        exact congrArg (WinnerDetail.mk w.pk w.amount (chain.txId a.2) :: ·) hrecord

end

/-! ### One run after the other -/

/-- What the settler has written down, and what became of the shard. -/
structure Settling where
  winner_details : List WinnerDetail
  spends : List PayoutShard.Action
  coin : ShardCoin

/-- What a run of the settler meets: how its claims go, what its lookups show, and whether it comes
to write its record down.  One that is stopped before that leaves the old record. -/
structure SettlerRun where
  env : Nat → Attempt
  view : View
  written : Bool

/-- One run of the settler. -/
def Settles (e : Engine) (c : Contract) (chain : Chain) (addrs : Addresses) (root : Bytes32)
    (cds : List ClaimData) (start : Thread) (σ : Settling) (r : SettlerRun) (σ' : Settling) :
    Prop :=
  Shows e r.view .payout root start cds (idsOf chain σ.spends) ∧
    match resumeClaims e c chain addrs r.env r.view root σ.winner_details cds start σ.coin with
    | .error _ => σ' = σ
    | .ok walk =>
      σ'.winner_details =
          (if r.written = true ∧ walk.ended ≠ .threw then landedClaims walk.claims
            else σ.winner_details) ∧
        σ'.spends = σ.spends ++ walk.spends ∧ σ'.coin = walk.coin

/-- Where the settler is between two runs: the first leaves are paid, and the record has the first
of those. -/
structure Between (e : Engine) (c : Contract) (chain : Chain) (root : Bytes32) (ws : List Leaf)
    (start : Thread) (coin : ShardCoin) (σ : Settling) : Prop where
  tip : ∃ th, follow .payout root start (dataFrom e ws 0 ws) (idsOf chain σ.spends) = some th ∧
    AtTip e c .payout root th σ.coin
  unpaid : UnpaidFrom σ.coin.state.w σ.spends.length
  run : Run (PayoutShard.Step e c) coin.state σ.spends σ.coin.state
  pays : List.Forall₂ (Pays .payout) σ.spends (ws.zipIdx.take σ.spends.length)
  record : ∃ m, m ≤ σ.spends.length ∧
    σ.winner_details = record (dataFrom e ws 0 ws) ((idsOf chain σ.spends).take m)

section

variable {e : Engine} {c : Contract} {chain : Chain} {addrs : Addresses} {env : Nat → Attempt}
  {view : View} {root : Bytes32} {ws : List Leaf} {start : Thread} {coin : ShardCoin}
  {σ σ' : Settling}

theorem length_idsOf {spends : List PayoutShard.Action} :
    (idsOf chain spends).length = spends.length := List.length_map _

theorem idsOf_append {as bs : List PayoutShard.Action} :
    idsOf chain (as ++ bs) = idsOf chain as ++ idsOf chain bs := List.map_append

theorem drop_zipIdx {α : Type*} (l : List α) (n k : Nat) :
    (l.zipIdx k).drop n = (l.drop n).zipIdx (k + n) := by
  induction n generalizing l k with
  | zero => rfl
  | succ n ih =>
    cases l with
    | nil => rfl
    | cons x l =>
      rw [List.zipIdx_cons, List.drop_succ_cons, List.drop_succ_cons, ih, Nat.add_assoc,
        Nat.add_comm 1 n]

theorem drop_dataFrom (n : Nat) : (dataFrom e ws 0 ws).drop n = dataFrom e ws n (ws.drop n) := by
  unfold dataFrom
  rw [← List.map_drop, drop_zipIdx, Nat.zero_add]

theorem length_dataFrom {k : Nat} {rest : List Leaf} :
    (dataFrom e ws k rest).length = rest.length := by
  rw [dataFrom, List.length_map, List.length_zipIdx]

/-- **The next run takes up the claims at the coin of the shard.** -/
theorem Between.resumes (ht : c.template.templatePrefix.length = 1) (hmass : FeeCovers chain)
    (hroot : root = rootOf e ws) (hb : Buildable ws) (hround : ∀ w ∈ ws, addrs.RoundTrip w.pk)
    (h : Between e c chain root ws start coin σ)
    (hs : Shows e view .payout root start (dataFrom e ws 0 ws) (idsOf chain σ.spends)) :
    ∃ th walk, resumeClaims e c chain addrs env view root σ.winner_details (dataFrom e ws 0 ws)
        start σ.coin =
          .ok { walk with claims := receipts (dataFrom e ws 0 ws) (idsOf chain σ.spends) ++
            walk.claims } ∧
      follow .payout root start (dataFrom e ws 0 ws) (idsOf chain σ.spends) = some th ∧
      Walked e c chain .payout root ws σ.spends.length (ws.drop σ.spends.length) th σ.coin walk ∧
      (walk.Complete (ws.drop σ.spends.length).length ↔
        AllReady chain addrs env (ws.zipIdx.drop σ.spends.length) σ.coin.value) ∧
      (walk.Complete (ws.drop σ.spends.length).length →
        List.Forall₂ (Pays .payout) walk.spends (ws.zipIdx.drop σ.spends.length)) := by
  obtain ⟨th, hfollow, htip⟩ := h.tip
  obtain ⟨m, -, hm⟩ := h.record
  have hresume := @resumeClaims_eq e view root start th (dataFrom e ws 0 ws)
    (idsOf chain σ.spends) c chain addrs env σ.coin m hfollow hs
  rw [length_idsOf, drop_dataFrom, ← hm] at hresume
  obtain ⟨hiff, hpaid⟩ := @claimLoop_complete e c chain addrs env .payout root th σ.coin ws
    σ.spends.length ht hmass hroot hb _ rfl htip h.unpaid _ rfl
  have hdrop : (ws.drop σ.spends.length).zipIdx σ.spends.length =
      ws.zipIdx.drop σ.spends.length := by
    rw [drop_zipIdx, Nat.zero_add]
  rw [hdrop] at hiff hpaid
  exact ⟨th, _, hresume, hfollow,
    claimLoop_walked ht hmass hroot hb hround _ rfl htip h.unpaid, hiff, fun hc => (hpaid hc).1⟩

theorem landedClaims_append (as bs : List Claim) :
    landedClaims (as ++ bs) = landedClaims as ++ landedClaims bs := List.filterMap_append

/-- **One run keeps it.** -/
theorem Between.step (ht : c.template.templatePrefix.length = 1) (hmass : FeeCovers chain)
    (hroot : root = rootOf e ws) (hb : Buildable ws) (hround : ∀ w ∈ ws, addrs.RoundTrip w.pk)
    (h : Between e c chain root ws start coin σ) {r : SettlerRun}
    (hstep : Settles e c chain addrs root (dataFrom e ws 0 ws) start σ r σ') :
    Between e c chain root ws start coin σ' := by
  obtain ⟨hs, hout⟩ := hstep
  obtain ⟨th, walk, hresume, hfollow, hwalked, -, -⟩ :=
    @Between.resumes e c chain addrs r.env r.view root ws start coin σ ht hmass hroot hb hround h hs
  obtain ⟨⟨th', hfollow', htip⟩, hun, hrun, hpays, k, hk, hrecord⟩ := hwalked
  obtain ⟨m, hm, hdetails⟩ := h.record
  rw [hresume] at hout
  obtain ⟨hdetails', hspends, hcoin⟩ := hout
  have hlen : σ'.spends.length = σ.spends.length + walk.spends.length := by
    rw [hspends, List.length_append]
  have hle := length_of_follow hfollow
  have hids : idsOf chain σ'.spends = idsOf chain σ.spends ++ idsOf chain walk.spends := by
    rw [hspends, idsOf_append]
  have hdrop : (dataFrom e ws 0 ws).drop (idsOf chain σ.spends).length =
      dataFrom e ws σ.spends.length (ws.drop σ.spends.length) := by
    rw [length_idsOf, drop_dataFrom]
  refine ⟨⟨th', ?_, hcoin ▸ htip⟩, ?_, ?_, ?_, ?_⟩
  · rw [hids]
    exact follow_trans hfollow (hdrop ▸ hfollow')
  · rw [hcoin, hlen]
    exact hun
  · rw [hcoin, hspends]
    exact h.run.append hrun
  · rw [hlen, hspends, List.take_add, drop_zipIdx, Nat.zero_add]
    exact List.rel_append h.pays hpays
  · by_cases hw : r.written = true ∧ walk.ended ≠ .threw
    · rw [if_pos hw, landedClaims_append, landedClaims_receipts, hrecord, ← hdrop,
        ← record_append hle] at hdetails'
      refine ⟨σ.spends.length + k, hlen ▸ Nat.add_le_add_left hk _, ?_⟩
      rw [hdetails', hids, ← @length_idsOf chain σ.spends, List.take_length_add_append]
    · rw [if_neg hw] at hdetails'
      refine ⟨m, hlen ▸ Nat.le_add_right_of_le hm, ?_⟩
      rw [hdetails', hdetails, hids, List.take_append_of_le_length (length_idsOf.symm ▸ hm)]

theorem complete_receipts {walk : Walk} {n : Nat}
    (hids : (idsOf chain σ.spends).length ≤ (dataFrom e ws 0 ws).length)
    (hn : n = (idsOf chain σ.spends).length) :
    ({ walk with claims := receipts (dataFrom e ws 0 ws) (idsOf chain σ.spends) ++
        walk.claims } : Walk).Complete ws.length ↔ walk.Complete (ws.drop n).length := by
  have hlen : (receipts (dataFrom e ws 0 ws) (idsOf chain σ.spends)).length = n := by
    rw [receipts, List.length_zipWith, hn, Nat.min_eq_right hids]
  have hall : ∀ claim ∈ receipts (dataFrom e ws 0 ws) (idsOf chain σ.spends),
      claim.received = true ∧ claim.error = none := received_receipts
  rw [length_dataFrom] at hids
  unfold Walk.Complete
  simp only [List.length_append, hlen, List.forall_mem_append, List.length_drop]
  constructor
  · rintro ⟨hended, hcount, -, hrest⟩
    exact ⟨hended, by omega, hrest⟩
  · rintro ⟨hended, hcount, hrest⟩
    exact ⟨hended, by omega, hall, hrest⟩

end

/-- What is true of a shard whose claims were taken up any number of times. -/
structure Resumed (e : Engine) (c : Contract) (chain : Chain) (addrs : Addresses) (root : Bytes32)
    (ws : List Leaf) (cds : List ClaimData) (start : Thread) (coin : ShardCoin) (σ : Settling) :
    Prop where
  run : Run (PayoutShard.Step e c) coin.state σ.spends σ.coin.state
  pays : List.Forall₂ (Pays .payout) σ.spends (ws.zipIdx.take σ.spends.length)
  honest : ∀ d ∈ σ.winner_details, ∃ a ∈ σ.spends, d.txId = chain.txId a.2 ∧
    ∃ i, Pays .payout a (⟨d.pk, d.amount⟩, i)
  resumes : ∀ env view, Shows e view .payout root start cds (idsOf chain σ.spends) → ∃ walk,
    resumeClaims e c chain addrs env view root σ.winner_details cds start σ.coin = .ok walk ∧
    (walk.Complete ws.length ↔
      AllReady chain addrs env (ws.zipIdx.drop σ.spends.length) σ.coin.value) ∧
    (walk.Complete ws.length →
      List.Forall₂ (Pays .payout) (σ.spends ++ walk.spends) ws.zipIdx)

/-- The record speaks of payments. -/
theorem honest_record {e : Engine} {chain : Chain} {ws : List Leaf} {k : Nat} {rest : List Leaf}
    {spends : List PayoutShard.Action} {m : Nat}
    (h : List.Forall₂ (Pays .payout) spends ((rest.zipIdx k).take spends.length)) :
    ∀ d ∈ record (dataFrom e ws k rest) ((idsOf chain spends).take m), ∃ a ∈ spends,
      d.txId = chain.txId a.2 ∧ ∃ i, Pays .payout a (⟨d.pk, d.amount⟩, i) := by
  induction spends generalizing k rest m with
  | nil =>
    intro d hd
    rw [idsOf, List.map_nil, List.take_nil, record, List.zipWith_nil_right] at hd
    cases hd
  | cons a spends ih =>
    intro d hd
    cases m with
    | zero =>
      rw [List.take_zero, record, List.zipWith_nil_right] at hd
      cases hd
    | succ m =>
      cases rest with
      | nil => cases hd
      | cons w rest =>
        rw [List.zipIdx_cons, List.length_cons, List.take_succ_cons, List.forall₂_cons] at h
        rcases List.mem_cons.mp hd with rfl | hd
        · exact ⟨a, List.mem_cons_self, rfl, k, h.1⟩
        · obtain ⟨a', ha', hclaim⟩ := ih h.2 d hd
          exact ⟨a', List.mem_cons_of_mem _ ha', hclaim⟩

/-- **Taking up the claims any number of times**, each run stopped anywhere and written down or not.
The winners are paid in their order and once each; what is written down was paid; as long as the
lookups show the shard the next run is never refused, and it completes exactly when the rest of the
claims go through. -/
theorem resumes_pay {e : Engine} {c : Contract} (chain : Chain) (addrs : Addresses)
    {g s s' : State} {as : List PayoutShard.Action} {tx : Tx} {root : Bytes32}
    {cw : CommitteeWitness} {out : TxOutput} {ws : List Leaf}
    (ht : c.template.templatePrefix.length = 1) (hmass : FeeCovers chain)
    (hround : ∀ w ∈ ws, addrs.RoundTrip w.pk) (hroot : payoutRoot e ws = some root)
    (hg : PayoutShard.Genesis g) (hrun : Run (PayoutShard.Step e c) g as s)
    (hattest : PayoutShard.Step e c s (ClaimKind.payout.attest root cw, tx) s')
    (hout : tx.output 0 = some out) (hcov : out.covenantId ≠ none) :
    ∃ cds start, winnerClaimData e ws = some cds ∧
      startThread c.template .payout root (chain.txId tx) s.consolidated_pool = some start ∧
      ∀ runs σ, Run (Settles e c chain addrs root cds start)
          ⟨[], [], attestedCoin chain tx out s'⟩ runs σ →
        Resumed e c chain addrs root ws cds start (attestedCoin chain tx out s') σ := by
  obtain ⟨hb, hroot'⟩ := payoutRoot_eq_some.mp hroot
  obtain ⟨hw, start, hstart, htip⟩ :=
    @startThread_atTip e c chain .payout g s s' as tx root cw out hg hrun hattest hout hcov
  have hu : UnpaidFrom (attestedCoin chain tx out s').state.w 0 := by
    intro j _ hm
    have hz : ¬ Marked s'.w j := by
      rw [hw]
      exact not_marked_zero j
    exact absurd hm hz
  refine ⟨_, start, claimData_eq hb, hstart, fun runs σ hruns => ?_⟩
  have hbetween : Between e c chain root ws start (attestedCoin chain tx out s') σ :=
    hruns.invariant (fun σ r σ' h hstep => h.step ht hmass hroot'.symm hb hround hstep)
      ⟨⟨start, follow_nil, htip⟩, hu, .nil _, .nil, 0, le_refl 0, List.zipWith_nil_right.symm⟩
  obtain ⟨m, -, hdetails⟩ := hbetween.record
  refine ⟨hbetween.run, hbetween.pays, hdetails ▸ honest_record hbetween.pays,
    fun env view hs => ?_⟩
  obtain ⟨th, walk, hresume, hfollow, -, hiff, hpaid⟩ :=
    @Between.resumes e c chain addrs env view root ws start _ σ ht hmass hroot'.symm hb hround
      hbetween hs
  have hcomplete := @complete_receipts e chain ws σ walk σ.spends.length
    (length_of_follow hfollow) length_idsOf.symm
  refine ⟨_, hresume, hcomplete.trans hiff, fun hc => ?_⟩
  have hsplit := List.take_append_drop σ.spends.length ws.zipIdx
  exact hsplit ▸ List.rel_append hbetween.pays (hpaid (hcomplete.mp hc))

/-! ### Two winners on the sample engine -/

/-- The lookups of a ledger that has the coin of this thread and nothing else. -/
def sampleView (start : Thread) : View where
  getUtxos := fun lock =>
    some (if lock = lockOf sampleEngine start.curRedeem then [(start.psOutTxid, start.curPool)]
      else [])
  histRow := fun _ => none

/-- A settler that has nothing written down finds the closed shard, and pays both. -/
theorem resumes_pay_sample : ∃ cds start walk,
    winnerClaimData sampleEngine sampleWinners = some cds ∧
    resumeClaims sampleEngine PayoutShard.sampleContract sampleChain sampleAddresses sampleAttempts
      (sampleView start) (rootOf sampleEngine sampleWinners) [] cds start
      (attestedCoin sampleChain sampleSettleTx sampleSettledOutput sampleSettled) = .ok walk ∧
    walk.Complete 2 ∧ List.Forall₂ (Pays .payout) walk.spends sampleWinners.zipIdx := by
  have hround : ∀ w ∈ sampleWinners, sampleAddresses.RoundTrip w.pk := fun w _ =>
    (@ready_sample 0 w).roundTrip
  have hout : sampleSettleTx.output 0 = some sampleSettledOutput := rfl
  obtain ⟨cds, start, hcds, -, hall⟩ := resumes_pay sampleChain sampleAddresses rfl
    sampleChain_feeCovers hround (payoutRoot_of_buildable buildable_sampleWinners)
    ⟨rfl, rfl, by decide⟩ (Run.nil PayoutShard.sampleMinted) sample_attest
    hout (Option.some_ne_none _)
  have hshows : Shows sampleEngine (sampleView start) .payout (rootOf sampleEngine sampleWinners)
      start cds [] := by
    rw [Shows, sampleView]
    exact congrArg some (if_pos rfl)
  obtain ⟨walk, hresume, hiff, hpaid⟩ := (hall [] _ (.nil _)).resumes sampleAttempts _ hshows
  have hcomplete : walk.Complete 2 := by
    refine hiff.mpr ⟨fun p hp => ⟨ready_sample p.1, ?_⟩, fun _ => ?_⟩
    · rcases List.mem_pair.mp hp with rfl | rfl
      · decide
      · decide
    · show sumAmounts sampleWinners + 1000 ≤ ((20000000 : Nat) : Int)
      decide
  exact ⟨cds, start, walk, hcds, hresume, hcomplete, hpaid hcomplete⟩

end KANet.Settle.Claims
