import KANet.Covenant.ShardLeafTickets
import KANet.Lib.Runs
import KANet.Settle.Detect

/-!
# A consolidation that was interrupted

Wherever the settler stops, the coin it came to is on the ledger with the leaves that are left, and
what it has spent is not.  Others may have paid to any address since.

* `Underway.turn` — a turn of the loop on the ledger.
* `Underway.findsTip_of_undisturbed` — where nobody else has paid, the settler finds its place.
* `resume_iff` — when an interrupted consolidation comes to the right end.
-/

namespace KANet.Settle

open KANet.Lib KANet.Script KANet.Covenant

variable {env : Env} {leafOutpoint : Nat → Outpoint}

/-! ### A consolidation under way -/

/-- Some shards are taken in, and the others are left.  The `PayoutShard` the settler would have
come to is at the tip, and no other coin carries the covenant. -/
structure Underway (env : Env) (leafOutpoint : Nat → Outpoint) (deadline : Nat) (cov : Bytes32)
    (ps₀ : PsCoin) (genesis : Outpoint) (done left : List ShardRow) (ps : PsCoin) (tip : Outpoint)
    (chain : Chain) : Prop where
  came : done.foldlM (consolidateShard env (deadline * 1000)) ps₀ = .ok ps
  openPs : OpenPs cov ps
  address : ps.coin.scriptPubKey = psScript env ps.consolidated_pool
  pool : ps.consolidated_pool = poolAfter ps₀.consolidated_pool done
  value : ps.coin.value = ps₀.coin.value + leafSum done
  held : ⟨tip, ps.coin⟩ ∈ chain.ledger.unspent
  only : ∀ u ∈ chain.ledger.unspent, u.coin.covenantId = some cov → u.outpoint = tip
  start : done = [] → tip = genesis
  moved : done ≠ [] → ∀ u ∈ chain.ledger.unspent, u.outpoint ≠ genesis
  leaves : ∀ row ∈ left, ⟨leafOutpoint row.shard_index, row.leafCoin⟩ ∈ chain.ledger.unspent
  spent : ∀ row ∈ done, ∀ u ∈ chain.ledger.unspent, u.outpoint ≠ leafOutpoint row.shard_index
  log : chain.consolidated = done.map ShardRow.shard_index
  genesis_old : genesis.transactionId < chain.ledger.next
  leaves_old : ∀ row ∈ done ++ left,
    (leafOutpoint row.shard_index).transactionId < chain.ledger.next
  bare : ∀ row ∈ left, row.leafCoin.covenantId ≠ some cov
  -- no outpoint is in two rows
  apart : ((done ++ left).map fun row => leafOutpoint row.shard_index).Nodup

variable {deadline : Nat} {cov : Bytes32} {rows done left : List ShardRow} {ps₀ ps : PsCoin}
  {genesis tip : Outpoint} {chain : Chain}

theorem consolidateShard_eq_ok {lockTime : Nat} {row : ShardRow} {ps ps' : PsCoin}
    (h : consolidateShard env lockTime ps row = .ok ps') :
    ∃ leaf st tx, row.shard_redeem = some leaf ∧ row.current_leaf_state = some st ∧
      unlockBshardConsolidate env ps row.leafCoin st.pool_value lockTime = .ok tx ∧
        NodeAccepts env ps leaf st tx ∧ ps' = ps.take env st.pool_value := by
  unfold consolidateShard at h
  split at h
  · next leaf st hleaf hst =>
    obtain ⟨tx, htx, h⟩ := bind_eq_ok.mp h
    by_cases ha : NodeAccepts env ps leaf st tx
    · rw [if_pos ha, Except.ok.injEq] at h
      exact ⟨leaf, st, tx, hleaf, hst, htx, ha, h.symm⟩
    · rw [if_neg ha] at h
      cases h
  · cases h

/-- A consolidation spends a coin that carries the market's covenant. -/
theorem covenant_of_turn (hm : Market env deadline cov rows) {row : ShardRow}
    (hrow : row ∈ settledRows rows) {lockTime : Nat} {leafCoin : TxInput} {ps ps' : PsCoin}
    (h : consolidateShard env lockTime ps { row with leafCoin } = .ok ps') :
    ps.coin.covenantId = some cov := by
  obtain ⟨leaf, st, tx, hleaf, hst, htx, ha, -⟩ := consolidateShard_eq_ok h
  obtain ⟨leaf', -, hleaf', -, hcov, -⟩ := hm.rows row hrow
  rw [show row.shard_redeem = some leaf from hleaf, Option.some.injEq] at hleaf'
  obtain ⟨cov', hcov'⟩ : ∃ cov', ps.coin.covenantId = some cov' := by
    cases hc : ps.coin.covenantId with
    | none =>
      simp only [unlockBshardConsolidate, hc] at htx
      cases htx
    | some cov' => exact ⟨cov', rfl⟩
  obtain ⟨hin, -⟩ := unlock_output hcov' htx
  obtain ⟨-, -, psIn, -, hpsIn, -, hcovIn, -⟩ := ShardLeaf.consolidate_eq_some.mp ha.2.2.2
  have h0 : tx.input 0 = some ps.coin := by
    show atIndex tx.inputs 0 = _
    rw [hin]
    rfl
  rw [h0, Option.some.injEq] at hpsIn
  rw [← hpsIn, hcov', Option.getD_some, hleaf', hcov] at hcovIn
  rw [hcov', hcovIn]

theorem leafSum_append (a b : List ShardRow) : leafSum (a ++ b) = leafSum a + leafSum b := by
  rw [leafSum, leafSum, leafSum, List.map_append, List.sum_append]

theorem take_address (env : Env) (ps : PsCoin) (pool_value : Int) :
    (ps.take env pool_value).coin.scriptPubKey =
      psScript env (ps.take env pool_value).consolidated_pool := rfl

/-- **A turn on the ledger.** -/
theorem Underway.turn (hm : Market env deadline cov rows) {row : ShardRow}
    (h : Underway env leafOutpoint deadline cov ps₀ genesis done (row :: left) ps tip chain)
    (hrow : row ∈ settledRows rows) (hw : Welded row)
    (hsupply : ps₀.coin.value + leafSum (done ++ [row]) + 30000000 < 2 ^ 63) :
    ∃ ps' tip' chain',
      consolidateOn env leafOutpoint (deadline * 1000) (⟨tip, ps.consolidated_pool⟩, chain) row =
          .ok (⟨tip', ps'.consolidated_pool⟩, chain') ∧
        Underway env leafOutpoint deadline cov ps₀ genesis (done ++ [row]) left ps' tip'
          chain' := by
  have hsum : leafSum (done ++ [row]) = leafSum done + row.leafCoin.value := leafSum_append _ _
  have hvalue := h.value
  obtain ⟨ps', hturn, hopen, hval⟩ := hm.turn hrow hw h.openPs (by omega)
  obtain ⟨leaf, st, tx, hleaf, hst, -, -, htake⟩ := consolidateShard_eq_ok hturn
  have hheld := h.held
  have hrowHeld := h.leaves row List.mem_cons_self
  have hps := matchUtxo_eq_some.mpr ⟨hheld, h.address, rfl⟩
  have hlf := matchUtxo_eq_some.mpr ⟨hrowHeld, rfl, rfl⟩
  have hold := h.leaves_old
  have hapart := h.apart
  refine ⟨ps', chain.ledger.nextOutpoint, ⟨chain.ledger.post
    [tip, leafOutpoint row.shard_index] ps'.coin, chain.consolidated ++ [row.shard_index]⟩, ?_, ?_⟩
  · rw [consolidateOn, check, if_pos ⟨by rw [hleaf]; rfl, by rw [hst]; rfl⟩, hps, hlf]
    show Except.mapError _ (consolidateShard env (deadline * 1000) ps row) >>= _ = _
    rw [hturn]
    rfl
  · refine
      { came := ?_
        openPs := hopen
        address := ?_
        pool := ?_
        value := ?_
        held := Ledger.mem_post.mpr (Or.inl rfl)
        only := ?_
        start := fun h => absurd h (List.append_ne_nil_of_right_ne_nil _ (List.cons_ne_nil _ _))
        moved := ?_
        leaves := ?_
        spent := ?_
        log := ?_
        genesis_old := Nat.lt_succ_of_lt h.genesis_old
        leaves_old := ?_
        bare := fun r hr => h.bare r (List.mem_cons_of_mem _ hr)
        apart := ?_ }
    · rw [List.foldlM_append, h.came]
      show (consolidateShard env (deadline * 1000) ps row >>= fun p => .ok p) = .ok ps'
      rw [hturn]
      rfl
    · rw [htake]
      exact take_address env ps _
    · rw [htake]
      show ps.consolidated_pool + st.pool_value = _
      rw [h.pool, poolAfter, poolAfter, List.map_append, List.sum_append, List.map_singleton,
        List.sum_singleton, leafPool, hst, add_assoc]
      rfl
    · rw [hval, hvalue, hsum, Nat.add_assoc]
    · intro u hu hcov
      rcases Ledger.mem_post.mp hu with rfl | hu
      · rfl
      · exact absurd (h.only u hu.1 hcov ▸ List.mem_cons_self) hu.2
    · intro _ u hu
      rcases Ledger.mem_post.mp hu with rfl | ⟨hu, hnot⟩
      · intro he
        have := h.genesis_old
        rw [← he] at this
        exact absurd this (lt_irrefl _)
      · by_cases hd : done = []
        · rw [← h.start hd]
          exact fun he => hnot (he ▸ List.mem_cons_self)
        · exact h.moved hd u hu
    · intro r hr
      refine Ledger.mem_post.mpr (Or.inr ⟨h.leaves r (List.mem_cons_of_mem _ hr), ?_⟩)
      intro hmem
      rcases List.mem_pair.mp hmem with he | he
      · -- the coin at the tip carries the covenant, a leaf does not
        have hsame := Ledger.eq_of_outpoint (h.leaves r (List.mem_cons_of_mem _ hr)) hheld he
        have hcoin : r.leafCoin = ps.coin := congrArg Unspent.coin hsame
        exact h.bare r (List.mem_cons_of_mem _ hr) (hcoin ▸ h.openPs.covenant)
      · rw [List.map_append, List.map_cons] at hapart
        have hnot := (List.nodup_cons.mp (List.nodup_append.mp hapart).2.1).1
        exact hnot (List.mem_map.mpr ⟨r, hr, he⟩)
    · intro r hr u hu
      rcases Ledger.mem_post.mp hu with rfl | ⟨hu, hnot⟩
      · intro he
        have hmem : r ∈ done ++ row :: left := by
          rw [List.append_cons]
          exact List.mem_append_left _ hr
        have := hold r hmem
        rw [← he] at this
        exact absurd this (lt_irrefl _)
      · rcases List.mem_append.mp hr with hr | hr
        · exact h.spent r hr u hu
        · rw [List.mem_singleton.mp hr]
          exact fun he => hnot (he ▸ List.mem_cons_of_mem _ List.mem_cons_self)
    · rw [h.log, List.map_append]
      rfl
    · intro r hr
      rw [List.append_assoc] at hr
      exact Nat.lt_succ_of_lt (hold r hr)
    · rw [List.append_assoc]
      exact hapart

/-- Coins of others change nothing for the settler. -/
theorem Underway.receive
    (h : Underway env leafOutpoint deadline cov ps₀ genesis done left ps tip chain)
    {coin : TxInput} (hcoin : coin.covenantId ≠ some cov) :
    Underway env leafOutpoint deadline cov ps₀ genesis done left ps tip
      { chain with ledger := chain.ledger.receive coin } where
  came := h.came
  openPs := h.openPs
  address := h.address
  pool := h.pool
  value := h.value
  held := Ledger.mem_receive.mpr (Or.inr h.held)
  only := by
    intro u hu hcov
    rcases Ledger.mem_receive.mp hu with rfl | hu
    · exact absurd hcov hcoin
    · exact h.only u hu hcov
  start := h.start
  moved := by
    intro hd u hu
    rcases Ledger.mem_receive.mp hu with rfl | hu
    · intro he
      have := h.genesis_old
      rw [← he] at this
      exact absurd this (lt_irrefl _)
    · exact h.moved hd u hu
  leaves := fun row hrow => Ledger.mem_receive.mpr (Or.inr (h.leaves row hrow))
  spent := by
    intro row hrow u hu
    rcases Ledger.mem_receive.mp hu with rfl | hu
    · intro he
      have := h.leaves_old row (List.mem_append_left _ hrow)
      rw [← he] at this
      exact absurd this (lt_irrefl _)
    · exact h.spent row hrow u hu
  log := h.log
  genesis_old := Nat.lt_succ_of_lt h.genesis_old
  leaves_old := fun row hrow => Nat.lt_succ_of_lt (h.leaves_old row hrow)
  bare := h.bare
  apart := h.apart

/-- The settler gets through the shards that are left. -/
theorem Underway.finish (hm : Market env deadline cov rows)
    (h : Underway env leafOutpoint deadline cov ps₀ genesis done left ps tip chain)
    (hl : ∀ row ∈ left, row ∈ settledRows rows ∧ Welded row)
    (hsupply : ps₀.coin.value + leafSum (done ++ left) + 30000000 < 2 ^ 63) :
    ∃ ps' tip' chain',
      left.foldlM (consolidateOn env leafOutpoint (deadline * 1000))
          (⟨tip, ps.consolidated_pool⟩, chain) = .ok (⟨tip', ps'.consolidated_pool⟩, chain') ∧
        Underway env leafOutpoint deadline cov ps₀ genesis (done ++ left) [] ps' tip' chain' := by
  induction left generalizing done ps tip chain with
  | nil => exact ⟨ps, tip, chain, rfl, by rwa [List.append_nil]⟩
  | cons row left ih =>
    obtain ⟨hrow, hw⟩ := hl row List.mem_cons_self
    have hsplit : done ++ row :: left = (done ++ [row]) ++ left := List.append_cons _ _ _
    have hone : leafSum (done ++ [row]) ≤ leafSum (done ++ row :: left) := by
      rw [hsplit, leafSum_append _ left]
      exact Nat.le_add_right _ _
    obtain ⟨ps₁, tip₁, chain₁, hturn, h₁⟩ := h.turn hm hrow hw (by omega)
    rw [hsplit] at hsupply
    obtain ⟨ps₂, tip₂, chain₂, hrest, h₂⟩ :=
      ih h₁ (fun r hr => hl r (List.mem_cons_of_mem _ hr)) hsupply
    refine ⟨ps₂, tip₂, chain₂, ?_, ?_⟩
    · rw [List.foldlM_cons, hturn]
      exact hrest
    · rwa [hsplit]

/-! ### Taking it up again -/

/-- The places before the tip look empty, and at the tip there is nothing else; or nothing is
consolidated yet, and no later place looks taken. -/
structure FindsTip (env : Env) (l : Ledger TxInput) (pool : Int) (tip : Outpoint)
    (done left : List ShardRow) : Prop where
  before : ∀ p q, done = p ++ q → q ≠ [] → candidate env l pool p = none
  alone : (∃ u, getUtxos l (psScript env (poolAfter pool done)) = [u] ∧ u.outpoint = tip) ∨
    (done = [] ∧ ∀ p q, left = p ++ q → p ≠ [] → candidate env l pool p = none)

/-- The whole pool is in the `PayoutShard` that an uninterrupted settler would have come to, and
each shard was taken in once. -/
def EndsRight (env : Env) (leafOutpoint : Nat → Outpoint) (deadline : Nat) (rows : List ShardRow)
    (ps₀ : PsCoin) (genesis : Outpoint) (chain : Chain) : Prop :=
  ∃ psEnd o chain',
    consolidateAllShards env deadline ps₀ rows = .ok psEnd ∧
      psEnd.consolidated_pool = poolAfter ps₀.consolidated_pool (settledRows rows) ∧
      consolidateAllShardsOn env leafOutpoint deadline ⟨genesis, ps₀.consolidated_pool⟩ chain rows =
          .ok (⟨o, psEnd.consolidated_pool⟩, chain') ∧
        ⟨o, psEnd.coin⟩ ∈ chain'.ledger.unspent ∧
          chain'.consolidated = (settledRows rows).map ShardRow.shard_index ∧
            ∀ row ∈ settledRows rows, ∀ u ∈ chain'.ledger.unspent,
              u.outpoint ≠ leafOutpoint row.shard_index

theorem sorted_settledRows (rows : List ShardRow) :
    (settledRows rows).Pairwise fun a b => a.shard_index ≤ b.shard_index := by
  have h := @List.pairwise_mergeSort ShardRow
    (fun a b : ShardRow => decide (a.shard_index ≤ b.shard_index))
    (by intro a b c hab hbc; simp only [decide_eq_true_eq] at *; omega)
    (by intro a b; simp only [Bool.or_eq_true, decide_eq_true_eq]; omega)
    (rows.filter fun r => r.status ≠ .manual_recovery_refunded)
  exact h.imp fun h => of_decide_eq_true h

/-- Past a shard come those after it. -/
theorem filter_past {p q : List ShardRow} {row : ShardRow}
    (hsorted : (p ++ row :: q).Pairwise fun a b => a.shard_index ≤ b.shard_index)
    (hunique : ((p ++ row :: q).map ShardRow.shard_index).Nodup) :
    (p ++ row :: q).filter (fun r => row.shard_index + 1 ≤ r.shard_index) = q := by
  obtain ⟨-, hrest, hcross⟩ := List.pairwise_append.mp hsorted
  have hlater := (List.pairwise_cons.mp hrest).1
  rw [List.map_append, List.map_cons] at hunique
  have hnot := (List.nodup_cons.mp (List.nodup_append.mp hunique).2.1).1
  rw [List.filter_append, List.filter_cons_of_neg (by simp)]
  have hp : p.filter (fun r => row.shard_index + 1 ≤ r.shard_index) = [] := by
    rw [List.filter_eq_nil_iff]
    intro r hr
    have := hcross r hr row List.mem_cons_self
    simp only [decide_eq_true_eq]
    omega
  have hq : q.filter (fun r => row.shard_index + 1 ≤ r.shard_index) = q := by
    rw [List.filter_eq_self]
    intro r hr
    have hle := hlater r hr
    have hne : r.shard_index ≠ row.shard_index := fun he => hnot (List.mem_map.mpr ⟨r, hr, he⟩)
    simp only [decide_eq_true_eq]
    omega
  rw [hp, hq, List.nil_append]

/-- The coin at the tip lies at the address of its pool, and is worth it. -/
theorem Underway.at_tip
    (h : Underway env leafOutpoint deadline cov ps₀ genesis done left ps tip chain) :
    ⟨tip, ps.coin⟩ ∈ getUtxos chain.ledger
        (psScript env (poolAfter ps₀.consolidated_pool done)) ∧
      (ps.coin.value : Int) = poolAfter ps₀.consolidated_pool done := by
  rw [← h.pool]
  exact ⟨mem_getUtxos.mpr ⟨h.held, h.address⟩, h.openPs.value⟩

theorem Underway.candidate_of_alone
    (h : Underway env leafOutpoint deadline cov ps₀ genesis done left ps tip chain)
    {u : Unspent TxInput}
    (hu : getUtxos chain.ledger (psScript env (poolAfter ps₀.consolidated_pool done)) = [u]) :
    u = ⟨tip, ps.coin⟩ ∧ candidate env chain.ledger ps₀.consolidated_pool done = some u := by
  obtain ⟨hmem, hval⟩ := h.at_tip
  rw [hu, List.mem_singleton] at hmem
  rw [← hmem]
  exact ⟨rfl, soleExact_eq_some.mpr ⟨hmem ▸ hu, hval⟩⟩

/-- From the tip on the settler comes to the right end. -/
theorem Underway.endsRight (hm : Market env deadline cov rows)
    (h : Underway env leafOutpoint deadline cov ps₀ genesis done left ps tip chain)
    (hsplit : settledRows rows = done ++ left) (hw : EveryShardHasTicket rows)
    (hsupply : ps₀.coin.value + leafSum (settledRows rows) + 30000000 < 2 ^ 63)
    (hrem : remaining (autoDetectConsolidateResume env chain.ledger ps₀.consolidated_pool rows)
      rows = left)
    (htip : (autoDetectConsolidateResume env chain.ledger ps₀.consolidated_pool rows).elim
      ⟨genesis, ps₀.consolidated_pool⟩ Resume.tip = ⟨tip, ps.consolidated_pool⟩) :
    EndsRight env leafOutpoint deadline rows ps₀ genesis chain := by
  have hpos : deadline ≠ 0 := hm.deadline_pos.ne'
  have hl : ∀ row ∈ left, row ∈ settledRows rows ∧ Welded row := by
    intro row hrow
    have hmem : row ∈ settledRows rows := by
      rw [hsplit]
      exact List.mem_append_right _ hrow
    exact ⟨hmem, hm.welded_iff.mpr hw row hmem⟩
  rw [hsplit] at hsupply
  obtain ⟨ps', tip', chain', hrun, hend⟩ := h.finish hm hl hsupply
  rw [← hsplit] at hend
  refine ⟨ps', tip', chain', ?_, hend.pool, ?_, hend.held, hend.log, hend.spent⟩
  · rw [consolidateAllShards, if_neg hpos]
    exact hend.came
  · show (check (deadline ≠ 0) _ >>= fun _ => _) = _
    rw [check, if_pos hpos, hrem, htip]
    exact hrun

/-- **Where the tip is found, the end is right.** -/
theorem Underway.endsRight_of_findsTip (hm : Market env deadline cov rows)
    (h : Underway env leafOutpoint deadline cov ps₀ genesis done left ps tip chain)
    (hsplit : settledRows rows = done ++ left) (hw : EveryShardHasTicket rows)
    (hunique : ((settledRows rows).map ShardRow.shard_index).Nodup)
    (hsupply : ps₀.coin.value + leafSum (settledRows rows) + 30000000 < 2 ^ 63)
    (hf : FindsTip env chain.ledger ps₀.consolidated_pool tip done left) :
    EndsRight env leafOutpoint deadline rows ps₀ genesis chain := by
  have hpool := h.pool
  rcases List.eq_nil_or_concat' done with rfl | ⟨p, row, rfl⟩
  · -- nothing is consolidated yet
    rw [poolAfter_nil] at hpool
    have hnone : autoDetectConsolidateResume env chain.ledger ps₀.consolidated_pool rows =
        none := by
      apply autoDetect_eq_none.mpr
      rcases hf.alone with ⟨u, hu, -⟩ | ⟨-, hlater⟩
      · refine Or.inl ?_
        rw [(h.candidate_of_alone hu).2]
        nofun
      · refine Or.inr (detectFrom_eq_none.mpr fun p q hpq hp => hlater p q ?_ hp)
        rw [← hpq, hsplit, List.nil_append]
    refine h.endsRight hm hsplit hw hsupply ?_ ?_
    · rw [hnone]
      exact hsplit
    · rw [hnone, h.start rfl, hpool]
      rfl
  · rcases hf.alone with ⟨u, hu, htip⟩ | ⟨hnil, -⟩
    · obtain ⟨-, hcand⟩ := h.candidate_of_alone hu
      have hsome : autoDetectConsolidateResume env chain.ledger ps₀.consolidated_pool rows =
          some ⟨row.shard_index + 1, ⟨u.outpoint,
            poolAfter ps₀.consolidated_pool (p ++ [row])⟩⟩ := by
        refine autoDetect_eq_some.mpr ⟨hf.before [] _ rfl
          (List.append_ne_nil_of_right_ne_nil _ (List.cons_ne_nil _ _)), ?_⟩
        refine detectFrom_eq_some.mpr ⟨p, row, left, u, ?_, ?_, hcand, rfl⟩
        · rw [hsplit, List.append_assoc]
          rfl
        · intro p' q' hp _
          refine hf.before p' (q' ++ [row]) ?_
            (List.append_ne_nil_of_right_ne_nil _ (List.cons_ne_nil _ _))
          rw [hp, List.append_assoc]
      refine h.endsRight hm hsplit hw hsupply ?_ ?_
      · have hrows : settledRows rows = p ++ row :: left := by
          rw [hsplit, List.append_assoc]
          rfl
        have hsorted := sorted_settledRows rows
        rw [hrows] at hsorted hunique
        rw [hsome, remaining, hrows]
        exact filter_past hsorted hunique
      · rw [hsome, hpool, htip]
        rfl
    · exact absurd hnil (List.append_ne_nil_of_right_ne_nil _ (List.cons_ne_nil _ _))

/-- What a turn must find on the ledger. -/
theorem turn_needs (hm : Market env deadline cov rows) {row : ShardRow}
    (hrow : row ∈ settledRows rows) {lockTime : Nat} {t : Tip} {s : Tip × Chain}
    (h : consolidateOn env leafOutpoint lockTime (t, chain) row = .ok s) :
    (∃ u ∈ chain.ledger.unspent, u.outpoint = t.outpoint ∧ u.coin.covenantId = some cov) ∧
      ∃ u ∈ chain.ledger.unspent, u.outpoint = leafOutpoint row.shard_index := by
  simp only [consolidateOn, bind_eq_ok, check_eq_ok, orRefuse_eq_ok, mapError_eq_ok,
    exists_const] at h
  obtain ⟨-, psu, hpsu, leaf, hleaf, next, hnext, -⟩ := h
  obtain ⟨hmem, -, ho⟩ := matchUtxo_eq_some.mp hpsu
  obtain ⟨hmem', -, ho'⟩ := matchUtxo_eq_some.mp hleaf
  exact ⟨⟨psu, hmem, ho, covenant_of_turn hm hrow hnext⟩, leaf, hmem', ho'⟩

theorem init_of_append {α : Type} {p a b : List α} {x : α} (h : p ++ [x] = a ++ b)
    (hb : b ≠ []) : ∃ c, p = a ++ c := by
  rcases List.eq_nil_or_concat' b with rfl | ⟨c, y, rfl⟩
  · exact absurd rfl hb
  · rw [← List.append_assoc] at h
    exact ⟨c, (List.append_inj' h rfl).1⟩

theorem findsTip_of_found
    (h : Underway env leafOutpoint deadline cov ps₀ genesis done left ps tip chain)
    (hfirst : candidate env chain.ledger ps₀.consolidated_pool [] = none) {p : List ShardRow}
    {row : ShardRow} {u : Unspent TxInput} (hdone : done = p ++ [row])
    (hnone : ∀ p' q', p = p' ++ q' → p' ≠ [] →
      candidate env chain.ledger ps₀.consolidated_pool p' = none)
    (hu : candidate env chain.ledger ps₀.consolidated_pool (p ++ [row]) = some u) :
    FindsTip env chain.ledger ps₀.consolidated_pool tip done left := by
  refine ⟨?_, Or.inl ⟨u, ?_, ?_⟩⟩
  · intro p' q' hsplit hq
    by_cases hp : p' = []
    · rw [hp]
      exact hfirst
    · rw [hdone] at hsplit
      obtain ⟨c, hc⟩ := init_of_append hsplit hq
      exact hnone p' c hc hp
  · rw [hdone]
    exact (soleExact_eq_some.mp hu).1
  · rw [← hdone] at hu
    rw [(h.candidate_of_alone (soleExact_eq_some.mp hu).1).1]

/-- **Where the end is right, the tip was found.** -/
theorem Underway.findsTip_of_endsRight (hm : Market env deadline cov rows)
    (h : Underway env leafOutpoint deadline cov ps₀ genesis done left ps tip chain)
    (hsplit : settledRows rows = done ++ left)
    (hunique : ((settledRows rows).map ShardRow.shard_index).Nodup)
    (he : EndsRight env leafOutpoint deadline rows ps₀ genesis chain) :
    FindsTip env chain.ledger ps₀.consolidated_pool tip done left := by
  obtain ⟨psEnd, o, chain', -, -, hrun, -, hlog, -⟩ := he
  obtain ⟨-, -, hrun⟩ := bind_eq_ok.mp hrun
  have hin : ∀ row ∈ done ++ left, row ∈ settledRows rows := fun row hrow => hsplit ▸ hrow
  cases hr : autoDetectConsolidateResume env chain.ledger ps₀.consolidated_pool rows with
  | none =>
    cases hd : done with
    | nil =>
      refine ⟨fun p q hpq hq => absurd (List.append_eq_nil_iff.mp hpq.symm).2 hq, ?_⟩
      rcases autoDetect_eq_none.mp hr with hcand | hnone
      · obtain ⟨u, hu⟩ := Option.ne_none_iff_exists'.mp hcand
        rw [← hd] at hu
        have hone := (soleExact_eq_some.mp hu).1
        rw [← hd]
        exact Or.inl ⟨u, hone, by rw [(h.candidate_of_alone hone).1]⟩
      · refine Or.inr ⟨rfl, fun p q hpq hp => detectFrom_eq_none.mp hnone p q ?_ hp⟩
        rw [hsplit, hd, hpq, List.nil_append]
    | cons row rest =>
      -- the coin in the database is spent
      have hrows : settledRows rows = row :: (rest ++ left) := by
        rw [hsplit, hd]
        rfl
      rw [hr, remaining, hrows, List.foldlM_cons] at hrun
      obtain ⟨s, hturn, -⟩ := bind_eq_ok.mp hrun
      have hrow : row ∈ settledRows rows := by
        rw [hrows]
        exact List.mem_cons_self
      obtain ⟨⟨u, hu, ho, -⟩, -⟩ := turn_needs hm hrow hturn
      exact absurd ho (h.moved (by rw [hd]; nofun) u hu)
  | some r =>
    obtain ⟨hfirst, hfound⟩ := autoDetect_eq_some.mp hr
    obtain ⟨p, row, q, u, hrows, hnone, hu, rfl⟩ := detectFrom_eq_some.mp hfound
    have hsorted := sorted_settledRows rows
    rw [hrows] at hsorted hunique
    rw [hr, remaining, hrows, filter_past hsorted hunique] at hrun
    have hparts : done ++ left = (p ++ [row]) ++ q := by
      rw [← hsplit, hrows, List.append_assoc]
      rfl
    have hqin : ∀ r ∈ q, r ∈ settledRows rows := by
      intro r hr
      rw [hrows]
      exact List.mem_append_right _ (List.mem_cons_of_mem _ hr)
    rcases List.append_eq_append_iff.mp hparts with ⟨c, hc, hleft⟩ | ⟨c, hc, hq⟩
    · -- a place that the settler has not come to
      by_cases hnil : c = []
      · rw [hnil, List.append_nil] at hc
        exact findsTip_of_found h hfirst hc.symm hnone hu
      cases hqs : q with
      | nil =>
        rw [hqs] at hrun
        obtain ⟨-, hsame⟩ := Prod.mk.inj (Except.ok.inj hrun)
        rw [← hsame, h.log, hsplit] at hlog
        have hlen := congrArg List.length hlog
        rw [List.length_map, List.length_map, List.length_append, hleft, hqs, List.append_nil]
          at hlen
        have := List.length_pos_iff.mpr hnil
        omega
      | cons r rest =>
        rw [hqs, List.foldlM_cons] at hrun
        obtain ⟨s, hturn, -⟩ := bind_eq_ok.mp hrun
        obtain ⟨⟨v, hv, hvo, hvcov⟩, -⟩ := turn_needs hm (hqin r (by rw [hqs]; simp)) hturn
        have htip : u.outpoint = tip := hvo.symm.trans (h.only v hv hvcov)
        obtain ⟨hone, hval⟩ := soleExact_eq_some.mp hu
        have humem : u ∈ chain.ledger.unspent :=
          (mem_getUtxos.mp (hone ▸ List.mem_singleton_self u)).1
        have hcoin : u = ⟨tip, ps.coin⟩ := Ledger.eq_of_outpoint humem h.held htip
        have hsamePool : poolAfter ps₀.consolidated_pool done =
            poolAfter ps₀.consolidated_pool (p ++ [row]) := by
          rw [← h.at_tip.2, ← hval, hcoin]
        have hcand : candidate env chain.ledger ps₀.consolidated_pool done = some u := by
          rw [candidate, hsamePool]
          exact hu
        by_cases hd : done = []
        · rw [hd, hfirst] at hcand
          cases hcand
        · obtain ⟨c', hc'⟩ := init_of_append hc hnil
          rw [hnone done c' hc' hd] at hcand
          cases hcand
    · -- a place that the settler has left behind
      cases c with
      | nil =>
        rw [List.append_nil] at hc
        exact findsTip_of_found h hfirst hc hnone hu
      | cons r rest =>
        rw [hq, List.cons_append, List.foldlM_cons] at hrun
        obtain ⟨s, hturn, -⟩ := bind_eq_ok.mp hrun
        have hrdone : r ∈ done := by
          rw [hc]
          exact List.mem_append_right _ List.mem_cons_self
        obtain ⟨-, v, hv, hvo⟩ := turn_needs hm (hin r (List.mem_append_left _ hrdone)) hturn
        exact absurd hvo (h.spent r hrdone v hv)

/-- **Undisturbed, the tip is found**: nobody has paid to a place of the `PayoutShard`'s, and every
shard brings something. -/
theorem Underway.findsTip_of_undisturbed
    (h : Underway env leafOutpoint deadline cov ps₀ genesis done left ps tip chain)
    (hpos : ∀ row ∈ done, 0 < leafPool row)
    (hclean : ∀ p q, done ++ left = p ++ q → ∀ u ∈ chain.ledger.unspent,
      u.coin.scriptPubKey = psScript env (poolAfter ps₀.consolidated_pool p) → u.outpoint = tip) :
    FindsTip env chain.ledger ps₀.consolidated_pool tip done left := by
  have hat := h.at_tip
  refine ⟨?_, Or.inl ⟨⟨tip, ps.coin⟩, ?_, rfl⟩⟩
  · intro p q hpq hq
    rw [Option.eq_none_iff_forall_ne_some]
    intro u hu
    obtain ⟨hone, hval⟩ := soleExact_eq_some.mp hu
    obtain ⟨hmem, hscript⟩ := mem_getUtxos.mp (hone ▸ List.mem_singleton_self u)
    have htip := hclean p (q ++ left) (by rw [hpq, List.append_assoc]) u hmem hscript
    rw [Ledger.eq_of_outpoint hmem h.held htip, hat.2, hpq, poolAfter, poolAfter, List.map_append,
      List.sum_append] at hval
    have hqpos : 0 < (q.map leafPool).sum := by
      apply List.sum_pos
      · intro n hn
        obtain ⟨row, hrow, rfl⟩ := List.mem_map.mp hn
        exact hpos row (by rw [hpq]; exact List.mem_append_right _ hrow)
      · simpa using hq
    omega
  · have hall : ∀ u ∈ getUtxos chain.ledger
        (psScript env (poolAfter ps₀.consolidated_pool done)), u = ⟨tip, ps.coin⟩ := by
      intro u hu
      obtain ⟨hmem, hscript⟩ := mem_getUtxos.mp hu
      exact Ledger.eq_of_outpoint hmem h.held (hclean done left rfl u hmem hscript)
    have hnodup : (getUtxos chain.ledger
        (psScript env (poolAfter ps₀.consolidated_pool done))).Nodup :=
      (chain.ledger.unique.of_map _).filter _
    apply List.Perm.eq_singleton
    rw [List.perm_ext_iff_of_nodup hnodup (List.nodup_singleton _)]
    intro u
    rw [List.mem_singleton]
    exact ⟨hall u, fun he => he ▸ hat.1⟩

/-! ### Interrupted anywhere -/

inductive Event
  | land
  | receive (coin : TxInput)

/-- A settler that has come so far. -/
structure Interrupted where
  tip : Tip
  chain : Chain
  left : List ShardRow

/-- A consolidation lands, or somebody pays to some address.  The covenant is only passed on by the
coin that carries it. -/
inductive Progress (env : Env) (leafOutpoint : Nat → Outpoint) (deadline : Nat) (cov : Bytes32)
    (s : Interrupted) : Event → Interrupted → Prop
  | land (row : ShardRow) (rest : List ShardRow) (hleft : s.left = row :: rest) (tip : Tip)
      (chain : Chain)
      (h : consolidateOn env leafOutpoint (deadline * 1000) (s.tip, s.chain) row =
        .ok (tip, chain)) :
      Progress env leafOutpoint deadline cov s .land ⟨tip, chain, rest⟩
  | receive (coin : TxInput) (hcoin : coin.covenantId ≠ some cov) :
      Progress env leafOutpoint deadline cov s (.receive coin)
        { s with chain := { s.chain with ledger := s.chain.ledger.receive coin } }

/-- The ledger before the first consolidation: the `PayoutShard` and the leaves are there. -/
structure Begun (env : Env) (leafOutpoint : Nat → Outpoint) (cov : Bytes32) (ps₀ : PsCoin)
    (genesis : Outpoint) (rows : List ShardRow) (chain : Chain) : Prop where
  openPs : OpenPs cov ps₀
  address : ps₀.coin.scriptPubKey = psScript env ps₀.consolidated_pool
  held : ⟨genesis, ps₀.coin⟩ ∈ chain.ledger.unspent
  only : ∀ u ∈ chain.ledger.unspent, u.coin.covenantId = some cov → u.outpoint = genesis
  leaves : ∀ row ∈ settledRows rows,
    ⟨leafOutpoint row.shard_index, row.leafCoin⟩ ∈ chain.ledger.unspent
  bare : ∀ row ∈ settledRows rows, row.leafCoin.covenantId ≠ some cov
  log : chain.consolidated = []
  unique : ((settledRows rows).map ShardRow.shard_index).Nodup
  apart : ((settledRows rows).map fun row => leafOutpoint row.shard_index).Nodup

theorem Begun.underway (h : Begun env leafOutpoint cov ps₀ genesis rows chain) :
    Underway env leafOutpoint deadline cov ps₀ genesis [] (settledRows rows) ps₀ genesis chain where
  came := rfl
  openPs := h.openPs
  address := h.address
  pool := (poolAfter_nil _).symm
  value := rfl
  held := h.held
  only := h.only
  start := fun _ => rfl
  moved := fun h => absurd rfl h
  leaves := h.leaves
  spent := nofun
  log := h.log
  genesis_old := chain.ledger.fresh _ h.held
  leaves_old := fun row hrow => chain.ledger.fresh _ (h.leaves row hrow)
  bare := h.bare
  apart := h.apart

/-- What holds of a settler wherever it is interrupted. -/
def Midway (env : Env) (leafOutpoint : Nat → Outpoint) (deadline : Nat) (cov : Bytes32)
    (ps₀ : PsCoin) (genesis : Outpoint) (rows : List ShardRow) (s : Interrupted) : Prop :=
  ∃ done ps, settledRows rows = done ++ s.left ∧ s.tip.pool = ps.consolidated_pool ∧
    Underway env leafOutpoint deadline cov ps₀ genesis done s.left ps s.tip.outpoint s.chain

theorem Midway.step (hm : Market env deadline cov rows) (hw : EveryShardHasTicket rows)
    (hsupply : ps₀.coin.value + leafSum (settledRows rows) + 30000000 < 2 ^ 63)
    {s s' : Interrupted} {ev : Event}
    (hs : Midway env leafOutpoint deadline cov ps₀ genesis rows s)
    (h : Progress env leafOutpoint deadline cov s ev s') :
    Midway env leafOutpoint deadline cov ps₀ genesis rows s' := by
  obtain ⟨done, ps, hsplit, hpool, hu⟩ := hs
  cases h with
  | land row rest hleft tip chain hturn =>
    rw [hleft] at hu hsplit
    have hcut : settledRows rows = (done ++ [row]) ++ rest := by
      rw [hsplit, List.append_cons]
    have hrow : row ∈ settledRows rows := by
      rw [hsplit]
      exact List.mem_append_right _ List.mem_cons_self
    rw [hcut, leafSum_append] at hsupply
    obtain ⟨ps', tip', chain', hturn', hu'⟩ :=
      hu.turn hm hrow (hm.welded_iff.mpr hw row hrow) (by omega)
    rw [← hpool, hturn, Except.ok.injEq, Prod.mk.injEq] at hturn'
    obtain ⟨rfl, rfl⟩ := hturn'
    exact ⟨done ++ [row], ps', hcut, rfl, hu'⟩
  | receive coin hcoin => exact ⟨done, ps, hsplit, hpool, hu.receive hcoin⟩

theorem midway (hm : Market env deadline cov rows) (hw : EveryShardHasTicket rows)
    (hb : Begun env leafOutpoint cov ps₀ genesis rows chain)
    (hsupply : ps₀.coin.value + leafSum (settledRows rows) + 30000000 < 2 ^ 63)
    {evs : List Event} {s : Interrupted}
    (hr : Run (Progress env leafOutpoint deadline cov)
      ⟨⟨genesis, ps₀.consolidated_pool⟩, chain, settledRows rows⟩ evs s) :
    Midway env leafOutpoint deadline cov ps₀ genesis rows s := by
  have keep : ∀ s ev s', Midway env leafOutpoint deadline cov ps₀ genesis rows s →
      Progress env leafOutpoint deadline cov s ev s' →
        Midway env leafOutpoint deadline cov ps₀ genesis rows s' :=
    fun _ _ _ hs h => hs.step hm hw hsupply h
  exact hr.invariant keep ⟨[], ps₀, rfl, rfl, hb.underway⟩

theorem Midway.endsRight_iff (hm : Market env deadline cov rows) (hw : EveryShardHasTicket rows)
    (hunique : ((settledRows rows).map ShardRow.shard_index).Nodup)
    (hsupply : ps₀.coin.value + leafSum (settledRows rows) + 30000000 < 2 ^ 63) {s : Interrupted}
    (hs : Midway env leafOutpoint deadline cov ps₀ genesis rows s) :
    EndsRight env leafOutpoint deadline rows ps₀ genesis s.chain ↔
      ∃ done, settledRows rows = done ++ s.left ∧
        FindsTip env s.chain.ledger ps₀.consolidated_pool s.tip.outpoint done s.left := by
  obtain ⟨done, ps, hsplit, -, hu⟩ := hs
  constructor
  · exact fun he => ⟨done, hsplit, hu.findsTip_of_endsRight hm hsplit hunique he⟩
  · intro h
    obtain ⟨done', hsplit', hf⟩ := h
    obtain rfl : done' = done := List.append_cancel_right (hsplit'.symm.trans hsplit)
    exact hu.endsRight_of_findsTip hm hsplit hw hunique hsupply hf

/-- **Interrupted anywhere, the settler comes to the right end exactly when it finds the tip**:
when no place before it looks taken and nothing else lies at its address. -/
theorem resume_iff (hm : Market env deadline cov rows) (hw : EveryShardHasTicket rows)
    (hb : Begun env leafOutpoint cov ps₀ genesis rows chain)
    (hsupply : ps₀.coin.value + leafSum (settledRows rows) + 30000000 < 2 ^ 63)
    {evs : List Event} {s : Interrupted}
    (hr : Run (Progress env leafOutpoint deadline cov)
      ⟨⟨genesis, ps₀.consolidated_pool⟩, chain, settledRows rows⟩ evs s) :
    EndsRight env leafOutpoint deadline rows ps₀ genesis s.chain ↔
      ∃ done, settledRows rows = done ++ s.left ∧
        FindsTip env s.chain.ledger ps₀.consolidated_pool s.tip.outpoint done s.left :=
  (midway hm hw hb hsupply hr).endsRight_iff hm hw hb.unique hsupply

/-! ### A shard with one bet -/

/-- A bet on the second side, and its ticket. -/
def ticketTx : Tx :=
  sampleTx [covenantOutput sampleEngine Covenant.sampleShard.template
      (ShardLeaf.genesis.state.bump 1 100000).fields 100000 none,
    covenantOutput sampleEngine ⟨[], []⟩
      (ShardLeaf.ticketFields Covenant.sampleShard (samplePk 4) 1 100000) 20000000 none] (by decide)

def ticketWitness : ShardLeaf.RegisterWitness where
  side := 1
  stake := 100000
  leafOutIdx := 0
  psOutIdx := 1
  bettorPk := samplePk 4
  ps_template := ⟨[], []⟩

def ticketRow : ShardRow where
  shard_index := 0
  status := .«open»
  shard_redeem := some Covenant.sampleShard
  current_leaf_state := some (ShardLeaf.genesis.state.bump 1 100000)
  leafCoin := { value := 100000, scriptPubKey := [1], covenantId := none }

theorem ticket_reachable : ShardLeaf.Reachable sampleEngine Covenant.sampleShard
    { value := 100000, state := ShardLeaf.genesis.state.bump 1 100000 } := by
  have hreg : ShardLeaf.register_append sampleEngine i64 Covenant.sampleShard
      ShardLeaf.genesis.state ticketTx ticketWitness =
        some (ShardLeaf.genesis.state.bump 1 100000) :=
    ShardLeaf.register_append_of_outputs (v := 100000) (w := 20000000) (by decide) (Or.inr rfl)
      (by decide) rfl (by decide) rfl rfl rfl (by decide)
  exact ⟨[(ticketWitness, ticketTx)], .single ⟨hreg, _, rfl, rfl⟩⟩

theorem ticket_rows : settledRows [ticketRow] = [ticketRow] := by
  have hf : [ticketRow].filter (fun r => r.status ≠ .manual_recovery_refunded) = [ticketRow] := by
    rfl
  rw [settledRows, hf, List.mergeSort_singleton]

theorem ticket_market : Market sampleEnv 1783500000 sampleCov [ticketRow] where
  deadline_pos := by decide
  passed := by decide
  fits := by decide
  feeCovers := by
    intro tx m _ _ hm
    cases hm
  rows := by
    intro row hrow
    rw [ticket_rows] at hrow
    obtain rfl := List.mem_singleton.mp hrow
    exact ⟨Covenant.sampleShard, _, rfl, rfl, rfl, rfl, ticket_reachable⟩

theorem ticket_hasTicket : EveryShardHasTicket [ticketRow] := by
  intro row hrow st hst
  rw [ticket_rows] at hrow
  obtain rfl := List.mem_singleton.mp hrow
  obtain rfl := Option.some.inj hst
  decide

/-- The `PayoutShard` as it was minted. -/
def mintedPs : PsCoin where
  coin :=
    { value := 20000000, scriptPubKey := psScript sampleEnv 20000000
      covenantId := some sampleCov }
  consolidated_pool := 20000000

def mintOutpoint : Outpoint := ⟨0, 0⟩

def sampleLeafOutpoint (_ : Nat) : Outpoint := ⟨1, 0⟩

def mintedChain : Chain where
  ledger :=
    { unspent := [⟨mintOutpoint, mintedPs.coin⟩, ⟨⟨1, 0⟩, ticketRow.leafCoin⟩]
      next := 2
      unique := by
        show [mintOutpoint, ⟨1, 0⟩].Nodup
        decide
      fresh := by
        intro u hu
        rcases List.mem_pair.mp hu with rfl | rfl
        · show 0 < 2
          decide
        · show 1 < 2
          decide }
  consolidated := []

theorem ticket_begun : Begun sampleEnv sampleLeafOutpoint sampleCov mintedPs mintOutpoint
    [ticketRow] mintedChain where
  openPs := ⟨rfl, rfl, by decide⟩
  address := rfl
  held := List.mem_cons_self
  only := by
    intro u hu hcov
    rcases List.mem_pair.mp hu with rfl | rfl
    · rfl
    · cases hcov
  leaves := by
    intro row hrow
    rw [ticket_rows] at hrow
    obtain rfl := List.mem_singleton.mp hrow
    exact List.mem_cons_of_mem _ List.mem_cons_self
  bare := by
    intro row hrow
    rw [ticket_rows] at hrow
    obtain rfl := List.mem_singleton.mp hrow
    nofun
  log := rfl
  unique := by
    rw [ticket_rows]
    exact List.nodup_singleton _
  apart := by
    rw [ticket_rows]
    exact List.nodup_singleton _

theorem ticket_supply :
    mintedPs.coin.value + leafSum (settledRows [ticketRow]) + 30000000 < 2 ^ 63 := by
  rw [ticket_rows]
  decide

/-- The one shard can be taken in. -/
theorem ticket_lands : ∃ s : Interrupted, s.left = [] ∧
    Run (Progress sampleEnv sampleLeafOutpoint 1783500000 sampleCov)
      ⟨⟨mintOutpoint, mintedPs.consolidated_pool⟩, mintedChain, settledRows [ticketRow]⟩ [.land]
        s := by
  have hrow : ticketRow ∈ settledRows [ticketRow] := by
    rw [ticket_rows]
    exact List.mem_cons_self
  have hu : Underway sampleEnv sampleLeafOutpoint 1783500000 sampleCov mintedPs mintOutpoint []
    (settledRows [ticketRow]) mintedPs mintOutpoint mintedChain := ticket_begun.underway
  have hsupply := ticket_supply
  rw [ticket_rows] at hu hsupply
  obtain ⟨ps', tip', chain', hturn, -⟩ :=
    hu.turn ticket_market hrow (ticket_market.welded_iff.mpr ticket_hasTicket _ hrow) hsupply
  exact ⟨⟨⟨tip', _⟩, chain', []⟩, rfl, .single (.land ticketRow [] ticket_rows _ _ hturn)⟩

/-- The settler stopped after its one shard. -/
theorem resume_iff_landed : ∃ s : Interrupted, s.left = [] ∧
    (EndsRight sampleEnv sampleLeafOutpoint 1783500000 [ticketRow] mintedPs mintOutpoint s.chain ↔
      ∃ done, settledRows [ticketRow] = done ++ s.left ∧
        FindsTip sampleEnv s.chain.ledger mintedPs.consolidated_pool s.tip.outpoint done
          s.left) := by
  obtain ⟨s, hs, hr⟩ := ticket_lands
  exact ⟨s, hs, resume_iff ticket_market ticket_hasTicket ticket_begun ticket_supply hr⟩

theorem psScript_ne_one (env : Env) (pool : Int) : [1] ≠ psScript env pool := by
  intro h
  exact absurd (List.cons.inj h).1 (by decide)

/-- Uninterrupted, the settler comes to the right end. -/
theorem ticket_endsRight : EndsRight sampleEnv sampleLeafOutpoint 1783500000 [ticketRow] mintedPs
    mintOutpoint mintedChain := by
  have hu : Underway sampleEnv sampleLeafOutpoint 1783500000 sampleCov mintedPs mintOutpoint []
    (settledRows [ticketRow]) mintedPs mintOutpoint mintedChain := ticket_begun.underway
  refine hu.endsRight_of_findsTip ticket_market rfl ticket_hasTicket ticket_begun.unique
    ticket_supply (hu.findsTip_of_undisturbed nofun ?_)
  intro p q _ u hmem hscript
  rcases List.mem_pair.mp hmem with rfl | rfl
  · rfl
  · exact absurd hscript (psScript_ne_one _ _)

/-- Somebody pays one sompi to the address of the `PayoutShard` once the shard is in it. -/
theorem dust_stops_resume : ∃ s : Interrupted,
    Run (Progress sampleEnv sampleLeafOutpoint 1783500000 sampleCov)
      ⟨⟨mintOutpoint, mintedPs.consolidated_pool⟩, mintedChain, settledRows [ticketRow]⟩
        [.land, .receive
          { value := 1, scriptPubKey := psScript sampleEnv 20100000, covenantId := none }] s ∧
      EndsRight sampleEnv sampleLeafOutpoint 1783500000 [ticketRow] mintedPs mintOutpoint
        mintedChain ∧
        ¬ EndsRight sampleEnv sampleLeafOutpoint 1783500000 [ticketRow] mintedPs mintOutpoint
          s.chain := by
  obtain ⟨s, hs, hr⟩ := ticket_lands
  have hrun := hr.append (.single (.receive
    { value := 1, scriptPubKey := psScript sampleEnv 20100000, covenantId := none } nofun))
  refine ⟨_, hrun, ticket_endsRight, ?_⟩
  have hmid := midway ticket_market ticket_hasTicket ticket_begun ticket_supply hrun
  rw [hmid.endsRight_iff ticket_market ticket_hasTicket ticket_begun.unique ticket_supply]
  intro h
  obtain ⟨done, hdone, hf⟩ := h
  obtain ⟨done', ps, hdone', -, hu⟩ := hmid
  obtain rfl : done' = done := List.append_cancel_right (hdone'.symm.trans hdone)
  rw [ticket_rows, hs, List.append_nil] at hdone
  rcases hf.alone with ⟨u, hone, -⟩ | ⟨hnil, -⟩
  · -- the coin of the market and the dust are both there
    have htip := hu.at_tip.1
    have hdust : (⟨s.chain.ledger.nextOutpoint, ⟨1, psScript sampleEnv 20100000, none⟩⟩ :
        Unspent TxInput) ∈ getUtxos (s.chain.ledger.receive
          ⟨1, psScript sampleEnv 20100000, none⟩)
          (psScript sampleEnv (poolAfter mintedPs.consolidated_pool done')) := by
      refine mem_getUtxos.mpr ⟨Ledger.mem_receive.mpr (Or.inl rfl), ?_⟩
      rw [← hdone]
      rfl
    rw [hone, List.mem_singleton] at htip hdust
    have hcov := congrArg (fun u : Unspent TxInput => u.coin.covenantId) (hdust.trans htip.symm)
    have hps : ps.coin.covenantId = some sampleCov := hu.openPs.covenant
    rw [← hcov] at hps
    cases hps
  · rw [hnil] at hdone
    cases hdone

end KANet.Settle
