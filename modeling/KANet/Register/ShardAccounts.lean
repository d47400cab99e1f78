import KANet.Register.OnShard

/-!
# The account of the shards

A registration that goes through leaves one row for its bettor and continues the leaf of one shard.
The row is the weak part: a payment that already has one is passed over without a word, and so is a
write that fails, while the leaf has been continued on the chain all the same.  Two clients that
confirm the same payment at once both get that far, because each looked before the other's row was
there.

Where every row is written, the rows are the registrations.

* `Accounts` — the shards, their bets, and what was reported.
* `shards_account` — every state of such a market, and what a sealed shard keeps.
* `confirmed_twice` — one payment, two reports and one row.
-/

namespace KANet.Register

open KANet.Lib KANet.Script KANet.Covenant

/-! ### What the account says -/

/-- The state of a leaf that these registrations continued, one after the other. -/
def chain (rs : List Receipt) : ShardLeaf.State :=
  rs.foldl (fun st r => newState st r.request.direction (toNumber r.request.stakeSompi))
    ShardLeaf.genesis.state

def ofShard (shardMarketId : String) (rs : List Receipt) : List Receipt :=
  rs.filter (·.shardMarketId = shardMarketId)

def Receipt.side (r : Receipt) : Side :=
  r.request.side r.shardMarketId r.shardP2sh r.shardIndex r.leafTx

def Receipt.lockTx (r : Receipt) : String := r.request.lockTx r.leafTx

/-- The registration that went through and is about to be reported. -/
def Job.through (job : Job) : List Receipt :=
  match job.pc with
  | .defragging r => [r]
  | _ => []

/-- The row of the registration that has not yet gone through. -/
def Job.pending (job : Job) : List Side :=
  match job.pc with
  | .recorded shard _ regTx _ =>
    [job.request.side shard.shard_market_id shard.shard_p2sh shard.shard_index regTx]
  | _ => []

/-- Every registration that went through. -/
def St.registrations (s : St) : List Receipt :=
  s.reported ++ s.running.toList.flatMap Job.through

/-- **The account of the shards.**  What was reported has one row, in one shard, and the leaf of
that shard is where its registrations have led. -/
structure Accounts (s : St) : Prop where
  indices : s.db.shards.map (·.shard_index) = List.range s.db.shards.length
  one_open : s.db.openShards.length ≤ 1
  capacity : ∀ sh ∈ s.db.shards,
    (s.db.sidesOf sh.shard_market_id).length ≤ SHARD_SEAL_COUNT
  ticket : ∀ r ∈ s.reported, s.db.sides.filter (·.side_lock_tx = some r.lockTx) = [r.side]
  shard : ∀ r ∈ s.reported, ∃! sh, sh ∈ s.db.shards ∧ sh.shard_market_id = r.shardMarketId ∧
    sh.current_leaf_state = some (chain (ofShard r.shardMarketId s.registrations))
  distinct : (s.reported.map Receipt.lockTx).Nodup

/-- The transaction that continues the leaf, while the registration waits for it. -/
def Job.landingTx (job : Job) : Option String :=
  match job.pc with
  | .landing _ _ _ regTx _ _ => some regTx
  | _ => none

/-- Whether the write of the row goes through, once the leaf has landed. -/
def Event.wrote : Event → Option Bool
  | .advance _ (.landed true wrote) => some wrote
  | _ => none

/-- When the bettor's row is to be written, the write goes through and the transaction it is filed
under has no row yet. -/
def RecordsTicket (s : St) (e : Event) : Prop :=
  ∀ job ∈ s.running, ∀ tx ∈ job.landingTx, ∀ wrote ∈ e.wrote,
    wrote = true ∧ ∀ row ∈ s.db.sides, row.side_lock_tx ≠ some (job.request.lockTx tx)

instance (s : St) (e : Event) : Decidable (RecordsTicket s e) := by
  unfold RecordsTicket
  infer_instance

def Recorded (m : Market) (s : St) (e : Event) (t : St) : Prop :=
  step m s e = some t ∧ RecordsTicket s e

/-! ### Registrations of one shard -/

theorem chain_concat (rs : List Receipt) (r : Receipt) :
    chain (rs ++ [r]) =
      newState (chain rs) r.request.direction (toNumber r.request.stakeSompi) := by
  simp [chain, List.foldl_append]

theorem ofShard_concat (id : String) (rs : List Receipt) (r : Receipt) :
    ofShard id (rs ++ [r]) =
      if r.shardMarketId = id then ofShard id rs ++ [r] else ofShard id rs := by
  rw [ofShard, List.filter_append]
  by_cases h : r.shardMarketId = id
  · simp [h, ofShard]
  · simp [h, ofShard]

theorem chain_count {rs : List Receipt} (h : rs.length ≤ SHARD_SEAL_COUNT) :
    (chain rs).count = rs.length := by
  induction rs using List.reverseRecOn with
  | nil => rfl
  | append_singleton rs r ih =>
    rw [List.length_append, List.length_singleton, SHARD_SEAL_COUNT] at h
    rw [chain_concat]
    show addNumber (chain rs).count 1 = _
    rw [ih (by rw [SHARD_SEAL_COUNT]; omega), addNumber, toNumber_of_lt (by omega),
      List.length_append]
    rfl

/-! ### What the rows say -/

/-- The rows tell of the registrations that went through, and of those alone. -/
structure Books (db : Db) (rs : List Receipt) (pend : List Side) : Prop where
  rolling : Rolling db
  sides : db.sides = rs.map Receipt.side ++ pend
  locks : (db.sides.map (·.side_lock_tx)).Nodup
  leaf : ∀ s ∈ db.shards, s.current_leaf_state = some (chain (ofShard s.shard_market_id rs))
  full : ∀ s ∈ db.shards, (ofShard s.shard_market_id rs).length ≤ SHARD_SEAL_COUNT
  home : ∀ r ∈ rs, ∃ s ∈ db.shards, s.shard_market_id = r.shardMarketId

/-- The shard a registration goes to is open and has room. -/
structure Held (db : Db) (rs : List Receipt) (shard : Shard) : Prop where
  mem : shard ∈ db.shards
  isOpen : shard.status = .isOpen
  room : (ofShard shard.shard_market_id rs).length + 1 ≤ SHARD_SEAL_COUNT

/-- The command continues the leaf of the shard. -/
def Continues (rs : List Receipt) (shard : Shard) (r : Request) (cmd : RegisterCommand) : Prop :=
  cmd.leafContinuation =
    newState (chain (ofShard shard.shard_market_id rs)) r.direction (toNumber r.stakeSompi)

/-- The shard to be opened comes next, and the one that is open is to be sealed. -/
def Opens (db : Db) (shardIndex : Nat) (sealPrevId : Option String) : Prop :=
  shardIndex = db.shards.length ∧ ∀ s ∈ db.openShards, sealPrevId = some s.shard_market_id

def JobOk (db : Db) (rs : List Receipt) (job : Job) : Prop :=
  match job.pc with
  | .entered => True
  | .funding shard _ => Held db rs shard
  | .appending shard _ cmd _ => Held db rs shard ∧ Continues rs shard job.request cmd
  | .landing shard _ cmd _ _ _ => Held db rs shard ∧ Continues rs shard job.request cmd
  | .recorded shard cmd _ _ => Held db rs shard ∧ Continues rs shard job.request cmd
  | .defragging _ => True
  | .seeding i prev _ => Opens db i prev
  | .seeded i prev _ _ => Opens db i prev
  | .cloned i prev _ _ => Opens db i prev

/-- The rows after a step of a registration. -/
def Sound (db : Db) (reported : List Receipt) : Progress → Prop
  | .waits job => Books db (reported ++ job.through) job.pending ∧
      JobOk db (reported ++ job.through) job
  | .failed => Books db reported []
  | .returned r => Books db (reported ++ [r]) []

variable {m : Market} {db : Db} {rs : List Receipt} {job : Job} {shard : Shard}

/-! ### Each step of a registration -/

theorem Books.paid (h : Books db rs []) (covId : Option Bytes32) :
    Books { db with payout_cov_id := covId } rs [] :=
  ⟨⟨h.rolling.indices, h.rolling.ids, h.rolling.one_open⟩, h.sides, h.locks, h.leaf, h.full, h.home⟩

/-- A registration that waits and has written nothing. -/
theorem sound_waits (job : Job) {pc : Pc} (h : Books db rs [])
    (hthrough : ({ job with pc := pc } : Job).through = [])
    (hpending : ({ job with pc := pc } : Job).pending = [])
    (hok : JobOk db rs { job with pc := pc }) : Sound db rs (.waits { job with pc := pc }) := by
  show Books db (rs ++ Job.through _) (Job.pending _) ∧ JobOk db (rs ++ Job.through _) _
  rw [hthrough, hpending, List.append_nil]
  exact ⟨h, hok⟩

/-- The command continues the leaf from the state in the row. -/
theorem command_leafContinuation {r : Request} {cmd : RegisterCommand} {st : ShardLeaf.State}
    (hst : shard.current_leaf_state = some st) (h : m.command r shard = some cmd) :
    cmd.leafContinuation = newState st r.direction (toNumber r.stakeSompi) := by
  simp only [Market.command, Option.bind_eq_bind, Option.bind_eq_some_iff] at h
  obtain ⟨o, -, st', hst', redeem, -, hcmd⟩ := h
  rw [hst] at hst'
  obtain rfl := Option.some.inj hst'
  obtain ⟨-, -, -, -, _, -, rfl⟩ := registerCommand_eq_ok.mp (toOption_eq_some.mp hcmd)
  rfl

theorem append_sound (h : Books db rs []) (hh : Held db rs shard) (n : Nat) (covId : Bytes32) :
    Sound db rs (job.append m shard n covId) := by
  unfold Job.append
  split
  · next cmd hcmd =>
    exact sound_waits job h rfl rfl ⟨hh, command_leafContinuation (h.leaf shard hh.mem) hcmd⟩
  · exact h

theorem tryAgain_sound (h : Books db rs []) (hh : Held db rs shard) (n : Nat) (covId : Bytes32)
    (message : String) : Sound db rs (job.tryAgain m db shard n covId message) := by
  unfold Job.tryAgain
  split
  · split
    · next fresh hfresh =>
      have hid : fresh.shard_market_id = shard.shard_market_id := by
        simpa using List.find?_some hfresh
      have hmem := List.mem_of_find?_eq_some hfresh
      rw [h.rolling.eq_of_id hmem hh.mem hid]
      exact append_sound h hh _ _
    · exact h
  · exact h

theorem allocate_sound (h : Books db rs []) (covId : Bytes32) :
    Sound db rs (job.allocate m db covId) := by
  unfold Job.allocate
  split
  · next shard halloc =>
    split
    · refine sound_waits job h rfl rfl ?_
      obtain ⟨hmem, hopen, hroom⟩ := allocateForRegister_use halloc
      refine ⟨hmem, hopen, ?_⟩
      have hcount := count_lt_of_room (h.leaf shard hmem) hroom
      rw [chain_count (h.full shard hmem)] at hcount
      exact_mod_cast hcount
    · exact h
  · next i prev halloc =>
    exact sound_waits job h rfl rfl (allocateForRegister_open_new h.rolling halloc)

theorem enter_sound (job : Job) (h : Books db rs []) (minted : Option Bytes32) :
    Sound (job.enter m db minted).1 rs (job.enter m db minted).2 ∧
      Frozen db (job.enter m db minted).1 := by
  unfold Job.enter
  split
  · split
    · exact ⟨allocate_sound h _, Frozen.refl db⟩
    · exact ⟨allocate_sound (h.paid _) _, fun s hs _ => ⟨hs, rfl⟩⟩
    · exact ⟨h, Frozen.refl db⟩
  · exact ⟨h, Frozen.refl db⟩

/-- The bets of the other shards stay as they are when a row is added. -/
theorem sidesOf_append (db : Db) (row : Side) {id : String} (h : row.market_id ≠ id) :
    ({ db with sides := db.sides ++ [row] } : Db).sidesOf id = db.sidesOf id := by
  show (db.sides ++ [row]).filter _ = db.sides.filter _
  rw [List.filter_append]
  simp [h]

theorem record_sound (job : Job) (h : Books db rs []) (hh : Held db rs shard)
    {cmd : RegisterCommand} (hc : Continues rs shard job.request cmd) {tx : String}
    (hnew : ∀ row ∈ db.sides, row.side_lock_tx ≠ some (job.request.lockTx tx)) (covId : Bytes32) :
    Sound (job.record db shard cmd tx covId true).1 rs (job.record db shard cmd tx covId true).2 ∧
      Frozen db (job.record db shard cmd tx covId true).1 := by
  have hrow : recordBettor db (job.request.side shard.shard_market_id shard.shard_p2sh
      shard.shard_index tx) true = { db with sides := db.sides ++ [job.request.side
        shard.shard_market_id shard.shard_p2sh shard.shard_index tx] } := by
    rw [recordBettor, if_pos ⟨rfl, fun row hrow => Or.inr (hnew row hrow)⟩]
  rw [Job.record, hrow]
  refine ⟨⟨⟨⟨h.rolling.indices, h.rolling.ids, h.rolling.one_open⟩, ?_, ?_, ?_, ?_, ?_⟩, ?_⟩, ?_⟩
  · show db.sides ++ _ = (rs ++ []).map _ ++ _
    rw [h.sides, List.append_nil, List.append_nil]
    rfl
  · show ((db.sides ++ _).map _).Nodup
    rw [List.map_append]
    refine h.locks.append (List.nodup_singleton _) ?_
    intro t ht ht'
    obtain ⟨row, hrow, rfl⟩ := List.mem_map.mp ht
    exact hnew row hrow (List.mem_singleton.mp ht')
  · simpa [Job.through] using h.leaf
  · simpa [Job.through] using h.full
  · simpa [Job.through] using h.home
  · show Held _ (rs ++ []) shard ∧ Continues (rs ++ []) shard job.request cmd
    rw [List.append_nil]
    exact ⟨⟨hh.mem, hh.isOpen, hh.room⟩, hc⟩
  · intro s hs hsealed
    refine ⟨hs, sidesOf_append db _ ?_⟩
    intro hid
    rw [← h.rolling.eq_of_id hh.mem hs hid, hh.isOpen] at hsealed
    cases hsealed

theorem settle_sound (now : Nat) {cmd : RegisterCommand} {tx : String} (covId : Bytes32)
    (h : Books db rs [job.request.side shard.shard_market_id shard.shard_p2sh shard.shard_index tx])
    (hh : Held db rs shard) (hc : Continues rs shard job.request cmd) :
    Sound (job.settle db now shard cmd tx covId).1 rs (job.settle db now shard cmd tx covId).2 ∧
      Frozen db (job.settle db now shard cmd tx covId).1 := by
  unfold Job.settle
  split
  · next db' hreg =>
    have hrolling := onBettorRegistered_rolling h.rolling hreg
    have hto : (job.receipt shard cmd tx covId).shardMarketId = shard.shard_market_id := rfl
    obtain rfl := onBettorRegistered_eq_some hreg
    -- a row of the new table comes from one of the old, which is the shard's or is kept
    have hrows : ∀ s' ∈ db.shards.map (fun s =>
        if s.shard_market_id = shard.shard_market_id then
          s.registered (shardStakes db shard.shard_market_id) ⟨tx, 0⟩ cmd.leafContinuation now
        else s),
        (s'.shard_market_id = shard.shard_market_id ∧
          s'.current_leaf_state = some cmd.leafContinuation) ∨
        (s' ∈ db.shards ∧ s'.shard_market_id ≠ shard.shard_market_id) := by
      intro s' hs'
      obtain ⟨s, hs, rfl⟩ := List.mem_map.mp hs'
      split
      · next hid => exact Or.inl ⟨hid, rfl⟩
      · next hid => exact Or.inr ⟨hs, hid⟩
    refine ⟨⟨⟨hrolling, ?_, h.locks, ?_, ?_, ?_⟩, trivial⟩, ?_⟩
    · show db.sides = (rs ++ [_]).map Receipt.side ++ []
      rw [h.sides, List.map_append, List.append_nil]
      rfl
    · intro s' hs'
      show s'.current_leaf_state = some (chain (ofShard s'.shard_market_id (rs ++ [_])))
      rw [ofShard_concat, hto]
      rcases hrows s' hs' with ⟨hid, hst⟩ | ⟨hmem, hid⟩
      · rw [if_pos hid.symm, chain_concat, hst, hid, hc]
        rfl
      · rw [if_neg (Ne.symm hid), h.leaf s' hmem]
    · intro s' hs'
      show (ofShard s'.shard_market_id (rs ++ [_])).length ≤ _
      rw [ofShard_concat, hto]
      rcases hrows s' hs' with ⟨hid, -⟩ | ⟨hmem, hid⟩
      · rw [if_pos hid.symm, hid, List.length_append]
        exact hh.room
      · rw [if_neg (Ne.symm hid)]
        exact h.full s' hmem
    · intro r hr
      rcases List.mem_append.mp hr with hr | hr
      · obtain ⟨s, hs, hid⟩ := h.home r hr
        refine ⟨_, List.mem_map_of_mem hs, ?_⟩
        split
        · exact hid
        · exact hid
      · obtain rfl := List.mem_singleton.mp hr
        refine ⟨_, List.mem_map_of_mem hh.mem, ?_⟩
        rw [if_pos rfl]
        rfl
    · intro s hs hsealed
      refine ⟨List.mem_map.mpr ⟨s, hs, ?_⟩, rfl⟩
      rw [if_neg]
      intro hid
      rw [h.rolling.eq_of_id hs hh.mem hid, hh.isOpen] at hsealed
      cases hsealed
  · next hnone =>
    have hsome := onBettorRegistered_of_mem hh.mem ⟨tx, 0⟩ cmd.leafContinuation now
    rw [hnone] at hsome
    cases hsome

/-- Once the open shard is sealed none is open. -/
theorem sealPrev_books (h : Books db rs []) {i : Nat} {prev : Option String}
    (ho : Opens db i prev) (now : Nat) :
    Books (sealPrev db prev now) rs [] ∧ (sealPrev db prev now).openShards = [] ∧
      (sealPrev db prev now).shards.length = i ∧ Frozen db (sealPrev db prev now) := by
  obtain ⟨rfl, ho⟩ := ho
  cases prev with
  | none =>
    refine ⟨h, List.eq_nil_iff_forall_not_mem.mpr ?_, rfl, Frozen.refl db⟩
    intro s hs
    cases ho s hs
  | some id =>
    -- sealing changes neither the id nor the leaf of a row
    have hrows : ∀ s' ∈ (sealShard db id now).shards, ∃ s ∈ db.shards,
        s'.shard_market_id = s.shard_market_id ∧ s'.current_leaf_state = s.current_leaf_state := by
      intro s' hs'
      obtain ⟨s, hs, rfl⟩ := List.mem_map.mp hs'
      refine ⟨s, hs, ?_⟩
      split
      · exact ⟨rfl, rfl⟩
      · exact ⟨rfl, rfl⟩
    refine ⟨⟨sealShard_rolling h.rolling id now, h.sides, h.locks, ?_, ?_, ?_⟩, ?_, ?_,
      sealShard_frozen db id now⟩
    · intro s' hs'
      obtain ⟨s, hs, hid, hst⟩ := hrows s' hs'
      rw [hst, hid]
      exact h.leaf s hs
    · intro s' hs'
      obtain ⟨s, hs, hid, -⟩ := hrows s' hs'
      rw [hid]
      exact h.full s hs
    · intro r hr
      obtain ⟨s, hs, hid⟩ := h.home r hr
      refine ⟨_, List.mem_map_of_mem hs, ?_⟩
      split
      · exact hid
      · exact hid
    · refine List.eq_nil_iff_forall_not_mem.mpr ?_
      intro s hs
      obtain ⟨hs, hne⟩ := mem_openShards_sealShard hs
      exact hne (Option.some.inj (ho s hs)).symm
    · exact List.length_map _

theorem openShard_sound (job : Job) (h : Books db rs []) {i : Nat} {prev : Option String}
    (ho : Opens db i prev) (now : Nat) (redeem : Bytes) (tx : String) :
    Sound (job.openShard m db now i prev redeem tx).1 rs
        (job.openShard m db now i prev redeem tx).2 ∧
      Frozen db (job.openShard m db now i prev redeem tx).1 := by
  obtain ⟨hb, hnone, hlen, hfrozen⟩ := sealPrev_books h ho now
  unfold Job.openShard
  simp only
  split
  · next db' hreg =>
    obtain ⟨hnew, s, hindex, hid, -, hst, -, rfl⟩ := registerShard_eq_some hreg
    have hnew' : ∀ s' ∈ (sealPrev db prev now).shards, s'.shard_market_id ≠ s.shard_market_id := by
      rw [hid]
      exact hnew
    -- no registration has gone to the shard that was not there
    have hempty : ofShard s.shard_market_id rs = [] := by
      refine List.filter_eq_nil_iff.mpr ?_
      intro r hr hrid
      obtain ⟨s', hs', hid'⟩ := hb.home r hr
      exact hnew' s' hs' (hid'.trans (of_decide_eq_true hrid))
    have hb' : Books { sealPrev db prev now with shards := (sealPrev db prev now).shards ++ [s] }
        rs [] := by
      refine ⟨hb.rolling.append (hindex.trans hlen.symm) hnew' hnone, hb.sides, hb.locks,
        ?_, ?_, ?_⟩
      · intro s' hs'
        rcases List.mem_append.mp hs' with hs' | hs'
        · exact hb.leaf s' hs'
        · obtain rfl := List.mem_singleton.mp hs'
          rw [hempty, hst]
          rfl
      · intro s' hs'
        rcases List.mem_append.mp hs' with hs' | hs'
        · exact hb.full s' hs'
        · obtain rfl := List.mem_singleton.mp hs'
          rw [hempty]
          exact Nat.zero_le _
      · intro r hr
        obtain ⟨s', hs', hid'⟩ := hb.home r hr
        exact ⟨s', List.mem_append_left _ hs', hid'⟩
    refine ⟨?_, hfrozen.trans ?_⟩
    · split
      · exact hb'
      · exact sound_waits { job with openedShard := job.openedShard + 1 } hb' rfl rfl
          trivial
    · intro s' hs' _
      exact ⟨List.mem_append_left _ hs', rfl⟩
  · refine ⟨?_, hfrozen⟩
    split
    · exact hb
    · exact sound_waits { job with retry := job.retry + 1 } hb rfl rfl trivial

/-- **One step of a registration**, where the row it writes is new. -/
theorem advance_sound (h : Sound db rs (.waits job)) {now : Nat} {o : Outcome} {db' : Db}
    {p : Progress} (ha : job.advance m db now o = some (db', p))
    (hrec : ∀ shard n cmd tx json covId wrote, job.pc = .landing shard n cmd tx json covId →
      o = .landed true wrote →
        wrote = true ∧ ∀ row ∈ db.sides, row.side_lock_tx ≠ some (job.request.lockTx tx)) :
    Sound db' rs p ∧ Frozen db db' := by
  obtain ⟨r, retry, opened, pc⟩ := job
  cases pc with
  | defragging receipt =>
    cases o with
    | resumed =>
      obtain ⟨rfl, rfl⟩ := Prod.mk.inj (Option.some.inj ha)
      exact ⟨h.1, Frozen.refl db⟩
    | _ => cases ha
  | recorded shard cmd tx covId =>
    cases o with
    | resumed =>
      obtain ⟨hb, hh, hc⟩ := h
      simp only [Job.through, List.append_nil] at hb hh hc
      have := settle_sound now covId hb hh hc
      rw [Option.some.inj ha] at this
      exact this
    | _ => cases ha
  | entered =>
    cases o with
    | payout minted =>
      have hb : Books db rs [] := by simpa [Job.through, Job.pending] using h.1
      have := enter_sound (m := m) ⟨r, retry, opened, .entered⟩ hb minted
      rw [Option.some.inj ha] at this
      exact this
    | _ => cases ha
  | funding shard covId =>
    have hb : Books db rs [] := by simpa [Job.through, Job.pending] using h.1
    have hh : Held db rs shard := by simpa [Job.through, JobOk] using h.2
    cases o with
    | sent tx =>
      cases tx with
      | none =>
        obtain ⟨rfl, rfl⟩ := Prod.mk.inj (Option.some.inj ha)
        exact ⟨hb, Frozen.refl db⟩
      | some tx =>
        obtain ⟨rfl, rfl⟩ := Prod.mk.inj (Option.some.inj ha)
        exact ⟨append_sound hb hh _ _, Frozen.refl db⟩
    | _ => cases ha
  | appending shard n cmd covId =>
    have hb : Books db rs [] := by simpa [Job.through, Job.pending] using h.1
    have hok : Held db rs shard ∧ Continues rs shard r cmd := by
      simpa [Job.through, JobOk] using h.2
    cases o with
    | replied json tx =>
      cases tx with
      | none =>
        obtain ⟨rfl, rfl⟩ := Prod.mk.inj (Option.some.inj ha)
        exact ⟨tryAgain_sound hb hok.1 _ _ _, Frozen.refl db⟩
      | some tx =>
        obtain ⟨rfl, rfl⟩ := Prod.mk.inj (Option.some.inj ha)
        exact ⟨sound_waits ⟨r, retry, opened, .entered⟩ hb rfl rfl hok, Frozen.refl db⟩
    | threw message =>
      obtain ⟨rfl, rfl⟩ := Prod.mk.inj (Option.some.inj ha)
      exact ⟨tryAgain_sound hb hok.1 _ _ _, Frozen.refl db⟩
    | _ => cases ha
  | landing shard n cmd tx json covId =>
    have hb : Books db rs [] := by simpa [Job.through, Job.pending] using h.1
    have hok : Held db rs shard ∧ Continues rs shard r cmd := by
      simpa [Job.through, JobOk] using h.2
    cases o with
    | landed yes wrote =>
      cases yes with
      | true =>
        obtain ⟨hwrote, hnew⟩ := hrec shard n cmd tx json covId wrote rfl rfl
        obtain rfl := hwrote
        have := record_sound ⟨r, retry, opened, .landing shard n cmd tx json covId⟩ hb
          hok.1 hok.2 hnew covId
        rw [Option.some.inj ha] at this
        exact this
      | false =>
        obtain ⟨rfl, rfl⟩ := Prod.mk.inj (Option.some.inj ha)
        exact ⟨tryAgain_sound hb hok.1 _ _ _, Frozen.refl db⟩
    | threw message =>
      obtain ⟨rfl, rfl⟩ := Prod.mk.inj (Option.some.inj ha)
      exact ⟨tryAgain_sound hb hok.1 _ _ _, Frozen.refl db⟩
    | _ => cases ha
  | seeding i prev redeem =>
    have hb : Books db rs [] := by simpa [Job.through, Job.pending] using h.1
    have hok : Opens db i prev := h.2
    cases o with
    | sent tx =>
      cases tx with
      | none =>
        obtain ⟨rfl, rfl⟩ := Prod.mk.inj (Option.some.inj ha)
        exact ⟨hb, Frozen.refl db⟩
      | some tx =>
        obtain ⟨rfl, rfl⟩ := Prod.mk.inj (Option.some.inj ha)
        exact ⟨sound_waits ⟨r, retry, opened, .entered⟩ hb rfl rfl hok, Frozen.refl db⟩
    | _ => cases ha
  | seeded i prev redeem tx =>
    have hb : Books db rs [] := by simpa [Job.through, Job.pending] using h.1
    have hok : Opens db i prev := h.2
    cases o with
    | landed yes wrote =>
      cases yes with
      | true =>
        obtain ⟨rfl, rfl⟩ := Prod.mk.inj (Option.some.inj ha)
        exact ⟨sound_waits ⟨r, retry, opened, .entered⟩ hb rfl rfl hok, Frozen.refl db⟩
      | false =>
        obtain ⟨rfl, rfl⟩ := Prod.mk.inj (Option.some.inj ha)
        exact ⟨hb, Frozen.refl db⟩
    | threw message =>
      obtain ⟨rfl, rfl⟩ := Prod.mk.inj (Option.some.inj ha)
      exact ⟨hb, Frozen.refl db⟩
    | _ => cases ha
  | cloned i prev redeem tx =>
    have hb : Books db rs [] := by simpa [Job.through, Job.pending] using h.1
    have hok : Opens db i prev := h.2
    cases o with
    | resumed =>
      have := openShard_sound (m := m) ⟨r, retry, opened, .cloned i prev redeem tx⟩ hb hok
        now redeem tx
      rw [Option.some.inj ha] at this
      exact this
    | _ => cases ha

/-! ### The market -/

/-- What holds between two steps of the market. -/
def Inv (s : St) : Prop :=
  match s.running with
  | some job => Sound s.db s.reported (.waits job)
  | none => Books s.db s.reported []

theorem inv_init : Inv St.init := by
  refine ⟨⟨rfl, List.nodup_nil, Nat.zero_le _⟩, rfl, List.nodup_nil, ?_, ?_, ?_⟩
  · intro s hs
    exact absurd hs List.not_mem_nil
  · intro s hs
    exact absurd hs List.not_mem_nil
  · intro r hr
    exact absurd hr List.not_mem_nil

theorem goOn_inv {s : St} {p : Progress} (h : Sound db s.reported p) : Inv (s.goOn db p) := by
  cases p with
  | waits job => exact h
  | failed => exact h
  | returned r => exact h

theorem goOn_db (s : St) (db : Db) (p : Progress) : (s.goOn db p).db = db := by
  cases p with
  | waits job => rfl
  | failed => rfl
  | returned r => rfl

theorem recorded_step {s t : St} {e : Event} (hs : Inv s) (h : Recorded m s e t) :
    Inv t ∧ Frozen s.db t.db := by
  obtain ⟨hstep, hrec⟩ := h
  cases e with
  | detect r =>
    simp only [step] at hstep
    split at hstep
    · obtain rfl := Option.some.inj hstep
      exact ⟨hs, Frozen.refl _⟩
    · cases hstep
  | call r =>
    simp only [step] at hstep
    split at hstep
    · obtain rfl := Option.some.inj hstep
      exact ⟨hs, Frozen.refl _⟩
    · cases hstep
  | acquire =>
    simp only [step] at hstep
    split at hstep
    · next r rest hrun hline =>
      obtain rfl := Option.some.inj hstep
      have hb : Books s.db s.reported [] := by simpa [Inv, hrun] using hs
      refine ⟨?_, Frozen.refl _⟩
      exact sound_waits ⟨r, 0, 0, .entered⟩ hb rfl rfl trivial
    · cases hstep
  | advance now o =>
    simp only [step, Option.bind_eq_bind, Option.bind_eq_some_iff] at hstep
    obtain ⟨job, hrun, ⟨db', p⟩, hadv, hgo⟩ := hstep
    obtain rfl := Option.some.inj hgo
    have hsound : Sound s.db s.reported (.waits job) := by simpa [Inv, hrun] using hs
    have hrec' : ∀ shard n cmd tx json covId wrote, job.pc = .landing shard n cmd tx json covId →
        o = .landed true wrote →
          wrote = true ∧
            ∀ row ∈ s.db.sides, row.side_lock_tx ≠ some (job.request.lockTx tx) := by
      intro shard n cmd tx json covId wrote hpc ho
      rw [ho] at hrec
      exact hrec job hrun tx (by rw [Job.landingTx, hpc]; rfl) wrote rfl
    obtain ⟨hs', hf⟩ := advance_sound hsound hadv hrec'
    refine ⟨goOn_inv hs', ?_⟩
    rw [goOn_db]
    exact hf

theorem run_inv {s t : St} {es : List Event} (h : Run (Recorded m) s es t) (hs : Inv s) :
    Inv t := by
  have keep : ∀ s e t, Inv s → Recorded m s e t → Inv t :=
    fun _ _ _ hi ha => (recorded_step hi ha).1
  exact h.invariant keep hs

theorem run_frozen {s t : St} {es : List Event} (h : Run (Recorded m) s es t) (hs : Inv s) :
    Frozen s.db t.db := by
  induction h with
  | nil s => exact Frozen.refl _
  | cons ha _ ih =>
    obtain ⟨hm, hf⟩ := recorded_step hs ha
    exact hf.trans (ih hm)

/-- What a registration in progress has written. -/
theorem Inv.books {s : St} (h : Inv s) : ∃ pend, Books s.db s.registrations pend ∧
    ∀ sh ∈ s.db.shards, (ofShard sh.shard_market_id s.registrations).length +
      (pend.filter (·.market_id = sh.shard_market_id)).length ≤ SHARD_SEAL_COUNT := by
  cases hrun : s.running with
  | none =>
    have hb : Books s.db s.reported [] := by simpa [Inv, hrun] using h
    have hreg : s.registrations = s.reported := by simp [St.registrations, hrun]
    rw [hreg]
    exact ⟨[], hb, fun sh hsh => hb.full sh hsh⟩
  | some job =>
    obtain ⟨hb, hok⟩ : Sound s.db s.reported (.waits job) := by simpa [Inv, hrun] using h
    have hreg : s.registrations = s.reported ++ job.through := by
      simp [St.registrations, hrun]
    rw [hreg]
    refine ⟨job.pending, hb, ?_⟩
    intro sh hsh
    obtain ⟨r, retry, opened, pc⟩ := job
    cases pc with
    | recorded shard cmd tx covId =>
      obtain ⟨hh, -⟩ := hok
      by_cases hid : shard.shard_market_id = sh.shard_market_id
      · rw [← hid]
        refine le_trans (Nat.add_le_add_left (List.length_filter_le _ _) _) ?_
        exact hh.room
      · have : ([Request.side r shard.shard_market_id shard.shard_p2sh shard.shard_index tx].filter
            (·.market_id = sh.shard_market_id)) = [] := by
          simp [Request.side, hid]
        rw [Job.pending, this]
        exact hb.full sh hsh
    | _ => exact hb.full sh hsh

/-- Of the rows that no two share a key, one has the key of a row. -/
theorem filter_key {α β : Type} [DecidableEq β] {f : α → β} {l : List α} (h : (l.map f).Nodup)
    {a : α} (ha : a ∈ l) : l.filter (fun x => f x = f a) = [a] := by
  induction l with
  | nil => exact absurd ha List.not_mem_nil
  | cons b l ih =>
    obtain ⟨hb, hl⟩ := List.nodup_cons.mp h
    rcases List.mem_cons.mp ha with rfl | ha
    · rw [List.filter_cons_of_pos (by simp), List.filter_eq_nil_iff.mpr]
      intro x hx hfx
      exact hb (of_decide_eq_true hfx ▸ List.mem_map_of_mem hx)
    · have hne : f b ≠ f a := fun hfb => hb (hfb ▸ List.mem_map_of_mem ha)
      rw [List.filter_cons_of_neg (by simpa using hne)]
      exact ih hl ha

theorem accounts_of_inv {s : St} (h : Inv s) : Accounts s := by
  obtain ⟨pend, hb, hcap⟩ := h.books
  have hsub : s.reported.Sublist s.registrations := List.sublist_append_left _ _
  have hlocks : (s.registrations.map Receipt.lockTx).Nodup := by
    have := hb.locks
    rw [hb.sides, List.map_append, List.map_map] at this
    refine List.Nodup.of_map some ?_
    rw [List.map_map]
    exact this.of_append_left
  have hside : ∀ r ∈ s.reported, r.side ∈ s.db.sides := by
    intro r hr
    rw [hb.sides]
    exact List.mem_append_left _ (List.mem_map_of_mem (hsub.subset hr))
  refine ⟨hb.rolling.indices, hb.rolling.one_open, ?_, ?_, ?_, hlocks.sublist (hsub.map _)⟩
  · intro sh hsh
    have hlen : (s.db.sidesOf sh.shard_market_id).length =
        (ofShard sh.shard_market_id s.registrations).length +
          (pend.filter (·.market_id = sh.shard_market_id)).length := by
      rw [Db.sidesOf, hb.sides, List.filter_append, List.filter_map, List.length_append,
        List.length_map]
      rfl
    rw [hlen]
    exact hcap sh hsh
  · intro r hr
    exact filter_key hb.locks (hside r hr)
  · intro r hr
    obtain ⟨sh, hsh, hid⟩ := hb.home r (hsub.subset hr)
    refine ⟨sh, ⟨hsh, hid, ?_⟩, ?_⟩
    · rw [hb.leaf sh hsh, hid]
    · intro sh' hsh'
      exact hb.rolling.eq_of_id hsh'.1 hsh (hsh'.2.1.trans hid.symm)

/-- **Where every row is written the shards account for the registrations**, whatever the clients do
and whatever comes of the calls, and a sealed shard stays as it is. -/
theorem shards_account {s t : St} {es fs : List Event} (hs : Run (Recorded m) St.init es s)
    (ht : Run (Recorded m) s fs t) : Accounts t ∧ Frozen s.db t.db := by
  have hinv := run_inv hs inv_init
  exact ⟨accounts_of_inv (run_inv ht hinv), run_frozen ht hinv⟩

/-! ### A market -/

def sampleMarket : Market where
  engine := sampleEngine
  logicalMarketId := "market"
  psArtifact := fun _ _ _ => sampleArtifact
  compileShardLeafRedeem := fun _ _ _ _ _ _ _ => List.replicate 40 0
  p2sh := fun _ => "leaf"

def sampleBet : Request where
  bettorPk := samplePk 1
  direction := 0
  stakeSompi := 500000000
  deadline := 1
  zkNative := false
  closeZkTmplAnchor := none
  bettor_relay_id := none
  paymentTxid := some "payment"
  payAmountSompi := some 500001000

/-- The first shard is opened. -/
def opening : List Event :=
  [.advance 1 (.payout (some (samplePk 2))), .advance 1 (.sent (some "seed")),
    .advance 1 (.landed true true), .advance 1 .resumed]

def registering (leafTx : String) : List Event :=
  [.advance 2 (.payout none), .advance 2 (.sent (some "stake")),
    .advance 2 (.replied "" (some leafTx)), .advance 2 (.landed true true),
    .advance 2 .resumed, .advance 2 .resumed]

/-- A client confirms its payment. -/
def once : List Event :=
  [.detect sampleBet, .call sampleBet, .acquire] ++ opening ++ registering "first"

/-- It confirms it again before the first confirmation has written a row. -/
def twice : List Event :=
  [.detect sampleBet, .detect sampleBet, .call sampleBet, .call sampleBet, .acquire] ++ opening ++
    registering "first" ++ [.acquire] ++ registering "second"

theorem once_run : ∃ s, Run (Recorded sampleMarket) St.init once s ∧
    s.reported.map Receipt.lockTx = ["payment"] := by
  let f := fun s e => if RecordsTicket s e then step sampleMarket s e else none
  have hsome : (once.foldlM f St.init).map (fun s => s.reported.map Receipt.lockTx) =
      some ["payment"] := by decide
  obtain ⟨s, hs, hrep⟩ := Option.map_eq_some_iff.mp hsome
  have agree : ∀ s e t, True → f s e = some t → Recorded sampleMarket s e t := by
    intro s e t _ hf
    simp only [f] at hf
    split at hf
    · next hp => exact ⟨hf, hp⟩
    · cases hf
  exact ⟨s, (Run.of_foldlM hs).imp (fun _ _ _ _ _ => trivial) agree trivial, hrep⟩

/-- A market in which one bet was registered. -/
theorem shards_account_once : ∃ s, Run (Recorded sampleMarket) St.init once s ∧
    s.reported.map Receipt.lockTx = ["payment"] ∧ Accounts s ∧ Frozen St.init.db s.db := by
  obtain ⟨s, hs, hrep⟩ := once_run
  exact ⟨s, hs, hrep, shards_account (.nil St.init) hs⟩

/-- **A payment that is confirmed twice is registered twice**: both registrations are reported, and
there is one row. -/
theorem confirmed_twice : ∃ s,
    Run (fun s e t => step sampleMarket s e = some t) St.init twice s ∧
      s.reported.map Receipt.lockTx = ["payment", "payment"] ∧ s.db.sides.length = 1 ∧
        ¬ Accounts s := by
  have hsome : (twice.foldlM (step sampleMarket) St.init).map
      (fun s => (s.reported.map Receipt.lockTx, s.db.sides.length)) =
        some (["payment", "payment"], 1) := by decide
  obtain ⟨s, hs, hrep⟩ := Option.map_eq_some_iff.mp hsome
  obtain ⟨hlocks, hsides⟩ := Prod.mk.inj hrep
  refine ⟨s, Run.of_foldlM hs, hlocks, hsides, ?_⟩
  intro ha
  have := ha.distinct
  rw [hlocks] at this
  exact absurd this (by decide)

end KANet.Register
