import KANet.Lib.Along
import KANet.Lib.Table
import KANet.Relay.EndBlock

/-!
# The index of the selected chain

The relay keeps the blocks that are announced as blocks of the selected chain in a queue until they
are deep enough, and posts them to the console.  The console writes one row for a score and keeps
the ranges of scores that it takes to be covered: a block at most ten above the end of the last
range extends it.

Which blocks are on the chain is read when they are announced, and nothing tells a range that is
covered from one with blocks missing.

* `trackBlock`, `drainFinalitySafeBlocks` — `rpc-listener.mjs`.
* `ingestSpcDaaBlock` — `POST /ingest/spc-daa-block`.
* `spcDaaIndex` — `GET /api/chain/spc-daa-index`.
* `index_run` — runs in which every answer is the end block.
-/

namespace KANet.Relay.SpcIndex

open KANet.Lib Relation

variable {H : Type} [DecidableEq H]

/-! ### The relay -/

def SPC_INDEX_FINALITY_DEPTH : Nat := 50

def RECENT_BLOCKS_MAX : Nat := 120000

/-- From the front, what is deep enough, and what stays. -/
def drainFinalitySafeBlocks (queue : List (EndBlock H)) (maxSeenDaaScore finalityDepth : Nat) :
    List (EndBlock H) × List (EndBlock H) :=
  queue.span fun b => b.daaScore + finalityDepth ≤ maxSeenDaaScore

/-! ### The console -/

/-- A row of `spc_daa_index_coverage`. -/
structure Coverage where
  id : Nat
  start_daa : Nat
  end_daa : Nat
deriving DecidableEq

structure Node (H : Type) where
  recentBlocks : List (RecentBlock H)
  maxSeenDaaScore : Nat
  pendingFinalityQueue : List (EndBlock H)
  -- on their way to the console
  posts : List (EndBlock H)
  spc_daa_index : Table (EndBlock.daaScore (H := H))
  spc_daa_index_coverage : Table Coverage.id

/-- `ORDER BY end_daa DESC LIMIT 1` -/
def Node.latest (n : Node H) : Option Coverage := n.spc_daa_index_coverage.rows.argmax (·.end_daa)

def SPC_INDEX_ADJACENCY_PLACEHOLDER : Nat := 10

/-- The block is taken to follow the range. -/
def Coverage.adjacent (r : Coverage) (daaScore : Nat) : Bool :=
  r.end_daa ≤ daaScore && daaScore ≤ r.end_daa + SPC_INDEX_ADJACENCY_PLACEHOLDER

def openRange (t : Table Coverage.id) (daaScore : Nat) : Table Coverage.id :=
  (t.insert ⟨t.rows.length + 1, daaScore, daaScore⟩).getD t

/-- What becomes of the ranges. -/
def cover (n : Node H) (daaScore : Nat) : Table Coverage.id :=
  match n.latest with
  | none => openRange n.spc_daa_index_coverage daaScore
  | some latest =>
    if latest.adjacent daaScore then
      n.spc_daa_index_coverage.updateWhere (·.id = latest.id)
        (fun r => { r with end_daa := daaScore }) fun _ => rfl
    else if latest.end_daa < daaScore then openRange n.spc_daa_index_coverage daaScore
    else n.spc_daa_index_coverage

/-- `INSERT OR IGNORE`, then the ranges. -/
def ingestSpcDaaBlock (n : Node H) (p : EndBlock H) : Node H :=
  { n with
    spc_daa_index := (n.spc_daa_index.insert p).getD n.spc_daa_index
    spc_daa_index_coverage := cover n p.daaScore }

/-- The answer for a deadline, where it is covered. -/
def spcDaaIndex (n : Node H) (deadlineDaa : Nat) : Option (EndBlock H) := do
  let coverage ← n.spc_daa_index_coverage.rows.find? fun r =>
    r.start_daa ≤ deadlineDaa && deadlineDaa ≤ r.end_daa
  let row ← (n.spc_daa_index.rows.filter (deadlineDaa ≤ ·.daaScore)).argmin (·.daaScore)
  if coverage.end_daa < row.daaScore then none else some row

/-! ### Steps -/

inductive Event (H : Type)
  -- a block is announced, as of the selected chain or not
  | blockAdded (h : H) (isChainBlock : Bool)
  -- a post at a place of the list arrives, or is lost
  | ingest (i : Nat)
  | lose (i : Nat)
  | restart

/-- The oldest blocks are dropped when there are too many. -/
def remember (recent : List (RecentBlock H)) (b : RecentBlock H) : List (RecentBlock H) :=
  let recent := recent ++ [b]
  if RECENT_BLOCKS_MAX < recent.length then recent.drop (recent.length - RECENT_BLOCKS_MAX)
  else recent

/-- `_trackBlockForChainReader` -/
def trackBlock (n : Node H) (b : Block H) (isChainBlock : Bool) : Node H :=
  if b.daaScore = 0 ∨ n.recentBlocks.any (·.hash = b.hash) then n
  else
    let maxSeenDaaScore := max n.maxSeenDaaScore b.daaScore
    let queue := n.pendingFinalityQueue ++ if isChainBlock then [b.toEnd] else []
    let drained := drainFinalitySafeBlocks queue maxSeenDaaScore SPC_INDEX_FINALITY_DEPTH
    { n with
      recentBlocks := remember n.recentBlocks ⟨b.hash, b.daaScore, b.timestamp_ms, isChainBlock⟩
      maxSeenDaaScore
      pendingFinalityQueue := drained.2
      posts := n.posts ++ drained.1 }

def step (d : Dag H) (n : Node H) : Event H → Node H
  | .blockAdded h isChainBlock => (d.block h).elim n fun b => trackBlock n b isChainBlock
  | .ingest i => n.posts[i]?.elim n fun p =>
    ingestSpcDaaBlock { n with posts := n.posts.eraseIdx i } p
  | .lose i => { n with posts := n.posts.eraseIdx i }
  | .restart => { n with recentBlocks := [], maxSeenDaaScore := 0, pendingFinalityQueue := [] }

def init : Node H := ⟨[], 0, [], [], .empty _, .empty _⟩

def run (d : Dag H) (es : List (Event H)) : Node H := es.foldl (step d) init

/-! ### Answers -/

/-- **Every answer is the end block** of the chain that is final, which is what walking back from
its tip finds. -/
def Canonical (d : Dag H) (n : Node H) : Prop :=
  ∀ deadlineDaa e, spcDaaIndex n deadlineDaa = some e →
    (∃ b, b.toEnd = e ∧ d.IsEnd deadlineDaa b) ∧
      ∀ rpc, Serves rpc d → ∀ MAX_WALK e',
        backward rpc deadlineDaa MAX_WALK d.sink none = .ok e' → e' = e

/-- What arrives is of the chain that is final, and where it extends a range no block of that chain
is between. -/
def Fair (d : Dag H) (n : Node H) : Event H → Prop
  | .ingest i => ∀ p, n.posts[i]? = some p →
      (∀ b, d.block p.hash = some b → b.isChainBlock = true) ∧
        ∀ r, n.latest = some r → r.adjacent p.daaScore = true → ∀ b, d.block b.hash = some b →
          b.isChainBlock = true → ¬ (r.end_daa < b.daaScore ∧ b.daaScore < p.daaScore)
  | _ => True

def FairRun (d : Dag H) (es : List (Event H)) : Prop := Along (Fair d) (step d) init es

/-! ### The invariant -/

variable {d : Dag H} {n : Node H}

/-- A block of the DAG. -/
def Known (d : Dag H) (e : EndBlock H) : Prop := ∃ b, d.block b.hash = some b ∧ b.toEnd = e

/-- A block of the chain. -/
def OnChain (d : Dag H) (e : EndBlock H) : Prop :=
  ∃ b, d.block b.hash = some b ∧ b.isChainBlock = true ∧ b.toEnd = e

/-- The range ends with a block of the index, and has all that the chain has. -/
structure Covered (d : Dag H) (index : List (EndBlock H)) (r : Coverage) : Prop where
  last : ∃ e ∈ index, e.daaScore = r.end_daa
  all : ∀ b, d.block b.hash = some b → b.isChainBlock = true → r.start_daa ≤ b.daaScore →
    b.daaScore ≤ r.end_daa → b.toEnd ∈ index

structure Inv (d : Dag H) (n : Node H) : Prop where
  queue : ∀ e ∈ n.pendingFinalityQueue, Known d e
  posts : ∀ e ∈ n.posts, Known d e
  index : ∀ e ∈ n.spc_daa_index.rows, OnChain d e
  covered : ∀ r ∈ n.spc_daa_index_coverage.rows, Covered d n.spc_daa_index.rows r

/-- The chain has one block of a score. -/
theorem OnChain.eq_of_daaScore {e e' : EndBlock H} (h : OnChain d e) (h' : OnChain d e')
    (hdaa : e.daaScore = e'.daaScore) : e = e' := by
  obtain ⟨b, hb, hchain, rfl⟩ := h
  obtain ⟨c, hc, hchain', rfl⟩ := h'
  have heq := eq_of_daaScore_eq ((d.chain_iff _ b hb).mp hchain) ((d.chain_iff _ c hc).mp hchain')
    hb hc hdaa
  rw [← heq, hb] at hc
  rw [Option.some.inj hc]

theorem Covered.mono {index index' : List (EndBlock H)} {r : Coverage} (h : Covered d index r)
    (hsub : ∀ e ∈ index, e ∈ index') : Covered d index' r := by
  obtain ⟨e, he, hend⟩ := h.last
  exact ⟨⟨e, hsub e he, hend⟩, fun b hb hchain hs hle => hsub _ (h.all b hb hchain hs hle)⟩

/-- A range of one block. -/
theorem covered_single {index : List (EndBlock H)} {p : EndBlock H} (id : Nat) (hp : p ∈ index)
    (hchain : OnChain d p) : Covered d index ⟨id, p.daaScore, p.daaScore⟩ := by
  refine ⟨⟨p, hp, rfl⟩, fun b hb hb' hs hle => ?_⟩
  have hbp : OnChain d b.toEnd := ⟨b, hb, hb', rfl⟩
  rw [hbp.eq_of_daaScore hchain (le_antisymm hle hs)]
  exact hp

/-- A range that a block extends with nothing between. -/
theorem Covered.extend {index : List (EndBlock H)} {r : Coverage} {p : EndBlock H}
    (h : Covered d index r) (hp : p ∈ index) (hchain : OnChain d p)
    (hgap : ∀ b, d.block b.hash = some b → b.isChainBlock = true →
      ¬ (r.end_daa < b.daaScore ∧ b.daaScore < p.daaScore)) :
    Covered d index { r with end_daa := p.daaScore } := by
  refine ⟨⟨p, hp, rfl⟩, fun b hb hb' hs hle => ?_⟩
  by_cases hin : b.daaScore ≤ r.end_daa
  · exact h.all b hb hb' hs hin
  · have hle : b.daaScore ≤ p.daaScore := hle
    have heq : b.daaScore = p.daaScore := by
      have := hgap b hb hb'
      omega
    have hbp : OnChain d b.toEnd := ⟨b, hb, hb', rfl⟩
    rw [hbp.eq_of_daaScore hchain heq]
    exact hp

/-- A block of the chain is in the index when it has been inserted. -/
theorem mem_insert {t : Table (EndBlock.daaScore (H := H))} {p : EndBlock H}
    (hindex : ∀ e ∈ t.rows, OnChain d e) (hp : OnChain d p) :
    (∀ e ∈ ((t.insert p).getD t).rows, OnChain d e) ∧ p ∈ ((t.insert p).getD t).rows ∧
      ∀ e ∈ t.rows, e ∈ ((t.insert p).getD t).rows := by
  cases hins : t.insert p with
  | none =>
    obtain ⟨e, he⟩ := Option.isSome_iff_exists.mp (Table.insert_eq_none.mp hins)
    have hmem := Table.mem_of_get he
    obtain rfl := (hindex e hmem).eq_of_daaScore hp (Table.key_of_get he)
    exact ⟨hindex, hmem, fun _ h => h⟩
  | some t' =>
    have hrows := Table.rows_of_insert hins
    rw [Option.getD_some, hrows]
    refine ⟨fun e he => ?_, List.mem_append_right _ (List.mem_singleton_self p),
      fun e he => List.mem_append_left _ he⟩
    rcases List.mem_append.mp he with he | he
    · exact hindex e he
    · rwa [List.mem_singleton.mp he]

theorem mem_openRange {t : Table Coverage.id} {daaScore : Nat} {r : Coverage}
    (h : r ∈ (openRange t daaScore).rows) :
    r ∈ t.rows ∨ r = ⟨t.rows.length + 1, daaScore, daaScore⟩ := by
  unfold openRange at h
  cases hins : t.insert ⟨t.rows.length + 1, daaScore, daaScore⟩ with
  | none =>
    rw [hins] at h
    exact Or.inl h
  | some t' =>
    rw [hins, Option.getD_some, Table.rows_of_insert hins] at h
    rcases List.mem_append.mp h with h | h
    · exact Or.inl h
    · exact Or.inr (List.mem_singleton.mp h)

/-- **A block that arrives** leaves the ranges covered. -/
theorem Inv.ingest {p : EndBlock H} (h : Inv d n) (hp : OnChain d p)
    (hgap : ∀ r, n.latest = some r → r.adjacent p.daaScore = true → ∀ b, d.block b.hash = some b →
      b.isChainBlock = true → ¬ (r.end_daa < b.daaScore ∧ b.daaScore < p.daaScore)) :
    Inv d (ingestSpcDaaBlock n p) := by
  obtain ⟨hindex, hmem, hsub⟩ := mem_insert h.index hp
  have hopen : ∀ r ∈ (openRange n.spc_daa_index_coverage p.daaScore).rows,
      Covered d (ingestSpcDaaBlock n p).spc_daa_index.rows r := by
    intro r hr
    rcases mem_openRange hr with hr | rfl
    · exact (h.covered r hr).mono hsub
    · exact covered_single _ hmem hp
  refine ⟨h.queue, h.posts, hindex, fun r hr => ?_⟩
  have hr : r ∈ (cover n p.daaScore).rows := hr
  unfold cover at hr
  cases hlatest : n.latest with
  | none =>
    rw [hlatest] at hr
    exact hopen r hr
  | some latest =>
    rw [hlatest] at hr
    dsimp only at hr
    split at hr
    · next hadj =>
      obtain ⟨r₀, hr₀, rfl⟩ := List.mem_map.mp hr
      have hcov := (h.covered r₀ hr₀).mono hsub
      split
      · next hid =>
        have hlast : latest ∈ n.spc_daa_index_coverage.rows := List.argmax_mem hlatest
        obtain rfl := List.inj_on_of_nodup_map n.spc_daa_index_coverage.unique hr₀ hlast
          (of_decide_eq_true hid)
        exact hcov.extend hmem hp (hgap _ hlatest hadj)
      · exact hcov
    · split at hr
      · exact hopen r hr
      · exact (h.covered r hr).mono hsub

omit [DecidableEq H] in
theorem mem_of_drain {queue : List (EndBlock H)} {maxSeenDaaScore finalityDepth : Nat}
    {e : EndBlock H} (h : e ∈ (drainFinalitySafeBlocks queue maxSeenDaaScore finalityDepth).1 ∨
      e ∈ (drainFinalitySafeBlocks queue maxSeenDaaScore finalityDepth).2) : e ∈ queue := by
  unfold drainFinalitySafeBlocks at h
  rw [List.span_eq_takeWhile_dropWhile] at h
  rcases h with h | h
  · exact (List.takeWhile_sublist _).mem h
  · exact (List.dropWhile_sublist _).mem h

theorem Inv.trackBlock {b : Block H} (h : Inv d n) (hb : d.block b.hash = some b)
    (isChainBlock : Bool) : Inv d (trackBlock n b isChainBlock) := by
  unfold SpcIndex.trackBlock
  split
  · exact h
  · have hqueue : ∀ e ∈ n.pendingFinalityQueue ++ (if isChainBlock then [b.toEnd] else []),
        Known d e := by
      intro e he
      rcases List.mem_append.mp he with he | he
      · exact h.queue e he
      · split at he
        · rw [List.mem_singleton.mp he]
          exact ⟨b, hb, rfl⟩
        · cases he
    refine ⟨fun e he => hqueue e (mem_of_drain (Or.inr he)), fun e he => ?_, h.index, h.covered⟩
    rcases List.mem_append.mp he with he | he
    · exact h.posts e he
    · exact hqueue e (mem_of_drain (Or.inl he))

theorem Inv.step {e : Event H} (h : Inv d n) (hfair : Fair d n e) : Inv d (step d n e) := by
  have hposts : ∀ i, ∀ e ∈ n.posts.eraseIdx i, Known d e :=
    fun i e he => h.posts e (List.mem_of_mem_eraseIdx he)
  cases e with
  | blockAdded hash isChainBlock =>
    unfold SpcIndex.step
    dsimp only
    cases hb : d.block hash with
    | none => exact h
    | some b =>
      obtain rfl := d.hash_eq hash b hb
      exact h.trackBlock hb isChainBlock
  | ingest i =>
    unfold SpcIndex.step
    dsimp only
    cases hp : n.posts[i]? with
    | none => exact h
    | some p =>
      obtain ⟨hchain, hgap⟩ := hfair p hp
      obtain ⟨b, hb, rfl⟩ := h.posts p (List.mem_of_getElem? hp)
      have hinv : Inv d { n with posts := n.posts.eraseIdx i } :=
        ⟨h.queue, hposts i, h.index, h.covered⟩
      exact hinv.ingest ⟨b, hb, hchain b hb, rfl⟩ hgap
  | lose i => exact ⟨h.queue, hposts i, h.index, h.covered⟩
  | restart => exact ⟨fun _ he => absurd he List.not_mem_nil, h.posts, h.index, h.covered⟩

/-- **An answer is the end block.** -/
theorem Inv.isEnd {deadlineDaa : Nat} {e : EndBlock H} (h : Inv d n)
    (he : spcDaaIndex n deadlineDaa = some e) : ∃ b, b.toEnd = e ∧ d.IsEnd deadlineDaa b := by
  unfold spcDaaIndex at he
  obtain ⟨r, hr, he⟩ := Option.bind_eq_some_iff.mp he
  obtain ⟨row, hrow, he⟩ := Option.bind_eq_some_iff.mp he
  split at he
  · cases he
  · next hend =>
    obtain rfl := Option.some.inj he
    have hrange := List.find?_some hr
    rw [Bool.and_eq_true, decide_eq_true_eq, decide_eq_true_eq] at hrange
    have hmin := List.argmin_mem hrow
    obtain ⟨hmem, hdaa⟩ := List.mem_filter.mp hmin
    have hdaa : deadlineDaa ≤ row.daaScore := of_decide_eq_true hdaa
    obtain ⟨b, hb, hchain, rfl⟩ := h.index row hmem
    refine ⟨b, rfl, hb, ⟨hchain, by exact_mod_cast hdaa⟩, fun c hc hcross => ?_⟩
    have hcdaa : deadlineDaa ≤ c.daaScore := by exact_mod_cast hcross.2
    have hbend : b.daaScore ≤ r.end_daa := not_lt.mp hend
    by_cases hin : c.daaScore ≤ r.end_daa
    · have hcmem := (h.covered r (List.mem_of_find?_eq_some hr)).all c hc hcross.1
        (hrange.1.trans hcdaa) hin
      have hle : ¬ c.toEnd.daaScore < b.toEnd.daaScore := List.not_lt_of_mem_argmin
        (List.mem_filter.mpr ⟨hcmem, decide_eq_true hcdaa⟩) hrow
      exact not_lt.mp hle
    · omega

theorem Inv.canonical (h : Inv d n) : Canonical d n := by
  intro deadlineDaa e he
  obtain ⟨b, rfl, hend⟩ := h.isEnd he
  refine ⟨⟨b, rfl, hend⟩, fun rpc hs w e' hwalk => ?_⟩
  have hw : Walks d deadlineDaa d.sink none :=
    ⟨.refl, fun _ => rfl, fun _ hnone => by cases hnone⟩
  obtain ⟨c, rfl, hcend⟩ := backward_isEnd hs hw hwalk
  rw [hcend.unique hend]

theorem inv_init : Inv d (init : Node H) where
  queue _ he := absurd he List.not_mem_nil
  posts _ he := absurd he List.not_mem_nil
  index _ he := absurd he List.not_mem_nil
  covered _ hr := absurd hr List.not_mem_nil

/-- **Every answer is the end block**, in runs in which what arrives is of the chain and leaves no
gap in a range. -/
theorem index_run {es : List (Event H)} (h : FairRun d es) : Canonical d (run d es) :=
  (Along.invariant (I := fun _ n => Inv d n) h inv_init fun _ _ ih hfair => ih.step hfair).canonical

/-! ### A block that is missed -/

/-- A chain without anything beside it. -/
def lineBlock (h : Nat) : Option (Block Nat) :=
  if h ≤ 70 then some ⟨h, h + 1, 0, true, if h = 0 then none else some (h - 1)⟩ else none

theorem lineBlock_eq_some {h : Nat} {b : Block Nat} (hb : lineBlock h = some b) :
    h ≤ 70 ∧ b = ⟨h, h + 1, 0, true, if h = 0 then none else some (h - 1)⟩ := by
  unfold lineBlock at hb
  split at hb
  · next hle => exact ⟨hle, (Option.some.inj hb).symm⟩
  · cases hb

theorem line_selects {h p : Nat} : Selects lineBlock h p ↔ h ≤ 70 ∧ h = p + 1 := by
  constructor
  · rintro ⟨b, hb, hp⟩
    obtain ⟨hle, rfl⟩ := lineBlock_eq_some hb
    by_cases h0 : h = 0
    · simp [h0] at hp
    · simp [h0] at hp
      omega
  · rintro ⟨hle, rfl⟩
    exact ⟨_, if_pos hle, by simp⟩

theorem line_onChain {h : Nat} (hle : h ≤ 70) : ReflTransGen (Selects lineBlock) 70 h := by
  induction hn : 70 - h generalizing h with
  | zero =>
    obtain rfl : h = 70 := by omega
    exact .refl
  | succ n ih =>
    have habove : ReflTransGen (Selects lineBlock) 70 (h + 1) := ih (by omega) (by omega)
    exact habove.tail (line_selects.mpr ⟨by omega, rfl⟩)

def line : Dag Nat where
  block := lineBlock
  parents h := [h - 1]
  sink := 70
  hash_eq h b hb := by
    obtain ⟨-, rfl⟩ := lineBlock_eq_some hb
    rfl
  sink_mem := rfl
  selected h p hs := by
    obtain ⟨hle, rfl⟩ := line_selects.mp hs
    exact ⟨List.mem_singleton.mpr rfl, by rw [lineBlock, if_pos (by omega)]; rfl⟩
  chain_iff h b hb := by
    obtain ⟨hle, rfl⟩ := lineBlock_eq_some hb
    exact ⟨fun _ => line_onChain hle, fun _ => rfl⟩
  increasing h b p c _ hb hp hc := by
    obtain ⟨-, rfl⟩ := lineBlock_eq_some hb
    obtain ⟨-, rfl⟩ := lineBlock_eq_some hc
    have hs : Selects lineBlock h p := ⟨_, hb, hp⟩
    have := (line_selects.mp hs).2
    show p + 1 < h + 1
    omega

/-- A block and the next but one are announced, then the tip; the first two arrive. -/
def announced (h k : Nat) : List (Event Nat) :=
  [.blockAdded h true, .blockAdded k true, .blockAdded 70 true, .ingest 0, .ingest 0]

theorem nothing_missed_fair : FairRun line (announced 10 11) := by
  refine .cons trivial (.cons trivial (.cons trivial (.cons ?_ (.cons ?_ .nil))))
  · intro p hp
    refine ⟨fun b hb => by rw [(lineBlock_eq_some hb).2], fun r hr => ?_⟩
    have hnone : (Node.latest (run line ((announced 10 11).take 3))).isNone := by decide +kernel
    have hr : (run line ((announced 10 11).take 3)).latest = some r := hr
    rw [hr] at hnone
    cases hnone
  · intro p hp
    refine ⟨fun b hb => by rw [(lineBlock_eq_some hb).2], fun r hr _ b _ _ => ?_⟩
    have hlast : (Node.latest (run line ((announced 10 11).take 4))).all (·.end_daa = 11) := by
      decide +kernel
    have hr : (run line ((announced 10 11).take 4)).latest = some r := hr
    rw [hr, Option.all_some] at hlast
    have hnext : ((run line ((announced 10 11).take 4)).posts[0]?).all (·.daaScore = 12) := by
      decide +kernel
    have hp : (run line ((announced 10 11).take 4)).posts[0]? = some p := hp
    rw [hp, Option.all_some] at hnext
    have := of_decide_eq_true hlast
    have := of_decide_eq_true hnext
    omega

theorem nothing_missed_canonical : Canonical line (run line (announced 10 11)) :=
  index_run nothing_missed_fair

/-- With the block between them missed, a deadline at its score is answered by the next one. -/
theorem missed_block_covered :
    spcDaaIndex (run line (announced 10 12)) 12 = some ⟨12, 13, 0⟩ ∧
      ¬ Canonical line (run line (announced 10 12)) := by
  have hanswer : spcDaaIndex (run line (announced 10 12)) 12 = some ⟨12, 13, 0⟩ := by
    decide +kernel
  refine ⟨hanswer, fun h => ?_⟩
  obtain ⟨b, hb, hend⟩ := (h 12 _ hanswer).1
  have hle := hend.lowest ⟨11, 12, 0, true, some 10⟩ rfl ⟨rfl, le_refl _⟩
  have hdaa : b.daaScore = 13 := congrArg EndBlock.daaScore hb
  have hle : b.daaScore ≤ 12 := hle
  omega

end KANet.Relay.SpcIndex
