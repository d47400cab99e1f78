import KANet.Lib.OrderedMap
import KANet.Lib.Refuse
import Mathlib.Data.List.Dedup
import Mathlib.Data.List.Induction

/-!
# Payloads in pieces

A payload too long for one message is broadcast in chunks.  Each names the hash of the whole, its
place, and how many there are.  Whoever listens keeps the chunks by hash and puts a payload together
once it has a chunk for every place; what does not have the announced hash is dropped, with all that
was kept of it.  The messages are also stored, and the stored ones are put together again for
markets that were missed.

Anyone can send a chunk under any hash.  What is dispatched always has its hash, but one chunk that
is not the sender's is enough to keep a payload from being put together.

* `handlePoolMarketChunk` — the listener.
* `catchUpUningestedMarkets` — the stored messages.
* `reassembly` — what both make of the chunks.
-/

namespace KANet.Broadcast

open KANet.Lib

/-- A field of a message, by what `Number` makes of it: one that is missing, one that is false and
counts as zero, an integer, or something else. -/
inductive Field
  | undefined
  | falsy
  | number (n : Int)
  | other (text : String)
deriving DecidableEq

def Field.toInt : Field → Option Int
  | .undefined => none
  | .falsy => some 0
  | .number n => some n
  | .other _ => none

/-- The field of a number. -/
def Field.ofInt (n : Int) : Field := if n = 0 then .falsy else .number n

/-- As the key of a map. -/
def Field.key : Field → Int ⊕ String
  | .undefined => .inr "NaN"
  | .falsy => .inl 0
  | .number n => .inl n
  | .other text => .inr text

structure Chunk where
  hash : String
  ord : Field
  total : Field
  data : Option String
deriving DecidableEq

/-- What a payload says it is. -/
structure Inner where
  t : String
  market_id : String

def POOL_CHUNK_TTL_MS : Int := 30 * 60 * 1000

def POOL_CHUNK_MAX_ENTRIES : Nat := 200

/-- The kinds of payload that are dispatched. -/
def dispatched : List String :=
  ["pool_market_published_v1", "oracle_stake_enroll_v1", "oracle_stake_withdraw_v1",
    "pool_oracle_vote_v1", "pool_bet_registered_v1", "kanet_pool_oracle_tx_sign_req_v1",
    "kanet_pool_oracle_tx_sign_resp_v1", "pool_refund_request_v1"]

/-! ### The listener -/

structure Entry where
  total : Int
  parts : OrderedMap Int String
  firstAt : Int

abbrev Cache := OrderedMap String Entry

/-- The chunk in each place, in order. -/
def ordered {κ : Type} [DecidableEq κ] (place : Nat → κ) (parts : OrderedMap κ String)
    (total : Int) : Option (List String) :=
  (List.range total.toNat).mapM fun i => parts.get (place i)

/-- The oldest are dropped where there are too many. -/
def evictOldest (cache : Cache) : Cache :=
  let sorted := cache.entries.mergeSort fun a b => a.2.firstAt ≤ b.2.firstAt
  let old := (sorted.take (cache.size - POOL_CHUNK_MAX_ENTRIES)).map Prod.fst
  cache.filter fun e => e.1 ∉ old

def _evictExpiredChunks (now : Int) (cache : Cache) : Cache :=
  let fresh := cache.filter fun e => ¬ POOL_CHUNK_TTL_MS < now - e.2.firstAt
  if POOL_CHUNK_MAX_ENTRIES < fresh.size then evictOldest fresh else fresh

/-- The place and the number of places of a chunk, and its data. -/
def Chunk.accepted (msg : Chunk) : Option (Int × Int × String) := do
  if msg.hash = "" ∨ msg.ord = .undefined ∨ msg.total = .undefined ∨ msg.total = .falsy then none
  else do
    let data ← msg.data
    let total ← msg.total.toInt
    let ord ← msg.ord.toInt
    if total ≤ 0 ∨ ord < 0 ∨ total ≤ ord then none else some (ord, total, data)

/-- The entry a chunk belongs to, unless the hash is kept with another number of places. -/
def entryFor (cache : Cache) (hash : String) (total now : Int) : Option Entry :=
  match cache.get hash with
  | none => some ⟨total, .empty, now⟩
  | some entry => if entry.total = total then some entry else none

/-- A payload on its way to its handler, with the hash it was announced under. -/
structure Dispatch where
  hash : String
  payload : String
deriving DecidableEq

/-- How payloads are hashed and read. -/
structure Codec where
  sha256 : String → String
  parse : String → Option Inner

variable (c : Codec)

def Codec.dispatch (hash reassembled : String) : Option Dispatch := do
  let inner ← c.parse reassembled
  if inner.t ∈ dispatched then some ⟨hash, reassembled⟩ else none

/-- What becomes of a full entry. -/
def Codec.complete (cache : Cache) (hash : String) (entry : Entry) : Cache × Option Dispatch :=
  match ordered (Nat.cast : Nat → Int) entry.parts entry.total with
  | none => (cache, none)
  | some parts =>
    (cache.erase hash,
      if c.sha256 (String.join parts) = hash then c.dispatch hash (String.join parts) else none)

def handlePoolMarketChunk (now : Int) (cache : Cache) (msg : Chunk) : Cache × Option Dispatch :=
  let cache := _evictExpiredChunks now cache
  match msg.accepted with
  | none => (cache, none)
  | some (ord, total, data) =>
    match entryFor cache msg.hash total now with
    | none => (cache, none)
    | some entry =>
      let entry := { entry with parts := entry.parts.set ord data }
      let cache := cache.set msg.hash entry
      if (entry.parts.size : Int) < total then (cache, none) else c.complete cache msg.hash entry

/-- The messages as they arrive, each at its time. -/
def receive (msgs : List (Int × Chunk)) : Cache × List Dispatch :=
  msgs.foldl (fun s m =>
    let r := handlePoolMarketChunk c m.1 s.1 m.2
    (r.1, s.2 ++ r.2.toList)) (.empty, [])

/-! ### The stored messages -/

structure Group where
  total : Field
  parts : OrderedMap (Int ⊕ String) (Option String)

def groupOne (byHash : OrderedMap String Group) (msg : Chunk) : OrderedMap String Group :=
  if msg.hash = "" ∨ msg.ord = .undefined ∨ msg.total = .undefined ∨ msg.total = .falsy then byHash
  else
    let e := (byHash.get msg.hash).getD ⟨msg.total, .empty⟩
    byHash.set msg.hash { e with parts := e.parts.set msg.ord.key msg.data }

def groupByHash (rows : List Chunk) : OrderedMap String Group := rows.foldl groupOne .empty

/-- The payload of a group, if every place has a chunk and the hash is right. -/
def Codec.rebuild (hash : String) (e : Group) : Option String := do
  let total ← e.total.toInt
  if (e.parts.size : Int) < total then none
  else do
    let parts ← (List.range total.toNat).mapM fun (i : Nat) => (e.parts.get (.inl (i : Int))).join
    if c.sha256 (String.join parts) = hash then some (String.join parts) else none

/-- Whether a payload publishes a market. -/
def Codec.publishes (payload : String) : Bool :=
  match c.parse payload with
  | some inner => decide (inner.t = "pool_market_published_v1" ∧ inner.market_id ≠ "")
  | none => false

/-- The payloads that publish a market: those that came whole, and those put together. -/
def catchUpUningestedMarkets (singles : List String) (chunkRows : List Chunk) : List String :=
  (singles ++ (groupByHash chunkRows).entries.filterMap fun e => c.rebuild e.1 e.2).filter
    (c.publishes ·)

/-! ### What comes of the chunks -/

/-- The chunk in a place of a payload. -/
def genuine (hash : String) (pieces : List String) (i : Nat) : Chunk :=
  ⟨hash, .ofInt i, .ofInt pieces.length, pieces[i]?⟩

/-- A payload is announced under its hash, in pieces. -/
structure Announced (hash payload : String) (pieces : List String) : Prop where
  named : hash ≠ ""
  some_piece : 0 < pieces.length
  join : String.join pieces = payload
  hash_eq : c.sha256 payload = hash

/-- Every chunk under the hash is one of the payload's. -/
def Honest (msgs : List Chunk) (hash : String) (pieces : List String) : Prop :=
  ∀ m ∈ msgs, m.hash = hash → ∃ i < pieces.length, m = genuine hash pieces i

def Arrived (msgs : List Chunk) (hash : String) (pieces : List String) : Prop :=
  ∀ i < pieces.length, genuine hash pieces i ∈ msgs

/-- The messages come within the time an entry is kept, under no more hashes than are kept. -/
structure WithinLimits (msgs : List (Int × Chunk)) : Prop where
  time : ∀ m ∈ msgs, ∀ m' ∈ msgs, m.1 - m'.1 ≤ POOL_CHUNK_TTL_MS
  size : (msgs.map (·.2.hash)).dedup.length ≤ POOL_CHUNK_MAX_ENTRIES

variable {c} {hash payload : String} {pieces : List String} {msgs : List (Int × Chunk)}
  {cache : Cache} {now : Int} {msg : Chunk}

theorem receive_concat (msgs : List (Int × Chunk)) (m : Int × Chunk) :
    receive c (msgs ++ [m]) =
      ((handlePoolMarketChunk c m.1 (receive c msgs).1 m.2).1,
        (receive c msgs).2 ++ (handlePoolMarketChunk c m.1 (receive c msgs).1 m.2).2.toList) := by
  rw [receive, List.foldl_append]
  rfl

theorem toInt_ofInt (n : Int) : (Field.ofInt n).toInt = some n := by
  unfold Field.ofInt
  split
  · next h => rw [h]; rfl
  · rfl

theorem key_ofInt (n : Int) : (Field.ofInt n).key = .inl n := by
  unfold Field.ofInt
  split
  · next h => rw [h]; rfl
  · rfl

theorem ofInt_ne_undefined (n : Int) : Field.ofInt n ≠ .undefined := by
  unfold Field.ofInt
  split
  · exact Field.noConfusion
  · exact Field.noConfusion

/-- A chunk of a payload has its fields. -/
theorem genuine_fields {i : Nat} (hname : hash ≠ "") (hpos : 0 < pieces.length) :
    ¬ ((genuine hash pieces i).hash = "" ∨ (genuine hash pieces i).ord = .undefined ∨
      (genuine hash pieces i).total = .undefined ∨ (genuine hash pieces i).total = .falsy) := by
  have htotal : Field.ofInt pieces.length ≠ .falsy := by
    rw [Field.ofInt, if_neg (by omega)]
    exact Field.noConfusion
  intro h
  rcases h with h | h | h | h
  · exact hname h
  · exact ofInt_ne_undefined _ h
  · exact ofInt_ne_undefined _ h
  · exact htotal h

theorem accepted_eq_some {ord total : Int} {data : String}
    (h : msg.accepted = some (ord, total, data)) :
    0 ≤ ord ∧ ord < total ∧ msg.ord.toInt = some ord ∧ msg.total.toInt = some total ∧
      msg.data = some data := by
  unfold Chunk.accepted at h
  split at h
  · cases h
  · simp only [Option.bind_eq_bind, Option.bind_eq_some_iff] at h
    obtain ⟨data', hdata, total', htotal, ord', hord, h⟩ := h
    split at h
    · cases h
    · next hrange =>
      simp only [Option.some.injEq, Prod.mk.injEq] at h
      obtain ⟨rfl, rfl, rfl⟩ := h
      exact ⟨by omega, by omega, hord, htotal, hdata⟩

theorem accepted_genuine {i : Nat} (hname : hash ≠ "") (hi : i < pieces.length) :
    (genuine hash pieces i).accepted = some ((i : Int), (pieces.length : Int), pieces[i]) := by
  have hdata : (genuine hash pieces i).data = some pieces[i] := List.getElem?_eq_getElem hi
  have hord : (genuine hash pieces i).ord.toInt = some (i : Int) := toInt_ofInt _
  have htot : (genuine hash pieces i).total.toInt = some (pieces.length : Int) := toInt_ofInt _
  rw [Chunk.accepted, if_neg (genuine_fields hname (by omega)), hdata, htot, hord]
  show (if _ then none else _) = _
  rw [if_neg (by omega)]

/-! ### The listener's entries -/

theorem evictOldest_get {h : String} {e : Entry} (hget : (evictOldest cache).get h = some e) :
    cache.get h = some e := (OrderedMap.get_filter.mp hget).1

theorem evict_get {h : String} {e : Entry}
    (hget : (_evictExpiredChunks now cache).get h = some e) : cache.get h = some e := by
  unfold _evictExpiredChunks at hget
  simp only at hget
  split at hget
  · exact (OrderedMap.get_filter.mp (evictOldest_get hget)).1
  · exact (OrderedMap.get_filter.mp hget).1

/-- What is kept under a hash was accepted under it. -/
structure Kept (msgs : List (Int × Chunk)) (h : String) (e : Entry) : Prop where
  positive : 0 < e.total
  since : ∃ m ∈ msgs, m.2.hash = h ∧ m.1 = e.firstAt
  parts : ∀ i d, e.parts.get i = some d → 0 ≤ i ∧ i < e.total ∧
    ∃ m ∈ msgs, m.2.hash = h ∧ m.2.accepted = some (i, e.total, d)

theorem Kept.mono {h : String} {e : Entry} (hk : Kept msgs h e) (m : Int × Chunk) :
    Kept (msgs ++ [m]) h e := by
  obtain ⟨hpos, ⟨m₀, hm₀, hh₀⟩, hparts⟩ := hk
  refine ⟨hpos, ⟨m₀, List.mem_append_left _ hm₀, hh₀⟩, ?_⟩
  intro i d hd
  obtain ⟨h0, hlt, m₁, hm₁, hh₁⟩ := hparts i d hd
  exact ⟨h0, hlt, m₁, List.mem_append_left _ hm₁, hh₁⟩

/-- The entry a chunk is put into. -/
theorem kept_entryFor {ord total : Int} {data : String} {entry : Entry}
    (hacc : msg.accepted = some (ord, total, data))
    (hentry : entryFor cache msg.hash total now = some entry)
    (hkept : ∀ e, cache.get msg.hash = some e → Kept msgs msg.hash e) :
    entry.total = total ∧
      Kept (msgs ++ [(now, msg)]) msg.hash { entry with parts := entry.parts.set ord data } := by
  obtain ⟨h0, hlt, -⟩ := accepted_eq_some hacc
  have hm : (now, msg) ∈ msgs ++ [(now, msg)] := by simp
  unfold entryFor at hentry
  split at hentry
  · obtain rfl := Option.some.inj hentry
    refine ⟨rfl, Int.lt_of_le_of_lt h0 hlt, ⟨_, hm, rfl, rfl⟩, ?_⟩
    intro i d hd
    rw [OrderedMap.get_set] at hd
    split at hd
    · next hi =>
      obtain rfl := Option.some.inj hd
      rw [hi]
      exact ⟨h0, hlt, _, hm, rfl, hacc⟩
    · cases hd
  · next e he =>
    split at hentry
    · next ht =>
      obtain rfl := Option.some.inj hentry
      have hk := (hkept e he).mono (now, msg)
      refine ⟨ht, hk.positive, hk.since, ?_⟩
      intro i d hd
      rw [OrderedMap.get_set] at hd
      split at hd
      · next hi =>
        obtain rfl := Option.some.inj hd
        rw [hi]
        refine ⟨h0, by rw [ht]; exact hlt, _, hm, rfl, ?_⟩
        rw [hacc, ht]
      · exact hk.parts i d hd
    · cases hentry

/-- The chunk that completes an entry leaves nothing of it, and any other is kept. -/
theorem complete_get {entry : Entry} {h : String} {e : Entry}
    (hget : (c.complete cache hash entry).1.get h = some e) : cache.get h = some e := by
  unfold Codec.complete at hget
  split at hget
  · exact hget
  · rw [OrderedMap.get_erase] at hget
    split at hget
    · cases hget
    · exact hget

theorem handle_kept {h : String} {e : Entry}
    (hkept : ∀ h e, cache.get h = some e → Kept msgs h e)
    (hget : (handlePoolMarketChunk c now cache msg).1.get h = some e) :
    Kept (msgs ++ [(now, msg)]) h e := by
  have hevict : ∀ h e, (_evictExpiredChunks now cache).get h = some e → Kept msgs h e :=
    fun h e he => hkept h e (evict_get he)
  unfold handlePoolMarketChunk at hget
  simp only at hget
  split at hget
  · exact (hevict h e hget).mono _
  · next ord total data hacc =>
    split at hget
    · exact (hevict h e hget).mono _
    · next entry hentry =>
      obtain ⟨-, hnew⟩ := kept_entryFor hacc hentry (hevict msg.hash)
      have hset : ∀ e', ((_evictExpiredChunks now cache).set msg.hash
          { entry with parts := entry.parts.set ord data }).get h = some e' →
          Kept (msgs ++ [(now, msg)]) h e' := by
        intro e' he'
        rw [OrderedMap.get_set] at he'
        split at he'
        · next hh =>
          obtain rfl := Option.some.inj he'
          rw [hh]
          exact hnew
        · exact (hevict h e' he').mono _
      split at hget
      · exact hset e hget
      · exact hset e (complete_get hget)

theorem receive_kept {h : String} {e : Entry} (hget : (receive c msgs).1.get h = some e) :
    Kept msgs h e := by
  induction msgs using List.reverseRecOn generalizing h e with
  | nil => cases hget
  | append_singleton msgs m ih =>
    rw [receive_concat] at hget
    exact handle_kept (fun h e he => ih he) hget

/-! ### What is dispatched has its hash -/

/-- The parts of a dispatched payload were accepted under its hash, each in its place. -/
structure Authentic (c : Codec) (msgs : List (Int × Chunk)) (d : Dispatch) : Prop where
  hash : c.sha256 d.payload = d.hash
  parts : ∃ pieces : List String, String.join pieces = d.payload ∧ 0 < pieces.length ∧
    ∀ i (hi : i < pieces.length), ∃ m ∈ msgs, m.2.hash = d.hash ∧
      m.2.accepted = some ((i : Int), (pieces.length : Int), pieces[i])

theorem Authentic.mono {d : Dispatch} (h : Authentic c msgs d) (m : Int × Chunk) :
    Authentic c (msgs ++ [m]) d := by
  obtain ⟨hhash, pieces, hjoin, hpos, hparts⟩ := h
  refine ⟨hhash, pieces, hjoin, hpos, ?_⟩
  intro i hi
  obtain ⟨m₀, hm₀, hh₀⟩ := hparts i hi
  exact ⟨m₀, List.mem_append_left _ hm₀, hh₀⟩

theorem ordered_eq_some {κ : Type} [DecidableEq κ] {place : Nat → κ} {parts : OrderedMap κ String}
    {total : Int} {l : List String} (h : ordered place parts total = some l) :
    l.length = total.toNat ∧ ∀ i (hi : i < l.length), parts.get (place i) = some l[i] := by
  have hmap := mapM_eq_some.mp h
  have hlen : l.length = total.toNat := by
    simpa using (congrArg List.length hmap).symm
  refine ⟨hlen, ?_⟩
  intro i hi
  have hget := congrArg (fun l => l[i]?) hmap
  simpa [hi, hlen ▸ hi] using hget

theorem dispatch_eq_some {s : String} {d : Dispatch} (h : c.dispatch hash s = some d) :
    d = ⟨hash, s⟩ := by
  simp only [Codec.dispatch, Option.bind_eq_bind, Option.bind_eq_some_iff] at h
  obtain ⟨inner, -, h⟩ := h
  split at h
  · exact (Option.some.inj h).symm
  · cases h

theorem complete_authentic {entry : Entry} (hk : Kept msgs hash entry) {d : Dispatch}
    (h : (c.complete cache hash entry).2 = some d) : Authentic c msgs d := by
  unfold Codec.complete at h
  split at h
  · cases h
  · next parts hparts =>
    simp only at h
    split at h
    · next hhash =>
      obtain rfl := dispatch_eq_some h
      obtain ⟨hlen, hget⟩ := ordered_eq_some hparts
      have hpos := hk.positive
      have htotal : (parts.length : Int) = entry.total := by
        rw [hlen]
        omega
      refine ⟨hhash, parts, rfl, by omega, ?_⟩
      intro i hi
      obtain ⟨-, -, m, hm, hmh, hacc⟩ := hk.parts i _ (hget i hi)
      rw [htotal]
      exact ⟨m, hm, hmh, hacc⟩
    · cases h

theorem handle_authentic (hkept : ∀ h e, cache.get h = some e → Kept msgs h e) {d : Dispatch}
    (h : (handlePoolMarketChunk c now cache msg).2 = some d) :
    Authentic c (msgs ++ [(now, msg)]) d := by
  unfold handlePoolMarketChunk at h
  simp only at h
  split at h
  · cases h
  · next ord total data hacc =>
    split at h
    · cases h
    · next entry hentry =>
      obtain ⟨-, hnew⟩ := kept_entryFor hacc hentry fun e he => hkept _ e (evict_get he)
      split at h
      · cases h
      · exact complete_authentic hnew h

theorem receive_authentic {d : Dispatch} (hd : d ∈ (receive c msgs).2) : Authentic c msgs d := by
  induction msgs using List.reverseRecOn with
  | nil => exact absurd hd List.not_mem_nil
  | append_singleton msgs m ih =>
    rw [receive_concat] at hd
    rcases List.mem_append.mp hd with hd | hd
    · exact (ih hd).mono m
    · exact handle_authentic (fun h e he => receive_kept he) (Option.mem_toList.mp hd)

/-! ### A payload whose chunks are its own -/

theorem WithinLimits.of_append {m : List (Int × Chunk)} (h : WithinLimits (msgs ++ m)) :
    WithinLimits msgs := by
  refine ⟨?_, ?_⟩
  · intro a ha b hb
    exact h.time a (List.mem_append_left _ ha) b (List.mem_append_left _ hb)
  · refine Nat.le_trans (List.Subperm.length_le ((List.nodup_dedup _).subperm ?_)) h.size
    intro k hk
    rw [List.mem_dedup] at hk ⊢
    rw [List.map_append]
    exact List.mem_append_left _ hk

theorem Honest.of_append {ms more : List Chunk} (h : Honest (ms ++ more) hash pieces) :
    Honest ms hash pieces :=
  fun m hm => h m (List.mem_append_left _ hm)

/-- Within the limits nothing is evicted. -/
theorem evict_eq {m : Int × Chunk} (hl : WithinLimits (msgs ++ [m]))
    (hkept : ∀ h e, cache.get h = some e → Kept msgs h e) :
    _evictExpiredChunks m.1 cache = cache := by
  have hfresh : cache.filter (fun e => ¬ POOL_CHUNK_TTL_MS < m.1 - e.2.firstAt) = cache := by
    refine OrderedMap.filter_eq_self ?_
    intro h e he
    obtain ⟨m₀, hm₀, -, hat⟩ := (hkept h e (OrderedMap.get_of_mem he)).since
    have := hl.time m (by simp) m₀ (List.mem_append_left _ hm₀)
    rw [← hat]
    exact decide_eq_true (by omega)
  have hsize : cache.size ≤ POOL_CHUNK_MAX_ENTRIES := by
    refine Nat.le_trans (OrderedMap.size_le_of_keys ?_) hl.of_append.size
    intro h hh
    obtain ⟨e, he⟩ := Option.isSome_iff_exists.mp (OrderedMap.get_isSome.mpr hh)
    obtain ⟨m₀, hm₀, hm₀h, -⟩ := (hkept h e he).since
    exact List.mem_dedup.mpr (List.mem_map.mpr ⟨m₀, hm₀, hm₀h⟩)
  unfold _evictExpiredChunks
  rw [hfresh]
  exact if_neg (by omega)

/-- A chunk under another hash leaves the entry alone. -/
theorem handle_get_of_ne (hevict : _evictExpiredChunks now cache = cache) (hne : hash ≠ msg.hash) :
    (handlePoolMarketChunk c now cache msg).1.get hash = cache.get hash := by
  have hset : ∀ e : Entry, (cache.set msg.hash e).get hash = cache.get hash := by
    intro e
    rw [OrderedMap.get_set, if_neg hne]
  unfold handlePoolMarketChunk
  rw [hevict]
  simp only
  split
  · rfl
  · split
    · rfl
    · split
      · exact hset _
      · unfold Codec.complete
        split
        · exact hset _
        · rw [OrderedMap.get_erase, if_neg hne]
          exact hset _

/-- Of a payload whose chunks are its own: it was dispatched, or no chunk has come, or those that
have come are kept and one is missing. -/
def Collected (hash : String) (pieces : List String) (d : Dispatch) (msgs : List (Int × Chunk))
    (s : Cache × List Dispatch) : Prop :=
  d ∈ s.2 ∨
    (s.1.get hash = none ∧ ∀ m ∈ msgs, m.2.hash ≠ hash) ∨
    ∃ e, s.1.get hash = some e ∧ e.total = pieces.length ∧
      (∀ i (hi : i < pieces.length), genuine hash pieces i ∈ msgs.map Prod.snd →
        e.parts.get i = some pieces[i]) ∧
      ¬ Arrived (msgs.map Prod.snd) hash pieces

theorem genuine_inj {i j : Nat} (h : genuine hash pieces i = genuine hash pieces j) : i = j := by
  have hord : (genuine hash pieces i).ord.toInt = (genuine hash pieces j).ord.toInt := by rw [h]
  rw [genuine, genuine, toInt_ofInt, toInt_ofInt] at hord
  exact_mod_cast Option.some.inj hord

/-- A full entry is put together. -/
theorem complete_of_parts {entry : Entry} (hp : Announced c hash payload pieces)
    (htotal : entry.total = pieces.length)
    (hparts : ∀ i (hi : i < pieces.length), entry.parts.get i = some pieces[i]) :
    (c.complete cache hash entry).2 = c.dispatch hash payload := by
  have hord : ordered (Nat.cast : Nat → Int) entry.parts entry.total = some pieces := by
    rw [ordered, mapM_eq_some, htotal, Int.toNat_natCast]
    refine List.ext_getElem (by simp) ?_
    intro i hi hi'
    have hlt : i < pieces.length := by simpa using hi'
    simpa using hparts i hlt
  unfold Codec.complete
  rw [hord]
  show (if c.sha256 (String.join pieces) = hash then _ else none) = _
  rw [hp.join, if_pos hp.hash_eq]

theorem collected_step {d : Dispatch} {m : Int × Chunk} (hp : Announced c hash payload pieces)
    (hd : c.dispatch hash payload = some d) (hl : WithinLimits (msgs ++ [m]))
    (hh : Honest ((msgs ++ [m]).map Prod.snd) hash pieces)
    (h : Collected hash pieces d msgs (receive c msgs)) :
    Collected hash pieces d (msgs ++ [m]) (receive c (msgs ++ [m])) := by
  obtain ⟨now, msg⟩ := m
  have hkept : ∀ h e, (receive c msgs).1.get h = some e → Kept msgs h e :=
    fun h e he => receive_kept he
  have hevict : _evictExpiredChunks now (receive c msgs).1 = (receive c msgs).1 :=
    evict_eq hl hkept
  rw [receive_concat]
  rcases h with hdone | hopen
  · exact Or.inl (List.mem_append_left _ hdone)
  by_cases hmsg : msg.hash = hash
  · -- the chunk is one of the payload's, and goes into an entry of its number of places
    subst hmsg
    obtain ⟨i, hi, hgen⟩ := hh msg (by simp) rfl
    have hacc : msg.accepted = some ((i : Int), (pieces.length : Int), pieces[i]) := by
      rw [hgen]
      exact accepted_genuine hp.named hi
    obtain ⟨entry, hentry, hbefore⟩ : ∃ entry,
        entryFor (receive c msgs).1 msg.hash pieces.length now = some entry ∧
          ∀ j (hj : j < pieces.length), genuine msg.hash pieces j ∈ msgs.map Prod.snd →
            entry.parts.get j = some pieces[j] := by
      rcases hopen with ⟨hnone, hno⟩ | ⟨e, he, htotal, hparts, -⟩
      · refine ⟨⟨pieces.length, .empty, now⟩, ?_, ?_⟩
        · rw [entryFor, hnone]
        · intro j _ hmem
          obtain ⟨m', hm', hgen'⟩ := List.mem_map.mp hmem
          refine absurd ?_ (hno m' hm')
          rw [hgen']
          rfl
      · refine ⟨e, ?_, hparts⟩
        rw [entryFor, he]
        exact if_pos htotal
    obtain ⟨htotal, hnew⟩ := kept_entryFor hacc hentry (hkept msg.hash)
    set entry' : Entry := { entry with parts := entry.parts.set (i : Int) pieces[i] } with hentry'
    -- what has come by now is in the entry
    have hparts : ∀ j (hj : j < pieces.length),
        genuine msg.hash pieces j ∈ (msgs ++ [(now, msg)]).map Prod.snd →
          entry'.parts.get j = some pieces[j] := by
      intro j hj hmem
      show (entry.parts.set (i : Int) pieces[i]).get j = _
      rw [OrderedMap.get_set]
      by_cases hij : (j : Int) = i
      · have hji : j = i := by exact_mod_cast hij
        subst hji
        rw [if_pos rfl]
      · rw [if_neg hij]
        refine hbefore j hj ?_
        rw [List.map_append, List.mem_append] at hmem
        rcases hmem with hmem | hmem
        · exact hmem
        · have : genuine msg.hash pieces j = genuine msg.hash pieces i := by
            rw [← hgen]
            exact List.mem_singleton.mp hmem
          exact absurd (congrArg Nat.cast (genuine_inj this)) hij
    have hkeys : ∀ k ∈ entry'.parts.keys,
        k ∈ (List.range pieces.length).map (Nat.cast : Nat → Int) := by
      intro k hk
      obtain ⟨v, hv⟩ := Option.isSome_iff_exists.mp (OrderedMap.get_isSome.mpr hk)
      obtain ⟨h0, hlt, -⟩ := hnew.parts k v hv
      have hlt' : k < pieces.length := by rwa [show entry'.total = pieces.length from htotal] at hlt
      exact List.mem_map.mpr ⟨k.toNat, List.mem_range.mpr (by omega), by omega⟩
    have hhandle : handlePoolMarketChunk c now (receive c msgs).1 msg =
        if (entry'.parts.size : Int) < pieces.length then
          ((receive c msgs).1.set msg.hash entry', none)
        else c.complete ((receive c msgs).1.set msg.hash entry') msg.hash entry' := by
      unfold handlePoolMarketChunk
      rw [hevict]
      simp only [hacc, hentry, hentry']
    rw [hhandle]
    by_cases hsize : (entry'.parts.size : Int) < pieces.length
    · rw [if_pos hsize]
      refine Or.inr (Or.inr ⟨entry', ?_, htotal, hparts, ?_⟩)
      · rw [OrderedMap.get_set, if_pos rfl]
      · intro hall
        -- a chunk in each place would fill the entry
        have hle : ((List.range pieces.length).map (Nat.cast : Nat → Int)).length ≤
            entry'.parts.keys.length := by
          refine List.Subperm.length_le (List.Nodup.subperm ?_ ?_)
          · exact List.nodup_range.map fun a b hab => by exact_mod_cast hab
          · intro k hk
            obtain ⟨j, hj, rfl⟩ := List.mem_map.mp hk
            have hj := List.mem_range.mp hj
            rw [← OrderedMap.get_isSome, hparts j hj (hall j hj)]
            rfl
        rw [List.length_map, List.length_range, OrderedMap.keys, List.length_map] at hle
        exact absurd hle (by rw [OrderedMap.size] at hsize; omega)
    · rw [if_neg hsize]
      left
      have hfull : ∀ j (hj : j < pieces.length), entry'.parts.get j = some pieces[j] := by
        intro j hj
        have hmem : (j : Int) ∈ entry'.parts.keys := by
          refine OrderedMap.keys_full hkeys ?_ (List.mem_map_of_mem (List.mem_range.mpr hj))
          rw [List.length_map, List.length_range]
          omega
        obtain ⟨v, hv⟩ := Option.isSome_iff_exists.mp (OrderedMap.get_isSome.mpr hmem)
        obtain ⟨-, -, m', hm', hm'h, hacc'⟩ := hnew.parts j v hv
        -- the chunk in that place is the payload's
        obtain ⟨k, hk, hgen'⟩ := hh m'.2 (List.mem_map_of_mem hm') hm'h
        rw [hgen', accepted_genuine hp.named hk] at hacc'
        simp only [Option.some.injEq, Prod.mk.injEq] at hacc'
        obtain ⟨hkj, -, rfl⟩ := hacc'
        have hkj : k = j := by exact_mod_cast hkj
        subst hkj
        exact hv
      have htotal' : entry'.total = pieces.length := htotal
      rw [complete_of_parts hp htotal' hfull, hd]
      exact List.mem_append_right _ (List.mem_singleton.mpr rfl)
  · -- the chunk is of another payload
    have hget := handle_get_of_ne (c := c) hevict (Ne.symm hmsg)
    have hmem : ∀ j, genuine hash pieces j ∈ (msgs ++ [(now, msg)]).map Prod.snd →
        genuine hash pieces j ∈ msgs.map Prod.snd := by
      intro j hj
      rw [List.map_append, List.mem_append] at hj
      rcases hj with hj | hj
      · exact hj
      · have hgen : genuine hash pieces j = msg := List.mem_singleton.mp hj
        rw [← hgen] at hmsg
        exact absurd rfl hmsg
    right
    rcases hopen with ⟨hnone, hno⟩ | ⟨e, he, htotal, hparts, hmissing⟩
    · left
      refine ⟨hget.trans hnone, ?_⟩
      intro m' hm'
      rcases List.mem_append.mp hm' with hm' | hm'
      · exact hno m' hm'
      · rw [List.mem_singleton.mp hm']
        exact hmsg
    · right
      refine ⟨e, hget.trans he, htotal, fun j hj hg => hparts j hj (hmem j hg), ?_⟩
      intro hall
      exact hmissing fun j hj => hmem j (hall j hj)

theorem collected {d : Dispatch} (hp : Announced c hash payload pieces)
    (hd : c.dispatch hash payload = some d) (hl : WithinLimits msgs)
    (hh : Honest (msgs.map Prod.snd) hash pieces) :
    Collected hash pieces d msgs (receive c msgs) := by
  induction msgs using List.reverseRecOn with
  | nil => exact Or.inr (Or.inl ⟨rfl, fun m hm => absurd hm List.not_mem_nil⟩)
  | append_singleton msgs m ih =>
    refine collected_step hp hd hl hh (ih hl.of_append ?_)
    rw [List.map_append] at hh
    exact hh.of_append

/-- **A payload whose chunks are its own is dispatched once they have all come.** -/
theorem receive_complete {d : Dispatch} (hp : Announced c hash payload pieces)
    (hd : c.dispatch hash payload = some d) (hl : WithinLimits msgs)
    (hh : Honest (msgs.map Prod.snd) hash pieces)
    (hall : Arrived (msgs.map Prod.snd) hash pieces) : d ∈ (receive c msgs).2 := by
  rcases collected hp hd hl hh with hdone | ⟨-, hno⟩ | ⟨_, _, _, _, hmissing⟩
  · exact hdone
  · obtain ⟨m, hm, hgen⟩ := List.mem_map.mp (hall 0 hp.some_piece)
    refine absurd ?_ (hno m hm)
    rw [hgen]
    rfl
  · exact absurd hall hmissing

/-! ### The stored messages -/

variable {rows : List Chunk}

/-- What a group holds was stored under its hash. -/
structure Grouped (rows : List Chunk) (h : String) (e : Group) : Prop where
  total : ∃ m ∈ rows, m.hash = h ∧ m.total = e.total
  parts : ∀ k v, e.parts.get k = some v → ∃ m ∈ rows, m.hash = h ∧ m.ord.key = k ∧ m.data = v

theorem groupByHash_concat (rows : List Chunk) (m : Chunk) :
    groupByHash (rows ++ [m]) = groupOne (groupByHash rows) m := by
  rw [groupByHash, List.foldl_append]
  rfl

theorem Grouped.mono {h : String} {e : Group} (hg : Grouped rows h e) (m : Chunk) :
    Grouped (rows ++ [m]) h e := by
  obtain ⟨⟨m₀, hm₀, hh₀⟩, hparts⟩ := hg
  refine ⟨⟨m₀, List.mem_append_left _ hm₀, hh₀⟩, ?_⟩
  intro k v hv
  obtain ⟨m₁, hm₁, hh₁⟩ := hparts k v hv
  exact ⟨m₁, List.mem_append_left _ hm₁, hh₁⟩

theorem groupByHash_grouped {h : String} {e : Group} (hget : (groupByHash rows).get h = some e) :
    Grouped rows h e := by
  induction rows using List.reverseRecOn generalizing h e with
  | nil => cases hget
  | append_singleton rows m ih =>
    have hm : m ∈ rows ++ [m] := by simp
    rw [groupByHash_concat] at hget
    unfold groupOne at hget
    split at hget
    · exact (ih hget).mono m
    · simp only at hget
      rw [OrderedMap.get_set] at hget
      split at hget
      · next hh =>
        obtain rfl := Option.some.inj hget
        subst hh
        cases hold : (groupByHash rows).get m.hash with
        | none =>
          refine ⟨⟨m, hm, rfl, rfl⟩, ?_⟩
          intro k v hv
          simp only [Option.getD_none] at hv
          rw [OrderedMap.get_set] at hv
          split at hv
          · next hk => exact ⟨m, hm, rfl, hk.symm, Option.some.inj hv⟩
          · cases hv
        | some e =>
          have hg := (ih hold).mono m
          refine ⟨hg.total, ?_⟩
          intro k v hv
          simp only [Option.getD_some] at hv
          rw [OrderedMap.get_set] at hv
          split at hv
          · next hk => exact ⟨m, hm, rfl, hk.symm, Option.some.inj hv⟩
          · exact hg.parts k v hv
      · exact (ih hget).mono m

/-- A stored chunk of a payload is in the group of its hash. -/
theorem groupByHash_of_mem {i : Nat} (hname : hash ≠ "") (hpos : 0 < pieces.length)
    (hm : genuine hash pieces i ∈ rows) :
    ∃ e, (groupByHash rows).get hash = some e ∧ (.inl (i : Int)) ∈ e.parts.keys := by
  have hkeep : ∀ (byHash : OrderedMap String Group) (m : Chunk),
      (∃ e, byHash.get hash = some e ∧ (.inl (i : Int)) ∈ e.parts.keys) →
        ∃ e, (groupOne byHash m).get hash = some e ∧ (.inl (i : Int)) ∈ e.parts.keys := by
    intro byHash m h
    obtain ⟨e, he, hk⟩ := h
    unfold groupOne
    split
    · exact ⟨e, he, hk⟩
    · simp only
      rw [OrderedMap.get_set]
      split
      · next hh =>
        refine ⟨_, rfl, ?_⟩
        rw [← hh, he]
        exact OrderedMap.mem_keys_set.mpr (Or.inr hk)
      · exact ⟨e, he, hk⟩
  induction rows using List.reverseRecOn with
  | nil => exact absurd hm List.not_mem_nil
  | append_singleton rows m ih =>
    rw [groupByHash_concat]
    rcases List.mem_append.mp hm with hm | hm
    · exact hkeep _ _ (ih hm)
    · obtain rfl := List.mem_singleton.mp hm
      rw [groupOne, if_neg (genuine_fields hname hpos)]
      simp only
      rw [OrderedMap.get_set, if_pos (show hash = (genuine hash pieces i).hash from rfl)]
      refine ⟨_, rfl, OrderedMap.mem_keys_set.mpr (Or.inl ?_)⟩
      exact (key_ofInt _).symm

/-- **A payload whose chunks are its own is put together from the stored ones.** -/
theorem rebuild_complete (hp : Announced c hash payload pieces) (hh : Honest rows hash pieces)
    (hall : Arrived rows hash pieces) :
    ∃ e, (groupByHash rows).get hash = some e ∧ c.rebuild hash e = some payload := by
  obtain ⟨e, he, -⟩ := groupByHash_of_mem hp.named hp.some_piece (hall 0 hp.some_piece)
  obtain ⟨⟨m, hm, hmh, hmt⟩, hparts⟩ := groupByHash_grouped he
  have htotal : e.total.toInt = some (pieces.length : Int) := by
    obtain ⟨i, -, hgen⟩ := hh m hm hmh
    rw [← hmt, hgen]
    exact toInt_ofInt _
  have hfull : ∀ j (hj : j < pieces.length),
      e.parts.get (.inl (j : Int)) = some (some pieces[j]) := by
    intro j hj
    obtain ⟨e', he', hk⟩ := groupByHash_of_mem hp.named hp.some_piece (hall j hj)
    rw [he] at he'
    obtain rfl := Option.some.inj he'
    obtain ⟨v, hv⟩ := Option.isSome_iff_exists.mp (OrderedMap.get_isSome.mpr hk)
    obtain ⟨m', hm', hm'h, hkey, hdata⟩ := hparts _ v hv
    obtain ⟨k, hkl, hgen⟩ := hh m' hm' hm'h
    rw [hgen, genuine, key_ofInt] at hkey
    have hkj : k = j := by exact_mod_cast Sum.inl.inj hkey
    subst hkj
    rw [hv, ← hdata, hgen, genuine, List.getElem?_eq_getElem hkl]
  have hmap : (List.range pieces.length).mapM
      (fun (i : Nat) => (e.parts.get (.inl (i : Int))).join) = some pieces := by
    rw [mapM_eq_some]
    refine List.ext_getElem (by simp) ?_
    intro i hi hi'
    have hlt : i < pieces.length := by simpa using hi'
    simp [hfull i hlt]
  have hsize : ¬ ((e.parts.size : Int) < pieces.length) := by
    have hle : ((List.range pieces.length).map
        fun i : Nat => (.inl (i : Int) : Int ⊕ String)).length ≤ e.parts.keys.length := by
      refine List.Subperm.length_le (List.Nodup.subperm ?_ ?_)
      · refine List.nodup_range.map ?_
        intro a b hab
        exact_mod_cast Sum.inl.inj hab
      · intro k hk
        obtain ⟨j, hj, rfl⟩ := List.mem_map.mp hk
        rw [← OrderedMap.get_isSome, hfull j (List.mem_range.mp hj)]
        rfl
    rw [List.length_map, List.length_range, OrderedMap.keys, List.length_map] at hle
    rw [OrderedMap.size]
    omega
  refine ⟨e, he, ?_⟩
  rw [Codec.rebuild, htotal]
  show (if (e.parts.size : Int) < pieces.length then none else _) = _
  rw [if_neg hsize, Int.toNat_natCast, hmap]
  show (if c.sha256 (String.join pieces) = hash then some (String.join pieces) else none) = _
  rw [hp.join, if_pos hp.hash_eq]

/-- What is put together under a hash has it, and every place has a chunk. -/
theorem arrived_of_rebuild {h : String} {e : Group} (he : (groupByHash rows).get h = some e)
    (hreb : c.rebuild h e = some payload) :
    c.sha256 payload = h ∧ (Honest rows h pieces → Arrived rows h pieces) := by
  obtain ⟨⟨m, hm, hmh, hmt⟩, hparts⟩ := groupByHash_grouped he
  simp only [Codec.rebuild, Option.bind_eq_bind, Option.bind_eq_some_iff] at hreb
  obtain ⟨total, htotal, hreb⟩ := hreb
  split at hreb
  · cases hreb
  · obtain ⟨parts, hmap, hreb⟩ := Option.bind_eq_some_iff.mp hreb
    split at hreb
    · next hhash =>
      obtain rfl := Option.some.inj hreb
      refine ⟨hhash, ?_⟩
      intro hh i hi
      have hlen : total = pieces.length := by
        obtain ⟨j, -, hgen⟩ := hh m hm hmh
        rw [← hmt, hgen, genuine, toInt_ofInt] at htotal
        exact (Option.some.inj htotal).symm
      rw [hlen, Int.toNat_natCast] at hmap
      have hget := congrArg (fun l => l[i]?) (mapM_eq_some.mp hmap)
      have hplen : parts.length = pieces.length := by
        simpa using (congrArg List.length (mapM_eq_some.mp hmap)).symm
      have hsome : (e.parts.get (.inl (i : Int))).join = some (parts.get ⟨i, hplen ▸ hi⟩) := by
        simpa [hi, hplen] using hget
      have hv := Option.join_eq_some_iff.mp hsome
      obtain ⟨m', hm', hm'h, hkey, -⟩ := hparts _ _ hv
      obtain ⟨k, hk, hgen⟩ := hh m' hm' hm'h
      rw [hgen, genuine, key_ofInt] at hkey
      have hki : k = i := by exact_mod_cast Sum.inl.inj hkey
      rw [← hki, ← hgen]
      exact hm'
    · cases hreb

theorem mem_catchUp {singles : List String} :
    payload ∈ catchUpUningestedMarkets c singles rows ↔
      (payload ∈ singles ∨
        ∃ h e, (groupByHash rows).get h = some e ∧ c.rebuild h e = some payload) ∧
      c.publishes payload = true := by
  rw [catchUpUningestedMarkets, List.mem_filter, List.mem_append, List.mem_filterMap]
  refine and_congr_left fun _ => or_congr_right ?_
  refine ⟨?_, ?_⟩
  · intro h
    obtain ⟨⟨h, e⟩, he, hreb⟩ := h
    exact ⟨h, e, OrderedMap.get_of_mem he, hreb⟩
  · intro h
    obtain ⟨h, e, he, hreb⟩ := h
    exact ⟨(h, e), OrderedMap.mem_of_get he, hreb⟩

/-! ### The listener and the stored messages agree -/

theorem dispatch_of_publishes (h : c.publishes payload = true) :
    c.dispatch hash payload = some ⟨hash, payload⟩ := by
  unfold Codec.publishes at h
  split at h
  · next inner hparse =>
    obtain ⟨ht, -⟩ := of_decide_eq_true h
    rw [Codec.dispatch, hparse]
    exact if_pos (by rw [ht]; decide)
  · cases h

/-- Of a payload whose chunks are its own, the chunks have all come once it is dispatched. -/
theorem arrived_of_dispatched {d : Dispatch} (hname : hash ≠ "") (hd : d ∈ (receive c msgs).2)
    (hhash : d.hash = hash) (hh : Honest (msgs.map Prod.snd) hash pieces) :
    Arrived (msgs.map Prod.snd) hash pieces := by
  obtain ⟨-, parts, -, hpos, hparts⟩ := receive_authentic hd
  have hgen : ∀ i (hi : i < parts.length), parts.length = pieces.length ∧
      genuine hash pieces i ∈ msgs.map Prod.snd := by
    intro i hi
    obtain ⟨m, hm, hmh, hacc⟩ := hparts i hi
    obtain ⟨k, hk, hgen⟩ := hh m.2 (List.mem_map_of_mem hm) (hmh.trans hhash)
    rw [hgen, accepted_genuine hname hk] at hacc
    simp only [Option.some.injEq, Prod.mk.injEq] at hacc
    obtain ⟨hki, hlen, -⟩ := hacc
    have hki : k = i := by exact_mod_cast hki
    refine ⟨by omega, ?_⟩
    rw [← hki, ← hgen]
    exact List.mem_map_of_mem hm
  intro i hi
  exact (hgen i (by rw [(hgen 0 hpos).1]; exact hi)).2

/-- The stored copies of the messages, in whatever order. -/
def Stored (msgs : List (Int × Chunk)) (rows : List Chunk) : Prop :=
  ∀ m, m ∈ rows ↔ m ∈ msgs.map Prod.snd

theorem dispatched_iff_rebuilt (hp : Announced c hash payload pieces) (hl : WithinLimits msgs)
    (hh : Honest (msgs.map Prod.snd) hash pieces) (hs : Stored msgs rows)
    (hpub : c.publishes payload = true) :
    ⟨hash, payload⟩ ∈ (receive c msgs).2 ↔ payload ∈ catchUpUningestedMarkets c [] rows := by
  have hrows : Honest rows hash pieces := fun m hm => hh m ((hs m).mp hm)
  rw [mem_catchUp]
  refine ⟨?_, ?_⟩
  · intro hd
    have harr := arrived_of_dispatched hp.named hd rfl hh
    obtain ⟨e, he, hreb⟩ := rebuild_complete hp hrows fun i hi => (hs _).mpr (harr i hi)
    exact ⟨Or.inr ⟨hash, e, he, hreb⟩, hpub⟩
  · intro h
    obtain ⟨hnone | ⟨h, e, he, hreb⟩, -⟩ := h
    · exact absurd hnone List.not_mem_nil
    · obtain ⟨hsha, harr⟩ := @arrived_of_rebuild c payload pieces rows h e he hreb
      obtain rfl : hash = h := hp.hash_eq.symm.trans hsha
      have harr := harr hrows
      exact receive_complete hp (dispatch_of_publishes hpub) hl hh
        fun i hi => (hs _).mp (harr i hi)

/-- **Payloads are put together.**  Whatever the chunks, a payload that is dispatched has the hash
it was announced under, and its parts came under that hash.  A payload all of whose chunks are its
own is dispatched once they have all come, and the stored ones give the same markets. -/
theorem reassembly (c : Codec) (msgs : List (Int × Chunk)) :
    (∀ d ∈ (receive c msgs).2, Authentic c msgs d) ∧
    ∀ hash payload pieces, Announced c hash payload pieces → WithinLimits msgs →
      Honest (msgs.map Prod.snd) hash pieces →
      (∀ d, c.dispatch hash payload = some d → Arrived (msgs.map Prod.snd) hash pieces →
        d ∈ (receive c msgs).2) ∧
      ∀ rows, Stored msgs rows → c.publishes payload = true →
        (⟨hash, payload⟩ ∈ (receive c msgs).2 ↔
          payload ∈ catchUpUningestedMarkets c [] rows) := by
  refine ⟨fun d hd => receive_authentic hd, ?_⟩
  intro hash payload pieces hp hl hh
  refine ⟨fun d hd harr => receive_complete hp hd hl hh harr, ?_⟩
  intro rows hs hpub
  exact dispatched_iff_rebuilt hp hl hh hs hpub

section Sample

private def published : String :=
  "\x7b\"t\":\"pool_market_published_v1\",\"market_id\":\"m1\"\x7d"

private def publishedHash : String :=
  "9ac0ba4cfb72cdef24e46df721ff5226cb60ec06b0d4466a54f5aed27553871a"

private def halves : List String :=
  ["\x7b\"t\":\"pool_market_published_v1\",", "\"market_id\":\"m1\"\x7d"]

private def onPublished : Codec where
  sha256 s := if s = published then publishedHash else "other"
  parse s := if s = published then some ⟨"pool_market_published_v1", "m1"⟩ else none

private def inTwo : List (Int × Chunk) :=
  [(2, genuine publishedHash halves 1), (5, genuine publishedHash halves 0)]

theorem reassembly_inTwo :
    (⟨publishedHash, published⟩ ∈ (receive onPublished inTwo).2) ∧
      published ∈ catchUpUningestedMarkets onPublished [] (inTwo.map Prod.snd) := by
  have h := (reassembly onPublished inTwo).2 publishedHash published halves
    ⟨by decide, by decide, by decide, by decide⟩ ⟨by decide, by decide⟩ (by
      intro m hm _
      rcases List.mem_cons.mp hm with rfl | hm
      · exact ⟨1, by decide, rfl⟩
      · exact ⟨0, by decide, List.mem_singleton.mp hm⟩)
  have hd : ⟨publishedHash, published⟩ ∈ (receive onPublished inTwo).2 := by
    refine h.1 _ (by decide) ?_
    intro i hi
    have hi : i = 0 ∨ i = 1 := by
      have : i < 2 := hi
      omega
    rcases hi with rfl | rfl
    · exact List.mem_cons_of_mem _ List.mem_cons_self
    · exact List.mem_cons_self
  exact ⟨hd, (h.2 _ (fun _ => Iff.rfl) (by decide)).mp hd⟩

/-- A chunk of another number of places comes before the payload's own. -/
private def forgedFirst : List (Int × Chunk) :=
  (1, ⟨publishedHash, .falsy, .number 3, some "x"⟩) :: inTwo

/-- One forged chunk keeps the payload from being dispatched. -/
theorem forged_first_lost :
    ¬ ∀ (c : Codec) (msgs : List (Int × Chunk)) (hash payload : String) (pieces : List String)
      (d : Dispatch), Announced c hash payload pieces → WithinLimits msgs →
      c.dispatch hash payload = some d → Arrived (msgs.map Prod.snd) hash pieces →
      d ∈ (receive c msgs).2 := by
  intro h
  have hd := h onPublished forgedFirst publishedHash published halves ⟨publishedHash, published⟩
    ⟨by decide, by decide, by decide, by decide⟩ ⟨by decide, by decide⟩ (by decide) (by
      intro i hi
      have hi : i = 0 ∨ i = 1 := by
        have : i < 2 := hi
        omega
      rcases hi with rfl | rfl
      · exact List.mem_cons_of_mem _ (List.mem_cons_of_mem _ List.mem_cons_self)
      · exact List.mem_cons_of_mem _ List.mem_cons_self)
  exact absurd hd (by decide)

end Sample

end KANet.Broadcast
