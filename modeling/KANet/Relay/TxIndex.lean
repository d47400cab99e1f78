import KANet.Lib.Along
import KANet.Lib.Table
import Mathlib.Algebra.BigOperators.Group.List.Basic
import Mathlib.Algebra.Field.Rat

/-!
# The log of transactions

The relay looks through every block that is announced for outputs to addresses it watches, and posts
what it finds to the console, which writes one row for a transaction.  A block that is announced may
carry transactions that the chain does not accept, or that another block carries as well.

* `indexBlockTxs` — `rpc-listener.mjs`.
* `insertKaspaTx` — `POST /ingest/kaspa-tx`.
* `log_run` — runs in which the log is complete and sound: what pays several watched addresses, or
  is not accepted, stays out of them.

Amounts are exact where the service divides doubles; an output without an address names none.
-/

namespace KANet.Relay.TxIndex

open KANet.Lib

/-! ### The relay -/

structure Output where
  scriptPublicKeyAddress : Option String
  value : Nat

/-- A transaction; of its inputs the addresses. -/
structure Tx where
  inputs : List (Option String)
  outputs : List Output

/-- The transactions by their ids, and which of them the chain accepts. -/
structure Chain where
  tx : String → Tx
  accepted : String → Bool

/-- A block with the ids of its transactions, and the time in milliseconds. -/
structure Block where
  hash : Option String
  timestamp : Option Nat
  transactions : List String

/-- The body of a post. -/
structure KaspaTx where
  txId : String
  blockHash : Option String
  blockTime : Nat
  fromAddress : Option String
  toAddress : String
  amount : ℚ
  outputs : List (String × Nat)
  network : String

/-- A row of `kaspa_tx_log`. -/
structure Row where
  tx_id : String
  block_hash : Option String
  block_time : Nat
  from_address : Option String
  to_address : String
  amount : ℚ
  outputs_json : List (String × Nat)
  observed_at : String
  network : String

structure Node where
  watched : List String
  -- in the order of insertion
  indexed : List String
  -- on their way to the console
  posts : List KaspaTx
  kaspa_tx_log : Table Row.tx_id

def INDEXED_MAX : Nat := 20000

/-- The oldest half is dropped when there are too many. -/
def evict (indexed : List String) : List String :=
  if INDEXED_MAX < indexed.length then indexed.drop (indexed.length - INDEXED_MAX / 2) else indexed

/-- The recipient and the amount so far: only what goes to the first watched address is summed. -/
def matchOutput (watched : List String) (m : Option (String × Nat)) (out : Output) :
    Option (String × Nat) :=
  match out.scriptPublicKeyAddress with
  | none => m
  | some addr =>
    if addr ∈ watched then
      match m with
      | none => some (addr, out.value)
      | some (r, sompi) => some (r, if addr = r then sompi + out.value else sompi)
    else m

def Tx.matched (watched : List String) (tx : Tx) : Option (String × Nat) :=
  tx.outputs.foldl (matchOutput watched) none

def Tx.summary (tx : Tx) : List (String × Nat) :=
  tx.outputs.filterMap fun out => out.scriptPublicKeyAddress.map fun addr => (addr, out.value)

/-- In seconds; `now` where the block has no time. -/
def Block.time (b : Block) (now : Nat) : Nat := (b.timestamp.filter (· ≠ 0)).getD now / 1000

def indexTx (c : Chain) (network : String) (b : Block) (now : Nat) (n : Node) (txId : String) :
    Node :=
  if txId ∈ n.indexed then n
  else
    match (c.tx txId).matched n.watched with
    | none => n
    | some (recipient, sompi) =>
      { n with
        posts := n.posts ++ [{
          txId, blockHash := b.hash, blockTime := b.time now
          fromAddress := (c.tx txId).inputs.findSome? id
          toAddress := recipient, amount := sompi / 10 ^ 8
          outputs := (c.tx txId).summary, network }]
        indexed := evict (n.indexed ++ [txId]) }

def indexBlockTxs (c : Chain) (network : String) (b : Block) (now : Nat) (n : Node) : Node :=
  if n.watched.isEmpty then n else b.transactions.foldl (indexTx c network b now) n

/-! ### The console -/

def KaspaTx.row (p : KaspaTx) (now : String) : Row :=
  ⟨p.txId, p.blockHash, p.blockTime, p.fromAddress, p.toAddress, p.amount, p.outputs, now,
    p.network⟩

/-- `INSERT OR IGNORE` -/
def insertKaspaTx (log : Table Row.tx_id) (p : KaspaTx) (now : String) : Table Row.tx_id :=
  (log.insert (p.row now)).getD log

/-! ### Steps -/

inductive Event
  | block (b : Block) (now : Nat)
  | refreshWatchedAddresses (addresses : List String)
  -- the post at a place of the list arrives
  | ingest (i : Nat) (now : String)
  | restart

/-- The relay: its own address and its network. -/
structure RelayNode where
  myAddress : String
  network : String

def step (c : Chain) (r : RelayNode) (n : Node) : Event → Node
  | .block b now => indexBlockTxs c r.network b now n
  | .refreshWatchedAddresses addresses => { n with watched := addresses ++ [r.myAddress] }
  | .ingest i now =>
    match n.posts[i]? with
    | none => n
    | some p =>
      { n with
        posts := n.posts.eraseIdx i
        kaspa_tx_log := insertKaspaTx n.kaspa_tx_log p now }
  | .restart => { n with watched := [], indexed := [] }

def init : Node := ⟨[], [], [], .empty _⟩

def run (c : Chain) (r : RelayNode) (es : List Event) : Node := es.foldl (step c r) init

/-! ### Completeness -/

def Tx.Pays (tx : Tx) (a : String) : Prop :=
  ∃ out ∈ tx.outputs, out.scriptPublicKeyAddress = some a

/-- What a transaction pays to an address in all, in KAS. -/
def Tx.paid (tx : Tx) (a : String) : ℚ :=
  ((tx.outputs.filter (·.scriptPublicKeyAddress = some a)).map Output.value).sum / 10 ^ 8

/-- **The log is complete and sound.** -/
structure Complete (c : Chain) (r : RelayNode) (es : List Event) : Prop where
  recorded : ∀ pre b now post, es = pre ++ .block b now :: post → ∀ id ∈ b.transactions,
    c.accepted id = true → ∀ a ∈ (run c r pre).watched, (c.tx id).Pays a →
      ((run c r es).kaspa_tx_log.rows.filter fun row =>
        row.tx_id = id ∧ row.to_address = a).map Row.amount = [(c.tx id).paid a]
  sound : ∀ row ∈ (run c r es).kaspa_tx_log.rows, c.accepted row.tx_id = true

/-- What a block has for the addresses that are watched is accepted, and goes to one of them, which
is the one that it has been posted or logged for. -/
def Fair (c : Chain) (n : Node) : Event → Prop
  | .block b _ => ∀ id ∈ b.transactions, ∀ a ∈ n.watched, (c.tx id).Pays a →
      c.accepted id = true ∧ (∀ a' ∈ n.watched, (c.tx id).Pays a' → a' = a) ∧
        (∀ p ∈ n.posts, p.txId = id → p.toAddress = a) ∧
          ∀ row ∈ n.kaspa_tx_log.rows, row.tx_id = id → row.to_address = a
  | _ => True

def FairRun (c : Chain) (r : RelayNode) (es : List Event) : Prop :=
  Along (Fair c) (step c r) init es

/-! ### What is matched -/

variable {c : Chain} {r : RelayNode} {n : Node}

theorem foldl_matchOutput {watched : List String} (outs : List Output) (a : String)
    (sompi : Nat) (ha : a ∈ watched) :
    outs.foldl (matchOutput watched) (some (a, sompi)) =
      some (a, sompi +
        ((outs.filter (·.scriptPublicKeyAddress = some a)).map Output.value).sum) := by
  induction outs generalizing sompi with
  | nil => rfl
  | cons out outs ih =>
    rw [List.foldl_cons]
    cases haddr : out.scriptPublicKeyAddress with
    | none => simp [matchOutput, haddr, ih]
    | some addr =>
      by_cases hw : addr ∈ watched
      · by_cases heq : addr = a
        · subst heq
          simp [matchOutput, haddr, hw, ih, Nat.add_assoc]
        · simp [matchOutput, haddr, hw, heq, ih]
      · have hne : addr ≠ a := fun h => hw (h ▸ ha)
        simp [matchOutput, haddr, hw, hne, ih]

/-- The recipient is watched, is paid, and its amount is what it is paid. -/
theorem matched_eq_some {watched : List String} {tx : Tx} {a : String} {sompi : Nat}
    (h : tx.matched watched = some (a, sompi)) :
    a ∈ watched ∧ tx.Pays a ∧ (sompi : ℚ) / 10 ^ 8 = tx.paid a := by
  have hgen : ∀ outs : List Output, outs.foldl (matchOutput watched) none = some (a, sompi) →
      a ∈ watched ∧ (∃ out ∈ outs, out.scriptPublicKeyAddress = some a) ∧
        sompi = ((outs.filter (·.scriptPublicKeyAddress = some a)).map Output.value).sum := by
    intro outs
    induction outs with
    | nil =>
      intro h
      cases h
    | cons out outs ih =>
      intro h
      rw [List.foldl_cons] at h
      by_cases hf : ∃ addr ∈ watched, out.scriptPublicKeyAddress = some addr
      · obtain ⟨addr, hw, haddr⟩ := hf
        have hsome : matchOutput watched none out = some (addr, out.value) := by
          simp [matchOutput, haddr, hw]
        rw [hsome, foldl_matchOutput outs addr out.value hw] at h
        obtain ⟨rfl, rfl⟩ := Prod.mk.inj (Option.some.inj h)
        exact ⟨hw, ⟨out, List.mem_cons_self, haddr⟩, by simp [haddr]⟩
      · have hnone : matchOutput watched none out = none := by
          cases haddr : out.scriptPublicKeyAddress with
          | none => simp [matchOutput, haddr]
          | some addr =>
            have hw : addr ∉ watched := fun hw => hf ⟨addr, hw, haddr⟩
            simp [matchOutput, haddr, hw]
        rw [hnone] at h
        obtain ⟨ha, ⟨o, ho, hoa⟩, hsum⟩ := ih h
        have hne : out.scriptPublicKeyAddress ≠ some a := fun heq => hf ⟨a, ha, heq⟩
        exact ⟨ha, ⟨o, List.mem_cons_of_mem _ ho, hoa⟩, by simp [hne, hsum]⟩
  obtain ⟨ha, hpays, hsum⟩ := hgen tx.outputs h
  exact ⟨ha, hpays, by rw [hsum]; rfl⟩

/-- Where a watched address is paid, something is matched. -/
theorem matched_isSome {watched : List String} {tx : Tx} {a : String} (ha : a ∈ watched)
    (hpays : tx.Pays a) : (tx.matched watched).isSome := by
  obtain ⟨out, hout, haddr⟩ := hpays
  obtain ⟨pre, post, hsplit⟩ := List.append_of_mem hout
  have hstays : ∀ (outs : List Output) (m : String × Nat),
      (outs.foldl (matchOutput watched) (some m)).isSome := by
    intro outs
    induction outs with
    | nil => exact fun _ => rfl
    | cons out outs ih =>
      intro m
      rw [List.foldl_cons]
      unfold matchOutput
      cases out.scriptPublicKeyAddress with
      | none => exact ih m
      | some addr =>
        dsimp only
        split
        · exact ih _
        · exact ih m
  unfold Tx.matched
  rw [hsplit, List.foldl_append, List.foldl_cons]
  have hmatch : ∀ m, (matchOutput watched m out).isSome := by
    intro m
    cases m <;> simp [matchOutput, haddr, ha]
  obtain ⟨m, hm⟩ := Option.isSome_iff_exists.mp (hmatch (pre.foldl (matchOutput watched) none))
  rw [hm]
  exact hstays post m

/-! ### What is told -/

/-- The transaction is posted or logged for the address, with the amount. -/
def Told (n : Node) (id a : String) (x : ℚ) : Prop :=
  (∃ p ∈ n.posts, p.txId = id ∧ p.toAddress = a ∧ p.amount = x) ∨
    ∃ row ∈ n.kaspa_tx_log.rows, row.tx_id = id ∧ row.to_address = a ∧ row.amount = x

/-- What is told is true, and told for one address. -/
structure Inv (c : Chain) (n : Node) : Prop where
  paid : ∀ id a x, Told n id a x → c.accepted id = true ∧ x = (c.tx id).paid a
  one : ∀ id a a' x x', Told n id a x → Told n id a' x' → a = a'
  indexed : ∀ id ∈ n.indexed, ∃ a x, Told n id a x

/-- What the transaction pays to the watched addresses may be told. -/
def Clear (c : Chain) (n : Node) (id : String) : Prop :=
  ∀ a ∈ n.watched, (c.tx id).Pays a → c.accepted id = true ∧
    (∀ a' ∈ n.watched, (c.tx id).Pays a' → a' = a) ∧ ∀ a' x, Told n id a' x → a' = a

theorem Fair.clear {b : Block} {now : Nat} (h : Fair c n (.block b now)) {id : String}
    (hid : id ∈ b.transactions) : Clear c n id := by
  intro a ha hpays
  obtain ⟨hacc, hone, hposts, hrows⟩ := h id hid a ha hpays
  refine ⟨hacc, hone, fun a' x htold => ?_⟩
  rcases htold with ⟨p, hp, hpid, rfl, -⟩ | ⟨row, hrow, hrid, rfl, -⟩
  · exact hposts p hp hpid
  · exact hrows row hrow hrid

section Block

variable {network : String} {b : Block} {now : Nat} {txId : String}

theorem mem_evict {indexed : List String} {id : String} (h : id ∈ evict indexed) :
    id ∈ indexed := by
  unfold evict at h
  split at h
  · exact List.mem_of_mem_drop h
  · exact h

/-- Either nothing changes, or a post is appended for a watched address that is paid. -/
theorem indexTx_cases (c : Chain) (network : String) (b : Block) (now : Nat) (n : Node)
    (txId : String) :
    indexTx c network b now n txId = n ∧
        (txId ∈ n.indexed ∨ ∀ a ∈ n.watched, ¬ (c.tx txId).Pays a) ∨
      ∃ p : KaspaTx, indexTx c network b now n txId =
          { n with posts := n.posts ++ [p], indexed := evict (n.indexed ++ [txId]) } ∧
        p.txId = txId ∧ p.toAddress ∈ n.watched ∧ (c.tx txId).Pays p.toAddress ∧
          p.amount = (c.tx txId).paid p.toAddress := by
  unfold indexTx
  split
  · next h => exact Or.inl ⟨rfl, Or.inl h⟩
  · cases hm : (c.tx txId).matched n.watched with
    | none =>
      refine Or.inl ⟨rfl, Or.inr fun a ha hpays => ?_⟩
      have hsome := matched_isSome ha hpays
      rw [hm] at hsome
      cases hsome
    | some m =>
      obtain ⟨ha, hpays, hsum⟩ := matched_eq_some hm
      exact Or.inr ⟨_, rfl, rfl, ha, hpays, hsum⟩

theorem watched_indexTx : (indexTx c network b now n txId).watched = n.watched := by
  rcases indexTx_cases c network b now n txId with ⟨h, -⟩ | ⟨p, h, -⟩ <;> rw [h]

theorem told_append {p : KaspaTx} {indexed : List String} {id a : String} {x : ℚ} :
    Told { n with posts := n.posts ++ [p], indexed } id a x ↔
      Told n id a x ∨ p.txId = id ∧ p.toAddress = a ∧ p.amount = x := by
  simp only [Told, List.mem_append, List.mem_singleton]
  constructor
  · rintro (⟨q, hq | rfl, h⟩ | h)
    · exact Or.inl (Or.inl ⟨q, hq, h⟩)
    · exact Or.inr h
    · exact Or.inl (Or.inr h)
  · rintro ((⟨q, hq, h⟩ | h) | h)
    · exact Or.inl ⟨q, Or.inl hq, h⟩
    · exact Or.inr h
    · exact Or.inl ⟨p, Or.inr rfl, h⟩

/-- What a transaction adds, and what it leaves. -/
theorem told_indexTx {id a : String} {x : ℚ} (h : Told (indexTx c network b now n txId) id a x) :
    Told n id a x ∨
      txId = id ∧ a ∈ n.watched ∧ (c.tx id).Pays a ∧ x = (c.tx id).paid a := by
  rcases indexTx_cases c network b now n txId with ⟨heq, -⟩ | ⟨p, heq, rfl, ha, hpays, hx⟩
  · rw [heq] at h
    exact Or.inl h
  · rw [heq, told_append] at h
    rcases h with h | ⟨rfl, rfl, rfl⟩
    · exact Or.inl h
    · exact Or.inr ⟨rfl, ha, hpays, hx⟩

theorem Told.indexTx {id a : String} {x : ℚ} (h : Told n id a x) :
    Told (indexTx c network b now n txId) id a x := by
  rcases indexTx_cases c network b now n txId with ⟨heq, -⟩ | ⟨p, heq, -⟩ <;> rw [heq]
  · exact h
  · exact told_append.mpr (Or.inl h)

theorem Clear.indexTx {id : String} (h : Clear c n id) :
    Clear c (indexTx c network b now n txId) id := by
  intro a ha hpays
  rw [watched_indexTx] at ha ⊢
  obtain ⟨hacc, hone, htold⟩ := h a ha hpays
  refine ⟨hacc, hone, fun a' x h' => ?_⟩
  rcases told_indexTx h' with h' | ⟨-, ha', hpays', -⟩
  · exact htold a' x h'
  · exact hone a' ha' hpays'

theorem Inv.indexTx (h : Inv c n) (hclear : Clear c n txId) :
    Inv c (indexTx c network b now n txId) := by
  have hnew : ∀ id a x, Told (TxIndex.indexTx c network b now n txId) id a x →
      c.accepted id = true ∧ x = (c.tx id).paid a := by
    intro id a x htold
    rcases told_indexTx htold with htold | ⟨rfl, ha, hpays, hx⟩
    · exact h.paid id a x htold
    · exact ⟨(hclear a ha hpays).1, hx⟩
  have hold : ∀ id a a' x x', Told n id a x →
      Told (TxIndex.indexTx c network b now n txId) id a' x' → a = a' := by
    intro id a a' x x' htold htold'
    rcases told_indexTx htold' with htold' | ⟨rfl, ha, hpays, -⟩
    · exact h.one id a a' x x' htold htold'
    · exact (hclear a' ha hpays).2.2 a x htold
  refine ⟨hnew, ?_, ?_⟩
  · intro id a a' x x' htold htold'
    rcases told_indexTx htold with htold | ⟨rfl, ha, hpays, -⟩
    · exact hold id a a' x x' htold htold'
    · rcases told_indexTx htold' with htold' | ⟨-, ha', hpays', -⟩
      · exact ((hclear a ha hpays).2.2 a' x' htold').symm
      · exact (hclear a' ha' hpays').2.1 a ha hpays
  · intro id hid
    rcases indexTx_cases c network b now n txId with ⟨heq, -⟩ | ⟨p, heq, rfl, -⟩
    · rw [heq] at hid ⊢
      exact h.indexed id hid
    · rw [heq] at hid ⊢
      rcases List.mem_append.mp (mem_evict hid) with hid | hid
      · obtain ⟨a, x, htold⟩ := h.indexed id hid
        exact ⟨a, x, told_append.mpr (Or.inl htold)⟩
      · obtain rfl := List.mem_singleton.mp hid
        exact ⟨_, _, told_append.mpr (Or.inr ⟨rfl, rfl, rfl⟩)⟩

/-- What a transaction pays to a watched address is told. -/
theorem Inv.told (network : String) (b : Block) (now : Nat) (h : Inv c n) (hclear : Clear c n txId)
    {a : String} (ha : a ∈ n.watched) (hpays : (c.tx txId).Pays a) :
    ∃ x, Told (TxIndex.indexTx c network b now n txId) txId a x := by
  rcases indexTx_cases c network b now n txId with ⟨heq, hin | hnot⟩ | ⟨p, heq, rfl, hp, hppays, -⟩
  · obtain ⟨a', x, htold⟩ := h.indexed txId hin
    obtain rfl := (hclear a ha hpays).2.2 a' x htold
    exact ⟨x, htold.indexTx⟩
  · exact absurd hpays (hnot a ha)
  · rw [heq]
    refine ⟨_, told_append.mpr (Or.inr ⟨rfl, ?_, rfl⟩)⟩
    exact (hclear a ha hpays).2.1 _ hp hppays

/-- **A block** keeps the invariant, forgets nothing, and tells all that it pays. -/
theorem Inv.indexBlockTxs (h : Inv c n) (hclear : ∀ id ∈ b.transactions, Clear c n id) :
    Inv c (TxIndex.indexBlockTxs c network b now n) ∧
      (∀ id a x, Told n id a x → Told (TxIndex.indexBlockTxs c network b now n) id a x) ∧
        ∀ id ∈ b.transactions, ∀ a ∈ n.watched, (c.tx id).Pays a →
          ∃ x, Told (TxIndex.indexBlockTxs c network b now n) id a x := by
  have hfold : ∀ (txs : List String) (n : Node), Inv c n → (∀ id ∈ txs, Clear c n id) →
      Inv c (txs.foldl (TxIndex.indexTx c network b now) n) ∧
        (∀ id a x, Told n id a x → Told (txs.foldl (TxIndex.indexTx c network b now) n) id a x) ∧
          ∀ id ∈ txs, ∀ a ∈ n.watched, (c.tx id).Pays a →
            ∃ x, Told (txs.foldl (TxIndex.indexTx c network b now) n) id a x := by
    intro txs
    induction txs with
    | nil => exact fun n hinv _ => ⟨hinv, fun _ _ _ htold => htold,
        fun _ hid => absurd hid List.not_mem_nil⟩
    | cons txId txs ih =>
      intro n hinv hclear
      have hid := hclear txId List.mem_cons_self
      obtain ⟨hinv', hkeep, htell⟩ := ih (TxIndex.indexTx c network b now n txId)
        (hinv.indexTx hid) fun id hmem => (hclear id (List.mem_cons_of_mem _ hmem)).indexTx
      refine ⟨hinv', fun id a x htold => hkeep id a x htold.indexTx, ?_⟩
      intro id hmem a ha hpays
      rcases List.mem_cons.mp hmem with rfl | hmem
      · obtain ⟨x, htold⟩ := hinv.told network b now hid ha hpays
        exact ⟨x, hkeep _ _ _ htold⟩
      · exact htell id hmem a (by rwa [watched_indexTx]) hpays
  unfold TxIndex.indexBlockTxs
  split
  · next hempty =>
    refine ⟨h, fun _ _ _ htold => htold, fun id _ a ha => ?_⟩
    rw [List.isEmpty_iff.mp hempty] at ha
    cases ha
  · exact hfold b.transactions n h hclear

end Block

/-! ### Runs -/

/-- A post that arrives is told as before. -/
theorem told_ingest {i : Nat} (now : String) {p : KaspaTx} (h : Inv c n)
    (hp : n.posts[i]? = some p) (id a : String) (x : ℚ) : Told { n with
      posts := n.posts.eraseIdx i
      kaspa_tx_log := insertKaspaTx n.kaspa_tx_log p now } id a x ↔ Told n id a x := by
  have hmem : p ∈ n.posts := List.mem_of_getElem? hp
  have hback : ∀ q ∈ n.posts, q ∈ n.posts.eraseIdx i ∨ q = p := by
    intro q hq
    obtain ⟨j, hj⟩ := List.mem_iff_getElem?.mp hq
    by_cases hij : j = i
    · subst hij
      exact Or.inr (Option.some.inj (hj.symm.trans hp))
    · exact Or.inl (List.mem_eraseIdx_iff_getElem?.mpr ⟨j, hij, hj⟩)
  unfold insertKaspaTx
  cases hins : n.kaspa_tx_log.insert (p.row now) with
  | none =>
    -- the log has a row for the transaction, which says the same
    obtain ⟨row, hget⟩ := Option.isSome_iff_exists.mp (Table.insert_eq_none.mp hins)
    have hrid : row.tx_id = p.txId := Table.key_of_get hget
    have hrow : row ∈ n.kaspa_tx_log.rows := Table.mem_of_get hget
    constructor
    · rintro (⟨q, hq, hrest⟩ | hlog)
      · exact Or.inl ⟨q, List.mem_of_mem_eraseIdx hq, hrest⟩
      · exact Or.inr hlog
    · rintro (⟨q, hq, rfl, rfl, rfl⟩ | hlog)
      · rcases hback q hq with hq | rfl
        · exact Or.inl ⟨q, hq, rfl, rfl, rfl⟩
        · have hpost : Told n q.txId q.toAddress q.amount := Or.inl ⟨q, hmem, rfl, rfl, rfl⟩
          have hlogged : Told n q.txId row.to_address row.amount :=
            Or.inr ⟨row, hrow, hrid, rfl, rfl⟩
          have haddr := h.one _ _ _ _ _ hlogged hpost
          refine Or.inr ⟨row, hrow, hrid, haddr, ?_⟩
          rw [(h.paid _ _ _ hlogged).2, (h.paid _ _ _ hpost).2, haddr]
      · exact Or.inr hlog
  | some t =>
    have hrows := Table.rows_of_insert hins
    constructor
    · rintro (⟨q, hq, hrest⟩ | ⟨row, hrow, hrest⟩)
      · exact Or.inl ⟨q, List.mem_of_mem_eraseIdx hq, hrest⟩
      · rw [Option.getD_some, hrows] at hrow
        rcases List.mem_append.mp hrow with hrow | hrow
        · exact Or.inr ⟨row, hrow, hrest⟩
        · obtain rfl := List.mem_singleton.mp hrow
          exact Or.inl ⟨p, hmem, hrest⟩
    · rintro (⟨q, hq, hrest⟩ | ⟨row, hrow, hrest⟩)
      · rcases hback q hq with hq | rfl
        · exact Or.inl ⟨q, hq, hrest⟩
        · refine Or.inr ⟨q.row now, ?_, hrest⟩
          rw [Option.getD_some, hrows]
          exact List.mem_append_right _ (List.mem_singleton_self _)
      · refine Or.inr ⟨row, ?_, hrest⟩
        rw [Option.getD_some, hrows]
        exact List.mem_append_left _ hrow

theorem Inv.of_told {n' : Node} (h : Inv c n) (htold : ∀ id a x, Told n' id a x ↔ Told n id a x)
    (hindexed : ∀ id ∈ n'.indexed, id ∈ n.indexed) : Inv c n' where
  paid id a x h' := h.paid id a x ((htold id a x).mp h')
  one id a a' x x' h₁ h₂ := h.one id a a' x x' ((htold _ _ _).mp h₁) ((htold _ _ _).mp h₂)
  indexed id hid := by
    obtain ⟨a, x, h'⟩ := h.indexed id (hindexed id hid)
    exact ⟨a, x, (htold id a x).mpr h'⟩

/-- **A fair step** keeps the invariant and forgets nothing. -/
theorem Inv.step {e : Event} (h : Inv c n) (hfair : Fair c n e) :
    Inv c (step c r n e) ∧ ∀ id a x, Told n id a x → Told (step c r n e) id a x := by
  cases e with
  | block b now =>
    obtain ⟨hinv, hkeep, -⟩ := h.indexBlockTxs fun id hid => hfair.clear hid
    exact ⟨hinv, hkeep⟩
  | refreshWatchedAddresses addresses =>
    exact ⟨h.of_told (fun _ _ _ => Iff.rfl) fun _ hid => hid, fun _ _ _ htold => htold⟩
  | ingest i now =>
    unfold TxIndex.step
    dsimp only
    cases hp : n.posts[i]? with
    | none => exact ⟨h, fun _ _ _ htold => htold⟩
    | some p =>
      have htold := told_ingest now h hp
      exact ⟨h.of_told htold fun _ hid => hid, fun id a x => (htold id a x).mpr⟩
  | restart =>
    exact ⟨h.of_told (fun _ _ _ => Iff.rfl) fun _ hid => absurd hid List.not_mem_nil,
      fun _ _ _ htold => htold⟩

theorem run_append (c : Chain) (r : RelayNode) (es : List Event) (e : Event) :
    run c r (es ++ [e]) = step c r (run c r es) e := List.foldl_append

/-- Whatever a block had for an address that was watched is told. -/
def Heard (c : Chain) (r : RelayNode) (es : List Event) : Prop :=
  ∀ pre b now post, es = pre ++ .block b now :: post → ∀ id ∈ b.transactions,
    ∀ a ∈ (run c r pre).watched, (c.tx id).Pays a → ∃ x, Told (run c r es) id a x

theorem Heard.append {es : List Event} {e : Event} (h : Heard c r es) (hinv : Inv c (run c r es))
    (hfair : Fair c (run c r es) e) : Heard c r (es ++ [e]) := by
  intro pre b now post heq id hid a ha hpays
  rcases List.eq_nil_or_concat post with rfl | ⟨post, e', rfl⟩
  · obtain ⟨rfl, he⟩ := List.append_inj' heq rfl
    obtain rfl := List.singleton_inj.mp he
    rw [run_append]
    exact (hinv.indexBlockTxs fun id hid => hfair.clear hid).2.2 id hid a ha hpays
  · rw [List.concat_eq_append, ← List.cons_append, ← List.append_assoc] at heq
    obtain ⟨rfl, -⟩ := List.append_inj' heq rfl
    obtain ⟨x, htold⟩ := h pre b now post rfl id hid a ha hpays
    rw [run_append]
    exact ⟨x, (hinv.step hfair).2 _ _ _ htold⟩

theorem inv_run {es : List Event} (h : FairRun c r es) :
    Inv c (run c r es) ∧ Heard c r es := by
  refine Along.invariant (I := fun es n => n = run c r es → Inv c n ∧ Heard c r es) h ?_ ?_ rfl
  · intro _
    refine ⟨⟨?_, ?_, ?_⟩, ?_⟩
    · rintro id a x (⟨p, hp, -⟩ | ⟨row, hrow, -⟩)
      · cases hp
      · cases hrow
    · rintro id a a' x x' (⟨p, hp, -⟩ | ⟨row, hrow, -⟩)
      · cases hp
      · cases hrow
    · exact fun id hid => absurd hid List.not_mem_nil
    · intro pre b now post heq
      cases pre <;> cases heq
  · intro es e ih hfair _
    obtain ⟨hinv, hheard⟩ := ih rfl
    exact ⟨(hinv.step hfair).1, hheard.append hinv hfair⟩

/-- **The log is complete and sound** once all posts have arrived, in runs in which each transaction
is accepted and is for one watched address. -/
theorem log_run {es : List Event} (h : FairRun c r es) (hposts : (run c r es).posts = []) :
    Complete c r es := by
  obtain ⟨hinv, hheard⟩ := inv_run h
  constructor
  · intro pre b now post heq id hid _ a ha hpays
    obtain ⟨x, htold⟩ := hheard pre b now post heq id hid a ha hpays
    have hx := (hinv.paid id a x htold).2
    rcases htold with ⟨p, hp, -⟩ | ⟨row, hrow, rfl, rfl, rfl⟩
    · rw [hposts] at hp
      cases hp
    · have hone := Table.filter_eq_singleton (p := fun row' =>
        decide (row'.tx_id = row.tx_id ∧ row'.to_address = row.to_address)) hrow
        (decide_eq_true ⟨rfl, rfl⟩) fun row' _ hcond => (of_decide_eq_true hcond).1
      rw [hone, List.map_singleton, hx]
  · intro row hrow
    exact (hinv.paid row.tx_id row.to_address row.amount (Or.inr ⟨row, hrow, rfl, rfl, rfl⟩)).1

/-! ### Two recipients -/

section Sample

/-- Every transaction pays these, and is accepted or not. -/
def sampleChain (outputs : List Output) (accepted : Bool) : Chain :=
  ⟨fun _ => ⟨[some "s"], outputs⟩, fun _ => accepted⟩

def sampleRelay : RelayNode := ⟨"r", "mainnet"⟩

def sampleRun : List Event :=
  [.refreshWatchedAddresses ["a", "b"], .block ⟨some "h", some 1000, ["t"]⟩ 0, .ingest 0 "now"]

theorem one_recipient_fair : FairRun (sampleChain [⟨some "a", 5⟩, ⟨some "c", 7⟩] true) sampleRelay
    sampleRun := by
  have hpays : ∀ a, (⟨[some "s"], [⟨some "a", 5⟩, ⟨some "c", 7⟩]⟩ : Tx).Pays a →
      a ∈ ["a", "b", "r"] → a = "a" := by
    rintro a ⟨out, hout, haddr⟩ ha
    rcases List.mem_cons.mp hout with rfl | hout
    · exact (Option.some.inj haddr).symm
    · obtain rfl := List.mem_singleton.mp hout
      obtain rfl := Option.some.inj haddr
      exact absurd ha (by decide)
  refine .cons trivial (.cons ?_ (.cons trivial .nil))
  intro id _ a ha ha'
  obtain rfl := hpays a ha' ha
  exact ⟨rfl, fun a' ha₁ ha₂ => hpays a' ha₂ ha₁, fun _ hp => absurd hp List.not_mem_nil,
    fun _ hrow => absurd hrow List.not_mem_nil⟩

theorem one_recipient_logged :
    Complete (sampleChain [⟨some "a", 5⟩, ⟨some "c", 7⟩] true) sampleRelay sampleRun :=
  log_run one_recipient_fair (List.length_eq_zero_iff.mp (by decide +kernel))

/-- The second of two recipients is left out, and a transaction that the chain does not accept is
logged. -/
theorem recipient_missed_or_rejected_logged :
    ((run (sampleChain [⟨some "a", 5⟩, ⟨some "b", 7⟩] true) sampleRelay
        sampleRun).posts.length = 0 ∧
      ¬ Complete (sampleChain [⟨some "a", 5⟩, ⟨some "b", 7⟩] true) sampleRelay sampleRun) ∧
    (run (sampleChain [⟨some "a", 5⟩] false) sampleRelay sampleRun).posts.length = 0 ∧
      ¬ Complete (sampleChain [⟨some "a", 5⟩] false) sampleRelay sampleRun := by
  refine ⟨⟨by decide +kernel, fun h => ?_⟩, by decide +kernel, fun h => ?_⟩
  · have hb := h.recorded [.refreshWatchedAddresses ["a", "b"]] ⟨some "h", some 1000, ["t"]⟩ 0
      [.ingest 0 "now"] rfl "t" List.mem_cons_self rfl "b" (by decide +kernel)
      ⟨⟨some "b", 7⟩, List.mem_cons_of_mem _ List.mem_cons_self, rfl⟩
    have hlen := congrArg List.length hb
    rw [List.length_map] at hlen
    exact absurd hlen (by decide +kernel)
  · have hrows : ∀ row ∈ (run (sampleChain [⟨some "a", 5⟩] false) sampleRelay
        sampleRun).kaspa_tx_log.rows, False := fun row hrow => Bool.noConfusion (h.sound row hrow)
    have hempty := List.eq_nil_iff_forall_not_mem.mpr hrows
    have hlen := congrArg List.length hempty
    exact absurd hlen (by decide +kernel)

end Sample

end KANet.Relay.TxIndex
