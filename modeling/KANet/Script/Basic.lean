import KANet.Lib.SignMagnitude
import Mathlib.Data.Vector.Basic
import Mathlib.Tactic.Ring
import Mathlib.Tactic.NormNum

/-!
# The script engine the covenants run on

A covenant is a function of the transaction that spends it: it reads inputs and
outputs by position, hashes byte strings, and either accepts or stops.  This file
has what every covenant of the repository uses of that engine: the transaction
with its covenant bindings, the opcodes that read it, `require`, checked 64-bit
arithmetic, and the rule by which a contract recognises its own continuation.

The hash functions and the signature check are a parameter (`Engine`).  Nothing is
assumed of them here.

A compiled contract is two byte strings around the region of its state
(`Template`); the compiler that makes them is not part of the repository, so they
come with the constructor arguments.
-/

namespace KANet.Script

open KANet.Lib

abbrev Bytes := List UInt8

/-- `byte[32]` -/
abbrev Bytes32 := List.Vector UInt8 32

def ZERO32 : Bytes32 := List.Vector.replicate 32 0

/-! ### Transactions -/

structure TxInput where
  value : Nat
  scriptPubKey : Bytes
  covenantId : Option Bytes32
deriving DecidableEq

structure TxOutput where
  value : Nat
  scriptPubKey : Bytes
  covenantId : Option Bytes32
deriving DecidableEq

/-- A transaction as a script sees it.  Amounts are sompi; the ledger admits no amount that a
signed 64-bit script number cannot hold. -/
structure Tx where
  inputs : List TxInput
  outputs : List TxOutput
  lockTime : Nat
  inputs_bounded : ∀ i ∈ inputs, i.value < 2 ^ 63 := by decide
  outputs_bounded : ∀ o ∈ outputs, o.value < 2 ^ 63 := by decide

/-- The element of a list at a script index, if there is one. -/
def atIndex {α : Type} (l : List α) (i : Int) : Option α :=
  if 0 ≤ i then l[i.toNat]? else none

@[simp] theorem atIndex_natCast {α : Type} (l : List α) (n : Nat) :
    atIndex l (n : Int) = l[n]? := by
  simp [atIndex]

theorem atIndex_eq_some {α : Type} {l : List α} {i : Int} {a : α} :
    atIndex l i = some a ↔ ∃ n : Nat, i = n ∧ l[n]? = some a := by
  unfold atIndex
  constructor
  · intro h
    split at h
    · exact ⟨i.toNat, by omega, h⟩
    · cases h
  · rintro ⟨n, rfl, h⟩
    simpa using h

theorem mem_of_atIndex {α : Type} {l : List α} {i : Int} {a : α} (h : atIndex l i = some a) :
    a ∈ l := by
  obtain ⟨n, -, hn⟩ := atIndex_eq_some.mp h
  exact List.mem_of_getElem? hn

/-- `tx.inputs[i]` -/
def Tx.input (tx : Tx) (i : Int) : Option TxInput := atIndex tx.inputs i

/-- `tx.outputs[i]` -/
def Tx.output (tx : Tx) (i : Int) : Option TxOutput := atIndex tx.outputs i

theorem Tx.output_bounded {tx : Tx} {i : Int} {o : TxOutput} (h : tx.output i = some o) :
    o.value < 2 ^ 63 := tx.outputs_bounded o (mem_of_atIndex h)

theorem Tx.input_bounded {tx : Tx} {i : Int} {o : TxInput} (h : tx.input i = some o) :
    o.value < 2 ^ 63 := tx.inputs_bounded o (mem_of_atIndex h)

def OpInputCovenantId (tx : Tx) (i : Int) : Option Bytes32 :=
  (tx.input i).map fun o => o.covenantId.getD ZERO32

def OpOutputCovenantId (tx : Tx) (i : Int) : Option Bytes32 :=
  (tx.output i).map fun o => o.covenantId.getD ZERO32

def OpCovOutputCount (tx : Tx) (cov : Bytes32) : Int :=
  (tx.outputs.countP fun o => o.covenantId = some cov : Nat)

/-! ### Hashes, signatures and arithmetic -/

/-- The primitives a script calls.  A signature is checked against the transaction it signs. -/
structure Engine where
  blake2b : Bytes → Bytes32
  sha256 : Bytes → Bytes32
  checkSig : Tx → Bytes → Bytes32 → Bool

def require (p : Prop) [Decidable p] : Option Unit := if p then some () else none

@[simp] theorem require_bind_eq_some {p : Prop} [Decidable p] {α : Type} {k : Unit → Option α}
    {a : α} : (require p >>= k) = some a ↔ p ∧ k () = some a := by
  unfold require
  split <;> simp_all

@[simp] theorem require_eq_some {p : Prop} [Decidable p] {u : Unit} :
    require p = some u ↔ p := by
  unfold require
  split <;> simp_all

/-- What an arithmetic opcode does with its exact result. -/
abbrev Arith := Int → Option Int

/-- The engine's own rule: a result that no 8-byte script number holds stops the script. -/
def i64 : Arith := fun n => if Fits 8 n then some n else none

/-- Arithmetic on the integers, with nothing to overflow. -/
def unbounded : Arith := some

/-- An arithmetic that never returns a wrong number. -/
def Exact (ar : Arith) : Prop := ∀ m n, ar m = some n → n = m

theorem i64_exact : Exact i64 := by
  intro m n h
  unfold i64 at h
  split at h
  · exact (Option.some.inj h).symm
  · cases h

theorem unbounded_exact : Exact unbounded := fun _ _ h => (Option.some.inj h).symm

theorem fits_eight {n : Int} : Fits 8 n ↔ -2 ^ 63 < n ∧ n < 2 ^ 63 := by
  unfold Fits
  norm_num
  omega

theorem i64_of_fits {n : Int} (h : Fits 8 n) : i64 n = some n := if_pos h

/-- `byte[](n, size)` -/
def num2bin (n : Int) (size : Nat) : Option Bytes :=
  if Fits size n then some (signMagnitude size n) else none

theorem num2bin_eq_some {n : Int} {size : Nat} {bs : Bytes} :
    num2bin n size = some bs ↔ Fits size n ∧ signMagnitude size n = bs := by
  unfold num2bin
  split <;> simp_all

theorem num2bin_inj {m n : Int} {size : Nat} {bs : Bytes} (hs : 0 < size)
    (hm : num2bin m size = some bs) (hn : num2bin n size = some bs) : m = n := by
  obtain ⟨fm, em⟩ := num2bin_eq_some.mp hm
  obtain ⟨fn, en⟩ := num2bin_eq_some.mp hn
  exact signMagnitude_inj hs fm fn (em.trans en.symm)

/-! ### Locking scripts -/

/-- Push the key, then `OP_CHECKSIG`. -/
def ScriptPubKeyP2PK (pk : Bytes32) : Bytes := 0x20 :: (pk.toList ++ [0xac])

/-- `OP_BLAKE2B`, push the redeem script's hash, then `OP_EQUAL`. -/
def ScriptPubKeyP2SH (hash : Bytes32) : Bytes := 0xaa :: 0x20 :: (hash.toList ++ [0x87])

theorem ScriptPubKeyP2PK_inj {pk pk' : Bytes32}
    (h : ScriptPubKeyP2PK pk = ScriptPubKeyP2PK pk') : pk = pk' := by
  unfold ScriptPubKeyP2PK at h
  exact List.Vector.eq _ _ (List.append_cancel_right (List.cons.inj h).2)

theorem ScriptPubKeyP2SH_inj {a b : Bytes32}
    (h : ScriptPubKeyP2SH a = ScriptPubKeyP2SH b) : a = b := by
  unfold ScriptPubKeyP2SH at h
  exact List.Vector.eq _ _ (List.append_cancel_right (List.cons.inj (List.cons.inj h).2).2)

theorem ScriptPubKeyP2PK_ne_P2SH (pk h : Bytes32) :
    ScriptPubKeyP2PK pk ≠ ScriptPubKeyP2SH h := by
  intro e
  exact absurd (List.cons.inj e).1 (by decide)

/-- `require(tx.outputs[i].scriptPubKey == …)`, the lock of a key, and
`require(tx.outputs[i].value == n)` -/
def requireOutput (tx : Tx) (i : Int) (pk : Bytes32) (n : Int) : Option Unit := do
  let out ← tx.output i
  require (out.scriptPubKey = ScriptPubKeyP2PK pk)
  require ((out.value : Int) = n)

/-- Output `i` pays a key exactly this. -/
def Tx.PaysExactly (tx : Tx) (i : Int) (pk : Bytes32) (n : Int) : Prop :=
  ∃ out, tx.output i = some out ∧ out.scriptPubKey = ScriptPubKeyP2PK pk ∧ (out.value : Int) = n

@[simp] theorem requireOutput_eq_some {tx : Tx} {i : Int} {pk : Bytes32} {n : Int} {u : Unit} :
    requireOutput tx i pk n = some u ↔ tx.PaysExactly i pk n := by
  simp [requireOutput, Tx.PaysExactly, Option.bind_eq_some_iff]

/-! ### Compiled contracts -/

/-- The compiled bytes before and after a contract's state. -/
structure Template where
  templatePrefix : Bytes
  templateSuffix : Bytes
deriving DecidableEq

def Template.redeem (t : Template) (state : Bytes) : Bytes :=
  t.templatePrefix ++ state ++ t.templateSuffix

/-- A field of a contract's state. -/
inductive Field where
  | int (n : Int)
  | byte32 (b : Bytes32)

/-- A state field is pushed in fixed width: `0x08` and eight bytes, or `0x20` and 32. -/
def Field.serialize : Field → Option Bytes
  | .int n => (num2bin n 8).map (0x08 :: ·)
  | .byte32 b => some (0x20 :: b.toList)

def serializeState : List Field → Option Bytes
  | [] => some []
  | f :: fs => do
    let b ← f.serialize
    let bs ← serializeState fs
    some (b ++ bs)

/-- `validateOutputState`: output `i` pays the hash of this same contract with the given state. -/
def validateOutputState (e : Engine) (t : Template) (tx : Tx) (i : Int) (fields : List Field) :
    Option Unit := do
  let state ← serializeState fields
  let out ← tx.output i
  require (out.scriptPubKey = ScriptPubKeyP2SH (e.blake2b (t.redeem state)))

/-- `validateOutputStateWithTemplate`: output `i` pays the hash of another contract, given by the
bytes around its state, which must be those of `templateHash`. -/
def validateOutputStateWithTemplate (e : Engine) (tx : Tx) (i : Int) (fields : List Field)
    (t : Template) (templateHash : Bytes32) : Option Unit := do
  require (e.blake2b (t.templatePrefix ++ t.templateSuffix) = templateHash)
  validateOutputState e t tx i fields

/-- `require(tx.outputs[i].value == n)` -/
def requireOutputValue (tx : Tx) (i : Int) (n : Int) : Option Unit := do
  let out ← tx.output i
  require ((out.value : Int) = n)

/-- Output `i` carries the value `n`. -/
def Tx.Pays (tx : Tx) (i : Int) (n : Int) : Prop :=
  ∃ out, tx.output i = some out ∧ (out.value : Int) = n

/-- Output `i` is locked to the contract `t` with the given state. -/
def Tx.Continues (e : Engine) (t : Template) (tx : Tx) (i : Int) (fields : List Field) : Prop :=
  ∃ state out, serializeState fields = some state ∧ tx.output i = some out ∧
    out.scriptPubKey = ScriptPubKeyP2SH (e.blake2b (t.redeem state))

@[simp] theorem requireOutputValue_eq_some {tx : Tx} {i n : Int} {u : Unit} :
    requireOutputValue tx i n = some u ↔ tx.Pays i n := by
  simp [requireOutputValue, Tx.Pays, Option.bind_eq_some_iff]

@[simp] theorem validateOutputState_eq_some {e : Engine} {t : Template} {tx : Tx} {i : Int}
    {fields : List Field} {u : Unit} :
    validateOutputState e t tx i fields = some u ↔ tx.Continues e t i fields := by
  simp [validateOutputState, Tx.Continues, Option.bind_eq_some_iff]

/-- The number in a field is one that eight bytes hold. -/
def Field.Fits : Field → Prop
  | .int n => KANet.Lib.Fits 8 n
  | .byte32 _ => True

theorem serializeState_of_fits {fields : List Field} (h : ∀ f ∈ fields, f.Fits) :
    ∃ state, serializeState fields = some state := by
  induction fields with
  | nil => exact ⟨[], rfl⟩
  | cons f fs ih =>
    obtain ⟨bs, hbs⟩ := ih fun f hf => h f (List.mem_cons_of_mem _ hf)
    have hf : ∃ b, f.serialize = some b := by
      cases f with
      | int n =>
        have hn : KANet.Lib.Fits 8 n := h _ List.mem_cons_self
        exact ⟨_, by rw [Field.serialize, num2bin, if_pos hn]; rfl⟩
      | byte32 b => exact ⟨_, rfl⟩
    obtain ⟨b, hb⟩ := hf
    exact ⟨b ++ bs, by simp [serializeState, hb, hbs]⟩

/-- The output that continues a contract in the given state. -/
def covenantOutput (e : Engine) (t : Template) (fields : List Field) (value : Nat)
    (covenantId : Option Bytes32) : TxOutput where
  value := value
  scriptPubKey := ScriptPubKeyP2SH (e.blake2b (t.redeem ((serializeState fields).getD [])))
  covenantId := covenantId

theorem Tx.continues_covenantOutput {e : Engine} {t : Template} {tx : Tx} {i : Int}
    {fields : List Field} {value : Nat} {cov : Option Bytes32} (hf : ∀ f ∈ fields, f.Fits)
    (h : tx.output i = some (covenantOutput e t fields value cov)) :
    tx.Continues e t i fields := by
  obtain ⟨state, hs⟩ := serializeState_of_fits hf
  exact ⟨state, _, hs, h, by rw [covenantOutput, hs]; rfl⟩

theorem Tx.Pays.bounds {tx : Tx} {i n : Int} (h : tx.Pays i n) : 0 ≤ n ∧ n < 2 ^ 63 := by
  obtain ⟨out, ho, rfl⟩ := h
  have hb := Tx.output_bounded ho
  exact ⟨by omega, by exact_mod_cast hb⟩

theorem Tx.Pays.value_eq {tx : Tx} {i m n : Int} (h : tx.Pays i m) (h' : tx.Pays i n) :
    m = n := by
  obtain ⟨out, ho, rfl⟩ := h
  obtain ⟨out', ho', rfl⟩ := h'
  rw [ho] at ho'
  rw [Option.some.inj ho']

/-! ### A concrete engine -/

/-- A polynomial hash, for running the definitions. -/
def sampleHash (bs : Bytes) : Bytes32 :=
  ⟨leBytes 32 (bs.foldl (fun acc b => (acc * 257 + b.toNat + 1) % (2 ^ 256 - 189)) 0),
    leBytes_length _ _⟩

/-- Hashes are `sampleHash`, and a key signs with itself. -/
def sampleEngine : Engine where
  blake2b := sampleHash
  sha256 := fun bs => sampleHash (1 :: bs)
  checkSig := fun _ sig pk => sig = pk.toList

def samplePk (i : Nat) : Bytes32 := ⟨leBytes 32 (i + 1), leBytes_length _ _⟩

/-- A transaction of which only the outputs matter. -/
def sampleTx (outputs : List TxOutput) (h : ∀ o ∈ outputs, o.value < 2 ^ 63) : Tx where
  inputs := []
  outputs := outputs
  lockTime := 0
  outputs_bounded := h

end KANet.Script
