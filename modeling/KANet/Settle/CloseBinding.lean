import KANet.Covenant.PayoutShard
import KANet.Covenant.PayoutShardV2
import KANet.Lib.Hex
import KANet.Script.Buffer

/-!
# What a close signs

A member of the committee signs a `close_attest` transaction only if the transaction pays what
the member worked out itself: the redeem script of its input with the closing fields replaced.
The fields lie at fixed places, so the script is cut there and put together again.

* `splicePayoutCloseRedeem_eq_some`, `splicePayoutV2CloseRedeem_eq_some` — the splices
  replace the closing fields and nothing else.
* `splicePayoutCloseRedeem_state`, `splicePayoutV2CloseRedeem_state` — on the script of a
  contract that is the script of its state with those fields replaced.
* `read_splice` — what is read of a spliced script.
* `close_binding` — what a transaction that is accepted pays.
-/

namespace KANet.Settle

open KANet.Lib KANet.Script KANet.Covenant

/-! ### The splices -/

def PS_STATE_START : Nat := 1

/-- `b.slice(start, end)` -/
def bufSlice (b : Bytes) (start stop : Nat) : Bytes := slice b start (stop - start)

def splicePayoutCloseRedeem (psRedeem payoutRoot : Bytes) : Option Bytes := do
  require (payoutRoot.length = 32)
  let closedOff := PS_STATE_START + 9
  let rootOff := PS_STATE_START + 18
  require (rootOff + 33 ≤ psRedeem.length)
  let one ← num2bin 1 8
  let closedField := 0x08 :: one
  let rootField := 0x20 :: payoutRoot
  some (bufSlice psRedeem 0 closedOff ++ closedField ++
    bufSlice psRedeem (closedOff + 9) rootOff ++ rootField ++ psRedeem.drop (rootOff + 33))

def PSV2_CLOSED_OFF : Nat := PS_STATE_START + 9
def PSV2_PAYOUTROOT_OFF : Nat := PS_STATE_START + 18
def PSV2_ATTESTEDWINNER_OFF : Nat := PS_STATE_START + 204
def PSV2_ATTESTEDATMS_OFF : Nat := PS_STATE_START + 213
def PSV2_BETSROOT_OFF : Nat := PS_STATE_START + 222
def PSV2_REFUNDROOT_OFF : Nat := PS_STATE_START + 255
def PSV2_STATE_END_OFF : Nat := PS_STATE_START + 288

/-- The values that a close of the second version writes. -/
structure CloseValues where
  newPayoutRoot : Bytes
  newAttestedWinner : Int
  newBetsRoot : Bytes
  newRefundRoot : Bytes
  newAttestedAtMs : Int

def splicePayoutV2CloseRedeem (psv2Redeem : Bytes) (v : CloseValues) : Option Bytes := do
  require (v.newPayoutRoot.length = 32)
  require (v.newBetsRoot.length = 32)
  require (v.newRefundRoot.length = 32)
  require (PSV2_STATE_END_OFF ≤ psv2Redeem.length)
  let one ← num2bin 1 8
  let winner ← num2bin v.newAttestedWinner 8
  let atMs ← num2bin v.newAttestedAtMs 8
  some (bufSlice psv2Redeem 0 PSV2_CLOSED_OFF ++ 0x08 :: one ++
    bufSlice psv2Redeem (PSV2_CLOSED_OFF + 9) PSV2_PAYOUTROOT_OFF ++ 0x20 :: v.newPayoutRoot ++
    bufSlice psv2Redeem (PSV2_PAYOUTROOT_OFF + 33) PSV2_ATTESTEDWINNER_OFF ++ 0x08 :: winner ++
    bufSlice psv2Redeem (PSV2_ATTESTEDWINNER_OFF + 9) PSV2_ATTESTEDATMS_OFF ++ 0x08 :: atMs ++
    bufSlice psv2Redeem (PSV2_ATTESTEDATMS_OFF + 9) PSV2_BETSROOT_OFF ++ 0x20 :: v.newBetsRoot ++
    bufSlice psv2Redeem (PSV2_BETSROOT_OFF + 33) PSV2_REFUNDROOT_OFF ++ 0x20 :: v.newRefundRoot ++
    psv2Redeem.drop (PSV2_REFUNDROOT_OFF + 33))

/-- The fields that a close writes, with their places. -/
def closeFields (payoutRoot : Bytes) : List (Nat × Bytes) :=
  [(10, 0x08 :: signMagnitude 8 1), (19, 0x20 :: payoutRoot)]

/-- The fields that a close of the second version writes. -/
def closeFieldsV2 (v : CloseValues) : List (Nat × Bytes) :=
  closeFields v.newPayoutRoot ++
    [(205, 0x08 :: signMagnitude 8 v.newAttestedWinner),
      (214, 0x08 :: signMagnitude 8 v.newAttestedAtMs), (223, 0x20 :: v.newBetsRoot),
      (256, 0x20 :: v.newRefundRoot)]

theorem splicePayoutCloseRedeem_eq_some {psRedeem payoutRoot r : Bytes} :
    splicePayoutCloseRedeem psRedeem payoutRoot = some r ↔
      payoutRoot.length = 32 ∧ 52 ≤ psRedeem.length ∧
        weave psRedeem 0 (closeFields payoutRoot) = r := by
  have hone : num2bin 1 8 = some (signMagnitude 8 1) := rfl
  unfold splicePayoutCloseRedeem
  simp only [Option.bind_eq_bind, Option.bind_eq_some_iff, require_eq_some, exists_const, hone,
    Option.some.injEq, exists_eq_left']
  apply and_congr_right
  intro hroot
  apply and_congr_right
  intro _
  simp only [closeFields, weave, bufSlice, PS_STATE_START, List.length_cons, signMagnitude_length,
    hroot, List.append_assoc]

theorem weave_closeFieldsV2 {psv2Redeem : Bytes} {v : CloseValues}
    (hp : v.newPayoutRoot.length = 32) (hb : v.newBetsRoot.length = 32)
    (hr : v.newRefundRoot.length = 32) :
    weave psv2Redeem 0 (closeFieldsV2 v) =
      slice psv2Redeem 0 10 ++ (0x08 :: signMagnitude 8 1 ++ (slice psv2Redeem 19 0 ++
        (0x20 :: v.newPayoutRoot ++ (slice psv2Redeem 52 153 ++
          (0x08 :: signMagnitude 8 v.newAttestedWinner ++ (slice psv2Redeem 214 0 ++
            (0x08 :: signMagnitude 8 v.newAttestedAtMs ++ (slice psv2Redeem 223 0 ++
              (0x20 :: v.newBetsRoot ++ (slice psv2Redeem 256 0 ++
                (0x20 :: v.newRefundRoot ++ psv2Redeem.drop 289))))))))))) := by
  simp only [closeFieldsV2, closeFields, weave, List.length_cons, signMagnitude_length, hp, hb, hr,
    List.append_assoc, List.cons_append, List.nil_append]

/-- The pieces that the splice keeps. -/
theorem bufSlices (b : Bytes) :
    bufSlice b 0 PSV2_CLOSED_OFF = slice b 0 10 ∧
      bufSlice b (PSV2_CLOSED_OFF + 9) PSV2_PAYOUTROOT_OFF = slice b 19 0 ∧
      bufSlice b (PSV2_PAYOUTROOT_OFF + 33) PSV2_ATTESTEDWINNER_OFF = slice b 52 153 ∧
      bufSlice b (PSV2_ATTESTEDWINNER_OFF + 9) PSV2_ATTESTEDATMS_OFF = slice b 214 0 ∧
      bufSlice b (PSV2_ATTESTEDATMS_OFF + 9) PSV2_BETSROOT_OFF = slice b 223 0 ∧
      bufSlice b (PSV2_BETSROOT_OFF + 33) PSV2_REFUNDROOT_OFF = slice b 256 0 ∧
      b.drop (PSV2_REFUNDROOT_OFF + 33) = b.drop 289 :=
  ⟨rfl, rfl, rfl, rfl, rfl, rfl, rfl⟩

theorem splicePayoutV2CloseRedeem_eq_some {psv2Redeem r : Bytes} {v : CloseValues} :
    splicePayoutV2CloseRedeem psv2Redeem v = some r ↔
      (v.newPayoutRoot.length = 32 ∧ v.newBetsRoot.length = 32 ∧ v.newRefundRoot.length = 32 ∧
        Fits 8 v.newAttestedWinner ∧ Fits 8 v.newAttestedAtMs) ∧ 289 ≤ psv2Redeem.length ∧
        weave psv2Redeem 0 (closeFieldsV2 v) = r := by
  have hone : num2bin 1 8 = some (signMagnitude 8 1) := rfl
  have hend : PSV2_STATE_END_OFF = 289 := rfl
  obtain ⟨h₀, h₁, h₂, h₃, h₄, h₅, h₆⟩ := bufSlices psv2Redeem
  unfold splicePayoutV2CloseRedeem
  rw [hend, hone, h₀, h₁, h₂, h₃, h₄, h₅, h₆]
  simp only [Option.bind_eq_bind, Option.bind_eq_some_iff, require_eq_some, exists_const,
    Option.some.injEq, exists_eq_left', num2bin_eq_some, List.append_assoc]
  constructor
  · rintro ⟨hp, hb, hr, hlen, winner, ⟨hw, rfl⟩, atMs, ⟨ha, rfl⟩, h⟩
    exact ⟨⟨hp, hb, hr, hw, ha⟩, hlen, (weave_closeFieldsV2 hp hb hr).trans h⟩
  · rintro ⟨⟨hp, hb, hr, hw, ha⟩, hlen, h⟩
    refine ⟨hp, hb, hr, hlen, _, ⟨hw, rfl⟩, _, ⟨ha, rfl⟩, ?_⟩
    exact (weave_closeFieldsV2 hp hb hr).symm.trans h

/-- `r` is `b` with the fields `fs` replaced. -/
structure Replaced (b : Bytes) (fs : List (Nat × Bytes)) (r : Bytes) : Prop where
  length : r.length = b.length
  fields : ∀ f ∈ fs, slice r f.1 f.2.length = f.2
  rest : ∀ j, (∀ f ∈ fs, ¬ InField j f) → r[j]? = b[j]?

theorem replaced_weave {b : Bytes} {fs : List (Nat × Bytes)} (h : InOrder b.length 0 fs) :
    Replaced b fs (weave b 0 fs) where
  length := length_weave h
  fields := fun _ hf => slice_weave_field h hf
  rest := fun j hj => getElem?_weave_of_outside h (Nat.zero_le j) hj

theorem inOrder_closeFields {payoutRoot : Bytes} (hroot : payoutRoot.length = 32) {len : Nat}
    (hlen : 52 ≤ len) : InOrder len 0 (closeFields payoutRoot) := by
  simp only [closeFields, InOrder, List.length_cons, signMagnitude_length, hroot]
  omega

theorem inOrder_closeFieldsV2 {v : CloseValues} (hp : v.newPayoutRoot.length = 32)
    (hb : v.newBetsRoot.length = 32) (hr : v.newRefundRoot.length = 32) {len : Nat}
    (hlen : 289 ≤ len) : InOrder len 0 (closeFieldsV2 v) := by
  simp only [closeFieldsV2, closeFields, List.cons_append, List.nil_append, InOrder,
    List.length_cons, signMagnitude_length, hp, hb, hr]
  omega

/-! ### The splices, on the script of a contract -/

/-- The state of the second version, in the order of its fields. -/
def fieldsV2 (s : PayoutShardV2.State) : List Field :=
  .int s.consolidated_pool :: .int s.closed :: .byte32 s.payoutRoot ::
    ((List.ofFn s.w).map Field.int ++ [.int s.attestedWinner, .int s.attestedAtMs,
      .byte32 s.betsRootBaked, .byte32 s.refundRootBaked])

theorem length_push8 (n : Int) : (0x08 :: signMagnitude 8 n : Bytes).length = 9 := by
  rw [List.length_cons, signMagnitude_length]

theorem length_push32 (r : Bytes32) : (0x20 :: r.toList : Bytes).length = 33 := by
  rw [List.length_cons, r.toList_length]

/-- **The continuation of a close**: the state is closed, with its payout root. -/
theorem splicePayoutCloseRedeem_state {t : Template} (ht : t.templatePrefix.length = 1)
    {s : PayoutShard.State} {state : Bytes} (h : serializeState s.fields = some state)
    (root : Bytes32) :
    ∃ state', serializeState ({ s with closed := 1, payoutRoot := root } :
        PayoutShard.State).fields = some state' ∧
      splicePayoutCloseRedeem (t.redeem state) root.toList = some (t.redeem state') := by
  rw [PayoutShard.State.fields] at h
  obtain ⟨bp, _, hbp, h₁, rfl⟩ := serializeState_cons.mp h
  obtain ⟨bc, _, hbc, h₂, rfl⟩ := serializeState_cons.mp h₁
  obtain ⟨br, bw, hbr, hbw, rfl⟩ := serializeState_cons.mp h₂
  have hlp : bp.length = 9 := length_serialize hbp
  have hlc : bc.length = 9 := length_serialize hbc
  have hlr : br.length = 33 := length_serialize hbr
  let ps : List (Bytes × Option Bytes) :=
    [(t.templatePrefix, none), (bp, none), (bc, some (0x08 :: signMagnitude 8 1)),
      (br, some (0x20 :: root.toList)), (bw, none), (t.templateSuffix, none)]
  have hlen : ∀ p ∈ ps, ∀ new ∈ p.2, new.length = p.1.length := by
    simp only [ps, List.forall_mem_cons, Option.mem_def, Option.some.injEq, reduceCtorEq,
      false_implies, implies_true, forall_eq', hlc, hlr, length_push8, length_push32, true_and,
      List.not_mem_nil]
  have hplaces : closeFields root.toList = places 0 ps := by
    simp only [ps, places, closeFields, ht, hlp, hlc]
  have hredeem : t.redeem (bp ++ (bc ++ (br ++ bw))) = ps.flatMap Prod.fst := by
    simp [ps, Template.redeem]
  have hweave := weave_places [] hlen
  rw [List.nil_append, List.length_nil] at hweave
  refine ⟨bp ++ (0x08 :: signMagnitude 8 1 ++ (0x20 :: root.toList ++ bw)), ?_, ?_⟩
  · exact serializeState_cons.mpr ⟨bp, _, hbp, serializeState_cons.mpr ⟨_, _, rfl,
      serializeState_cons.mpr ⟨_, _, rfl, hbw, rfl⟩, rfl⟩, rfl⟩
  · apply splicePayoutCloseRedeem_eq_some.mpr
    refine ⟨root.toList_length, ?_, ?_⟩
    · simp only [Template.redeem, List.length_append, ht, hlp, hlc, hlr]
      omega
    · rw [hplaces, hredeem, hweave]
      simp [ps, Template.redeem]

/-- The state after a close of the second version. -/
def closedV2 (s : PayoutShardV2.State) (payoutRoot : Bytes32) (winner : Int) (atMs : Int)
    (betsRoot refundRoot : Bytes32) : PayoutShardV2.State :=
  { s with
    closed := 1
    payoutRoot := payoutRoot
    attestedWinner := winner
    attestedAtMs := atMs
    betsRootBaked := betsRoot
    refundRootBaked := refundRoot }

/-- **The continuation of a close of the second version.** -/
theorem splicePayoutV2CloseRedeem_state {t : Template} (ht : t.templatePrefix.length = 1)
    {s : PayoutShardV2.State} {state : Bytes} (h : serializeState (fieldsV2 s) = some state)
    (payoutRoot betsRoot refundRoot : Bytes32) {winner atMs : Int} (hwinner : Fits 8 winner)
    (hatMs : Fits 8 atMs) :
    ∃ state', serializeState (fieldsV2 (closedV2 s payoutRoot winner atMs betsRoot refundRoot)) =
        some state' ∧
      splicePayoutV2CloseRedeem (t.redeem state)
        ⟨payoutRoot.toList, winner, betsRoot.toList, refundRoot.toList, atMs⟩ =
        some (t.redeem state') := by
  rw [fieldsV2] at h
  obtain ⟨bp, _, hbp, h₁, rfl⟩ := serializeState_cons.mp h
  obtain ⟨bc, _, hbc, h₂, rfl⟩ := serializeState_cons.mp h₁
  obtain ⟨br, _, hbr, h₃, rfl⟩ := serializeState_cons.mp h₂
  obtain ⟨bw, _, hbw, h₄, rfl⟩ := serializeState_append.mp h₃
  obtain ⟨bn, _, hbn, h₅, rfl⟩ := serializeState_cons.mp h₄
  obtain ⟨ba, _, hba, h₆, rfl⟩ := serializeState_cons.mp h₅
  obtain ⟨bb, _, hbb, h₇, rfl⟩ := serializeState_cons.mp h₆
  obtain ⟨bf, bz, hbf, hbz, rfl⟩ := serializeState_cons.mp h₇
  have hlp : bp.length = 9 := length_serialize hbp
  have hlc : bc.length = 9 := length_serialize hbc
  have hlr : br.length = 33 := length_serialize hbr
  have hlw : bw.length = 153 := by
    have hall := width_words (List.ofFn s.w) (k := 17) (by rw [List.length_ofFn])
    rw [List.take_of_length_le (by rw [List.length_map, List.length_ofFn])] at hall
    rw [length_serializeState hbw, hall]
  have hln : bn.length = 9 := length_serialize hbn
  have hla : ba.length = 9 := length_serialize hba
  have hlb : bb.length = 33 := length_serialize hbb
  have hlf : bf.length = 33 := length_serialize hbf
  obtain rfl : [] = bz := Option.some.inj hbz
  let ps : List (Bytes × Option Bytes) :=
    [(t.templatePrefix, none), (bp, none), (bc, some (0x08 :: signMagnitude 8 1)),
      (br, some (0x20 :: payoutRoot.toList)), (bw, none),
      (bn, some (0x08 :: signMagnitude 8 winner)), (ba, some (0x08 :: signMagnitude 8 atMs)),
      (bb, some (0x20 :: betsRoot.toList)), (bf, some (0x20 :: refundRoot.toList)),
      (t.templateSuffix, none)]
  have hlen : ∀ p ∈ ps, ∀ new ∈ p.2, new.length = p.1.length := by
    simp only [ps, List.forall_mem_cons, Option.mem_def, Option.some.injEq, reduceCtorEq,
      false_implies, implies_true, forall_eq', hlc, hlr, hln, hla, hlb, hlf, length_push8,
      length_push32, true_and, List.not_mem_nil]
  have hplaces : closeFieldsV2 ⟨payoutRoot.toList, winner, betsRoot.toList, refundRoot.toList,
      atMs⟩ = places 0 ps := by
    simp only [ps, places, closeFieldsV2, closeFields, ht, hlp, hlc, hlr, hlw, hln, hla, hlb,
      List.cons_append, List.nil_append]
  have hredeem : t.redeem (bp ++ (bc ++ (br ++ (bw ++ (bn ++ (ba ++ (bb ++ (bf ++ [])))))))) =
      ps.flatMap Prod.fst := by
    simp [ps, Template.redeem]
  have hweave := weave_places [] hlen
  rw [List.nil_append, List.length_nil] at hweave
  refine ⟨bp ++ (0x08 :: signMagnitude 8 1 ++ (0x20 :: payoutRoot.toList ++ (bw ++
    (0x08 :: signMagnitude 8 winner ++ (0x08 :: signMagnitude 8 atMs ++
      (0x20 :: betsRoot.toList ++ (0x20 :: refundRoot.toList ++ []))))))), ?_, ?_⟩
  · apply serializeState_cons.mpr
    refine ⟨bp, _, hbp, serializeState_cons.mpr ⟨_, _, rfl, serializeState_cons.mpr ⟨_, _, rfl,
      serializeState_append.mpr ⟨bw, _, hbw, ?_, rfl⟩, rfl⟩, rfl⟩, rfl⟩
    exact serializeState_cons.mpr ⟨_, _, serialize_int hwinner, serializeState_cons.mpr ⟨_, _,
      serialize_int hatMs, serializeState_cons.mpr ⟨_, _, rfl, serializeState_cons.mpr ⟨_, _, rfl,
        rfl, rfl⟩, rfl⟩, rfl⟩, rfl⟩
  · apply splicePayoutV2CloseRedeem_eq_some.mpr
    refine ⟨⟨payoutRoot.toList_length, betsRoot.toList_length, refundRoot.toList_length, hwinner,
      hatMs⟩, ?_, ?_⟩
    · simp only [Template.redeem, List.length_append, ht, hlp, hlc, hlr, hlw, hln, hla, hlb, hlf]
      omega
    · rw [hplaces, hredeem, hweave]
      simp [ps, Template.redeem]

/-! ### The check -/

structure CovenantRef where
  covenantId : Option String

/-- An output of a transaction in safe JSON. -/
structure SafeOutput where
  scriptPublicKey : Option String
  covenant : Option CovenantRef

/-- A transaction in safe JSON: its version, if that is a native integer, and its outputs, some of
which may be `null`. -/
structure SafeTx where
  version : Option Int
  outputs : List (Option SafeOutput)

/-- `o.covenant && o.covenant.covenantId` -/
def SafeOutput.isCovenant (o : SafeOutput) : Bool :=
  match o.covenant with
  | some ⟨some id⟩ => id ≠ ""
  | _ => false

def SafeTx.covOuts (tx : SafeTx) : List SafeOutput :=
  (tx.outputs.filterMap id).filter SafeOutput.isCovenant

/-- The version, `OP_BLAKE2B`, the push of the hash, and `OP_EQUAL`, in hex. -/
def p2shSpkHex (e : Engine) (redeem : Bytes) : String :=
  String.ofList ("0000aa20".toList ++ toHex (e.blake2b redeem).toList ++ "87".toList)

inductive BindingError
  | txSafeJson
  | version
  | splice
  | noContinuation
  | otherValues (expectedSpk : String)

structure Bound where
  expectedSpk : String
  matchedOutputs : Nat

/-- The source of both checks, from the transaction and the script that was spliced. -/
def checkBinding (e : Engine) (signedTx : Option SafeTx) (spliced : Option Bytes) :
    Except BindingError Bound :=
  match signedTx with
  | none => .error .txSafeJson
  | some tx =>
    if ∀ v ∈ tx.version, v < 1 then .error .version
    else
      match spliced with
      | none => .error .splice
      | some redeem =>
        let expectedSpk := p2shSpkHex e redeem
        if tx.covOuts = [] then .error .noContinuation
        else if ∃ o ∈ tx.covOuts, (o.scriptPublicKey.getD "").toLower ≠ expectedSpk then
          .error (.otherValues expectedSpk)
        else .ok { expectedSpk, matchedOutputs := tx.covOuts.length }

def verifyClosePayoutRootBinding (e : Engine) (signedTx : Option SafeTx)
    (psRedeem reDerivedRoot : Bytes) : Except BindingError Bound :=
  checkBinding e signedTx (splicePayoutCloseRedeem psRedeem reDerivedRoot)

def verifyClosePayoutV2Binding (e : Engine) (signedTx : Option SafeTx) (psv2Redeem : Bytes)
    (v : CloseValues) : Except BindingError Bound :=
  checkBinding e signedTx (splicePayoutV2CloseRedeem psv2Redeem v)

/-- The output pays the P2SH of a redeem script, under version 0 of locking scripts. -/
def SafeOutput.PaysP2SH (e : Engine) (redeem : Bytes) (o : SafeOutput) : Prop :=
  fromHex (o.scriptPublicKey.getD "").toLower.toList =
    some (0 :: 0 :: ScriptPubKeyP2SH (e.blake2b redeem))

theorem toHex_head : "0000aa20".toList = toHex [0, 0, 0xaa, 0x20] := by decide

theorem toHex_tail : "87".toList = toHex [0x87] := by decide

theorem toList_p2shSpkHex (e : Engine) (redeem : Bytes) :
    (p2shSpkHex e redeem).toList = toHex (0 :: 0 :: ScriptPubKeyP2SH (e.blake2b redeem)) := by
  generalize hhash : e.blake2b redeem = hash
  unfold p2shSpkHex
  rw [hhash, String.toList_ofList, toHex_head, toHex_tail]
  rw [← toHex_append, ← toHex_append]
  rw [ScriptPubKeyP2SH]
  simp only [List.cons_append, List.nil_append]

theorem toLower_p2shSpkHex (e : Engine) (redeem : Bytes) :
    (p2shSpkHex e redeem).toLower = p2shSpkHex e redeem := by
  apply String.toList_inj.mp
  rw [toList_toLower, toList_p2shSpkHex, map_toLower_toHex]

/-- **What the check accepts.** -/
theorem checkBinding_ok {e : Engine} {signedTx : Option SafeTx} {spliced : Option Bytes} {b : Bound}
    (h : checkBinding e signedTx spliced = .ok b) :
    ∃ tx redeem, signedTx = some tx ∧ spliced = some redeem ∧ (∃ v ∈ tx.version, 1 ≤ v) ∧
      tx.covOuts ≠ [] ∧ ∀ o ∈ tx.covOuts, o.PaysP2SH e redeem := by
  unfold checkBinding at h
  cases signedTx with
  | none => cases h
  | some tx =>
    simp only at h
    by_cases hv : ∀ v ∈ tx.version, v < 1
    · rw [if_pos hv] at h
      cases h
    · rw [if_neg hv] at h
      cases spliced with
      | none => cases h
      | some redeem =>
        simp only at h
        by_cases hnil : tx.covOuts = []
        · rw [if_pos hnil] at h
          cases h
        · rw [if_neg hnil] at h
          by_cases hother : ∃ o ∈ tx.covOuts,
              (o.scriptPublicKey.getD "").toLower ≠ p2shSpkHex e redeem
          · rw [if_pos hother] at h
            cases h
          · refine ⟨tx, redeem, rfl, rfl, ?_, hnil, ?_⟩
            · simpa only [not_forall, not_lt, exists_prop] using hv
            · intro o ho
              have hspk : (o.scriptPublicKey.getD "").toLower = p2shSpkHex e redeem := by
                by_contra hne
                exact hother ⟨o, ho, hne⟩
              rw [SafeOutput.PaysP2SH, hspk, toList_p2shSpkHex, fromHex_toHex]

/-- A close that pays the script it should is signed. -/
theorem checkBinding_of_pays {e : Engine} {tx : SafeTx} {redeem : Bytes}
    (hversion : ∃ v ∈ tx.version, 1 ≤ v) (hnil : tx.covOuts ≠ [])
    (hpays : ∀ o ∈ tx.covOuts, o.scriptPublicKey = some (p2shSpkHex e redeem)) :
    checkBinding e (some tx) (some redeem) = .ok ⟨p2shSpkHex e redeem, tx.covOuts.length⟩ := by
  have hver : ¬ ∀ v ∈ tx.version, v < 1 := by
    obtain ⟨v, hv, h1⟩ := hversion
    intro hall
    exact absurd (hall v hv) (not_lt.mpr h1)
  have hother : ¬ ∃ o ∈ tx.covOuts,
      (o.scriptPublicKey.getD "").toLower ≠ p2shSpkHex e redeem := by
    rintro ⟨o, ho, hne⟩
    apply hne
    rw [hpays o ho, Option.getD_some, toLower_p2shSpkHex]
  unfold checkBinding
  simp only [if_neg hver, if_neg hnil, if_neg hother]

/-! ### Reading what was attested -/

def ATTESTED_AT_MS_MIN : Int := 1099511627776
def ATTESTED_AT_MS_MAX : Int := 140737488355328

structure AttestedState where
  consolidatedPool : Int
  closed : Int
  payoutRoot : Bytes
  attestedWinner : Int
  attestedAtMs : Int
  betsRoot : Bytes
  refundRoot : Bytes
deriving DecidableEq

def readPayoutShardV2AttestedState (b : Bytes) : Option AttestedState := do
  require (PSV2_STATE_END_OFF ≤ b.length)
  let consolidatedPool ← readBigInt64LE b (PS_STATE_START + 1)
  let closed ← (readBigInt64LE b (PSV2_CLOSED_OFF + 1)).map toNumber
  require (closed = 1)
  let payoutRoot := slice b (PSV2_PAYOUTROOT_OFF + 1) 32
  let attestedWinner ← (readBigInt64LE b (PSV2_ATTESTEDWINNER_OFF + 1)).map toNumber
  let attestedAtMs ← (readBigInt64LE b (PSV2_ATTESTEDATMS_OFF + 1)).map toNumber
  let betsRoot := slice b (PSV2_BETSROOT_OFF + 1) 32
  let refundRoot := slice b (PSV2_REFUNDROOT_OFF + 1) 32
  require (attestedWinner = 0 ∨ attestedWinner = 1)
  require (ATTESTED_AT_MS_MIN ≤ attestedAtMs ∧ attestedAtMs < ATTESTED_AT_MS_MAX)
  some { consolidatedPool, closed, payoutRoot, attestedWinner, attestedAtMs, betsRoot, refundRoot }

/-- A field that was written reads as the number it was written from. -/
theorem readBigInt64LE_field {b : Bytes} {off : Nat} {n : Int}
    (h : slice b off 9 = 0x08 :: signMagnitude 8 n) (h0 : 0 ≤ n) (hn : Fits 8 n) :
    readBigInt64LE b (off + 1) = some n := by
  have hval := (slice_eq_cons h).2
  have hlen : off + 1 + 8 ≤ b.length := by
    apply le_length_of_slice (by norm_num)
    rw [hval, signMagnitude_length]
  rw [readBigInt64LE, if_pos hlen, hval]
  exact congrArg some (reread_of_nonneg h0 hn)

/-- The pool is left alone. -/
theorem Replaced.readBigInt64LE_pool {b r : Bytes} {v : CloseValues}
    (h : Replaced b (closeFieldsV2 v) r) (hlen : 289 ≤ b.length) :
    ∃ pool, readBigInt64LE b (PS_STATE_START + 1) = some pool ∧
      readBigInt64LE r (PS_STATE_START + 1) = some pool := by
  have hslice : slice r 2 8 = slice b 2 8 := by
    apply slice_congr
    intro j _ hj
    apply h.rest
    intro f hf hin
    have hle : 10 ≤ f.1 := by
      simp only [closeFieldsV2, closeFields, List.cons_append, List.nil_append, List.mem_cons,
        List.not_mem_nil, or_false] at hf
      rcases hf with rfl | rfl | rfl | rfl | rfl | rfl <;> show 10 ≤ _ <;> norm_num
    have hlo := hin.1
    omega
  have hr := h.length
  refine ⟨ofTwosComplement (slice b 2 8), ?_, ?_⟩
  · exact if_pos (show 2 + 8 ≤ b.length by omega)
  · rw [← hslice]
    exact if_pos (show 2 + 8 ≤ r.length by omega)

/-- **The attested fields are read as they were spliced.** -/
theorem read_splice {psv2Redeem r : Bytes} {v : CloseValues}
    (h : splicePayoutV2CloseRedeem psv2Redeem v = some r)
    (hwinner : v.newAttestedWinner = 0 ∨ v.newAttestedWinner = 1)
    (hatMs : ATTESTED_AT_MS_MIN ≤ v.newAttestedAtMs ∧ v.newAttestedAtMs < ATTESTED_AT_MS_MAX) :
    ∃ pool, readBigInt64LE psv2Redeem (PS_STATE_START + 1) = some pool ∧
      readPayoutShardV2AttestedState r = some
        { consolidatedPool := pool, closed := 1, payoutRoot := v.newPayoutRoot
          attestedWinner := v.newAttestedWinner, attestedAtMs := v.newAttestedAtMs
          betsRoot := v.newBetsRoot, refundRoot := v.newRefundRoot } := by
  obtain ⟨⟨hp, hb, hr, hfw, hfa⟩, hlen, rfl⟩ := splicePayoutV2CloseRedeem_eq_some.mp h
  have hrep := replaced_weave (inOrder_closeFieldsV2 hp hb hr hlen)
  obtain ⟨pool, hpool, hpool'⟩ := hrep.readBigInt64LE_pool hlen
  have hfields := hrep.fields
  have hlength := hrep.length
  generalize weave psv2Redeem 0 (closeFieldsV2 v) = r at hpool' hfields hlength ⊢
  simp only [closeFieldsV2, closeFields, List.cons_append, List.nil_append, List.forall_mem_cons,
    List.length_cons, signMagnitude_length, hp, hb, hr, List.not_mem_nil, false_implies,
    implies_true, and_true] at hfields
  obtain ⟨hc, hroot, hn, ha, hbets, hrefund⟩ := hfields
  have hlo := hatMs.1
  have hhi := hatMs.2
  unfold ATTESTED_AT_MS_MIN at hlo
  unfold ATTESTED_AT_MS_MAX at hhi
  have hclosed := readBigInt64LE_field hc (by norm_num) (by decide)
  have hwon := readBigInt64LE_field hn (by omega) hfw
  have hat := readBigInt64LE_field ha (by omega) hfa
  refine ⟨pool, hpool, ?_⟩
  have hone : toNumber 1 = 1 := by decide
  have hwonNumber : toNumber v.newAttestedWinner = v.newAttestedWinner := toNumber_of_lt (by omega)
  have hatNumber : toNumber v.newAttestedAtMs = v.newAttestedAtMs := toNumber_of_lt (by omega)
  have hend : PSV2_STATE_END_OFF ≤ r.length := by
    rw [hlength]
    exact hlen
  unfold readPayoutShardV2AttestedState PSV2_CLOSED_OFF PSV2_PAYOUTROOT_OFF PSV2_ATTESTEDWINNER_OFF
    PSV2_ATTESTEDATMS_OFF PSV2_BETSROOT_OFF PSV2_REFUNDROOT_OFF PS_STATE_START
  rw [show PS_STATE_START = 1 from rfl] at hpool'
  simp only [hpool', hclosed, hwon, hat, Option.map_some, hone, hwonNumber, hatNumber,
    (slice_eq_cons hroot).2, (slice_eq_cons hbets).2, (slice_eq_cons hrefund).2,
    Option.bind_eq_bind, Option.bind_some, Option.bind_eq_some_iff, require_eq_some, exists_const,
    and_true, true_and]
  exact ⟨hend, hwinner, hatMs⟩

/-! ### What a close pays -/

/-- `r` is the script of a payout shard after a close: the fields of a close are replaced, and if
the script was that of the contract in some state, `r` is that of the contract closed. -/
structure IsClose (psRedeem payoutRoot r : Bytes) : Prop where
  replaced : Replaced psRedeem (closeFields payoutRoot) r
  state : ∀ (t : Template) (s : PayoutShard.State) (state : Bytes) (root : Bytes32),
    t.templatePrefix.length = 1 → serializeState s.fields = some state →
      psRedeem = t.redeem state → payoutRoot = root.toList →
      ∃ state', serializeState ({ s with closed := 1, payoutRoot := root } :
        PayoutShard.State).fields = some state' ∧ r = t.redeem state'

/-- `r` is the script of a payout shard of the second version after a close. -/
structure IsCloseV2 (psv2Redeem : Bytes) (v : CloseValues) (r : Bytes) : Prop where
  replaced : Replaced psv2Redeem (closeFieldsV2 v) r
  state : ∀ (t : Template) (s : PayoutShardV2.State) (state : Bytes)
    (payoutRoot betsRoot refundRoot : Bytes32),
    t.templatePrefix.length = 1 → serializeState (fieldsV2 s) = some state →
      psv2Redeem = t.redeem state → v.newPayoutRoot = payoutRoot.toList →
      v.newBetsRoot = betsRoot.toList → v.newRefundRoot = refundRoot.toList →
      ∃ state', serializeState (fieldsV2 (closedV2 s payoutRoot v.newAttestedWinner
        v.newAttestedAtMs betsRoot refundRoot)) = some state' ∧ r = t.redeem state'

theorem isClose_of_splice {psRedeem payoutRoot r : Bytes}
    (h : splicePayoutCloseRedeem psRedeem payoutRoot = some r) : IsClose psRedeem payoutRoot r where
  replaced := by
    obtain ⟨hroot, hlen, rfl⟩ := splicePayoutCloseRedeem_eq_some.mp h
    exact replaced_weave (inOrder_closeFields hroot hlen)
  state := by
    intro t s state root ht hstate hredeem hroot
    obtain ⟨state', hstate', hsplice⟩ := splicePayoutCloseRedeem_state ht hstate root
    rw [hredeem, hroot] at h
    exact ⟨state', hstate', Option.some.inj (h.symm.trans hsplice)⟩

theorem isCloseV2_of_splice {psv2Redeem r : Bytes} {v : CloseValues}
    (h : splicePayoutV2CloseRedeem psv2Redeem v = some r) : IsCloseV2 psv2Redeem v r where
  replaced := by
    obtain ⟨⟨hp, hb, hr, -, -⟩, hlen, rfl⟩ := splicePayoutV2CloseRedeem_eq_some.mp h
    exact replaced_weave (inOrder_closeFieldsV2 hp hb hr hlen)
  state := by
    obtain ⟨⟨-, -, -, hwinner, hatMs⟩, -, -⟩ := splicePayoutV2CloseRedeem_eq_some.mp h
    intro t s state payoutRoot betsRoot refundRoot ht hstate hredeem hp hb hr
    obtain ⟨state', hstate', hsplice⟩ :=
      splicePayoutV2CloseRedeem_state ht hstate payoutRoot betsRoot refundRoot hwinner hatMs
    have hv : v = ⟨payoutRoot.toList, v.newAttestedWinner, betsRoot.toList, refundRoot.toList,
        v.newAttestedAtMs⟩ := by
      rw [← hp, ← hb, ← hr]
    rw [hredeem, hv] at h
    exact ⟨state', hstate', Option.some.inj (h.symm.trans hsplice)⟩

/-- The values that the committee can attest. -/
structure CloseValues.InRange (v : CloseValues) : Prop where
  payoutRoot : v.newPayoutRoot.length = 32
  betsRoot : v.newBetsRoot.length = 32
  refundRoot : v.newRefundRoot.length = 32
  winner : v.newAttestedWinner = 0 ∨ v.newAttestedWinner = 1
  atMs : ATTESTED_AT_MS_MIN ≤ v.newAttestedAtMs ∧ v.newAttestedAtMs < ATTESTED_AT_MS_MAX

theorem CloseValues.InRange.splice {psv2Redeem : Bytes} {v : CloseValues} (h : v.InRange)
    (hlen : PSV2_STATE_END_OFF ≤ psv2Redeem.length) :
    ∃ r, splicePayoutV2CloseRedeem psv2Redeem v = some r := by
  have hwinner : Fits 8 v.newAttestedWinner := by
    rcases h.winner with hw | hw <;> rw [hw] <;> decide
  have hatMs : Fits 8 v.newAttestedAtMs := by
    have hlo := h.atMs.1
    have hhi := h.atMs.2
    unfold ATTESTED_AT_MS_MIN at hlo
    unfold ATTESTED_AT_MS_MAX at hhi
    unfold Fits
    norm_num
    omega
  exact ⟨_, splicePayoutV2CloseRedeem_eq_some.mpr
    ⟨⟨h.payoutRoot, h.betsRoot, h.refundRoot, hwinner, hatMs⟩, hlen, rfl⟩⟩

/-- **A close that is signed pays what was derived**: each output under the covenant pays the
script of the input with the closing fields replaced, and of the second version the attested
values are read from that script as they were written. -/
theorem close_binding (e : Engine) (signedTx : Option SafeTx) (redeem : Bytes) :
    (∀ payoutRoot b, verifyClosePayoutRootBinding e signedTx redeem payoutRoot = .ok b →
      ∃ tx r, signedTx = some tx ∧ IsClose redeem payoutRoot r ∧ tx.covOuts ≠ [] ∧
        ∀ o ∈ tx.covOuts, o.PaysP2SH e r) ∧
    (∀ v b, verifyClosePayoutV2Binding e signedTx redeem v = .ok b →
      ∃ tx r, signedTx = some tx ∧ IsCloseV2 redeem v r ∧ tx.covOuts ≠ [] ∧
        ∀ o ∈ tx.covOuts, o.PaysP2SH e r) ∧
    ∀ v : CloseValues, v.InRange → PSV2_STATE_END_OFF ≤ redeem.length →
      ∃ r pool, splicePayoutV2CloseRedeem redeem v = some r ∧ IsCloseV2 redeem v r ∧
        readBigInt64LE redeem (PS_STATE_START + 1) = some pool ∧
        readPayoutShardV2AttestedState r = some
          { consolidatedPool := pool, closed := 1, payoutRoot := v.newPayoutRoot
            attestedWinner := v.newAttestedWinner, attestedAtMs := v.newAttestedAtMs
            betsRoot := v.newBetsRoot, refundRoot := v.newRefundRoot } := by
  refine ⟨?_, ?_, ?_⟩
  · intro payoutRoot b h
    obtain ⟨tx, r, htx, hsplice, -, hnil, hpays⟩ := checkBinding_ok h
    exact ⟨tx, r, htx, isClose_of_splice hsplice, hnil, hpays⟩
  · intro v b h
    obtain ⟨tx, r, htx, hsplice, -, hnil, hpays⟩ := checkBinding_ok h
    exact ⟨tx, r, htx, isCloseV2_of_splice hsplice, hnil, hpays⟩
  · intro v hv hlen
    obtain ⟨r, hsplice⟩ := hv.splice hlen
    obtain ⟨pool, hpool, hread⟩ := read_splice hsplice hv.winner hv.atMs
    exact ⟨r, pool, hsplice, isCloseV2_of_splice hsplice, hpool, hread⟩

/-- A transaction that pays a script under the covenant, with an output of change. -/
def sampleClose (e : Engine) (redeem : Bytes) : SafeTx where
  version := some 1
  outputs := [some { scriptPublicKey := some (p2shSpkHex e redeem), covenant := some ⟨some "aa"⟩ },
    some { scriptPublicKey := none, covenant := none }, none]

theorem checkBinding_sampleClose (e : Engine) (r : Bytes) :
    checkBinding e (some (sampleClose e r)) (some r) = .ok ⟨p2shSpkHex e r, 1⟩ := by
  have hcov : (sampleClose e r).covOuts =
      [{ scriptPublicKey := some (p2shSpkHex e r), covenant := some ⟨some "aa"⟩ }] := rfl
  rw [checkBinding_of_pays ⟨1, rfl, by norm_num⟩ (ne_of_eq_of_ne hcov (List.cons_ne_nil _ _))
    (by rw [hcov]; simp), hcov]
  rfl

def sampleValues : CloseValues where
  newPayoutRoot := List.replicate 32 1
  newAttestedWinner := 1
  newBetsRoot := List.replicate 32 2
  newRefundRoot := List.replicate 32 3
  newAttestedAtMs := 1700000000000

theorem close_binding_sampleClose :
    ∃ r r', IsCloseV2 (List.replicate 300 0) sampleValues r' ∧
      ∀ o ∈ (sampleClose sampleEngine r).covOuts, o.PaysP2SH sampleEngine r' := by
  have hrange : sampleValues.InRange := ⟨rfl, rfl, rfl, Or.inr rfl, by decide⟩
  have hlen : PSV2_STATE_END_OFF ≤ (List.replicate 300 (0 : UInt8)).length := by
    rw [List.length_replicate]
    decide
  obtain ⟨r, hr⟩ := hrange.splice hlen
  have hok := checkBinding_sampleClose sampleEngine r
  rw [← hr] at hok
  obtain ⟨tx, r', htx, hclose, -, hpays⟩ :=
    (close_binding sampleEngine (some (sampleClose sampleEngine r)) _).2.1 sampleValues _ hok
  obtain rfl := Option.some.inj htx
  exact ⟨r, r', hclose, hpays⟩

end KANet.Settle
