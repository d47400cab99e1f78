import KANet.Covenant.CloseZkRun
import KANet.Lib.Splice

/-!
# `PayoutShardV2.sil`: the hand-over to `CloseZkV2`

Once its committee has attested a result, the settlement contract of a
zero-knowledge market gives its whole pool to a new `CloseZkV2`.  `zk_handoff` puts
that contract's redeem script together from the state and from four template
segments, which the spender supplies and which have to hash, one after the other, to
an anchor baked into the contract.

* `computeCloseZkTmplAnchor` — where the audited segments and the anchor come from.
* `handoff_determinate_iff` — supplied segments lead to the audited redeem script,
  from every state, exactly when they are cut where the audited ones are.
* `handoff_not_determinate` — the anchor accepts other cuts.
-/

namespace KANet.Covenant.PayoutShardV2

open KANet.Lib KANet.Script

/-- The four pieces of compiled `CloseZkV2` code around the values that vary. -/
structure Segments where
  templateA : Bytes
  templateB : Bytes
  templateC : Bytes
  templateD : Bytes
deriving DecidableEq

namespace Segments

/-- `templateA + templateB + templateC + templateD` -/
def bytes (t : Segments) : Bytes := t.templateA ++ t.templateB ++ t.templateC ++ t.templateD

/-- The segments with the values between them. -/
def splice (t : Segments) (betsRoot atMs refundRoot : Bytes) : Bytes :=
  t.templateA ++ betsRoot ++ t.templateB ++ atMs ++ t.templateC ++ refundRoot ++ t.templateD

/-- The two are cut at the same places. -/
structure SameCut (w t : Segments) : Prop where
  a : w.templateA.length = t.templateA.length
  b : w.templateB.length = t.templateB.length
  c : w.templateC.length = t.templateC.length

theorem SameCut.eq {w t : Segments} (h : SameCut w t) (hb : w.bytes = t.bytes) : w = t := by
  obtain ⟨wa, wb, wc, wd⟩ := w
  obtain ⟨ta, tb, tc, td⟩ := t
  obtain ⟨hla, hlb, hlc⟩ := h
  simp only [bytes, List.append_assoc] at hb
  obtain ⟨ha, hb₁⟩ := List.append_inj hb hla
  obtain ⟨hb, hb₂⟩ := List.append_inj hb₁ hlb
  obtain ⟨hc, hd⟩ := List.append_inj hb₂ hlc
  rw [ha, hb, hc, hd]

end Segments

/-! ### The contract -/

/-- The constructor arguments that stay fixed. -/
structure Contract where
  poolMerkleRoot : Bytes32
  predicate_commit : Bytes32
  closeZkTmplAnchor : Bytes32

structure State where
  consolidated_pool : Int
  closed : Int
  payoutRoot : Bytes32
  w : Words
  attestedWinner : Int
  attestedAtMs : Int
  betsRootBaked : Bytes32
  refundRootBaked : Bytes32

/-- The state bytes of the new contract, as the script writes them. -/
def stateBytes (s : State) : Option Bytes := do
  let push8 : Bytes := [8]
  let push32 : Bytes := [32]
  let zero ← num2bin 0 8
  let zero32 := zero ++ zero ++ zero ++ zero
  let zeroWord := push8 ++ zero
  let winner ← num2bin s.attestedWinner 8
  let one ← num2bin 1 8
  let pool ← num2bin s.consolidated_pool 8
  some (push8 ++ winner ++ push8 ++ one ++ push32 ++ zero32 ++ push8 ++ pool ++
    zeroWord ++ zeroWord ++ zeroWord ++ zeroWord ++ zeroWord ++ zeroWord ++ zeroWord ++
    zeroWord ++ zeroWord ++ zeroWord ++ zeroWord ++ zeroWord ++ zeroWord ++ zeroWord ++
    zeroWord ++ zeroWord ++ zeroWord)

/-- The redeem script whose hash the accepted output pays. -/
def zk_handoff (e : Engine) (c : Contract) (s : State) (tx : Tx) (selfOutIdx : Int)
    (w : Segments) : Option Bytes := do
  require (s.closed = 1)
  require (1099511627776 ≤ s.attestedAtMs)
  require (s.attestedAtMs < 140737488355328)
  require (e.blake2b w.bytes = c.closeZkTmplAnchor)
  let state ← stateBytes s
  let atMs ← num2bin s.attestedAtMs 6
  let redeem := 107 :: (state ++
    w.splice s.betsRootBaked.toList (6 :: atMs) s.refundRootBaked.toList)
  let out ← tx.output selfOutIdx
  require (out.scriptPubKey = ScriptPubKeyP2SH (e.blake2b redeem))
  require ((out.value : Int) = s.consolidated_pool)
  some redeem

/-! ### The audited template

`computeCloseZkTmplAnchor` compiles the contract with marker values, finds each marker in the
result and cuts there. -/

/-- What the compiler returns: the code, and where the state lies in it. -/
structure Compiled where
  script : Bytes
  state_layout : Option (Int × Int)

inductive AnchorError
  | layoutMissing
  | layoutEmpty
  | layoutOutOfBounds
  | markerMissing (label : String)
  | markerTwice (label : String) (first second : Nat)
  | roundTrip

/-- `subarray` counts a negative index from the end. -/
def subarrayIndex (length : Nat) (i : Int) : Nat :=
  if i < 0 then (length + i).toNat else min i.toNat length

def subarray (bs : Bytes) (start stop : Int) : Bytes :=
  (bs.take (subarrayIndex bs.length stop)).drop (subarrayIndex bs.length start)

def indexOf (buf needle : Bytes) (start : Nat) : Option Nat :=
  (List.range' start (buf.length + 1 - start)).find? fun i => needle.isPrefixOf (buf.drop i)

def findUnique (buf needle : Bytes) (label : String) : Except AnchorError Nat :=
  match indexOf buf needle 0 with
  | none => .error (.markerMissing label)
  | some first =>
    match indexOf buf needle (first + 1) with
    | some second => .error (.markerTwice label first second)
    | none => .ok first

/-- The code before and after the state. -/
def extractTemplateArtifact (compiled : Compiled) : Except AnchorError Template :=
  match compiled.state_layout with
  | none => .error .layoutMissing
  | some (start, len) =>
    if len ≤ 0 then .error .layoutEmpty
    else if start < 0 ∨ compiled.script.length < start + len then .error .layoutOutOfBounds
    else .ok
      { templatePrefix := compiled.script.take start.toNat
        templateSuffix := compiled.script.drop (start + len).toNat }

def CLOSEZK_SUFFIX_BASE : Int := 214

def dummyAtMs : Nat := 1783500000000
def dummyBetsRoot : Bytes := List.replicate 32 0x11
def dummyRefundRoot : Bytes := List.replicate 32 0x22
def atMsMarkerAndData : Bytes := 6 :: leBytes 6 dummyAtMs

def dummyStateBytes : Bytes :=
  [8] ++ leBytes 8 0 ++ [8] ++ leBytes 8 1 ++ [32] ++ List.replicate 32 0 ++ [8] ++ leBytes 8 0 ++
    (List.replicate 17 ([8] ++ leBytes 8 0)).flatten

structure CloseZkAnchor where
  anchor : Bytes32
  genesisMarkerByte : UInt8
  segments : Segments

def computeCloseZkTmplAnchor (e : Engine) (compiled : Compiled) :
    Except AnchorError CloseZkAnchor := do
  let art ← extractTemplateArtifact compiled
  let betsAbs ← findUnique compiled.script dummyBetsRoot "betsRoot"
  let atMsAbs ← findUnique compiled.script atMsMarkerAndData "atMs-marker+data"
  let refundAbs ← findUnique compiled.script dummyRefundRoot "refundRoot"
  let rel := fun (abs : Nat) => (abs : Int) - CLOSEZK_SUFFIX_BASE
  let suffix := art.templateSuffix
  let t : Segments :=
    { templateA := subarray suffix 0 (rel betsAbs)
      templateB := subarray suffix (rel betsAbs + 32) (rel atMsAbs)
      templateC := subarray suffix (rel atMsAbs + 7) (rel refundAbs)
      templateD := subarray suffix (rel refundAbs + 32) suffix.length }
  let marker := art.templatePrefix.headD 0
  if marker :: (dummyStateBytes ++ t.splice dummyBetsRoot atMsMarkerAndData dummyRefundRoot) =
      compiled.script then
    .ok { anchor := e.blake2b t.bytes, genesisMarkerByte := marker, segments := t }
  else .error .roundTrip

/-- What the anchor tool vouches for: the anchor is the hash of the segments, and the segments put
back together around the markers are the compiled contract. -/
theorem computeCloseZkTmplAnchor_ok {e : Engine} {compiled : Compiled} {r : CloseZkAnchor}
    (h : computeCloseZkTmplAnchor e compiled = .ok r) :
    r.anchor = e.blake2b r.segments.bytes ∧
      compiled.script = r.genesisMarkerByte :: (dummyStateBytes ++
        r.segments.splice dummyBetsRoot atMsMarkerAndData dummyRefundRoot) := by
  unfold computeCloseZkTmplAnchor at h
  cases hart : extractTemplateArtifact compiled with
  | error err =>
    rw [hart] at h
    cases h
  | ok art =>
    cases hbets : findUnique compiled.script dummyBetsRoot "betsRoot" with
    | error err =>
      rw [hart, hbets] at h
      cases h
    | ok betsAbs =>
      cases hat : findUnique compiled.script atMsMarkerAndData "atMs-marker+data" with
      | error err =>
        rw [hart, hbets, hat] at h
        cases h
      | ok atMsAbs =>
        cases href : findUnique compiled.script dummyRefundRoot "refundRoot" with
        | error err =>
          rw [hart, hbets, hat, href] at h
          cases h
        | ok refundAbs =>
          rw [hart, hbets, hat, href] at h
          simp only [bind, Except.bind] at h
          split at h
          · next hround =>
            obtain rfl := Except.ok.inj h
            exact ⟨rfl, hround.symm⟩
          · cases h

/-! ### The contract that is meant -/

/-- The state a `CloseZkV2` begins in. -/
def genesisState (s : State) : CloseZkV2.State where
  attestedWinner := s.attestedWinner
  closed := 1
  payoutRootField := ZERO32
  consolidated_pool := s.consolidated_pool
  w := Words.zero

/-- The compiled `CloseZkV2` of a market: the template with the market's values at their slots. -/
def closeZkTemplate (t : Segments) (s : State) (atMs : Bytes) : Template where
  templatePrefix := [107]
  templateSuffix := t.splice s.betsRootBaked.toList (6 :: atMs) s.refundRootBaked.toList

/-- The genesis redeem script of the market's `CloseZkV2`. -/
def genesisRedeem (t : Segments) (s : State) : Option Bytes := do
  let state ← serializeState (genesisState s).fields
  let atMs ← num2bin s.attestedAtMs 6
  some ((closeZkTemplate t s atMs).redeem state)

theorem serialize_zeroWords :
    serializeState ((List.ofFn Words.zero).map Field.int) =
      some (List.replicate 17 ([8, 0, 0, 0, 0, 0, 0, 0, 0] : Bytes)).flatten := by
  decide

/-- The script serializes the state as the contract's own entries do. -/
theorem stateBytes_eq (s : State) : stateBytes s = serializeState (genesisState s).fields := by
  have hzero : num2bin 0 8 = some [0, 0, 0, 0, 0, 0, 0, 0] := by decide
  have hone : num2bin 1 8 = some [1, 0, 0, 0, 0, 0, 0, 0] := by decide
  have hroot : ZERO32.toList = List.replicate 32 0 := rfl
  unfold stateBytes
  rw [CloseZkV2.State.fields]
  simp only [genesisState, serializeState, Field.serialize, serialize_zeroWords, hzero, hone, hroot]
  cases num2bin s.attestedWinner 8 with
  | none => rfl
  | some winner =>
    cases num2bin s.consolidated_pool 8 with
    | none => rfl
    | some pool => simp [List.replicate]

/-! ### What the entry accepts -/

/-- The range in which a timestamp is pushed with six bytes. -/
def AtMsOk (n : Int) : Prop := 1099511627776 ≤ n ∧ n < 140737488355328

theorem AtMsOk.num2bin {n : Int} (h : AtMsOk n) : num2bin n 6 = some (signMagnitude 6 n) := by
  obtain ⟨h1, h2⟩ := h
  have hfits : Fits 6 n := by
    unfold Fits
    norm_num
    omega
  rw [Script.num2bin, if_pos hfits]

theorem zk_handoff_eq_some {e : Engine} {c : Contract} {s : State} {tx : Tx} {i : Int}
    {w : Segments} {redeem : Bytes} :
    zk_handoff e c s tx i w = some redeem ↔
      s.closed = 1 ∧ AtMsOk s.attestedAtMs ∧ e.blake2b w.bytes = c.closeZkTmplAnchor ∧
        genesisRedeem w s = some redeem ∧ ∃ out, tx.output i = some out ∧
          out.scriptPubKey = ScriptPubKeyP2SH (e.blake2b redeem) ∧
          (out.value : Int) = s.consolidated_pool := by
  simp only [zk_handoff, genesisRedeem, stateBytes_eq, Option.bind_eq_bind,
    Option.bind_eq_some_iff, require_eq_some, exists_const, Option.some.injEq, AtMsOk]
  constructor
  · rintro ⟨h1, h2, h3, ha, state, hs, atMs, hat, out, ho, hpk, hv, rfl⟩
    exact ⟨h1, ⟨h2, h3⟩, ha, ⟨state, hs, atMs, hat, rfl⟩, out, ho, hpk, hv⟩
  · rintro ⟨h1, ⟨h2, h3⟩, ha, ⟨state, hs, atMs, hat, rfl⟩, out, ho, hpk, hv⟩
    exact ⟨h1, h2, h3, ha, state, hs, atMs, hat, out, ho, hpk, hv, rfl⟩

/-- The contract handed to starts where the runs of `CloseZkV2` start. -/
theorem zk_handoff_genesis {e : Engine} {c : Contract} {s : State} {tx : Tx} {i : Int}
    {w : Segments} {redeem : Bytes} (h : zk_handoff e c s tx i w = some redeem) :
    ∃ out, tx.output i = some out ∧
      CloseZkV2.Genesis { value := out.value, state := genesisState s } := by
  obtain ⟨-, -, -, -, out, ho, -, hv⟩ := zk_handoff_eq_some.mp h
  exact ⟨out, ho, rfl, rfl, hv⟩

/-! ### Telling cuts apart -/

/-- The 32-byte values. -/
def roots : Set Bytes := Set.range fun r : Bytes32 => r.toList

/-- The pushes of a timestamp in range. -/
def stamps : Set Bytes := { bs | ∃ n, AtMsOk n ∧ bs = 6 :: signMagnitude 6 n }

theorem exists_ne_ne (a b : UInt8) : ∃ n : Nat, n < 3 ∧ UInt8.ofNat n ≠ a ∧ UInt8.ofNat n ≠ b := by
  by_cases h0 : UInt8.ofNat 0 ≠ a ∧ UInt8.ofNat 0 ≠ b
  · exact ⟨0, by omega, h0⟩
  by_cases h1 : UInt8.ofNat 1 ≠ a ∧ UInt8.ofNat 1 ≠ b
  · exact ⟨1, by omega, h1⟩
  refine ⟨2, by omega, ?_⟩
  have h01 : UInt8.ofNat 0 ≠ UInt8.ofNat 1 := by decide
  have h02 : UInt8.ofNat 0 ≠ UInt8.ofNat 2 := by decide
  have h12 : UInt8.ofNat 1 ≠ UInt8.ofNat 2 := by decide
  grind

theorem separates_roots : Separates roots := by
  apply separates_of_head
  intro a
  obtain ⟨n, -, hne, -⟩ := exists_ne_ne a a
  exact ⟨UInt8.ofNat n, List.replicate 31 0, hne,
    ⟨⟨UInt8.ofNat n :: List.replicate 31 0, by simp⟩, rfl⟩⟩

theorem separates_stamps : Separates stamps := by
  apply separates_of_second (c := 6)
  intro a a'
  obtain ⟨n, hn, ha, ha'⟩ := exists_ne_ne a a'
  -- the lowest byte of a timestamp is free
  have hbytes : signMagnitude 6 ((1099511627776 + n : Nat) : Int) =
      UInt8.ofNat n :: leBytes 5 ((1099511627776 + n) / 256) := by
    have hlow : UInt8.ofNat (1099511627776 + n) = UInt8.ofNat n := by
      apply UInt8.toNat_inj.mp
      rw [UInt8.toNat_ofNat', UInt8.toNat_ofNat']
      omega
    rw [signMagnitude, if_neg (by omega), Int.natAbs_natCast, Nat.add_zero, leBytes, hlow]
  refine ⟨UInt8.ofNat n, _, ha, ha', ((1099511627776 + n : Nat) : Int), ?_, by rw [hbytes]⟩
  constructor
  · push_cast
    omega
  · push_cast
    omega

/-- **The cuts are read off from the results.** -/
theorem eq_of_splice {w t : Segments} (hb : w.bytes = t.bytes)
    (h : ∀ X ∈ roots, ∀ Y ∈ stamps, ∀ Z ∈ roots, w.splice X Y Z = t.splice X Y Z) : w = t := by
  obtain ⟨wa, wb, wc, wd⟩ := w
  obtain ⟨ta, tb, tc, td⟩ := t
  simp only [Segments.bytes, Segments.splice, List.append_assoc] at hb h
  have hroot : ZERO32.toList ∈ roots := ⟨ZERO32, rfl⟩
  have hstamp : (6 :: signMagnitude 6 1099511627776 : Bytes) ∈ stamps :=
    ⟨_, ⟨by norm_num, by norm_num⟩, rfl⟩
  have ha : wa = ta := by
    apply separates_roots.cut_unique hb
    intro X hX
    exact ⟨_, _, h X hX _ hstamp _ hroot⟩
  subst ha
  have hb := List.append_cancel_left hb
  have hbt : wb = tb := by
    apply separates_stamps.cut_unique hb
    intro Y hY
    have he := List.append_cancel_left (h _ hroot Y hY _ hroot)
    exact ⟨_, _, List.append_cancel_left he⟩
  subst hbt
  have hb := List.append_cancel_left hb
  have hc : wc = tc := by
    apply separates_roots.cut_unique hb
    intro Z hZ
    have he := List.append_cancel_left (h _ hroot _ hstamp Z hZ)
    have he := List.append_cancel_left (List.append_cancel_left he)
    exact ⟨_, _, List.append_cancel_left he⟩
  subst hc
  rw [List.append_cancel_left hb]

/-! ### Determinacy -/

/-- Where the numbers fit, every template has a genesis redeem script, around the same state. -/
theorem exists_genesisRedeem {s : State} (hw : Fits 8 s.attestedWinner)
    (hp : Fits 8 s.consolidated_pool) (hn : AtMsOk s.attestedAtMs) :
    ∃ state, ∀ u : Segments, genesisRedeem u s =
      some ((closeZkTemplate u s (signMagnitude 6 s.attestedAtMs)).redeem state) := by
  have hone : Fits 8 1 := by decide
  obtain ⟨state, hstate⟩ : ∃ state, serializeState (genesisState s).fields = some state :=
    serializeState_of_fits (CloseZkV2.fields_fit hw hone hp wordsOk_zero)
  refine ⟨state, fun u => ?_⟩
  simp [genesisRedeem, hstate, hn.num2bin]

theorem separates_accepted {e : Engine} {c : Contract} {w t : Segments}
    (ha : e.blake2b w.bytes = c.closeZkTmplAnchor)
    (h : ∀ s tx i redeem, zk_handoff e c s tx i w = some redeem →
      genesisRedeem t s = some redeem) :
    ∀ X ∈ roots, ∀ Y ∈ stamps, ∀ Z ∈ roots, w.splice X Y Z = t.splice X Y Z := by
  rintro _ ⟨bets, rfl⟩ _ ⟨n, hn, rfl⟩ _ ⟨refund, rfl⟩
  -- a state with these values, and a transaction that hands it over
  let s : State :=
    { consolidated_pool := 500, closed := 1, payoutRoot := ZERO32, w := Words.zero
      attestedWinner := 0, attestedAtMs := n, betsRootBaked := bets, refundRootBaked := refund }
  have hzero : Fits 8 0 := by decide
  have hpool : Fits 8 500 := by decide
  obtain ⟨state, hredeem⟩ := exists_genesisRedeem (s := s) hzero hpool hn
  let redeem := (closeZkTemplate w s (signMagnitude 6 n)).redeem state
  let tx := sampleTx [{ value := 500, covenantId := none
                        scriptPubKey := ScriptPubKeyP2SH (e.blake2b redeem) }] (by simp)
  have hacc : zk_handoff e c s tx 0 w = some redeem :=
    zk_handoff_eq_some.mpr ⟨rfl, hn, ha, hredeem w, _, rfl, rfl, rfl⟩
  have heq := (hredeem t).symm.trans (h s tx 0 redeem hacc)
  simp only [redeem, Template.redeem, closeZkTemplate, Option.some.injEq,
    List.append_cancel_left_eq] at heq
  exact heq.symm

/-- **When a hand-over is determined.**  The segments a spender supplies lead to the audited redeem
script from every state exactly when the anchor refuses them or they are cut where the audited ones
are. -/
theorem handoff_determinate_iff {e : Engine} {c : Contract} {w t : Segments}
    (hanchor : e.blake2b t.bytes = c.closeZkTmplAnchor)
    (hcf : Set.InjOn e.blake2b {w.bytes, t.bytes}) :
    (∀ s tx i redeem, zk_handoff e c s tx i w = some redeem → genesisRedeem t s = some redeem) ↔
      (e.blake2b w.bytes = c.closeZkTmplAnchor → w.SameCut t) := by
  have hbytes : e.blake2b w.bytes = c.closeZkTmplAnchor → w.bytes = t.bytes := fun ha =>
    hcf (Set.mem_insert _ _) (Set.mem_insert_of_mem _ rfl) (ha.trans hanchor.symm)
  constructor
  · intro h ha
    obtain rfl := eq_of_splice (hbytes ha) (separates_accepted ha h)
    exact ⟨rfl, rfl, rfl⟩
  · intro h s tx i redeem hacc
    obtain ⟨-, -, ha, hr, -⟩ := zk_handoff_eq_some.mp hacc
    obtain rfl := (h ha).eq (hbytes ha)
    exact hr

/-! ### Two cuts of one template

The same six bytes of template, cut once after the second byte and once after the first. -/

def sampleSegments : Segments := ⟨[1, 2], [3, 4], [5], [6]⟩

def sampleShifted : Segments := ⟨[1], [2, 3, 4], [5], [6]⟩

def sampleContract : Contract where
  poolMerkleRoot := ZERO32
  predicate_commit := ZERO32
  closeZkTmplAnchor := sampleEngine.blake2b [1, 2, 3, 4, 5, 6]

def sampleState : State where
  consolidated_pool := 500
  closed := 1
  payoutRoot := ZERO32
  w := Words.zero
  attestedWinner := 1
  attestedAtMs := 1783500000000
  betsRootBaked := samplePk 0
  refundRootBaked := samplePk 1

def sampleRedeem (w : Segments) : Bytes := (genesisRedeem w sampleState).getD []

def sampleHandoffTx (w : Segments) : Tx :=
  sampleTx [{ value := 500, covenantId := none
              scriptPubKey := ScriptPubKeyP2SH (sampleEngine.blake2b (sampleRedeem w)) }] (by simp)

theorem handoff_determinate_iff_sample :
    (∀ s tx i redeem, zk_handoff sampleEngine sampleContract s tx i sampleShifted = some redeem →
      genesisRedeem sampleSegments s = some redeem) ↔
      (sampleEngine.blake2b sampleShifted.bytes = sampleContract.closeZkTmplAnchor →
        sampleShifted.SameCut sampleSegments) :=
  handoff_determinate_iff rfl (by
    have : sampleShifted.bytes = sampleSegments.bytes := rfl
    rw [this, Set.pair_eq_singleton]
    exact Set.injOn_singleton _ _)

theorem sample_handoff {w : Segments} (hw : w.bytes = sampleSegments.bytes) :
    zk_handoff sampleEngine sampleContract sampleState (sampleHandoffTx w) 0 w =
      some (sampleRedeem w) := by
  refine zk_handoff_eq_some.mpr ⟨rfl, ⟨by decide, by decide⟩, ?_, ?_, _, rfl, rfl, rfl⟩
  · rw [hw]
    rfl
  · obtain ⟨state, hstate⟩ := exists_genesisRedeem (s := sampleState) (by decide) (by decide)
      ⟨by decide, by decide⟩
    rw [sampleRedeem, hstate, Option.getD_some]

/-- From one state, the script hands the pool to the audited contract and to another one. -/
theorem handoff_not_determinate :
    zk_handoff sampleEngine sampleContract sampleState (sampleHandoffTx sampleSegments) 0
      sampleSegments = some (sampleRedeem sampleSegments) ∧
    zk_handoff sampleEngine sampleContract sampleState (sampleHandoffTx sampleShifted) 0
      sampleShifted = some (sampleRedeem sampleShifted) ∧
    sampleRedeem sampleShifted ≠ sampleRedeem sampleSegments :=
  ⟨sample_handoff rfl, sample_handoff rfl, by decide +kernel⟩

end KANet.Covenant.PayoutShardV2
