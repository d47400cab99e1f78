import KANet.Settle.CloseEnforce
import KANet.Payout.FeeRulesText

/-!
# The preset of the prediction markets

`FEE_PRESETS.prediction` says in roles what `FEE_CONFIG` says in rates.  The fees of the
roles are derived from the preset once a broker, and an introducer if there is one, has
been written into it; those of the rates from the keys as they are passed.  Keys are
strings here, in either case, and leaves carry them in lower case.

* `roleFees_eq_some` — what the roles pay.
* `preset_fees` — both derivations return the same leaves, and so the same payout root.
* `feeLeaves_read` — the leaves, their keys read.
-/

namespace KANet.Settle

open KANet.Lib KANet.Script KANet.Payout

/-! ### The two derivations -/

structure FeeLeafText where
  pk : String
  amount : Int
  type : String
deriving DecidableEq

structure Fees where
  feeLeaves : List FeeLeafText
  feeSompi : Int
deriving DecidableEq

/-- `feeSompi` is the sum of the leaves. -/
def Fees.of (leaves : List FeeLeafText) : Fees where
  feeLeaves := leaves
  feeSompi := (leaves.map FeeLeafText.amount).sum

/-- The committee's share, dealt out in the order of the keys. -/
def committeeFees (total : Int) (committeePks : List String) : List FeeLeafText :=
  let sorted := (committeePks.map String.toLower).mergeSort keyLe
  let each := total.tdiv sorted.length
  sorted.mapIdx fun i pk =>
    { pk, amount := each + (if i = 0 then total - each * sorted.length else 0),
      type := "committee" }

/-- `deriveFeeLeaves`; a key that is empty is none. -/
def configFees (poolSompi : Int) (feeConfig : FeeConfig) (brokerPk introducerPk : Option String)
    (committeePks : List String) : Fees :=
  let leaf (bps : Int) (pk : Option String) (type : String) : List FeeLeafText :=
    match pk with
    | some pk =>
      if 0 < bps ∧ pk ≠ "" then [{ pk := pk.toLower, amount := bpsAmt poolSompi bps, type }]
      else []
    | none => []
  let commBps := feeConfig.oracleBps + feeConfig.nodeBps
  Fees.of (leaf feeConfig.brokerBps brokerPk "broker" ++
    leaf feeConfig.introBps introducerPk "introducer" ++
    if 0 < commBps ∧ committeePks ≠ [] then committeeFees (bpsAmt poolSompi commBps) committeePks
    else [])

/-- One turn of the loop over the roles: the leaves so far, and the rate of the committee. -/
def roleTurn (poolSompi : Int) (acc : List FeeLeafText × Int) (r : RoleText) :
    List FeeLeafText × Int :=
  if r.name = "provider" ∨ r.bps ≤ 0 then acc
  else if r.derive = some "committee" then (acc.1, acc.2 + r.bps)
  else
    match r.address with
    | none => acc
    | some a =>
      (acc.1 ++ [{ pk := a.toLower, amount := bpsAmt poolSompi r.bps, type := r.name }], acc.2)

/-- `deriveRoleFeeLeaves` -/
def roleFees (feeRules : FeeRulesText) (poolSompi : Int) (committeePks : List String) :
    Option Fees := do
  let rules ← feeRules.rules
  validateFeeRules rules
  require (0 < poolSompi)
  let acc := (feeRules.roles.mergeSort textLe).foldl (roleTurn poolSompi) ([], 0)
  some (Fees.of (acc.1 ++
    if 0 < acc.2 ∧ committeePks ≠ [] then committeeFees (bpsAmt poolSompi acc.2) committeePks
    else []))

/-! ### The preset -/

/-- `FEE_PRESETS.prediction`: a template, without addresses. -/
def predictionPreset : FeeRulesText where
  schema_v := 1
  preset := some "prediction"
  roles := [
    ⟨"provider", 9700, none, none, false⟩,
    ⟨"broker", 160, none, none, false⟩,
    ⟨"introducer", 20, none, none, true⟩,
    ⟨"oracle", 100, none, some "committee", false⟩,
    ⟨"node", 20, none, some "committee", false⟩]

/-- A role with the address that the market was created with. -/
def RoleText.withAddress (brokerPk : String) (introducerPk : Option String) (r : RoleText) :
    RoleText :=
  if r.name = "broker" then { r with address := some brokerPk }
  else if r.name = "introducer" then { r with address := introducerPk }
  else r

/-- The rules of a market by the preset. -/
def predictionRules (brokerPk : String) (introducerPk : Option String) : FeeRulesText :=
  { predictionPreset with
    roles := predictionPreset.roles.map (RoleText.withAddress brokerPk introducerPk) }

/-- A key of 32 bytes, as 64 hex digits in either case. -/
def IsKey (s : String) : Prop := ∃ pk, hexKey s = some pk ∧ pk.length = 32

/-- The preset's roles in the order of their names. -/
def sortedRoles (brokerPk : String) (introducerPk : Option String) : List RoleText := [
  ⟨"broker", 160, some brokerPk, none, false⟩,
  ⟨"introducer", 20, introducerPk, none, true⟩,
  ⟨"node", 20, none, some "committee", false⟩,
  ⟨"oracle", 100, none, some "committee", false⟩,
  ⟨"provider", 9700, none, none, false⟩]

theorem roles_perm (b : String) (i : Option String) :
    (predictionRules b i).roles.Perm (sortedRoles b i) := by
  show List.Perm [_, _, _, _, _] [_, _, _, _, _]
  refine (@List.perm_append_comm _ [_] [_, _, _, _]).trans ?_
  exact ((List.Perm.swap _ _ [_]).cons _).cons _

theorem sortedRoles_pairwise (b : String) (i : Option String) :
    (sortedRoles b i).Pairwise fun x y => textLe x y := by
  have hnames : (["broker", "introducer", "node", "oracle", "provider"] : List String).Pairwise
      fun x y => keyLe x y := by decide
  exact (List.pairwise_map (f := RoleText.name) (l := sortedRoles b i)).mp hnames

theorem sort_predictionRoles (b : String) (i : Option String) :
    (predictionRules b i).roles.mergeSort textLe = sortedRoles b i := by
  rw [mergeSort_textLe_congr (roles_perm b i) (by
    show (["provider", "broker", "introducer", "oracle", "node"] : List String).Nodup
    decide)]
  exact List.mergeSort_of_pairwise (sortedRoles_pairwise b i)

theorem IsKey.ne_empty {s : String} (h : IsKey s) : s ≠ "" := by
  obtain ⟨pk, hpk, hlen⟩ := h
  rintro rfl
  rw [hexKey, toList_toLower] at hpk
  obtain rfl : [] = pk := Option.some.inj hpk
  cases hlen

/-- The preset with its addresses read. -/
def presetRead (brokerPk : Bytes) (introducerPk : Option Bytes) : FeeRules where
  schema_v := 1
  preset := some "prediction"
  roles := [
    ⟨"provider", 9700, none, none, false⟩,
    ⟨"broker", 160, some brokerPk, none, false⟩,
    ⟨"introducer", 20, introducerPk, none, true⟩,
    ⟨"oracle", 100, none, some "committee", false⟩,
    ⟨"node", 20, none, some "committee", false⟩]

theorem presetRead_valid {b : Bytes} {i : Option Bytes} (hb : b.length = 32)
    (hi : ∀ k, i = some k → k.length = 32) : (presetRead b i).Valid where
  schema := List.mem_singleton.mpr rfl
  ne_nil := List.cons_ne_nil _ _
  roles := by
    intro r hr
    simp only [presetRead, List.mem_cons, List.not_mem_nil, or_false] at hr
    rcases hr with rfl | rfl | rfl | rfl | rfl
    · exact ⟨by decide, by decide, by simp [PROVIDER_MIN_BPS]⟩
    · exact ⟨by simp, by simp, by simp [ROLE_MAX_BPS, hb]⟩
    · refine ⟨by simp, by simp, ?_⟩
      cases i with
      | none => simp [ROLE_MAX_BPS]
      | some k => simp [ROLE_MAX_BPS, hi k rfl]
    · exact ⟨by decide, by decide, by simp [ROLE_MAX_BPS]⟩
    · exact ⟨by decide, by decide, by simp [ROLE_MAX_BPS]⟩
  names := by
    show (["provider", "broker", "introducer", "oracle", "node"] : List String).Nodup
    decide
  provider := by simp [presetRead]
  sum := rfl

/-- With keys for its addresses the preset passes. -/
theorem predictionRules_rules {b : String} {i : Option String} (hb : IsKey b)
    (hi : ∀ k, i = some k → IsKey k) :
    ∃ rules, (predictionRules b i).rules = some rules ∧ rules.Valid := by
  obtain ⟨bk, hbk, hblen⟩ := hb
  cases i with
  | none =>
    refine ⟨presetRead bk none, rules_eq_some.mpr ⟨?_, rfl, rfl⟩, presetRead_valid hblen ?_⟩
    · simp [predictionRules, predictionPreset, RoleText.withAddress, RoleText.role, hbk, presetRead]
    · intro k hk
      cases hk
  | some i =>
    obtain ⟨ik, hik, hilen⟩ := hi i rfl
    refine ⟨presetRead bk (some ik), rules_eq_some.mpr ⟨?_, rfl, rfl⟩, presetRead_valid hblen ?_⟩
    · simp [predictionRules, predictionPreset, RoleText.withAddress, RoleText.role, hbk, hik,
        presetRead]
    · rintro k ⟨⟩
      exact hilen

/-! ### One list of leaves -/

/-- The leaf of a recipient that is named. -/
def namedFee (pool bps : Int) (pk : Option String) (type : String) : List FeeLeafText :=
  pk.toList.map fun pk => { pk := pk.toLower, amount := bpsAmt pool bps, type }

/-- What the loop over the preset's roles collects. -/
theorem foldl_sortedRoles (pool : Int) (b : String) (i : Option String) :
    (sortedRoles b i).foldl (roleTurn pool) ([], 0) =
      (namedFee pool 160 (some b) "broker" ++ namedFee pool 20 i "introducer", 120) := by
  cases i <;> simp [sortedRoles, roleTurn, namedFee]

theorem configFees_eq {pool : Int} {b : String} {i : Option String} {committee : List String}
    (hb : b ≠ "") (hi : i ≠ some "") :
    configFees pool FEE_CONFIG (some b) i committee =
      Fees.of (namedFee pool 160 (some b) "broker" ++ namedFee pool 20 i "introducer" ++
        if committee ≠ [] then committeeFees (bpsAmt pool 120) committee else []) := by
  cases i with
  | none => simp [configFees, FEE_CONFIG, namedFee, hb]
  | some i =>
    have hne : i ≠ "" := fun h => hi (congrArg some h)
    simp [configFees, FEE_CONFIG, namedFee, hb, hne]

theorem roleFees_predictionRules {pool : Int} {b : String} {i : Option String}
    (hpool : 0 < pool) (hb : IsKey b) (hi : ∀ k, i = some k → IsKey k)
    (committee : List String) :
    roleFees (predictionRules b i) pool committee =
      some (configFees pool FEE_CONFIG (some b) i committee) := by
  obtain ⟨rules, hrules, hvalid⟩ := predictionRules_rules hb hi
  have hpass : validateFeeRules rules = some () := validateFeeRules_eq_some.mpr hvalid
  rw [configFees_eq hb.ne_empty fun h => (hi "" h).ne_empty rfl, roleFees, hrules]
  simp only [Option.bind_eq_bind, Option.bind_some, hpass, require, if_pos hpool,
    sort_predictionRoles, foldl_sortedRoles]
  simp

/-! ### The leaves read -/

/-- A leaf, as the tree reads it. -/
def FeeLeafText.leaf (l : FeeLeafText) : FeeLeaf where
  pk := bufferFromHex l.pk.toList
  amount := l.amount
  type := l.type

/-- The code unit of a digit. -/
def digitUnit (n : Nat) : Nat := (hexDigits.getD n '0').toNat

theorem digitUnit_lt : ∀ m < 16, ∀ n < 16, (digitUnit m < digitUnit n ↔ m < n) := by decide

theorem digitUnit_inj : ∀ m < 16, ∀ n < 16, (digitUnit m = digitUnit n ↔ m = n) := by decide

theorem charUnits_digit : ∀ n < 16, charUnits (hexDigits.getD n '0') = [digitUnit n] := by decide

theorem codeUnits_toHex_cons (b : UInt8) (bs : Bytes) :
    codeUnits (String.ofList (toHex (b :: bs))) =
      digitUnit (b.toNat / 16) :: digitUnit (b.toNat % 16) ::
        codeUnits (String.ofList (toHex bs)) := by
  have hb : b.toNat < 256 := b.toNat_lt
  have hcons : toHex (b :: bs) = hexDigits.getD (b.toNat / 16) '0' ::
      hexDigits.getD (b.toNat % 16) '0' :: toHex bs := rfl
  rw [codeUnits_eq, codeUnits_eq, String.toList_ofList, String.toList_ofList, hcons,
    List.flatMap_cons, List.flatMap_cons, charUnits_digit _ (by omega),
    charUnits_digit _ (by omega)]
  rfl

/-- **Hex strings are ordered like the bytes they spell.** -/
theorem codeUnits_toHex_lt (as bs : Bytes) :
    codeUnits (String.ofList (toHex as)) < codeUnits (String.ofList (toHex bs)) ↔ as < bs := by
  induction as generalizing bs with
  | nil =>
    cases bs with
    | nil => exact iff_of_false (lt_irrefl _) (List.not_lt_nil _)
    | cons b bs =>
      rw [codeUnits_toHex_cons]
      exact iff_of_true (List.nil_lt_cons _ _) (List.nil_lt_cons _ _)
  | cons a as ih =>
    cases bs with
    | nil => exact iff_of_false (List.not_lt_nil _) (List.not_lt_nil _)
    | cons b bs =>
      have ha : a.toNat < 256 := a.toNat_lt
      have hb : b.toNat < 256 := b.toNat_lt
      have hlt : a < b ↔ a.toNat < b.toNat := UInt8.lt_iff_toNat_lt
      have heq : a = b ↔ a.toNat = b.toNat := UInt8.toNat_inj.symm
      simp only [codeUnits_toHex_cons, List.cons_lt_cons_iff, ih, hlt, heq,
        digitUnit_lt (a.toNat / 16) (by omega) (b.toNat / 16) (by omega),
        digitUnit_lt (a.toNat % 16) (by omega) (b.toNat % 16) (by omega),
        digitUnit_inj (a.toNat / 16) (by omega) (b.toNat / 16) (by omega),
        digitUnit_inj (a.toNat % 16) (by omega) (b.toNat % 16) (by omega)]
      grind

theorem toLower_of_hexKey {s : String} {pk : Bytes} (h : hexKey s = some pk) :
    s.toLower = String.ofList (toHex pk) := by
  rw [toHex_of_fromHex h, String.ofList_toList]

theorem keyLe_toLower {s t : String} {a b : Bytes} (hs : hexKey s = some a)
    (ht : hexKey t = some b) : keyLe s.toLower t.toLower = pkLe a b := by
  rw [toLower_of_hexKey hs, toLower_of_hexKey ht, keyLe, pkLe]
  simp only [codeUnits_toHex_lt]

theorem bufferFromHex_toLower {s : String} {pk : Bytes} (h : hexKey s = some pk) :
    bufferFromHex s.toLower.toList = pk := bufferFromHex_of_fromHex h

/-- The committee's keys are sorted alike as strings and as bytes. -/
theorem sort_committee {ss : List String} {pks : List Bytes}
    (h : ss.map hexKey = pks.map some) :
    ((ss.map String.toLower).mergeSort keyLe).map (fun s => bufferFromHex s.toList) =
      pks.mergeSort pkLe := by
  have hread : ∀ s ∈ ss, ∃ pk, hexKey s = some pk := by
    intro s hs
    have hmem := List.mem_map_of_mem (f := hexKey) hs
    rw [h] at hmem
    obtain ⟨pk, -, hpk⟩ := List.mem_map.mp hmem
    exact ⟨pk, hpk.symm⟩
  have hmap : (ss.map String.toLower).map (fun s => bufferFromHex s.toList) = pks := by
    apply List.map_injective_iff.mpr (Option.some_injective Bytes)
    rw [← h, List.map_map, List.map_map]
    apply List.map_congr_left
    intro s hs
    obtain ⟨pk, hpk⟩ := hread s hs
    rw [hpk]
    exact congrArg some (bufferFromHex_toLower hpk)
  rw [List.map_mergeSort (s := pkLe), hmap]
  intro a ha b hb
  obtain ⟨s, hs, rfl⟩ := List.mem_map.mp ha
  obtain ⟨t, ht, rfl⟩ := List.mem_map.mp hb
  obtain ⟨p, hp⟩ := hread s hs
  obtain ⟨q, hq⟩ := hread t ht
  rw [bufferFromHex_toLower hp, bufferFromHex_toLower hq, keyLe_toLower hp hq]

theorem committeeFees_read {total : Int} {ss : List String} {pks : List Bytes}
    (h : ss.map hexKey = pks.map some) :
    (committeeFees total ss).map FeeLeafText.leaf = committeeLeaves total pks := by
  unfold committeeFees committeeLeaves
  rw [← sort_committee h]
  apply List.ext_getElem?
  intro i
  simp only [List.getElem?_map, List.getElem?_mapIdx, List.length_map, Option.map_map]
  rfl

theorem namedFee_read {pool bps : Int} {s : Option String} {pk : Option Bytes} {type : String}
    (hbps : 0 < bps) (h : s.map hexKey = pk.map some) :
    (namedFee pool bps s type).map FeeLeafText.leaf = namedLeaf pool bps pk type := by
  cases s with
  | none =>
    cases pk with
    | none => rfl
    | some pk => cases h
  | some s =>
    cases pk with
    | none => cases h
    | some pk =>
      have hs : hexKey s = some pk := Option.some.inj h
      simp only [namedFee, namedLeaf, Option.toList_some, List.map_cons, List.map_nil,
        Option.elim_some, if_pos hbps, FeeLeafText.leaf, bufferFromHex_toLower hs]

/-- The leaves whose keys are strings, read, are those whose keys are bytes. -/
theorem feeLeaves_read {pool : Int} {b : String} {bk : Bytes} {i : Option String}
    {ik : Option Bytes} {ss : List String} {pks : List Bytes} (hb : hexKey b = some bk)
    (hne : b ≠ "") (hi : i.map hexKey = ik.map some) (hine : i ≠ some "")
    (hs : ss.map hexKey = pks.map some) :
    (configFees pool FEE_CONFIG (some b) i ss).feeLeaves.map FeeLeafText.leaf =
      deriveFeeLeaves pool FEE_CONFIG (some bk) ik pks := by
  have hnil : ss ≠ [] ↔ pks ≠ [] := by
    rw [ne_eq, ne_eq, ← List.map_eq_nil_iff (f := hexKey), hs, List.map_eq_nil_iff]
  rw [configFees_eq hne hine, deriveFeeLeaves_eq, Fees.of, List.map_append, List.map_append,
    namedFee_read (by norm_num) (by rw [Option.map_some, hb, Option.map_some]),
    namedFee_read (by norm_num) hi]
  show _ ++ _ ++ _ = namedLeaf pool 160 (some bk) "broker" ++ namedLeaf pool 20 ik "introducer" ++
    if 0 < (120 : Int) ∧ pks ≠ [] then committeeLeaves (bpsAmt pool 120) pks else []
  congr 1
  by_cases h : pks = []
  · rw [if_neg (fun hss => hnil.mp hss h), if_neg (fun hp => hp.2 h)]
    rfl
  · rw [if_pos (hnil.mpr h), if_pos ⟨by norm_num, h⟩, committeeFees_read hs]

theorem role_eq_some {t : RoleText} {r : Role} (h : t.role = some r) :
    ∃ pk, t.address.map hexKey = pk.map some ∧
      r = { name := t.name, bps := t.bps, address := pk, derive := t.derive,
            optional := t.optional } := by
  unfold RoleText.role at h
  cases ha : t.address with
  | none =>
    rw [ha] at h
    exact ⟨none, rfl, (Option.some.inj h).symm⟩
  | some a =>
    rw [ha] at h
    obtain ⟨pk, hpk, rfl⟩ := Option.map_eq_some_iff.mp h
    exact ⟨some pk, congrArg some hpk, rfl⟩

theorem committeeBps_cons (r : Role) (rs : List Role) :
    committeeBps (r :: rs) =
      (if r.name ≠ "provider" ∧ 0 < r.bps ∧ r.derive = some "committee" then r.bps else 0) +
        committeeBps rs := by
  unfold committeeBps
  by_cases h : r.name ≠ "provider" ∧ 0 < r.bps ∧ r.derive = some "committee"
  · rw [List.filter_cons_of_pos (by simpa using h), if_pos h, List.map_cons, List.sum_cons]
  · rw [List.filter_cons_of_neg (by simpa using h), if_neg h, Int.zero_add]

/-- What a turn collects of one role. -/
theorem roleTurn_read (pool : Int) {t : RoleText} {r : Role} (h : t.role = some r)
    (acc : List FeeLeafText × Int) :
    (roleTurn pool acc t).1.map FeeLeafText.leaf =
        acc.1.map FeeLeafText.leaf ++ (roleLeaf pool r).toList ∧
      (roleTurn pool acc t).2 = acc.2 + committeeBps [r] := by
  obtain ⟨pk, hpk, rfl⟩ := role_eq_some h
  unfold roleTurn roleLeaf
  rw [committeeBps_cons]
  by_cases hskip : t.name = "provider" ∨ t.bps ≤ 0
  · have hnone : ¬ (t.name ≠ "provider" ∧ 0 < t.bps ∧ t.derive = some "committee") := by
      rintro ⟨hname, hbps, -⟩
      exact hskip.elim hname (not_le.mpr hbps)
    rw [if_pos hskip, if_pos (hskip.imp_right Or.inl), if_neg hnone]
    simp [committeeBps]
  · obtain ⟨hname, hbps⟩ := not_or.mp hskip
    rw [if_neg hskip]
    by_cases hc : t.derive = some "committee"
    · rw [if_pos hc, if_pos (Or.inr (Or.inr hc)), if_pos ⟨hname, not_le.mp hbps, hc⟩]
      simp [committeeBps]
    · rw [if_neg hc, if_neg (by simp [hname, hbps, hc]), if_neg (fun hn => hc hn.2.2)]
      cases ha : t.address with
      | none =>
        obtain rfl : pk = none := by
          rw [ha] at hpk
          exact Option.map_eq_none_iff.mp hpk.symm
        simp [committeeBps]
      | some a =>
        rw [ha] at hpk
        obtain ⟨k, rfl, hk⟩ := Option.map_eq_some_iff.mp hpk.symm
        simp [committeeBps, FeeLeafText.leaf, bufferFromHex_toLower hk.symm]

/-- The loop over the roles collects the leaves of those with an address, and adds up the rates
of those the committee is paid by. -/
theorem foldl_roleTurn (pool : Int) {ts : List RoleText} {rs : List Role}
    (h : ts.map RoleText.role = rs.map some) (acc : List FeeLeafText × Int) :
    (ts.foldl (roleTurn pool) acc).1.map FeeLeafText.leaf =
        acc.1.map FeeLeafText.leaf ++ rs.filterMap (roleLeaf pool) ∧
      (ts.foldl (roleTurn pool) acc).2 = acc.2 + committeeBps rs := by
  induction ts generalizing rs acc with
  | nil =>
    obtain rfl : rs = [] := List.map_eq_nil_iff.mp h.symm
    simp [committeeBps]
  | cons t ts ih =>
    cases rs with
    | nil => cases h
    | cons r rs =>
      rw [List.map_cons, List.map_cons] at h
      obtain ⟨hr, hrs⟩ := List.cons.inj h
      obtain ⟨h₁, h₂⟩ := ih hrs (roleTurn pool acc t)
      obtain ⟨ht₁, ht₂⟩ := roleTurn_read pool hr acc
      have hcons : (r :: rs).filterMap (roleLeaf pool) =
          (roleLeaf pool r).toList ++ rs.filterMap (roleLeaf pool) := by
        cases hl : roleLeaf pool r <;> simp [hl]
      rw [committeeBps_cons] at ht₂ ⊢
      rw [List.foldl_cons, h₁, h₂, ht₁, ht₂, hcons, List.append_assoc]
      refine ⟨rfl, ?_⟩
      simp [committeeBps, Int.add_assoc]

theorem sort_roles {ts : List RoleText} {rs : List Role}
    (h : ts.map RoleText.role = rs.map some) :
    (ts.mergeSort textLe).map RoleText.role = (rs.mergeSort nameLe).map some := by
  have hread : ∀ t ∈ ts, ∃ r, t.role = some r := by
    intro t ht
    have hmem := List.mem_map_of_mem (f := RoleText.role) ht
    rw [h] at hmem
    obtain ⟨r, -, hr⟩ := List.mem_map.mp hmem
    exact ⟨r, hr.symm⟩
  rw [List.map_mergeSort (s := readLe), h, List.map_mergeSort (s := readLe)]
  · intro a _ b _
    rfl
  · intro a ha b hb
    obtain ⟨_, hra⟩ := hread a ha
    obtain ⟨_, hrb⟩ := hread b hb
    exact textLe_eq_readLe hra hrb

/-- **Rules whose addresses are strings pay what they pay read.** -/
theorem roleFees_read {t : FeeRulesText} {rules : FeeRules} {pool : Int} {ss : List String}
    {pks : List Bytes} (ht : t.rules = some rules) (hs : ss.map hexKey = pks.map some) :
    (roleFees t pool ss).map (fun fees => fees.feeLeaves.map FeeLeafText.leaf) =
      deriveRoleFeeLeaves rules pool pks := by
  obtain ⟨hroles, -⟩ := rules_eq_some.mp ht
  have hnil : ss = [] ↔ pks = [] := by
    rw [← List.map_eq_nil_iff (f := hexKey), hs, List.map_eq_nil_iff]
  obtain ⟨hleaves, hbps⟩ := foldl_roleTurn pool (sort_roles hroles) ([], 0)
  rw [List.map_nil, List.nil_append] at hleaves
  rw [Int.zero_add] at hbps
  unfold roleFees deriveRoleFeeLeaves
  rw [ht]
  simp only [Option.bind_eq_bind, Option.bind_some]
  cases validateFeeRules rules with
  | none => rfl
  | some _ =>
    by_cases hpool : 0 < pool
    · simp only [Option.bind_some, require, if_pos hpool, Option.map_some, Fees.of,
        List.map_append, hleaves, hbps, ne_eq, hnil]
      by_cases hc : 0 < committeeBps (rules.roles.mergeSort nameLe) ∧ ¬ pks = []
      · rw [if_pos hc, if_pos hc, committeeFees_read hs]
      · rw [if_neg hc, if_neg hc, List.map_nil]
    · simp [require, hpool]

/-! ### One payout root -/

/-- The root of what a settled market pays, fees and all. -/
def feesPayoutRoot (e : Engine) (bettors : List Bet) (winningDirection poolSompi : Int)
    (fees : Fees) : Option Bytes32 := do
  let pm ← computePariMutuelPayout bettors winningDirection (some poolSompi) 0
    (fees.feeLeaves.map FeeLeafText.leaf)
  settlePayoutRoot e pm

/-- **The preset pays what the rates pay**: the same leaves in the same order, and so the same
payout root, whoever bet and whoever won. -/
theorem preset_fees {pool : Int} {brokerPk : String} {introducerPk : Option String}
    (hpool : 0 < pool) (hbroker : IsKey brokerPk)
    (hintroducer : ∀ pk, introducerPk = some pk → IsKey pk) (committeePks : List String) :
    roleFees (predictionRules brokerPk introducerPk) pool committeePks =
        some (configFees pool FEE_CONFIG (some brokerPk) introducerPk committeePks) ∧
      ∀ (e : Engine) (bettors : List Bet) (winningDirection : Int),
        (roleFees (predictionRules brokerPk introducerPk) pool committeePks).bind
            (feesPayoutRoot e bettors winningDirection pool) =
          feesPayoutRoot e bettors winningDirection pool
            (configFees pool FEE_CONFIG (some brokerPk) introducerPk committeePks) := by
  have h := roleFees_predictionRules hpool hbroker hintroducer committeePks
  exact ⟨h, fun e bettors w => by rw [h, Option.bind_some]⟩

private def presetKey (c : Char) : String := String.ofList (List.replicate 64 c)

private theorem presetKey_isKey {c : Char} (pk : Bytes)
    (h : fromHex ((List.replicate 64 c).map Char.toLower) = some pk) (hlen : pk.length = 32) :
    IsKey (presetKey c) := by
  refine ⟨pk, ?_, hlen⟩
  rw [hexKey, toList_toLower, presetKey, String.toList_ofList, h]

/-- A pool that neither the rates nor the three members of the committee divide. -/
theorem preset_fees_upperCase :
    roleFees (predictionRules (presetKey 'B') (some (presetKey 'c'))) 17613900001
        [presetKey 'F', presetKey '3', presetKey 'e'] =
      some (configFees 17613900001 FEE_CONFIG (some (presetKey 'B')) (some (presetKey 'c'))
        [presetKey 'F', presetKey '3', presetKey 'e']) :=
  (preset_fees (by norm_num)
    (presetKey_isKey (List.replicate 32 0xbb) (by decide) (by decide))
    (fun pk h => by
      obtain rfl := Option.some.inj h
      exact presetKey_isKey (List.replicate 32 0xcc) (by decide) (by decide)) _).1

end KANet.Settle
