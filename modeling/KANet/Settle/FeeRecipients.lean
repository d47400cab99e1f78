import KANet.Settle.CloseEnforce

/-!
# Who chooses the recipients of the fees

Two requests to close one market are both accepted.  The hash in the redeem script is one hash,
so what it is a hash of is the same in both requests, as far as it is a hash of the request at all:
a market without a predicate and without fee rules commits to its metadata only, and the request
names the recipients as it likes.

* `Committed.predicate_congr` — a predicate that can be judged is the same in both requests.
* `Committed.fees_congr` — fee rules are the same in both requests, and so are the recipients that
  are committed to.
* `recipients_iff` — when two requests are signed with one root.
-/

namespace KANet.Settle

open KANet.Lib KANet.Script KANet.Payout

/-! ### What is committed to -/

/-- The recipients are free: there are no fee rules, and no predicate with a broker beside it. -/
def Unbound (r : SignRequest) : Prop :=
  r.fee_rules = none ∧ (isNull r.predicate = true ∨ pkHint r.broker_pk = none)

/-- The hints of a request are the addresses in its fee rules. -/
structure HintsOf (t : FeeRulesText) (r : SignRequest) : Prop where
  broker : pkHint r.broker_pk = rulesAddress t "broker"
  introducer : pkHint r.introducer_pk = rulesAddress t "introducer"

/-- The object of a request that is hashed for its commitment. -/
inductive Commits (e : Engine) (ctx : EnforceCtx) (r : SignRequest) : Json → Prop
  | rules (t : FeeRulesText) (s : String) (rules : r.fee_rules = some (some t))
      (canonical : canonicalizeFeeRules t = some s) (hints : HintsOf t r) :
      Commits e ctx r (rulesObj (hex32 e s) r.predicate (ctx.marketMetadataHash.getD ""))
  | predicate (rules : r.fee_rules = none) (null : isNull r.predicate = false)
      (broker : pkHint r.broker_pk = none) : Commits e ctx r r.predicate
  | market (rules : r.fee_rules = none) (null : isNull r.predicate = false)
      (broker : pkHint r.broker_pk ≠ none) :
      Commits e ctx r (marketObj r.predicate r.broker_pk r.introducer_pk)

/-- The texts that are hashed for the commitment of a request. -/
def commitTexts (e : Engine) (ctx : EnforceCtx) (r : SignRequest) : List String :=
  match r.fee_rules.join with
  | some t => (canonicalizeFeeRules t).elim [] fun s => [s, canonicalPredicate
      (rulesObj (hex32 e s) r.predicate (ctx.marketMetadataHash.getD ""))]
  | none =>
    if isNull r.predicate then []
    else if pkHint r.broker_pk = none then [canonicalPredicate r.predicate]
    else [canonicalPredicate (marketObj r.predicate r.broker_pk r.introducer_pk)]

section

variable {e : Engine} {ctx : EnforceCtx} {r r' : SignRequest} {v v' : Json}

/-- **What a request commits to**: the metadata of the market, or an object of the request. -/
theorem commits_of_expected {c : String} (h : expectedCommit e ctx r = .ok c) :
    (r.fee_rules = none ∧ isNull r.predicate = true) ∨
      ∃ v, Commits e ctx r v ∧ hex32 e (canonicalPredicate v) = c := by
  unfold expectedCommit at h
  cases hrules : r.fee_rules with
  | some rules =>
    rw [hrules] at h
    cases rules with
    | none => cases h
    | some t =>
      simp only [bind_eq_ok, check_eq_ok, orRefuse_eq_ok, exists_const, Except.ok.injEq,
        computeMarketCommitV2_eq_some] at h
      obtain ⟨-, _, ⟨s, hs, -, rfl⟩, hb, hi, rfl⟩ := h
      exact Or.inr ⟨_, .rules t s hrules hs ⟨hb, hi⟩, rfl⟩
  | none =>
    simp only [hrules] at h
    cases hnull : isNull r.predicate with
    | true => exact Or.inl ⟨rfl, rfl⟩
    | false =>
      simp only [hnull, Bool.false_eq_true, if_false] at h
      by_cases hb : pkHint r.broker_pk = none
      · rw [if_pos hb] at h
        exact Or.inr ⟨_, .predicate hrules hnull hb, Except.ok.inj h⟩
      · rw [if_neg hb] at h
        exact Or.inr ⟨_, .market hrules hnull hb, Except.ok.inj h⟩

theorem commitTexts_rules {t : FeeRulesText} {s : String} (hr : r.fee_rules = some (some t))
    (hs : canonicalizeFeeRules t = some s) : commitTexts e ctx r = [s, canonicalPredicate
      (rulesObj (hex32 e s) r.predicate (ctx.marketMetadataHash.getD ""))] := by
  rw [commitTexts, hr, Option.join_some]
  show (canonicalizeFeeRules t).elim [] _ = _
  rw [hs, Option.elim_some]

theorem Commits.mem_texts (h : Commits e ctx r v) :
    canonicalPredicate v ∈ commitTexts e ctx r := by
  cases h with
  | rules t s rules canonical =>
    rw [commitTexts_rules rules canonical]
    exact List.mem_cons_of_mem _ (List.mem_singleton.mpr rfl)
  | predicate rules null broker =>
    rw [commitTexts, rules, Option.join_none]
    show _ ∈ if isNull r.predicate then _ else _
    rw [null, if_neg Bool.false_ne_true, if_pos broker]
    exact List.mem_singleton.mpr rfl
  | market rules null broker =>
    rw [commitTexts, rules, Option.join_none]
    show _ ∈ if isNull r.predicate then _ else _
    rw [null, if_neg Bool.false_ne_true, if_neg broker]
    exact List.mem_singleton.mpr rfl

/-- What commits to an object and is not free commits to its rules, or to its recipients. -/
theorem Commits.of_bound (h : Commits e ctx r v) (hb : ¬ Unbound r) :
    (∃ t s, r.fee_rules = some (some t) ∧ canonicalizeFeeRules t = some s ∧ HintsOf t r ∧
      v = rulesObj (hex32 e s) r.predicate (ctx.marketMetadataHash.getD "")) ∨
    (r.fee_rules = none ∧ v = marketObj r.predicate r.broker_pk r.introducer_pk) := by
  cases h with
  | rules t s rules canonical hints => exact Or.inl ⟨t, s, rules, canonical, hints, rfl⟩
  | predicate rules null broker => exact absurd ⟨rules, Or.inr broker⟩ hb
  | market rules null broker => exact Or.inr ⟨rules, rfl⟩

theorem isNull_of_get {p a : Json} {k : String} (h : p.get k = some a) : isNull p = false := by
  cases p with
  | null => cases h
  | _ => rfl

/-- **A predicate that can be judged is the same in both requests.** -/
theorem Commits.predicate_congr (h : Commits e ctx r v) (h' : Commits e ctx r' v')
    (hv : v.canonical keyLe = v'.canonical keyLe) {a a' : Json}
    (ha : r.predicate.get "metric" = some a) (ha' : r'.predicate.get "metric" = some a') :
    r.predicate.canonical keyLe = r'.predicate.canonical keyLe := by
  cases h with
  | rules =>
    cases h' with
    | rules => exact (rulesObj_inj hv).2.2 (isNull_of_get ha)
    | predicate => exact absurd hv.symm (not_metric_rulesObj ha')
    | market => exact absurd hv rulesObj_ne_marketObj
  | predicate =>
    cases h' with
    | rules => exact absurd hv (not_metric_rulesObj ha)
    | predicate => exact hv
    | market => exact absurd hv (not_metric_marketObj ha)
  | market =>
    cases h' with
    | rules => exact absurd hv.symm rulesObj_ne_marketObj
    | predicate => exact absurd hv.symm (not_metric_marketObj ha')
    | market => exact (marketObj_inj hv).1

end

/-! ### The addresses of the rules -/

theorem pkHint_lower {pk : Option String} {s : String} (h : pkHint pk = some s) :
    s.toLower = s := by
  obtain ⟨s', -, rfl⟩ := Option.map_eq_some_iff.mp h
  exact toLower_idem s'

theorem rulesAddress_eq_some {t : FeeRulesText} {name a : String}
    (hnd : (t.roles.map RoleText.name).Nodup) :
    rulesAddress t name = some a ↔ ∃ q ∈ t.roles, q.name = name ∧ q.address = some a := by
  unfold rulesAddress
  rw [Option.bind_eq_some_iff]
  constructor
  · intro h
    obtain ⟨q, hq, ha⟩ := h
    exact ⟨q, List.mem_of_find?_eq_some hq, by simpa using List.find?_some hq, ha⟩
  · intro h
    obtain ⟨q, hq, hname, ha⟩ := h
    have hfound : (t.roles.find? fun r => decide (r.name = name)).isSome = true := by
      rw [List.find?_isSome]
      exact ⟨q, hq, by simpa using hname⟩
    obtain ⟨q', hq'⟩ := Option.isSome_iff_exists.mp hfound
    have hname' : q'.name = name := by simpa using List.find?_some hq'
    have heq : q' = q :=
      List.inj_on_of_nodup_map hnd (List.mem_of_find?_eq_some hq') hq (hname'.trans hname.symm)
    exact ⟨q', hq', heq ▸ ha⟩

/-- An address in lower case is an address of every text with the same canonical roles. -/
theorem rulesAddress_of_sorted {t t' : FeeRulesText} {name a : String}
    (hnd : (t.roles.map RoleText.name).Nodup) (hnd' : (t'.roles.map RoleText.name).Nodup)
    (hs : t.sorted = t'.sorted)
    (hlow' : ∀ a, rulesAddress t' name = some a → a.toLower = a)
    (hlow : a.toLower = a) (h : rulesAddress t name = some a) :
    rulesAddress t' name = some a := by
  obtain ⟨q, hq, hname, ha⟩ := (rulesAddress_eq_some hnd).mp h
  have hmem : q.canonical ∈ t.sorted :=
    List.mem_mergeSort.mpr (List.mem_map_of_mem hq)
  rw [hs, FeeRulesText.sorted, List.mem_mergeSort] at hmem
  obtain ⟨q', hq', hcanon⟩ := List.mem_map.mp hmem
  have hname' : q'.name = name := (congrArg RoleText.name hcanon).trans hname
  have haddress : q'.address.map String.toLower = some a := by
    have := congrArg RoleText.address hcanon
    simpa only [RoleText.canonical, ha, Option.map_some, hlow] using this
  obtain ⟨a', ha', rfl⟩ := Option.map_eq_some_iff.mp haddress
  have hfound := (rulesAddress_eq_some hnd').mpr ⟨q', hq', hname', ha'⟩
  rw [hfound, hlow' a' hfound]

theorem roles_nodup {t : FeeRulesText} {s : String} (h : canonicalizeFeeRules t = some s) :
    (t.roles.map RoleText.name).Nodup := by
  obtain ⟨rules, hr, hv, -⟩ := canonicalizeFeeRules_eq_some.mp h
  have hnd := names_nodup hr hv
  rw [List.map_map] at hnd
  exact hnd

/-- **Hints that are addresses of the rules** are the same where the rules are. -/
theorem hint_congr {t t' : FeeRulesText} {s : String} {pk pk' : Option String} {name : String}
    (h : canonicalizeFeeRules t = some s) (h' : canonicalizeFeeRules t' = some s)
    (hpk : pkHint pk = rulesAddress t name) (hpk' : pkHint pk' = rulesAddress t' name) :
    pkHint pk = pkHint pk' := by
  have hs := canonicalizeFeeRules_inj h h'
  have hlow : ∀ a, rulesAddress t name = some a → a.toLower = a := fun a ha =>
    pkHint_lower (hpk.trans ha)
  have hlow' : ∀ a, rulesAddress t' name = some a → a.toLower = a := fun a ha =>
    pkHint_lower (hpk'.trans ha)
  rw [hpk, hpk']
  apply option_ext
  · intro a ha
    exact rulesAddress_of_sorted (roles_nodup h) (roles_nodup h') hs hlow' (hlow a ha) ha
  · intro a ha
    exact rulesAddress_of_sorted (roles_nodup h') (roles_nodup h) hs.symm hlow (hlow' a ha) ha

/-! ### Two requests -/

section

variable {e : Engine} {ctx : EnforceCtx} {r r' : SignRequest} {v v' : Json} {S : Set Bytes}

/-- The hints of the two requests are the same, and so are the rules, if there are any. -/
structure SameRecipients (r r' : SignRequest) : Prop where
  broker : pkHint r.broker_pk = pkHint r'.broker_pk
  introducer : pkHint r.introducer_pk = pkHint r'.introducer_pk
  rules : (r.fee_rules = none ∧ r'.fee_rules = none) ∨ ∃ t t' s, r.fee_rules = some (some t) ∧
    r'.fee_rules = some (some t') ∧ canonicalizeFeeRules t = some s ∧
    canonicalizeFeeRules t' = some s

/-- **What is committed to is the same in both requests.** -/
theorem Commits.recipients_congr (hS : S.InjOn e.blake2b)
    (hm : ∀ s ∈ commitTexts e ctx r, utf8 s ∈ S) (hm' : ∀ s ∈ commitTexts e ctx r', utf8 s ∈ S)
    (h : Commits e ctx r v) (h' : Commits e ctx r' v')
    (hv : v.canonical keyLe = v'.canonical keyLe) (hb : ¬ Unbound r) (hb' : ¬ Unbound r') :
    SameRecipients r r' := by
  obtain ⟨t, s, hr, hs, hints, rfl⟩ | ⟨hr, rfl⟩ := h.of_bound hb
  · obtain ⟨t', s', hr', hs', hints', rfl⟩ | ⟨hr', rfl⟩ := h'.of_bound hb'
    · have hmem : utf8 s ∈ S := hm s (by rw [commitTexts_rules hr hs]; exact List.mem_cons_self)
      have hmem' : utf8 s' ∈ S :=
        hm' s' (by rw [commitTexts_rules hr' hs']; exact List.mem_cons_self)
      obtain rfl := hex32_inj hS hmem hmem' (rulesObj_inj hv).1
      exact ⟨hint_congr hs hs' hints.broker hints'.broker,
        hint_congr hs hs' hints.introducer hints'.introducer,
        Or.inr ⟨t, t', s, hr, hr', hs, hs'⟩⟩
    · exact absurd hv rulesObj_ne_marketObj
  · obtain ⟨t', s', hr', hs', hints', rfl⟩ | ⟨hr', rfl⟩ := h'.of_bound hb'
    · exact absurd hv.symm rulesObj_ne_marketObj
    · obtain ⟨-, hbroker, hintroducer⟩ := marketObj_inj hv
      exact ⟨hbroker, hintroducer, Or.inl ⟨hr, hr'⟩⟩

theorem winningSide_metric {ownFetch : Option StructuredEvidence} {p : Json} {w : Int}
    (h : winningSide (.evidence ownFetch) p = .ok w) : ∃ a, p.get "metric" = some a := by
  unfold winningSide at h
  simp only [bind_eq_ok, orRefuse_eq_ok] at h
  obtain ⟨fields, -, h⟩ := h
  have hdecided : judgeLine p (some fields) ≠ .ABSTAIN := by
    intro habstain
    rw [habstain] at h
    cases h
  exact judgeLine_metric hdecided

/-- **One side wins in both requests.** -/
theorem winningSide_congr (hS : S.InjOn e.blake2b)
    (hm : ∀ s ∈ commitTexts e ctx r, utf8 s ∈ S) (hm' : ∀ s ∈ commitTexts e ctx r', utf8 s ∈ S)
    {c : String} (h : expectedCommit e ctx r = .ok c) (h' : expectedCommit e ctx r' = .ok c)
    {w w' : Int} (hw : winningSide ctx.resolution r.predicate = .ok w)
    (hw' : winningSide ctx.resolution r'.predicate = .ok w') : w = w' := by
  cases hres : ctx.resolution with
  | blockhash_parity target_daa chainReader =>
    -- the predicate is not looked at
    rw [hres] at hw hw'
    exact Except.ok.inj (hw.symm.trans hw')
  | evidence ownFetch =>
    rw [hres] at hw hw'
    obtain ⟨a, ha⟩ := winningSide_metric hw
    obtain ⟨a', ha'⟩ := winningSide_metric hw'
    obtain ⟨-, hnull⟩ | ⟨v, hv, rfl⟩ := commits_of_expected h
    · exact absurd (isNull_of_get ha) (by simp [hnull])
    obtain ⟨-, hnull⟩ | ⟨v', hv', hhash⟩ := commits_of_expected h'
    · exact absurd (isNull_of_get ha') (by simp [hnull])
    have hcanon := Json.canonicalText_inj
      (hex32_inj hS (hm' _ hv'.mem_texts) (hm _ hv.mem_texts) hhash)
    have hp := hv.predicate_congr hv' hcanon.symm ha ha'
    have hside : winningSide (.evidence ownFetch) r.predicate =
        winningSide (.evidence ownFetch) r'.predicate := by
      unfold winningSide
      simp only [judgeLine_congr hp]
    exact Except.ok.inj (hw.symm.trans (hside.trans hw'))

end

/-! ### The leaves of the fees -/

/-- The leaf of a recipient that is named says who is. -/
theorem namedLeaf_inj {pool bps : Int} {pk pk' : Option Bytes} {type : String} (hbps : 0 < bps) :
    (namedLeaf pool bps pk type).map FeeLeaf.toLeaf =
      (namedLeaf pool bps pk' type).map FeeLeaf.toLeaf ↔ pk = pk' := by
  cases pk <;> cases pk' <;> simp [namedLeaf, hbps]

theorem namedLeaf_of_nonpos {pool bps : Int} {pk : Option Bytes} {type : String}
    (hbps : ¬ 0 < bps) : namedLeaf pool bps pk type = [] := by
  cases pk <;> simp [namedLeaf, hbps]

/-- A market of the second version has one fee at most. -/
theorem deriveSettlementFeeLeaves_eq {key : Option Bytes} {bps : Option Int} {pool : Int}
    {fl : List FeeLeaf} (h : deriveSettlementFeeLeaves key bps pool = some fl) :
    fl = namedLeaf pool (bps.getD 0) key "broker" := by
  unfold deriveSettlementFeeLeaves at h
  simp only [Option.bind_eq_bind, Option.bind_eq_some_iff, deriveRoleFeeLeaves_eq_some] at h
  obtain ⟨-, -, -, -, rfl⟩ := h
  have hperm : ∀ roles : List Role, (roleFeeLeaves (roles.mergeSort nameLe) pool []).Perm
      (roles.filterMap (roleLeaf pool)) := by
    intro roles
    rw [roleFeeLeaves, if_neg (fun hn => hn.2 rfl), List.append_nil]
    exact (List.mergeSort_perm roles nameLe).filterMap _
  have hroles := hperm (settlementFeeRules key (bps.getD 0)).roles
  cases key with
  | none => exact hroles.eq_nil
  | some key =>
    by_cases hpos : 0 < bps.getD 0
    · have hone : (settlementFeeRules (some key) (bps.getD 0)).roles.filterMap (roleLeaf pool) =
          namedLeaf pool (bps.getD 0) (some key) "broker" := by
        simp [settlementFeeRules, hpos, roleLeaf, namedLeaf, not_le.mpr hpos]
      rw [hone, namedLeaf, Option.elim_some, if_pos hpos] at hroles
      rw [namedLeaf, Option.elim_some, if_pos hpos]
      exact List.perm_singleton.mp hroles
    · rw [namedLeaf_of_nonpos hpos]
      have hnone : (settlementFeeRules (some key) (bps.getD 0)).roles.filterMap (roleLeaf pool) =
          [] := by
        simp [settlementFeeRules, hpos, roleLeaf]
      rw [hnone] at hroles
      exact hroles.eq_nil

/-- **The fee of the second version** goes to the broker that the hint names. -/
theorem feeLeavesV2_eq {ctx : EnforceCtx} {r : SignRequest} {pool : Int} {fl : List FeeLeaf}
    (h : feeLeavesV2 ctx r pool = some fl) :
    ∃ key : Option Bytes, (0 < ctx.marketBrokerFeePct.getD 0 → key.map hex = pkHint r.broker_pk) ∧
      fl = namedLeaf pool (ctx.marketBrokerFeePct.getD 0) key "broker" := by
  unfold feeLeavesV2 at h
  cases hhint : pkHint r.broker_pk with
  | none =>
    rw [hhint] at h
    exact ⟨none, fun _ => rfl, deriveSettlementFeeLeaves_eq h⟩
  | some s =>
    simp only [hhint] at h
    by_cases hpos : 0 < ctx.marketBrokerFeePct.getD 0
    · rw [if_pos hpos] at h
      simp only [Option.bind_eq_bind, Option.bind_eq_some_iff] at h
      obtain ⟨key, hkey, h⟩ := h
      refine ⟨some key, fun _ => ?_, deriveSettlementFeeLeaves_eq h⟩
      rw [Option.map_some, hex, toHex_of_fromHex hkey, String.ofList_toList]
    · rw [if_neg hpos] at h
      exact ⟨none, fun hp => absurd hp hpos, deriveSettlementFeeLeaves_eq h⟩

theorem feeLeavesV2_congr {ctx : EnforceCtx} {r r' : SignRequest} {pool : Int}
    {fl fl' : List FeeLeaf} (h : feeLeavesV2 ctx r pool = some fl)
    (h' : feeLeavesV2 ctx r' pool = some fl') :
    fl.map FeeLeaf.toLeaf = fl'.map FeeLeaf.toLeaf ↔
      (0 < ctx.marketBrokerFeePct.getD 0 → pkHint r.broker_pk = pkHint r'.broker_pk) := by
  obtain ⟨key, hkey, rfl⟩ := feeLeavesV2_eq h
  obtain ⟨key', hkey', rfl⟩ := feeLeavesV2_eq h'
  by_cases hpos : 0 < ctx.marketBrokerFeePct.getD 0
  · rw [namedLeaf_inj hpos, ← hkey hpos, ← hkey' hpos]
    simp only [hpos, true_imp_iff]
    exact (Option.map_injective hex_injective).eq_iff.symm
  · simp [namedLeaf_of_nonpos hpos, hpos]

/-- A fee that is paid is another one at the rate of a broker than at that of an introducer. -/
theorem bpsAmt_ne {pool : Int} (h : 0 < bpsAmt pool 160 ∨ 0 < bpsAmt pool 20) :
    bpsAmt pool 160 ≠ bpsAmt pool 20 := by
  unfold bpsAmt at h ⊢
  rcases le_or_gt 0 pool with hpool | hpool
  · rw [Int.tdiv_eq_ediv_of_nonneg (by omega), Int.tdiv_eq_ediv_of_nonneg (by omega)] at h ⊢
    omega
  · have hneg : ∀ k : Int, 0 ≤ k → (pool * k).tdiv 10000 ≤ 0 := by
      intro k hk
      have hnonneg : 0 ≤ (-(pool * k)).tdiv 10000 := by
        apply Int.tdiv_nonneg _ (by norm_num)
        rw [← neg_mul]
        exact mul_nonneg (by omega) hk
      rw [Int.neg_tdiv] at hnonneg
      omega
    have h160 := hneg 160 (by norm_num)
    have h20 := hneg 20 (by norm_num)
    omega

/-- **The fees of the first version**, to recipients that the request names: leaves that are paid
say who is named. -/
theorem deriveFeeLeaves_inj {pool : Int} {b b' i i' : Option Bytes} {committee : List Bytes}
    (hpos : ∀ l ∈ deriveFeeLeaves pool FEE_CONFIG b i committee, 0 < l.amount) :
    (deriveFeeLeaves pool FEE_CONFIG b i committee).map FeeLeaf.toLeaf =
      (deriveFeeLeaves pool FEE_CONFIG b' i' committee).map FeeLeaf.toLeaf ↔ b = b' ∧ i = i' := by
  rw [deriveFeeLeaves_eq] at hpos
  have hnamed : ∀ l ∈ namedLeaf pool 160 b "broker" ++ namedLeaf pool 20 i "introducer",
      0 < l.amount := fun l hl => hpos l (List.mem_append_left _ hl)
  have hcancel : ∀ fl fl' gl : List FeeLeaf, (fl ++ gl).map FeeLeaf.toLeaf =
      (fl' ++ gl).map FeeLeaf.toLeaf ↔ fl.map FeeLeaf.toLeaf = fl'.map FeeLeaf.toLeaf := by
    intro fl fl' gl
    rw [List.map_append, List.map_append, List.append_left_inj]
  rw [deriveFeeLeaves_eq, deriveFeeLeaves_eq, hcancel]
  show (namedLeaf pool 160 b "broker" ++ namedLeaf pool 20 i "introducer").map FeeLeaf.toLeaf =
    (namedLeaf pool 160 b' "broker" ++ namedLeaf pool 20 i' "introducer").map FeeLeaf.toLeaf ↔ _
  have hne := @bpsAmt_ne pool
  -- a broker alone is told from an introducer alone by the amount
  cases b <;> cases i <;> cases b' <;> cases i' <;> simp [namedLeaf] at hnamed ⊢ <;> grind

/-! ### The roots -/

/-- The leaves of the tree that is signed. -/
def leavesOf (core : Core) (pool : Int) (fl : List FeeLeaf) : List Leaf :=
  payoutLeavesOf (bets core.bettors) core.winningDirection (distributableOf pool 0 fl) fl

/-- What is hashed when the first version checks a request. -/
def messagesV1 (e : Engine) (ctx : EnforceCtx) (r : SignRequest) : List Bytes :=
  (commitTexts e ctx r).map utf8 ++
    ((enforceCloseAttestCore e ctx r).toOption.bind fun core =>
      (feeLeavesV1 core.feeRules r.broker_pk r.introducer_pk (sumStakes (bets core.bettors))
        core.committee).map fun fl =>
          treeMessages e (leavesOf core (sumStakes (bets core.bettors)) fl)).getD []

/-- What is hashed when the second version checks a request. -/
def messagesV2 (e : Engine) (ctx : EnforceCtx) (r : SignRequest) : List Bytes :=
  (commitTexts e ctx r).map utf8 ++
    ((enforceCloseAttestCore e ctx r).toOption.bind fun core =>
      core.psConsolidatedPool.bind fun pool => (feeLeavesV2 ctx r pool).map fun fl =>
        treeMessages e (leavesOf core pool fl)).getD []

section

variable {e : Engine} {ctx : EnforceCtx} {r r' : SignRequest} {core core' : Core}
  {fl fl' : List FeeLeaf} {root root' : Bytes32}

theorem SignsV1.messages (h : SignsV1 e ctx r core fl root) :
    messagesV1 e ctx r = (commitTexts e ctx r).map utf8 ++
      treeMessages e (leavesOf core (sumStakes (bets core.bettors)) fl) := by
  rw [messagesV1, core_eq_ok.mpr h.checks]
  show _ ++ ((feeLeavesV1 core.feeRules r.broker_pk r.introducer_pk
    (sumStakes (bets core.bettors)) core.committee).map _).getD [] = _
  rw [h.fees, Option.map_some, Option.getD_some]

theorem SignsV2.messages {pool : Int} {p : Pass} (h : SignsV2 e ctx r core pool fl root p) :
    messagesV2 e ctx r = (commitTexts e ctx r).map utf8 ++
      treeMessages e (leavesOf core pool fl) := by
  rw [messagesV2, core_eq_ok.mpr h.checks]
  show _ ++ (core.psConsolidatedPool.bind _).getD [] = _
  rw [h.read, Option.bind_some, h.fees, Option.map_some, Option.getD_some]

/-- **Two trees with the same winners** have one root when they have the same fees. -/
theorem root_eq_iff {msgs : List Bytes} (hcf : CollisionFree e msgs) (hz : NoZeroDigest e msgs)
    {core : Core} {pool : Int} (hm : ∀ m ∈ treeMessages e (leavesOf core pool fl), m ∈ msgs)
    (hm' : ∀ m ∈ treeMessages e (leavesOf core pool fl'), m ∈ msgs)
    (h : payoutRoot e (leavesOf core pool fl) = some root)
    (h' : payoutRoot e (leavesOf core pool fl') = some root') :
    root = root' ↔ fl.map FeeLeaf.toLeaf = fl'.map FeeLeaf.toLeaf := by
  constructor
  · intro hroot
    obtain ⟨hb, hr⟩ := payoutRoot_eq_some.mp h
    obtain ⟨hb', hr'⟩ := payoutRoot_eq_some.mp h'
    have hleaves : leavesOf core pool fl = leavesOf core pool fl' :=
      rootOf_inj hcf.injOn hb hb' hm hm' (Or.inr hz) (hr.trans (hroot.trans hr'.symm))
    unfold leavesOf payoutLeavesOf at hleaves
    apply (List.append_inj hleaves _).2
    rw [dustTo_length, dustTo_length, winnerShares, winnerShares, shares, shares, List.length_map,
      List.length_map]
  · intro hfl
    have hleaves : leavesOf core pool fl = leavesOf core pool fl' := by
      unfold leavesOf payoutLeavesOf distributableOf
      rw [hfl]
    rw [hleaves, h'] at h
    exact (Option.some.inj h).symm

/-- What the two requests have in common, when the member knows one thing only. -/
theorem CoreOk.congr (h : CoreOk e ctx r core) (h' : CoreOk e ctx r' core')
    (hred : r.psRedeem = r'.psRedeem) (hw : core.winningDirection = core'.winningDirection) :
    core' = { core with feeRules := core'.feeRules } := by
  have hcommittee : core.committee = core'.committee := by
    apply Option.some.inj
    rw [← h.committee, ← h'.committee, hred]
  have hpool : core.psConsolidatedPool = core'.psConsolidatedPool := by
    rw [h.pool, h'.pool, hred]
  have hbettors : core.bettors = core'.bettors := h.bettors.trans h'.bettors.symm
  cases core'
  rw [Core.mk.injEq]
  exact ⟨hw.symm, hcommittee.symm, hbettors.symm, hpool.symm, rfl⟩

end

/-! ### Two requests that are signed -/

section

variable {e : Engine} {ctx : EnforceCtx} {r r' : SignRequest} {core core' : Core}
  {fl fl' : List FeeLeaf} {root root' : Bytes32} {msgs : List Bytes}

/-- The commitment is one, so it says the same of both requests. -/
theorem CoreOk.recipients (hcf : CollisionFree e msgs)
    (hm : ∀ s ∈ commitTexts e ctx r, utf8 s ∈ msgs)
    (hm' : ∀ s ∈ commitTexts e ctx r', utf8 s ∈ msgs) (h : CoreOk e ctx r core)
    (h' : CoreOk e ctx r' core') (hred : r.psRedeem = r'.psRedeem) (hb : ¬ Unbound r)
    (hb' : ¬ Unbound r') : SameRecipients r r' := by
  obtain ⟨hr, hnull⟩ | ⟨v, hv, hhash⟩ := commits_of_expected h.commit
  · exact absurd ⟨hr, Or.inl hnull⟩ hb
  obtain ⟨hr', hnull'⟩ | ⟨v', hv', hhash'⟩ := commits_of_expected h'.commit
  · exact absurd ⟨hr', Or.inl hnull'⟩ hb'
  rw [← hred, ← hhash] at hhash'
  have hcanon := Json.canonicalText_inj
    (hex32_inj hcf.injOn (hm _ hv.mem_texts) (hm' _ hv'.mem_texts) hhash'.symm)
  exact hv.recipients_congr hcf.injOn hm hm' hv' hcanon hb hb'

/-- The cores of the two requests differ in the rules only. -/
theorem CoreOk.core_congr (hcf : CollisionFree e msgs)
    (hm : ∀ s ∈ commitTexts e ctx r, utf8 s ∈ msgs)
    (hm' : ∀ s ∈ commitTexts e ctx r', utf8 s ∈ msgs) (h : CoreOk e ctx r core)
    (h' : CoreOk e ctx r' core') (hred : r.psRedeem = r'.psRedeem) :
    core' = { core with feeRules := core'.feeRules } := by
  have hcommit := h'.commit
  rw [← hred] at hcommit
  exact h.congr h' hred (winningSide_congr hcf.injOn hm hm' h.commit hcommit h.side h'.side)

theorem hex_toList_inj {a b : Bytes32} : hex a.toList = hex b.toList ↔ a = b := by
  constructor
  · intro h
    exact List.Vector.eq _ _ (hex_inj h)
  · intro h
    rw [h]

/-- **Two requests of the second version** are signed with one root when they name one broker, or
none is paid. -/
theorem SignsV2.root_eq_iff {pool pool' : Int} {p p' : Pass}
    (h : SignsV2 e ctx r core pool fl root p) (h' : SignsV2 e ctx r' core' pool' fl' root' p')
    (hred : r.psRedeem = r'.psRedeem)
    (hcf : CollisionFree e (messagesV2 e ctx r ++ messagesV2 e ctx r'))
    (hz : NoZeroDigest e (messagesV2 e ctx r ++ messagesV2 e ctx r')) :
    root = root' ↔ (0 < ctx.marketBrokerFeePct.getD 0 →
      pkHint r.broker_pk = pkHint r'.broker_pk) := by
  rw [h.messages, h'.messages] at hcf hz
  have hcore := h.checks.core_congr hcf (fun s hs => by simp [List.mem_map_of_mem hs])
    (fun s hs => by simp [List.mem_map_of_mem hs]) h'.checks hred
  have hpool : pool' = pool := by
    have hread := h'.read
    rw [hcore] at hread
    exact Option.some.inj (hread.symm.trans h.read)
  subst hpool
  have hleaves : leavesOf core' pool' fl' = leavesOf core pool' fl' := by
    rw [hcore]
    rfl
  have htree : payoutRoot e (leavesOf core pool' fl') = some root' := by
    rw [← hleaves]
    exact h'.tree
  rw [Settle.root_eq_iff hcf hz (fun m hm => by simp [hm])
    (fun m hm => by rw [← hleaves] at hm; simp [hm]) h.tree htree]
  exact feeLeavesV2_congr h.fees h'.fees

/-- **Two requests of the first version** are signed with one root when they name the same fees. -/
theorem SignsV1.root_eq_iff (h : SignsV1 e ctx r core fl root)
    (h' : SignsV1 e ctx r' core' fl' root') (hred : r.psRedeem = r'.psRedeem)
    (hcf : CollisionFree e (messagesV1 e ctx r ++ messagesV1 e ctx r'))
    (hz : NoZeroDigest e (messagesV1 e ctx r ++ messagesV1 e ctx r')) :
    root = root' ↔ fl.map FeeLeaf.toLeaf = fl'.map FeeLeaf.toLeaf := by
  rw [h.messages, h'.messages] at hcf hz
  have hcore := h.checks.core_congr hcf (fun s hs => by simp [List.mem_map_of_mem hs])
    (fun s hs => by simp [List.mem_map_of_mem hs]) h'.checks hred
  have hleaves : leavesOf core' (sumStakes (bets core'.bettors)) fl' =
      leavesOf core (sumStakes (bets core.bettors)) fl' := by
    rw [hcore]
    rfl
  have htree : payoutRoot e (leavesOf core (sumStakes (bets core.bettors)) fl') = some root' := by
    rw [← hleaves]
    exact h'.tree
  exact Settle.root_eq_iff hcf hz (fun m hm => by simp [hm])
    (fun m hm => by rw [← hleaves] at hm; simp [hm]) h.tree htree

/-- The fees that the fields of a request name, over the stakes of the market. -/
def ownFees (ctx : EnforceCtx) (r : SignRequest) : Option (List Leaf) :=
  (feeLeavesV1 r.fee_rules.join r.broker_pk r.introducer_pk (sumStakes (bets ctx.loadBettors))
    ((ctx.reDeriveCommittee r.psRedeem).getD [])).map (List.map FeeLeaf.toLeaf)

theorem SignsV1.ownFees_eq (h : SignsV1 e ctx r core fl root) :
    ownFees ctx r = some (fl.map FeeLeaf.toLeaf) := by
  have hfees := h.fees
  rw [h.checks.rules, h.checks.bettors] at hfees
  rw [ownFees, h.checks.committee, Option.getD_some, hfees, Option.map_some]

theorem SameRecipients.ownFees_congr (h : SameRecipients r r') (hred : r.psRedeem = r'.psRedeem) :
    ownFees ctx r = ownFees ctx r' := by
  unfold ownFees
  rw [hred]
  congr 1
  obtain ⟨hr, hr'⟩ | ⟨t, t', s, hr, hr', hs, hs'⟩ := h.rules
  · rw [hr, hr']
    unfold feeLeavesV1 hintKey
    rw [h.broker, h.introducer]
  · obtain ⟨rules, hrules, hv, -⟩ := canonicalizeFeeRules_eq_some.mp hs
    obtain ⟨rules', hrules', hv', -⟩ := canonicalizeFeeRules_eq_some.mp hs'
    have hsorted := sorted_congr (canonicalizeFeeRules_inj hs hs') hrules hrules'
    rw [hr, hr', Option.join_some, Option.join_some]
    show (t.rules.bind fun rules => deriveRoleFeeLeaves rules _ _) =
      t'.rules.bind fun rules => deriveRoleFeeLeaves rules _ _
    rw [hrules, hrules', Option.bind_some, Option.bind_some]
    exact deriveRoleFeeLeaves_congr hv hv' hsorted _ _

/-- Requests without rules name the same fees when they name the same keys. -/
theorem SignsV1.ownFees_iff (h : SignsV1 e ctx r core fl root) (hr : r.fee_rules = none)
    (hr' : r'.fee_rules = none) (hred : r.psRedeem = r'.psRedeem) :
    ownFees ctx r = ownFees ctx r' ↔
      hintKey r.broker_pk = hintKey r'.broker_pk ∧
        hintKey r.introducer_pk = hintKey r'.introducer_pk := by
  have hfees := h.fees
  rw [h.checks.rules, hr, Option.join_none] at hfees
  obtain rfl := Option.some.inj hfees
  have hpos : ∀ l ∈ deriveFeeLeaves (sumStakes (bets core.bettors)) FEE_CONFIG
      (hintKey r.broker_pk) (hintKey r.introducer_pk) core.committee, 0 < l.amount := by
    intro l hl
    obtain ⟨hb, -⟩ := payoutRoot_eq_some.mp h.tree
    exact (hb.payable l.toLeaf (List.mem_append_right _ (List.mem_map_of_mem hl))).pos
  rw [h.ownFees_eq, ownFees, hr', Option.join_none, ← hred, h.checks.committee, Option.getD_some,
    ← h.checks.bettors]
  show some _ = some _ ↔ _
  rw [Option.some.injEq]
  exact deriveFeeLeaves_inj hpos

end

/-- **Who chooses the recipients.**  Two requests to close one market, both signed against one
redeem script by a member that knows the same of the market, are signed with the same root unless
the recipients are free in one of them and the two name others: of the second version another
broker, where the market pays one; of the first version other fees, which without rules are those
of another broker or another introducer. -/
theorem recipients_iff (e : Engine) (ctx : EnforceCtx) (r r' : SignRequest)
    (hred : r.psRedeem = r'.psRedeem) :
    (∀ p p', enforceCloseAttestV2 e ctx r = .ok p → enforceCloseAttestV2 e ctx r' = .ok p' →
      CollisionFree e (messagesV2 e ctx r ++ messagesV2 e ctx r') →
      NoZeroDigest e (messagesV2 e ctx r ++ messagesV2 e ctx r') →
      (r.claimedPayoutRoot = r'.claimedPayoutRoot ↔
        ¬ ((Unbound r ∨ Unbound r') ∧ 0 < ctx.marketBrokerFeePct.getD 0 ∧
          pkHint r.broker_pk ≠ pkHint r'.broker_pk))) ∧
    ∀ w w', enforceCloseAttest e ctx r = .ok w → enforceCloseAttest e ctx r' = .ok w' →
      CollisionFree e (messagesV1 e ctx r ++ messagesV1 e ctx r') →
      NoZeroDigest e (messagesV1 e ctx r ++ messagesV1 e ctx r') →
      (r.claimedPayoutRoot = r'.claimedPayoutRoot ↔
        ¬ ((Unbound r ∨ Unbound r') ∧ ownFees ctx r ≠ ownFees ctx r')) ∧
      (r.fee_rules = none → r'.fee_rules = none → (ownFees ctx r = ownFees ctx r' ↔
        hintKey r.broker_pk = hintKey r'.broker_pk ∧
          hintKey r.introducer_pk = hintKey r'.introducer_pk)) := by
  refine ⟨?_, ?_⟩
  · intro p p' h h' hcf hz
    obtain ⟨core, pool, fl, root, hs⟩ := enforceCloseAttestV2_eq_ok.mp h
    obtain ⟨core', pool', fl', root', hs'⟩ := enforceCloseAttestV2_eq_ok.mp h'
    have hbound : ¬ Unbound r → ¬ Unbound r' → pkHint r.broker_pk = pkHint r'.broker_pk := by
      intro hb hb'
      rw [hs.messages, hs'.messages] at hcf
      exact (hs.checks.recipients hcf (fun s hm => by simp [List.mem_map_of_mem hm])
        (fun s hm => by simp [List.mem_map_of_mem hm]) hs'.checks hred hb hb').broker
    rw [hs.claimed, hs'.claimed, hex_toList_inj, hs.root_eq_iff hs' hred hcf hz]
    tauto
  · intro w w' h h' hcf hz
    obtain ⟨core, fl, root, hs, -⟩ := enforceCloseAttest_eq_ok.mp h
    obtain ⟨core', fl', root', hs', -⟩ := enforceCloseAttest_eq_ok.mp h'
    have hbound : ¬ Unbound r → ¬ Unbound r' → ownFees ctx r = ownFees ctx r' := by
      intro hb hb'
      rw [hs.messages, hs'.messages] at hcf
      exact (hs.checks.recipients hcf (fun s hm => by simp [List.mem_map_of_mem hm])
        (fun s hm => by simp [List.mem_map_of_mem hm]) hs'.checks hred hb hb').ownFees_congr hred
    have hroot : root = root' ↔ ownFees ctx r = ownFees ctx r' := by
      rw [hs.root_eq_iff hs' hred hcf hz, hs.ownFees_eq, hs'.ownFees_eq, Option.some.injEq]
    refine ⟨?_, fun hr hr' => hs.ownFees_iff hr hr' hred⟩
    rw [hs.claimed, hs'.claimed, hex_toList_inj, hroot]
    tauto

/-! ### A market without a predicate -/

def sampleKey (b : UInt8) : Bytes := List.replicate 32 b

/-- A market of either version with one bet, on the side that wins, and a broker who in the second
version is paid one percent. -/
def sampleCtx (zk_native : Bool) : EnforceCtx where
  myOracleKeys := [hex (sampleKey 9)]
  zk_native
  marketMetadataHash := some (hex (sampleKey 0))
  marketBrokerFeePct := some 100
  resolution := .blockhash_parity (some 5) (some (7, some 4))
  reDeriveCommittee := fun _ => some [sampleKey 9]
  loadBettors := [⟨⟨sampleKey 1, 1000000, 0⟩, some 3, some "aa"⟩]
  deadlineDaa := some 4
  verifyBettorsCompleteFromChain := fun _ _ => true
  psConsolidatedPool := some 1000000
  nowMs := 1700000000000
  coll := ⟨fun _ _ => 0, fun _ _ => Or.inl le_rfl, fun _ _ _ _ _ => le_rfl⟩

/-- What the market pays with a broker. -/
def sampleLeaves (zk_native : Bool) (broker : UInt8) : List Leaf :=
  if zk_native then [⟨sampleKey 1, 990000⟩, ⟨sampleKey broker, 10000⟩]
  else [⟨sampleKey 1, 972000⟩, ⟨sampleKey broker, 16000⟩, ⟨sampleKey 9, 12000⟩]

def sampleRoot (zk_native : Bool) (broker : UInt8) : Bytes32 :=
  rootOf sampleEngine (sampleLeaves zk_native broker)

def sampleBetsRoot : Bytes32 :=
  HashChain.chain (Covenant.hashNode sampleEngine) ZERO32
    ([⟨sampleKey 1, 1000000, 0⟩].map (Bet.hash sampleEngine))

def sampleRefundRoot : Bytes32 := rootOf sampleEngine [⟨sampleKey 1, 1000000⟩]

def sampleRedeem : Bytes := List.replicate 700 0

/-- A request that names a broker. -/
def sampleRequest (zk_native : Bool) (broker : UInt8) (spliced : Bytes) : SignRequest where
  predicate := .null
  fee_rules := none
  psRedeem := sampleRedeem
  committee_pk := hex (sampleKey 9)
  broker_pk := some (hex (sampleKey broker))
  introducer_pk := none
  claimedPayoutRoot := hex (sampleRoot zk_native broker).toList
  txSafeJson := some (sampleClose sampleEngine spliced)
  new_attestedWinner := some 0
  new_betsRoot := hex sampleBetsRoot.toList
  new_refundRoot := hex sampleRefundRoot.toList
  new_attestedAtMs := some 1700000000000

def sampleCore (zk_native : Bool) : Core where
  winningDirection := 0
  committee := [sampleKey 9]
  bettors := (sampleCtx zk_native).loadBettors
  psConsolidatedPool := some 1000000
  feeRules := none

def sampleFees (zk_native : Bool) (broker : UInt8) : List FeeLeaf :=
  if zk_native then [⟨⟨sampleKey broker, 10000⟩, "broker"⟩]
  else [⟨⟨sampleKey broker, 16000⟩, "broker"⟩, ⟨⟨sampleKey 9, 12000⟩, "committee"⟩]

theorem plainHex_hex (b : Bytes) : plainHex (hex b) = hex b := by
  have hx : ∀ n < 16, hexDigits.getD n '0' ≠ 'x' := by decide
  have hlower := toLower_hex b
  unfold plainHex
  rw [hex, String.toList_ofList]
  cases b with
  | nil => exact hlower
  | cons a b =>
    have ha : a.toNat < 256 := a.toNat_lt
    have hcons : toHex (a :: b) = hexDigits.getD (a.toNat / 16) '0' ::
        hexDigits.getD (a.toNat % 16) '0' :: toHex b := rfl
    rw [hex, hcons] at hlower
    rw [hcons]
    split
    · rename_i heq
      obtain ⟨-, heq⟩ := List.cons.inj heq
      exact absurd (List.cons.inj heq).1 (hx _ (by omega))
    · exact hlower

theorem pkHint_hex {b : Bytes} (hb : b ≠ []) : pkHint (some (hex b)) = some (hex b) := by
  rw [pkHint, Option.filter_some]
  simp [hex_ne_empty hb, toLower_hex]

theorem pkHint_sampleKey (broker : UInt8) :
    pkHint (some (hex (sampleKey broker))) = some (hex (sampleKey broker)) :=
  pkHint_hex (List.cons_ne_nil _ _)

theorem sampleBuildable (zk_native : Bool) (broker : UInt8) :
    Buildable (sampleLeaves zk_native broker) := by
  cases zk_native with
  | true =>
    refine ⟨show 2 ≤ 1024 by norm_num, List.forall_mem_cons.mpr ⟨?_, List.forall_mem_cons.mpr
      ⟨?_, List.forall_mem_nil _⟩⟩⟩
    · exact ⟨rfl, by norm_num, by decide⟩
    · exact ⟨rfl, by norm_num, show Fits 8 10000 by decide⟩
  | false =>
    refine ⟨show 3 ≤ 1024 by norm_num, List.forall_mem_cons.mpr ⟨?_, List.forall_mem_cons.mpr
      ⟨?_, List.forall_mem_cons.mpr ⟨?_, List.forall_mem_nil _⟩⟩⟩⟩
    · exact ⟨rfl, by norm_num, by decide⟩
    · exact ⟨rfl, by norm_num, show Fits 8 16000 by decide⟩
    · exact ⟨rfl, by norm_num, by decide⟩

theorem sampleCoreOk (zk_native : Bool) (broker : UInt8) (spliced : Bytes) :
    CoreOk sampleEngine (sampleCtx zk_native) (sampleRequest zk_native broker spliced)
      (sampleCore zk_native) where
  mine := by
    show (hex (sampleKey 9)).toLower ∈ [(hex (sampleKey 9)).toLower]
    exact List.mem_singleton.mpr rfl
  commit := by
    have hcommit : onChainCommit (sampleCtx zk_native) sampleRedeem = hex (sampleKey 0) := by
      have hoff : ∃ n, 700 - n ≥ 32 ∧ commitOffset (sampleCtx zk_native) = n := by
        cases zk_native with
        | true => exact ⟨642, by norm_num, rfl⟩
        | false => exact ⟨518, by norm_num, rfl⟩
      obtain ⟨n, hn, hoff⟩ := hoff
      rw [onChainCommit, hoff, sampleRedeem, bufSlice, slice, List.drop_replicate,
        List.take_replicate, show min (n + 32 - n) (700 - n) = 32 by omega]
      rfl
    have hne : hex (sampleKey 0) ≠ "" := hex_ne_empty (List.cons_ne_nil _ _)
    show (do
      check (hex (sampleKey 0) ≠ "") .metadataHash
      .ok (hex (sampleKey 0)).toLower) =
        Except.ok (onChainCommit (sampleCtx zk_native) sampleRedeem)
    rw [hcommit, toLower_hex, check, if_pos hne]
    rfl
  side := rfl
  committee := rfl
  member := by
    show (hex (sampleKey 9)).toLower ∈ [hex (sampleKey 9)]
    rw [toLower_hex]
    exact List.mem_singleton.mpr rfl
  some_bettors := List.cons_ne_nil _ _
  early := by
    intro b hb
    rw [List.mem_singleton.mp hb]
    exact ⟨3, rfl, fun deadline hd => by rw [← Option.some.inj hd]; norm_num⟩
  complete := rfl
  bettors := rfl
  pool := rfl
  rules := rfl

theorem sampleSettlementFees (broker : UInt8) :
    deriveSettlementFeeLeaves (some (sampleKey broker)) (some 100) 1000000 =
      some (sampleFees true broker) := by
  have hvalid : (settlementFeeRules (some (sampleKey broker)) 100).Valid :=
    (validateFeeRules_eq_some (u := ())).mp rfl
  have hpool : (0 : Int) < 1000000 := by norm_num
  have hsome : deriveRoleFeeLeaves (settlementFeeRules (some (sampleKey broker)) 100) 1000000 [] =
      some _ := deriveRoleFeeLeaves_eq_some.mpr ⟨hvalid, hpool, rfl⟩
  have hfees : deriveSettlementFeeLeaves (some (sampleKey broker)) (some 100) 1000000 = some _ :=
    hsome
  rw [hfees, deriveSettlementFeeLeaves_eq hfees]
  rfl

/-- **The market of the second version is signed for any broker.** -/
theorem sampleSignsV2 (broker : UInt8) : ∃ spliced p,
    SignsV2 sampleEngine (sampleCtx true) (sampleRequest true broker spliced) (sampleCore true)
      1000000 (sampleFees true broker) (sampleRoot true broker) p := by
  have hrange : CloseValues.InRange ⟨(sampleRoot true broker).toList, 0, sampleBetsRoot.toList,
      sampleRefundRoot.toList, 1700000000000⟩ :=
    ⟨List.Vector.toList_length _, List.Vector.toList_length _, List.Vector.toList_length _,
      Or.inl rfl, by norm_num [ATTESTED_AT_MS_MIN, ATTESTED_AT_MS_MAX]⟩
  have hlen : PSV2_STATE_END_OFF ≤ sampleRedeem.length := by
    rw [sampleRedeem, List.length_replicate]
    decide
  obtain ⟨spliced, hsplice⟩ := hrange.splice hlen
  refine ⟨spliced, ⟨0, sampleBetsRoot, sampleRefundRoot⟩, sampleCoreOk true broker spliced, rfl,
    ?_, ?_, ?_, rfl, rfl, ?_, (plainHex_hex _).symm, (plainHex_hex _).symm, ?_, rfl⟩
  · have hhint : pkHint (sampleRequest true broker spliced).broker_pk =
        some (hex (sampleKey broker)) := pkHint_sampleKey broker
    unfold feeLeavesV2
    rw [hhint]
    show (do
      let key ← fromHex (hex (sampleKey broker)).toList
      deriveSettlementFeeLeaves (some key) (some 100) 1000000) = _
    rw [hex, String.toList_ofList, fromHex_toHex]
    exact sampleSettlementFees broker
  · decide
  · exact payoutRoot_of_buildable (sampleBuildable true broker)
  · refine ⟨(sampleCtx true).loadBettors, ?_, ?_, ?_⟩
    · show canonicalBetOrder _ [_] = some [_]
      rw [canonicalBetOrder, if_pos (by decide), List.mergeSort_singleton]
    · refine computeBetsRoot_eq_some.mpr ⟨?_, rfl⟩
      intro b hb
      rw [List.mem_singleton.mp hb]
      exact ⟨rfl, by norm_num [Row.toBet], by decide, Or.inl rfl⟩
    · refine payoutRoot_of_buildable ⟨by decide, ?_⟩
      intro w hw
      rw [List.mem_singleton.mp hw]
      exact ⟨rfl, by norm_num, by decide⟩
  · refine ⟨1700000000000, rfl, by norm_num [ATTESTED_AT_MS_MIN, ATTESTED_AT_MS_MAX], by decide,
      ⟨p2shSpkHex sampleEngine spliced, 1⟩, ?_⟩
    show checkBinding _ (some (sampleClose _ _)) (splicePayoutV2CloseRedeem _ _) = _
    exact (congrArg _ hsplice).trans (checkBinding_sampleClose sampleEngine spliced)

theorem sampleProtocolFees (broker : UInt8) :
    feeLeavesV1 none (some (hex (sampleKey broker))) none 1000000 [sampleKey 9] =
      some (sampleFees false broker) := by
  have hkey : hintKey (some (hex (sampleKey broker))) = some (sampleKey broker) := by
    rw [hintKey, pkHint_sampleKey, Option.map_some, hex, String.toList_ofList,
      bufferFromHex_of_fromHex (fromHex_toHex _)]
  have hcommittee : committeeLeaves 12000 [sampleKey 9] =
      [⟨⟨sampleKey 9, 12000⟩, "committee"⟩] := by
    unfold committeeLeaves
    rw [List.mergeSort_singleton]
    rfl
  show some (deriveFeeLeaves _ _ _ _ _) = _
  rw [hkey, deriveFeeLeaves_eq]
  show some ([⟨⟨sampleKey broker, 16000⟩, "broker"⟩] ++ [] ++
    committeeLeaves 12000 [sampleKey 9]) = _
  rw [hcommittee]
  rfl

/-- **The market of the first version is signed for any broker.** -/
theorem sampleSignsV1 (broker : UInt8) : ∃ spliced,
    SignsV1 sampleEngine (sampleCtx false) (sampleRequest false broker spliced) (sampleCore false)
      (sampleFees false broker) (sampleRoot false broker) := by
  have hlen : 52 ≤ sampleRedeem.length := by
    rw [sampleRedeem, List.length_replicate]
    norm_num
  obtain ⟨spliced, hsplice⟩ : ∃ spliced,
      splicePayoutCloseRedeem sampleRedeem (sampleRoot false broker).toList = some spliced :=
    ⟨_, splicePayoutCloseRedeem_eq_some.mpr ⟨List.Vector.toList_length _, hlen, rfl⟩⟩
  refine ⟨spliced, sampleCoreOk false broker spliced, sampleProtocolFees broker, ?_, ?_,
    ⟨⟨p2shSpkHex sampleEngine spliced, 1⟩, ?_⟩, rfl⟩
  · decide
  · exact payoutRoot_of_buildable (sampleBuildable false broker)
  · show checkBinding _ (some (sampleClose _ _)) (splicePayoutCloseRedeem _ _) = _
    exact (congrArg _ hsplice).trans (checkBinding_sampleClose sampleEngine spliced)

def sampleMessages (zk_native : Bool) : List Bytes :=
  treeMessages sampleEngine (sampleLeaves zk_native 2) ++
    treeMessages sampleEngine (sampleLeaves zk_native 3)

theorem sampleMessages_ok (zk_native : Bool) :
    CollisionFree sampleEngine (sampleMessages zk_native) ∧
      NoZeroDigest sampleEngine (sampleMessages zk_native) := by
  cases zk_native with
  | true => exact ⟨by decide +kernel, by decide +kernel⟩
  | false => exact ⟨by decide +kernel, by decide +kernel⟩

/-- Two brokers, two roots, in either version. -/
theorem recipients_iff_sampleRequest : ∃ r r' q q',
    (r.claimedPayoutRoot = r'.claimedPayoutRoot ↔
      ¬ ((Unbound r ∨ Unbound r') ∧ 0 < (sampleCtx true).marketBrokerFeePct.getD 0 ∧
        pkHint r.broker_pk ≠ pkHint r'.broker_pk)) ∧
    (q.claimedPayoutRoot = q'.claimedPayoutRoot ↔
      ¬ ((Unbound q ∨ Unbound q') ∧ ownFees (sampleCtx false) q ≠ ownFees (sampleCtx false) q')) ∧
    (ownFees (sampleCtx false) q = ownFees (sampleCtx false) q' ↔
      hintKey q.broker_pk = hintKey q'.broker_pk ∧
        hintKey q.introducer_pk = hintKey q'.introducer_pk) := by
  obtain ⟨spliced, p, hs⟩ := sampleSignsV2 2
  obtain ⟨spliced', p', hs'⟩ := sampleSignsV2 3
  obtain ⟨closed, ht⟩ := sampleSignsV1 2
  obtain ⟨closed', ht'⟩ := sampleSignsV1 3
  have hmsgs : messagesV2 sampleEngine (sampleCtx true) (sampleRequest true 2 spliced) ++
      messagesV2 sampleEngine (sampleCtx true) (sampleRequest true 3 spliced') =
        sampleMessages true := congrArg₂ List.append hs.messages hs'.messages
  have hmsgs' : messagesV1 sampleEngine (sampleCtx false) (sampleRequest false 2 closed) ++
      messagesV1 sampleEngine (sampleCtx false) (sampleRequest false 3 closed') =
        sampleMessages false := congrArg₂ List.append ht.messages ht'.messages
  obtain ⟨hcf, hz⟩ := sampleMessages_ok true
  obtain ⟨hcf', hz'⟩ := sampleMessages_ok false
  rw [← hmsgs] at hcf hz
  rw [← hmsgs'] at hcf' hz'
  have hV2 := (recipients_iff sampleEngine (sampleCtx true) (sampleRequest true 2 spliced)
    (sampleRequest true 3 spliced') rfl).1 p p'
    (enforceCloseAttestV2_eq_ok.mpr ⟨_, _, _, _, hs⟩)
    (enforceCloseAttestV2_eq_ok.mpr ⟨_, _, _, _, hs'⟩) hcf hz
  have hV1 := (recipients_iff sampleEngine (sampleCtx false) (sampleRequest false 2 closed)
    (sampleRequest false 3 closed') rfl).2 0 0
    (enforceCloseAttest_eq_ok.mpr ⟨_, _, _, ht, rfl⟩)
    (enforceCloseAttest_eq_ok.mpr ⟨_, _, _, ht', rfl⟩) hcf' hz'
  exact ⟨_, _, _, _, hV2, hV1.1, hV1.2 rfl rfl⟩

/-- **The recipients are chosen**: one market, and two requests that are signed with two roots. -/
theorem recipients_chosen : ∃ r r' p p', r.psRedeem = r'.psRedeem ∧
    enforceCloseAttestV2 sampleEngine (sampleCtx true) r = .ok p ∧
    enforceCloseAttestV2 sampleEngine (sampleCtx true) r' = .ok p' ∧
    r.claimedPayoutRoot ≠ r'.claimedPayoutRoot := by
  obtain ⟨spliced, p, hs⟩ := sampleSignsV2 2
  obtain ⟨spliced', p', hs'⟩ := sampleSignsV2 3
  have hroots : sampleRoot true 2 ≠ sampleRoot true 3 := by decide +kernel
  refine ⟨sampleRequest true 2 spliced, sampleRequest true 3 spliced', p, p', rfl,
    enforceCloseAttestV2_eq_ok.mpr ⟨_, _, _, _, hs⟩,
    enforceCloseAttestV2_eq_ok.mpr ⟨_, _, _, _, hs'⟩, ?_⟩
  rw [hs.claimed, hs'.claimed]
  exact fun h => hroots (hex_toList_inj.mp h)

end KANet.Settle
