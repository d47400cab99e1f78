import KANet.Settle.MarketCommit

/-!
# One slot for four kinds of market

The hash in the slot of a payout shard is that of a predicate alone, of a predicate beside the
recipients of the fees, of fee rules beside a predicate, or of fee rules beside the hash of the
metadata.  Nothing in the slot says which it is.  The objects of the last three kinds have
different members, so their hashes differ; a predicate alone may be any value, also one of those
objects.

* `canonicalPredicate_inj` — the text determines the value, up to the order of keys.
* `separated_iff` — two markets with one hash are one market, unless the predicate of a
  predicate-only market is the object that the other one is hashed as.
* `wrapped_not_separated` — it may be.
-/

namespace KANet.Settle

open KANet.Lib KANet.Script KANet.Payout

/-- What a market is described by, for each kind of commitment. -/
inductive Description
  | predicateOnly (predicate : Json)
  | feeRecipients (predicate : Json) (brokerPk introducerPk : Option String)
  | feeRulesPredicate (feeRules : FeeRulesText) (predicate : Json)
      (present : isNull predicate = false)
  | feeRulesMetadata (feeRules : FeeRulesText) (marketMetadataHash : String)

/-- The hash that goes into the slot; none, where the code throws. -/
def Description.commit (e : Engine) : Description → Option String
  | .predicateOnly p => some (computePredicateCommit e p)
  | .feeRecipients p b i => some (computeMarketCommit e p b i)
  | .feeRulesPredicate t p _ => computeMarketCommitV2 e t p none
  | .feeRulesMetadata t m => computeMarketCommitV2 e t .null (some m)

/-- Rules that say the same: the order of the roles and the case of the addresses are left out. -/
def SameRules (t t' : FeeRulesText) : Prop :=
  t.schema_v = t'.schema_v ∧ t.preset = t'.preset ∧ t.sorted = t'.sorted

/-- Values that differ in the order of keys only. -/
def SameValue (p p' : Json) : Prop := p.canonical keyLe = p'.canonical keyLe

/-- Markets of one kind with the same data. -/
def SameMarket : Description → Description → Prop
  | .predicateOnly p, .predicateOnly p' => SameValue p p'
  | .feeRecipients p b i, .feeRecipients p' b' i' =>
    SameValue p p' ∧ pkHint b = pkHint b' ∧ pkHint i = pkHint i'
  | .feeRulesPredicate t p _, .feeRulesPredicate t' p' _ => SameRules t t' ∧ SameValue p p'
  | .feeRulesMetadata t m, .feeRulesMetadata t' m' => SameRules t t' ∧ m.toLower = m'.toLower
  | _, _ => False

/-- The value whose canonical text is hashed. -/
def Description.Object (e : Engine) (o : Json) : Description → Prop
  | .predicateOnly p => o = p
  | .feeRecipients p b i => o = marketObj p b i
  | .feeRulesPredicate t p _ => ∃ s, canonicalizeFeeRules t = some s ∧ o = rulesObj (hex32 e s) p ""
  | .feeRulesMetadata t m =>
    ∃ s, canonicalizeFeeRules t = some s ∧ m ≠ "" ∧ o = rulesObj (hex32 e s) .null m

def Description.rules : Description → Option FeeRulesText
  | .feeRulesPredicate t _ _ => some t
  | .feeRulesMetadata t _ => some t
  | _ => none

/-- The texts that are hashed on the way to the slot. -/
def Description.Hashes (e : Engine) (d : Description) (s : String) : Prop :=
  (∃ o, d.Object e o ∧ s = canonicalPredicate o) ∨
    ∃ t, d.rules = some t ∧ canonicalizeFeeRules t = some s

/-- A predicate alone that is the object of a market of another kind. -/
def Mimics (e : Engine) (d d' : Description) : Prop :=
  ∃ p o, d = .predicateOnly p ∧ (∀ p', d' ≠ .predicateOnly p') ∧ d'.Object e o ∧ SameValue p o

/-! ### The texts -/

/-- **The text of a predicate determines it**, up to the order of keys. -/
theorem canonicalPredicate_inj {p p' : Json} (h : canonicalPredicate p = canonicalPredicate p') :
    SameValue p p' := Json.canonicalText_inj h

theorem canonicalPredicate_congr {p p' : Json} (h : SameValue p p') :
    canonicalPredicate p = canonicalPredicate p' := by
  show String.ofList (p.canonical keyLe).text = String.ofList (p'.canonical keyLe).text
  rw [h]

/-- The rules are all in their canonical text. -/
theorem sameRules_of_canonical {t t' : FeeRulesText} {s : String}
    (h : canonicalizeFeeRules t = some s) (h' : canonicalizeFeeRules t' = some s) :
    SameRules t t' := by
  obtain ⟨hschema, hpreset⟩ := canonicalizeFeeRules_head h h'
  exact ⟨hschema, hpreset, canonicalizeFeeRules_inj h h'⟩

theorem rulesObj_metadata {c c' m m' : String}
    (h : SameValue (rulesObj c .null m) (rulesObj c' .null m')) : m.toLower = m'.toLower := by
  have hget : ∀ c m, (rulesObj c .null m).get "market_metadata_hash" = some (.str m.toLower) := by
    intro c m
    rfl
  have hm := canonical_of_get h (hget c m) (hget c' m')
  rw [Json.canonical, Json.canonical] at hm
  exact Json.str.inj hm

/-! ### The slot -/

theorem commit_eq_some {e : Engine} {d : Description} {c : String} :
    d.commit e = some c ↔ ∃ o, d.Object e o ∧ hex32 e (canonicalPredicate o) = c := by
  cases d with
  | predicateOnly p =>
    show some _ = some c ↔ ∃ o, o = p ∧ _
    rw [exists_eq_left, Option.some.injEq]
    rfl
  | feeRecipients p b i =>
    show some _ = some c ↔ ∃ o, o = marketObj p b i ∧ _
    rw [exists_eq_left, Option.some.injEq]
    rfl
  | feeRulesPredicate t p hp =>
    show computeMarketCommitV2 e t p none = some c ↔ _
    rw [computeMarketCommitV2_eq_some]
    constructor
    · intro h
      obtain ⟨s, hs, -, hc⟩ := h
      exact ⟨_, ⟨s, hs, rfl⟩, hc⟩
    · intro h
      obtain ⟨_, ⟨s, hs, rfl⟩, hc⟩ := h
      exact ⟨s, hs, fun hnull => absurd (hp.symm.trans hnull) nofun, hc⟩
  | feeRulesMetadata t m =>
    show computeMarketCommitV2 e t .null (some m) = some c ↔ _
    rw [computeMarketCommitV2_eq_some]
    constructor
    · intro h
      obtain ⟨s, hs, hm, hc⟩ := h
      exact ⟨_, ⟨s, hs, hm rfl, rfl⟩, hc⟩
    · intro h
      obtain ⟨_, ⟨s, hs, hm, rfl⟩, hc⟩ := h
      exact ⟨s, hs, fun _ => hm, hc⟩

/-- Objects of two kinds with fees that are the same value belong to one market. -/
theorem sameMarket_of_object {e : Engine} {d d' : Description} {o o' : Json}
    (hinj : Set.InjOn (fun s => e.blake2b (utf8 s)) {s | d.Hashes e s ∨ d'.Hashes e s})
    (ho : d.Object e o) (ho' : d'.Object e o') (hsame : SameValue o o')
    (hno : ¬ Mimics e d d') (hno' : ¬ Mimics e d' d) : SameMarket d d' := by
  -- the hash of the rules is one of those that do not collide
  have hrules : ∀ {t t' : FeeRulesText} {s s' : String}, d.rules = some t → d'.rules = some t' →
      canonicalizeFeeRules t = some s → canonicalizeFeeRules t' = some s' →
      hex32 e s = hex32 e s' → SameRules t t' := by
    intro t t' s s' ht ht' hs hs' hhash
    have hvec : e.blake2b (utf8 s) = e.blake2b (utf8 s') := List.Vector.eq _ _ (hex_inj hhash)
    have hss : s = s' :=
      hinj (Or.inl (Or.inr ⟨t, ht, hs⟩)) (Or.inr (Or.inr ⟨t', ht', hs'⟩)) hvec
    exact sameRules_of_canonical hs (hss ▸ hs')
  cases d with
  | predicateOnly p =>
    cases d' with
    | predicateOnly p' =>
      obtain rfl : o = p := ho
      obtain rfl : o' = p' := ho'
      exact hsame
    | feeRecipients _ _ _ => exact (hno ⟨p, o', rfl, nofun, ho', ho ▸ hsame⟩).elim
    | feeRulesPredicate _ _ _ => exact (hno ⟨p, o', rfl, nofun, ho', ho ▸ hsame⟩).elim
    | feeRulesMetadata _ _ => exact (hno ⟨p, o', rfl, nofun, ho', ho ▸ hsame⟩).elim
  | feeRecipients p b i =>
    obtain rfl : o = marketObj p b i := ho
    cases d' with
    | predicateOnly p' => exact (hno' ⟨p', _, rfl, nofun, rfl, ho' ▸ hsame.symm⟩).elim
    | feeRecipients p' b' i' =>
      obtain rfl : o' = marketObj p' b' i' := ho'
      exact marketObj_inj hsame
    | feeRulesPredicate t' p' hp' =>
      obtain ⟨s', -, rfl⟩ := ho'
      exact (rulesObj_ne_marketObj hsame.symm).elim
    | feeRulesMetadata t' m' =>
      obtain ⟨s', -, -, rfl⟩ := ho'
      exact (rulesObj_ne_marketObj hsame.symm).elim
  | feeRulesPredicate t p hp =>
    obtain ⟨s, hs, rfl⟩ := ho
    cases d' with
    | predicateOnly p' =>
      exact (hno' ⟨p', _, rfl, nofun, ⟨s, hs, rfl⟩, ho' ▸ hsame.symm⟩).elim
    | feeRecipients p' b' i' =>
      obtain rfl : o' = marketObj p' b' i' := ho'
      exact (rulesObj_ne_marketObj hsame).elim
    | feeRulesPredicate t' p' hp' =>
      obtain ⟨s', hs', rfl⟩ := ho'
      obtain ⟨hc, -, hpp⟩ := rulesObj_inj hsame
      exact ⟨hrules rfl rfl hs hs' hc, hpp hp⟩
    | feeRulesMetadata t' m' =>
      obtain ⟨s', hs', hm', rfl⟩ := ho'
      obtain ⟨-, hnull, -⟩ := rulesObj_inj hsame
      exact absurd (hp.symm.trans (hnull.mpr rfl)) nofun
  | feeRulesMetadata t m =>
    obtain ⟨s, hs, hm, rfl⟩ := ho
    cases d' with
    | predicateOnly p' =>
      exact (hno' ⟨p', _, rfl, nofun, ⟨s, hs, hm, rfl⟩, ho' ▸ hsame.symm⟩).elim
    | feeRecipients p' b' i' =>
      obtain rfl : o' = marketObj p' b' i' := ho'
      exact (rulesObj_ne_marketObj hsame).elim
    | feeRulesPredicate t' p' hp' =>
      obtain ⟨s', hs', rfl⟩ := ho'
      obtain ⟨-, hnull, -⟩ := rulesObj_inj hsame
      exact absurd (hp'.symm.trans (hnull.mp rfl)) nofun
    | feeRulesMetadata t' m' =>
      obtain ⟨s', hs', hm', rfl⟩ := ho'
      obtain ⟨hc, -, -⟩ := rulesObj_inj hsame
      exact ⟨hrules rfl rfl hs hs' hc, rulesObj_metadata hsame⟩

theorem object_unique {e : Engine} {d : Description} {o o' : Json} (h : d.Object e o)
    (h' : d.Object e o') : o = o' := by
  cases d with
  | predicateOnly p => exact h.trans h'.symm
  | feeRecipients p b i => exact h.trans h'.symm
  | feeRulesPredicate t p hp =>
    obtain ⟨s, hs, rfl⟩ := h
    obtain ⟨s', hs', rfl⟩ := h'
    rw [Option.some.inj (hs.symm.trans hs')]
  | feeRulesMetadata t m =>
    obtain ⟨s, hs, -, rfl⟩ := h
    obtain ⟨s', hs', -, rfl⟩ := h'
    rw [Option.some.inj (hs.symm.trans hs')]

/-- A market that mimics another is hashed like it. -/
theorem commit_of_mimics {e : Engine} {d d' : Description} {c c' : String}
    (hc : d.commit e = some c) (hc' : d'.commit e = some c') (h : Mimics e d d') : c = c' := by
  obtain ⟨p, o, rfl, -, ho, hsame⟩ := h
  obtain ⟨o', ho', rfl⟩ := commit_eq_some.mp hc'
  obtain rfl : computePredicateCommit e p = c := Option.some.inj hc
  have hoo : o = o' := object_unique ho ho'
  rw [← hoo, ← canonicalPredicate_congr hsame]
  rfl

theorem not_sameMarket_of_mimics {e : Engine} {d d' : Description} (h : Mimics e d d') :
    ¬ SameMarket d d' ∧ ¬ SameMarket d' d := by
  obtain ⟨p, o, rfl, hother, -, -⟩ := h
  cases d' with
  | predicateOnly p' => exact absurd rfl (hother p')
  | feeRecipients _ _ _ => exact ⟨id, id⟩
  | feeRulesPredicate _ _ _ => exact ⟨id, id⟩
  | feeRulesMetadata _ _ => exact ⟨id, id⟩

/-- **When the slot tells markets apart.** -/
theorem separated_iff {e : Engine} {d d' : Description} {c c' : String}
    (hc : d.commit e = some c) (hc' : d'.commit e = some c')
    (hinj : Set.InjOn (fun s => e.blake2b (utf8 s)) {s | d.Hashes e s ∨ d'.Hashes e s}) :
    (∀ p p', canonicalPredicate p = canonicalPredicate p' → SameValue p p') ∧
      ((c = c' → SameMarket d d') ↔ ¬ Mimics e d d' ∧ ¬ Mimics e d' d) := by
  refine ⟨fun p p' => canonicalPredicate_inj, ?_⟩
  constructor
  · intro h
    refine ⟨fun hm => ?_, fun hm => ?_⟩
    · exact (not_sameMarket_of_mimics hm).1 (h (commit_of_mimics hc hc' hm))
    · exact (not_sameMarket_of_mimics hm).2 (h (commit_of_mimics hc' hc hm).symm)
  · intro h heq
    obtain ⟨o, ho, rfl⟩ := commit_eq_some.mp hc
    obtain ⟨o', ho', rfl⟩ := commit_eq_some.mp hc'
    have hvec : e.blake2b (utf8 (canonicalPredicate o)) =
        e.blake2b (utf8 (canonicalPredicate o')) :=
      List.Vector.eq _ _ (hex_inj heq)
    have htext : canonicalPredicate o = canonicalPredicate o' :=
      hinj (Or.inl (Or.inl ⟨o, ho, rfl⟩)) (Or.inr (Or.inl ⟨o', ho', rfl⟩)) hvec
    exact sameMarket_of_object hinj ho ho' (canonicalPredicate_inj htext) h.1 h.2

/-! ### A predicate that wraps another -/

def plainPredicate : Json := .obj [("metric", .str "total_goals"), ("threshold", .num 3)]

/-- A market without fees, whose predicate is the object of the market with them. -/
def wrapped : Description := .predicateOnly (marketObj plainPredicate none none)

/-- Whatever the hash is, the two markets have one commitment. -/
theorem wrapped_not_separated :
    (∀ e : Engine,
      wrapped.commit e = (Description.feeRecipients plainPredicate none none).commit e) ∧
      ¬ SameMarket wrapped (.feeRecipients plainPredicate none none) :=
  ⟨fun _ => rfl, id⟩

/-- Hashes that tell one text from all others. -/
def nullEngine : Engine where
  blake2b b := List.Vector.replicate 32 (if b = utf8 "null" then 0 else 1)
  sha256 b := List.Vector.replicate 32 (b.headD 0)
  checkSig _ _ _ := true

theorem separated_iff_null :
    (∀ p p', canonicalPredicate p = canonicalPredicate p' → SameValue p p') ∧
      ((computePredicateCommit nullEngine .null = computeMarketCommit nullEngine .null none none →
          SameMarket (.predicateOnly .null) (.feeRecipients .null none none)) ↔
        ¬ Mimics nullEngine (.predicateOnly .null) (.feeRecipients .null none none) ∧
          ¬ Mimics nullEngine (.feeRecipients .null none none) (.predicateOnly .null)) := by
  apply separated_iff rfl rfl
  have htexts : ∀ s, ((Description.predicateOnly .null).Hashes nullEngine s ∨
      (Description.feeRecipients .null none none).Hashes nullEngine s) →
      s = "null" ∨ s = canonicalPredicate (marketObj .null none none) := by
    intro s hs
    rcases hs with (⟨o, ho, rfl⟩ | ⟨t, ht, -⟩) | (⟨o, ho, rfl⟩ | ⟨t, ht, -⟩)
    · obtain rfl : o = .null := ho
      exact Or.inl (by decide)
    · cases ht
    · obtain rfl : o = marketObj .null none none := ho
      exact Or.inr rfl
    · cases ht
  have hne : nullEngine.blake2b (utf8 "null") ≠
      nullEngine.blake2b (utf8 (canonicalPredicate (marketObj .null none none))) := by
    have htext : utf8 (canonicalPredicate (marketObj .null none none)) ≠ utf8 "null" := by
      intro h
      have hnull : canonicalPredicate .null = "null" := by decide
      have hsame := canonicalPredicate_inj ((utf8_inj h).trans hnull.symm)
      rw [SameValue, marketObj, Json.canonical, Json.canonical] at hsame
      cases hsame
    show List.Vector.replicate 32 (if utf8 "null" = utf8 "null" then (0 : UInt8) else 1) ≠
      List.Vector.replicate 32
        (if utf8 (canonicalPredicate _) = utf8 "null" then (0 : UInt8) else 1)
    rw [if_pos rfl, if_neg htext]
    decide
  intro s hs s' hs' heq
  rcases htexts s hs with rfl | rfl
  · rcases htexts s' hs' with rfl | rfl
    · rfl
    · exact absurd heq hne
  · rcases htexts s' hs' with rfl | rfl
    · exact absurd heq.symm hne
    · rfl

end KANet.Settle
