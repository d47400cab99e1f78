import KANet.Settle.JudgeLine

/-!
# What a market commits to

The redeem script of a payout shard carries one hash.  What it is a hash of depends on the market:
the rules of its fees beside the predicate, the recipients of its fees beside the predicate, or
the predicate alone.  The objects are told apart by their members, and the canonical text of an
object determines its members, so a hash that does not collide binds them.

* `marketObj_inj` — the commitment of a market with recipients binds them and the predicate.
* `rulesObj_inj` — the commitment of a market with fee rules binds those and the predicate.
* `rulesObj_ne_marketObj`, `not_metric_rulesObj`, `not_metric_marketObj` — the three kinds
  are not mixed up, if the predicate is one that can be judged.
-/

namespace KANet.Settle

open KANet.Lib KANet.Script KANet.Payout

/-! ### Hashes of texts -/

/-- `Buffer.from(s)` -/
def utf8 (s : String) : Bytes := s.toByteArray.data.toList

theorem utf8_inj {s s' : String} (h : utf8 s = utf8 s') : s = s' :=
  String.toByteArray_inj.mp (ByteArray.ext (Array.toList_inj.mp h))

/-- Bytes in hex. -/
def hex (b : Bytes) : String := String.ofList (toHex b)

theorem hex_inj {b b' : Bytes} (h : hex b = hex b') : b = b' := by
  have hchars := congrArg fromHex (String.ofList_inj.mp h)
  rw [fromHex_toHex, fromHex_toHex] at hchars
  exact Option.some.inj hchars

theorem hex_injective : Function.Injective hex := fun _ _ => hex_inj

theorem toLower_hex (b : Bytes) : (hex b).toLower = hex b := by
  apply String.toList_inj.mp
  rw [toList_toLower, hex, String.toList_ofList, map_toLower_toHex]

theorem hex_ne_empty {b : Bytes} (hb : b ≠ []) : hex b ≠ "" := by
  intro h
  have hnil : hex b = hex [] := h
  exact hb (hex_inj hnil)

def hex32 (e : Engine) (s : String) : String := hex (e.blake2b (utf8 s)).toList

theorem hex32_inj {e : Engine} {S : Set Bytes} (hS : S.InjOn e.blake2b) {s s' : String}
    (hs : utf8 s ∈ S) (hs' : utf8 s' ∈ S) (h : hex32 e s = hex32 e s') : s = s' :=
  utf8_inj (hS hs hs' (List.Vector.eq _ _ (hex_inj h)))

/-! ### The commitments -/

def canonicalPredicate (p : Json) : String := canonicalJson p

def isNull (v : Json) : Bool :=
  match v with
  | .null => true
  | _ => false

/-- A key in lower case; none, where it is missing or empty. -/
def pkHint (pk : Option String) : Option String :=
  (pk.filter (· ≠ "")).map String.toLower

def pkJson (pk : Option String) : Json := ((pkHint pk).map Json.str).getD .null

/-- `{ fee_recipients: { broker, introducer }, predicate }` -/
def marketObj (predicate : Json) (brokerPk introducerPk : Option String) : Json :=
  .obj [("fee_recipients", .obj [("broker", pkJson brokerPk),
    ("introducer", pkJson introducerPk)]), ("predicate", predicate)]

def computeMarketCommit (e : Engine) (predicate : Json) (brokerPk introducerPk : Option String) :
    String :=
  hex32 e (canonicalPredicate (marketObj predicate brokerPk introducerPk))

def computePredicateCommit (e : Engine) (predicate : Json) : String :=
  hex32 e (canonicalPredicate predicate)

def computeFeeRulesCommit (e : Engine) (feeRules : FeeRulesText) : Option String :=
  (canonicalizeFeeRules feeRules).map (hex32 e)

/-- The commitment of the rules, beside the predicate or, where there is none, the hash of the
market's metadata. -/
def rulesObj (feeRulesCommit : String) (predicate : Json) (marketMetadataHash : String) : Json :=
  if isNull predicate then
    .obj [("fee_rules_commit", .str feeRulesCommit),
      ("market_metadata_hash", .str marketMetadataHash.toLower)]
  else .obj [("fee_rules_commit", .str feeRulesCommit), ("predicate", predicate)]

def computeMarketCommitV2 (e : Engine) (feeRules : FeeRulesText) (predicate : Json)
    (marketMetadataHash : Option String) : Option String := do
  let feeRulesCommit ← computeFeeRulesCommit e feeRules
  require (isNull predicate = true → marketMetadataHash.getD "" ≠ "")
  some (hex32 e (canonicalPredicate
    (rulesObj feeRulesCommit predicate (marketMetadataHash.getD ""))))

/-! ### What the commitments bind -/

/-- Objects with one canonical form have the same members. -/
theorem get_congr {v v' : Json} (h : v.canonical keyLe = v'.canonical keyLe) (k : String) :
    (v.get k).map (Json.canonical keyLe) = (v'.get k).map (Json.canonical keyLe) := by
  rw [← get_canonical, h, get_canonical]

theorem canonical_of_get {v v' a a' : Json} (h : v.canonical keyLe = v'.canonical keyLe)
    {k : String} (hv : v.get k = some a) (hv' : v'.get k = some a') :
    a.canonical keyLe = a'.canonical keyLe := by
  have hk := get_congr h k
  rw [hv, hv'] at hk
  exact Option.some.inj hk

/-- A member of the one is a member of the other. -/
theorem exists_get {v v' a : Json} (h : v.canonical keyLe = v'.canonical keyLe) {k : String}
    (hv : v.get k = some a) : ∃ a', v'.get k = some a' := by
  have hk := get_congr h k
  rw [hv] at hk
  obtain ⟨a', ha', -⟩ := Option.map_eq_some_iff.mp hk.symm
  exact ⟨a', ha'⟩

theorem pkJson_inj {pk pk' : Option String}
    (h : (pkJson pk).canonical keyLe = (pkJson pk').canonical keyLe) : pkHint pk = pkHint pk' := by
  unfold pkJson at h
  cases hpk : pkHint pk with
  | none =>
    cases hpk' : pkHint pk' with
    | none => rfl
    | some s' =>
      rw [hpk, hpk', Option.map_none, Option.map_some, Option.getD_none, Option.getD_some,
        Json.canonical, Json.canonical] at h
      cases h
  | some s =>
    cases hpk' : pkHint pk' with
    | none =>
      rw [hpk, hpk', Option.map_none, Option.map_some, Option.getD_none, Option.getD_some,
        Json.canonical, Json.canonical] at h
      cases h
    | some s' =>
      rw [hpk, hpk', Option.map_some, Option.map_some, Option.getD_some, Option.getD_some,
        Json.canonical, Json.canonical] at h
      rw [Json.str.inj h]

/-- **The commitment binds the recipients and the predicate.** -/
theorem marketObj_inj {p p' : Json} {b b' i i' : Option String}
    (h : (marketObj p b i).canonical keyLe = (marketObj p' b' i').canonical keyLe) :
    p.canonical keyLe = p'.canonical keyLe ∧ pkHint b = pkHint b' ∧ pkHint i = pkHint i' := by
  have hp : ∀ (p : Json) (b i : Option String), (marketObj p b i).get "predicate" = some p := by
    intro p b i
    rfl
  have hr : ∀ (p : Json) (b i : Option String), (marketObj p b i).get "fee_recipients" =
      some (.obj [("broker", pkJson b), ("introducer", pkJson i)]) := by
    intro p b i
    rfl
  have hfees := canonical_of_get h (hr p b i) (hr p' b' i')
  have hb : (pkJson b).canonical keyLe = (pkJson b').canonical keyLe :=
    canonical_of_get hfees (k := "broker") rfl rfl
  have hi : (pkJson i).canonical keyLe = (pkJson i').canonical keyLe :=
    canonical_of_get hfees (k := "introducer") rfl rfl
  exact ⟨canonical_of_get h (hp p b i) (hp p' b' i'), pkJson_inj hb, pkJson_inj hi⟩

theorem get_rulesObj_commit (c : String) (p : Json) (m : String) :
    (rulesObj c p m).get "fee_rules_commit" = some (.str c) := by
  unfold rulesObj
  by_cases hp : isNull p = true
  · rw [if_pos hp]
    rfl
  · rw [if_neg hp]
    rfl

theorem get_rulesObj_predicate (c : String) {p : Json} (m : String) :
    (rulesObj c p m).get "predicate" = if isNull p then none else some p := by
  unfold rulesObj
  by_cases hp : isNull p = true
  · rw [if_pos hp, if_pos hp]
    rfl
  · rw [if_neg hp, if_neg hp]
    rfl

/-- **The commitment binds the rules and the predicate.** -/
theorem rulesObj_inj {c c' : String} {p p' : Json} {m m' : String}
    (h : (rulesObj c p m).canonical keyLe = (rulesObj c' p' m').canonical keyLe) :
    c = c' ∧ (isNull p = true ↔ isNull p' = true) ∧
      (isNull p = false → p.canonical keyLe = p'.canonical keyLe) := by
  have hc := canonical_of_get h (get_rulesObj_commit c p m) (get_rulesObj_commit c' p' m')
  rw [Json.canonical, Json.canonical] at hc
  have hp := get_congr h "predicate"
  rw [get_rulesObj_predicate, get_rulesObj_predicate] at hp
  refine ⟨Json.str.inj hc, ?_⟩
  cases hn : isNull p with
  | true =>
    cases hn' : isNull p' with
    | true => simp
    | false => simp [hn, hn'] at hp
  | false =>
    cases hn' : isNull p' with
    | true => simp [hn, hn'] at hp
    | false =>
      rw [hn, hn'] at hp
      simpa using hp

/-- The rules of a market are not its recipients. -/
theorem rulesObj_ne_marketObj {c : String} {p p' : Json} {m : String} {b i : Option String} :
    (rulesObj c p m).canonical keyLe ≠ (marketObj p' b i).canonical keyLe := by
  intro h
  obtain ⟨a, ha⟩ := exists_get h (get_rulesObj_commit c p m)
  cases ha

theorem not_metric_rulesObj {c : String} {p q : Json} {m : String} {a : Json}
    (hq : q.get "metric" = some a) :
    q.canonical keyLe ≠ (rulesObj c p m).canonical keyLe := by
  intro h
  obtain ⟨a', ha'⟩ := exists_get h hq
  unfold rulesObj at ha'
  by_cases hp : isNull p = true
  · rw [if_pos hp] at ha'
    cases ha'
  · rw [if_neg hp] at ha'
    cases ha'

theorem not_metric_marketObj {p q : Json} {b i : Option String} {a : Json}
    (hq : q.get "metric" = some a) :
    q.canonical keyLe ≠ (marketObj p b i).canonical keyLe := by
  intro h
  obtain ⟨a', ha'⟩ := exists_get h hq
  cases ha'

theorem computeMarketCommitV2_eq_some {e : Engine} {t : FeeRulesText} {p : Json}
    {m : Option String} {c : String} :
    computeMarketCommitV2 e t p m = some c ↔
      ∃ s, canonicalizeFeeRules t = some s ∧ (isNull p = true → m.getD "" ≠ "") ∧
        hex32 e (canonicalPredicate (rulesObj (hex32 e s) p (m.getD ""))) = c := by
  unfold computeMarketCommitV2 computeFeeRulesCommit
  simp only [Option.bind_eq_bind, Option.bind_eq_some_iff, Option.map_eq_some_iff, require_eq_some,
    exists_const, Option.some.injEq]
  constructor
  · intro h
    obtain ⟨_, ⟨s, hs, rfl⟩, hm, hc⟩ := h
    exact ⟨s, hs, hm, hc⟩
  · intro h
    obtain ⟨s, hs, hm, hc⟩ := h
    exact ⟨_, ⟨s, hs, rfl⟩, hm, hc⟩

end KANet.Settle
