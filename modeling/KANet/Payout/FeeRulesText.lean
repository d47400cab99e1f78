import KANet.Lib.Hex
import KANet.Lib.Json
import KANet.Lib.Refuse
import KANet.Payout.FeeSplit

/-!
# `canonicalizeFeeRules`

Fee rules as they are written down: an address is a string of hex digits in either case.
The canonical form is the text that a market commits to.

* `canonicalizeFeeRules_inj` — one canonical form, one list of roles in the order in which
  the fees are paid.  Nothing the split reads is missing from the text.
* `canonicalizeFeeRules_congr` — the order of the roles and the case of the addresses do
  not show in it.
-/

namespace KANet.Payout

open KANet.Lib KANet.Script

structure RoleText where
  name : String
  bps : Int
  address : Option String
  derive : Option String
  optional : Bool
deriving DecidableEq

structure FeeRulesText where
  schema_v : Int
  preset : Option String
  roles : List RoleText

/-! ### Addresses -/

/-- The key an address spells. -/
def hexKey (address : String) : Option Bytes := fromHex address.toLower.toList

def RoleText.role (r : RoleText) : Option Role :=
  match r.address with
  | none => some { name := r.name, bps := r.bps, address := none, derive := r.derive,
                   optional := r.optional }
  | some a => (hexKey a).map fun pk =>
    { name := r.name, bps := r.bps, address := some pk, derive := r.derive, optional := r.optional }

/-- The rules, with the addresses read. -/
def FeeRulesText.rules (t : FeeRulesText) : Option FeeRules :=
  (t.roles.mapM RoleText.role).map fun roles =>
    { schema_v := t.schema_v, preset := t.preset, roles }

def feeSplitText (t : FeeRulesText) (poolSompi : Int) (winners : List Winner)
    (committeePks : List Bytes) : Option FeeSplit := do
  let rules ← t.rules
  feeSplit rules poolSompi winners committeePks

/-! ### The canonical form -/

/-- `a < b` for strings. -/
def keyLe (a b : String) : Bool := !(decide (codeUnits b < codeUnits a))

def canonicalJson (v : Json) : String := v.canonicalText keyLe

/-- A role with its address in lower case. -/
def RoleText.canonical (r : RoleText) : RoleText :=
  { r with address := r.address.map String.toLower }

/-- The members of a role's object, with those left out that are absent or false. -/
def RoleText.members (r : RoleText) : List (String × Json) :=
  [("name", .str r.name), ("bps", .num r.bps)] ++
    r.address.toList.map (fun a => ("address", .str a)) ++
    r.derive.toList.map (fun d => ("derive", .str d)) ++
    if r.optional then [("optional", .bool true)] else []

def RoleText.json (r : RoleText) : Json := .obj r.members

def textLe (a b : RoleText) : Bool := keyLe a.name b.name

/-- The roles in the order in which they are written down, and in which they are paid. -/
def FeeRulesText.sorted (t : FeeRulesText) : List RoleText :=
  (t.roles.map RoleText.canonical).mergeSort textLe

def canonicalizeFeeRules (t : FeeRulesText) : Option String := do
  let rules ← t.rules
  validateFeeRules rules
  some (canonicalJson (.obj ([("schema_v", .num t.schema_v),
    ("roles", .arr (t.sorted.map RoleText.json))] ++
      t.preset.toList.map fun p => ("preset", .str p))))

/-! ### Reading the roles -/

theorem toLower_idem (s : String) : s.toLower.toLower = s.toLower := by
  apply String.toList_inj.mp
  rw [toList_toLower, toList_toLower, List.map_map]
  apply List.map_congr_left
  intro c _
  exact toLower_toLower_char c

@[simp] theorem role_canonical (r : RoleText) : r.canonical.role = r.role := by
  unfold RoleText.canonical RoleText.role
  cases r.address with
  | none => rfl
  | some a =>
    simp only [Option.map_some, hexKey, toLower_idem]

theorem map_role_canonical (rs : List RoleText) :
    (rs.map RoleText.canonical).map RoleText.role = rs.map RoleText.role := by
  rw [List.map_map]
  exact List.map_congr_left fun r _ => role_canonical r

theorem role_name {r : RoleText} {role : Role} (h : r.role = some role) : role.name = r.name := by
  unfold RoleText.role at h
  cases ha : r.address with
  | none =>
    rw [ha] at h
    obtain rfl := Option.some.inj h
    rfl
  | some a =>
    rw [ha] at h
    obtain ⟨pk, -, rfl⟩ := Option.map_eq_some_iff.mp h
    rfl

theorem rules_eq_some {t : FeeRulesText} {rules : FeeRules} :
    t.rules = some rules ↔ t.roles.map RoleText.role = rules.roles.map some ∧
      rules.schema_v = t.schema_v ∧ rules.preset = t.preset := by
  unfold FeeRulesText.rules
  simp only [Option.map_eq_some_iff, mapM_eq_some]
  constructor
  · rintro ⟨roles, hroles, rfl⟩
    exact ⟨hroles, rfl, rfl⟩
  · rintro ⟨hroles, hs, hp⟩
    exact ⟨rules.roles, hroles, by rw [← hs, ← hp]⟩

theorem keyLe_trans (a b c : String) : keyLe a b → keyLe b c → keyLe a c := by
  simp only [keyLe, Bool.not_eq_true', decide_eq_false_iff_not, not_lt]
  exact le_trans

theorem keyLe_total (a b : String) : keyLe a b || keyLe b a := by
  simp only [keyLe, Bool.or_eq_true, Bool.not_eq_true', decide_eq_false_iff_not, not_lt]
  exact le_total _ _

theorem textLe_trans (a b c : RoleText) : textLe a b → textLe b c → textLe a c :=
  keyLe_trans a.name b.name c.name

theorem textLe_total (a b : RoleText) : textLe a b || textLe b a := keyLe_total a.name b.name

/-- `nameLe`, for roles whose addresses have been read. -/
def readLe : Option Role → Option Role → Bool
  | some a, some b => nameLe a b
  | _, _ => true

theorem textLe_eq_readLe {a b : RoleText} {ra rb : Role} (ha : a.role = some ra)
    (hb : b.role = some rb) : textLe a b = readLe a.role b.role := by
  rw [ha, hb, readLe, nameLe, textLe, keyLe, role_name ha, role_name hb]

/-- **The order of the text is the order of the leaves.** -/
theorem sorted_roles {t : FeeRulesText} {rules : FeeRules} (h : t.rules = some rules) :
    t.sorted.map RoleText.role = (rules.roles.mergeSort nameLe).map some := by
  obtain ⟨hroles, -⟩ := rules_eq_some.mp h
  have hcanon : (t.roles.map RoleText.canonical).map RoleText.role = rules.roles.map some := by
    rw [map_role_canonical, hroles]
  have hread : ∀ a ∈ t.roles.map RoleText.canonical, ∃ ra, a.role = some ra := by
    intro a ha
    have hmem := List.mem_map_of_mem (f := RoleText.role) ha
    rw [hcanon] at hmem
    obtain ⟨ra, -, hra⟩ := List.mem_map.mp hmem
    exact ⟨ra, hra.symm⟩
  rw [FeeRulesText.sorted, List.map_mergeSort (s := readLe), hcanon,
    List.map_mergeSort (s := readLe)]
  · intro a _ b _
    rfl
  · intro a ha b hb
    obtain ⟨ra, hra⟩ := hread a ha
    obtain ⟨rb, hrb⟩ := hread b hb
    exact textLe_eq_readLe hra hrb

/-- The fees look at no more than whether the rules pass, and at the sorted roles. -/
theorem deriveRoleFeeLeaves_congr {rules rules' : FeeRules} (hv : rules.Valid) (hv' : rules'.Valid)
    (h : rules.roles.mergeSort nameLe = rules'.roles.mergeSort nameLe) (pool : Int)
    (committeePks : List Bytes) :
    deriveRoleFeeLeaves rules pool committeePks = deriveRoleFeeLeaves rules' pool committeePks := by
  apply Option.ext
  intro ls
  show deriveRoleFeeLeaves rules pool committeePks = some ls ↔
    deriveRoleFeeLeaves rules' pool committeePks = some ls
  rw [deriveRoleFeeLeaves_eq_some, deriveRoleFeeLeaves_eq_some, h]
  simp only [hv, hv', true_and]

theorem feeSplit_congr {rules rules' : FeeRules} (hv : rules.Valid) (hv' : rules'.Valid)
    (h : rules.roles.mergeSort nameLe = rules'.roles.mergeSort nameLe) (pool : Int)
    (winners : List Winner) (committeePks : List Bytes) :
    feeSplit rules pool winners committeePks = feeSplit rules' pool winners committeePks := by
  unfold feeSplit
  rw [deriveRoleFeeLeaves_congr hv hv' h]

/-! ### What the canonical form says -/

section Members

variable {r : RoleText} {k : String} {v : Json}

theorem mem_members : (k, v) ∈ r.members ↔ (k = "name" ∧ v = .str r.name) ∨
    (k = "bps" ∧ v = .num r.bps) ∨ (∃ a, r.address = some a ∧ k = "address" ∧ v = .str a) ∨
    (∃ d, r.derive = some d ∧ k = "derive" ∧ v = .str d) ∨
    (r.optional = true ∧ k = "optional" ∧ v = .bool true) := by
  unfold RoleText.members
  cases r.address <;> cases r.derive <;> cases r.optional <;>
    simp [Prod.ext_iff]

theorem mem_name : ("name", v) ∈ r.members ↔ v = .str r.name := by
  simp [mem_members]

theorem mem_bps : ("bps", v) ∈ r.members ↔ v = .num r.bps := by
  simp [mem_members]

theorem mem_address : ("address", v) ∈ r.members ↔ ∃ a, r.address = some a ∧ v = .str a := by
  simp [mem_members]

theorem mem_derive : ("derive", v) ∈ r.members ↔ ∃ d, r.derive = some d ∧ v = .str d := by
  simp [mem_members]

theorem mem_optional : ("optional", v) ∈ r.members ↔ r.optional = true ∧ v = .bool true := by
  simp [mem_members]

/-- The values of a role's members are written as they are. -/
theorem canonical_member (h : (k, v) ∈ r.members) : v.canonical keyLe = v := by
  rcases mem_members.mp h with ⟨-, rfl⟩ | ⟨-, rfl⟩ | ⟨_, -, -, rfl⟩ | ⟨_, -, -, rfl⟩ |
    ⟨-, -, rfl⟩ <;> rw [Json.canonical]

theorem mem_of_json_eq {r' : RoleText} (h : r.json.canonical keyLe = r'.json.canonical keyLe)
    (hm : (k, v) ∈ r.members) : (k, v) ∈ r'.members := by
  obtain ⟨v', hm', hv⟩ := Json.mem_of_canonical_obj h hm
  rw [canonical_member hm, canonical_member hm'] at hv
  rw [← hv]
  exact hm'

end Members

theorem option_ext {α : Type} {a b : Option α} (h : ∀ x, a = some x → b = some x)
    (h' : ∀ x, b = some x → a = some x) : a = b :=
  Option.ext fun x => ⟨h x, h' x⟩

/-- A role is what its text says. -/
theorem json_inj {r r' : RoleText} (h : r.json.canonical keyLe = r'.json.canonical keyLe) :
    r = r' := by
  have hname : r.name = r'.name :=
    Json.str.inj (mem_name.mp (mem_of_json_eq h (mem_name.mpr rfl)))
  have hbps : r.bps = r'.bps := Json.num.inj (mem_bps.mp (mem_of_json_eq h (mem_bps.mpr rfl)))
  have haddress : ∀ {q q' : RoleText}, q.json.canonical keyLe = q'.json.canonical keyLe →
      ∀ a, q.address = some a → q'.address = some a := by
    intro q q' hq a ha
    obtain ⟨a', ha', heq⟩ := mem_address.mp (mem_of_json_eq hq (mem_address.mpr ⟨a, ha, rfl⟩))
    rw [Json.str.inj heq]
    exact ha'
  have hderive : ∀ {q q' : RoleText}, q.json.canonical keyLe = q'.json.canonical keyLe →
      ∀ d, q.derive = some d → q'.derive = some d := by
    intro q q' hq d hd
    obtain ⟨d', hd', heq⟩ := mem_derive.mp (mem_of_json_eq hq (mem_derive.mpr ⟨d, hd, rfl⟩))
    rw [Json.str.inj heq]
    exact hd'
  have hoptional : ∀ {q q' : RoleText}, q.json.canonical keyLe = q'.json.canonical keyLe →
      q.optional = true → q'.optional = true := by
    intro q q' hq ho
    exact (mem_optional.mp (mem_of_json_eq hq (mem_optional.mpr ⟨ho, rfl⟩))).1
  have hopt : r.optional = r'.optional :=
    Bool.eq_iff_iff.mpr ⟨hoptional h, hoptional h.symm⟩
  cases r
  cases r'
  simp only [RoleText.mk.injEq]
  exact ⟨hname, hbps, option_ext (haddress h) (haddress h.symm),
    option_ext (hderive h) (hderive h.symm), hopt⟩

theorem canonicalizeFeeRules_eq_some {t : FeeRulesText} {s : String} :
    canonicalizeFeeRules t = some s ↔ ∃ rules, t.rules = some rules ∧ rules.Valid ∧
      canonicalJson (.obj ([("schema_v", .num t.schema_v),
        ("roles", .arr (t.sorted.map RoleText.json))] ++
          t.preset.toList.map fun p => ("preset", .str p))) = s := by
  unfold canonicalizeFeeRules
  simp only [Option.bind_eq_bind, Option.bind_eq_some_iff, validateFeeRules_eq_some, exists_const,
    Option.some.injEq]

/-- **The canonical form says which roles there are**, in the order in which they are paid. -/
theorem canonicalizeFeeRules_inj {t t' : FeeRulesText} {s : String}
    (h : canonicalizeFeeRules t = some s) (h' : canonicalizeFeeRules t' = some s) :
    t.sorted = t'.sorted := by
  obtain ⟨_, -, -, hs⟩ := canonicalizeFeeRules_eq_some.mp h
  obtain ⟨_, -, -, hs'⟩ := canonicalizeFeeRules_eq_some.mp h'
  have hobj := Json.canonicalText_inj (hs.trans hs'.symm)
  obtain ⟨v, hmem, hv⟩ := Json.mem_of_canonical_obj hobj (List.mem_append_left _
    (List.mem_cons_of_mem _ (List.mem_singleton.mpr rfl)))
  have hroles : v = .arr (t'.sorted.map RoleText.json) := by
    simpa using hmem
  rw [hroles] at hv
  have hmap := Json.canonical_arr_inj hv
  rw [List.map_map, List.map_map] at hmap
  exact (List.map_injective_iff.mpr (fun _ _ hj => json_inj hj) hmap).symm

/-- The canonical form says which version and preset the rules have. -/
theorem canonicalizeFeeRules_head {t t' : FeeRulesText} {s : String}
    (h : canonicalizeFeeRules t = some s) (h' : canonicalizeFeeRules t' = some s) :
    t.schema_v = t'.schema_v ∧ t.preset = t'.preset := by
  obtain ⟨_, -, -, hs⟩ := canonicalizeFeeRules_eq_some.mp h
  obtain ⟨_, -, -, hs'⟩ := canonicalizeFeeRules_eq_some.mp h'
  have hobj := Json.canonicalText_inj (hs.trans hs'.symm)
  have hpreset : ∀ {u u' : FeeRulesText},
      (Json.obj ([("schema_v", .num u.schema_v), ("roles", .arr (u.sorted.map RoleText.json))] ++
        u.preset.toList.map fun p => ("preset", .str p))).canonical keyLe =
      (Json.obj ([("schema_v", .num u'.schema_v), ("roles", .arr (u'.sorted.map RoleText.json))] ++
        u'.preset.toList.map fun p => ("preset", .str p))).canonical keyLe →
      ∀ p, u.preset = some p → u'.preset = some p := by
    intro u u' hu p hp
    obtain ⟨v, hmem, hv⟩ := Json.mem_of_canonical_obj hu (List.mem_append_right _
      (List.mem_map.mpr ⟨p, by rw [hp]; exact List.mem_singleton.mpr rfl, rfl⟩))
    obtain ⟨p', hp', rfl⟩ : ∃ p', u'.preset = some p' ∧ v = .str p' := by
      simpa [eq_comm] using hmem
    rw [Json.canonical, Json.canonical] at hv
    rw [hp', Json.str.inj hv]
  obtain ⟨v, hmem, hv⟩ := Json.mem_of_canonical_obj hobj (List.mem_append_left _
    List.mem_cons_self)
  have hschema : v = .num t'.schema_v := by
    simpa using hmem
  rw [hschema, Json.canonical, Json.canonical] at hv
  exact ⟨(Json.num.inj hv).symm, option_ext (hpreset hobj) (hpreset hobj.symm)⟩

/-- Rules with one canonical form, read and sorted. -/
theorem sorted_congr {t t' : FeeRulesText} {rules rules' : FeeRules} (h : t.sorted = t'.sorted)
    (hr : t.rules = some rules) (hr' : t'.rules = some rules') :
    rules.roles.mergeSort nameLe = rules'.roles.mergeSort nameLe := by
  apply List.map_injective_iff.mpr (Option.some_injective Role)
  rw [← sorted_roles hr, ← sorted_roles hr', h]

/-! ### The order of the names -/

/-- The code units of one character. -/
def charUnits (c : Char) : List Nat :=
  if c.toNat < 0x10000 then [c.toNat]
  else [0xd800 + (c.toNat - 0x10000) / 0x400, 0xdc00 + (c.toNat - 0x10000) % 0x400]

theorem codeUnits_eq (s : String) : codeUnits s = s.toList.flatMap charUnits := rfl

theorem toNat_range (c : Char) :
    c.toNat < 0xd800 ∨ (0xdfff < c.toNat ∧ c.toNat < 0x110000) := c.valid

theorem char_eq_of_toNat {c c' : Char} (h : c.toNat = c'.toNat) : c = c' := by
  rw [← Char.ofNat_toNat c, h, Char.ofNat_toNat]

/-- No character's code units begin another's: the first of two is one that no character is. -/
theorem charUnits_append_inj {c c' : Char} {r r' : List Nat}
    (h : charUnits c ++ r = charUnits c' ++ r') : c = c' ∧ r = r' := by
  have hc := toNat_range c
  have hc' := toNat_range c'
  unfold charUnits at h
  by_cases hs : c.toNat < 0x10000
  · by_cases hs' : c'.toNat < 0x10000
    · rw [if_pos hs, if_pos hs'] at h
      obtain ⟨hn, hr⟩ := List.cons.inj h
      exact ⟨char_eq_of_toNat hn, hr⟩
    · rw [if_pos hs, if_neg hs'] at h
      have hn := (List.cons.inj h).1
      omega
  · by_cases hs' : c'.toNat < 0x10000
    · rw [if_neg hs, if_pos hs'] at h
      have hn := (List.cons.inj h).1
      omega
    · rw [if_neg hs, if_neg hs'] at h
      obtain ⟨hhi, htail⟩ := List.cons.inj h
      obtain ⟨hlo, hr⟩ := List.cons.inj htail
      exact ⟨char_eq_of_toNat (by omega), hr⟩

theorem charUnits_ne_nil (c : Char) : charUnits c ≠ [] := by
  unfold charUnits
  by_cases hs : c.toNat < 0x10000
  · rw [if_pos hs]
    exact List.cons_ne_nil _ _
  · rw [if_neg hs]
    exact List.cons_ne_nil _ _

theorem codeUnits_inj {s s' : String} (h : codeUnits s = codeUnits s') : s = s' := by
  rw [codeUnits_eq, codeUnits_eq] at h
  apply String.toList_inj.mp
  generalize s.toList = cs at h ⊢
  generalize s'.toList = cs' at h ⊢
  induction cs generalizing cs' with
  | nil =>
    cases cs' with
    | nil => rfl
    | cons c' cs' =>
      rw [List.flatMap_cons] at h
      exact absurd (List.append_eq_nil_iff.mp h.symm).1 (charUnits_ne_nil c')
  | cons c cs ih =>
    cases cs' with
    | nil =>
      rw [List.flatMap_cons] at h
      exact absurd (List.append_eq_nil_iff.mp h).1 (charUnits_ne_nil c)
    | cons c' cs' =>
      rw [List.flatMap_cons, List.flatMap_cons] at h
      obtain ⟨rfl, hr⟩ := charUnits_append_inj h
      rw [ih cs' hr]

theorem keyLe_antisymm (a b : String) (h : keyLe a b) (h' : keyLe b a) : a = b := by
  simp only [keyLe, Bool.not_eq_true', decide_eq_false_iff_not, not_lt] at h h'
  exact codeUnits_inj (le_antisymm h h')

theorem textLe_antisymm {a b : RoleText} (h : textLe a b) (h' : textLe b a) : a.name = b.name :=
  keyLe_antisymm a.name b.name h h'

/-- Roles with names of their own are sorted in one way. -/
theorem mergeSort_textLe_congr {l l' : List RoleText} (hp : l.Perm l')
    (hnd : (l.map RoleText.name).Nodup) : l.mergeSort textLe = l'.mergeSort textLe := by
  have hsorted := List.pairwise_mergeSort textLe_trans textLe_total l
  have hsorted' := List.pairwise_mergeSort textLe_trans textLe_total l'
  refine List.Perm.eq_of_pairwise ?_ hsorted hsorted' ?_
  · intro a b ha hb hab hba
    have ha' : a ∈ l := List.mem_mergeSort.mp ha
    have hb' : b ∈ l := hp.mem_iff.mpr (List.mem_mergeSort.mp hb)
    exact List.inj_on_of_nodup_map hnd ha' hb' (textLe_antisymm hab hba)
  · exact (List.mergeSort_perm l textLe).trans (hp.trans (List.mergeSort_perm l' textLe).symm)

/-! ### What does not show in the canonical form -/

/-- The same rules, the roles in another order and the addresses in another case. -/
structure SameRules (t t' : FeeRulesText) : Prop where
  schema_v : t.schema_v = t'.schema_v
  preset : t.preset = t'.preset
  roles : (t.roles.map RoleText.canonical).Perm (t'.roles.map RoleText.canonical)

theorem SameRules.symm {t t' : FeeRulesText} (h : SameRules t t') : SameRules t' t :=
  ⟨h.schema_v.symm, h.preset.symm, h.roles.symm⟩

theorem FeeRules.Valid.perm {rules rules' : FeeRules} (hv : rules.Valid)
    (hs : rules.schema_v = rules'.schema_v) (hp : rules.roles.Perm rules'.roles) :
    rules'.Valid where
  schema := hs ▸ hv.schema
  ne_nil := fun hnil => hv.ne_nil (by rw [hnil] at hp; exact hp.eq_nil)
  roles := fun r hr => hv.roles r (hp.mem_iff.mpr hr)
  names := (hp.map Role.name).nodup_iff.mp hv.names
  provider := by rw [← hp.countP_eq]; exact hv.provider
  sum := by rw [← (hp.map Role.bps).sum_eq]; exact hv.sum

/-- A list in which nothing is missing. -/
theorem eq_map_some {α : Type} {xs : List (Option α)} (h : ∀ x ∈ xs, x.isSome = true) :
    xs = (xs.filterMap id).map some := by
  induction xs with
  | nil => rfl
  | cons x xs ih =>
    obtain ⟨a, rfl⟩ := Option.isSome_iff_exists.mp (h x List.mem_cons_self)
    rw [List.filterMap_cons, id, List.map_cons, ← ih fun y hy => h y (List.mem_cons_of_mem _ hy)]

theorem SameRules.rules {t t' : FeeRulesText} (h : SameRules t t') {rules : FeeRules}
    (hr : t.rules = some rules) (hv : rules.Valid) :
    ∃ rules', t'.rules = some rules' ∧ rules'.Valid := by
  obtain ⟨hroles, hs, hpre⟩ := rules_eq_some.mp hr
  have hperm : (rules.roles.map some).Perm (t'.roles.map RoleText.role) := by
    rw [← hroles, ← map_role_canonical t.roles, ← map_role_canonical t'.roles]
    exact h.roles.map RoleText.role
  have hread : ∀ x ∈ t'.roles.map RoleText.role, x.isSome = true := by
    intro x hx
    obtain ⟨r, -, rfl⟩ := List.mem_map.mp (hperm.mem_iff.mpr hx)
    rfl
  have hroles' := eq_map_some hread
  have hp : rules.roles.Perm ((t'.roles.map RoleText.role).filterMap id) := by
    have hfm := hperm.filterMap id
    rw [List.filterMap_map] at hfm
    exact (List.filterMap_some ▸ hfm :)
  refine ⟨⟨t'.schema_v, t'.preset, _⟩, rules_eq_some.mpr ⟨hroles', rfl, rfl⟩, ?_⟩
  exact hv.perm (hs.trans h.schema_v) hp

theorem role_names {l : List RoleText} {l' : List Role} (h : l.map RoleText.role = l'.map some) :
    l.map RoleText.name = l'.map Role.name := by
  induction l generalizing l' with
  | nil =>
    rw [List.map_eq_nil_iff.mp h.symm]
    rfl
  | cons r l ih =>
    cases l' with
    | nil => cases h
    | cons r' l' =>
      rw [List.map_cons, List.map_cons] at h
      obtain ⟨hr, htail⟩ := List.cons.inj h
      rw [List.map_cons, List.map_cons, ih htail, role_name hr]

/-- The names of roles that pass are their own. -/
theorem names_nodup {t : FeeRulesText} {rules : FeeRules} (h : t.rules = some rules)
    (hv : rules.Valid) : ((t.roles.map RoleText.canonical).map RoleText.name).Nodup := by
  obtain ⟨hroles, -⟩ := rules_eq_some.mp h
  rw [List.map_map]
  show (t.roles.map RoleText.name).Nodup
  rw [role_names hroles]
  exact hv.names

theorem canonicalizeFeeRules_of_same {t t' : FeeRulesText} (h : SameRules t t') {s : String}
    (hs : canonicalizeFeeRules t = some s) : canonicalizeFeeRules t' = some s := by
  obtain ⟨rules, hr, hv, rfl⟩ := canonicalizeFeeRules_eq_some.mp hs
  obtain ⟨rules', hr', hv'⟩ := h.rules hr hv
  refine canonicalizeFeeRules_eq_some.mpr ⟨rules', hr', hv', ?_⟩
  have hsorted : t'.sorted = t.sorted :=
    (mergeSort_textLe_congr h.roles (names_nodup hr hv)).symm
  rw [hsorted, h.schema_v, h.preset]

/-- **Order and case do not show**: the same rules have one canonical form, or none of them
has one. -/
theorem canonicalizeFeeRules_congr {t t' : FeeRulesText} (h : SameRules t t') :
    canonicalizeFeeRules t = canonicalizeFeeRules t' :=
  Option.ext fun _ => ⟨canonicalizeFeeRules_of_same h, canonicalizeFeeRules_of_same h.symm⟩

/-- **The canonical form determines the split.** -/
theorem feeSplitText_congr {t t' : FeeRulesText} {s : String}
    (h : canonicalizeFeeRules t = some s) (h' : canonicalizeFeeRules t' = some s) (pool : Int)
    (winners : List Winner) (committeePks : List Bytes) :
    feeSplitText t pool winners committeePks = feeSplitText t' pool winners committeePks := by
  obtain ⟨rules, hr, hv, -⟩ := canonicalizeFeeRules_eq_some.mp h
  obtain ⟨rules', hr', hv', -⟩ := canonicalizeFeeRules_eq_some.mp h'
  have hsorted := sorted_congr (canonicalizeFeeRules_inj h h') hr hr'
  unfold feeSplitText
  rw [hr, hr']
  exact feeSplit_congr hv hv' hsorted pool winners committeePks

/-- **The split is the rules' own.**  Whatever the rules that pass, the pool, the winners and
the committee, the split pays out the whole pool, keeps the fees within what is not the
provider's and is the pari-mutuel payout over its own fee leaves; and what it does hangs on
nothing but the canonical form, which does not change with the order of the roles or with the
case of their addresses. -/
theorem feeSplit_lawful :
    (∀ (t : FeeRulesText) (rules : FeeRules) (pool : Int) (winners : List Winner)
      (committeePks : List Bytes), t.rules = some rules → rules.Valid →
      0 < totalWinStake winners →
      ((∃ r, feeSplitText t pool winners committeePks = some r) ↔ 0 < pool) ∧
      ∀ r, feeSplitText t pool winners committeePks = some r →
        sumAmounts r.payoutLeaves = pool ∧
        (∀ p ∈ rules.roles, p.name = "provider" →
          r.feeSompi ≤ pool * (10000 - p.bps) / 10000) ∧
        ∀ (bets : List Bet) (direction : Int), direction = 0 ∨ direction = 1 →
          winnersOf bets direction = winners.map (Winner.toBet direction) →
          ∃ pm, computePariMutuelPayout bets direction (some pool) 0 r.feeLeaves = some pm ∧
            SameResult r pm) ∧
    (∀ (t t' : FeeRulesText) (s : String), canonicalizeFeeRules t = some s →
      canonicalizeFeeRules t' = some s → ∀ pool winners committeePks,
        feeSplitText t pool winners committeePks = feeSplitText t' pool winners committeePks) ∧
    ∀ t t' : FeeRulesText, SameRules t t' →
      canonicalizeFeeRules t = canonicalizeFeeRules t' := by
  refine ⟨?_, fun t t' s h h' => feeSplitText_congr h h', fun t t' => canonicalizeFeeRules_congr⟩
  intro t rules pool winners committeePks hr hv htotal
  have htext : feeSplitText t pool winners committeePks =
      feeSplit rules pool winners committeePks := by
    unfold feeSplitText
    rw [hr]
    rfl
  rw [htext]
  refine ⟨feeSplit_isSome hv htotal.ne', ?_⟩
  intro r h
  refine ⟨feeSplit_sum htotal.ne' h, fun p => feeSplit_feeSompi_le htotal.ne' h, ?_⟩
  intro bets direction hdir hbets
  exact feeSplit_eq_computePariMutuelPayout hdir hbets htotal.ne' h

/-- The rules of the prediction preset with a broker and no introducer. -/
def writtenRules : FeeRulesText where
  schema_v := 1
  preset := some "prediction"
  roles :=
    [⟨"provider", 9700, none, none, false⟩,
     ⟨"broker", 160, some (String.ofList (List.replicate 64 'B')), none, false⟩,
     ⟨"introducer", 20, none, none, true⟩,
     ⟨"oracle", 100, none, some "committee", false⟩,
     ⟨"node", 20, none, some "committee", false⟩]

/-- The same rules, written down the other way round. -/
def shuffledRules : FeeRulesText where
  schema_v := 1
  preset := some "prediction"
  roles :=
    [⟨"node", 20, none, some "committee", false⟩,
     ⟨"oracle", 100, none, some "committee", false⟩,
     ⟨"introducer", 20, none, none, true⟩,
     ⟨"broker", 160, some (String.ofList (List.replicate 64 'b')), none, false⟩,
     ⟨"provider", 9700, none, none, false⟩]

def readRules : FeeRules where
  schema_v := 1
  preset := some "prediction"
  roles :=
    [⟨"provider", 9700, none, none, false⟩,
     ⟨"broker", 160, some (List.replicate 32 0xbb), none, false⟩,
     ⟨"introducer", 20, none, none, true⟩,
     ⟨"oracle", 100, none, some "committee", false⟩,
     ⟨"node", 20, none, some "committee", false⟩]

theorem toLower_replicate (n : Nat) (c : Char) :
    (String.ofList (List.replicate n c)).toLower = String.ofList (List.replicate n c.toLower) := by
  apply String.toList_inj.mp
  rw [toList_toLower, String.toList_ofList, String.toList_ofList, List.map_replicate]

theorem writtenRules_same : SameRules writtenRules shuffledRules where
  schema_v := rfl
  preset := rfl
  roles := by
    have hrev : shuffledRules.roles.map RoleText.canonical =
        (writtenRules.roles.map RoleText.canonical).reverse := by
      simp only [shuffledRules, writtenRules, List.map_cons, List.map_nil, RoleText.canonical,
        List.reverse_cons, List.reverse_nil, List.nil_append, List.cons_append, Option.map_some,
        Option.map_none, toLower_replicate]
      rfl
    rw [hrev]
    exact (List.reverse_perm _).symm

theorem feeSplit_lawful_writtenRules :
    (∃ r, feeSplitText writtenRules 1000003 [⟨[1], 7⟩, ⟨[2], 4⟩] [[9], [8]] = some r ∧
      sumAmounts r.payoutLeaves = 1000003 ∧
      r.feeSompi ≤ 1000003 * (10000 - 9700) / 10000 ∧
      ∃ pm, computePariMutuelPayout [⟨[1], 7, 0⟩, ⟨[3], 5, 1⟩, ⟨[2], 4, 0⟩] 0 (some 1000003) 0
        r.feeLeaves = some pm ∧ SameResult r pm) ∧
    canonicalizeFeeRules writtenRules = canonicalizeFeeRules shuffledRules ∧
    feeSplitText writtenRules 1000003 [⟨[1], 7⟩, ⟨[2], 4⟩] [[9], [8]] =
      feeSplitText shuffledRules 1000003 [⟨[1], 7⟩, ⟨[2], 4⟩] [[9], [8]] := by
  have hvalid : readRules.Valid := (validateFeeRules_eq_some (u := ())).mp (by decide)
  have hread : writtenRules.rules = some readRules :=
    rules_eq_some.mpr ⟨by decide +kernel, rfl, rfl⟩
  obtain ⟨hsplit, hcommit, hsame⟩ := feeSplit_lawful
  obtain ⟨hsome, hall⟩ := hsplit writtenRules readRules 1000003 [⟨[1], 7⟩, ⟨[2], 4⟩] [[9], [8]]
    hread hvalid (by decide)
  obtain ⟨r, hr⟩ := hsome.mpr (by decide)
  obtain ⟨hsum, hfee, hpm⟩ := hall r hr
  have hs := canonicalizeFeeRules_eq_some.mpr ⟨readRules, hread, hvalid, rfl⟩
  have hcanon := hsame writtenRules shuffledRules writtenRules_same
  refine ⟨⟨r, hr, hsum, ?_, ?_⟩, hcanon, ?_⟩
  · exact hfee ⟨"provider", 9700, none, none, false⟩ List.mem_cons_self rfl
  · exact hpm _ 0 (Or.inl rfl) (by decide)
  · exact hcommit _ _ _ hs (hcanon.symm.trans hs) _ _ _

end KANet.Payout
