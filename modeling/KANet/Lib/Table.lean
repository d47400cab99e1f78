import Mathlib.Data.List.Basic
import Mathlib.Data.List.Nodup

/-!
# Tables with a unique key

A table is a list of rows no two of which have the same key.  `get` selects by
key, `updateWhere` rewrites the rows that satisfy a condition without touching
their keys, `insert` refuses a key that is taken.

* `get_updateWhere`, `get_insert` — what is found under a key after each.
* `count_updateWhere_lt` — rewriting a row out of a condition, and none into it,
  lowers the number of rows that satisfy it.
-/

namespace KANet.Lib

universe u v

/-- A list of rows with a unique key. -/
structure Table {ρ : Type u} {κ : Type v} (key : ρ → κ) where
  rows : List ρ
  unique : (rows.map key).Nodup

namespace Table

variable {ρ : Type u} {κ : Type v} {key : ρ → κ}

def empty (key : ρ → κ) : Table key := ⟨[], List.nodup_nil⟩

section

variable [DecidableEq κ]

def get (t : Table key) (k : κ) : Option ρ := t.rows.find? fun r => key r = k

/-- `UPDATE … SET f WHERE p`, for an `f` that leaves the key alone. -/
def updateWhere (t : Table key) (p : ρ → Bool) (f : ρ → ρ) (h : ∀ r, key (f r) = key r) :
    Table key where
  rows := t.rows.map fun r => if p r then f r else r
  unique := by
    have hkey : (key ∘ fun r => if p r then f r else r) = key := by
      funext r
      by_cases hp : p r
      · simp [hp, h]
      · simp [hp]
    rw [List.map_map, hkey]
    exact t.unique

def insert (t : Table key) (r : ρ) : Option (Table key) :=
  if h : key r ∈ t.rows.map key then none
  else some
    { rows := t.rows ++ [r]
      unique := by
        rw [List.map_append, List.map_singleton]
        exact t.unique.append (List.nodup_singleton _) (by simpa using h) }

theorem key_of_get {t : Table key} {k : κ} {r : ρ} (h : t.get k = some r) : key r = k := by
  simpa using List.find?_some h

theorem mem_of_get {t : Table key} {k : κ} {r : ρ} (h : t.get k = some r) : r ∈ t.rows :=
  List.mem_of_find?_eq_some h

theorem get_of_mem {t : Table key} {r : ρ} (h : r ∈ t.rows) : t.get (key r) = some r := by
  obtain ⟨r', hr'⟩ := Option.isSome_iff_exists.mp
    (List.find?_isSome (p := fun s => key s = key r).mpr ⟨r, h, by simp⟩)
  have hkey : key r' = key r := by simpa using List.find?_some hr'
  have := List.inj_on_of_nodup_map t.unique (List.mem_of_find?_eq_some hr') h hkey
  rw [Table.get, hr', this]

omit [DecidableEq κ] in
/-- Rows that satisfy a condition and have one key are one row. -/
theorem filter_eq_singleton {t : Table key} {p : ρ → Bool} {r : ρ} (hr : r ∈ t.rows) (hp : p r)
    (h : ∀ s ∈ t.rows, p s → key s = key r) : t.rows.filter p = [r] := by
  have hnodup : t.rows.Nodup := t.unique.of_map
  have hmem : ∀ s, s ∈ t.rows.filter p ↔ s ∈ [r] := by
    intro s
    rw [List.mem_filter, List.mem_singleton]
    constructor
    · rintro ⟨hs, hps⟩
      exact List.inj_on_of_nodup_map t.unique hs hr (h s hs hps)
    · rintro rfl
      exact ⟨hr, hp⟩
  exact List.perm_singleton.mp
    ((List.perm_ext_iff_of_nodup (hnodup.filter _) (List.nodup_singleton r)).mpr hmem)

theorem get_updateWhere (t : Table key) (p : ρ → Bool) (f : ρ → ρ) (h : ∀ r, key (f r) = key r)
    (k : κ) : (t.updateWhere p f h).get k = (t.get k).map fun r => if p r then f r else r := by
  have hkey : ((fun r => decide (key r = k)) ∘ fun r => if p r then f r else r) =
      fun r => decide (key r = k) := by
    funext r
    by_cases hp : p r
    · simp [hp, h]
    · simp [hp]
  show (t.rows.map _).find? _ = _
  rw [List.find?_map, hkey]
  rfl

omit [DecidableEq κ] in
theorem updateWhere_eq_self (t : Table key) {p : ρ → Bool} {f : ρ → ρ} (h : ∀ r, key (f r) = key r)
    (hp : ∀ r ∈ t.rows, p r = false) : t.updateWhere p f h = t := by
  have hrows : (t.rows.map fun r => if p r then f r else r) = t.rows := by
    refine (List.map_congr_left fun r hr => ?_).trans t.rows.map_id
    rw [hp r hr]
    rfl
  unfold updateWhere
  congr

/-- An update under one key. -/
theorem get_updateWhere_key (t : Table key) {p : ρ → Bool} (f : ρ → ρ) (h : ∀ r, key (f r) = key r)
    {k : κ} (hp : ∀ r, p r = true → key r = k) (k' : κ) :
    (t.updateWhere p f h).get k' =
      if k' = k then (t.get k).map fun r => if p r then f r else r else t.get k' := by
  rw [get_updateWhere]
  split
  · next heq => rw [heq]
  · next hne =>
    cases hget : t.get k' with
    | none => rfl
    | some r =>
      have hpr : ¬ p r := fun hpr => hne ((key_of_get hget).symm.trans (hp r hpr))
      rw [Option.map_some, if_neg hpr]

theorem rows_of_insert {t t' : Table key} {r : ρ} (h : t.insert r = some t') :
    t'.rows = t.rows ++ [r] := by
  unfold Table.insert at h
  split at h
  · cases h
  · obtain rfl := Option.some.inj h
    rfl

theorem get_insert {t t' : Table key} {r : ρ} (h : t.insert r = some t') (k : κ) :
    t'.get k = if key r = k then some r else t.get k := by
  unfold Table.insert at h
  split at h
  · cases h
  · next hnew =>
    obtain rfl := Option.some.inj h
    show (t.rows ++ [r]).find? _ = _
    rw [List.find?_append]
    by_cases hk : key r = k
    · have : t.rows.find? (fun s => key s = k) = none := by
        rw [List.find?_eq_none]
        intro s hs
        have : key s ≠ key r := fun he => hnew (he ▸ List.mem_map_of_mem hs)
        simpa [hk] using this
      simp [this, hk]
    · simp [hk, Table.get]

/-- An insertion fails exactly when the key is taken. -/
theorem insert_eq_none {t : Table key} {r : ρ} : t.insert r = none ↔ (t.get (key r)).isSome := by
  have hmem : (t.get (key r)).isSome ↔ key r ∈ t.rows.map key := by
    rw [Option.isSome_iff_exists, List.mem_map]
    constructor
    · intro h
      obtain ⟨s, hs⟩ := h
      exact ⟨s, mem_of_get hs, key_of_get hs⟩
    · intro h
      obtain ⟨s, hs, hkey⟩ := h
      exact ⟨s, hkey ▸ get_of_mem hs⟩
  rw [hmem, Table.insert]
  by_cases h : key r ∈ t.rows.map key
  · simp [h]
  · simp [h]

theorem free_of_insert {t t' : Table key} {r : ρ} (h : t.insert r = some t') :
    t.get (key r) = none := by
  cases hget : t.get (key r) with
  | none => rfl
  | some s =>
    rw [insert_eq_none.mpr (by rw [hget]; rfl)] at h
    cases h

/-- `INSERT OR IGNORE`. -/
theorem get_insert_getD (t : Table key) (r : ρ) (k : κ) :
    ((t.insert r).getD t).get k = if key r = k then some ((t.get k).getD r) else t.get k := by
  cases hins : t.insert r with
  | none =>
    obtain ⟨r', hr'⟩ := Option.isSome_iff_exists.mp (insert_eq_none.mp hins)
    split
    · next hk =>
      rw [← hk, hr']
      exact hr'
    · rfl
  | some t' =>
    show t'.get k = _
    rw [get_insert hins]
    split
    · next hk => rw [← hk, free_of_insert hins, Option.getD_none]
    · rfl

/-- A row that an insertion leaves in place was there before, or is the new one. -/
theorem get_of_insert {t t' : Table key} {r s : ρ} {k : κ} (h : t.insert r = some t')
    (hs : t.get k = some s) : t'.get k = some s := by
  rw [get_insert h]
  split
  · next hk =>
    unfold Table.insert at h
    split at h
    · cases h
    · next hnew =>
      have := List.mem_map_of_mem (f := key) (mem_of_get hs)
      rw [key_of_get hs, ← hk] at this
      exact absurd this hnew
  · exact hs

end

/-- How many rows satisfy a condition. -/
def count (t : Table key) (p : ρ → Bool) : Nat := t.rows.countP p

theorem count_le_length (t : Table key) (p : ρ → Bool) : t.count p ≤ t.rows.length :=
  List.countP_le_length

theorem count_updateWhere_lt (t : Table key) {p q q' : ρ → Bool} {f : ρ → ρ}
    (h : ∀ r, key (f r) = key r) {r : ρ} (hr : r ∈ t.rows) (hp : p r) (hq : q r)
    (hf : ∀ s, p s → ¬ q' (f s)) (hmono : ∀ s ∈ t.rows, q' s → q s) :
    (t.updateWhere p f h).count q' < t.count q := by
  show ((t.rows.map _).countP q') < t.rows.countP q
  rw [List.countP_map]
  have himp : ∀ s ∈ t.rows, (q' ∘ fun r => if p r then f r else r) s → (q s && !p s) := by
    intro s hmem hs
    by_cases hps : p s
    · exact absurd (by simpa [hps] using hs) (hf s hps)
    · simp only [Function.comp, hps] at hs
      simp [hps, hmono s hmem hs]
  have hle := List.countP_mono_left himp
  have hsplit := List.countP_eq_countP_filter_add t.rows q p
  have hpos : 0 < (t.rows.filter p).countP q :=
    List.countP_pos_iff.mpr ⟨r, List.mem_filter.mpr ⟨hr, hp⟩, hq⟩
  have hrest : t.rows.countP (fun s => q s && !p s) =
      (t.rows.filter fun s => !p s).countP q := by
    rw [List.countP_filter]
  omega

end Table

end KANet.Lib
