import Mathlib.Data.List.Nodup
import Mathlib.Data.List.Perm.Subperm

/-!
# Maps that keep the order of insertion

A map is the list of its entries, no two under the same key.  `set` puts a new entry at the end and
leaves an old one where it is.

* `get_set`, `get_erase`, `get_filter` — what is found after each.
* `mem_keys_setAll`, `mem_keys_eraseAll` — the keys after several at once.
* `keys_full` — a map whose keys are among those of a list no longer than itself has them all.
-/

namespace KANet.Lib

universe u v

structure OrderedMap (κ : Type u) (ν : Type v) where
  entries : List (κ × ν)
  nodup : (entries.map Prod.fst).Nodup

namespace OrderedMap

variable {κ : Type u} {ν : Type v}

def empty : OrderedMap κ ν := ⟨[], List.nodup_nil⟩

def keys (m : OrderedMap κ ν) : List κ := m.entries.map Prod.fst

def size (m : OrderedMap κ ν) : Nat := m.entries.length

def filter (m : OrderedMap κ ν) (p : κ × ν → Bool) : OrderedMap κ ν where
  entries := m.entries.filter p
  nodup := m.nodup.sublist (List.filter_sublist.map _)

theorem filter_eq_self {m : OrderedMap κ ν} {p : κ × ν → Bool}
    (h : ∀ k v, (k, v) ∈ m.entries → p (k, v)) : m.filter p = m := by
  obtain ⟨entries, nodup⟩ := m
  unfold filter
  congr 1
  exact List.filter_eq_self.mpr fun e he => h e.1 e.2 he

variable [DecidableEq κ]

def get (m : OrderedMap κ ν) (k : κ) : Option ν :=
  (m.entries.find? fun e => e.1 = k).map Prod.snd

def set (m : OrderedMap κ ν) (k : κ) (v : ν) : OrderedMap κ ν :=
  if h : k ∈ m.entries.map Prod.fst then
    { entries := m.entries.map fun e => if e.1 = k then (k, v) else e
      nodup := by
        have hkey : (Prod.fst ∘ fun e : κ × ν => if e.1 = k then (k, v) else e) = Prod.fst := by
          funext e
          by_cases he : e.1 = k
          · simp [he]
          · simp [he]
        rw [List.map_map, hkey]
        exact m.nodup }
  else
    { entries := m.entries ++ [(k, v)]
      nodup := by
        rw [List.map_append, List.map_singleton]
        refine m.nodup.append (List.nodup_singleton _) ?_
        intro k' hk hk'
        rw [List.mem_singleton.mp hk'] at hk
        exact h hk }

def erase (m : OrderedMap κ ν) (k : κ) : OrderedMap κ ν := m.filter fun e => e.1 ≠ k

theorem mem_of_get {m : OrderedMap κ ν} {k : κ} {v : ν} (h : m.get k = some v) :
    (k, v) ∈ m.entries := by
  obtain ⟨e, he, rfl⟩ := Option.map_eq_some_iff.mp h
  have hkey : e.1 = k := by simpa using List.find?_some he
  rw [← hkey]
  exact List.mem_of_find?_eq_some he

theorem get_of_mem {m : OrderedMap κ ν} {k : κ} {v : ν} (h : (k, v) ∈ m.entries) :
    m.get k = some v := by
  obtain ⟨e, he⟩ := Option.isSome_iff_exists.mp
    ((List.find?_isSome (p := fun e : κ × ν => e.1 = k)).mpr ⟨_, h, by simp⟩)
  have hkey : e.1 = k := by simpa using List.find?_some he
  have := List.inj_on_of_nodup_map m.nodup (List.mem_of_find?_eq_some he) h hkey
  rw [get, he, this]
  rfl

theorem get_eq_some {m : OrderedMap κ ν} {k : κ} {v : ν} :
    m.get k = some v ↔ (k, v) ∈ m.entries := ⟨mem_of_get, get_of_mem⟩

theorem get_isSome {m : OrderedMap κ ν} {k : κ} : (m.get k).isSome ↔ k ∈ m.keys := by
  rw [Option.isSome_iff_exists, keys, List.mem_map]
  constructor
  · intro h
    obtain ⟨v, hv⟩ := h
    exact ⟨_, mem_of_get hv, rfl⟩
  · intro h
    obtain ⟨⟨k', v⟩, hmem, rfl⟩ := h
    exact ⟨v, get_of_mem hmem⟩

@[simp] theorem get_empty (k : κ) : (empty : OrderedMap κ ν).get k = none := rfl

theorem mem_set {m : OrderedMap κ ν} {k k' : κ} {v v' : ν} :
    (k', v') ∈ (m.set k v).entries ↔ (k' = k ∧ v' = v) ∨ (k' ≠ k ∧ (k', v') ∈ m.entries) := by
  unfold set
  split
  · next hk =>
    obtain ⟨⟨k₀, v₀⟩, hmem, rfl⟩ := List.mem_map.mp hk
    constructor
    · intro h
      obtain ⟨e, he, heq⟩ := List.mem_map.mp h
      split at heq
      · cases heq
        exact Or.inl ⟨rfl, rfl⟩
      · next hne =>
        subst heq
        exact Or.inr ⟨hne, he⟩
    · intro h
      rcases h with ⟨rfl, rfl⟩ | ⟨hne, he⟩
      · exact List.mem_map.mpr ⟨_, hmem, by simp⟩
      · exact List.mem_map.mpr ⟨_, he, by simp [hne]⟩
  · next hk =>
    rw [List.mem_append, List.mem_singleton, Prod.mk.injEq]
    constructor
    · intro h
      rcases h with he | ⟨rfl, rfl⟩
      · exact Or.inr ⟨fun h => hk (h ▸ List.mem_map_of_mem he), he⟩
      · exact Or.inl ⟨rfl, rfl⟩
    · intro h
      rcases h with ⟨rfl, rfl⟩ | ⟨-, he⟩
      · exact Or.inr ⟨rfl, rfl⟩
      · exact Or.inl he

theorem get_set (m : OrderedMap κ ν) (k k' : κ) (v : ν) :
    (m.set k v).get k' = if k' = k then some v else m.get k' := by
  refine Option.ext fun v' => ?_
  rw [get_eq_some, mem_set]
  by_cases h : k' = k
  · simp [h, eq_comm]
  · simp [h, get_eq_some]

theorem get_filter {m : OrderedMap κ ν} {p : κ × ν → Bool} {k : κ} {v : ν} :
    (m.filter p).get k = some v ↔ m.get k = some v ∧ p (k, v) := by
  rw [get_eq_some, get_eq_some]
  exact List.mem_filter

theorem get_erase (m : OrderedMap κ ν) (k k' : κ) :
    (m.erase k).get k' = if k' = k then none else m.get k' := by
  refine Option.ext fun v => ?_
  rw [erase, get_filter]
  by_cases h : k' = k
  · simp [h]
  · simp [h]

theorem mem_keys_set {m : OrderedMap κ ν} {k k' : κ} {v : ν} :
    k' ∈ (m.set k v).keys ↔ k' = k ∨ k' ∈ m.keys := by
  rw [← get_isSome, get_set, ← get_isSome]
  by_cases h : k' = k
  · simp [h]
  · simp [h]

/-! ### Several keys at once -/

def setAll (m : OrderedMap κ ν) (es : List (κ × ν)) : OrderedMap κ ν :=
  es.foldl (fun m e => m.set e.1 e.2) m

def eraseAll (m : OrderedMap κ ν) (ks : List κ) : OrderedMap κ ν := m.filter fun e => e.1 ∉ ks

theorem mem_keys_setAll {es : List (κ × ν)} {m : OrderedMap κ ν} {k : κ} :
    k ∈ (m.setAll es).keys ↔ k ∈ es.map Prod.fst ∨ k ∈ m.keys := by
  induction es generalizing m with
  | nil => simp [setAll]
  | cons e es ih =>
    rw [setAll, List.foldl_cons, ← setAll, ih, mem_keys_set, List.map_cons, List.mem_cons]
    tauto

theorem get_setAll_of_notMem {es : List (κ × ν)} {m : OrderedMap κ ν} {k : κ}
    (h : k ∉ es.map Prod.fst) : (m.setAll es).get k = m.get k := by
  induction es generalizing m with
  | nil => rfl
  | cons e es ih =>
    rw [List.map_cons, List.mem_cons, not_or] at h
    rw [setAll, List.foldl_cons, ← setAll, ih h.2, get_set, if_neg h.1]

theorem get_eraseAll {m : OrderedMap κ ν} {ks : List κ} {k : κ} (h : k ∉ ks) :
    (m.eraseAll ks).get k = m.get k := by
  refine Option.ext fun v => ?_
  rw [eraseAll, get_filter]
  simp [h]

theorem mem_keys_eraseAll {m : OrderedMap κ ν} {ks : List κ} {k : κ} (h : k ∉ ks) :
    k ∈ (m.eraseAll ks).keys ↔ k ∈ m.keys := by
  rw [← get_isSome, get_eraseAll h, get_isSome]

omit [DecidableEq κ] in
theorem size_le_of_keys {m : OrderedMap κ ν} {l : List κ} (h : ∀ k ∈ m.keys, k ∈ l) :
    m.size ≤ l.length := by
  have : m.keys.length ≤ l.length := (m.nodup.subperm h).length_le
  rwa [keys, List.length_map] at this

omit [DecidableEq κ] in
/-- **A full map has every key.** -/
theorem keys_full {m : OrderedMap κ ν} {l : List κ} (h : ∀ k ∈ m.keys, k ∈ l)
    (hsize : l.length ≤ m.size) {k : κ} (hk : k ∈ l) : k ∈ m.keys := by
  have hperm := (m.nodup.subperm h).perm_of_length_le (by rwa [List.length_map])
  exact hperm.symm.subset hk

end OrderedMap

end KANet.Lib
