import KANet.Lib.Merkle

/-!
# Hash trees filled up with one digest

A tree of fixed depth for any number of leaves: what is missing is a pad.  Since the
pads stand at the end, a level can be kept without them, a missing sibling being the
pad of that level (`joinPrefix`); `prefixRoot_eq` says that both ways of building the
tree end at one root.

`prefixRoot_inj` is binding for such trees.  The pairs it asks the hash to separate
are the few that the short way joins; when the two lists may differ in length, no leaf
may be the pad itself.
-/

namespace KANet.Lib.Merkle

universe u

variable {α : Type u} {node : α → α → α} {d z : α}

/-- The leaves, and the pad from there to the full width. -/
def pad (z : α) (n : Nat) (l : List α) : List α := l ++ List.replicate (2 ^ n - l.length) z

/-- The next level up, with `z` for a missing sibling. -/
def joinPrefix (node : α → α → α) (z : α) : List α → List α
  | a :: b :: l => node a b :: joinPrefix node z l
  | [a] => [node a z]
  | [] => []

/-- The root of the tree of depth `n`, the pads left out. -/
def prefixRoot (node : α → α → α) : Nat → α → List α → α
  | 0, z, l => l.headD z
  | n + 1, z, l => prefixRoot node n (node z z) (joinPrefix node z l)

theorem pad_length {n : Nat} {l : List α} (h : l.length ≤ 2 ^ n) :
    (pad z n l).length = 2 ^ n := by
  rw [pad, List.length_append, List.length_replicate]
  omega

theorem joinPairs_replicate (z : α) (k : Nat) :
    joinPairs node (List.replicate (2 * k) z) = List.replicate k (node z z) := by
  induction k with
  | zero => rfl
  | succ k ih =>
    have h : 2 * (k + 1) = 2 * k + 1 + 1 := by ring
    rw [h, List.replicate_succ, List.replicate_succ, joinPairs, ih, List.replicate_succ]

theorem joinPrefix_length (l : List α) : (joinPrefix node z l).length = (l.length + 1) / 2 := by
  induction l using joinPrefix.induct with
  | case1 a b l ih =>
    rw [joinPrefix, List.length_cons, ih, List.length_cons, List.length_cons]
    omega
  | case2 a => simp [joinPrefix]
  | case3 => simp [joinPrefix]

/-- A level of a padded tree is the padded level. -/
theorem joinPairs_append_replicate (l : List α) (k : Nat) (h : (l.length + k) % 2 = 0) :
    joinPairs node (l ++ List.replicate k z) =
      joinPrefix node z l ++ List.replicate (k / 2) (node z z) := by
  induction l using joinPrefix.induct with
  | case1 a b l ih =>
    rw [List.length_cons, List.length_cons] at h
    rw [joinPrefix, List.cons_append, List.cons_append, joinPairs, ih (by omega),
      List.cons_append]
  | case2 a =>
    rw [List.length_singleton] at h
    obtain ⟨j, rfl⟩ : ∃ j, k = 2 * j + 1 := ⟨k / 2, by omega⟩
    have hj : (2 * j + 1) / 2 = j := by omega
    rw [List.replicate_succ, joinPrefix, hj, List.singleton_append, joinPairs,
      joinPairs_replicate, List.singleton_append]
  | case3 =>
    rw [List.length_nil, Nat.zero_add] at h
    obtain ⟨j, rfl⟩ : ∃ j, k = 2 * j := ⟨k / 2, by omega⟩
    have hj : 2 * j / 2 = j := by omega
    rw [List.nil_append, joinPairs_replicate, hj, joinPrefix, List.nil_append]

theorem joinPairs_pad {n : Nat} {l : List α} (h : l.length ≤ 2 ^ (n + 1)) :
    joinPairs node (pad z (n + 1) l) = pad (node z z) n (joinPrefix node z l) := by
  have hpow : (2 : Nat) ^ (n + 1) = 2 * 2 ^ n := by ring
  have hk : (2 ^ (n + 1) - l.length) / 2 = 2 ^ n - (joinPrefix node z l).length := by
    rw [joinPrefix_length]
    omega
  rw [pad, joinPairs_append_replicate l _ (by omega), hk, pad]

/-- **The pads need not be built.** -/
theorem prefixRoot_eq {n : Nat} {l : List α} (h : l.length ≤ 2 ^ n) :
    prefixRoot node n z l = root node d n (pad z n l) := by
  induction n generalizing z l with
  | zero =>
    match l, h with
    | [], _ => rfl
    | [a], _ => rfl
    | a :: b :: l, h => simp at h
  | succ n ih =>
    have hlen : (joinPrefix node z l).length ≤ 2 ^ n := by
      have hpow : (2 : Nat) ^ (n + 1) = 2 * 2 ^ n := by ring
      rw [joinPrefix_length]
      omega
    rw [prefixRoot, root, joinPairs_pad h, ih hlen]

/-! ### Binding -/

/-- The pairs joined on one level. -/
def prefixPairs (z : α) : List α → List (α × α)
  | a :: b :: l => (a, b) :: prefixPairs z l
  | [a] => [(a, z)]
  | [] => []

/-- The pairs joined in building a tree the short way, and those of its pads. -/
def prefixJoins (node : α → α → α) : Nat → α → List α → List (α × α)
  | 0, _, _ => []
  | n + 1, z, l =>
    (z, z) :: (prefixPairs z l ++ prefixJoins node n (node z z) (joinPrefix node z l))

theorem pairs_replicate {k : Nat} {p : α × α} (hp : p ∈ pairs (List.replicate k z)) :
    p = (z, z) := by
  induction k using Nat.strong_induction_on with
  | _ k ih =>
    match k with
    | 0 => simp [pairs] at hp
    | 1 => simp [pairs] at hp
    | k + 2 =>
      rw [List.replicate_succ, List.replicate_succ, pairs] at hp
      rcases List.mem_cons.mp hp with rfl | hp
      · rfl
      · exact ih k (by omega) hp

theorem pairs_append_replicate {l : List α} {k : Nat} {p : α × α}
    (hp : p ∈ pairs (l ++ List.replicate k z)) : p = (z, z) ∨ p ∈ prefixPairs z l := by
  induction l using prefixPairs.induct with
  | case1 a b l ih =>
    rw [List.cons_append, List.cons_append, pairs] at hp
    rcases List.mem_cons.mp hp with rfl | hp
    · exact Or.inr List.mem_cons_self
    · exact (ih hp).imp_right (List.mem_cons_of_mem _)
  | case2 a =>
    cases k with
    | zero => simp [pairs] at hp
    | succ k =>
      rw [List.replicate_succ, List.singleton_append, pairs] at hp
      rcases List.mem_cons.mp hp with rfl | hp
      · exact Or.inr List.mem_cons_self
      · exact Or.inl (pairs_replicate hp)
  | case3 => exact Or.inl (pairs_replicate hp)

theorem joins_pad {n : Nat} {l : List α} (h : l.length ≤ 2 ^ n) {p : α × α}
    (hp : p ∈ joins node n (pad z n l)) : p ∈ prefixJoins node n z l := by
  induction n generalizing z l with
  | zero => cases hp
  | succ n ih =>
    have hlen : (joinPrefix node z l).length ≤ 2 ^ n := by
      have hpow : (2 : Nat) ^ (n + 1) = 2 * 2 ^ n := by ring
      rw [joinPrefix_length]
      omega
    rw [joins, joinPairs_pad h] at hp
    rw [prefixJoins, List.mem_cons, List.mem_append]
    rcases List.mem_append.mp hp with hp | hp
    · exact (pairs_append_replicate hp).imp_right Or.inl
    · exact Or.inr (Or.inr (ih hlen hp))

/-- A padded list says where its leaves end, when no leaf is the pad. -/
theorem pad_inj {n : Nat} {l l' : List α}
    (hlen : l.length = l'.length ∨ (z ∉ l ∧ z ∉ l')) (h : pad z n l = pad z n l') :
    l = l' := by
  rcases hlen with hlen | ⟨hz, hz'⟩
  · exact (List.append_inj h hlen).1
  · have hfilter : ∀ {l : List α}, z ∉ l →
        (pad z n l).takeWhile (fun x => @decide (x ≠ z) (Classical.dec _)) = l := by
      intro l hl
      rw [pad, List.takeWhile_append_of_pos]
      · cases 2 ^ n - l.length <;> simp [List.replicate_succ]
      · intro x hx
        simp only [decide_eq_true_eq]
        rintro rfl
        exact hl hx
    rw [← hfilter hz, h, hfilter hz']

/-- **Binding for padded trees.** -/
theorem prefixRoot_inj {S : Set (α × α)} (hS : S.InjOn fun p => node p.1 p.2) {n : Nat}
    {l l' : List α} (hl : ∀ p ∈ prefixJoins node n z l, p ∈ S)
    (hl' : ∀ p ∈ prefixJoins node n z l', p ∈ S) (hn : l.length ≤ 2 ^ n)
    (hn' : l'.length ≤ 2 ^ n) (hlen : l.length = l'.length ∨ (z ∉ l ∧ z ∉ l'))
    (h : prefixRoot node n z l = prefixRoot node n z l') : l = l' := by
  rw [prefixRoot_eq (d := z) hn, prefixRoot_eq (d := z) hn'] at h
  exact pad_inj hlen (root_inj hS (fun p hp => hl p (joins_pad hn hp))
    (fun p hp => hl' p (joins_pad hn' hp)) (pad_length hn) (pad_length hn') h)

end KANet.Lib.Merkle
