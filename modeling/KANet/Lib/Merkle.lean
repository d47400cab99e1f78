import Mathlib.Data.List.Basic
import Mathlib.Data.Nat.Bitwise
import Mathlib.Data.Set.Function
import Mathlib.Tactic.Ring

/-!
# Binary hash trees

Trees over any type of digests and any `node` that joins two of them.  A tree of
depth `n` is a list of `2 ^ n` leaves, halved level by level; a path is climbed from
a leaf, the parity of the position saying on which side the sibling stands.

* `climb_path` — **completeness**: from any leaf, its path climbs to the root.
* `eq_of_climb_eq_root` — **soundness**: whatever climbs to the root from a position
  is the leaf there.
* `root_inj` — **binding**: two trees with one root have the same leaves.
* `eq_node_of_short_climb` — **depth**: what climbs to the root in fewer levels is no leaf.

Nothing here assumes that `node` is injective.  The last three ask it only of the
pairs that the computations at hand really join (`joins`, `steps`), which is what a
hash without a known collision can be asked for.
-/

namespace KANet.Lib.Merkle

universe u

variable {α : Type u}

/-! ### Trees and paths -/

/-- The next level up. -/
def joinPairs (node : α → α → α) : List α → List α
  | a :: b :: l => node a b :: joinPairs node l
  | _ => []

/-- The root of a tree of the given depth. -/
def root (node : α → α → α) (d : α) : Nat → List α → α
  | 0, l => l.headD d
  | n + 1, l => root node d n (joinPairs node l)

/-- The siblings of position `k`, from the leaves up. -/
def path (node : α → α → α) (d : α) : Nat → List α → Nat → List α
  | 0, _, _ => []
  | n + 1, l, k => l.getD (k ^^^ 1) d :: path node d n (joinPairs node l) (k / 2)

/-- The digest reached from `cur` at position `k` by joining the siblings one level after
another. -/
def climb (node : α → α → α) : Nat → α → List α → α
  | _, cur, [] => cur
  | k, cur, s :: ss => climb node (k / 2) (if k % 2 = 0 then node cur s else node s cur) ss

variable {node : α → α → α} {d : α}

theorem joinPairs_length (l : List α) : (joinPairs node l).length = l.length / 2 := by
  induction l using joinPairs.induct with
  | case1 a b l ih =>
    rw [joinPairs, List.length_cons, ih, List.length_cons, List.length_cons]
    omega
  | case2 l h =>
    match l, h with
    | [], _ => simp [joinPairs]
    | [a], _ => simp [joinPairs]
    | a :: b :: l, h => exact absurd rfl (h a b l)

theorem joinPairs_length_pow {n : Nat} {l : List α} (h : l.length = 2 ^ (n + 1)) :
    (joinPairs node l).length = 2 ^ n := by
  rw [joinPairs_length, h, pow_succ]
  omega

theorem joinPairs_getD (l : List α) (i : Nat) (h : 2 * i + 1 < l.length) :
    (joinPairs node l).getD i d = node (l.getD (2 * i) d) (l.getD (2 * i + 1) d) := by
  induction l using joinPairs.induct generalizing i with
  | case1 a b l ih =>
    cases i with
    | zero => rfl
    | succ i =>
      have hi : 2 * i + 1 < l.length := by
        simp only [List.length_cons] at h
        omega
      have h₁ : 2 * (i + 1) = 2 * i + 1 + 1 := by ring
      rw [joinPairs, List.getD_cons_succ, ih i hi, h₁, List.getD_cons_succ, List.getD_cons_succ,
        List.getD_cons_succ, List.getD_cons_succ]
  | case2 l h' =>
    match l, h' with
    | [], _ => simp at h
    | [a], _ => simp at h
    | a :: b :: l, h' => exact absurd rfl (h' a b l)

theorem path_length (n : Nat) (l : List α) (k : Nat) : (path node d n l k).length = n := by
  induction n generalizing l k with
  | zero => rfl
  | succ n ih => rw [path, List.length_cons, ih]

theorem xor_one_of_even {k : Nat} (h : k % 2 = 0) : k ^^^ 1 = k + 1 := by
  rw [Nat.xor_one_of_even (Nat.even_iff.mpr h)]

theorem xor_one_of_odd {k : Nat} (h : ¬ k % 2 = 0) : k ^^^ 1 = k - 1 := by
  rw [Nat.xor_one_of_odd (Nat.odd_iff.mpr (by omega))]

/-- One level up, a position holds the join of itself and its sibling. -/
theorem joinPairs_half (l : List α) (k : Nat) (hl : l.length % 2 = 0) (hk : k < l.length) :
    (joinPairs node l).getD (k / 2) d =
      if k % 2 = 0 then node (l.getD k d) (l.getD (k ^^^ 1) d)
      else node (l.getD (k ^^^ 1) d) (l.getD k d) := by
  rw [joinPairs_getD l (k / 2) (by omega)]
  by_cases h : k % 2 = 0
  · have h₀ : 2 * (k / 2) = k := by omega
    rw [if_pos h, xor_one_of_even h, h₀]
  · have h₀ : 2 * (k / 2) = k - 1 := by omega
    have h₁ : 2 * (k / 2) + 1 = k := by omega
    rw [if_neg h, xor_one_of_odd h, h₁, h₀]

/-- **Completeness.**  The path of a leaf climbs to the root. -/
theorem climb_path {n : Nat} {l : List α} {k : Nat} (hl : l.length = 2 ^ n) (hk : k < 2 ^ n) :
    climb node k (l.getD k d) (path node d n l k) = root node d n l := by
  induction n generalizing l k with
  | zero =>
    have : k = 0 := by
      rw [pow_zero] at hk
      omega
    subst this
    cases l <;> rfl
  | succ n ih =>
    have hpow : (2 : Nat) ^ (n + 1) = 2 * 2 ^ n := by ring
    have hhalf : k / 2 < 2 ^ n := by omega
    have heven : l.length % 2 = 0 := by omega
    rw [path, climb, root, ← ih (joinPairs_length_pow hl) hhalf,
      joinPairs_half l k heven (by omega)]

/-! ### Binding -/

/-- The pairs joined on one level. -/
def pairs : List α → List (α × α)
  | a :: b :: l => (a, b) :: pairs l
  | _ => []

/-- The pairs joined in building a tree. -/
def joins (node : α → α → α) : Nat → List α → List (α × α)
  | 0, _ => []
  | n + 1, l => pairs l ++ joins node n (joinPairs node l)

/-- The pairs joined in climbing a path. -/
def steps (node : α → α → α) : Nat → α → List α → List (α × α)
  | _, _, [] => []
  | k, cur, s :: ss =>
    (if k % 2 = 0 then (cur, s) else (s, cur)) ::
      steps node (k / 2) (if k % 2 = 0 then node cur s else node s cur) ss

theorem pairs_mem (l : List α) (i : Nat) (h : 2 * i + 1 < l.length) :
    (l.getD (2 * i) d, l.getD (2 * i + 1) d) ∈ pairs l := by
  induction l using pairs.induct generalizing i with
  | case1 a b l ih =>
    cases i with
    | zero => exact List.mem_cons_self
    | succ i =>
      have hi : 2 * i + 1 < l.length := by
        simp only [List.length_cons] at h
        omega
      exact List.mem_cons_of_mem _ (ih i hi)
  | case2 l h' =>
    match l, h' with
    | [], _ => simp at h
    | [a], _ => simp at h
    | a :: b :: l, h' => exact absurd rfl (h' a b l)

theorem joinPairs_inj {S : Set (α × α)} (hS : S.InjOn fun p => node p.1 p.2) {l l' : List α}
    (hl : ∀ p ∈ pairs l, p ∈ S) (hl' : ∀ p ∈ pairs l', p ∈ S) (hlen : l.length = l'.length)
    (heven : l.length % 2 = 0) (h : joinPairs node l = joinPairs node l') : l = l' := by
  induction l using pairs.induct generalizing l' with
  | case1 a b l ih =>
    match l', hlen with
    | a' :: b' :: l', hlen =>
      rw [joinPairs, joinPairs] at h
      obtain ⟨h₀, h₁⟩ := List.cons.inj h
      have hp : (a, b) = (a', b') :=
        hS (hl _ List.mem_cons_self) (hl' _ List.mem_cons_self) h₀
      obtain ⟨rfl, rfl⟩ := Prod.mk.inj hp
      simp only [List.length_cons] at hlen heven
      rw [ih (fun p hp => hl p (List.mem_cons_of_mem _ hp))
        (fun p hp => hl' p (List.mem_cons_of_mem _ hp)) (by omega) (by omega) h₁]
  | case2 l h' =>
    match l, h' with
    | [], _ => exact (List.length_eq_zero_iff.mp hlen.symm).symm
    | [a], _ => simp at heven
    | a :: b :: l, h' => exact absurd rfl (h' a b l)

/-- **Binding.**  Two trees of one depth and one root are the same tree. -/
theorem root_inj {S : Set (α × α)} (hS : S.InjOn fun p => node p.1 p.2) {n : Nat}
    {l l' : List α} (hl : ∀ p ∈ joins node n l, p ∈ S) (hl' : ∀ p ∈ joins node n l', p ∈ S)
    (hlen : l.length = 2 ^ n) (hlen' : l'.length = 2 ^ n)
    (h : root node d n l = root node d n l') : l = l' := by
  induction n generalizing l l' with
  | zero =>
    obtain ⟨a, rfl⟩ := List.length_eq_one_iff.mp (hlen.trans (pow_zero 2))
    obtain ⟨b, rfl⟩ := List.length_eq_one_iff.mp (hlen'.trans (pow_zero 2))
    exact congrArg (fun x => [x]) h
  | succ n ih =>
    have hjoin := ih (fun p hp => hl p (List.mem_append_right _ hp))
      (fun p hp => hl' p (List.mem_append_right _ hp)) (joinPairs_length_pow hlen)
      (joinPairs_length_pow hlen') h
    have heven : l.length % 2 = 0 := by
      rw [hlen, pow_succ]
      omega
    exact joinPairs_inj hS (fun p hp => hl p (List.mem_append_left _ hp))
      (fun p hp => hl' p (List.mem_append_left _ hp)) (hlen.trans hlen'.symm) heven hjoin

/-- **Soundness.**  A digest that climbs to the root from position `k` is the leaf at `k`. -/
theorem eq_of_climb_eq_root {S : Set (α × α)} (hS : S.InjOn fun p => node p.1 p.2) {n : Nat}
    {l : List α} {k : Nat} {x : α} {ss : List α} (hl : ∀ p ∈ joins node n l, p ∈ S)
    (hx : ∀ p ∈ steps node k x ss, p ∈ S) (hlen : l.length = 2 ^ n) (hk : k < 2 ^ n)
    (hss : ss.length = n) (h : climb node k x ss = root node d n l) : x = l.getD k d := by
  induction n generalizing l k x ss with
  | zero =>
    obtain rfl := List.length_eq_zero_iff.mp hss
    obtain ⟨a, rfl⟩ := List.length_eq_one_iff.mp (hlen.trans (pow_zero 2))
    have : k = 0 := by
      rw [pow_zero] at hk
      omega
    subst this
    exact h
  | succ n ih =>
    match ss, hss with
    | s :: ss, hss =>
      have hpow : (2 : Nat) ^ (n + 1) = 2 * 2 ^ n := by ring
      have heven : l.length % 2 = 0 := by omega
      have hup := ih (fun p hp => hl p (List.mem_append_right _ hp))
        (fun p hp => hx p (List.mem_cons_of_mem _ hp)) (joinPairs_length_pow hlen)
        (by omega) (by simpa using hss) h
      rw [joinPairs_half l k heven (by omega)] at hup
      have hmem := pairs_mem (d := d) l (k / 2) (by omega)
      have htop := hx _ List.mem_cons_self
      by_cases hp : k % 2 = 0
      · have h₀ : 2 * (k / 2) = k := by omega
        rw [if_pos hp, if_pos hp, xor_one_of_even hp] at hup
        rw [if_pos hp] at htop
        rw [h₀] at hmem
        exact (Prod.mk.inj (hS htop (hl _ (List.mem_append_left _ hmem)) hup)).1
      · have h₀ : 2 * (k / 2) = k - 1 := by omega
        have h₁ : 2 * (k / 2) + 1 = k := by omega
        rw [if_neg hp, if_neg hp, xor_one_of_odd hp] at hup
        rw [if_neg hp] at htop
        rw [h₁, h₀] at hmem
        exact (Prod.mk.inj (hS htop (hl _ (List.mem_append_left _ hmem)) hup)).2

/-! ### Climbing too few levels -/

/-- What climbing a part of a path joins, the tree joins as well. -/
theorem steps_take_path {n m : Nat} {l : List α} {k : Nat} (hl : l.length = 2 ^ n) (hk : k < 2 ^ n)
    {p : α × α} (hp : p ∈ steps node k (l.getD k d) ((path node d n l k).take m)) :
    p ∈ joins node n l := by
  induction n generalizing l k m with
  | zero => simp [path, steps] at hp
  | succ n ih =>
    have hpow : (2 : Nat) ^ (n + 1) = 2 * 2 ^ n := by ring
    have heven : l.length % 2 = 0 := by omega
    cases m with
    | zero => simp [steps] at hp
    | succ m =>
      rw [path, List.take_succ_cons, steps, List.mem_cons] at hp
      rw [joins, List.mem_append]
      rcases hp with rfl | hp
      · left
        have hmem := pairs_mem (d := d) l (k / 2) (by omega)
        by_cases h : k % 2 = 0
        · have h₀ : 2 * (k / 2) = k := by omega
          rw [h₀] at hmem
          rwa [if_pos h, xor_one_of_even h]
        · have h₀ : 2 * (k / 2) = k - 1 := by omega
          have h₁ : 2 * (k / 2) + 1 = k := by omega
          rw [h₁, h₀] at hmem
          rwa [if_neg h, xor_one_of_odd h]
      · right
        rw [← joinPairs_half l k heven (by omega)] at hp
        exact ih (joinPairs_length_pow hl) (by omega) hp

/-- **Depth.**  What climbs to the root of a deeper tree is no leaf of it but a join. -/
theorem eq_node_of_short_climb {S : Set (α × α)} (hS : S.InjOn fun p => node p.1 p.2)
    {m j : Nat} {l : List α} {k : Nat} {x : α} {ss : List α}
    (hl : ∀ p ∈ joins node (m + (j + 1)) l, p ∈ S) (hx : ∀ p ∈ steps node k x ss, p ∈ S)
    (hlen : l.length = 2 ^ (m + (j + 1))) (hk : k < 2 ^ m) (hss : ss.length = m)
    (h : climb node k x ss = root node d (m + (j + 1)) l) :
    ∃ p ∈ joins node (m + (j + 1)) l, x = node p.1 p.2 := by
  induction j generalizing l with
  | zero =>
    have hup := eq_of_climb_eq_root hS (fun p hp => hl p (List.mem_append_right _ hp)) hx
      (joinPairs_length_pow hlen) hk hss h
    have hpow : (2 : Nat) ^ (m + (0 + 1)) = 2 * 2 ^ m := by ring
    rw [joinPairs_getD l k (by omega)] at hup
    exact ⟨_, List.mem_append_left _ (pairs_mem l k (by omega)), hup⟩
  | succ j ih =>
    obtain ⟨p, hp, hxp⟩ := ih (fun p hp => hl p (List.mem_append_right _ hp))
      (joinPairs_length_pow hlen) h
    exact ⟨p, List.mem_append_right _ hp, hxp⟩

end KANet.Lib.Merkle
