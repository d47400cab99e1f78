import Mathlib.Data.List.Basic
import Mathlib.Data.List.Nodup

/-!
# Unspent coins

A ledger is the coins that are not spent, each under the outpoint it was made at.  A transaction
spends some outpoints and makes a coin at an outpoint that was never used.  So an outpoint names at
most one coin, and what has been spent does not come back.

* `mem_post` — the coins after a transaction.
* `find_eq_some` — the coin under an outpoint.
-/

namespace KANet.Lib

universe u

/-- Where a coin was made. -/
structure Outpoint where
  transactionId : Nat
  index : Nat
deriving DecidableEq

structure Unspent (ω : Type u) where
  outpoint : Outpoint
  coin : ω

/-- The unspent coins, and the id that the next transaction will have. -/
structure Ledger (ω : Type u) where
  unspent : List (Unspent ω)
  next : Nat
  unique : (unspent.map Unspent.outpoint).Nodup
  fresh : ∀ u ∈ unspent, u.outpoint.transactionId < next

namespace Ledger

variable {ω : Type u}

/-- The outpoint of the coin that the next transaction makes. -/
def nextOutpoint (l : Ledger ω) : Outpoint := ⟨l.next, 0⟩

/-- A transaction that spends some outpoints and makes a coin. -/
def post (l : Ledger ω) (spent : List Outpoint) (coin : ω) : Ledger ω where
  unspent := ⟨l.nextOutpoint, coin⟩ :: l.unspent.filter fun u => u.outpoint ∉ spent
  next := l.next + 1
  unique := by
    rw [List.map_cons, List.nodup_cons]
    refine ⟨?_, ?_⟩
    · intro hmem
      obtain ⟨u, hu, he⟩ := List.mem_map.mp hmem
      have hlt := l.fresh u (List.mem_filter.mp hu).1
      rw [he] at hlt
      exact absurd hlt (Nat.lt_irrefl _)
    · exact (l.unique.sublist (List.filter_sublist.map _))
  fresh := by
    intro u hu
    rcases List.mem_cons.mp hu with rfl | hu
    · exact Nat.lt_succ_self _
    · exact Nat.lt_succ_of_lt (l.fresh u (List.mem_filter.mp hu).1)

/-- A transaction of somebody else. -/
def receive (l : Ledger ω) (coin : ω) : Ledger ω := l.post [] coin

theorem mem_post {l : Ledger ω} {spent : List Outpoint} {coin : ω} {u : Unspent ω} :
    u ∈ (l.post spent coin).unspent ↔
      u = ⟨l.nextOutpoint, coin⟩ ∨ (u ∈ l.unspent ∧ u.outpoint ∉ spent) := by
  show u ∈ _ :: _ ↔ _
  rw [List.mem_cons, List.mem_filter, decide_eq_true_eq]

theorem mem_receive {l : Ledger ω} {coin : ω} {u : Unspent ω} :
    u ∈ (l.receive coin).unspent ↔ u = ⟨l.nextOutpoint, coin⟩ ∨ u ∈ l.unspent := by
  rw [receive, mem_post]
  exact or_congr_right (and_iff_left List.not_mem_nil)

/-- An outpoint names one coin. -/
theorem eq_of_outpoint {l : Ledger ω} {u v : Unspent ω} (hu : u ∈ l.unspent) (hv : v ∈ l.unspent)
    (h : u.outpoint = v.outpoint) : u = v :=
  List.inj_on_of_nodup_map l.unique hu hv h

/-- The coins that satisfy a condition, and the one among them under an outpoint. -/
def find (l : Ledger ω) (p : ω → Bool) (o : Outpoint) : Option (Unspent ω) :=
  (l.unspent.filter fun u => p u.coin).find? fun u => u.outpoint = o

theorem find_eq_some {l : Ledger ω} {p : ω → Bool} {o : Outpoint} {u : Unspent ω} :
    l.find p o = some u ↔ u ∈ l.unspent ∧ p u.coin = true ∧ u.outpoint = o := by
  constructor
  · intro h
    have hmem := List.mem_filter.mp (List.mem_of_find?_eq_some h)
    have ho := List.find?_some h
    exact ⟨hmem.1, hmem.2, of_decide_eq_true ho⟩
  · intro h
    obtain ⟨hu, hp, rfl⟩ := h
    have hsome : ((l.unspent.filter fun u => p u.coin).find? fun v =>
        v.outpoint = u.outpoint).isSome :=
      List.find?_isSome.mpr ⟨u, List.mem_filter.mpr ⟨hu, hp⟩, decide_eq_true rfl⟩
    obtain ⟨v, hv⟩ := Option.isSome_iff_exists.mp hsome
    have hmem := (List.mem_filter.mp (List.mem_of_find?_eq_some hv)).1
    have ho : v.outpoint = u.outpoint := by simpa using List.find?_some hv
    rw [find, hv, eq_of_outpoint hmem hu ho]

end Ledger

end KANet.Lib
