import Mathlib.Data.Set.Function
import Mathlib.Data.List.Induction

/-!
# Hash chains

A chain starts from a fixed digest and takes in one item after the other.  `chain_inj`:
the digest it ends in says which items it took in and in what order, as far as the
joins at hand do not collide and none of them hits the start.
-/

namespace KANet.Lib.HashChain

universe u v

variable {α : Type u} {β : Type v}

/-- The digest after the items of the list. -/
def chain (node : α → β → α) (start : α) (l : List β) : α := l.foldl node start

/-- What is joined on the way. -/
def links (node : α → β → α) (start : α) : List β → List (α × β)
  | [] => []
  | b :: l => (start, b) :: links node (node start b) l

variable {node : α → β → α} {start : α}

theorem chain_concat (l : List β) (b : β) :
    chain node start (l ++ [b]) = node (chain node start l) b := by
  rw [chain, List.foldl_append]
  rfl

theorem links_concat (l : List β) (b : β) :
    links node start (l ++ [b]) = links node start l ++ [(chain node start l, b)] := by
  induction l generalizing start with
  | nil => rfl
  | cons a l ih =>
    rw [List.cons_append, links, ih, links, List.cons_append]
    rfl

/-- **A chain binds its items**, where their number is known or no link is the start. -/
theorem chain_inj {S : Set (α × β)} (hS : S.InjOn fun p => node p.1 p.2) {l l' : List β}
    (hstart : l.length = l'.length ∨ ∀ p ∈ S, node p.1 p.2 ≠ start)
    (hl : ∀ p ∈ links node start l, p ∈ S) (hl' : ∀ p ∈ links node start l', p ∈ S)
    (h : chain node start l = chain node start l') : l = l' := by
  induction l using List.reverseRecOn generalizing l' with
  | nil =>
    induction l' using List.reverseRecOn with
    | nil => rfl
    | append_singleton l' b _ =>
      rw [links_concat] at hl'
      rw [chain_concat] at h
      rcases hstart with hlen | hstart
      · rw [List.length_append, List.length_singleton, List.length_nil] at hlen
        omega
      · exact absurd h.symm (hstart _ (hl' (chain node start l', b) (by simp)))
  | append_singleton l a ih =>
    rw [links_concat] at hl
    rw [chain_concat] at h
    have ha := hl (chain node start l, a) (by simp)
    induction l' using List.reverseRecOn with
    | nil =>
      rcases hstart with hlen | hstart
      · rw [List.length_append, List.length_singleton, List.length_nil] at hlen
        omega
      · exact absurd h (hstart _ ha)
    | append_singleton l' b _ =>
      rw [links_concat] at hl'
      rw [chain_concat] at h
      have hb := hl' (chain node start l', b) (by simp)
      obtain ⟨hprev, rfl⟩ := Prod.mk.inj (hS ha hb h)
      have hshorter : l.length = l'.length ∨ ∀ p ∈ S, node p.1 p.2 ≠ start := by
        rwa [List.length_append, List.length_append, List.length_singleton,
          Nat.add_right_cancel_iff] at hstart
      rw [ih hshorter (fun p hp => hl p (List.mem_append_left _ hp))
        (fun p hp => hl' p (List.mem_append_left _ hp)) hprev]

end KANet.Lib.HashChain
