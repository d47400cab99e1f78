import Mathlib.Algebra.BigOperators.Group.List.Basic
import Mathlib.Data.List.Nodup

/-!
# Runs of a labelled step relation

`Run step s as t` says that the actions `as`, taken one after the other, lead from
`s` to `t`.  What a development proves about runs it proves about one step and
carries over by one of the rules here.

* `Run.invariant` — what every step keeps, every run keeps.
* `Run.history` — the same for a property that also reads the actions taken so far.
* `Run.ledger` — a quantity every step pays for out of an account is, over a run,
  paid for by the sum.
* `Run.nodup_keys` — when a step marks its key, refuses a marked one and never
  unmarks any, no key occurs twice in a run.
* `Run.imp` — a run of one relation is a run of another that agrees with it on the
  states the invariant allows.
* `Run.of_foldlM` — what folding a partial function over the actions gives is a run.
-/

namespace KANet.Lib

universe u v w

variable {σ : Type u} {α : Type v}

/-- The actions `as` lead from one state to another. -/
inductive Run (step : σ → α → σ → Prop) : σ → List α → σ → Prop
  | nil (s : σ) : Run step s [] s
  | cons {s m t : σ} {a : α} {as : List α} (h : step s a m) (r : Run step m as t) :
      Run step s (a :: as) t

namespace Run

variable {step : σ → α → σ → Prop}

theorem single {s t : σ} {a : α} (h : step s a t) : Run step s [a] t := .cons h (.nil t)

theorem append {s m t : σ} {as bs : List α} (h : Run step s as m) (g : Run step m bs t) :
    Run step s (as ++ bs) t := by
  induction h with
  | nil s => exact g
  | cons h _ ih => exact .cons h (ih g)

theorem split {s t : σ} {as bs : List α} (h : Run step s (as ++ bs) t) :
    ∃ m, Run step s as m ∧ Run step m bs t := by
  induction as generalizing s with
  | nil => exact ⟨s, .nil s, h⟩
  | cons a as ih =>
    cases h with
    | cons h r =>
      obtain ⟨m, h₁, h₂⟩ := ih r
      exact ⟨m, .cons h h₁, h₂⟩

/-- The state an action of a run was taken in, and the one it led to. -/
theorem split_at {s t : σ} {as bs : List α} {a : α} (h : Run step s (as ++ a :: bs) t) :
    ∃ m m', Run step s as m ∧ step m a m' ∧ Run step m' bs t := by
  obtain ⟨m, h₁, h₂⟩ := h.split
  cases h₂ with
  | cons ha r => exact ⟨m, _, h₁, ha, r⟩

/-- **The invariant rule.** -/
theorem invariant {I : σ → Prop} (keep : ∀ s a t, I s → step s a t → I t) {s t : σ}
    {as : List α} (h : Run step s as t) (hs : I s) : I t := by
  induction h with
  | nil s => exact hs
  | cons ha _ ih => exact ih (keep _ _ _ hs ha)

/-- **The history rule.**  What may also speak of the actions taken so far. -/
theorem history {P : List α → σ → Prop}
    (keep : ∀ as s a t, P as s → step s a t → P (as ++ [a]) t) {s t : σ} {as : List α}
    (h : Run step s as t) (hs : P [] s) : P as t := by
  have from_here : ∀ {m : σ} {bs : List α}, Run step m bs t → ∀ before, P before m →
      P (before ++ bs) t := by
    intro m bs hr
    induction hr with
    | nil m =>
      intro before hb
      rwa [List.append_nil]
    | @cons m m' t b bs hb _ ih =>
      intro before hp
      have := ih h (before ++ [b]) (keep _ _ _ _ hp hb)
      rwa [List.append_assoc, List.singleton_append] at this
  exact from_here h [] hs

theorem imp {I : σ → Prop} {step' : σ → α → σ → Prop}
    (keep : ∀ s a t, I s → step s a t → I t)
    (agree : ∀ s a t, I s → step s a t → step' s a t) {s t : σ} {as : List α}
    (h : Run step s as t) (hs : I s) : Run step' s as t := by
  induction h with
  | nil s => exact .nil s
  | cons ha _ ih => exact .cons (agree _ _ _ hs ha) (ih (keep _ _ _ hs ha))

theorem of_foldlM {f : σ → α → Option σ} {as : List α} {s t : σ} (h : as.foldlM f s = some t) :
    Run (fun s a t => f s a = some t) s as t := by
  induction as generalizing s with
  | nil =>
    obtain rfl := Option.some.inj h
    exact .nil _
  | cons a as ih =>
    rw [List.foldlM_cons, Option.bind_eq_bind, Option.bind_eq_some_iff] at h
    obtain ⟨m, hm, hrest⟩ := h
    exact .cons hm (ih hrest)

/-- **The ledger rule.**  If each step costs the account exactly what its action pays out, the
account and everything paid out since add up to where the run began. -/
theorem ledger {M : Type w} [AddCommMonoid M] {I : σ → Prop} (balance : σ → M) (paid : α → M)
    (keep : ∀ s a t, I s → step s a t → I t)
    (pay : ∀ s a t, I s → step s a t → balance s = balance t + paid a) {s t : σ}
    {as : List α} (h : Run step s as t) (hs : I s) :
    balance s = balance t + (as.map paid).sum := by
  induction h with
  | nil s => simp
  | cons ha _ ih =>
    rw [pay _ _ _ hs ha, ih (keep _ _ _ hs ha), List.map_cons, List.sum_cons, add_assoc]
    congr 1
    exact add_comm _ _

/-- A key that is marked is the key of no later action. -/
theorem key_notMem {κ : Type w} {I : σ → Prop} (key : α → Option κ) (Marked : σ → κ → Prop)
    (keep : ∀ s a t, I s → step s a t → I t)
    (refuse : ∀ s a t k, I s → step s a t → key a = some k → ¬ Marked s k)
    (stay : ∀ s a t k, I s → step s a t → Marked s k → Marked t k)
    {s t : σ} {as : List α} (h : Run step s as t) (hs : I s) {k : κ} (hk : Marked s k) :
    k ∉ as.filterMap key := by
  induction h with
  | nil s => simp
  | cons ha _ ih =>
    have hrest := ih (keep _ _ _ hs ha) (stay _ _ _ _ hs ha hk)
    rw [List.mem_filterMap] at hrest ⊢
    rintro ⟨b, hb, hkb⟩
    rcases List.mem_cons.mp hb with rfl | hb
    · exact refuse _ _ _ _ hs ha hkb hk
    · exact hrest ⟨b, hb, hkb⟩

/-- **The nullifier rule.**  No key occurs twice. -/
theorem nodup_keys {κ : Type w} {I : σ → Prop} (key : α → Option κ) (Marked : σ → κ → Prop)
    (keep : ∀ s a t, I s → step s a t → I t)
    (refuse : ∀ s a t k, I s → step s a t → key a = some k → ¬ Marked s k)
    (mark : ∀ s a t k, I s → step s a t → key a = some k → Marked t k)
    (stay : ∀ s a t k, I s → step s a t → Marked s k → Marked t k)
    {s t : σ} {as : List α} (h : Run step s as t) (hs : I s) :
    (as.filterMap key).Nodup := by
  induction h with
  | nil s => simp
  | @cons s m t a as ha r ih =>
    have hm := keep _ _ _ hs ha
    cases hk : key a with
    | none => simpa [hk] using ih hm
    | some k =>
      rw [List.filterMap_cons_some hk, List.nodup_cons]
      exact ⟨key_notMem key Marked keep refuse stay r hm (mark _ _ _ _ hs ha hk), ih hm⟩

end Run

end KANet.Lib
