import Mathlib.Data.List.Infix

/-!
# Runs of a step function

A machine takes its events one after the other, `es.foldl step s`.  `Along fair step s es` says that
each event of a run is fair in the state that it finds.

* `Along.nil`, `Along.cons`, `Along.initial`, `Along.last` — the run from its parts, and its parts;
  `Along.and` — two conditions at once.
* `Along.invariant` — what every fair step keeps holds wherever a fair run leads; it may speak of
  the events so far.
-/

namespace KANet.Lib

universe u v

variable {σ : Type u} {α : Type v}

/-- Each event of the run is fair in the state that it finds. -/
def Along (fair : σ → α → Prop) (step : σ → α → σ) (s : σ) (es : List α) : Prop :=
  ∀ pre e post, es = pre ++ e :: post → fair (pre.foldl step s) e

namespace Along

variable {fair : σ → α → Prop} {step : σ → α → σ} {s : σ} {es : List α}

theorem nil : Along fair step s [] := by
  intro pre e post h
  cases pre <;> cases h

theorem cons {e : α} (h : fair s e) (hes : Along fair step (step s e) es) :
    Along fair step s (e :: es) := by
  intro pre e' post heq
  cases pre with
  | nil =>
    obtain ⟨rfl, -⟩ := List.cons.inj heq
    exact h
  | cons f pre =>
    obtain ⟨rfl, hrest⟩ := List.cons.inj heq
    exact hes pre e' post hrest

theorem initial {pre : List α} (h : Along fair step s es) (hpre : pre <+: es) :
    Along fair step s pre := by
  obtain ⟨post, rfl⟩ := hpre
  rintro p e q rfl
  exact h p e (q ++ post) (by simp)

theorem last {e : α} (h : Along fair step s (es ++ [e])) : fair (es.foldl step s) e :=
  h es e [] rfl

theorem and {fair' : σ → α → Prop} (h : Along fair step s es) (h' : Along fair' step s es) :
    Along (fun s e => fair s e ∧ fair' s e) step s es :=
  fun pre e post heq => ⟨h pre e post heq, h' pre e post heq⟩

/-- **The invariant rule.** -/
theorem invariant {I : List α → σ → Prop} (h : Along fair step s es) (hs : I [] s)
    (keep : ∀ es e, I es (es.foldl step s) → fair (es.foldl step s) e →
      I (es ++ [e]) (step (es.foldl step s) e)) : I es (es.foldl step s) := by
  induction es using List.reverseRecOn with
  | nil => exact hs
  | append_singleton es e ih =>
    rw [List.foldl_append]
    exact keep es e (ih (h.initial (List.prefix_append _ _))) h.last

end Along

end KANet.Lib
