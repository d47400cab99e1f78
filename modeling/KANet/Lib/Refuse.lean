import Mathlib.Data.List.Basic

/-!
# Computations that refuse

A check either goes on or refuses with a reason, and a sequence of checks has an outcome when
none of them refuses.

* `check_eq_ok`, `orRefuse_eq_ok` — one check.
* `bind_eq_ok` — one check after another.
* `forM_eq_ok`, `mapM_eq_ok`, `mapM_eq_some` — a check of every element of a list.
-/

namespace KANet.Lib

universe u

variable {ε : Type} {α β : Type u} {why : ε}

def check (p : Prop) [Decidable p] (why : ε) : Except ε Unit :=
  if p then .ok () else .error why

def orRefuse (x : Option α) (why : ε) : Except ε α :=
  match x with
  | some a => .ok a
  | none => .error why

@[simp] theorem check_eq_ok {p : Prop} [Decidable p] {u : Unit} : check p why = .ok u ↔ p := by
  unfold check
  by_cases h : p
  · simp [h]
  · simp [h]

@[simp] theorem orRefuse_eq_ok {x : Option α} {a : α} : orRefuse x why = .ok a ↔ x = some a := by
  cases x with
  | none => simp [orRefuse]
  | some b => simp [orRefuse]

theorem ok_bind (a : α) (f : α → Except ε β) : (Except.ok a >>= f) = f a := rfl

theorem bind_eq_ok {x : Except ε α} {f : α → Except ε β} {b : β} :
    x >>= f = .ok b ↔ ∃ a, x = .ok a ∧ f a = .ok b := by
  cases x with
  | error why =>
    constructor
    · intro h
      cases h
    · intro h
      obtain ⟨_, h, _⟩ := h
      cases h
  | ok a =>
    constructor
    · intro h
      exact ⟨a, rfl, h⟩
    · intro h
      obtain ⟨a', ha, h⟩ := h
      rw [Except.ok.inj ha]
      exact h

theorem forM_eq_ok {α : Type} {f : α → Except ε Unit} {l : List α} {u : Unit} :
    forM l f = .ok u ↔ ∀ a ∈ l, f a = .ok () := by
  induction l with
  | nil => exact ⟨fun _ _ h => absurd h (List.not_mem_nil), fun _ => rfl⟩
  | cons a l ih =>
    rw [List.forM_cons, bind_eq_ok, List.forall_mem_cons]
    simp only [ih]
    exact ⟨fun ⟨_, ha, hl⟩ => ⟨ha, hl⟩, fun ⟨ha, hl⟩ => ⟨_, ha, hl⟩⟩

/-- The outcomes of a check that does not refuse are those of the elements. -/
theorem mapM_eq_ok {f : α → Except ε β} {l : List α} {l' : List β} :
    l.mapM f = .ok l' ↔ l.map f = l'.map .ok := by
  induction l generalizing l' with
  | nil =>
    rw [List.mapM_nil, List.map_nil, eq_comm (a := []), List.map_eq_nil_iff]
    exact ⟨fun h => (Except.ok.inj h).symm, fun h => congrArg _ h.symm⟩
  | cons a l ih =>
    rw [List.mapM_cons, bind_eq_ok, List.map_cons]
    simp only [bind_eq_ok, ih]
    constructor
    · intro h
      obtain ⟨b, hb, bs, hbs, h⟩ := h
      obtain rfl := Except.ok.inj h
      rw [hb, hbs, List.map_cons]
    · intro h
      cases l' with
      | nil => cases h
      | cons b bs =>
        rw [List.map_cons, List.cons.injEq] at h
        exact ⟨b, h.1, bs, h.2, rfl⟩

theorem mapM_eq_some {α β : Type} {f : α → Option β} {l : List α} {l' : List β} :
    l.mapM f = some l' ↔ l.map f = l'.map some := by
  induction l generalizing l' with
  | nil => cases l' <;> simp
  | cons a l ih =>
    simp only [List.mapM_cons, Option.pure_def, Option.bind_eq_bind, Option.bind_eq_some_iff, ih,
      Option.some.injEq, List.map_cons]
    constructor
    · intro h
      obtain ⟨b, hb, bs, hbs, rfl⟩ := h
      rw [hb, hbs, List.map_cons]
    · intro h
      cases l' with
      | nil => cases h
      | cons b bs =>
        rw [List.map_cons, List.cons.injEq] at h
        exact ⟨b, h.1, bs, h.2, rfl⟩

@[simp] theorem mapError_eq_ok {ε ε' α : Type} {x : Except ε α} {f : ε → ε'} {a : α} :
    x.mapError f = .ok a ↔ x = .ok a := by
  cases x with
  | error e => exact ⟨nofun, nofun⟩
  | ok b =>
    show Except.ok b = _ ↔ _
    rw [Except.ok.injEq, Except.ok.injEq]

theorem toOption_eq_some {ε α : Type} {x : Except ε α} {a : α} :
    x.toOption = some a ↔ x = .ok a := by
  cases x with
  | error e => exact ⟨nofun, nofun⟩
  | ok b =>
    show some b = some a ↔ _
    rw [Option.some.injEq, Except.ok.injEq]

end KANet.Lib
