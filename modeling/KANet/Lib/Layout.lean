import Mathlib.Data.List.Basic

/-!
# Fixed places in a byte string

Code that knows where the fields of a record lie reads them as slices of the bytes, and
replaces them by putting the record together again: the bytes up to the first field, the new
field, the bytes between it and the next, and so on to the end.

* `slice_append_mid` — where a field lies in a record that was put together.
* `getElem?_weave_of_mem`, `getElem?_weave_of_outside` — a record with replaced fields has the
  new bytes in the fields and the old ones everywhere else.
* `slice_weave_field` — so a replaced field reads as what it was replaced by.
* `weave_places` — of a record in pieces, some pieces are replaced.
-/

namespace KANet.Lib

universe u

variable {α : Type u}

/-- `n` elements from place `i` on. -/
def slice (bs : List α) (i n : Nat) : List α := (bs.drop i).take n

theorem length_slice {bs : List α} {i n : Nat} (h : i + n ≤ bs.length) :
    (slice bs i n).length = n := by
  rw [slice, List.length_take, List.length_drop]
  omega

theorem getElem?_slice (bs : List α) (i n j : Nat) :
    (slice bs i n)[j]? = if j < n then bs[i + j]? else none := by
  rw [slice, List.getElem?_take, List.getElem?_drop]

/-- A slice of what agrees there. -/
theorem slice_congr {bs cs : List α} {i n : Nat} (h : ∀ j, i ≤ j → j < i + n → bs[j]? = cs[j]?) :
    slice bs i n = slice cs i n := by
  apply List.ext_getElem?
  intro j
  rw [getElem?_slice, getElem?_slice]
  by_cases hj : j < n
  · rw [if_pos hj, if_pos hj, h (i + j) (by omega) (by omega)]
  · rw [if_neg hj, if_neg hj]

theorem slice_append_right (a b : List α) (i n : Nat) :
    slice (a ++ b) (a.length + i) n = slice b i n := by
  rw [slice, slice, List.drop_append, List.drop_eq_nil_of_le (by omega), List.nil_append,
    Nat.add_sub_cancel_left]

/-- The head of a slice, and the rest of it. -/
theorem slice_eq_cons {bs cs : List α} {c : α} {i n : Nat} (h : slice bs i (n + 1) = c :: cs) :
    bs[i]? = some c ∧ slice bs (i + 1) n = cs := by
  have hlt : i < bs.length := by
    by_contra hge
    rw [slice, List.drop_eq_nil_of_le (by omega), List.take_nil] at h
    cases h
  rw [slice, List.drop_eq_getElem_cons hlt, List.take_succ_cons] at h
  obtain ⟨hc, hcs⟩ := List.cons.inj h
  exact ⟨by rw [List.getElem?_eq_getElem hlt, hc], hcs⟩

theorem le_length_of_slice {bs : List α} {i n : Nat} (hn : 0 < n)
    (h : (slice bs i n).length = n) : i + n ≤ bs.length := by
  rw [slice, List.length_take, List.length_drop] at h
  omega

/-- The middle of three pieces. -/
theorem slice_append_mid {a b c : List α} {i n : Nat} (hi : a.length = i) (hn : b.length = n) :
    slice (a ++ (b ++ c)) i n = b := by
  rw [slice, ← hi, List.drop_left, ← hn, List.take_left]

/-! ### Replacing fields -/

/-- The elements from `pos` on, with each field of `fs` (a place, and what is put there) in the
place of as many elements. -/
def weave (bs : List α) : Nat → List (Nat × List α) → List α
  | pos, [] => bs.drop pos
  | pos, (off, new) :: fs => slice bs pos (off - pos) ++ new ++ weave bs (off + new.length) fs

/-- The fields follow one another, and the last ends within `len` elements. -/
def InOrder (len : Nat) : Nat → List (Nat × List α) → Prop
  | pos, [] => pos ≤ len
  | pos, (off, new) :: fs => pos ≤ off ∧ InOrder len (off + new.length) fs

/-- Place `j` is in the field `f`. -/
def InField (j : Nat) (f : Nat × List α) : Prop := f.1 ≤ j ∧ j < f.1 + f.2.length

theorem InOrder.le {len pos : Nat} {fs : List (Nat × List α)} (h : InOrder len pos fs) :
    pos ≤ len := by
  induction fs generalizing pos with
  | nil => exact h
  | cons f fs ih =>
    have hle := ih h.2
    have hpos := h.1
    omega

theorem InOrder.le_of_mem {len pos : Nat} {fs : List (Nat × List α)} (h : InOrder len pos fs)
    {f : Nat × List α} (hf : f ∈ fs) : pos ≤ f.1 ∧ f.1 + f.2.length ≤ len := by
  induction fs generalizing pos with
  | nil => cases hf
  | cons g fs ih =>
    rcases List.mem_cons.mp hf with rfl | hf
    · exact ⟨h.1, h.2.le⟩
    · have hle := (ih h.2 hf).1
      have hpos := h.1
      exact ⟨by omega, (ih h.2 hf).2⟩

theorem length_weave {bs : List α} {pos : Nat} {fs : List (Nat × List α)}
    (h : InOrder bs.length pos fs) : (weave bs pos fs).length = bs.length - pos := by
  induction fs generalizing pos with
  | nil => rw [weave, List.length_drop]
  | cons f fs ih =>
    have hpos := h.1
    have hle := h.2.le
    rw [weave, List.length_append, List.length_append, ih h.2, length_slice (by omega)]
    omega

/-- **Inside a field are its elements.** -/
theorem getElem?_weave_of_mem {bs : List α} {pos : Nat} {fs : List (Nat × List α)}
    (h : InOrder bs.length pos fs) {f : Nat × List α} (hf : f ∈ fs) {j : Nat} (hj : InField j f) :
    (weave bs pos fs)[j - pos]? = f.2[j - f.1]? := by
  induction fs generalizing pos with
  | nil => cases hf
  | cons g fs ih =>
    have hpos := h.1
    have hle := h.2.le
    have hlen : (slice bs pos (g.1 - pos)).length = g.1 - pos := length_slice (by omega)
    obtain ⟨hlo, hhi⟩ := hj
    rw [weave, List.append_assoc]
    rcases List.mem_cons.mp hf with rfl | hf
    · rw [List.getElem?_append_right (by omega), hlen, List.getElem?_append_left (by omega)]
      congr 1
      omega
    · have hbelow := (h.2.le_of_mem hf).1
      rw [List.getElem?_append_right (by omega), hlen, List.getElem?_append_right (by omega),
        ← ih h.2 hf]
      congr 1
      omega

/-- **Outside the fields nothing changes.** -/
theorem getElem?_weave_of_outside {bs : List α} {pos : Nat} {fs : List (Nat × List α)}
    (h : InOrder bs.length pos fs) {j : Nat} (hge : pos ≤ j) (hj : ∀ f ∈ fs, ¬ InField j f) :
    (weave bs pos fs)[j - pos]? = bs[j]? := by
  induction fs generalizing pos with
  | nil =>
    rw [weave, List.getElem?_drop]
    congr 1
    omega
  | cons f fs ih =>
    have hpos := h.1
    have hle := h.2.le
    have hlen : (slice bs pos (f.1 - pos)).length = f.1 - pos := length_slice (by omega)
    have hout : ¬ InField j f := hj f List.mem_cons_self
    rw [weave, List.append_assoc]
    by_cases hlo : j < f.1
    · rw [List.getElem?_append_left (by omega), getElem?_slice, if_pos (by omega)]
      congr 1
      omega
    · have hhi : f.1 + f.2.length ≤ j := by
        by_contra hlt
        exact hout ⟨by omega, by omega⟩
      rw [List.getElem?_append_right (by omega), hlen, List.getElem?_append_right (by omega),
        ← ih h.2 hhi fun g hg => hj g (List.mem_cons_of_mem _ hg)]
      congr 1
      omega

/-- A replaced field reads as what it was replaced by. -/
theorem slice_weave_field {bs : List α} {fs : List (Nat × List α)} (h : InOrder bs.length 0 fs)
    {f : Nat × List α} (hf : f ∈ fs) : slice (weave bs 0 fs) f.1 f.2.length = f.2 := by
  apply List.ext_getElem?
  intro j
  rw [getElem?_slice]
  by_cases hj : j < f.2.length
  · have hin := getElem?_weave_of_mem h hf (j := f.1 + j) ⟨by omega, by omega⟩
    rw [Nat.sub_zero] at hin
    rw [if_pos hj, hin]
    congr 1
    omega
  · rw [if_neg hj, List.getElem?_eq_none (by omega)]

/-! ### A record in pieces -/

/-- The fields among the pieces that something replaces, the first piece beginning at `pos`. -/
def places : Nat → List (List α × Option (List α)) → List (Nat × List α)
  | _, [] => []
  | pos, (old, none) :: ps => places (pos + old.length) ps
  | pos, (old, some new) :: ps => (pos, new) :: places (pos + old.length) ps

theorem le_of_mem_places {pos : Nat} {ps : List (List α × Option (List α))} {f : Nat × List α}
    (h : f ∈ places pos ps) : pos ≤ f.1 := by
  induction ps generalizing pos with
  | nil => cases h
  | cons p ps ih =>
    obtain ⟨old, new⟩ := p
    cases new with
    | none => exact Nat.le_trans (Nat.le_add_right _ _) (ih h)
    | some new =>
      rcases List.mem_cons.mp h with rfl | h
      · exact Nat.le_refl _
      · exact Nat.le_trans (Nat.le_add_right _ _) (ih h)

/-- Up to the first field nothing is replaced. -/
theorem weave_skip {bs : List α} {pos k : Nat} {fs : List (Nat × List α)}
    (h : ∀ f ∈ fs, pos + k ≤ f.1) : weave bs pos fs = slice bs pos k ++ weave bs (pos + k) fs := by
  cases fs with
  | nil =>
    rw [weave, weave, slice, ← List.drop_drop, List.take_append_drop]
  | cons f fs =>
    have hf := h f List.mem_cons_self
    have hsplit : slice bs pos (f.1 - pos) =
        slice bs pos k ++ slice bs (pos + k) (f.1 - (pos + k)) := by
      have hlen : f.1 - pos = k + (f.1 - (pos + k)) := by omega
      rw [slice, slice, slice, hlen, List.take_add, List.drop_drop]
    rw [weave, weave, hsplit]
    simp only [List.append_assoc]

/-- **A record of which some pieces are replaced.** -/
theorem weave_places (a : List α) {ps : List (List α × Option (List α))}
    (hlen : ∀ p ∈ ps, ∀ new ∈ p.2, new.length = p.1.length) :
    weave (a ++ ps.flatMap Prod.fst) a.length (places a.length ps) =
      ps.flatMap fun p => p.2.getD p.1 := by
  induction ps generalizing a with
  | nil =>
    rw [places, weave]
    simp
  | cons p ps ih =>
    obtain ⟨old, new⟩ := p
    have hps := ih (a ++ old) fun q hq => hlen q (List.mem_cons_of_mem _ hq)
    rw [List.append_assoc, List.length_append] at hps
    cases new with
    | none =>
      rw [places, weave_skip fun f hf => le_of_mem_places hf, List.flatMap_cons, hps,
        slice_append_mid rfl rfl, List.flatMap_cons, Option.getD_none]
    | some new =>
      have hnew : new.length = old.length := hlen _ List.mem_cons_self new rfl
      rw [places, weave, hnew, List.flatMap_cons, hps, Nat.sub_self, slice, List.take_zero,
        List.nil_append, List.flatMap_cons, Option.getD_some]

end KANet.Lib
