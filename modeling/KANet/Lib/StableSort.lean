import Mathlib.Data.List.Basic
import Mathlib.Data.List.Sort

/-!
# What a stable sort depends on

Sorting forgets the order of a list except among entries that tie.  `map_mergeSort_iff`:
two arrangements of one list are sorted into lists that look the same under `f`
exactly when, among the entries that tie with any one, they look the same already.

* `mergeSort_eq_iff` — any two lists are sorted into one list exactly when each class of tied
  entries is the same in both.
* `filter_mergeSort` — a class of tied entries goes through a sort as it stands.
* `eq_tied_append` — in a sorted list the entries tied with the least come first.
-/

namespace KANet.Lib

universe u v

variable {α : Type u} {β : Type v} (le : α → α → Bool)

/-- Neither comes before the other. -/
def tied (a b : α) : Bool := le a b && le b a

variable {le}

theorem filter_mergeSort (htrans : ∀ a b c, le a b → le b c → le a c)
    (htotal : ∀ a b, le a b || le b a) (l : List α) (a : α) :
    (l.mergeSort le).filter (tied le a) = l.filter (tied le a) := by
  have hsorted : (l.filter (tied le a)).Pairwise fun x y => le x y := by
    refine List.pairwise_iff_forall_sublist.mpr fun {x y} hxy => ?_
    have hx : tied le a x := (List.mem_filter.mp (hxy.subset (by simp))).2
    have hy : tied le a y := (List.mem_filter.mp (hxy.subset (by simp))).2
    simp only [tied, Bool.and_eq_true] at hx hy
    exact htrans _ _ _ hx.2 hy.1
  have hsub := List.sublist_mergeSort htrans htotal hsorted List.filter_sublist
  have hfilter := hsub.filter (tied le a)
  rw [List.filter_filter] at hfilter
  simp only [Bool.and_self] at hfilter
  exact (hfilter.eq_of_length
    ((List.mergeSort_perm l le).symm.filter (tied le a)).length_eq).symm

theorem eq_tied_append (htrans : ∀ a b c, le a b → le b c → le a c) {a : α} {s : List α}
    (hs : s.Pairwise fun x y => le x y) (ha : ∀ b ∈ s, le a b) :
    s = s.filter (tied le a) ++ s.filter (fun b => !tied le a b) := by
  induction s with
  | nil => rfl
  | cons b s ih =>
    obtain ⟨hb, hs⟩ := List.pairwise_cons.mp hs
    have ihs := ih hs fun c hc => ha c (List.mem_cons_of_mem _ hc)
    by_cases htie : tied le a b
    · rw [List.filter_cons_of_pos htie, List.filter_cons_of_neg (by simp [htie]),
        List.cons_append, ← ihs]
    · -- whatever follows `b` is no less than `b`, so it does not tie with `a` either
      have hnone : ∀ c ∈ s, ¬ tied le a c := by
        intro c hc hca
        apply htie
        simp only [tied, Bool.and_eq_true] at hca ⊢
        exact ⟨ha b List.mem_cons_self, htrans _ _ _ (hb c hc) hca.2⟩
      have h₀ : s.filter (tied le a) = [] := List.filter_eq_nil_iff.mpr hnone
      have h₁ : s.filter (fun c => !tied le a c) = s :=
        List.filter_eq_self.mpr fun c hc => by simp [hnone c hc]
      rw [List.filter_cons_of_neg htie, h₀, List.filter_cons_of_pos (by simp [htie]), h₁,
        List.nil_append]

/-- Two sorted arrangements of one list. -/
theorem map_sorted_iff (htrans : ∀ a b c, le a b → le b c → le a c)
    (htotal : ∀ a b, le a b || le b a) (f : α → β) {s s' : List α} (hp : s.Perm s')
    (hs : s.Pairwise fun x y => le x y) (hs' : s'.Pairwise fun x y => le x y) :
    s.map f = s'.map f ↔
      ∀ a ∈ s, (s.filter (tied le a)).map f = (s'.filter (tied le a)).map f := by
  obtain ⟨n, hn⟩ : ∃ n, s.length = n := ⟨_, rfl⟩
  induction n using Nat.strong_induction_on generalizing s s' with
  | _ n ih =>
    match s, hn with
    | [], _ => simp [List.nil_perm.mp hp]
    | a :: t, hn =>
      have hrefl : ∀ b, le b b := fun b => by simpa using htotal b b
      have ha : ∀ b ∈ a :: t, le a b := by
        intro b hb
        rcases List.mem_cons.mp hb with rfl | hb
        · exact hrefl b
        · exact (List.pairwise_cons.mp hs).1 b hb
      have ha' : ∀ b ∈ s', le a b := fun b hb => ha b (hp.mem_iff.mpr hb)
      have haa : tied le a a := by simp [tied, hrefl a]
      have hsplit := eq_tied_append htrans hs ha
      have hsplit' := eq_tied_append htrans hs' ha'
      have hclass := hp.filter (tied le a)
      have hrest := hp.filter (fun b => !tied le a b)
      have hlt : ((a :: t).filter (fun b => !tied le a b)).length < n := by
        rw [← hn, List.filter_cons_of_neg (by simp [haa])]
        exact Nat.lt_succ_of_le (List.length_filter_le _ _)
      have hih := ih _ hlt hrest (hs.filter _) (hs'.filter _) rfl
      -- a class that is not `a`'s lies in the rest
      have hlater : ∀ b, ¬ tied le a b → ∀ l : List α,
          (l.filter fun b => !tied le a b).filter (tied le b) = l.filter (tied le b) := by
        intro b hb l
        rw [List.filter_filter]
        refine List.filter_congr fun c _ => ?_
        by_cases hc : tied le b c
        · have : ¬ tied le a c := by
            intro hac
            apply hb
            simp only [tied, Bool.and_eq_true] at hac hc ⊢
            exact ⟨htrans _ _ _ hac.1 hc.2, htrans _ _ _ hc.1 hac.2⟩
          simp [hc, this]
        · simp [hc]
      constructor
      · intro h
        rw [hsplit, hsplit', List.map_append, List.map_append] at h
        obtain ⟨h₀, h₁⟩ := List.append_inj h (by rw [List.length_map, List.length_map,
          hclass.length_eq])
        intro b hb
        by_cases hab : tied le a b
        · have hsame : tied le b = tied le a := by
            funext c
            simp only [tied, Bool.and_eq_true] at hab
            rw [Bool.eq_iff_iff]
            simp only [tied, Bool.and_eq_true]
            exact ⟨fun h => ⟨htrans _ _ _ hab.1 h.1, htrans _ _ _ h.2 hab.2⟩,
              fun h => ⟨htrans _ _ _ hab.2 h.1, htrans _ _ _ h.2 hab.1⟩⟩
          rw [hsame, h₀]
        · rw [← hlater b hab (a :: t), ← hlater b hab s']
          exact hih.mp h₁ b (List.mem_filter.mpr ⟨hb, by simp [hab]⟩)
      · intro h
        rw [hsplit, hsplit', List.map_append, List.map_append, h a List.mem_cons_self]
        congr 1
        refine hih.mpr fun b hb => ?_
        obtain ⟨hb, hab⟩ := List.mem_filter.mp hb
        have hab : ¬ tied le a b := by simpa using hab
        rw [hlater b hab, hlater b hab]
        exact h b hb

/-- **What a stable sort depends on.** -/
theorem map_mergeSort_iff (htrans : ∀ a b c, le a b → le b c → le a c)
    (htotal : ∀ a b, le a b || le b a) (f : α → β) {l l' : List α} (hp : l.Perm l') :
    (l.mergeSort le).map f = (l'.mergeSort le).map f ↔
      ∀ a ∈ l, (l.filter (tied le a)).map f = (l'.filter (tied le a)).map f := by
  have hsort : (l.mergeSort le).Perm (l'.mergeSort le) :=
    (List.mergeSort_perm l le).trans (hp.trans (List.mergeSort_perm l' le).symm)
  rw [map_sorted_iff htrans htotal f hsort (List.pairwise_mergeSort htrans htotal l)
    (List.pairwise_mergeSort htrans htotal l')]
  simp only [List.mem_mergeSort, filter_mergeSort htrans htotal]

theorem mergeSort_eq_iff [DecidableEq α] (htrans : ∀ a b c, le a b → le b c → le a c)
    (htotal : ∀ a b, le a b || le b a) {l l' : List α} :
    l.mergeSort le = l'.mergeSort le ↔ ∀ a, l.filter (tied le a) = l'.filter (tied le a) := by
  refine ⟨?_, ?_⟩
  · intro h a
    rw [← filter_mergeSort htrans htotal l a, h, filter_mergeSort htrans htotal l' a]
  · intro h
    have hp : l.Perm l' := by
      refine List.perm_iff_count.mpr ?_
      intro a
      have haa : tied le a a = true := by
        have := htotal a a
        simpa [tied] using this
      rw [← List.count_filter haa, h a, List.count_filter haa]
    have hsort := (map_mergeSort_iff htrans htotal id hp).mpr fun a _ => by rw [h a]
    simpa using hsort

end KANet.Lib
