import KANet.Lib.Sampling
import KANet.Settle.CommitteeLists

/-!
# The sampler and its verifier

`pool-committee-sampler.mjs`: the members are read with their keys in small letters, those left out
are dropped, and five are drawn from what remains in the order of the keys.  The verifier draws
again, and leaves out nobody.

* `selectCommittee`, `verifyCommitteeSelection` — as they are, with what they report.
* `sampler_sound_iff` — the sample is five different members, whatever the order of the list, and
  the verifier takes that sample alone, for every hash and seed exactly if no key is listed twice,
  every stake counts and no member is left out.
-/

namespace KANet.Settle.Sampler

open KANet.Lib KANet.Script

/-! ### The sampler -/

structure Drawn where
  pk_hex : String
  stake_sompi : ℤ
  draw_index : ℕ
deriving DecidableEq

structure Round where
  round : ℕ
  rand_hash : Bytes32
  hit : ℤ
  total_remaining_stake : ℤ
  hit_pk : String
  remaining_n_before : ℕ
deriving DecidableEq

structure Proof where
  seed : Bytes32
  rounds : List Round
  pool_size_at_sample : ℕ
  committee_size : ℕ
deriving DecidableEq

structure Selection where
  selected : List Drawn
  proof : Proof
deriving DecidableEq

inductive SampleError
  | poolSize (got excluded : ℕ)
  | nonPositive (pk_hex : String)
  | noHit (round : ℕ)
deriving DecidableEq

/-- A member as the sampler reads it. -/
def readMember (m : ListedMember) : ListedMember := ⟨lowerCase m.pk_hex, m.stake_sompi⟩

def keyLe (a b : ListedMember) : Bool := a.pk_hex ≤ b.pk_hex

/-- Who may be drawn, in the order of the keys. -/
def eligible (members : List ListedMember) (excludePks : List String) : List ListedMember :=
  ((members.map readMember).filter fun m => m.pk_hex ∉ excludePks.map lowerCase).mergeSort keyLe

def randHash (e : Engine) (seed : Bytes32) (i : ℕ) : Bytes32 :=
  e.blake2b (seed.toList ++ (leBytes 4 i).reverse)

def rand (e : Engine) (seed : Bytes32) (i : ℕ) : ℤ := bigEndian (randHash e seed i).toList

/-- The rounds from the `i`-th on. -/
def sampleRounds (e : Engine) (seed : Bytes32) :
    ℕ → ℕ → List ListedMember → Except SampleError (List (Drawn × Round))
  | _, 0, _ => .ok []
  | i, n + 1, remaining => do
    let totalStake := Sampling.total ListedMember.stake_sompi remaining
    let hit := rand e seed i % totalStake
    let hitIdx ← orRefuse (Sampling.hitIdx ListedMember.stake_sompi hit 0 remaining) (.noHit i)
    let drawn ← orRefuse remaining[hitIdx]? (.noHit i)
    let rest ← sampleRounds e seed (i + 1) n (remaining.eraseIdx hitIdx)
    .ok ((⟨drawn.pk_hex, drawn.stake_sompi, i⟩,
      ⟨i, randHash e seed i, hit, totalStake, drawn.pk_hex, remaining.length⟩) :: rest)

def selectCommittee (e : Engine) (members : List ListedMember) (seed : Bytes32)
    (excludePks : List String) : Except SampleError Selection := do
  let sorted := eligible members excludePks
  check (COMMITTEE_SIZE ≤ sorted.length)
    (.poolSize sorted.length (excludePks.map lowerCase).dedup.length)
  match sorted.find? fun m => m.stake_sompi ≤ 0 with
  | some m => .error (.nonPositive m.pk_hex)
  | none => do
    let drawn ← sampleRounds e seed 0 COMMITTEE_SIZE sorted
    .ok ⟨drawn.map Prod.fst, ⟨seed, drawn.map Prod.snd, sorted.length, COMMITTEE_SIZE⟩⟩

def Selection.keys (s : Selection) : List String := s.selected.map Drawn.pk_hex

/-! ### The verifier -/

inductive Reason
  | length (got : ℕ)
  | threw (e : SampleError)
  | position (i : ℕ) (expected claimed : String)
deriving DecidableEq

/-- The first place where the lists differ. -/
def firstDiff : ℕ → List String → List String → Option Reason
  | i, expected :: xs, claimed :: ys =>
    if expected ≠ lowerCase claimed then some (.position i expected (lowerCase claimed))
    else firstDiff (i + 1) xs ys
  | _, _, _ => none

/-- Nothing, if the selection is valid. -/
def verifyCommitteeSelection (e : Engine) (members : List ListedMember) (seed : Bytes32)
    (claimedSelected : List String) : Option Reason :=
  if claimedSelected.length ≠ COMMITTEE_SIZE then some (.length claimedSelected.length)
  else
    match selectCommittee e members seed [] with
    | .error err => some (.threw err)
    | .ok result => firstDiff 0 result.keys claimedSelected

/-! ### What is asked of them -/

/-- **A sound sample**: five different members that may be drawn, the same from every order of the
list, and the verifier takes this selection and no other. -/
structure Sound (e : Engine) (members : List ListedMember) (seed : Bytes32)
    (excludePks : List String) : Prop where
  selects : ∃ s, selectCommittee e members seed excludePks = .ok s ∧
    s.keys.length = COMMITTEE_SIZE ∧ s.keys.Nodup ∧
    (∀ pk ∈ s.keys, pk ∈ members.map fun m => lowerCase m.pk_hex) ∧
    ∀ pk ∈ s.keys, pk ∉ excludePks.map lowerCase
  stable : ∀ members', members'.Perm members →
    selectCommittee e members' seed excludePks = selectCommittee e members seed excludePks
  verified : ∀ claimed, verifyCommitteeSelection e members seed claimed = none ↔
    ∃ s, selectCommittee e members seed excludePks = .ok s ∧ claimed.map lowerCase = s.keys

/-- No key is listed twice, every stake counts, and no member is left out. -/
structure Fair (members : List ListedMember) (excludePks : List String) : Prop where
  nodup : (members.map fun m => lowerCase m.pk_hex).Nodup
  positive : ∀ m ∈ members, 0 < m.stake_sompi
  none_excluded : ∀ m ∈ members, lowerCase m.pk_hex ∉ excludePks.map lowerCase

section

variable {e : Engine} {members members' : List ListedMember} {seed : Bytes32}
  {excludePks : List String}

theorem keyLe_trans (a b c : ListedMember) (h : keyLe a b) (h' : keyLe b c) : keyLe a c := by
  simp only [keyLe, decide_eq_true_eq] at h h' ⊢
  exact h.trans h'

theorem keyLe_total (a b : ListedMember) : keyLe a b || keyLe b a := by
  simp only [keyLe, Bool.or_eq_true, decide_eq_true_eq]
  exact le_total _ _

theorem mem_eligible {m : ListedMember} : m ∈ eligible members excludePks ↔
    (∃ a ∈ members, readMember a = m) ∧ m.pk_hex ∉ excludePks.map lowerCase := by
  unfold eligible
  rw [List.mem_mergeSort, List.mem_filter, List.mem_map, decide_eq_true_eq]

theorem eligible_perm_filter (members : List ListedMember) (excludePks : List String) :
    (eligible members excludePks).Perm
      ((members.map readMember).filter fun m => m.pk_hex ∉ excludePks.map lowerCase) :=
  List.mergeSort_perm _ keyLe

theorem eligible_eq {sorted : List ListedMember}
    (hread : (members.map readMember).filter (fun m => m.pk_hex ∉ excludePks.map lowerCase) =
      sorted)
    (hsorted : sorted.Pairwise fun a b => keyLe a b = true) :
    eligible members excludePks = sorted := by
  unfold eligible
  rw [hread, List.mergeSort_of_pairwise hsorted]

/-- Entries of one key have one stake. -/
def Level (members : List ListedMember) : Prop :=
  ∀ a ∈ members, ∀ b ∈ members, lowerCase a.pk_hex = lowerCase b.pk_hex →
    a.stake_sompi = b.stake_sompi

theorem level_of_nodup (h : (members.map fun m => lowerCase m.pk_hex).Nodup) : Level members := by
  intro a ha b hb heq
  rw [List.inj_on_of_nodup_map h ha hb heq]

/-- Where the entries of a key are alike, the order of the list does not matter. -/
theorem eligible_congr (hp : members'.Perm members) (hlevel : Level members)
    (excludePks : List String) : eligible members' excludePks = eligible members excludePks := by
  have hperm : (eligible members' excludePks).Perm (eligible members excludePks) :=
    ((eligible_perm_filter members' excludePks).trans ((hp.map readMember).filter _)).trans
      (eligible_perm_filter members excludePks).symm
  refine @List.Perm.eq_of_pairwise _ (fun a b => keyLe a b = true) _ _ ?_
    (List.pairwise_mergeSort keyLe_trans keyLe_total _)
    (List.pairwise_mergeSort keyLe_trans keyLe_total _) hperm
  intro a b ha hb hab hba
  simp only [keyLe, decide_eq_true_eq] at hab hba
  obtain ⟨⟨x, hx, rfl⟩, -⟩ := mem_eligible.mp (hperm.mem_iff.mp ha)
  obtain ⟨⟨y, hy, rfl⟩, -⟩ := mem_eligible.mp hb
  have hkey : lowerCase x.pk_hex = lowerCase y.pk_hex := le_antisymm hab hba
  unfold readMember
  rw [hkey, hlevel x hx y hy hkey]

theorem selectCommittee_perm (hp : members'.Perm members) (hlevel : Level members) (e : Engine)
    (seed : Bytes32) (excludePks : List String) :
    selectCommittee e members' seed excludePks = selectCommittee e members seed excludePks := by
  unfold selectCommittee
  rw [eligible_congr hp hlevel]

/-- The rounds draw what the library draws. -/
theorem sampleRounds_eq {i n : ℕ} {remaining sel : List ListedMember}
    (h : Sampling.draws ListedMember.stake_sompi (rand e seed) i n remaining = some sel) :
    ∃ rounds, sampleRounds e seed i n remaining = .ok rounds ∧
      rounds.map (fun r => r.1.pk_hex) = sel.map ListedMember.pk_hex := by
  induction n generalizing i remaining sel with
  | zero =>
    obtain rfl := Option.some.inj h
    exact ⟨[], rfl, rfl⟩
  | succ n ih =>
    simp only [Sampling.draws, Option.bind_eq_bind, Option.bind_eq_some_iff,
      Option.some.injEq] at h
    obtain ⟨j, hj, x, hx, rest, hrest, rfl⟩ := h
    obtain ⟨rounds, hrounds, hkeys⟩ := ih hrest
    let total := Sampling.total ListedMember.stake_sompi remaining
    refine ⟨(⟨x.pk_hex, x.stake_sompi, i⟩, ⟨i, randHash e seed i, rand e seed i % total, total,
      x.pk_hex, remaining.length⟩) :: rounds, ?_, ?_⟩
    · simp only [sampleRounds, hj, hx, orRefuse, ok_bind, hrounds]
      rfl
    · rw [List.map_cons, List.map_cons, hkeys]

theorem select_of_draws {sel : List ListedMember}
    (hlen : COMMITTEE_SIZE ≤ (eligible members excludePks).length)
    (hpos : ∀ m ∈ eligible members excludePks, 0 < m.stake_sompi)
    (h : Sampling.draws ListedMember.stake_sompi (rand e seed) 0 COMMITTEE_SIZE
      (eligible members excludePks) = some sel) :
    ∃ s, selectCommittee e members seed excludePks = .ok s ∧
      s.keys = sel.map ListedMember.pk_hex := by
  obtain ⟨rounds, hrounds, hkeys⟩ := sampleRounds_eq h
  have hfind : (eligible members excludePks).find? (fun m => m.stake_sompi ≤ 0) = none := by
    rw [List.find?_eq_none]
    intro m hm hle
    have := hpos m hm
    have := of_decide_eq_true hle
    omega
  refine ⟨⟨rounds.map Prod.fst, ⟨seed, rounds.map Prod.snd,
    (eligible members excludePks).length, COMMITTEE_SIZE⟩⟩, ?_, ?_⟩
  · simp only [selectCommittee, check, if_pos hlen, ok_bind, hfind, hrounds]
  · unfold Selection.keys
    rw [List.map_map]
    exact hkeys

/-- **The sample ends**, with five of the members that may be drawn. -/
theorem select_spec (e : Engine) (seed : Bytes32)
    (hlen : COMMITTEE_SIZE ≤ (eligible members excludePks).length)
    (hpos : ∀ m ∈ eligible members excludePks, 0 < m.stake_sompi) :
    ∃ s sel rest, selectCommittee e members seed excludePks = .ok s ∧
      s.keys = sel.map ListedMember.pk_hex ∧ sel.length = COMMITTEE_SIZE ∧
      (eligible members excludePks).Perm (sel ++ rest) := by
  obtain ⟨sel, rest, hdraws, hsel, hperm⟩ := Sampling.draws_spec (rand e seed) hpos 0 hlen
  obtain ⟨s, hs, hkeys⟩ := select_of_draws hlen hpos hdraws
  exact ⟨s, sel, rest, hs, hkeys, hsel, hperm⟩

theorem positive_of_ok {s : Selection} (h : selectCommittee e members seed excludePks = .ok s) :
    ∀ m ∈ eligible members excludePks, 0 < m.stake_sompi := by
  unfold selectCommittee at h
  rw [bind_eq_ok] at h
  obtain ⟨-, -, h⟩ := h
  split at h
  · cases h
  · next hnone =>
    intro m hm
    have hle := List.find?_eq_none.mp hnone m hm
    simpa using hle

theorem length_of_ok {s : Selection} (h : selectCommittee e members seed excludePks = .ok s) :
    COMMITTEE_SIZE ≤ (eligible members excludePks).length := by
  unfold selectCommittee at h
  rw [bind_eq_ok] at h
  obtain ⟨_, hcheck, -⟩ := h
  exact check_eq_ok.mp hcheck

/-! ### The verifier -/

theorem firstDiff_eq_none {i : ℕ} {xs ys : List String} (h : xs.length = ys.length) :
    firstDiff i xs ys = none ↔ ys.map lowerCase = xs := by
  induction xs generalizing i ys with
  | nil =>
    obtain rfl := List.length_eq_zero_iff.mp h.symm
    simp [firstDiff]
  | cons x xs ih =>
    cases ys with
    | nil => cases h
    | cons y ys =>
      rw [firstDiff, List.map_cons, List.cons.injEq]
      by_cases hxy : x = lowerCase y
      · rw [if_neg (not_not.mpr hxy), ih (Nat.succ.inj h)]
        simp [hxy]
      · simp [hxy, Ne.symm hxy]

/-- **The verifier takes the draw that leaves out nobody.** -/
theorem verify_iff {claimed : List String} {s : Selection}
    (hs : selectCommittee e members seed [] = .ok s) (hlen : s.keys.length = COMMITTEE_SIZE) :
    verifyCommitteeSelection e members seed claimed = none ↔ claimed.map lowerCase = s.keys := by
  unfold verifyCommitteeSelection
  split
  · next hne =>
    refine ⟨fun h => (by cases h), fun h => absurd ?_ hne⟩
    rw [← List.length_map, h, hlen]
  · next heq =>
    rw [hs]
    exact firstDiff_eq_none (hlen.trans (not_not.mp heq).symm)

theorem select_congr {s : Selection} (h : eligible members excludePks = eligible members [])
    (hs : selectCommittee e members seed excludePks = .ok s) :
    selectCommittee e members seed [] = .ok s := by
  unfold selectCommittee at hs ⊢
  rw [bind_eq_ok] at hs ⊢
  obtain ⟨u, hcheck, hs⟩ := hs
  rw [h] at hcheck hs
  exact ⟨u, check_eq_ok.mpr (check_eq_ok.mp hcheck), hs⟩

theorem eligible_of_none (h : ∀ m ∈ members, lowerCase m.pk_hex ∉ excludePks.map lowerCase) :
    eligible members excludePks = eligible members [] := by
  unfold eligible
  congr 1
  refine List.filter_congr ?_
  intro m hm
  obtain ⟨a, ha, rfl⟩ := List.mem_map.mp hm
  simp only [List.map_nil, List.not_mem_nil, not_false_eq_true, decide_true, decide_eq_true_eq]
  exact h a ha

theorem eligible_perm_members (members : List ListedMember) :
    (eligible members []).Perm (members.map readMember) := by
  have hall : ((members.map readMember).filter fun m => m.pk_hex ∉ ([] : List String).map lowerCase)
      = members.map readMember := List.filter_eq_self.mpr fun m _ => by simp
  have hp := eligible_perm_filter members []
  rwa [hall] at hp

theorem keys_perm (members : List ListedMember) :
    ((eligible members []).map ListedMember.pk_hex).Perm
      (members.map fun m => lowerCase m.pk_hex) := by
  have hkeys := (eligible_perm_members members).map ListedMember.pk_hex
  rwa [List.map_map] at hkeys

/-- **A fair list is sampled soundly**, with every hash and seed. -/
theorem sound_of_fair (hfair : Fair members excludePks)
    (hlen : COMMITTEE_SIZE ≤ (eligible members excludePks).length) (e : Engine) (seed : Bytes32) :
    Sound e members seed excludePks := by
  have hall := eligible_of_none hfair.none_excluded
  have hnodup : ((eligible members excludePks).map ListedMember.pk_hex).Nodup := by
    rw [hall]
    exact (keys_perm members).nodup_iff.mpr hfair.nodup
  have hpos : ∀ m ∈ eligible members excludePks, 0 < m.stake_sompi := by
    intro m hm
    obtain ⟨⟨a, ha, rfl⟩, -⟩ := mem_eligible.mp hm
    exact hfair.positive a ha
  obtain ⟨s, sel, rest, hs, hkeys, hsel, hperm⟩ := select_spec e seed hlen hpos
  have hfive : s.keys.length = COMMITTEE_SIZE := by rw [hkeys, List.length_map, hsel]
  have hmem : ∀ pk ∈ s.keys, ∃ m ∈ eligible members excludePks, m.pk_hex = pk := by
    intro pk hpk
    rw [hkeys] at hpk
    obtain ⟨m, hm, rfl⟩ := List.mem_map.mp hpk
    exact ⟨m, hperm.mem_iff.mpr (List.mem_append_left rest hm), rfl⟩
  refine ⟨⟨s, hs, hfive, ?_, ?_, ?_⟩, ?_, ?_⟩
  · have hkeysPerm := hperm.map ListedMember.pk_hex
    rw [List.map_append, ← hkeys] at hkeysPerm
    exact (List.nodup_append.mp (hkeysPerm.nodup_iff.mp hnodup)).1
  · intro pk hpk
    obtain ⟨m, hm, rfl⟩ := hmem pk hpk
    obtain ⟨⟨a, ha, rfl⟩, -⟩ := mem_eligible.mp hm
    exact List.mem_map.mpr ⟨a, ha, rfl⟩
  · intro pk hpk
    obtain ⟨m, hm, rfl⟩ := hmem pk hpk
    exact (mem_eligible.mp hm).2
  · intro members' hp
    exact selectCommittee_perm hp (level_of_nodup hfair.nodup) e seed excludePks
  · intro claimed
    rw [verify_iff (select_congr hall hs) hfive]
    refine ⟨fun h => ⟨s, hs, h⟩, ?_⟩
    intro h
    obtain ⟨s', hs'', hclaimed⟩ := h
    rw [hs] at hs''
    rw [hclaimed, Except.ok.inj hs'']

/-! ### Every list that is not fair -/

theorem bigEndian_leBytes {n k : ℕ} (h : k < 256 ^ n) :
    bigEndian (leBytes n k).reverse = k := by
  induction n generalizing k with
  | zero =>
    obtain rfl : k = 0 := by omega
    rfl
  | succ n ih =>
    have hdiv : k / 256 < 256 ^ n := by
      rw [pow_succ] at h
      omega
    have hrest := ih hdiv
    unfold bigEndian at hrest ⊢
    rw [leBytes, List.reverse_cons, List.foldl_append, hrest]
    simp
    omega

theorem bigEndian_bytes32 {k : ℕ} (h : k < 2 ^ 256) : bigEndian (leBytes 32 k).reverse = k := by
  refine bigEndian_leBytes ?_
  norm_num at h ⊢
  exact h

/-- A hash that sends the first two rounds to these numbers. -/
def aimed (r₀ r₁ : ℕ) : Engine :=
  { sampleEngine with
    blake2b := fun m => ⟨(leBytes 32 (if m.getLast? = some 0 then r₀ else r₁)).reverse, by
      rw [List.length_reverse, leBytes_length]⟩ }

theorem aimed_blake2b (r₀ r₁ : ℕ) (m : Bytes) : ((aimed r₀ r₁).blake2b m).toList =
    (leBytes 32 (if m.getLast? = some 0 then r₀ else r₁)).reverse := rfl

theorem rand_aimed (r₀ r₁ : ℕ) (seed : Bytes32) (i : ℕ) : rand (aimed r₀ r₁) seed i =
    bigEndian (leBytes 32 (if some (UInt8.ofNat i) = some 0 then r₀ else r₁)).reverse := by
  have hlast : (seed.toList ++ (leBytes 4 i).reverse).getLast? = some (UInt8.ofNat i) := by
    rw [leBytes, List.reverse_cons, ← List.append_assoc, List.getLast?_concat]
  unfold rand randHash
  rw [aimed_blake2b, hlast]

theorem rand_aimed_zero {r₀ r₁ : ℕ} (h : r₀ < 2 ^ 256) : rand (aimed r₀ r₁) ZERO32 0 = r₀ := by
  have hzero : some (UInt8.ofNat 0) = some 0 := rfl
  rw [rand_aimed, if_pos hzero, bigEndian_bytes32 h]

theorem rand_aimed_one {r₀ r₁ : ℕ} (h : r₁ < 2 ^ 256) : rand (aimed r₀ r₁) ZERO32 1 = r₁ := by
  have hone : some (UInt8.ofNat 1) ≠ some 0 := by decide
  rw [rand_aimed, if_neg hone, bigEndian_bytes32 h]

/-- Two entries of one list with one image. -/
theorem exists_twice {α β : Type} [DecidableEq β] {f : α → β} {l : List α}
    (h : ¬ (l.map f).Nodup) :
    ∃ pre x mid y post, l = pre ++ x :: (mid ++ y :: post) ∧ f x = f y := by
  induction l with
  | nil => exact absurd List.nodup_nil h
  | cons z l ih =>
    rw [List.map_cons, List.nodup_cons, not_and_or, not_not] at h
    rcases h with h | h
    · obtain ⟨y, hy, heq⟩ := List.mem_map.mp h
      obtain ⟨mid, post, rfl⟩ := List.append_of_mem hy
      exact ⟨[], z, mid, y, post, rfl, heq.symm⟩
    · obtain ⟨pre, x, mid, y, post, rfl, heq⟩ := ih h
      exact ⟨z :: pre, x, mid, y, post, rfl, heq⟩

theorem keys_of_ok {s : Selection} (hs : selectCommittee e members seed excludePks = .ok s) :
    ∃ sel, Sampling.draws ListedMember.stake_sompi (rand e seed) 0 COMMITTEE_SIZE
        (eligible members excludePks) = some sel ∧
      s.keys = sel.map ListedMember.pk_hex ∧ sel.length = COMMITTEE_SIZE := by
  have hpos := positive_of_ok hs
  have hlen := length_of_ok hs
  obtain ⟨sel, rest, hdraws, hsel, -⟩ := Sampling.draws_spec (rand e seed) hpos 0 hlen
  obtain ⟨s', hs', hkeys⟩ := select_of_draws hlen hpos hdraws
  rw [hs] at hs'
  obtain rfl := Except.ok.inj hs'
  exact ⟨sel, hdraws, hkeys, hsel⟩

/-- A hash aimed at a member draws that member first. -/
theorem keys_first {s : Selection} {pre post : List ListedMember} {x : ListedMember}
    (hs : selectCommittee e members seed excludePks = .ok s)
    (heq : eligible members excludePks = pre ++ x :: post)
    (h₀ : rand e seed 0 = Sampling.total ListedMember.stake_sompi pre) :
    ∃ sel, Sampling.draws ListedMember.stake_sompi (rand e seed) 1 4 (pre ++ post) = some sel ∧
      s.keys = x.pk_hex :: sel.map ListedMember.pk_hex := by
  obtain ⟨sel, hdraws, hkeys, -⟩ := keys_of_ok hs
  have hpos := positive_of_ok hs
  rw [heq] at hdraws hpos
  unfold COMMITTEE_SIZE at hdraws
  rw [Sampling.draws_start hpos h₀] at hdraws
  obtain ⟨sel, hrest, rfl⟩ := Option.map_eq_some_iff.mp hdraws
  exact ⟨sel, hrest, hkeys⟩

/-- The sample of a sound list is what the verifier draws. -/
theorem Sound.same_keys (h : Sound e members seed excludePks) :
    ∃ s s', selectCommittee e members seed excludePks = .ok s ∧
      selectCommittee e members seed [] = .ok s' ∧ s.keys = s'.keys ∧ s.keys.Nodup ∧
      ∀ pk ∈ s.keys, pk ∉ excludePks.map lowerCase := by
  obtain ⟨s, hs, hlen, hnodup, hmem, hout⟩ := h.selects
  have hlower : s.keys.map lowerCase = s.keys := by
    refine (List.map_congr_left ?_).trans (List.map_id _)
    intro pk hpk
    obtain ⟨m, -, rfl⟩ := List.mem_map.mp (hmem pk hpk)
    exact lowerCase_lowerCase m.pk_hex
  have hverify := (h.verified s.keys).mpr ⟨s, hs, hlower⟩
  cases hs' : selectCommittee e members seed [] with
  | error err =>
    unfold verifyCommitteeSelection at hverify
    rw [if_neg (not_not.mpr hlen), hs'] at hverify
    cases hverify
  | ok s' =>
    obtain ⟨sel, -, hkeys, hsel⟩ := keys_of_ok hs'
    have hlen' : s'.keys.length = COMMITTEE_SIZE := by rw [hkeys, List.length_map, hsel]
    refine ⟨s, s', hs, rfl, ?_, hnodup, hout⟩
    rw [← (verify_iff hs' hlen').mp hverify, hlower]

/-- **A list that is sound with every hash is fair**, if its stakes are within the range of the
hash. -/
theorem fair_of_sound (hstakes : (members.map ListedMember.stake_sompi).sum ≤ 2 ^ 256)
    (h : ∀ e seed, Sound e members seed excludePks) : Fair members excludePks := by
  have hpos : ∀ m ∈ eligible members [], 0 < m.stake_sompi := by
    obtain ⟨s, s', -, hs', -⟩ := (h sampleEngine ZERO32).same_keys
    exact positive_of_ok hs'
  have hmem : ∀ m ∈ members, readMember m ∈ eligible members [] :=
    fun m hm => mem_eligible.mpr ⟨⟨m, hm, rfl⟩, by simp⟩
  have htotal : Sampling.total ListedMember.stake_sompi (eligible members []) ≤ 2 ^ 256 := by
    have hp := (eligible_perm_members members).map ListedMember.stake_sompi
    rw [List.map_map] at hp
    exact hp.sum_eq.trans_le hstakes
  -- every start of a member is in the range of the hash
  have hstart : ∀ pre x post, eligible members [] = pre ++ x :: post →
      ∃ r : ℕ, (r : ℤ) = Sampling.total ListedMember.stake_sompi pre ∧ r < 2 ^ 256 := by
    intro pre x post heq
    rw [heq] at hpos htotal
    have hpre := Sampling.total_nonneg (w := ListedMember.stake_sompi) (l := pre)
      fun m hm => hpos m (List.mem_append_left _ hm)
    have hpost := Sampling.total_pos (w := ListedMember.stake_sompi) (l := x :: post)
      (fun m hm => hpos m (List.mem_append_right _ hm)) (List.cons_ne_nil x post)
    rw [Sampling.total_append] at htotal
    exact ⟨(Sampling.total ListedMember.stake_sompi pre).toNat, by omega, by omega⟩
  have hnone : ∀ m ∈ members, lowerCase m.pk_hex ∉ excludePks.map lowerCase := by
    intro m hm hout
    obtain ⟨pre, post, heq⟩ := List.append_of_mem (hmem m hm)
    obtain ⟨r, hr, hlt⟩ := hstart _ _ _ heq
    obtain ⟨s, s', -, hs', hsame, -, hin⟩ := (h (aimed r 0) ZERO32).same_keys
    obtain ⟨sel, -, hkeys⟩ := keys_first hs' heq ((rand_aimed_zero hlt).trans hr)
    refine hin (readMember m).pk_hex ?_ hout
    rw [hsame, hkeys]
    exact List.mem_cons_self
  refine ⟨?_, fun m hm => hpos (readMember m) (hmem m hm), hnone⟩
  rw [← (keys_perm members).nodup_iff]
  by_contra htwice
  obtain ⟨pre, x, mid, y, post, heq, hxy⟩ := exists_twice htwice
  obtain ⟨r₀, hr₀, hlt₀⟩ := hstart _ _ _ heq
  obtain ⟨r₁, hr₁, hlt₁⟩ : ∃ r : ℕ,
      (r : ℤ) = Sampling.total ListedMember.stake_sompi (pre ++ mid) ∧ r < 2 ^ 256 := by
    obtain ⟨r, hr, hlt⟩ := hstart (pre ++ x :: mid) y post (by rw [heq]; simp)
    have hx : 0 < x.stake_sompi := hpos x (by rw [heq]; simp)
    have hnonneg := Sampling.total_nonneg (w := ListedMember.stake_sompi) (l := pre ++ mid)
      fun m hm => hpos m (by
        rw [heq]
        rcases List.mem_append.mp hm with hm | hm <;> simp [hm])
    rw [Sampling.total_append, Sampling.total_cons] at hr
    rw [Sampling.total_append] at hnonneg ⊢
    exact ⟨(Sampling.total ListedMember.stake_sompi pre +
      Sampling.total ListedMember.stake_sompi mid).toNat, by omega, by omega⟩
  obtain ⟨s, s', -, hs', hsame, hnodup, -⟩ := (h (aimed r₀ r₁) ZERO32).same_keys
  obtain ⟨sel, hdraws, hkeys⟩ := keys_first hs' heq ((rand_aimed_zero hlt₀).trans hr₀)
  have hpos' : ∀ m ∈ (pre ++ mid) ++ y :: post, 0 < m.stake_sompi := by
    intro m hm
    refine hpos m ?_
    rw [heq]
    simp only [List.append_assoc, List.mem_append, List.mem_cons] at hm ⊢
    tauto
  rw [← List.append_assoc, Sampling.draws_start hpos' ((rand_aimed_one hlt₁).trans hr₁)] at hdraws
  obtain ⟨rest, -, rfl⟩ := Option.map_eq_some_iff.mp hdraws
  rw [hsame, hkeys, List.map_cons, hxy] at hnodup
  simp at hnodup

/-- **The sampler is sound on the fair lists**, and on no others: a list that is not fair has a hash
with which a key is drawn twice, or the verifier refuses the sample. -/
theorem sampler_sound_iff
    (hlen : COMMITTEE_SIZE ≤ (eligible members excludePks).length) :
    (Fair members excludePks → ∀ e seed, Sound e members seed excludePks) ∧
      ((members.map ListedMember.stake_sompi).sum ≤ 2 ^ 256 →
        (∀ e seed, Sound e members seed excludePks) → Fair members excludePks) :=
  ⟨fun hfair e seed => sound_of_fair hfair hlen e seed, fair_of_sound⟩

end

section Sample

private def list (ws : List (String × ℤ)) : List ListedMember := ws.map fun w => ⟨w.1, w.2⟩

private def six : List ListedMember :=
  list [("A", 5), ("b", 1), ("c", 1), ("d", 1), ("e", 1), ("f", 1)]

/-- One key in either case. -/
private def repeated : List ListedMember :=
  list [("a", 1), ("B", 1), ("b", 1), ("b", 1), ("b", 1), ("b", 1)]

private theorem eligible_six : eligible six [] =
    list [("a", 5), ("b", 1), ("c", 1), ("d", 1), ("e", 1), ("f", 1)] :=
  eligible_eq (by decide +kernel) (by decide +kernel)

private theorem eligible_five : eligible six ["a"] =
    list [("b", 1), ("c", 1), ("d", 1), ("e", 1), ("f", 1)] :=
  eligible_eq (by decide +kernel) (by decide +kernel)

private theorem eligible_repeated : eligible repeated [] =
    list [("a", 1), ("b", 1), ("b", 1), ("b", 1), ("b", 1), ("b", 1)] :=
  eligible_eq (by decide +kernel) (by decide +kernel)

theorem sampler_sound_iff_six :
    (Fair six [] → ∀ e seed, Sound e six seed []) ∧
      ((six.map ListedMember.stake_sompi).sum ≤ 2 ^ 256 →
        (∀ e seed, Sound e six seed []) → Fair six []) :=
  sampler_sound_iff (by rw [eligible_six]; decide)

private theorem six_drawn :
    (selectCommittee sampleEngine six ZERO32 []).toOption.map Selection.keys =
      some ["a", "d", "f", "c", "e"] := by
  unfold selectCommittee
  rw [eligible_six]
  decide +kernel

private theorem five_drawn :
    (selectCommittee sampleEngine six ZERO32 ["a"]).toOption.map Selection.keys =
      some ["c", "f", "b", "e", "d"] := by
  unfold selectCommittee
  rw [eligible_five]
  decide +kernel

private theorem repeated_drawn :
    (selectCommittee sampleEngine repeated ZERO32 []).toOption.map Selection.keys =
      some ["b", "b", "b", "b", "b"] := by
  unfold selectCommittee
  rw [eligible_repeated]
  decide +kernel

private theorem keys_of_drawn {members : List ListedMember} {excludePks keys : List String}
    {s : Selection} (hs : selectCommittee sampleEngine members ZERO32 excludePks = .ok s)
    (h : (selectCommittee sampleEngine members ZERO32 excludePks).toOption.map Selection.keys =
      some keys) : s.keys = keys := by
  rw [hs] at h
  exact Option.some.inj h

/-- The sample of a market that leaves one member out is refused, and a key that is listed in both
cases sits in every seat. -/
theorem refused_and_repeated :
    COMMITTEE_SIZE ≤ (eligible six ["a"]).length ∧ ¬ Sound sampleEngine six ZERO32 ["a"] ∧
      COMMITTEE_SIZE ≤ (eligible repeated []).length ∧
      ¬ Sound sampleEngine repeated ZERO32 [] := by
  refine ⟨by rw [eligible_five]; decide, ?_, by rw [eligible_repeated]; decide, ?_⟩
  · intro h
    obtain ⟨s, s', hs, hs', hsame, -⟩ := h.same_keys
    rw [keys_of_drawn hs five_drawn, keys_of_drawn hs' six_drawn] at hsame
    exact absurd hsame (by decide)
  · intro h
    obtain ⟨s, s', hs, -, -, hnodup, -⟩ := h.same_keys
    rw [keys_of_drawn hs repeated_drawn] at hnodup
    exact absurd hnodup (by decide)

end Sample

end KANet.Settle.Sampler
