import KANet.Lib.Hex
import KANet.Script.Basic

/-!
# Signature scripts

The script that unlocks an input only pushes.  `encodePush` is the relay's encoder of one push,
`readPushes` what the engine has on its stack after the script, for the opcodes the relay writes.
A script travels as hex digits, in either case.

* `readPush_encodePush` — what is pushed is what was encoded.
* `readPushes_flatten` — pushes one after the other.
* `readHex_append` — digits one after the other.
-/

namespace KANet.Script

open KANet.Lib

/-- `_encodePushDataHex`, before it is written in hex. -/
def encodePush (bs : Bytes) : Option Bytes :=
  if bs.length ≤ 75 then some (UInt8.ofNat bs.length :: bs)
  else if bs.length ≤ 255 then some (0x4c :: UInt8.ofNat bs.length :: bs)
  else if bs.length ≤ 65535 then
    some (0x4d :: UInt8.ofNat (bs.length % 256) :: UInt8.ofNat (bs.length / 256) :: bs)
  else none

/-- So many bytes, and what stands behind them. -/
def splitBytes (n : Nat) (bs : Bytes) : Option (Bytes × Bytes) :=
  if n ≤ bs.length then some (bs.take n, bs.drop n) else none

/-- The first push of a script, and what stands behind it. -/
def readPush : Bytes → Option (Bytes × Bytes)
  | 0x4c :: n :: bs => splitBytes n.toNat bs
  | 0x4d :: lo :: hi :: bs => splitBytes (lo.toNat + 256 * hi.toNat) bs
  | 0x51 :: bs => some ([1], bs)
  | op :: bs => if op.toNat ≤ 75 then splitBytes op.toNat bs else none
  | [] => none

/-- What a script of so many pushes at most leaves on the stack. -/
def readPushes : Nat → Bytes → Option (List Bytes)
  | _, [] => some []
  | 0, _ :: _ => none
  | k + 1, b :: bs => do
    let (item, rest) ← readPush (b :: bs)
    (readPushes k rest).map (item :: ·)

/-- A number up to one, as it is pushed. -/
def numberPush (n : Int) : Bytes := if n = 0 then [] else [1]

/-! ### Bytes -/

theorem splitBytes_append {n : Nat} {bs item rest : Bytes} (h : splitBytes n bs = some (item, rest))
    (more : Bytes) : splitBytes n (bs ++ more) = some (item, rest ++ more) := by
  unfold splitBytes at *
  split at h
  · next hle =>
    obtain ⟨rfl, rfl⟩ := Prod.mk.inj (Option.some.inj h)
    have hlong : n ≤ (bs ++ more).length := by
      rw [List.length_append]
      omega
    rw [if_pos hlong, List.take_append_of_le_length hle, List.drop_append_of_le_length hle]
  · cases h

theorem splitBytes_length (bs : Bytes) : splitBytes bs.length bs = some (bs, []) := by
  rw [splitBytes, if_pos le_rfl, List.take_length, List.drop_length]

theorem readPush_of_le {op : UInt8} (h : op.toNat ≤ 75) (bs : Bytes) :
    readPush (op :: bs) = splitBytes op.toNat bs := by
  unfold readPush
  split
  · next heq => exact absurd ((List.cons.inj heq).1 ▸ h) (by decide)
  · next heq => exact absurd ((List.cons.inj heq).1 ▸ h) (by decide)
  · next heq => exact absurd ((List.cons.inj heq).1 ▸ h) (by decide)
  · next heq =>
    obtain ⟨rfl, rfl⟩ := List.cons.inj heq
    rw [if_pos h]
  · next heq => cases heq

theorem readPush_append {bs item rest : Bytes} (h : readPush bs = some (item, rest))
    (more : Bytes) : readPush (bs ++ more) = some (item, rest ++ more) := by
  unfold readPush at h
  split at h
  · exact splitBytes_append h more
  · exact splitBytes_append h more
  · obtain ⟨rfl, rfl⟩ := Prod.mk.inj (Option.some.inj h)
    rfl
  · split at h
    · next hle =>
      rw [List.cons_append, readPush_of_le hle]
      exact splitBytes_append h more
    · cases h
  · cases h

theorem toNat_ofNat_of_lt {n : Nat} (h : n < 256) : (UInt8.ofNat n).toNat = n :=
  UInt8.toNat_ofNat_of_lt' h

/-- **What is pushed is what was encoded.** -/
theorem readPush_encodePush {bs push : Bytes} (h : encodePush bs = some push) :
    readPush push = some (bs, []) := by
  unfold encodePush at h
  split at h
  · next hle =>
    obtain rfl := Option.some.inj h
    have hlen : (UInt8.ofNat bs.length).toNat = bs.length := toNat_ofNat_of_lt (by omega)
    rw [readPush_of_le (by omega), hlen, splitBytes_length]
  · split at h
    · obtain rfl := Option.some.inj h
      have hlen : (UInt8.ofNat bs.length).toNat = bs.length := toNat_ofNat_of_lt (by omega)
      rw [readPush, hlen, splitBytes_length]
    · split at h
      · obtain rfl := Option.some.inj h
        have hlo : (UInt8.ofNat (bs.length % 256)).toNat = bs.length % 256 :=
          toNat_ofNat_of_lt (by omega)
        have hhi : (UInt8.ofNat (bs.length / 256)).toNat = bs.length / 256 :=
          toNat_ofNat_of_lt (by omega)
        rw [readPush, hlo, hhi, Nat.mod_add_div, splitBytes_length]
      · cases h

theorem encodePush_of_short {bs : Bytes} (h : bs.length ≤ 65535) :
    ∃ push, encodePush bs = some push := by
  unfold encodePush
  rw [if_pos h]
  split
  · exact ⟨_, rfl⟩
  · split
    · exact ⟨_, rfl⟩
    · exact ⟨_, rfl⟩

theorem readPushes_cons {bs item : Bytes} (h : readPush bs = some (item, [])) (k : Nat)
    (more : Bytes) : readPushes (k + 1) (bs ++ more) = (readPushes k more).map (item :: ·) := by
  have hread := readPush_append h more
  rw [List.nil_append] at hread
  cases hbs : bs ++ more with
  | nil =>
    rw [hbs] at hread
    cases hread
  | cons b rest =>
    rw [hbs] at hread
    simp only [readPushes, hread, Option.bind_eq_bind, Option.bind_some]

/-- **Pushes one after the other.** -/
theorem readPushes_flatten {pushes items : List Bytes}
    (h : List.Forall₂ (fun bs item => readPush bs = some (item, [])) pushes items) {k : Nat}
    (hk : pushes.length ≤ k) : readPushes k pushes.flatten = some items := by
  induction h generalizing k with
  | nil => cases k <;> rfl
  | @cons bs item pushes items hread _ ih =>
    obtain ⟨k, rfl⟩ : ∃ j, k = j + 1 := ⟨k - 1, by rw [List.length_cons] at hk; omega⟩
    rw [List.length_cons, Nat.add_le_add_iff_right] at hk
    rw [List.flatten_cons, readPushes_cons hread, ih hk, Option.map_some]

theorem readPush_numberPush {n : Int} (h : n = 0 ∨ n = 1) :
    readPush (if n = 0 then [0x00] else [0x51]) = some (numberPush n, []) := by
  rcases h with rfl | rfl
  · rfl
  · rfl

theorem length_pos_of_readPush {bs item rest : Bytes} (h : readPush bs = some (item, rest)) :
    1 ≤ bs.length := by
  cases bs with
  | nil => cases h
  | cons b bs => exact Nat.le_add_left _ _

/-- A script is no shorter than the number of its pushes. -/
theorem length_le_flatten {pushes items : List Bytes}
    (h : List.Forall₂ (fun bs item => readPush bs = some (item, [])) pushes items) :
    pushes.length ≤ pushes.flatten.length := by
  induction h with
  | nil => exact Nat.le_refl _
  | cons hread _ ih =>
    have hpos := length_pos_of_readPush hread
    rw [List.length_cons, List.flatten_cons, List.length_append]
    omega

/-! ### Digits -/

/-- The bytes that hex digits of either case stand for. -/
def readHex (cs : List Char) : Option Bytes := fromHex (cs.map Char.toLower)

theorem readHex_append {cs ds : List Char} {as bs : Bytes} (hcs : readHex cs = some as)
    (hds : readHex ds = some bs) : readHex (cs ++ ds) = some (as ++ bs) := by
  unfold readHex at *
  rw [List.map_append, ← toHex_of_fromHex hcs, ← toHex_of_fromHex hds, ← toHex_append,
    fromHex_toHex]

theorem toLower_hexDigit : ∀ n < 16, (hexDigits.getD n '0').toLower = hexDigits.getD n '0' := by
  decide

theorem readHex_toHex (bs : Bytes) : readHex (toHex bs) = some bs := by
  have hlower : (toHex bs).map Char.toLower = toHex bs := by
    induction bs with
    | nil => rfl
    | cons b bs ih =>
      have hb : b.toNat < 256 := b.toNat_lt
      have hcons : toHex (b :: bs) = hexDigits.getD (b.toNat / 16) '0' ::
          hexDigits.getD (b.toNat % 16) '0' :: toHex bs := rfl
      rw [hcons, List.map_cons, List.map_cons, ih, toLower_hexDigit _ (by omega),
        toLower_hexDigit _ (by omega)]
  rw [readHex, hlower, fromHex_toHex]

end KANet.Script
