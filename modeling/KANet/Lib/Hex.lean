import Mathlib.Data.List.Basic
import Mathlib.Data.String.Basic

/-!
# Hex digits

Bytes written as pairs of lower-case hex digits, and read back.

* `fromHex_toHex` — what is read is what was written.
* `toHex_of_fromHex` — what can be read was written so.
-/

namespace KANet.Lib

def hexDigits : List Char := "0123456789abcdef".toList

def hexValue (c : Char) : Option Nat :=
  let n := hexDigits.idxOf c
  if n < 16 then some n else none

/-- Two digits a byte; nothing, where a digit is missing or none. -/
def fromHex : List Char → Option (List UInt8)
  | a :: b :: cs => do
    let hi ← hexValue a
    let lo ← hexValue b
    (fromHex cs).map (UInt8.ofNat (16 * hi + lo) :: ·)
  | [] => some []
  | [_] => none

def toHex (bs : List UInt8) : List Char :=
  bs.flatMap fun b => [hexDigits.getD (b.toNat / 16) '0', hexDigits.getD (b.toNat % 16) '0']

theorem toHex_append (as bs : List UInt8) : toHex (as ++ bs) = toHex as ++ toHex bs :=
  List.flatMap_append

theorem hexValue_getD : ∀ n < 16, hexValue (hexDigits.getD n '0') = some n := by
  decide

theorem fromHex_toHex (bs : List UInt8) : fromHex (toHex bs) = some bs := by
  induction bs with
  | nil => rfl
  | cons b bs ih =>
    have hb : b.toNat < 256 := b.toNat_lt
    have hval : UInt8.ofNat (16 * (b.toNat / 16) + b.toNat % 16) = b := by
      rw [Nat.div_add_mod, UInt8.ofNat_toNat]
    have hcons : toHex (b :: bs) = hexDigits.getD (b.toNat / 16) '0' ::
        hexDigits.getD (b.toNat % 16) '0' :: toHex bs := rfl
    rw [hcons, fromHex, hexValue_getD _ (by omega), hexValue_getD _ (by omega), ih]
    simp only [Option.bind_eq_bind, Option.bind_some, Option.map_some, hval]

theorem hexValue_eq_some {c : Char} {n : Nat} (h : hexValue c = some n) :
    n < 16 ∧ hexDigits.getD n '0' = c := by
  unfold hexValue at h
  by_cases hc : hexDigits.idxOf c < 16
  · simp only [if_pos hc, Option.some.injEq] at h
    subst h
    have hlen : hexDigits.idxOf c < hexDigits.length := hc
    refine ⟨hc, ?_⟩
    rw [List.getD_eq_getElem?_getD, List.getElem?_eq_getElem hlen, List.getElem_idxOf]
    rfl
  · simp only [if_neg hc] at h
    cases h

theorem toHex_of_fromHex {cs : List Char} {bs : List UInt8} (h : fromHex cs = some bs) :
    toHex bs = cs := by
  induction cs using fromHex.induct generalizing bs with
  | case1 a b cs ih =>
    simp only [fromHex, Option.bind_eq_bind, Option.bind_eq_some_iff, Option.map_eq_some_iff] at h
    obtain ⟨hi, ha, lo, hb, bs, hbs, rfl⟩ := h
    obtain ⟨hhi, hahi⟩ := hexValue_eq_some ha
    obtain ⟨hlo, hblo⟩ := hexValue_eq_some hb
    have hnat : (UInt8.ofNat (16 * hi + lo)).toNat = 16 * hi + lo :=
      UInt8.toNat_ofNat_of_lt' (show 16 * hi + lo < 256 by omega)
    have hcons : toHex (UInt8.ofNat (16 * hi + lo) :: bs) =
        hexDigits.getD ((UInt8.ofNat (16 * hi + lo)).toNat / 16) '0' ::
        hexDigits.getD ((UInt8.ofNat (16 * hi + lo)).toNat % 16) '0' :: toHex bs := rfl
    rw [hcons, hnat, ih hbs, show (16 * hi + lo) / 16 = hi by omega,
      show (16 * hi + lo) % 16 = lo by omega, hahi, hblo]
  | case2 =>
    obtain rfl := Option.some.inj h
    rfl
  | case3 a => cases h

theorem toList_toLower (s : String) : s.toLower.toList = s.toList.map Char.toLower :=
  String.toList_map

theorem toLower_toLower_char (c : Char) : c.toLower.toLower = c.toLower := by
  unfold Char.toLower
  split
  · split
    · next h1 h2 =>
      simp only [UInt32.le_iff_toNat_le, UInt32.toNat_add] at h1 h2
      have : ('a'.val - 'A'.val).toNat = 32 := rfl
      have : ('A'.val).toNat = 65 := rfl
      have : ('Z'.val).toNat = 90 := rfl
      omega
    · rfl
  · rfl

/-- `toLowerCase`, on the list of the characters: so it can be evaluated. -/
def lowerCase (s : String) : String := String.ofList (s.toList.map Char.toLower)

theorem lowerCase_lowerCase (s : String) : lowerCase (lowerCase s) = lowerCase s := by
  rw [lowerCase, lowerCase, String.toList_ofList, List.map_map]
  exact congrArg String.ofList (List.map_congr_left fun c _ => toLower_toLower_char c)

theorem toLower_hexDigit : ∀ n < 16, (hexDigits.getD n '0').toLower = hexDigits.getD n '0' := by
  decide

/-- The digits are lower-case letters. -/
theorem map_toLower_toHex (bs : List UInt8) : (toHex bs).map Char.toLower = toHex bs := by
  induction bs with
  | nil => rfl
  | cons b bs ih =>
    have hb : b.toNat < 256 := b.toNat_lt
    have hcons : toHex (b :: bs) = hexDigits.getD (b.toNat / 16) '0' ::
        hexDigits.getD (b.toNat % 16) '0' :: toHex bs := rfl
    rw [hcons, List.map_cons, List.map_cons, ih, toLower_hexDigit _ (by omega),
      toLower_hexDigit _ (by omega)]

end KANet.Lib
