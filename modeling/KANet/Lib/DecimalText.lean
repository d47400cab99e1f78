import Mathlib.Algebra.Order.Field.Rat
import Mathlib.Tactic.FieldSimp
import Mathlib.Tactic.Ring

/-!
# Decimals as texts

Digits with a point among them, as a number and as an integer over a power of ten.

* `number_append` — digits put one after another.
* `Parts.value_eq` — the digits without the point, over ten to the number of those behind it.
-/

namespace KANet.Lib.DecimalText

/-- White space, as `trim` has it. -/
def isSpace (c : Char) : Bool :=
  c ∈ ['\t', '\n', '\x0b', '\x0c', '\r', ' ', '\u00a0', '\u1680', '\u2028', '\u2029', '\u202f',
    '\u205f', '\u3000', '\ufeff'] || ('\u2000' ≤ c && c ≤ '\u200a')

def trim (s : List Char) : List Char :=
  ((s.dropWhile isSpace).reverse.dropWhile isSpace).reverse

def digit (c : Char) : ℕ := c.toNat - 48

/-- The number that digits stand for, the highest first. -/
def number (cs : List Char) : ℕ := cs.foldl (fun n c => n * 10 + digit c) 0

theorem foldl_digit (n : ℕ) (cs : List Char) :
    cs.foldl (fun n c => n * 10 + digit c) n = n * 10 ^ cs.length + number cs := by
  induction cs generalizing n with
  | nil => simp [number]
  | cons c cs ih =>
    have hzero := ih (0 * 10 + digit c)
    unfold number
    rw [List.foldl_cons, List.foldl_cons, ih, hzero, List.length_cons, pow_succ]
    ring

theorem number_append (as bs : List Char) :
    number (as ++ bs) = number as * 10 ^ bs.length + number bs := by
  unfold number
  rw [List.foldl_append, foldl_digit]
  rfl

/-- The sign, and the digits on either side of the point. -/
structure Parts where
  neg : Bool
  int : List Char
  frac : List Char
deriving DecidableEq

/-- `/^-?\d+(\.\d+)?$/` -/
def parts (s : List Char) : Option Parts :=
  let neg := s.head? = some '-'
  let body := if neg then s.tail else s
  let int := body.takeWhile (· ≠ '.')
  let rest := body.dropWhile (· ≠ '.')
  let frac := rest.tail
  if int ≠ [] ∧ int.all Char.isDigit ∧ frac.all Char.isDigit ∧ (rest = [] ∨ frac ≠ []) then
    some ⟨neg, int, frac⟩
  else none

def Parts.sign (p : Parts) : ℤ := if p.neg then -1 else 1

/-- The digits without the point. -/
def Parts.mag (p : Parts) : ℕ := number (p.int ++ p.frac)

/-- What the text says. -/
def Parts.value (p : Parts) : ℚ :=
  p.sign * (number p.int + (number p.frac : ℚ) / 10 ^ p.frac.length)

theorem Parts.value_eq (p : Parts) :
    p.value = ((p.sign * p.mag : ℤ) : ℚ) / 10 ^ p.frac.length := by
  have hpow : (10 : ℚ) ^ p.frac.length ≠ 0 := pow_ne_zero _ (by norm_num)
  unfold value mag
  rw [number_append]
  push_cast
  field_simp

end KANet.Lib.DecimalText
