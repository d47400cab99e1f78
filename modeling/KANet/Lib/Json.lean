import KANet.Lib.StableSort
import Mathlib.Data.List.Basic
import Mathlib.Data.Nat.Digits.Defs
import Mathlib.Data.String.Basic

/-!
# The text of a JSON value

Values, and the text `JSON.stringify` writes for them: no blanks, control characters escaped, the
members of an object in the order they stand.  A number that is not an integer is given by its text.

`text_inj` says that the text determines the value.  It is proved with something behind the
text, as it stands in an array or in an object: a value ends where its text ends
(`text_append_inj`), since a quote ends a string, a bracket ends an array, and a number
is followed by no character of a number.

* `text_inj` — the text determines the value.
* `canonicalText_inj` — the text with sorted keys determines the value up to their order.
* `get_canonical` — the members do not depend on that order.
* `member_within` — a member stands in the text as it is.
-/

namespace KANet.Lib

/-- A character of a number. -/
def numeric (c : Char) : Bool := c.isDigit || c ∈ ['-', '+', '.', 'e']

/-- A number that is not an integer, by its text. -/
@[ext]
structure Decimal where
  text : List Char
  numeric : ∀ c ∈ text, numeric c = true
  head : ∃ c ∈ text.head?, c.isDigit = true ∨ c = '-'
  broken : ∃ c ∈ text, c = '.' ∨ c = 'e'

inductive Json
  | null
  | bool (b : Bool)
  | num (n : Int)
  | dec (d : Decimal)
  | str (s : String)
  | arr (vs : List Json)
  | obj (ms : List (String × Json))

namespace Json

/-! ### Strings -/

def hexDigit (n : Nat) : Char := "0123456789abcdef".toList.getD n '0'

/-- What stands for a control character behind a backslash. -/
def control (n : Nat) : List Char :=
  if n = 8 then ['b']
  else if n = 9 then ['t']
  else if n = 10 then ['n']
  else if n = 12 then ['f']
  else if n = 13 then ['r']
  else ['u', '0', '0', hexDigit (n / 16), hexDigit (n % 16)]

/-- What stands for a character behind a backslash, if it is written with one. -/
def escape (c : Char) : Option (List Char) :=
  if c = '"' then some ['"']
  else if c = '\\' then some ['\\']
  else if c.toNat < 32 then some (control c.toNat)
  else none

def charText (c : Char) : List Char :=
  match escape c with
  | some cs => '\\' :: cs
  | none => [c]

/-- The characters of a string and the quote that ends it. -/
def body : List Char → List Char
  | [] => ['"']
  | c :: cs => charText c ++ body cs

def quote (s : String) : List Char := '"' :: body s.toList

/-- A string without characters that need a backslash stands between its quotes as it is. -/
theorem quote_plain {s : String} (h : ∀ c ∈ s.toList, escape c = none) :
    quote s = '"' :: (s.toList ++ ['"']) := by
  have hbody : ∀ cs : List Char, (∀ c ∈ cs, escape c = none) → body cs = cs ++ ['"'] := by
    intro cs hcs
    induction cs with
    | nil => rfl
    | cons c cs ih =>
      rw [body, charText, hcs c (by simp), ih fun c hc => hcs c (by simp [hc])]
      rfl
  rw [quote, hbody _ h]

/-- The characters that are written with a backslash. -/
def escaped : List Char := '"' :: '\\' :: (List.range 32).map Char.ofNat

theorem mem_escaped {c : Char} {cs : List Char} (h : escape c = some cs) : c ∈ escaped := by
  unfold escape at h
  by_cases h₀ : c = '"'
  · rw [h₀]
    exact List.mem_cons_self
  · by_cases h₁ : c = '\\'
    · rw [h₁]
      exact List.mem_cons_of_mem _ List.mem_cons_self
    · by_cases h₂ : c.toNat < 32
      · apply List.mem_cons_of_mem
        apply List.mem_cons_of_mem
        exact List.mem_map.mpr ⟨c.toNat, List.mem_range.mpr h₂, Char.ofNat_toNat c⟩
      · rw [if_neg h₀, if_neg h₁, if_neg h₂] at h
        cases h

theorem escape_ne {c : Char} (h : escape c = none) : c ≠ '"' ∧ c ≠ '\\' := by
  constructor
  · rintro rfl
    cases h
  · rintro rfl
    cases h

/-- No escape is the beginning of another. -/
theorem escape_unique : ∀ c ∈ escaped, ∀ c' ∈ escaped,
    (escape c).getD [] <+: (escape c').getD [] → c = c' := by
  have hall : (escaped.all fun c => escaped.all fun c' =>
      !((escape c).getD []).isPrefixOf ((escape c').getD []) || c == c') = true := by
    decide
  intro c hc c' hc' hp
  have hcc := List.all_eq_true.mp (List.all_eq_true.mp hall c hc) c' hc'
  rw [List.isPrefixOf_iff_prefix.mpr hp] at hcc
  simpa using hcc

theorem charText_append_inj {c c' : Char} {r r' : List Char}
    (h : charText c ++ r = charText c' ++ r') : c = c' ∧ r = r' := by
  unfold charText at h
  cases hc : escape c with
  | none =>
    cases hc' : escape c' with
    | none =>
      rw [hc, hc'] at h
      exact List.cons.inj h
    | some cs' =>
      rw [hc, hc'] at h
      exact absurd (List.cons.inj h).1 (escape_ne hc).2
  | some cs =>
    cases hc' : escape c' with
    | none =>
      rw [hc, hc'] at h
      exact absurd (List.cons.inj h).1.symm (escape_ne hc').2
    | some cs' =>
      rw [hc, hc'] at h
      have htail : cs ++ r = cs' ++ r' := (List.cons.inj h).2
      have heq : c = c' := by
        rcases List.prefix_or_prefix_of_prefix (List.prefix_append cs r)
          (htail ▸ List.prefix_append cs' r') with hp | hp
        · exact escape_unique c (mem_escaped hc) c' (mem_escaped hc') (by rw [hc, hc']; exact hp)
        · exact (escape_unique c' (mem_escaped hc') c (mem_escaped hc)
            (by rw [hc, hc']; exact hp)).symm
      subst heq
      obtain rfl := Option.some.inj (hc.symm.trans hc')
      exact ⟨rfl, List.append_cancel_left htail⟩

theorem charText_ne_quote {c : Char} {r r' : List Char} : charText c ++ r ≠ '"' :: r' := by
  intro h
  unfold charText at h
  cases hc : escape c with
  | none =>
    rw [hc] at h
    exact (escape_ne hc).1 (List.cons.inj h).1
  | some cs =>
    rw [hc] at h
    exact absurd (List.cons.inj h).1 (by decide)

theorem body_append_inj {s s' r r' : List Char} (h : body s ++ r = body s' ++ r') :
    s = s' ∧ r = r' := by
  induction s generalizing s' with
  | nil =>
    cases s' with
    | nil => exact ⟨rfl, (List.cons.inj h).2⟩
    | cons c' s' =>
      rw [body, body, List.append_assoc] at h
      exact absurd h.symm charText_ne_quote
  | cons c s ih =>
    cases s' with
    | nil =>
      rw [body, body, List.append_assoc] at h
      exact absurd h charText_ne_quote
    | cons c' s' =>
      rw [body, body, List.append_assoc, List.append_assoc] at h
      obtain ⟨rfl, hrest⟩ := charText_append_inj h
      obtain ⟨rfl, hr⟩ := ih hrest
      exact ⟨rfl, hr⟩

/-- **A quote ends a string.** -/
theorem quote_append_inj {s s' : String} {r r' : List Char}
    (h : quote s ++ r = quote s' ++ r') : s = s' ∧ r = r' := by
  obtain ⟨hs, hr⟩ := body_append_inj (List.cons.inj h).2
  exact ⟨String.toList_inj.mp hs, hr⟩

/-! ### Numbers -/

/-- The decimal digits, the highest first. -/
def digits (n : Nat) : List Char :=
  if n = 0 then ['0'] else (Nat.digits 10 n).reverse.map Nat.digitChar

def digitValue (c : Char) : Nat := c.toNat - 48

theorem digitChar_spec : ∀ d < 10, (Nat.digitChar d).isDigit = true ∧
    digitValue (Nat.digitChar d) = d := by
  decide

theorem digits_isDigit {n : Nat} : ∀ c ∈ digits n, c.isDigit = true := by
  unfold digits
  by_cases h : n = 0
  · rw [if_pos h]
    simp
  · rw [if_neg h]
    intro c hc
    obtain ⟨d, hd, rfl⟩ := List.mem_map.mp hc
    exact (digitChar_spec d (Nat.digits_lt_base (by norm_num) (List.mem_reverse.mp hd))).1

/-- The digits give the number back. -/
theorem ofDigits_digits (n : Nat) :
    Nat.ofDigits 10 ((digits n).reverse.map digitValue) = n := by
  unfold digits
  by_cases h : n = 0
  · rw [if_pos h, h]
    rfl
  · have hval :
        ((Nat.digits 10 n).map fun d => digitValue (Nat.digitChar d)) = Nat.digits 10 n := by
      rw [List.map_congr_left (g := id)]
      · exact List.map_id _
      · intro d hd
        exact (digitChar_spec d (Nat.digits_lt_base (by norm_num) hd)).2
    rw [if_neg h, ← List.map_reverse, List.reverse_reverse, List.map_map]
    exact (congrArg (Nat.ofDigits 10) hval).trans (Nat.ofDigits_digits 10 n)

theorem digits_inj {m n : Nat} (h : digits m = digits n) : m = n := by
  rw [← ofDigits_digits m, h, ofDigits_digits]

theorem digits_ne_nil (n : Nat) : digits n ≠ [] := by
  unfold digits
  by_cases h : n = 0
  · rw [if_pos h]
    simp
  · rw [if_neg h]
    simpa using Nat.digits_ne_nil_iff_ne_zero.mpr h

/-- What follows a value in a text: nothing, or something that is no part of a number. -/
def Follows (r : List Char) : Prop := ∀ c ∈ r.head?, numeric c = false

/-- A number ends where its characters end. -/
theorem takeWhile_numeric {t r : List Char} (ht : ∀ c ∈ t, numeric c = true) (hr : Follows r) :
    (t ++ r).takeWhile numeric = t := by
  rw [List.takeWhile_append_of_pos ht]
  cases r with
  | nil => rw [List.takeWhile_nil, List.append_nil]
  | cons c r =>
    rw [List.takeWhile_cons_of_neg (by simp [hr c rfl]), List.append_nil]

theorem numeric_append_inj {t t' r r' : List Char} (ht : ∀ c ∈ t, numeric c = true)
    (ht' : ∀ c ∈ t', numeric c = true) (hr : Follows r) (hr' : Follows r')
    (h : t ++ r = t' ++ r') : t = t' ∧ r = r' := by
  have htt : t = t' := by
    rw [← takeWhile_numeric ht hr, h, takeWhile_numeric ht' hr']
  rw [htt] at h
  exact ⟨htt, List.append_cancel_left h⟩

def intText : Int → List Char
  | .ofNat n => digits n
  | .negSucc n => '-' :: digits (n + 1)

theorem digits_ne_minus {n : Nat} {r : List Char} : digits n ≠ '-' :: r := by
  intro h
  have hdig := digits_isDigit '-' (by rw [h]; exact List.mem_cons_self)
  exact absurd hdig (by decide)

theorem intText_inj {m n : Int} (h : intText m = intText n) : m = n := by
  cases m with
  | ofNat m =>
    cases n with
    | ofNat n => exact congrArg Int.ofNat (digits_inj h)
    | negSucc n => exact absurd h digits_ne_minus
  | negSucc m =>
    cases n with
    | ofNat n => exact absurd h.symm digits_ne_minus
    | negSucc n => exact congrArg Int.negSucc (Nat.succ.inj (digits_inj (List.cons.inj h).2))

/-- An integer has digits and perhaps a sign. -/
theorem mem_intText {n : Int} {c : Char} (h : c ∈ intText n) : c.isDigit = true ∨ c = '-' := by
  cases n with
  | ofNat n => exact Or.inl (digits_isDigit c h)
  | negSucc n =>
    rcases List.mem_cons.mp h with rfl | h
    · exact Or.inr rfl
    · exact Or.inl (digits_isDigit c h)

theorem intText_numeric {n : Int} : ∀ c ∈ intText n, numeric c = true := by
  intro c hc
  rcases mem_intText hc with hd | rfl
  · rw [numeric, hd, Bool.true_or]
  · rfl

theorem intText_ne_decimal {n : Int} {d : Decimal} : intText n ≠ d.text := by
  intro h
  obtain ⟨c, hc, hbroken⟩ := d.broken
  rw [← h] at hc
  rcases hbroken with rfl | rfl
  · exact absurd (mem_intText hc) (by decide)
  · exact absurd (mem_intText hc) (by decide)

/-! ### Values -/

mutual

def text : Json → List Char
  | .null => ['n', 'u', 'l', 'l']
  | .bool true => ['t', 'r', 'u', 'e']
  | .bool false => ['f', 'a', 'l', 's', 'e']
  | .num n => intText n
  | .dec d => d.text
  | .str s => quote s
  | .arr vs => '[' :: elems true vs
  | .obj ms => '\x7b' :: members true ms

/-- The elements with the bracket behind them, and a comma before each but the first. -/
def elems : Bool → List Json → List Char
  | _, [] => [']']
  | true, v :: vs => text v ++ elems false vs
  | false, v :: vs => ',' :: (text v ++ elems false vs)

def members : Bool → List (String × Json) → List Char
  | _, [] => ['\x7d']
  | true, (k, v) :: ms => quote k ++ ':' :: (text v ++ members false ms)
  | false, (k, v) :: ms => ',' :: (quote k ++ ':' :: (text v ++ members false ms))

end

/-- A member stands in the text of its object. -/
theorem member_within {k : String} {v : Json} {ms : List (String × Json)} (h : (k, v) ∈ ms)
    (first : Bool) : quote k ++ ':' :: text v <:+: members first ms := by
  induction ms generalizing first with
  | nil => cases h
  | cons m ms ih =>
    obtain ⟨k', v'⟩ := m
    rcases List.mem_cons.mp h with heq | h
    · cases heq
      cases first with
      | true => exact ⟨[], members false ms, by simp [members]⟩
      | false => exact ⟨[','], members false ms, by simp [members]⟩
    · obtain ⟨a, b, hab⟩ := ih h false
      cases first with
      | true => exact ⟨quote k' ++ ':' :: text v' ++ a, b, by simp [members, ← hab]⟩
      | false => exact ⟨',' :: (quote k' ++ ':' :: text v' ++ a), b, by simp [members, ← hab]⟩

/-- The kind of a value, by the first character of its text. -/
def kind : Json → Nat
  | .null => 0
  | .bool _ => 1
  | .num _ => 2
  | .dec _ => 2
  | .str _ => 3
  | .arr _ => 4
  | .obj _ => 5

def kindOf (c : Char) : Nat :=
  if c = 'n' then 0
  else if c = 't' ∨ c = 'f' then 1
  else if c = '"' then 3
  else if c = '[' then 4
  else if c = '\x7b' then 5
  else if c.isDigit = true ∨ c = '-' then 2
  else 6

theorem digit_kind {c : Char} (h : c.isDigit = true) : kindOf c = 2 := by
  have hne : ∀ d ∈ ['n', 't', 'f', '"', '[', '\x7b'], c ≠ d := by
    intro d hd hcd
    have hdig : ∀ d ∈ ['n', 't', 'f', '"', '[', '\x7b'], d.isDigit = false := by
      simp only [List.forall_mem_cons]
      exact ⟨rfl, rfl, rfl, rfl, rfl, rfl, List.forall_mem_nil _⟩
    rw [hcd, hdig d hd] at h
    cases h
  simp only [List.forall_mem_cons] at hne
  obtain ⟨h₀, h₁, h₂, h₃, h₄, h₅, -⟩ := hne
  rw [kindOf, if_neg h₀, if_neg (not_or.mpr ⟨h₁, h₂⟩), if_neg h₃, if_neg h₄, if_neg h₅,
    if_pos (Or.inl h)]

/-- A value shows its kind at once. -/
theorem text_kind (v : Json) : ∃ c cs, text v = c :: cs ∧ kindOf c = kind v := by
  cases v with
  | null => exact ⟨_, _, by rw [text], rfl⟩
  | bool b =>
    cases b with
    | true => exact ⟨_, _, by rw [text], rfl⟩
    | false => exact ⟨_, _, by rw [text], rfl⟩
  | num n =>
    cases n with
    | ofNat n =>
      obtain ⟨c, cs, hc⟩ := List.exists_cons_of_ne_nil (digits_ne_nil n)
      refine ⟨c, cs, by rw [text, intText, hc], ?_⟩
      exact digit_kind (digits_isDigit c (by rw [hc]; exact List.mem_cons_self))
    | negSucc n => exact ⟨_, _, by rw [text, intText], rfl⟩
  | dec d =>
    obtain ⟨c, hc, hhead⟩ := d.head
    obtain ⟨cs, hcs⟩ := List.head?_eq_some_iff.mp hc
    refine ⟨c, cs, by rw [text, hcs], ?_⟩
    rcases hhead with hd | rfl
    · exact digit_kind hd
    · rfl
  | str s => exact ⟨_, _, by rw [text, quote], rfl⟩
  | arr vs => exact ⟨_, _, by rw [text], rfl⟩
  | obj ms => exact ⟨_, _, by rw [text], rfl⟩

theorem kind_eq {v v' : Json} {r r' : List Char} (h : text v ++ r = text v' ++ r') :
    kind v = kind v' := by
  obtain ⟨c, cs, hc, hk⟩ := text_kind v
  obtain ⟨c', cs', hc', hk'⟩ := text_kind v'
  rw [hc, hc'] at h
  rw [← hk, ← hk', (List.cons.inj h).1]

/-- A text is not a bracket that closes. -/
theorem text_ne_close {v : Json} {r : List Char} {c : Char} {cs : List Char}
    (hc : kindOf c = 6) : text v ++ r ≠ c :: cs := by
  intro h
  obtain ⟨c', cs', hc', hk⟩ := text_kind v
  rw [hc'] at h
  rw [(List.cons.inj h).1, hc] at hk
  cases v <;> cases hk

theorem follows_cons {c : Char} {r : List Char} (h : numeric c = false) : Follows (c :: r) := by
  intro c' hc'
  obtain rfl := Option.some.inj hc'
  exact h

theorem follows_elems (vs : List Json) (r : List Char) : Follows (elems false vs ++ r) := by
  cases vs with
  | nil =>
    rw [elems]
    exact follows_cons rfl
  | cons v vs =>
    rw [elems]
    exact follows_cons rfl

theorem follows_members (ms : List (String × Json)) (r : List Char) :
    Follows (members false ms ++ r) := by
  cases ms with
  | nil =>
    rw [members]
    exact follows_cons rfl
  | cons m ms =>
    rw [members]
    exact follows_cons rfl

mutual

/-- **A value ends where its text ends.** -/
theorem text_append_inj (v v' : Json) {r r' : List Char} (hr : Follows r) (hr' : Follows r')
    (h : text v ++ r = text v' ++ r') : v = v' ∧ r = r' := by
  have hk := kind_eq h
  match v, v', hk with
  | .null, .null, _ => exact ⟨rfl, List.append_cancel_left h⟩
  | .bool true, .bool true, _ => exact ⟨rfl, List.append_cancel_left h⟩
  | .bool true, .bool false, _ => 
    rw [text, text] at h
    exact absurd (List.cons.inj h).1 (by decide)
  | .bool false, .bool true, _ =>
    rw [text, text] at h
    exact absurd (List.cons.inj h).1 (by decide)
  | .bool false, .bool false, _ => exact ⟨rfl, List.append_cancel_left h⟩
  | .num n, .num n', _ =>
    rw [text, text] at h
    obtain ⟨hn, hrest⟩ := numeric_append_inj intText_numeric intText_numeric hr hr' h
    exact ⟨congrArg Json.num (intText_inj hn), hrest⟩
  | .num n, .dec d, _ =>
    rw [text, text] at h
    exact absurd (numeric_append_inj intText_numeric d.numeric hr hr' h).1 intText_ne_decimal
  | .dec d, .num n, _ =>
    rw [text, text] at h
    exact absurd (numeric_append_inj d.numeric intText_numeric hr hr' h).1.symm intText_ne_decimal
  | .dec d, .dec d', _ =>
    rw [text, text] at h
    obtain ⟨hd, hrest⟩ := numeric_append_inj d.numeric d'.numeric hr hr' h
    exact ⟨congrArg Json.dec (Decimal.ext hd), hrest⟩
  | .str s, .str s', _ =>
    rw [text, text] at h
    obtain ⟨rfl, hrest⟩ := quote_append_inj h
    exact ⟨rfl, hrest⟩
  | .arr vs, .arr vs', _ =>
    rw [text, text] at h
    obtain ⟨rfl, hrest⟩ := elems_append_inj true vs vs' (List.cons.inj h).2
    exact ⟨rfl, hrest⟩
  | .obj ms, .obj ms', _ =>
    rw [text, text] at h
    obtain ⟨rfl, hrest⟩ := members_append_inj true ms ms' (List.cons.inj h).2
    exact ⟨rfl, hrest⟩

theorem elems_append_inj (first : Bool) (vs vs' : List Json) {r r' : List Char}
    (h : elems first vs ++ r = elems first vs' ++ r') : vs = vs' ∧ r = r' := by
  match first, vs, vs' with
  | _, [], [] =>
    rw [elems] at h
    exact ⟨rfl, (List.cons.inj h).2⟩
  | true, [], v' :: vs' =>
    rw [elems, elems, List.append_assoc] at h
    exact absurd h.symm (text_ne_close rfl)
  | true, v :: vs, [] =>
    rw [elems, elems, List.append_assoc] at h
    exact absurd h (text_ne_close rfl)
  | false, [], v' :: vs' =>
    rw [elems, elems] at h
    exact absurd (List.cons.inj h).1 (by decide)
  | false, v :: vs, [] =>
    rw [elems, elems] at h
    exact absurd (List.cons.inj h).1 (by decide)
  | true, v :: vs, v' :: vs' =>
    rw [elems, elems, List.append_assoc, List.append_assoc] at h
    obtain ⟨rfl, hrest⟩ := text_append_inj v v' (follows_elems vs r) (follows_elems vs' r') h
    obtain ⟨rfl, hr⟩ := elems_append_inj false vs vs' hrest
    exact ⟨rfl, hr⟩
  | false, v :: vs, v' :: vs' =>
    rw [elems, elems, List.cons_append, List.cons_append, List.append_assoc,
      List.append_assoc] at h
    obtain ⟨rfl, hrest⟩ := text_append_inj v v' (follows_elems vs r) (follows_elems vs' r')
      (List.cons.inj h).2
    obtain ⟨rfl, hr⟩ := elems_append_inj false vs vs' hrest
    exact ⟨rfl, hr⟩

theorem members_append_inj (first : Bool) (ms ms' : List (String × Json)) {r r' : List Char}
    (h : members first ms ++ r = members first ms' ++ r') : ms = ms' ∧ r = r' := by
  match first, ms, ms' with
  | _, [], [] =>
    rw [members] at h
    exact ⟨rfl, (List.cons.inj h).2⟩
  | true, [], (k', v') :: ms' =>
    rw [members, members, List.append_assoc] at h
    exact absurd (List.cons.inj h).1 (by decide)
  | true, (k, v) :: ms, [] =>
    rw [members, members, List.append_assoc] at h
    exact absurd (List.cons.inj h).1 (by decide)
  | false, [], (k', v') :: ms' =>
    rw [members, members] at h
    exact absurd (List.cons.inj h).1 (by decide)
  | false, (k, v) :: ms, [] =>
    rw [members, members] at h
    exact absurd (List.cons.inj h).1 (by decide)
  | true, (k, v) :: ms, (k', v') :: ms' =>
    rw [members, members, List.append_assoc, List.append_assoc] at h
    obtain ⟨rfl, hv⟩ := quote_append_inj h
    rw [List.cons_append, List.cons_append, List.append_assoc, List.append_assoc] at hv
    obtain ⟨rfl, hrest⟩ := text_append_inj v v' (follows_members ms r) (follows_members ms' r')
      (List.cons.inj hv).2
    obtain ⟨rfl, hr⟩ := members_append_inj false ms ms' hrest
    exact ⟨rfl, hr⟩
  | false, (k, v) :: ms, (k', v') :: ms' =>
    rw [members, members, List.cons_append, List.cons_append, List.append_assoc,
      List.append_assoc] at h
    obtain ⟨rfl, hv⟩ := quote_append_inj (List.cons.inj h).2
    rw [List.cons_append, List.cons_append, List.append_assoc, List.append_assoc] at hv
    obtain ⟨rfl, hrest⟩ := text_append_inj v v' (follows_members ms r) (follows_members ms' r')
      (List.cons.inj hv).2
    obtain ⟨rfl, hr⟩ := members_append_inj false ms ms' hrest
    exact ⟨rfl, hr⟩

end

/-- **The text of a value determines it.** -/
theorem text_inj {v v' : Json} (h : text v = text v') : v = v' := by
  have hnil : Follows [] := fun c hc => nomatch hc
  exact (text_append_inj v v' hnil hnil (by rw [h])).1

/-! ### The canonical text -/

mutual

/-- The members of every object put in the order of their keys. -/
def canonical (le : String → String → Bool) : Json → Json
  | .null => .null
  | .bool b => .bool b
  | .num n => .num n
  | .dec d => .dec d
  | .str s => .str s
  | .arr vs => .arr (canonicalElems le vs)
  | .obj ms => .obj ((canonicalMembers le ms).mergeSort fun a b => le a.1 b.1)

def canonicalElems (le : String → String → Bool) : List Json → List Json
  | [] => []
  | v :: vs => canonical le v :: canonicalElems le vs

def canonicalMembers (le : String → String → Bool) :
    List (String × Json) → List (String × Json)
  | [] => []
  | (k, v) :: ms => (k, canonical le v) :: canonicalMembers le ms

end

def canonicalText (le : String → String → Bool) (v : Json) : String :=
  String.ofList (text (canonical le v))

variable {le : String → String → Bool}

theorem canonicalText_inj {v v' : Json} (h : canonicalText le v = canonicalText le v') :
    canonical le v = canonical le v' := text_inj (String.ofList_inj.mp h)

theorem canonicalElems_eq_map (vs : List Json) :
    canonicalElems le vs = vs.map (canonical le) := by
  induction vs with
  | nil => rw [canonicalElems, List.map_nil]
  | cons v vs ih => rw [canonicalElems, ih, List.map_cons]

theorem canonicalMembers_eq_map (ms : List (String × Json)) :
    canonicalMembers le ms = ms.map fun m => (m.1, canonical le m.2) := by
  induction ms with
  | nil => rw [canonicalMembers, List.map_nil]
  | cons m ms ih => rw [canonicalMembers, ih, List.map_cons]

theorem canonical_arr_inj {vs vs' : List Json}
    (h : canonical le (.arr vs) = canonical le (.arr vs')) :
    vs.map (canonical le) = vs'.map (canonical le) := by
  rw [canonical, canonical, canonicalElems_eq_map, canonicalElems_eq_map] at h
  exact Json.arr.inj h

/-- Objects with one canonical form have the same members. -/
theorem mem_of_canonical_obj {ms ms' : List (String × Json)}
    (h : canonical le (.obj ms) = canonical le (.obj ms')) {k : String} {v : Json}
    (hm : (k, v) ∈ ms) : ∃ v', (k, v') ∈ ms' ∧ canonical le v' = canonical le v := by
  rw [canonical, canonical, canonicalMembers_eq_map, canonicalMembers_eq_map] at h
  have hmem : (k, canonical le v) ∈ ms.map fun m => (m.1, canonical le m.2) :=
    List.mem_map.mpr ⟨_, hm, rfl⟩
  have hsort : (k, canonical le v) ∈
      (ms.map fun m => (m.1, canonical le m.2)).mergeSort fun a b => le a.1 b.1 :=
    List.mem_mergeSort.mpr hmem
  rw [Json.obj.inj h, List.mem_mergeSort] at hsort
  obtain ⟨⟨k', v'⟩, hm', heq⟩ := List.mem_map.mp hsort
  obtain ⟨rfl, hv⟩ := Prod.mk.inj heq
  exact ⟨v', hm', hv⟩

/-- `v[k]`, where `v` is an object that has it. -/
def get (v : Json) (k : String) : Option Json :=
  match v with
  | .obj ms => (ms.filter fun m => m.1 = k).head?.map Prod.snd
  | _ => none

/-- **A member is found whatever the order of the keys.** -/
theorem get_canonical (htrans : ∀ a b c, le a b → le b c → le a c)
    (htotal : ∀ a b, le a b || le b a) (hanti : ∀ a b, le a b → le b a → a = b) (v : Json)
    (k : String) : (canonical le v).get k = (v.get k).map (canonical le) := by
  have hmembers : ∀ ms : List (String × Json),
      (canonical le (.obj ms)).get k = (get (.obj ms) k).map (canonical le) := by
    intro ms
    -- the members under one key tie, and keep their order
    have htied : (fun m : String × Json => decide (m.1 = k)) =
        tied (fun a b : String × Json => le a.1 b.1) (k, .null) := by
      funext m
      rw [tied, Bool.eq_iff_iff, decide_eq_true_eq, Bool.and_eq_true]
      constructor
      · intro h
        rw [h]
        have hrefl : le k k = true := by simpa using htotal k k
        exact ⟨hrefl, hrefl⟩
      · intro h
        exact hanti _ _ h.2 h.1
    rw [canonical, canonicalMembers_eq_map, get, get, htied,
      filter_mergeSort (fun a b c => htrans a.1 b.1 c.1) (fun a b => htotal a.1 b.1), ← htied,
      List.filter_map, List.head?_map, Option.map_map, Option.map_map]
    rfl
  cases v with
  | obj ms => exact hmembers ms
  | null => rw [canonical]; rfl
  | bool b => rw [canonical]; rfl
  | num n => rw [canonical]; rfl
  | dec d => rw [canonical]; rfl
  | str s => rw [canonical]; rfl
  | arr vs => rw [canonical]; rfl

end Json

end KANet.Lib
