import KANet.Payout.FeeRulesText

/-!
# `judgeLine`

A market is judged by a predicate over the fields of a result, in whole numbers.  What cannot be
judged is abstained from.

* `judgeLine_congr` — the verdict depends on the canonical form of the predicate only.
* `judgeLine_metric` — a predicate without a metric is never judged.
-/

namespace KANet.Settle

open KANet.Lib KANet.Script KANet.Payout

/-- The fields of a result. -/
structure StructuredEvidence where
  winner_side : Option String
  home_team : Option String
  away_team : Option String
  home_score : Option Int
  away_score : Option Int

inductive Verdict
  | YES
  | NO
  | ABSTAIN
deriving DecidableEq

def METRICS : List String := ["winner", "margin", "total", "score"]
def NUM_OPS : List String := ["==", ">=", "<=", ">", "<"]
def TIE_TOKEN : String := "TIE"

/-- A value, if it is a string that is not empty. -/
def nonempty (v : Option Json) : Option String :=
  match v with
  | some (.str s) => if s = "" then none else some s
  | _ => none

def isInt (v : Option Json) : Option Int :=
  match v with
  | some (.num n) => some n
  | _ => none

/-- `10 ^ scale`, for a scale from 0 to 6; a predicate without one has scale 0. -/
def pow10 (scale : Option Json) : Option Int :=
  match scale with
  | none => some 1
  | some (.num n) => if 0 ≤ n ∧ n ≤ 6 then some (10 ^ n.toNat) else none
  | _ => none

/-- The scores of a team and of the other. -/
def subjectScore (fields : StructuredEvidence) (subject : String) : Option (Int × Int) := do
  let home ← fields.home_score
  let away ← fields.away_score
  let home_team ← fields.home_team
  let away_team ← fields.away_team
  if subject = home_team then some (home, away)
  else if subject = away_team then some (away, home)
  else none

def applyNumOp (op : String) (lhs rhs : Int) : Option Bool :=
  if op = "==" then some (lhs = rhs)
  else if op = ">=" then some (lhs ≥ rhs)
  else if op = "<=" then some (lhs ≤ rhs)
  else if op = ">" then some (lhs > rhs)
  else if op = "<" then some (lhs < rhs)
  else none

def verdictOf (res : Bool) : Verdict := if res then .YES else .NO

/-- The winner: `op` is `==`, and a tie is no win. -/
def judgeWinner (op operand : Option String) (fields : StructuredEvidence) : Option Verdict := do
  require (op = some "==")
  let operand ← operand
  let w ← fields.winner_side
  require (w ≠ "")
  if w = TIE_TOKEN then some .NO else some (verdictOf (w = operand))

/-- The number that a metric is about. -/
def fieldVal (metric : String) (subject : Option String) (fields : StructuredEvidence) :
    Option Int :=
  if metric = "total" then do
    let home ← fields.home_score
    let away ← fields.away_score
    some (home + away)
  else do
    let subject ← subject
    let (self, other) ← subjectScore fields subject
    some (if metric = "score" then self else self - other)

def judgeNumber (metric : String) (predicate : Json) (fields : StructuredEvidence) :
    Option Verdict := do
  let op ← nonempty (predicate.get "op")
  require (op ∈ NUM_OPS)
  let operand ← isInt (predicate.get "operand")
  let mul ← pow10 (predicate.get "scale")
  let val ← fieldVal metric (nonempty (predicate.get "subject")) fields
  (applyNumOp op (val * mul) operand).map verdictOf

def judgeLine (predicate : Json) (fields : Option StructuredEvidence) : Verdict :=
  Option.getD (do
    let fields ← fields
    let metric ← nonempty (predicate.get "metric")
    require (metric ∈ METRICS)
    if metric = "winner" then
      judgeWinner (nonempty (predicate.get "op")) (nonempty (predicate.get "operand")) fields
    else judgeNumber metric predicate fields) .ABSTAIN

/-! ### What the verdict depends on -/

theorem get_canonical (v : Json) (k : String) :
    (v.canonical keyLe).get k = (v.get k).map (Json.canonical keyLe) :=
  Json.get_canonical keyLe_trans keyLe_total keyLe_antisymm v k

theorem nonempty_canonical (v : Option Json) :
    nonempty (v.map (Json.canonical keyLe)) = nonempty v := by
  cases v with
  | none => rfl
  | some v => cases v <;> simp only [Option.map_some, Json.canonical, nonempty]

theorem isInt_canonical (v : Option Json) : isInt (v.map (Json.canonical keyLe)) = isInt v := by
  cases v with
  | none => rfl
  | some v => cases v <;> simp only [Option.map_some, Json.canonical, isInt]

theorem pow10_canonical (v : Option Json) : pow10 (v.map (Json.canonical keyLe)) = pow10 v := by
  cases v with
  | none => rfl
  | some v => cases v <;> simp only [Option.map_some, Json.canonical, pow10]

theorem judgeLine_canonical (predicate : Json) (fields : Option StructuredEvidence) :
    judgeLine (predicate.canonical keyLe) fields = judgeLine predicate fields := by
  unfold judgeLine judgeNumber
  simp only [get_canonical, nonempty_canonical, isInt_canonical, pow10_canonical]

/-- **The verdict does not depend on how the predicate is written down.** -/
theorem judgeLine_congr {p p' : Json} (h : p.canonical keyLe = p'.canonical keyLe)
    (fields : Option StructuredEvidence) : judgeLine p fields = judgeLine p' fields := by
  rw [← judgeLine_canonical p, h, judgeLine_canonical p']

/-- **What is judged has a metric.** -/
theorem judgeLine_metric {p : Json} {fields : Option StructuredEvidence}
    (h : judgeLine p fields ≠ .ABSTAIN) : ∃ v, p.get "metric" = some v := by
  cases hv : p.get "metric" with
  | some v => exact ⟨v, rfl⟩
  | none =>
    exfalso
    apply h
    unfold judgeLine
    rw [hv]
    cases fields <;> rfl

end KANet.Settle
