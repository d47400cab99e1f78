import KANet.Lib.DecimalText
import KANet.Settle.JudgeLine
import Mathlib.Algebra.Order.Ring.Abs

/-!
# Predicates of markets

`judgeline.mjs` makes the predicate of a market from a line such as `-3.5`, with the line as an
integer over a power of ten, and checks it; a predicate with a line that a result can hit is
refused.  The operand of a line is below `2 ^ 53`, and a score that machine numbers round lies
above it, so that no comparison with a line is changed by rounding.

* `judgeLine_decides` — what passes the check is decided by every complete result.
* `spread_iff`, `total_iff`, `winner_iff` — a market is won as its line says, or by its winner.
* `line_market` — all of it, and that the two sides of a spread are opposite.
-/

namespace KANet.Settle.Predicate

open KANet.Lib KANet.Script KANet.Payout

/-! ### The check -/

inductive Invalid
  | notObject
  | metric
  | winnerOp
  | winnerOperand
  | winnerTie
  | op
  | operand
  | scale
  | integerLine
  | totalSubject
  | subject
deriving DecidableEq

def isObject : Json → Bool
  | .obj _ => true
  | .arr _ => true
  | _ => false

/-- A string with something in it but white space. -/
def nonblank (v : Option Json) : Option String :=
  (nonempty v).filter fun s => DecimalText.trim s.toList ≠ []

/-- Neither there nor null. -/
def absent : Option Json → Bool
  | none => true
  | some .null => true
  | _ => false

def validateResolutionPredicate (predicate : Json) : Except Invalid Unit := do
  check (isObject predicate = true) .notObject
  let metric ← orRefuse (nonempty (predicate.get "metric")) .metric
  check (metric ∈ METRICS) .metric
  if metric = "winner" then do
    check (nonempty (predicate.get "op") = some "==") .winnerOp
    let operand ← orRefuse (nonblank (predicate.get "operand")) .winnerOperand
    check (operand ≠ TIE_TOKEN) .winnerTie
  else do
    let op ← orRefuse (nonempty (predicate.get "op")) .op
    check (op ∈ NUM_OPS) .op
    let operand ← orRefuse (isInt (predicate.get "operand")) .operand
    let mul ← orRefuse (pow10 (predicate.get "scale")) .scale
    check (operand % mul ≠ 0) .integerLine
    if metric = "total" then
      check (absent (predicate.get "subject") = true) .totalSubject
    else
      check (nonblank (predicate.get "subject") ≠ none) .subject

/-! ### Lines -/

structure FixedPoint where
  operand : ℤ
  scale : ℕ
deriving DecidableEq

def MAX_SAFE_INTEGER : ℕ := 2 ^ 53 - 1

def parseLineToFixedPoint (lineStr : String) : Option FixedPoint := do
  let p ← DecimalText.parts (DecimalText.trim lineStr.toList)
  require (p.frac.length ≤ 6)
  require (p.mag ≤ MAX_SAFE_INTEGER)
  some ⟨p.sign * p.mag, p.frac.length⟩

/-- What a line says. -/
def lineValue (lineStr : String) : Option ℚ :=
  (DecimalText.parts (DecimalText.trim lineStr.toList)).map DecimalText.Parts.value

/-! ### The predicate of a market -/

structure Options where
  kind : String
  line : Option String := none
  op : Option String := none
  winner : Option String := none
  subject : Option String := none

inductive BuildError
  | line
  | kind
  | predicate (reason : Invalid)
deriving DecidableEq

def member (k : String) (v : Option String) : List (String × Json) :=
  (v.map fun s => (k, Json.str s)).toList

def winnerPredicate (winner : Option String) : Json :=
  .obj ([("metric", .str "winner"), ("op", .str "==")] ++ member "operand" winner)

def linePredicate (metric op : String) (operand : ℤ) (scale : ℕ) (subject : Option String) : Json :=
  .obj ([("metric", .str metric), ("op", .str op), ("operand", .num operand),
    ("scale", .num scale)] ++ member "subject" subject)

def checked (predicate : Json) : Except BuildError Json :=
  match validateResolutionPredicate predicate with
  | .ok _ => .ok predicate
  | .error reason => .error (.predicate reason)

def buildResolutionPredicate (o : Options) : Except BuildError Json :=
  if o.kind = "winner" then checked (winnerPredicate o.winner)
  else if o.kind = "spread" ∨ o.kind = "total" then do
    let fp ← orRefuse (o.line.bind parseLineToFixedPoint) .line
    let op := (o.op.filter (· ≠ "")).getD ">"
    if o.kind = "spread" then checked (linePredicate "margin" op (-fp.operand) fp.scale o.subject)
    else checked (linePredicate "total" op fp.operand fp.scale none)
  else .error .kind

/-! ### Complete results -/

/-- All fields of a result, of two different teams. -/
structure Result where
  winner_side : String
  home_team : String
  away_team : String
  home_score : ℤ
  away_score : ℤ
  decided : winner_side ≠ ""
  distinct : home_team ≠ away_team

def Result.fields (r : Result) : StructuredEvidence where
  winner_side := some r.winner_side
  home_team := some r.home_team
  away_team := some r.away_team
  home_score := some r.home_score
  away_score := some r.away_score

/-- The team played. -/
def Result.Has (r : Result) (team : String) : Prop := team = r.home_team ∨ team = r.away_team

/-- What a team scored. -/
def Result.own (r : Result) (team : String) : ℤ :=
  if team = r.home_team then r.home_score else r.away_score

def Result.other (r : Result) (team : String) : ℤ :=
  if team = r.home_team then r.away_score else r.home_score

/-! ### What passes the check is decided -/

section

variable {predicate : Json} {r : Result}

theorem applyNumOp_some {op : String} (h : op ∈ NUM_OPS) (lhs rhs : ℤ) :
    ∃ b, applyNumOp op lhs rhs = some b := by
  simp only [NUM_OPS, List.mem_cons, List.not_mem_nil, or_false] at h
  rcases h with rfl | rfl | rfl | rfl | rfl
  all_goals exact ⟨_, rfl⟩

theorem verdictOf_decided (b : Bool) : verdictOf b = .YES ∨ verdictOf b = .NO := by
  cases b
  · exact Or.inr rfl
  · exact Or.inl rfl

theorem nonempty_of_nonblank {v : Option Json} {s : String} (h : nonblank v = some s) :
    nonempty v = some s :=
  (Option.filter_eq_some_iff.mp h).1

theorem subjectScore_fields {subject : String} (h : r.Has subject) :
    subjectScore r.fields subject = some (r.own subject, r.other subject) := by
  unfold subjectScore Result.own Result.other Result.fields
  rcases h with rfl | rfl
  · simp
  · simp [Ne.symm r.distinct]

theorem fieldVal_fields {metric : String} {subject : Option String}
    (h : metric = "total" ∨ ∃ s, subject = some s ∧ r.Has s) :
    ∃ val, fieldVal metric subject r.fields = some val := by
  unfold fieldVal
  split
  · exact ⟨_, rfl⟩
  · next hmetric =>
    obtain ⟨s, rfl, hs⟩ := h.resolve_left hmetric
    simp [subjectScore_fields hs]

theorem judgeWinner_fields {op operand : Option String} (hop : op = some "==")
    (hoperand : operand ≠ none) :
    judgeWinner op operand r.fields = some .YES ∨ judgeWinner op operand r.fields = some .NO := by
  obtain ⟨s, rfl⟩ := Option.ne_none_iff_exists'.mp hoperand
  subst hop
  unfold judgeWinner Result.fields
  simp only [require, if_true, Option.bind_eq_bind, Option.bind_some, ne_eq, r.decided,
    not_false_eq_true]
  split
  · exact Or.inr rfl
  · exact (verdictOf_decided _).imp (congrArg some) (congrArg some)

theorem judgeNumber_fields {metric : String} {operand : ℤ} {mul : ℤ}
    (hop : ∃ op ∈ NUM_OPS, nonempty (predicate.get "op") = some op)
    (hoperand : isInt (predicate.get "operand") = some operand)
    (hmul : pow10 (predicate.get "scale") = some mul)
    (hsubject : metric = "total" ∨ ∃ s, nonempty (predicate.get "subject") = some s ∧ r.Has s) :
    judgeNumber metric predicate r.fields = some .YES ∨
      judgeNumber metric predicate r.fields = some .NO := by
  obtain ⟨op, hmem, hop⟩ := hop
  obtain ⟨val, hval⟩ := fieldVal_fields hsubject
  obtain ⟨b, hb⟩ := applyNumOp_some hmem (val * mul) operand
  unfold judgeNumber
  simp only [hop, hoperand, hmul, hval, require, if_pos hmem, Option.bind_eq_bind,
    Option.bind_some, hb, Option.map_some]
  exact (verdictOf_decided b).imp (congrArg some) (congrArg some)

theorem str_of_nonempty {v : Option Json} {s : String} (h : nonempty v = some s) :
    v = some (.str s) := by
  unfold nonempty at h
  split at h
  · split at h
    · cases h
    · rw [Option.some.inj h]
  · cases h

/-- What the check of a number has found. -/
structure ValidNumber (predicate : Json) (metric : String) (operand mul : ℤ) : Prop where
  mem : metric ∈ METRICS
  hasOp : ∃ op ∈ NUM_OPS, nonempty (predicate.get "op") = some op
  hasOperand : isInt (predicate.get "operand") = some operand
  hasMul : pow10 (predicate.get "scale") = some mul
  noPush : operand % mul ≠ 0
  hasSubject : metric ≠ "total" → ∃ s, predicate.get "subject" = some (.str s) ∧ s ≠ ""

theorem validate_number {metric : String}
    (hmetric : nonempty (predicate.get "metric") = some metric) (hne : metric ≠ "winner") (h : validateResolutionPredicate predicate = .ok ()) :
    ∃ operand mul, ValidNumber predicate metric operand mul := by
  unfold validateResolutionPredicate at h
  simp only [bind_eq_ok, orRefuse_eq_ok, check_eq_ok, exists_const, hmetric, Option.some.injEq,
    exists_eq_left', if_neg hne] at h
  obtain ⟨-, hmem, op, hop, hopmem, operand, hoperand, mul, hmul, hpush, h⟩ := h
  refine ⟨operand, mul, hmem, ⟨op, hopmem, hop⟩, hoperand, hmul, hpush, ?_⟩
  intro htotal
  rw [if_neg htotal, check_eq_ok] at h
  obtain ⟨s, hs⟩ := Option.ne_none_iff_exists'.mp h
  refine ⟨s, str_of_nonempty (nonempty_of_nonblank hs), ?_⟩
  rintro rfl
  have hempty := str_of_nonempty (nonempty_of_nonblank hs)
  rw [hempty] at hs
  cases hs

theorem judgeLine_number {metric : String} (hmetric : nonempty (predicate.get "metric") =
    some metric) (hmem : metric ∈ METRICS) (hne : metric ≠ "winner") :
    judgeLine predicate (some r.fields) =
      (judgeNumber metric predicate r.fields).getD .ABSTAIN := by
  unfold judgeLine
  simp only [hmetric, require, if_pos hmem, if_neg hne, Option.bind_eq_bind, Option.bind_some]

/-- **What passes the check is decided** by every complete result of the subject's event. -/
theorem judgeLine_decides (h : validateResolutionPredicate predicate = .ok ())
    (hsubject : ∀ s, predicate.get "subject" = some (.str s) → r.Has s) :
    judgeLine predicate (some r.fields) = .YES ∨ judgeLine predicate (some r.fields) = .NO := by
  cases hmetric : nonempty (predicate.get "metric") with
  | none =>
    unfold validateResolutionPredicate at h
    simp [bind_eq_ok, hmetric] at h
  | some metric =>
    by_cases hwinner : metric = "winner"
    · subst hwinner
      unfold validateResolutionPredicate at h
      simp only [bind_eq_ok, orRefuse_eq_ok, check_eq_ok, exists_const, hmetric,
        Option.some.injEq, exists_eq_left', if_true] at h
      obtain ⟨-, hmem, hop, operand, hoperand, -⟩ := h
      have hsome : nonempty (predicate.get "operand") ≠ none := by
        rw [nonempty_of_nonblank hoperand]
        exact Option.some_ne_none operand
      unfold judgeLine
      simp only [hmetric, require, if_pos hmem, if_true, Option.bind_eq_bind, Option.bind_some]
      exact (judgeWinner_fields hop hsome).imp (fun h => by rw [h]; rfl) (fun h => by rw [h]; rfl)
    · obtain ⟨operand, mul, hvalid⟩ := validate_number hmetric hwinner h
      have hteam : metric = "total" ∨
          ∃ s, nonempty (predicate.get "subject") = some s ∧ r.Has s := by
        by_cases htotal : metric = "total"
        · exact Or.inl htotal
        · obtain ⟨s, hs, hne⟩ := hvalid.hasSubject htotal
          refine Or.inr ⟨s, ?_, hsubject s hs⟩
          rw [hs, nonempty, if_neg hne]
      rw [judgeLine_number hmetric hvalid.mem hwinner]
      exact (judgeNumber_fields hvalid.hasOp hvalid.hasOperand hvalid.hasMul hteam).imp
        (fun h => by rw [h]; rfl) (fun h => by rw [h]; rfl)

end

/-! ### Line markets -/

section

variable {line line' team team' : String} {p p' : Json} {r : Result}

theorem parseLine_eq_some {fp : FixedPoint} (h : parseLineToFixedPoint line = some fp) :
    fp.scale ≤ 6 ∧ |fp.operand| < 2 ^ 53 ∧
      lineValue line = some ((fp.operand : ℚ) / 10 ^ fp.scale) := by
  unfold parseLineToFixedPoint at h
  obtain ⟨parts, hparts, h⟩ := Option.bind_eq_some_iff.mp h
  rw [require_bind_eq_some, require_bind_eq_some] at h
  obtain ⟨hscale, hmag, h⟩ := h
  obtain rfl := Option.some.inj h
  refine ⟨hscale, ?_, ?_⟩
  · have habs : |parts.sign| = 1 := by
      unfold DecimalText.Parts.sign
      split
      · rfl
      · rfl
    rw [abs_mul, habs, one_mul, Nat.abs_cast]
    unfold MAX_SAFE_INTEGER at hmag
    omega
  · rw [lineValue, hparts, Option.map_some, DecimalText.Parts.value_eq]

theorem checked_eq_ok {predicate : Json} (h : checked predicate = .ok p) :
    p = predicate ∧ validateResolutionPredicate predicate = .ok () := by
  unfold checked at h
  split at h
  · next hvalid => exact ⟨(Except.ok.inj h).symm, hvalid⟩
  · cases h

theorem pow10_natCast {scale : ℕ} (h : scale ≤ 6) :
    pow10 (some (.num scale)) = some (10 ^ scale) := by
  show (if (0 : ℤ) ≤ scale ∧ (scale : ℤ) ≤ 6 then some ((10 : ℤ) ^ (scale : ℤ).toNat) else none) =
    some (10 ^ scale)
  rw [if_pos ⟨by omega, by omega⟩, Int.toNat_natCast]

/-- The verdict of `>` on a number and a line. -/
theorem judgeNumber_line {metric : String} {operand : ℤ} {scale : ℕ} {subject : Option String}
    {val : ℤ} (hscale : scale ≤ 6)
    (hval : fieldVal metric (nonempty ((linePredicate metric ">" operand scale subject).get
      "subject")) r.fields = some val) :
    judgeNumber metric (linePredicate metric ">" operand scale subject) r.fields =
      some (verdictOf ((operand : ℚ) / 10 ^ scale < val)) := by
  have hiff : ((operand : ℚ) / 10 ^ scale < val) ↔ val * 10 ^ scale > operand := by
    rw [div_lt_iff₀ (by positivity)]
    exact_mod_cast Iff.rfl
  have hop : nonempty ((linePredicate metric ">" operand scale subject).get "op") = some ">" := rfl
  have hoperand : isInt ((linePredicate metric ">" operand scale subject).get "operand") =
      some operand := rfl
  have hsc : (linePredicate metric ">" operand scale subject).get "scale" =
      some (.num scale) := rfl
  have hmem : ">" ∈ NUM_OPS := by decide
  have happly : applyNumOp ">" (val * 10 ^ scale) operand =
      some (decide (val * 10 ^ scale > operand)) := rfl
  unfold judgeNumber
  simp only [hop, hoperand, hsc, pow10_natCast hscale, hval, require, if_pos hmem,
    Option.bind_eq_bind, Option.bind_some, happly, Option.map_some, hiff]

/-- A line that passes the check is no whole number. -/
theorem ne_intCast_of_valid {metric op : String} {operand : ℤ} {scale : ℕ}
    {subject : Option String} (hscale : scale ≤ 6) (hne : metric ≠ "winner")
    (hmetric : nonempty ((linePredicate metric op operand scale subject).get "metric") =
      some metric)
    (h : validateResolutionPredicate (linePredicate metric op operand scale subject) = .ok ())
    (n : ℤ) : (operand : ℚ) / 10 ^ scale ≠ n := by
  obtain ⟨operand', mul, hvalid⟩ := validate_number hmetric hne h
  obtain rfl : operand = operand' := Option.some.inj hvalid.hasOperand
  obtain rfl : 10 ^ scale = mul := Option.some.inj ((pow10_natCast hscale).symm.trans hvalid.hasMul)
  intro heq
  rw [div_eq_iff (by positivity)] at heq
  have hint : operand = n * 10 ^ scale := by exact_mod_cast heq
  exact hvalid.noPush (by rw [hint]; exact Int.mul_emod_left n _)

/-- A market with a line has one that is read. -/
theorem line_of_build {o : Options} (hkind : o.kind = "spread" ∨ o.kind = "total")
    (hline : o.line = some line) (h : buildResolutionPredicate o = .ok p) :
    ∃ fp, parseLineToFixedPoint line = some fp := by
  unfold buildResolutionPredicate at h
  have hne : o.kind ≠ "winner" := by
    rcases hkind with heq | heq
    all_goals
      rw [heq]
      decide
  rw [if_neg hne, if_pos hkind, bind_eq_ok] at h
  obtain ⟨fp, hfp, -⟩ := h
  rw [orRefuse_eq_ok, hline, Option.bind_some] at hfp
  exact ⟨fp, hfp⟩

/-- **The spread**: the line is given to the team. -/
theorem spread_iff
    (h : buildResolutionPredicate { kind := "spread", line := some line, subject := some team } =
      .ok p) :
    ∃ l, lineValue line = some l ∧ (∀ n : ℤ, l ≠ n) ∧ ∀ r : Result, r.Has team →
      judgeLine p (some r.fields) = verdictOf ((r.other team : ℚ) < r.own team + l) := by
  simp only [buildResolutionPredicate, String.reduceEq, if_false, true_or, if_true, bind_eq_ok,
    orRefuse_eq_ok, Option.bind_some, Option.filter_none, Option.getD_none] at h
  obtain ⟨fp, hfp, h⟩ := h
  obtain ⟨hscale, -, hvalue⟩ := parseLine_eq_some hfp
  obtain ⟨rfl, hvalid⟩ := checked_eq_ok h
  refine ⟨_, hvalue, ?_, ?_⟩
  · intro n heq
    refine ne_intCast_of_valid hscale (by decide) rfl hvalid (-n) ?_
    push_cast
    rw [neg_div, heq]
  · intro r hteam
    obtain ⟨operand, mul, hnumber⟩ := validate_number rfl (by decide) hvalid
    obtain ⟨s, hs, hne⟩ := hnumber.hasSubject (by decide)
    obtain rfl : team = s := by
      injection (Option.some.inj hs)
    have hsubject : nonempty (some (Json.str team)) = some team := if_neg hne
    have hval : fieldVal "margin" (nonempty (some (Json.str team))) r.fields =
        some (r.own team - r.other team) := by
      rw [hsubject]
      simp [fieldVal, subjectScore_fields hteam]
    rw [judgeLine_number rfl (by decide) (by decide), judgeNumber_line hscale hval,
      Option.getD_some]
    congr 1
    rw [decide_eq_decide]
    push_cast
    rw [neg_div]
    constructor
    · intro hlt
      linarith
    · intro hlt
      linarith

/-- **The total**. -/
theorem total_iff
    (h : buildResolutionPredicate { kind := "total", line := some line } = .ok p) :
    ∃ l, lineValue line = some l ∧ (∀ n : ℤ, l ≠ n) ∧ ∀ r : Result,
      judgeLine p (some r.fields) = verdictOf (l < (r.home_score : ℚ) + r.away_score) := by
  simp only [buildResolutionPredicate, String.reduceEq, if_false, or_true, if_true, bind_eq_ok,
    orRefuse_eq_ok, Option.bind_some, Option.filter_none, Option.getD_none] at h
  obtain ⟨fp, hfp, h⟩ := h
  obtain ⟨hscale, -, hvalue⟩ := parseLine_eq_some hfp
  obtain ⟨rfl, hvalid⟩ := checked_eq_ok h
  refine ⟨_, hvalue, ne_intCast_of_valid hscale (by decide) rfl hvalid, ?_⟩
  intro r
  have hval : ∀ subject, fieldVal "total" subject r.fields =
      some (r.home_score + r.away_score) := fun subject => rfl
  rw [judgeLine_number rfl (by decide) (by decide), judgeNumber_line hscale (hval _),
    Option.getD_some]
  push_cast
  rfl

/-- **The winner**. -/
theorem winner_iff {winner : String}
    (h : buildResolutionPredicate { kind := "winner", winner := some winner } = .ok p) :
    winner ≠ TIE_TOKEN ∧ ∀ r : Result,
      judgeLine p (some r.fields) = verdictOf (r.winner_side = winner) := by
  simp only [buildResolutionPredicate, if_true] at h
  obtain ⟨rfl, hvalid⟩ := checked_eq_ok h
  have hoperand : (winnerPredicate (some winner)).get "operand" = some (.str winner) := rfl
  have hmetric : nonempty ((winnerPredicate (some winner)).get "metric") = some "winner" := rfl
  have hop : nonempty ((winnerPredicate (some winner)).get "op") = some "==" := rfl
  unfold validateResolutionPredicate at hvalid
  simp only [bind_eq_ok, orRefuse_eq_ok, check_eq_ok, exists_const, hmetric, hoperand,
    Option.some.injEq, exists_eq_left', if_true] at hvalid
  obtain ⟨-, hmem, -, operand, hblank, htie⟩ := hvalid
  have hwinner := nonempty_of_nonblank hblank
  obtain rfl : winner = operand := by
    injection (Option.some.inj (str_of_nonempty hwinner))
  refine ⟨htie, ?_⟩
  intro r
  unfold judgeLine judgeWinner Result.fields
  simp only [hmetric, hop, hoperand, hwinner, require, if_pos hmem, if_true, Option.bind_eq_bind,
    Option.bind_some, ne_eq, r.decided, not_false_eq_true]
  by_cases hwas : r.winner_side = TIE_TOKEN
  · rw [if_pos hwas, hwas, decide_eq_false (Ne.symm htie)]
    rfl
  · rw [if_neg hwas]
    rfl

end

/-- The other verdict. -/
def opposite : Verdict → Verdict
  | .YES => .NO
  | .NO => .YES
  | .ABSTAIN => .ABSTAIN

/-- **Line markets are judged as their lines say.** -/
theorem line_market :
    (∀ predicate (r : Result), validateResolutionPredicate predicate = .ok () →
      (∀ s, predicate.get "subject" = some (.str s) → r.Has s) →
      judgeLine predicate (some r.fields) = .YES ∨ judgeLine predicate (some r.fields) = .NO) ∧
    (∀ line team p, buildResolutionPredicate
        { kind := "spread", line := some line, subject := some team } = .ok p →
      ∃ l, lineValue line = some l ∧ ∀ r : Result, r.Has team →
        (judgeLine p (some r.fields) = .YES ↔ (r.own team : ℚ) + l > r.other team)) ∧
    (∀ line p, buildResolutionPredicate { kind := "total", line := some line } = .ok p →
      ∃ l, lineValue line = some l ∧ ∀ r : Result,
        (judgeLine p (some r.fields) = .YES ↔ (r.home_score : ℚ) + r.away_score > l)) ∧
    ∀ line line' l (r : Result) p p', lineValue line = some l → lineValue line' = some (-l) →
      buildResolutionPredicate
        { kind := "spread", line := some line, subject := some r.home_team } = .ok p →
      buildResolutionPredicate
        { kind := "spread", line := some line', subject := some r.away_team } = .ok p' →
      judgeLine p' (some r.fields) = opposite (judgeLine p (some r.fields)) := by
  have hyes : ∀ b, verdictOf b = .YES ↔ b = true := by decide
  refine ⟨fun predicate r => judgeLine_decides, ?_, ?_, ?_⟩
  · intro line team p h
    obtain ⟨l, hl, -, hjudge⟩ := spread_iff h
    refine ⟨l, hl, ?_⟩
    intro r hteam
    rw [hjudge r hteam, hyes, decide_eq_true_eq]
  · intro line p h
    obtain ⟨l, hl, -, hjudge⟩ := total_iff h
    refine ⟨l, hl, ?_⟩
    intro r
    rw [hjudge r, hyes, decide_eq_true_eq]
  · intro line line' l r p p' hl hl' h h'
    obtain ⟨x, hx, hint, hjudge⟩ := spread_iff h
    obtain ⟨y, hy, -, hjudge'⟩ := spread_iff h'
    obtain rfl : l = x := Option.some.inj (hl.symm.trans hx)
    obtain rfl : -l = y := Option.some.inj (hl'.symm.trans hy)
    have hhome : r.own r.home_team = r.home_score ∧ r.other r.home_team = r.away_score :=
      ⟨if_pos rfl, if_pos rfl⟩
    have haway : r.own r.away_team = r.away_score ∧ r.other r.away_team = r.home_score :=
      ⟨if_neg (Ne.symm r.distinct), if_neg (Ne.symm r.distinct)⟩
    rw [hjudge r (Or.inl rfl), hjudge' r (Or.inr rfl), hhome.1, hhome.2, haway.1, haway.2]
    -- the line is no whole number, so the two sides are never even
    have hne : (r.home_score : ℚ) + l ≠ r.away_score := by
      intro heq
      refine hint (r.away_score - r.home_score) ?_
      push_cast
      linarith
    by_cases hcover : (r.away_score : ℚ) < r.home_score + l
    · have hother : ¬ (r.home_score : ℚ) < r.away_score + -l := by
        intro hlt
        linarith
      rw [decide_eq_true hcover, decide_eq_false hother]
      rfl
    · have hother : (r.home_score : ℚ) < r.away_score + -l := by
        have hlt := lt_of_le_of_ne (not_lt.mp hcover) hne
        linarith
      rw [decide_eq_false hcover, decide_eq_true hother]
      rfl

/-- A game that ends 103 to 100. -/
def lakers : Result where
  winner_side := "LAL"
  home_team := "LAL"
  away_team := "BOS"
  home_score := 103
  away_score := 100
  decided := by decide
  distinct := by decide

theorem line_market_lakers :
    buildResolutionPredicate { kind := "spread", line := some " -3.5", subject := some "LAL" } =
        .ok (linePredicate "margin" ">" 35 1 (some "LAL")) ∧
      judgeLine (linePredicate "margin" ">" (-35) 1 (some "BOS")) (some lakers.fields) =
        opposite (judgeLine (linePredicate "margin" ">" 35 1 (some "LAL")) (some lakers.fields)) :=
  ⟨by rfl, line_market.2.2.2 " -3.5" "3.5" (-7 / 2) lakers _ _ (by decide +kernel)
    (by decide +kernel) (by rfl) (by rfl)⟩

end KANet.Settle.Predicate
