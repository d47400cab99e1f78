import KANet.Lib.Double
import KANet.Settle.Predicate

/-!
# Summaries of games

`oracle-evidence-extractors.mjs` reads a game from the summary of ESPN: in words for a language
model, and as five fields for `judgeLine`.  A response stands for what `JSON.parse` makes of it, and
an exception for a response without a result, as every caller has it.

`toUpperCase` of all of Unicode is given, and so are the parts `new URL` finds in an address.

* `extractEspnFields_eq_some` — the fields are those of a complete result.
* `fields_inj` — the hashed text determines the fields.
-/

namespace KANet.Settle.Espn

open KANet.Lib KANet.Lib.DecimalText KANet.Script KANet.Payout KANet.Settle.Predicate

/-! ### Texts and numbers of values -/

mutual

/-- `String(v)`.  An object with a member `toString` throws: no value of JSON is a function. -/
def toText : Json → Option (List Char)
  | .null => some "null".toList
  | .bool b => some (if b then "true".toList else "false".toList)
  | .num n => some (Json.intText n)
  | .dec d => some d.text
  | .str s => some s.toList
  | .arr vs => joinText vs
  | .obj ms => if "toString" ∈ ms.map Prod.fst then none else some "[object Object]".toList

/-- `join(',')`, where null is written as nothing. -/
def joinText : List Json → Option (List Char)
  | [] => some []
  | [.null] => some []
  | [v] => toText v
  | .null :: vs => do
    let rest ← joinText vs
    some (',' :: rest)
  | v :: vs => do
    let t ← toText v
    let rest ← joinText vs
    some (t ++ ',' :: rest)

end

def hexDigit (c : Char) : Option ℕ :=
  if c.isDigit then some (digit c)
  else if 'a' ≤ c ∧ c ≤ 'f' then some (c.toNat - 87)
  else if 'A' ≤ c ∧ c ≤ 'F' then some (c.toNat - 55)
  else none

/-- Digits of a base, at least one. -/
def radix (base : ℕ) (cs : List Char) : Option ℚ := do
  require (cs ≠ [])
  let ds ← cs.mapM fun c => (hexDigit c).filter (· < base)
  some (ds.foldl (fun n d => n * base + d) 0 : ℕ)

/-- What follows the digits of a number. -/
def exponentPart : List Char → Option ℤ
  | [] => some 0
  | c :: cs => do
    require (c = 'e' ∨ c = 'E')
    let neg := cs.head? = some '-'
    let ds := if cs.head? = some '-' ∨ cs.head? = some '+' then cs.tail else cs
    require (ds ≠ [] ∧ ds.all Char.isDigit)
    some (if neg then -(number ds : ℤ) else number ds)

def strDecimal (cs : List Char) : Option ℚ := do
  let neg := cs.head? = some '-'
  let body := if cs.head? = some '-' ∨ cs.head? = some '+' then cs.tail else cs
  let int := body.takeWhile Char.isDigit
  let rest := body.dropWhile Char.isDigit
  let point := rest.head? = some '.'
  let frac := if point then rest.tail.takeWhile Char.isDigit else []
  let rest := if point then rest.tail.dropWhile Char.isDigit else rest
  require (int ≠ [] ∨ frac ≠ [])
  let exp ← exponentPart rest
  let mag : ℚ := number (int ++ frac) * 10 ^ (exp - frac.length)
  some (if neg then -mag else mag)

/-- `Number(s)` as the machine rounds it; none if it is not finite. -/
def stringToNumber (cs : List Char) : Option ℚ := do
  let q ← match trim cs with
    | [] => some 0
    | '0' :: 'x' :: ds | '0' :: 'X' :: ds => radix 16 ds
    | '0' :: 'o' :: ds | '0' :: 'O' :: ds => radix 8 ds
    | '0' :: 'b' :: ds | '0' :: 'B' :: ds => radix 2 ds
    | t => strDecimal t
  Double.finite q

/-- `Number(v)`, if that is an integer. -/
def integer (v : Option Json) : Option ℤ :=
  match v with
  | none => none
  | some .null => some 0
  | some (.bool b) => some (if b then 1 else 0)
  | some (.num n) => some n
  | some (.dec _) => none
  | some (.obj _) => none
  | some v => do
    let q ← (toText v).bind stringToNumber
    require (q.den = 1)
    some q.num

def truthy : Json → Bool
  | .null => false
  | .bool b => b
  | .num n => n ≠ 0
  | .str s => s ≠ ""
  | _ => true

/-- `a || b`. -/
def orElse (v : Option Json) (w : Json) : Json := (v.filter truthy).getD w

/-! ### The summary -/

/-- `v[0]` of an array, or of an object. -/
def first (v : Json) : Option Json :=
  match v with
  | .arr vs => vs.head?
  | v => v.get "0"

/-- The member behind a chain of `?.`. -/
def path (v : Json) (ks : List String) : Option Json := ks.foldlM Json.get v

def homeAway (c : Json) (side : String) : Bool := nonempty (c.get "homeAway") = some side

structure Summary where
  competitors : Json × Json
  home : Json
  away : Json
  league : Json

def isTrue : Option Json → Bool
  | some (.bool b) => b
  | _ => false

/-- A game that is over, with its two sides. -/
def parseEspnSummary (data : Json) : Option Summary := do
  let comp ← (path data ["header", "competitions"]).bind first
  require (isTrue (path comp ["status", "type", "completed"]) = true ∧
    nonempty (path comp ["status", "type", "state"]) = some "post")
  match comp.get "competitors" with
  | some (.arr [c₁, c₂]) => do
    let home ← [c₁, c₂].find? fun c => homeAway c "home"
    let away ← [c₁, c₂].find? fun c => homeAway c "away"
    let league := orElse (path data ["header", "league", "abbreviation"])
      (orElse (((data.get "leagues").bind first).bind fun l => l.get "abbreviation") (.str ""))
    some ⟨(c₁, c₂), home, away, league⟩
  | _ => none

def flagged (c : Json) : Bool := isTrue (c.get "winner")

/-- The competitor that is found to have won, and the other one. -/
def Summary.winner (p : Summary) : Option (Json × Json) :=
  if flagged p.competitors.1 then some p.competitors
  else if flagged p.competitors.2 then some p.competitors.swap
  else none

/-! ### Evidence -/

def teamName (c : Json) : Json :=
  orElse (path c ["team", "displayName"]) (orElse (path c ["team", "shortDisplayName"])
    (orElse (path c ["team", "abbreviation"]) (.str "?")))

/-- `c.score ?? '?'` -/
def scoreText (c : Json) : Json :=
  ((c.get "score").filter fun v => !absent (some v)).getD (.str "?")

/-- What the sentence is written from: the names, the scores and the league. -/
def evidenceParts (winner loser league : Json) : List Json :=
  [teamName winner, teamName loser, scoreText winner, scoreText loser, league]

/-- The parts of the sentence about a game; none without a winner, or if one of them throws. -/
def extractEspnEvidence (data : Json) : Option (List (List Char)) := do
  let p ← parseEspnSummary data
  let (winner, loser) ← p.winner
  (evidenceParts winner loser p.league).mapM toText

/-! ### Fields -/

section

variable (toUpperCase : List Char → List Char)

def normalizeAbbr (abbr : Option Json) : Option String := do
  let s ← nonempty abbr
  let t := toUpperCase (trim s.toList)
  require (t ≠ [])
  some (String.ofList t)

def abbreviation (c : Json) : Option Json := path c ["team", "abbreviation"]

/-- The side that is flagged; without one, the game is a tie. -/
def winnerSide (p : Summary) (home_team away_team : String) : Option String :=
  match p.winner with
  | none => some TIE_TOKEN
  | some (c, _) =>
    if homeAway c "home" then some home_team
    else if homeAway c "away" then some away_team
    else none

/-- The codes of the two teams, neither of which is that of a tie. -/
def teamsOf (p : Summary) : Option (String × String) := do
  let home_team ← normalizeAbbr toUpperCase (abbreviation p.home)
  let away_team ← normalizeAbbr toUpperCase (abbreviation p.away)
  require (home_team ≠ away_team)
  require (home_team ≠ TIE_TOKEN ∧ away_team ≠ TIE_TOKEN)
  some (home_team, away_team)

def extractEspnFields (data : Json) : Option StructuredEvidence := do
  let p ← parseEspnSummary data
  let (home_team, away_team) ← teamsOf toUpperCase p
  let home_score ← integer (p.home.get "score")
  let away_score ← integer (p.away.get "score")
  let winner_side ← winnerSide p home_team away_team
  some ⟨some winner_side, some home_team, some away_team, some home_score, some away_score⟩

end

def optJson {α : Type} (f : α → Json) (v : Option α) : Json := (v.map f).getD .null

/-- The text that is hashed. -/
def stableStringifyFields (f : StructuredEvidence) : List Char :=
  Json.text (.arr [.arr [.str "winner_side", optJson .str f.winner_side],
    .arr [.str "home_team", optJson .str f.home_team],
    .arr [.str "away_team", optJson .str f.away_team],
    .arr [.str "home_score", optJson .num f.home_score],
    .arr [.str "away_score", optJson .num f.away_score]])

/-! ### Sources -/

inductive Kind
  | espn
  | coingecko
deriving DecidableEq

def hostChar (c : Char) : Bool := ('a' ≤ c && c ≤ 'z') || c.isDigit || c = '-'

/-- `/^([a-z0-9-]+\.)*name\.com$/` -/
def hostRe (name : String) (host : String) : Bool :=
  let labels := (host.toList.splitOn '.').reverse
  labels.take 2 = ["com".toList, name.toList] &&
    (labels.drop 2).all fun l => l ≠ [] && l.all hostChar

def stripBrackets (h : List Char) : List Char :=
  let h := if h.head? = some '[' then h.tail else h
  if h.getLast? = some ']' then h.dropLast else h

/-- `/^172\.(1[6-9]|2\d|3[01])\./` -/
def private172 (h : List Char) : Bool :=
  (List.range 16).any fun n => (s!"172.".toList ++ Json.digits (n + 16) ++ ['.']).isPrefixOf h

def isPrivateOrLocalHost (host : String) : Bool :=
  let h := stripBrackets host.toList
  host = "" || h = "localhost".toList || ".local".toList.isSuffixOf h ||
    ".internal".toList.isSuffixOf h || h = "::1".toList ||
    (["fc", "fd", "fe80", "127.", "10.", "192.168.", "169.254.", "0."].any fun s =>
      s.toList.isPrefixOf h) || private172 h

/-- The kind of the extractor for an address, of which `new URL` gives protocol and host. -/
def findExtractor (URL : String → Option (String × String)) (url : String) : Option Kind := do
  let (protocol, hostname) ← URL url
  require (protocol = "https:")
  let host := hostname.toLower
  require (isPrivateOrLocalHost host = false)
  if hostRe "espn" host then some .espn
  else if hostRe "coingecko" host then some .coingecko
  else none

/-! ### A game without goals -/

def drawnSide (side : String) (team : Json) : Json :=
  .obj [("homeAway", .str side), ("team", .obj [("abbreviation", team)]), ("score", .num 0)]

/-- The summary of a game without goals. -/
def drawn (home away : Json) : Json :=
  .obj [("header", .obj [("competitions", .arr [.obj [
    ("status", .obj [("type", .obj [("completed", .bool true), ("state", .str "post")])]),
    ("competitors", .arr [drawnSide "home" home, drawnSide "away" away])]])])]

/-! ### What the fields are -/

section

variable {toUpperCase : List Char → List Char} {data : Json} {f : StructuredEvidence}

/-- A complete result of teams that are told apart from a tie, with a side of it or none as its
winner. -/
structure Genuine (r : Result) : Prop where
  home_ne : r.home_team ≠ TIE_TOKEN
  away_ne : r.away_team ≠ TIE_TOKEN
  winner : r.winner_side = TIE_TOKEN ∨ r.Has r.winner_side

theorem normalizeAbbr_ne {abbr : Option Json} {s : String}
    (h : normalizeAbbr toUpperCase abbr = some s) : s ≠ "" := by
  unfold normalizeAbbr at h
  simp only [Option.bind_eq_bind, Option.bind_eq_some_iff, require_eq_some, exists_const,
    Option.some.injEq] at h
  obtain ⟨a, -, hne, rfl⟩ := h
  intro heq
  apply hne
  rw [← String.toList_ofList (l := toUpperCase (trim a.toList)), heq]
  rfl

theorem homeAway_unique {c : Json} {side side' : String} (h : homeAway c side = true)
    (h' : homeAway c side' = true) : side = side' := by
  unfold homeAway at h h'
  rw [decide_eq_true_eq] at h h'
  exact Option.some.inj (h.symm.trans h')

/-- The sides of a game that is over. -/
theorem parse_spec {p : Summary} (h : parseEspnSummary data = some p) :
    (p.home = p.competitors.1 ∧ p.away = p.competitors.2 ∨
      p.home = p.competitors.2 ∧ p.away = p.competitors.1) ∧
    homeAway p.home "home" = true ∧ homeAway p.away "away" = true := by
  unfold parseEspnSummary at h
  simp only [Option.bind_eq_bind, Option.bind_eq_some_iff, require_eq_some, exists_const] at h
  obtain ⟨comp, -, -, h⟩ := h
  split at h
  · next c₁ c₂ _ =>
    simp only [Option.bind_eq_some_iff, Option.some.injEq] at h
    obtain ⟨home, hhome, away, haway, rfl⟩ := h
    have hh := List.find?_some hhome
    have ha := List.find?_some haway
    refine ⟨?_, hh, ha⟩
    have hmem := List.mem_of_find?_eq_some hhome
    have hmem' := List.mem_of_find?_eq_some haway
    simp only [List.mem_cons, List.not_mem_nil, or_false] at hmem hmem'
    have hne : home ≠ away := by
      rintro rfl
      exact absurd (homeAway_unique hh ha) (by decide)
    rcases hmem with rfl | rfl
    · rcases hmem' with rfl | rfl
      · exact absurd rfl hne
      · exact Or.inl ⟨rfl, rfl⟩
    · rcases hmem' with rfl | rfl
      · exact Or.inr ⟨rfl, rfl⟩
      · exact absurd rfl hne
  · cases h

theorem teamsOf_eq_some {p : Summary} {home away : String}
    (h : teamsOf toUpperCase p = some (home, away)) :
    normalizeAbbr toUpperCase (abbreviation p.home) = some home ∧
      normalizeAbbr toUpperCase (abbreviation p.away) = some away ∧ home ≠ away ∧
      home ≠ TIE_TOKEN ∧ away ≠ TIE_TOKEN := by
  unfold teamsOf at h
  simp only [Option.bind_eq_bind, Option.bind_eq_some_iff, require_eq_some, exists_const,
    Option.some.injEq, Prod.mk.injEq] at h
  obtain ⟨home, hhome, away, haway, hne, ⟨hhomeTie, hawayTie⟩, rfl, rfl⟩ := h
  exact ⟨hhome, haway, hne, hhomeTie, hawayTie⟩

/-- **The fields are those of a complete result**. -/
theorem extractEspnFields_eq_some (h : extractEspnFields toUpperCase data = some f) :
    ∃ r : Result, f = r.fields ∧ Genuine r := by
  unfold extractEspnFields at h
  simp only [Option.bind_eq_bind, Option.bind_eq_some_iff, Option.some.injEq] at h
  obtain ⟨p, -, ⟨home, away⟩, hteams, hs, -, as, -, w, hw, rfl⟩ := h
  obtain ⟨hhome, haway, hne, hhomeTie, hawayTie⟩ := teamsOf_eq_some hteams
  have hwinner : w = TIE_TOKEN ∨ w = home ∨ w = away := by
    unfold winnerSide at hw
    split at hw
    · exact Or.inl (Option.some.inj hw).symm
    · split at hw
      · exact Or.inr (Or.inl (Option.some.inj hw).symm)
      · split at hw
        · exact Or.inr (Or.inr (Option.some.inj hw).symm)
        · cases hw
  have hdecided : w ≠ "" := by
    rcases hwinner with rfl | rfl | rfl
    · decide
    · exact normalizeAbbr_ne hhome
    · exact normalizeAbbr_ne haway
  exact ⟨⟨w, home, away, hs, as, hdecided, hne⟩, rfl, hhomeTie, hawayTie, hwinner⟩

theorem fields_injective {r r' : Result} (h : r.fields = r'.fields) : r = r' := by
  cases r
  cases r'
  simp only [Result.fields, StructuredEvidence.mk.injEq, Option.some.injEq] at h
  obtain ⟨rfl, rfl, rfl, rfl, rfl⟩ := h
  rfl

theorem genuine_of_fields {r : Result}
    (h : extractEspnFields toUpperCase data = some r.fields) : Genuine r := by
  obtain ⟨r', heq, hr'⟩ := extractEspnFields_eq_some h
  rw [fields_injective heq]
  exact hr'

theorem optJson_inj {α : Type} {g : α → Json} (hinj : ∀ a b, g a = g b → a = b)
    (hnull : ∀ a, g a ≠ .null) {v w : Option α} (h : optJson g v = optJson g w) : v = w := by
  cases v with
  | none =>
    cases w with
    | none => rfl
    | some b => exact absurd h.symm (hnull b)
  | some a =>
    cases w with
    | none => exact absurd h (hnull a)
    | some b => exact congrArg some (hinj a b h)

/-- **The hashed text determines the fields**. -/
theorem fields_inj {f' : StructuredEvidence}
    (h : stableStringifyFields f = stableStringifyFields f') : f = f' := by
  have hstr : ∀ v w : Option String, optJson .str v = optJson .str w → v = w := by
    intro v w
    apply optJson_inj
    · intro a b heq
      exact Json.str.inj heq
    · intro a heq
      cases heq
  have hnum : ∀ v w : Option ℤ, optJson .num v = optJson .num w → v = w := by
    intro v w
    apply optJson_inj
    · intro a b heq
      exact Json.num.inj heq
    · intro a heq
      cases heq
  have heq := Json.text_inj h
  simp only [Json.arr.injEq, List.cons.injEq, true_and, and_true] at heq
  obtain ⟨hw, hh, ha, hhs, has⟩ := heq
  cases f
  cases f'
  simp only [StructuredEvidence.mk.injEq]
  exact ⟨hstr _ _ hw, hstr _ _ hh, hstr _ _ ha, hnum _ _ hhs, hnum _ _ has⟩

end

end KANet.Settle.Espn
