import KANet.Settle.EspnSummary
import Mathlib.Data.List.Nodup

/-!
# Cards of markets

`sports-card-builder.mjs` makes the markets of a game: who wins, a spread for each line, and a total
for each line.  A market says in words when it is won, and has a predicate that judges it.

The margin that a spread states has lost its sign, while its predicate keeps that of the line, so
that the two differ for a line in favour of the subject.

* `build_valid` — a valid card has a market for each of its legs.
* `card_iff` — when the markets are told apart and judged as they say.
-/

namespace KANet.Settle.SportsCard

open KANet.Lib KANet.Lib.DecimalText KANet.Script KANet.Payout
open KANet.Settle.Predicate KANet.Settle.Espn

/-! ### What is described -/

/-- What the platform gives: the parts of an address, upper case, and how a number is written. -/
structure Platform where
  URL : String → Option (String × String)
  toUpperCase : List Char → List Char
  numberText : ℚ → String

/-- The lines are taken as `String` writes them. -/
structure Legs where
  winner : List Json
  spread : List String
  total : List String

structure Descriptor where
  sport : Option String
  league_label : Option String
  event_id : String
  data_source_canonical : String
  home_team : Option Json
  away_team : Option Json
  home_name : Option String
  away_name : Option String
  kickoff_iso : Option String
  outcome_end_date : Option String
  favorite : Option Json
  legs : Legs

def SOCCER_SPREAD_LINES : List String := ["-0.5", "-1.5", "-2.5", "0.5", "1.5", "2.5"]
def SOCCER_TOTAL_LINES : List String := ["1.5", "2.5", "3.5", "4.5"]

/-- `parseFloat` of a line. -/
def parseFloat (line : String) : Option ℚ := (lineValue line).map Double.double

/-- `a || b` of texts. -/
def orText (v : Option String) (w : String) : String := (v.filter (· ≠ "")).getD w

def trimText (s : String) : String := String.ofList (trim s.toList)

/-- `replace(/\s+/g, '_')`, behind a blank or not. -/
def underscores : Bool → List Char → List Char
  | _, [] => []
  | behind, c :: cs =>
    if isSpace c then
      if behind then underscores true cs else '_' :: underscores true cs
    else c :: underscores false cs

/-! ### Markets -/

/-- When a market is won, as its text says it. -/
inductive Criteria
  | winner (name abbr event : String)
  | spread (name subject : String) (need : ℚ) (event : String)
  | total (line : String) (least : ℤ) (event : String)

def Criteria.text (numberText : ℚ → String) : Criteria → String
  | .winner name abbr event =>
    "Resolves YES iff ESPN final result names " ++ name ++ " (" ++ abbr ++
      ") the winner; draw or " ++ abbr ++ " loss → NO. Source: ESPN summary event " ++ event ++ "."
  | .spread name subject need event =>
    "Resolves YES iff " ++ name ++ " (" ++ subject ++ ") wins by more than " ++ numberText need ++
      " goal(s) (margin > " ++ numberText need ++
      "); otherwise NO. Half-line = no push. Source: ESPN summary event " ++ event ++ "."
  | .total line least event =>
    "Resolves YES iff combined goals of both teams > " ++ line ++ " (i.e. >= " ++
      numberText least ++ "); otherwise NO. Half-line = no push. Source: ESPN summary event " ++
      event ++ "."

/-- What the text says of a result. -/
def Criteria.Holds (r : Result) : Criteria → Prop
  | .winner _ abbr _ => r.winner_side = abbr
  | .spread _ subject need _ => need < (r.own subject : ℚ) - r.other subject
  | .total line _ _ => ∃ l, lineValue line = some l ∧ l < (r.home_score : ℚ) + r.away_score

structure Market where
  leg_key : String
  kind : String
  title : String
  criteria : Criteria
  resolution_criteria : String
  resolution_predicate : Json
  data_source_canonical : String
  resolution_rule_spec : String
  outcome_side : String
  status : String
  outcome_end_date : Option String

inductive CardError
  | source (src : String)
  | teams
  | favorite
  | winner
  | winnerPredicate (abbr : String) (why : BuildError)
  | spreadLine (line : String)
  | spread (line : String) (why : BuildError)
  | totalLine (line : String)
  | total (line : String) (why : BuildError)
  | empty
deriving DecidableEq

structure Card where
  errors : List CardError
  card_group_id : Option String
  event_id : Option String
  markets : List Market

/-- What the legs of a card share. -/
structure Game where
  home : String
  away : String
  fav : Option String
  card_group_id : String
  matchTitle : String

section

variable (P : Platform) (d : Descriptor)

def pushMarket (g : Game) (leg_key kind : String) (predicate : Json) (title : String)
    (criteria : Criteria) (extra : List (String × Json)) : Market where
  leg_key := leg_key
  kind := kind
  title := title
  criteria := criteria
  resolution_criteria := criteria.text P.numberText
  resolution_predicate := predicate
  data_source_canonical := trimText d.data_source_canonical
  resolution_rule_spec := String.ofList (Json.text (.obj ([
    ("title", .str title),
    ("resolution_criteria", .str (criteria.text P.numberText)),
    ("data_source_canonical", .str (trimText d.data_source_canonical)),
    ("resolution_predicate", predicate),
    ("source_label", .str (trimText ("ESPN " ++ orText d.league_label ""))),
    ("event_id", .str d.event_id),
    ("card_group_id", .str g.card_group_id),
    ("home_team", .str g.home),
    ("away_team", .str g.away),
    ("kickoff", optJson .str (d.kickoff_iso.filter (· ≠ ""))),
    ("leg_key", .str leg_key)] ++ extra)))
  outcome_side := "YES"
  status := "draft"
  outcome_end_date := d.outcome_end_date.filter (· ≠ "")

/-- A team as it is shown. -/
def shown (g : Game) (abbr : String) : String :=
  if abbr = g.home then orText d.home_name g.home else orText d.away_name g.away

def titleOf (g : Game) (what : String) : String :=
  trimText (orText d.league_label "" ++ " " ++ g.matchTitle ++ " — " ++ what)

def winnerLeg (g : Game) (w : Json) : Except CardError Market := do
  let abbr ← orRefuse (normalizeAbbr P.toUpperCase (some w)) .winner
  check (abbr = g.home ∨ abbr = g.away) .winner
  let predicate ← (buildResolutionPredicate { kind := "winner", winner := some abbr }).mapError
    (.winnerPredicate abbr)
  let name := shown d g abbr
  .ok (pushMarket P d g ("winner_" ++ abbr) "winner" predicate
    (titleOf d g (name ++ " to win")) (.winner name abbr d.event_id) [])

def spreadLeg (g : Game) (line : String) : Except CardError Market := do
  check (d.sport = some "soccer" → line ∈ SOCCER_SPREAD_LINES) (.spreadLine line)
  let predicate ← (buildResolutionPredicate
    { kind := "spread", line := some line, op := some ">", subject := g.fav }).mapError
      (.spread line)
  let fav := g.fav.getD "null"
  let favName := shown d g fav
  let need := |(parseFloat line).getD 0|
  .ok (pushMarket P d g ("spread_" ++ fav ++ "_" ++ line) "spread" predicate
    (titleOf d g (favName ++ " " ++ line)) (.spread favName fav need d.event_id)
    [("line", .str line), ("subject", .str fav)])

def totalLeg (g : Game) (line : String) : Except CardError Market := do
  check (d.sport = some "soccer" → line ∈ SOCCER_TOTAL_LINES) (.totalLine line)
  let predicate ← (buildResolutionPredicate
    { kind := "total", line := some line, op := some ">" }).mapError (.total line)
  .ok (pushMarket P d g ("total_o_" ++ line) "total" predicate
    (titleOf d g ("Over " ++ line ++ " goals"))
    (.total line ⌈(parseFloat line).getD 0⌉ d.event_id) [("line", .str line)])

/-! ### The card -/

def teams : Option (String × String) := do
  let home ← normalizeAbbr P.toUpperCase d.home_team
  let away ← normalizeAbbr P.toUpperCase d.away_team
  require (home ≠ away)
  some (home, away)

def favOf (home : String) : Option String :=
  match d.favorite.filter truthy with
  | some fav => normalizeAbbr P.toUpperCase (some fav)
  | none => some home

def gameOf (home away : String) : Game where
  home := home
  away := away
  fav := favOf P d home
  card_group_id := String.ofList (underscores false
    ("espn-" ++ orText d.league_label "sport" ++ "-" ++ d.event_id).toList)
  matchTitle := orText d.home_name home ++ " vs " ++ orText d.away_name away

def sourceErrors : List CardError :=
  let src := trimText d.data_source_canonical
  if src ≠ "" ∧ findExtractor P.URL src = some .espn then [] else [.source src]

def favoriteErrors (g : Game) : List CardError :=
  if g.fav = some g.home ∨ g.fav = some g.away then [] else [.favorite]

def legsOf (g : Game) : List (Except CardError Market) :=
  d.legs.winner.map (winnerLeg P d g) ++ d.legs.spread.map (spreadLeg P d g) ++
    d.legs.total.map (totalLeg P d g)

def refused : Except CardError Market → Option CardError
  | .error e => some e
  | .ok _ => none

def buildSportsCard : Card :=
  match teams P d with
  | none => ⟨sourceErrors P d ++ [.teams], none, none, []⟩
  | some (home, away) =>
    let g := gameOf P d home away
    let legs := legsOf P d g
    let markets := legs.filterMap Except.toOption
    let errors := sourceErrors P d ++ favoriteErrors g ++ legs.filterMap refused
    ⟨if markets.isEmpty ∧ errors = [] then [.empty] else errors, some g.card_group_id,
      some d.event_id, markets⟩

end

/-! ### Valid cards -/

section

variable {P : Platform} {d : Descriptor} {g : Game} {m : Market}

theorem eq_map_ok {legs : List (Except CardError Market)} (h : legs.filterMap refused = []) :
    legs = (legs.filterMap Except.toOption).map .ok := by
  induction legs with
  | nil => rfl
  | cons leg legs ih =>
    cases leg with
    | error e =>
      simp only [List.filterMap_cons, refused, reduceCtorEq] at h
    | ok m =>
      simp only [List.filterMap_cons, refused] at h
      simp only [List.filterMap_cons, Except.toOption, List.map_cons, ← ih h]

/-- **A valid card has a market for each of its legs**. -/
theorem build_valid (h : (buildSportsCard P d).errors = []) :
    ∃ home away fav, teams P d = some (home, away) ∧ favOf P d home = some fav ∧
      (fav = home ∨ fav = away) ∧
      legsOf P d (gameOf P d home away) = (buildSportsCard P d).markets.map .ok := by
  unfold buildSportsCard at h ⊢
  cases hteams : teams P d with
  | none =>
    rw [hteams] at h
    exact absurd (List.append_eq_nil_iff.mp h).2 (by simp)
  | some sides =>
    obtain ⟨home, away⟩ := sides
    rw [hteams] at h
    dsimp only at h ⊢
    split at h
    · cases h
    · rw [List.append_eq_nil_iff, List.append_eq_nil_iff] at h
      obtain ⟨⟨-, hfav⟩, hlegs⟩ := h
      unfold favoriteErrors at hfav
      split at hfav
      · next hside =>
        rcases hside with hhome | haway
        · exact ⟨home, away, home, rfl, hhome, Or.inl rfl, eq_map_ok hlegs⟩
        · exact ⟨home, away, away, rfl, haway, Or.inr rfl, eq_map_ok hlegs⟩
      · cases hfav

theorem winnerLeg_eq_ok {w : Json} (h : winnerLeg P d g w = .ok m) :
    ∃ abbr, normalizeAbbr P.toUpperCase (some w) = some abbr ∧ m.leg_key = "winner_" ++ abbr ∧
      m.criteria = .winner (shown d g abbr) abbr d.event_id ∧
      buildResolutionPredicate { kind := "winner", winner := some abbr } =
        .ok m.resolution_predicate := by
  unfold winnerLeg at h
  simp only [bind_eq_ok, orRefuse_eq_ok, check_eq_ok, mapError_eq_ok, exists_const,
    Except.ok.injEq] at h
  obtain ⟨abbr, habbr, -, p, hp, rfl⟩ := h
  exact ⟨abbr, habbr, rfl, rfl, hp⟩

theorem spreadLeg_eq_ok {line fav : String} (hfav : g.fav = some fav)
    (h : spreadLeg P d g line = .ok m) :
    m.leg_key = "spread_" ++ fav ++ "_" ++ line ∧
      m.criteria = .spread (shown d g fav) fav |(parseFloat line).getD 0| d.event_id ∧
      buildResolutionPredicate { kind := "spread", line := some line, subject := some fav } =
        .ok m.resolution_predicate := by
  unfold spreadLeg at h
  simp only [bind_eq_ok, check_eq_ok, mapError_eq_ok, exists_const, Except.ok.injEq, hfav,
    Option.getD_some] at h
  obtain ⟨-, p, hp, rfl⟩ := h
  exact ⟨rfl, rfl, hp⟩

theorem totalLeg_eq_ok {line : String} (h : totalLeg P d g line = .ok m) :
    m.leg_key = "total_o_" ++ line ∧
      m.criteria = .total line ⌈(parseFloat line).getD 0⌉ d.event_id ∧
      buildResolutionPredicate { kind := "total", line := some line } =
        .ok m.resolution_predicate := by
  unfold totalLeg at h
  simp only [bind_eq_ok, check_eq_ok, mapError_eq_ok, exists_const, Except.ok.injEq] at h
  obtain ⟨-, p, hp, rfl⟩ := h
  exact ⟨rfl, rfl, hp⟩

/-! ### Keys -/

theorem append_ne {p q a b : String} (h : p.toList.head? ≠ q.toList.head?) (hp : p.toList ≠ [])
    (hq : q.toList ≠ []) : p ++ a ≠ q ++ b := by
  intro heq
  apply h
  have hlist := congrArg (fun s : String => s.toList.head?) heq
  simpa only [String.toList_append, List.head?_append_of_ne_nil _ hp,
    List.head?_append_of_ne_nil _ hq] using hlist

/-- The keys of the markets, leg by leg. -/
theorem keys_eq {home away fav : String} (hfav : (gameOf P d home away).fav = some fav)
    {markets : List Market} (h : legsOf P d (gameOf P d home away) = markets.map .ok) :
    markets.map (fun m => some m.leg_key) =
      d.legs.winner.map (fun w => (normalizeAbbr P.toUpperCase (some w)).map ("winner_" ++ ·)) ++
        d.legs.spread.map (fun line => some ("spread_" ++ fav ++ "_" ++ line)) ++
        d.legs.total.map (fun line => some ("total_o_" ++ line)) := by
  have hkey : ∀ leg ∈ legsOf P d (gameOf P d home away), ∃ m, leg = .ok m := by
    intro leg hleg
    rw [h] at hleg
    obtain ⟨m, -, rfl⟩ := List.mem_map.mp hleg
    exact ⟨m, rfl⟩
  have hkeys : markets.map (fun m => some m.leg_key) =
      (legsOf P d (gameOf P d home away)).map fun leg => leg.toOption.map Market.leg_key := by
    rw [h, List.map_map]
    rfl
  rw [hkeys]
  unfold legsOf at hkey ⊢
  rw [List.map_append, List.map_append, List.map_map, List.map_map, List.map_map]
  congr 1
  · congr 1
    · apply List.map_congr_left
      intro w hw
      obtain ⟨m, hm⟩ := hkey (winnerLeg P d _ w)
        (List.mem_append_left _ (List.mem_append_left _ (List.mem_map_of_mem hw)))
      obtain ⟨abbr, habbr, hleg, -⟩ := winnerLeg_eq_ok hm
      rw [Function.comp_apply, hm, habbr]
      exact congrArg some hleg
    · apply List.map_congr_left
      intro line hline
      obtain ⟨m, hm⟩ := hkey (spreadLeg P d _ line)
        (List.mem_append_left _ (List.mem_append_right _ (List.mem_map_of_mem hline)))
      rw [Function.comp_apply, hm]
      exact congrArg some (spreadLeg_eq_ok hfav hm).1
  · apply List.map_congr_left
    intro line hline
    obtain ⟨m, hm⟩ := hkey (totalLeg P d _ line)
      (List.mem_append_right _ (List.mem_map_of_mem hline))
    rw [Function.comp_apply, hm]
    exact congrArg some (totalLeg_eq_ok hm).1

theorem keys_nodup_iff {home away fav : String} (hfav : (gameOf P d home away).fav = some fav)
    {markets : List Market} (h : legsOf P d (gameOf P d home away) = markets.map .ok) :
    (markets.map Market.leg_key).Nodup ↔
      (d.legs.winner.map fun w => normalizeAbbr P.toUpperCase (some w)).Nodup ∧
        d.legs.spread.Nodup ∧ d.legs.total.Nodup := by
  have hsome : (markets.map Market.leg_key).Nodup ↔
      (markets.map fun m => some m.leg_key).Nodup := by
    rw [← List.nodup_map_iff (Option.some_injective String), List.map_map]
    rfl
  have hw : Function.Injective (Option.map ("winner_" ++ ·)) :=
    Option.map_injective fun a b heq => (String.append_right_inj "winner_").mp heq
  have hs : Function.Injective fun line => some ("spread_" ++ fav ++ "_" ++ line) :=
    fun a b heq => (String.append_right_inj _).mp (Option.some.inj heq)
  have ht : Function.Injective fun line => some ("total_o_" ++ line) :=
    fun a b heq => (String.append_right_inj _).mp (Option.some.inj heq)
  have hws : ∀ (a : Option String) (b : String),
      a.map ("winner_" ++ ·) ≠ some ("spread_" ++ fav ++ "_" ++ b) := by
    intro a b heq
    obtain ⟨a, -, heq⟩ := Option.map_eq_some_iff.mp heq
    rw [String.append_assoc, String.append_assoc] at heq
    exact append_ne (by decide) (by decide) (by decide) heq
  have hwt : ∀ (a : Option String) (b : String),
      a.map ("winner_" ++ ·) ≠ some ("total_o_" ++ b) := by
    intro a b heq
    obtain ⟨a, -, heq⟩ := Option.map_eq_some_iff.mp heq
    exact append_ne (by decide) (by decide) (by decide) heq
  have hst : ∀ a b : String, some ("spread_" ++ fav ++ "_" ++ a) ≠ some ("total_o_" ++ b) := by
    intro a b heq
    have heq := Option.some.inj heq
    rw [String.append_assoc, String.append_assoc] at heq
    exact append_ne (by decide) (by decide) (by decide) heq
  rw [hsome, keys_eq hfav h, List.nodup_append', List.nodup_append', List.nodup_map_iff hs,
    List.nodup_map_iff ht]
  have hwmap : (d.legs.winner.map fun w =>
      (normalizeAbbr P.toUpperCase (some w)).map ("winner_" ++ ·)) =
      (d.legs.winner.map fun w => normalizeAbbr P.toUpperCase (some w)).map
        (Option.map ("winner_" ++ ·)) := by
    rw [List.map_map]
    rfl
  rw [hwmap, List.nodup_map_iff hw]
  constructor
  · rintro ⟨⟨hwn, hsn, -⟩, htn, -⟩
    exact ⟨hwn, hsn, htn⟩
  · rintro ⟨hwn, hsn, htn⟩
    refine ⟨⟨hwn, hsn, ?_⟩, htn, ?_⟩
    · intro key hkey hkey'
      obtain ⟨a, -, rfl⟩ := List.mem_map.mp hkey
      obtain ⟨b, -, heq⟩ := List.mem_map.mp hkey'
      exact hws a b heq.symm
    · intro key hkey hkey'
      obtain ⟨b, -, rfl⟩ := List.mem_map.mp hkey'
      rcases List.mem_append.mp hkey with hin | hin
      · obtain ⟨a, -, heq⟩ := List.mem_map.mp hin
        exact hwt a b heq
      · obtain ⟨a, -, heq⟩ := List.mem_map.mp hin
        exact hst a b heq

/-! ### Judged as described -/

variable (P) in
/-- Every result of the two teams that is read from a summary is judged as the market says. -/
def Judged (home away : String) (m : Market) : Prop :=
  ∀ data (r : Result), extractEspnFields P.toUpperCase data = some r.fields →
    r.Has home → r.Has away →
    (m.criteria.Holds r → judgeLine m.resolution_predicate (some r.fields) = .YES) ∧
    (¬ m.criteria.Holds r → judgeLine m.resolution_predicate (some r.fields) = .NO)

variable (P d) in
/-- The markets of a card are told apart, and judged as they say. -/
def Described : Prop :=
  ((buildSportsCard P d).markets.map Market.leg_key).Nodup ∧
  ∀ home away, teams P d = some (home, away) →
    ∀ m ∈ (buildSportsCard P d).markets, Judged P home away m

theorem verdict_holds {v : Verdict} {b : Bool} {q : Prop} (hv : v = verdictOf b)
    (h : b = true ↔ q) : (q → v = .YES) ∧ (¬ q → v = .NO) := by
  subst hv
  constructor
  · intro hq
    rw [h.mpr hq]
    rfl
  · intro hq
    rw [Bool.eq_false_iff.mpr fun hb => hq (h.mp hb)]
    rfl

theorem winner_judged {home away name abbr event : String}
    (hcriteria : m.criteria = .winner name abbr event)
    (h : buildResolutionPredicate { kind := "winner", winner := some abbr } =
      .ok m.resolution_predicate) : Judged P home away m := by
  obtain ⟨-, hjudge⟩ := winner_iff h
  intro data r _ _ _
  rw [hcriteria]
  exact verdict_holds (hjudge r) decide_eq_true_iff

theorem total_judged {home away line event : String} {least : ℤ}
    (hcriteria : m.criteria = .total line least event)
    (h : buildResolutionPredicate { kind := "total", line := some line } =
      .ok m.resolution_predicate) : Judged P home away m := by
  obtain ⟨l, hl, -, hjudge⟩ := total_iff h
  intro data r _ _ _
  rw [hcriteria]
  refine verdict_holds (hjudge r) ?_
  rw [decide_eq_true_eq]
  constructor
  · intro hlt
    exact ⟨l, hl, hlt⟩
  · rintro ⟨l', hl', hlt⟩
    rwa [Option.some.inj (hl.symm.trans hl')]

/-- The margin that a text states is that of the line without its sign. -/
theorem need_lt_iff {line fav : String} {p : Json} {l : ℚ} (hl : lineValue line = some l)
    (h : buildResolutionPredicate { kind := "spread", line := some line, subject := some fav } =
      .ok p) (n : ℤ) : |(parseFloat line).getD 0| < n ↔ |l| < n := by
  obtain ⟨l', hl', hint, -⟩ := spread_iff h
  obtain ⟨fp, hfp⟩ := line_of_build (Or.inl rfl) rfl h
  obtain ⟨hscale, hmag, hvalue⟩ := parseLine_eq_some hfp
  obtain rfl := Option.some.inj (hl.symm.trans hl')
  obtain rfl := Option.some.inj (hl.symm.trans hvalue)
  have hneg := Double.lt_double_iff hmag hscale hint (-n)
  push_cast at hneg
  rw [parseFloat, hl, Option.map_some, Option.getD_some, abs_lt, abs_lt, hneg,
    Double.double_lt_iff hmag hscale hint]

theorem spread_judged {home away name fav event line : String} {l : ℚ}
    (hfav : fav = home ∨ fav = away)
    (hcriteria : m.criteria = .spread name fav |(parseFloat line).getD 0| event)
    (h : buildResolutionPredicate { kind := "spread", line := some line, subject := some fav } =
      .ok m.resolution_predicate)
    (hl : lineValue line = some l) (hneg : l < 0) : Judged P home away m := by
  obtain ⟨l', hl', -, hjudge⟩ := spread_iff h
  obtain rfl := Option.some.inj (hl.symm.trans hl')
  intro data r _ hhome haway
  have hhas : r.Has fav := by
    rcases hfav with rfl | rfl
    · exact hhome
    · exact haway
  rw [hcriteria]
  refine verdict_holds (hjudge r hhas) ?_
  have hneed := need_lt_iff hl h (r.own fav - r.other fav)
  push_cast at hneed
  rw [decide_eq_true_eq]
  show _ ↔ |(parseFloat line).getD 0| < (r.own fav : ℚ) - r.other fav
  rw [hneed, abs_of_neg hneg]
  constructor
  · intro hlt
    linarith
  · intro hlt
    linarith

/-! ### Lines in favour of the subject -/

def drawnResult (home away : String) (h : home ≠ away) : Result where
  winner_side := TIE_TOKEN
  home_team := home
  away_team := away
  home_score := 0
  away_score := 0
  decided := by decide
  distinct := h

theorem extract_drawn {a b : Json} {home away : String} (hne : home ≠ away)
    (ha : normalizeAbbr P.toUpperCase (some a) = some home)
    (hb : normalizeAbbr P.toUpperCase (some b) = some away)
    (hhome : home ≠ TIE_TOKEN) (haway : away ≠ TIE_TOKEN) :
    extractEspnFields P.toUpperCase (drawn a b) = some (drawnResult home away hne).fields := by
  have hparse : parseEspnSummary (drawn a b) = some ⟨(drawnSide "home" a, drawnSide "away" b),
      drawnSide "home" a, drawnSide "away" b, .str ""⟩ := rfl
  have habbr : ∀ side team, abbreviation (drawnSide side team) = some team := fun _ _ => rfl
  have hscore : ∀ side team, integer ((drawnSide side team).get "score") = some 0 :=
    fun _ _ => rfl
  unfold extractEspnFields teamsOf
  simp only [hparse, habbr, ha, hb, hscore, require, ne_eq, hne, hhome, haway, not_false_eq_true,
    and_self, if_true, Option.bind_eq_bind, Option.bind_some]
  rfl

theorem spread_not_judged {home away name fav event line : String} {l : ℚ} (hne : home ≠ away)
    {a b : Json} (ha : normalizeAbbr P.toUpperCase (some a) = some home)
    (hb : normalizeAbbr P.toUpperCase (some b) = some away)
    (hhome : home ≠ TIE_TOKEN) (haway : away ≠ TIE_TOKEN) (hfav : fav = home ∨ fav = away)
    (hcriteria : m.criteria = .spread name fav |(parseFloat line).getD 0| event)
    (h : buildResolutionPredicate { kind := "spread", line := some line, subject := some fav } =
      .ok m.resolution_predicate)
    (hl : lineValue line = some l) (hpos : 0 < l) : ¬ Judged P home away m := by
  intro hjudged
  obtain ⟨l', hl', -, hjudge⟩ := spread_iff h
  obtain rfl := Option.some.inj (hl.symm.trans hl')
  have hhas : (drawnResult home away hne).Has fav := hfav
  -- a draw covers the line, and is no win by more than anything
  have hown : (drawnResult home away hne).own fav = 0 ∧
      (drawnResult home away hne).other fav = 0 := by
    unfold Result.own Result.other drawnResult
    simp
  have hyes := hjudge _ hhas
  rw [hown.1, hown.2, decide_eq_true (by push_cast; linarith)] at hyes
  have hno := (hjudged (drawn a b) _ (extract_drawn hne ha hb hhome haway) (Or.inl rfl)
    (Or.inr rfl)).2
  rw [hyes] at hno
  refine absurd (hno ?_) (by decide)
  rw [hcriteria]
  show ¬ |(parseFloat line).getD 0| < ((drawnResult home away hne).own fav : ℚ) -
    (drawnResult home away hne).other fav
  rw [hown.1, hown.2, not_lt]
  push_cast
  rw [sub_zero]
  exact abs_nonneg _

/-! ### When a card settles as it is described -/

/-- No team of the card is named as a tie. -/
theorem judged_of_tie {home away : String} (h : home = TIE_TOKEN ∨ away = TIE_TOKEN) :
    Judged P home away m := by
  intro data r hr hhome haway
  exfalso
  have hgenuine := genuine_of_fields hr
  have hnot : ∀ team, r.Has team → team ≠ TIE_TOKEN := by
    rintro team (rfl | rfl)
    · exact hgenuine.home_ne
    · exact hgenuine.away_ne
  rcases h with h | h
  · exact hnot home hhome h
  · exact hnot away haway h

theorem teams_eq_some {home away : String} (h : teams P d = some (home, away)) :
    normalizeAbbr P.toUpperCase d.home_team = some home ∧
      normalizeAbbr P.toUpperCase d.away_team = some away ∧ home ≠ away := by
  unfold teams at h
  simp only [Option.bind_eq_bind, Option.bind_eq_some_iff, require_eq_some, exists_const,
    Option.some.injEq, Prod.mk.injEq] at h
  obtain ⟨home, hhome, away, haway, hne, rfl, rfl⟩ := h
  exact ⟨hhome, haway, hne⟩

theorem normalizeAbbr_given {abbr : Option Json} {s : String}
    (h : normalizeAbbr P.toUpperCase abbr = some s) : ∃ a, abbr = some a := by
  cases abbr with
  | none => cases h
  | some a => exact ⟨a, rfl⟩

theorem mem_markets {home away : String} {markets : List Market}
    (hlegs : legsOf P d (gameOf P d home away) = markets.map .ok) :
    m ∈ markets ↔ .ok m ∈ legsOf P d (gameOf P d home away) := by
  rw [hlegs, List.mem_map]
  constructor
  · intro hm
    exact ⟨m, hm, rfl⟩
  · rintro ⟨m', hm', heq⟩
    rwa [← Except.ok.inj heq]

/-- Each line of a spread has its market. -/
theorem spread_market {home away line : String} {markets : List Market}
    (hlegs : legsOf P d (gameOf P d home away) = markets.map .ok) (hline : line ∈ d.legs.spread) :
    ∃ m ∈ markets, spreadLeg P d (gameOf P d home away) line = .ok m := by
  have hin : spreadLeg P d (gameOf P d home away) line ∈ legsOf P d (gameOf P d home away) :=
    List.mem_append_left _ (List.mem_append_right _ (List.mem_map_of_mem hline))
  rw [hlegs] at hin
  obtain ⟨m, hm, heq⟩ := List.mem_map.mp hin
  exact ⟨m, hm, heq.symm⟩

/-- A line in favour of the subject is not judged as it is described. -/
theorem described_line (h : (buildSportsCard P d).errors = []) (hdescribed : Described P d)
    (hhome : normalizeAbbr P.toUpperCase d.home_team ≠ some TIE_TOKEN)
    (haway : normalizeAbbr P.toUpperCase d.away_team ≠ some TIE_TOKEN) {line : String}
    (hline : line ∈ d.legs.spread) {l : ℚ} (hl : lineValue line = some l) : l < 0 := by
  obtain ⟨home, away, fav, hteams, hfav, hside, hlegs⟩ := build_valid h
  obtain ⟨hhome', haway', hne⟩ := teams_eq_some hteams
  obtain ⟨m, hm, hleg⟩ := spread_market hlegs hline
  obtain ⟨-, hcriteria, hbuild⟩ := spreadLeg_eq_ok (g := gameOf P d home away) hfav hleg
  obtain ⟨l', hl', hint, -⟩ := spread_iff hbuild
  obtain rfl := Option.some.inj (hl.symm.trans hl')
  obtain ⟨a, ha⟩ := normalizeAbbr_given hhome'
  obtain ⟨b, hb⟩ := normalizeAbbr_given haway'
  have hhomeTie : home ≠ TIE_TOKEN := by
    rintro rfl
    exact hhome hhome'
  have hawayTie : away ≠ TIE_TOKEN := by
    rintro rfl
    exact haway haway'
  rw [ha] at hhome'
  rw [hb] at haway'
  rcases lt_trichotomy l 0 with hneg | hzero | hpos
  · exact hneg
  · exact absurd (by rw [hzero]; rfl) (hint 0)
  · exact absurd (hdescribed.2 home away hteams m hm)
      (spread_not_judged hne hhome' haway' hhomeTie hawayTie hside hcriteria hbuild hl hpos)

/-- **A card settles as it is described** if and only if no leg is given twice and every line of a
spread is negative; a team named as a tie has no results. -/
theorem card_iff (h : (buildSportsCard P d).errors = []) :
    Described P d ↔
      ((d.legs.winner.map fun w => normalizeAbbr P.toUpperCase (some w)).Nodup ∧
        d.legs.spread.Nodup ∧ d.legs.total.Nodup) ∧
      ((∀ line ∈ d.legs.spread, ∀ l, lineValue line = some l → l < 0) ∨
        normalizeAbbr P.toUpperCase d.home_team = some TIE_TOKEN ∨
        normalizeAbbr P.toUpperCase d.away_team = some TIE_TOKEN) := by
  obtain ⟨home, away, fav, hteams, hfav, hside, hlegs⟩ := build_valid h
  have hfavOf : (gameOf P d home away).fav = some fav := hfav
  rw [← keys_nodup_iff hfavOf hlegs]
  constructor
  · intro hdescribed
    refine ⟨hdescribed.1, ?_⟩
    by_cases htie : normalizeAbbr P.toUpperCase d.home_team = some TIE_TOKEN ∨
        normalizeAbbr P.toUpperCase d.away_team = some TIE_TOKEN
    · exact Or.inr htie
    · rw [not_or] at htie
      exact Or.inl fun line hline l => described_line h hdescribed htie.1 htie.2 hline
  · rintro ⟨hkeys, hcond⟩
    refine ⟨hkeys, ?_⟩
    intro home' away' hteams' m hm
    obtain ⟨rfl, rfl⟩ := Prod.mk.inj (Option.some.inj (hteams.symm.trans hteams'))
    rcases hcond with hneg | htie
    · rw [mem_markets hlegs, legsOf, List.mem_append, List.mem_append, List.mem_map,
        List.mem_map, List.mem_map] at hm
      rcases hm with (⟨w, -, hw⟩ | ⟨line, hline, hs⟩) | ⟨line, -, ht⟩
      · obtain ⟨abbr, -, -, hcriteria, hbuild⟩ := winnerLeg_eq_ok hw
        exact winner_judged hcriteria hbuild
      · obtain ⟨-, hcriteria, hbuild⟩ := spreadLeg_eq_ok hfavOf hs
        obtain ⟨l, hl, -, -⟩ := spread_iff hbuild
        exact spread_judged hside hcriteria hbuild hl (hneg line hline l hl)
      · obtain ⟨-, hcriteria, hbuild⟩ := totalLeg_eq_ok ht
        exact total_judged hcriteria hbuild
    · obtain ⟨hhome, haway, -⟩ := teams_eq_some hteams
      rw [hhome, haway, Option.some.injEq, Option.some.injEq] at htie
      exact judged_of_tie htie

end

/-! ### Brazil against Japan -/

def summaryUrl : String :=
  "https://site.api.espn.com/apis/site/v2/sports/soccer/fifa.world/summary?event=760487"

def console : Platform where
  URL url := if url = summaryUrl then some ("https:", "site.api.espn.com") else none
  toUpperCase := List.map Char.toUpper
  numberText q := if q = 3 / 2 then "1.5" else String.ofList (Json.intText q.num)

def brazilJapan (spread : List String) : Descriptor where
  sport := some "soccer"
  league_label := some "FIFA World Cup"
  event_id := "760487"
  data_source_canonical := summaryUrl
  home_team := some (.str "BRA")
  away_team := some (.str "JPN")
  home_name := some "Brazil"
  away_name := some "Japan"
  kickoff_iso := none
  outcome_end_date := some "2026-06-29T20:30:00Z"
  favorite := some (.str "BRA")
  legs := { winner := [.str "BRA", .str "JPN"], spread := spread, total := ["2.5"] }

theorem card_iff_brazilJapan : Described console (brazilJapan ["-1.5"]) :=
  (card_iff (by decide +kernel)).mpr ⟨by decide +kernel, Or.inl (by decide +kernel)⟩

/-- Brazil draws, and is judged to have won by more than one and a half. -/
theorem draw_wins_spread :
    (buildSportsCard console (brazilJapan ["1.5"])).errors = [] ∧
      ¬ Described console (brazilJapan ["1.5"]) := by
  have hvalid : (buildSportsCard console (brazilJapan ["1.5"])).errors = [] := by
    decide +kernel
  refine ⟨hvalid, ?_⟩
  intro hdescribed
  have hneg : (3 / 2 : ℚ) < 0 := described_line hvalid hdescribed (by decide +kernel)
    (by decide +kernel) List.mem_cons_self (by decide +kernel)
  norm_num at hneg

end KANet.Settle.SportsCard
