import KANet.Settle.EspnSummary

/-!
# Votes on native markets

`deriveKanetNativeVote` reads the source of a market, keeps what it has read of a game that is over,
and judges the market's predicate.  The source is read twice: first in words, and only if they
name a winner, as fields.

An address of the own machine has been replaced before.  `extractCoinGeckoPrice`, which reads
prices, is given, and so is `sha256`.

* `run_cached` — what is kept is what a response of an earlier call gave.
* `votes_iff` — when a structured market is judged from the result.
-/

namespace KANet.Settle.NativeVote

open KANet.Lib KANet.Lib.DecimalText KANet.Script KANet.Payout
open KANet.Settle.Predicate KANet.Settle.Espn

structure Platform (H : Type) where
  URL : String → Option (String × String)
  toUpperCase : List Char → List Char
  sha256 : List Char → H
  extractCoinGeckoPrice : Json → Option (List (List Char))

/-- The fields of a source, and their hash. -/
structure Structured (H : Type) where
  fields : StructuredEvidence
  field_hash : H

structure Cached (H : Type) where
  evidence_text : List (List Char)
  field_hash : Option H
  structured : Option (Structured H)
  cachedAt : ℤ

abbrev Cache (H : Type) := String → Option (Cached H)

inductive Response
  | failed
  | http (status : ℕ)
  | text (data : Option Json)

inductive Abstention
  | knownSourceNotFinal
  | noExtractorMatch
  | judgelineNoFields
  | judgelineAbstain
deriving DecidableEq

/-- A vote; without a predicate, the evidence goes on to the language model. -/
inductive Vote (H : Type)
  | failed
  | abstain (why : Abstention)
  | judged (verdict : Verdict) (fields : StructuredEvidence) (predicate : Json)
      (field_hash : Option H)
  | llm (evidence_text : List (List Char)) (field_hash : Option H)

def Vote.outcome {H : Type} : Vote H → Option Verdict
  | .failed => none
  | .abstain _ => some .ABSTAIN
  | .judged verdict _ _ _ => some verdict
  | .llm _ _ => none

/-- A rule specification and its text. -/
structure Spec where
  data_source_canonical : Option String
  resolution_predicate : Option Json
  text : List Char

def FINAL_EVIDENCE_TTL_MS : ℤ := 6 * 60 * 60 * 1000

def isHttp (url : String) : Bool :=
  "http://".toList.isPrefixOf url.toList || "https://".toList.isPrefixOf url.toList

section

variable {H : Type} (P : Platform H)

def canonicalFieldHash (f : StructuredEvidence) : H := P.sha256 (stableStringifyFields f)

/-- What is kept for an address, for six hours. -/
def Cache.live (c : Cache H) (url : String) (now : ℤ) : Option (Cached H) :=
  (c url).filter fun e => now - e.cachedAt < FINAL_EVIDENCE_TTL_MS

def extractEvidence (url : String) (data : Option Json) : Option (List (List Char)) :=
  match findExtractor P.URL url with
  | some .espn => data.bind extractEspnEvidence
  | some .coingecko => data.bind P.extractCoinGeckoPrice
  | none => none

def extractStructuredFields (url : String) (data : Option Json) : Option (Structured H) := do
  require (findExtractor P.URL url = some .espn)
  let f ← data.bind (extractEspnFields P.toUpperCase)
  some ⟨f, canonicalFieldHash P f⟩

/-- With a predicate, the fields are judged; the language model is not asked instead. -/
def judge (predicate : Option Json) (evidence : List (List Char))
    (structured : Option (Structured H)) (field_hash : Option H) : Vote H :=
  match predicate.filter truthy with
  | none => .llm evidence field_hash
  | some p =>
    match structured with
    | none => .abstain .judgelineNoFields
    | some s =>
      match judgeLine p (some s.fields) with
      | .ABSTAIN => .abstain .judgelineAbstain
      | verdict => .judged verdict s.fields p field_hash

/-- What is kept of a response. -/
def cachedOf (url : String) (data : Option Json) (clean : List (List Char)) (now : ℤ) : Cached H :=
  let structured := extractStructuredFields P url data
  ⟨clean, structured.map Structured.field_hash, structured, now⟩

def judgeCached (predicate : Option Json) (e : Cached H) : Vote H :=
  judge predicate e.evidence_text e.structured e.field_hash

def deriveKanetNativeVote (c : Cache H) (now : ℤ) (spec : Spec) (res : Response) :
    Vote H × Cache H :=
  match spec.data_source_canonical.filter (· ≠ "") with
  | none => (.failed, c)
  | some url =>
    if isHttp url then
      match c.live url now with
      | some e => (judgeCached spec.resolution_predicate e, c)
      | none =>
        match res with
        | .failed => (.failed, c)
        | .http _ => (.failed, c)
        | .text data =>
          match extractEvidence P url data with
          | none =>
            (.abstain (if (findExtractor P.URL url).isSome then .knownSourceNotFinal
              else .noExtractorMatch), c)
          | some clean =>
            let e := cachedOf P url data clean now
            (judgeCached spec.resolution_predicate e, Function.update c url (some e))
    else (judge spec.resolution_predicate [spec.text] none none, c)

/-! ### Runs -/

structure Call where
  now : ℤ
  spec : Spec
  res : Response

def run (c : Cache H) (es : List Call) : Cache H :=
  es.foldl (fun c e => (deriveKanetNativeVote P c e.now e.spec e.res).2) c

/-! ### The result of a game -/

/-- A score that is given as an integer, or by a text that is read as one. -/
def score (c : Json) : Option ℤ :=
  match c.get "score" with
  | some (.num n) => some n
  | some (.str s) => if trim s.toList = [] then none else integer (some (.str s))
  | _ => none

/-- A flag for each side. -/
def bothFlagged (p : Summary) : Prop :=
  flagged p.competitors.1 = true ∧ flagged p.competitors.2 = true

instance (p : Summary) : Decidable (bothFlagged p) := inferInstanceAs (Decidable (_ ∧ _))

/-- The result of a game that is over, of two teams, with two scores and at most one winner. -/
def finalFields (data : Json) : Option StructuredEvidence := do
  let p ← parseEspnSummary data
  let (home_team, away_team) ← teamsOf P.toUpperCase p
  let home_score ← score p.home
  let away_score ← score p.away
  require (¬ bothFlagged p)
  let winner_side ← winnerSide p home_team away_team
  some ⟨some winner_side, some home_team, some away_team, some home_score, some away_score⟩

/-- What a structured market is to be voted. -/
def officialVote (predicate : Json) (data : Option Json) : Verdict :=
  match data.bind (finalFields P) with
  | some f => judgeLine predicate (some f)
  | none => .ABSTAIN

/-- A predicate about the teams of a game. -/
def ForGame (predicate : Json) (data : Option Json) : Prop :=
  validateResolutionPredicate predicate = .ok () ∧
  ∀ f, data.bind (finalFields P) = some f → ∀ s, predicate.get "subject" = some (.str s) →
    f.home_team = some s ∨ f.away_team = some s

/-- A structured market is judged from the result: what is no result has no fields, and every vote
on what is read is that on the result. -/
def Official (url : String) (data : Option Json) : Prop :=
  (data.bind (finalFields P) = none → data.bind (extractEspnFields P.toUpperCase) = none) ∧
  ∀ c now predicate text, Cache.live c url now = none → ForGame P predicate data →
    (deriveKanetNativeVote P c now ⟨some url, some predicate, text⟩ (.text data)).1.outcome =
      some (officialVote P predicate data)

end

/-! ### What is kept -/

section

variable {H : Type} {P : Platform H} {url : String}

/-- What is kept was read by one of the calls. -/
def Kept (P : Platform H) (es : List Call) (c : Cache H) : Prop :=
  ∀ url e, c url = some e → ∃ call ∈ es, call.spec.data_source_canonical = some url ∧
    ∃ data clean, call.res = .text data ∧ extractEvidence P url data = some clean ∧
      e = cachedOf P url data clean call.now

theorem derive_cache (c : Cache H) (now : ℤ) (spec : Spec) (res : Response) :
    (deriveKanetNativeVote P c now spec res).2 = c ∨
      ∃ url data clean, spec.data_source_canonical = some url ∧ res = .text data ∧
        extractEvidence P url data = some clean ∧
        (deriveKanetNativeVote P c now spec res).2 =
          Function.update c url (some (cachedOf P url data clean now)) := by
  unfold deriveKanetNativeVote
  split
  · exact Or.inl rfl
  · next url hsource =>
    split
    · split
      · exact Or.inl rfl
      · split
        · exact Or.inl rfl
        · exact Or.inl rfl
        · next data =>
          split
          · exact Or.inl rfl
          · next clean hclean =>
            exact Or.inr ⟨url, data, clean, (Option.filter_eq_some_iff.mp hsource).1, rfl, hclean,
              rfl⟩
    · exact Or.inl rfl

/-- **What is kept was read by an earlier call**. -/
theorem run_cached (es : List Call) : Kept P es (run P (fun _ => none) es) := by
  induction es using List.reverseRecOn with
  | nil =>
    intro url e he
    cases he
  | append_singleton es call ih =>
    have hrun : run P (fun _ => none) (es ++ [call]) =
        (deriveKanetNativeVote P (run P (fun _ => none) es) call.now call.spec call.res).2 := by
      unfold run
      rw [List.foldl_append]
      rfl
    have hold : ∀ url e, run P (fun _ => none) es url = some e → ∃ call' ∈ es ++ [call],
        call'.spec.data_source_canonical = some url ∧ ∃ data clean, call'.res = .text data ∧
          extractEvidence P url data = some clean ∧
          e = cachedOf P url data clean call'.now := by
      intro url e he
      obtain ⟨call', hmem, h⟩ := ih url e he
      exact ⟨call', List.mem_append_left _ hmem, h⟩
    intro url e he
    rw [hrun] at he
    rcases derive_cache (P := P) (run P (fun _ => none) es) call.now call.spec call.res with
      heq | ⟨url', data, clean, hsource, hres, hclean, heq⟩
    · rw [heq] at he
      exact hold url e he
    · rw [heq] at he
      by_cases hurl : url = url'
      · subst hurl
        rw [Function.update_self] at he
        exact ⟨call, List.mem_append_right _ List.mem_cons_self, hsource, data, clean, hres, hclean,
          (Option.some.inj he).symm⟩
      · rw [Function.update_of_ne hurl] at he
        exact hold url e he

/-! ### A fresh read -/

theorem ne_of_isHttp (hhttp : isHttp url = true) : url ≠ "" := by
  rintro rfl
  exact absurd hhttp (by decide)

theorem derive_cached {c : Cache H} {now : ℤ} {e : Cached H} (hhttp : isHttp url = true)
    (hlive : Cache.live c url now = some e) (predicate : Option Json) (text : List Char)
    (res : Response) :
    (deriveKanetNativeVote P c now ⟨some url, predicate, text⟩ res).1 =
      judgeCached predicate e := by
  have hfilter : (some url).filter (· ≠ "") = some url := by
    simp [ne_of_isHttp hhttp]
  unfold deriveKanetNativeVote
  simp only [hfilter, hhttp, if_true, hlive]

theorem derive_fresh {c : Cache H} {now : ℤ} (hhttp : isHttp url = true)
    (hlive : Cache.live c url now = none) (predicate : Option Json) (text : List Char)
    (data : Option Json) :
    (deriveKanetNativeVote P c now ⟨some url, predicate, text⟩ (.text data)).1 =
      match extractEvidence P url data with
      | none => .abstain (if (findExtractor P.URL url).isSome then .knownSourceNotFinal
          else .noExtractorMatch)
      | some clean => judgeCached predicate (cachedOf P url data clean now) := by
  have hfilter : (some url).filter (· ≠ "") = some url := by
    simp [ne_of_isHttp hhttp]
  unfold deriveKanetNativeVote
  simp only [hfilter, hhttp, if_true, hlive]
  split
  · rfl
  · rfl

/-- The verdict that the fields of a response get; without evidence, they are not read. -/
def readVote (P : Platform H) (predicate : Json) (data : Option Json) : Verdict :=
  match data.bind extractEspnEvidence, data.bind (extractEspnFields P.toUpperCase) with
  | some _, some f => judgeLine predicate (some f)
  | _, _ => .ABSTAIN

theorem truthy_of_valid {predicate : Json}
    (h : validateResolutionPredicate predicate = .ok ()) : truthy predicate = true := by
  unfold validateResolutionPredicate at h
  simp only [bind_eq_ok, check_eq_ok, exists_const] at h
  cases predicate with
  | arr vs => rfl
  | obj ms => rfl
  | null => exact absurd h.1 (by decide)
  | bool b => exact absurd h.1 Bool.false_ne_true
  | num n => exact absurd h.1 Bool.false_ne_true
  | dec d => exact absurd h.1 Bool.false_ne_true
  | str s => exact absurd h.1 Bool.false_ne_true

theorem fresh_outcome {c : Cache H} {now : ℤ} (hespn : findExtractor P.URL url = some .espn)
    (hhttp : isHttp url = true) (hlive : Cache.live c url now = none) {predicate : Json}
    (hvalid : validateResolutionPredicate predicate = .ok ()) (text : List Char)
    (data : Option Json) :
    (deriveKanetNativeVote P c now ⟨some url, some predicate, text⟩ (.text data)).1.outcome =
      some (readVote P predicate data) := by
  have htruthy : (some predicate).filter truthy = some predicate := by
    simp [truthy_of_valid hvalid]
  have hevidence : extractEvidence P url data = data.bind extractEspnEvidence := by
    unfold extractEvidence
    rw [hespn]
  have hfields : extractStructuredFields P url data =
      (data.bind (extractEspnFields P.toUpperCase)).map fun f => ⟨f, canonicalFieldHash P f⟩ := by
    unfold extractStructuredFields
    simp only [hespn, require, if_true, Option.bind_eq_bind, Option.bind_some]
    cases data.bind (extractEspnFields P.toUpperCase) with
    | none => rfl
    | some f => rfl
  rw [derive_fresh hhttp hlive, hevidence]
  unfold readVote
  cases hclean : data.bind extractEspnEvidence with
  | none => rfl
  | some clean =>
    simp only [judgeCached, judge, cachedOf, htruthy, hfields]
    cases data.bind (extractEspnFields P.toUpperCase) with
    | none => rfl
    | some f =>
      simp only [Option.map_some]
      cases hjudge : judgeLine predicate (some f) with
      | YES => rfl
      | NO => rfl
      | ABSTAIN => rfl

/-! ### Evidence and fields -/

variable {data : Json} {p : Summary} {home away : String}

theorem mapM_isSome {α β : Type} {f : α → Option β} {l : List α} :
    l.mapM f ≠ none ↔ ∀ a ∈ l, f a ≠ none := by
  induction l with
  | nil => simp
  | cons a l ih =>
    rw [List.mapM_cons, List.forall_mem_cons, ← ih]
    cases f a with
    | none => simp
    | some b =>
      cases l.mapM f with
      | none => simp
      | some bs => simp

theorem mem_evidenceParts {winner loser league v : Json} :
    v ∈ evidenceParts winner loser league ↔ v ∈ evidenceParts loser winner league := by
  simp only [evidenceParts, List.mem_cons, List.not_mem_nil, or_false]
  tauto

/-- There is evidence of a game that has a winner, if its parts can be written. -/
theorem evidence_iff (hp : parseEspnSummary data = some p) :
    extractEspnEvidence data ≠ none ↔
      (flagged p.competitors.1 = true ∨ flagged p.competitors.2 = true) ∧
      ∀ v ∈ evidenceParts p.competitors.1 p.competitors.2 p.league, toText v ≠ none := by
  unfold extractEspnEvidence Summary.winner
  simp only [hp, Option.bind_eq_bind, Option.bind_some]
  by_cases h₁ : flagged p.competitors.1 = true
  · simp only [h₁, if_true, Option.bind_some, true_or, true_and]
    exact mapM_isSome
  · by_cases h₂ : flagged p.competitors.2 = true
    · simp only [h₁, h₂, Bool.false_eq_true, if_false, if_true, Option.bind_some, or_true,
        true_and, Prod.fst_swap, Prod.snd_swap, mapM_isSome]
      constructor
      · intro h v hv
        exact h v (mem_evidenceParts.mp hv)
      · intro h v hv
        exact h v (mem_evidenceParts.mp hv)
    · simp only [h₁, h₂]
      simp

theorem winnerSide_isSome (home away : String) (hp : parseEspnSummary data = some p) :
    ∃ w, winnerSide p home away = some w := by
  obtain ⟨hsides, hhome, haway⟩ := parse_spec hp
  have hall : ∀ c, c = p.competitors.1 ∨ c = p.competitors.2 →
      homeAway c "home" = true ∨ homeAway c "away" = true := by
    intro c hc
    rcases hsides with ⟨h₁, h₂⟩ | ⟨h₁, h₂⟩
    all_goals
      rw [← h₁, ← h₂] at hc
      rcases hc with rfl | rfl
    · exact Or.inl hhome
    · exact Or.inr haway
    · exact Or.inr haway
    · exact Or.inl hhome
  unfold winnerSide
  split
  · exact ⟨_, rfl⟩
  · next c other hwinner =>
    have hc : c = p.competitors.1 ∨ c = p.competitors.2 := by
      unfold Summary.winner at hwinner
      split at hwinner
      · exact Or.inl (congrArg Prod.fst (Option.some.inj hwinner)).symm
      · split at hwinner
        · exact Or.inr (congrArg Prod.fst (Option.some.inj hwinner)).symm
        · cases hwinner
    split
    · exact ⟨_, rfl⟩
    · next hnot =>
      rw [if_pos ((hall c hc).resolve_left hnot)]
      exact ⟨_, rfl⟩

theorem integer_of_score {c : Json} {n : ℤ} (h : score c = some n) :
    integer (c.get "score") = some n := by
  unfold score at h
  split at h
  · next heq =>
    rw [heq]
    exact h
  · next heq =>
    rw [heq]
    split at h
    · cases h
    · exact h
  · cases h

/-- The result of a game is what is read of it. -/
theorem extract_of_final {f : StructuredEvidence} (h : finalFields P data = some f) :
    extractEspnFields P.toUpperCase data = some f := by
  unfold finalFields at h
  simp only [Option.bind_eq_bind, Option.bind_eq_some_iff, require_eq_some, exists_const,
    Option.some.injEq] at h
  obtain ⟨p, hp, ⟨home, away⟩, hteams, hs, hhs, as, has, -, w, hw, rfl⟩ := h
  unfold extractEspnFields
  simp only [hp, hteams, integer_of_score hhs, integer_of_score has, hw, Option.bind_eq_bind,
    Option.bind_some]

/-- What is read of two teams with integer scores. -/
theorem extract_of_integers {hs as : ℤ} (hp : parseEspnSummary data = some p)
    (hteams : teamsOf P.toUpperCase p = some (home, away))
    (hhs : integer (p.home.get "score") = some hs)
    (has : integer (p.away.get "score") = some as) :
    ∃ f, extractEspnFields P.toUpperCase data = some f := by
  obtain ⟨w, hw⟩ := winnerSide_isSome home away hp
  unfold extractEspnFields
  simp only [hp, hteams, hhs, has, hw, Option.bind_eq_bind, Option.bind_some]
  exact ⟨_, rfl⟩

theorem final_iff (hp : parseEspnSummary data = some p)
    (hteams : teamsOf P.toUpperCase p = some (home, away)) :
    finalFields P data ≠ none ↔
      (score p.home ≠ none ∧ score p.away ≠ none) ∧ ¬ bothFlagged p := by
  obtain ⟨w, hw⟩ := winnerSide_isSome home away hp
  unfold finalFields
  simp only [hp, hteams, hw, Option.bind_eq_bind, Option.bind_some]
  cases score p.home with
  | none => simp
  | some hs =>
    cases score p.away with
    | none => simp
    | some as =>
      by_cases hboth : bothFlagged p
      · simp [hboth, require]
      · simp [hboth, require]

/-! ### When a market is judged from the result -/

variable (P) in
/-- A final game of two teams has a score that is not read as an integer, or two scores that are
given, one side that is flagged, and names that can be written. -/
def Readable (data : Json) : Prop :=
  ∀ p home away, parseEspnSummary data = some p →
    teamsOf P.toUpperCase p = some (home, away) →
    integer (p.home.get "score") = none ∨ integer (p.away.get "score") = none ∨
    (score p.home ≠ none ∧ score p.away ≠ none) ∧
      flagged p.competitors.1 ≠ flagged p.competitors.2 ∧
      ∀ v ∈ evidenceParts p.competitors.1 p.competitors.2 p.league, toText v ≠ none

theorem extract_eq_some {f : StructuredEvidence}
    (h : extractEspnFields P.toUpperCase data = some f) :
    ∃ p home away hs as, parseEspnSummary data = some p ∧
      teamsOf P.toUpperCase p = some (home, away) ∧ integer (p.home.get "score") = some hs ∧
      integer (p.away.get "score") = some as := by
  unfold extractEspnFields at h
  simp only [Option.bind_eq_bind, Option.bind_eq_some_iff] at h
  obtain ⟨p, hp, ⟨home, away⟩, hteams, hs, hhs, as, has, -⟩ := h
  exact ⟨p, home, away, hs, as, hp, hteams, hhs, has⟩

/-- What is readable has a result and evidence, if it has fields. -/
theorem of_readable {f : StructuredEvidence} (hreadable : Readable P data)
    (h : extractEspnFields P.toUpperCase data = some f) :
    finalFields P data = some f ∧ extractEspnEvidence data ≠ none := by
  obtain ⟨p, home, away, hs, as, hp, hteams, hhs, has⟩ := extract_eq_some h
  rcases hreadable p home away hp hteams with hnone | hnone | ⟨hscores, hflags, hparts⟩
  · rw [hhs] at hnone
    cases hnone
  · rw [has] at hnone
    cases hnone
  · constructor
    · have hfinal : finalFields P data ≠ none := by
        refine (final_iff hp hteams).mpr ⟨hscores, ?_⟩
        rintro ⟨h₁, h₂⟩
        exact hflags (h₁.trans h₂.symm)
      obtain ⟨f', hf'⟩ := Option.ne_none_iff_exists'.mp hfinal
      rw [hf', ← h]
      exact (extract_of_final hf').symm
    · refine (evidence_iff hp).mpr ⟨?_, hparts⟩
      revert hflags
      cases flagged p.competitors.1 <;> cases flagged p.competitors.2 <;> decide

/-- A predicate that asks for the winner, whatever the teams. -/
theorem winner_valid : validateResolutionPredicate (winnerPredicate (some "A")) = .ok () := by
  rfl

theorem judged_winner {f : StructuredEvidence}
    (h : extractEspnFields P.toUpperCase data = some f) :
    judgeLine (winnerPredicate (some "A")) (some f) ≠ .ABSTAIN := by
  obtain ⟨r, rfl, -⟩ := extractEspnFields_eq_some h
  rcases judgeLine_decides (r := r) winner_valid (fun s hs => by cases hs) with hyes | hno
  · rw [hyes]
    decide
  · rw [hno]
    decide

theorem readVote_eq (hfinal : finalFields P data = none →
    extractEspnFields P.toUpperCase data = none) (hevidence : finalFields P data ≠ none →
    extractEspnEvidence data ≠ none) (predicate : Json) :
    readVote P predicate (some data) = officialVote P predicate (some data) := by
  unfold readVote officialVote
  simp only [Option.bind_some]
  cases hf : finalFields P data with
  | none =>
    rw [hfinal hf]
    split
    · next heq => cases heq
    · rfl
  | some f =>
    obtain ⟨clean, hclean⟩ := Option.ne_none_iff_exists'.mp
      (hevidence (by rw [hf]; exact Option.some_ne_none f))
    rw [extract_of_final hf, hclean]

/-- **A structured market is judged from the result** if and only if the record is readable. -/
theorem official_iff (hespn : findExtractor P.URL url = some .espn) (hhttp : isHttp url = true)
    (data : Json) : Official P url (some data) ↔ Readable P data := by
  unfold Official
  simp only [Option.bind_some]
  constructor
  · rintro ⟨hnone, hvotes⟩ p home away hp hteams
    by_cases hhs : integer (p.home.get "score") = none
    · exact Or.inl hhs
    · by_cases has : integer (p.away.get "score") = none
      · exact Or.inr (Or.inl has)
      · obtain ⟨hs, hhs⟩ := Option.ne_none_iff_exists'.mp hhs
        obtain ⟨as, has⟩ := Option.ne_none_iff_exists'.mp has
        obtain ⟨f, hf⟩ := extract_of_integers hp hteams hhs has
        have hfinal : finalFields P data ≠ none := by
          intro heq
          rw [hnone heq] at hf
          cases hf
        obtain ⟨hscores, hboth⟩ := (final_iff hp hteams).mp hfinal
        obtain ⟨f', hf'⟩ := Option.ne_none_iff_exists'.mp hfinal
        -- the vote on the winner is none without evidence
        have hevidence : extractEspnEvidence data ≠ none := by
          intro heq
          have hvote := hvotes (fun _ => none) 0 (winnerPredicate (some "A")) [] rfl
            ⟨winner_valid, fun f _ s hs => by cases hs⟩
          rw [fresh_outcome hespn hhttp rfl winner_valid] at hvote
          have hread : readVote P (winnerPredicate (some "A")) (some data) = .ABSTAIN := by
            unfold readVote
            rw [Option.bind_some, heq]
          have hofficial : officialVote P (winnerPredicate (some "A")) (some data) =
              judgeLine (winnerPredicate (some "A")) (some f') := by
            unfold officialVote
            rw [Option.bind_some, hf']
          rw [hread, hofficial] at hvote
          exact judged_winner (extract_of_final hf') (Option.some.inj hvote).symm
        obtain ⟨hflag, hparts⟩ := (evidence_iff hp).mp hevidence
        refine Or.inr (Or.inr ⟨hscores, ?_, hparts⟩)
        intro heq
        apply hboth
        rcases hflag with h₁ | h₂
        · exact ⟨h₁, heq ▸ h₁⟩
        · exact ⟨heq ▸ h₂, h₂⟩
  · intro hreadable
    have hnone : finalFields P data = none → extractEspnFields P.toUpperCase data = none := by
      intro heq
      cases hf : extractEspnFields P.toUpperCase data with
      | none => rfl
      | some f =>
        rw [(of_readable hreadable hf).1] at heq
        cases heq
    refine ⟨hnone, ?_⟩
    intro c now predicate text hlive hgame
    rw [fresh_outcome hespn hhttp hlive hgame.1]
    refine congrArg some (readVote_eq hnone ?_ predicate)
    intro hfinal
    obtain ⟨f, hf⟩ := Option.ne_none_iff_exists'.mp hfinal
    exact (of_readable hreadable (extract_of_final hf)).2

/-- A response that is no JSON is abstained from. -/
theorem official_none (hespn : findExtractor P.URL url = some .espn)
    (hhttp : isHttp url = true) : Official P url none := by
  refine ⟨fun _ => rfl, ?_⟩
  intro c now predicate text hlive hgame
  rw [fresh_outcome hespn hhttp hlive hgame.1]
  rfl

theorem officialVote_decided {predicate : Json} {response : Option Json}
    (h : ForGame P predicate response) (hfinal : response.bind (finalFields P) ≠ none) :
    officialVote P predicate response = .YES ∨ officialVote P predicate response = .NO := by
  obtain ⟨f, hf⟩ := Option.ne_none_iff_exists'.mp hfinal
  obtain ⟨data, rfl, hdata⟩ := Option.bind_eq_some_iff.mp hf
  obtain ⟨r, rfl, -⟩ := extractEspnFields_eq_some (extract_of_final hdata)
  unfold officialVote
  rw [hf]
  refine judgeLine_decides h.1 ?_
  intro s hs
  rcases h.2 _ hf s hs with heq | heq
  · exact Or.inl (Option.some.inj heq).symm
  · exact Or.inr (Option.some.inj heq).symm

theorem hash_inj (hinj : Function.Injective P.sha256) :
    Function.Injective (canonicalFieldHash P) :=
  fun _ _ h => fields_inj (hinj h)

/-- **Native votes**: a structured market of a summary is judged from the result if and only if the
record is readable; the hash tells results apart, and a vote from what is kept is that of a fresh
read of the same response. -/
theorem native_votes (hespn : findExtractor P.URL url = some .espn)
    (hhttp : isHttp url = true) :
    (∀ response : Option Json, Official P url response ↔
      ∀ data, response = some data → Readable P data) ∧
    (∀ predicate response, ForGame P predicate response →
      response.bind (finalFields P) ≠ none →
      officialVote P predicate response = .YES ∨ officialVote P predicate response = .NO) ∧
    (Function.Injective P.sha256 → Function.Injective (canonicalFieldHash P)) ∧
    ∀ es now e, Cache.live (run P (fun _ => none) es) url now = some e →
      ∃ call ∈ es, call.spec.data_source_canonical = some url ∧
        ∃ response, call.res = .text response ∧ ∀ c now' predicate text res,
          Cache.live c url now' = none →
          (deriveKanetNativeVote P (run P (fun _ => none) es) now
            ⟨some url, predicate, text⟩ res).1 =
          (deriveKanetNativeVote P c now' ⟨some url, predicate, text⟩ (.text response)).1 := by
  refine ⟨?_, ?_, hash_inj, ?_⟩
  · intro response
    cases response with
    | none => simp [official_none hespn hhttp]
    | some data => simp [official_iff hespn hhttp data]
  · intro predicate response hgame hfinal
    exact officialVote_decided hgame hfinal
  · intro es now e hlive
    obtain ⟨call, hcall, hsource, response, clean, hres, hclean, rfl⟩ :=
      run_cached es url e (Option.filter_eq_some_iff.mp hlive).1
    refine ⟨call, hcall, hsource, response, hres, ?_⟩
    intro c now' predicate text res hfresh
    rw [derive_cached hhttp hlive, derive_fresh hhttp hfresh, hclean]
    rfl

end

/-! ### A drawn game -/

def sourceUrl : String :=
  "https://site.api.espn.com/apis/site/v2/sports/soccer/fifa.world/summary?event=760487"

/-- The oracle of a node; its hash is the text itself. -/
def oracle : Platform (List Char) where
  URL url := if url = sourceUrl then some ("https:", "site.api.espn.com") else none
  toUpperCase := List.map Char.toUpper
  sha256 := id
  extractCoinGeckoPrice _ := none

def wonSide (side team : String) (score : ℤ) (winner : Bool) : Json :=
  .obj [("homeAway", .str side), ("team", .obj [("abbreviation", .str team)]),
    ("score", .num score), ("winner", .bool winner)]

/-- Brazil beats Japan by two goals to none. -/
def won : Json :=
  .obj [("header", .obj [("competitions", .arr [.obj [
    ("status", .obj [("type", .obj [("completed", .bool true), ("state", .str "post")])]),
    ("competitors", .arr [wonSide "home" "BRA" 2 true, wonSide "away" "JPN" 0 false])]])])]

theorem readable_won : Readable oracle won := by
  intro p home away hp hteams
  obtain rfl : p = ⟨(wonSide "home" "BRA" 2 true, wonSide "away" "JPN" 0 false),
      wonSide "home" "BRA" 2 true, wonSide "away" "JPN" 0 false, .str ""⟩ :=
    (Option.some.inj hp).symm
  refine Or.inr (Or.inr ⟨⟨by decide, by decide⟩, by decide, ?_⟩)
  intro v hv
  simp only [evidenceParts, List.mem_cons, List.not_mem_nil, or_false] at hv
  rcases hv with rfl | rfl | rfl | rfl | rfl
  all_goals decide

theorem native_votes_won : Official oracle sourceUrl (some won) :=
  ((@native_votes _ oracle sourceUrl (by decide +kernel) (by decide +kernel)).1
    (some won)).mpr (by
      intro data h
      rw [← Option.some.inj h]
      exact readable_won)

/-- Whether Brazil has won is abstained from after a game without goals. -/
theorem draw_abstained :
    (deriveKanetNativeVote oracle (fun _ => none) 0
      ⟨some sourceUrl, some (winnerPredicate (some "BRA")), []⟩
      (.text (some (drawn (.str "BRA") (.str "JPN"))))).1.outcome = some .ABSTAIN ∧
    officialVote oracle (winnerPredicate (some "BRA")) (some (drawn (.str "BRA") (.str "JPN"))) =
      .NO ∧
    ¬ Official oracle sourceUrl (some (drawn (.str "BRA") (.str "JPN"))) := by
  refine ⟨by decide +kernel, by decide +kernel, ?_⟩
  intro hofficial
  have hread := (official_iff (by decide +kernel) (by decide +kernel) _).mp hofficial _ "BRA" "JPN"
    rfl rfl
  rcases hread with hnone | hnone | ⟨-, hflags, -⟩
  · cases hnone
  · cases hnone
  · exact hflags rfl

end KANet.Settle.NativeVote
