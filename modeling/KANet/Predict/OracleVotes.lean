import KANet.Lib.Json
import KANet.Lib.Like
import KANet.Lib.Runs
import KANet.Lib.Table
import Mathlib.Data.List.Perm.Subperm
import Mathlib.Data.Vector.Defs

/-!
# `bettor-prediction-settler.js`: the votes of the oracles

`collectMultiOracleVotes` reads the votes of an offer from `chain_events` at every tick.  A vote of
the current round counts once for each voter; five voters that agree resolve the offer; where they
do not, those outside the majority have their counter raised, and the offer goes to the next round,
of which there are two.

The voter, the key and the round are what the row says.  Nothing asks whether the voter is one of
the five oracles of the offer, nor whether the key is the voter's; and in the last round the
counters are raised again at every tick.

A JSON text is given along with its value.  How the database driver binds a value is a parameter,
and so is the signature scheme.  The messages to the oracles are left out.

* `voters_of_known` — who has voted, where every vote that counts is an oracle's.
* `fair_run` — what a run of ticks guarantees, and when.
-/

namespace KANet.Predict.Oracles

open KANet.Lib

/-! ### JavaScript values -/

mutual

/-- `String(v)` -/
def coerce : Json → List Char
  | .null => "null".toList
  | .bool true => "true".toList
  | .bool false => "false".toList
  | .num n => Json.intText n
  | .dec d => d.text
  | .str s => s.toList
  | .arr vs => coerceElems true vs
  | .obj _ => "[object Object]".toList

/-- The elements with commas between them, `null` as nothing. -/
def coerceElems : Bool → List Json → List Char
  | _, [] => []
  | first, .null :: vs => (if first then [] else [',']) ++ coerceElems false vs
  | first, v :: vs => (if first then [] else [',']) ++ coerce v ++ coerceElems false vs

end

/-- `String(v)`, for a member that may be missing. -/
def coerceMember (v : Option Json) : List Char := (v.map coerce).getD "undefined".toList

/-- `parseInt(s, 10)` -/
def parseInt (s : List Char) : Option Int :=
  let s := s.dropWhile Char.isWhitespace
  let digits := (if s.head? = some '-' || s.head? = some '+' then s.tail else s).takeWhile
    Char.isDigit
  let n : Int := (digits.foldl (fun n c => 10 * n + Json.digitValue c) 0 : Nat)
  if digits = [] then none else some (if s.head? = some '-' then -n else n)

/-- A value that is a reference, and equal to no other. -/
def isRef : Json → Bool
  | .arr _ => true
  | .obj _ => true
  | _ => false

/-- `===`, of two values from different places. -/
def sameValue (a b : Option Json) : Bool :=
  !a.any isRef && a.map Json.text = b.map Json.text

theorem sameValue_str {s : String} {b : Option Json} :
    sameValue (some (.str s)) b = true ↔ b = some (.str s) := by
  unfold sameValue
  rw [Bool.and_eq_true, decide_eq_true_eq]
  constructor
  · rintro ⟨-, h⟩
    cases b with
    | none => cases h
    | some v => rw [Json.text_inj (Option.some.inj h)]
  · rintro rfl
    exact ⟨rfl, rfl⟩

theorem eq_of_sameValue {a b : Option Json} (h : sameValue a b = true) : a = b := by
  unfold sameValue at h
  rw [Bool.and_eq_true, decide_eq_true_eq] at h
  cases a with
  | none =>
    cases b with
    | none => rfl
    | some v => cases h.2
  | some u =>
    cases b with
    | none => cases h.2
    | some v => rw [Json.text_inj (Option.some.inj h.2)]

/-! ### Rows -/

/-- A JSON text, and what `JSON.parse` makes of it: nothing, where it throws. -/
structure Payload where
  text : List Char
  value : Option Json

/-- A row of `chain_events`. -/
structure ChainEvent where
  event_type : String
  to_address : Option String
  payload : Option Payload

/-- A row of `exchange_offers`, with the five oracles that are assigned to it. -/
structure Offer where
  id : String
  maker_kaspa_addr : Option String
  outcome_oracle_relay_ids : List.Vector String 5
  revote_round : Nat

structure RelayNode where
  id : String
  voter_misbehave_count : Nat
  is_oracle : Bool

structure Db where
  chain_events : List ChainEvent
  exchange_offers : Table Offer.id
  relay_nodes : Table RelayNode.id

/-- What comes from outside: whether a signature is good (not, where the library throws), and how
the driver binds a value as the key of a row (not, where it throws). -/
structure Env where
  verifyMessage : List Char → String → String → Bool
  bind : Option Json → Option (Option String)
  bind_str : ∀ s, bind (some (.str s)) = some (some s)

/-! ### Votes -/

def REQUIRED_SIGS : Nat := 5

def MAX_REVOTE_ROUNDS : Nat := 2

/-- `payload LIKE '%"offer_id":"…"%'` -/
def offerPattern (id : String) : List Char :=
  containing ("\"offer_id\":\"".toList ++ id.toList ++ ['"'])

/-- The rows that are selected for an offer. -/
def votesOf (events : List ChainEvent) (maker : String) (id : String) : List ChainEvent :=
  events.filter fun ev => ev.event_type = "oracle_vote" && ev.to_address = some maker &&
    ev.payload.any fun p => like (offerPattern id) p.text

/-- `const { signature, ...unsigned } = p` -/
def unsigned : Json → Json
  | .obj ms => .obj (ms.filter fun m => m.1 ≠ "signature")
  | v => v

def voteRound (p : Json) : Int := (parseInt (coerceMember (p.get "revote_round"))).getD 0

def textOf : Option Json → Option String
  | some (.str s) => some s
  | _ => none

/-- The signature is there, is no placeholder, and is good for the key that the row names. -/
def signed (env : Env) (p : Json) : Bool :=
  (textOf (p.get "signature")).any fun signature =>
    signature ≠ "" && signature ≠ "phase3a_skeleton" &&
      (textOf (p.get "voter_pubkey")).any fun key =>
        key.length = 64 && env.verifyMessage (Json.text (unsigned p)) signature key

/-- A vote that counts: the voter and the outcome. -/
structure Vote where
  voter : Option Json
  outcome : Option Json

/-- What a row counts for in a round. -/
def countedVote (env : Env) (currentRound : Nat) (ev : ChainEvent) : Option Vote := do
  let payload ← ev.payload
  let p ← payload.value
  if textOf (p.get "t") = some "kanet_oracle_vote_v1" ∧ voteRound p = currentRound ∧
      signed env p = true then
    some ⟨p.get "voter_relay_id", p.get "outcome"⟩
  else none

/-- `if (voters.has(p.voter_relay_id)) continue` -/
def addVote (voters : List Vote) (v : Vote) : List Vote :=
  if voters.any fun u => sameValue v.voter u.voter then voters else voters ++ [v]

def votersOf (env : Env) (currentRound : Nat) (rows : List ChainEvent) : List Vote :=
  (rows.filterMap (countedVote env currentRound)).foldl addVote []

/-! ### The majority -/

/-- `tally[s]` -/
def tally (voters : List Vote) (s : String) : Nat :=
  voters.countP fun v => coerceMember v.outcome = s.toList

def majority (voters : List Vote) : String :=
  let yes := tally voters "YES"
  let no := tally voters "NO"
  let dispute := tally voters "DISPUTE"
  let maxCount := max yes (max no dispute)
  if [yes, no, dispute].countP (· = maxCount) = 1 then
    if yes = maxCount then "YES" else if no = maxCount then "NO" else "DISPUTE"
  else "DISPUTE"

/-- All the same as the first. -/
def unanimous (voters : List Vote) : Bool :=
  voters.all fun v => voters.head?.any fun u => sameValue u.outcome v.outcome

/-- The voters whose counter is raised. -/
def dissenters (voters : List Vote) : List (Option Json) :=
  (voters.filter fun v => ! sameValue (some (.str (majority voters))) v.outcome).map Vote.voter

def RelayNode.misbehave (n : RelayNode) : RelayNode :=
  { n with
    voter_misbehave_count := n.voter_misbehave_count + 1
    is_oracle := n.is_oracle && !decide (3 ≤ n.voter_misbehave_count + 1) }

theorem RelayNode.misbehave_id (n : RelayNode) : n.misbehave.id = n.id := rfl

/-- The counter of a relay is raised, and the relay is paused at three. -/
def misbehave (nodes : Table RelayNode.id) (id : String) : Table RelayNode.id :=
  nodes.updateWhere (fun n => n.id = id) RelayNode.misbehave RelayNode.misbehave_id

/-- The line that reports the pause takes a slice of the voter. -/
def sliceable : Option Json → Bool
  | some (.str _) => true
  | some (.arr _) => true
  | _ => false

/-- The tables of the relays after the penalties, the relays they went to, and whether one threw. -/
structure Raised where
  relay_nodes : Table RelayNode.id
  blamed : List String
  threw : Bool

def Raised.cons (id : String) (r : Raised) : Raised := { r with blamed := id :: r.blamed }

def raise (env : Env) (nodes : Table RelayNode.id) : List (Option Json) → Raised
  | [] => ⟨nodes, [], false⟩
  | k :: ks =>
    match env.bind k with
    | none => ⟨nodes, [], true⟩
    -- no row has the key `NULL`
    | some none => raise env nodes ks
    | some (some id) =>
      if ((misbehave nodes id).get id).any (fun n => 3 ≤ n.voter_misbehave_count) &&
          !sliceable k then
        ⟨misbehave nodes id, [id], true⟩
      else (raise env (misbehave nodes id) ks).cons id

def Offer.revote (o : Offer) : Offer := { o with revote_round := o.revote_round + 1 }

theorem Offer.revote_id (o : Offer) : o.revote.id = o.id := rfl

/-- The offer goes to its next round. -/
def revote (offers : Table Offer.id) (id : String) : Table Offer.id :=
  offers.updateWhere (fun o => o.id = id) Offer.revote Offer.revote_id

inductive Verdict
  | failed (reason : String)
  | waiting (voters : Nat)
  | resolved (winner : Option Json)
  | dissent (majority : String)
  | dissent_max_rounds (majority : String)
  | threw

def Verdict.winner : Verdict → Option (Option Json)
  | .resolved winner => some winner
  | _ => none

/-- What a call gives: the verdict, the tables, and whose counters have been raised. -/
structure Collected where
  verdict : Verdict
  db : Db
  blamed : List String

/-- What of it has consequences. -/
structure Effect where
  winner : Option (Option Json)
  blamed : List String
  relay_nodes : Table RelayNode.id
  exchange_offers : Table Offer.id

def Collected.effect (c : Collected) : Effect :=
  ⟨c.verdict.winner, c.blamed, c.db.relay_nodes, c.db.exchange_offers⟩

/-- What the votes that count come to. -/
def countVotes (env : Env) (db : Db) (offer : Offer) (voters : List Vote) : Collected :=
  if voters.length < REQUIRED_SIGS then ⟨.waiting voters.length, db, []⟩
  else if unanimous voters then ⟨.resolved (voters.head?.bind Vote.outcome), db, []⟩
  else
    let raised := raise env db.relay_nodes (dissenters voters)
    let db := { db with relay_nodes := raised.relay_nodes }
    if raised.threw then ⟨.threw, db, raised.blamed⟩
    else if offer.revote_round < MAX_REVOTE_ROUNDS then
      ⟨.dissent (majority voters),
        { db with exchange_offers := revote db.exchange_offers offer.id }, raised.blamed⟩
    else ⟨.dissent_max_rounds (majority voters), db, raised.blamed⟩

def collectMultiOracleVotes (env : Env) (db : Db) (offer : Offer) : Collected :=
  match offer.maker_kaspa_addr.filter (· ≠ "") with
  | none => ⟨.failed "missing maker_kaspa_addr (= aggregator target)", db, []⟩
  | some maker =>
    if votesOf db.chain_events maker offer.id = [] then
      ⟨.failed "no oracle votes received yet", db, []⟩
    else countVotes env db offer
      (votersOf env offer.revote_round (votesOf db.chain_events maker offer.id))

/-! ### Ticks and rows -/

/-- `log` are the counters that were raised, with the offer and the round; nobody keeps it. -/
structure Sys where
  db : Db
  log : List (String × String × Nat)

inductive Event
  /-- A row arrives, whoever wrote it. -/
  | vote (ev : ChainEvent)
  /-- A tick comes to an offer. -/
  | tick (id : String)

def step (env : Env) (s : Sys) : Event → Sys
  | .vote ev => { s with db := { s.db with chain_events := s.db.chain_events ++ [ev] } }
  | .tick id =>
    match s.db.exchange_offers.get id with
    | none => s
    | some offer =>
      { db := (collectMultiOracleVotes env s.db offer).db
        log := s.log ++ (collectMultiOracleVotes env s.db offer).blamed.map fun v =>
          (v, id, offer.revote_round) }

def Step (env : Env) (s : Sys) (ev : Event) (s' : Sys) : Prop := s' = step env s ev

/-! ### What the votes should guarantee -/

/-- The oracle has signed the row with its own key: a vote for `w`, for this offer and round. -/
def SignedVote (env : Env) (registered : String → Option String) (offer : Offer)
    (ev : ChainEvent) (oracle : String) (w : Option Json) : Prop :=
  ∃ payload p signature key, ev.payload = some payload ∧ payload.value = some p ∧
    p.get "voter_relay_id" = some (.str oracle) ∧ p.get "voter_pubkey" = some (.str key) ∧
    registered oracle = some key ∧ p.get "signature" = some (.str signature) ∧
    env.verifyMessage (Json.text (unsigned p)) signature key = true ∧
    p.get "offer_id" = some (.str offer.id) ∧ voteRound p = offer.revote_round ∧
    p.get "outcome" = w

/-- The row is one of an oracle of the offer, for the offer, with the oracle's own key. -/
def ours (registered : String → Option String) (offer : Offer) (ev : ChainEvent) : Bool :=
  (ev.payload.bind Payload.value).any fun p =>
    textOf (p.get "offer_id") = some offer.id &&
      (textOf (p.get "voter_relay_id")).any fun oracle =>
        decide (oracle ∈ offer.outcome_oracle_relay_ids.toList) &&
          (textOf (p.get "voter_pubkey")).any fun key => registered oracle = some key

def Db.without (db : Db) (strangers : ChainEvent → Bool) : Db :=
  { db with chain_events := (db.chain_events.filter fun ev => !strangers ev) }

/-- **A winner is the winner of all five**, and the rows of strangers change nothing. -/
structure FairTick (env : Env) (registered : String → Option String) (db : Db) (offer : Offer) :
    Prop where
  unanimous : ∀ w, (collectMultiOracleVotes env db offer).verdict.winner = some w →
    ∀ oracle ∈ offer.outcome_oracle_relay_ids.toList, ∃ ev ∈ db.chain_events,
      SignedVote env registered offer ev oracle w
  strangers : (collectMultiOracleVotes env (db.without fun ev => !ours registered offer ev)
    offer).effect = (collectMultiOracleVotes env db offer).effect

/-- Every tick of a run is fair, and every counter has been raised once at most for an offer and a
round. -/
structure FairRun (env : Env) (registered : String → Option String) (s₀ : Sys)
    (evs : List Event) (s : Sys) : Prop where
  tick : ∀ pre id post, evs = pre ++ .tick id :: post → ∀ m, Run (Step env) s₀ pre m →
    ∀ offer, m.db.exchange_offers.get id = some offer → FairTick env registered m.db offer
  once : s.log.Nodup
  counted : ∀ id n₀, s₀.db.relay_nodes.get id = some n₀ → ∃ n,
    s.db.relay_nodes.get id = some n ∧
      n.voter_misbehave_count = n₀.voter_misbehave_count + s.log.countP fun e => e.1 = id

/-- The votes of the round are five or more, and not the same. -/
def Divided (env : Env) (db : Db) (offer : Offer) : Prop :=
  ∃ maker, offer.maker_kaspa_addr = some maker ∧
    REQUIRED_SIGS ≤ (votersOf env offer.revote_round
      (votesOf db.chain_events maker offer.id)).length ∧
    unanimous (votersOf env offer.revote_round (votesOf db.chain_events maker offer.id)) = false

/-- Every row that counts is one of the oracles', and a tick that finds the votes of the last round
divided is the first to. -/
structure ProperTick (env : Env) (registered : String → Option String) (s : Sys) (offer : Offer) :
    Prop where
  known : ∀ maker, offer.maker_kaspa_addr = some maker →
    ∀ ev ∈ votesOf s.db.chain_events maker offer.id,
      (countedVote env offer.revote_round ev).isSome = true → ours registered offer ev = true
  first : MAX_REVOTE_ROUNDS ≤ offer.revote_round → Divided env s.db offer →
    ∀ v, (v, offer.id, offer.revote_round) ∉ s.log

def ProperRun (env : Env) (registered : String → Option String) (s₀ : Sys) (evs : List Event) :
    Prop :=
  ∀ pre id post, evs = pre ++ .tick id :: post → ∀ m, Run (Step env) s₀ pre m →
    ∀ offer, m.db.exchange_offers.get id = some offer → ProperTick env registered m offer

/-! ### Who has voted -/

section Voters

variable {env : Env} {registered : String → Option String} {offer : Offer}

/-- The voters are these relays. -/
def Keyed (voters : List Vote) (ids : List String) : Prop :=
  voters.map Vote.voter = ids.map fun id => some (.str id)

theorem Keyed.exists_mem {voters : List Vote} {ids : List String} (h : Keyed voters ids)
    {id : String} (hid : id ∈ ids) : ∃ v ∈ voters, v.voter = some (.str id) := by
  have hmem : some (Json.str id) ∈ voters.map Vote.voter := by
    rw [h]
    exact List.mem_map_of_mem hid
  exact List.mem_map.mp hmem

theorem Keyed.length_eq {voters : List Vote} {ids : List String} (h : Keyed voters ids) :
    voters.length = ids.length := by
  have := congrArg List.length h
  rwa [List.length_map, List.length_map] at this

theorem Keyed.addVote {voters : List Vote} {ids : List String} (h : Keyed voters ids)
    (hnodup : ids.Nodup) {v : Vote} {id : String} (hv : v.voter = some (.str id)) :
    Keyed (addVote voters v) ids ∨ (Keyed (addVote voters v) (ids ++ [id]) ∧
      (ids ++ [id]).Nodup) := by
  unfold Oracles.addVote
  split
  · exact Or.inl h
  · next hnew =>
    refine Or.inr ⟨?_, hnodup.append (List.nodup_singleton id) ?_⟩
    · unfold Keyed
      rw [List.map_append, List.map_append, h, List.map_singleton, List.map_singleton, hv]
    · rw [List.disjoint_singleton]
      intro hid
      obtain ⟨u, hu, hkey⟩ := h.exists_mem hid
      apply hnew
      rw [List.any_eq_true]
      refine ⟨u, hu, ?_⟩
      rw [hv, hkey]
      exact sameValue_str.mpr rfl

theorem mem_of_mem_addVote {voters : List Vote} {u v : Vote} (h : u ∈ addVote voters v) :
    u ∈ voters ∨ u = v := by
  unfold addVote at h
  split at h
  · exact Or.inl h
  · rw [List.mem_append, List.mem_singleton] at h
    exact h

theorem mem_of_mem_foldl {vs voters : List Vote} {u : Vote} (h : u ∈ vs.foldl addVote voters) :
    u ∈ voters ∨ u ∈ vs := by
  induction vs generalizing voters with
  | nil => exact Or.inl h
  | cons v vs ih =>
    rcases ih h with hadd | hvs
    · rcases mem_of_mem_addVote hadd with hold | rfl
      · exact Or.inl hold
      · exact Or.inr List.mem_cons_self
    · exact Or.inr (List.mem_cons_of_mem _ hvs)

theorem keyed_foldl {vs voters : List Vote} {ids known : List String} (h : Keyed voters ids)
    (hnodup : ids.Nodup) (hsub : ids ⊆ known)
    (hvs : ∀ v ∈ vs, ∃ id ∈ known, v.voter = some (.str id)) :
    ∃ ids', Keyed (vs.foldl addVote voters) ids' ∧ ids'.Nodup ∧ ids' ⊆ known := by
  induction vs generalizing voters ids with
  | nil => exact ⟨ids, h, hnodup, hsub⟩
  | cons v vs ih =>
    rw [List.forall_mem_cons] at hvs
    obtain ⟨⟨id, hid, hv⟩, hvs⟩ := hvs
    rcases h.addVote hnodup hv with hkeyed | ⟨hkeyed, hnodup'⟩
    · exact ih hkeyed hnodup hsub hvs
    · refine ih hkeyed hnodup' ?_ hvs
      intro x hx
      rcases List.mem_append.mp hx with hx | hx
      · exact hsub hx
      · rwa [List.mem_singleton.mp hx]

theorem textOf_eq_some {v : Option Json} {s : String} :
    textOf v = some s ↔ v = some (.str s) := by
  constructor
  · intro h
    unfold textOf at h
    split at h
    · rw [Option.some.inj h]
    · cases h
  · rintro rfl
    rfl

theorem countedVote_eq_some {round : Nat} {ev : ChainEvent} {v : Vote} :
    countedVote env round ev = some v ↔ ∃ payload p, ev.payload = some payload ∧
      payload.value = some p ∧ textOf (p.get "t") = some "kanet_oracle_vote_v1" ∧
      voteRound p = round ∧ signed env p = true ∧
      v = ⟨p.get "voter_relay_id", p.get "outcome"⟩ := by
  simp only [countedVote, Option.bind_eq_bind, Option.bind_eq_some_iff,
    Option.ite_none_right_eq_some, Option.some.injEq]
  constructor
  · rintro ⟨payload, hpayload, p, hp, ⟨ht, hround, hsigned⟩, rfl⟩
    exact ⟨payload, p, hpayload, hp, ht, hround, hsigned, rfl⟩
  · rintro ⟨payload, p, hpayload, hp, ht, hround, hsigned, rfl⟩
    exact ⟨payload, hpayload, p, hp, ⟨ht, hround, hsigned⟩, rfl⟩

theorem ours_eq_true {ev : ChainEvent} : ours registered offer ev = true ↔
    ∃ payload p oracle key, ev.payload = some payload ∧ payload.value = some p ∧
      p.get "offer_id" = some (.str offer.id) ∧ p.get "voter_relay_id" = some (.str oracle) ∧
      oracle ∈ offer.outcome_oracle_relay_ids.toList ∧ p.get "voter_pubkey" = some (.str key) ∧
      registered oracle = some key := by
  simp only [ours, Option.any_eq_true, Option.bind_eq_some_iff, Bool.and_eq_true,
    decide_eq_true_eq, textOf_eq_some]
  constructor
  · rintro ⟨p, ⟨payload, hpayload, hp⟩, hoffer, oracle, horacle, hmem, key, hkey, hreg⟩
    exact ⟨payload, p, oracle, key, hpayload, hp, hoffer, horacle, hmem, hkey, hreg⟩
  · rintro ⟨payload, p, oracle, key, hpayload, hp, hoffer, horacle, hmem, hkey, hreg⟩
    exact ⟨p, ⟨payload, hpayload, hp⟩, hoffer, oracle, horacle, hmem, key, hkey, hreg⟩

/-- **A vote that counts and is an oracle's is signed by the oracle.** -/
theorem signedVote_of_ours {ev : ChainEvent} {v : Vote}
    (hv : countedVote env offer.revote_round ev = some v) (h : ours registered offer ev = true) :
    ∃ oracle ∈ offer.outcome_oracle_relay_ids.toList, v.voter = some (.str oracle) ∧
      SignedVote env registered offer ev oracle v.outcome := by
  obtain ⟨payload, p, hpayload, hp, -, hround, hsigned, rfl⟩ := countedVote_eq_some.mp hv
  obtain ⟨payload', p', oracle, key, hpayload', hp', hoffer, horacle, hmem, hkey, hreg⟩ :=
    ours_eq_true.mp h
  rw [hpayload] at hpayload'
  obtain rfl := Option.some.inj hpayload'
  rw [hp] at hp'
  obtain rfl := Option.some.inj hp'
  simp only [signed, Option.any_eq_true, Bool.and_eq_true, decide_eq_true_eq,
    textOf_eq_some] at hsigned
  obtain ⟨signature, hsig, -, key', hkey', -, hverify⟩ := hsigned
  rw [hkey] at hkey'
  obtain rfl := Json.str.inj (Option.some.inj hkey')
  exact ⟨oracle, hmem, horacle, payload, p, signature, key, hpayload, hp, horacle, hkey, hreg, hsig,
    hverify, hoffer, hround, rfl⟩

/-- **Who has voted**, where every row that counts is an oracle's. -/
theorem voters_of_known {rows : List ChainEvent}
    (hknown : ∀ ev ∈ rows, (countedVote env offer.revote_round ev).isSome = true →
      ours registered offer ev = true) :
    ∃ ids, Keyed (votersOf env offer.revote_round rows) ids ∧ ids.Nodup ∧
      ids ⊆ offer.outcome_oracle_relay_ids.toList := by
  refine @keyed_foldl _ [] [] _ rfl List.nodup_nil (List.nil_subset _) ?_
  intro v hv
  obtain ⟨ev, hev, hcounted⟩ := List.mem_filterMap.mp hv
  obtain ⟨oracle, hmem, hvoter, -⟩ :=
    signedVote_of_ours hcounted (hknown ev hev (by rw [hcounted]; rfl))
  exact ⟨oracle, hmem, hvoter⟩

/-- Rows that do not count change nothing. -/
theorem votersOf_filter {rows : List ChainEvent} {q : ChainEvent → Bool} {round : Nat}
    (h : ∀ ev ∈ rows, (countedVote env round ev).isSome = true → q ev = true) :
    votersOf env round (rows.filter q) = votersOf env round rows := by
  have hmap : (rows.filter q).filterMap (countedVote env round) =
      rows.filterMap (countedVote env round) := by
    induction rows with
    | nil => rfl
    | cons ev rows ih =>
      rw [List.forall_mem_cons] at h
      cases hev : countedVote env round ev with
      | none =>
        rw [List.filterMap_cons_none hev, ← ih h.2, List.filter_cons]
        split
        · rw [List.filterMap_cons_none hev]
        · rfl
      | some v =>
        rw [List.filter_cons_of_pos (h.1 (by rw [hev]; rfl)), List.filterMap_cons_some hev,
          List.filterMap_cons_some hev, ih h.2]
  rw [votersOf, hmap, votersOf]

/-- **Five different voters among the five oracles are the five oracles.** -/
theorem all_voted {voters : List Vote} {ids : List String} (h : Keyed voters ids)
    (hnodup : ids.Nodup) (hsub : ids ⊆ offer.outcome_oracle_relay_ids.toList)
    (hfive : REQUIRED_SIGS ≤ voters.length) {oracle : String}
    (horacle : oracle ∈ offer.outcome_oracle_relay_ids.toList) :
    ∃ v ∈ voters, v.voter = some (.str oracle) := by
  have hperm : ids.Perm offer.outcome_oracle_relay_ids.toList := by
    refine (List.subperm_of_subset hnodup hsub).perm_of_length_le ?_
    rw [List.Vector.toList_length, ← h.length_eq]
    exact hfive
  exact h.exists_mem (hperm.mem_iff.mpr horacle)

theorem outcome_of_unanimous {voters : List Vote} (h : unanimous voters = true) {v : Vote}
    (hv : v ∈ voters) : v.outcome = voters.head?.bind Vote.outcome := by
  have hall := List.all_eq_true.mp h v hv
  cases voters with
  | nil => cases hv
  | cons u us => exact (eq_of_sameValue hall).symm

/-- A voter that counts has a row that does. -/
theorem row_of_voter {round : Nat} {rows : List ChainEvent} {v : Vote}
    (hv : v ∈ votersOf env round rows) : ∃ ev ∈ rows, countedVote env round ev = some v := by
  rcases mem_of_mem_foldl hv with hnil | hmem
  · cases hnil
  · exact List.mem_filterMap.mp hmem

end Voters

/-! ### The penalties -/

section Penalties

variable {env : Env}

theorem dissenters_of_keyed {voters : List Vote} {ids : List String} (h : Keyed voters ids)
    (hnodup : ids.Nodup) :
    ∃ blamed : List String, dissenters voters = (blamed.map fun id => some (Json.str id)) ∧
      blamed.Nodup := by
  have hsub : (dissenters voters).Sublist (ids.map fun id => some (Json.str id)) := by
    rw [← h]
    exact List.filter_sublist.map _
  obtain ⟨blamed, hblamed, heq⟩ := List.sublist_map_iff.mp hsub
  exact ⟨blamed, heq, hnodup.sublist hblamed⟩

theorem raise_str (nodes : Table RelayNode.id) (ids : List String) :
    raise env nodes (ids.map fun id => some (.str id)) =
      ⟨ids.foldl misbehave nodes, ids, false⟩ := by
  induction ids generalizing nodes with
  | nil => rfl
  | cons id ids ih =>
    rw [List.map_cons, raise, env.bind_str]
    simp only [sliceable, Bool.not_true, Bool.and_false, Bool.false_eq_true, if_false]
    rw [ih]
    rfl

theorem get_misbehave (nodes : Table RelayNode.id) (v id : String) :
    (misbehave nodes v).get id =
      (nodes.get id).map fun n => if n.id = v then n.misbehave else n := by
  rw [misbehave, Table.get_updateWhere]
  simp only [decide_eq_true_eq]

/-- A counter goes up by one for each penalty. -/
theorem get_foldl_misbehave {nodes : Table RelayNode.id} {id : String} {n : RelayNode}
    (h : nodes.get id = some n) (ids : List String) :
    ∃ n', (ids.foldl misbehave nodes).get id = some n' ∧
      n'.voter_misbehave_count = n.voter_misbehave_count + ids.countP (· = id) := by
  induction ids generalizing nodes n with
  | nil => exact ⟨n, h, rfl⟩
  | cons v ids ih =>
    have hget := get_misbehave nodes v id
    rw [h, Option.map_some, Table.key_of_get h] at hget
    obtain ⟨n', hn', hcount⟩ := ih hget
    refine ⟨n', hn', ?_⟩
    rw [hcount, List.countP_cons]
    by_cases hv : id = v
    · rw [if_pos hv, if_pos (by simp [hv])]
      show n.voter_misbehave_count + 1 + _ = _
      omega
    · rw [if_neg hv, if_neg (by simpa using Ne.symm hv)]
      omega

end Penalties

/-! ### A tick -/

section Tick

variable {env : Env} {registered : String → Option String} {db : Db} {offer : Offer}

theorem countVotes_without (strangers : ChainEvent → Bool) (voters : List Vote) :
    (countVotes env (db.without strangers) offer voters).effect =
      (countVotes env db offer voters).effect := by
  by_cases hlen : voters.length < REQUIRED_SIGS
  · rw [countVotes, countVotes, if_pos hlen, if_pos hlen]
    rfl
  · by_cases hall : unanimous voters
    · rw [countVotes, countVotes, if_neg hlen, if_neg hlen, if_pos hall, if_pos hall]
      rfl
    · rw [countVotes, countVotes, if_neg hlen, if_neg hlen, if_neg hall, if_neg hall]
      dsimp only [Db.without]
      cases (raise env db.relay_nodes (dissenters voters)).threw with
      | true => rfl
      | false =>
        by_cases hround : offer.revote_round < MAX_REVOTE_ROUNDS
        · simp only [if_pos hround]
          rfl
        · simp only [if_neg hround]
          rfl

theorem winner_of_countVotes {voters : List Vote} {w : Option Json}
    (h : (countVotes env db offer voters).verdict.winner = some w) :
    REQUIRED_SIGS ≤ voters.length ∧ unanimous voters = true ∧
      w = voters.head?.bind Vote.outcome := by
  unfold countVotes at h
  split at h
  · cases h
  · next hlen =>
    split at h
    · next hall => exact ⟨Nat.le_of_not_lt hlen, hall, (Option.some.inj h).symm⟩
    · dsimp only at h
      split at h
      · cases h
      · split at h
        · cases h
        · cases h

/-- What a division leads to. -/
structure Penalised (db : Db) (offer : Offer) (c : Collected) : Prop where
  nodup : c.blamed.Nodup
  relay_nodes : c.db.relay_nodes = c.blamed.foldl misbehave db.relay_nodes
  exchange_offers : c.db.exchange_offers =
    if offer.revote_round < MAX_REVOTE_ROUNDS then revote db.exchange_offers offer.id
    else db.exchange_offers

/-- **Nothing is written, or the votes are divided** and each voter outside the majority is
penalised once. -/
theorem countVotes_cases {voters : List Vote} {ids : List String} (h : Keyed voters ids)
    (hnodup : ids.Nodup) :
    ((countVotes env db offer voters).blamed = [] ∧ (countVotes env db offer voters).db = db) ∨
    (REQUIRED_SIGS ≤ voters.length ∧ unanimous voters = false ∧
      Penalised db offer (countVotes env db offer voters)) := by
  unfold countVotes
  split
  · exact Or.inl ⟨rfl, rfl⟩
  · next hlen =>
    split
    · exact Or.inl ⟨rfl, rfl⟩
    · next hall =>
      refine Or.inr ⟨Nat.le_of_not_lt hlen, by simpa using hall, ?_⟩
      obtain ⟨blamed, hblamed, hnodup'⟩ := dissenters_of_keyed h hnodup
      simp only [hblamed, raise_str, Bool.false_eq_true, if_false]
      split
      · next hround => exact ⟨hnodup', rfl, (if_pos hround).symm⟩
      · next hround => exact ⟨hnodup', rfl, (if_neg hround).symm⟩

/-- Without an address nothing happens, and with one what the votes come to. -/
theorem collect_cases (env : Env) (offer : Offer) :
    (∀ db, collectMultiOracleVotes env db offer =
      ⟨.failed "missing maker_kaspa_addr (= aggregator target)", db, []⟩) ∨
    ∃ maker, offer.maker_kaspa_addr = some maker ∧
      ∀ db, (collectMultiOracleVotes env db offer).effect =
        (countVotes env db offer (votersOf env offer.revote_round
          (votesOf db.chain_events maker offer.id))).effect := by
  cases hmaker : offer.maker_kaspa_addr.filter (· ≠ "") with
  | none =>
    refine Or.inl fun db => ?_
    rw [collectMultiOracleVotes, hmaker]
  | some maker =>
    refine Or.inr ⟨maker, (Option.filter_eq_some_iff.mp hmaker).1, fun db => ?_⟩
    rw [collectMultiOracleVotes, hmaker]
    dsimp only
    split
    · next hnil =>
      rw [hnil]
      rfl
    · rfl

/-- The rows that count are the same with the rows of strangers as without them. -/
theorem votersOf_without {maker : String}
    (hknown : ∀ ev ∈ votesOf db.chain_events maker offer.id,
      (countedVote env offer.revote_round ev).isSome = true → ours registered offer ev = true) :
    votersOf env offer.revote_round
        (votesOf (db.without fun ev => !ours registered offer ev).chain_events maker offer.id) =
      votersOf env offer.revote_round (votesOf db.chain_events maker offer.id) := by
  have hrows : votesOf (db.without fun ev => !ours registered offer ev).chain_events maker
      offer.id =
      (votesOf db.chain_events maker offer.id).filter (ours registered offer) := by
    simp only [votesOf, Db.without, Bool.not_not]
    exact List.filter_comm _ _ _
  rw [hrows]
  exact votersOf_filter hknown

theorem fair_tick {s : Sys} (h : ProperTick env registered s offer) :
    FairTick env registered s.db offer := by
  rcases collect_cases env offer with hnone | ⟨maker, hmaker, hcollect⟩
  · constructor
    · intro w hw
      rw [hnone] at hw
      cases hw
    · rw [hnone, hnone]
      rfl
  · have hknown := h.known maker hmaker
    obtain ⟨ids, hkeyed, hnodup, hsub⟩ := voters_of_known hknown
    constructor
    · intro w hw oracle horacle
      have hwinner := congrArg Effect.winner (hcollect s.db)
      obtain ⟨hfive, hall, rfl⟩ := winner_of_countVotes (hwinner.symm.trans hw)
      obtain ⟨v, hv, hvoter⟩ := all_voted hkeyed hnodup hsub hfive horacle
      obtain ⟨ev, hev, hcounted⟩ := row_of_voter hv
      obtain ⟨oracle', -, hvoter', hsigned⟩ := signedVote_of_ours hcounted
        (hknown ev hev (by rw [hcounted]; rfl))
      rw [hvoter] at hvoter'
      obtain rfl := Json.str.inj (Option.some.inj hvoter')
      rw [outcome_of_unanimous hall hv] at hsigned
      exact ⟨ev, (List.mem_filter.mp hev).1, hsigned⟩
    · rw [hcollect, hcollect, votersOf_without hknown, countVotes_without]

/-- **What a tick writes**: nothing, or one penalty for each voter of a divided round. -/
theorem tick_cases {s : Sys} (h : ProperTick env registered s offer) :
    ((collectMultiOracleVotes env s.db offer).blamed = [] ∧
      (collectMultiOracleVotes env s.db offer).db.relay_nodes = s.db.relay_nodes ∧
      (collectMultiOracleVotes env s.db offer).db.exchange_offers = s.db.exchange_offers) ∨
    (Divided env s.db offer ∧ Penalised s.db offer (collectMultiOracleVotes env s.db offer)) := by
  rcases collect_cases env offer with hnone | ⟨maker, hmaker, hcollect⟩
  · rw [hnone]
    exact Or.inl ⟨rfl, rfl, rfl⟩
  · obtain ⟨ids, hkeyed, hnodup, -⟩ := voters_of_known (h.known maker hmaker)
    have hblamed := congrArg Effect.blamed (hcollect s.db)
    have hnodes := congrArg Effect.relay_nodes (hcollect s.db)
    have hoffers := congrArg Effect.exchange_offers (hcollect s.db)
    simp only [Collected.effect] at hblamed hnodes hoffers
    rw [hblamed, hnodes, hoffers]
    rcases @countVotes_cases env s.db offer _ _ hkeyed hnodup with ⟨hnil, hdb⟩ | ⟨hfive, hall, hpen⟩
    · exact Or.inl ⟨hnil, by rw [hdb], by rw [hdb]⟩
    · refine Or.inr ⟨⟨maker, hmaker, hfive, hall⟩, ?_, ?_, ?_⟩
      · rw [hblamed]
        exact hpen.nodup
      · rw [hblamed, hnodes]
        exact hpen.relay_nodes
      · rw [hoffers]
        exact hpen.exchange_offers

end Tick

/-! ### A run -/

section Runs

variable {env : Env} {registered : String → Option String} {s₀ s s' : Sys} {evs : List Event}

/-- A round that has been penalised is over, or is the last. -/
def Past (s : Sys) : Prop :=
  ∀ e ∈ s.log, ∃ offer, s.db.exchange_offers.get e.2.1 = some offer ∧
    (e.2.2 < offer.revote_round ∨ (e.2.2 = offer.revote_round ∧ MAX_REVOTE_ROUNDS ≤ e.2.2))

/-- The counters stand for the penalties. -/
def Counted (s₀ s : Sys) : Prop :=
  ∀ id n₀, s₀.db.relay_nodes.get id = some n₀ → ∃ n, s.db.relay_nodes.get id = some n ∧
    n.voter_misbehave_count = n₀.voter_misbehave_count + s.log.countP fun e => e.1 = id

structure Kept (s₀ s : Sys) : Prop where
  past : Past s
  nodup : s.log.Nodup
  counted : Counted s₀ s

theorem kept_vote (h : Kept s₀ s) (ev : ChainEvent) : Kept s₀ (step env s (.vote ev)) :=
  ⟨h.past, h.nodup, h.counted⟩

theorem get_revote (offers : Table Offer.id) (id k : String) :
    (revote offers id).get k = (offers.get k).map fun o => if o.id = id then o.revote else o := by
  rw [revote, Table.get_updateWhere]
  simp only [decide_eq_true_eq]

theorem past_tick {id : String} {offer : Offer} (h : Past s)
    (hget : s.db.exchange_offers.get id = some offer) {c : Collected}
    (hpen : Penalised s.db offer c) :
    Past ⟨c.db, s.log ++ c.blamed.map fun v => (v, id, offer.revote_round)⟩ := by
  have hid := Table.key_of_get hget
  intro e he
  -- the offer of the entry, and its round before the tick
  have hbefore : ∃ o, s.db.exchange_offers.get e.2.1 = some o ∧
      (e.2.2 < o.revote_round ∨ (e.2.2 = o.revote_round ∧
        (MAX_REVOTE_ROUNDS ≤ e.2.2 ∨ o = offer))) := by
    rcases List.mem_append.mp he with hold | hnew
    · obtain ⟨o, ho, hlt | ⟨heq, hmax⟩⟩ := h e hold
      · exact ⟨o, ho, Or.inl hlt⟩
      · exact ⟨o, ho, Or.inr ⟨heq, Or.inl hmax⟩⟩
    · obtain ⟨v, -, rfl⟩ := List.mem_map.mp hnew
      exact ⟨offer, hget, Or.inr ⟨rfl, Or.inr rfl⟩⟩
  obtain ⟨o, ho, hround⟩ := hbefore
  show ∃ o', c.db.exchange_offers.get e.2.1 = some o' ∧ _
  rw [hpen.exchange_offers]
  split
  · rw [get_revote, ho, Option.map_some]
    refine ⟨_, rfl, ?_⟩
    split
    · refine Or.inl ?_
      show e.2.2 < o.revote_round + 1
      omega
    · next hother =>
      rcases hround with hlt | ⟨heq, hmax | rfl⟩
      · exact Or.inl hlt
      · exact Or.inr ⟨heq, hmax⟩
      · exact absurd rfl hother
  · next hlast =>
    refine ⟨o, ho, ?_⟩
    rcases hround with hlt | ⟨heq, hmax | rfl⟩
    · exact Or.inl hlt
    · exact Or.inr ⟨heq, hmax⟩
    · exact Or.inr ⟨heq, heq ▸ Nat.le_of_not_lt hlast⟩

/-- The penalties of a tick are new. -/
theorem fresh_tick {id : String} {offer : Offer} (h : Past s)
    (hget : s.db.exchange_offers.get id = some offer)
    (hproper : ProperTick env registered s offer) (hdivided : Divided env s.db offer) (v : String) :
    (v, id, offer.revote_round) ∉ s.log := by
  intro hmem
  obtain ⟨o, ho, hlt | ⟨-, hmax⟩⟩ := h _ hmem
  · rw [hget] at ho
    obtain rfl := Option.some.inj ho
    exact absurd hlt (Nat.lt_irrefl _)
  · obtain rfl := Table.key_of_get hget
    exact hproper.first hmax hdivided v hmem

theorem nodup_tick {id : String} {offer : Offer} {c : Collected} (hlog : s.log.Nodup)
    (hnew : ∀ v, (v, id, offer.revote_round) ∉ s.log) (hblamed : c.blamed.Nodup) :
    (s.log ++ c.blamed.map fun v => (v, id, offer.revote_round)).Nodup := by
  refine hlog.append (hblamed.map fun v v' heq => (Prod.mk.inj heq).1) ?_
  intro e he hmem
  obtain ⟨v, -, rfl⟩ := List.mem_map.mp hmem
  exact hnew v he

theorem counted_tick {id : String} {round : Nat} {c : Collected} (h : Counted s₀ s)
    (hnodes : c.db.relay_nodes = c.blamed.foldl misbehave s.db.relay_nodes) :
    Counted s₀ ⟨c.db, s.log ++ c.blamed.map fun v => (v, id, round)⟩ := by
  intro k n₀ hn₀
  obtain ⟨n, hn, hcount⟩ := h k n₀ hn₀
  obtain ⟨n', hn', hcount'⟩ := get_foldl_misbehave hn c.blamed
  refine ⟨n', ?_, ?_⟩
  · show c.db.relay_nodes.get k = some n'
    rw [hnodes]
    exact hn'
  · have hmap : (c.blamed.map fun v => (v, id, round)).countP (fun e => e.1 = k) =
        c.blamed.countP (· = k) := by
      rw [List.countP_map]
      rfl
    rw [hcount', hcount, List.countP_append, hmap]
    omega

/-- **The step lemma.** -/
theorem kept_tick {id : String} (h : Kept s₀ s)
    (hproper : ∀ offer, s.db.exchange_offers.get id = some offer →
      ProperTick env registered s offer) : Kept s₀ (step env s (.tick id)) := by
  cases hget : s.db.exchange_offers.get id with
  | none =>
    rw [step, hget]
    exact h
  | some offer =>
    rw [step, hget]
    dsimp only
    rcases tick_cases (hproper offer hget) with ⟨hblamed, hnodes, hoffers⟩ | ⟨hdivided, hpen⟩
    · rw [hblamed, List.map_nil, List.append_nil]
      refine ⟨?_, h.nodup, ?_⟩
      · intro e he
        rw [hoffers]
        exact h.past e he
      · intro k n₀ hn₀
        rw [hnodes]
        exact h.counted k n₀ hn₀
    · exact ⟨past_tick h.past hget hpen,
        nodup_tick h.nodup (fresh_tick h.past hget (hproper offer hget) hdivided) hpen.nodup,
        counted_tick h.counted hpen.relay_nodes⟩

theorem ProperRun.init {ev : Event} (h : ProperRun env registered s₀ (evs ++ [ev])) :
    ProperRun env registered s₀ evs := by
  rintro pre id post rfl
  exact h pre id (post ++ [ev]) (by rw [List.append_assoc, List.cons_append])

/-- **The run lemma.** -/
theorem kept_of_run (hlog : s₀.log = []) (hrun : Run (Step env) s₀ evs s) :
    ProperRun env registered s₀ evs → Kept s₀ s := by
  have hkeep : Run (Step env) s₀ evs s ∧ (ProperRun env registered s₀ evs → Kept s₀ s) := by
    refine @Run.history _ _ _ (fun pre m => Run (Step env) s₀ pre m ∧
      (ProperRun env registered s₀ pre → Kept s₀ m)) ?_ _ _ _ hrun ⟨.nil s₀, ?_⟩
    · rintro pre m ev m' ⟨hpre, hkept⟩ hstep
      refine ⟨hpre.append (.single hstep), fun hproper => ?_⟩
      obtain rfl := hstep
      have hm := hkept hproper.init
      cases ev with
      | vote row => exact kept_vote hm row
      | tick id => exact kept_tick hm fun offer hget => hproper pre id [] rfl m hpre offer hget
    · intro _
      refine ⟨?_, ?_, ?_⟩
      · intro e he
        rw [hlog] at he
        cases he
      · rw [hlog]
        exact List.nodup_nil
      · intro id n₀ hn₀
        rw [hlog]
        exact ⟨n₀, hn₀, rfl⟩
  exact hkeep.2

/-- **What the ticks guarantee**, where every row that counts is one of the oracles' and nobody is
penalised for a last round that was penalised before. -/
theorem fair_run (hlog : s₀.log = []) (hrun : Run (Step env) s₀ evs s)
    (h : ProperRun env registered s₀ evs) : FairRun env registered s₀ evs s := by
  have hkept := kept_of_run hlog hrun h
  exact ⟨fun pre id post hevs m hm offer hget => fair_tick (h pre id post hevs m hm offer hget),
    hkept.nodup, hkept.counted⟩

theorem properRun_tick {id : String} (h : ∀ offer, s.db.exchange_offers.get id = some offer →
    ProperTick env registered s offer) : ProperRun env registered s [.tick id] := by
  intro pre k post hevs m hm offer hget
  cases pre with
  | nil =>
    obtain rfl := Event.tick.inj (List.cons.inj hevs).1
    cases hm
    exact h offer hget
  | cons ev pre => exact absurd (List.cons.inj hevs).2.symm (by simp)

end Runs

/-! ### Two runs -/

/-- A key is its own signature. -/
def sampleEnv : Env where
  verifyMessage _ signature key := signature = key
  bind
    | some (.str s) => some (some s)
    | _ => some none
  bind_str _ := rfl

def sampleKey (c : Char) : String := String.ofList (List.replicate 64 c)

def sampleKeys (id : String) : Option String :=
  if id = "a" then some (sampleKey 'a')
  else if id = "b" then some (sampleKey 'b')
  else if id = "c" then some (sampleKey 'c')
  else if id = "d" then some (sampleKey 'd')
  else if id = "e" then some (sampleKey 'e')
  else none

def sampleUnsigned (voter : String) (key : Char) (round : Int) (outcome : String) :
    List (String × Json) :=
  [("t", .str "kanet_oracle_vote_v1"), ("offer_id", .str "o"), ("voter_relay_id", .str voter),
    ("voter_pubkey", .str (sampleKey key)), ("revote_round", .num round),
    ("outcome", .str outcome)]

def sampleVote (voter : String) (key : Char) (round : Int) (outcome : String) : Json :=
  .obj (sampleUnsigned voter key round outcome ++ [("signature", .str (sampleKey key))])

def sampleRow (voter : String) (key : Char) (round : Int) (outcome : String) : ChainEvent :=
  ⟨"oracle_vote", some "kaspa:maker", some ⟨(sampleVote voter key round outcome).text,
    some (sampleVote voter key round outcome)⟩⟩

def sampleOffer (round : Nat) : Offer where
  id := "o"
  maker_kaspa_addr := some "kaspa:maker"
  outcome_oracle_relay_ids := List.Vector.ofFn fun i => ["a", "b", "c", "d", "e"].getD i ""
  revote_round := round

def sampleSys (round : Nat) (rows : List ChainEvent) : Sys where
  db :=
    { chain_events := rows
      exchange_offers := ⟨[sampleOffer round], List.nodup_singleton _⟩
      relay_nodes := ⟨[⟨"e", 0, true⟩], List.nodup_singleton _⟩ }
  log := []

/-- All five oracles vote. -/
def agreed : List ChainEvent :=
  [sampleRow "a" 'a' 0 "YES", sampleRow "b" 'b' 0 "YES", sampleRow "c" 'c' 0 "YES",
    sampleRow "d" 'd' 0 "YES", sampleRow "e" 'e' 0 "YES"]

/-- One stranger votes under five names. -/
def forged : List ChainEvent :=
  [sampleRow "v" 'f' 0 "YES", sampleRow "w" 'f' 0 "YES", sampleRow "x" 'f' 0 "YES",
    sampleRow "y" 'f' 0 "YES", sampleRow "z" 'f' 0 "YES"]

/-- In the last round one oracle is alone. -/
def divided : List ChainEvent :=
  [sampleRow "a" 'a' 2 "YES", sampleRow "b" 'b' 2 "YES", sampleRow "c" 'c' 2 "YES",
    sampleRow "d" 'd' 2 "YES", sampleRow "e" 'e' 2 "NO"]

theorem mem_agreed_ours : ∀ ev ∈ agreed, ours sampleKeys (sampleOffer 0) ev = true := by
  decide +kernel

theorem fair_run_agreed : FairRun sampleEnv sampleKeys (sampleSys 0 agreed) [.tick "o"]
      (step sampleEnv (sampleSys 0 agreed) (.tick "o")) ∧
    (collectMultiOracleVotes sampleEnv (sampleSys 0 agreed).db
      (sampleOffer 0)).verdict.winner.isSome = true := by
  refine ⟨fair_run rfl (.single rfl) (properRun_tick fun offer hget => ?_), by decide +kernel⟩
  obtain rfl := Option.some.inj hget
  constructor
  · intro maker _ ev hev _
    exact mem_agreed_ours ev (List.mem_filter.mp hev).1
  · intro hlast
    exact absurd hlast (by decide)

theorem mem_forged_voter : ∀ ev ∈ forged,
    ((ev.payload.bind Payload.value).bind fun p => textOf (p.get "voter_relay_id")) ≠ some "a" := by
  decide +kernel

/-- **A stranger's votes win, and an oracle is penalised twice** for one vote. -/
theorem forged_and_blamed_twice :
    (¬ FairRun sampleEnv sampleKeys (sampleSys 0 forged) [.tick "o"]
      (step sampleEnv (sampleSys 0 forged) (.tick "o"))) ∧
    ¬ FairRun sampleEnv sampleKeys (sampleSys 2 divided) [.tick "o", .tick "o"]
      (step sampleEnv (step sampleEnv (sampleSys 2 divided) (.tick "o")) (.tick "o")) := by
  constructor
  · intro h
    have hwins : (collectMultiOracleVotes sampleEnv (sampleSys 0 forged).db
        (sampleOffer 0)).verdict.winner.isSome = true := by decide +kernel
    obtain ⟨w, hw⟩ := Option.isSome_iff_exists.mp hwins
    obtain ⟨ev, hev, payload, p, _, _, hpayload, hp, hvoter, -⟩ :=
      (h.tick [] "o" [] rfl _ (.nil _) _ rfl).unanimous w hw "a" (by decide)
    apply mem_forged_voter ev hev
    rw [hpayload, Option.bind_some, hp, Option.bind_some, hvoter]
    rfl
  · intro h
    exact absurd h.once (by decide +kernel)

end KANet.Predict.Oracles
