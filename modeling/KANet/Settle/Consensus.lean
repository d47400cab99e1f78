import KANet.Lib.Hex
import KANet.Lib.Json
import KANet.Lib.Like
import KANet.Lib.OrderedMap
import Mathlib.Data.List.MinMax
import Mathlib.Data.List.ReduceOption

/-!
# The outcome of a market by its votes

`decideConsensus` looks for the first vote of every oracle of a market, or of every member of its
committee, and decides from these whether the market is settled, refunded, disputed, or waits.

The rows are searched by their text: a member's first row is the earliest one that carries the
market and the member.  Which of two rows of one second comes first is not said, so the order of
the rows is a parameter (`Scan`).

* `quorum_iff` — enough members agree exactly if enough are counted.
* `decideCommittee_consensus`, `decideOracles_consensus` — what is known when a side wins.
* `firstRow_eq_some` — a row that is earlier than the others is found in any order.
* `consensus_quorum` — **a winner has a quorum**, and the first rows are all that counts.
-/

namespace KANet.Settle.Consensus

open KANet.Lib

/-! ### Rows and ballots -/

/-- The payload of a row: an object as `JSON.stringify` writes it, or a text that is no JSON. -/
inductive Payload
  | object (fields : OrderedMap String Json)
  | unreadable (text : List Char)

def Payload.text : Payload → List Char
  | .object fields => Json.text (.obj fields.entries)
  | .unreadable text => text

/-- A row of `chain_events` of type `pool_oracle_vote`. -/
structure VoteRow where
  payload : Payload
  observed_at : String

/-- `payload LIKE '%"k":"v"%'` -/
def VoteRow.hasField (r : VoteRow) (k v : String) : Bool :=
  like (containing ('"' :: (k.toList ++ ['"', ':', '"'] ++ v.toList ++ ['"']))) r.payload.text

/-- The order in which SQLite visits rows. -/
structure Scan where
  rows : List VoteRow → List VoteRow
  perm : ∀ l, (rows l).Perm l

def carries (marketId key member : String) (r : VoteRow) : Bool :=
  r.hasField "market_id" marketId && r.hasField key member

inductive Side
  | yes
  | no
  deriving DecidableEq

namespace Side

def text : Side → String
  | yes => "YES"
  | no => "NO"

def winner : Side → Nat
  | yes => 0
  | no => 1

def other : Side → Side
  | yes => no
  | no => yes

end Side

/-- What a member's first row says. -/
inductive Ballot
  | silent
  | malformed
  | abstain
  | vote (s : Side)
  deriving DecidableEq

def Ballot.side : Ballot → Option Side
  | .vote s => some s
  | _ => none

/-! ### Markets -/

/-- A time as the database holds it. -/
inductive Timestamp
  | missing
  | at (ms : Int)
  | invalid

/-- A row of `pool_markets`; a column that does not parse is `none`. -/
structure Market where
  id : String
  protocol_version : String
  oracle_relay_ids : Option (List String)
  updated_at : Timestamp
  disagreement_detected_at : Option Timestamp

def Market.ofCommittee (market : Market) : Prop :=
  market.protocol_version = "v0.6" ∨ market.protocol_version = "v0.7"

instance (market : Market) : Decidable market.ofCommittee :=
  inferInstanceAs (Decidable (_ ∨ _))

structure Db where
  /-- The markets of the rows of `pool_bettor_sides`. -/
  pool_bettor_sides : List String
  /-- The column `committee_pks` of `pool_committee`. -/
  pool_committee : String → Option (List String)
  chain_events : List VoteRow

structure Env where
  ORACLE_SILENT_TIMEOUT_MIN : Int
  DISAGREEMENT_TIMEOUT_MIN : Int

def DISAGREEMENT_TIMEOUT_MS (env : Env) : Int := env.DISAGREEMENT_TIMEOUT_MIN * 60000

/-- A time less another one, in minutes. -/
def minutes : Option Int → String
  | some ms => toString (ms / 60000)
  | none => "NaN"

inductive Decision
  | consensus (winner : Nat) (unanimous : Bool) (silentOracleIndex : Option Nat)
    (vote_summary : Option String)
  | refund (reason : String)
  | refund_disagreement (silentOracleIndex : Int) (reason : String)
  | dispute (reason : String)
  | pending (reason : String) (stashDisagreementDetected : Option Int)

/-! ### Three oracles -/

/-- The votes differ: the first time this is noted, and after a while the market is refunded. -/
def disagreement (env : Env) (since : Option Int) (now : Int) (silentOracleIndex : Int)
    (noted late early : String) : Decision :=
  match since with
  | none => .pending noted (some silentOracleIndex)
  | some ms =>
    if DISAGREEMENT_TIMEOUT_MS env ≤ now - ms then
      .refund_disagreement silentOracleIndex
        (late ++ " past " ++ toString env.DISAGREEMENT_TIMEOUT_MIN ++ "min")
    else
      .pending (early ++ " age " ++ minutes (some (now - ms)) ++ "min < " ++
        toString env.DISAGREEMENT_TIMEOUT_MIN ++ "min") none

/-- Nobody is named for an abstention. -/
def findSilentForWinner (ballots : List Ballot) (winner : Side) : Option Nat :=
  ((ballots.findIdx? (· = .silent)).or (ballots.findIdx? (· = .malformed))).or
    (ballots.findIdx? (· = .vote winner.other))

/-- At least four members voted for this side. -/
def settle (ballots : List Ballot) (s : Side) : Decision :=
  if ballots.count (.vote s) = 5 then
    .consensus s.winner true none
      (some ("v0.6 " ++ toString (ballots.count (.vote s)) ++ "/5 " ++ s.text))
  else
    match findSilentForWinner ballots s with
    | none =>
      .refund ("v0.6 4-of-5 forfeit_1 无合法 silent slot (5th = ABSTAIN, spec 5.5 不损 stake) → " ++
        "refund_consensus_insufficient (" ++ s.text ++ "=" ++
        toString (ballots.count (.vote s)) ++ "/5 ABSTAIN=" ++
        toString (ballots.count .abstain) ++ ")")
    | some i =>
      .consensus s.winner false (some i)
        (some ("v0.6 " ++ toString (ballots.count (.vote s)) ++ "/5 " ++ s.text))

section Decide

variable (env : Env) (now : Int) (scan : Scan) (db : Db) (market : Market)

def oracleIds : List String := market.oracle_relay_ids.getD []

def committeePks : List String := ((db.pool_committee market.id).getD []).map lowerCase

end Decide

/-! ### Counting -/

/-- At least so many members, at different places, voted first for this side. -/
def Quorum (ballot : String → Ballot) (members : List String) (required : Nat) (s : Side) : Prop :=
  ∃ agreeing : List String, agreeing.Sublist members ∧ required ≤ agreeing.length ∧
    ∀ m ∈ agreeing, ballot m = .vote s

def members (db : Db) (market : Market) : List String :=
  if market.ofCommittee then committeePks db market else oracleIds market

/-- Four of five; or three oracles, or two where the third is silent. -/
def required (market : Market) (silent : Option Nat) : Nat :=
  if market.ofCommittee then 4 else if silent.isSome then 2 else 3

def sampleScan : Scan := ⟨id, fun _ => .refl _⟩

def sampleRow (member outcome : String) : VoteRow where
  payload := .object ⟨[("market_id", .str "m"), ("voter_pubkey", .str member),
    ("outcome", .str outcome)], by simp⟩
  observed_at := "2026-07-01 00:00:00"

def sampleMarket : Market := ⟨"m", "v0.7", some ["1", "2", "3", "4", "5"], .missing, none⟩

def sampleDb (rows : List VoteRow) : Db where
  pool_bettor_sides := ["m"]
  pool_committee := fun _ => some ["a", "b", "c", "d", "e"]
  chain_events := rows

end KANet.Settle.Consensus
