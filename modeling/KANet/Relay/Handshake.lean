import KANet.Lib.Along
import KANet.Lib.Table

/-!
# The acceptance of handshakes

A relay hears a handshake in a block and answers it with a transaction.  The console keeps a row for
the answer that is due, which a relay claims before it sends, and a row for the relation.

* `observeHandshake`, `advance`, `acceptHandshake` — the relation of two addresses.
* `claimPendingAction`, `failPendingAction`, `createAndClaim` — the row of the answer.
* `handleIngestMessage` — what the console makes of a post.
* `processHandshake`, `catchUpHistory` — the two ways to an answer, each in steps: what a relay
  waits for comes back, or does not.

Any number of relays, some perhaps with one address; their posts arrive late, or never.  The items
of one round are taken in any order.
-/

namespace KANet.Relay.Handshake

open KANet.Lib

/-! ### The console -/

inductive Status
  | observed
  | accepted
  | confirmed
  | active
  | blocked
  | stale
  deriving DecidableEq

def VALID_TRANSITIONS : Status → List Status
  | .observed => [.accepted, .blocked]
  | .accepted => [.confirmed, .blocked]
  | .confirmed => [.active, .blocked]
  | .active => [.blocked, .stale]
  | .blocked => [.observed]
  | .stale => [.observed, .active, .blocked]

/-- The two addresses of a row, which no other row of its table has. -/
abbrev Pair := String × String

/-- A row of `relation_states`. -/
structure Relation where
  pair : Pair
  status : Status
  /-- `handshake_accepted_at` is set. -/
  accepted_at : Bool
  deriving DecidableEq

inductive ActionStatus
  | pending
  | executing
  | failed
  | expired
  | done
  deriving DecidableEq

/-- A row of `pending_actions`, of the type `handshake_accept`.  It is known by its
`idempotent_key`, which stands for its id. -/
structure Action where
  pair : Pair
  status : ActionStatus
  retry_count : ℕ
  trigger_txid : String
  deriving DecidableEq

def max_retries : ℕ := 3

/-- A post on its way. -/
inductive Post
  | inbound (x : Pair) (txid : String)
  | outbound (x : Pair) (txid : String)

/-! ### The relays -/

/-- What a relay remembers. -/
structure Memory where
  blocklist : List String
  attempted : List String
  seen : List String
  /-- What `seen` will be after a restart. -/
  saved : List String
  handshakeAccepted : List String

inductive Phase
  /-- Waits for the status of the relation. -/
  | status
  | claiming
  | drafting
  | sending
  /-- Tells the console that it has failed. -/
  | reporting
  | over
  deriving DecidableEq

/-- A handshake that a relay is answering, as it hears it or in a catch-up. -/
structure Call where
  relay : ℕ
  peer : String
  txid : String
  catchUp : Bool
  phase : Phase
  deriving DecidableEq

/-- A status as it was written. -/
structure Change where
  pair : Pair
  before : Option Status
  after : Status
  deriving DecidableEq

structure State where
  relations : Table Relation.pair
  actions : Table Action.pair
  /-- The transactions of the handshakes that the console has, with their direction. -/
  messages : List (String × Bool)
  relays : ℕ → Memory
  calls : List Call
  posts : List Post
  /-- The acceptances that went out. -/
  sends : List Pair
  heard : List Pair
  changes : List Change

def noRelay : Memory := ⟨[], [], [], [], []⟩

def init : State := ⟨.empty _, .empty _, [], fun _ => noRelay, [], [], [], [], []⟩

/-- The addresses of the relays. -/
abbrev Addresses := ℕ → String

def Call.pair (myAddress : Addresses) (c : Call) : Pair := (myAddress c.relay, c.peer)

/-! ### Relations -/

/-- A row gets another status. -/
def State.setStatus (s : State) (x : Pair) (before status : Status) (accepted : Bool) : State :=
  { s with
    relations := s.relations.updateWhere (fun r => r.pair = x)
      (fun r => { r with status := status, accepted_at := accepted || r.accepted_at }) fun _ => rfl
    changes := s.changes ++ [⟨x, some before, status⟩] }

def observeHandshake (s : State) (x : Pair) : State :=
  match s.relations.get x with
  | some r =>
    if r.status ≠ .observed ∧ r.status ≠ .stale then s else s.setStatus x r.status .observed false
  | none =>
    { s with
      relations := (s.relations.insert ⟨x, .observed, false⟩).getD s.relations
      changes := s.changes ++ [⟨x, none, .observed⟩] }

/-- `_advance`, and whether there is a row. -/
def advance (s : State) (x : Pair) (newStatus : Status) (accepted force : Bool) : State × Bool :=
  match s.relations.get x with
  | none => (s, false)
  | some r =>
    if ¬ force ∧ newStatus ∉ VALID_TRANSITIONS r.status then (s, true)
    else (s.setStatus x r.status newStatus accepted, true)

def acceptHandshake (s : State) (x : Pair) : State :=
  let r := advance s x .accepted true false
  if r.2 then r.1 else (advance (observeHandshake r.1 x) x .accepted true false).1

def confirmSession (s : State) (x : Pair) : State := (advance s x .confirmed false false).1

def activateRelation (s : State) (x : Pair) : State := (advance s x .active false false).1

def blockRelation (s : State) (x : Pair) : State := (advance s x .blocked false true).1

def unblockRelation (s : State) (x : Pair) : State := (advance s x .observed false true).1

/-- The relation counts as accepted. -/
def State.already (s : State) (x : Pair) : Bool :=
  (s.relations.get x).any fun r => r.accepted_at ∨ r.status ∈ [.accepted, .confirmed, .active]

/-! ### Rows -/

/-- The oldest hundred rows that can be claimed. -/
def getPendingHandshakes (s : State) (address : String) : List Action :=
  (s.actions.rows.filter fun a => a.status = .pending ∧ a.retry_count < max_retries ∧
    a.pair.1 = address).take 100

def claimPendingAction (s : State) (x : Pair) : State × Bool :=
  if (s.actions.get x).any fun a => a.status = .pending then
    ({ s with
        actions := s.actions.updateWhere (fun a => a.pair = x ∧ a.status = .pending)
          (fun a => { a with status := .executing }) fun _ => rfl }, true)
  else (s, false)

def Action.retry (a : Action) : Action :=
  { a with
    status := if max_retries ≤ a.retry_count + 1 then .expired else .pending
    retry_count := a.retry_count + 1 }

def failPendingAction (s : State) (x : Pair) : State :=
  { s with actions := s.actions.updateWhere (fun a => a.pair = x) Action.retry fun _ => rfl }

def newAction (x : Pair) (txid : String) : Action := ⟨x, .pending, 0, txid⟩

/-- `create_and_claim`. -/
def createAndClaim (s : State) (x : Pair) (txid : String) : State × Bool :=
  if s.already x then (s, false)
  else claimPendingAction
    { s with actions := (s.actions.insert (newAction x txid)).getD s.actions } x

/-- A handshake that came in makes a row, or wakes one that has failed. -/
def enqueue (s : State) (x : Pair) (txid : String) : State :=
  if s.already x then s
  else
    { s with
      actions := match s.actions.insert (newAction x txid) with
        | some actions => actions
        | none => s.actions.updateWhere
          (fun a => a.pair = x ∧ (a.status = .failed ∨ a.status = .expired))
          (fun a => newAction a.pair txid) fun _ => rfl }

/-- An acceptance that went out has done with the row. -/
def complete (s : State) (x : Pair) : State :=
  { s with
    actions := s.actions.updateWhere
      (fun a => a.pair = x ∧ (a.status = .pending ∨ a.status = .executing))
      (fun a => { a with status := .done }) fun _ => rfl }

def handleIngestMessage (s : State) : Post → State
  | .inbound x txid =>
    if (txid, true) ∈ s.messages then s
    else enqueue (observeHandshake { s with messages := s.messages ++ [(txid, true)] } x) x txid
  | .outbound x txid =>
    if (txid, false) ∈ s.messages then s
    else acceptHandshake (complete { s with messages := s.messages ++ [(txid, false)] } x) x

/-! ### A relay -/

def State.setRelay (s : State) (r : ℕ) (f : Memory → Memory) : State :=
  { s with relays := fun r' => if r' = r then f (s.relays r) else s.relays r' }

def State.setPhase (s : State) (c : ℕ) (phase : Phase) : State :=
  { s with calls := s.calls.modify c fun x => { x with phase := phase } }

def State.post (s : State) (p : Post) : State := { s with posts := s.posts ++ [p] }

def Memory.markSeen (r : Memory) (txId : String) : Memory := { r with seen := txId :: r.seen }

def Memory.accept (r : Memory) (peer : String) : Memory :=
  { r with handshakeAccepted := peer :: r.handshakeAccepted }

def ATTEMPTED_MAX : ℕ := 50000

def pruneAttempted (attempted : List String) : List String :=
  if ATTEMPTED_MAX < attempted.length then
    attempted.drop (attempted.length - ATTEMPTED_MAX / 2)
  else attempted

/-- A handshake in a block, up to the first wait.  One that cannot be read, or has no sender, or a
sender on the list, is left. -/
def processHandshake (myAddress : Addresses) (s : State) (r : ℕ) (txId : String)
    (senderAddress : Option String) : State :=
  if txId ∈ (s.relays r).attempted ∨ txId ∈ (s.relays r).seen then s
  else
    let s := s.setRelay r fun x => { x with attempted := x.attempted ++ [txId] }
    match senderAddress with
    | none => s
    | some peer =>
      if peer ∈ (s.relays r).blocklist then s.setRelay r (·.markSeen txId)
      else
        let s := { s with heard := s.heard ++ [(myAddress r, peer)] }
        if peer ∈ (s.relays r).handshakeAccepted then s.setRelay r (·.markSeen txId)
        else { s with calls := s.calls ++ [⟨r, peer, txId, false, .status⟩] }

/-- A round lists the rows that can be claimed. -/
def catchUpHistory (myAddress : Addresses) (s : State) (r : ℕ) : State :=
  { s with calls := s.calls ++ (getPendingHandshakes s (myAddress r)).map fun a =>
      ⟨r, a.pair.2, a.trigger_txid, true, .claiming⟩ }

/-- The status comes back, if it does. -/
def statusBack (myAddress : Addresses) (s : State) (i : ℕ) (ok : Bool) : State :=
  match s.calls[i]? with
  | none => s
  | some c =>
    if c.phase = .status then
      if ok ∧ (s.relations.get (c.pair myAddress)).any fun r =>
          r.status ∈ [.accepted, .active, .confirmed] then
        (s.setRelay c.relay fun x => (x.accept c.peer).markSeen c.txid).setPhase i .over
      else (s.post (.inbound (c.pair myAddress) c.txid)).setPhase i .claiming
    else s

/-- The claim is executed, or is not, and its answer comes back, or does not.  Without an answer a
live call goes on, and a catch-up does not. -/
def claimBack (myAddress : Addresses) (s : State) (i : ℕ) (executed answered : Bool) : State :=
  match s.calls[i]? with
  | none => s
  | some c =>
    if c.phase = .claiming then
      if c.catchUp then
        if c.peer ∈ (s.relays c.relay).blocklist then s.setPhase i .over
        else
          let r := if executed then claimPendingAction s (c.pair myAddress) else (s, false)
          r.1.setPhase i (if answered ∧ r.2 then .drafting else .over)
      else
        let r := if executed then createAndClaim s (c.pair myAddress) c.txid else (s, false)
        r.1.setPhase i (if (executed ∧ answered) ∧ ¬ r.2 then .over else .drafting)
    else s

/-- A call that throws is over, and in a catch-up it is reported. -/
def State.throws (s : State) (i : ℕ) (c : Call) : State :=
  s.setPhase i (if c.catchUp then .reporting else .over)

inductive Draft
  | payload
  | empty
  | thrown
  deriving DecidableEq

def draftBack (s : State) (i : ℕ) (o : Draft) : State :=
  match s.calls[i]? with
  | none => s
  | some c =>
    if c.phase = .drafting then
      match o with
      | .payload => s.setPhase i .sending
      | .empty => s.setPhase i .over
      | .thrown => s.throws i c
    else s

/-- What becomes of a send; where it throws, the transaction has gone out or not. -/
inductive Sent
  | ok (txid : String)
  | thrown (went : Bool)
  deriving DecidableEq

def State.send (s : State) (x : Pair) : State := { s with sends := s.sends ++ [x] }

def sendBack (myAddress : Addresses) (s : State) (i : ℕ) (o : Sent) : State :=
  match s.calls[i]? with
  | none => s
  | some c =>
    if c.phase = .sending then
      match o with
      | .ok txid =>
        (((s.send (c.pair myAddress)).post (.outbound (c.pair myAddress) txid)).setRelay c.relay
          fun x => (if c.catchUp then x else x.accept c.peer).markSeen c.txid).setPhase i .over
      | .thrown went => (if went then s.send (c.pair myAddress) else s).throws i c
    else s

def reportBack (myAddress : Addresses) (s : State) (i : ℕ) (delivered : Bool) : State :=
  match s.calls[i]? with
  | none => s
  | some c =>
    if c.phase = .reporting then
      (if delivered then failPendingAction s (c.pair myAddress) else s).setPhase i .over
    else s

/-! ### Steps -/

inductive Event
  | block (r : ℕ) (txId : String) (senderAddress : Option String)
  | prune (r : ℕ)
  | round (r : ℕ)
  | statusBack (i : ℕ) (ok : Bool)
  | claimBack (i : ℕ) (executed answered : Bool)
  | draftBack (i : ℕ) (o : Draft)
  | sendBack (i : ℕ) (o : Sent)
  | reportBack (i : ℕ) (delivered : Bool)
  | deliver (k : ℕ)
  | lose (k : ℕ)
  | blocklist (r : ℕ) (addresses : List String)
  | flush (r : ℕ)
  | restart (r : ℕ)
  /-- A message between the two. -/
  | text (x : Pair)
  | blockRelation (x : Pair)
  | unblockRelation (x : Pair)

def step (myAddress : Addresses) (s : State) : Event → State
  | .block r txId senderAddress => processHandshake myAddress s r txId senderAddress
  | .prune r => s.setRelay r fun x => { x with attempted := pruneAttempted x.attempted }
  | .round r => catchUpHistory myAddress s r
  | .statusBack i ok => Handshake.statusBack myAddress s i ok
  | .claimBack i executed answered => Handshake.claimBack myAddress s i executed answered
  | .draftBack i o => Handshake.draftBack s i o
  | .sendBack i o => Handshake.sendBack myAddress s i o
  | .reportBack i delivered => Handshake.reportBack myAddress s i delivered
  | .deliver k => match s.posts[k]? with
    | none => s
    | some p => handleIngestMessage { s with posts := s.posts.eraseIdx k } p
  | .lose k => { s with posts := s.posts.eraseIdx k }
  | .blocklist r addresses => s.setRelay r fun x => { x with blocklist := addresses }
  | .flush r => s.setRelay r fun x => { x with saved := x.seen }
  | .restart r =>
    { s.setRelay r fun x => ⟨x.blocklist, [], x.saved, x.saved, []⟩ with
      calls := s.calls.map fun c => if c.relay = r then { c with phase := .over } else c }
  | .text x => activateRelation (confirmSession s x) x
  | .blockRelation x => Handshake.blockRelation s x
  | .unblockRelation x => Handshake.unblockRelation s x

def run (myAddress : Addresses) (es : List Event) : State := es.foldl (step myAddress) init

end KANet.Relay.Handshake
