import KANet.Lib.Json
import KANet.Lib.Like
import KANet.Lib.Runs
import Mathlib.Data.List.Range
import Mathlib.Data.List.Nodup

/-!
# `broker-action-queue.js`

`enqueue` puts an action at the end of the queue and starts `pump`, unless it runs.  The pump takes
the items one after the other and tries each up to three times.  `on_done` tells how it went; the
promise of `enqueueVerified` is settled by it and by nothing else.

An item that has expired is dropped without a word.  A second attempt changes the text of the
message, also where that is a message of the protocol, which the receivers can then not read; and
follows a failure even where the first one went out.

The tables of the callers' peers and the log lines are left out, and so is the body of an offer.
The relay gives the ids of transactions as texts, and no two items share a payload.  A step of the pump ends where it waits, and a
transaction that is sent after the pump has stopped waiting belongs to the attempt that sent it.

* `exact_of_run` — what the queue guarantees, and when.
-/

namespace KANet.Trade.ActionQueue

open KANet.Lib

/-! ### Items -/

inductive Kind
  | dm_quote | dm_pay_instr | dm_completion | dm_position | dm_paid_no_tx
  | dm_auto_payment_detected | dm_kas_delivered | dm_order_confirmed | dm_price_query | dm_stop
  | dm_payment_verified | dm_complete | dm_timeout | dm_failed | dm_cancel
  | accept_v1 | paid_v1 | sendKas | publish_offer
  | other (name : String)
  deriving DecidableEq

def DM_USER_KINDS : List Kind :=
  [.dm_quote, .dm_pay_instr, .dm_completion, .dm_position, .dm_paid_no_tx,
    .dm_auto_payment_detected, .dm_kas_delivered, .dm_order_confirmed, .dm_price_query, .dm_stop,
    .dm_payment_verified, .dm_complete, .dm_timeout, .dm_failed]

def TX_PRODUCING_KINDS : List Kind :=
  DM_USER_KINDS ++ [.dm_cancel, .accept_v1, .paid_v1, .sendKas]

/-- `payload.message`: a text that is not empty, nothing, or some other value. -/
inductive Message
  | absent
  | text (s : List Char)
  | other

structure Payload where
  message : Message
  channel : Option String
  amount_kas : Option String
  note : Option String
  freshness_args : Bool

structure Item where
  id : Nat
  kind : Kind
  peer : Option String
  payload : Payload
  ttl_at : Int
  attempts : Nat

def RETRY_MAX : Nat := 3

def TTL_DEFAULT_MS : Int := 10 * 60 * 1000

/-! ### Texts -/

/-- `\s` -/
def isSpace (c : Char) : Bool :=
  c ∈ ['\t', '\n', '\x0b', '\x0c', '\r', ' ', '\u00a0', '\u1680', '\u2028', '\u2029', '\u202f',
    '\u205f', '\u3000', '\ufeff'] || ('\u2000' ≤ c && c ≤ '\u200a')

/-- `s.trim()` -/
def trim (s : List Char) : List Char :=
  ((s.dropWhile isSpace).reverse.dropWhile isSpace).reverse

/-- What stands before `[r…]`, if the text ends with that, from right to left. -/
def untagged (r : List Char) : Option (List Char) :=
  match r with
  | ']' :: r =>
    match r.takeWhile Char.isDigit, r.dropWhile Char.isDigit with
    | _ :: _, 'r' :: '[' :: r => some r
    | _, _ => none
  | _ => none

/-- `s.replace(/\s*\[r\d+\]\s*$/, '')` -/
def stripRetry (s : List Char) : List Char :=
  match untagged (s.reverse.dropWhile isSpace) with
  | some r => (r.dropWhile isSpace).reverse
  | none => s

/-- The text of a further attempt. -/
def retag (s : List Char) (attempts : Nat) : List Char :=
  stripRetry s ++ " [r".toList ++ Json.digits attempts ++ [']']

def isAddress (s : List Char) : Bool :=
  s.length = 42 && s.take 2 = ['0', 'x'] &&
    (s.drop 2).all fun c => c.isDigit || ('a' ≤ c && c ≤ 'f') || ('A' ≤ c && c ≤ 'F')

/-- `s.match(/0x[a-fA-F0-9]{40}/g)`, after as many characters as belong to the last match. -/
def evmMatches : Nat → List Char → List (List Char)
  | _, [] => []
  | k + 1, _ :: s => evmMatches k s
  | 0, c :: s =>
    if isAddress ((c :: s).take 42) then (c :: s).take 42 :: evmMatches 41 s else evmMatches 0 s

/-- `/Invalid Kaspa address|payload too short|invalid.*address|address.*invalid|bech32/i` -/
def failFast (message : String) : Bool :=
  (message.toList.splitOnP fun c => c ∈ ['\n', '\r', '\u2028', '\u2029']).any fun line =>
    like (containing "Invalid Kaspa address".toList) line ||
      like (containing "payload too short".toList) line ||
      like (containing "invalid%address".toList) line ||
      like (containing "address%invalid".toList) line || like (containing "bech32".toList) line

/-! ### An attempt -/

/-- What is sent to the relay, or to the exchange. -/
inductive Command
  | message (target : Option String) (text : Message)
  /-- The notice in the place of a quote that is out of date. -/
  | notice (target : Option String)
  | broadcast (channel : String) (text : Message)
  | transfer (target : Option String) (amount : Option String) (note : Option String)
  | publish

/-- `p.channel || 'kanet-exchange'` -/
def Payload.toChannel (p : Payload) : String := (p.channel.filter (· ≠ "")).getD "kanet-exchange"

/-- `executeAction`, up to the command. -/
def command (item : Item) (stale : Bool) : Except String Command :=
  match item.kind with
  | .other name => .error ("unknown queue kind: " ++ name)
  | .publish_offer => .ok .publish
  | .accept_v1 => .ok (.broadcast item.payload.toChannel item.payload.message)
  | .paid_v1 => .ok (.broadcast item.payload.toChannel item.payload.message)
  | .sendKas =>
    .ok (.transfer (item.peer.map fun peer => String.ofList (trim peer.toList))
      item.payload.amount_kas item.payload.note)
  | .dm_quote =>
    if item.payload.freshness_args && stale then .ok (.notice item.peer)
    else .ok (.message item.peer item.payload.message)
  | _ => .ok (.message item.peer item.payload.message)

/-- What comes back. -/
inductive Answer
  | result (ok : Option Bool) (error : Option String) (txId : Option String)
  | threw (message : String)

/-- Why an answer counts as a failure, if it does. -/
def failure (kind : Kind) : Answer → Option String
  | .threw message => some message
  | .result ok error txId =>
    match error.filter (· ≠ "") with
    | some error => some error
    | none =>
      if ok = some false then some "execute returned ok=false"
      else if kind ∈ TX_PRODUCING_KINDS ∧ (txId.filter (· ≠ "")).isNone then
        some "no txId from sendCommandAsync (relay returned empty result)"
      else none

/-- `assertAddressInvariant`: why an item is refused. -/
inductive Refusal
  | foreign (address : List Char)
  | threw

def assertAddressInvariant (own : List (List Char)) (item : Item) : Option Refusal :=
  if item.kind ∈ DM_USER_KINDS then
    match item.payload.message with
    | .absent => none
    | .text s => ((evmMatches 0 s).find? fun a => a.map Char.toLower ∉ own).map .foreign
    | .other => some .threw
  else none

/-! ### The pump -/

inductive Phase
  | idle
  | starting
  | next
  | attempting (item : Item) (command : Command)
  | waiting (item : Item)
  /-- The pump has thrown, and the queue is busy for ever. -/
  | dead

/-- A command that was sent, and whether it took effect. -/
structure Entry where
  id : Nat
  attempt : Nat
  command : Command
  effect : Bool

/-- A call of `on_done`. -/
structure Report where
  id : Nat
  ok : Bool

/-- `enqueued`, `log` and `done` are kept by nobody. -/
structure Sys where
  queue : List Item
  phase : Phase
  enqueued : List Item
  log : List Entry
  done : List Report

def initial : Sys := ⟨[], .idle, [], [], []⟩

structure Action where
  kind : Kind
  peer : Option String
  payload : Payload
  ttl_ms : Int

/-- What an attempt finds: the time, the wallets of the broker, whether the quote is out of date. -/
structure Moment where
  now : Int
  own : List (List Char)
  stale : Bool

inductive Event
  | enqueue (a : Action) (now : Int)
  | relay_ready
  | take (m : Moment)
  | outcome (effect : Bool) (answer : Answer)
  | retry (m : Moment)

def finish (s : Sys) (item : Item) (ok : Bool) : Sys :=
  { s with phase := .next, done := s.done ++ [⟨item.id, ok⟩] }

def afterFailure (s : Sys) (item : Item) (message : String) : Sys :=
  if failFast message then finish s item false
  else if item.attempts < RETRY_MAX then { s with phase := .waiting item }
  else finish s item false

/-- The text of an attempt; nothing, where `replace` throws. -/
def retext (item : Item) : Option Item :=
  if 1 < item.attempts then
    match item.payload.message with
    | .absent => some item
    | .text s => some { item with payload.message := .text (retag s item.attempts) }
    | .other => none
  else some item

/-- From the top of the loop to the command. -/
def attempt (s : Sys) (m : Moment) (item : Item) : Sys :=
  match retext { item with attempts := item.attempts + 1 } with
  | none => { s with phase := .dead }
  | some item =>
    match assertAddressInvariant m.own item with
    | some (.foreign _) => finish s item false
    | some .threw => afterFailure s item "message.match is not a function"
    | none =>
      match command item m.stale with
      | .error message => afterFailure s item message
      | .ok c => { s with phase := .attempting item c }

def newItem (s : Sys) (a : Action) (now : Int) : Item :=
  ⟨s.enqueued.length, a.kind, a.peer.filter (· ≠ ""), a.payload, now + a.ttl_ms, 0⟩

def step (s : Sys) : Event → Option Sys
  | .enqueue a now =>
    some { s with
      queue := s.queue ++ [newItem s a now]
      enqueued := s.enqueued ++ [newItem s a now]
      phase := match s.phase with
        | .idle => .starting
        | phase => phase }
  | .relay_ready =>
    match s.phase with
    | .starting => some { s with phase := .next }
    | _ => none
  | .take m =>
    match s.phase, s.queue with
    | .next, [] => some { s with phase := .idle }
    | .next, item :: rest =>
      if item.ttl_at < m.now then some { s with queue := rest }
      else some (attempt { s with queue := rest } m item)
    | _, _ => none
  | .outcome effect answer =>
    match s.phase with
    | .attempting item c =>
      let s := { s with log := s.log ++ [⟨item.id, item.attempts, c, effect⟩] }
      match failure item.kind answer with
      | none => some (finish s item true)
      | some message => some (afterFailure s item message)
    | _ => none
  | .retry m =>
    match s.phase with
    | .waiting item => some (attempt s m item)
    | _ => none

def Step (s : Sys) (ev : Event) (t : Sys) : Prop := step s ev = some t

/-! ### What the queue should guarantee -/

/-- The item that is being served. -/
def Phase.current : Phase → Option Item
  | .attempting item _ => some item
  | .waiting item => some item
  | _ => none

/-- A step of the pump. -/
def Event.pumps : Event → Bool
  | .enqueue _ _ => false
  | _ => true

/-- How many steps the pump has left. -/
def Phase.left : Phase → Nat
  | .idle => 0
  | .starting => 2
  | .next => 1
  | .attempting item _ => 2 * (RETRY_MAX - item.attempts) + 2
  | .waiting item => 2 * (RETRY_MAX - item.attempts) + 1
  | .dead => 0

def Sys.left (s : Sys) : Nat := s.phase.left + 6 * s.queue.length

def isProtocol (kind : Kind) : Bool := kind = .accept_v1 || kind = .paid_v1

/-- **Fair and exact.** -/
structure Exact (s : Sys) : Prop where
  /-- What is reported, what is being served and what is queued, in the order it came. -/
  once : s.done.map Report.id ++ s.phase.current.toList.map Item.id ++ s.queue.map Item.id =
    List.range s.enqueued.length
  order : s.log.Pairwise fun e f => e.id ≤ f.id
  truth : ∀ d ∈ s.done, d.ok = true ↔ ∃ e ∈ s.log, e.id = d.id ∧ e.effect = true
  single : ∀ id, (s.log.countP fun e => e.id = id && e.effect) ≤ 1
  /-- The text that goes out, and the text that the broker's own filter reads. -/
  parsed : ∀ e ∈ s.log, e.effect = true → ∀ item, s.enqueued[e.id]? = some item →
    isProtocol item.kind = true → ∀ text, item.payload.message = .text text →
    ∃ channel sent, e.command = .broadcast channel (.text sent) ∧
      ∀ parse : List Char → Option Json, parse sent = parse text ∧
        parse (stripRetry sent) = parse text
  idle : s.phase = .idle → s.queue = []
  alive : s.phase ≠ .idle → ∃ ev t, ev.pumps = true ∧ Step s ev t
  drains : ∀ evs t, Run Step s evs t → (∀ ev ∈ evs, ev.pumps = true) → evs.length ≤ s.left

/-- No item expires; an attempt is taken for a success exactly when it took effect, and a message
of the protocol goes out at the first attempt and does not end in a tag of its own; a message that
is no text is not tried again. -/
def ProperStep (s : Sys) : Event → Prop
  | .enqueue a _ => isProtocol a.kind = true → ∀ text, a.payload.message = .text text →
      stripRetry text = text
  | .take m => ∀ item ∈ s.queue.head?, ¬ item.ttl_at < m.now
  | .outcome effect answer => ∀ item c, s.phase = .attempting item c →
      ((failure item.kind answer).isNone = effect ∧
        (isProtocol item.kind = true → effect = true → item.attempts = 1))
  | .retry _ => ∀ item, s.phase = .waiting item → item.payload.message ≠ .other
  | .relay_ready => True

def ProperRun (evs : List Event) : Prop :=
  ∀ pre ev post, evs = pre ++ ev :: post → ∀ m, Run Step initial pre m → ProperStep m ev

/-! ### The invariant -/

section Invariant

variable {s t : Sys} {item : Item} {took : Bool}

/-- What holds whoever is being served. -/
structure Served (s : Sys) : Prop where
  queued : ∀ q ∈ s.queue, s.enqueued[q.id]? = some q
  fresh : ∀ q ∈ s.enqueued, q.attempts = 0
  clean : ∀ q ∈ s.enqueued, isProtocol q.kind = true → ∀ text, q.payload.message = .text text →
    stripRetry text = text
  bounded : ∀ e ∈ s.log, e.id < s.enqueued.length
  order : s.log.Pairwise fun e f => e.id ≤ f.id
  truth : ∀ d ∈ s.done, d.ok = true ↔ ∃ e ∈ s.log, e.id = d.id ∧ e.effect = true
  single : ∀ id, (s.log.countP fun e => e.id = id && e.effect) ≤ 1
  parsed : ∀ e ∈ s.log, e.effect = true → ∀ item, s.enqueued[e.id]? = some item →
    isProtocol item.kind = true → ∀ text, item.payload.message = .text text →
    (∃ channel, e.command = .broadcast channel (.text text)) ∧ stripRetry text = text

structure Resting (s : Sys) : Prop extends Served s where
  once : s.done.map Report.id ++ s.queue.map Item.id = List.range s.enqueued.length
  logged : ∀ e ∈ s.log, e.id ∈ s.done.map Report.id

/-- An item is being served; `took` says whether an attempt has taken effect. -/
structure Serving (s : Sys) (item : Item) (took : Bool) : Prop extends Served s where
  once : s.done.map Report.id ++ item.id :: s.queue.map Item.id = List.range s.enqueued.length
  logged : ∀ e ∈ s.log, e.id ∈ s.done.map Report.id ∨ e.id = item.id
  origin : ∃ orig, s.enqueued[item.id]? = some orig ∧ item.kind = orig.kind ∧
    (item.attempts ≤ 1 → item.payload.message = orig.payload.message)
  took : took = true ↔ ∃ e ∈ s.log, e.id = item.id ∧ e.effect = true

/-- A message of the protocol goes out as it is. -/
def Faithful (item : Item) (c : Command) : Prop :=
  isProtocol item.kind = true → ∃ channel, c = .broadcast channel item.payload.message

def Inv (s : Sys) : Prop :=
  match s.phase with
  | .idle => Resting s ∧ s.queue = []
  | .starting => Resting s
  | .next => Resting s
  | .attempting item c => Serving s item false ∧ Faithful item c
  | .waiting item => Serving s item false ∧ item.attempts < RETRY_MAX
  | .dead => False

theorem Served.phase (h : Served s) (p : Phase) : Served { s with phase := p } :=
  ⟨h.queued, h.fresh, h.clean, h.bounded, h.order, h.truth, h.single, h.parsed⟩

theorem Resting.phase (h : Resting s) (p : Phase) : Resting { s with phase := p } :=
  ⟨h.toServed.phase p, h.once, h.logged⟩

theorem Serving.phase (h : Serving s item took) (p : Phase) :
    Serving { s with phase := p } item took :=
  ⟨h.toServed.phase p, h.once, h.logged, h.origin, h.took⟩

theorem Serving.not_done (h : Serving s item took) : item.id ∉ s.done.map Report.id := by
  have hnodup : (s.done.map Report.id ++ item.id :: s.queue.map Item.id).Nodup := by
    rw [h.once]
    exact List.nodup_range
  intro hmem
  exact List.disjoint_of_nodup_append hnodup hmem List.mem_cons_self

theorem Serving.done_lt (h : Serving s item took) {id : Nat} (hid : id ∈ s.done.map Report.id) :
    id < item.id := by
  have hsorted : (s.done.map Report.id ++ item.id :: s.queue.map Item.id).Pairwise (· < ·) := by
    rw [h.once]
    exact List.pairwise_lt_range
  exact (List.pairwise_append.mp hsorted).2.2 id hid item.id List.mem_cons_self

theorem Serving.lt_length (h : Serving s item took) : item.id < s.enqueued.length := by
  obtain ⟨orig, horig, -⟩ := h.origin
  exact (List.getElem?_eq_some_iff.mp horig).1

/-- **An item is finished.** -/
theorem resting_finish (h : Serving s item took) : Resting (finish s item took) := by
  refine ⟨⟨h.queued, h.fresh, h.clean, h.bounded, h.order, ?_, h.single, h.parsed⟩, ?_, ?_⟩
  · intro d hd
    rcases List.mem_append.mp hd with hold | hnew
    · exact h.truth d hold
    · rw [List.mem_singleton.mp hnew]
      exact h.took
  · show (s.done ++ [(⟨item.id, took⟩ : Report)]).map Report.id ++ s.queue.map Item.id = _
    rw [List.map_append, List.append_assoc]
    exact h.once
  · intro e he
    show e.id ∈ (s.done ++ [(⟨item.id, took⟩ : Report)]).map Report.id
    rw [List.map_append, List.mem_append]
    rcases h.logged e he with hdone | heq
    · exact Or.inl hdone
    · rw [heq]
      exact Or.inr (List.mem_singleton_self _)

theorem inv_finish (h : Serving s item took) : Inv (finish s item took) := resting_finish h

theorem inv_afterFailure (h : Serving s item false) (message : String) :
    Inv (afterFailure s item message) := by
  unfold afterFailure
  split
  · exact inv_finish h
  · split
    · next hmore => exact ⟨h.phase _, hmore⟩
    · exact inv_finish h

/-- **An item is taken.** -/
theorem serving_take {rest : List Item} (h : Resting s) (hqueue : s.queue = item :: rest) :
    Serving { s with queue := rest } item false := by
  have horigin : s.enqueued[item.id]? = some item :=
    h.queued item (hqueue ▸ List.mem_cons_self)
  have honce : s.done.map Report.id ++ item.id :: rest.map Item.id =
      List.range s.enqueued.length := by
    rw [← h.once, hqueue, List.map_cons]
  have hnodup : (s.done.map Report.id ++ item.id :: rest.map Item.id).Nodup := by
    rw [honce]
    exact List.nodup_range
  refine ⟨⟨?_, h.fresh, h.clean, h.bounded, h.order, h.truth, h.single, h.parsed⟩, honce,
    ?_, ?_, ?_⟩
  · intro q hq
    exact h.queued q (hqueue ▸ List.mem_cons_of_mem _ hq)
  · exact fun e he => Or.inl (h.logged e he)
  · exact ⟨item, horigin, rfl, fun _ => rfl⟩
  · constructor
    · intro hf
      cases hf
    · rintro ⟨e, he, heq, -⟩
      have hdone := h.logged e he
      rw [heq] at hdone
      exact absurd List.mem_cons_self (List.disjoint_of_nodup_append hnodup hdone)

theorem retext_cases {item' : Item} (h : retext item = some item') :
    item'.id = item.id ∧ item'.kind = item.kind ∧ item'.attempts = item.attempts ∧
      (item.attempts ≤ 1 → item'.payload.message = item.payload.message) := by
  unfold retext at h
  split at h
  · next hagain =>
    split at h
    · obtain rfl := Option.some.inj h
      exact ⟨rfl, rfl, rfl, fun _ => rfl⟩
    · obtain rfl := Option.some.inj h
      exact ⟨rfl, rfl, rfl, fun hfirst => absurd hagain (Nat.not_lt.mpr hfirst)⟩
    · cases h
  · obtain rfl := Option.some.inj h
    exact ⟨rfl, rfl, rfl, fun _ => rfl⟩

/-- The text of an attempt does not change who is being served. -/
theorem serving_retext {item' : Item} (h : Serving s item took)
    (hre : retext { item with attempts := item.attempts + 1 } = some item') :
    Serving s item' took := by
  obtain ⟨hid, hkind, hattempts, hmessage⟩ := retext_cases hre
  refine ⟨h.toServed, ?_, ?_, ?_, ?_⟩
  · rw [hid]
    exact h.once
  · rw [hid]
    exact h.logged
  · obtain ⟨orig, horig, hk, hm⟩ := h.origin
    rw [hid, hkind]
    refine ⟨orig, horig, hk, fun hfirst => ?_⟩
    rw [hattempts] at hfirst
    rw [hmessage hfirst]
    exact hm (by dsimp only at hfirst; omega)
  · rw [hid]
    exact h.took

theorem faithful_command {stale : Bool} {c : Command} (h : command item stale = .ok c) :
    Faithful item c := by
  intro hprotocol
  unfold isProtocol at hprotocol
  rw [Bool.or_eq_true, decide_eq_true_eq, decide_eq_true_eq] at hprotocol
  unfold command at h
  rcases hprotocol with hkind | hkind
  · rw [hkind] at h
    exact ⟨_, (Except.ok.inj h).symm⟩
  · rw [hkind] at h
    exact ⟨_, (Except.ok.inj h).symm⟩

theorem retext_isSome (h : item.payload.message ≠ .other ∨ item.attempts ≤ 1) :
    ∃ item', retext item = some item' := by
  unfold retext
  split
  · next hagain =>
    cases hmessage : item.payload.message with
    | absent => exact ⟨_, rfl⟩
    | text text => exact ⟨_, rfl⟩
    | other =>
      rcases h with hne | hfirst
      · exact absurd hmessage hne
      · exact absurd hagain (Nat.not_lt.mpr hfirst)
  · exact ⟨_, rfl⟩

/-- **An attempt begins.** -/
theorem inv_attempt (h : Serving s item false) (m : Moment)
    (htext : item.payload.message ≠ .other ∨ item.attempts = 0) : Inv (attempt s m item) := by
  obtain ⟨item', hre⟩ := @retext_isSome { item with attempts := item.attempts + 1 }
    (htext.imp_right fun hzero => by dsimp only; omega)
  have hserving := serving_retext h hre
  unfold attempt
  rw [hre]
  dsimp only
  split
  · exact inv_finish hserving
  · exact inv_afterFailure hserving _
  · split
    · exact inv_afterFailure hserving _
    · next c hc =>
      exact ⟨hserving.phase _, faithful_command hc⟩

/-- The log, with the entry of an attempt. -/
def Sys.record (s : Sys) (item : Item) (c : Command) (effect : Bool) : Sys :=
  { s with log := s.log ++ [⟨item.id, item.attempts, c, effect⟩] }

theorem Serving.count_eq_zero (h : Serving s item false) :
    (s.log.countP fun e => e.id = item.id && e.effect) = 0 := by
  rw [List.countP_eq_zero]
  intro e he heffect
  rw [Bool.and_eq_true, decide_eq_true_eq] at heffect
  exact nomatch h.took.mpr ⟨e, he, heffect⟩

/-- **An attempt ends.** -/
theorem serving_record {c : Command} {effect : Bool} (h : Serving s item false)
    (hc : Faithful item c)
    (hfirst : isProtocol item.kind = true → effect = true → item.attempts = 1) :
    Serving (s.record item c effect) item effect := by
  obtain ⟨orig, horig, hkind, hmessage⟩ := h.origin
  refine ⟨⟨h.queued, h.fresh, h.clean, ?_, ?_, ?_, ?_, ?_⟩, h.once, ?_, h.origin, ?_⟩
  · intro e he
    rcases List.mem_append.mp he with hold | hnew
    · exact h.bounded e hold
    · rw [List.mem_singleton.mp hnew]
      exact h.lt_length
  · refine List.pairwise_append.mpr ⟨h.order, List.pairwise_singleton _ _, ?_⟩
    intro e he f hf
    rw [List.mem_singleton.mp hf]
    rcases h.logged e he with hdone | heq
    · exact (h.done_lt hdone).le
    · exact heq.le
  · intro d hd
    rw [h.truth d hd]
    constructor
    · rintro ⟨e, he, heffect⟩
      exact ⟨e, List.mem_append_left _ he, heffect⟩
    · rintro ⟨e, he, heq, heffect⟩
      rcases List.mem_append.mp he with hold | hnew
      · exact ⟨e, hold, heq, heffect⟩
      · rw [List.mem_singleton.mp hnew] at heq
        have hid : item.id = d.id := heq
        exact absurd (hid ▸ List.mem_map_of_mem hd) h.not_done
  · intro id
    show (s.log ++ [_]).countP _ ≤ 1
    rw [List.countP_append, List.countP_singleton]
    by_cases hid : item.id = id
    · subst hid
      rw [h.count_eq_zero]
      split
      · exact le_rfl
      · exact Nat.zero_le 1
    · rw [if_neg (by simp [hid])]
      exact h.single id
  · intro e he heffect q hq hprotocol text htext
    rcases List.mem_append.mp he with hold | hnew
    · exact h.parsed e hold heffect q hq hprotocol text htext
    · rw [List.mem_singleton.mp hnew] at hq heffect
      obtain rfl := Option.some.inj (horig.symm.trans hq)
      have hattempts := hfirst (hkind ▸ hprotocol) heffect
      obtain ⟨channel, hchannel⟩ := hc (hkind ▸ hprotocol)
      rw [hmessage hattempts.le, htext] at hchannel
      refine ⟨⟨channel, ?_⟩, h.clean orig (List.mem_of_getElem? horig) hprotocol text htext⟩
      rw [List.mem_singleton.mp hnew]
      exact hchannel
  · intro e he
    rcases List.mem_append.mp he with hold | hnew
    · exact h.logged e hold
    · exact Or.inr (by rw [List.mem_singleton.mp hnew])
  · constructor
    · intro heffect
      exact ⟨_, List.mem_append_right _ (List.mem_singleton_self _), rfl, heffect⟩
    · rintro ⟨e, he, heq, heffect⟩
      rcases List.mem_append.mp he with hold | hnew
      · exact nomatch h.took.mpr ⟨e, hold, heq, heffect⟩
      · rw [List.mem_singleton.mp hnew] at heffect
        exact heffect

/-- The state with one more item. -/
def Sys.push (s : Sys) (a : Action) (now : Int) : Sys :=
  { s with
    queue := s.queue ++ [newItem s a now]
    enqueued := s.enqueued ++ [newItem s a now] }

theorem getElem?_push {s : Sys} {a : Action} {now : Int} {id : Nat} {q : Item}
    (h : s.enqueued[id]? = some q) : (s.push a now).enqueued[id]? = some q := by
  show (s.enqueued ++ [_])[id]? = some q
  rw [List.getElem?_append_left (List.getElem?_eq_some_iff.mp h).1]
  exact h

theorem served_push {a : Action} {now : Int} (h : Served s)
    (hclean : isProtocol a.kind = true → ∀ text, a.payload.message = .text text →
      stripRetry text = text) : Served (s.push a now) := by
  refine ⟨?_, ?_, ?_, ?_, h.order, h.truth, h.single, ?_⟩
  · intro q hq
    rcases List.mem_append.mp hq with hold | hnew
    · exact getElem?_push (h.queued q hold)
    · rw [List.mem_singleton.mp hnew]
      show (s.enqueued ++ [_])[s.enqueued.length]? = _
      rw [List.getElem?_concat_length]
  · intro q hq
    rcases List.mem_append.mp hq with hold | hnew
    · exact h.fresh q hold
    · rw [List.mem_singleton.mp hnew]
      rfl
  · intro q hq
    rcases List.mem_append.mp hq with hold | hnew
    · exact h.clean q hold
    · rw [List.mem_singleton.mp hnew]
      exact hclean
  · intro e he
    show e.id < (s.enqueued ++ [_]).length
    rw [List.length_append]
    exact Nat.lt_add_right _ (h.bounded e he)
  · intro e he heffect q hq
    refine h.parsed e he heffect q ?_
    change (s.enqueued ++ [_])[e.id]? = some q at hq
    rwa [List.getElem?_append_left (h.bounded e he)] at hq

theorem once_push {xs : List Nat} {a : Action} {now : Int}
    (h : xs ++ s.queue.map Item.id = List.range s.enqueued.length) :
    xs ++ (s.push a now).queue.map Item.id = List.range (s.push a now).enqueued.length := by
  show xs ++ (s.queue ++ [newItem s a now]).map Item.id =
    List.range (s.enqueued ++ [newItem s a now]).length
  rw [List.map_append, ← List.append_assoc, h, List.length_append, List.length_singleton,
    List.range_succ]
  rfl

theorem resting_push {a : Action} {now : Int} (h : Resting s)
    (hclean : isProtocol a.kind = true → ∀ text, a.payload.message = .text text →
      stripRetry text = text) : Resting (s.push a now) :=
  ⟨served_push h.toServed hclean, once_push h.once, h.logged⟩

theorem serving_push {a : Action} {now : Int} (h : Serving s item took)
    (hclean : isProtocol a.kind = true → ∀ text, a.payload.message = .text text →
      stripRetry text = text) : Serving (s.push a now) item took := by
  refine ⟨served_push h.toServed hclean, ?_, h.logged, ?_, h.took⟩
  · have honce : (s.done.map Report.id ++ [item.id]) ++ s.queue.map Item.id =
        List.range s.enqueued.length := by
      rw [List.append_assoc]
      exact h.once
    have := @once_push s _ a now honce
    rwa [List.append_assoc] at this
  · obtain ⟨orig, horig, hrest⟩ := h.origin
    exact ⟨orig, getElem?_push horig, hrest⟩

/-- **The step lemma.** -/
theorem inv_step {ev : Event} (h : Inv s) (hproper : ProperStep s ev) (hstep : Step s ev t) :
    Inv t := by
  unfold Step at hstep
  cases ev with
  | enqueue a now =>
    obtain rfl := Option.some.inj hstep
    unfold Inv at h
    split at h
    · next hphase =>
      simp only [hphase]
      exact (resting_push h.1 hproper).phase _
    · next hphase =>
      simp only [hphase]
      exact (resting_push h hproper).phase _
    · next hphase =>
      simp only [hphase]
      exact (resting_push h hproper).phase _
    · next item c hphase =>
      simp only [hphase]
      exact ⟨(serving_push h.1 hproper).phase _, h.2⟩
    · next item hphase =>
      simp only [hphase]
      exact ⟨(serving_push h.1 hproper).phase _, h.2⟩
    · exact h.elim
  | relay_ready =>
    unfold step at hstep
    dsimp only at hstep
    split at hstep
    · next hphase =>
      obtain rfl := Option.some.inj hstep
      simp only [Inv, hphase] at h
      exact h.phase _
    · cases hstep
  | take m =>
    unfold step at hstep
    dsimp only at hstep
    split at hstep
    · next hphase hqueue =>
      obtain rfl := Option.some.inj hstep
      simp only [Inv, hphase] at h
      exact ⟨h.phase _, hqueue⟩
    · next item rest hphase hqueue =>
      simp only [Inv, hphase] at h
      rw [if_neg (hproper item (by rw [hqueue]; rfl))] at hstep
      obtain rfl := Option.some.inj hstep
      have hitem := h.fresh item (List.mem_of_getElem? (h.queued item (by
        rw [hqueue]
        exact List.mem_cons_self)))
      exact inv_attempt (serving_take h hqueue) m (Or.inr hitem)
    · cases hstep
  | outcome effect answer =>
    unfold step at hstep
    dsimp only at hstep
    split at hstep
    · next item c hphase =>
      simp only [Inv, hphase] at h
      obtain ⟨heffect, hfirst⟩ := hproper item c hphase
      have hserving := serving_record h.1 h.2 hfirst
      split at hstep
      · next hnone =>
        obtain rfl := Option.some.inj hstep
        rw [hnone] at heffect
        obtain rfl := heffect
        exact inv_finish hserving
      · next message hsome =>
        obtain rfl := Option.some.inj hstep
        rw [hsome] at heffect
        obtain rfl := heffect
        exact inv_afterFailure hserving message
    · cases hstep
  | retry m =>
    unfold step at hstep
    dsimp only at hstep
    split at hstep
    · next item hphase =>
      obtain rfl := Option.some.inj hstep
      simp only [Inv, hphase] at h
      exact inv_attempt h.1 m (Or.inl (hproper item hphase))
    · cases hstep

end Invariant

/-! ### The steps that are left -/

section Left

variable {s t : Sys} {item : Item} {evs : List Event}

/-- An item that waits may be tried again. -/
def Trying (s : Sys) : Prop := ∀ item, s.phase = .waiting item → item.attempts < RETRY_MAX

theorem finish_left (s : Sys) (item : Item) (ok : Bool) :
    (finish s item ok).left = 1 + 6 * s.queue.length := rfl

theorem trying_finish (s : Sys) (item : Item) (ok : Bool) : Trying (finish s item ok) :=
  fun _ h => nomatch h

theorem afterFailure_left (s : Sys) (item : Item) (message : String) :
    Trying (afterFailure s item message) ∧
      (afterFailure s item message).left ≤
        2 * (RETRY_MAX - item.attempts) + 1 + 6 * s.queue.length := by
  unfold afterFailure
  split
  · exact ⟨trying_finish _ _ _, by rw [finish_left]; omega⟩
  · split
    · next hmore =>
      refine ⟨fun item' h => ?_, le_rfl⟩
      obtain rfl := Phase.waiting.inj h
      exact hmore
    · exact ⟨trying_finish _ _ _, by rw [finish_left]; omega⟩

theorem attempt_left (s : Sys) (m : Moment) (item : Item) :
    Trying (attempt s m item) ∧
      (attempt s m item).left ≤
        2 * (RETRY_MAX - (item.attempts + 1)) + 2 + 6 * s.queue.length := by
  unfold attempt
  split
  · exact ⟨(fun _ h => nomatch h), by simp [Sys.left, Phase.left]⟩
  · next item' hre =>
    have hattempts : item'.attempts = item.attempts + 1 := (retext_cases hre).2.2.1
    split
    · exact ⟨trying_finish _ _ _, by rw [finish_left]; omega⟩
    · obtain ⟨htry, hle⟩ := afterFailure_left s item' "message.match is not a function"
      exact ⟨htry, by omega⟩
    · split
      · next message _ =>
        obtain ⟨htry, hle⟩ := afterFailure_left s item' message
        exact ⟨htry, by omega⟩
      · refine ⟨(fun _ h => nomatch h), ?_⟩
        simp only [Sys.left, Phase.left, hattempts]
        exact le_rfl

/-- **A step of the pump** leaves fewer steps. -/
theorem step_left {ev : Event} (h : Trying s) (hstep : Step s ev t) (hpumps : ev.pumps = true) :
    Trying t ∧ t.left < s.left := by
  unfold Step step at hstep
  cases ev with
  | enqueue a now => cases hpumps
  | relay_ready =>
    dsimp only at hstep
    split at hstep
    · next hphase =>
      obtain rfl := Option.some.inj hstep
      refine ⟨(fun _ h => nomatch h), ?_⟩
      simp only [Sys.left, Phase.left, hphase]
      omega
    · cases hstep
  | take m =>
    dsimp only at hstep
    split at hstep
    · next hphase hqueue =>
      obtain rfl := Option.some.inj hstep
      refine ⟨(fun _ h => nomatch h), ?_⟩
      simp only [Sys.left, Phase.left, hphase]
      omega
    · next item rest hphase hqueue =>
      have hs : s.left = 7 + 6 * rest.length := by
        simp only [Sys.left, Phase.left, hphase, hqueue, List.length_cons]
        omega
      split at hstep
      · obtain rfl := Option.some.inj hstep
        refine ⟨fun item' h' => ?_, ?_⟩
        · rw [hphase] at h'
          cases h'
        · rw [hs]
          simp only [Sys.left, Phase.left, hphase]
          omega
      · obtain rfl := Option.some.inj hstep
        obtain ⟨htry, hle⟩ := attempt_left { s with queue := rest } m item
        refine ⟨htry, ?_⟩
        dsimp only at hle
        unfold RETRY_MAX at hle
        omega
    · cases hstep
  | outcome effect answer =>
    dsimp only at hstep
    split at hstep
    · next item c hphase =>
      have hs : s.left = 2 * (RETRY_MAX - item.attempts) + 2 + 6 * s.queue.length := by
        simp only [Sys.left, Phase.left, hphase]
      split at hstep
      · obtain rfl := Option.some.inj hstep
        refine ⟨trying_finish _ _ _, ?_⟩
        rw [finish_left, hs]
        dsimp only
        omega
      · next message _ =>
        obtain rfl := Option.some.inj hstep
        obtain ⟨htry, hle⟩ := afterFailure_left (s.record item c effect) item message
        refine ⟨htry, ?_⟩
        change _ ≤ 2 * (RETRY_MAX - item.attempts) + 1 + 6 * s.queue.length at hle
        unfold Sys.record at hle
        omega
    · cases hstep
  | retry m =>
    dsimp only at hstep
    split at hstep
    · next item hphase =>
      obtain rfl := Option.some.inj hstep
      have hmore := h item hphase
      have hs : s.left = 2 * (RETRY_MAX - item.attempts) + 1 + 6 * s.queue.length := by
        simp only [Sys.left, Phase.left, hphase]
      obtain ⟨htry, hle⟩ := attempt_left s m item
      exact ⟨htry, by omega⟩
    · cases hstep

theorem drains_of_trying (h : Trying s) (hrun : Run Step s evs t)
    (hpumps : ∀ ev ∈ evs, ev.pumps = true) : evs.length + t.left ≤ s.left := by
  induction hrun with
  | nil s => simp
  | @cons s m t ev evs hstep _ ih =>
    rw [List.forall_mem_cons] at hpumps
    obtain ⟨htry, hlt⟩ := step_left h hstep hpumps.1
    have := ih htry hpumps.2
    rw [List.length_cons]
    omega

theorem exists_step {ev : Event} (hpumps : ev.pumps = true) (h : (step s ev).isSome = true) :
    ∃ ev t, ev.pumps = true ∧ Step s ev t := by
  obtain ⟨t, ht⟩ := Option.isSome_iff_exists.mp h
  exact ⟨ev, t, hpumps, ht⟩

/-- A pump that has not thrown and has work goes on. -/
theorem alive_of_phase (hidle : s.phase ≠ .idle) (hdead : s.phase ≠ .dead) :
    ∃ ev t, ev.pumps = true ∧ Step s ev t := by
  have hmoment : Moment := ⟨0, [], false⟩
  cases hphase : s.phase with
  | idle => exact absurd hphase hidle
  | starting => exact @exists_step s .relay_ready rfl (by simp [step, hphase])
  | next =>
    refine @exists_step s (.take hmoment) rfl ?_
    cases hqueue : s.queue with
    | nil => simp [step, hphase, hqueue]
    | cons item rest =>
      by_cases hexpired : item.ttl_at < hmoment.now
      · simp [step, hphase, hqueue, hexpired]
      · simp [step, hphase, hqueue, hexpired]
  | attempting item c =>
    exact @exists_step s (.outcome false (.threw "")) rfl (by simp [step, hphase, failure])
  | waiting item => exact @exists_step s (.retry hmoment) rfl (by simp [step, hphase])
  | dead => exact absurd hphase hdead

end Left

/-! ### Runs -/

section Runs

variable {s : Sys} {evs : List Event}

theorem inv_initial : Inv initial := by
  refine ⟨⟨⟨?_, ?_, ?_, ?_, List.Pairwise.nil, ?_, fun _ => Nat.zero_le 1, ?_⟩, rfl, ?_⟩, rfl⟩
  · exact List.forall_mem_nil _
  · exact List.forall_mem_nil _
  · exact List.forall_mem_nil _
  · exact List.forall_mem_nil _
  · exact List.forall_mem_nil _
  · exact List.forall_mem_nil _
  · exact List.forall_mem_nil _

theorem ProperRun.init {ev : Event} (h : ProperRun (evs ++ [ev])) : ProperRun evs := by
  rintro pre ev' post rfl
  exact h pre ev' (post ++ [ev]) (by rw [List.append_assoc, List.cons_append])

/-- **The run lemma.** -/
theorem inv_of_run (hrun : Run Step initial evs s) : ProperRun evs → Inv s := by
  have hboth : Run Step initial evs s ∧ (ProperRun evs → Inv s) := by
    refine @Run.history _ _ _ (fun pre m => Run Step initial pre m ∧ (ProperRun pre → Inv m))
      ?_ _ _ _ hrun ⟨.nil initial, fun _ => inv_initial⟩
    rintro pre m ev t ⟨hpre, hinv⟩ hstep
    refine ⟨hpre.append (.single hstep), fun hproper => ?_⟩
    exact inv_step (hinv hproper.init) (hproper pre ev [] rfl m hpre) hstep
  exact hboth.2

theorem Inv.served (h : Inv s) : Served s := by
  unfold Inv at h
  split at h
  · exact h.1.toServed
  · exact h.toServed
  · exact h.toServed
  · exact h.1.toServed
  · exact h.1.toServed
  · exact h.elim

theorem Inv.once (h : Inv s) :
    s.done.map Report.id ++ s.phase.current.toList.map Item.id ++ s.queue.map Item.id =
      List.range s.enqueued.length := by
  unfold Inv at h
  split at h
  · next hphase => simpa [hphase, Phase.current] using h.1.once
  · next hphase => simpa [hphase, Phase.current] using h.once
  · next hphase => simpa [hphase, Phase.current] using h.once
  · next hphase => simpa [hphase, Phase.current] using h.1.once
  · next hphase => simpa [hphase, Phase.current] using h.1.once
  · exact h.elim

theorem Inv.trying (h : Inv s) : Trying s := by
  intro item hphase
  simp only [Inv, hphase] at h
  exact h.2

theorem Inv.alive (h : Inv s) : s.phase ≠ .dead := by
  intro hphase
  simp only [Inv, hphase] at h

/-- **What the queue guarantees**, where no item expires, the attempts are taken for what they were,
messages of the protocol go out at the first attempt, and messages are texts. -/
theorem exact_of_run (hrun : Run Step initial evs s) (hproper : ProperRun evs) : Exact s := by
  have h := inv_of_run hrun hproper
  refine ⟨h.once, h.served.order, h.served.truth, h.served.single, ?_, ?_, ?_, ?_⟩
  · intro e he heffect item hitem hprotocol text htext
    obtain ⟨⟨channel, hchannel⟩, hstrip⟩ :=
      h.served.parsed e he heffect item hitem hprotocol text htext
    exact ⟨channel, text, hchannel, fun parse => ⟨rfl, by rw [hstrip]⟩⟩
  · intro hphase
    simp only [Inv, hphase] at h
    exact h.2
  · exact fun hidle => alive_of_phase hidle h.alive
  · intro evs' t hrun' hpumps
    exact (Nat.le_add_right _ _).trans (drains_of_trying h.trying hrun' hpumps)

end Runs

/-! ### Four runs -/

/-- `ProperRun`, step by step. -/
inductive Checked : Sys → List Event → Prop
  | nil (s : Sys) : Checked s []
  | cons {s t : Sys} {ev : Event} {evs : List Event} (hproper : ProperStep s ev)
      (hstep : Step s ev t) (h : Checked t evs) : Checked s (ev :: evs)

theorem properStep_of_checked {evs : List Event} {s : Sys} (h : Checked s evs)
    {pre : List Event} {ev : Event} {post : List Event} (heq : evs = pre ++ ev :: post) {m : Sys}
    (hrun : Run Step s pre m) : ProperStep m ev := by
  induction hrun generalizing evs with
  | nil s =>
    subst heq
    cases h with
    | cons hproper _ _ => exact hproper
  | cons hstep _ ih =>
    subst heq
    cases h with
    | cons _ hstep' h =>
      obtain rfl := Option.some.inj (hstep.symm.trans hstep')
      exact ih h rfl

theorem properRun_of_checked {evs : List Event} (h : Checked initial evs) : ProperRun evs :=
  fun _ _ _ heq _ hm => properStep_of_checked h heq hm

def sampleAction (kind : Kind) (text : Message) (ttl_ms : Int) : Action :=
  ⟨kind, some "kaspa:peer", ⟨text, none, some "88", none, false⟩, ttl_ms⟩

def sampleMoment (now : Int) : Moment := ⟨now, [], false⟩

def sent : Answer := .result none none (some "tx")

def timeout : Answer := .threw "Relay command timeout after 30s"

/-- A message of the protocol, and a transfer that succeeds at the second attempt. -/
def goodRun : List Event :=
  [.enqueue (sampleAction .accept_v1 (.text "{}".toList) TTL_DEFAULT_MS) 0,
    .enqueue (sampleAction .sendKas .absent TTL_DEFAULT_MS) 1, .relay_ready,
    .take (sampleMoment 2), .outcome true sent, .take (sampleMoment 3), .outcome false timeout,
    .retry (sampleMoment 4), .outcome true sent, .take (sampleMoment 5)]

theorem checked_goodRun : Checked initial goodRun := by
  refine .cons (fun _ text htext => ?_) rfl (.cons (fun h => absurd h (by decide)) rfl
    (.cons trivial rfl (.cons ?_ rfl (.cons ?_ rfl (.cons ?_ rfl (.cons ?_ rfl (.cons ?_ rfl
      (.cons ?_ rfl (.cons ?_ rfl (.nil _))))))))))
  · obtain rfl := Message.text.inj htext
    rfl
  · intro item hitem
    obtain rfl := Option.some.inj hitem
    decide
  · intro item c h
    obtain ⟨rfl, rfl⟩ := Phase.attempting.inj h
    exact ⟨rfl, fun _ _ => rfl⟩
  · intro item hitem
    obtain rfl := Option.some.inj hitem
    decide
  · intro item c h
    obtain ⟨rfl, rfl⟩ := Phase.attempting.inj h
    exact ⟨rfl, fun hprotocol => absurd hprotocol (by decide)⟩
  · intro item h
    obtain rfl := Phase.waiting.inj h
    intro hother
    cases hother
  · intro item c h
    obtain ⟨rfl, rfl⟩ := Phase.attempting.inj h
    exact ⟨rfl, fun hprotocol => absurd hprotocol (by decide)⟩
  · intro item hitem
    cases hitem

theorem exact_of_goodRun :
    ∃ s, Run Step initial goodRun s ∧ s.done = [⟨0, true⟩, ⟨1, true⟩] ∧ Exact s := by
  have hrun := @Run.of_foldlM _ _ step goodRun initial _ rfl
  exact ⟨_, hrun, rfl, exact_of_run hrun (properRun_of_checked checked_goodRun)⟩

/-- An item that expires. -/
def expiredRun : List Event :=
  [.enqueue (sampleAction .sendKas .absent 5) 0, .relay_ready, .take (sampleMoment 10),
    .take (sampleMoment 11)]

/-- A transfer that the relay sends without an answer. -/
def doubleRun : List Event :=
  [.enqueue (sampleAction .sendKas .absent TTL_DEFAULT_MS) 0, .relay_ready,
    .take (sampleMoment 1), .outcome true timeout, .retry (sampleMoment 2), .outcome true sent]

/-- A message of the protocol that goes out at the second attempt. -/
def taggedRun : List Event :=
  [.enqueue (sampleAction .paid_v1 (.text "{}".toList) TTL_DEFAULT_MS) 0, .relay_ready,
    .take (sampleMoment 1), .outcome false timeout, .retry (sampleMoment 2), .outcome true sent]

/-- **Three runs that are not exact**: an item that is never reported, a transfer that is made
twice, and a message that cannot be read. -/
theorem lost_doubled_and_tagged :
    (∃ s, Run Step initial expiredRun s ∧ ¬ Exact s) ∧
    (∃ s, Run Step initial doubleRun s ∧ ¬ Exact s) ∧
    (∃ s, Run Step initial taggedRun s ∧ ¬ Exact s) := by
  refine ⟨⟨_, @Run.of_foldlM _ _ step _ _ _ rfl, fun h => ?_⟩,
    ⟨_, @Run.of_foldlM _ _ step _ _ _ rfl, fun h => ?_⟩,
    ⟨_, @Run.of_foldlM _ _ step _ _ _ rfl, fun h => ?_⟩⟩
  · exact absurd h.once (by decide)
  · exact absurd (h.single 0) (by decide)
  · obtain ⟨channel, text, hcommand, hparse⟩ :=
      h.parsed _ (List.mem_cons_of_mem _ List.mem_cons_self) rfl _ rfl rfl _ rfl
    obtain ⟨-, htext⟩ := Command.broadcast.inj hcommand
    obtain rfl := Message.text.inj htext
    -- a parser that wants a brace at the end
    have hsome := congrArg Option.isSome
      (hparse fun t => if t.getLast? = some '}' then some .null else none).1
    exact absurd hsome (by decide)

end KANet.Trade.ActionQueue
