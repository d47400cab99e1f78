import KANet.Relay.Handshake

/-!
# A handshake is accepted once, and not lost

* `Safe` — of two addresses one acceptance goes out; until then the handshake has a row that a round
  can claim, or a call under way; and the relation follows its table.
* `Inv` — a row that is being executed has one call that holds it, or has been answered.
* `handshake_run` — runs in which it is so: every claim is answered, and what throws has not sent.
-/

namespace KANet.Relay.Handshake

open KANet.Lib

variable {myAddress : Addresses} {s : State} {x : Pair}

/-! ### What is to hold -/

/-- The call is past its claim. -/
def Call.Holds (c : Call) : Prop :=
  c.phase = .drafting ∨ c.phase = .sending ∨ c.phase = .reporting

/-- The call is under way, and started by a block or past its claim. -/
def Call.Busy (c : Call) : Prop := c.phase ≠ .over ∧ (c.catchUp = false ∨ c.Holds)

def Held (myAddress : Addresses) (s : State) (x : Pair) : Prop :=
  ∃ (i : ℕ) (c : Call), s.calls[i]? = some c ∧ c.Holds ∧ c.pair myAddress = x

def Busy (myAddress : Addresses) (s : State) (x : Pair) : Prop :=
  ∃ (i : ℕ) (c : Call), s.calls[i]? = some c ∧ c.Busy ∧ c.pair myAddress = x

/-- A round can claim the row of the pair, or it has been tried as often as may be; or a call is
under way. -/
def Kept (myAddress : Addresses) (s : State) (x : Pair) : Prop :=
  (∃ a, s.actions.get x = some a ∧ (a.status = .pending ∧ a.retry_count < max_retries ∨
    a.status = .expired ∧ max_retries ≤ a.retry_count)) ∨ Busy myAddress s x

def Change.Lawful (c : Change) : Prop :=
  match c.before with
  | none => c.after = .observed
  | some before => c.after = before ∨ c.after ∈ VALID_TRANSITIONS before

/-- **Accepted once, and not lost.** -/
structure Safe (myAddress : Addresses) (es : List Event) : Prop where
  once : (run myAddress es).sends.Nodup
  kept : ∀ x ∈ (run myAddress es).heard, x ∈ (run myAddress es).sends ∨
    Kept myAddress (run myAddress es) x
  lawful : ∀ c ∈ (run myAddress es).changes, c.Lawful
  accepted : ∀ c ∈ (run myAddress es).changes, c.after = .accepted →
    c.pair ∈ (run myAddress es).sends

/-! ### The condition -/

/-- Along the run:

* a claim that is executed is answered, and that of a live call is executed;
* a live call gets its payload, and sends it; a catch-up may fail, but then it throws, nothing has
  gone out, and its report arrives;
* no relay restarts while it answers a handshake that it has heard or claimed;
* a relation is unblocked when it is blocked. -/
def Fair (s : State) : Event → Prop
  | .claimBack i executed answered => ∀ c, s.calls[i]? = some c →
    (executed = true → answered = true) ∧ (c.catchUp = false → executed = true)
  | .draftBack i o => ∀ c, s.calls[i]? = some c →
    o = .payload ∨ o = .thrown ∧ c.catchUp = true
  | .sendBack i o => ∀ c, s.calls[i]? = some c →
    (∃ txid, o = .ok txid) ∨ o = .thrown false ∧ c.catchUp = true
  | .reportBack _ delivered => delivered = true
  | .restart r => ∀ c ∈ s.calls, c.relay = r → ¬ c.Busy
  | .unblockRelation x => ∀ r, s.relations.get x = some r →
    r.status = .blocked ∨ r.status = .observed
  | _ => True

/-! ### The invariant -/

def State.statusOf (s : State) (x : Pair) : Option ActionStatus :=
  (s.actions.get x).map Action.status

def State.Waiting (s : State) (x : Pair) : Prop :=
  s.statusOf x = some .pending ∨ s.statusOf x = some .expired

def Action.Retries (a : Action) : Prop :=
  (a.status = .pending → a.retry_count < max_retries) ∧
    (a.status = .expired → max_retries ≤ a.retry_count) ∧ a.status ≠ .failed

structure Inv (myAddress : Addresses) (s : State) : Prop where
  retries : ∀ x a, s.actions.get x = some a → a.Retries
  holds : ∀ (i : ℕ) (c : Call), s.calls[i]? = some c → c.Holds →
    c.pair myAddress ∉ s.sends ∧ s.statusOf (c.pair myAddress) = some .executing
  apart : ∀ (i j : ℕ) (c d : Call), s.calls[i]? = some c → s.calls[j]? = some d → c.Holds →
    d.Holds → c.pair myAddress = d.pair myAddress → i = j
  executing : ∀ x, s.statusOf x = some .executing → x ∈ s.sends ∨ Held myAddress s x
  done : ∀ x, s.statusOf x = some .done → x ∈ s.sends
  sent : ∀ x ∈ s.sends, s.statusOf x = some .executing ∨ s.statusOf x = some .done
  once : s.sends.Nodup
  outbound : ∀ x txid, .outbound x txid ∈ s.posts → x ∈ s.sends
  related : ∀ x r, s.relations.get x = some r →
    r.accepted_at = true ∨ r.status ≠ .observed ∧ r.status ≠ .blocked → x ∈ s.sends
  memory : ∀ r, ∀ p ∈ (s.relays r).handshakeAccepted, (myAddress r, p) ∈ s.sends
  heard : ∀ x ∈ s.heard, x ∈ s.sends ∨ s.Waiting x ∨ Busy myAddress s x
  lawful : ∀ c ∈ s.changes, c.Lawful
  accepted : ∀ c ∈ s.changes, c.after = .accepted → c.pair ∈ s.sends

/-! ### Calls -/

section Call

variable {i : ℕ} {c : Call} {q : Phase}

theorem Call.Holds.busy (h : c.Holds) : c.Busy := by
  refine ⟨fun hover => ?_, Or.inr h⟩
  unfold Call.Holds at h
  rw [hover] at h
  simp at h

theorem not_holds {p : Phase} (h : c.phase = p) (hp : p = .status ∨ p = .claiming ∨ p = .over) :
    ¬ c.Holds := by
  unfold Call.Holds
  rw [h]
  rcases hp with rfl | rfl | rfl <;> simp

theorem getElem?_setPhase (hc : s.calls[i]? = some c) {j : ℕ} {d : Call}
    (hd : (s.setPhase i q).calls[j]? = some d) :
    j = i ∧ d = { c with phase := q } ∨ j ≠ i ∧ s.calls[j]? = some d := by
  unfold State.setPhase at hd
  rw [List.getElem?_modify] at hd
  by_cases hj : i = j
  · subst hj
    rw [hc] at hd
    simp only [if_true, Option.map_eq_map, Option.map_some, Option.some.injEq] at hd
    exact Or.inl ⟨rfl, hd.symm⟩
  · simp only [if_neg hj, Option.map_eq_map, Option.map_id'] at hd
    exact Or.inr ⟨Ne.symm hj, hd⟩

theorem setPhase_self (hc : s.calls[i]? = some c) :
    (s.setPhase i q).calls[i]? = some { c with phase := q } := by
  unfold State.setPhase
  rw [List.getElem?_modify, hc]
  simp

theorem setPhase_of_ne {j : ℕ} (hj : j ≠ i) : (s.setPhase i q).calls[j]? = s.calls[j]? := by
  unfold State.setPhase
  rw [List.getElem?_modify]
  simp [Ne.symm hj]

/-- Another call goes on. -/
theorem Held.setPhase (h : Held myAddress s x) (hc : s.calls[i]? = some c)
    (hnot : c.Holds → c.pair myAddress ≠ x) : Held myAddress (s.setPhase i q) x := by
  obtain ⟨j, d, hj, hd, hpair⟩ := h
  refine ⟨j, d, (setPhase_of_ne fun hji => ?_).trans hj, hd, hpair⟩
  subst hji
  obtain rfl := Option.some.inj (hc.symm.trans hj)
  exact hnot hd hpair

theorem Busy.setPhase (h : Busy myAddress s x) (hc : s.calls[i]? = some c) :
    c.Busy ∧ c.pair myAddress = x ∨ Busy myAddress (s.setPhase i q) x := by
  obtain ⟨j, d, hj, hd, hpair⟩ := h
  by_cases hji : j = i
  · subst hji
    obtain rfl := Option.some.inj (hc.symm.trans hj)
    exact Or.inl ⟨hd, hpair⟩
  · exact Or.inr ⟨j, d, (setPhase_of_ne hji).trans hj, hd, hpair⟩

/-- A call goes on, past its claim as before. -/
theorem Inv.setPhase (h : Inv myAddress s) (hc : s.calls[i]? = some c)
    (hsame : Call.Holds { c with phase := q } ↔ c.Holds)
    (hkept : c.Busy → Call.Busy { c with phase := q } ∨ c.pair myAddress ∈ s.sends ∨
      s.Waiting (c.pair myAddress) ∨ Held myAddress s (c.pair myAddress)) :
    Inv myAddress (s.setPhase i q) := by
  -- who holds a row holds it still
  have hheld : ∀ x, Held myAddress s x → Held myAddress (s.setPhase i q) x := by
    rintro x ⟨j, d, hj, hd, hpair⟩
    by_cases hji : j = i
    · subst hji
      obtain rfl := Option.some.inj (hc.symm.trans hj)
      exact ⟨j, _, setPhase_self hc, hsame.mpr hd, hpair⟩
    · exact ⟨j, d, (setPhase_of_ne hji).trans hj, hd, hpair⟩
  have hold : ∀ {j : ℕ} {d : Call}, (s.setPhase i q).calls[j]? = some d → d.Holds →
      ∃ d' : Call, s.calls[j]? = some d' ∧ d'.Holds ∧ d'.pair myAddress = d.pair myAddress := by
    intro j d hj hd
    rcases getElem?_setPhase hc hj with ⟨rfl, rfl⟩ | ⟨-, hj⟩
    · exact ⟨c, hc, hsame.mp hd, rfl⟩
    · exact ⟨d, hj, hd, rfl⟩
  refine { h with holds := ?_, apart := ?_, executing := ?_, heard := ?_ }
  · intro j d hj hd
    obtain ⟨d', hj', hd', hpair⟩ := hold hj hd
    exact hpair ▸ h.holds j d' hj' hd'
  · intro j k d e hj hk hd he heq
    obtain ⟨d', hj', hd', hdp⟩ := hold hj hd
    obtain ⟨e', hk', he', hep⟩ := hold hk he
    exact h.apart j k d' e' hj' hk' hd' he' (hdp.trans (heq.trans hep.symm))
  · exact fun x hx => (h.executing x hx).imp_right (hheld x)
  · intro x hx
    rcases h.heard x hx with hsent | hwait | hbusy
    · exact Or.inl hsent
    · exact Or.inr (Or.inl hwait)
    · rcases hbusy.setPhase (q := q) hc with ⟨hcbusy, rfl⟩ | hbusy
      · rcases hkept hcbusy with hnew | hsent | hwait | hheld'
        · exact Or.inr (Or.inr ⟨i, _, setPhase_self hc, hnew, rfl⟩)
        · exact Or.inl hsent
        · exact Or.inr (Or.inl hwait)
        · obtain ⟨j, d, hj, hd, hpair⟩ := hheld _ hheld'
          exact Or.inr (Or.inr ⟨j, d, hj, hd.busy, hpair⟩)
      · exact Or.inr (Or.inr hbusy)

end Call

/-! ### Rows -/

section Row

variable {t : Table Action.pair} {a : Action} {txid : String}

theorem statusOf_congr {y : Pair} (h : t.get y = s.actions.get y) :
    State.statusOf { s with actions := t } y = s.statusOf y :=
  congrArg (Option.map Action.status) h

theorem statusOf_self (h : t.get x = some a) :
    State.statusOf { s with actions := t } x = some a.status :=
  congrArg (Option.map Action.status) h

/-- A row that nobody holds, and that is not done, can be claimed again. -/
theorem Inv.setRow (h : Inv myAddress s) (hother : ∀ y, y ≠ x → t.get y = s.actions.get y)
    (hx : t.get x = some a) (hretries : a.Retries) (hpending : a.status = .pending)
    (hfree : s.statusOf x ≠ some .executing ∧ s.statusOf x ≠ some .done) :
    Inv myAddress { s with actions := t } := by
  have hself : State.statusOf { s with actions := t } x = some .pending :=
    (statusOf_self hx).trans (congrArg some hpending)
  have hsame : ∀ y, y ≠ x → State.statusOf { s with actions := t } y = s.statusOf y :=
    fun y hy => statusOf_congr (hother y hy)
  have hold : ∀ y st, State.statusOf { s with actions := t } y = some st → st ≠ .pending →
      s.statusOf y = some st := by
    intro y st hy hst
    by_cases hyx : y = x
    · subst hyx
      exact absurd (Option.some.inj (hself.symm.trans hy)).symm hst
    · exact (hsame y hyx).symm.trans hy
  have hnew : ∀ y st, s.statusOf y = some st → st = .executing ∨ st = .done →
      State.statusOf { s with actions := t } y = some st := by
    intro y st hy hst
    refine (hsame y ?_).trans hy
    rintro rfl
    rcases hst with rfl | rfl
    · exact hfree.1 hy
    · exact hfree.2 hy
  refine { h with retries := ?_, holds := ?_, executing := ?_, done := ?_, sent := ?_, heard := ?_ }
  · intro y b hb
    by_cases hyx : y = x
    · subst hyx
      obtain rfl := Option.some.inj (hx.symm.trans hb)
      exact hretries
    · exact h.retries y b ((hother y hyx).symm.trans hb)
  · intro i c hc hholds
    obtain ⟨hunsent, hexec⟩ := h.holds i c hc hholds
    exact ⟨hunsent, hnew _ _ hexec (Or.inl rfl)⟩
  · exact fun y hy => h.executing y (hold y _ hy (by decide))
  · exact fun y hy => h.done y (hold y _ hy (by decide))
  · intro y hy
    exact (h.sent y hy).imp (fun hst => hnew y _ hst (Or.inl rfl))
      fun hst => hnew y _ hst (Or.inr rfl)
  · intro y hy
    rcases h.heard y hy with hsent | hwait | hbusy
    · exact Or.inl hsent
    · refine Or.inr (Or.inl ?_)
      by_cases hyx : y = x
      · exact Or.inl (hyx ▸ hself)
      · exact hwait.imp (hsame y hyx).trans (hsame y hyx).trans
    · exact Or.inr (Or.inr hbusy)

theorem newAction_retries (x : Pair) (txid : String) : (newAction x txid).Retries :=
  ⟨fun _ => Nat.zero_lt_succ _, nofun, nofun⟩

theorem not_busy_of_none (h : s.actions.get x = none) :
    s.statusOf x ≠ some .executing ∧ s.statusOf x ≠ some .done := by
  unfold State.statusOf
  rw [h]
  exact ⟨nofun, nofun⟩

/-- A row is there. -/
theorem Inv.insert (h : Inv myAddress s) (x : Pair) (txid : String) :
    Inv myAddress
      { s with actions := (s.actions.insert (newAction x txid)).getD s.actions } := by
  cases hget : s.actions.get x with
  | none =>
    refine h.setRow (x := x) (a := newAction x txid) (fun y hy => ?_) ?_ (newAction_retries x txid)
      rfl (not_busy_of_none hget)
    · rw [Table.get_insert_getD]
      exact if_neg fun heq => hy heq.symm
    · rw [Table.get_insert_getD, hget]
      exact if_pos rfl
  | some a =>
    have hins : s.actions.insert (newAction x txid) = none :=
      Table.insert_eq_none.mpr (Option.isSome_iff_exists.mpr ⟨a, hget⟩)
    rw [hins]
    exact h

theorem statusOf_insert (s : State) (x : Pair) (txid : String) :
    State.statusOf { s with actions := (s.actions.insert (newAction x txid)).getD s.actions } x ≠
      none := by
  unfold State.statusOf
  dsimp only
  rw [Table.get_insert_getD]
  simp [newAction]

theorem statusOf_eq_some {st : ActionStatus} :
    s.statusOf x = some st ↔ ∃ a, s.actions.get x = some a ∧ a.status = st :=
  Option.map_eq_some_iff

theorem pending_iff : (s.actions.get x).any (fun a => a.status = .pending) = true ↔
    s.statusOf x = some .pending := by
  rw [Option.any_eq_true, statusOf_eq_some]
  simp

/-- A claim that is granted. -/
theorem claimPendingAction_granted (h : (claimPendingAction s x).2 = true) :
    s.statusOf x = some .pending ∧ ∃ t a, (claimPendingAction s x).1 = { s with actions := t } ∧
      t.get x = some a ∧ a.status = .executing ∧ ∀ y, y ≠ x → t.get y = s.actions.get y := by
  unfold claimPendingAction at h ⊢
  split at h
  · next hany =>
    rw [if_pos hany]
    have hpending := pending_iff.mp hany
    obtain ⟨a, ha, hst⟩ := statusOf_eq_some.mp hpending
    have hget := Table.get_updateWhere_key s.actions
      (p := fun a => a.pair = x ∧ a.status = .pending)
      (fun a => { a with status := .executing }) (fun _ => rfl) (k := x)
      fun b hb => (of_decide_eq_true hb).1
    refine ⟨hpending, _, { a with status := .executing }, rfl, ?_, rfl, fun y hy => ?_⟩
    · rw [hget, if_pos rfl, ha, Option.map_some,
        if_pos (decide_eq_true ⟨Table.key_of_get ha, hst⟩)]
    · rw [hget, if_neg hy]
  · cases h

theorem claimPendingAction_refused (h : (claimPendingAction s x).2 = false) :
    (claimPendingAction s x).1 = s ∧ s.statusOf x ≠ some .pending := by
  unfold claimPendingAction at h ⊢
  split at h
  · cases h
  · next hany =>
    rw [if_neg hany]
    exact ⟨rfl, fun hpending => hany (pending_iff.mpr hpending)⟩

theorem Inv.not_failed (h : Inv myAddress s) (x : Pair) : s.statusOf x ≠ some .failed := by
  intro hst
  obtain ⟨a, ha, hfailed⟩ := statusOf_eq_some.mp hst
  exact (h.retries x a ha).2.2 hfailed

/-- A row that is there and cannot be claimed is answered, used up, or held. -/
theorem Inv.refused (h : Inv myAddress s) (hrow : s.statusOf x ≠ none)
    (hpending : s.statusOf x ≠ some .pending) :
    x ∈ s.sends ∨ s.Waiting x ∨ Held myAddress s x := by
  cases hst : s.statusOf x with
  | none => exact absurd hst hrow
  | some st =>
    cases st with
    | pending => exact absurd hst hpending
    | executing => exact (h.executing x hst).imp_right Or.inr
    | failed => exact absurd hst (h.not_failed x)
    | expired => exact Or.inr (Or.inl (Or.inr hst))
    | done => exact Or.inl (h.done x hst)

end Row

/-! ### A claim -/

section Claim

variable {i : ℕ} {c : Call}

/-- A call takes a row that can be claimed. -/
theorem Inv.take (h : Inv myAddress s) (hc : s.calls[i]? = some c) (hnot : ¬ c.Holds)
    {t : Table Action.pair} {a : Action} (hx : t.get (c.pair myAddress) = some a)
    (hexec : a.status = .executing)
    (hother : ∀ y, y ≠ c.pair myAddress → t.get y = s.actions.get y)
    (hpending : s.statusOf (c.pair myAddress) = some .pending) :
    Inv myAddress (({ s with actions := t } : State).setPhase i .drafting) := by
  have hc' : ({ s with actions := t } : State).calls[i]? = some c := hc
  have hself : State.statusOf { s with actions := t } (c.pair myAddress) = some .executing :=
    (statusOf_self hx).trans (congrArg some hexec)
  have hsame : ∀ y, y ≠ c.pair myAddress →
      State.statusOf { s with actions := t } y = s.statusOf y :=
    fun y hy => statusOf_congr (hother y hy)
  -- what is being executed, or done, is another row
  have hne : ∀ y st, s.statusOf y = some st → st = .executing ∨ st = .done →
      y ≠ c.pair myAddress := by
    rintro y st hy hst rfl
    rw [hpending] at hy
    obtain rfl := Option.some.inj hy
    rcases hst with hst | hst <;> cases hst
  have hcalls : ∀ {j : ℕ} {d : Call},
      (({ s with actions := t } : State).setPhase i .drafting).calls[j]? = some d → d.Holds →
      j = i ∧ d.pair myAddress = c.pair myAddress ∨
        j ≠ i ∧ s.calls[j]? = some d ∧ d.pair myAddress ≠ c.pair myAddress := by
    intro j d hj hd
    rcases getElem?_setPhase hc' hj with ⟨rfl, rfl⟩ | ⟨hji, hj⟩
    · exact Or.inl ⟨rfl, rfl⟩
    · exact Or.inr ⟨hji, hj, hne _ _ (h.holds j d hj hd).2 (Or.inl rfl)⟩
  have hmine : Held myAddress (({ s with actions := t } : State).setPhase i .drafting)
      (c.pair myAddress) := ⟨i, _, setPhase_self hc', Or.inl rfl, rfl⟩
  refine { h with retries := ?_, holds := ?_, apart := ?_, executing := ?_, done := ?_,
                  sent := ?_, heard := ?_ }
  · intro y b hb
    by_cases hyx : y = c.pair myAddress
    · subst hyx
      obtain rfl := Option.some.inj (hx.symm.trans hb)
      unfold Action.Retries
      rw [hexec]
      exact ⟨nofun, nofun, nofun⟩
    · exact h.retries y b ((hother y hyx).symm.trans hb)
  · intro j d hj hd
    rcases hcalls hj hd with ⟨-, hpair⟩ | ⟨-, hj, hpair⟩
    · rw [hpair]
      refine ⟨fun hsent => ?_, hself⟩
      rcases h.sent _ hsent with hst | hst
      · exact hne _ _ hst (Or.inl rfl) rfl
      · exact hne _ _ hst (Or.inr rfl) rfl
    · obtain ⟨hunsent, hst⟩ := h.holds j d hj hd
      exact ⟨hunsent, (hsame _ hpair).trans hst⟩
  · intro j k d e hj hk hd he heq
    rcases hcalls hj hd with ⟨rfl, hdp⟩ | ⟨-, hj, hdp⟩ <;>
      rcases hcalls hk he with ⟨rfl, hep⟩ | ⟨-, hk, hep⟩
    · rfl
    · exact absurd (heq.symm.trans hdp) hep
    · exact absurd (heq.trans hep) hdp
    · exact h.apart j k d e hj hk hd he heq
  · intro y hy
    by_cases hyx : y = c.pair myAddress
    · exact Or.inr (hyx ▸ hmine)
    · refine (h.executing y ((hsame y hyx).symm.trans hy)).imp_right fun hheld => ?_
      exact Held.setPhase (s := { s with actions := t }) hheld hc'
        fun hcholds => absurd hcholds hnot
  · intro y hy
    by_cases hyx : y = c.pair myAddress
    · subst hyx
      cases hself.symm.trans hy
    · exact h.done y ((hsame y hyx).symm.trans hy)
  · intro y hy
    rcases h.sent y hy with hst | hst
    · exact Or.inl ((hsame y (hne y _ hst (Or.inl rfl))).trans hst)
    · exact Or.inr ((hsame y (hne y _ hst (Or.inr rfl))).trans hst)
  · intro y hy
    by_cases hyx : y = c.pair myAddress
    · obtain ⟨j, d, hj, hd, hpair⟩ := hmine
      exact Or.inr (Or.inr ⟨j, d, hj, hd.busy, hpair.trans hyx.symm⟩)
    · rcases h.heard y hy with hsent | hwait | hbusy
      · exact Or.inl hsent
      · exact Or.inr (Or.inl (hwait.imp (hsame y hyx).trans (hsame y hyx).trans))
      · rcases Busy.setPhase (s := { s with actions := t }) (q := .drafting) hbusy hc' with
          ⟨-, hpair⟩ | hbusy
        · exact absurd hpair.symm hyx
        · exact Or.inr (Or.inr hbusy)

theorem Inv.over (h : Inv myAddress s) (hc : s.calls[i]? = some c) (hnot : ¬ c.Holds)
    (hkept : c.catchUp = false → c.pair myAddress ∈ s.sends ∨ s.Waiting (c.pair myAddress) ∨
      Held myAddress s (c.pair myAddress)) : Inv myAddress (s.setPhase i .over) := by
  refine h.setPhase hc ⟨fun hover => ?_, fun hholds => absurd hholds hnot⟩ fun hbusy => Or.inr ?_
  · exact absurd hover (not_holds rfl (Or.inr (Or.inr rfl)))
  · exact hkept (hbusy.2.resolve_right hnot)

/-- A claim that is executed and answered. -/
theorem Inv.claim (h : Inv myAddress s) (hc : s.calls[i]? = some c) (hnot : ¬ c.Holds)
    (hrow : c.catchUp = false → s.statusOf (c.pair myAddress) ≠ none) :
    Inv myAddress ((claimPendingAction s (c.pair myAddress)).1.setPhase i
      (if (claimPendingAction s (c.pair myAddress)).2 = true then .drafting else .over)) := by
  split
  · next hgranted =>
    obtain ⟨hpending, t, a, heq, hx, hexec, hother⟩ := claimPendingAction_granted hgranted
    rw [heq]
    exact h.take hc hnot hx hexec hother hpending
  · next hrefused =>
    obtain ⟨heq, hpending⟩ := claimPendingAction_refused (Bool.eq_false_iff.mpr hrefused)
    rw [heq]
    exact h.over hc hnot fun hlive => h.refused (hrow hlive) hpending

theorem Inv.already (h : Inv myAddress s) (hx : s.already x = true) : x ∈ s.sends := by
  unfold State.already at hx
  rw [Option.any_eq_true] at hx
  obtain ⟨r, hr, hst⟩ := hx
  refine h.related x r hr ((of_decide_eq_true hst).imp_right fun hmem => ?_)
  constructor <;> (rintro heq; rw [heq] at hmem; simp at hmem)

theorem Inv.claimBack (h : Inv myAddress s) {executed answered : Bool}
    (hfair : Fair s (.claimBack i executed answered)) :
    Inv myAddress (claimBack myAddress s i executed answered) := by
  unfold Handshake.claimBack
  split
  · exact h
  · next c hc =>
    split
    · next hphase =>
      have hnot : ¬ c.Holds := not_holds hphase (Or.inr (Or.inl rfl))
      obtain ⟨hanswered, hexecuted⟩ := hfair c hc
      split
      · next hcatch =>
        have hlive : c.catchUp ≠ false := by
          rw [hcatch]
          exact nofun
        split
        · exact h.over hc hnot fun hno => absurd hno hlive
        · cases executed with
          | false => simpa using h.over hc hnot fun hno => absurd hno hlive
          | true =>
            obtain rfl := hanswered rfl
            simpa using h.claim hc hnot fun hno => absurd hno hlive
      · next hcatch =>
        have hlive : c.catchUp = false := Bool.eq_false_iff.mpr hcatch
        obtain rfl := hexecuted hlive
        obtain rfl := hanswered rfl
        dsimp only
        rw [if_pos rfl]
        unfold createAndClaim
        split
        · next hal =>
          simpa using h.over hc hnot fun _ => Or.inl (h.already hal)
        · have hclaim := (h.insert (c.pair myAddress) c.txid).claim (i := i) (c := c) hc hnot
            fun _ => statusOf_insert s _ _
          split at hclaim
          · next hgranted => simpa [hgranted] using hclaim
          · next hrefused => simpa [hrefused] using hclaim
    · exact h

end Claim

/-! ### After the claim -/

section Answer

variable {i : ℕ} {c : Call}

/-- No other call holds the row. -/
theorem Inv.only (h : Inv myAddress s) (hc : s.calls[i]? = some c) (hholds : c.Holds) {j : ℕ}
    {d : Call} (hj : s.calls[j]? = some d) (hd : d.Holds) (hji : j ≠ i) :
    d.pair myAddress ≠ c.pair myAddress :=
  fun heq => hji (h.apart j i d c hj hc hd hholds heq)

/-- A call lets its row go, which can be claimed again or has been tried often enough. -/
theorem Inv.release (h : Inv myAddress s) (hc : s.calls[i]? = some c) (hholds : c.Holds)
    {t : Table Action.pair} {a : Action} (hx : t.get (c.pair myAddress) = some a)
    (hretries : a.Retries) (hst : a.status = .pending ∨ a.status = .expired)
    (hother : ∀ y, y ≠ c.pair myAddress → t.get y = s.actions.get y) :
    Inv myAddress (({ s with actions := t } : State).setPhase i .over) := by
  have hc' : ({ s with actions := t } : State).calls[i]? = some c := hc
  have hself := statusOf_self (s := s) hx
  have hwaiting : State.Waiting { s with actions := t } (c.pair myAddress) := by
    unfold State.Waiting
    rw [hself]
    exact hst.imp (congrArg some) (congrArg some)
  have hsame : ∀ y, y ≠ c.pair myAddress →
      State.statusOf { s with actions := t } y = s.statusOf y :=
    fun y hy => statusOf_congr (hother y hy)
  have hcalls : ∀ {j : ℕ} {d : Call},
      (({ s with actions := t } : State).setPhase i .over).calls[j]? = some d → d.Holds →
      s.calls[j]? = some d ∧ d.pair myAddress ≠ c.pair myAddress := by
    intro j d hj hd
    rcases getElem?_setPhase hc' hj with ⟨rfl, rfl⟩ | ⟨hji, hj⟩
    · exact absurd hd (not_holds rfl (Or.inr (Or.inr rfl)))
    · exact ⟨hj, h.only hc hholds hj hd hji⟩
  have hunsent := (h.holds i c hc hholds).1
  refine { h with retries := ?_, holds := ?_, apart := ?_, executing := ?_, done := ?_,
                  sent := ?_, heard := ?_ }
  · intro y b hb
    by_cases hyx : y = c.pair myAddress
    · subst hyx
      obtain rfl := Option.some.inj (hx.symm.trans hb)
      exact hretries
    · exact h.retries y b ((hother y hyx).symm.trans hb)
  · intro j d hj hd
    obtain ⟨hj, hpair⟩ := hcalls hj hd
    exact ⟨(h.holds j d hj hd).1, (hsame _ hpair).trans (h.holds j d hj hd).2⟩
  · intro j k d e hj hk hd he
    exact h.apart j k d e (hcalls hj hd).1 (hcalls hk he).1 hd he
  · intro y hy
    have hyx : y ≠ c.pair myAddress := by
      rintro rfl
      have hexec := Option.some.inj (hself.symm.trans hy)
      rcases hst with hst | hst <;> cases hst.symm.trans hexec
    refine (h.executing y ((hsame y hyx).symm.trans hy)).imp_right fun hheld => ?_
    exact Held.setPhase (s := { s with actions := t }) hheld hc' fun _ heq => hyx heq.symm
  · intro y hy
    by_cases hyx : y = c.pair myAddress
    · subst hyx
      have hdone := Option.some.inj (hself.symm.trans hy)
      rcases hst with hst | hst <;> cases hst.symm.trans hdone
    · exact h.done y ((hsame y hyx).symm.trans hy)
  · intro y hy
    have hyx : y ≠ c.pair myAddress := fun heq => hunsent (heq ▸ hy)
    exact (h.sent y hy).imp (hsame y hyx).trans (hsame y hyx).trans
  · intro y hy
    by_cases hyx : y = c.pair myAddress
    · exact Or.inr (Or.inl (hyx ▸ hwaiting))
    · rcases h.heard y hy with hsent | hwait | hbusy
      · exact Or.inl hsent
      · exact Or.inr (Or.inl (hwait.imp (hsame y hyx).trans (hsame y hyx).trans))
      · rcases Busy.setPhase (s := { s with actions := t }) (q := .over) hbusy hc' with
          ⟨-, hpair⟩ | hbusy
        · exact absurd hpair.symm hyx
        · exact Or.inr (Or.inr hbusy)

/-- The acceptance goes out. -/
theorem Inv.sendOver (h : Inv myAddress s) (hc : s.calls[i]? = some c) (hholds : c.Holds) :
    Inv myAddress ((s.send (c.pair myAddress)).setPhase i .over) := by
  have hc' : (s.send (c.pair myAddress)).calls[i]? = some c := hc
  obtain ⟨hunsent, hexec⟩ := h.holds i c hc hholds
  have hmono : ∀ y ∈ s.sends, y ∈ (s.send (c.pair myAddress)).sends :=
    fun y hy => List.mem_append_left _ hy
  have hmine : c.pair myAddress ∈ (s.send (c.pair myAddress)).sends :=
    List.mem_append_right _ List.mem_cons_self
  have hcalls : ∀ {j : ℕ} {d : Call},
      ((s.send (c.pair myAddress)).setPhase i .over).calls[j]? = some d → d.Holds →
      s.calls[j]? = some d ∧ d.pair myAddress ≠ c.pair myAddress := by
    intro j d hj hd
    rcases getElem?_setPhase hc' hj with ⟨rfl, rfl⟩ | ⟨hji, hj⟩
    · exact absurd hd (not_holds rfl (Or.inr (Or.inr rfl)))
    · exact ⟨hj, h.only hc hholds hj hd hji⟩
  refine
    { h with
      holds := ?_, apart := ?_, executing := ?_, sent := ?_, once := ?_, heard := ?_
      done := fun y hy => hmono y (h.done y hy)
      outbound := fun y txid hy => hmono y (h.outbound y txid hy)
      related := fun y r hr hst => hmono y (h.related y r hr hst)
      memory := fun r p hp => hmono _ (h.memory r p hp)
      accepted := fun ch hch hst => hmono _ (h.accepted ch hch hst) }
  · intro j d hj hd
    obtain ⟨hj, hpair⟩ := hcalls hj hd
    refine ⟨fun hsent => ?_, (h.holds j d hj hd).2⟩
    rcases List.mem_append.mp hsent with hsent | hsent
    · exact (h.holds j d hj hd).1 hsent
    · exact hpair (List.mem_singleton.mp hsent)
  · intro j k d e hj hk hd he
    exact h.apart j k d e (hcalls hj hd).1 (hcalls hk he).1 hd he
  · intro y hy
    by_cases hyx : y = c.pair myAddress
    · exact Or.inl (hyx ▸ hmine)
    · refine (h.executing y hy).imp (hmono y) fun hheld => ?_
      exact Held.setPhase (s := s.send (c.pair myAddress)) hheld hc' fun _ heq => hyx heq.symm
  · intro y hy
    rcases List.mem_append.mp hy with hy | hy
    · exact h.sent y hy
    · rw [List.mem_singleton.mp hy]
      exact Or.inl hexec
  · refine List.nodup_append.mpr ⟨h.once, List.nodup_singleton _, fun y hy z hz => ?_⟩
    rw [List.mem_singleton.mp hz]
    exact fun heq => hunsent (heq ▸ hy)
  · intro y hy
    rcases h.heard y hy with hsent | hwait | hbusy
    · exact Or.inl (hmono y hsent)
    · exact Or.inr (Or.inl hwait)
    · rcases Busy.setPhase (s := s.send (c.pair myAddress)) (q := .over) hbusy hc' with
        ⟨-, rfl⟩ | hbusy
      · exact Or.inl hmine
      · exact Or.inr (Or.inr hbusy)

theorem Inv.post (h : Inv myAddress s) {p : Post}
    (hp : ∀ y txid, p = .outbound y txid → y ∈ s.sends) : Inv myAddress (s.post p) := by
  refine { h with outbound := fun y txid hy => ?_ }
  rcases List.mem_append.mp hy with hy | hy
  · exact h.outbound y txid hy
  · exact hp y txid (List.mem_singleton.mp hy).symm

theorem Inv.setRelay (h : Inv myAddress s) {r : ℕ} {f : Memory → Memory}
    (hf : ∀ p ∈ (f (s.relays r)).handshakeAccepted,
      p ∈ (s.relays r).handshakeAccepted ∨ (myAddress r, p) ∈ s.sends) :
    Inv myAddress (s.setRelay r f) := by
  refine { h with memory := fun r' p hp => ?_ }
  unfold State.setRelay at hp
  dsimp only at hp
  split at hp
  · next hr =>
    subst hr
    exact (hf p hp).elim (h.memory r' p) id
  · exact h.memory r' p hp

/-- A call goes on to another wait after its claim. -/
theorem Inv.goOn (h : Inv myAddress s) (hc : s.calls[i]? = some c) (hholds : c.Holds) {q : Phase}
    (hq : q = .sending ∨ q = .reporting) : Inv myAddress (s.setPhase i q) := by
  have hnew : Call.Holds { c with phase := q } := Or.inr hq
  exact h.setPhase hc ⟨fun _ => hholds, fun _ => hnew⟩ fun _ => Or.inl hnew.busy

theorem Inv.draftBack (h : Inv myAddress s) {o : Draft} (hfair : Fair s (.draftBack i o)) :
    Inv myAddress (draftBack s i o) := by
  unfold Handshake.draftBack
  split
  · exact h
  · next c hc =>
    split
    · next hphase =>
      have hholds : c.Holds := Or.inl hphase
      rcases hfair c hc with rfl | ⟨rfl, hcatch⟩
      · exact h.goOn hc hholds (Or.inl rfl)
      · dsimp only
        unfold State.throws
        rw [if_pos hcatch]
        exact h.goOn hc hholds (Or.inr rfl)
    · exact h

theorem Inv.sendBack (h : Inv myAddress s) {o : Sent} (hfair : Fair s (.sendBack i o)) :
    Inv myAddress (sendBack myAddress s i o) := by
  unfold Handshake.sendBack
  split
  · exact h
  · next c hc =>
    split
    · next hphase =>
      have hholds : c.Holds := Or.inr (Or.inl hphase)
      rcases hfair c hc with ⟨txid, rfl⟩ | ⟨rfl, hcatch⟩
      · have hmine : c.pair myAddress ∈ s.sends ++ [c.pair myAddress] :=
          List.mem_append_right _ List.mem_cons_self
        have hposted : Inv myAddress (((s.send (c.pair myAddress)).setPhase i .over).post
            (.outbound (c.pair myAddress) txid)) := by
          refine (h.sendOver hc hholds).post fun y tx heq => ?_
          obtain ⟨rfl, -⟩ := Post.outbound.inj heq
          exact hmine
        refine hposted.setRelay (r := c.relay)
          (f := fun x => (if c.catchUp then x else x.accept c.peer).markSeen c.txid) fun p hp => ?_
        cases hcatch : c.catchUp with
        | true =>
          rw [hcatch] at hp
          exact Or.inl hp
        | false =>
          rw [hcatch] at hp
          rcases List.mem_cons.mp hp with rfl | hp
          · exact Or.inr hmine
          · exact Or.inl hp
      · dsimp only
        unfold State.throws
        rw [if_pos hcatch, if_neg Bool.false_ne_true]
        exact h.goOn hc hholds (Or.inr rfl)
    · exact h

theorem Action.retry_retries (a : Action) : a.retry.Retries := by
  unfold Action.Retries Action.retry
  by_cases hmax : max_retries ≤ a.retry_count + 1
  · simp [hmax]
  · simp [hmax, Nat.not_le.mp hmax]

theorem failPendingAction_get (hx : s.statusOf x = some .executing) :
    ∃ t a, failPendingAction s x = { s with actions := t } ∧ t.get x = some a ∧ a.Retries ∧
      (a.status = .pending ∨ a.status = .expired) ∧ ∀ y, y ≠ x → t.get y = s.actions.get y := by
  obtain ⟨a, ha, -⟩ := statusOf_eq_some.mp hx
  have hget := Table.get_updateWhere_key s.actions (p := fun a => a.pair = x) Action.retry
    (fun _ => rfl) (k := x) fun b hb => of_decide_eq_true hb
  refine ⟨_, a.retry, rfl, ?_, a.retry_retries, ?_, fun y hy => ?_⟩
  · rw [hget, if_pos rfl, ha, Option.map_some, if_pos (decide_eq_true (Table.key_of_get ha))]
  · unfold Action.retry
    dsimp only
    split
    · exact Or.inr rfl
    · exact Or.inl rfl
  · rw [hget, if_neg hy]

theorem Inv.reportBack (h : Inv myAddress s) {delivered : Bool}
    (hfair : Fair s (.reportBack i delivered)) :
    Inv myAddress (reportBack myAddress s i delivered) := by
  obtain rfl : delivered = true := hfair
  unfold Handshake.reportBack
  split
  · exact h
  · next c hc =>
    split
    · next hphase =>
      have hholds : c.Holds := Or.inr (Or.inr hphase)
      obtain ⟨t, a, heq, hx, hretries, hst, hother⟩ :=
        failPendingAction_get (h.holds i c hc hholds).2
      rw [if_pos rfl, heq]
      exact h.release hc hholds hx hretries hst hother
    · exact h

theorem Inv.statusBack (h : Inv myAddress s) (i : ℕ) (ok : Bool) :
    Inv myAddress (statusBack myAddress s i ok) := by
  unfold Handshake.statusBack
  split
  · exact h
  · next c hc =>
    split
    · next hphase =>
      have hnot : ¬ c.Holds := not_holds hphase (Or.inl rfl)
      split
      · next hok =>
        have hsent : c.pair myAddress ∈ s.sends := by
          obtain ⟨r, hr, hst⟩ := (Option.any_eq_true _ _).mp hok.2
          refine h.related _ r hr (Or.inr ?_)
          have hmem := of_decide_eq_true hst
          constructor <;> (rintro heq; rw [heq] at hmem; simp at hmem)
        refine (h.setRelay fun p hp => ?_).over hc hnot fun _ => Or.inl hsent
        rcases List.mem_cons.mp hp with rfl | hp
        · exact Or.inr hsent
        · exact Or.inl hp
      · refine (h.post fun y txid heq => by cases heq).setPhase hc
          ⟨fun hclaims => ?_, fun hholds => absurd hholds hnot⟩ fun hbusy => Or.inl ⟨?_, ?_⟩
        · exact absurd hclaims (not_holds rfl (Or.inr (Or.inl rfl)))
        · intro hverify
          cases hverify
        · exact Or.inl (hbusy.2.resolve_right hnot)
    · exact h

end Answer

/-! ### Relations -/

theorem Inv.setStatus (h : Inv myAddress s) {r : Relation} (hr : s.relations.get x = some r)
    {status : Status} {accepted : Bool}
    (hlawful : status = r.status ∨ status ∈ VALID_TRANSITIONS r.status)
    (hsent : accepted = true ∨ status ≠ .observed ∧ status ≠ .blocked → x ∈ s.sends) :
    Inv myAddress (s.setStatus x r.status status accepted) := by
  refine { h with related := ?_, lawful := ?_, accepted := ?_ }
  · intro y b hb hst
    unfold State.setStatus at hb
    dsimp only at hb
    rw [Table.get_updateWhere_key s.relations _ _ fun b hb => of_decide_eq_true hb] at hb
    split at hb
    · next hy =>
      subst hy
      rw [hr, Option.map_some, if_pos (decide_eq_true (Table.key_of_get hr))] at hb
      obtain rfl := Option.some.inj hb
      rcases hst with hacc | hst
      · rcases Bool.or_eq_true_iff.mp hacc with hacc | hacc
        · exact hsent (Or.inl hacc)
        · exact h.related y r hr (Or.inl hacc)
      · exact hsent (Or.inr hst)
    · exact h.related y b hb hst
  · intro c hc
    rcases List.mem_append.mp hc with hc | hc
    · exact h.lawful c hc
    · rw [List.mem_singleton.mp hc]
      exact hlawful
  · intro c hc hst
    rcases List.mem_append.mp hc with hc | hc
    · exact h.accepted c hc hst
    · rw [List.mem_singleton.mp hc] at hst ⊢
      refine hsent (Or.inr ?_)
      dsimp only at hst
      rw [hst]
      decide

theorem Inv.observeHandshake (h : Inv myAddress s) (x : Pair) :
    Inv myAddress (observeHandshake s x) := by
  unfold Handshake.observeHandshake
  split
  · next r hr =>
    split
    · exact h
    · next hst =>
      refine h.setStatus hr ?_ fun hno => ?_
      · rw [not_and_or, not_not, not_not] at hst
        rcases hst with hst | hst
        · exact Or.inl hst.symm
        · rw [hst]
          exact Or.inr (by decide)
      · rcases hno with hno | ⟨hno, -⟩
        · cases hno
        · exact absurd rfl hno
  · next hnone =>
    refine { h with related := ?_, lawful := ?_, accepted := ?_ }
    · intro y r hr hst
      dsimp only at hr
      rw [Table.get_insert_getD] at hr
      split at hr
      · next hx =>
        dsimp only at hx
        subst hx
        rw [hnone] at hr
        obtain rfl := Option.some.inj hr
        rcases hst with hst | ⟨hst, -⟩
        · cases hst
        · exact absurd rfl hst
      · exact h.related y r hr hst
    · intro c hc
      rcases List.mem_append.mp hc with hc | hc
      · exact h.lawful c hc
      · rw [List.mem_singleton.mp hc]
        exact rfl
    · intro c hc hst
      rcases List.mem_append.mp hc with hc | hc
      · exact h.accepted c hc hst
      · rw [List.mem_singleton.mp hc] at hst
        cases hst

theorem Inv.advance (h : Inv myAddress s) {newStatus : Status} {accepted force : Bool}
    (hforce : force = true → ∀ r, s.relations.get x = some r →
      newStatus = r.status ∨ newStatus ∈ VALID_TRANSITIONS r.status)
    (hsent : ∀ r, s.relations.get x = some r →
      newStatus = r.status ∨ newStatus ∈ VALID_TRANSITIONS r.status →
      accepted = true ∨ newStatus ≠ .observed ∧ newStatus ≠ .blocked → x ∈ s.sends) :
    Inv myAddress (advance s x newStatus accepted force).1 := by
  unfold Handshake.advance
  split
  · exact h
  · next r hr =>
    split
    · exact h
    · next hgo =>
      have hlawful : newStatus = r.status ∨ newStatus ∈ VALID_TRANSITIONS r.status := by
        rw [not_and_or, not_not, not_not] at hgo
        exact hgo.elim (hforce · r hr) Or.inr
      exact h.setStatus hr hlawful (hsent r hr hlawful)

theorem Inv.acceptHandshake (h : Inv myAddress s) (hx : x ∈ s.sends) :
    Inv myAddress (acceptHandshake s x) := by
  unfold Handshake.acceptHandshake
  have hfirst : Inv myAddress (Handshake.advance s x .accepted true false).1 :=
    h.advance nofun fun _ _ _ _ => hx
  dsimp only
  split
  · exact hfirst
  · next hnone =>
    have hstate : (Handshake.advance s x .accepted true false).1 = s := by
      unfold Handshake.advance at hnone ⊢
      split
      · rfl
      · next r hr =>
        rw [hr] at hnone
        dsimp only at hnone
        split at hnone <;> exact absurd rfl hnone
    rw [hstate]
    refine (h.observeHandshake x).advance nofun fun _ _ _ _ => ?_
    unfold Handshake.observeHandshake
    split
    · split
      · exact hx
      · exact hx
    · exact hx

/-! ### Posts -/

/-- The row of what has been answered is done. -/
theorem Inv.complete (h : Inv myAddress s) (hx : x ∈ s.sends) :
    Inv myAddress (Handshake.complete s x) := by
  have hget := Table.get_updateWhere_key s.actions
    (p := fun a => a.pair = x ∧ (a.status = .pending ∨ a.status = .executing))
    (fun a => { a with status := .done }) (fun _ => rfl) (k := x)
    fun b hb => (of_decide_eq_true hb).1
  have hsame : ∀ y, y ≠ x → (Handshake.complete s x).statusOf y = s.statusOf y := fun y hy =>
    statusOf_congr ((hget y).trans (if_neg hy))
  have hself : (Handshake.complete s x).statusOf x = some .done := by
    obtain ⟨a, ha, hst⟩ : ∃ a, s.actions.get x = some a ∧
        (a.status = .executing ∨ a.status = .done) := by
      rcases h.sent x hx with hst | hst
      · obtain ⟨a, ha, hst⟩ := statusOf_eq_some.mp hst
        exact ⟨a, ha, Or.inl hst⟩
      · obtain ⟨a, ha, hst⟩ := statusOf_eq_some.mp hst
        exact ⟨a, ha, Or.inr hst⟩
    have hx' := (hget x).trans (if_pos rfl)
    rw [ha, Option.map_some] at hx'
    rcases hst with hst | hst
    · rw [if_pos (decide_eq_true ⟨Table.key_of_get ha, Or.inr hst⟩)] at hx'
      exact statusOf_self hx'
    · rw [if_neg (by simp [hst])] at hx'
      exact (statusOf_self hx').trans (congrArg some hst)
  refine { h with retries := ?_, holds := ?_, executing := ?_, done := ?_, sent := ?_, heard := ?_ }
  · intro y b hb
    by_cases hyx : y = x
    · subst hyx
      have hdone : b.status = .done := by
        have hst := hself
        unfold State.statusOf at hst
        rw [hb] at hst
        exact Option.some.inj hst
      unfold Action.Retries
      rw [hdone]
      exact ⟨nofun, nofun, nofun⟩
    · exact h.retries y b (((hget y).trans (if_neg hyx)).symm.trans hb)
  · intro i c hc hholds
    obtain ⟨hunsent, hst⟩ := h.holds i c hc hholds
    refine ⟨hunsent, (hsame _ ?_).trans hst⟩
    rintro heq
    rw [heq] at hunsent
    exact hunsent hx
  · intro y hy
    by_cases hyx : y = x
    · exact Or.inl (hyx ▸ hx)
    · exact h.executing y ((hsame y hyx).symm.trans hy)
  · intro y hy
    by_cases hyx : y = x
    · exact hyx ▸ hx
    · exact h.done y ((hsame y hyx).symm.trans hy)
  · intro y hy
    by_cases hyx : y = x
    · exact Or.inr (hyx ▸ hself)
    · exact (h.sent y hy).imp (hsame y hyx).trans (hsame y hyx).trans
  · intro y hy
    by_cases hyx : y = x
    · exact Or.inl (hyx ▸ hx)
    · exact (h.heard y hy).imp_right fun hrest =>
        hrest.imp_left fun hwait => hwait.imp (hsame y hyx).trans (hsame y hyx).trans

theorem Inv.enqueue (h : Inv myAddress s) (x : Pair) (txid : String) :
    Inv myAddress (enqueue s x txid) := by
  unfold Handshake.enqueue
  split
  · exact h
  · have hinsert := h.insert x txid
    cases hins : s.actions.insert (newAction x txid) with
    | some t =>
      rw [hins] at hinsert
      exact hinsert
    | none =>
      dsimp only
      obtain ⟨a, ha⟩ := Option.isSome_iff_exists.mp (Table.insert_eq_none.mp hins)
      have hget := Table.get_updateWhere_key s.actions
        (p := fun a => a.pair = x ∧ (a.status = .failed ∨ a.status = .expired))
        (fun a => newAction a.pair txid) (fun _ => rfl) (k := x)
        fun b hb => (of_decide_eq_true hb).1
      by_cases hst : a.status = .expired
      · refine h.setRow (x := x) (a := newAction a.pair txid) (fun y hy => ?_) ?_
          (newAction_retries a.pair txid) rfl ?_
        · exact (hget y).trans (if_neg hy)
        · refine (hget x).trans ((if_pos rfl).trans ?_)
          have hkey : a.pair = x := Table.key_of_get ha
          change (s.actions.get x) = some a at ha
          rw [ha, Option.map_some, if_pos (decide_eq_true ⟨hkey, Or.inr hst⟩)]
        · have hstatus : s.statusOf x = some .expired := statusOf_eq_some.mpr ⟨a, ha, hst⟩
          rw [hstatus]
          exact ⟨nofun, nofun⟩
      · have hsame := s.actions.updateWhere_eq_self
          (p := fun a => a.pair = x ∧ (a.status = .failed ∨ a.status = .expired))
          (f := fun a => newAction a.pair txid) (fun _ => rfl) fun b hb => by
            refine decide_eq_false fun hcond => ?_
            have hba : s.actions.get x = some b := hcond.1 ▸ Table.get_of_mem hb
            obtain rfl := Option.some.inj (hba.symm.trans ha)
            exact hcond.2.elim (h.retries x b hba).2.2 hst
        have hstate : ∀ t, t = s.actions → Inv myAddress { s with actions := t } := by
          rintro t rfl
          exact h
        exact hstate _ hsame

theorem Inv.handleIngestMessage (h : Inv myAddress s) {p : Post}
    (hp : ∀ y txid, p = .outbound y txid → y ∈ s.sends) :
    Inv myAddress (handleIngestMessage s p) := by
  cases p with
  | inbound x txid =>
    unfold Handshake.handleIngestMessage
    dsimp only
    split
    · exact h
    · have hmessages : Inv myAddress { s with messages := s.messages ++ [(txid, true)] } :=
        { h with }
      exact (hmessages.observeHandshake x).enqueue x txid
  | outbound x txid =>
    unfold Handshake.handleIngestMessage
    dsimp only
    split
    · exact h
    · have hmessages : Inv myAddress { s with messages := s.messages ++ [(txid, false)] } :=
        { h with }
      exact (hmessages.complete (hp x txid rfl)).acceptHandshake (hp x txid rfl)

theorem Inv.erasePost (h : Inv myAddress s) (k : ℕ) :
    Inv myAddress { s with posts := s.posts.eraseIdx k } :=
  { h with outbound := fun y txid hy => h.outbound y txid (List.mem_of_mem_eraseIdx hy) }

/-! ### New calls -/

theorem getElem?_append_cases {α : Type*} {l l' : List α} {i : ℕ} {y : α}
    (h : (l ++ l')[i]? = some y) : l[i]? = some y ∨ y ∈ l' := by
  rw [List.getElem?_append] at h
  split at h
  · exact Or.inl h
  · exact Or.inr (List.mem_of_getElem? h)

theorem Inv.addCalls (h : Inv myAddress s) {l : List Call} (hl : ∀ c ∈ l, ¬ c.Holds) :
    Inv myAddress { s with calls := s.calls ++ l } := by
  have hold : ∀ {j : ℕ} {d : Call}, (s.calls ++ l)[j]? = some d → d.Holds → s.calls[j]? = some d :=
    fun hj hd => (getElem?_append_cases hj).resolve_right fun hmem => hl _ hmem hd
  have hleft : ∀ {j : ℕ} {d : Call}, s.calls[j]? = some d → (s.calls ++ l)[j]? = some d :=
    fun hj => (List.getElem?_append_left (List.getElem?_eq_some_iff.mp hj).1).trans hj
  refine { h with holds := ?_, apart := ?_, executing := ?_, heard := ?_ }
  · exact fun j d hj hd => h.holds j d (hold hj hd) hd
  · exact fun j k d e hj hk hd he => h.apart j k d e (hold hj hd) (hold hk he) hd he
  · intro y hy
    refine (h.executing y hy).imp_right ?_
    rintro ⟨j, d, hj, hd, hpair⟩
    exact ⟨j, d, hleft hj, hd, hpair⟩
  · intro y hy
    refine (h.heard y hy).imp_right fun hrest => hrest.imp_right ?_
    rintro ⟨j, d, hj, hd, hpair⟩
    exact ⟨j, d, hleft hj, hd, hpair⟩

theorem Inv.hear (h : Inv myAddress s)
    (hx : x ∈ s.sends ∨ s.Waiting x ∨ Busy myAddress s x) :
    Inv myAddress { s with heard := s.heard ++ [x] } := by
  refine { h with heard := fun y hy => ?_ }
  rcases List.mem_append.mp hy with hy | hy
  · exact h.heard y hy
  · exact List.mem_singleton.mp hy ▸ hx

theorem Inv.processHandshake (h : Inv myAddress s) (r : ℕ) (txId : String)
    (senderAddress : Option String) :
    Inv myAddress (processHandshake myAddress s r txId senderAddress) := by
  unfold Handshake.processHandshake
  split
  · exact h
  · have hattempted : Inv myAddress
        (s.setRelay r fun x => { x with attempted := x.attempted ++ [txId] }) :=
      h.setRelay fun p hp => Or.inl hp
    have hsame : (s.setRelay r fun x => { x with attempted := x.attempted ++ [txId] }).sends =
        s.sends := rfl
    dsimp only
    split
    · exact hattempted
    · next peer =>
      split
      · exact hattempted.setRelay fun p hp => Or.inl hp
      · split
        · next hmem =>
          exact (hattempted.hear (Or.inl (hattempted.memory r peer hmem))).setRelay
            fun p hp => Or.inl hp
        · have hcall := hattempted.addCalls (l := [⟨r, peer, txId, false, .status⟩])
            fun c hc => by
              rw [List.mem_singleton.mp hc]
              exact not_holds rfl (Or.inl rfl)
          refine hcall.hear (Or.inr (Or.inr ⟨s.calls.length, ⟨r, peer, txId, false, .status⟩,
            List.getElem?_concat_length .., ⟨nofun, Or.inl rfl⟩, rfl⟩))

theorem Inv.catchUpHistory (h : Inv myAddress s) (r : ℕ) :
    Inv myAddress (catchUpHistory myAddress s r) := by
  refine h.addCalls fun c hc => ?_
  obtain ⟨a, -, rfl⟩ := List.mem_map.mp hc
  exact not_holds rfl (Or.inr (Or.inl rfl))

theorem Inv.restart (h : Inv myAddress s) {r : ℕ} (hfair : Fair s (.restart r)) :
    Inv myAddress (step myAddress s (.restart r)) := by
  have hrelay : Inv myAddress (s.setRelay r fun x => ⟨x.blocklist, [], x.saved, x.saved, []⟩) :=
    h.setRelay fun p hp => absurd hp List.not_mem_nil
  have hold : ∀ {j : ℕ} {d : Call},
      (s.calls.map fun c => if c.relay = r then { c with phase := .over } else c)[j]? = some d →
      d.Holds → s.calls[j]? = some d := by
    intro j d hj hd
    rw [List.getElem?_map] at hj
    obtain ⟨c, hc, rfl⟩ := Option.map_eq_some_iff.mp hj
    split at hd
    · exact absurd hd (not_holds rfl (Or.inr (Or.inr rfl)))
    · next hne => exact hc.trans (congrArg some (if_neg hne).symm)
  have hnew : ∀ {j : ℕ} {d : Call}, s.calls[j]? = some d → d.Busy →
      (s.calls.map fun c => if c.relay = r then { c with phase := .over } else c)[j]? = some d := by
    intro j d hj hd
    rw [List.getElem?_map, hj, Option.map_some,
      if_neg fun heq => hfair d (List.mem_of_getElem? hj) heq hd]
  refine { hrelay with holds := ?_, apart := ?_, executing := ?_, heard := ?_ }
  · exact fun j d hj hd => h.holds j d (hold hj hd) hd
  · exact fun j k d e hj hk hd he => h.apart j k d e (hold hj hd) (hold hk he) hd he
  · intro y hy
    refine (h.executing y hy).imp_right ?_
    rintro ⟨j, d, hj, hd, hpair⟩
    exact ⟨j, d, hnew hj hd.busy, hd, hpair⟩
  · intro y hy
    refine (h.heard y hy).imp_right fun hrest => hrest.imp_right ?_
    rintro ⟨j, d, hj, hd, hpair⟩
    exact ⟨j, d, hnew hj hd, hd, hpair⟩

/-! ### Steps -/

theorem inv_init : Inv myAddress init where
  retries _ _ h := by cases h
  holds _ _ h := by cases h
  apart _ _ _ _ h := by cases h
  executing _ h := by cases h
  done _ h := by cases h
  sent _ h := absurd h List.not_mem_nil
  once := List.nodup_nil
  outbound _ _ h := absurd h List.not_mem_nil
  related _ _ h := by cases h
  memory _ _ h := absurd h List.not_mem_nil
  heard _ h := absurd h List.not_mem_nil
  lawful _ h := absurd h List.not_mem_nil
  accepted _ h := absurd h List.not_mem_nil

/-- A message confirms only what has been accepted. -/
theorem Inv.text (h : Inv myAddress s) (x : Pair) :
    Inv myAddress (activateRelation (confirmSession s x) x) := by
  have hrelated : ∀ {s : State} {st : Status}, Inv myAddress s → st ≠ .observed → st ≠ .accepted →
      st ≠ .blocked → ∀ r, s.relations.get x = some r →
      st = r.status ∨ st ∈ VALID_TRANSITIONS r.status → x ∈ s.sends := by
    intro s st h hobserved haccepted hblocked r hr hst
    refine h.related x r hr (Or.inr ?_)
    constructor <;>
      (intro heq; rw [heq] at hst; simp [VALID_TRANSITIONS, hobserved, haccepted, hblocked] at hst)
  have hconfirm : Inv myAddress (confirmSession s x) := h.advance nofun fun r hr hst _ =>
    hrelated h (by decide) (by decide) (by decide) r hr hst
  exact hconfirm.advance nofun fun r hr hst _ =>
    hrelated hconfirm (by decide) (by decide) (by decide) r hr hst

theorem Inv.step {e : Event} (h : Inv myAddress s) (hfair : Fair s e) :
    Inv myAddress (step myAddress s e) := by
  cases e with
  | block r txId senderAddress => exact h.processHandshake r txId senderAddress
  | prune r =>
    exact h.setRelay (r := r) (f := fun x => { x with attempted := pruneAttempted x.attempted })
      fun p hp => Or.inl hp
  | round r => exact h.catchUpHistory r
  | statusBack i ok => exact h.statusBack i ok
  | claimBack i executed answered => exact h.claimBack hfair
  | draftBack i o => exact h.draftBack hfair
  | sendBack i o => exact h.sendBack hfair
  | reportBack i delivered => exact h.reportBack hfair
  | deliver k =>
    unfold Handshake.step
    dsimp only
    split
    · exact h
    · next p hp =>
      refine (h.erasePost k).handleIngestMessage fun y txid heq => ?_
      exact h.outbound y txid (heq ▸ List.mem_of_getElem? hp)
  | lose k => exact h.erasePost k
  | blocklist r addresses =>
    exact h.setRelay (r := r) (f := fun x => { x with blocklist := addresses })
      fun p hp => Or.inl hp
  | flush r =>
    exact h.setRelay (r := r) (f := fun x => { x with saved := x.seen }) fun p hp => Or.inl hp
  | restart r => exact h.restart hfair
  | text x => exact h.text x
  | blockRelation x =>
    refine h.advance (fun _ r _ => ?_) fun _ _ _ hno => ?_
    · cases r.status <;> decide
    · exact absurd hno (by decide)
  | unblockRelation x =>
    refine h.advance (fun _ r hr => ?_) fun _ _ _ hno => ?_
    · rcases hfair r hr with hst | hst <;> rw [hst] <;> decide
    · exact absurd hno (by decide)

/-! ### Runs -/

theorem inv_run {es : List Event} (hfair : Along Fair (step myAddress) init es) :
    Inv myAddress (run myAddress es) :=
  hfair.invariant (I := fun _ => Inv myAddress) inv_init fun _ _ h hfair => h.step hfair

/-- **A handshake is accepted once, and not lost**, where every claim is answered, and what throws
has not been sent. -/
theorem handshake_run {es : List Event} (hfair : Along Fair (step myAddress) init es) :
    Safe myAddress es where
  once := (inv_run hfair).once
  kept := by
    have h := inv_run hfair
    intro x hx
    refine (h.heard x hx).imp_right fun hrest => hrest.imp_left fun hwait => ?_
    rcases hwait with hst | hst
    · obtain ⟨a, ha, hst⟩ := statusOf_eq_some.mp hst
      exact ⟨a, ha, Or.inl ⟨hst, (h.retries x a ha).1 hst⟩⟩
    · obtain ⟨a, ha, hst⟩ := statusOf_eq_some.mp hst
      exact ⟨a, ha, Or.inr ⟨hst, (h.retries x a ha).2.1 hst⟩⟩
  lawful := (inv_run hfair).lawful
  accepted := (inv_run hfair).accepted

section Sample

def sampleAddresses : Addresses := fun _ => "kaspa:me"

def samplePair : Pair := ("kaspa:me", "kaspa:peer")

/-- A block, and the status of the relation. -/
def heardOnce : List Event := [.block 0 "t" (some "kaspa:peer"), .statusBack 0 true]

def answered : List Event :=
  heardOnce ++ [.claimBack 0 true true, .draftBack 0 .payload, .sendBack 0 (.ok "a"), .deliver 0,
    .deliver 0]

theorem answered_fair : Along Fair (step sampleAddresses) init answered := by
  refine .cons trivial (.cons trivial (.cons (fun _ _ => ⟨fun _ => rfl, fun _ => rfl⟩)
    (.cons (fun _ _ => Or.inl rfl) (.cons (fun _ _ => Or.inl ⟨"a", rfl⟩)
      (.cons trivial (.cons trivial .nil))))))

theorem answered_safe : Safe sampleAddresses answered := handshake_run answered_fair

/-- The live claim does not come back, and a catch-up claims the row before the post arrives. -/
def answeredTwice : List Event :=
  heardOnce ++ [.claimBack 0 false false, .deliver 0, .round 0, .claimBack 1 true true,
    .draftBack 1 .payload, .sendBack 1 (.ok "a"), .draftBack 0 .payload, .sendBack 0 (.ok "b")]

/-- The live send throws. -/
def abandoned : List Event :=
  heardOnce ++ [.claimBack 0 true true, .draftBack 0 .payload, .sendBack 0 (.thrown false)]

/-- Without the answer to its claim a relay sends all the same; and the row of a live call that
throws stays claimed. -/
theorem answered_twice_or_lost :
    ¬ Safe sampleAddresses answeredTwice ∧ ¬ Safe sampleAddresses abandoned := by
  refine ⟨fun h => absurd h.once (by decide +kernel), fun h => ?_⟩
  rcases h.kept samplePair (by decide +kernel) with hsent | ⟨a, ha, hst⟩ | ⟨i, c, hc, hbusy, -⟩
  · exact absurd hsent (by decide +kernel)
  · have hrow : (run sampleAddresses abandoned).actions.get samplePair =
        some ⟨samplePair, .executing, 0, "t"⟩ := by decide +kernel
    obtain rfl := Option.some.inj (hrow.symm.trans ha)
    rcases hst with ⟨hst, -⟩ | ⟨hst, -⟩ <;> cases hst
  · have hcalls : (run sampleAddresses abandoned).calls =
        [⟨0, "kaspa:peer", "t", false, .over⟩] := by decide +kernel
    have hmem := List.mem_of_getElem? hc
    rw [hcalls] at hmem
    rw [List.mem_singleton.mp hmem] at hbusy
    exact hbusy.1 rfl

end Sample

end KANet.Relay.Handshake
