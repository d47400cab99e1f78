import KANet.Lib.Along
import KANet.Settle.OraclePool

/-!
# Who is in the pool does not depend on the node

* `Write` — a broadcast that is accepted, with the text that was signed; an oracle's signatures come
  one after the other, and their places are the stamps.
* `Steady`, `Agree` — an oracle is in the pool as it has asked last; two nodes derive one pool.
* `membership_run` — histories in which it is so: every oracle's broadcasts come in the order of its
  signatures, and a stake's address has one output and is answered for.
-/

namespace KANet.Settle.OraclePool

open KANet.Lib KANet.Script KANet.Payout KANet.Covenant KANet.Settle
open KANet.Predict.Oracles (coerceMember parseInt textOf)

variable {e : Engine} {env : Env}

/-! ### What was signed -/

/-- An accepted broadcast. -/
structure Write where
  ask : Ask
  text : List Char
  deriving DecidableEq

def Write.pk (w : Write) : Bytes32 := w.ask.pk

def Event.write (env : Env) : Event → Option Write
  | .deliver msg => (accept env msg).map fun ask => ⟨ask, Json.text (unsigned msg)⟩
  | .scan _ _ => none

def writes (env : Env) (es : List Event) : List Write := es.filterMap (Event.write env)

/-- The place of a text among those that were signed. -/
def stamp (signed : List (List Char)) (w : Write) : ℕ := signed.idxOf w.text

/-- What a message asks for, checked or not. -/
def content (msg : Json) : Option Ask :=
  match msg.get "t" with
  | some (.str "oracle_stake_enroll_v1") => do
    some (.enroll (← stakerPkX msg) (← parseInt (coerceMember (msg.get "lock_until_daa")))
      (← textOf (msg.get "p2sh_addr")))
  | some (.str "oracle_stake_withdraw_v1") => (stakerPkX msg).map .withdraw
  | _ => none

theorem content_of_accept {msg : Json} {ask : Ask} (h : accept env msg = some ask) :
    content msg = some ask := by
  unfold accept at h
  split at h
  · next ht =>
    obtain ⟨-, h⟩ := require_bind_eq_some.mp h
    obtain ⟨pk, hpk, h⟩ := Option.bind_eq_some_iff.mp h
    obtain ⟨lock, hlock, h⟩ := Option.bind_eq_some_iff.mp h
    obtain ⟨-, h⟩ := require_bind_eq_some.mp h
    obtain ⟨addr, haddr, h⟩ := Option.bind_eq_some_iff.mp h
    obtain ⟨-, h⟩ := require_bind_eq_some.mp h
    obtain ⟨-, h⟩ := require_bind_eq_some.mp h
    rw [← h, content, ht]
    simp [hpk, hlock, haddr]
  · next ht =>
    obtain ⟨-, h⟩ := require_bind_eq_some.mp h
    obtain ⟨pk, hpk, h⟩ := Option.bind_eq_some_iff.mp h
    obtain ⟨-, h⟩ := require_bind_eq_some.mp h
    rw [← h, content, ht]
    simp [hpk]
  · cases h

theorem get_unsigned {msg : Json} {k : String}
    (hk : k ∉ ["signature", "_tx", "_from", "_channel", "_at"]) :
    (unsigned msg).get k = msg.get k := by
  cases msg with
  | obj ms =>
    unfold unsigned Json.get
    dsimp only
    rw [List.filter_filter]
    congr 2
    refine List.filter_congr fun m _ => ?_
    by_cases hm : m.1 = k
    · simp [hm, hk]
    · simp [hm]
  | null | bool | num | dec | str | arr => rfl

/-- A text that was signed says all that is asked for. -/
theorem content_unsigned (msg : Json) : content (unsigned msg) = content msg := by
  have ht : (unsigned msg).get "t" = msg.get "t" := get_unsigned (by decide)
  have hpk : stakerPkX (unsigned msg) = stakerPkX msg := by
    unfold stakerPkX
    rw [get_unsigned (by decide)]
  unfold content
  rw [ht, hpk, get_unsigned (k := "lock_until_daa") (by decide),
    get_unsigned (k := "p2sh_addr") (by decide)]

theorem ask_of_text {es : List Event} {w w' : Write} (hw : w ∈ writes env es)
    (hw' : w' ∈ writes env es) (h : w.text = w'.text) : w.ask = w'.ask := by
  have hcontent : ∀ w ∈ writes env es, ∃ msg, Json.text (unsigned msg) = w.text ∧
      content (unsigned msg) = some w.ask := by
    intro w hw
    obtain ⟨ev, -, hev⟩ := List.mem_filterMap.mp hw
    cases ev with
    | deliver msg =>
      obtain ⟨ask, hask, rfl⟩ := Option.map_eq_some_iff.mp hev
      exact ⟨msg, rfl, (content_unsigned msg).trans (content_of_accept hask)⟩
    | scan => cases hev
  obtain ⟨msg, htext, hask⟩ := hcontent w hw
  obtain ⟨msg', htext', hask'⟩ := hcontent w' hw'
  rw [Json.text_inj ((htext.trans h).trans htext'.symm), hask'] at hask
  exact (Option.some.inj hask).symm

/-! ### The rows -/

/-- The stake that a row puts into the pool. -/
def stakeOf (env : Env) (t : Table Enrollment.staker_pk_x) (pk : Bytes32) : Option (ℤ × String) :=
  ((t.get pk).filter fun r => r.pooled env).map fun r => (r.lock_until_daa, r.p2sh_addr)

def Ask.stake : Ask → Option (ℤ × String)
  | .enroll _ lock p2sh => some (lock, p2sh)
  | .withdraw _ => none

theorem get_handleOracleStakeEnroll (t : Table Enrollment.staker_pk_x) (pk pk' : Bytes32) (lock : ℤ)
    (p2sh : String) : (handleOracleStakeEnroll t pk lock p2sh).get pk' =
      if pk = pk' then some ⟨pk, lock, p2sh, .chain_envelope, true⟩ else t.get pk' := by
  unfold handleOracleStakeEnroll
  cases hins : t.insert ⟨pk, lock, p2sh, .chain_envelope, true⟩ with
  | some t' => exact Table.get_insert hins pk'
  | none =>
    obtain ⟨r, hr⟩ := Option.isSome_iff_exists.mp (Table.insert_eq_none.mp hins)
    rw [Option.getD_none, Table.get_updateWhere]
    split
    · next heq =>
      subst heq
      have hkey : r.staker_pk_x = pk := Table.key_of_get hr
      have hr' : t.get pk = some r := hr
      rw [hr', Option.map_some, if_pos (decide_eq_true hkey), hkey]
    · next hne =>
      cases hget : t.get pk' with
      | none => rfl
      | some r' =>
        have hkey : r'.staker_pk_x = pk' := Table.key_of_get hget
        rw [Option.map_some, if_neg (by simpa [hkey] using Ne.symm hne)]

/-- An oracle's row is as its last broadcast has left it. -/
theorem stakeOf_apply (t : Table Enrollment.staker_pk_x) (ask : Ask) (pk : Bytes32) :
    stakeOf env (apply t ask) pk = if ask.pk = pk then ask.stake else stakeOf env t pk := by
  unfold stakeOf
  cases ask with
  | enroll pk' lock p2sh =>
    rw [apply, get_handleOracleStakeEnroll]
    by_cases h : pk' = pk
    · simp [h, Ask.pk, Ask.stake, Enrollment.pooled, Option.filter]
    · simp [h, Ask.pk]
  | withdraw pk' =>
    rw [apply, handleOracleStakeWithdraw, Table.get_updateWhere]
    cases hget : t.get pk with
    | none => simp [Ask.stake]
    | some r =>
      have hkey : r.staker_pk_x = pk := Table.key_of_get hget
      by_cases h : pk' = pk
      · simp [hkey, h, Ask.pk, Ask.stake, Enrollment.pooled, Option.filter]
      · simp [hkey, Ne.symm h, h, Ask.pk]

theorem enrollments_scan {n : Node} {currentDaa : ℤ} {rpc : String → Option (List Utxo)} :
    (scanAndDerivePool e env n currentDaa rpc).enrollments = n.enrollments := by
  unfold scanAndDerivePool
  dsimp only
  split
  · rfl
  · split
    · rfl
    · split <;> rfl

/-- **The rows hold what every oracle has asked for last.** -/
theorem stakeOf_run (hstrict : env.strictChainSource = true) (l : Local) (es : List Event)
    (pk : Bytes32) : stakeOf env (run e env l es).enrollments pk =
      (lastWrite Write.pk pk (writes env es)).bind fun w => w.ask.stake := by
  induction es using List.reverseRecOn with
  | nil =>
    show stakeOf env l.rows pk = none
    unfold stakeOf
    cases hget : l.rows.get pk with
    | none => rfl
    | some r =>
      have hmanual := l.manual r (Table.mem_of_get hget)
      simp [Option.filter, Enrollment.pooled, hstrict, hmanual]
  | append_singleton es ev ih =>
    have hrun : run e env l (es ++ [ev]) = step e env (run e env l es) ev := List.foldl_concat ..
    have hwrites : writes env (es ++ [ev]) = writes env es ++ (ev.write env).toList := by
      cases hev : ev.write env <;> simp [writes, List.filterMap_append, hev]
    rw [hrun, hwrites]
    cases ev with
    | scan currentDaa rpc =>
      rw [step, enrollments_scan, ih]
      simp [Event.write]
    | deliver msg =>
      unfold step Event.write
      dsimp only
      cases accept env msg with
      | none => simpa using ih
      | some ask =>
        rw [stakeOf_apply, ih, Option.map_some, Option.toList_some]
        split
        · next h =>
          have hpk : Write.pk ⟨ask, Json.text (unsigned msg)⟩ = pk := h
          rw [lastWrite_append_of_eq hpk, Option.bind_some]
        · next h =>
          have hpk : Write.pk ⟨ask, Json.text (unsigned msg)⟩ ≠ pk := h
          rw [lastWrite_append_of_ne hpk]

/-! ### The leaves -/

section Leaves

variable {d : ℤ} {rpc rpc' : String → Option (List Utxo)} {t t' : Table Enrollment.staker_pk_x}

/-- The row of a stake. -/
def rowOf (pk : Bytes32) (lock : ℤ) (p2sh : String) : Enrollment :=
  ⟨pk, lock, p2sh, .chain_envelope, true⟩

/-- The leaves are those of the stakes. -/
theorem mem_validLeaves {leaf : Leaf} : leaf ∈ validLeaves env d rpc t.rows ↔
    ∃ pk lock p2sh, stakeOf env t pk = some (lock, p2sh) ∧
      leafOf d rpc (rowOf pk lock p2sh) = some leaf := by
  unfold validLeaves stakeOf
  rw [List.mem_mergeSort, List.mem_filterMap]
  constructor
  · rintro ⟨r, hr, hleaf⟩
    obtain ⟨hmem, hpool⟩ := List.mem_filter.mp hr
    refine ⟨r.staker_pk_x, r.lock_until_daa, r.p2sh_addr, ?_, hleaf⟩
    rw [Table.get_of_mem hmem, Option.filter_some, if_pos hpool, Option.map_some]
  · rintro ⟨pk, lock, p2sh, hstake, hleaf⟩
    obtain ⟨r, hr, heq⟩ := Option.map_eq_some_iff.mp hstake
    obtain ⟨hget, hpool⟩ := Option.filter_eq_some_iff.mp hr
    obtain ⟨rfl, rfl⟩ := Prod.mk.inj heq
    have hkey : r.staker_pk_x = pk := Table.key_of_get hget
    subst hkey
    exact ⟨r, List.mem_filter.mpr ⟨Table.mem_of_get hget, hpool⟩, hleaf⟩

theorem pk_of_leafOf {r : Enrollment} {leaf : Leaf} (h : leafOf d rpc r = some leaf) :
    leaf.pk_x = r.staker_pk_x := by
  unfold leafOf at h
  obtain ⟨-, h⟩ := require_bind_eq_some.mp h
  obtain ⟨entries, -, h⟩ := Option.bind_eq_some_iff.mp h
  obtain ⟨utxo, -, h⟩ := Option.bind_eq_some_iff.mp h
  obtain ⟨-, h⟩ := require_bind_eq_some.mp h
  rw [← Option.some.inj h]

/-- No oracle has two leaves. -/
theorem nodup_validLeaves : ((validLeaves env d rpc t.rows).map Leaf.pk_x).Nodup := by
  have hrows : t.rows.Pairwise fun r s => r.staker_pk_x ≠ s.staker_pk_x := by
    have hunique := t.unique
    rwa [List.Nodup, List.pairwise_map] at hunique
  have hleaves : ((t.rows.filter fun r => r.pooled env).filterMap (leafOf d rpc)).Pairwise
      fun a b => a.pk_x ≠ b.pk_x := by
    rw [List.pairwise_filterMap]
    refine (hrows.filter _).imp fun {r s} hrs a ha b hb => ?_
    rw [pk_of_leafOf ha, pk_of_leafOf hb]
    exact hrs
  have hnodup : (((t.rows.filter fun r => r.pooled env).filterMap (leafOf d rpc)).map
      Leaf.pk_x).Nodup := by
    rw [List.Nodup, List.pairwise_map]
    exact hleaves
  exact (((List.mergeSort_perm _ _).map Leaf.pk_x).nodup_iff).mpr hnodup

theorem sorted_validLeaves :
    (validLeaves env d rpc t.rows).Pairwise fun a b => keyLe a.pk_x b.pk_x = true :=
  List.pairwise_mergeSort (fun a b c => keyLe_trans a.pk_x b.pk_x c.pk_x)
    (fun a b => keyLe_total a.pk_x b.pk_x) _

/-- **Two tables with the same stakes have the same leaves**, if their queries are answered
alike. -/
theorem validLeaves_congr (hstake : ∀ pk, stakeOf env t pk = stakeOf env t' pk)
    (hleaf : ∀ pk lock p2sh, stakeOf env t pk = some (lock, p2sh) →
      leafOf d rpc (rowOf pk lock p2sh) = leafOf d rpc' (rowOf pk lock p2sh)) :
    validLeaves env d rpc t.rows = validLeaves env d rpc' t'.rows := by
  have hmem : ∀ leaf, leaf ∈ validLeaves env d rpc t.rows ↔
      leaf ∈ validLeaves env d rpc' t'.rows := by
    intro leaf
    rw [mem_validLeaves, mem_validLeaves]
    constructor
    · rintro ⟨pk, lock, p2sh, hs, hl⟩
      exact ⟨pk, lock, p2sh, hstake pk ▸ hs, hleaf pk lock p2sh hs ▸ hl⟩
    · rintro ⟨pk, lock, p2sh, hs, hl⟩
      have hs' := (hstake pk).trans hs
      exact ⟨pk, lock, p2sh, hs', (hleaf pk lock p2sh hs').trans hl⟩
  have hperm := (List.perm_ext_iff_of_nodup nodup_validLeaves.of_map nodup_validLeaves.of_map).mpr
    hmem
  refine @List.Perm.eq_of_pairwise _ (fun a b => keyLe a.pk_x b.pk_x = true) _ _ ?_ ?_ ?_ hperm
  · intro a b ha hb hab hba
    exact List.inj_on_of_nodup_map nodup_validLeaves ha ((hmem b).mpr hb)
      (keyLe_antisymm hab hba)
  · exact sorted_validLeaves
  · exact sorted_validLeaves

end Leaves

/-! ### Views -/

/-- A view was derived at some scan. -/
theorem exists_scan {l : Local} {es : List Event} {d : ℤ} {v : PoolView}
    (h : view (run e env l es) d = some v) :
    ∃ pre currentDaa rpc post, es = pre ++ .scan currentDaa rpc :: post ∧
      currentDaa - env.FINALITY_N = d ∧
      derive e env (run e env l pre) (currentDaa - env.FINALITY_N) rpc = some v := by
  induction es using List.reverseRecOn with
  | nil => cases h
  | append_singleton es ev ih =>
    have hrun : run e env l (es ++ [ev]) = step e env (run e env l es) ev := List.foldl_concat ..
    rw [hrun] at h
    have hold : view (run e env l es) d = some v → ∃ pre currentDaa rpc post,
        es ++ [ev] = pre ++ .scan currentDaa rpc :: post ∧ currentDaa - env.FINALITY_N = d ∧
        derive e env (run e env l pre) (currentDaa - env.FINALITY_N) rpc = some v := by
      intro hview
      obtain ⟨pre, currentDaa, rpc, post, rfl, hd, hderive⟩ := ih hview
      exact ⟨pre, currentDaa, rpc, post ++ [ev], by simp, hd, hderive⟩
    cases ev with
    | deliver msg =>
      refine hold ?_
      rw [← h]
      unfold step
      dsimp only
      split <;> rfl
    | scan currentDaa rpc =>
      unfold step scanAndDerivePool at h
      dsimp only at h
      split at h
      · exact hold h
      · split at h
        · exact hold h
        · split at h
          · exact hold h
          · next v' hderive =>
            have hsnapshot : v'.snapshot_daa = currentDaa - env.FINALITY_N := by
              obtain ⟨tree, -, rfl⟩ := Option.map_eq_some_iff.mp hderive
              rfl
            unfold view at h
            rw [List.find?_append] at h
            cases hfind : (run e env l es).views.find? fun u => u.snapshot_daa = d with
            | some u =>
              rw [hfind, Option.some_or] at h
              exact hold (hfind.trans h)
            | none =>
              rw [hfind, Option.none_or, List.find?_singleton] at h
              split at h
              · next heq =>
                obtain rfl := Option.some.inj h
                exact ⟨es, currentDaa, rpc, [], rfl, hsnapshot.symm.trans (of_decide_eq_true heq),
                  hderive⟩
              · cases h

theorem leaves_of_derive {n : Node} {d : ℤ} {rpc : String → Option (List Utxo)} {v : PoolView}
    (h : derive e env n d rpc = some v) :
    v.leaves = validLeaves env d rpc n.enrollments.rows := by
  obtain ⟨tree, -, rfl⟩ := Option.map_eq_some_iff.mp h
  rfl

/-! ### What is to hold -/

section Statement

variable (e env) (chain : ℤ → String → List Utxo) (signed : List (List Char))

/-- The broadcasts come before the scans at a height. -/
def ScansLast (d : ℤ) (es : List Event) : Prop :=
  ∀ pre currentDaa rpc post, es = pre ++ .scan currentDaa rpc :: post →
    currentDaa - env.FINALITY_N = d → ∀ msg, .deliver msg ∉ post

/-- **Two nodes that have a view have one view**, if they have heard of the same. -/
def Agree (l l' : Local) (es es' : List Event) : Prop :=
  ∀ d v w, ScansLast env d es → ScansLast env d es' →
    (∀ msg, .deliver msg ∈ es ↔ .deliver msg ∈ es') →
    view (run e env l es) d = some v → view (run e env l' es') d = some w → v = w

/-- **An oracle is in the pool as it has asked last.** -/
structure Steady (l : Local) (es : List Event) : Prop where
  /-- Who has withdrawn, and signed no enrolment since, is out. -/
  out : ∀ pre currentDaa rpc post v, es = pre ++ .scan currentDaa rpc :: post →
    derive e env (run e env l pre) (currentDaa - env.FINALITY_N) rpc = some v →
    ∀ pk, ∀ w ∈ writes env pre, w.ask = .withdraw pk →
      (∀ m ∈ writes env pre, m.pk = pk → m.ask ≠ .withdraw pk → stamp signed m < stamp signed w) →
      ∀ leaf ∈ v.leaves, leaf.pk_x ≠ pk
  /-- Who has enrolled, and signed nothing since, is in, with a stake that is locked. -/
  kept : ∀ pre currentDaa rpc post v, es = pre ++ .scan currentDaa rpc :: post →
    derive e env (run e env l pre) (currentDaa - env.FINALITY_N) rpc = some v →
    ∀ pk lock p2sh, ∀ m ∈ writes env pre, m.ask = .enroll pk lock p2sh →
      (∀ w ∈ writes env pre, w.pk = pk → stamp signed w ≤ stamp signed m) →
      currentDaa - env.FINALITY_N < lock →
      (∃ u ∈ chain (currentDaa - env.FINALITY_N) p2sh, ORACLE_STAKE_MIN_SOMPI ≤ u.amount) →
      ∃ leaf ∈ v.leaves, leaf.pk_x = pk

/-- No signature is forged, and a query that is answered is answered from the chain. -/
structure Known (es : List Event) : Prop where
  unforged : ∀ w ∈ writes env es, w.text ∈ signed
  truthful : ∀ currentDaa rpc, .scan currentDaa rpc ∈ es → ∀ p2sh entries,
    rpc p2sh = some entries → entries.Perm (chain (currentDaa - env.FINALITY_N) p2sh)

/-- A scan has an answer for each stake that is still locked, whose address has one output. -/
def Answered (n : Node) : Event → Prop
  | .scan currentDaa rpc => ∀ r ∈ n.enrollments.rows, r.pooled env = true →
    currentDaa - env.FINALITY_N < r.lock_until_daa → (rpc r.p2sh_addr).isSome = true ∧
      (chain (currentDaa - env.FINALITY_N) r.p2sh_addr).length ≤ 1
  | .deliver _ => True

/-- The condition: an oracle's broadcasts come in the order of its signatures, and scans are
answered. -/
structure Fair (l : Local) (es : List Event) : Prop where
  ordered : Stamped Write.pk (stamp signed) (writes env es)
  answered : Along (Answered env chain) (step e env) ⟨l.rows, []⟩ es

end Statement

/-! ### Histories -/

variable {chain : ℤ → String → List Utxo} {signed : List (List Char)} {l l' : Local}
  {es es' pre post : List Event} {currentDaa : ℤ} {rpc : String → Option (List Utxo)}

theorem writes_append : writes env (es ++ es') = writes env es ++ writes env es' :=
  List.filterMap_append ..

/-- What is heard before a scan is all that is heard, if nothing is heard after it. -/
theorem writes_of_scansLast {d : ℤ} (h : ScansLast env d (pre ++ .scan currentDaa rpc :: post))
    (hd : currentDaa - env.FINALITY_N = d) :
    writes env (pre ++ .scan currentDaa rpc :: post) = writes env pre := by
  have hnone : writes env (.scan currentDaa rpc :: post) = [] := by
    refine List.filterMap_eq_nil_iff.mpr fun ev hev => ?_
    rcases List.mem_cons.mp hev with rfl | hev
    · rfl
    · cases ev with
      | scan => rfl
      | deliver msg => exact absurd hev (h pre currentDaa rpc post rfl hd msg)
  rw [writes_append, hnone, List.append_nil]

theorem mem_writes_congr (h : ∀ msg, Event.deliver msg ∈ es ↔ Event.deliver msg ∈ es') (w : Write) :
    w ∈ writes env es ↔ w ∈ writes env es' := by
  have himp : ∀ {es es' : List Event}, (∀ msg, Event.deliver msg ∈ es → Event.deliver msg ∈ es') →
      w ∈ writes env es → w ∈ writes env es' := by
    intro es es' hsub hw
    obtain ⟨ev, hev, heq⟩ := List.mem_filterMap.mp hw
    cases ev with
    | deliver msg => exact List.mem_filterMap.mpr ⟨_, hsub msg hev, heq⟩
    | scan => cases heq
  exact ⟨himp fun msg => (h msg).mp, himp fun msg => (h msg).mpr⟩

/-- A stake of the pool is asked about, and what is at its address is what the chain has. -/
theorem answer_eq_chain (hknown : Known env chain signed es) (hfair : Fair e env chain signed l es)
    (hes : es = pre ++ .scan currentDaa rpc :: post) {pk : Bytes32} {lock : ℤ} {p2sh : String}
    (hstake : stakeOf env (run e env l pre).enrollments pk = some (lock, p2sh))
    (hlock : currentDaa - env.FINALITY_N < lock) :
    rpc p2sh = some (chain (currentDaa - env.FINALITY_N) p2sh) ∧
      (chain (currentDaa - env.FINALITY_N) p2sh).length ≤ 1 := by
  obtain ⟨r, hr, heq⟩ := Option.map_eq_some_iff.mp hstake
  obtain ⟨hget, hpool⟩ := Option.filter_eq_some_iff.mp hr
  obtain ⟨rfl, rfl⟩ := Prod.mk.inj heq
  obtain ⟨hsome, hone⟩ := hfair.answered pre (.scan currentDaa rpc) post hes r
    (Table.mem_of_get hget) hpool hlock
  obtain ⟨entries, hentries⟩ := Option.isSome_iff_exists.mp hsome
  have hperm := hknown.truthful currentDaa rpc (by rw [hes]; simp) _ _ hentries
  refine ⟨?_, hone⟩
  rw [hentries]
  cases hchain : chain (currentDaa - env.FINALITY_N) r.p2sh_addr with
  | nil =>
    rw [hchain] at hperm
    rw [hperm.eq_nil]
  | cons u rest =>
    rw [hchain] at hone hperm
    obtain rfl : rest = [] := List.length_eq_zero_iff.mp (by simpa using hone)
    rw [List.perm_singleton.mp hperm]

theorem leafOf_eq_none {d : ℤ} {r : Enrollment} (h : ¬ d < r.lock_until_daa) :
    leafOf d rpc r = none := by
  simp [leafOf, Script.require, h]

theorem agree_run (hstrict : env.strictChainSource = true)
    (hknown : Known env chain signed es) (hknown' : Known env chain signed es')
    (hfair : Fair e env chain signed l es) (hfair' : Fair e env chain signed l' es') :
    Agree e env l l' es es' := by
  intro d v w hlast hlast' hmsgs hv hw
  obtain ⟨pre, currentDaa, rpc, post, rfl, rfl, hderive⟩ := exists_scan hv
  obtain ⟨pre', currentDaa', rpc', post', rfl, hd, hderive'⟩ := exists_scan hw
  rw [hd] at hderive'
  have hwrites := writes_of_scansLast hlast rfl
  have hwrites' := writes_of_scansLast hlast' hd
  have hstake : ∀ pk, stakeOf env (run e env l pre).enrollments pk =
      stakeOf env (run e env l' pre').enrollments pk := by
    intro pk
    have hcongr := lastWrite_congr (f := Write.ask) hfair.ordered hfair'.ordered
      (mem_writes_congr hmsgs) (fun x hx y hy hxy => ask_of_text hx hy
        ((List.idxOf_inj (hknown.unforged x hx)).mp hxy)) pk
    rw [hwrites, hwrites'] at hcongr
    have hasked : ∀ w : Option Write, (w.bind fun x => x.ask.stake) =
        (w.map Write.ask).bind Ask.stake := fun w => by cases w <;> rfl
    rw [stakeOf_run hstrict, stakeOf_run hstrict, hasked, hasked, hcongr]
  have hvalid : validLeaves env (currentDaa - env.FINALITY_N) rpc
      (run e env l pre).enrollments.rows = validLeaves env (currentDaa - env.FINALITY_N) rpc'
      (run e env l' pre').enrollments.rows := by
    refine validLeaves_congr hstake fun pk lock p2sh hs => ?_
    by_cases hlock : currentDaa - env.FINALITY_N < lock
    · have hans := (answer_eq_chain hknown hfair rfl hs hlock).1
      have hans' := (answer_eq_chain hknown' hfair' rfl ((hstake pk).symm.trans hs)
        (hd.symm ▸ hlock)).1
      rw [hd] at hans'
      simp only [leafOf, rowOf, hans, hans']
    · rw [leafOf_eq_none hlock, leafOf_eq_none hlock]
  unfold derive at hderive hderive'
  rw [hvalid] at hderive
  exact Option.some.inj (hderive.symm.trans hderive')

theorem steady_run (hstrict : env.strictChainSource = true) (hknown : Known env chain signed es)
    (hfair : Fair e env chain signed l es) : Steady e env chain signed l es where
  out := by
    intro pre currentDaa rpc post v hes hderive pk w hw hask hsince leaf hleaf hpk
    have hordered : Stamped Write.pk (stamp signed) (writes env pre) := by
      have h := hfair.ordered
      rw [hes, writes_append] at h
      exact h.append_left
    have hwpk : w.pk = pk := by rw [Write.pk, hask]; rfl
    obtain ⟨x, hx⟩ := exists_lastWrite Write.pk hw
    have hle := hordered.le_lastWrite hw hx
    rw [hwpk] at hx
    obtain ⟨hxmem, hxpk⟩ := mem_of_lastWrite hx
    have hxask : x.ask = .withdraw pk := by
      by_contra hne
      exact absurd (hsince x hxmem hxpk hne) (Nat.not_lt.mpr hle)
    rw [leaves_of_derive hderive, mem_validLeaves] at hleaf
    obtain ⟨pk', lock, p2sh, hstake, hleaf⟩ := hleaf
    have hpk' : pk' = pk := (pk_of_leafOf hleaf).symm.trans hpk
    rw [hpk', stakeOf_run hstrict, hx, Option.bind_some, hxask] at hstake
    cases hstake
  kept := by
    intro pre currentDaa rpc post v hes hderive pk lock p2sh m hm hask hlast hlock hu
    have hsub : ∀ w ∈ writes env pre, w ∈ writes env es := fun w hw => by
      rw [hes, writes_append]
      exact List.mem_append_left _ hw
    have hordered : Stamped Write.pk (stamp signed) (writes env pre) := by
      have h := hfair.ordered
      rw [hes, writes_append] at h
      exact h.append_left
    have hmpk : m.pk = pk := by rw [Write.pk, hask]; rfl
    obtain ⟨x, hx⟩ := exists_lastWrite Write.pk hm
    have hle := hordered.le_lastWrite hm hx
    rw [hmpk] at hx
    obtain ⟨hxmem, hxpk⟩ := mem_of_lastWrite hx
    have hstamp := Nat.le_antisymm hle (hlast x hxmem hxpk)
    have hxask : x.ask = .enroll pk lock p2sh := hask ▸ (ask_of_text hm hxmem
      ((List.idxOf_inj (hknown.unforged m (hsub m hm))).mp hstamp)).symm
    have hstake : stakeOf env (run e env l pre).enrollments pk = some (lock, p2sh) := by
      rw [stakeOf_run hstrict, hx, Option.bind_some, hxask]
      rfl
    obtain ⟨hans, hone⟩ := answer_eq_chain hknown hfair hes hstake hlock
    obtain ⟨u, hu, hmin⟩ := hu
    have hchain : chain (currentDaa - env.FINALITY_N) p2sh = [u] := by
      cases h : chain (currentDaa - env.FINALITY_N) p2sh with
      | nil =>
        rw [h] at hu
        cases hu
      | cons u' rest =>
        rw [h] at hu hone
        obtain rfl : rest = [] := List.length_eq_zero_iff.mp (by simpa using hone)
        rw [List.mem_singleton.mp hu]
    refine ⟨⟨pk, u.amount, lock, p2sh, u.transactionId, u.index⟩, ?_, rfl⟩
    rw [leaves_of_derive hderive, mem_validLeaves]
    exact ⟨pk, lock, p2sh, hstake, by
      simp [leafOf, rowOf, Script.require, hlock, hans, hchain, hmin]⟩

/-- **Membership converges**, in histories in which every oracle's broadcasts come in the order of
its signatures, and the stakes' addresses have one output each and are answered for. -/
theorem membership_run (hstrict : env.strictChainSource = true)
    (hknown : Known env chain signed es) (hknown' : Known env chain signed es')
    (hfair : Fair e env chain signed l es) (hfair' : Fair e env chain signed l' es') :
    Agree e env l l' es es' ∧ Steady e env chain signed l es ∧ Steady e env chain signed l' es' :=
  ⟨agree_run hstrict hknown hknown' hfair hfair', steady_run hstrict hknown hfair,
    steady_run hstrict hknown' hfair'⟩

/-! ### A replay, and an output sent by another -/

section Sample

def sampleEnv : Env where
  verifyMessage _ signature _ := decide (textOf signature = some "good")
  computeStakeP2SH_v1 pk _ _ :=
    some (if pk.toList.head? = some 0xaa then "kaspatest:a" else "kaspatest:b")
  FINALITY_N := 600
  strictChainSource := true

def sampleLocal : Local := ⟨Table.empty _, fun _ hr => absurd hr List.not_mem_nil⟩

/-- The oracle whose key repeats the digit. -/
def sampleKey (c : Char) : Json := .str (String.ofList (List.replicate 64 c))

def sampleEnroll (c : Char) (p2sh : String) : Json :=
  .obj [("t", .str "oracle_stake_enroll_v1"), ("staker_pk_x", sampleKey c),
    ("lock_until_daa", .num 10000), ("p2sh_addr", .str p2sh), ("signature", .str "good")]

def sampleWithdraw (c : Char) : Json :=
  .obj [("t", .str "oracle_stake_withdraw_v1"), ("staker_pk_x", sampleKey c),
    ("signature", .str "good")]

/-- An output of one KAS, and one of a thousand sompi. -/
def stake (tx : String) : Utxo := ⟨ORACLE_STAKE_MIN_SOMPI, tx, 0⟩

def dust : Utxo := ⟨1000, "d", 0⟩

def signedTexts (msgs : List Json) : List (List Char) := msgs.map fun m => Json.text (unsigned m)

theorem scansLast_map {d currentDaa : ℤ} {rpc : String → Option (List Utxo)} (msgs : List Json) :
    ScansLast env d (msgs.map Event.deliver ++ [.scan currentDaa rpc]) := by
  intro pre currentDaa' rpc' post heq _ msg hmsg
  induction msgs generalizing pre with
  | nil =>
    cases pre with
    | nil =>
      rw [← (List.cons.inj heq).2] at hmsg
      cases hmsg
    | cons ev pre => cases pre <;> cases (List.cons.inj heq).2
  | cons m msgs ih =>
    cases pre with
    | nil => cases (List.cons.inj heq).1
    | cons ev pre => exact ih pre (List.cons.inj heq).2

/-- What a history of good signatures and one answered scan needs to be known. -/
theorem known_map {chain : ℤ → String → List Utxo} {rpc : String → Option (List Utxo)}
    {currentDaa : ℤ} {msgs signed : List Json} (hsub : msgs ⊆ signed)
    (hrpc : ∀ p2sh entries, rpc p2sh = some entries →
      entries.Perm (chain (currentDaa - sampleEnv.FINALITY_N) p2sh)) :
    Known sampleEnv chain (signedTexts signed) (msgs.map Event.deliver ++ [.scan currentDaa rpc])
    where
  unforged := by
    intro w hw
    obtain ⟨ev, hev, heq⟩ := List.mem_filterMap.mp hw
    rcases List.mem_append.mp hev with hev | hev
    · obtain ⟨msg, hmsg, rfl⟩ := List.mem_map.mp hev
      obtain ⟨ask, -, rfl⟩ := Option.map_eq_some_iff.mp heq
      exact List.mem_map_of_mem (hsub hmsg)
    · rw [List.mem_singleton.mp hev] at heq
      cases heq
  truthful := by
    intro currentDaa' rpc' hscan
    rcases List.mem_append.mp hscan with hscan | hscan
    · obtain ⟨msg, -, heq⟩ := List.mem_map.mp hscan
      cases heq
    · obtain ⟨rfl, rfl⟩ := Event.scan.inj (List.mem_singleton.mp hscan)
      exact hrpc

/-- The broadcasts, and then a scan at the height 1000. -/
def sampleRun (msgs : List Json) (rpc : String → List Utxo) : List Event :=
  msgs.map Event.deliver ++ [.scan 1600 fun p2sh => some (rpc p2sh)]

theorem known_sampleRun {chain rpc : String → List Utxo} {msgs signed : List Json}
    (hsub : msgs ⊆ signed) (hperm : ∀ p2sh, (rpc p2sh).Perm (chain p2sh)) :
    Known sampleEnv (fun _ => chain) (signedTexts signed) (sampleRun msgs rpc) :=
  known_map hsub fun p2sh _ h => Option.some.inj h ▸ hperm p2sh

def enrollA : Json := sampleEnroll 'a' "kaspatest:a"

def enrollB : Json := sampleEnroll 'b' "kaspatest:b"

def oneStake : String → List Utxo := fun _ => [stake "s"]

/-- One node hears of an enrolment once, the other twice. -/
theorem enrolled_agree :
    Agree sampleEngine sampleEnv sampleLocal sampleLocal (sampleRun [enrollA] oneStake)
        (sampleRun [enrollA, enrollA] oneStake) ∧
      Steady sampleEngine sampleEnv (fun _ => oneStake) (signedTexts [enrollA]) sampleLocal
        (sampleRun [enrollA] oneStake) ∧
      Steady sampleEngine sampleEnv (fun _ => oneStake) (signedTexts [enrollA]) sampleLocal
        (sampleRun [enrollA, enrollA] oneStake) := by
  refine membership_run rfl (known_sampleRun (List.Subset.refl _) fun _ => .refl _)
    (known_sampleRun (by simp) fun _ => .refl _) ⟨?_, ?_⟩ ⟨?_, ?_⟩
  · show List.Pairwise _ _
    decide +kernel
  · exact .cons trivial (.cons (fun _ _ _ _ => ⟨rfl, Nat.le_refl 1⟩) .nil)
  · show List.Pairwise _ _
    decide +kernel
  · exact .cons trivial (.cons trivial (.cons (fun _ _ _ _ => ⟨rfl, Nat.le_refl 1⟩) .nil))

def twoStakes : String → List Utxo := fun _ => [stake "s", stake "t"]

def twoStakesTurned : String → List Utxo := fun _ => [stake "t", stake "s"]

/-- Somebody has sent dust to the first oracle's address. -/
def dustFirst : String → List Utxo := fun p2sh =>
  if p2sh = "kaspatest:a" then [dust, stake "s"] else [stake "t"]

def keyA : Bytes32 := ⟨List.replicate 32 0xaa, rfl⟩

def withdrawA : Write := ⟨.withdraw keyA, Json.text (unsigned (sampleWithdraw 'a'))⟩

def enrolledA : Write := ⟨.enroll keyA 10000 "kaspatest:a", Json.text (unsigned enrollA)⟩

def viewOf (msgs : List Json) (rpc : String → List Utxo) : Option PoolView :=
  derive sampleEngine sampleEnv (run sampleEngine sampleEnv sampleLocal (msgs.map Event.deliver))
    1000 fun p2sh => some (rpc p2sh)

/-- **Where the pool is not what it should be**: two stakes at one address, listed in either order;
an enrolment that is sent again by another after the withdrawal; and dust that is listed before the
stake. -/
theorem membership_diverges :
    (Known sampleEnv (fun _ => twoStakes) (signedTexts [enrollA]) (sampleRun [enrollA] twoStakes) ∧
      Known sampleEnv (fun _ => twoStakes) (signedTexts [enrollA])
        (sampleRun [enrollA] twoStakesTurned) ∧
      ¬ Agree sampleEngine sampleEnv sampleLocal sampleLocal (sampleRun [enrollA] twoStakes)
        (sampleRun [enrollA] twoStakesTurned)) ∧
    (Known sampleEnv (fun _ => oneStake) (signedTexts [enrollA, sampleWithdraw 'a'])
        (sampleRun [enrollA, sampleWithdraw 'a', enrollA] oneStake) ∧
      ¬ Steady sampleEngine sampleEnv (fun _ => oneStake)
        (signedTexts [enrollA, sampleWithdraw 'a']) sampleLocal
        (sampleRun [enrollA, sampleWithdraw 'a', enrollA] oneStake)) ∧
    Known sampleEnv (fun _ => dustFirst) (signedTexts [enrollA, enrollB])
        (sampleRun [enrollA, enrollB] dustFirst) ∧
      ¬ Steady sampleEngine sampleEnv (fun _ => dustFirst) (signedTexts [enrollA, enrollB])
        sampleLocal (sampleRun [enrollA, enrollB] dustFirst) := by
  refine ⟨⟨known_sampleRun (List.Subset.refl _) fun _ => .refl _,
    known_sampleRun (List.Subset.refl _) fun _ => List.Perm.swap _ _ _, fun h => ?_⟩,
    ⟨known_sampleRun (by simp) fun _ => .refl _, fun h => ?_⟩,
    known_sampleRun (List.Subset.refl _) fun _ => .refl _, fun h => ?_⟩
  · have hleaves : ((view (run sampleEngine sampleEnv sampleLocal (sampleRun [enrollA] twoStakes))
        1000).map fun v => v.leaves.map Leaf.outpoint_txid) = some ["s"] := by decide +kernel
    have hleaves' : ((view (run sampleEngine sampleEnv sampleLocal
        (sampleRun [enrollA] twoStakesTurned)) 1000).map fun v =>
          v.leaves.map Leaf.outpoint_txid) = some ["t"] := by decide +kernel
    obtain ⟨v, hv, hvs⟩ := Option.map_eq_some_iff.mp hleaves
    obtain ⟨w, hw, hwt⟩ := Option.map_eq_some_iff.mp hleaves'
    have hvw := h 1000 v w (scansLast_map _) (scansLast_map _) (fun _ => by simp [sampleRun]) hv hw
    rw [hvw, hwt] at hvs
    exact absurd hvs (by decide)
  · have hleaves : (viewOf [enrollA, sampleWithdraw 'a', enrollA] oneStake).map (fun v =>
        v.leaves.map Leaf.pk_x) = some [keyA] := by decide +kernel
    obtain ⟨v, hv, hpks⟩ := Option.map_eq_some_iff.mp hleaves
    obtain ⟨leaf, hleaf, hpk⟩ := List.mem_map.mp (hpks ▸ List.mem_cons_self)
    exact h.out _ _ _ _ v rfl hv keyA withdrawA (by decide +kernel) rfl (by decide +kernel) leaf
      hleaf hpk
  · have hleaves : (viewOf [enrollA, enrollB] dustFirst).map (fun v =>
        decide (keyA ∈ v.leaves.map Leaf.pk_x)) = some false := by decide +kernel
    obtain ⟨v, hv, hpks⟩ := Option.map_eq_some_iff.mp hleaves
    obtain ⟨leaf, hleaf, hpk⟩ := h.kept _ _ _ _ v rfl hv keyA 10000 "kaspatest:a" enrolledA
      (by decide +kernel) rfl (by decide +kernel) (by decide) ⟨stake "s", by decide +kernel,
        Nat.le_refl _⟩
    exact absurd (List.mem_map.mpr ⟨leaf, hleaf, hpk⟩) (of_decide_eq_false hpks)

end Sample

end KANet.Settle.OraclePool
