-- SUMMARY: What API requests, operator commands, spawning and sweeps do, as acts of the run protocol.
import Ultracore.Api.Runs
import Ultracore.Loop.Spawn
import Ultracore.Loop.Sweep
import Ultracore.Protocol.Steps

/-!
# Requests and sweeps as acts

One walk through each transaction that is not part of a step: starting and answering a
run, cancelling it, creating a child, and claiming the waits that are due.
-/

namespace Ultracore.Protocol

open Txn Loop Tx

section
variable {cfg : Settings} {A : Sight} [Sharpens cfg A] {me : Part} {d : Db}
  {st : Local Row Write} {debt : Debt}
variable {run x : AgentRun} {t : TenantID} {child y : AgentRun} {ws : List Write} {call : String}
  {id r : RunID} {v : Db} {job : StepJob}

/-! ## Creating a run -/

/-- What starting run `x` writes. -/
def starting (x : AgentRun) (e : Event) (at_ : Time) : List Write :=
  [.insertRun x, .bumpSeq x.sessionID, .insertEvent e,
    .insertJob (.step ⟨x.id, x.tenantID, x.sessionID, 0⟩) at_ .create]

variable (cfg me) in
/-- The statements that starting a run and spawning a child share. -/
theorem wp_startRun {actor : Actor} {payload : EventPayload}
    {E : Err → Local Row Write → Prop} {Q : Post Unit}
    (hp : payload.routine = true) (hfrom : Descends (view d st) (Runs.inserted t run))
    (hroom : (run.spawnKey ≠ "" → (view d st).spawned? t run.spawnKey = none) →
      ∀ r, run.parentRunID = some r → Room (view d st) r (Runs.inserted t run))
    (herr : ∀ e s d', A (st.locks ++ (Write.insertRun (Runs.inserted t run)).rows) d d' →
      Blocked (view d' st) t run → E e s)
    (hok : ∀ s' e at_, (view d st).run? run.id = none → e.payload = payload →
      s'.writes = st.writes ++ starting (Runs.inserted t run) e at_ →
      ActsFrom cfg me d st.writes none s'.writes none → Q (.ok ()) s') :
    wp A d (Runs.create t run) st (Prog.either (fun _ s₁ =>
      wp A d (Events.append t run.sessionID actor payload) s₁ (Prog.either (fun _ s₂ =>
        wp A d (Queue.enqueue (.step ⟨run.id, t, run.sessionID, 0⟩) none .create) s₂ Q)
        E)) E) := by
  have hA := respects cfg A
  refine wp_runs_create hA (fun e d' hsee hblocked => herr _ _ d' hsee hblocked) ?_
  intro hnone hfresh
  refine wp_append hA (fun d' hsee hses => herr _ _ d' (by simpa using hsee) (.inl ?_)) ?_
  · rw [Option.isNone_iff_eq_none]
    simpa [Db.ownSession, Write.onSession] using hses
  intro s hs ht
  let e : Event := ⟨run.sessionID, s.lastSeq + 1, actor, payload⟩
  refine wp_enqueue fun now => hok _ e now hnone rfl ?_ ?_
  · simp [starting, Runs.inserted, e]
  · have hcreate : Act cfg me st.writes.isEmpty (applyAll d st.writes) none
        (starting (Runs.inserted t run) e now) none :=
      .create (x := Runs.inserted t run) hnone rfl rfl
        (by simpa [Write.onSession, Runs.inserted] using hs) ht hfrom (hroom hfresh) hp
    simpa [starting, Runs.inserted, e] using ActsFrom.nil.snoc hcreate

variable (cfg me) in
theorem wp_api_startRun (hp : run.parentRunID = none) (hk : run.spawnKey = "") :
    wp A d (Api.startRun run) .empty (Prog.either
      (fun _ s' => Acts cfg me d s'.writes none) (fun _ _ => True)) := by
  unfold Api.startRun
  simp only [wp_bind]
  refine wp_startRun cfg me rfl (.root hp hk) (fun _ r hr => ?_) (fun _ _ _ _ _ => trivial)
    fun _ _ _ _ _ _ hacts => hacts
  rw [hp] at hr
  cases hr

theorem spawnKey_ne_empty (r : RunID) (i : Nat) (call : String) : spawnKey r i call ≠ "" := by
  intro h
  have := congrArg String.toList h
  simp [spawnKey] at this

/-- A run found under a spawn key is a child of the run that the key names. -/
theorem child_of_spawnKey (hv : Integrity cfg v) {r' : RunID} {i : Nat}
    (hy : v.run? r' = some y) (hk : y.spawnKey = spawnKey r i call) : y.parentRunID = some r ∧
      ∃ p, v.run? r = some p ∧ p.tenantID = y.tenantID ∧ p.sessionID = y.sessionID := by
  cases hv.lineage hy with
  | root _ hempty => exact absurd (hk.symm.trans hempty) (spawnKey_ne_empty r i call)
  | child hp hr ht hs hkey =>
    obtain ⟨rfl, -, -⟩ := spawnKey_inj (hkey.symm.trans hk)
    exact ⟨hp, _, hr, ht, hs⟩

/-- A child of the run that a job works on. -/
def ChildOf (v : Db) (job : StepJob) (id : RunID) : Prop :=
  ∃ y, v.run? id = some y ∧ y.tenantID = job.tenantID ∧ y.sessionID = job.sessionID ∧
    y.parentRunID = some job.runID

theorem ChildOf.later {v' : Db} (h : ChildOf v job id) (hv : v.Extends v') : ChildOf v' job id := by
  obtain ⟨x, hx, ht, hs, hp⟩ := h
  obtain ⟨y, hy, hsame⟩ := hv.run hx
  exact ⟨y, hy, hsame.tenantID.trans ht, hsame.sessionID.trans hs, hsame.parentRunID.trans hp⟩

/-- The children that a statement counts are those in the tables it sees. -/
theorem childrenIn_length (hv : Integrity cfg v) {p : AgentRun}
    (hp : v.run? r = some p) (ht : p.tenantID = t) :
    (Runs.childrenIn v t r).length = (v.childIDs r).length := by
  rw [Db.childIDs, List.length_map, Runs.childrenIn]
  congr 1
  refine List.filter_congr fun x hx => ?_
  by_cases hr : x.parentRunID = some r
  · have hown : x.tenantID = t := by
      cases hv.lineage (Db.run?_of_mem hv.runIDs hx) with
      | root hnone => rw [hr] at hnone; cases hnone
      | child hr' hp' ht' =>
        cases hr.symm.trans hr'
        cases hp.symm.trans hp'
        rw [← ht', ht]
    simp [hr, hown]
  · simp [hr]

/-- What the transaction of `spawnChild` has written when it returns `id`: nothing, where the
    key was used before, or the child. -/
inductive Spawned (d : Db) (t : TenantID) (child : AgentRun) (id : RunID) : List Write → Prop where
  | adopted {y : AgentRun} : d.run? id = some y → y.spawnKey = child.spawnKey →
      Spawned d t child id []
  | created {e : Event} {at_ : Time} : id = child.id → d.run? child.id = none →
      d.spawned? t child.spawnKey = none → e.payload.routine = true →
      Spawned d t child id (starting (Runs.inserted t child) e at_)

theorem Spawned.cases
    (h : Spawned d t child id ws) : (∃ y, d.run? id = some y ∧ y.spawnKey = child.spawnKey) ∨
      d.spawned? t child.spawnKey = none := by
  cases h with
  | adopted hy hk => exact .inl ⟨_, hy, hk⟩
  | created _ _ hnone => exact .inr hnone

/-- The child that was returned is stored, under its key. -/
theorem Spawned.row (h : Spawned d t child id ws) :
    ∃ y, (applyAll d ws).run? id = some y ∧ y.spawnKey = child.spawnKey := by
  cases h with
  | adopted hy hk => exact ⟨_, hy, hk⟩
  | created hid hnone =>
    subst hid
    exact ⟨Runs.inserted t child, by simp [starting, Write.onRun, hnone, Runs.inserted], rfl⟩

omit [Sharpens cfg A] in
/-- While the parent is locked, a child that is stored is seen. -/
theorem seen_by_key (hA : Respects A) {ls : List Row} {d' : Db} (hsee : A ls d d')
    (hseen : Seen cfg ls d d') (hd : Integrity cfg d) {r' : RunID} {i : Nat}
    (hlock : Row.run r ∈ ls) (hy : d.run? r' = some y) (hkey : y.spawnKey = spawnKey r i call) :
    ∃ z ∈ d'.runs, z.spawnKey = y.spawnKey ∧ z.tenantID = y.tenantID := by
  have hchildren := hA.children hsee hlock []
  simp only [applyAll_nil] at hchildren
  have hmem : y.id ∈ d'.childIDs r := by
    rw [hchildren, Db.childIDs, List.mem_map]
    refine ⟨y, List.mem_filter.mpr ⟨List.mem_of_find?_eq_some hy, ?_⟩, rfl⟩
    simpa using (child_of_spawnKey hd hy hkey).1
  obtain ⟨z, hz, hid⟩ := List.mem_map.mp hmem
  have hz := (List.mem_filter.mp hz).1
  obtain ⟨y', hy', hsame⟩ := hseen.2.2.run (Db.run?_of_mem hseen.2.1.runIDs hz)
  rw [hid, Db.run?_id hy] at hy'
  cases hy.symm.trans hy'
  exact ⟨z, hz, hsame.spawnKey.symm, hsame.tenantID.symm⟩

variable (cfg me) in
/-- Spawning creates the child, or finds it: either way a child of the run. Where the key was
    used before, or where the id of the child was not, it only fails because the run has as many
    children as it may have. -/
theorem wp_spawnChildTx (hd : Integrity cfg d) (hx : JobRun d job x) (hid : run.id = job.runID)
    (ht : run.tenantID = job.tenantID)
    (hr : run.sessionID = job.sessionID) (hpol : run.policy = x.policy)
    (hs : child.sessionID = job.sessionID) (hpar : child.parentRunID = some run.id)
    (hkey : child.spawnKey = spawnKey run.id job.stepIndex call)
    (hwithin : child.policy.Within run.policy) :
    wp A d (spawnChildTx run job child) .empty (Prog.either
      (fun id s' => Acts cfg me d s'.writes none ∧ ChildOf (view d s') job id ∧
        Spawned d job.tenantID child id s'.writes)
      (fun _ _ => (d.run? child.id = none ∨ ∃ id y, d.run? id = some y ∧ y.spawnKey = child.spawnKey) →
        run.policy.maxChildren ≤ (d.childIDs run.id).length)) := by
  have hA := respects cfg A
  have hrow : d.run? run.id = some x := by
    rw [hid]
    exact hx.run
  unfold spawnChildTx
  simp only [wp_bind]
  refine wp_runs_getForUpdate_known hA hrow (hx.tenantID.trans ht.symm) ?_
  simp only [Prog.either_ok, Runs.countChildren]
  refine wp_query.mpr fun d₁ hsee₁ => ?_
  simp only [Prog.either_ok]
  have hcounted : (Runs.childrenIn d₁ run.tenantID run.id).length = (d.childIDs run.id).length := by
    have hseen : Seen cfg _ d d₁ := Sharpens.seen hsee₁
    have hlocked := hA.run hsee₁ (r := run.id) (by simp) []
    have hchildren := hA.children hsee₁ (r := run.id) (by simp) []
    simp only [applyAll_nil] at hlocked hchildren
    rw [childrenIn_length hseen.2.1 (hlocked.1.trans hrow) (hx.tenantID.trans ht.symm), hchildren]
  simp only [Local.after_writes, Local.empty_writes, List.append_nil, applyAll_nil, hcounted]
  split
  · rename_i hfull
    simp only [wp_throw, Prog.either_error]
    exact fun _ => hfull
  rename_i hcount
  rw [wp_bind, wp_attempt]
  refine wp_lockRead.mpr fun d₂ hsee => ?_
  have hseen : Seen cfg _ d d₂ := Sharpens.seen hsee
  simp only [Local.after_writes, Local.empty_writes, List.append_nil, applyAll_nil]
  cases hfind : d₂.runs.find? fun y => y.spawnKey = child.spawnKey ∧ y.tenantID = run.tenantID with
  | some =>
    simp only [Runs.found, Prog.either_ok, wp_pure']
    have hz := List.find?_some hfind
    simp only [decide_eq_true_eq] at hz
    have hfound := Db.run?_of_mem hseen.2.1.runIDs (List.mem_of_find?_eq_some hfind)
    obtain ⟨hparent, p, hp, -, hps⟩ := child_of_spawnKey hseen.2.1 hfound (hz.1.trans hkey)
    obtain ⟨z', hz', hsame⟩ := hseen.2.2.run hfound
    obtain ⟨p', hp', hsamep⟩ := hseen.2.2.run hp
    cases hp'.symm.trans hrow
    refine ⟨.nil, ⟨z', by simpa using hz', ?_, ?_, ?_⟩, .adopted hz' (hsame.spawnKey.trans hz.1)⟩
    · rw [hsame.tenantID, hz.2, ht]
    · rw [hsame.sessionID, ← hps, ← hsamep.sessionID, hx.sessionID]
    · rw [hsame.parentRunID, hparent, hid]
  | none =>
    -- the key was not used: a child under it would be seen
    have hunused : ∀ id y, d.run? id = some y → y.spawnKey ≠ child.spawnKey := by
      intro id z hz hzk
      obtain ⟨u, hu, huk, hut⟩ := seen_by_key hA hsee hseen hd (by simp) hz (hzk.trans hkey)
      obtain ⟨-, p, hp, hpt, -⟩ := child_of_spawnKey hd hz (hzk.trans hkey)
      cases hrow.symm.trans hp
      have hnone := List.find?_eq_none.mp hfind u hu
      simp only [decide_eq_true_eq, not_and] at hnone
      exact hnone (huk.trans hzk) (by rw [hut, ← hpt, hx.tenantID, ht])
    simp only [Runs.found, Prog.either_ok, wp_bind, wp_pure', ht, hr]
    rw [← hs]
    have hspawned : d.spawned? job.tenantID child.spawnKey = none := by
      refine Option.map_eq_none_iff.mpr (List.find?_eq_none.mpr fun z hz hzk => ?_)
      simp only [decide_eq_true_eq] at hzk
      exact hunused z.id z (Db.run?_of_mem hd.runIDs hz) hzk.2.2
    refine wp_startRun cfg me rfl ?_ ?_ ?_ ?_
    · refine .child hpar hrow hx.tenantID (hx.sessionID.trans hs.symm) hkey ?_
      rw [← hpol]
      simpa [Runs.inserted] using hwithin
    · intro hfresh r hr'
      cases hpar.symm.trans hr'
      refine ⟨fun p hp => ?_, hfresh (hkey ▸ spawnKey_ne_empty _ _ _)⟩
      cases hrow.symm.trans hp
      rw [← hpol]
      simpa using hcount
    · rintro _ _ d₃ hsee₃ hblocked (hfree | ⟨id, z, hz, hzk⟩)
      · -- everything that the child needs is there, since the parent is locked
        have hseen₃ : Seen cfg _ d d₃ := Sharpens.seen hsee₃
        have hparent := (hA.run hsee₃ (r := run.id) (by simp) []).1
        simp only [applyAll_nil] at hparent
        have hkeyrow : Row.spawnKey job.tenantID child.spawnKey ∈
            (Write.insertRun (Runs.inserted job.tenantID child)).rows := by
          simp [Write.rows, Runs.inserted, hkey, spawnKey_ne_empty]
        have hkeyed := hA.spawned hsee₃ (List.mem_append_right _ hkeyrow) []
        simp only [applyAll_nil] at hkeyed
        have hidrow : Row.run child.id ∈
            (Write.insertRun (Runs.inserted job.tenantID child)).rows := by
          simp [Write.rows, Runs.inserted]
        have hchild := (hA.run hsee₃ (List.mem_append_right _ hidrow) []).1
        simp only [applyAll_nil] at hchild
        have hses := session_found hseen₃ (r := run.id) (by simp) hrow
        rw [hx.tenantID, hx.sessionID, ← hs] at hses
        rcases hblocked with h | h | h | h
        · simp [Option.isNone_iff_eq_none.mp (by simpa using h)] at hses
        · simp [hchild, hfree] at h
        · simp [hkeyed, hspawned] at h
        · simp [hpar, hparent, hrow] at h
      · exact absurd hzk (hunused id z hz)
    · intro s' e at_ hnone he hws hacts
      have hnone : d.run? child.id = none := hnone
      have hws : s'.writes = starting (Runs.inserted job.tenantID child) e at_ := by
        simpa using hws
      have hnew : (view d s').run? child.id = some (Runs.inserted job.tenantID child) := by
        rw [view, hws]
        simp [starting, Write.onRun, hnone, Runs.inserted]
      refine ⟨hacts, ⟨_, hnew, rfl, hs, hpar.trans (by rw [hid])⟩, ?_⟩
      rw [hws]
      exact .created rfl hnone hspawned (by rw [he]; rfl)

/-! ## Answering and cancelling -/

/-- The run that a request has read is stored, with the same tenant and session. -/
structure Known (v : Db) (run x : AgentRun) : Prop where
  stored : v.run? run.id = some x
  tenantID : x.tenantID = run.tenantID
  sessionID : x.sessionID = run.sessionID

theorem Known.own (h : Known v run x) (ws : List Write) :
    ((applyAll v ws).ownRun run.tenantID run.id).isSome :=
  (Db.extends_applyAll v ws).ownRun
    (Option.isSome_iff_exists.mpr ⟨x, Db.ownRun_eq_some.mpr ⟨h.stored, h.tenantID⟩⟩)

/-- Where the body succeeds, all that it has written since are acts, and it owes nothing. -/
abbrev Acting (cfg : Settings) (me : Part) (A : Sight) (d : Db) (st : Local Row Write) {α : Type}
    (x : Tx α) : Prop :=
  wp A d x st (Prog.either (fun _ s' => ActsFrom cfg me d st.writes none s'.writes none)
    (fun _ _ => True))

section
variable (cfg me)

theorem wp_answer {message : String} {caller : Actor} (hx : Known d run x)
    (hses : me.session = some run.sessionID) :
    Acting cfg me A d .empty (Api.answer run message caller) := by
  have hA := respects cfg A
  unfold Acting Api.answer
  rw [wp_bind]
  refine wp_runs_getForUpdate_known hA hx.stored hx.tenantID ?_
  have hid : x.id = run.id := Db.run?_id hx.stored
  simp only [Prog.either_ok]
  split
  · simp
  rename_i hstate
  cases hh : x.history.appendUserMessage message with
  | none => simp
  | some history =>
    simp only [wp_bind, ← hx.tenantID, ← hx.sessionID, ← hid]
    have hx' : (view d (Local.empty.after [Row.run x.id] [])).run? x.id = some x := by
      rw [hid]
      exact hx.stored
    refine wp_reopen hA hx' (fun _ _ _ _ _ => trivial) ?_
    intro e now ls he _ _
    have hanswer : Act cfg me true d none (reopening d x history e now .answer) none := by
      refine .answer (by rw [hid]; exact hx.stored) ?_ (Envelope.appendUserMessage_extends hh) ?_
        (hses.trans (by rw [hx.sessionID]))
      · by_contra hne
        exact hstate (not_or.mp hne)
      · rw [he]
        rfl
    simpa using Acts.nil.snoc hanswer

theorem wp_cancelAwaiting {reason message : String}
    (hends : me.ends = some run.id) (hses : me.session = some run.sessionID)
    (hx : Known (view d st) run x) (hterm : x.state.terminal = false) (hst : Steady st.writes) :
    Acting cfg me A d st (Api.cancelAwaiting run reason message) := by
  unfold Acting Api.cancelAwaiting
  simp only [wp_bind, Runs.setState]
  refine wp_runs_update_found (respects cfg A) (hx.own []) fun _ => ?_
  let s₁ := st.after [.run run.id] [.setState run.id .cancelled reason message]
  have hfinish : ActsFrom cfg me d st.writes none s₁.writes (some (run.id, .verdict .cancelled)) := by
    refine .snoc .nil (.finish rfl hends hx.stored ?_ (.inl hterm))
    rw [hses, hx.sessionID]
  obtain ⟨y, hy, hsame⟩ := (Db.extends_applyAll (view d st)
    [.setState run.id .cancelled reason message]).run hx.stored
  refine wp_either (wp_abandonParentWaits cfg me (some (run.id, .verdict .cancelled))
    (hst.append (by simp [Steady, Write.enters])) ⟨y, by simpa [s₁] using hy, ?_⟩)
    (fun _ _ _ => trivial) ?_
  · rw [hses, hsame.sessionID, hx.sessionID]
  intro _ s₂ hreach
  refine wp_either (wp_append_verdict cfg me hends hses rfl) (fun _ _ _ => trivial) ?_
  intro _ s₃ hpost₃
  simp only [Prog.either_ok, wp_pure']
  exact (hfinish.trans hreach.acts).trans hpost₃.acts

/-- Stamping the cancellation; an awaiting run is then finalized. -/
theorem wp_stampCancel {rest : Tx Unit} (hx : Known (view d st) run x)
    (hterm : x.state.terminal = false) (hst : Steady st.writes)
    (hrest : ∀ s' y, Known (view d s') run y → y.state = x.state → Steady s'.writes →
      Acting cfg me A d s' rest) :
    Acting cfg me A d st (Runs.requestCancel run.tenantID run.id >>= fun _ => rest) := by
  rw [Acting, wp_bind]
  refine wp_runs_update_found (respects cfg A) (hx.own []) fun d' => ?_
  let s₁ := st.after [.run run.id] [.requestCancel run.id (view d' st).clock]
  have hstamp : ActsFrom cfg me d st.writes none s₁.writes none :=
    .snoc .nil (.requestCancel hx.stored hterm)
  let y : AgentRun := { x with
    cancelRequestedAt := x.cancelRequestedAt.or (some (view d' st).clock) }
  have hy : (view d s₁).run? run.id = some y := by
    simp [s₁, y, Write.onRun, hx.stored]
  refine wp_either (hrest s₁ y ⟨hy, hx.tenantID, hx.sessionID⟩ rfl
    (hst.append (by simp [Steady, Write.enters]))) (fun _ _ _ => trivial) ?_
  intro _ s₂ hpost
  exact hstamp.trans hpost

theorem wp_requestCancel {locked : AgentRun} (hends : me.ends = some run.id)
    (hses : me.session = some run.sessionID) (hx : Known (view d st) run x)
    (hterm : x.state.terminal = false) (hst : Steady st.writes) :
    Acting cfg me A d st (Api.requestCancel run locked) := by
  refine wp_stampCancel cfg me hx hterm hst ?_
  intro s' y hy hstate hsteady
  split
  · exact wp_cancelAwaiting cfg me hends hses hy (by rw [hstate]; exact hterm) hsteady
  · simpa using .nil

variable (hx : Known d run x) (hends : me.ends = some run.id) (hses : me.session = some run.sessionID)
include hx hends hses

theorem wp_cancelRun' : Acting cfg me A d .empty (Api.cancelRun run) := by
  unfold Acting Api.cancelRun
  rw [wp_bind]
  refine wp_runs_getForUpdate_known (respects cfg A) hx.stored hx.tenantID ?_
  simp only [Prog.either_ok]
  cases hterm : x.state.terminal with
  | true => simp
  | false =>
    exact wp_requestCancel cfg me hends hses ⟨hx.stored, hx.tenantID, hx.sessionID⟩ hterm
      (by simp [Steady])

theorem wp_adminCancelRun : Acting cfg me A d .empty (Api.adminCancelRun run) := by
  unfold Acting Api.adminCancelRun
  rw [wp_bind]
  refine wp_runs_getForUpdate_known (respects cfg A) hx.stored hx.tenantID ?_
  simp only [Prog.either_ok]
  cases hterm : x.state.terminal with
  | true => simpa using .nil
  | false =>
    exact wp_requestCancel cfg me hends hses ⟨hx.stored, hx.tenantID, hx.sessionID⟩ hterm
      (by simp [Steady])

theorem wp_expireAwait : Acting cfg me A d .empty (Api.expireAwait run) := by
  unfold Acting Api.expireAwait
  rw [wp_bind]
  refine wp_runs_getForUpdate_known (respects cfg A) hx.stored hx.tenantID ?_
  simp only [Prog.either_ok]
  split
  · simp
  · rename_i hstate
    have hterm : x.state.terminal = false := by
      simp only [ne_eq, not_not] at hstate
      simp [hstate, RunState.terminal]
    refine wp_stampCancel cfg me ⟨hx.stored, hx.tenantID, hx.sessionID⟩ hterm
      (by simp [Steady]) ?_
    intro s' z hz hsame hsteady
    exact wp_cancelAwaiting cfg me hends hses hz (by rw [hsame]; exact hterm) hsteady

end

/-! ## Sweeping -/

omit [Sharpens cfg A] in
/-- Claiming different open waits one after another. -/
theorem ActsFrom.claims {xs : List RunWait} (h : Acts cfg me d ws debt)
    (hxs : (xs.map RunWait.id).Nodup)
    (hopen : ∀ x ∈ xs, me.expires x.id ∧ ∃ y, (applyAll d ws).wait? x.id = some y ∧ y.state = .open) :
    Acts cfg me d (ws ++ xs.map fun x => .claimWait x.id) debt := by
  induction xs generalizing ws with
  | nil => simpa using h
  | cons x xs ih =>
    obtain ⟨hx, hxs'⟩ := List.nodup_cons.mp hxs
    obtain ⟨hexp, y, hy, hstate⟩ := hopen x (by simp)
    have hnext := ih (h.snoc (.claimWait hy hstate hexp)) hxs' ?_
    · simpa using hnext
    · intro z hz
      obtain ⟨hexp', y', hy', hstate'⟩ := hopen z (by simp [hz])
      have hne : z.id ≠ x.id := fun heq => hx (heq ▸ List.mem_map_of_mem hz)
      exact ⟨hexp', y', by simp [Write.onWait, hne, hy'], hstate'⟩

variable (cfg me) in
/-- A sweep claims the waits that it returns. -/
theorem wp_claimDueWaits (hexp : ∀ w, me.expires w) :
    wp A d (claimDueWaits cfg t) .empty (Prog.either
      (fun due s' => Acts cfg me d s'.writes none ∧ s'.writes = due.map fun x => .claimWait x.id)
      (fun _ _ => True)) := by
  unfold claimDueWaits
  simp only [wp_bind, Tx.now]
  refine wp_query.mpr fun d₁ _ => ?_
  simp only [Prog.either_ok, Waits.claimDue]
  refine wp_update.mpr fun d₂ busy hsee => ?_
  have hseen : Seen cfg _ d d₂ := Sharpens.seen hsee
  simp only [Local.empty_writes, applyAll_nil] at hsee hseen ⊢
  refine ⟨ActsFrom.claims .nil ?_ ?_, by simp⟩
  · exact Waits.due_nodup (v := ⟨d₂, busy⟩) hseen.2.1.waitIDs _ _ _
  · intro x hx
    obtain ⟨hmem, hdue, -⟩ := Waits.mem_of_mem_due hx
    have hlock := (respects cfg A).wait hsee (w := x.id)
      (by simpa using ⟨x, hx, rfl⟩) []
    refine ⟨hexp _, x, hlock.1.symm.trans (Db.wait?_of_mem hseen.2.1.waitIDs hmem), ?_⟩
    simp only [Waits.isDue, Bool.and_eq_true, decide_eq_true_eq] at hdue
    exact hdue.1.1

variable (cfg me) in
omit [Sharpens cfg A] in
theorem wp_rearm : Acting cfg me A d .empty (rearm cfg t) := by
  unfold rearm
  simp only [wp_bind, Tx.now]
  refine wp_query.mpr fun d₁ _ => ?_
  refine wp_enqueue fun now => ?_
  exact Acts.nil.snoc (.quiet rfl)

end

end Ultracore.Protocol
