-- SUMMARY: What the step functions of the loop do, as acts of the run protocol.
import Ultracore.Protocol.Emission
import Ultracore.Protocol.Finality
import Ultracore.Protocol.Waits

/-!
# Step functions as acts

One walk through each function of `Ultracore.Loop.Step`. Where a worker acknowledges its
job afterwards, the walk also says why it may: the run is finished, or the step of the job
is committed.
-/

namespace Ultracore.Protocol

open Txn Loop Tx

variable {payload : EventPayload} {t : TenantID} {actor : Actor}

/-! ## Quiet functions -/

/-- A function that does nothing to the run protocol, whether it returns or fails. -/
abbrev Quiet {α : Type} (x : Tx α) : Prop := x.Only fun w => w.quiet = true

theorem Quiet.wp {α : Type} {x : Tx α} (hx : Quiet x) {A : Sight} {d : Db} {st : Local Row Write} :
    wp A d x st fun _ s' => ∃ q, s'.writes = st.writes ++ q ∧ ∀ w ∈ q, w.quiet = true :=
  Prog.Emits.wp hx

theorem Quiet.append {s : SessionID}
    (hp : payload.routine = true) : Quiet (Events.append t s actor payload) :=
  Events.append_emits rfl fun _ => hp

theorem Quiet.accountStepCost (run : AgentRun) (step : RunStep) : Quiet (accountStepCost run step) :=
  .bind (.memory_set rfl) fun _ => .bind (Quiet.append rfl) fun _ => .pure _

section
variable {cfg : Settings} {A : Sight} [Sharpens cfg A] {me : Part} {d : Db}
  {st s : Local Row Write} {debt : Debt} {job : StepJob} {x : AgentRun}
variable {reason message : String} {out : RunState} {final : String} {Q : Post Unit} {r : RunID}
  {rec : StepRecorder} {step : StepResult} {ws₀ : List Write}

theorem ActsFrom.quietly {ws q : List Write} (h : Acts cfg me d ws debt)
    (hq : ∀ w ∈ q, w.quiet = true) : Acts cfg me d (ws ++ q) debt := by
  induction q generalizing ws with
  | nil => simpa using h
  | cons w q ih =>
    have := ih (h.snoc (.quiet (hq w (by simp)))) fun w' hw' => hq w' (by simp [hw'])
    simpa using this

/-! ## Settling a terminal run -/

/-- The waits that a finished run holds were abandoned, and then those that it is a
    member of were looked at. -/
structure Settles (cfg : Settings) (A : List Row → Db → Db → Prop) (me : Part) (d : Db)
    (st s : Local Row Write) (t : TenantID) (r : RunID) : Prop where
  visits : ∃ s₁, Reached cfg me.still d st s₁ none none ∧ Resolves cfg A me.still d s₁ s t r

omit [Sharpens cfg A] in
theorem Settles.reached (h : Settles cfg A me d st s t r) :
    Reached cfg me.still d st s none none := by
  obtain ⟨s₁, hreach, hres⟩ := h.visits
  exact hreach.trans hres.acts

omit [Sharpens cfg A] in
/-- A run that the transaction holds locked is found again. -/
theorem wp_runs_get_locked (cfg : Settings) [Sharpens cfg A]
    {Q : Post AgentRun} (hr : Row.run r ∈ st.locks)
    (hx : (view d st).run? r = some x) (ht : x.tenantID = t) (h : Q (.ok x) st) :
    wp A d (Runs.get t r) st Q := by
  refine wp_runs_get fun d' hsee => ?_
  have hown : (view d' st).ownRun t r = some x := by
    rw [Db.ownRun_congr ((respects cfg A).run hsee hr st.writes).1]
    exact Db.ownRun_eq_some.mpr ⟨hx, ht⟩
  rw [hown]
  exact h

variable (cfg me) in
theorem wp_settleTerminalRun (hr : Row.run r ∈ st.locks)
    (hx : (view d st).run? r = some x) (ht : x.tenantID = t) (hses : me.session = some x.sessionID)
    (hv : Integrity cfg (view d st)) (hst : Steady st.writes) :
    wp A d (settleTerminalRun t r) st (Prog.either
      (fun _ s' => Settles cfg A me d st s' t r) (fun e _ => Fails st e)) := by
  unfold settleTerminalRun
  rw [wp_bind]
  refine wp_either (wp_abandonParentWaits cfg me.still none hst ⟨x, hx, hses⟩)
    (fun _ _ hpost => hpost.elim) ?_
  intro _ s₁ hreach
  obtain ⟨y, hy, hsame⟩ := hreach.acts.extends.run hx
  have hyt : y.tenantID = t := hsame.tenantID.trans ht
  have hyr : y.id = r := Db.run?_id hy
  simp only [Prog.either_ok, wp_bind]
  refine wp_runs_get_locked cfg (hreach.locks _ hr) hy hyt ?_
  rw [Prog.either_ok, hyt, hyr]
  refine wp_either (wp_resolveChildWaits cfg me.still (hreach.acts.integrity hv)
    ⟨y, hy, hses.trans (by rw [hsame.sessionID])⟩)
    (fun _ _ hpost₂ => Fails.mono hpost₂ hreach.plain) ?_
  intro _ s₂ hpost₂
  exact ⟨s₁, hreach, hpost₂⟩

/-- The run of the job got its final state, the log an event that says so, and the waits
    of the run were settled. -/
structure Ended (cfg : Settings) (A : List Row → Db → Db → Prop) (me : Part) (d : Db)
    (ws₀ : List Write) (s : Local Row Write) (job : StepJob) (out : RunState) (reason message : String)
    (payload : EventPayload) : Prop where
  visits : ∃ e s₁, e.payload = payload ∧ s₁.writes = ws₀ ++
      [.setState job.runID out reason message, .bumpSeq job.sessionID, .insertEvent e] ∧
    Row.session job.sessionID ∈ s₁.locks ∧
    ActsFrom cfg me.ending d ws₀ none s₁.writes none ∧
    Settles cfg A me d s₁ s job.tenantID job.runID

omit [Sharpens cfg A] in
theorem Ended.acts (h : Ended cfg A me d ws₀ s job out reason message payload) :
    ActsFrom cfg me.ending d ws₀ none s.writes none := by
  obtain ⟨e, s₁, -, -, -, hacts, hset⟩ := h.visits
  exact hacts.trans (hset.reached.acts.mono me.still_le_ending)

omit [Sharpens cfg A] in
theorem Ended.mem (h : Ended cfg A me d ws₀ s job out reason message payload) :
    .setState job.runID out reason message ∈ s.writes := by
  obtain ⟨e, s₁, -, hws, -, -, hset⟩ := h.visits
  obtain ⟨ws, hws'⟩ := hset.reached.acts.writes
  rw [hws', hws]
  simp

/-- The part may end the run of the job, in its session. -/
structure Part.Serves (me : Part) (job : StepJob) : Prop where
  ends : me.ends = some job.runID
  session : me.session = some job.sessionID

variable (cfg me) in
/-- The statements that a failure and a cancellation share. -/
theorem wp_end {E : Err → Local Row Write → Prop}
    (hme : me.Serves job) (hx : JobRun (view d st) job x) (hout : out.dead = true)
    (hp : payload.verdict? = some (job.runID, out))
    (hguard : x.state.terminal = false ∨ (st.writes = [] ∧ me.forces = true))
    (hv : Integrity cfg (view d st)) (hst : Steady st.writes)
    (hQ : ∀ s', Ended cfg A me d st.writes s' job out reason message payload → Q (.ok ()) s')
    (hQ' : ∀ e s', Fails st e → Q (.error e) s') (hE : ∀ e s', Fails st e → E e s') :
    wp A d (Runs.setState job.tenantID job.runID out reason message) st (Prog.either
      (fun _ s₁ => wp A d (Events.append job.tenantID job.sessionID actor payload) s₁ (Prog.either
        (fun _ s₂ => wp A d (settleTerminalRun job.tenantID job.runID) s₂ Q) E)) E) := by
  refine wp_runs_update_found (respects cfg A) hx.own fun _ => ?_
  let s₁ := st.after [.run job.runID] [.setState job.runID out reason message]
  have hfinish : Reached cfg me.ending d st s₁ none (some (job.runID, .verdict out)) := by
    refine .act (.finish hout hme.ends hx.run ?_ ?_) (by simp [Plain, Write.adds])
    · exact hme.session.trans (by rw [hx.sessionID])
    · exact hguard.imp_right fun h => ⟨by simp [h.1], h.2⟩
  have hsteady : Steady s₁.writes := hst.append (by simp [Steady, Write.enters])
  refine wp_either (wp_append_verdict cfg me.ending hme.ends hme.session hp) ?_ ?_
  · rintro e _ ⟨rfl, rfl, d', hsee, hnone⟩
    refine hE _ _ ⟨rfl, fun hplain _ => ?_⟩
    rw [← hx.tenantID, ← hx.sessionID] at hnone
    have hseen : Seen cfg s₁.locks d d' := Sharpens.seen hsee
    exact session_missing hplain hx.run hseen (by simp [s₁]) hnone
  intro _ s₂ hlog
  have hacts := hfinish.acts.trans hlog.acts
  obtain ⟨e, he, -, hws⟩ := hlog.writes
  obtain ⟨y, hy, hsame⟩ := hacts.extends.run hx.run
  refine wp_either (wp_settleTerminalRun cfg me (hlog.locks _ (by simp)) hy
    (hsame.tenantID.trans hx.tenantID) ?_ (hacts.integrity hv) (hlog.steady hsteady))
    (fun e _ hfail => hQ' e _ (Fails.mono hfail fun h => hlog.plain (hfinish.plain h))) ?_
  · rw [hme.session, hsame.sessionID, hx.sessionID]
  intro _ s₃ hpost₃
  exact hQ _ ⟨e, s₂, he, by simpa [s₁] using hws, hlog.lock, hacts, hpost₃⟩

/-- The cancellation of a run by its worker. -/
abbrev CancelledBy (cfg : Settings) (A : List Row → Db → Db → Prop) (me : Part) (d : Db)
    (ws₀ : List Write) (s : Local Row Write) (job : StepJob) : Prop :=
  Ended cfg A me d ws₀ s job .cancelled "" "" (.runCancelled job.runID)

/-- What is left to show inside `txStale`: only the signal of a cancellation is turned into a
    commit. -/
abbrev stale {α : Type} (Q : Post (Option α)) : Post α :=
  Prog.either (fun a s' => Q (.ok (some a)) s') fun e s' =>
    (e = .cancelledCommit → Q (.ok none) s') ∧ (e ≠ .cancelledCommit → Q (.error e) s')

omit [Sharpens cfg A] in
theorem wp_txStale {α : Type} {fn : Tx α} {Q : Post (Option α)} (h : wp A d fn st (stale Q)) :
    wp A d (txStale fn) st Q := by
  unfold txStale
  rw [wp_bind, wp_attempt]
  refine wp_either h ?_ fun a s' hpost => ?_
  · intro e s' hpost
    cases e with
    | cancelledCommit => simpa using hpost
    | _ => simpa using hpost.2 (by simp)
  · simpa using hpost

variable (cfg me) in
/-- Either the run was cancelled, and `txStale` turns the signal into a commit, or something
    failed. -/
theorem wp_markCancelledTx {α : Type} {Q : Post (Option α)} (hme : me.Serves job)
    (hx : JobRun (view d st) job x)
    (hguard : x.state.terminal = false ∨ (st.writes = [] ∧ me.forces = true))
    (hv : Integrity cfg (view d st)) (hst : Steady st.writes)
    (hok : ∀ s', CancelledBy cfg A me d st.writes s' job → Q (.ok none) s')
    (herr : ∀ e s', Fails st e → Q (.error e) s') :
    wp A d (markCancelledTx job : Tx α) st (stale Q) := by
  have hfails : ∀ e s', Fails st e → stale Q (.error e) s' := by
    intro e s' hfail
    refine ⟨fun he => ?_, fun _ => herr e s' hfail⟩
    subst he
    exact absurd hfail.1 (by decide)
  unfold markCancelledTx
  simp only [wp_bind]
  refine wp_end cfg me hme hx rfl rfl hguard hv hst ?_ hfails hfails
  intro s' hended
  simp only [Prog.either_ok, wp_throw, Prog.either_error]
  exact ⟨fun _ => hok s' hended, fun he => absurd rfl he⟩

/-! ## Claim, failure and cancellation -/

omit [Sharpens cfg A] in
theorem wp_countAttempts {pages fromSeq count : Nat} :
    wp A d (countAttempts job pages fromSeq count) st (Prog.either (fun _ s' => s' = st)
      (fun e _ => e = .sql)) := by
  induction pages generalizing fromSeq count with
  | zero => simp [countAttempts]
  | succ pages ih =>
    simp only [countAttempts, wp_bind, Events.range]
    refine wp_query.mpr fun d' _ => ?_
    simp only [Prog.either_ok]
    split
    · simp
    · exact ih

/-- Why the job of a step need not be kept: the run is not live, or the step is
    committed. -/
def Spent (v : Db) (job : StepJob) : Prop :=
  (∃ s, v.stateOf job.runID = some s ∧ s.live = false) ∨
    ∃ s ∈ v.stepsOf job.runID, s.stepIndex = job.stepIndex

theorem Spent.of_dead {v : Db} (h : Dead v job.runID) : Spent v job := by
  obtain ⟨s, hs, hd⟩ := h
  exact .inl ⟨s, hs, RunState.live_of_terminal (RunState.terminal_of_dead hd)⟩

omit [Sharpens cfg A] in
theorem Ended.spent (h : Ended cfg A me d [] s job out reason message payload) (hx : JobRun d job x)
    (hout : out.dead = true) : Spent (view d s) job :=
  .of_dead (ActsFrom.dead h.acts hx.run hout h.mem)

/-- The step of the job is not committed. -/
def Uncommitted (v : Db) (job : StepJob) : Prop :=
  ∀ s ∈ v.stepsOf job.runID, s.stepIndex ≠ job.stepIndex

/-- What a worker may know once it has claimed a step: the run is running. -/
structure Claimed (d : Db) (s : Local Row Write) (job : StepJob) (x : AgentRun) : Prop where
  uncommitted : Uncommitted d job
  cancel : x.cancelRequestedAt = none
  writes : (x.state = .pending ∧ s.writes = [.setState job.runID .running "" ""]) ∨
    (x.state = .running ∧ s.writes = [])

theorem Claimed.acts (h : Claimed d s job x) (hx : JobRun d job x) :
    Acts cfg me d s.writes none := by
  rcases h.writes with ⟨hs, hws⟩ | ⟨-, hws⟩
  · rw [hws]
    exact Acts.nil.snoc (.claim (x := x) hx.run hs h.cancel)
  · rw [hws]
    exact .nil

theorem Claimed.running (h : Claimed d s job x) (hx : JobRun d job x) :
    (view d s).stateOf job.runID = some .running := by
  rcases h.writes with ⟨-, hws⟩ | ⟨hs, hws⟩
  · rw [view, hws]
    simp [Write.onState, Db.stateOf_of_run hx.run]
  · rw [view, hws]
    simp [Db.stateOf_of_run hx.run, hs]

variable (cfg me) in
/-- A claim cancels the run, or leaves it running, or finds the job spent. -/
theorem wp_claim {pages : Nat} (hme : me.Serves job) (hd : Integrity cfg d) (hx : JobRun d job x) :
    wp A d (claim job pages) .empty (Prog.either
      (fun o s' => match o with
        | none => x.cancelRequestedAt.isSome ∧ CancelledBy cfg A me d [] s' job
        | some (run, _) => run = x ∧ Claimed d s' job x)
      (fun e _ => (e = .stale → Spent d job) ∧ e ≠ .notFound)) := by
  have hA := respects cfg A
  refine wp_txStale ?_
  unfold claimTx
  simp only [wp_bind]
  refine wp_runs_getForUpdate_known hA hx.run hx.tenantID ?_
  have hid : x.id = job.runID := Db.run?_id hx.run
  simp only [Prog.either_ok]
  split
  · rename_i hstate
    simp only [wp_throw, Prog.either_error]
    refine ⟨by simp, fun _ => ⟨fun _ => .inl ⟨x.state, Db.stateOf_of_run hx.run, ?_⟩, by simp⟩⟩
    cases hs : x.state <;> simp_all [RunState.live]
  rename_i hstate
  have hstate : x.state = .pending ∨ x.state = .running := by
    by_contra hne
    exact hstate (not_or.mp hne)
  split
  · rename_i hcancel
    refine wp_markCancelledTx cfg me hme ⟨hx.run, hx.tenantID, hx.sessionID⟩ (.inl ?_) hd
      (by simp [Steady]) (fun _ hended => ⟨hcancel, hended⟩) fun e _ hfail => ?_
    · rcases hstate with hs | hs <;> simp [hs, RunState.terminal]
    · refine ⟨fun hstale => ?_, hfail.2 (by simp [Plain])⟩
      subst hstale
      exact absurd hfail.1 (by decide)
  rename_i hcancel
  have hcancel : x.cancelRequestedAt = none := by simpa using hcancel
  simp only [wp_bind]
  refine wp_runs_steps hA (by simp [hid]) ?_
  have hrows : Runs.stepsIn (view d (Local.empty.after [Row.run job.runID] [])) job.tenantID x.id =
      Runs.sorted (d.stepsOf job.runID) := by
    obtain ⟨z, hz⟩ := Option.isSome_iff_exists.mp hx.own
    simp [Runs.stepsIn, hid, hz]
  rw [hrows]
  simp only [Prog.either_ok]
  split
  · rename_i hsteps
    obtain ⟨s, hs, hidx⟩ := List.any_eq_true.mp hsteps
    simp only [wp_throw, Prog.either_error]
    refine ⟨by simp, fun _ => ⟨fun _ => .inr ⟨s, ?_, by simpa using hidx⟩, by simp⟩⟩
    simpa [Runs.sorted] using hs
  rename_i hsteps
  have hnew : Uncommitted d job := by
    intro s hs hidx
    exact hsteps (List.any_eq_true.mpr ⟨s, by simpa [Runs.sorted] using hs, by simpa using hidx⟩)
  rw [wp_bind]
  refine wp_either wp_countAttempts ?_ ?_
  · rintro e _ rfl
    exact ⟨by simp, fun _ => ⟨by simp, by simp⟩⟩
  rintro n s rfl
  simp only [Prog.either_ok]
  split
  · rename_i hpending
    simp only [wp_bind, Runs.setState, hid]
    refine wp_runs_update_found hA (by simpa using hx.own) fun _ => ?_
    simp only [Prog.either_ok, wp_pure']
    exact ⟨trivial, hnew, hcancel, .inl ⟨hpending, by simp⟩⟩
  · rename_i hpending
    simp only [wp_pure', Prog.either_ok]
    exact ⟨trivial, hnew, hcancel, .inr ⟨hstate.resolve_left hpending, rfl⟩⟩

variable (cfg me) in
/-- A failed step leaves the run finished, and its waits settled. -/
theorem wp_failRun (hme : me.Serves job) (hd : Integrity cfg d) (hx : JobRun d job x) :
    wp A d (failRun job reason message) .empty (Prog.either
      (fun _ s' => (x.state.terminal = true ∧ s'.writes = []) ∨ (x.state.terminal = false ∧
        Ended cfg A me d [] s' job .failed reason message (.runFailed job.runID reason message)))
      (fun _ _ => True)) := by
  unfold failRun
  rw [wp_bind, wp_attempt]
  refine wp_runs_getForUpdate_known (respects cfg A) hx.run hx.tenantID ?_
  have hid : x.id = job.runID := Db.run?_id hx.run
  simp only [Prog.either_ok]
  split
  · rename_i hterm
    simp only [wp_pure', Prog.either_ok]
    exact .inl ⟨hterm, rfl⟩
  · rename_i hterm
    have hterm : x.state.terminal = false := by simpa using hterm
    simp only [wp_bind, hid]
    refine wp_end cfg me (x := x) hme ⟨hx.run, hx.tenantID, hx.sessionID⟩ rfl rfl (.inl hterm)
      hd (by simp [Steady]) ?_ (fun _ _ _ => trivial) (fun _ _ _ => trivial)
    intro s' hended
    exact .inr ⟨hterm, hended⟩

variable (cfg me) in
/-- The cancellation after a stream error does not look at the run first. -/
theorem wp_cancelRun (hme : me.Serves job) (hforces : me.forces = true) (hd : Integrity cfg d)
    (hx : JobRun d job x) :
    wp A d (cancelRun job) .empty (Prog.either
      (fun _ s' => CancelledBy cfg A me d [] s' job) (fun _ _ => True)) := by
  refine wp_txStale ?_
  exact wp_markCancelledTx cfg me hme ⟨hx.run, hx.tenantID, hx.sessionID⟩
    (.inr ⟨rfl, hforces⟩) hd (by simp [Steady]) (fun _ hended => hended) fun _ _ _ => trivial

/-! ## Commit -/

variable (cfg me) in
theorem wp_appendAgent (debt : Debt) (hp : payload.routine = true) :
    wp A d (appendAgent job payload) st (Prog.either
      (fun _ s' => ActsFrom cfg me d st.writes debt s'.writes debt) (fun e _ => ordinary e = true)) := by
  unfold appendAgent
  rw [wp_bind]
  refine wp_either (wp_append_quiet cfg me debt hp) ?_ ?_
  · rintro e _ ⟨rfl, -⟩
    rfl
  intro _ s' hlog
  simp only [Prog.either_ok, wp_pure']
  exact hlog.acts

/-- A known run is found in the tables as the transaction leaves them. -/
theorem JobRun.after {v : Db} (hx : JobRun v job x) (ws : List Write) :
    ((applyAll v ws).ownRun job.tenantID job.runID).isSome :=
  (Db.extends_applyAll v ws).ownRun hx.own

/-- What follows a committed step: a wait that was looked at once, a question or the next
    step, or the end of the run. -/
inductive Classified (cfg : Settings) (A : List Row → Db → Db → Prop) (me : Part) (d : Db)
    (st : Local Row Write) (job : StepJob) (s : Local Row Write) : Prop where
  | waited {s₁ : Local Row Write} {call : String} {debt : Debt} :
      Opens cfg A me d st s₁ job.tenantID (deterministicWaitID cfg job.runID job.stepIndex call)
        (some (job.runID, .successor job.stepIndex)) debt →
      ActsFrom cfg me.working d s₁.writes debt s.writes none → Classified cfg A me d st job s
  | moved : ActsFrom cfg me.working d st.writes (some (job.runID, .successor job.stepIndex))
        s.writes none → Classified cfg A me d st job s
  | completed {s₁ : Local Row Write} :
      ActsFrom cfg me.closing d st.writes (some (job.runID, .successor job.stepIndex))
        s₁.writes none → (∀ r ∈ st.locks, r ∈ s₁.locks) →
      Settles cfg A me d s₁ s job.tenantID job.runID → Classified cfg A me d st job s

omit [Sharpens cfg A] in
theorem Classified.acts (h : Classified cfg A me d st job s)
    (hopens : ∀ call, me.opens (deterministicWaitID cfg job.runID job.stepIndex call)) :
    ActsFrom cfg me d st.writes (some (job.runID, .successor job.stepIndex)) s.writes none := by
  cases h with
  | waited hopen hrest => exact (hopen.acts (hopens _)).trans (hrest.mono me.working_le)
  | moved hacts => exact hacts.mono me.working_le
  | completed hacts _ hset =>
    exact (hacts.mono me.closing_le).trans (hset.reached.acts.mono me.still_le)

variable (cfg me) in
/-- Parking is the same for a wait and for a question. -/
theorem wp_park {question : Question}
    (hjob : me.job = some job) (hown : ((view d st).ownRun job.tenantID job.runID).isSome)
    (hok : ∀ s', ActsFrom cfg me.working d st.writes (some (job.runID, .successor job.stepIndex))
      s'.writes none → Q (.ok ()) s')
    (herr : ∀ e s', ordinary e = true → Q (.error e) s') :
    wp A d (Runs.setState job.tenantID job.runID .awaiting "" "") st (Prog.either
      (fun _ s₁ => wp A d (appendAgent job (.runAwaiting job.runID question)) s₁ Q)
      (fun e s' => Q (.error e) s')) := by
  refine wp_runs_update_found (respects cfg A) hown fun _ => ?_
  let s₁ := st.after [.run job.runID] [.setState job.runID .awaiting "" ""]
  have hpark : ActsFrom cfg me.working d st.writes (some (job.runID, .successor job.stepIndex))
      s₁.writes none := .snoc .nil (.park hjob)
  refine wp_either (wp_appendAgent cfg me.working none rfl) (fun e s' hpost => herr e s' hpost) ?_
  intro _ s' hpost
  exact hok s' (hpark.trans hpost)

variable (cfg me) in
/-- The last step of a run: the result is stored before the waits are settled. -/
theorem wp_complete (hjob : me.job = some job) (hme : me.Serves job)
    (hx : JobRun (view d st) job x)
    (hv : Integrity cfg (view d st)) (hst : Steady st.writes)
    (hok : ∀ s', Classified cfg A me d st job s' → Q (.ok ()) s')
    (herr : ∀ e s', ordinary e = true → Q (.error e) s') : wp A d (do
      Runs.setState job.tenantID job.runID .completed "" ""
      Runs.setResult job.tenantID job.runID final
      appendAgent job (.runCompleted job.runID final)
      abandonParentWaits job.tenantID job.runID
      resolveChildWaits job.tenantID job.runID) st Q := by
  have hA := respects cfg A
  simp only [wp_bind, Runs.setState, Runs.setResult, appendAgent]
  refine wp_runs_update_found hA hx.own fun _ => ?_
  refine wp_runs_update_found hA (by simpa using hx.after [.setState job.runID .completed "" ""])
    fun _ => ?_
  let s₁ := (st.after [.run job.runID] [.setState job.runID .completed "" ""]).after
    [.run job.runID] [.setResult job.runID final]
  have hdone : ActsFrom cfg me.closing d st.writes (some (job.runID, .successor job.stepIndex))
      s₁.writes (some (job.runID, .verdict .completed)) := by
    simp only [s₁, Local.after_writes, List.append_assoc, List.cons_append, List.nil_append]
    refine .snoc .nil (.complete hjob hme.ends fun y hy => ?_)
    cases hy.symm.trans hx.run
    exact hme.session.trans (by rw [hx.sessionID])
  refine wp_either (wp_append_verdict cfg me.closing hme.ends hme.session rfl) ?_ ?_
  · rintro e _ ⟨rfl, -⟩
    exact herr _ _ rfl
  intro _ s₂ hlog
  have hacts := hdone.trans hlog.acts
  have hsteady : Steady s₂.writes := by
    refine hlog.steady ?_
    simpa [s₁] using hst.append (show Steady [Write.setState job.runID .completed "" "",
      .setResult job.runID final] by simp [Steady, Write.enters])
  obtain ⟨y, hy, hsame⟩ := hacts.extends.run hx.run
  have hsy : me.session = some y.sessionID := by rw [hme.session, hsame.sessionID, hx.sessionID]
  simp only [Prog.either_ok, wp_pure']
  refine wp_either (wp_abandonParentWaits cfg me.still none hsteady ⟨y, hy, hsy⟩)
    (fun _ _ hpost₃ => hpost₃.elim) ?_
  intro _ s₃ hreach
  obtain ⟨z, hz, hsame'⟩ := hreach.acts.extends.run hy
  refine wp_either (wp_resolveChildWaits cfg me.still
    (hreach.acts.integrity (hacts.integrity hv)) ⟨z, hz, hsy.trans (by rw [hsame'.sessionID])⟩)
    (fun _ _ hpost₄ => herr _ _ hpost₄.1) ?_
  intro _ s₄ hpost₄
  refine hok _ (.completed hacts (fun r hr => hlog.locks r ?_) ⟨s₃, hreach, hpost₄⟩)
  simp [hr]

variable (cfg me) in
/-- The commit of a step ends with its successor: a job, a parked run or a finished one. -/
theorem wp_classify {run : AgentRun} (hjob : me.job = some job) (hme : me.Serves job)
    (hx : JobRun (view d st) job x)
    (hv : Integrity cfg (view d st)) (hst : Steady st.writes) (hlock : Row.run job.runID ∈ st.locks)
    (hid : run.id = job.runID) (ht : run.tenantID = job.tenantID)
    (hstep : ∃ s ∈ (view d st).stepsOf job.runID, s.stepIndex = job.stepIndex)
    (hids : ∀ id ∈ rec.waitRunIDs, ∃ y, (view d st).run? id = some y ∧
      y.tenantID = job.tenantID ∧ y.sessionID = job.sessionID) :
    wp A d (classify cfg job run step rec final) st (Prog.either
      (fun _ s' => Classified cfg A me d st job s') (fun e _ => ordinary e = true)) := by
  have hses' : me.session = some x.sessionID := by rw [hme.session, hx.sessionID]
  unfold classify
  split
  · rw [wp_bind]
    refine wp_either (wp_createWait cfg me (p := x) (i := job.stepIndex) hjob hid hses' hv
      (by rw [hid]; exact hx.run) (by rw [hx.tenantID, ht]) (by rw [hid]; exact hlock) hst
      (by rw [hid]; exact hstep) ?_) (fun _ _ h => h) ?_
    · intro id hmem
      rw [hx.tenantID, hx.sessionID]
      exact hids id hmem
    intro park s₁ hpost
    rw [hid, ht] at hpost
    have hopen : Opens cfg A me d st s₁ job.tenantID _ _ _ := hpost
    simp only [Prog.either_ok]
    cases park with
    | false =>
      simp only [Bool.not_false, if_true, wp_pure', Prog.either_ok]
      exact .waited hopen .nil
    | true =>
      simp only [Bool.not_true, Bool.false_eq_true, if_false, wp_bind]
      obtain ⟨ws, hws⟩ := hopen.writes
      refine wp_park cfg me hjob ?_ (fun s' hacts => .waited hopen hacts) fun _ _ h => h
      rw [view, hws, applyAll_append]
      exact hx.after ws
  split
  · rw [wp_bind]
    exact wp_park cfg me hjob hx.own (fun s' hacts => .moved hacts) fun _ _ h => h
  split
  · refine wp_enqueue fun now => ?_
    exact .moved (.snoc .nil (.proceed hjob))
  · rw [ht, hid]
    exact wp_complete cfg me hjob hme hx hv hst (fun s' h => h) fun _ _ h => h

/-- The step of the job was committed, together with what follows it. -/
structure Committed (cfg : Settings) (A : List Row → Db → Db → Prop) (me : Part) (d : Db)
    (job : StepJob) (x : AgentRun) (s : Local Row Write) : Prop where
  uncommitted : Uncommitted d job
  running : x.state = .running
  cancel : x.cancelRequestedAt = none
  parts : ∃ s₁, Act cfg me true d none s₁.writes (some (job.runID, .successor job.stepIndex)) ∧
    (∃ st : RunStep, st.stepIndex = job.stepIndex ∧ st ∈ (view d s₁).stepsOf job.runID) ∧
    Row.session job.sessionID ∈ s₁.locks ∧ Classified cfg A me d s₁ job s

omit [Sharpens cfg A] in
theorem Committed.acts (h : Committed cfg A me d job x s)
    (hopens : ∀ call, me.opens (deterministicWaitID cfg job.runID job.stepIndex call)) :
    Acts cfg me d s.writes none := by
  obtain ⟨s₁, hstep, -, -, hrest⟩ := h.parts
  have hfirst : Acts cfg me d s₁.writes (some (job.runID, .successor job.stepIndex)) := by
    simpa using Acts.nil.snoc hstep
  exact ActsFrom.trans hfirst (hrest.acts hopens)

omit [Sharpens cfg A] in
theorem Committed.spent (h : Committed cfg A me d job x s)
    (hopens : ∀ call, me.opens (deterministicWaitID cfg job.runID job.stepIndex call)) :
    Spent (view d s) job := by
  obtain ⟨s₁, -, ⟨st, hidx, hst⟩, -, hrest⟩ := h.parts
  exact .inr ⟨st, ((hrest.acts hopens).extends.steps _).subset hst, hidx⟩

variable (cfg me) in
/-- A commit ends with the step committed or the run cancelled, or finds the job spent.
    The history it writes is the one the delivery works on, with the messages of the step. -/
theorem wp_commitOutcome {attempt : Nat} {env : Envelope}
    (hjob : me.job = some job) (hcopy : me.copy = some (job.runID, env.messages))
    (hme : me.Serves job) (hd : Integrity cfg d) (hx : JobRun d job x) (hbegun : x.state ≠ .pending)
    (hids : ∀ id ∈ rec.waitRunIDs, ∃ y, d.run? id = some y ∧
      y.tenantID = job.tenantID ∧ y.sessionID = job.sessionID) :
    wp A d (commitOutcome cfg job attempt env step rec final) .empty (Prog.either
      (fun o s' => match o with
        | none => x.cancelRequestedAt.isSome ∧ CancelledBy cfg A me d [] s' job
        | some _ => Committed cfg A me d job x s')
      (fun e _ => e = .stale → Spent d job)) := by
  have hA := respects cfg A
  refine wp_txStale ?_
  unfold commitTx
  simp only [wp_bind]
  refine wp_runs_getForUpdate_known hA hx.run hx.tenantID ?_
  have hid : x.id = job.runID := Db.run?_id hx.run
  simp only [Prog.either_ok]
  split
  · rename_i hstate
    simp only [wp_throw, Prog.either_error]
    refine ⟨by simp, fun _ _ => .inl ⟨x.state, Db.stateOf_of_run hx.run, ?_⟩⟩
    cases hs : x.state <;> simp_all [RunState.live]
  rename_i hstate
  have hrunning : x.state = .running := by simpa using hstate
  split
  · rename_i hcancel
    refine wp_markCancelledTx cfg me hme ⟨hx.run, hx.tenantID, hx.sessionID⟩
      (.inl (by simp [hrunning, RunState.terminal])) hd (by simp [Steady])
      (fun _ hended => ⟨hcancel, hended⟩) fun e _ hfail hstale => ?_
    subst hstale
    exact absurd hfail.1 (by decide)
  rename_i hcancel
  have hcancel : x.cancelRequestedAt = none := by simpa using hcancel
  simp only [wp_bind, Runs.setHistory]
  refine wp_runs_update_found hA (by simpa using hx.own) fun _ => ?_
  rw [Prog.either_ok, wp_attempt]
  refine wp_runs_insertStep hA ?_ ?_ ?_
  · intro hnone
    have hown := hx.after [.setHistory job.runID
      (Envelope.encode { env with messages := env.messages ++ step.messages }) .step]
    simp only [view_after, view_empty, applyAll_nil] at hnone
    rw [hnone] at hown
    cases hown
  · intro s hs hidx
    simp only [Prog.either_ok, wp_throw, Prog.either_error]
    refine ⟨by simp, fun _ _ => .inr ⟨s, ?_, hidx⟩⟩
    simpa [Write.onSteps] using hs
  intro hnew
  have hnew : Uncommitted d job := by simpa [Uncommitted, Write.onSteps] using hnew
  simp only [Prog.either_ok, wp_bind, wp_attempt]
  let row : RunStep := ⟨job.runID, job.stepIndex, attempt, step.tokensIn, step.tokensOut,
    step.finishReason⟩
  refine wp_mono (wp_and (Quiet.accountStepCost x row).wp wp_grows) ?_
  rintro r s₁ ⟨⟨q, hq, hquiet⟩, hlocks₁, -⟩
  simp only [appendAgent, wp_bind]
  refine wp_append hA (fun _ _ _ => ⟨by simp, fun _ => by simp⟩) ?_
  intro ses hses₁ _
  simp only [Prog.either_ok, wp_pure']
  let e : Event := ⟨job.sessionID, ses.lastSeq + 1, actorAgent job.runID,
    .stepFinished job.runID job.stepIndex step.tokensIn step.tokensOut step.finishReason⟩
  let s₂ := s₁.after [.session job.sessionID, .session job.sessionID]
    [.bumpSeq job.sessionID, .insertEvent e]
  have hws : s₂.writes = [.setHistory job.runID
      (Envelope.encode { env with messages := env.messages ++ step.messages }) .step,
      .insertStep row] ++ q ++ [.bumpSeq job.sessionID, .insertEvent e] := by
    simp [s₂, hq, row]
  have hstep : Act cfg me true d none s₂.writes (some (job.runID, .successor job.stepIndex)) := by
    rw [hws]
    exact .step (e := e) rfl hjob hcopy hx.run hrunning hcancel
      (Envelope.encode_messages _) rfl rfl hnew hquiet rfl
  have hacts : Acts cfg me d s₂.writes (some (job.runID, .successor job.stepIndex)) := by
    simpa using Acts.nil.snoc hstep
  have hstored : row ∈ (view d s₂).stepsOf job.runID := by
    rw [view, hws, applyAll_append, applyAll_append]
    refine ((Db.extends_applyAll _ _).steps _).subset (((Db.extends_applyAll _ q).steps _).subset ?_)
    simp [Write.onSteps, row]
  have hsteady : Steady s₂.writes := by
    rw [hws]
    refine Steady.append (Steady.append (by simp [Steady, Write.enters]) ?_)
      (by simp [Steady, Write.enters])
    exact fun w hw => Write.enters_quiet (hquiet w hw)
  have hext : d.Extends (view d s₂) := Db.extends_applyAll d s₂.writes
  obtain ⟨z, hz, hsame⟩ := hext.run hx.run
  have hlock : Row.run job.runID ∈ s₂.locks := by
    have := hlocks₁ (.run job.runID) (by simp)
    simp [s₂, this]
  refine wp_mono (wp_classify cfg me (x := z) hjob hme
    ⟨hz, hsame.tenantID.trans hx.tenantID, hsame.sessionID.trans hx.sessionID⟩ (hacts.integrity hd)
    hsteady hlock hid hx.tenantID ⟨row, hstored, rfl⟩ ?_) ?_
  · intro id hmem
    obtain ⟨u, hu, htu, hsu⟩ := hids id hmem
    obtain ⟨u', hu', hsame'⟩ := hext.run hu
    exact ⟨u', hu', hsame'.tenantID.trans htu, hsame'.sessionID.trans hsu⟩
  intro res s₃ hpost
  cases res with
  | error err =>
    have hord : ordinary err = true := hpost
    refine ⟨fun he => ?_, fun _ he => ?_⟩
    · subst he
      cases hord
    · subst he
      cases hord
  | ok => exact ⟨hnew, hrunning, hcancel, s₂, hstep, ⟨row, rfl, hstored⟩, by simp [s₂], hpost⟩

end

end Ultracore.Protocol
