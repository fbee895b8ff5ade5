-- SUMMARY: A terminal verdict is recorded once, and a stale delivery is harmless, where no worker cancels or fails a run blindly.
import Ultracore.Protocol.Verdicts
import Ultracore.System.Guarantees

/-!
# Verdicts and stale deliveries

Two of the transactions that finish a run check less than the others. The cancellation
after a failed stream does not look at the run at all. The failure of a step checks that
the run is not finished, not that the step is still to be done. Both are harmless in runs
in which they happen to find what they do not check.
-/

namespace Ultracore.System

open Txn Loop Protocol

/-- The process whose transaction is committed. -/
def committer (c : Conf) : Action Input Nat Proc → Option Proc
  | .commit j | .lose j => (c.procs[j]?).bind Slot.proc
  | _ => none

theorem committer_eq {c : Conf} {a : Action Input Nat Proc} {j : Nat}
    {p : Proc} (ha : a = .commit j ∨ a = .lose j) (hp : c.world.procs[j]? = some (some p)) :
    committer c a = some p := by
  obtain ⟨sl, hsl, hproc⟩ : ∃ sl, c.procs[j]? = some sl ∧ sl.proc = some p := by
    simpa using hp
  rcases ha with rfl | rfl <;> simp [committer, hsl, hproc]

/-! ## A verdict is recorded once -/

/-- The cancellation after a failed stream does not meet a run that has failed or was
    cancelled meanwhile. -/
def verdictOpen (c : Conf) (a : Action Input Nat Proc) : Bool :=
  match committer c a with
  | some (.cancelling _ job) => (c.db.deadIn job.runID).isNone
  | _ => true

section
variable {cfg : Settings} {A : Sight} {d : Db} {p p' : Proc}
  {c c' : Conf} {a : Action Input Nat Proc} {log log' ws : List Write}
  {r : RunID}

/-- Only the cancellation after a failed stream is blind. -/
theorem cancelling_of_forces (hf : (p.part cfg d).forces = true)
    (he : (p.part cfg d).ends = some r) : ∃ n job, p = .cancelling n job ∧ job.runID = r := by
  cases p with
  | cancelling n job => exact ⟨n, job, rfl, Option.some.inj he⟩
  | requestTx req => cases req <;> cases hf
  | sweeping _ _ due => cases due <;> cases hf
  | _ => cases hf

theorem not_dead_of_verdictOpen (hok : verdictOpen c a = true) (hp : committer c a = some p)
    (hf : (p.part cfg c.db).forces = true) (he : (p.part cfg c.db).ends = some r) :
    ¬Dead c.db r := by
  obtain ⟨n, job, rfl, rfl⟩ := cancelling_of_forces hf he
  rw [dead_iff]
  simpa [verdictOpen, hp] using hok

theorem Commits.announced (h : Commits cfg A d p p' ws)
    (hforce : (p.part cfg d).forces = true → (p.part cfg d).ends = some r → ¬Dead d r)
    (hr : Announced d r) : Announced (applyAll d ws) r := by
  cases h with
  | ack => exact hr
  | acts _ ho => exact (ho.acts.balanced hr hforce).paid rfl

theorem Commits.fate_kept (h : Commits cfg A d p p' ws)
    (hforce : (p.part cfg d).forces = true → (p.part cfg d).ends = some r → ¬Dead d r)
    (hr : Dead d r) : (applyAll d ws).fateOf r = d.fateOf r := by
  cases h with
  | ack => rfl
  | acts _ ho => exact fateOf_kept hr (ho.acts.unconcerned hr fun hf he => hforce hf he hr)

theorem run_announced (hrun : RunOf cfg (fun c a => verdictOpen c a = true) log c)
    (r : RunID) : Announced c.db r :=
  run_keeps (K := fun _ d => Announced d r) (fun _ _ _ h => h)
    (fun _ hok ha hj hc h =>
      hc.announced (not_dead_of_verdictOpen hok (committer_eq ha hj)) h) .refl rfl hrun

theorem run_fate_kept (hrun : RunOf cfg (fun c a => verdictOpen c a = true) log c)
    (hr : Dead c.db r)
    (hrun' : (app cfg).machine.Run (fun c a => verdictOpen c a = true) c log' c') :
    c'.db.fateOf r = c.db.fateOf r := by
  refine (run_keeps (K := fun _ d => Dead d r ∧ d.fateOf r = c.db.fateOf r) (fun _ _ _ h => h) ?_
    hrun ⟨hr, rfl⟩ hrun').2
  rintro c₁ _ _ ws a j p p' _ hok ha hj hc ⟨hdead, hsame⟩
  have hkept := hc.fate_kept (not_dead_of_verdictOpen hok (committer_eq ha hj)) hdead
  refine ⟨?_, hkept.trans hsame⟩
  rw [dead_iff, Db.deadIn, hkept]
  exact dead_iff.mp hdead

end

/-- In a run in which the cancellation after a failed stream never meets a run that has
    failed or was cancelled: a failed or cancelled run keeps its state, its failure reason
    and its failure message, and exactly one event announces its failure or cancellation, in
    the log of its session. -/
theorem verdict_recorded_once (cfg : Settings) {log : List Write}
    {c : Config Db Row Write Err Input Proc}
    (hrun : (app cfg).machine.Run (fun c a => verdictOpen c a = true) boot log c) {r : RunID}
    {x : AgentRun} (hx : c.db.run? r = some x) (hdead : x.state = .failed ∨ x.state = .cancelled) :
    (∃ e, c.db.endingsOf r = [e] ∧ e.sessionID = x.sessionID) ∧
    ∀ log' c', (app cfg).machine.Run (fun c a => verdictOpen c a = true) c log' c' →
      ∃ y, c'.db.run? r = some y ∧ y.state = x.state ∧ y.failureReason = x.failureReason ∧
        y.failureMessage = x.failureMessage := by
  have hd : x.state.dead = true := by rcases hdead with h | h <;> simp [h, RunState.dead]
  refine ⟨?_, fun log' c' hrun' => ?_⟩
  · have hone := run_announced hrun r
    rw [Announced, Db.deadIn_of_run hx, if_pos hd, Option.toList_some] at hone
    obtain ⟨e, he, hes⟩ := List.map_eq_singleton_iff.mp hone
    exact ⟨e, he, hes⟩
  · have hkept := run_fate_kept hrun ⟨x.state, Db.stateOf_of_run hx, hd⟩ hrun'
    rw [Db.fateOf_of_run hx] at hkept
    obtain ⟨y, hy, hfate⟩ := Option.map_eq_some_iff.mp hkept
    exact ⟨y, hy, congrArg Fate.state hfate, congrArg Fate.failureReason hfate,
      congrArg Fate.failureMessage hfate⟩

/-- Process `j` claims job `n` and begins to stream. -/
def stream (j n : Nat) (job : StepJob) : Schedule :=
  [.act (.spawn (.work n job)), .tx j (.pages 5), .tx j .go, .tx j (.resolve .ok)]

/-- The provider fails the stream of process `j`, which fails the run. -/
def fail (j : Nat) : Schedule :=
  [.tx j (.streamError (.provider "provider_error" "the provider failed")), .tx j .go]

theorem verdict_recorded_once_failed :
    ∃ log c x, (app sample).machine.Run (fun c a => verdictOpen c a = true) boot log c ∧
      c.db.run? mainRun = some x ∧ x.state = .failed ∧
      ∃ e, c.db.endingsOf mainRun = [e] ∧ e.sessionID = x.sessionID := by
  have hplay : ((app sample).machine.play verdictOpen boot
      (startMain ++ stream 2 0 (mainJob 0) ++ fail 2)).map (fun c => c.db.stateOf mainRun) =
      some (some .failed) := by decide +kernel
  obtain ⟨c, hc, hstate⟩ := Option.map_eq_some_iff.mp hplay
  obtain ⟨log, hrun⟩ := Machine.play_run hc
  obtain ⟨x, hx, hs⟩ := Option.map_eq_some_iff.mp hstate
  exact ⟨log, c, x, hrun, hx, hs, (verdict_recorded_once sample hrun hx (.inl hs)).1⟩

/-- Two deliveries of the first step stream, and the user asks the run to stop, which
    process 2 notices. Then the stream of process 3 fails. -/
def failStopped : Schedule :=
  startMain ++ stream 2 0 (mainJob 0) ++ stream 3 0 (mainJob 0) ++
    [.act (.spawn (.request (.cancelRun "tenant" mainRun))), .tx 4 .go, .tx 4 .go, .tx 2 .poll] ++
    fail 3

/-- The stream of process 2 is interrupted, and it cancels the run. -/
def cancelBlindly : Schedule := [.tx 2 (.streamError .interrupted), .tx 2 .go]

/-- The failed run is cancelled: its state, its reason and its message are overwritten, and
    a second event announces its end. -/
theorem verdict_recorded_once_overwritten :
    ∃ log log' c c' x y, (app sample).machine.Reaches boot log c ∧
      (app sample).machine.Reaches c log' c' ∧ c.db.run? mainRun = some x ∧
      c'.db.run? mainRun = some y ∧ x.state = .failed ∧ x.failureReason = "provider_error" ∧
      y.state = .cancelled ∧ y.failureReason = "" ∧ (c.db.endingsOf mainRun).length = 1 ∧
      (c'.db.endingsOf mainRun).length = 2 := by
  have hbefore : (played failStopped).map
      (fun c => ((c.db.run? mainRun).map fun x => (x.state, x.failureReason),
        (c.db.endingsOf mainRun).length)) = some (some (.failed, "provider_error"), 1) := by
    decide +kernel
  obtain ⟨log, c, hc, hrun, hbefore⟩ := play_boot hbefore
  have hafter : ((played failStopped).bind fun c =>
      (app sample).machine.play (fun _ _ => true) c cancelBlindly).map
      (fun c => ((c.db.run? mainRun).map fun x => (x.state, x.failureReason),
        (c.db.endingsOf mainRun).length)) = some (some (.cancelled, ""), 2) := by decide +kernel
  simp only [Prod.mk.injEq] at hbefore
  simp only [hc, Option.bind_some] at hafter
  obtain ⟨c', hc', hend⟩ := Option.map_eq_some_iff.mp hafter
  obtain ⟨hend, hcount'⟩ := Prod.mk.inj hend
  obtain ⟨log', hrun'⟩ := Machine.play_reaches hc'
  obtain ⟨x, hx, hfailed⟩ := Option.map_eq_some_iff.mp hbefore.1
  obtain ⟨y, hy, hcancelled⟩ := Option.map_eq_some_iff.mp hend
  obtain ⟨hs, hreason⟩ := Prod.mk.inj hfailed
  obtain ⟨hs', hreason'⟩ := Prod.mk.inj hcancelled
  exact ⟨log, log', c, c', x, y, hrun, hrun', hx, hy, hs, hreason, hs', hreason', hbefore.2, hcount'⟩

/-! ## Stale deliveries -/

/-- The job that a process executes, before it is about to acknowledge it. -/
def Proc.job? : Proc → Option StepJob
  | .work _ job | .failing _ job _ _ | .cancelling _ job => some job
  | .starting d | .resolving d | .compacting d _ | .compacted d _ | .streaming d | .spawning d _
  | .creating d _ _ | .denying d _ _ | .committing d _ _ => some d.job
  | _ => none

/-- Whether a process may be a delivery of the job. -/
def Proc.delivers (job : StepJob) : Proc → Bool
  | .acking _ => true
  | p => decide (p.job? = some job)

/-- The process that takes an action. -/
def actor (c : Conf) : Action Input Nat Proc → Option Proc
  | .begin j _ | .exec j | .commit j | .lose j | .rollback j | .abort j | .crash j =>
    (c.procs[j]?).bind Slot.proc
  | .spawn _ | .env _ => none

/-- Whether the step of the job is committed. -/
def committed (d : Db) (job : StepJob) : Bool :=
  (d.stepsOf job.runID).any fun s => s.stepIndex = job.stepIndex

/-- Where the step of its job is committed, a delivery fails no run that is not finished, and
    writes no compacted history. -/
def heedsCommit (c : Conf) (a : Action Input Nat Proc) : Bool :=
  match committer c a with
  | some (.failing _ job _ _) =>
    !committed c.db job || (c.db.stateOf job.runID).any RunState.terminal
  | some (.compacting d _) => !committed c.db d.job
  | _ => true

/-- What a delivery may do to run `r` once its step is committed: nothing to its state,
    history, result and terminal events, but to carry out a cancellation that was requested. -/
inductive Harmless (d d' : Db) (r : RunID) : Prop where
  | kept {x y : AgentRun} : d.run? r = some x → d'.run? r = some y → y.state = x.state →
      y.failureReason = x.failureReason → y.failureMessage = x.failureMessage →
      y.history = x.history → y.result = x.result → d'.verdictsOf r = d.verdictsOf r →
      Harmless d d' r
  | cancelled {x y : AgentRun} {e : Event} : d.run? r = some x → d'.run? r = some y →
      x.cancelRequestedAt.isSome = true → y.state = .cancelled → y.history = x.history →
      y.result = x.result → e.payload = .runCancelled r →
      d'.verdictsOf r = d.verdictsOf r ++ [e] → Harmless d d' r

section
variable {cfg : Settings} {A : Sight} {d : Db} {p p' : Proc}
  {c c' : Conf} {a : Action Input Nat Proc} {ws : List Write}
  {job : StepJob} {x : AgentRun}

theorem harmless_of_untouched {r : RunID} (hx : d.run? r = some x)
    (h : ∀ w ∈ ws, w.touches r = false) : Harmless d (applyAll d ws) r := by
  obtain ⟨y, hy, hkept⟩ := AgentRun.Kept.of_untouched hx h
  exact .kept hx hy (congrArg Fate.state hkept.fate) (congrArg Fate.failureReason hkept.fate)
    (congrArg Fate.failureMessage hkept.fate) hkept.history hkept.result
    (Db.verdictsOf_applyAll h)

theorem harmless_of_quiet {r : RunID} (hx : d.run? r = some x) (h : ∀ w ∈ ws, w.quiet = true) :
    Harmless d (applyAll d ws) r :=
  harmless_of_untouched hx fun w hw => Write.touches_quiet (h w hw)

/-- A cancellation that was requested: after the state is set and the event written, settling
    the waits does not touch the run. -/
theorem harmless_of_cancelled {me : Part} {s : Local Row Write} (hx : d.run? job.runID = some x)
    (hc : x.cancelRequestedAt.isSome = true) (h : CancelledBy cfg A me d [] s job) :
    Harmless d (applyAll d s.writes) job.runID := by
  obtain ⟨e, s₁, he, hws, -, -, hset⟩ := h.visits
  let ws₁ : List Write := [.setState job.runID .cancelled "" "", .bumpSeq job.sessionID,
    .insertEvent e]
  let d₁ := applyAll d s₁.writes
  have hd₁ : d₁ = applyAll d ws₁ := by simp [d₁, ws₁, hws]
  let z : AgentRun := { x with state := .cancelled, failureReason := "", failureMessage := "" }
  have hz : d₁.run? job.runID = some z := by simp [hd₁, ws₁, Write.onRun, hx, z]
  have hverdicts : d₁.verdictsOf job.runID = d.verdictsOf job.runID ++ [e] := by
    rw [hd₁]
    simp [ws₁, Db.verdictsOf, Write.apply, Db.modifyRun, Db.modifySession, he, EventPayload.verdict?]
  obtain ⟨ws', hws', huntouched⟩ := hset.reached.acts.untouched (r := job.runID)
    ⟨.cancelled, Db.stateOf_of_run hz, rfl⟩
  obtain ⟨y, hy, hkept⟩ := AgentRun.Kept.of_untouched hz huntouched
  rw [hws', applyAll_append]
  refine .cancelled hx hy hc (congrArg Fate.state hkept.fate) hkept.history hkept.result he ?_
  rw [Db.verdictsOf_applyAll huntouched]
  exact hverdicts

theorem not_uncommitted (h : committed d job = true) : ¬Uncommitted d job := by
  obtain ⟨s, hs, hidx⟩ := List.any_eq_true.mp h
  exact fun hnew => hnew s hs (by simpa using hidx)

/-- Spawning a child does not touch the run that spawns it. -/
theorem untouched_of_spawned {t : TenantID} {child : AgentRun} {id r : RunID}
    (h : Spawned d t child id ws) (hx : d.run? r = some x) : ∀ w ∈ ws, w.touches r = false := by
  cases h with
  | adopted => simp
  | created _ hnone _ he =>
    have hne : r ≠ child.id := by
      rintro rfl
      rw [hnone] at hx
      cases hx
    simp [Protocol.starting, Write.touches, Runs.inserted, hne, EventPayload.verdict?_of_routine he]

/-- What each state of a delivery can commit once its step is committed. -/
theorem Outcome.harmless {s : Local Row Write} (h : Outcome cfg A d p p' s) (hp : p.Ok d)
    (hjob : p.job? = some job) (hc : committed d job = true)
    (hfail : ∀ n reason message, p = .failing n job reason message →
      (d.stateOf job.runID).any RunState.terminal = true)
    (hcompact : ∀ dl n, p ≠ .compacting dl n) : Harmless d (applyAll d s.writes) job.runID := by
  have hdeed := h.deed
  have hnew := not_uncommitted hc
  have hrun : ∀ {n : Nat} {job : StepJob}, Delivered d n job → ∃ x, JobRun d job x :=
    fun h => h.startable.1
  cases p with
  | work | committing =>
    cases hjob
    obtain ⟨x, hx⟩ := by first | exact hrun hp | exact hrun hp.delivered
    rcases hdeed x hx with ⟨hcancel, hby⟩ | hdone
    · exact harmless_of_cancelled hx.run hcancel hby
    · exact absurd hdone.uncommitted hnew
  | starting dl | resolving dl | compacted dl _ | streaming dl | denying dl _ _ =>
    cases hjob
    obtain ⟨x, hx⟩ := hrun hp.delivered
    exact harmless_of_quiet hx.run hdeed
  | spawning =>
    cases hjob
    obtain ⟨x, hx⟩ := hrun hp.1.delivered
    exact harmless_of_quiet hx.run hdeed.1
  | creating =>
    cases hjob
    obtain ⟨x, hx⟩ := hrun hp.1.1.delivered
    obtain ⟨id, hspawned, -⟩ := hdeed
    exact harmless_of_untouched hx.run (untouched_of_spawned hspawned hx.run)
  | compacting dl n => exact absurd rfl (hcompact dl n)
  | failing n job' reason message =>
    cases hjob
    obtain ⟨x, hx⟩ := hrun hp
    have hterm : x.state.terminal = true := by
      simpa [Db.stateOf_of_run hx.run] using hfail n reason message rfl
    rcases hdeed x hx with ⟨-, hws⟩ | ⟨hfalse, -⟩
    · rw [hws]
      exact harmless_of_quiet hx.run (by simp)
    · rw [hterm] at hfalse
      cases hfalse
  | cancelling =>
    cases hjob
    obtain ⟨x, hx⟩ := hrun hp.1
    have hcancel := hp.2
    rw [Db.cancelOf_of_run hx.run] at hcancel
    exact harmless_of_cancelled hx.run (Option.some.inj hcancel) hdeed
  | _ => cases hjob

end

/-- Once a delivery has committed its step, no delivery of the same job changes the state, the
    history, the result or the terminal events of the run, except to carry out a cancellation
    that was requested: for every step in which no delivery fails a run that is not finished,
    or compacts its history, after the step of its job was committed. -/
theorem stale_delivery_harmless (cfg : Settings) {log ws : List Write}
    {c c' : Config Db Row Write Err Input Proc} {a : Action Input Nat Proc}
    (hrun : (app cfg).machine.Run (fun c a => heedsCommit c a = true) boot log c)
    (hok : heedsCommit c a = true) (hs : (app cfg).machine.Step c a ws c') {p : Proc} {job : StepJob}
    (hp : actor c a = some p) (hjob : p.delivers job = true) (hc : committed c.db job = true) :
    Harmless c.db c'.db job.runID := by
  have hsound := (run_sound hrun).1
  obtain ⟨x, hx⟩ : ∃ x, c.db.run? job.runID = some x := by
    obtain ⟨s, hs, -⟩ := List.any_eq_true.mp hc
    by_contra hnone
    have hsteps : c.db.stepsOf job.runID = [] :=
      hsound.integrity.steps (Option.eq_none_iff_forall_ne_some.mpr fun x hx => hnone ⟨x, hx⟩)
    rw [hsteps] at hs
    cases hs
  cases step_advance hrun hs with
  | still hd =>
    rw [hd]
    exact .kept hx hx rfl rfl rfl rfl rfl rfl
  | @commit j q p' _ ha hj hcommits hd =>
    have hq : committer c a = some q := committer_eq ha hj
    obtain rfl : q = p := by
      rcases ha with rfl | rfl <;> exact Option.some.inj (hq.symm.trans hp)
    rw [hd]
    cases hcommits with
    | ack => exact harmless_of_untouched hx (by simp [Write.touches])
    | acts hne ho =>
      have hj? : q.job? = some job := by
        cases q with
        | acking n => exact absurd rfl (hne n)
        | _ => simpa [Proc.delivers] using hjob
      refine ho.harmless (hsound.procs q (List.mem_of_getElem? hj)) hj? hc ?_ ?_
      · rintro n reason message rfl
        simpa [heedsCommit, hq, hc] using hok
      · rintro dl n rfl
        cases hj?
        simp [heedsCommit, hq, hc] at hok

/-- Two deliveries of the first step stream, and process 2 commits the step. -/
def overtaken : Schedule :=
  startMain ++ stream 2 0 (mainJob 0) ++ stream 3 0 (mainJob 0) ++
    [.tx 2 (.finish moreWork), .tx 2 .go]

/-- Process 3 is about to commit text that its stream produced after the step was
    committed. -/
def emitLate : Schedule :=
  overtaken ++ [.act (.begin 3 (.emit (.text 0 "late")))] ++ List.replicate 3 (.act (.exec 3))

theorem stale_delivery_harmless_late :
    ∃ log ws c c' p, (app sample).machine.Run (fun c a => heedsCommit c a = true) boot log c ∧
      (app sample).machine.Step c (.commit 3) ws c' ∧ actor c (.commit 3) = some p ∧
      p.delivers (mainJob 0) = true ∧ committed c.db (mainJob 0) = true ∧
      Harmless c.db c'.db mainRun := by
  have hplay : (((app sample).machine.play heedsCommit boot emitLate).map fun c =>
      (((app sample).machine.next c (.commit 3)).isSome, heedsCommit c (.commit 3),
        (actor c (.commit 3)).map (Proc.delivers (mainJob 0)), committed c.db (mainJob 0))) =
      some (true, true, some true, true) := by decide +kernel
  obtain ⟨c, hc, hfacts⟩ := Option.map_eq_some_iff.mp hplay
  simp only [Prod.mk.injEq, Option.map_eq_some_iff, Option.isSome_iff_exists] at hfacts
  obtain ⟨⟨c', hnext⟩, hok, ⟨p, hp, hjob⟩, hcommitted⟩ := hfacts
  obtain ⟨log, hrun⟩ := Machine.play_run hc
  obtain ⟨ws, hs⟩ := Machine.next_step hnext
  exact ⟨log, ws, c, c', p, hrun, hs, hp, hjob, hcommitted,
    stale_delivery_harmless sample hrun hok hs hp hjob hcommitted⟩

/-- The stream of process 3 fails after the step was committed, and process 3 is about to
    commit the failure of the run. -/
def failLate : Schedule :=
  overtaken ++ [.tx 3 (.streamError (.provider "provider_error" "the provider failed")),
    .act (.begin 3 .go)] ++ List.replicate 8 (.act (.exec 3))

/-- A delivery whose step is committed fails the run, which goes on with its next step and
    whose cancellation nobody requested. -/
theorem stale_delivery_harmless_failed :
    ∃ log ws c c' p, (app sample).machine.Reaches boot log c ∧
      (app sample).machine.Step c (.commit 3) ws c' ∧ actor c (.commit 3) = some p ∧
      p.delivers (mainJob 0) = true ∧ committed c.db (mainJob 0) = true ∧
      c.db.cancelOf mainRun = some false ∧ c.db.stateOf mainRun = some .running ∧
      c'.db.stateOf mainRun = some .failed ∧ (c.db.endingsOf mainRun).length = 0 ∧
      (c'.db.endingsOf mainRun).length = 1 := by
  have hbefore : (played failLate).map
      (fun c => ((actor c (.commit 3)).map (Proc.delivers (mainJob 0)),
        committed c.db (mainJob 0), c.db.cancelOf mainRun, c.db.stateOf mainRun,
        (c.db.endingsOf mainRun).length)) =
      some (some true, true, some false, some .running, 0) := by decide +kernel
  obtain ⟨log, c, hc, hrun, hbefore⟩ := play_boot hbefore
  have hafter : ((played failLate).bind fun c =>
      (app sample).machine.next c (.commit 3)).map
      (fun c => (c.db.stateOf mainRun, (c.db.endingsOf mainRun).length)) =
      some (some .failed, 1) := by decide +kernel
  simp only [Prod.mk.injEq] at hbefore
  simp only [hc, Option.bind_some] at hafter
  obtain ⟨hdelivers, hcommitted, hcancel, hstate, hcount⟩ := hbefore
  obtain ⟨p, hp, hjob⟩ := Option.map_eq_some_iff.mp hdelivers
  obtain ⟨c', hnext, hend⟩ := Option.map_eq_some_iff.mp hafter
  obtain ⟨hfailed, hcount'⟩ := Prod.mk.inj hend
  obtain ⟨ws, hs⟩ := Machine.next_step hnext
  exact ⟨log, ws, c, c', p, hrun, hs, hp, hjob, hcommitted, hcancel, hstate, hfailed, hcount,
    hcount'⟩

end Ultracore.System
