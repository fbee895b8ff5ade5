-- SUMMARY: The commit of a step that ends in a wait succeeds unless the run still has an open wait; an answered run that has one.
import Ultracore.Protocol.Parking
import Ultracore.System.Carried
import Ultracore.System.Histories

/-!
# Steps that end in a wait

A worker commits its step in one transaction, and the wait that the step asked for is
created in it. `run_waits_one_open_per_parent_idx` allows one open wait for each parent. A
run that waits is parked, but an answer makes it running again and leaves its wait open: the
next step that asks for a wait then cannot be committed.
-/

namespace Ultracore.System

open Txn Loop Protocol Tx

/-! ## What processes carry -/

/-- The history that a worker streams from and commits. -/
def Proc.env? : Proc → Option Envelope
  | .compacting d _ | .compacted d _ | .streaming d | .spawning d _ | .creating d _ _
  | .denying d _ _ | .committing d _ _ => some d.env
  | _ => none

/-- A worker got past the check of the history only if it could be read. -/
def Proc.Readable (p : Proc) : Prop := ∀ env, p.env? = some env → env.decode.isSome

namespace Proc.Readable

theorem of_none {p : Proc} (h : p.env? = none) : p.Readable := by
  intro env henv
  rw [h] at henv
  cases henv

theorem of_env {p : Proc} {env : Envelope} (h : p.env? = some env) (henv : env.decode.isSome) :
    p.Readable := by
  intro env' h'
  cases h.symm.trans h'
  exact henv

end Proc.Readable

/-- The model is resolved, and the history is decoded before anything else happens. -/
theorem resolved_readable (cfg : Settings) (dl : Delivery) : (resolved cfg dl).Readable := by
  unfold resolved
  split
  · exact .of_none rfl
  split
  · exact .of_none rfl
  rename_i env henv
  have hread : env.decode.isSome := by
    rw [Envelope.decode_eq_some henv, henv]
    rfl
  split
  · refine .of_env rfl ?_
    simpa [Envelope.decode] using hread
  · exact .of_env rfl hread

theorem streamFailed_env (dl : Delivery) (e : StreamError) : (streamFailed dl e).env? = none := by
  unfold streamFailed
  split
  · rfl
  · cases e <;> rfl

theorem sweepOn_env (n : Nat) (t : TenantID) (full : Bool) (due : List WaitID) :
    (sweepOn n t full due).env? = none := by
  cases due with
  | nil => cases full <;> rfl
  | cons => rfl

theorem finished_readable {dl : Delivery} (hdl : dl.env.decode.isSome) (r : AgentResult) :
    (finished dl r).Readable := by
  unfold finished
  split
  · exact .of_none rfl
  · exact .of_env rfl hdl

theorem next_readable {cfg : Settings} (p p' : Proc) (h : Next cfg p p') (hp : p.Readable) :
    p'.Readable := by
  cases h with
  | done | acking | starts | requests | claimed | started | unresolved => exact .of_none rfl
  | resolved dl => exact resolved_readable cfg dl
  | compacted | noted | created | denied => exact .of_env rfl (hp _ rfl)
  | streams h =>
    cases h with
    | finished r => exact finished_readable (hp _ rfl) r
    | failed e => exact .of_none (streamFailed_env _ e)
    | _ => exact .of_env rfl (hp _ rfl)
  | spawns h => cases h <;> exact .of_env rfl (hp _ rfl)
  | swept | closed => exact .of_none (sweepOn_env _ _ _ _)

theorem onErr_readable (p : Proc) (i : Input) (e : Err) (hp : p.Readable) : (onErr p i e).Readable := by
  unfold onErr
  split <;> first | exact .of_none rfl | exact .of_env rfl (hp _ rfl)

theorem canSpawn_env (d : Db) (procs : List (Option Proc)) (p : Proc) (h : canSpawn d procs p = true) :
    p.env? = none := by
  cases p <;> first | rfl | cases h

theorem run_readable {cfg : Settings} {log : List Write} {c : Conf}
    (hrun : (app cfg).machine.Reaches boot log c) : ∀ p, some p ∈ c.world.procs → p.Readable :=
  run_procs (fun d procs p h => .of_none (canSpawn_env d procs p h)) next_readable onErr_readable hrun

/-! ## Committing a step that ends in a wait -/

/-- A worker holds a finished step that asked for a wait. If the run is running, its
    cancellation not requested and the step not committed by another delivery, and if the run
    has no open wait, then the transaction of the commit succeeds: executed from here it comes
    to an end, it can only end by acknowledging the job, and it leaves the run parked on exactly
    this wait, or, if all members are finished, resumed by it. -/
theorem waiting_step_commits (cfg : Settings) {log : List Write}
    {c : Config Db Row Write Err Input Proc} (hrun : (app cfg).machine.Reaches boot log c)
    {j : Nat} {dl : Delivery} {step : StepResult} {final : String}
    (hj : c.world.procs[j]? = some (some (.committing dl step final)))
    (hwait : dl.recorder.waitRunIDs ≠ []) {x : AgentRun} (hx : c.db.run? dl.job.runID = some x)
    (hrunning : x.state = .running) (hcancel : x.cancelRequestedAt = none)
    (hnew : ∀ s ∈ c.db.stepsOf dl.job.runID, s.stepIndex ≠ dl.job.stepIndex)
    (hfree : Unwaiting c.db dl.job.runID) {prog : Prog Db Row Write Err Proc}
    (hbody : (app cfg).machine.body (.committing dl step final) .go = some prog) :
    (∃ r s, prog.Runs Alone c.db .empty r s) ∧
    ∀ r s, prog.Runs Alone c.db .empty r s → r = .ok (.acking dl.jobID) ∧
      Waited c.db (applyAll c.db s.writes) dl.job.runID
        (deterministicWaitID cfg dl.job.runID dl.job.stepIndex dl.recorder.waitToolCallID)
        dl.recorder.waitRunIDs := by
  obtain ⟨y, hy, rfl⟩ := App.machine_body.mp hbody
  refine ⟨⟨_, _, Prog.runs_alone (fun _ => rfl) y.prog .empty⟩, ?_⟩
  have hsound := (run_sound hrun).1
  have hmem := List.mem_of_getElem? hj
  have hdl : dl.Ok c.db := hsound.procs _ hmem
  obtain ⟨x', hx'⟩ := hdl.delivered.startable.1
  cases hx'.run.symm.trans hx
  obtain rfl : (do
      let _ ← commitOutcome cfg dl.job dl.attempt dl.env step dl.recorder final
      Pure.pure (Proc.acking dl.jobID)) = y := Option.some.inj hy
  have hmembers : ∀ id ∈ dl.recorder.waitRunIDs,
      ∃ z, c.db.run? id = some z ∧ z.tenantID = dl.job.tenantID := by
    intro id hid
    obtain ⟨z, hz, htz, -⟩ := hdl.waits id hid
    exact ⟨z, hz, htz⟩
  have hend : wp Alone c.db (do
      let _ ← commitOutcome cfg dl.job dl.attempt dl.env step dl.recorder final
      Pure.pure (Proc.acking dl.jobID)) .empty fun r s => r = .ok (.acking dl.jobID) ∧
      Waited c.db (applyAll c.db s.writes) dl.job.runID
        (deterministicWaitID cfg dl.job.runID dl.job.stepIndex dl.recorder.waitToolCallID)
        dl.recorder.waitRunIDs := by
    rw [wp_bind]
    refine wp_either (wp_commitOutcome_alone hsound.integrity hx' hrunning hcancel hnew hfree
      (run_readable hrun _ hmem dl.env rfl) hwait hmembers) (fun _ _ hpost => hpost.elim) ?_
    intro o s hpost
    simpa using hpost.2
  exact hend

/-- The process is about to commit step `i` of the main run, which asked to wait for the child. -/
def Proc.awaitsHelper (i : Nat) : Proc → Bool
  | .committing dl _ _ => decide (dl.job = mainJob i ∧ dl.recorder.waitRunIDs = [helper])
  | _ => false

/-- The run is running, its cancellation not requested and step `i` not committed. -/
def mayCommit (d : Db) (i : Nat) : Bool :=
  (d.run? mainRun).any fun (x : AgentRun) => decide (x.state = .running) && x.cancelRequestedAt.isNone &&
    (d.stepsOf mainRun).all fun s => s.stepIndex ≠ i

/-- Process 2 has executed the first step, which spawns a child and asks to wait for it. -/
def askForHelper : Schedule :=
  startMain ++ deliver 2 0 (mainJob 0)
    [.tx 2 (.tool (.spawnAgent "spawn" { prompt := "help" } helper)), .tx 2 .go, .tx 2 .go, .tx 2 .go,
      .tx 2 (.tool (.waitForAgents "wait" ["*"] none .resolve))] moreWork

/-- What the concrete runs below share: a worker that is about to commit such a step. -/
theorem exists_awaitsHelper {c : Conf} {j i : Nat}
    (h : ((c.world.procs[j]?).join.any (Proc.awaitsHelper i) && mayCommit c.db i) = true) :
    ∃ dl step final x, c.world.procs[j]? = some (some (.committing dl step final)) ∧
      dl.job = mainJob i ∧ dl.recorder.waitRunIDs = [helper] ∧ c.db.run? mainRun = some x ∧
      x.state = .running ∧ x.cancelRequestedAt = none ∧
      ∀ s ∈ c.db.stepsOf mainRun, s.stepIndex ≠ i := by
  obtain ⟨hproc, hrow⟩ := Bool.and_eq_true_iff.mp h
  obtain ⟨p, hp, hawaits⟩ := (Option.any_eq_true _ _).mp hproc
  rw [Option.join_eq_some_iff] at hp
  obtain ⟨x, hx, hok⟩ := (Option.any_eq_true _ _).mp hrow
  simp only [Bool.and_eq_true, decide_eq_true_eq, Option.isNone_iff_eq_none, List.all_eq_true] at hok
  cases p with
  | committing dl step final =>
    obtain ⟨hjob, hids⟩ := of_decide_eq_true hawaits
    exact ⟨dl, step, final, x, hp, hjob, hids, hx, hok.1.1, hok.1.2, hok.2⟩
  | _ => cases hawaits

theorem waiting_step_commits_helper :
    ∃ log c, ∃ j : Nat, ∃ dl step final prog s, (app sample).machine.Reaches boot log c ∧
      c.world.procs[j]? = some (some (.committing dl step final)) ∧
      dl.recorder.waitRunIDs = [helper] ∧
      (app sample).machine.body (.committing dl step final) .go = some prog ∧
      prog.Runs Alone c.db .empty (.ok (.acking dl.jobID)) s ∧
      Waited c.db (applyAll c.db s.writes) mainRun
        (deterministicWaitID sample mainRun 0 dl.recorder.waitToolCallID) [helper] := by
  have hready : (played askForHelper).map (fun c =>
      (((c.world.procs[2]?).join.any (Proc.awaitsHelper 0) && mayCommit c.db 0), c.db.waits.isEmpty)) =
      some (true, true) := by decide +kernel
  obtain ⟨log, c, -, hrun, hready⟩ := play_boot hready
  simp only [Prod.mk.injEq] at hready
  obtain ⟨dl, step, final, x, hj, hjob, hids, hx, hrunning, hcancel, hnew⟩ :=
    exists_awaitsHelper hready.1
  have hfree : Unwaiting c.db mainRun := by
    intro w y hy
    rw [Db.wait?, List.isEmpty_iff.mp hready.2] at hy
    cases hy
  have hrunID : dl.job.runID = mainRun := by rw [hjob]; rfl
  have hindex : dl.job.stepIndex = 0 := by rw [hjob]; rfl
  obtain ⟨⟨r, s, hruns⟩, hall⟩ := waiting_step_commits sample hrun hj (by simp [hids])
    (by rw [hrunID]; exact hx) hrunning hcancel (by rw [hrunID, hindex]; exact hnew)
    (by rw [hrunID]; exact hfree) rfl
  obtain ⟨rfl, hwaited⟩ := hall r s hruns
  rw [hrunID, hindex, hids] at hwaited
  exact ⟨log, c, 2, dl, step, final, _, s, hrun, hj, hids, rfl, hruns, hwaited⟩

/-- The run was answered while it waited for its child. Process 4 has executed the step that
    follows the answer, which asks to wait for the child again. -/
def askAgain : Schedule :=
  answerWaiting ++ deliver 4 3 (mainJob 1)
    [.tx 4 (.tool (.waitForAgents "again" ["*"] none .resolve))] moreWork

/-- Whether a transaction ends with "not found". -/
def endsNotFound {α : Type} : Except Err α → Bool
  | .error .notFound => true
  | _ => false

theorem eq_of_endsNotFound {α : Type} {r : Except Err α} (h : endsNotFound r = true) :
    r = .error .notFound := by
  unfold endsNotFound at h
  split at h
  · rfl
  · cases h

/-- The answered run is running and its step not committed, but its first wait is open: the
    commit of the step ends with "not found" and is rolled back. -/
theorem waiting_step_commits_answered :
    ∃ log c, ∃ j : Nat, ∃ dl step final x prog s, (app sample).machine.Reaches boot log c ∧
      c.world.procs[j]? = some (some (.committing dl step final)) ∧
      dl.recorder.waitRunIDs = [helper] ∧ c.db.run? dl.job.runID = some x ∧ x.state = .running ∧
      x.cancelRequestedAt = none ∧
      (∀ s ∈ c.db.stepsOf dl.job.runID, s.stepIndex ≠ dl.job.stepIndex) ∧
      (app sample).machine.body (.committing dl step final) .go = some prog ∧
      prog.Runs Alone c.db .empty (.error .notFound) s := by
  have hready : (played askAgain).map (fun c =>
      (c.world.procs[4]?).join.any (Proc.awaitsHelper 1) && mayCommit c.db 1) = some true := by
    decide +kernel
  obtain ⟨log, c, hc, hrun, hready⟩ := play_boot hready
  have hfails : (played askAgain).map (fun c =>
      (c.world.procs[4]?).join.any fun p => ((app sample).machine.body p .go).any fun prog =>
        endsNotFound (prog.alone c.db .empty).1) = some true := by
    decide +kernel
  simp only [hc, Option.map_some, Option.some.injEq] at hready hfails
  obtain ⟨dl, step, final, x, hj, hjob, hids, hx, hrunning, hcancel, hnew⟩ :=
    exists_awaitsHelper hready
  have hrunID : dl.job.runID = mainRun := by rw [hjob]; rfl
  have hindex : dl.job.stepIndex = 1 := by rw [hjob]; rfl
  obtain ⟨prog, hbody⟩ : ∃ prog, (app sample).machine.body (.committing dl step final) .go =
      some prog := ⟨_, rfl⟩
  have hruns := Prog.runs_alone (A := Alone) (d := c.db) (fun _ => rfl) prog .empty
  rw [hj, Option.join_some, Option.any_some, hbody, Option.any_some] at hfails
  rw [eq_of_endsNotFound hfails] at hruns
  refine ⟨log, c, 4, dl, step, final, x, prog, _, hrun, hj, hids, ?_, hrunning, hcancel, ?_, hbody,
    hruns⟩
  · rw [hrunID]
    exact hx
  · rw [hrunID, hindex]
    exact hnew

end Ultracore.System
