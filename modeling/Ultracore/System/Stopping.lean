-- SUMMARY: A run that was stopped spawns no child, where no run is stopped while a worker executes its step.
import Ultracore.System.Carried
import Ultracore.System.Emission
import Ultracore.System.Spawning

/-!
# Children of stopped runs

A worker looks at the run when it claims the step. The transaction of `spawnChild` locks the
parent to count its children, and does not look at its state: a child is created even if the
parent was finished or asked to stop since the claim.
-/

namespace Ultracore

open Txn

/-- The run is stored, not finished, and was not asked to stop. -/
def Db.going (d : Db) (r : RunID) : Bool :=
  (d.run? r).any fun x => !x.state.terminal && x.cancelRequestedAt.isNone

/-- Writes that finish run `r` or ask it to stop. -/
def Write.halts (r : RunID) : Write → Bool
  | .setState r' st _ _ => decide (r = r') && st.terminal
  | .requestCancel r' _ => decide (r = r')
  | _ => false

namespace Db

variable {d : Db} {r : RunID} {x : AgentRun}

theorem going_iff (hx : d.run? r = some x) :
    d.going r = true ↔ x.state.terminal = false ∧ x.cancelRequestedAt = none := by
  simp [going, hx]

theorem going_applyAll (h : d.going r = true) {ws : List Write}
    (hws : ∀ w ∈ ws, w.halts r = false) : (applyAll d ws).going r = true := by
  refine applyAll_keeps (K := fun e : Db => e.going r = true) (fun w hw e he => ?_) h
  obtain ⟨x, hx, hgo⟩ := (Option.any_eq_true _ _).mp he
  have hw := hws w hw
  rw [tables_apply, going, run?_apply, hx]
  cases w with
  | setState r' st =>
    by_cases hr : r = r'
    · have hst : st.terminal = false := by simpa [Write.halts, hr] using hw
      have hcancel : x.cancelRequestedAt = none := by simpa using (Bool.and_eq_true_iff.mp hgo).2
      simp [Write.onRun, hr, hst, hcancel]
    · simpa [Write.onRun, hr] using hgo
  | requestCancel r' =>
    have hr : r ≠ r' := by simpa [Write.halts] using hw
    simpa [Write.onRun, hr] using hgo
  | setHistory r' _ _ | setResult r' _ =>
    by_cases hr : r = r' <;> simpa [Write.onRun, hr] using hgo
  | _ => simpa [Write.onRun] using hgo

end Db

namespace System

open Loop Protocol Tx

/-- The run whose step a worker executes, from its claim to the end of the stream. -/
def Proc.serves? : Proc → Option RunID
  | .starting d | .resolving d | .compacting d _ | .compacted d _ | .streaming d | .spawning d _
  | .creating d _ _ | .denying d _ _ => some d.job.runID
  | _ => none

/-- What the transaction that is committed has written. -/
def pending (c : Conf) : Action Input Nat Proc → List Write
  | .commit j | .lose j =>
    match c.procs[j]? with
    | some (.active _ _ s _) => s.writes
    | _ => []
  | _ => []

theorem step_pending {cfg : Settings} {c c' : Conf}
    {a : Action Input Nat Proc} {ws : List Write} (hs : (app cfg).machine.Step c a ws c') :
    ws = pending c a := by
  cases hs with
  | commit hj | lose hj => simp [pending, hj]
  | _ => rfl

/-- No transaction that finishes a run or asks it to stop commits while a worker executes a step
    of the run. -/
def undisturbed (c : Conf) (a : Action Input Nat Proc) : Bool :=
  c.procs.all fun sl => match sl.proc.bind Proc.serves? with
    | some r => (pending c a).all fun w => !w.halts r
    | none => true

section
variable {cfg : Settings} {c c' : Conf} {log ws : List Write}
  {a : Action Input Nat Proc} {p : Proc}
  {Ok : Conf → Action Input Nat Proc → Prop} {p' : Proc} {r : RunID} {s : Local Row Write} {d : Db}
  {x : Tx Proc}

theorem unhalted (hok : undisturbed c a = true) (hs : (app cfg).machine.Step c a ws c')
    (hp : some p ∈ c.world.procs) (hr : p.serves? = some r) : ∀ w ∈ ws, w.halts r = false := by
  intro w hw
  obtain ⟨sl, hsl, hproc⟩ := List.mem_map.mp hp
  have hall := List.all_eq_true.mp hok sl hsl
  rw [hproc, Option.bind_some, hr] at hall
  simpa using List.all_eq_true.mp hall w (step_pending hs ▸ hw)

/-! ## Which run a worker goes on with -/

/-- The process serves no other run than `p`. -/
def Proc.Follows (p p' : Proc) : Prop := ∀ r, p'.serves? = some r → p.serves? = some r

theorem Proc.Follows.of_none (h : p'.serves? = none) : p.Follows p' := by
  intro r hr
  rw [h] at hr
  cases hr

theorem Proc.Follows.of_eq (h : p'.serves? = p.serves?) : p.Follows p' :=
  fun _ hr => h ▸ hr

theorem resolved_follows (dl : Delivery) : (Proc.resolving dl).Follows (resolved cfg dl) := by
  unfold resolved
  split
  · exact .of_none rfl
  split
  · exact .of_none rfl
  split
  · exact .of_eq rfl
  · exact .of_eq rfl

theorem streamFailed_serves (dl : Delivery) (e : StreamError) :
    (streamFailed dl e).serves? = none := by
  unfold streamFailed
  split
  · rfl
  · cases e <;> rfl

theorem finished_serves (dl : Delivery) (r : AgentResult) : (finished dl r).serves? = none := by
  unfold finished
  split <;> rfl

theorem sweepOn_serves (n : Nat) (t : TenantID) (full : Bool) (due : List WaitID) :
    (sweepOn n t full due).serves? = none := by
  cases due with
  | nil => cases full <;> rfl
  | cons => rfl

/-- Only a claim makes a process serve a run. -/
theorem next_follows (hwork : ∀ n job, p ≠ .work n job) (h : Next cfg p p') : p.Follows p' := by
  cases h with
  | done | acking | starts | requests | unresolved => exact .of_none rfl
  | claimed n job => exact absurd rfl (hwork n job)
  | resolved dl => exact resolved_follows dl
  | started | compacted | noted | created | denied => exact .of_eq rfl
  | streams h =>
    cases h with
    | finished r => exact .of_none (finished_serves _ r)
    | failed e => exact .of_none (streamFailed_serves _ e)
    | _ => exact .of_eq rfl
  | spawns h => cases h <;> exact .of_eq rfl
  | swept | closed => exact .of_none (sweepOn_serves _ _ _ _)

theorem canSpawn_serves {procs : List (Option Proc)} (h : canSpawn d procs p = true) :
    p.serves? = none := by
  cases p <;> first | rfl | cases h

theorem onErr_follows (p : Proc) (i : Input) (e : Err) : p.Follows (onErr p i e) := by
  unfold onErr
  split <;> first | exact .of_none rfl | exact .of_eq rfl

/-! ## Every run -/

/-- A claim leaves a run that goes on. -/
theorem claim_going {n : Nat} {job : StepJob} {i : Input}
    (hd : Integrity cfg d) (hn : Delivered d n job)
    (hx : body cfg (.work n job) i = some x) (hruns : x.prog.Runs (Seen cfg) d .empty (.ok p') s)
    (hr : p'.serves? = some r) : (applyAll d s.writes).going r = true := by
  obtain ⟨y, hy⟩ := hn.startable.1
  let me := (Proc.work n job).part cfg d
  have hspec : wp (Seen cfg) d x .empty (Prog.either
      (fun p' s => ∀ r, p'.serves? = some r → (applyAll d s.writes).going r = true)
      (fun _ _ => True)) := by
    cases i with
    | pages =>
      cases hx
      rw [wp_bind]
      refine wp_either (wp_claim cfg me ⟨rfl, rfl⟩ hd hy) (fun _ _ _ => trivial) ?_
      intro o s' hpost
      cases o with
      | none => simp [Proc.serves?]
      | some found =>
        obtain ⟨run, attempt⟩ := found
        obtain ⟨-, hclaimed⟩ := hpost
        simp only [Prog.either_ok, wp_pure', Proc.serves?, Option.some.injEq]
        rintro _ rfl
        have hstate : y.state.terminal = false := by
          rcases hclaimed.writes with ⟨hs, -⟩ | ⟨hs, -⟩ <;> simp [hs, RunState.terminal]
        refine Db.going_applyAll ((Db.going_iff hy.run).mpr ⟨hstate, hclaimed.cancel⟩) ?_
        rcases hclaimed.writes with ⟨-, hws⟩ | ⟨-, hws⟩ <;>
          simp [hws, Write.halts, RunState.terminal]
    | _ => cases hx
  exact hspec _ _ hruns r hr

/-- Where no run is stopped while a step of it is executed, the run of every worker that
    executes a step goes on. -/
theorem run_serves_going (hrun : RunOf cfg (fun c a => undisturbed c a = true) log c) :
    ∀ p, some p ∈ c.world.procs → ∀ r, p.serves? = some r → c.db.going r = true := by
  refine run_carries (Q := fun d p => ∀ r, p.serves? = some r → d.going r = true) ?_ ?_ ?_ ?_ hrun
  · intro d procs p hcan r hr
    rw [canSpawn_serves hcan] at hr
    cases hr
  · intro c c' log ws a p hrun hok hs hp h r hr
    cases step_advance hrun hs with
    | still hd =>
      rw [hd]
      exact h r hr
    | commit _ _ _ hd =>
      rw [hd]
      exact Db.going_applyAll (h r hr) (unhalted hok hs hp hr)
  · intro c c' log ws j p p' i x s hrun hok hs hp hx hruns hdb hws hnext h r hr
    have hsound := (run_sound hrun).1
    rw [hdb]
    by_cases hwork : ∃ n job, p = .work n job
    · obtain ⟨n, job, rfl⟩ := hwork
      exact claim_going hsound.integrity (hsound.procs _ hp) hx hruns hr
    · have hfollows := next_follows (fun n job heq => hwork ⟨n, job, heq⟩) hnext
      subst hws
      exact Db.going_applyAll (h r (hfollows r hr)) (unhalted hok hs hp (hfollows r hr))
  · intro d p i e h r hr
    exact h r (onErr_follows p i e r hr)

/-- Only a worker that serves the parent adds a child. -/
theorem child_of_served {A : Sight} {p : Proc} {i : Input}
    (hp : p.Ok d) (hx : body cfg p i = some x)
    (hruns : x.prog.Runs A d .empty (.ok p') s) {child : AgentRun} (hc : .insertRun child ∈ s.writes)
    (hr : child.parentRunID = some r) : p.serves? = some r := by
  have honly : x.Only fun w => ∀ child, w = .insertRun child → ∀ r, child.parentRunID = some r →
      p.serves? = some r := by
    refine (body_writing hx).only ?_ (by simp) (by simp) (by simp) ?_ ?_
    · rintro w hw child rfl
      cases hw
    · rintro run rfl _ ⟨⟩ r hr
      have hroot : run.parentRunID = none := hp.1
      cases hroot.symm.trans hr
    · rintro dl sp child rfl _ ⟨⟩ r hr
      have hparent : child.parentRunID = some dl.run.id := hp.2.parentRunID
      cases hparent.symm.trans hr
      rw [hp.1.1.runID]
      rfl
  obtain ⟨ws, hws, hall⟩ := Prog.Emits.wp honly _ _ hruns
  rw [Local.empty_writes, List.nil_append] at hws
  exact hall _ (hws ▸ hc) child rfl r hr

end

/-- In a run of the program in which no transaction finishes a run or asks it to stop while a
    worker executes a step of that run: a transaction that adds a child finds the parent, which
    it has locked, neither finished nor asked to stop. -/
theorem stopped_run_spawns_no_child (cfg : Settings) {log ws : List Write}
    {c c' : Config Db Row Write Err Input Proc} {a : Action Input Nat Proc}
    (hrun : (app cfg).machine.Run (fun c a => undisturbed c a = true) boot log c)
    (hs : (app cfg).machine.Step c a ws c') {child : AgentRun} (hc : .insertRun child ∈ ws)
    {r : RunID} (hr : child.parentRunID = some r) :
    ∃ p, c.db.run? r = some p ∧ p.state ≠ .completed ∧ p.state ≠ .failed ∧ p.state ≠ .cancelled ∧
      p.cancelRequestedAt = none := by
  obtain ⟨hsound, hserial⟩ := run_sound hrun
  have hgoing : c.db.going r = true := by
    rcases hserial hs with ⟨rfl, -⟩ | hser
    · cases hc
    rcases serial_body hser with ⟨rfl, -⟩ | ⟨j, p, p', i, x, s, -, hj, hx, hruns, rfl, -⟩
    · cases hc
    have hp := List.mem_of_getElem? hj
    exact run_serves_going hrun p hp r (child_of_served (hsound.procs p hp) hx hruns hc hr)
  obtain ⟨p, hp, hgo⟩ := (Option.any_eq_true _ _).mp hgoing
  obtain ⟨hstate, hcancel⟩ := (Db.going_iff hp).mp hgoing
  exact ⟨p, hp, by rintro h; simp [h, RunState.terminal] at hstate,
    by rintro h; simp [h, RunState.terminal] at hstate,
    by rintro h; simp [h, RunState.terminal] at hstate, hcancel⟩

/-- Process 2 executes the first step and is in the transaction that creates a child. -/
def spawnHelper : Schedule := lookForHelper 2 helper ++ [.act (.begin 2 .go)] ++
  List.replicate 8 (.act (.exec 2))

/-- Whether the transaction of process 2 is about to add a child of the main run. -/
def addsHelper (c : Conf) : Bool :=
  (pending c (.commit 2)).any fun w => match w with
    | .insertRun x => decide (x.parentRunID = some mainRun)
    | _ => false

theorem exists_addsHelper {c c' : Conf} (h : addsHelper c = true)
    (hnext : (app sample).machine.next c (.commit 2) = some c') :
    ∃ ws child, (app sample).machine.Step c (.commit 2) ws c' ∧ .insertRun child ∈ ws ∧
      child.parentRunID = some mainRun := by
  obtain ⟨ws, hs⟩ := Machine.next_step hnext
  obtain ⟨w, hw, hchild⟩ := List.any_eq_true.mp h
  cases w with
  | insertRun child =>
    refine ⟨ws, child, hs, ?_, of_decide_eq_true hchild⟩
    cases hs with
    | commit hj => simpa [pending, hj] using hw
  | _ => cases hchild

theorem stopped_run_spawns_no_child_helper :
    ∃ log ws c c' child p, (app sample).machine.Run (fun c a => undisturbed c a = true) boot log c ∧
      (app sample).machine.Step c (.commit 2) ws c' ∧ .insertRun child ∈ ws ∧
      child.parentRunID = some mainRun ∧ c.db.run? mainRun = some p ∧ p.state ≠ .cancelled := by
  have hplay : ((app sample).machine.play undisturbed boot
      (startMain ++ stream 2 0 (mainJob 0) ++ spawnHelper)).map
      (fun c => (addsHelper c, ((app sample).machine.next c (.commit 2)).isSome)) =
      some (true, true) := by decide +kernel
  obtain ⟨c, hc, hends⟩ := Option.map_eq_some_iff.mp hplay
  obtain ⟨hadds, hnext⟩ := Prod.mk.inj hends
  obtain ⟨c', hnext⟩ := Option.isSome_iff_exists.mp hnext
  obtain ⟨log, hrun⟩ := Machine.play_run hc
  obtain ⟨ws, child, hs, hmem, hparent⟩ := exists_addsHelper hadds hnext
  obtain ⟨p, hp, -, -, hstate, -⟩ := stopped_run_spawns_no_child sample hrun hs hmem hparent
  exact ⟨log, ws, c, c', child, p, hrun, hs, hmem, hparent, hp, hstate⟩

/-- The user asks the run to stop while process 2 executes its first step. -/
def stopServed : Schedule :=
  [.act (.spawn (.request (.cancelRun "tenant" mainRun))), .tx 3 .go, .tx 3 .go]

/-- The run was asked to stop, and a child is added. -/
theorem stopped_run_spawns_no_child_stopped :
    ∃ log ws c c' child p, (app sample).machine.Reaches boot log c ∧
      (app sample).machine.Step c (.commit 2) ws c' ∧ .insertRun child ∈ ws ∧
      child.parentRunID = some mainRun ∧ c.db.run? mainRun = some p ∧
      p.cancelRequestedAt.isSome = true := by
  have hends : (played (startMain ++ stream 2 0 (mainJob 0) ++ stopServed ++ spawnHelper)).map
      (fun c => (addsHelper c, ((app sample).machine.next c (.commit 2)).isSome,
        (c.db.run? mainRun).any fun p => p.cancelRequestedAt.isSome)) =
      some (true, true, true) := by decide +kernel
  obtain ⟨log, c, -, hrun, hends⟩ := play_boot hends
  obtain ⟨hadds, hends⟩ := Prod.mk.inj hends
  obtain ⟨hnext, hstopped⟩ := Prod.mk.inj hends
  obtain ⟨c', hnext⟩ := Option.isSome_iff_exists.mp hnext
  obtain ⟨ws, child, hs, hmem, hparent⟩ := exists_addsHelper hadds hnext
  obtain ⟨p, hp, hcancel⟩ := (Option.any_eq_true _ _).mp hstopped
  exact ⟨log, ws, c, c', child, p, hrun, hs, hmem, hparent, hp, hcancel⟩

end System

end Ultracore
