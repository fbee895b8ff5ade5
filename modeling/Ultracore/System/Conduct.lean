-- SUMMARY: What each process does to the tables: its transactions are acts, and what it remembers stays true.
import Ultracore.Protocol.Coverage
import Ultracore.Protocol.Requests
import Ultracore.System.Process

/-!
# Conduct of processes

A process carries what it has read between its transactions. `Proc.Ok` says what of that
can be relied on later: rows are never deleted, a job id is never reused, and a run that
was claimed is never pending again. Under it each transaction of a process commits acts of
the run protocol, and a process that goes on to acknowledge its job may do so.
-/

namespace Ultracore.System

open Txn Loop Api Protocol Tx

variable {n : Nat} {dl : Delivery} {job : StepJob}

/-! ## What a process knows -/

/-- Job `n` was issued; if it is still outstanding, it is `job`. -/
structure Holds (v : Db) (n : Nat) (job : Job) : Prop where
  issued : n < v.nextJob
  queued : ∀ q ∈ v.jobs, q.id = n → q.job = job

/-- A worker executes step job `n`. -/
structure Delivered (v : Db) (n : Nat) (job : StepJob) : Prop where
  startable : Startable v job
  holds : Holds v n (.step job)

structure Delivery.Ok (v : Db) (d : Delivery) : Prop where
  delivered : Delivered v d.jobID d.job
  begun : Begun v d.job.runID
  runID : d.run.id = d.job.runID
  tenantID : d.run.tenantID = d.job.tenantID
  sessionID : d.run.sessionID = d.job.sessionID
  policy : ∀ {x : AgentRun}, v.run? d.job.runID = some x → d.run.policy = x.policy
  cancel : d.cancelSeen = true → v.cancelOf d.job.runID = some true
  waits : ∀ id ∈ d.recorder.waitRunIDs, ChildOf v d.job id

/-- The run that a spawning tool call is about to create. -/
structure Delivery.Spawns (d : Delivery) (child : AgentRun) : Prop where
  sessionID : child.sessionID = d.job.sessionID
  parentRunID : child.parentRunID = some d.run.id
  spawnKey : ∃ call, child.spawnKey = spawnKey d.run.id d.job.stepIndex call
  policy : child.policy.Within d.run.policy

/-- What stays true of the data that a process carries. -/
def Proc.Ok (v : Db) : Proc → Prop
  | .startTx run => run.parentRunID = none ∧ run.spawnKey = ""
  | .requestTx _ run => ∃ x, Known v run x
  | .work n job | .failing n job _ _ => Delivered v n job
  | .cancelling n job => Delivered v n job ∧ v.cancelOf job.runID = some true
  | .starting d | .resolving d | .compacting d _ | .compacted d _ | .streaming d | .denying d _ _
  | .committing d _ _ => d.Ok v
  | .spawning d s => d.Ok v ∧ ∀ id ∈ s.ids, ChildOf v d.job id
  | .creating d s child => (d.Ok v ∧ ∀ id ∈ s.ids, ChildOf v d.job id) ∧ d.Spawns child
  | .sweep n t | .sweeping n t _ _ | .rearming n t => Holds v n (.waitTimeout t)
  | .acking n => n < v.nextJob
  | .start _ _ | .request _ | .createSession _ _ | .foreign _ | .done => True

section
variable {d d' : Db} (h : Later d d')
include h

theorem Holds.later {job : Job} (hn : Holds d n job) : Holds d' n job where
  issued := Nat.lt_of_lt_of_le hn.issued h.nextJob
  queued q hq heq := by
    rcases h.jobs q hq with hq | hge
    · exact hn.queued q hq heq
    · exact absurd (heq ▸ hge) (Nat.not_le_of_lt hn.issued)

theorem Delivered.later (hn : Delivered d n job) : Delivered d' n job :=
  ⟨hn.startable.extends h.extends_, hn.holds.later h⟩

theorem Delivery.Ok.later (hd : dl.Ok d) : dl.Ok d' :=
  { hd with
    delivered := hd.delivered.later h
    begun := h.begun _ hd.begun
    policy := fun {y} hy => by
      obtain ⟨x, hx⟩ := hd.delivered.startable.1
      obtain ⟨z, hz, hsame⟩ := h.extends_.run hx.run
      cases hz.symm.trans hy
      rw [hd.policy hx.run, hsame.policy]
    cancel := fun hseen => h.extends_.cancelOf (hd.cancel hseen)
    waits := fun id hid => (hd.waits id hid).later h.extends_ }

theorem Proc.Ok.later {p : Proc} (hp : p.Ok d) : p.Ok d' := by
  cases p with
  | requestTx =>
    obtain ⟨x, hx⟩ := hp
    obtain ⟨y, hy, hs⟩ := h.extends_.run hx.stored
    exact ⟨y, hy, hs.tenantID.trans hx.tenantID, hs.sessionID.trans hx.sessionID⟩
  | work | failing => exact Delivered.later h hp
  | cancelling => exact ⟨hp.1.later h, h.extends_.cancelOf hp.2⟩
  | startTx => exact hp
  | starting | resolving | compacting | compacted | streaming | denying | committing =>
    exact Delivery.Ok.later h hp
  | spawning => exact ⟨hp.1.later h, fun id hid => (hp.2 id hid).later h.extends_⟩
  | creating =>
    exact ⟨⟨hp.1.1.later h, fun id hid => (hp.1.2 id hid).later h.extends_⟩, hp.2⟩
  | sweep | sweeping | rearming => exact Holds.later h hp
  | acking => exact Nat.lt_of_lt_of_le hp h.nextJob
  | start | request | createSession | foreign | done => trivial

end

/-- Whatever the error, a process goes on with what it knew. -/
theorem onErr_ok {v : Db} {p : Proc} (hp : p.Ok v) (i : Input) (e : Err) : (onErr p i e).Ok v := by
  unfold onErr
  split
  · exact hp.holds.issued
  · exact hp.holds.issued
  · exact hp
  · exact hp
  · exact hp
  · exact { hp with }
  · exact hp
  · exact hp.1
  · exact hp.1.1
  · exact hp.1.1
  · exact hp
  · exact hp.delivered.holds.issued
  · exact hp
  · trivial

/-! ## Transactions -/

/-- What a request may do to the run it is about. -/
def Request.part (run : AgentRun) : Request → Part
  | .answerRun _ _ _ _ | .answerAwait _ _ _ _ => { session := some run.sessionID }
  | .cancelRun _ _ | .adminCancelRun _ | .expireAwait _ =>
    { ends := some run.id, session := some run.sessionID }

/-- The copy of a history that the process writes from. -/
def Proc.copy : Proc → Option (RunID × List Message)
  | .compacting d _ | .committing d _ _ => some (d.job.runID, d.env.messages)
  | _ => none

/-- What the next transaction of a process is entitled to, on the tables `d`. -/
def Proc.part (cfg : Settings) (d : Db) (p : Proc) : Part :=
  match p with
  | .requestTx req run => req.part run
  | .work _ job | .failing _ job _ _ => { ends := some job.runID, session := some job.sessionID }
  | .cancelling _ job =>
    { ends := some job.runID, forces := true, session := some job.sessionID }
  | .compacting _ _ => { copy := p.copy }
  | .committing dl _ _ =>
    { job := some dl.job, copy := p.copy, ends := some dl.job.runID,
      opens := fun w => ∃ call, w = deterministicWaitID cfg dl.job.runID dl.job.stepIndex call,
      session := some dl.job.sessionID }
  | .sweep _ _ => { expires := fun _ => True }
  | .sweeping _ _ (w :: _) _ =>
    { session := (d.wait? w).bind fun x => (d.run? x.parentRunID).map AgentRun.sessionID,
      expires := fun w' => w' = w }
  | _ => {}

theorem Proc.part_copy (cfg : Settings) (d : Db) (p : Proc) : (p.part cfg d).copy = p.copy := by
  cases p with
  | requestTx req => cases req <;> rfl
  | sweeping _ _ due => cases due <;> rfl
  | _ => rfl

/-- Job `n` may be acknowledged: it is spent, or no step job. -/
def Released (v : Db) (n : Nat) : Prop :=
  (∃ job, Delivered v n job ∧ Spent v job) ∨ ∃ t, Holds v n (.waitTimeout t)

/-- How the lookup of a child by its key ends: with a child that is stored, or with the
    decision to create one. -/
def LooksUp (d : Db) (dl : Delivery) (s : Spawning) (p' : Proc) : Prop :=
  ∀ req newID rest policy, s.todo = (req, newID) :: rest → req.check dl.run = .ok policy →
    (∃ y, y ∈ d.runs ∧ y.spawnKey = spawnKey dl.run.id dl.job.stepIndex req.toolCallID ∧
      p' = .spawning dl { s with todo := rest, ids := s.ids ++ [y.id] }) ∨
    p' = .creating dl { s with todo := rest } (childRun dl.run dl.job req policy newID)

/-- What exactly a worker has done when its transaction commits. -/
def Deed (cfg : Settings) (A : List Row → Db → Db → Prop) (d : Db) (p p' : Proc)
    (s : Local Row Write) : Prop :=
  match p with
  | .starting _ | .resolving _ | .compacted _ _ | .streaming _ | .denying _ _ _ =>
    ∀ w ∈ s.writes, w.quiet = true
  | .spawning dl sp => (∀ w ∈ s.writes, w.quiet = true) ∧ LooksUp d dl sp p'
  | .creating dl sp child => ∃ id, Spawned d dl.job.tenantID child id s.writes ∧
      p' = .spawning dl { sp with ids := sp.ids ++ [id] }
  | .work _ job => ∀ x, JobRun d job x →
      (x.cancelRequestedAt.isSome ∧ CancelledBy cfg A (p.part cfg d) d [] s job) ∨ Claimed d s job x
  | .failing _ job reason message => ∀ x, JobRun d job x →
      (x.state.terminal = true ∧ s.writes = []) ∨ (x.state.terminal = false ∧
        Ended cfg A (p.part cfg d) d [] s job .failed reason message
          (.runFailed job.runID reason message))
  | .cancelling _ job => CancelledBy cfg A (p.part cfg d) d [] s job
  | .committing dl _ _ => ∀ x, JobRun d dl.job x →
      (x.cancelRequestedAt.isSome ∧ CancelledBy cfg A (p.part cfg d) d [] s dl.job) ∨
        Committed cfg A (p.part cfg d) d dl.job x s
  | .sweep n t => ∃ due : List RunWait, s.writes = (due.map fun x => .claimWait x.id) ∧
      p' = sweepOn n t (decide (due.length = cfg.batch)) (due.map RunWait.id)
  | .sweeping n t (w :: due) full => p' = sweepOn n t full due ∧
      (Findable A d .empty t w → LookedAt A d .empty s t w .timeout)
  | _ => True

/-- What the commit of a transaction of `p` means, where the process goes on as `p'`. -/
structure Outcome (cfg : Settings) (A : List Row → Db → Db → Prop) (d : Db) (p p' : Proc)
    (s : Local Row Write) : Prop where
  acts : Acts cfg (p.part cfg d) d s.writes none
  ok : p'.Ok (view d s)
  ack : ∀ n, p' = .acking n → Released (view d s) n
  deed : Deed cfg A d p p' s

/-- What the error with which a transaction fails says about the tables. -/
def Refusal (d : Db) : Proc → Err → Prop
  | .work _ job, e => (e = .stale → Spent d job) ∧ e ≠ .notFound
  | .committing dl _ _, e => e = .stale → Spent d dl.job
  | .spawning dl s, _ => ∀ req newID rest policy, s.todo = (req, newID) :: rest →
      req.check dl.run ≠ .ok policy
  | .creating dl _ child, _ =>
    (d.run? child.id = none ∨ ∃ id y, d.run? id = some y ∧ y.spawnKey = child.spawnKey) →
      dl.run.policy.maxChildren ≤ (d.childIDs dl.run.id).length
  | _, _ => True

/-- What a transaction of process `p` does, whether it is committed or rolled back. -/
def Conducts (cfg : Settings) (A : List Row → Db → Db → Prop) (d : Db) (p : Proc) (x : Tx Proc) :
    Prop :=
  wp A d x .empty (Prog.either (fun p' s' => Outcome cfg A d p p' s') (fun e _ => Refusal d p e))

/-- A process of which nothing matters but its acts and whether they are quiet. -/
def Proc.plain : Proc → Bool
  | .spawning _ _ | .creating _ _ _ | .work _ _ | .failing _ _ _ _ | .cancelling _ _
  | .committing _ _ _ | .sweep _ _ | .sweeping _ _ _ _ => false
  | _ => true

section
variable {cfg : Settings} {A : Sight} [Sharpens cfg A] {d : Db} {p p' : Proc} {t : TenantID}
  {due : List WaitID} {req : Request} {x : Tx Proc} {full : Bool} {ls : List Row} {s : Spawning}

omit [Sharpens cfg A] in
theorem Deed.of_quiet {s : Local Row Write} (h : p.plain = true) (hq : ∀ w ∈ s.writes, w.quiet = true) :
    Deed cfg A d p p' s := by
  cases p <;> trivial

theorem Refusal.of_plain (h : p.plain = true) (e : Err) : Refusal d p e := by
  cases p <;> trivial

omit [Sharpens cfg A] in
/-- A transaction that only reads, or writes what the protocol does not mention. -/
theorem conducts_of_quiet (hx : Quiet x) (hval : wp A d x .empty (Prog.either
      (fun p' s' => p'.Ok d ∧ (∀ n, p' ≠ .acking n) ∧
        ((∀ w ∈ s'.writes, w.quiet = true) → Deed cfg A d p p' s'))
      (fun e _ => Refusal d p e))) : Conducts cfg A d p x := by
  refine wp_mono (wp_and hx.wp hval) ?_
  rintro r s' ⟨⟨q, hq, hquiet⟩, hpost⟩
  cases r with
  | error => exact hpost
  | ok =>
    have hacts : Acts cfg (p.part cfg d) d s'.writes none := by
      rw [hq]
      exact Acts.nil.quietly hquiet
    exact ⟨hacts, hpost.1.later hacts.later, fun n hn => absurd hn (hpost.2.1 n),
      hpost.2.2 (by simpa [hq] using hquiet)⟩

omit [Sharpens cfg A] in
/-- The same, of a process of which nothing else matters. -/
theorem conducts_quiet (hx : Quiet x) (hplain : p.plain = true)
    (hval : wp A d x .empty (Prog.either (fun p' _ => p'.Ok d ∧ ∀ n, p' ≠ .acking n)
      (fun _ _ => True))) : Conducts cfg A d p x := by
  refine conducts_of_quiet hx (wp_mono hval ?_)
  intro r s' hpost
  cases r with
  | error e => exact .of_plain hplain e
  | ok => exact ⟨hpost.1, hpost.2, .of_quiet hplain⟩

omit [Sharpens cfg A] in
/-- A quiet transaction after which the process goes on as `p'`. -/
theorem conducts_then {α : Type} {x : Tx α} (hx : Quiet x) (hplain : p.plain = true)
    (hok : p'.Ok d) (hack : ∀ n, p' ≠ .acking n) :
    Conducts cfg A d p (x >>= fun _ => Pure.pure p') := by
  refine conducts_quiet (hx.bind fun _ => .pure p') hplain ?_
  rw [wp_bind]
  refine wp_mono hx.wp ?_
  rintro (e | a) s' _
  · trivial
  · simpa using ⟨hok, hack⟩

omit [Sharpens cfg A] in
/-- A transaction of acts after which the process goes on as `p'`. -/
theorem conducts_acts {α : Type} {x : Tx α} (hplain : p.plain = true)
    (hdeed : ∀ s, Deed cfg A d p p' s)
    (hx : wp A d x .empty (Prog.either (fun _ s' => Acts cfg (p.part cfg d) d s'.writes none)
      (fun _ _ => True)))
    (hok : p'.Ok d) (hack : ∀ n, p' = .acking n → ∀ d', Later d d' → Released d' n) :
    Conducts cfg A d p (x >>= fun _ => Pure.pure p') := by
  unfold Conducts
  rw [wp_bind]
  refine wp_either hx (fun e _ _ => .of_plain hplain e) ?_
  intro a s' hpost
  simp only [Prog.either_ok, wp_pure']
  have hacts : Acts cfg (p.part cfg d) d s'.writes none := hpost
  exact ⟨hacts, hok.later hacts.later, fun n hn => hack n hn _ hacts.later, hdeed s'⟩

/-! ## Requests -/

/-- What a read without a lock has found is still stored. -/
theorem known_of_seen {d' : Db} (hsee : Seen cfg ls d d') {r : RunID} {x : AgentRun}
    (hx : d'.run? r = some x) : ∃ y, Known d x y := by
  obtain ⟨y, hy, hs⟩ := hsee.2.2.run hx
  rw [← Db.run?_id hx] at hy
  exact ⟨y, hy, hs.tenantID, hs.sessionID⟩

omit [Sharpens cfg A] in
/-- Both ways of reading a run, followed by checks. -/
private theorem wp_checked (cfg : Settings) [Sharpens cfg A] {need : Db → Option AgentRun}
    {k : AgentRun → Tx AgentRun}
    (hneed : ∀ v x, need v = some x → ∃ r, v.run? r = some x)
    (hk : ∀ x st, wp A d (k x) st (Prog.either (fun y s' => y = x ∧ s' = st)
      (fun _ _ => True))) :
    wp A d (Tx.lockRead [] (fun v => Runs.found (need v)) >>= k) .empty (Prog.either
      (fun run _ => ∃ x, Known d run x) (fun _ _ => True)) := by
  rw [wp_bind]
  refine wp_lockRead.mpr fun d' hsee => ?_
  cases hx : need (applyAll d' (Local.empty : Local Row Write).writes) with
  | none => trivial
  | some x =>
    obtain ⟨r, hr⟩ := hneed _ x hx
    refine wp_either (hk x _) (fun _ _ _ => trivial) ?_
    intro y s' hpost
    obtain ⟨rfl, -⟩ := hpost
    have hseen : Seen cfg _ d d' := Sharpens.seen hsee
    exact known_of_seen hseen hr

omit [Sharpens cfg A] in
theorem wp_resolve (cfg : Settings) [Sharpens cfg A] :
    wp A d req.resolve .empty (Prog.either (fun run _ => ∃ x, Known d run x)
      (fun _ _ => True)) := by
  have hown : ∀ t r v x, Db.ownRun v t r = some x → ∃ r, v.run? r = some x :=
    fun t r v x hx => ⟨r, (Db.ownRun_eq_some.mp hx).1⟩
  cases req with
  | answerRun t r =>
    refine wp_checked cfg (hown t r) fun x st => ?_
    split <;> simp
  | cancelRun t r =>
    refine wp_lockRead.mpr fun d' hsee => ?_
    cases hx : (applyAll d' (Local.empty : Local Row Write).writes).ownRun t r with
    | none => trivial
    | some =>
      have hseen : Seen cfg _ d d' := Sharpens.seen hsee
      exact known_of_seen hseen (Db.ownRun_eq_some.mp hx).1
  | adminCancelRun r | expireAwait r =>
    refine wp_checked cfg (fun v x hx => ⟨r, hx⟩) fun x st => ?_
    split <;> simp
  | answerAwait r =>
    simp only [Request.resolve]
    split
    · simp
    · refine wp_checked cfg (fun v x hx => ⟨r, hx⟩) fun x st => ?_
      split <;> simp

theorem quiet_resolve (req : Request) : Quiet req.resolve := by
  cases req with
  | answerRun | adminCancelRun | expireAwait =>
    refine .bind (.lockRead _ _) fun run => ?_
    split
    · exact .throw _
    · exact .pure _
  | cancelRun => exact .lockRead _ _
  | answerAwait =>
    simp only [Request.resolve]
    split
    · exact .throw _
    · refine .bind (.lockRead _ _) fun run => ?_
      split
      · exact .throw _
      · exact .pure _

variable (cfg) in
theorem wp_request {run x : AgentRun} (hx : Known d run x) : wp A d (req.tx run) .empty (Prog.either
      (fun _ s' => Acts cfg (req.part run) d s'.writes none) (fun _ _ => True)) := by
  cases req with
  | answerRun | answerAwait => exact wp_answer cfg _ hx rfl
  | cancelRun => exact wp_cancelRun' cfg _ hx rfl rfl
  | adminCancelRun => exact wp_adminCancelRun cfg _ hx rfl rfl
  | expireAwait => exact wp_expireAwait cfg _ hx rfl rfl

theorem quiet_createSession (t : TenantID) (s : SessionID) : Quiet (Sessions.create t s) :=
  .sessions_create fun _ => rfl

theorem quiet_foreign (op : ForeignOp) : Quiet op.tx := by
  cases op with
  | note | say | annotate => exact .bind (Quiet.append rfl) fun _ => .pure _
  | remember => exact .bind (.memory_set rfl) fun _ => .bind (Quiet.append rfl) fun _ => .pure _
  | forget => exact .bind (.memory_delete rfl) fun _ => .bind (Quiet.append rfl) fun _ => .pure _

theorem quiet_resolveSession (t : TenantID) (s : SessionID) : Quiet (resolveSession t s) := by
  refine .bind (.lockRead _ _) fun tenant => ?_
  split
  · exact .throw _
  · exact .pure _

/-! ## Workers -/

theorem conducts_work {pages : Nat} (hd : Integrity cfg d)
    (hn : Delivered d n job) : Conducts cfg A d (.work n job) (do
      match ← claim job pages with
      | none => Pure.pure (.acking n)
      | some (run, attempt) =>
        Pure.pure (.starting ⟨n, job, run, attempt, run.history, {}, false, false⟩)) := by
  obtain ⟨x, hx⟩ := hn.startable.1
  unfold Conducts
  rw [wp_bind]
  let me := (Proc.work n job).part cfg d
  refine wp_either (wp_claim cfg me ⟨rfl, rfl⟩ hd hx) (fun _ _ h => h) ?_
  intro o s' hpost
  cases o with
  | none =>
    obtain ⟨hcancel, hended⟩ := hpost
    have hacts : Acts cfg me d s'.writes none := hended.acts.mono me.ending_le
    simp only [Prog.either_ok, wp_pure']
    refine ⟨hacts, (hn.later hacts.later).holds.issued, ?_, fun y hy => .inl ⟨?_, hended⟩⟩
    · rintro m ⟨⟩
      exact .inl ⟨job, hn.later hacts.later, hended.spent hx rfl⟩
    · cases hx.run.symm.trans hy.run
      exact hcancel
  | some found =>
    obtain ⟨run, attempt⟩ := found
    obtain ⟨rfl, hclaimed⟩ := hpost
    have hacts : Acts cfg me d s'.writes none := hclaimed.acts hx
    simp only [Prog.either_ok, wp_pure']
    refine ⟨hacts, ?_, by simp, fun y hy => .inr ?_⟩
    · refine ⟨hn.later hacts.later, ⟨.running, hclaimed.running hx, by simp⟩, Db.run?_id hx.run,
        hx.tenantID, hx.sessionID, fun hy => ?_, by simp, fun _ h => by cases h⟩
      obtain ⟨z, hz, hsame⟩ := hacts.later.extends_.run hx.run
      cases hz.symm.trans hy
      exact hsame.policy.symm
    · cases hx.run.symm.trans hy.run
      exact hclaimed

theorem conducts_fail {reason message : String} (hd : Integrity cfg d)
    (hn : Delivered d n job) : Conducts cfg A d (.failing n job reason message) (do
      failRun job reason message
      Pure.pure (.acking n)) := by
  obtain ⟨x, hx⟩ := hn.startable.1
  unfold Conducts
  rw [wp_bind]
  let me := (Proc.failing n job reason message).part cfg d
  refine wp_either (wp_failRun cfg me ⟨rfl, rfl⟩ hd hx) (fun _ _ _ => trivial) ?_
  intro _ s' hpost
  have hboth : Acts cfg me d s'.writes none ∧ Spent (view d s') job := by
    rcases hpost with ⟨hterm, hws⟩ | ⟨-, hended⟩
    · rw [view, hws]
      exact ⟨.nil, .inl ⟨x.state, Db.stateOf_of_run hx.run, RunState.live_of_terminal hterm⟩⟩
    · exact ⟨hended.acts.mono me.ending_le, hended.spent hx rfl⟩
  obtain ⟨hacts, hspent⟩ := hboth
  simp only [Prog.either_ok, wp_pure']
  refine ⟨hacts, (hn.later hacts.later).holds.issued, ?_, fun y hy => ?_⟩
  · rintro m ⟨⟩
    exact .inl ⟨job, hn.later hacts.later, hspent⟩
  · cases hx.run.symm.trans hy.run
    exact hpost

theorem conducts_cancel (hd : Integrity cfg d) (hn : Delivered d n job) :
    Conducts cfg A d (.cancelling n job) (do
      let _ ← Loop.cancelRun job
      Pure.pure (.acking n)) := by
  obtain ⟨x, hx⟩ := hn.startable.1
  unfold Conducts
  rw [wp_bind]
  let me := (Proc.cancelling n job).part cfg d
  refine wp_either (Protocol.wp_cancelRun cfg me ⟨rfl, rfl⟩ rfl hd hx) (fun _ _ _ => trivial) ?_
  intro _ s' hpost
  have hended : CancelledBy cfg A me d [] s' job := hpost
  have hacts : Acts cfg me d s'.writes none := hended.acts.mono me.ending_le
  simp only [Prog.either_ok, wp_pure']
  refine ⟨hacts, (hn.later hacts.later).holds.issued, ?_, hended⟩
  rintro m ⟨⟩
  exact .inl ⟨job, hn.later hacts.later, hended.spent hx rfl⟩

theorem conducts_commit {step : StepResult} {final : String}
    (hd : Integrity cfg d) (hdl : dl.Ok d) : Conducts cfg A d (.committing dl step final) (do
      let _ ← commitOutcome cfg dl.job dl.attempt dl.env step dl.recorder final
      Pure.pure (.acking dl.jobID)) := by
  obtain ⟨x, hx⟩ := hdl.delivered.startable.1
  have hpending : x.state ≠ .pending := by
    obtain ⟨s, hs, hne⟩ := hdl.begun
    rw [Db.stateOf_of_run hx.run] at hs
    exact Option.some.inj hs ▸ hne
  unfold Conducts
  rw [wp_bind]
  let me := (Proc.committing dl step final).part cfg d
  have hopens : ∀ call, me.opens (deterministicWaitID cfg dl.job.runID dl.job.stepIndex call) :=
    fun call => ⟨call, rfl⟩
  refine wp_either (wp_commitOutcome cfg me rfl rfl ⟨rfl, rfl⟩ hd hx hpending ?_) (fun _ _ h => h) ?_
  · intro id hid
    obtain ⟨y, hy, ht, hs, -⟩ := hdl.waits id hid
    exact ⟨y, hy, ht, hs⟩
  intro o s' hpost
  have hboth : Acts cfg me d s'.writes none ∧ Spent (view d s') dl.job := by
    cases o with
    | none => exact ⟨hpost.2.acts.mono me.ending_le, hpost.2.spent hx rfl⟩
    | some => exact ⟨hpost.acts hopens, hpost.spent hopens⟩
  obtain ⟨hacts, hspent⟩ := hboth
  simp only [Prog.either_ok, wp_pure']
  refine ⟨hacts, (hdl.delivered.later hacts.later).holds.issued, ?_, fun y hy => ?_⟩
  · rintro m ⟨⟩
    exact .inl ⟨dl.job, hdl.delivered.later hacts.later, hspent⟩
  · cases hx.run.symm.trans hy.run
    cases o with
    | none => exact .inl hpost
    | some => exact .inr hpost

/-- Marking a history as compacted keeps its messages. -/
theorem conducts_compact {covered : Nat} (hdl : dl.Ok d) :
    Conducts cfg A d (.compacting dl covered) (do
      Runs.setHistory dl.job.tenantID dl.job.runID dl.env.encode .compaction
      Pure.pure (.compacted dl covered)) := by
  obtain ⟨x, hx⟩ := hdl.delivered.startable.1
  refine conducts_acts rfl (fun _ => trivial) ?_ hdl (by simp)
  refine wp_runs_update_found (respects cfg A) hx.own fun _ => ?_
  exact Acts.nil.snoc (.compact rfl rfl (Envelope.encode_messages _))

/-! ## Tools -/

omit [Sharpens cfg A] in
theorem conducts_pure (hplain : p.plain = true) (hok : p'.Ok d) (hack : ∀ n, p' ≠ .acking n) :
    Conducts cfg A d p (Pure.pure p') := by
  refine conducts_quiet (.pure p') hplain ?_
  simpa using ⟨hok, hack⟩

theorem quiet_permissionDenied (run : AgentRun) (tool reason : String) :
    Quiet (permissionDenied run tool reason) :=
  .bind (Quiet.append rfl) fun _ => .pure _

theorem quiet_appendAgent {payload : EventPayload} (hp : payload.routine = true) :
    Quiet (appendAgent job payload) :=
  .bind (Quiet.append hp) fun _ => .pure _

omit [Sharpens cfg A] in
/-- A run that was read as a child of the run is one. -/
theorem childOf_of_seen (cfg : Settings) [Sharpens cfg A] (hdl : dl.Ok d)
    {d' : Db} (hsee : A ls d d') {x : AgentRun} (hx : x ∈ d'.runs)
    (hp : x.parentRunID = some dl.run.id) : ChildOf d dl.job x.id := by
  have hseen : Seen cfg ls d d' := Sharpens.seen hsee
  have hrow := Db.run?_of_mem hseen.2.1.runIDs hx
  obtain ⟨y, hy, hsame⟩ := hseen.2.2.run hrow
  cases (hseen.2.1.lineage hrow).later hseen.2.2 hsame with
  | root hnone =>
    rw [hsame.parentRunID, hp] at hnone
    cases hnone
  | child hr hq ht hs =>
    rw [hsame.parentRunID, hp, hdl.runID] at hr
    cases hr
    obtain ⟨z, hz⟩ := hdl.delivered.startable.1
    cases hq.symm.trans hz.run
    exact ⟨y, hy, ht.symm.trans hz.tenantID, hs.symm.trans hz.sessionID,
      by rw [hsame.parentRunID, hp, hdl.runID]⟩

theorem conducts_tool (hdl : dl.Ok d) (c : ToolCall) :
    Conducts cfg A d (.streaming dl) (callTool cfg dl c) := by
  unfold callTool
  split
  · exact conducts_then (quiet_permissionDenied _ _ _) rfl hdl (by simp)
  cases c with
  | askUser => exact conducts_pure rfl { hdl with } (by simp)
  | postEvent => exact conducts_then (.append rfl) rfl hdl (by simp)
  | memorySet | memoryDelete =>
    exact conducts_then (quiet_foreign _) rfl hdl (by simp)
  | spawnAgent => exact conducts_pure rfl ⟨hdl, by simp⟩ (by simp)
  | waitForAgents =>
    dsimp only
    split
    · exact conducts_pure rfl hdl (by simp)
    refine conducts_quiet ?_ rfl ?_
    · refine .bind (.query _) fun children => ?_
      split
      · exact .bind (quiet_permissionDenied _ _ _) fun _ => .pure _
      · split
        · exact .pure _
        · exact .pure _
    rw [wp_bind]
    refine wp_query.mpr fun d' hsee => ?_
    simp only [Prog.either_ok]
    split
    · rw [wp_bind]
      refine wp_mono (quiet_permissionDenied _ _ _).wp ?_
      rintro (e | _) s' _
      · trivial
      · simp only [Prog.either_ok, wp_pure']
        exact ⟨hdl, by simp⟩
    · rename_i ids hids
      split
      · simp only [wp_pure', Prog.either_ok]
        exact ⟨hdl, by simp⟩
      · simp only [wp_pure', Prog.either_ok]
        refine ⟨{ hdl with waits := ?_ }, by simp⟩
        intro id hid
        obtain ⟨c, hc, rfl⟩ := mem_namedChildren hids id (mem_dedup hid)
        have hc' : c ∈ d'.runs ∧ c.parentRunID = some dl.run.id := by
          simp only [List.mem_insertionSort, Runs.childrenIn, List.mem_filter,
            decide_eq_true_eq] at hc
          exact ⟨hc.1, hc.2.1⟩
        exact childOf_of_seen cfg hdl hsee hc'.1 hc'.2
  | runAgentCohort =>
    dsimp only
    split
    · exact conducts_pure rfl hdl (by simp)
    · exact conducts_pure rfl ⟨hdl, by simp⟩ (by simp)

theorem quiet_findSpawned (run : AgentRun) (job : StepJob) (req : SpawnRequest) :
    Quiet (findSpawned run job req) := by
  refine .bind (.attempt (.lockRead _ _)) fun found => ?_
  cases found with
  | ok => exact .pure _
  | error e =>
    cases e with
    | notFound => exact .pure _
    | _ => exact .throw _

omit [Sharpens cfg A] in
/-- A run that is found under the key of the tool call is a child of the run. -/
theorem wp_findSpawned (cfg : Settings) [Sharpens cfg A] (hdl : dl.Ok d) (req : SpawnRequest) :
    wp A d (findSpawned dl.run dl.job req) .empty (Prog.either
      (fun found _ => ∀ id, found = some id → ChildOf d dl.job id ∧ ∃ y, y ∈ d.runs ∧
        y.spawnKey = spawnKey dl.run.id dl.job.stepIndex req.toolCallID ∧ y.id = id)
      (fun _ _ => False)) := by
  unfold findSpawned
  rw [wp_bind, wp_attempt]
  refine wp_lockRead.mpr fun d' hsee => ?_
  simp only [Local.empty_writes, applyAll_nil]
  cases hfind : d'.runs.find? fun x => x.spawnKey =
      spawnKey dl.run.id dl.job.stepIndex req.toolCallID ∧ x.tenantID = dl.run.tenantID with
  | none => simp [Runs.found]
  | some x =>
    have hx := List.find?_some hfind
    simp only [decide_eq_true_eq] at hx
    have hmem := List.mem_of_find?_eq_some hfind
    have hseen : Seen cfg _ d d' := Sharpens.seen hsee
    have hparent := child_of_spawnKey hseen.2.1 (Db.run?_of_mem hseen.2.1.runIDs hmem) hx.1
    simp only [Runs.found, Prog.either_ok, wp_pure']
    rintro id ⟨⟩
    obtain ⟨y, hy, hsame⟩ := hseen.2.2.run (Db.run?_of_mem hseen.2.1.runIDs hmem)
    exact ⟨childOf_of_seen cfg hdl hsee hmem hparent.1, y, List.mem_of_find?_eq_some hy,
      hsame.spawnKey.trans hx.1, Db.run?_id hy⟩

theorem conducts_spawn (hp : (Proc.spawning dl s).Ok d) :
    Conducts cfg A d (.spawning dl s) (spawnNext dl s) := by
  obtain ⟨hdl, hs⟩ := hp
  have hpure : ∀ p', p'.Ok d → (∀ n, p' ≠ .acking n) → LooksUp d dl s p' →
      Conducts cfg A d (.spawning dl s) (Pure.pure p') := fun p' hok hack hlook =>
    conducts_of_quiet (.pure p') (by simpa using ⟨hok, hack, by simp, hlook⟩)
  unfold spawnNext
  split
  · rename_i htodo
    have hlook : ∀ p', LooksUp d dl s p' := fun p' req newID rest policy h => by simp [htodo] at h
    split
    · exact hpure _ hdl (by simp) (hlook _)
    · exact hpure _ { hdl with waits := hs } (by simp) (hlook _)
  rename_i req newID rest htodo
  have hhead : ∀ {req' newID' rest'}, s.todo = (req', newID') :: rest' →
      req' = req ∧ newID' = newID ∧ rest' = rest := by
    intro req' newID' rest' h
    obtain ⟨h₁, h₂⟩ := List.cons.inj (h.symm.trans htodo)
    exact ⟨congrArg Prod.fst h₁, congrArg Prod.snd h₁, h₂⟩
  have hrefused : (∀ policy, req.check dl.run ≠ .ok policy) → ∀ p', LooksUp d dl s p' := by
    intro hno p' req' newID' rest' policy h hcheck
    obtain ⟨rfl, rfl, rfl⟩ := hhead h
    exact absurd hcheck (hno policy)
  split
  · rename_i hcheck
    exact hpure _ hdl (by simp) (hrefused (by simp [hcheck]) _)
  · rename_i hcheck
    exact hpure _ hdl (by simp) (hrefused (by simp [hcheck]) _)
  rename_i policy hcheck
  refine conducts_of_quiet ?_ ?_
  · refine .bind (quiet_findSpawned _ _ _) fun found => ?_
    cases found with
    | none | some => exact .pure _
  rw [wp_bind]
  refine wp_either (wp_findSpawned cfg hdl req) (fun _ _ hpost => hpost.elim) ?_
  intro found s' hpost
  cases found with
  | none =>
    simp only [Prog.either_ok, wp_pure']
    refine ⟨⟨⟨hdl, hs⟩, hdl.sessionID, rfl, ⟨req.toolCallID, rfl⟩,
      SpawnRequest.check_within hcheck⟩, by simp, fun hq => ⟨hq, ?_⟩⟩
    intro req' newID' rest' policy' h hcheck'
    obtain ⟨rfl, rfl, rfl⟩ := hhead h
    cases hcheck.symm.trans hcheck'
    exact .inr rfl
  | some id =>
    simp only [Prog.either_ok, wp_pure']
    obtain ⟨hchild, y, hy, hkey, rfl⟩ := hpost id rfl
    refine ⟨⟨hdl, fun id' hid' => ?_⟩, by simp, fun hq => ⟨hq, ?_⟩⟩
    · rcases List.mem_append.mp hid' with hid' | hid'
      · exact hs id' hid'
      · obtain rfl := List.mem_singleton.mp hid'
        exact hchild
    · intro req' newID' rest' policy' h _
      obtain ⟨rfl, rfl, rfl⟩ := hhead h
      exact .inl ⟨y, hy, hkey, rfl⟩

theorem conducts_create {child : AgentRun} (hd : Integrity cfg d)
    (hp : (Proc.creating dl s child).Ok d) : Conducts cfg A d (.creating dl s child) (do
      let id ← spawnChildTx dl.run dl.job child
      Pure.pure (.spawning dl { s with ids := s.ids ++ [id] })) := by
  obtain ⟨⟨hdl, hs⟩, hchild⟩ := hp
  obtain ⟨x, hx⟩ := hdl.delivered.startable.1
  obtain ⟨call, hkey⟩ := hchild.spawnKey
  unfold Conducts
  rw [wp_bind]
  refine wp_either (wp_spawnChildTx cfg {} hd hx hdl.runID hdl.tenantID hdl.sessionID (hdl.policy hx.run)
    hchild.sessionID hchild.parentRunID hkey hchild.policy) (fun _ _ h => h) ?_
  intro id s' hpost
  obtain ⟨hacts, hid, hspawned⟩ := hpost
  simp only [Prog.either_ok, wp_pure']
  refine ⟨hacts, ⟨hdl.later hacts.later, ?_⟩, by simp, id, hspawned, rfl⟩
  intro id' hid'
  rcases List.mem_append.mp hid' with hid' | hid'
  · exact (hs id' hid').later hacts.later.extends_
  · obtain rfl := List.mem_singleton.mp hid'
    exact hid

/-! ## Sweeps -/

theorem sweepOn_ok (h : Holds d n (.waitTimeout t)) : (sweepOn n t full due).Ok d := by
  cases due with
  | nil =>
    cases full with
    | true => exact h
    | false => exact h.issued
  | cons => exact h

theorem sweepOn_acking {m : Nat} (h : sweepOn n t full due = .acking m) : m = n := by
  cases due with
  | nil =>
    cases full with
    | true => cases h
    | false => cases h; rfl
  | cons => cases h

theorem conducts_sweep (h : Holds d n (.waitTimeout t)) : Conducts cfg A d (.sweep n t) (do
      let due ← claimDueWaits cfg t
      Pure.pure (sweepOn n t (decide (due.length = cfg.batch)) (due.map RunWait.id))) := by
  unfold Conducts
  rw [wp_bind]
  refine wp_either (wp_claimDueWaits cfg ((Proc.sweep n t).part cfg d) fun _ => trivial)
    (fun _ _ _ => trivial) ?_
  intro due s' hpost
  obtain ⟨hacts, hws⟩ := hpost
  simp only [Prog.either_ok, wp_pure']
  refine ⟨hacts, (sweepOn_ok h).later hacts.later, fun m hm => ?_, due, hws, rfl⟩
  obtain rfl := sweepOn_acking hm
  exact .inr ⟨t, h.later hacts.later⟩

theorem conducts_close {w : WaitID}
    (h : Holds d n (.waitTimeout t)) : Conducts cfg A d (.sweeping n t (w :: due) full) (do
      let _ ← tryCloseWait t w .timeout
      Pure.pure (sweepOn n t full due)) := by
  unfold Conducts
  rw [wp_bind]
  let me := (Proc.sweeping n t (w :: due) full).part cfg d
  refine wp_either (wp_tryCloseWait cfg me none (fun _ => rfl) ?_) (fun _ _ _ => trivial) ?_
  · intro x p hx hp
    have hx : d.wait? w = some x := hx
    have hp : d.run? x.parentRunID = some p := hp
    simp [me, Proc.part, hx, hp]
  intro b s' hpost
  have hacts : Acts cfg me d s'.writes none := by
    cases b with
    | false => exact (hpost.1 rfl).acts
    | true =>
      obtain ⟨x, -, hreach⟩ := hpost.2.1 rfl
      exact hreach.acts
  simp only [Prog.either_ok, wp_pure']
  refine ⟨hacts, (sweepOn_ok h).later hacts.later, fun m hm => ?_, rfl, hpost.2.2⟩
  obtain rfl := sweepOn_acking hm
  exact .inr ⟨t, h.later hacts.later⟩

/-! ## Every transition -/

theorem resolved_ok (hdl : dl.Ok d) : (resolved cfg dl).Ok d := by
  unfold resolved
  split
  · exact hdl.delivered
  split
  · exact hdl.delivered
  split
  · exact { hdl with }
  · exact { hdl with }

theorem resolved_ne (n : Nat) : resolved cfg dl ≠ .acking n := by
  unfold resolved
  split
  · simp
  split
  · simp
  split <;> simp

theorem finished_ok (hdl : dl.Ok d) (r : AgentResult) :
    (finished dl r).Ok d ∧ ∀ n, finished dl r ≠ .acking n := by
  unfold finished
  split
  · exact ⟨hdl.delivered, by simp⟩
  · exact ⟨hdl, by simp⟩

theorem streamFailed_ok (hdl : dl.Ok d) (e : StreamError) :
    (streamFailed dl e).Ok d ∧ ∀ n, streamFailed dl e ≠ .acking n := by
  unfold streamFailed
  split
  · exact ⟨⟨hdl.delivered, hdl.cancel ‹_›⟩, by simp⟩
  · cases e with
    | interrupted => exact ⟨trivial, by simp⟩
    | provider => exact ⟨hdl.delivered, by simp⟩

theorem StreamEvent.payload_routine (dl : Delivery) (e : StreamEvent) :
    (e.payload dl).routine = true := by
  cases e <;> rfl

theorem conducts_request : Conducts cfg A d (.request req) (do
      let run ← req.resolve
      Pure.pure (.requestTx req run)) := by
  refine conducts_quiet (.bind (quiet_resolve req) fun _ => .pure _) rfl ?_
  rw [wp_bind]
  refine wp_either (wp_resolve cfg) (fun _ _ _ => trivial) ?_
  intro run s' hpost
  simp only [Prog.either_ok, wp_pure']
  exact ⟨hpost, by simp⟩

theorem conducts_poll (hdl : dl.Ok d) : Conducts cfg A d (.streaming dl) (do
      match ← (Runs.get dl.job.tenantID dl.job.runID).attempt with
      | .ok run => Pure.pure (.streaming
          { dl with cancelSeen := dl.cancelSeen || run.cancelRequestedAt.isSome })
      | .error _ => Pure.pure (.streaming dl)) := by
  refine conducts_quiet (.bind (.attempt (.lockRead _ _)) fun found => ?_) rfl ?_
  · cases found with
    | ok | error => exact .pure _
  rw [wp_bind, wp_attempt]
  refine wp_runs_get fun d' hsee => ?_
  have hseen : Seen cfg _ d d' := Sharpens.seen hsee
  cases hrun : (view d' .empty).ownRun dl.job.tenantID dl.job.runID with
  | none =>
    simp only [Runs.found, Prog.either_ok, wp_pure']
    exact ⟨hdl, by simp⟩
  | some run =>
    simp only [Runs.found, Prog.either_ok, wp_pure']
    refine ⟨{ hdl with cancel := fun hc => ?_ }, by simp⟩
    rcases Bool.or_eq_true_iff.mp hc with hc | hc
    · exact hdl.cancel hc
    · have hrow : d'.run? dl.job.runID = some run := (Db.ownRun_eq_some.mp hrun).1
      exact hseen.2.2.cancelOf (by rw [Db.cancelOf_of_run hrow, hc])

theorem body_conducts (hd : Integrity cfg d) (hp : p.Ok d) (hack : ∀ n, p ≠ .acking n) {i : Input}
    (hb : body cfg p i = some x) : Conducts cfg A d p x := by
  unfold body at hb
  split at hb <;> try cases hb
  · split
    · exact conducts_quiet (.throw _) rfl (by simp)
    · exact conducts_then (quiet_resolveSession _ _) rfl ⟨rfl, rfl⟩ (by simp)
  · exact conducts_acts rfl (fun _ => trivial) (wp_api_startRun cfg _ hp.1 hp.2) trivial (by simp)
  · exact conducts_request
  · obtain ⟨x, hx⟩ := hp
    exact conducts_acts rfl (fun _ => trivial) (wp_request cfg hx) trivial (by simp)
  · exact conducts_then (quiet_createSession _ _) rfl trivial (by simp)
  · exact conducts_then (.forEach fun op _ => quiet_foreign op) rfl trivial (by simp)
  · exact conducts_work hd hp
  · exact conducts_then (quiet_appendAgent rfl) rfl hp (by simp)
  · exact conducts_pure rfl (resolved_ok hp) resolved_ne
  · exact conducts_pure rfl hp.delivered (by simp)
  · exact conducts_pure rfl trivial (by simp)
  · exact conducts_compact hp
  · exact conducts_then (quiet_appendAgent rfl) rfl hp (by simp)
  · exact conducts_then (quiet_appendAgent (StreamEvent.payload_routine _ _)) rfl
      hp (by simp)
  · exact conducts_tool hp _
  · exact conducts_poll hp
  · split at hb <;> cases hb
    exact conducts_then (quiet_appendAgent rfl) rfl { hp with } (by simp)
  · exact conducts_pure rfl (finished_ok hp _).1 (finished_ok hp _).2
  · exact conducts_pure rfl (streamFailed_ok hp _).1 (streamFailed_ok hp _).2
  · exact conducts_spawn hp
  · exact conducts_create hd hp
  · exact conducts_then (quiet_permissionDenied _ _ _) rfl hp (by simp)
  · exact conducts_fail hd hp
  · exact conducts_cancel hd hp.1
  · exact conducts_commit hd hp
  · exact conducts_sweep hp
  · exact conducts_close hp
  · refine conducts_acts rfl (fun _ => trivial) (wp_rearm cfg _) hp.issued ?_
    rintro m ⟨⟩ d' hlater
    exact .inr ⟨_, hp.later hlater⟩
  · exact absurd rfl (hack _)

end

end Ultracore.System
