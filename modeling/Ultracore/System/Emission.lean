-- SUMMARY: What the transactions of processes write: everyday rows, but for a few kinds of bodies.
import Ultracore.Protocol.Emission
import Ultracore.System.Conduct

/-!
# What processes write

The bodies of a process, by what they write. Runs are added by requests that start one and by
spawning; the session memory is written by tools, by other subsystems and by the hook of a step.
-/

namespace Ultracore.System

open Txn Loop

/-- The bodies of process `p`. -/
inductive Writing (cfg : Settings) (p : Proc) : Tx Proc → Prop where
  | ordinary {x : Tx Proc} : Ordinary x → Writing cfg p x
  | close {n : Nat} {t : TenantID} {w : WaitID} {due : List WaitID} {full : Bool} {q : Proc} :
      p = .sweeping n t (w :: due) full →
      Writing cfg p (tryCloseWait t w .timeout >>= fun _ => pure q)
  | start {run : AgentRun} {q : Proc} : p = .startTx run →
      Writing cfg p (Api.startRun run >>= fun _ => pure q)
  | create {d : Delivery} {s : Spawning} {child : AgentRun} {k : RunID → Proc} :
      p = .creating d s child →
      Writing cfg p (spawnChildTx d.run d.job child >>= fun id => pure (k id))
  | foreign {ops : List ForeignOp} {q : Proc} :
      Writing cfg p (Tx.forEach ops ForeignOp.tx >>= fun _ => pure q)
  | call {op : ForeignOp} {q : Proc} : Writing cfg p (op.tx >>= fun _ => pure q)
  | commit {d : Delivery} {step : StepResult} {final : String} {q : Proc} :
      p = .committing d step final →
      Writing cfg p
        (commitOutcome cfg d.job d.attempt d.env step d.recorder final >>= fun _ => pure q)

section
variable {cfg : Settings} {p : Proc}

theorem resolve_ordinary (req : Request) : Ordinary req.resolve := by
  cases req with
  | cancelRun =>
    dsimp only [Request.resolve]
    exact .lockRead _ _
  | answerAwait =>
    dsimp only [Request.resolve]
    split
    · exact .throw _
    refine .bind (.lockRead _ _) fun run => ?_
    split
    · exact .throw _
    · exact .pure _
  | _ =>
    refine .bind (.lockRead _ _) fun run => ?_
    split
    · exact .throw _
    · exact .pure _

theorem request_ordinary (req : Request) (run : AgentRun) : Ordinary (req.tx run) := by
  cases req with
  | answerRun | answerAwait => exact .answer
  | cancelRun => exact .api_cancelRun
  | adminCancelRun => exact .adminCancelRun
  | expireAwait => exact .expireAwait

theorem StreamEvent.payload_free (d : Delivery) (e : StreamEvent) :
    (e.payload d).remembers = false := by
  cases e <;> rfl

theorem spawnNext_ordinary (d : Delivery) (s : Spawning) : Ordinary (spawnNext d s) := by
  unfold spawnNext
  split
  · split
    · exact .pure _
    · exact .pure _
  split
  · exact .pure _
  · exact .pure _
  refine .bind .findSpawned fun found => ?_
  split
  · exact .pure _
  · exact .pure _

theorem callTool_writing (d : Delivery) (c : ToolCall) : Writing cfg p (callTool cfg d c) := by
  unfold callTool
  split
  · exact .ordinary (.bind .permissionDenied fun _ => .pure _)
  cases c with
  | askUser | spawnAgent => exact .ordinary (.pure _)
  | postEvent => exact .ordinary (.bind (.append rfl) fun _ => .pure _)
  | memorySet | memoryDelete => exact .call
  | waitForAgents =>
    refine .ordinary ?_
    dsimp only
    split
    · exact .pure _
    refine .bind (.query _) fun children => ?_
    split
    · exact .bind .permissionDenied fun _ => .pure _
    · split
      · exact .pure _
      · exact .pure _
  | runAgentCohort =>
    refine .ordinary ?_
    dsimp only
    split
    · exact .pure _
    · exact .pure _

theorem body_writing {i : Input} {x : Tx Proc} (h : body cfg p i = some x) : Writing cfg p x := by
  unfold body at h
  split at h <;> try cases h
  · refine .ordinary ?_
    split
    · exact .throw _
    · exact .bind .resolveSession fun _ => .pure _
  · exact .start rfl
  · exact .ordinary (.bind (resolve_ordinary _) fun _ => .pure _)
  · exact .ordinary (.bind (request_ordinary _ _) fun _ => .pure _)
  · exact .ordinary (.bind (fun _ h => h.createSession) fun _ => .pure _)
  · exact .foreign
  · refine .ordinary (.bind .claim fun claimed => ?_)
    split
    · exact .pure _
    · exact .pure _
  · exact .ordinary (.bind (.appendAgent rfl) fun _ => .pure _)
  · exact .ordinary (.pure _)
  · exact .ordinary (.pure _)
  · exact .ordinary (.pure _)
  · exact .ordinary (.bind (.setHistory (by simp)) fun _ => .pure _)
  · exact .ordinary (.bind (.appendAgent rfl) fun _ => .pure _)
  · exact .ordinary (.bind (.appendAgent (StreamEvent.payload_free _ _)) fun _ => .pure _)
  · exact callTool_writing _ _
  · refine .ordinary (.bind (.attemptRead _ _) fun res => ?_)
    split
    · exact .pure _
    · exact .pure _
  · split at h <;> cases h
    exact .ordinary (.bind (.appendAgent rfl) fun _ => .pure _)
  · exact .ordinary (.pure _)
  · exact .ordinary (.pure _)
  · exact .ordinary (spawnNext_ordinary _ _)
  · exact .create rfl
  · exact .ordinary (.bind .permissionDenied fun _ => .pure _)
  · exact .ordinary (.bind .failRun fun _ => .pure _)
  · exact .ordinary (.bind .cancelRun fun _ => .pure _)
  · exact .commit rfl
  · exact .ordinary (.bind .claimDueWaits fun _ => .pure _)
  · exact .close rfl
  · exact .ordinary (.bind .rearm fun _ => .pure _)
  · exact .ordinary (.bind (fun _ h => h.ack) fun _ => .pure _)

theorem foreign_only {P : Write → Prop} (hbump : ∀ s, P (.bumpSeq s))
    (hset : ∀ e text, P (.setMemory e text)) (hdelete : ∀ s key text, P (.deleteMemory s key text))
    (hevent : ∀ e, P (.insertEvent e)) (op : ForeignOp) : op.tx.Only P := by
  have happend : ∀ {t s actor payload}, (Events.append t s actor payload).Only P :=
    Events.append_emits (hbump _) fun _ => hevent _
  cases op with
  | note | say | annotate => exact .bind happend fun _ => .pure _
  | remember => exact .bind (.memory_set (hset _ _)) fun _ => .bind happend fun _ => .pure _
  | forget => exact .bind (.memory_delete (hdelete _ _ _)) fun _ => .bind happend fun _ => .pure _

/-- What a body writes: everyday rows, the session memory, events, and the run that the process
    starts or spawns. -/
theorem Writing.only {P : Write → Prop} {x : Tx Proc} (h : Writing cfg p x)
    (hP : ∀ w : Write, w.everyday = true → P w) (hset : ∀ e text, P (.setMemory e text))
    (hdelete : ∀ s key text, P (.deleteMemory s key text)) (hevent : ∀ e, P (.insertEvent e))
    (hstart : ∀ run, p = .startTx run → P (.insertRun (Runs.inserted run.tenantID run)))
    (hcreate : ∀ d s child, p = .creating d s child →
      P (.insertRun (Runs.inserted d.run.tenantID child))) : x.Only P := by
  have hforeign := foreign_only (fun _ => hP _ rfl) hset hdelete hevent
  have hbuilt := Tx.Only.built hP
  cases h with
  | ordinary hx => exact hx.only hP
  | close => exact .bind (.tryCloseWait hP) fun _ => .pure _
  | start hp => exact .bind (hbuilt.startRun (.runs_create (hstart _ hp))) fun _ => .pure _
  | create hp => exact .bind (hbuilt.spawnChildTx (.runs_create (hcreate _ _ _ hp))) fun _ => .pure _
  | foreign => exact .bind (.forEach fun op _ => hforeign op) fun _ => .pure _
  | call => exact .bind (hforeign _) fun _ => .pure _
  | commit =>
    exact .bind (hbuilt.commitOutcome (fun _ _ => .attempt (.accountStepCost hP hset _ _))
      fun _ _ _ => .createWait hP) fun _ => .pure _

end

end Ultracore.System
