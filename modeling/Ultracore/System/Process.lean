-- SUMMARY: The processes of the program: API requests, step workers and timeout sweepers, as a machine of transactions.
import Ultracore.Api.Runs
import Ultracore.Loop.Spawn
import Ultracore.Loop.Sweep
import Ultracore.Loop.Tools
import Ultracore.Store.App

/-!
# Processes

A process is an API request, an operator command or the execution of one queue job.
Its state says what it has learnt so far and which transaction it runs next. What the
model, the credential store and the network do comes in as the `Input` of a transition:
every outcome is possible.

The queue delivers an outstanding `StepJob` any number of times, also concurrently. A
`WaitTimeoutJob` is delivered from its scheduled time on, to one worker at a time, and
again if that worker failed or crashed. A job is outstanding until it is acknowledged.
-/

namespace Ultracore.System

open Txn Loop Api

/-! ## Requests -/

/-- A request about an existing run. -/
inductive Request where
  | answerRun (t : TenantID) (r : RunID) (message : String) (caller : Actor)
  | cancelRun (t : TenantID) (r : RunID)
  | adminCancelRun (r : RunID)
  | answerAwait (r : RunID) (message operatorID operatorName : String)
  | expireAwait (r : RunID)

namespace Request

/-- `loadRun`: operators see the runs of every tenant. -/
def loadRun (r : RunID) : Tx AgentRun := .lockRead [] fun d => Runs.found (d.run? r)

/-- The unlocked read and the checks on it, before the transaction. -/
def resolve : Request → Tx AgentRun
  | .answerRun t r message _ => do
      let run ← Runs.get t r
      if message = "" then Tx.throw (.invalid "message is required") else pure run
  | .cancelRun t r => Runs.get t r
  | .adminCancelRun r => do
      let run ← loadRun r
      if run.state.terminal then Tx.throw (.failedPrecondition "run already terminal") else pure run
  | .answerAwait r message _ _ => do
      if isBlank message then Tx.throw (.invalid "message is required")
      else do
        let run ← loadRun r
        if run.state ≠ .awaiting ∧ run.state ≠ .completed then
          Tx.throw (.failedPrecondition "run is not awaiting input or completed")
        else pure run
  | .expireAwait r => do
      let run ← loadRun r
      if run.state ≠ .awaiting then Tx.throw (.failedPrecondition "run is not awaiting")
      else pure run

/-- The transaction, given the run as it was read. -/
def tx (run : AgentRun) : Request → Tx Unit
  | .answerRun _ _ message caller => Api.answerRun run message caller
  | .cancelRun _ _ => Api.cancelRun run
  | .adminCancelRun _ => Api.adminCancelRun run
  | .answerAwait _ message operatorID operatorName =>
    Api.answerAwait run message operatorID operatorName
  | .expireAwait _ => Api.expireAwait run

end Request

/-- The steps of the transactions of other subsystems, as far as they reach the tables
    modelled here: notes in the log, and changes of the session memory with their event. A
    request for the memory names the session by the text that its caller sent. -/
inductive ForeignOp where
  | note (t : TenantID) (s : SessionID) (actor : Actor) (kind payload : String)
  | say (t : TenantID) (s : SessionID) (actor : Actor) (text : String)
  | annotate (t : TenantID) (s : SessionID) (actor : Actor) (text : String)
  | remember (t : TenantID) (e : MemoryEntry) (text : String) (actor : Actor)
  | forget (t : TenantID) (s : SessionID) (key text : String) (by_ actor : Actor)

/-- Values above this size are not copied into the log. -/
def maxInlineMemoryValue : Nat := 1024

def inlineValue (value : String) : String :=
  if value.utf8ByteSize > maxInlineMemoryValue then "" else value

def ForeignOp.tx : ForeignOp → Tx Unit
  | .note t s actor kind payload => do
      let _ ← Events.append t s actor (.other kind payload)
      pure ()
  | .say t s actor text => do
      let _ ← Events.append t s actor (.userMessage text)
      pure ()
  | .annotate t s actor text => do
      let _ ← Events.append t s actor (.annotationEvent text)
      pure ()
  | .remember t e text actor => do
      Memory.set t e text
      let _ ← Events.append t e.sessionID actor (.memorySet e.key e.updatedBy (inlineValue e.value))
      pure ()
  | .forget t s key text by_ actor => do
      Memory.delete t s key text
      let _ ← Events.append t s actor (.memoryDeleted key by_)
      pure ()

/-! ## Workers -/

/-- One execution of a `StepJob` after its claim: the run as it was read then, the
    history it works on, and what its tool calls have recorded. -/
structure Delivery where
  jobID : Nat
  job : StepJob
  run : AgentRun
  attempt : Nat
  env : Envelope
  recorder : StepRecorder := {}
  cancelSeen : Bool := false
  fellBack : Bool := false

/-- What model resolution ends with. -/
inductive Resolution where
  | ok
  | credential (reason message : String)
  | infrastructure

/-- What the stream reports while it runs. -/
inductive StreamEvent where
  | text (deltaIndex : Nat) (text : String)
  | reasoning (deltaIndex : Nat) (text : String)
  | toolCall (toolCallID name input : String)
  | toolResult (toolCallID name content : String) (isError : Bool)

def StreamEvent.payload (d : Delivery) : StreamEvent → EventPayload
  | .text i s => .textDelta d.job.runID d.job.stepIndex d.attempt i s
  | .reasoning i s => .reasoningDelta d.job.runID d.job.stepIndex d.attempt i s
  | .toolCall c n input => .toolCallStarted d.job.runID d.job.stepIndex c n input
  | .toolResult c n content isError =>
    .toolResult d.job.runID d.job.stepIndex c n (.text content) isError

/-- How a stream fails. -/
inductive StreamError where
  | interrupted
  | provider (reason message : String)

/-- A call of one of the native tools. -/
inductive ToolCall where
  | askUser (question : Question)
  | postEvent (text : String)
  | memorySet (key value : String)
  | memoryDelete (key : String)
  | spawnAgent (toolCallID : String) (spec : ChildSpec) (newID : RunID)
  | waitForAgents (toolCallID : String) (runIDs : List String) (timeout : Option Time)
      (policy : TimeoutPolicy)
  | runAgentCohort (toolCallID : String) (specs : List (ChildSpec × RunID))
      (timeout : Option Time) (policy : TimeoutPolicy)

/-- The name the model calls a tool by. -/
def ToolCall.name : ToolCall → String
  | .askUser _ => "ask_user"
  | .postEvent _ => "post_event"
  | .memorySet _ _ => "session_memory_set"
  | .memoryDelete _ => "session_memory_delete"
  | .spawnAgent _ _ _ => "spawn_agent"
  | .waitForAgents _ _ _ _ => "wait_for_agents"
  | .runAgentCohort _ _ _ _ => "run_agent_cohort"

/-- Whether the step offers the tool, rather than a stub that refuses. -/
def ToolCall.offered (policy : RunPolicy) : ToolCall → Bool
  | .waitForAgents _ _ _ _ => policy.allowsTool "spawn_agent"
  | .runAgentCohort _ _ _ _ => policy.allowsTool "spawn_agent" && policy.allowsTool "run_agent_cohort"
  | call => policy.allowsTool call.name

/-- These are the calls of the native tools that a step assembles. -/
theorem ToolCall.offered_iff (policy : RunPolicy) (c : ToolCall) :
    c.offered policy = true ↔ .native c.name ∈ nativeTools policy := by
  have hgranted : ∀ {names : List String} {name : String},
      .native name ∈ granted policy names ↔ name ∈ names ∧ policy.allowsTool name = true := by
    intro names name
    simp [granted, AgentTool.native]
  simp only [nativeTools, memoryTools, List.mem_append, hgranted]
  cases c <;> simp [offered, name, spawnTools, AgentTool.native]

/-- The children a spawning tool call still has to create, and the wait that a cohort
    installs once it has them all. -/
structure Spawning where
  tool : String
  todo : List (SpawnRequest × RunID)
  ids : List RunID := []
  fanIn : Option (String × Option Time × TimeoutPolicy) := none

/-- The state of a process. -/
inductive Proc where
  | start (req : StartRequest) (newID : RunID)
  | startTx (run : AgentRun)
  | request (req : Request)
  | requestTx (req : Request) (run : AgentRun)
  | createSession (t : TenantID) (s : SessionID)
  | foreign (ops : List ForeignOp)
  | work (jobID : Nat) (job : StepJob)
  | starting (d : Delivery)
  | resolving (d : Delivery)
  | compacting (d : Delivery) (covered : Nat)
  | compacted (d : Delivery) (covered : Nat)
  | streaming (d : Delivery)
  | spawning (d : Delivery) (s : Spawning)
  | creating (d : Delivery) (s : Spawning) (child : AgentRun)
  | denying (d : Delivery) (tool reason : String)
  | failing (jobID : Nat) (job : StepJob) (reason message : String)
  | cancelling (jobID : Nat) (job : StepJob)
  | committing (d : Delivery) (step : StepResult) (final : String)
  | sweep (jobID : Nat) (t : TenantID)
  | sweeping (jobID : Nat) (t : TenantID) (due : List WaitID) (full : Bool)
  | rearming (jobID : Nat) (t : TenantID)
  | acking (jobID : Nat)
  | done

/-- What a transition is given from outside. -/
inductive Input where
  | go
  | pages (n : Nat)
  | resolve (o : Resolution)
  | emit (e : StreamEvent)
  | tool (c : ToolCall)
  | poll
  | fallback
  | finish (r : AgentResult)
  | streamError (e : StreamError)

/-! ## Transitions -/

/-- What follows once the model is resolved: the loop version and the history are
    checked, and a long history gets a compaction marker. -/
def resolved (cfg : Settings) (d : Delivery) : Proc :=
  if ¬(d.run.loopKind = "default" ∧ d.run.loopVersion = 1) then
    .failing d.jobID d.job "internal" "unknown loop version — contact support"
  else
    match d.run.history.decode with
    | none => .failing d.jobID d.job "internal" "corrupt run history"
    | some env =>
      if cfg.historySize d.run.history > 32 * 1024 ∧ env.compactions.length = 0 then
        let covered := env.messages.length - 8
        .compacting { d with env := { env with compactions := env.compactions ++
          [⟨d.job.stepIndex, covered, "Earlier conversation compacted; full history retained."⟩] } }
          covered
      else .streaming { d with env := env }

/-- What follows the end of a stream. -/
def finished (d : Delivery) (r : AgentResult) : Proc :=
  match r.steps with
  | [] => .failing d.jobID d.job "provider_error" "model returned no step"
  | step :: _ => .committing d step (finalText r)

/-- What follows a failed stream. -/
def streamFailed (d : Delivery) : StreamError → Proc
  | e =>
    if d.cancelSeen then .cancelling d.jobID d.job
    else
      match e with
      | .interrupted => .done
      | .provider reason message => .failing d.jobID d.job reason message

/-- The body of a tool call. -/
def callTool (cfg : Settings) (d : Delivery) (c : ToolCall) : Tx Proc :=
  if !c.offered d.run.policy then do
    permissionDenied d.run c.name "tool not granted"
    pure (.streaming d)
  else
    match c with
    | .askUser question => pure (.streaming { d with recorder := { d.recorder with question := some question } })
    | .postEvent text => do
        let _ ← Events.append d.job.tenantID d.job.sessionID (actorAgent d.job.runID) (.annotationEvent text)
        pure (.streaming d)
    | .memorySet key value => do
        ForeignOp.tx (.remember d.run.tenantID
          { sessionID := d.run.sessionID, key := key, value := value, updatedBy := actorAgent d.run.id }
          d.run.sessionID (actorAgent d.run.id))
        pure (.streaming d)
    | .memoryDelete key => do
        ForeignOp.tx (.forget d.run.tenantID d.run.sessionID key d.run.sessionID
          (actorAgent d.run.id) (actorAgent d.run.id))
        pure (.streaming d)
    | .spawnAgent callID spec newID =>
      pure (.spawning d { tool := "spawn_agent", todo := [({ spec := spec, toolCallID := callID }, newID)] })
    | .waitForAgents callID runIDs timeout policy =>
      if runIDs.isEmpty then pure (.streaming d)
      else do
        let children ← Runs.children d.run.tenantID d.run.id
        match namedChildren children runIDs with
        | none => do
            permissionDenied d.run "wait_for_agents" "run is not a child of this agent"
            pure (.streaming d)
        | some ids =>
          if ids.isEmpty then pure (.streaming d)
          else pure (.streaming
            { d with recorder := d.recorder.awaitRuns (dedup ids) callID timeout .wait policy })
    | .runAgentCohort callID specs timeout policy =>
      if specs.isEmpty ∨ specs.length > maxCohortSize then pure (.streaming d)
      else
        let cohortID := cfg.cohortHash (spawnKey d.run.id d.job.stepIndex callID)
        pure (.spawning d
          { tool := "run_agent_cohort"
            todo := specs.zipIdx.map fun p =>
              ({ spec := p.1.1, toolCallID := cohortCall callID p.2,
                 cohortID := cohortID, ordinal := p.2 }, p.1.2)
            fanIn := some (callID, timeout, policy) })

/-- The next child of a spawning tool call, or the end of the call. -/
def spawnNext (d : Delivery) (s : Spawning) : Tx Proc :=
  match s.todo with
  | [] =>
    match s.fanIn with
    | none => pure (.streaming d)
    | some (callID, timeout, policy) =>
      pure (.streaming { d with recorder := d.recorder.awaitRuns s.ids callID timeout .cohort policy })
  | (req, newID) :: rest =>
    match req.check d.run with
    | .error (.denied reason) => pure (.denying d s.tool reason)
    | .error _ => pure (.streaming d)
    | .ok policy => do
        match ← findSpawned d.run d.job req with
        | some id => pure (.spawning d { s with todo := rest, ids := s.ids ++ [id] })
        | none => pure (.creating d { s with todo := rest } (childRun d.run d.job req policy newID))

/-- What follows the resolution of claimed waits. -/
def sweepOn (n : Nat) (t : TenantID) (full : Bool) : List WaitID → Proc
  | [] => if full then .rearming n t else .acking n
  | due => .sweeping n t due full

/-- The transaction a process runs next, and the state it then continues in. -/
def body (cfg : Settings) : Proc → Input → Option (Tx Proc)
  | .start req newID, .go => some do
      if req.prompt = "" then Tx.throw (.invalid "prompt is required")
      else do
        resolveSession req.tenantID req.sessionID
        pure (.startTx (req.run cfg newID))
  | .startTx run, .go => some do
      Api.startRun run
      pure .done
  | .request req, .go => some do
      let run ← req.resolve
      pure (.requestTx req run)
  | .requestTx req run, .go => some do
      req.tx run
      pure .done
  | .createSession t s, .go => some do
      Sessions.create t s
      pure .done
  | .foreign ops, .go => some do
      Tx.forEach ops ForeignOp.tx
      pure .done
  | .work n job, .pages pages => some do
      match ← claim job pages with
      | none => pure (.acking n)
      | some (run, attempt) => pure (.starting ⟨n, job, run, attempt, run.history, {}, false, false⟩)
  | .starting d, .go => some do
      appendAgent d.job (.stepStarted d.job.runID d.job.stepIndex d.attempt)
      pure (.resolving d)
  | .resolving d, .resolve .ok => some (pure (resolved cfg d))
  | .resolving d, .resolve (.credential reason message) =>
    some (pure (.failing d.jobID d.job reason message))
  | .resolving _, .resolve .infrastructure => some (pure .done)
  | .compacting d covered, .go => some do
      Runs.setHistory d.job.tenantID d.job.runID d.env.encode .compaction
      pure (.compacted d covered)
  | .compacted d covered, .go => some do
      appendAgent d.job (.historyCompacted d.job.runID covered 8)
      pure (.streaming d)
  | .streaming d, .emit e => some do
      appendAgent d.job (e.payload d)
      pure (.streaming d)
  | .streaming d, .tool c => some (callTool cfg d c)
  | .streaming d, .poll => some do
      match ← (Runs.get d.job.tenantID d.job.runID).attempt with
      | .ok run => pure (.streaming
          { d with cancelSeen := d.cancelSeen || run.cancelRequestedAt.isSome })
      | .error _ => pure (.streaming d)
  | .streaming d, .fallback =>
    match d.run.modelConfig.fallbacks, d.fellBack with
    | f :: _, false => some do
        appendAgent d.job (.modelFallback d.job.runID
          (d.run.modelConfig.provider ++ "/" ++ d.run.modelConfig.modelID)
          (f.provider ++ "/" ++ f.modelID) "retryable provider error")
        pure (.streaming { d with fellBack := true })
    | _, _ => none
  | .streaming d, .finish r => some (pure (finished d r))
  | .streaming d, .streamError e => some (pure (streamFailed d e))
  | .spawning d s, .go => some (spawnNext d s)
  | .creating d s child, .go => some do
      let id ← spawnChildTx d.run d.job child
      pure (.spawning d { s with ids := s.ids ++ [id] })
  | .denying d tool reason, .go => some do
      permissionDenied d.run tool reason
      pure (.streaming d)
  | .failing n job reason message, .go => some do
      failRun job reason message
      pure (.acking n)
  | .cancelling n job, .go => some do
      let _ ← Loop.cancelRun job
      pure (.acking n)
  | .committing d step final, .go => some do
      let _ ← commitOutcome cfg d.job d.attempt d.env step d.recorder final
      pure (.acking d.jobID)
  | .sweep n t, .go => some do
      let due ← claimDueWaits cfg t
      pure (sweepOn n t (decide (due.length = cfg.batch)) (due.map RunWait.id))
  | .sweeping n t (w :: due) full, .go => some do
      let _ ← tryCloseWait t w .timeout
      pure (sweepOn n t full due)
  | .rearming n t, .go => some do
      rearm cfg t
      pure (.acking n)
  | .acking n, .go => some do
      Queue.ack n
      pure .done
  | _, _ => none

/-- Where a process continues when its transaction failed. Errors of single appends
    are logged and ignored; a stale delivery is acknowledged; every other error is
    returned to the queue or to the caller. -/
def onErr : Proc → Input → Err → Proc
  | .work n _, _, .stale => .acking n
  | .work n _, _, .notFound => .acking n
  | .starting d, _, _ => .resolving d
  | .compacting d covered, _, _ => .compacted d covered
  | .compacted d _, _, _ => .streaming d
  | .streaming d, .fallback, _ => .streaming { d with fellBack := true }
  | .streaming d, _, _ => .streaming d
  | .spawning d _, _, _ => .streaming d
  | .creating d s _, _, .denied reason => .denying d s.tool reason
  | .creating d _ _, _, _ => .streaming d
  | .denying d _ _, _, _ => .streaming d
  | .committing d _ _, _, .stale => .acking d.jobID
  | .sweeping n t _ _, _, _ => .rearming n t
  | _, _, _ => .done

/-- The job a process is executing. -/
def Proc.delivery? : Proc → Option Nat
  | .work n _ | .failing n _ _ _ | .cancelling n _ => some n
  | .starting d | .resolving d | .compacting d _ | .compacted d _ | .streaming d | .spawning d _
  | .creating d _ _ | .denying d _ _ | .committing d _ _ => some d.jobID
  | .sweep n _ | .sweeping n _ _ _ | .rearming n _ | .acking n => some n
  | _ => none

/-- Requests arrive at any time; workers are started by outstanding jobs. -/
def canSpawn (d : Db) (procs : List (Option Proc)) : Proc → Bool
  | .start _ _ | .request _ | .createSession _ _ | .foreign _ => true
  | .work n job => d.jobs.any fun q => decide (q.id = n ∧ q.job = .step job)
  | .sweep n t =>
    (d.jobs.any fun q => decide (q.id = n ∧ q.job = .waitTimeout t ∧ q.scheduledAt ≤ d.clock)) &&
      procs.all fun p => decide (p.bind Proc.delivery? ≠ some n)
  | _ => false

/-- The whole program. -/
def app (cfg : Settings) : App Input Proc where
  body := body cfg
  onErr := onErr
  canSpawn := canSpawn

/-- A configuration of the whole program. -/
abbrev Conf := Config Db Row Write Err Input Proc

end Ultracore.System
