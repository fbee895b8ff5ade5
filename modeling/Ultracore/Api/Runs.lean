-- SUMMARY: The transactions of the run API and of the operator commands on runs.
import Ultracore.Loop.Waits

/-!
# Run API

`StartRun`, `AnswerRun` and `CancelRun` of the HTTP API, and the operator commands
`CancelRun`, `AnswerAwait` and `ExpireAwait`. Each reads the run without a lock and
then decides again, in a transaction, on the locked row.
-/

namespace Ultracore.Api

open Txn Loop

/-! ## Starting a run -/

/-- A `StartRun` request of a caller of the tenant. Empty fields of the model
    configuration are left to the default. -/
structure StartRequest where
  tenantID : TenantID
  sessionID : SessionID
  prompt : String
  provider : String := ""
  modelID : String := ""
  credential : String := ""
  policy : Option RunPolicy := none
  actor : Actor

/-- The requested model over the default one. -/
def StartRequest.modelConfig (req : StartRequest) (default : ModelConfig) : ModelConfig :=
  { default with
    provider := if req.provider ≠ "" then req.provider else default.provider
    modelID := if req.modelID ≠ "" then req.modelID else default.modelID
    credential := if req.credential ≠ "" then req.credential else default.credential }

/-- `policyFromProto`: a policy that names tools but no spawn budget gets the default
    budget. -/
def policyFromRequest : Option RunPolicy → RunPolicy
  | none => defaultRunPolicy
  | some p =>
    if p.allowTools.isEmpty then p
    else if p.maxChildren = 0 then { p with maxChildren := defaultRunPolicy.maxChildren }
    else p

/-- The run a request creates, under a fresh id. -/
def StartRequest.run (cfg : Settings) (req : StartRequest) (newID : RunID) : AgentRun :=
  { id := newID, sessionID := req.sessionID, tenantID := req.tenantID, parentRunID := none,
    spawnKey := "", cohortID := "", cohortOrdinal := 0,
    policy := policyFromRequest req.policy, actor := req.actor, loopKind := "default",
    loopVersion := 1, modelConfig := req.modelConfig cfg.defaultModel, prompt := req.prompt,
    history := Envelope.initial req.prompt }

/-- `resolveSessionTenant`: missing sessions and other tenants' look the same. -/
def resolveSession (t : TenantID) (s : SessionID) : Tx Unit := do
  let tenant ← Sessions.tenant s
  if tenant ≠ t then Tx.throw .notFound else pure ()

/-- Run row, `run_started` event and first step job commit together. -/
def startRun (run : AgentRun) : Tx Unit := do
  Runs.create run.tenantID run
  let _ ← Events.append run.tenantID run.sessionID (actorAgent run.id) (.runStarted run.id run.prompt)
  Queue.enqueue (.step ⟨run.id, run.tenantID, run.sessionID, 0⟩) none .create

/-! ## Answering -/

/-- The transaction shared by `AnswerRun` and `AnswerAwait`: append the message to
    the history, set the run running and enqueue its next step. `run` is the row as
    it was read before. -/
def answer (run : AgentRun) (message : String) (caller : Actor) : Tx Unit := do
  let locked ← Runs.getForUpdate run.tenantID run.id
  if locked.state ≠ .awaiting ∧ locked.state ≠ .completed then
    Tx.throw (.failedPrecondition "run is not awaiting input or completed")
  else
    match locked.history.appendUserMessage message with
    | none => Tx.throw .corruptHistory
    | some history => do
        Runs.setHistory run.tenantID run.id history .answer
        Runs.setState run.tenantID run.id .running "" ""
        let _ ← Events.append run.tenantID run.sessionID caller (.userMessage message)
        let steps ← Runs.steps run.tenantID run.id
        Queue.enqueue (.step ⟨run.id, run.tenantID, run.sessionID, nextIndex steps⟩) none .answer

def answerRun (run : AgentRun) (message : String) (caller : Actor) : Tx Unit :=
  answer run message caller

/-- An operator's answer, attributed to the operator. -/
def answerAwait (run : AgentRun) (message operatorID operatorName : String) : Tx Unit :=
  answer run message { kind := "operator", id := operatorID, display := operatorName }

/-! ## Cancelling -/

/-- Finalize an awaiting run: no worker holds it. Its own waits are abandoned; waits
    that it is a member of are not looked at. -/
def cancelAwaiting (run : AgentRun) (reason message : String) : Tx Unit := do
  Runs.setState run.tenantID run.id .cancelled reason message
  abandonParentWaits run.tenantID run.id
  let _ ← Events.append run.tenantID run.sessionID actorSystem (.runCancelled run.id)
  pure ()

/-- The part common to the two `CancelRun`s, for a run that is not terminal. -/
def requestCancel (run locked : AgentRun) : Tx Unit := do
  Runs.requestCancel run.tenantID run.id
  if locked.state = .awaiting then cancelAwaiting run "" "" else pure ()

/-- `CancelRun` of the API. -/
def cancelRun (run : AgentRun) : Tx Unit := do
  let locked ← Runs.getForUpdate run.tenantID run.id
  if locked.state.terminal then Tx.throw (.failedPrecondition "run already finished")
  else requestCancel run locked

/-- `CancelRun` of the operators: a finished run is left alone, without an error. -/
def adminCancelRun (run : AgentRun) : Tx Unit := do
  let locked ← Runs.getForUpdate run.tenantID run.id
  if locked.state.terminal then pure ()
  else requestCancel run locked

/-- `ExpireAwait`: cancel an awaiting run. -/
def expireAwait (run : AgentRun) : Tx Unit := do
  let locked ← Runs.getForUpdate run.tenantID run.id
  if locked.state ≠ .awaiting then Tx.throw (.failedPrecondition "run is not awaiting")
  else do
    Runs.requestCancel run.tenantID run.id
    cancelAwaiting run "expired" "operator expired await"

end Ultracore.Api
