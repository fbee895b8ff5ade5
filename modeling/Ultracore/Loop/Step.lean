-- SUMMARY: The transactions of one step: claiming it, failing or cancelling the run, committing the outcome.
import Ultracore.Loop.Waits

/-!
# Steps

Package `loop`, file `step.go`: the transactions that `StepWorker.Work` runs for one
`StepJob`. What happens between them (model resolution, streaming, tool calls) is in
`Ultracore.System.Process`.
-/

namespace Ultracore.Loop

open Txn

/-- `txStale`: a body that ends with the cancelled-commit signal is committed, and
    its caller is told with `none`. -/
def txStale {α : Type} (fn : Tx α) : Tx (Option α) := do
  match ← fn.attempt with
  | .ok a => pure (some a)
  | .error .cancelledCommit => pure none
  | .error e => Tx.throw e

/-- Close both sides of a terminal run's orchestration: waits it was holding are
    abandoned, and waits it is a member of are re-evaluated. -/
def settleTerminalRun (t : TenantID) (r : RunID) : Tx Unit := do
  abandonParentWaits t r
  let run ← Runs.get t r
  resolveChildWaits run.tenantID run.id

/-- Transition to cancelled and emit the terminal event. It always ends with an
    error: `cancelledCommit` if all went well. -/
def markCancelledTx {α : Type} (job : StepJob) : Tx α := do
  Runs.setState job.tenantID job.runID .cancelled "" ""
  let _ ← Events.append job.tenantID job.sessionID actorSystem (.runCancelled job.runID)
  settleTerminalRun job.tenantID job.runID
  Tx.throw .cancelledCommit

/-! ## Claim -/

/-- Whether an event is a start of the step that a job names. -/
def isStartOf (job : StepJob) (e : Event) : Bool :=
  match e.payload with
  | .stepStarted r i _ => decide (r = job.runID ∧ i = job.stepIndex)
  | _ => false

/-- Count prior starts of this step by reading the log page by page. `pages` bounds
    how many pages there are until the log has been read to its end. -/
def countAttempts (job : StepJob) : (pages fromSeq count : Nat) → Tx Nat
  | 0, _, _ => Tx.throw .sql
  | pages + 1, fromSeq, count => do
      let batch ← Events.range job.tenantID job.sessionID fromSeq 512
      match batch.getLast? with
      | none => pure count
      | some last => countAttempts job pages last.seq (count + (batch.filter (isStartOf job)).length)

/-- The body of `claim`: validate and transition the run under a row lock. -/
def claimTx (job : StepJob) (pages : Nat) : Tx (AgentRun × Nat) := do
  let run ← Runs.getForUpdate job.tenantID job.runID
  if run.state ≠ .pending ∧ run.state ≠ .running then Tx.throw .stale
  else if run.cancelRequestedAt.isSome then markCancelledTx job
  else do
    let steps ← Runs.steps job.tenantID run.id
    if steps.any fun s => s.stepIndex = job.stepIndex then
      -- already committed: the next-step job was enqueued in the same transaction
      Tx.throw .stale
    else do
      let count ← countAttempts job pages 0 0
      if run.state = .pending then do
        Runs.setState job.tenantID run.id .running "" ""
        pure (run, count + 1)
      else pure (run, count + 1)

def claim (job : StepJob) (pages : Nat) : Tx (Option (AgentRun × Nat)) := txStale (claimTx job pages)

/-! ## Failure and cancellation -/

/-- Mark a terminal, typed failure. -/
def failRun (job : StepJob) (reason message : String) : Tx Unit := do
  match ← (Runs.getForUpdate job.tenantID job.runID).attempt with
  | .error _ => pure ()
  | .ok run =>
    if run.state.terminal then pure ()
    else do
      Runs.setState job.tenantID run.id .failed reason message
      let _ ← Events.append job.tenantID job.sessionID actorSystem (.runFailed run.id reason message)
      settleTerminalRun job.tenantID run.id

/-- The cancellation transaction of `handleStreamError`. -/
def cancelRun (job : StepJob) : Tx (Option Unit) := txStale (markCancelledTx job)

/-! ## Commit -/

/-- The part of a model response. -/
inductive ResponsePart where
  | text (s : String)
  | other

/-- One step of the agent framework. -/
structure StepResult where
  messages : List Message
  tokensIn : Nat
  tokensOut : Nat
  finishReason : String

structure AgentResult where
  steps : List StepResult
  response : List ResponsePart

def finishReasonToolCalls : String := "tool-calls"

/-- The assistant's final text. -/
def finalText (result : AgentResult) : String :=
  (result.response.findSome? fun
    | .text s => some s
    | .other => none).getD ""

/-- Describes why a run is parked. -/
def waitAwaitingText (rec : StepRecorder) : String :=
  match rec.waitKind with
  | .cohort => "Waiting for agent cohort"
  | .wait => "Waiting for child agents"

/-- The value of the cost-accounting key: the JSON of the two token counts. -/
def costValue (tokensIn tokensOut : Nat) : String :=
  "\x7b\"input_tokens\":" ++ toString tokensIn ++ ",\"output_tokens\":" ++ toString tokensOut ++ "\x7d"

/-- The built-in cost-accounting hook. -/
def accountStepCost (run : AgentRun) (step : RunStep) : Tx Unit := do
  Memory.set run.tenantID
    { sessionID := run.sessionID, key := "system.cost.latest",
      value := costValue step.tokensIn step.tokensOut, updatedBy := actorSystem } run.sessionID
  let _ ← Events.append run.tenantID run.sessionID actorSystem (.hookFired "cost-accounting" run.id)
  pure ()

/-- An event of the agent itself. -/
def appendAgent (job : StepJob) (payload : EventPayload) : Tx Unit := do
  let _ ← Events.append job.tenantID job.sessionID (actorAgent job.runID) payload
  pure ()

/-- What a committed step leads to: a wait, a question, the next step, or the end
    of the run. -/
def classify (cfg : Settings) (job : StepJob) (run : AgentRun) (step : StepResult)
    (rec : StepRecorder) (final : String) : Tx Unit :=
  if rec.waitRunIDs.length > 0 then do
    let park ← createWait cfg run job rec
    if !park then pure ()
    else do
      Runs.setState job.tenantID job.runID .awaiting "" ""
      appendAgent job (.runAwaiting job.runID { text := waitAwaitingText rec })
  else
    match rec.question with
    | some question => do
        Runs.setState job.tenantID job.runID .awaiting "" ""
        appendAgent job (.runAwaiting job.runID question)
    | none =>
      if step.finishReason = finishReasonToolCalls then
        Queue.enqueue (.step { job with stepIndex := job.stepIndex + 1 }) none .step
      else do
        Runs.setState job.tenantID job.runID .completed "" ""
        -- persist the result before resolving waits: a parent must see it
        Runs.setResult job.tenantID job.runID final
        appendAgent job (.runCompleted job.runID final)
        abandonParentWaits run.tenantID job.runID
        resolveChildWaits run.tenantID run.id

/-- The transaction of `commitOutcome`: persist the step and classify what happens
    next, in one transaction with the next-step enqueue. `env` is the history as it
    was read when the step was claimed. -/
def commitTx (cfg : Settings) (job : StepJob) (attempt : Nat) (env : Envelope) (step : StepResult)
    (rec : StepRecorder) (final : String) : Tx Unit := do
  let run ← Runs.getForUpdate job.tenantID job.runID
  if run.state ≠ .running then Tx.throw .stale
  else if run.cancelRequestedAt.isSome then markCancelledTx job
  else do
    Runs.setHistory job.tenantID job.runID
      (Envelope.encode { env with messages := env.messages ++ step.messages }) .step
    let stepRecord : RunStep :=
      { runID := job.runID, stepIndex := job.stepIndex, attempt := attempt,
        tokensIn := step.tokensIn, tokensOut := step.tokensOut, finishReason := step.finishReason }
    match ← (Runs.insertStep job.tenantID stepRecord).attempt with
    | .error .alreadyExists => Tx.throw .stale
    | .error e => Tx.throw e
    | .ok () => do
        let _ ← (accountStepCost run stepRecord).attempt
        appendAgent job (.stepFinished job.runID job.stepIndex step.tokensIn step.tokensOut
          step.finishReason)
        classify cfg job run step rec final

def commitOutcome (cfg : Settings) (job : StepJob) (attempt : Nat) (env : Envelope)
    (step : StepResult) (rec : StepRecorder) (final : String) : Tx (Option Unit) :=
  txStale (commitTx cfg job attempt env step rec final)

end Ultracore.Loop
