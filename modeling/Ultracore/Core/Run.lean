-- SUMMARY: Domain types of the agent loop: runs, policies, message histories, waits, events and jobs.
import Ultracore.Text.Basic

/-!
# Domain types

The records of package `core` and of the loop that the run, wait and event code
reads or writes. JSON columns are kept decoded: a history is an `Envelope`, a wait
result a `WaitOutcome`, an event payload an `EventPayload`. Timestamps that no
statement reads (`created_at`, `updated_at`, `resolved_at`, `ts`) are left out.
-/

namespace Ultracore

abbrev TenantID := String
abbrev SessionID := String
abbrev WaitID := String

/-- Milliseconds since some fixed moment. -/
abbrev Time := Nat

/-- Identifies an agent run. It is a UUID, and all that matters about its text
    is that it contains no colon. -/
structure RunID where
  text : String
  noColon : ':' ∉ text.toList
deriving DecidableEq

/-- Whether nothing is left of a string once it is trimmed. -/
def isBlank (s : String) : Bool := s.toList.all Text.isSpace

/-! ## Runs -/

/-- The agent-run state machine:
    pending → running ⇄ awaiting → completed | failed | cancelled. -/
inductive RunState where
  | pending
  | running
  | awaiting
  | completed
  | failed
  | cancelled
deriving DecidableEq

namespace RunState

/-- Whether the run is finished: `Terminal` in the source. -/
def terminal : RunState → Bool
  | .completed | .failed | .cancelled => true
  | _ => false

def text : RunState → String
  | .pending => "pending"
  | .running => "running"
  | .awaiting => "awaiting"
  | .completed => "completed"
  | .failed => "failed"
  | .cancelled => "cancelled"

/-- Whether a worker is supposed to be on it. -/
def live : RunState → Bool
  | .pending | .running => true
  | _ => false

/-- Whether the run was ended by a failure or a cancellation. -/
def dead : RunState → Bool
  | .failed | .cancelled => true
  | _ => false

theorem dead_of_not_terminal {s : RunState} (h : s.terminal = false) : s.dead = false := by
  cases s <;> first | rfl | cases h

theorem live_of_terminal {s : RunState} (h : s.terminal = true) : s.live = false := by
  cases s <;> first | rfl | cases h

theorem terminal_of_dead {s : RunState} (h : s.dead = true) : s.terminal = true := by
  cases s <;> first | rfl | cases h

end RunState

/-- Opaque attribution of an event, run or memory write. -/
structure Actor where
  kind : String
  id : String
  display : String := ""

def actorSystem : Actor := { kind := "system", id := "core" }

def actorAgent (id : RunID) : Actor := { kind := "agent", id := id.text }

structure ModelConfig where
  provider : String
  modelID : String
  credential : String
  fallbacks : List ModelConfig

/-! ## Policies -/

/-- What a run may do: fixed when the run is created. -/
structure RunPolicy where
  allowTools : List String
  denyTools : List String := []
  resourceKinds : List String := []
  maxChildren : Int
  childInherit : Bool

/-- Assigned to API-started runs that omit a policy. -/
def defaultRunPolicy : RunPolicy :=
  { allowTools := ["*"], resourceKinds := ["*"], maxChildren := 16, childInherit := false }

namespace RunPolicy

def allowsTool (p : RunPolicy) (name : String) : Bool :=
  if p.denyTools.contains name || p.denyTools.contains "*" then false
  else p.allowTools.contains "*" || p.allowTools.contains name

def allowsResourceKind (p : RunPolicy) (kind : String) : Bool :=
  if p.resourceKinds.length = 0 then false
  else p.resourceKinds.contains "*" || p.resourceKinds.contains kind

/-- The tools the policy permits, as a set; `"*"` stands for all of them. -/
def effectiveAllow (p : RunPolicy) : List String :=
  if p.denyTools.contains "*" then []
  else if p.allowTools.contains "*" then ["*"]
  else p.allowTools.filter fun t => !p.denyTools.contains t

def allowHasStar (p : RunPolicy) : Bool :=
  if p.denyTools.contains "*" then false else p.allowTools.contains "*"

def kindsSubset (child parent : List String) : Bool :=
  if child.isEmpty then true
  else if parent.contains "*" then true
  else if child.contains "*" then false
  else child.all fun k => parent.contains k

/-- The comparison of the tool lists in `IsSubset`. -/
def toolsSubset (p parent : RunPolicy) : Bool :=
  if p.allowHasStar && !parent.allowHasStar then false
  else if !p.allowHasStar then
    p.effectiveAllow.all fun t =>
      t == "*" || (!parent.denyTools.contains t &&
        (parent.allowHasStar || parent.effectiveAllow.contains t))
  else
    parent.denyTools.all fun d =>
      d == "*" || p.denyTools.contains d || p.denyTools.contains "*"

/-- Whether `p` is no wider than `parent` on every axis. -/
def isSubset (p parent : RunPolicy) : Bool :=
  if p.maxChildren > parent.maxChildren then false
  else toolsSubset p parent && kindsSubset p.resourceKinds parent.resourceKinds

end RunPolicy

/-! ## Waits -/

inductive WaitState where
  | open
  | resolved
  | timedOut
  | abandoned
deriving DecidableEq

inductive WaitKind where
  | wait
  | cohort
deriving DecidableEq

/-- What a deadline does to the parent's tool call: return partial results, or
    turn it into an error. -/
inductive TimeoutPolicy where
  | resolve
  | fail
deriving DecidableEq

/-- One child's contribution to the aggregate of a wait. -/
structure WaitMemberResult where
  ordinal : Nat
  runID : RunID
  state : RunState
  result : Option String
  failureReason : String
  failureMessage : String
deriving DecidableEq

/-- The aggregate injected into the parent's history. -/
structure WaitOutcome where
  waitID : WaitID
  kind : WaitKind
  state : WaitState
  timedOut : Bool
  members : List WaitMemberResult
  completed : Nat
  failed : Nat
  cancelled : Nat
  pending : Nat
deriving DecidableEq

/-- A durable fan-in wait for child runs. -/
structure RunWait where
  id : WaitID
  parentRunID : RunID
  stepIndex : Nat
  toolCallID : String
  kind : WaitKind
  state : WaitState
  timeoutPolicy : TimeoutPolicy
  deadline : Time
  result : Option WaitOutcome := none
  resumedAt : Option Time := none

structure RunWaitMember where
  waitID : WaitID
  runID : RunID
  ordinal : Nat

/-! ## Histories -/

inductive Role where
  | user
  | assistant
  | tool
deriving DecidableEq

/-- The content of a tool result: plain text, or the JSON of a wait outcome. -/
inductive ToolContent where
  | text (s : String)
  | outcome (o : WaitOutcome)
deriving DecidableEq

inductive MessagePart where
  | text (s : String)
  | toolCall (toolCallID name input : String)
  | toolResult (toolCallID : String) (output : ToolContent) (isError : Bool)
deriving DecidableEq

/-- One message of the model conversation. -/
structure Message where
  role : Role
  content : List MessagePart
deriving DecidableEq

def newUserMessage (text : String) : Message := { role := .user, content := [.text text] }

structure Compaction where
  atStep : Nat
  coveredMessages : Nat
  summary : String

/-- The versioned persisted message history. -/
structure Envelope where
  v : Nat
  messages : List Message
  compactions : List Compaction := []

namespace Envelope

/-- `DecodeEnvelope`: only versions 1 and 2 are understood. -/
def decode (raw : Envelope) : Option Envelope :=
  if raw.v ≠ 1 ∧ raw.v ≠ 2 then none else some raw

/-- `Encode`: an envelope with compactions has version 2. -/
def encode (e : Envelope) : Envelope :=
  if e.compactions.length > 0 then { e with v := 2 }
  else if e.v = 0 then { e with v := 1 }
  else e

@[simp] theorem encode_messages (e : Envelope) : e.encode.messages = e.messages := by
  unfold encode
  split
  · rfl
  · split <;> rfl

theorem decode_eq_some {raw e : Envelope} (h : raw.decode = some e) : e = raw := by
  unfold decode at h
  split at h
  · cases h
  · exact (Option.some.inj h).symm

/-- What was read can be read again once it is written, whatever messages it has then. -/
theorem decode_encode {e : Envelope} (h : e.decode.isSome) (ms : List Message) :
    (encode { e with messages := ms }).decode.isSome := by
  have hv : e.v = 1 ∨ e.v = 2 := by
    by_contra hne
    simp [decode, not_or.mp hne] at h
  unfold encode
  split
  · simp [decode]
  · rcases hv with hv | hv <;> simp [decode, hv]

def initial (prompt : String) : Envelope :=
  encode { v := 1, messages := [newUserMessage prompt] }

/-- `AppendUserMessage`: add a user message to a serialized envelope. -/
def appendUserMessage (raw : Envelope) (text : String) : Option Envelope :=
  raw.decode.map fun env => encode { env with messages := env.messages ++ [newUserMessage text] }

/-- `appendWaitResult`: append the outcome as the result of the parent's
    original tool call. -/
def appendWaitResult (raw : Envelope) (wait : RunWait) (outcome : WaitOutcome) : Option Envelope :=
  raw.decode.map fun env =>
    let isError := outcome.timedOut && wait.timeoutPolicy == .fail
    encode { env with messages := env.messages ++
      [{ role := .tool, content := [.toolResult wait.toolCallID (.outcome outcome) isError] }] }

theorem appendUserMessage_extends {raw h : Envelope} {text : String}
    (heq : raw.appendUserMessage text = some h) : raw.messages <+: h.messages := by
  obtain ⟨env, henv, rfl⟩ := Option.map_eq_some_iff.mp heq
  rw [decode_eq_some henv, encode_messages]
  exact List.prefix_append _ _

theorem appendWaitResult_extends {raw h : Envelope} {wait : RunWait} {outcome : WaitOutcome}
    (heq : raw.appendWaitResult wait outcome = some h) : raw.messages <+: h.messages := by
  obtain ⟨env, henv, rfl⟩ := Option.map_eq_some_iff.mp heq
  rw [decode_eq_some henv, encode_messages]
  exact List.prefix_append _ _

end Envelope

/-- One durable agent loop bound to a session. -/
structure AgentRun where
  id : RunID
  sessionID : SessionID
  tenantID : TenantID
  parentRunID : Option RunID
  spawnKey : String
  cohortID : String
  cohortOrdinal : Nat
  policy : RunPolicy
  actor : Actor
  result : Option String := none
  state : RunState := .pending
  loopKind : String
  loopVersion : Nat
  modelConfig : ModelConfig
  prompt : String
  history : Envelope
  failureReason : String := ""
  failureMessage : String := ""
  cancelRequestedAt : Option Time := none

/-- The audit row of one executed step. -/
structure RunStep where
  runID : RunID
  stepIndex : Nat
  attempt : Nat
  tokensIn : Nat
  tokensOut : Nat
  finishReason : String

/-! ## Events -/

structure Question where
  text : String
  choices : List String := []

/-- The typed payloads of the events the loop and the API write. Events of the
    other subsystems are `other`. -/
inductive EventPayload where
  | userMessage (text : String)
  | annotationEvent (text : String)
  | runStarted (runID : RunID) (prompt : String)
  | stepStarted (runID : RunID) (stepIndex attempt : Nat)
  | textDelta (runID : RunID) (stepIndex attempt deltaIndex : Nat) (text : String)
  | reasoningDelta (runID : RunID) (stepIndex attempt deltaIndex : Nat) (text : String)
  | toolCallStarted (runID : RunID) (stepIndex : Nat) (toolCallID name input : String)
  | toolResult (runID : RunID) (stepIndex : Nat) (toolCallID name : String)
      (content : ToolContent) (isError : Bool)
  | stepFinished (runID : RunID) (stepIndex tokensIn tokensOut : Nat) (finishReason : String)
  | runAwaiting (runID : RunID) (question : Question)
  | runCompleted (runID : RunID) (finalText : String)
  | runFailed (runID : RunID) (reason message : String)
  | runCancelled (runID : RunID)
  | runSpawned (parentRunID childRunID : RunID)
  | memorySet (key : String) (updatedBy : Actor) (value : String)
  | memoryDeleted (key : String) (updatedBy : Actor)
  | historyCompacted (runID : RunID) (coveredMessages summaryTokens : Nat)
  | modelFallback (runID : RunID) (source target reason : String)
  | hookFired (hook : String) (runID : RunID)
  | permissionDenied (runID : RunID) (tool reason : String)
  | other (kind payload : String)

/-- The step whose end a payload records. -/
def EventPayload.finished? : EventPayload → Option (RunID × Nat)
  | .stepFinished r i _ _ _ => some (r, i)
  | _ => none

/-- The run whose end a payload announces, and how it ended. -/
def EventPayload.verdict? : EventPayload → Option (RunID × RunState)
  | .runCompleted r _ => some (r, .completed)
  | .runFailed r _ _ => some (r, .failed)
  | .runCancelled r => some (r, .cancelled)
  | _ => none

/-- Payloads that record neither the end of a step nor that of a run. -/
def EventPayload.routine (p : EventPayload) : Bool := p.finished?.isNone && p.verdict?.isNone

namespace EventPayload

theorem finished?_of_routine {p : EventPayload} (h : p.routine = true) : p.finished? = none := by
  cases p <;> first | rfl | cases h

theorem verdict?_of_routine {p : EventPayload} (h : p.routine = true) : p.verdict? = none := by
  cases p <;> first | rfl | cases h

theorem finished?_of_verdict {p : EventPayload} {o : RunID × RunState} (h : p.verdict? = some o) :
    p.finished? = none := by
  cases p <;> first | rfl | cases h

theorem verdict?_of_finished {p : EventPayload} {o : RunID × Nat} (h : p.finished? = some o) :
    p.verdict? = none := by
  cases p <;> first | rfl | cases h

end EventPayload

/-- One entry of a session's append-only log. -/
structure Event where
  sessionID : SessionID
  seq : Nat
  actor : Actor
  payload : EventPayload

structure MemoryEntry where
  sessionID : SessionID
  key : String
  value : String
  updatedBy : Actor

/-! ## Jobs -/

/-- One durable step of one agent run. -/
structure StepJob where
  runID : RunID
  tenantID : TenantID
  sessionID : SessionID
  stepIndex : Nat
deriving DecidableEq

/-- The jobs of the loop: `agent.step` and `wait.timeout`. -/
inductive Job where
  | step (job : StepJob)
  | waitTimeout (tenantID : TenantID)
deriving DecidableEq

end Ultracore
