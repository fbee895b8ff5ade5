-- SUMMARY: Fan-in waits: creating, evaluating and closing them, and resuming or abandoning the parent.
import Ultracore.Store.Waits
import Ultracore.Text.Split

/-!
# Waits of the loop

Package `loop`, file `waits.go`. A wait is evaluated when it is created, when a member
becomes terminal and when its deadline has passed; whoever closes it and wins
`MarkResumed` injects the outcome into the parent's history and enqueues the parent's
next step, all in the caller's transaction.
-/

namespace Ultracore.Loop

open Txn

/-- What the deployment fixes, and the third-party functions the loop relies on. -/
structure Settings where
  /-- `uuid.NewSHA1` under the namespace of waits, taken to be free of collisions. -/
  waitHash : String → WaitID
  waitHash_injective : Function.Injective waitHash
  /-- `uuid.NewSHA1` under the namespace of cohorts. -/
  cohortHash : String → String
  /-- The length of the JSON of a history. -/
  historySize : Envelope → Nat
  /-- The model of runs whose request names none. -/
  defaultModel : ModelConfig
  /-- `WaitSweeper.Batch`. -/
  sweepBatch : Nat
  /-- `WaitSweeper.Retry`. -/
  sweepRetry : Time

/-- Identifies the tool call that created a child or a wait. -/
def spawnKey (parent : RunID) (stepIndex : Nat) (toolCallID : String) : String :=
  parent.text ++ ":" ++ toString stepIndex ++ ":" ++ toolCallID

/-- Derives a wait's id from its originating tool call. -/
def deterministicWaitID (cfg : Settings) (parent : RunID) (stepIndex : Nat) (toolCallID : String) :
    WaitID :=
  cfg.waitHash (spawnKey parent stepIndex toolCallID)

/-- A spawn key determines its parent, its step and its tool call: run ids and numbers contain no
    colon. -/
theorem spawnKey_inj {p p' : RunID} {i i' : Nat} {c c' : String}
    (h : spawnKey p i c = spawnKey p' i' c') : p = p' ∧ i = i' ∧ c = c' := by
  have hlist := congrArg String.toList h
  simp only [spawnKey, String.toList_append, List.append_assoc] at hlist
  obtain ⟨htext, hrest⟩ := Text.append_cons_inj p.noColon p'.noColon hlist
  obtain ⟨hstep, hcall⟩ := Text.append_cons_inj (Text.notMem_toString rfl i)
    (Text.notMem_toString rfl i') hrest
  refine ⟨?_, Text.toString_injective (String.toList_inj.mp hstep), String.toList_inj.mp hcall⟩
  cases p
  cases p'
  simpa [String.toList_inj] using htext

theorem deterministicWaitID_inj {cfg : Settings} {p p' : RunID} {i i' : Nat} {c c' : String}
    (h : deterministicWaitID cfg p i c = deterministicWaitID cfg p' i' c') : p = p' ∧ i = i' := by
  obtain ⟨hp, hi, -⟩ := spawnKey_inj (cfg.waitHash_injective h)
  exact ⟨hp, hi⟩

/-- Maps a wait's kind back to the tool the model called. -/
def waitToolName : WaitKind → String
  | .cohort => "run_agent_cohort"
  | .wait => "wait_for_agents"

/-- Delays the sweep slightly past the deadline. -/
def waitTimeoutSlack : Time := 250

inductive CloseReason where
  /-- A member reached a terminal state. -/
  | child
  /-- The deadline passed before every member finished. -/
  | timeout
deriving DecidableEq

/-! ## Evaluating a wait -/

def emptyOutcome (wait : RunWait) (state : WaitState) : WaitOutcome :=
  { waitID := wait.id, kind := wait.kind, state := state, timedOut := false, members := [],
    completed := 0, failed := 0, cancelled := 0, pending := 0 }

/-- Count one member in. -/
def addMember (o : WaitOutcome) (m : RunWaitMember) (child : AgentRun) : WaitOutcome :=
  if !child.state.terminal then { o with pending := o.pending + 1 }
  else
    let result : WaitMemberResult :=
      { ordinal := m.ordinal, runID := child.id, state := child.state, result := child.result,
        failureReason := child.failureReason, failureMessage := child.failureMessage }
    let o := { o with members := o.members ++ [result] }
    match child.state with
    | .completed => { o with completed := o.completed + 1 }
    | .failed => { o with failed := o.failed + 1 }
    | .cancelled => { o with cancelled := o.cancelled + 1 }
    | _ => o

/-- Read the members one after another. -/
def evaluate (t : TenantID) (o : WaitOutcome) : List RunWaitMember → Tx WaitOutcome
  | [] => pure o
  | m :: ms => do
      let child ← Runs.get t m.runID
      evaluate t (addMember o m child) ms

/-- Count members in, each with the run as it was read. -/
def tally (o : WaitOutcome) (reads : List (RunWaitMember × AgentRun)) : WaitOutcome :=
  reads.foldl (fun o p => addMember o p.1 p.2) o

theorem addMember_pending (o : WaitOutcome) (m : RunWaitMember) (child : AgentRun) :
    (addMember o m child).pending = if child.state.terminal then o.pending else o.pending + 1 := by
  cases hs : child.state <;> simp [addMember, hs, RunState.terminal]

theorem tally_cons (o : WaitOutcome) (p : RunWaitMember × AgentRun)
    (reads : List (RunWaitMember × AgentRun)) :
    tally o (p :: reads) = tally (addMember o p.1 p.2) reads := rfl

theorem tally_pending (o : WaitOutcome) (reads : List (RunWaitMember × AgentRun)) :
    (tally o reads).pending = o.pending + reads.countP fun p => !p.2.state.terminal := by
  induction reads generalizing o with
  | nil => rfl
  | cons p reads ih =>
    rw [tally_cons, ih, addMember_pending, List.countP_cons]
    cases p.2.state.terminal
    · simp
      omega
    · simp

/-- A member that cannot be read ends the evaluation. Otherwise the members are counted as they
    were read. -/
theorem wp_evaluate_reads {A : Sight} {d : Db} {st : Local Row Write}
    {t : TenantID} {ms : List RunWaitMember} {o : WaitOutcome} {Q : Post WaitOutcome}
    (herr : ∀ m ∈ ms, ∀ d', A st.locks d d' → (Tx.view d' st).ownRun t m.runID = none →
      Q (.error .notFound) st)
    (hok : ∀ xs, List.Forall₂ (fun m x => ∃ d', A st.locks d d' ∧
      (Tx.view d' st).ownRun t m.runID = some x) ms xs → Q (.ok (tally o (ms.zip xs))) st) :
    Tx.wp A d (evaluate t o ms) st Q := by
  induction ms generalizing o with
  | nil =>
    simp only [evaluate, Tx.wp_pure']
    exact hok [] .nil
  | cons m ms ih =>
    simp only [evaluate, Tx.wp_bind]
    refine Tx.wp_runs_get fun d' hA => ?_
    cases hx : (Tx.view d' st).ownRun t m.runID with
    | none => exact herr m (by simp) d' hA hx
    | some x =>
      refine ih (fun m' hm' => herr m' (by simp [hm'])) ?_
      intro xs hxs
      exact hok (x :: xs) (.cons ⟨d', hA, hx⟩ hxs)

/-- A member counted as pending was read in a state that is not terminal. -/
theorem wp_evaluate {A : Sight} {d : Db} {st : Local Row Write} {t : TenantID}
    {ms : List RunWaitMember} {o : WaitOutcome} {Q : Post WaitOutcome}
    (herr : ∀ m ∈ ms, ∀ d', A st.locks d d' → (Tx.view d' st).ownRun t m.runID = none →
      Q (.error .notFound) st)
    (hok : ∀ o', (o.pending < o'.pending → ∃ m ∈ ms, ∃ d' x, A st.locks d d' ∧
      (Tx.view d' st).ownRun t m.runID = some x ∧ x.state.terminal = false) → Q (.ok o') st) :
    Tx.wp A d (evaluate t o ms) st Q := by
  refine wp_evaluate_reads herr fun xs hxs => hok _ fun hlt => ?_
  rw [tally_pending] at hlt
  obtain ⟨⟨m, x⟩, hmem, hterm⟩ := List.countP_pos_iff.mp (Nat.pos_of_lt_add_right hlt)
  obtain ⟨d', hA, hx⟩ := List.forall₂_iff_zip.mp hxs |>.2 hmem
  exact ⟨m, (List.of_mem_zip hmem).1, d', x, hA, hx, by simpa using hterm⟩

/-- Inject the wait's outcome as the result of the parent's original tool call and
    enqueue its next step, at most once. It reports whether this call did. -/
def resumeParent (t : TenantID) (wait : RunWait) (outcome : WaitOutcome) : Tx Bool := do
  let first ← Waits.markResumed t wait.id
  if !first then pure false
  else do
    let parent ← Runs.getForUpdate t wait.parentRunID
    if parent.state.terminal then pure false
    else
      match parent.history.appendWaitResult wait outcome with
      | none => Tx.throw .corruptHistory
      | some history => do
          Runs.setHistory t parent.id history (.resume wait.id)
          Runs.setState t parent.id .running "" ""
          let _ ← Events.append t parent.sessionID actorSystem
            (.toolResult parent.id wait.stepIndex wait.toolCallID (waitToolName wait.kind)
              (.outcome outcome) (outcome.timedOut && wait.timeoutPolicy == .fail))
          let steps ← Runs.steps t parent.id
          Queue.enqueue (.step ⟨parent.id, parent.tenantID, parent.sessionID, nextIndex steps⟩)
            none (.resume wait.id)
          pure true

/-- Close a wait and resume its parent, at most once, when the wait is satisfiable.
    It reports whether this call performed the resumption. -/
def tryCloseWait (t : TenantID) (waitID : WaitID) (reason : CloseReason) : Tx Bool := do
  match ← (Waits.getForUpdate t waitID).attempt with
  | .error .notFound => pure false
  | .error e => Tx.throw e
  | .ok wait => do
      let members ← Waits.members waitID
      let counted ← evaluate t (emptyOutcome wait .resolved) members
      -- still waiting, and no deadline forcing the issue: leave it open
      if counted.pending > 0 ∧ reason ≠ .timeout then pure false
      else
        let timedOut := decide (reason = .timeout) && decide (counted.pending > 0)
        let outcome := { counted with
          state := if timedOut then .timedOut else .resolved, timedOut := timedOut }
        if wait.state = .open then do
          let closed ← Waits.close t waitID outcome.state outcome
          if !closed then pure false
          else resumeParent t wait outcome
        else do
          -- the sweeper closed this wait by claiming it; record the outcome now
          Waits.setResult t waitID outcome
          resumeParent t wait outcome

/-! ## Creating waits, and settling a terminal run -/

/-- What the tool calls of one step ask of its commit. -/
structure StepRecorder where
  question : Option Question := none
  waitRunIDs : List RunID := []
  waitToolCallID : String := ""
  waitTimeout : Time := 0
  waitKind : WaitKind := .wait
  waitPolicy : TimeoutPolicy := .resolve

/-- The member rows of a wait, numbered in declaration order. -/
def waitMembers (waitID : WaitID) (ids : List RunID) : List RunWaitMember :=
  ids.zipIdx.map fun p => ⟨waitID, p.1, p.2⟩

/-- Install a durable wait and evaluate it in the same transaction. It reports
    whether the parent should park. -/
def createWait (cfg : Settings) (run : AgentRun) (job : StepJob) (rec : StepRecorder) :
    Tx Bool := do
  let waitID := deterministicWaitID cfg run.id job.stepIndex rec.waitToolCallID
  let now ← Tx.now
  let wait : RunWait :=
    { id := waitID, parentRunID := run.id, stepIndex := job.stepIndex,
      toolCallID := rec.waitToolCallID, kind := rec.waitKind, state := .open,
      timeoutPolicy := rec.waitPolicy, deadline := now + rec.waitTimeout }
  Waits.create run.tenantID wait (waitMembers waitID rec.waitRunIDs)
  let resumed ← tryCloseWait run.tenantID waitID .child
  if resumed then pure false
  else do
    Queue.enqueue (.waitTimeout run.tenantID) (some (wait.deadline + waitTimeoutSlack)) .timeout
    pure true

/-- Runs in the transaction that marks a child terminal: re-evaluate the open
    waits it is a member of. -/
def resolveChildWaits (t : TenantID) (child : RunID) : Tx Unit := do
  let waits ← Waits.listOpenForChild t child
  Tx.forEach waits fun wait => do
    let _ ← tryCloseWait t wait.id .child
    pure ()

/-- Close a terminal parent's open waits and consume their resumption. -/
def abandonParentWaits (t : TenantID) (parent : RunID) : Tx Unit := do
  let waits ← Waits.listOpenForParent t parent
  Tx.forEach waits fun wait => do
    let _ ← Waits.close t wait.id .abandoned (emptyOutcome wait .abandoned)
    let _ ← Waits.markResumed t wait.id
    pure ()

end Ultracore.Loop
