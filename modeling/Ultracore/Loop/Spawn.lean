-- SUMMARY: Spawning children: policies of children, spawn keys, and the transaction that creates a child.
import Ultracore.Loop.Step

/-!
# Spawning

Package `loop`, file `spawn.go`. A child is created in one transaction together with
its first step job. The spawn key is derived from the tool call, so a redelivered
step adopts the child it has already created.
-/

namespace Ultracore.Loop

open Txn

/-- Bounds a wait that names no timeout: five minutes. -/
def defaultWaitTimeout : Time := 300000

/-- Bounds one fan-out call. -/
def maxCohortSize : Nat := 16

/-- One requested child. -/
structure ChildSpec where
  prompt : String
  tools : Option (List String) := none
  policy : Option RunPolicy := none

/-- The policy of a child: the parent's, a requested one that is no wider, or the
    parent's with another tool list. -/
def ChildSpec.resolvePolicy (s : ChildSpec) (parent : RunPolicy) : Except Err RunPolicy :=
  if parent.childInherit then .ok parent
  else
    let child :=
      match s.policy with
      | some p => p
      | none =>
        match s.tools with
        | some tools => { parent with allowTools := tools }
        | none => parent
    if !child.isSubset parent then .error (.denied "child policy escapes parent") else .ok child

/-- However a child's policy comes about, it is within the parent's. -/
theorem ChildSpec.resolvePolicy_within {s : ChildSpec} {parent policy : RunPolicy}
    (h : s.resolvePolicy parent = .ok policy) : policy.Within parent := by
  unfold resolvePolicy at h
  split at h
  · cases h
    exact .refl _
  · dsimp only at h
    generalize hchild : (match s.policy with
      | some p => p
      | none =>
        match s.tools with
        | some tools => { parent with allowTools := tools }
        | none => parent) = child at h
    split at h
    · cases h
    · rename_i hsub
      cases h
      exact RunPolicy.isSubset_iff_within.mp (by simpa using hsub)

structure SpawnRequest where
  spec : ChildSpec
  toolCallID : String
  cohortID : String := ""
  ordinal : Nat := 0

/-- What `spawnChild` checks before it touches the database. -/
def SpawnRequest.check (run : AgentRun) (req : SpawnRequest) : Except Err RunPolicy :=
  if isBlank req.spec.prompt then .error .missingChildPrompt
  else
    match req.spec.resolvePolicy run.policy with
    | .error e => .error e
    | .ok policy =>
      if run.policy.maxChildren ≤ 0 then .error (.denied "spawning not permitted")
      else .ok policy

theorem SpawnRequest.check_within {run : AgentRun} {req : SpawnRequest} {policy : RunPolicy}
    (h : req.check run = .ok policy) : policy.Within run.policy := by
  unfold check at h
  split at h
  · cases h
  split at h
  · cases h
  rename_i hresolve
  split at h
  · cases h
  · cases h
    exact ChildSpec.resolvePolicy_within hresolve

/-- The child that a spawn request creates. -/
def childRun (run : AgentRun) (job : StepJob) (req : SpawnRequest) (policy : RunPolicy)
    (newID : RunID) : AgentRun :=
  { id := newID, sessionID := run.sessionID, tenantID := run.tenantID,
    parentRunID := some run.id, spawnKey := spawnKey run.id job.stepIndex req.toolCallID,
    cohortID := req.cohortID, cohortOrdinal := req.ordinal, policy := policy,
    actor := run.actor, loopKind := run.loopKind, loopVersion := run.loopVersion,
    modelConfig := run.modelConfig, prompt := req.spec.prompt,
    history := Envelope.initial req.spec.prompt }

/-- Fast path: this spawn already happened on an earlier delivery. -/
def findSpawned (run : AgentRun) (job : StepJob) (req : SpawnRequest) : Tx (Option RunID) := do
  match ← (Runs.getBySpawnKey run.tenantID (spawnKey run.id job.stepIndex req.toolCallID)).attempt with
  | .ok existing => pure (some existing.id)
  | .error .notFound => pure none
  | .error e => Tx.throw e

/-- The transaction of `spawnChild`. Where a concurrent delivery has created the child
    the source rolls back and returns that child; nothing has been written by then, so
    that is the same as committing. -/
def spawnChildTx (run : AgentRun) (job : StepJob) (child : AgentRun) : Tx RunID := do
  let _ ← Runs.getForUpdate run.tenantID run.id
  let n ← Runs.countChildren run.tenantID run.id
  if (n : Int) ≥ run.policy.maxChildren then Tx.throw (.denied "max children reached")
  else do
    match ← (Runs.getBySpawnKey run.tenantID child.spawnKey).attempt with
    | .ok existing => pure existing.id
    | .error .notFound => do
        Runs.create run.tenantID child
        let _ ← Events.append run.tenantID run.sessionID (actorAgent run.id)
          (.runSpawned run.id child.id)
        Queue.enqueue (.step ⟨child.id, job.tenantID, job.sessionID, 0⟩) none .create
        pure child.id
    | .error e => Tx.throw e

/-- Record a refusal in the session log. -/
def permissionDenied (run : AgentRun) (tool reason : String) : Tx Unit := do
  let _ ← Events.append run.tenantID run.sessionID actorSystem
    (.permissionDenied run.id tool reason)
  pure ()

/-! ## Waiting on children -/

/-- One id more, unless it was there. -/
def keepFirst (unique : List RunID) (id : RunID) : List RunID :=
  if unique.contains id then unique else unique ++ [id]

/-- Keep the first occurrence of each id. -/
def dedup (ids : List RunID) : List RunID := ids.foldl keepFirst []

/-- The tool call id under which a cohort spawns its child number `i`. -/
def cohortCall (callID : String) (i : Nat) : String := callID ++ "#" ++ toString i

/-- The children a `wait_for_agents` call names, `"*"` standing for all of them;
    `none` where it names a run that is not a child. -/
def namedChildren (children : List AgentRun) : List String → Option (List RunID)
  | [] => some []
  | raw :: rest =>
    if raw = "*" then (namedChildren children rest).map fun ids => children.map AgentRun.id ++ ids
    else
      match children.find? fun c => c.id.text = raw with
      | none => none
      | some c => (namedChildren children rest).map fun ids => c.id :: ids

theorem mem_namedChildren {children : List AgentRun} {raws : List String} {ids : List RunID}
    (h : namedChildren children raws = some ids) : ∀ id ∈ ids, ∃ c ∈ children, c.id = id := by
  induction raws generalizing ids with
  | nil =>
    cases h
    nofun
  | cons raw raws ih =>
    unfold namedChildren at h
    split at h
    · obtain ⟨rest, hrest, rfl⟩ := Option.map_eq_some_iff.mp h
      intro id hid
      rcases List.mem_append.mp hid with hid | hid
      · simpa using hid
      · exact ih hrest id hid
    · split at h
      · cases h
      · rename_i c hc
        obtain ⟨rest, hrest, rfl⟩ := Option.map_eq_some_iff.mp h
        intro id hid
        rcases List.mem_cons.mp hid with rfl | hid
        · exact ⟨c, List.mem_of_find?_eq_some hc, rfl⟩
        · exact ih hrest id hid

theorem mem_dedup {ids : List RunID} {id : RunID} (h : id ∈ dedup ids) : id ∈ ids := by
  have hfold : ∀ (l acc : List RunID),
      id ∈ l.foldl (fun unique id => if unique.contains id then unique else unique ++ [id]) acc →
      id ∈ acc ∨ id ∈ l := by
    intro l
    induction l with
    | nil => exact fun acc h => .inl h
    | cons x l ih =>
      intro acc h
      rcases ih _ h with h | h
      · beta_reduce at h
        split at h
        · exact .inl h
        · rcases List.mem_append.mp h with h | h
          · exact .inl h
          · exact .inr (by simpa using .inl (List.mem_singleton.mp h))
      · exact .inr (List.mem_cons_of_mem _ h)
  simpa using hfold ids [] h

/-- A pending wait, as the two waiting tools record it. -/
def StepRecorder.awaitRuns (rec : StepRecorder) (ids : List RunID) (toolCallID : String)
    (timeout : Option Time) (kind : WaitKind) (policy : TimeoutPolicy) : StepRecorder :=
  { rec with
    waitRunIDs := ids, waitToolCallID := toolCallID,
    waitTimeout := timeout.getD defaultWaitTimeout, waitKind := kind, waitPolicy := policy }

end Ultracore.Loop
