-- SUMMARY: Resource requests, operator commands and lifecycle workers as processes.
import Ultracore.Resourcework.Store

/-!
# Lifecycle work

File `resourcework/resourcework.go`, and the resource commands of `admin/command/engine.go`.
A process is a request, a command or the execution of one queue job, and its state is the
point it has reached: each transaction of the source is one transition, each statement
outside a transaction and each provider call is one of its own. What providers, hosts and
the keyring do comes in as the `Input` of a transition; every outcome is possible.

The queue delivers an outstanding job from its scheduled time on, any number of times, also
concurrently. A job is outstanding until a worker of it has returned without an error.
-/

namespace Ultracore.Resourcework

open Txn

structure Service where
  reconcileInterval : Time := 0
  configuredTimeout : Time := 0

/-- In milliseconds. -/
def Service.interval (s : Service) : Time :=
  if s.reconcileInterval > 0 then s.reconcileInterval else 5000

def Service.provisionTimeout (s : Service) : Time :=
  if s.configuredTimeout > 0 then s.configuredTimeout else 60000

def resourceName (r : Resource) : String :=
  if r.kind = resourceKindDevEnv ∨ r.kind = "" then
    match parseDevEnvSpec r.spec with
    | some spec => spec.name
    | none => probeName r.spec
  else probeName r.spec

def eventPayload (r : Resource) (message : String) : ResourceEventPayload where
  resourceID := r.id
  kind := r.kind
  name := resourceName r
  endpoint := r.endpoint
  message := message
  epoch := r.epoch

/-! ## Requests and commands -/

section
variable (svc : Service)

/-- `Request`, once its provider has accepted the spec. -/
def request (id : ResourceID) (kind : String) (spec : Json) (token : String) : Tx Unit := do
  Resources.create id kind spec token
  appendEvent .resourceRequested (eventPayload (Resources.fresh id kind spec token 0) "")
  let t ← now
  enqueue .provision t
  enqueue .reconcile (t + svc.provisionTimeout)

def requestTerminate : Tx Unit := do
  let r ← Resources.getForUpdate
  if r.state = .terminated then pure ()
  else do
    Resources.setTerminating
    appendEvent .resourceTerminating (eventPayload r "")
    let t ← now
    enqueue .terminate t

def requestRestart : Tx Unit := do
  let r ← Resources.getForUpdate
  if r.state.terminal ∨ r.state = .terminating then
    .throw (.refused ("resourcework: resource is " ++ r.state.text ++
      " and cannot restart"))
  else do
    Resources.setProvisioning
    appendEvent .resourceProvisioning (eventPayload r "restart requested")
    let t ← now
    enqueue .restart t

/-- The operator's restart where the engine has no resource service: no event is written. -/
def adminRestart : Tx Unit := do
  let r ← Resources.getForUpdate
  if r.state.terminal ∨ r.state = .terminating then
    .throw (.refused ("resource is " ++ r.state.text ++ " and cannot restart"))
  else do
    Resources.setProvisioning
    let t ← now
    enqueue .restart t

/-- The operator's terminate where the engine has no resource service. -/
def adminTerminate : Tx Unit := do
  let r ← Resources.getForUpdate
  if r.state = .terminated then pure ()
  else do
    Resources.setTerminating
    let t ← now
    enqueue .terminate t

def adminSuspend (message : String) : Tx Unit := do
  let _ ← Resources.getForUpdate
  Resources.setSuspended (if message = "" then "operator suspended" else message)

def adminReconcile : Tx Unit := do
  let _ ← Resources.get
  let t ← now
  enqueue .reconcile t

/-! ## Transactions of the workers -/

/-- Make the resource ready, and put it under observation. -/
def publish (locked : Resource) (handle : Json) (endpoint message : String) : Tx Unit := do
  Resources.setReady handle endpoint
  appendEvent .resourceReady (eventPayload { locked with handle, endpoint } message)
  let t ← now
  enqueue .reconcile (t + svc.interval)

/-- The last transaction of `Provision`. -/
def publishProvisioned (handle : Json) (endpoint : String) : Tx Unit := do
  let locked ← Resources.getForUpdate
  if locked.state ≠ .provisioning then pure () else publish svc locked handle endpoint ""

/-- The last transaction of `Restart`. -/
def publishRestarted (handle : Json) (endpoint : String) : Tx Unit := do
  let locked ← Resources.getForUpdate
  if locked.state.terminal then pure () else publish svc locked handle endpoint "restarted"

/-- The last transaction of `reconcileSuspended`. -/
def publishResumed : Tx Unit := do
  let locked ← Resources.getForUpdate
  if locked.state ≠ .suspended then pure ()
  else publish svc locked locked.handle locked.endpoint "resumed"

def fail (r : Resource) (message : String) : Tx Unit := do
  Resources.setFailed message
  appendEvent .resourceFailed (eventPayload r message)

/-- The last transaction of `Terminate`. -/
def retire (r : Resource) : Tx Unit := do
  Resources.setTerminated
  appendEvent .resourceTerminated (eventPayload r "")

/-- The transaction of `suspend`. -/
def suspend (r : Resource) (message : String) : Tx Unit := do
  let locked ← Resources.getForUpdate
  if locked.state ≠ .ready then pure ()
  else do
    Resources.setSuspended message
    appendEvent .resourceSuspended (eventPayload r message)

def rearmReconcile : Tx Unit := do
  let t ← now
  enqueue .reconcile (t + svc.interval)

/-- The last transaction of `Reconcile`. -/
def observe : Tx Unit := do
  let locked ← Resources.getForUpdate
  if locked.state ≠ .ready then pure () else rearmReconcile svc

/-- The transaction of `recoverProvisioning` for work that has not stalled. -/
def watch : Tx Unit := do
  let t ← now
  enqueue .reconcile (t + svc.provisionTimeout)

/-- The transaction of `recoverProvisioning` that drives interrupted work again. -/
def redrive : Tx Unit := do
  let locked ← Resources.getForUpdate
  if locked.state ≠ .requested ∧ locked.state ≠ .provisioning then pure ()
  else do
    let t ← now
    enqueue .provision t
    enqueue .reconcile (t + svc.provisionTimeout)

end

/-! ## Processes -/

/-- What comes from outside the database. -/
inductive Input where
  | go
  /-- The provider's adapter is there. -/
  | built
  | unbuilt (message : String)
  | keyringFailed
  /-- A new bearer token. -/
  | token (clear : String)
  | adopts (canEnumerate : Bool)
  /-- The handle that a provider call returns. -/
  | handle (h : Json)
  | healthy (endpoint : String)
  | unhealthy
  | interrupted
  /-- The provider reports that the host is unreachable. -/
  | suspended (message : String)
  /-- The provider reports a terminal state. -/
  | gone

/-- A process. `n` is the job it executes, and `r` the resource as it has read it. -/
inductive Proc where
  | request (id : ResourceID) (kind : String) (spec : Json) (token : String)
  | requestTerminate
  | requestRestart
  | adminRestart
  | adminTerminate
  | adminSuspend (message : String)
  | adminReconcile
  -- `Provision`
  | provision (n : Nat)
  | marking (n : Nat) (r : Resource)
  | announcing (n : Nat) (r : Resource)
  | building (n : Nat) (r : Resource)
  | acquiring (n : Nat) (r : Resource)
  | creating (n : Nat) (r : Resource)
  | storing (n : Nat) (r : Resource) (handle : Json)
  | warming (n : Nat) (r : Resource)
  | publishing (n : Nat) (r : Resource) (endpoint : String)
  -- `Restart`
  | restart (n : Nat)
  | rebuilding (n : Nat) (r : Resource)
  | rotating (n : Nat) (r : Resource) (clear : String)
  | restarting (n : Nat) (r : Resource) (clear : String)
  | rewarming (n : Nat) (r : Resource)
  | republishing (n : Nat) (r : Resource) (endpoint : String)
  -- A runtime that did not become healthy is removed, and the resource fails.
  | discarding (n : Nat) (r : Resource) (message : String)
  | failing (n : Nat) (r : Resource) (message : String)
  -- `Terminate`
  | terminate (n : Nat)
  | resolving (n : Nat) (r : Resource)
  | removing (n : Nat) (r : Resource)
  | retiring (n : Nat) (r : Resource)
  -- `Reconcile`
  | reconcile (n : Nat)
  | recovering (n : Nat) (r : Resource)
  | watching (n : Nat)
  | redriving (n : Nat)
  | checking (n : Nat) (r : Resource)
  | observing (n : Nat)
  | suspending (n : Nat) (r : Resource) (message : String)
  | inspecting (n : Nat) (r : Resource)
  | resuming (n : Nat)
  | rearming (n : Nat)
  -- The worker returned without an error.
  | acking (n : Nat)
  | done

/-- A transaction, and where the process continues. -/
def Proc.after (x : Tx Unit) (p : Proc) : Tx Proc := do
  x
  pure p

/-- `Get` at the start of a worker. -/
def Proc.reading (f : Resource → Proc) : Tx Proc := do
  let r ← Resources.get
  pure (f r)

def Proc.afterProvisionRead (n : Nat) (r : Resource) : Proc :=
  if r.state = .ready ∨ r.state.terminal then .acking n else .marking n r

def Proc.afterRestartRead (n : Nat) (r : Resource) : Proc :=
  if r.state.terminal then .acking n else .rebuilding n r

def Proc.afterTerminateRead (n : Nat) (r : Resource) : Proc :=
  if r.state = .terminated then .acking n else .resolving n r

def Proc.afterReconcileRead (n : Nat) : Option Resource → Proc
  | none => .acking n
  | some r =>
    match r.state with
    | .requested | .provisioning => .recovering n r
    | .suspended => .inspecting n r
    | .ready => .checking n r
    | _ => .acking n

/-- `recoverProvisioning`, by how long nothing has changed. -/
def Proc.afterStall (svc : Service) (n : Nat) (r : Resource) (t : Time) : Proc :=
  let timeout := svc.provisionTimeout
  let stalled := t - r.updatedAt
  if stalled < timeout then .watching n
  else if stalled > 10 * timeout then .failing n r "resource provisioning did not converge"
  else .redriving n

def suspendMessage (message : String) : String :=
  if message = "" then "the resource host is unreachable" else message

/-- `acquire` up to the call of `Provision`: a redelivered job adopts the object that an
    interrupted one has created. -/
def acquire (n : Nat) (r : Resource) (canEnumerate : Bool) : Tx Proc :=
  if handlePresent r.handle then pure (.storing n r r.handle)
  else if canEnumerate then do
    match ← Provider.adopt with
    | some o => pure (.storing n r o.handle)
    | none => pure (.creating n r)
  else pure (.creating n r)

/-- The transaction a process runs next. -/
def Proc.body (svc : Service) : Proc → Input → Option (Tx Proc)
  | .request id kind spec token, .go =>
    some (after (Resourcework.request svc id kind spec token) .done)
  | .requestTerminate, .go => some (after Resourcework.requestTerminate .done)
  | .requestRestart, .go => some (after Resourcework.requestRestart .done)
  | .adminRestart, .go => some (after Resourcework.adminRestart .done)
  | .adminTerminate, .go => some (after Resourcework.adminTerminate .done)
  | .adminSuspend message, .go => some (after (Resourcework.adminSuspend message) .done)
  | .adminReconcile, .go => some (after Resourcework.adminReconcile .done)
  | .provision n, .go => some (reading (afterProvisionRead n))
  | .marking n r, .go => some (after Resources.setProvisioning (.announcing n r))
  | .announcing n r, .go =>
    some (after (appendEvent .resourceProvisioning (eventPayload r "")) (.building n r))
  | .building n r, .built => some (pure (.acquiring n r))
  | .building n r, .unbuilt message => some (pure (.failing n r message))
  | .building _ _, .keyringFailed => some (pure .done)
  | .acquiring n r, .adopts canEnumerate => some (acquire n r canEnumerate)
  | .creating n r, .handle h => some (after (Provider.create ⟨h, r.token⟩) (.storing n r h))
  | .storing n r h, .go => some (after (Resources.setHandle h) (.warming n { r with handle := h }))
  | .warming n r, .healthy endpoint => some (pure (.publishing n r endpoint))
  | .warming n r, .unhealthy => some (pure (.discarding n r "resource did not become healthy"))
  | .warming _ _, .interrupted => some (pure .done)
  | .publishing n r endpoint, .go =>
    some (after (publishProvisioned svc r.handle endpoint) (.acking n))
  | .restart n, .go => some (reading (afterRestartRead n))
  | .rebuilding n r, .token clear => some (pure (.rotating n r clear))
  | .rebuilding n r, .unbuilt message => some (pure (.failing n r message))
  | .rebuilding _ _, .keyringFailed => some (pure .done)
  | .rotating n r clear, .go => some (after (Resources.rotateToken clear) (.restarting n r clear))
  | .restarting n r clear, .handle h =>
    some (after (Provider.create ⟨h, clear⟩) (.rewarming n { r with handle := h }))
  | .rewarming n r, .healthy endpoint => some (pure (.republishing n r endpoint))
  | .rewarming n r, .unhealthy | .rewarming n r, .interrupted =>
    some (pure (.discarding n r "resource did not become healthy after restart"))
  | .republishing n r endpoint, .go =>
    some (after (publishRestarted svc r.handle endpoint) (.acking n))
  | .discarding n r message, .go => some (after Provider.terminate (.failing n r message))
  | .failing n r message, .go => some (after (fail r message) (.acking n))
  | .terminate n, .go => some (reading (afterTerminateRead n))
  | .resolving n r, .built =>
    some (pure (if handlePresent r.handle then .removing n r else .retiring n r))
  | .removing n r, .go => some (after Provider.terminate (.retiring n r))
  | .retiring n r, .go => some (after (retire r) (.acking n))
  | .reconcile n, .go => some do
      let row ← .query Db.row
      pure (afterReconcileRead n row)
  | .recovering n r, .go => some do
      let t ← now
      pure (afterStall svc n r t)
  | .watching n, .go => some (after (watch svc) (.acking n))
  | .redriving n, .go => some (after (redrive svc) (.acking n))
  | .checking n r, .suspended message => some (pure (.suspending n r (suspendMessage message)))
  | .checking n r, .unhealthy | .checking n r, .gone =>
    some (pure (.failing n r "resource is no longer healthy"))
  | .checking n _, .healthy _ => some (pure (.observing n))
  | .observing n, .go => some (after (observe svc) (.acking n))
  | .suspending n r message, .go => some (after (suspend r message) (.rearming n))
  | .inspecting n _, .unhealthy => some (pure (.rearming n))
  | .inspecting n r, .gone => some (pure (.failing n r "resource is no longer healthy"))
  | .inspecting n _, .healthy _ => some (pure (.resuming n))
  | .resuming n, .go => some (after (publishResumed svc) (.acking n))
  | .rearming n, .go => some (after (rearmReconcile svc) (.acking n))
  | .acking n, .go => some (after (ack n) .done)
  | _, _ => none

/-- Where a process continues after an error. A provider call that fails without effect is one
    that is aborted. A worker returns the error to the queue, except where the source handles
    it: a failed append is ignored when provisioning starts, and errors of the provider fail
    the resource. -/
def Proc.onErr : Proc → Input → Err → Proc
  | .announcing n r, _, _ => .building n r
  | .building n r, _, _ => .failing n r "postgres: scan provider"
  -- With a handle at hand no provider is called.
  | .acquiring n r, _, _ =>
    if handlePresent r.handle then .storing n r r.handle
    else .failing n r "resource provisioning failed"
  | .creating n r, _, _ => .failing n r "resource provisioning failed"
  | .rebuilding n r, _, _ => .failing n r "postgres: scan provider"
  | .restarting n r _, _, _ => .failing n r "resource restart failed"
  | .discarding n r message, _, _ => .failing n r message
  | .inspecting n _, _, _ => .rearming n
  | _, _, _ => .done

/-- Requests and commands start any time, workers by the delivery of their job. -/
def Proc.canSpawn (d : Db) : Proc → Bool
  | .request .. | .requestTerminate | .requestRestart | .adminRestart | .adminTerminate
  | .adminSuspend _ | .adminReconcile => true
  | .provision n => delivers .provision n
  | .restart n => delivers .restart n
  | .reconcile n => delivers .reconcile n
  | .terminate n => delivers .terminate n
  | _ => false
where
  delivers (job : Job) (n : Nat) : Bool :=
    d.jobs.any fun q => q.id == n && q.job = job && q.scheduledAt ≤ d.clock

/-- The system of one resource. The environment lets time pass. -/
def program (svc : Service) : Program Db Write.rows Err Input Nat Proc where
  body := Proc.body svc
  onErr := Proc.onErr
  broken := .broken
  canSpawn d _ p := p.canSpawn d
  env ticks d := { d with clock := d.clock + ticks }

abbrev System := Config Db Row Write Err Input Proc

/-- Before the resource is requested. -/
def boot (t : Time) : System := ⟨{ clock := t }, []⟩

/-- The stored state of the resource. -/
def Db.state? (d : Db) : Option ResourceState := d.row.map Resource.state

end Ultracore.Resourcework
