-- SUMMARY: The tool calls of a step, native and of resources, as transactions over all tables.
import Ultracore.Resourcework.Work
import Ultracore.System.Process
import Ultracore.Tenancy.Scope
import Ultracore.Txn.Footprint

/-!
# Tool calls

Files `spawn.go`, `memorytools.go` and `resourcetools.go` of package `loop`, with `Request` and
`RequestTerminate` of package `resourcework`. While a step streams, the model calls tools, one
after the other and with any input. What a tool answers goes to the model and is not kept
here. A call is a sequence of transactions; everything else that happens to the tables in
between is the environment, which may do anything.
-/

namespace Ultracore.Tools

open Txn Loop
open Ultracore.System (Delivery)
open Tenancy (Database ResourceRow ProviderInstance quoted)

/-! ## Tables -/

/-- A queue job about a resource. -/
structure ResourceJob where
  tenantID : TenantID
  resourceID : ResourceID
  job : Resourcework.Job
  scheduledAt : Time

structure Shared extends Database where
  jobs : List ResourceJob := []

inductive Lock where
  | core (r : Row)
  | resource (id : ResourceID)
deriving DecidableEq

inductive Change where
  | core (w : Write)
  | insertResource (r : ResourceRow)
  | setTerminating (t : TenantID) (id : ResourceID) (now : Time)
  | insertJob (j : ResourceJob)

def terminated (t : TenantID) (id : ResourceID) (now : Time) : ResourceRow → ResourceRow :=
  Tenancy.Resources.changed t id (Resourcework.Resources.terminating now)

def Change.apply (d : Shared) : Change → Shared
  | .core w => { d with core := w.apply d.core }
  | .insertResource r => { d with resources := d.resources ++ [r] }
  | .setTerminating t id now => { d with resources := d.resources.map (terminated t id now) }
  | .insertJob j => { d with jobs := d.jobs ++ [j] }

instance : Tables Shared Change := ⟨Change.apply⟩

abbrev Body (α : Type) := Prog Shared Lock Change Err α

/-- A transaction of the run store. -/
def core {α : Type} (x : Tx α) : Body α := x.prog.embed (fun d => d.core) .core .core

namespace Resources

def create (t : TenantID) (r : ResourceRow) : Body Unit :=
  .exec (fun _ => [.resource r.id]) fun v =>
    match (Tenancy.Resources.create t r v.db.toDatabase).1 with
    | .ok _ => (.ok (), [.insertResource (Tenancy.Resources.inserted t r v.db.core.clock)])
    | .error e => (.error e, [])

def get (t : TenantID) (id : ResourceID) : Body ResourceRow :=
  .exec (fun _ => []) fun v => ((Tenancy.Resources.get t id v.db.toDatabase).1, [])

def getForUpdate (t : TenantID) (id : ResourceID) : Body ResourceRow :=
  .exec (fun _ => [.resource id]) fun v => ((Tenancy.Resources.get t id v.db.toDatabase).1, [])

def setTerminating (t : TenantID) (id : ResourceID) : Body Unit :=
  .exec (fun _ => [.resource id]) fun v =>
    match (Tenancy.Resources.setTerminating t id v.db.toDatabase).1 with
    | .ok _ => (.ok (), [.setTerminating t id v.db.core.clock])
    | .error e => (.error e, [])

end Resources

def Providers.getByName (t : TenantID) (name : String) : Body ProviderInstance :=
  .exec (fun _ => []) fun v => ((Tenancy.Providers.getByName t name v.db.toDatabase).1, [])

/-- `EnqueueInTx` -/
def enqueue (j : ResourceJob) : Body Unit :=
  .exec (fun _ => []) fun _ => (.ok (), [.insertJob j])

def now : Body Time := .query fun d => d.core.clock

/-! ## Requests for resources -/

/-- An adapter: the kind it hosts, and what it complains about in a spec. -/
structure Provider where
  kind : String
  validateSpec : Json → Option String

structure Service extends Resourcework.Service where
  /-- Build the adapter for a kind of provider from its configuration. -/
  build : String → Json → Except String Provider
  /-- The JSON text of an event about a resource of a provider instance. -/
  marshal : String → Resourcework.ResourceEventPayload → String

def eventKind : Resourcework.EventKind → String
  | .resourceRequested => "resource_requested"
  | .resourceProvisioning => "resource_provisioning"
  | .resourceReady => "resource_ready"
  | .resourceFailed => "resource_failed"
  | .resourceSuspended => "resource_suspended"
  | .resourceTerminating => "resource_terminating"
  | .resourceTerminated => "resource_terminated"

def appendEvent (svc : Service) (t : TenantID) (s : SessionID) (kind : Resourcework.EventKind)
    (r : ResourceRow) (message : String) : Body Unit := do
  let payload := svc.marshal r.providerInstanceID (Resourcework.eventPayload r.toResource message)
  let _ ← core (Events.append t s actorSystem (.other (eventKind kind) payload))
  pure ()

/-- The kind of the new resource, where the provider instance hosts it. -/
def Service.hosted (svc : Service) (inst : ProviderInstance) (kind : String) (spec : Json) :
    Except Err String :=
  match svc.build inst.kind inst.config with
  | .error e => .error (.invalid ("resourcework: build provider for " ++ inst.name ++ ": " ++ e))
  | .ok p =>
    match p.validateSpec spec with
    | some e => .error (.invalid ("resourcework: invalid spec: " ++ e))
    | none =>
      if p.kind ≠ "" then
        if kind ≠ "" ∧ kind ≠ p.kind then
          .error (.invalid ("resourcework: provider " ++ quoted inst.name ++ " hosts kind " ++
            quoted p.kind ++ ", not " ++ quoted kind))
        else .ok p.kind
      else if kind = "" then .ok resourceKindDevEnv
      else .ok kind

/-- The resource that a request stores, in the session of the run. -/
def requested (run : AgentRun) (providerInstanceID kind : String) (spec : Json) (newID : ResourceID)
    (token : String) : ResourceRow where
  toResource := Resourcework.Resources.fresh newID kind spec token 0
  tenantID := run.tenantID
  sessionID := run.sessionID
  providerInstanceID := providerInstanceID
  createdByRunID := some run.id

/-- `Request` up to its transaction: the provider is asked before anything is stored. Making
    the token can fail. -/
def prepare (svc : Service) (run : AgentRun) (kind : String) (spec : Json) (providerName : String)
    (newID : ResourceID) (token : Except String String) : Body ResourceRow := do
  let inst ← Providers.getByName run.tenantID (if providerName = "" then "default" else providerName)
  match svc.hosted inst kind spec, token with
  | .error e, _ => .fail e
  | .ok _, .error e => .fail (.invalid e)
  | .ok kind, .ok token => pure (requested run inst.id kind spec newID token)

/-- The transaction of `Request`. -/
def request (svc : Service) (r : ResourceRow) : Body Unit := do
  Resources.create r.tenantID r
  appendEvent svc r.tenantID r.sessionID .resourceRequested r ""
  let t ← now
  enqueue ⟨r.tenantID, r.id, .provision, t⟩
  enqueue ⟨r.tenantID, r.id, .reconcile, t + svc.provisionTimeout⟩

/-- `RequestTerminate`: any resource of the tenant. -/
def requestTerminate (svc : Service) (t : TenantID) (id : ResourceID) : Body Unit := do
  let r ← Resources.getForUpdate t id
  if r.state = .terminated then pure ()
  else do
    Resources.setTerminating t id
    appendEvent svc t r.sessionID .resourceTerminating r ""
    let at_ ← now
    enqueue ⟨t, id, .terminate, at_⟩

/-! ## Calls -/

/-- The lifecycle tools come under two names. -/
inductive Noun where
  | resource
  | env

def Noun.provision : Noun → String
  | .resource => "provision_resource"
  | .env => "provision_env"

def Noun.list : Noun → String
  | .resource => "list_resources"
  | .env => "list_envs"

def Noun.terminate : Noun → String
  | .resource => "terminate_resource"
  | .env => "terminate_env"

/-- A call of a tool with the input that the model supplies, and with the ids and tokens that
    are drawn for it. -/
inductive Call where
  | native (c : System.ToolCall)
  | memoryGet (key : String)
  | memoryList
  | provision (noun : Noun) (kind name providerInstance image : String) (newID : ResourceID)
      (token : Except String String)
  | list (noun : Noun)
  | terminate (noun : Noun) (resourceID envID : String)
  | remote (id : ResourceID) (tool : String)
  | unreachable (id : ResourceID) (tool : String)
  | refused (tool : String)

/-- The state of a step that calls tools. Between two calls and during a native call it is a
    state of the step's process. -/
inductive Proc where
  | native (p : System.Proc)
  | requesting (d : Delivery) (r : ResourceRow)
  | polling (d : Delivery) (id : ResourceID)
  | terminating (d : Delivery) (id : ResourceID)

/-- The step goes on, and the model with it. -/
def Proc.streaming (d : Delivery) : Proc := .native (.streaming d)

/-- What a stub does. -/
def deny (d : Delivery) (tool reason : String) : Body Proc := do
  core (permissionDenied d.run tool reason)
  pure (.streaming d)

/-- A tool that the policy does not allow is not offered; there is a stub in its place. -/
def gate (d : Delivery) (tool : String) (x : Body Proc) : Body Proc :=
  if d.run.policy.allowsTool tool then x else deny d tool "tool not granted"

/-- The spec of a new resource. Empty members are left out of a `DevEnvSpec`. -/
def provisionSpec (kind name image : String) : Json :=
  if kind = resourceKindDevEnv then
    .obj ([("name", .str name)] ++ (if image = "" then [] else [("image", .str image)]) ++
      [("workdir", .str "/work")])
  else .obj [("name", .str name)]

def provision (svc : Service) (d : Delivery) (tool kind name providerInstance image : String)
    (newID : ResourceID) (token : Except String String) : Body Proc :=
  let kind := if kind = "" then resourceKindDevEnv else kind
  if !d.run.policy.allowsResourceKind kind then deny d tool "resource kind not permitted"
  else do
    let r ← prepare svc d.run kind (provisionSpec kind name image) providerInstance newID token
    pure (.requesting d r)

/-- The first transaction of a call. -/
def call (cfg : Settings) (svc : Service) (d : Delivery) : Call → Body Proc
  | .native c => do
      let p ← core (System.callTool cfg d c)
      pure (.native p)
  | .memoryGet key => gate d "session_memory_get" do
      let _ ← core (Memory.get d.run.tenantID d.run.sessionID key)
      pure (.streaming d)
  | .memoryList => gate d "session_memory_list" do
      let _ ← core (Memory.list d.run.tenantID d.run.sessionID)
      pure (.streaming d)
  | .provision noun kind name providerInstance image newID token =>
    gate d noun.provision
      (provision svc d noun.provision kind name providerInstance image newID token)
  | .list noun => gate d noun.list (pure (.streaming d))
  | .terminate noun resourceID envID =>
    gate d noun.terminate (pure (.terminating d (if resourceID = "" then envID else resourceID)))
  | .remote id tool => gate d tool do
      let _ ← Resources.get d.run.tenantID id
      pure (.streaming d)
  | .unreachable _ tool => gate d tool (pure (.streaming d))
  | .refused tool => deny d tool "tool not granted"

/-- One look at a resource that is being provisioned. -/
def poll (d : Delivery) (id : ResourceID) : Body Proc := do
  let r ← Resources.get d.run.tenantID id
  if r.state = .ready ∨ r.state = .failed then pure (.streaming d) else pure (.polling d id)

inductive Input where
  | go
  | call (c : Call)
  /-- The context of the step is done. -/
  | cancelled

def body (cfg : Settings) (svc : Service) : Proc → Input → Option (Body Proc)
  | .native (.streaming d), .call c => some (call cfg svc d c)
  | .native p, .go => (System.body cfg p .go).map fun x => do
      let p' ← core x
      pure (.native p')
  | .requesting d r, .go => some do
      request svc r
      pure (.polling d r.id)
  | .polling d id, .go => some (poll d id)
  | .polling d _, .cancelled => some (pure (.streaming d))
  | .terminating d id, .go => some do
      requestTerminate svc d.run.tenantID id
      pure (.streaming d)
  | _, _ => none

/-- A tool answers that it failed, and the step goes on. -/
def onErr : Proc → Input → Err → Proc
  | .native p, _, e => .native (System.onErr p .go e)
  | .requesting d _, _, _ | .polling d _, _, _ | .terminating d _, _, _ => .streaming d

/-- The job of a delivery is one of its run. -/
def ofRun (d : Delivery) : Bool :=
  d.job.runID = d.run.id ∧ d.job.tenantID = d.run.tenantID ∧ d.job.sessionID = d.run.sessionID

/-- The steps that call tools. The environment leaves the tables as it likes. -/
def machine (cfg : Settings) (svc : Service) : Machine Shared Lock Change Err Input Shared Proc where
  body := body cfg svc
  onErr := onErr
  broken := .sql
  canSpawn _ _
    | .native (.streaming d) => ofRun d
    | _ => false
  env d _ := d

end Ultracore.Tools
