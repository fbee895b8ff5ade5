-- SUMMARY: The operator commands that preview a run or a resource: their reads, their transactions and what they report.
import Ultracore.Admin.Engine
import Ultracore.Api.Runs
import Ultracore.Resourcework.Work

/-!
# Commands on runs and resources

The closures that `CancelRun`, `AnswerAwait`, `ExpireAwait` and the resource commands pass to
`Run`, file `admin/command/engine.go`. Each reads the row that it is about and summarizes it.
To execute, it goes on with a transaction, and reads the row once more to tell what has become
of it. The transactions are those of the run API and of the resource service. Each but the one
that only adds a job locks the row first, so it acts on the row as it is at that time, whatever
the closure has read before.
-/

namespace Ultracore.Admin

open Txn

/-! ## The live state -/

/-- A resource: the columns that only its operators look at, and its tables. -/
structure Holding where
  tenantID : TenantID
  sessionID : SessionID
  providerInstanceID : String
  tables : Resourcework.Db

def Holding.holds (h : Holding) (id : ResourceID) : Bool := h.tables.row.any fun r => r.id = id

structure Live where
  runs : Db
  resources : List Holding := []

/-- What a transaction leaves that nothing gets in the way of. -/
def transact {D R W E : Type} [Tables D W] (x : Prog D R W E Unit) (d : D) : Except E D :=
  match x.alone d .empty with
  | (.ok _, s) => .ok (applyAll d s.writes)
  | (.error e, _) => .error e

/-- The message of an error of the run API. -/
def runError : Err → String
  | .notFound => "not found"
  | .alreadyExists => "already exists"
  | .failedPrecondition message | .invalid message | .denied message => message
  | .corruptHistory => "loop: decode envelope"
  | _ => "database error"

/-- The message of an error of the resource service. -/
def resourceError : Resourcework.Err → String
  | .notFound => "not found"
  | .alreadyExists => "already exists"
  | .refused message => message
  | .broken => "database error"

namespace Live

/-- A transaction on the tables of runs. -/
def transactRuns (x : Tx Unit) (s : Live) : Except String Live :=
  match transact x.prog s.runs with
  | .ok d => .ok { s with runs := d }
  | .error e => .error (runError e)

/-- A transaction on the tables of a resource, in the scope of a tenant. -/
def transactResource (t : TenantID) (id : ResourceID) (x : Resourcework.Tx Unit) (s : Live) :
    Except String Live :=
  match s.resources.find? fun h => h.holds id && h.tenantID == t with
  | none => .error "not found"
  | some h =>
    match transact x.prog h.tables with
    | .ok d => .ok { s with
        resources := s.resources.map fun h' =>
          if h'.holds id && h'.tenantID == t then { h' with tables := d } else h' }
    | .error e => .error (resourceError e)

/-- `enqueueResourceJob` with a `ReconcileJob`. -/
def enqueueReconcile (id : ResourceID) (s : Live) : Live :=
  { s with
    resources := s.resources.map fun h =>
      if h.holds id then { h with tables := h.tables.apply (.insertJob .reconcile h.tables.clock) }
      else h }

/-- `loadRun` -/
def run? (s : Live) (r : RunID) : Option AgentRun := s.runs.run? r

/-- `loadResource` -/
def resource? (s : Live) (id : ResourceID) : Option (Holding × Resource) :=
  (s.resources.find? fun h => h.holds id).bind fun h => h.tables.row.map fun r => (h, r)

end Live

/-! ## Closures -/

/-- What a closure has yet to do when it has read its row: a transaction and, if the state can
    be read then, the summary after it. -/
structure Going where
  before : Fields
  effects : List String
  tx : Live → Except String Live
  after : Option Live → Fields

/-- How far a closure comes by reading its row. -/
inductive Look where
  | failed (message : String) (rep : Report)
  | returns (rep : Report)
  | goes (k : Going)

/-- A command on a row. -/
structure Plan (T : Type) where
  load : Live → Option T
  before : T → Fields
  effects : List String
  /-- What is reported in place of the effects where there is nothing to do. -/
  settled : T → Option String := fun _ => none
  /-- Why the command is refused. -/
  refused : T → Option String := fun _ => none
  tx : T → Live → Except String Live
  /-- The summary after, from the row that was read first and the row that is read last. -/
  after : T → Option T → Fields

namespace Plan

variable {T : Type}

/-- The summary of the row as it is. -/
def preview (p : Plan T) (s : Live) : Option Fields := (p.load s).map p.before

def look (p : Plan T) (dryRun : Bool) (s : Live) : Look :=
  match p.load s with
  | none => .failed "not found" {}
  | some x =>
    let before := p.before x
    match p.settled x with
    | some effect => .returns { before := some before, after := some before, effects := [effect] }
    | none =>
      match p.refused x with
      | some message => .failed message { before := some before, effects := p.effects }
      | none =>
        if dryRun then
          .returns { before := some before, after := some before, effects := p.effects }
        else
          .goes { before := before, effects := p.effects, tx := p.tx x,
                  after := fun s' => p.after x (s'.bind p.load) }

/-- What a closure reports of the row before is the summary of the row as it is. -/
theorem look_returns {p : Plan T} {dryRun : Bool} {s : Live} {rep : Report}
    (h : p.look dryRun s = .returns rep) : ∃ b, p.preview s = some b ∧ rep.before = some b := by
  unfold look at h
  unfold preview
  cases hload : p.load s with
  | none => simp [hload] at h
  | some x =>
    simp only [hload] at h
    refine ⟨p.before x, rfl, ?_⟩
    split at h
    · cases h
      rfl
    split at h
    · cases h
    split at h
    · cases h
      rfl
    · cases h

/-- A probe goes no further. -/
theorem look_probe {p : Plan T} {s : Live} {k : Going} : p.look true s ≠ .goes k := by
  intro h
  unfold look at h
  split at h
  · cases h
  dsimp only at h
  split at h
  · cases h
  split at h
  · cases h
  · simp at h

end Plan

/-- The closure as a whole, where nothing comes between its parts. -/
def Look.exec (s : Live) : Look → Except String Unit × Report × Live
  | .failed message rep => (.error message, rep, s)
  | .returns rep => (.ok (), rep, s)
  | .goes k =>
    match k.tx s with
    | .error message => (.error message, { before := some k.before, effects := k.effects }, s)
    | .ok s' =>
      (.ok (),
        { before := some k.before, after := some (k.after (some s')), effects := k.effects }, s')

/-! ## Commands on runs -/

/-- What the engine was configured with. -/
structure Deps where
  /-- There is a queue to add jobs to. -/
  enqueue : Bool := true
  /-- There is a resource service. -/
  service : Bool := false
  suspendEnabled : Bool := false
  terminateEnabled : Bool := false

def alreadyApplied (b : Bool) : Fields := if b then [("already_applied", .bool true)] else []

/-- The id and the state of a run that is read again; they are empty where that fails. -/
def runAfter (x : Option AgentRun) : Fields :=
  [("run_id", .str (x.elim "" fun y => y.id.text)), ("state", .str (x.elim "" fun y => y.state.text))]

def cancelRun (r : RunID) : Plan AgentRun where
  load s := s.run? r
  before x :=
    [("run_id", .str x.id.text), ("tenant_id", .str x.tenantID), ("session_id", .str x.sessionID),
      ("state", .str x.state.text), ("cancel_requested", .bool x.cancelRequestedAt.isSome)] ++
      alreadyApplied x.state.terminal
  effects := ["request run cancellation", "finalize awaiting runs immediately"]
  settled x := if x.state.terminal then some "run already terminal" else none
  tx x s := s.transactRuns (Api.adminCancelRun x)
  after _ y :=
    runAfter y ++ [("cancel_requested", .bool (y.any fun x => x.cancelRequestedAt.isSome))]

def answerAwait (caller : Meta) (r : RunID) (message operatorName : String) : Plan AgentRun where
  load s := s.run? r
  before x :=
    [("run_id", .str x.id.text), ("state", .str x.state.text), ("tenant_id", .str x.tenantID)]
  effects := ["append operator answer", "set run running", "enqueue next step"]
  refused x :=
    if x.state ≠ .awaiting ∧ x.state ≠ .completed then
      some "run is not awaiting input or completed"
    else none
  tx x s := s.transactRuns (Api.answerAwait x message caller.operatorID operatorName)
  after _ y := runAfter y

def expireAwait (r : RunID) : Plan AgentRun where
  load s := s.run? r
  before x := [("run_id", .str x.id.text), ("state", .str x.state.text)]
  effects := ["expire awaiting run as cancelled"]
  refused x := if x.state ≠ .awaiting then some "run is not awaiting" else none
  tx x s := s.transactRuns (Api.expireAwait x)
  after _ y := runAfter y

/-! ## Commands on resources -/

def resourceRow (x : Holding × Resource) : ResourceRow :=
  ⟨x.2.id, x.1.tenantID, x.1.sessionID, x.2.state.text, x.2.kind, x.2.epoch, x.1.providerInstanceID⟩

/-- A command that executes a transaction on the resource. -/
def resourcePlan (id : ResourceID) (effects : List String) (x : Resourcework.Tx Unit) :
    Plan (Holding × Resource) where
  load s := s.resource? id
  before y := resourceSummary (resourceRow y)
  effects := effects
  tx y s := s.transactResource y.1.tenantID id x
  after _ y := resourceSummary (y.elim ⟨"", "", "", "", "", 0, ""⟩ resourceRow)

/-- The resource is reconciled by a job. There is no transaction on the resource, and the
    summary after is that of the row that was read first. -/
def reconcilePlan (deps : Deps) (id : ResourceID) (effects : List String)
    (probe : Holding × Resource → Fields) : Plan (Holding × Resource) where
  load s := s.resource? id
  before y := resourceSummary (resourceRow y) ++ probe y
  effects := effects
  tx _ s := if deps.enqueue then .ok (s.enqueueReconcile id) else .error "enqueue unavailable"
  after y _ :=
    resourceSummary (resourceRow y) ++ probe y ++ [("enqueued", .str "resource.reconcile")]

def reconcileResource (deps : Deps) (id : ResourceID) : Plan (Holding × Resource) :=
  reconcilePlan deps id ["enqueue resource.reconcile job"] fun _ => []

def resourceAdoptionProbe (deps : Deps) (id : ResourceID) : Plan (Holding × Resource) :=
  reconcilePlan deps id ["record adoption probe metadata", "enqueue reconcile"] fun y =>
    [("probe", .obj [("has_handle", .bool (handlePresent y.2.handle)),
      ("state", .str y.2.state.text), ("epoch", .num y.2.epoch)])]

def resourceRestart (deps : Deps) (id : ResourceID) : Plan (Holding × Resource) :=
  { resourcePlan id ["mark provisioning", "enqueue resource.restart"]
      (if deps.service then Resourcework.requestRestart else Resourcework.adminRestart) with
    refused := fun y =>
      if y.2.state.terminal ∨ y.2.state = .terminating then
        some ("resource is " ++ y.2.state.text ++ " and cannot restart")
      else none }

def resourceSuspend (id : ResourceID) (message : String) : Plan (Holding × Resource) :=
  resourcePlan id ["set resource suspended"] (Resourcework.adminSuspend message)

def resourceTerminate (deps : Deps) (id : ResourceID) : Plan (Holding × Resource) :=
  { resourcePlan id ["mark terminating", "enqueue resource.terminate"]
      (if deps.service then Resourcework.requestTerminate else Resourcework.adminTerminate) with
    before := fun y => resourceSummary (resourceRow y) ++ alreadyApplied (y.2.state = .terminated)
    settled := fun y => if y.2.state = .terminated then some "already terminated" else none }

/-! ## All of them -/

/-- A command that previews a run or a resource, with its arguments. -/
inductive RowCommand where
  | cancelRun (r : RunID)
  | answerAwait (r : RunID) (message operatorName : String)
  | expireAwait (r : RunID)
  | resourceReconcile (id : ResourceID)
  | resourceRestart (id : ResourceID)
  | resourceSuspend (id : ResourceID) (message : String)
  | resourceTerminate (id : ResourceID)
  | resourceAdoptionProbe (id : ResourceID)

namespace RowCommand

def command : RowCommand → Command
  | .cancelRun _ => .cancelRun
  | .answerAwait _ _ _ => .answerAwait
  | .expireAwait _ => .expireAwait
  | .resourceReconcile _ => .resourceReconcile
  | .resourceRestart _ => .resourceRestart
  | .resourceSuspend _ _ => .resourceSuspend
  | .resourceTerminate _ => .resourceTerminate
  | .resourceAdoptionProbe _ => .resourceAdoptionProbe

def targets : RowCommand → Targets
  | .cancelRun r | .answerAwait r _ _ | .expireAwait r => [("run_id", .text r.text)]
  | .resourceReconcile id | .resourceRestart id | .resourceSuspend id _ | .resourceTerminate id
  | .resourceAdoptionProbe id => [("resource_id", .text id)]

/-- What a command is refused for before it reads anything. -/
def problem (deps : Deps) : RowCommand → Option String
  | .answerAwait _ message _ =>
    if isBlank message then some "message is required"
    else if !deps.enqueue then some "enqueue unavailable"
    else none
  | .resourceSuspend _ _ =>
    if !deps.suspendEnabled then some "command disabled by configuration" else none
  | .resourceTerminate _ =>
    if !deps.terminateEnabled then some "command disabled by configuration" else none
  | _ => none

/-- What the plan of the command gives. -/
def withPlan {β : Type} (deps : Deps) (caller : Meta) (f : ∀ {T : Type}, Plan T → β) :
    RowCommand → β
  | .cancelRun r => f (Admin.cancelRun r)
  | .answerAwait r message operatorName => f (Admin.answerAwait caller r message operatorName)
  | .expireAwait r => f (Admin.expireAwait r)
  | .resourceReconcile id => f (reconcileResource deps id)
  | .resourceRestart id => f (Admin.resourceRestart deps id)
  | .resourceSuspend id message => f (Admin.resourceSuspend id message)
  | .resourceTerminate id => f (Admin.resourceTerminate deps id)
  | .resourceAdoptionProbe id => f (Admin.resourceAdoptionProbe deps id)

/-- The summary of the row that the command is about, as it is. -/
def preview (deps : Deps) (caller : Meta) (c : RowCommand) (s : Live) : Option Fields :=
  c.withPlan deps caller fun p => p.preview s

def look (deps : Deps) (caller : Meta) (c : RowCommand) (dryRun : Bool) (s : Live) : Look :=
  match c.problem deps with
  | some message => .failed message {}
  | none => c.withPlan deps caller fun p => p.look dryRun s

section
variable {deps : Deps} {caller : Meta} {c : RowCommand} {s : Live}

theorem look_returns {dryRun : Bool} {rep : Report} (h : c.look deps caller dryRun s = .returns rep) :
    ∃ b, c.preview deps caller s = some b ∧ rep.before = some b := by
  unfold look at h
  split at h
  · cases h
  · cases c <;> exact Plan.look_returns h

theorem look_probe {k : Going} : c.look deps caller true s ≠ .goes k := by
  intro h
  unfold look at h
  split at h
  · cases h
  · cases c <;> exact Plan.look_probe h

end

/-- The closure that the command passes to `Run`. -/
def exec (deps : Deps) (caller : Meta) (c : RowCommand) (dryRun : Bool) (s : Live) :
    Except String Unit × Report × Live :=
  (c.look deps caller dryRun s).exec s

/-- A probe that succeeds reports the summary of the row, and changes nothing. -/
theorem exec_probe {deps : Deps} {caller : Meta} {c : RowCommand} {s s' : Live} {rep : Report}
    (h : c.exec deps caller true s = (.ok (), rep, s')) :
    s' = s ∧ ∃ b, c.preview deps caller s = some b ∧ rep.before = some b := by
  unfold exec at h
  cases hlook : c.look deps caller true s with
  | failed => simp [hlook, Look.exec] at h
  | returns =>
    rw [hlook] at h
    cases h
    exact ⟨rfl, look_returns hlook⟩
  | goes => exact absurd hlook look_probe

end RowCommand

/-! ## The preview hash -/

def Command.name : Command → String
  | .retryQueueJob => "RetryQueueJob"
  | .cancelQueueJob => "CancelQueueJob"
  | .cancelRun => "CancelRun"
  | .answerAwait => "AnswerAwait"
  | .expireAwait => "ExpireAwait"
  | .resourceReconcile => "ResourceReconcile"
  | .resourceRestart => "ResourceRestart"
  | .resourceSuspend => "ResourceSuspend"
  | .resourceTerminate => "ResourceTerminate"
  | .resourceAdoptionProbe => "ResourceAdoptionProbe"
  | .reprobeProvider => "ReprobeProvider"
  | .revokeAPIKey => "RevokeAPIKey"
  | .disableCredential => "DisableCredential"
  | .pausePeriodicPrompt => "PausePeriodicPrompt"
  | .resumePeriodicPrompt => "ResumePeriodicPrompt"
  | .disconnectSubscriber => "DisconnectSubscriber"
  | .exportIncidentEvidence => "ExportIncidentEvidence"
  | .revealSecret => "RevealSecret"

/-- A code unit as four hexadecimal digits. -/
def hex4 (n : Nat) : List Char :=
  [n / 4096 % 16, n / 256 % 16, n / 16 % 16, n % 16].map Nat.digitChar

/-- A character in a JSON string, as `json.Marshal` writes it. -/
def marshalChar (c : Char) : List Char :=
  if c = '"' then ['\\', '"']
  else if c = '\\' then ['\\', '\\']
  else if c = '\n' then ['\\', 'n']
  else if c = '\r' then ['\\', 'r']
  else if c = '\t' then ['\\', 't']
  else if c.toNat = 0x08 then ['\\', 'b']
  else if c.toNat = 0x0c then ['\\', 'f']
  else if c.toNat < 0x20 ∨ c = '<' ∨ c = '>' ∨ c = '&' ∨ c.toNat = 0x2028 ∨ c.toNat = 0x2029 then
    ['\\', 'u'] ++ hex4 c.toNat
  else [c]

def marshalString (s : String) : String :=
  String.ofList ('"' :: (s.toList.flatMap marshalChar ++ ['"']))

/-- Members of an object by the order of their keys. -/
def sortMembers (members : List (String × String)) : List (String × String) :=
  members.insertionSort fun a b =>
    List.lex b.1.toList a.1.toList (fun x y => decide (x.toNat < y.toNat)) = false

mutual

/-- `json.Marshal` -/
def marshal : Json → String
  | .null => "null"
  | .bool b => if b then "true" else "false"
  | .num n => toString n
  | .str s => marshalString s
  | .arr items => "[" ++ ",".intercalate (marshalItems items) ++ "]"
  | .obj fields =>
    "\x7b" ++ ",".intercalate ((sortMembers (marshalMembers fields)).map fun m =>
      marshalString m.1 ++ ":" ++ m.2) ++ "\x7d"

def marshalItems : List Json → List String
  | [] => []
  | v :: vs => marshal v :: marshalItems vs

def marshalMembers : List (String × Json) → List (String × String)
  | [] => []
  | (key, v) :: fields => (key, marshal v) :: marshalMembers fields

end

def Scalar.json : Scalar → Json
  | .text s => .str s
  | .number n => .num n

/-- `previewHash`, with SHA-256 as a parameter. No summary is hashed like an empty one. -/
def previewHash (sha256 : String → String) (command : Command) (targets : Targets)
    (before : Option Fields) : String :=
  sha256 (marshal (.obj
    [("command", .str command.name), ("targets", .obj (targets.map fun t => (t.1, t.2.json))),
      ("before", .obj (before.getD []))]))

end Ultracore.Admin
