-- SUMMARY: The engine of the operator commands: authorization, preview, execution and the audit table, step by step.
import Ultracore.Core.Policy

/-!
# The command engine

File `admin/command/engine.go`. `Run` takes a command through authorization, the lookup of
its idempotency key, admission, a probe of the live state, the comparison of the preview
hash, the execution and the audit row. Calls interleave at these steps. What a command
itself does is a parameter of `Run`: a closure that probes or changes the live state.

A statement can fail at any time, and a server process can die with all its calls.
-/

namespace Ultracore.Admin

/-! ## Authorization -/

inductive Role where
  | viewer
  | operator
  | security
  | admin
deriving DecidableEq

inductive Command where
  | retryQueueJob
  | cancelQueueJob
  | cancelRun
  | answerAwait
  | expireAwait
  | resourceReconcile
  | resourceRestart
  | resourceSuspend
  | resourceTerminate
  | resourceAdoptionProbe
  | reprobeProvider
  | revokeAPIKey
  | disableCredential
  | pausePeriodicPrompt
  | resumePeriodicPrompt
  | disconnectSubscriber
  | exportIncidentEvidence
  | revealSecret
deriving DecidableEq

/-- Mutations allowed for operators. -/
def operatorCommands : Command → Bool
  | .revealSecret => false
  | _ => true

/-- `Can`: whether a role may execute a command. -/
def can : Role → Command → Bool
  | .admin, _ => true
  | .security, .revealSecret => true
  | .security, .revokeAPIKey => true
  | .security, .disableCredential => true
  | .security, .exportIncidentEvidence => true
  | .security, .cancelRun => true
  | .security, .expireAwait => true
  | .security, c => operatorCommands c
  | .operator, c => operatorCommands c
  | .viewer, _ => false

/-! ## Calls and their results -/

/-- A map from names to JSON values. -/
abbrev Fields := List (String × Json)

/-- An id or a number that a command is about. -/
inductive Scalar where
  | text (s : String)
  | number (n : Int)
deriving DecidableEq

/-- What a command is about, by name. -/
abbrev Targets := List (String × Scalar)

/-- Request-scoped operator context. -/
structure Meta where
  operatorID : String
  operatorRole : Role
  requestID : String := ""
  sourceIP : String := ""

structure CommandOptions where
  dryRun : Bool := false
  reason : String := ""
  idempotencyKey : String := ""
  previewHash : String := ""

inductive Outcome where
  | ok
  | dryRun
  | alreadyApplied
  | failed
  | denied
deriving DecidableEq

/-- A successful execution. -/
def Outcome.success : Outcome → Bool
  | .ok | .alreadyApplied => true
  | _ => false

structure ExtraOut where
  evidenceJSON : String := ""
  plaintext : String := ""
  revealExpires : Time := 0

/-- What the closure of a command returns, besides an error. -/
structure Report where
  before : Option Fields := none
  after : Option Fields := none
  effects : List String := []
  extra : Option ExtraOut := none

structure Result where
  isDryRun : Bool
  previewHash : String
  before : Option Fields
  after : Option Fields
  effects : List String := []
  outcome : Outcome
  message : String := ""
  auditID : Option Nat := none
  idempotentReplay : Bool := false
  evidenceJSON : String := ""
  plaintext : String := ""
  revealExpires : Time := 0

/-- What `Run` returns: a result, an error, or both where the audit row is missing. -/
inductive Reply where
  | result (r : Result)
  | error (message : String)
  | unaudited (r : Result) (message : String)

/-- One call of `Run`. `exec` probes the live state (`true`) or changes it (`false`). -/
structure Call (S : Type) where
  process : Nat
  caller : Meta
  command : Command
  opts : Option CommandOptions
  targets : Targets
  exec : Bool → S → Except String Unit × Report × S

namespace Call

variable {S : Type}

def options (c : Call S) : CommandOptions := c.opts.getD {}

def dry (c : Call S) : Bool := c.options.dryRun

/-- The idempotency key that the call looks up and binds. -/
def idem (c : Call S) : String := Text.trimSpace c.options.idempotencyKey

end Call

/-! ## The audit table -/

/-- A row of `admin_audit_events`. Rows are never changed or deleted. -/
structure AuditRow where
  id : Nat
  operatorID : String
  operatorRole : Role
  requestID : String
  command : Command
  targets : Targets
  reason : String
  previewHash : String
  before : Option Fields
  after : Option Fields
  outcome : Outcome
  error : String
  sourceIP : String
  buildVersion : String
  idempotencyKey : Option String

structure Engine where
  buildVersion : String := ""
  rateLimit : Nat := 0
  maxConcurrent : Nat := 0
  /-- SHA-256 of the JSON of a command, its targets and its before-summary. -/
  previewHash : Command → Targets → Option Fields → String

namespace Engine

variable {S : Type} (e : Engine)

/-- The row that `writeAudit` inserts, bound to a key unless that is empty. -/
def auditRow (id : Nat) (c : Call S) (before after : Option Fields) (outcome : Outcome)
    (error idem : String) : AuditRow where
  id := id
  operatorID := c.caller.operatorID
  operatorRole := c.caller.operatorRole
  requestID := c.caller.requestID
  command := c.command
  targets := c.targets
  reason := c.opts.elim "" CommandOptions.reason
  previewHash := c.opts.elim "" fun o =>
    if o.previewHash = "" then e.previewHash c.command c.targets before else o.previewHash
  before := before
  after := after
  outcome := outcome
  error := error
  sourceIP := c.caller.sourceIP
  buildVersion := e.buildVersion
  idempotencyKey := if idem = "" then none else some idem

/-- `lookupIdempotent`: the success bound to a key. -/
def lookupIdempotent (audit : List AuditRow) (key : String) : Option Result :=
  (audit.find? fun row => row.idempotencyKey = some key && row.outcome.success).map fun row =>
    { isDryRun := false, previewHash := row.previewHash, before := row.before, after := row.after,
      outcome := row.outcome, message := row.error, auditID := some row.id }

end Engine

/-! ## Admission -/

/-- The limiter of a server process: a token bucket, counted in billionths of a token, and
    the number of calls in flight. -/
structure Limiter where
  tokens : Nat
  lastFill : Nat
  inflight : Nat

namespace Engine

variable (e : Engine)

def rate : Nat := if e.rateLimit = 0 then 20 else e.rateLimit

def concurrency : Nat := if e.maxConcurrent = 0 then 8 else e.maxConcurrent

def token : Nat := 1000000000

/-- `New`, at a time in nanoseconds. -/
def newLimiter (now : Nat) : Limiter := ⟨e.rate * token, now, 0⟩

def acquire (now : Nat) (l : Limiter) : Except String Unit × Limiter :=
  let filled := { l with
    tokens := min (l.tokens + (now - l.lastFill) * e.rate) (e.rate * token), lastFill := now }
  if filled.tokens < token then (.error "rate limited", filled)
  else if filled.inflight ≥ e.concurrency then (.error "too many concurrent commands", filled)
  else (.ok (), { filled with tokens := filled.tokens - token, inflight := filled.inflight + 1 })

def release (l : Limiter) : Limiter := { l with inflight := l.inflight - 1 }

end Engine

/-! ## Steps of a call -/

/-- How far a call has come in `Run`. -/
inductive Phase where
  | entering
  | looking
  | acquiring
  | probing
  /-- An audit row that binds no key is written before the call returns. -/
  | noting (before after : Option Fields) (outcome : Outcome) (error : String) (reply : Reply)
  | executing (r : Result)
  | recording (r : Result)
  /-- The key was bound by another row in the meantime. -/
  | colliding (r : Result)
  | returned (reply : Reply)
  | dead

/-- A successful execution. No step reads these; they are what the audit is about. -/
structure Execution where
  call : Nat
  command : Command
  targets : Targets
  key : String
  before : Option Fields
  after : Option Fields
  outcome : Outcome

/-- What the calls share: the live state of the system, the audit table, the limiters of the
    server processes and the clock. -/
structure Shared (S : Type) where
  live : S
  audit : List AuditRow := []
  limiters : Nat → Limiter
  now : Nat := 0
  executed : List Execution := []

/-- Whether the command found nothing to do. -/
def outcomeOf (after : Option Fields) : Outcome :=
  match after.bind (List.lookup "already_applied") with
  | some (.bool true) => .alreadyApplied
  | _ => .ok

/-- The result of the probe. Plaintext never gets out of it. -/
def Result.probed (dry : Bool) (hash : String) (rep : Report) : Result where
  isDryRun := dry
  previewHash := hash
  before := rep.before
  after := rep.after
  effects := rep.effects
  outcome := .dryRun
  evidenceJSON := rep.extra.elim "" ExtraOut.evidenceJSON
  revealExpires := rep.extra.elim 0 ExtraOut.revealExpires

/-- The result of the execution, over that of the probe. -/
def Result.executed (r : Result) (rep : Report) : Result :=
  { r with
    before := rep.before, after := rep.after, effects := rep.effects, outcome := outcomeOf rep.after
    evidenceJSON := rep.extra.elim r.evidenceJSON ExtraOut.evidenceJSON
    plaintext := rep.extra.elim r.plaintext ExtraOut.plaintext
    revealExpires := rep.extra.elim r.revealExpires ExtraOut.revealExpires }

/-- The result of a dry run names its audit row. -/
def Reply.audited (id : Nat) : Reply → Reply
  | .result r => .result { r with auditID := some id }
  | reply => reply

def auditFailed (message : String) : String := "command applied but audit failed: " ++ message

def duplicateKey : String :=
  "duplicate key value violates unique constraint \"admin_audit_events_idempotency_uidx\""

namespace Engine

variable {S : Type} (e : Engine)

/-- Whether the call holds a place in the limiter of its process when it returns. -/
def holdsPlace (c : Call S) : Bool := can c.caller.operatorRole c.command && !c.dry

/-- The deferred `release`. -/
def leave (c : Call S) (w : Shared S) : Shared S :=
  if holdsPlace c then
    { w with limiters := Function.update w.limiters c.process (release (w.limiters c.process)) }
  else w

/-- The next step of call number `j`. -/
def next (j : Nat) (c : Call S) (w : Shared S) : Phase → Option (Shared S × Phase)
  | .entering =>
    if !can c.caller.operatorRole c.command then
      some (w, .noting none none .denied "permission denied" (.error "permission denied"))
    else if !c.dry && isBlank c.options.reason then
      some (w, .returned (.error "reason is required"))
    else if c.dry then some (w, .probing)
    else if c.idem = "" then some (w, .returned (.error "idempotency_key is required"))
    else some (w, .looking)
  | .looking =>
    match lookupIdempotent w.audit c.idem with
    | some prev => some (w, .returned (.result { prev with idempotentReplay := true }))
    | none => some (w, .acquiring)
  | .acquiring =>
    match e.acquire w.now (w.limiters c.process) with
    | (.error message, l) =>
      some ({ w with limiters := Function.update w.limiters c.process l },
        .returned (.error message))
    | (.ok (), l) =>
      some ({ w with limiters := Function.update w.limiters c.process l }, .probing)
  | .probing =>
    match c.exec true w.live with
    | (.error message, rep, s) =>
      some ({ w with live := s }, .noting rep.before rep.after .failed message (.error message))
    | (.ok (), rep, s) =>
      let hash := e.previewHash c.command c.targets rep.before
      if c.dry then
        some ({ w with live := s },
          .noting rep.before rep.before .dryRun "" (.result (.probed true hash rep)))
      else if c.options.previewHash ≠ hash then
        some ({ w with live := s },
          .noting rep.before none .failed "stale preview hash" (.error "stale preview hash"))
      else some ({ w with live := s }, .executing (.probed false hash rep))
  | .noting before after outcome error reply =>
    let row := e.auditRow w.audit.length c before after outcome error ""
    some (leave c { w with audit := w.audit ++ [row] }, .returned (reply.audited row.id))
  | .executing r =>
    match c.exec false w.live with
    | (.error message, rep, s) =>
      some ({ w with live := s }, .noting rep.before rep.after .failed message (.error message))
    | (.ok (), rep, s) =>
      let done : Execution :=
        ⟨j, c.command, c.targets, c.idem, rep.before, rep.after, outcomeOf rep.after⟩
      some ({ w with live := s, executed := w.executed ++ [done] }, .recording (r.executed rep))
  | .recording r =>
    if w.audit.any (fun row => row.idempotencyKey = some c.idem) then some (w, .colliding r)
    else
      let row := e.auditRow w.audit.length c r.before r.after r.outcome "" c.idem
      some (leave c { w with audit := w.audit ++ [row] },
        .returned (.result { r with auditID := some row.id }))
  | .colliding r =>
    match lookupIdempotent w.audit c.idem with
    | some prev => some (leave c w, .returned (.result { r with auditID := prev.auditID }))
    | none => some (leave c w, .returned (.unaudited r (auditFailed duplicateKey)))
  | .returned _ => none
  | .dead => none

/-- The statement of the next step fails. A failed audit row is noticed only where it binds
    a key. -/
def fault (message : String) (c : Call S) (w : Shared S) : Phase → Option (Shared S × Phase)
  | .looking => some (w, .returned (.error message))
  | .noting _ _ _ _ reply => some (leave c w, .returned reply)
  | .recording r => some (leave c w, .returned (.unaudited r (auditFailed message)))
  | .colliding r => some (leave c w, .returned (.unaudited r (auditFailed duplicateKey)))
  | _ => none

end Engine

/-! ## All calls -/

structure World (S : Type) where
  shared : Shared S
  calls : List (Call S × Phase) := []

/-- What can happen: a call arrives, goes on or has a failing statement, a server process
    dies, the live state changes otherwise, time passes. -/
inductive Action (S : Type) where
  | call (c : Call S)
  | advance (j : Nat)
  | fault (j : Nat) (message : String)
  | crash (process : Nat)
  | change (s : S)
  | tick (nanoseconds : Nat)

def Phase.over : Phase → Bool
  | .returned _ | .dead => true
  | _ => false

namespace Engine

variable {S : Type} (e : Engine)

/-- Call `j` goes on by `f`. -/
def goOn (w : World S) (j : Nat) (f : Call S → Phase → Option (Shared S × Phase)) :
    Option (World S) :=
  (w.calls[j]?).bind fun x => (f x.1 x.2).map fun y => ⟨y.1, w.calls.set j (x.1, y.2)⟩

def step (w : World S) : Action S → Option (World S)
  | .call c => some { w with calls := w.calls ++ [(c, .entering)] }
  | .advance j => goOn w j fun c => e.next j c w.shared
  | .fault j message => goOn w j fun c => fault message c w.shared
  | .crash process =>
    some { w with
      shared := { w.shared with
        limiters := Function.update w.shared.limiters process (e.newLimiter w.shared.now) }
      calls := w.calls.map fun x =>
        if x.1.process = process ∧ x.2.over = false then (x.1, .dead) else x }
  | .change s => some { w with shared := { w.shared with live := s } }
  | .tick n => some { w with shared := { w.shared with now := w.shared.now + n } }

/-- No calls yet. -/
def start (s : S) : World S := { shared := { live := s, limiters := fun _ => e.newLimiter 0 } }

end Engine

/-! ## A command -/

/-- The columns of a resource that operators see. -/
structure ResourceRow where
  id : String
  tenantID : TenantID
  sessionID : SessionID
  state : String
  kind : String
  epoch : Nat
  providerInstanceID : String

/-- The resources, and the `resource.reconcile` jobs in the queue. -/
structure Resources where
  rows : List ResourceRow
  jobs : List (TenantID × String) := []

def resourceSummary (r : ResourceRow) : Fields :=
  [("resource_id", .str r.id), ("tenant_id", .str r.tenantID), ("session_id", .str r.sessionID),
    ("state", .str r.state), ("kind", .str r.kind), ("epoch", .num r.epoch),
    ("provider_id", .str r.providerInstanceID)]

/-- The closure of `ResourceReconcile`. -/
def reconcile (id : String) (dryRun : Bool) (s : Resources) :
    Except String Unit × Report × Resources :=
  match s.rows.find? fun r => r.id = id with
  | none => (.error "not found", {}, s)
  | some r =>
    let before := resourceSummary r
    let effects := ["enqueue resource.reconcile job"]
    if dryRun then (.ok (), { before := some before, after := some before, effects := effects }, s)
    else
      (.ok (),
        { before := some before, after := some (before ++ [("enqueued", .str "resource.reconcile")]),
          effects := effects },
        { s with jobs := s.jobs ++ [(r.tenantID, r.id)] })

def resourceReconcile (process : Nat) (caller : Meta) (opts : CommandOptions) (id : String) :
    Call Resources :=
  ⟨process, caller, .resourceReconcile, some opts, [("resource_id", .text id)], reconcile id⟩

end Ultracore.Admin
