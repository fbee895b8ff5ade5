-- SUMMARY: Every operation of a tenant scope over all tables: sessions, events, runs, memory, waits, resources and providers.
import Ultracore.Resourcework.Store
import Ultracore.Tenancy.Methods

/-!
# Tenant scopes

Files `store.go` and `postgres/`. The handle that `Tenant(id)` returns offers the operations
of `Op`. Those on events, runs, memory and waits are the store methods as transactions; those
on sessions, resources and providers are one or two statements each and are given here as
functions on the tables. New sessions, runs, resources and providers get their creation time
from the database, so creation order is the order of the rows.
-/

namespace Ultracore.Tenancy

open Txn

/-! ## Tables -/

/-- A resource with the rows it refers to. -/
structure ResourceRow extends Resource where
  tenantID : TenantID
  sessionID : SessionID
  providerInstanceID : String
  createdByRunID : Option RunID := none

structure ProviderInstance where
  id : String
  tenantID : TenantID
  kind : String
  name : String
  config : Json := .obj []
  state : String
  capabilities : Json
  lastHealthyAt : Option Time := none

structure Database where
  tenants : List TenantID := []
  core : Db := {}
  resources : List ResourceRow := []
  providers : List ProviderInstance := []

namespace Database

/-- The rows that belong to the tenant. -/
def part (t : TenantID) (d : Database) : Database where
  tenants := d.tenants.filter fun x => x = t
  core := d.core.part t
  resources := d.resources.filter fun x => x.tenantID = t
  providers := d.providers.filter fun x => x.tenantID = t

/-- The rows that do not. -/
def rest (t : TenantID) (d : Database) : Database where
  tenants := d.tenants.filter fun x => x ≠ t
  core := d.core.rest t
  resources := d.resources.filter fun x => x.tenantID ≠ t
  providers := d.providers.filter fun x => x.tenantID ≠ t

end Database

/-- An operation returns a value or an error, and leaves tables. -/
abbrev Method (α : Type) := Database → Except Err α × Database

/-- A store method, executed while nothing else goes on. -/
def method {α : Type} (x : Tx α) : Method α := fun d =>
  ((x.prog.perform d.core).1, { d with core := (x.prog.perform d.core).2 })

/-! ## Sessions -/

/-- How `%q` prints a text without characters that need escaping. -/
def quoted (s : String) : String := "\"" ++ s ++ "\""

def maxSessionLabels : Nat := 16

def maxSessionLabelKeyLen : Nat := 128

def maxSessionLabelValLen : Nat := 128

/-- `ValidateLabels`: the first complaint, in the order in which the pairs are visited. -/
def validateLabels (labels : List (String × String)) : Option String :=
  if labels.length > maxSessionLabels then some "labels: at most 16 pairs"
  else labels.findSome? fun (k, v) =>
    if k = "" then some "labels: empty key"
    else if k.length > maxSessionLabelKeyLen then
      some ("labels: key " ++ quoted k ++ " exceeds 128 characters")
    else if v.length > maxSessionLabelValLen then
      some ("labels: value for " ++ quoted k ++ " exceeds 128 characters")
    else none

/-- One predicate on session labels. -/
structure LabelSelector where
  key : String
  op : String
  values : List String

/-- The WHERE clause that the selectors add up to; `none` where `in ()` ends the search. -/
def selected : List LabelSelector → (Session → Bool) → Except Err (Option (Session → Bool))
  | [], p => .ok (some p)
  | sel :: rest, p =>
    if sel.op = "=" ∨ sel.op = "eq" ∨ sel.op = "" then
      match sel.values with
      | [v] => selected rest fun s => p s && s.labels.contains (sel.key, v)
      | _ => .error (.invalid "postgres: equality selector needs one value")
    else if sel.op = "in" then
      if sel.values.isEmpty then .ok none
      else selected rest fun s => p s && sel.values.any fun v => s.labels.contains (sel.key, v)
    else .error (.invalid ("postgres: unknown selector op " ++ quoted sel.op))

namespace Sessions

def create (t : TenantID) (id : SessionID) (title : String) (labels : List (String × String)) :
    Method Unit := fun d =>
  match validateLabels labels with
  | some message => (.error (.invalid message), d)
  | none =>
    if (d.core.session? id).isSome then (.error .alreadyExists, d)
    else if !d.tenants.contains t then (.error .sql, d)
    else (.ok (), { d with core := (Write.insertSession
      { id := id, tenantID := t, lastSeq := 0, title := title, labels := labels }).apply d.core })

def get (t : TenantID) (id : SessionID) : Method Session := fun d =>
  (Runs.found (d.core.ownSession t id), d)

/-- `List`: the newest sessions first. -/
def list (t : TenantID) (selectors : List LabelSelector) : Method (List Session) := fun d =>
  match selected selectors fun s => s.tenantID = t with
  | .error e => (.error e, d)
  | .ok none => (.ok [], d)
  | .ok (some p) => (.ok (d.core.sessions.filter p).reverse, d)

/-- An UPDATE of one session, by id and tenant, and the session as it is then. -/
def update (t : TenantID) (id : SessionID) (f : Session → Session) : Method Session := fun d =>
  match d.core.ownSession t id with
  | none => (.error .notFound, d)
  | some _ => get t id { d with core := d.core.modifySession id f }

def updateLabels (t : TenantID) (id : SessionID) (labels : List (String × String)) : Method Session :=
  fun d =>
    match validateLabels labels with
    | some message => (.error (.invalid message), d)
    | none => update t id (fun s => { s with labels := labels }) d

/-- `Archive`: stamp `archived_at`, unless it is set. -/
def archive (t : TenantID) (id : SessionID) : Method Session := fun d =>
  update t id (fun s => { s with archivedAt := s.archivedAt.or (some d.core.clock) }) d

end Sessions

/-! ## Resources -/

namespace Resources

/-- The row that `Create` inserts; every column it does not name has its default. -/
def inserted (t : TenantID) (r : ResourceRow) (now : Time) : ResourceRow where
  toResource := Resourcework.Resources.fresh r.id r.kind r.spec r.token now
  tenantID := t
  sessionID := r.sessionID
  providerInstanceID := r.providerInstanceID
  createdByRunID := r.createdByRunID

/-- `Create`: a resource of a session of the tenant, at a provider of the tenant. The run
    that created it is any run. -/
def create (t : TenantID) (r : ResourceRow) : Method Unit := fun d =>
  if (d.core.ownSession t r.sessionID).isNone ||
      !(d.providers.any fun p => p.id = r.providerInstanceID ∧ p.tenantID = t) then
    (.error .notFound, d)
  else if d.resources.any fun x => x.id = r.id then (.error .alreadyExists, d)
  else if r.createdByRunID.any fun run => (d.core.run? run).isNone then (.error .sql, d)
  else (.ok (), { d with resources := d.resources ++ [inserted t r d.core.clock] })

def own (t : TenantID) (id : ResourceID) (r : ResourceRow) : Bool := r.id = id ∧ r.tenantID = t

def get (t : TenantID) (id : ResourceID) : Method ResourceRow := fun d =>
  (Runs.found (d.resources.find? (own t id)), d)

/-- `List`: the resources of a session, of some kinds or of all. -/
def list (t : TenantID) (s : SessionID) (kinds : List String) : Method (List ResourceRow) := fun d =>
  (.ok (d.resources.filter fun r =>
    r.sessionID = s ∧ r.tenantID = t ∧ (kinds = [] ∨ r.kind ∈ kinds)), d)

def listActive (t : TenantID) : Method (List ResourceRow) := fun d =>
  (.ok (d.resources.filter fun r => r.tenantID = t ∧ r.state.terminal = false), d)

def changed (t : TenantID) (id : ResourceID) (f : Resource → Resource) (r : ResourceRow) : ResourceRow :=
  if own t id r then { r with toResource := f r.toResource } else r

/-- An UPDATE of one resource, by id and tenant. -/
def update (t : TenantID) (id : ResourceID) (f : Time → Resource → Resource) : Method Unit := fun d =>
  if d.resources.any (own t id) then
    (.ok (), { d with resources := d.resources.map (changed t id (f d.core.clock)) })
  else (.error .notFound, d)

def setProvisioning (t : TenantID) (id : ResourceID) : Method Unit :=
  update t id Resourcework.Resources.provisioning

def setHandle (t : TenantID) (id : ResourceID) (handle : Json) : Method Unit :=
  update t id (Resourcework.Resources.withHandle handle)

def setReady (t : TenantID) (id : ResourceID) (handle : Json) (endpoint : String) : Method Unit :=
  update t id (Resourcework.Resources.ready handle endpoint)

def setFailed (t : TenantID) (id : ResourceID) (message : String) : Method Unit :=
  update t id (Resourcework.Resources.failed message)

/-- `SetSuspended`: where the state does not allow it nothing changes, and `Get` decides
    between success and `ErrNotFound`. -/
def setSuspended (t : TenantID) (id : ResourceID) (message : String) : Method Unit :=
  update t id (Resourcework.Resources.suspended message)

def setTerminating (t : TenantID) (id : ResourceID) : Method Unit :=
  update t id Resourcework.Resources.terminating

def setTerminated (t : TenantID) (id : ResourceID) : Method Unit :=
  update t id Resourcework.Resources.terminated

def rotateToken (t : TenantID) (id : ResourceID) (token : String) : Method Unit :=
  update t id (Resourcework.Resources.rotated token)

end Resources

/-! ## Providers -/

namespace Providers

def create (t : TenantID) (p : ProviderInstance) : Method Unit := fun d =>
  if d.providers.any fun x => x.id = p.id ∨ (x.tenantID = t ∧ x.name = p.name) then
    (.error .alreadyExists, d)
  else if !d.tenants.contains t then (.error .sql, d)
  else (.ok (), { d with providers := d.providers ++ [{ p with tenantID := t, lastHealthyAt := none }] })

def own (t : TenantID) (id : String) (p : ProviderInstance) : Bool := p.id = id ∧ p.tenantID = t

def get (t : TenantID) (id : String) : Method ProviderInstance := fun d =>
  (Runs.found (d.providers.find? (own t id)), d)

def getByName (t : TenantID) (name : String) : Method ProviderInstance := fun d =>
  (Runs.found (d.providers.find? fun p => p.name = name ∧ p.tenantID = t), d)

def list (t : TenantID) : Method (List ProviderInstance) := fun d =>
  (.ok ((d.providers.filter fun p => p.tenantID = t).insertionSort fun p q => p.name ≤ q.name), d)

/-- `Delete`: not while a resource of the provider is active. A finished resource still
    refers to its provider, and the foreign key refuses the deletion. -/
def delete (t : TenantID) (id : String) : Method Unit := fun d =>
  if !d.providers.any (own t id) ||
      (d.resources.any fun r => r.providerInstanceID = id ∧ r.state.terminal = false) then
    (.error .notFound, d)
  else if d.resources.any fun r => r.providerInstanceID = id then (.error .sql, d)
  else (.ok (), { d with providers := d.providers.filter fun p => !own t id p })

def healthy (t : TenantID) (id : String) (now : Time) (p : ProviderInstance) : ProviderInstance :=
  if own t id p then { p with lastHealthyAt := some now, state := "ready" } else p

def markHealthy (t : TenantID) (id : String) : Method Unit := fun d =>
  if d.providers.any (own t id) then
    (.ok (), { d with providers := d.providers.map (healthy t id d.core.clock) })
  else (.error .notFound, d)

end Providers

end Ultracore.Tenancy
