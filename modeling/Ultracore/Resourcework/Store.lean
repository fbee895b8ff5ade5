-- SUMMARY: The tables of one resource and the statements on them.
import Ultracore.Core.Resource
import Ultracore.Txn.Body

/-!
# The store of one resource

File `postgres/resource.go`, as far as one resource goes: its row, its lifecycle events in
the log of its session, the queue jobs about it, and the object that its provider holds for
it. The provider is no part of the database, but a call to it takes effect at one point in
time like a statement does, and like a commit it may take effect without the caller learning
of it.
-/

namespace Ultracore.Resourcework

open Txn

/-! ## Tables -/

/-- The queue jobs about a resource. -/
inductive Job where
  | provision
  | restart
  | reconcile
  | terminate
deriving DecidableEq

/-- A job that no worker has acknowledged yet. -/
structure QueuedJob where
  id : Nat
  job : Job
  scheduledAt : Time
deriving DecidableEq

inductive EventKind where
  | resourceRequested
  | resourceProvisioning
  | resourceReady
  | resourceFailed
  | resourceSuspended
  | resourceTerminating
  | resourceTerminated
deriving DecidableEq

structure ResourceEventPayload where
  resourceID : ResourceID
  kind : String
  name : String
  endpoint : String
  message : String
  epoch : Nat
deriving DecidableEq

structure Event where
  kind : EventKind
  payload : ResourceEventPayload
deriving DecidableEq

/-- What a provider holds for a resource. It accepts the token it was created with. -/
structure ProviderObject where
  handle : Json
  token : String

structure Db where
  row : Option Resource := none
  events : List Event := []
  jobs : List QueuedJob := []
  nextJob : Nat := 0
  object : Option ProviderObject := none
  clock : Time := 0

/-- What is locked: the resource, and its session by whoever appends an event. -/
inductive Row where
  | resource
  | session
deriving DecidableEq

inductive Write where
  | setRow (r : Resource)
  | insertEvent (e : Event)
  | insertJob (job : Job) (scheduledAt : Time)
  | deleteJob (id : Nat)
  | createObject (o : ProviderObject)
  | removeObject

def Write.rows : Write → List Row
  | .setRow _ => [.resource]
  | .insertEvent _ => [.session]
  | _ => []

def Db.apply (d : Db) : Write → Db
  | .setRow r => { d with row := some r }
  | .insertEvent e => { d with events := d.events ++ [e] }
  | .insertJob job scheduledAt =>
    { d with jobs := d.jobs ++ [⟨d.nextJob, job, scheduledAt⟩], nextJob := d.nextJob + 1 }
  | .deleteJob id => { d with jobs := d.jobs.filter fun q => q.id != id }
  | .createObject o => { d with object := some o }
  | .removeObject => { d with object := none }

instance : Tables Db Write := ⟨Db.apply⟩

/-- The lock of a row protects its contents. Nothing protects the provider's object. -/
def regions : Regions Db Row Write where
  Content
    | .resource => Option Resource
    | .session => List Event
  content
    | .resource => Db.row
    | .session => Db.events
  congr := by
    intro r d d' w h
    cases r <;> cases w <;> simp_all [Tables.apply, Db.apply]

theorem regions_frames : regions.Frames Write.rows := by
  intro d w r hr
  cases r <;> cases w <;> simp_all [Write.rows, regions, Tables.apply, Db.apply]

/-- What a statement sees. -/
abbrev sees : List Row → Db → Db → Prop := Program.Sees regions

/-! ## Statements -/

inductive Err where
  | notFound
  | alreadyExists
  | refused (message : String)
  | broken
deriving DecidableEq

abbrev Tx (α : Type) : Type := Body Db Write.rows Err α

/-- `time.Now()`: one clock for all workers and the database. -/
def now : Tx Time := .query Db.clock

namespace Resources

/-- The row that `Create` inserts; every column it does not name has its default. -/
def fresh (id : ResourceID) (kind : String) (spec : Json) (token : String) (t : Time) : Resource :=
  { id, kind := if kind = "" then resourceKindDevEnv else kind, spec, token, updatedAt := t }

def create (id : ResourceID) (kind : String) (spec : Json) (token : String) : Tx Unit :=
  .update [.resource] (fun d => match d.row with
    | some _ => (.error .alreadyExists, [])
    | none => (.ok (), [.setRow (fresh id kind spec token d.clock)])) <| by
      intro d
      cases d.row <;> simp [Write.rows]

def get : Tx Resource :=
  .update [] (fun d => match d.row with
    | some r => (.ok r, [])
    | none => (.error .notFound, [])) <| by
      intro d
      cases d.row <;> simp

def getForUpdate : Tx Resource :=
  .update [.resource] (fun d => match d.row with
    | some r => (.ok r, [])
    | none => (.error .notFound, [])) <| by
      intro d
      cases d.row <;> simp

/-- An `UPDATE` of the row at the time it executes. -/
def update (f : Time → Resource → Resource) : Tx Unit :=
  .update [.resource] (fun d => match d.row with
    | some r => (.ok (), [.setRow (f d.clock r)])
    | none => (.error .notFound, [])) <| by
      intro d
      cases d.row <;> simp [Write.rows]

def provisioning (t : Time) (r : Resource) : Resource :=
  { r with state := .provisioning, updatedAt := t }

def withHandle (handle : Json) (t : Time) (r : Resource) : Resource :=
  { r with handle, updatedAt := t }

def ready (handle : Json) (endpoint : String) (t : Time) (r : Resource) : Resource :=
  { r with state := .ready, handle, endpoint, readyAt := r.readyAt.or (some t),
           failureMessage := "", updatedAt := t }

def failed (message : String) (t : Time) (r : Resource) : Resource :=
  { r with state := .failed, failureMessage := message, terminatedAt := some t, updatedAt := t }

/-- Only a ready or already suspended resource can be suspended; anything else is left as
    it is. -/
def suspended (message : String) (t : Time) (r : Resource) : Resource :=
  if r.state = .ready ∨ r.state = .suspended then
    { r with state := .suspended, failureMessage := message, updatedAt := t }
  else r

def terminating (t : Time) (r : Resource) : Resource :=
  { r with state := .terminating, updatedAt := t }

def terminated (t : Time) (r : Resource) : Resource :=
  { r with state := .terminated, terminatedAt := some t, updatedAt := t }

def rotated (token : String) (t : Time) (r : Resource) : Resource :=
  { r with token, epoch := r.epoch + 1, updatedAt := t }

def setProvisioning : Tx Unit := update provisioning
def setHandle (handle : Json) : Tx Unit := update (withHandle handle)
def setReady (handle : Json) (endpoint : String) : Tx Unit := update (ready handle endpoint)
def setFailed (message : String) : Tx Unit := update (failed message)
def setSuspended (message : String) : Tx Unit := update (suspended message)
def setTerminating : Tx Unit := update terminating
def setTerminated : Tx Unit := update terminated
def rotateToken (token : String) : Tx Unit := update (rotated token)

end Resources

/-- `Append`: the session stays locked until the transaction ends. -/
def appendEvent (kind : EventKind) (payload : ResourceEventPayload) : Tx Unit :=
  .update [.session] (fun _ => (.ok (), [.insertEvent ⟨kind, payload⟩])) (by simp [Write.rows])

/-- `EnqueueInTx` -/
def enqueue (job : Job) (scheduledAt : Time) : Tx Unit :=
  .update [] (fun _ => (.ok (), [.insertJob job scheduledAt])) (by simp [Write.rows])

/-- The queue forgets a job whose worker returned without an error. -/
def ack (id : Nat) : Tx Unit :=
  .update [] (fun _ => (.ok (), [.deleteJob id])) (by simp [Write.rows])

namespace Provider

/-- The object a provider that can enumerate its objects finds. -/
def adopt : Tx (Option ProviderObject) := .query Db.object

/-- `Provision` and `Restart` of the provider. -/
def create (o : ProviderObject) : Tx Unit :=
  .update [] (fun _ => (.ok (), [.createObject o])) (by simp [Write.rows])

/-- `Terminate` of the provider. -/
def terminate : Tx Unit := .update [] (fun _ => (.ok (), [.removeObject])) (by simp [Write.rows])

end Provider

/-! ## Rules -/

section
variable {d : Db} {s : Local Row Write}
variable {Q : Unit → Local Row Write → Prop}

/-- Who holds the row's lock sees the row as it is at commit. -/
theorem sees.row {d' : Db} {ls : List Row} (h : sees ls d d') (hr : Row.resource ∈ ls)
    (ws : List Write) : (applyAll d' ws).row = (applyAll d ws).row := h.1.content hr ws

theorem yields_now {Q : Time → Local Row Write → Prop} (h : ∀ t, Q t s) :
    now.Yields sees d s Q := Body.yields_query.mpr fun _ _ => h _

theorem yields_get {Q : Resource → Local Row Write → Prop} (h : ∀ r, Q r s) :
    Resources.get.Yields sees d s Q := by
  refine Body.yields_update.mpr fun d' _ r hr => ?_
  cases hrow : (applyAll d' s.writes).row with
  | none => simp [hrow] at hr
  | some => simpa [hrow] using h r

theorem yields_create {id : ResourceID} {kind : String} {spec : Json} {token : String}
    (h : ∀ t, (applyAll d s.writes).row = none →
      Q () (s.after [.resource] [.setRow (Resources.fresh id kind spec token t)])) :
    (Resources.create id kind spec token).Yields sees d s Q := by
  refine Body.yields_update.mpr fun d' hA _ hr => ?_
  have hrow := sees.row hA (by simp) s.writes
  cases hd : (applyAll d' s.writes).row with
  | none => simpa [hd] using h _ (hrow ▸ hd)
  | some => simp [hd] at hr

theorem yields_getForUpdate {Q : Resource → Local Row Write → Prop}
    (h : ∀ r, (applyAll d s.writes).row = some r → Q r (s.after [.resource] [])) :
    Resources.getForUpdate.Yields sees d s Q := by
  refine Body.yields_update.mpr fun d' hA r hr => ?_
  have hrow := sees.row hA (by simp) s.writes
  cases hd : (applyAll d' s.writes).row with
  | none => simp [hd] at hr
  | some r' =>
    obtain rfl : r' = r := by simpa [hd] using hr
    simpa [hd] using h r' (hrow ▸ hd)

theorem yields_rowUpdate {f : Time → Resource → Resource}
    (h : ∀ r t, (applyAll d s.writes).row = some r → Q () (s.after [.resource] [.setRow (f t r)])) :
    (Resources.update f).Yields sees d s Q := by
  refine Body.yields_update.mpr fun d' hA _ hr => ?_
  have hrow := sees.row hA (by simp) s.writes
  cases hd : (applyAll d' s.writes).row with
  | none => simp [hd] at hr
  | some r => simpa [hd] using h r _ (hrow ▸ hd)

theorem yields_rowUpdate_of {f : Time → Resource → Resource} {r : Resource}
    (hr : (applyAll d s.writes).row = some r)
    (h : ∀ t, Q () (s.after [.resource] [.setRow (f t r)])) :
    (Resources.update f).Yields sees d s Q := by
  refine yields_rowUpdate fun r' t hr' => ?_
  cases hr.symm.trans hr'
  exact h t

theorem yields_appendEvent {kind : EventKind} {payload : ResourceEventPayload}
    (h : Q () (s.after [.session] [.insertEvent ⟨kind, payload⟩])) :
    (appendEvent kind payload).Yields sees d s Q := Body.yields_update.mpr fun _ _ _ _ => h

theorem yields_enqueue {job : Job} {t : Time}
    (h : Q () (s.after [] [.insertJob job t])) : (enqueue job t).Yields sees d s Q :=
  Body.yields_update.mpr fun _ _ _ _ => h

theorem yields_ack {n : Nat} (h : Q () (s.after [] [.deleteJob n])) : (ack n).Yields sees d s Q :=
  Body.yields_update.mpr fun _ _ _ _ => h

theorem yields_adopt {Q : Option ProviderObject → Local Row Write → Prop} (h : ∀ o, Q o s) :
    Provider.adopt.Yields sees d s Q := Body.yields_query.mpr fun _ _ => h _

theorem yields_providerCreate {o : ProviderObject}
    (h : Q () (s.after [] [.createObject o])) : (Provider.create o).Yields sees d s Q :=
  Body.yields_update.mpr fun _ _ _ _ => h

theorem yields_providerTerminate
    (h : Q () (s.after [] [.removeObject])) : Provider.terminate.Yields sees d s Q :=
  Body.yields_update.mpr fun _ _ _ _ => h

end

end Ultracore.Resourcework
