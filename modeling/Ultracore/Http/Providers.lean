-- SUMMARY: Removing a provider: which histories of the tables let the request go through.
import Ultracore.Http.Tenants
import Ultracore.Tenancy.Isolation

/-!
# Removing providers

`DeregisterProvider` of `http/org_handler.go`, over the tables of all tenants. The request looks
for active resources, and so does the statement that deletes. The rows of finished resources stay
in their table for good and refer to their provider, so what decides is the whole history of the
provider and not the present states of its resources.
-/

namespace Ultracore.Http.Providers

open Tenancy

/-! ## The request -/

inductive Code where
  | unauthenticated
  | permissionDenied
  | notFound
  | alreadyExists
  | failedPrecondition
  | internal
deriving DecidableEq

structure ConnectError where
  code : Code
  message : String
deriving DecidableEq

def errUnauthenticated : ConnectError := ⟨.unauthenticated, "missing or invalid credentials"⟩

def errNotFound : ConnectError := ⟨.notFound, "not found"⟩

/-- `mapStoreErr`; none of the modelled methods returns `ErrPermissionDenied`. -/
def mapStoreErr : Ultracore.Err → ConnectError
  | .notFound => errNotFound
  | .alreadyExists => ⟨.alreadyExists, "already exists"⟩
  | _ => ⟨.internal, "internal error"⟩

/-- The key that a request came with. -/
structure Identity where
  tenantID : TenantID
  scope : KeyScope

def requireTenant (caller : Option Identity) (t : TenantID) : Except ConnectError Identity :=
  match caller with
  | none => .error errUnauthenticated
  | some a => if a.tenantID ≠ t then .error errNotFound else .ok a

def requireAdmin (caller : Option Identity) (t : TenantID) : Except ConnectError Unit :=
  match requireTenant caller t with
  | .error e => .error e
  | .ok a => if a.scope ≠ .admin then .error ⟨.permissionDenied, "requires admin key"⟩ else .ok ()

def deregisterProvider (caller : Option Identity) (t : TenantID) (providerID : String) (d : Database) :
    Except ConnectError Unit × Database :=
  match requireAdmin caller t with
  | .error e => (.error e, d)
  | .ok () =>
    match Resources.listActive t d with
    | (.error e, d) => (.error (mapStoreErr e), d)
    | (.ok active, d) =>
      let hosted := active.countP fun env => env.providerInstanceID = providerID
      if hosted > 0 then
        (.error ⟨.failedPrecondition, "this provider still hosts " ++ toString hosted ++
          " resource(s); terminate them before removing it"⟩, d)
      else
        match Providers.delete t providerID d with
        | (.error e, d) => (.error (mapStoreErr e), d)
        | (.ok (), d) => (.ok (), d)

/-! ## Histories -/

/-- The provider that an operation asks for a resource. -/
def asks {α : Type} : Op α → Option String
  | .createResource r => some r.providerInstanceID
  | _ => none

/-- The providers that resources were requested from, each time with success. -/
def requests {α : Type} (t : TenantID) (op : Op α) (d : Database) : List String :=
  match (op.exec t d).1 with
  | .ok _ => (asks op).toList
  | .error _ => []

/-- The tables, and the providers that resources were requested from so far: operations of the
    scopes of tenants and requests to remove providers, one after the other. -/
inductive History : List String → Database → Prop where
  | start (tenants : List TenantID) : History [] { tenants }
  | op {asked : List String} {d : Database} {α : Type} (t : TenantID) (op : Op α) :
      History asked d → History (asked ++ requests t op d) (op.exec t d).2
  | deregister {asked : List String} {d : Database} (caller : Option Identity) (t : TenantID)
      (providerID : String) :
      History asked d → History asked (deregisterProvider caller t providerID d).2

/-! ## Rows of resources stay -/

/-- The providers that rows refer to. -/
def referred (d : Database) : List String := d.resources.map fun r => r.providerInstanceID

section
variable {t : TenantID} {d : Database}

theorem referred_update {id : ResourceID} {f : Time → Resource → Resource} :
    referred (Resources.update t id f d).2 = referred d := by
  unfold Resources.update
  split
  · simp only [referred, List.map_map]
    refine List.map_congr_left fun r _ => ?_
    simp only [Function.comp, Resources.changed]
    split
    · rfl
    · rfl
  · rfl

theorem referred_create {r : ResourceRow} :
    referred (Resources.create t r d).2 = referred d ++ requests t (.createResource r) d := by
  simp only [requests, Op.exec, asks]
  unfold Resources.create
  split
  · simp
  split
  · simp
  split
  · simp
  · simp [referred, Resources.inserted]

theorem resources_updateSession {id : SessionID} {f : Session → Session} :
    (Sessions.update t id f d).2.resources = d.resources := by
  unfold Sessions.update
  split
  · rfl
  · rfl

theorem resources_createSession {id : SessionID} {title : String} {labels : List (String × String)} :
    (Tenancy.Sessions.create t id title labels d).2.resources = d.resources := by
  unfold Tenancy.Sessions.create
  split
  · rfl
  split
  · rfl
  split
  · rfl
  · rfl

theorem resources_listSessions {selectors : List LabelSelector} :
    (Sessions.list t selectors d).2.resources = d.resources := by
  unfold Sessions.list
  split
  · rfl
  · rfl
  · rfl

theorem resources_updateLabels {id : SessionID} {labels : List (String × String)} :
    (Sessions.updateLabels t id labels d).2.resources = d.resources := by
  unfold Sessions.updateLabels
  split
  · rfl
  · exact resources_updateSession

theorem resources_createProvider {p : ProviderInstance} :
    (Providers.create t p d).2.resources = d.resources := by
  unfold Providers.create
  split
  · rfl
  split
  · rfl
  · rfl

theorem resources_deleteProvider {id : String} :
    (Providers.delete t id d).2.resources = d.resources := by
  unfold Providers.delete
  split
  · rfl
  split
  · rfl
  · rfl

theorem resources_markHealthy {id : String} :
    (Providers.markHealthy t id d).2.resources = d.resources := by
  unfold Providers.markHealthy
  split
  · rfl
  · rfl

theorem requests_of_asks_none {α : Type} {op : Op α} (h : asks op = none) : requests t op d = [] := by
  unfold requests
  split
  · rw [h, Option.toList_none]
  · rfl

theorem referred_congr {d' : Database} (h : d'.resources = d.resources) : referred d' = referred d := by
  rw [referred, h, referred]

theorem referred_unasked {α : Type} {op : Op α} (hasks : asks op = none)
    (h : (op.exec t d).2.resources = d.resources) :
    referred (op.exec t d).2 = referred d ++ requests t op d := by
  rw [requests_of_asks_none hasks, List.append_nil]
  exact referred_congr h

/-- An operation adds to the references only what it asked for. -/
theorem referred_exec {α : Type} (op : Op α) :
    referred (op.exec t d).2 = referred d ++ requests t op d := by
  cases op with
  | createResource => exact referred_create
  | setProvisioning | setHandle | setReady | setFailed | setSuspended | setTerminating
  | setTerminated | rotateToken =>
    rw [requests_of_asks_none rfl, List.append_nil]
    exact referred_update
  | createSession => exact referred_unasked rfl resources_createSession
  | listSessions => exact referred_unasked rfl resources_listSessions
  | updateLabels => exact referred_unasked rfl resources_updateLabels
  | archive => exact referred_unasked rfl resources_updateSession
  | createProvider => exact referred_unasked rfl resources_createProvider
  | deleteProvider => exact referred_unasked rfl resources_deleteProvider
  | markHealthy => exact referred_unasked rfl resources_markHealthy
  | _ => exact referred_unasked rfl rfl

theorem resources_deregisterProvider {caller : Option Identity} {providerID : String} :
    (deregisterProvider caller t providerID d).2.resources = d.resources := by
  unfold deregisterProvider
  split
  · rfl
  · simp only [Resources.listActive]
    split
    · rfl
    · have hdelete := @resources_deleteProvider t d providerID
      split
      · rename_i heq
        rw [heq] at hdelete
        exact hdelete
      · rename_i heq
        rw [heq] at hdelete
        exact hdelete

/-- No row of a resource is ever deleted: the references are the requests. -/
theorem History.referred {asked : List String} (h : History asked d) : referred d = asked := by
  induction h with
  | start => rfl
  | op t op _ ih => rw [referred_exec, ih]
  | deregister caller t providerID _ ih => rw [referred_congr resources_deregisterProvider, ih]

/-! ## Removal -/

/-- The provider is one of the tenant's. -/
def registered (t : TenantID) (providerID : String) (d : Database) : Bool :=
  d.providers.any (Providers.own t providerID)

/-- All resources of the provider are terminated or failed. -/
def AllFinished (providerID : String) (d : Database) : Prop :=
  ∀ r ∈ d.resources, r.providerInstanceID = providerID → r.state.terminal = true

/-- The request succeeds and the provider is gone. -/
structure Removed (caller : Option Identity) (t : TenantID) (providerID : String) (d : Database) :
    Prop where
  succeeds : (deregisterProvider caller t providerID d).1 = .ok ()
  gone : registered t providerID (deregisterProvider caller t providerID d).2 = false

/-- For an admin and finished resources, only the statement that deletes decides. -/
theorem deregisterProvider_eq {caller : Identity} {providerID : String} (htenant : caller.tenantID = t)
    (hscope : caller.scope = .admin) (hfinished : AllFinished providerID d) :
    deregisterProvider (some caller) t providerID d =
      (match Providers.delete t providerID d with
        | (.error e, d) => (.error (mapStoreErr e), d)
        | (.ok (), d) => (.ok (), d)) := by
  have hadmin : requireAdmin (some caller) t = .ok () := by
    simp [requireAdmin, requireTenant, htenant, hscope]
  have hhosted : (d.resources.filter fun r => r.tenantID = t ∧ r.state.terminal = false).countP
      (fun env => env.providerInstanceID = providerID) = 0 := by
    refine List.countP_eq_zero.mpr fun r hr hprovider => ?_
    obtain ⟨hmem, hactive⟩ := List.mem_filter.mp hr
    have hterminal := hfinished r hmem (of_decide_eq_true hprovider)
    simp [hterminal] at hactive
  simp only [deregisterProvider, hadmin, Resources.listActive, hhosted]
  rfl

/-- A provider can be removed if and only if no resource was ever requested from it. -/
theorem provider_removed {asked : List String} {caller : Identity} {providerID : String}
    (h : History asked d) (htenant : caller.tenantID = t) (hscope : caller.scope = .admin)
    (hregistered : registered t providerID d = true) (hfinished : AllFinished providerID d) :
    Removed (some caller) t providerID d ↔ providerID ∉ asked := by
  have hactive : (d.resources.any fun r => r.providerInstanceID = providerID ∧
      r.state.terminal = false) = false := by
    refine List.any_eq_false.mpr fun r hr hactive => ?_
    obtain ⟨hprovider, hterminal⟩ := of_decide_eq_true hactive
    rw [hfinished r hr hprovider] at hterminal
    cases hterminal
  have hdelete : Providers.delete t providerID d =
      if d.resources.any fun r => r.providerInstanceID = providerID then (.error .sql, d)
      else (.ok (), { d with providers := d.providers.filter fun p => !Providers.own t providerID p }) := by
    rw [registered] at hregistered
    simp only [Providers.delete, hregistered, hactive]
    rfl
  have heq := deregisterProvider_eq htenant hscope hfinished
  rw [hdelete] at heq
  rw [← h.referred]
  constructor
  · intro hremoved hasked
    obtain ⟨r, hr, hprovider⟩ := List.mem_map.mp hasked
    have hrefers : (d.resources.any fun r => r.providerInstanceID = providerID) = true :=
      List.any_eq_true.mpr ⟨r, hr, decide_eq_true hprovider⟩
    have hsucceeds := hremoved.succeeds
    rw [heq, if_pos hrefers] at hsucceeds
    cases hsucceeds
  · intro hasked
    have hrefers : ¬(d.resources.any fun r => r.providerInstanceID = providerID) = true := by
      intro hany
      obtain ⟨r, hr, hprovider⟩ := List.any_eq_true.mp hany
      exact hasked (List.mem_map.mpr ⟨r, hr, of_decide_eq_true hprovider⟩)
    rw [if_neg hrefers] at heq
    refine ⟨by rw [heq], ?_⟩
    rw [heq, registered]
    exact List.any_eq_false.mpr fun p hp => by simpa using (List.mem_filter.mp hp).2

end

/-! ## Two histories -/

/-- Operations of one tenant that return nothing, one after the other. -/
def runs (t : TenantID) (ops : List (Op Unit)) (d : Database) : Database :=
  ops.foldl (fun d op => (op.exec t d).2) d

theorem History.runs {asked : List String} {d : Database} (t : TenantID) (ops : List (Op Unit))
    (h : History asked d) : History (Providers.referred (runs t ops d)) (runs t ops d) := by
  induction ops generalizing asked d with
  | nil =>
    rw [← h.referred] at h
    exact h
  | cons op ops ih => exact ih (.op t op h)

/-- A session and a provider of a tenant. -/
def sampleStart : List (Op Unit) :=
  [.createSession "s" "" [], .createProvider
    { id := "p", tenantID := "t", kind := "byo_nomad", name := "default", state := "ready", capabilities := .obj [] }]

/-- A resource is requested from the provider and terminated. -/
def sampleUse : List (Op Unit) :=
  [.createResource { id := "r", token := "", tenantID := "t", sessionID := "s", providerInstanceID := "p" },
    .setTerminating "r", .setTerminated "r"]

def sampleAdmin : Identity := ⟨"t", .admin⟩

/-- A provider that was never used. -/
theorem provider_removed_unused :
    Removed (some sampleAdmin) "t" "p" (runs "t" sampleStart { tenants := ["t"] }) := by
  refine (provider_removed (History.runs "t" sampleStart (.start ["t"])) rfl rfl (by decide) ?_).mpr ?_
  · exact List.forall_mem_nil _
  · decide

/-- The only resource of a provider is terminated, and the provider cannot be removed. -/
theorem provider_not_removed :
    ∃ d, History ["p"] d ∧ registered "t" "p" d = true ∧ AllFinished "p" d ∧
      (deregisterProvider (some sampleAdmin) "t" "p" d).1 = .error ⟨.internal, "internal error"⟩ := by
  refine ⟨runs "t" (sampleStart ++ sampleUse) { tenants := ["t"] }, ?_, by decide, ?_, by decide⟩
  · exact History.runs "t" (sampleStart ++ sampleUse) (.start ["t"])
  · intro r hr _
    cases List.mem_singleton.mp hr
    rfl

end Ultracore.Http.Providers
