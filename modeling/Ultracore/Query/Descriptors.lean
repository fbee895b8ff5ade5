-- SUMMARY: The language of admin searches, and the registered collections.
import Mathlib.Data.List.Nodup

/-!
# Collections

Files `admin/query/types.go` and `admin/query/descriptors.go`. Descriptions, and whether a
collection has details or blobs, play no part in a search.
-/

namespace Ultracore.Query

/-- `FieldType`. A field that does not exist has no type. -/
inductive FieldType where
  | unspecified
  | string
  | uuid
  | int
  | bool
  | timestamp
  | json
deriving DecidableEq

/-- `Op`. An operator of any other name is refused for every field. -/
inductive Op where
  | eq
  | ne
  | lt
  | lte
  | gt
  | gte
  | oneOf
  | notIn
  | contains
  | startsWith
  | isNull
  | isNotNull
deriving DecidableEq

/-- The operator as the request spells it. -/
def Op.text : Op → String
  | .eq => "eq"
  | .ne => "ne"
  | .lt => "lt"
  | .lte => "lte"
  | .gt => "gt"
  | .gte => "gte"
  | .oneOf => "in"
  | .notIn => "not_in"
  | .contains => "contains"
  | .startsWith => "prefix"
  | .isNull => "is_null"
  | .isNotNull => "is_not_null"

structure Field where
  name : String := ""
  column : String := ""
  type : FieldType := .unspecified
  filterOps : List Op := []
  sortable : Bool := false
  searchable : Bool := false
  pk : Bool := false

/-- `Sort` -/
structure SortKey where
  field : String
  descending : Bool
deriving DecidableEq

/-- A Go slice, which may be nil. -/
abbrev Slice (α : Type) := Option (List α)

/-- The elements of a slice. -/
def Slice.elems {α : Type} (s : Slice α) : List α := s.getD []

structure Filter where
  field : String
  op : Op
  value : String
  values : Slice String
deriving DecidableEq

structure Page where
  limit : Nat
  cursor : String

structure Request where
  query : String
  filters : Slice Filter
  sorts : List SortKey
  page : Page

structure PageInfo where
  nextCursor : String
  hasMore : Bool

/-- `Collection`. No registered collection has arguments in its select list or a search expression
    of its own. -/
structure Collection where
  name : String
  fromClause : String
  selectList : String
  selectArgs : List String := []
  fields : List Field
  defaultSorts : List SortKey
  searchExpr : String := ""

def defaultLimit : Nat := 50
def maxLimit : Nat := 250
def maxFilters : Nat := 16
def maxSorts : Nat := 4
def maxQueryLength : Nat := 256
def maxFilterValues : Nat := 64

/-! ## The registry -/

def stdStringOps : List Op :=
  [.eq, .ne, .oneOf, .notIn, .contains, .startsWith, .isNull, .isNotNull]

def stdUUIDOps : List Op := [.eq, .ne, .oneOf, .notIn, .isNull, .isNotNull]

def stdIntOps : List Op := [.eq, .ne, .lt, .lte, .gt, .gte, .oneOf, .notIn]

def stdTSOps : List Op := [.eq, .ne, .lt, .lte, .gt, .gte, .isNull, .isNotNull]

def stdBoolOps : List Op := [.eq, .ne]

def tenantsCollection : Collection where
  name := "tenants"
  fromClause :=
    "tenants t" ++
    "\n\t\t\tLEFT JOIN LATERAL (SELECT count(*)::bigint AS c FROM sessions s WHERE " ++
    "s.tenant_id = t.id) sc ON true" ++
    "\n\t\t\tLEFT JOIN LATERAL (SELECT count(*)::bigint AS c FROM agent_runs r WHERE " ++
    "r.tenant_id = t.id) rc ON true" ++
    "\n\t\t\tLEFT JOIN LATERAL (SELECT count(*)::bigint AS c FROM api_keys k WHERE " ++
    "k.tenant_id = t.id) kc ON true"
  selectList :=
    "t.id::text, t.name, t.created_at, COALESCE(sc.c,0), COALESCE(rc.c,0), " ++
    "COALESCE(kc.c,0)"
  fields := [
    { name := "id", column := "t.id", type := .uuid, filterOps := stdUUIDOps,
      sortable := true, pk := true },
    { name := "name", column := "t.name", type := .string, filterOps := stdStringOps,
      sortable := true, searchable := true },
    { name := "created_at", column := "t.created_at", type := .timestamp, filterOps := stdTSOps,
      sortable := true }]
  defaultSorts := [⟨"created_at", true⟩]

def apiKeysCollection : Collection where
  name := "api_keys"
  fromClause := "api_keys k"
  selectList :=
    "k.id::text, k.tenant_id::text, k.name, k.scope, k.prefix, k.created_at, " ++
    "k.revoked_at," ++
    "\n\t\t\tencode(substring(k.key_hash from 1 for 4), 'hex'), (k.key_enc IS NOT NULL AND " ++
    "length(k.key_enc) > 0)"
  fields := [
    { name := "id", column := "k.id", type := .uuid, filterOps := stdUUIDOps,
      sortable := true, pk := true },
    { name := "tenant_id", column := "k.tenant_id", type := .uuid, filterOps := stdUUIDOps,
      sortable := true },
    { name := "name", column := "k.name", type := .string, filterOps := stdStringOps,
      sortable := true, searchable := true },
    { name := "scope", column := "k.scope", type := .string, filterOps := stdStringOps,
      sortable := true },
    { name := "prefix", column := "k.prefix", type := .string, filterOps := stdStringOps,
      sortable := true, searchable := true },
    { name := "created_at", column := "k.created_at", type := .timestamp, filterOps := stdTSOps,
      sortable := true },
    { name := "revoked_at", column := "k.revoked_at", type := .timestamp, filterOps := stdTSOps,
      sortable := true }]
  defaultSorts := [⟨"created_at", true⟩]

def sessionsCollection : Collection where
  name := "sessions"
  fromClause :=
    "sessions s" ++
    "\n\t\t\tLEFT JOIN LATERAL (SELECT count(*)::bigint AS c FROM session_events e WHERE " ++
    "e.session_id = s.id) ec ON true" ++
    "\n\t\t\tLEFT JOIN LATERAL (SELECT count(*)::bigint AS c FROM agent_runs r WHERE " ++
    "r.session_id = s.id) rc ON true" ++
    "\n\t\t\tLEFT JOIN LATERAL (SELECT count(*)::bigint AS c FROM resources res WHERE " ++
    "res.session_id = s.id) rsc ON true"
  selectList :=
    "s.id::text, s.tenant_id::text, s.title, s.labels, s.last_seq, s.created_at, " ++
    "s.archived_at," ++
    "\n\t\t\tCOALESCE(ec.c,0), COALESCE(rc.c,0), COALESCE(rsc.c,0)"
  fields := [
    { name := "id", column := "s.id", type := .uuid, filterOps := stdUUIDOps,
      sortable := true, pk := true },
    { name := "tenant_id", column := "s.tenant_id", type := .uuid, filterOps := stdUUIDOps,
      sortable := true },
    { name := "title", column := "s.title", type := .string, filterOps := stdStringOps,
      sortable := true, searchable := true },
    { name := "last_seq", column := "s.last_seq", type := .int, filterOps := stdIntOps,
      sortable := true },
    { name := "created_at", column := "s.created_at", type := .timestamp, filterOps := stdTSOps,
      sortable := true },
    { name := "archived_at", column := "s.archived_at", type := .timestamp, filterOps := stdTSOps,
      sortable := true }]
  defaultSorts := [⟨"created_at", true⟩]

def eventsCollection : Collection where
  name := "events"
  fromClause :=
    "session_events e" ++
    "\n\t\t\tJOIN sessions s ON s.id = e.session_id"
  selectList :=
    "e.session_id::text, s.tenant_id::text, e.seq, e.ts, e.actor_type, e.actor_id, " ++
    "e.actor_display, e.kind," ++
    "\n\t\t\toctet_length(e.payload::text)::int," ++
    "\n\t\t\tleft(e.payload::text, 256)"
  fields := [
    { name := "session_id", column := "e.session_id", type := .uuid, filterOps := stdUUIDOps,
      sortable := true, pk := true },
    { name := "seq", column := "e.seq", type := .int, filterOps := stdIntOps,
      sortable := true, pk := true },
    { name := "tenant_id", column := "s.tenant_id", type := .uuid, filterOps := stdUUIDOps,
      sortable := true },
    { name := "ts", column := "e.ts", type := .timestamp, filterOps := stdTSOps,
      sortable := true },
    { name := "kind", column := "e.kind", type := .string, filterOps := stdStringOps,
      sortable := true, searchable := true },
    { name := "actor_kind", column := "e.actor_type", type := .string, filterOps := stdStringOps,
      sortable := true },
    { name := "actor_id", column := "e.actor_id", type := .string, filterOps := stdStringOps,
      sortable := true, searchable := true }]
  defaultSorts := [⟨"ts", true⟩]

def runsCollection : Collection where
  name := "runs"
  fromClause :=
    "agent_runs r" ++
    "\n\t\t\tLEFT JOIN LATERAL (SELECT count(*)::int AS c FROM agent_run_steps st WHERE " ++
    "st.agent_run_id = r.id) sc ON true"
  selectList :=
    "r.id::text, r.session_id::text, r.tenant_id::text, r.state, r.loop_kind, " ++
    "r.loop_version," ++
    "\n\t\t\tCOALESCE(r.parent_run_id::text,''), COALESCE(r.spawn_key,''), " ++
    "COALESCE(r.cohort_id::text,''), COALESCE(r.cohort_ordinal,0)," ++
    "\n\t\t\tr.failure_reason, COALESCE(r.actor_kind,''), COALESCE(r.actor_id,''), " ++
    "COALESCE(r.actor_display,'')," ++
    "\n\t\t\tr.created_at, r.updated_at, r.cancel_requested_at, COALESCE(sc.c,0)," ++
    "\n\t\t\toctet_length(r.prompt)::int, octet_length(r.history::text)::int, (r.result IS " ++
    "NOT NULL)"
  fields := [
    { name := "id", column := "r.id", type := .uuid, filterOps := stdUUIDOps,
      sortable := true, pk := true },
    { name := "session_id", column := "r.session_id", type := .uuid, filterOps := stdUUIDOps,
      sortable := true },
    { name := "tenant_id", column := "r.tenant_id", type := .uuid, filterOps := stdUUIDOps,
      sortable := true },
    { name := "state", column := "r.state", type := .string, filterOps := stdStringOps,
      sortable := true },
    { name := "loop_kind", column := "r.loop_kind", type := .string, filterOps := stdStringOps,
      sortable := true, searchable := true },
    { name := "parent_run_id", column := "r.parent_run_id", type := .uuid, filterOps := stdUUIDOps,
      sortable := true },
    { name := "cohort_id", column := "r.cohort_id", type := .uuid, filterOps := stdUUIDOps,
      sortable := true },
    { name := "spawn_key", column := "r.spawn_key", type := .string, filterOps := stdStringOps,
      sortable := true, searchable := true },
    { name := "created_at", column := "r.created_at", type := .timestamp, filterOps := stdTSOps,
      sortable := true },
    { name := "updated_at", column := "r.updated_at", type := .timestamp, filterOps := stdTSOps,
      sortable := true }]
  defaultSorts := [⟨"created_at", true⟩]

def runStepsCollection : Collection where
  name := "run_steps"
  fromClause :=
    "agent_run_steps st" ++
    "\n\t\t\tJOIN agent_runs r ON r.id = st.agent_run_id"
  selectList :=
    "st.agent_run_id::text, r.tenant_id::text, r.session_id::text, st.step_index, " ++
    "st.attempt," ++
    "\n\t\t\tst.tokens_in, st.tokens_out, st.finish_reason, st.created_at"
  fields := [
    { name := "run_id", column := "st.agent_run_id", type := .uuid, filterOps := stdUUIDOps,
      sortable := true, pk := true },
    { name := "step_index", column := "st.step_index", type := .int, filterOps := stdIntOps,
      sortable := true, pk := true },
    { name := "tenant_id", column := "r.tenant_id", type := .uuid, filterOps := stdUUIDOps,
      sortable := true },
    { name := "session_id", column := "r.session_id", type := .uuid, filterOps := stdUUIDOps,
      sortable := true },
    { name := "created_at", column := "st.created_at", type := .timestamp, filterOps := stdTSOps,
      sortable := true },
    { name := "finish_reason", column := "st.finish_reason", type := .string,
      filterOps := stdStringOps, sortable := true }]
  defaultSorts := [⟨"created_at", true⟩]

def resourcesCollection : Collection where
  name := "resources"
  fromClause := "resources res"
  selectList :=
    "res.id::text, res.tenant_id::text, res.session_id::text, " ++
    "res.provider_instance_id::text," ++
    "\n\t\t\tres.kind, res.state, res.endpoint, res.epoch, res.failure_message, " ++
    "COALESCE(res.created_by_run_id::text,'')," ++
    "\n\t\t\tres.created_at, res.updated_at, res.ready_at, res.terminated_at," ++
    "\n\t\t\toctet_length(res.spec::text)::int, octet_length(res.handle::text)::int," ++
    "\n\t\t\t(res.token_enc IS NOT NULL AND length(res.token_enc) > 0)"
  fields := [
    { name := "id", column := "res.id", type := .uuid, filterOps := stdUUIDOps,
      sortable := true, pk := true },
    { name := "tenant_id", column := "res.tenant_id", type := .uuid, filterOps := stdUUIDOps,
      sortable := true },
    { name := "session_id", column := "res.session_id", type := .uuid, filterOps := stdUUIDOps,
      sortable := true },
    { name := "provider_instance_id", column := "res.provider_instance_id", type := .uuid,
      filterOps := stdUUIDOps, sortable := true },
    { name := "kind", column := "res.kind", type := .string, filterOps := stdStringOps,
      sortable := true, searchable := true },
    { name := "state", column := "res.state", type := .string, filterOps := stdStringOps,
      sortable := true },
    { name := "created_at", column := "res.created_at", type := .timestamp, filterOps := stdTSOps,
      sortable := true },
    { name := "updated_at", column := "res.updated_at", type := .timestamp, filterOps := stdTSOps,
      sortable := true }]
  defaultSorts := [⟨"created_at", true⟩]

def providersCollection : Collection where
  name := "providers"
  fromClause :=
    "provider_instances p" ++
    "\n\t\t\tLEFT JOIN LATERAL (SELECT count(*)::bigint AS c FROM resources res WHERE " ++
    "res.provider_instance_id = p.id) rc ON true"
  selectList :=
    "p.id::text, p.tenant_id::text, p.kind, p.name, p.state, p.last_healthy_at, " ++
    "p.created_at," ++
    "\n\t\t\toctet_length(p.config::text)::int, octet_length(p.capabilities::text)::int, " ++
    "COALESCE(rc.c,0)"
  fields := [
    { name := "id", column := "p.id", type := .uuid, filterOps := stdUUIDOps,
      sortable := true, pk := true },
    { name := "tenant_id", column := "p.tenant_id", type := .uuid, filterOps := stdUUIDOps,
      sortable := true },
    { name := "kind", column := "p.kind", type := .string, filterOps := stdStringOps,
      sortable := true, searchable := true },
    { name := "name", column := "p.name", type := .string, filterOps := stdStringOps,
      sortable := true, searchable := true },
    { name := "state", column := "p.state", type := .string, filterOps := stdStringOps,
      sortable := true },
    { name := "created_at", column := "p.created_at", type := .timestamp, filterOps := stdTSOps,
      sortable := true },
    { name := "last_healthy_at", column := "p.last_healthy_at", type := .timestamp,
      filterOps := stdTSOps, sortable := true }]
  defaultSorts := [⟨"created_at", true⟩]

def credentialsCollection : Collection where
  name := "credentials"
  fromClause := "credentials c"
  selectList :=
    "c.tenant_id::text, c.kind, c.name, c.created_at, c.rotated_at," ++
    "\n\t\t\tlength(c.enc_payload)::int, true"
  fields := [
    { name := "tenant_id", column := "c.tenant_id", type := .uuid, filterOps := stdUUIDOps,
      sortable := true, pk := true },
    { name := "kind", column := "c.kind", type := .string, filterOps := stdStringOps,
      sortable := true, searchable := true, pk := true },
    { name := "name", column := "c.name", type := .string, filterOps := stdStringOps,
      sortable := true, searchable := true, pk := true },
    { name := "created_at", column := "c.created_at", type := .timestamp, filterOps := stdTSOps,
      sortable := true },
    { name := "rotated_at", column := "c.rotated_at", type := .timestamp, filterOps := stdTSOps,
      sortable := true }]
  defaultSorts := [⟨"created_at", true⟩]

def periodicPromptsCollection : Collection where
  name := "periodic_prompts"
  fromClause := "periodic_prompts pp"
  selectList :=
    "pp.id::text, pp.tenant_id::text, pp.session_id::text, COALESCE(pp.run_id::text,'')," ++
    "\n\t\t\tpp.schedule, pp.enabled, pp.next_at, pp.created_at," ++
    "\n\t\t\toctet_length(pp.prompt)::int, left(pp.prompt, 256)"
  fields := [
    { name := "id", column := "pp.id", type := .uuid, filterOps := stdUUIDOps,
      sortable := true, pk := true },
    { name := "tenant_id", column := "pp.tenant_id", type := .uuid, filterOps := stdUUIDOps,
      sortable := true },
    { name := "session_id", column := "pp.session_id", type := .uuid, filterOps := stdUUIDOps,
      sortable := true },
    { name := "run_id", column := "pp.run_id", type := .uuid, filterOps := stdUUIDOps,
      sortable := true },
    { name := "schedule", column := "pp.schedule", type := .string, filterOps := stdStringOps,
      sortable := true, searchable := true },
    { name := "enabled", column := "pp.enabled", type := .bool, filterOps := stdBoolOps,
      sortable := true },
    { name := "next_at", column := "pp.next_at", type := .timestamp, filterOps := stdTSOps,
      sortable := true },
    { name := "created_at", column := "pp.created_at", type := .timestamp, filterOps := stdTSOps,
      sortable := true }]
  defaultSorts := [⟨"next_at", false⟩]

def memoryCollection : Collection where
  name := "memory"
  fromClause :=
    "session_memory m" ++
    "\n\t\t\tJOIN sessions s ON s.id = m.session_id"
  selectList :=
    "m.session_id::text, s.tenant_id::text, m.key, m.updated_by_type, m.updated_by_id, " ++
    "m.updated_at," ++
    "\n\t\t\toctet_length(m.value::text)::int"
  fields := [
    { name := "session_id", column := "m.session_id", type := .uuid, filterOps := stdUUIDOps,
      sortable := true, pk := true },
    { name := "key", column := "m.key", type := .string, filterOps := stdStringOps,
      sortable := true, searchable := true, pk := true },
    { name := "tenant_id", column := "s.tenant_id", type := .uuid, filterOps := stdUUIDOps,
      sortable := true },
    { name := "updated_at", column := "m.updated_at", type := .timestamp, filterOps := stdTSOps,
      sortable := true },
    { name := "updated_by_kind", column := "m.updated_by_type", type := .string,
      filterOps := stdStringOps, sortable := true }]
  defaultSorts := [⟨"updated_at", true⟩]

def waitsCollection : Collection where
  name := "waits"
  fromClause :=
    "run_waits w" ++
    "\n\t\t\tJOIN agent_runs r ON r.id = w.parent_run_id" ++
    "\n\t\t\tLEFT JOIN LATERAL (SELECT count(*)::int AS c FROM run_wait_members m WHERE " ++
    "m.wait_id = w.id) mc ON true"
  selectList :=
    "w.id::text, w.parent_run_id::text, r.tenant_id::text, r.session_id::text, " ++
    "w.step_index, w.tool_call_id," ++
    "\n\t\t\tw.kind, w.state, w.timeout_policy, w.deadline, w.created_at, w.resolved_at, " ++
    "w.resumed_at," ++
    "\n\t\t\tCOALESCE(mc.c,0), (w.result IS NOT NULL)"
  fields := [
    { name := "id", column := "w.id", type := .uuid, filterOps := stdUUIDOps,
      sortable := true, pk := true },
    { name := "parent_run_id", column := "w.parent_run_id", type := .uuid, filterOps := stdUUIDOps,
      sortable := true },
    { name := "tenant_id", column := "r.tenant_id", type := .uuid, filterOps := stdUUIDOps,
      sortable := true },
    { name := "session_id", column := "r.session_id", type := .uuid, filterOps := stdUUIDOps,
      sortable := true },
    { name := "state", column := "w.state", type := .string, filterOps := stdStringOps,
      sortable := true },
    { name := "kind", column := "w.kind", type := .string, filterOps := stdStringOps,
      sortable := true },
    { name := "deadline", column := "w.deadline", type := .timestamp, filterOps := stdTSOps,
      sortable := true },
    { name := "created_at", column := "w.created_at", type := .timestamp, filterOps := stdTSOps,
      sortable := true }]
  defaultSorts := [⟨"created_at", true⟩]

def jobsCollection : Collection where
  name := "jobs"
  fromClause := "river_job j"
  selectList :=
    "j.id, j.kind, j.state::text, j.attempt::int, j.max_attempts::int, j.queue, " ++
    "j.priority::text," ++
    "\n\t\t\tj.created_at, j.scheduled_at, j.attempted_at, j.finalized_at," ++
    "\n\t\t\tleft(COALESCE(j.errors::text,''), 256), COALESCE(cardinality(j.errors),0)," ++
    "\n\t\t\tCOALESCE(array_to_string(j.tags, ','), '')"
  fields := [
    { name := "id", column := "j.id", type := .int, filterOps := stdIntOps,
      sortable := true, pk := true },
    { name := "kind", column := "j.kind", type := .string, filterOps := stdStringOps,
      sortable := true, searchable := true },
    { name := "state", column := "j.state::text", type := .string, filterOps := stdStringOps,
      sortable := true },
    { name := "queue", column := "j.queue", type := .string, filterOps := stdStringOps,
      sortable := true },
    { name := "attempt", column := "j.attempt", type := .int, filterOps := stdIntOps,
      sortable := true },
    { name := "created_at", column := "j.created_at", type := .timestamp, filterOps := stdTSOps,
      sortable := true },
    { name := "scheduled_at", column := "j.scheduled_at", type := .timestamp, filterOps := stdTSOps,
      sortable := true },
    { name := "finalized_at", column := "j.finalized_at", type := .timestamp, filterOps := stdTSOps,
      sortable := true }]
  defaultSorts := [⟨"created_at", true⟩]

def auditEventsCollection : Collection where
  name := "audit_events"
  fromClause := "admin_audit_events a"
  selectList :=
    "a.id::text, a.ts, a.operator_id, a.operator_role, a.request_id, a.command," ++
    "\n\t\t\ta.targets, a.reason, a.preview_hash, a.before_summary, a.after_summary," ++
    "\n\t\t\ta.result, a.error, a.source_ip, a.build_version, COALESCE(a.idempotency_key,'')"
  fields := [
    { name := "id", column := "a.id", type := .uuid, filterOps := stdUUIDOps,
      sortable := true, pk := true },
    { name := "ts", column := "a.ts", type := .timestamp, filterOps := stdTSOps,
      sortable := true },
    { name := "operator_id", column := "a.operator_id", type := .string, filterOps := stdStringOps,
      sortable := true, searchable := true },
    { name := "operator_role", column := "a.operator_role", type := .string,
      filterOps := stdStringOps, sortable := true },
    { name := "command", column := "a.command", type := .string, filterOps := stdStringOps,
      sortable := true, searchable := true },
    { name := "result", column := "a.result", type := .string, filterOps := stdStringOps,
      sortable := true },
    { name := "request_id", column := "a.request_id", type := .string, filterOps := stdStringOps,
      sortable := true },
    { name := "idempotency_key", column := "a.idempotency_key", type := .string,
      filterOps := stdStringOps, sortable := true },
    { name := "reason", column := "a.reason", type := .string, filterOps := stdStringOps,
      searchable := true }]
  defaultSorts := [⟨"ts", true⟩]

/-- `NewRegistry`. -/
def registry : List Collection := [
  tenantsCollection, apiKeysCollection, sessionsCollection, eventsCollection, runsCollection,
  runStepsCollection, resourcesCollection, providersCollection, credentialsCollection,
  periodicPromptsCollection, memoryCollection, waitsCollection, jobsCollection,
  auditEventsCollection]

/-- Collections are registered under their names. -/
theorem registry_names : (registry.map Collection.name).Nodup := by decide

theorem eq_of_name {c c' : Collection} (hc : c ∈ registry) (hc' : c' ∈ registry)
    (hname : c.name = c'.name) : c = c' :=
  List.inj_on_of_nodup_map registry_names hc hc' hname

end Ultracore.Query
