-- SUMMARY: The tools a step offers: five builders with gates of their own, and refusing stubs for the rest.
import Ultracore.Core.Resource
import Ultracore.Store.Tx

/-!
# Tools

What a step offers to the model, as `Work` assembles it: native session tools, memory
tools, spawning tools, the tools of the session's resources, and a stub for every
canonical tool that is missing. Each builder asks the policy itself.
-/

namespace Ultracore

/-- Every capability a run can be granted. -/
def canonicalTools : List String :=
  ["ask_user", "post_event",
    "session_memory_get", "session_memory_list", "session_memory_set", "session_memory_delete",
    "spawn_agent", "wait_for_agents", "run_agent_cohort",
    "provision_resource", "list_resources", "terminate_resource",
    "provision_env", "list_envs", "terminate_env",
    "bash", "view", "write", "edit", "multiedit", "delete", "ls", "glob", "grep",
    "job_output", "job_kill", "download", "fetch", "web_fetch",
    "lsp_diagnostics", "lsp_references", "lsp_restart"]

namespace Loop

/-- What stands behind a tool. -/
inductive ToolBody where
  /-- A tool of the control plane. -/
  | native (capability : String)
  /-- A tool that a ready resource serves, under its remote name. -/
  | resource (id : ResourceID) (remote : String)
  /-- A tool that a resource served last, while the resource is unreachable. -/
  | unreachable (id : ResourceID) (remote : String)
  /-- A stub that refuses. -/
  | refusal
deriving DecidableEq

/-- The capability that a tool implements, unless it refuses. -/
def ToolBody.capability? : ToolBody → Option String
  | .native capability => some capability
  | .resource _ remote | .unreachable _ remote => some remote
  | .refusal => none

/-- A tool under the name that the model sees. -/
structure AgentTool where
  name : String
  body : ToolBody
deriving DecidableEq

def AgentTool.native (name : String) : AgentTool := ⟨name, .native name⟩

/-- The native tools among `names` that the policy allows. -/
def granted (policy : RunPolicy) (names : List String) : List AgentTool :=
  (names.filter policy.allowsTool).map .native

def memoryTools (policy : RunPolicy) : List AgentTool :=
  granted policy
    ["session_memory_get", "session_memory_list", "session_memory_set", "session_memory_delete"]

/-- Waiting comes with spawning. -/
def spawnTools (policy : RunPolicy) : List AgentTool :=
  if !policy.allowsTool "spawn_agent" then []
  else
    [.native "spawn_agent", .native "wait_for_agents"] ++
      if policy.allowsTool "run_agent_cohort" then [.native "run_agent_cohort"] else []

/-! ## Tools of resources -/

/-- What asking a resource for its tools ends with: the tools it serves, or those it
    served last. -/
inductive Discovery where
  | served (names : List String)
  | failed (lastTools : List String)

/-- The resources of the run's session, and what each answers. -/
structure SessionResources where
  resources : List Resource
  discover : Resource → Discovery

def resourceDisplayName (r : Resource) : String :=
  let specName :=
    if r.kind = resourceKindDevEnv ∨ r.kind = "" then
      ((parseDevEnvSpec r.spec).map DevEnvSpec.name).getD ""
    else ""
  if specName ≠ "" then specName
  else if probeName r.spec ≠ "" then probeName r.spec
  else r.id

/-- The resources that publish tools. -/
def SessionResources.ready (s : SessionResources) : List Resource :=
  s.resources.filter fun r => r.state = .ready ∧ r.endpoint ≠ ""

/-- Tools are named after their resource where several ready ones are of the same kind. -/
def SessionResources.namespace_ (s : SessionResources) (r : Resource) : String :=
  if (s.ready.filter fun r' => r'.kind = r.kind).length > 1 then
    (if r.kind = "" then resourceKindDevEnv else r.kind) ++ ":" ++ resourceDisplayName r ++ "/"
  else ""

/-- The tools of one ready resource. -/
def SessionResources.toolsOf (policy : RunPolicy) (s : SessionResources) (r : Resource) :
    List AgentTool :=
  match s.discover r with
  | .served names =>
    (names.filter policy.allowsTool).map fun name => ⟨s.namespace_ r ++ name, .resource r.id name⟩
  | .failed lastTools =>
    (lastTools.filter policy.allowsTool).map fun name =>
      ⟨s.namespace_ r ++ name, .unreachable r.id name⟩

/-- `ResourceTools.Tools`: the lifecycle tools, and those of the ready resources. -/
def resourceTools (policy : RunPolicy) (s : SessionResources) : List AgentTool :=
  granted policy
    ["provision_resource", "provision_env", "list_resources", "list_envs", "terminate_resource",
      "terminate_env"] ++
    s.ready.flatMap (s.toolsOf policy)

/-! ## Assembly -/

/-- A refusing tool for every canonical one that is not offered. -/
def denialStubs (offered : List AgentTool) : List AgentTool :=
  (canonicalTools.filter fun name => !(offered.map AgentTool.name).contains name).map fun name =>
    ⟨name, .refusal⟩

/-- The tools of the control plane that do not come from the resolver. -/
def nativeTools (policy : RunPolicy) : List AgentTool :=
  granted policy ["ask_user"] ++ granted policy ["post_event"] ++ memoryTools policy ++
    spawnTools policy

/-- The tools of a step, as `Work` assembles them. There may be no resolver, and the
    resources may fail to be listed, which ends the step. -/
def stepTools (policy : RunPolicy) (resolver : Option (Except Err SessionResources)) :
    Except Err (List AgentTool) := do
  let dynamic ←
    match resolver with
    | none => pure []
    | some listed => listed.map (resourceTools policy)
  let tools := nativeTools policy ++ dynamic
  pure (tools ++ denialStubs tools)

/-! ## Only granted tools are live -/

/-- A tool that refuses, or implements something that the policy allows. -/
def Gated (policy : RunPolicy) (t : AgentTool) : Prop :=
  ∀ capability, t.body.capability? = some capability → policy.allowsTool capability = true

section
variable {policy : RunPolicy} {t : AgentTool}

theorem gated_granted {names : List String} (h : t ∈ granted policy names) : Gated policy t := by
  obtain ⟨name, hname, rfl⟩ := List.mem_map.mp h
  intro capability hc
  cases hc
  exact (List.mem_filter.mp hname).2

theorem gated_spawnTools
    (hwait : policy.allowsTool "spawn_agent" = true → policy.allowsTool "wait_for_agents" = true)
    (h : t ∈ spawnTools policy) : Gated policy t := by
  unfold spawnTools at h
  split at h
  · cases h
  rename_i hspawn
  have hspawn : policy.allowsTool "spawn_agent" = true := by simpa using hspawn
  intro capability hc
  rcases List.mem_append.mp h with h | h
  · simp only [List.mem_cons, List.not_mem_nil, or_false] at h
    rcases h with rfl | rfl <;> cases hc
    · exact hspawn
    · exact hwait hspawn
  · split at h
    · rename_i hcohort
      obtain rfl := List.mem_singleton.mp h
      cases hc
      exact hcohort
    · cases h

theorem gated_toolsOf {s : SessionResources} {r : Resource} (h : t ∈ s.toolsOf policy r) :
    Gated policy t := by
  unfold SessionResources.toolsOf at h
  intro capability hc
  split at h <;>
  · obtain ⟨name, hname, rfl⟩ := List.mem_map.mp h
    cases hc
    exact (List.mem_filter.mp hname).2

theorem gated_resourceTools {s : SessionResources} (h : t ∈ resourceTools policy s) :
    Gated policy t := by
  rcases List.mem_append.mp h with h | h
  · exact gated_granted h
  · obtain ⟨r, -, ht⟩ := List.mem_flatMap.mp h
    exact gated_toolsOf ht

theorem gated_nativeTools
    (hwait : policy.allowsTool "spawn_agent" = true → policy.allowsTool "wait_for_agents" = true)
    (h : t ∈ nativeTools policy) : Gated policy t := by
  simp only [nativeTools, List.mem_append] at h
  rcases h with ((h | h) | h) | h
  · exact gated_granted h
  · exact gated_granted h
  · exact gated_granted h
  · exact gated_spawnTools hwait h

theorem gated_denialStubs {offered : List AgentTool} (h : t ∈ denialStubs offered) :
    Gated policy t := by
  obtain ⟨name, -, rfl⟩ := List.mem_map.mp h
  nofun

/-- Every canonical tool is offered, or refused by a stub. -/
theorem canonical_offered (offered : List AgentTool) {name : String} (h : name ∈ canonicalTools) :
    ∃ t ∈ offered ++ denialStubs offered, t.name = name := by
  by_cases hmem : name ∈ offered.map AgentTool.name
  · obtain ⟨t, ht, rfl⟩ := List.mem_map.mp hmem
    exact ⟨t, List.mem_append_left _ ht, rfl⟩
  · refine ⟨⟨name, .refusal⟩, List.mem_append_right _ (List.mem_map.mpr ⟨name, ?_, rfl⟩), rfl⟩
    simpa [h] using hmem

/-- The tools of a step, taken apart. -/
theorem stepTools_eq {resolver : Option (Except Err SessionResources)} {tools : List AgentTool}
    (h : stepTools policy resolver = .ok tools) : ∃ dynamic, (∀ t ∈ dynamic, Gated policy t) ∧
      tools = (nativeTools policy ++ dynamic) ++ denialStubs (nativeTools policy ++ dynamic) := by
  cases resolver with
  | none => exact ⟨[], by simp, (Except.ok.inj h).symm⟩
  | some listed =>
    cases listed with
    | error => cases h
    | ok => exact ⟨_, fun _ => gated_resourceTools, (Except.ok.inj h).symm⟩

end

/-- Where spawning is allowed, waiting is offered. -/
theorem wait_mem_nativeTools {policy : RunPolicy} (h : policy.allowsTool "spawn_agent" = true) :
    .native "wait_for_agents" ∈ nativeTools policy := by
  refine List.mem_append_right _ ?_
  simp [spawnTools, h]

/-- Every tool of a step that does not refuse implements a capability that the policy allows, and
    every canonical tool is offered, be it as a stub, exactly where a policy that allows spawning
    allows waiting. -/
theorem only_granted_tools_live (policy : RunPolicy)
    (resolver : Option (Except Err SessionResources)) {tools : List AgentTool}
    (h : stepTools policy resolver = .ok tools) :
    ((∀ t ∈ tools, t.body ≠ .refusal →
        ∃ capability, t.body.capability? = some capability ∧ policy.allowsTool capability = true) ∧
      ∀ name ∈ canonicalTools, ∃ t ∈ tools, t.name = name) ↔
    (policy.allowsTool "spawn_agent" = true → policy.allowsTool "wait_for_agents" = true) := by
  obtain ⟨dynamic, hdynamic, rfl⟩ := stepTools_eq h
  constructor
  · rintro ⟨hlive, -⟩ hspawn
    have hmem := List.mem_append_left dynamic (wait_mem_nativeTools hspawn)
    obtain ⟨_, ⟨⟩, hallowed⟩ := hlive _ (List.mem_append_left _ hmem) ToolBody.noConfusion
    exact hallowed
  intro hwait
  refine ⟨fun t ht hlive => ?_, fun name hname => canonical_offered _ hname⟩
  have hgated : Gated policy t := by
    rcases List.mem_append.mp ht with ht | ht
    · rcases List.mem_append.mp ht with ht | ht
      · exact gated_nativeTools hwait ht
      · exact hdynamic t ht
    · exact gated_denialStubs ht
  cases hbody : t.body with
  | refusal => exact absurd hbody hlive
  | native capability => exact ⟨capability, rfl, hgated capability (by rw [hbody]; rfl)⟩
  | resource id remote | unreachable id remote =>
    exact ⟨remote, rfl, hgated remote (by rw [hbody]; rfl)⟩

/-- A session with one ready resource that serves two tools. -/
def oneEnv : SessionResources where
  resources := [{ id := "env", state := .ready, endpoint := "endpoint", token := "token" }]
  discover _ := .served ["bash", "view"]

/-- Everything but one tool of the resource. -/
def noBash : RunPolicy :=
  { allowTools := ["*"], denyTools := ["bash"], maxChildren := 1, childInherit := false }

theorem only_granted_tools_live_env :
    ∃ tools, stepTools noBash (some (.ok oneEnv)) = .ok tools ∧
      ⟨"view", .resource "env" "view"⟩ ∈ tools ∧ ⟨"bash", .refusal⟩ ∈ tools ∧
      ∀ t ∈ tools, t.body ≠ .refusal →
        ∃ capability, t.body.capability? = some capability ∧
          noBash.allowsTool capability = true := by
  obtain ⟨tools, htools⟩ : ∃ tools, stepTools noBash (some (.ok oneEnv)) = .ok tools := ⟨_, rfl⟩
  refine ⟨tools, htools, ?_, ?_,
    ((only_granted_tools_live noBash _ htools).mpr fun _ => by decide).1⟩
  · cases htools
    decide
  · cases htools
    decide

/-- Everything but waiting. -/
def noWaiting : RunPolicy :=
  { allowTools := ["*"], denyTools := ["wait_for_agents"], maxChildren := 1, childInherit := false }

/-- Waiting is offered to a run that is denied it. -/
theorem only_granted_tools_live_wait :
    ∃ tools, stepTools noWaiting none = .ok tools ∧ .native "wait_for_agents" ∈ tools ∧
      noWaiting.allowsTool "wait_for_agents" = false := by
  refine ⟨_, rfl, ?_, ?_⟩
  · decide
  · decide

end Loop

end Ultracore
