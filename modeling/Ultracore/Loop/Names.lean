-- SUMMARY: The names of the tools that a step offers, and for which resources they are distinct.
import Ultracore.Loop.Tools

/-!
# Names of tools

A tool of a resource has its remote name, after the resource's kind and display name where
several ready resources are of one kind. The names of two tools are the same where what stands
before the one goes on in the remote name of the other; nothing in the code sees to it that they
are not.
-/

namespace Ultracore.Loop

/-! ## What names are made of -/

/-- The names under which a tool of a resource is known: those it serves or served last. -/
def Discovery.names : Discovery → List String
  | .served names => names
  | .failed lastTools => lastTools

namespace SessionResources

/-- The only ready resource of its kind. -/
def alone (s : SessionResources) (r : Resource) : Bool :=
  (s.ready.filter fun r' => r'.kind = r.kind).length ≤ 1

/-- The remote names of the tools that are offered of a resource. -/
def offered (policy : RunPolicy) (s : SessionResources) (r : Resource) : List String :=
  (s.discover r).names.filter policy.allowsTool

/-- Where the tools of `r'` are named as those of `r` are, and then after `rest`, no tool of `r`
    has a remote name that is `rest` with a tool of `r'`. With `rest` empty, the two resources are
    alone in their kinds, or share a kind and a display name. -/
def Apart (policy : RunPolicy) (s : SessionResources) (r r' : Resource) : Prop :=
  ∀ rest, s.namespace_ r' = s.namespace_ r ++ rest →
    ∀ name ∈ s.offered policy r', rest ++ name ∉ s.offered policy r

end SessionResources

/-- The names of the tools of the control plane. -/
def builtinTools : List String :=
  ["ask_user", "post_event", "session_memory_get", "session_memory_list", "session_memory_set",
    "session_memory_delete", "spawn_agent", "wait_for_agents", "run_agent_cohort",
    "provision_resource", "provision_env", "list_resources", "list_envs", "terminate_resource",
    "terminate_env"]

/-- Resources whose tools cannot be taken for each other's, or for those of the control plane. -/
structure Unambiguous (policy : RunPolicy) (s : SessionResources) : Prop where
  apart : s.ready.Pairwise fun r r' => s.Apart policy r r' ∧ s.Apart policy r' r
  /-- Waiting and cohorts are not offered where spawning is not. -/
  builtin : ∀ r ∈ s.ready, s.alone r = true → ∀ name ∈ s.offered policy r, name ∈ builtinTools →
    (name = "wait_for_agents" ∨ name = "run_agent_cohort") ∧
      policy.allowsTool "spawn_agent" = false

section
variable {policy : RunPolicy} {s : SessionResources} {r r' : Resource}

theorem namespace_of_alone (h : s.alone r = true) : s.namespace_ r = "" := by
  have hle : (s.ready.filter fun r' => r'.kind = r.kind).length ≤ 1 := of_decide_eq_true h
  exact if_neg (by omega)

/-- A name with the resource in it has a slash. -/
theorem slash_mem_qualified {name : String} (h : s.alone r = false) :
    '/' ∈ (s.namespace_ r ++ name).toList := by
  have hgt : ¬(s.ready.filter fun r' => r'.kind = r.kind).length ≤ 1 := of_decide_eq_false h
  rw [SessionResources.namespace_, if_pos (by omega)]
  simp

theorem names_toolsOf : (s.toolsOf policy r).map AgentTool.name =
    (s.offered policy r).map fun name => s.namespace_ r ++ name := by
  unfold SessionResources.toolsOf SessionResources.offered
  cases s.discover r with
  | served | failed => simp [Discovery.names, Function.comp_def]

/-! ## Distinct names -/

/-- A name that two resources share goes on, after what stands before it at the one, as the
    remote name at the other. -/
theorem disjoint_toolsOf : List.Disjoint ((s.toolsOf policy r).map AgentTool.name)
      ((s.toolsOf policy r').map AgentTool.name) ↔
    s.Apart policy r r' ∧ s.Apart policy r' r := by
  rw [names_toolsOf, names_toolsOf]
  constructor
  · refine fun h => ⟨fun rest hrest name hname hmem => ?_, fun rest hrest name hname hmem => ?_⟩
    · refine h (List.mem_map_of_mem hmem) (List.mem_map.mpr ⟨name, hname, ?_⟩)
      rw [hrest, String.append_assoc]
    · refine h (List.mem_map.mpr ⟨name, hname, ?_⟩) (List.mem_map_of_mem hmem)
      rw [hrest, String.append_assoc]
  · rintro ⟨h, h'⟩ full hfull hfull'
    obtain ⟨name, hname, rfl⟩ := List.mem_map.mp hfull
    obtain ⟨name', hname', heq⟩ := List.mem_map.mp hfull'
    have hlist : (s.namespace_ r').toList ++ name'.toList =
        (s.namespace_ r).toList ++ name.toList := by
      simpa using congrArg String.toList heq
    rcases List.append_eq_append_iff.mp hlist with ⟨rest, hns, hrest⟩ | ⟨rest, hns, hrest⟩
    · refine h' (String.ofList rest) (String.toList_inj.mp (by simpa using hns)) name hname ?_
      rwa [show String.ofList rest ++ name = name' from String.toList_inj.mp (by simp [hrest])]
    · refine h (String.ofList rest) (String.toList_inj.mp (by simpa using hns)) name' hname' ?_
      rwa [show String.ofList rest ++ name' = name from String.toList_inj.mp (by simp [hrest])]

theorem nodup_toolsOf (h : (s.discover r).names.Nodup) :
    ((s.toolsOf policy r).map AgentTool.name).Nodup := by
  rw [names_toolsOf]
  refine (h.filter _).map fun name name' heq => ?_
  have hlist : (s.namespace_ r).toList ++ name.toList = (s.namespace_ r).toList ++ name'.toList := by
    simpa using congrArg String.toList heq
  exact String.toList_inj.mp (List.append_cancel_left hlist)

theorem nodup_resources (hknown : ∀ r ∈ s.ready, (s.discover r).names.Nodup) :
    ((s.ready.flatMap (s.toolsOf policy)).map AgentTool.name).Nodup ↔
      s.ready.Pairwise fun r r' => s.Apart policy r r' ∧ s.Apart policy r' r := by
  rw [List.map_flatMap, List.nodup_flatMap]
  exact (and_iff_right fun r hr => nodup_toolsOf (hknown r hr)).trans
    (List.Pairwise.iff fun _ _ => disjoint_toolsOf)

theorem names_granted {names : List String} :
    (granted policy names).map AgentTool.name = names.filter policy.allowsTool := by
  simp [granted, AgentTool.native, Function.comp_def]

/-- What a step offers of the control plane. -/
def controlTools (policy : RunPolicy) : List AgentTool :=
  nativeTools policy ++ granted policy ["provision_resource", "provision_env", "list_resources",
    "list_envs", "terminate_resource", "terminate_env"]

/-- The tools of the control plane are offered in one order. -/
theorem control_sublist : ((controlTools policy).map AgentTool.name).Sublist builtinTools := by
  have hspawn : ((spawnTools policy).map AgentTool.name).Sublist
      ["spawn_agent", "wait_for_agents", "run_agent_cohort"] := by
    unfold spawnTools
    split
    · exact List.nil_sublist _
    · split
      · exact List.Sublist.refl _
      · exact List.sublist_append_left ["spawn_agent", "wait_for_agents"] ["run_agent_cohort"]
  simp only [controlTools, nativeTools, memoryTools, List.map_append, names_granted]
  exact (((List.filter_sublist.append List.filter_sublist).append List.filter_sublist).append
    hspawn).append List.filter_sublist

/-- A tool that the policy allows is offered, but for those that come with spawning. -/
theorem mem_control {name : String} (h : policy.allowsTool name = true) :
    name ∈ (controlTools policy).map AgentTool.name ↔ name ∈ builtinTools ∧
      (name = "wait_for_agents" ∨ name = "run_agent_cohort" →
        policy.allowsTool "spawn_agent" = true) := by
  simp only [controlTools, nativeTools, memoryTools, List.map_append, names_granted, List.mem_append,
    List.mem_filter, h, and_true]
  cases hspawn : policy.allowsTool "spawn_agent" with
  | true =>
    by_cases hcohort : policy.allowsTool "run_agent_cohort" = true
    · simp [spawnTools, hspawn, hcohort, AgentTool.native, builtinTools, or_assoc]
    · have hne : name ≠ "run_agent_cohort" := fun heq => hcohort (heq ▸ h)
      simp [spawnTools, hspawn, hcohort, hne, AgentTool.native, builtinTools, or_assoc]
  | false =>
    have hne : name ≠ "spawn_agent" := fun heq => by simp [heq, hspawn] at h
    by_cases hwith : name = "wait_for_agents" ∨ name = "run_agent_cohort"
    · rcases hwith with rfl | rfl <;> simp [spawnTools, hspawn]
    · simp only [not_or] at hwith
      simp [spawnTools, hspawn, hne, hwith, builtinTools, or_assoc]

/-- A tool of a resource with the name of one of the control plane's is alone in its kind. -/
theorem disjoint_control : List.Disjoint ((controlTools policy).map AgentTool.name)
      ((s.ready.flatMap (s.toolsOf policy)).map AgentTool.name) ↔
    ∀ r ∈ s.ready, s.alone r = true → ∀ name ∈ s.offered policy r, name ∈ builtinTools →
      (name = "wait_for_agents" ∨ name = "run_agent_cohort") ∧
        policy.allowsTool "spawn_agent" = false := by
  rw [List.map_flatMap]
  constructor
  · intro h r hr halone name hname hbuiltin
    have hoffered : name ∈ (s.toolsOf policy r).map AgentTool.name := by
      rw [names_toolsOf, namespace_of_alone halone]
      simpa using hname
    have hnot : ¬(name = "wait_for_agents" ∨ name = "run_agent_cohort" →
        policy.allowsTool "spawn_agent" = true) := fun hspawn =>
      h ((mem_control (List.mem_filter.mp hname).2).mpr ⟨hbuiltin, hspawn⟩)
        (List.mem_flatMap.mpr ⟨r, hr, hoffered⟩)
    simpa using hnot
  · intro h full hcontrol hfull
    obtain ⟨r, hr, hfull⟩ := List.mem_flatMap.mp hfull
    rw [names_toolsOf] at hfull
    obtain ⟨name, hname, rfl⟩ := List.mem_map.mp hfull
    cases halone : s.alone r with
    | true =>
      rw [namespace_of_alone halone, String.empty_append] at hcontrol
      obtain ⟨hbuiltin, hspawn⟩ := (mem_control (List.mem_filter.mp hname).2).mp hcontrol
      obtain ⟨hwith, hdenied⟩ := h r hr halone name hname hbuiltin
      simp [hspawn hwith] at hdenied
    | false =>
      have hplain : ∀ x ∈ builtinTools, '/' ∉ x.toList := by decide
      exact hplain _ (control_sublist.subset hcontrol) (slash_mem_qualified halone)

/-- Stubs have names that are not offered. -/
theorem nodup_with_stubs {tools : List AgentTool} :
    ((tools ++ denialStubs tools).map AgentTool.name).Nodup ↔
      (tools.map AgentTool.name).Nodup := by
  have hstubs : (denialStubs tools).map AgentTool.name =
      canonicalTools.filter fun name => !(tools.map AgentTool.name).contains name := by
    simp [denialStubs, Function.comp_def]
  have hcanonical : canonicalTools.Nodup := by decide
  rw [List.map_append, hstubs]
  refine ⟨fun h => h.of_append_left, fun h => h.append (hcanonical.filter _) fun name hname hstub => ?_⟩
  simpa [hname] using (List.mem_filter.mp hstub).2

/-- The names of all tools of a step are pairwise distinct exactly where the resources are
    unambiguous. -/
theorem tool_names_distinct (hknown : ∀ r ∈ s.ready, (s.discover r).names.Nodup) :
    (∃ tools, stepTools policy (some (.ok s)) = .ok tools ∧ (tools.map AgentTool.name).Nodup) ↔
      Unambiguous policy s := by
  have htools : stepTools policy (some (.ok s)) = .ok ((nativeTools policy ++ resourceTools policy s) ++
      denialStubs (nativeTools policy ++ resourceTools policy s)) := rfl
  have hparts : nativeTools policy ++ resourceTools policy s =
      controlTools policy ++ s.ready.flatMap (s.toolsOf policy) := by
    rw [controlTools, resourceTools, List.append_assoc]
  have hcontrol : ((controlTools policy).map AgentTool.name).Nodup :=
    control_sublist.nodup (by decide)
  simp only [htools, Except.ok.injEq, exists_eq_left']
  rw [nodup_with_stubs, hparts, List.map_append, List.nodup_append', and_iff_right hcontrol,
    nodup_resources hknown, disjoint_control]
  exact ⟨fun ⟨hapart, hbuiltin⟩ => ⟨hapart, hbuiltin⟩, fun h => ⟨h.apart, h.builtin⟩⟩

end

/-! ## Sessions -/

/-- Everything is allowed. -/
def allowAll : RunPolicy :=
  { allowTools := ["*"], denyTools := [], maxChildren := 1, childInherit := false }

def readyEnv (id kind name : String) : Resource :=
  { id, kind, state := .ready, spec := .obj [("name", .str name)], endpoint := "endpoint", token := "" }

/-- Two environments with names of their own. -/
def twoEnvs : SessionResources where
  resources := [readyEnv "r1" "dev_env" "a", readyEnv "r2" "dev_env" "b"]
  discover _ := .served ["bash", "view"]

theorem tool_names_distinct_twoEnvs : Unambiguous allowAll twoEnvs := by
  refine (tool_names_distinct ?_).mp ⟨_, rfl, ?_⟩
  all_goals decide

/-- Two resources of different kinds that both serve `bash`. -/
def twoKinds : SessionResources where
  resources := [readyEnv "r1" "dev_env" "a", readyEnv "r2" "sandbox" "b"]
  discover _ := .served ["bash"]

/-- Each is alone in its kind, and the step offers two tools of one name. -/
theorem tool_names_clash :
    (∀ r ∈ twoKinds.ready, (twoKinds.discover r).names.Nodup) ∧
      ∃ tools, stepTools allowAll (some (.ok twoKinds)) = .ok tools ∧
        ⟨"bash", .resource "r1" "bash"⟩ ∈ tools ∧ ⟨"bash", .resource "r2" "bash"⟩ ∈ tools ∧
        ¬(tools.map AgentTool.name).Nodup := by
  refine ⟨by decide, _, rfl, by decide, by decide, by decide⟩

end Ultracore.Loop
