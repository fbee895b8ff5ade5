-- SUMMARY: Environments as Nomad jobs: names, provisioning, and the listing of what the provider owns.
import Ultracore.Core.Resource
import Ultracore.Txn.Steps

/-!
# The Nomad provider

File `provider/nomad/nomad.go`. An environment is one job, named after the resource. The provider
registers and purges its jobs through the API of Nomad, others theirs, and allocations come and
go. `ListOwned` is to tell from the jobs which resources they are for.
-/

namespace Ultracore.Nomad

/-! ## Names -/

/-- Lower case as `strings.ToLower` maps it, of which only ASCII is told here. -/
structure Lower where
  map : Char → Char
  ascii : ∀ c : Char, c.toNat < 128 → map c = c.toLower

/-- The character that a name has for one of an id, if any. -/
def sanitizeChar (c : Char) : Option Char :=
  if (97 ≤ c.toNat ∧ c.toNat ≤ 122) ∨ (48 ≤ c.toNat ∧ c.toNat ≤ 57) ∨ c = '-' then some c
  else if c = '_' ∨ c = '.' then some '-'
  else none

/-- `strings.Trim(s, "-")` -/
def trimDashes (s : List Char) : List Char :=
  ((s.dropWhile (· = '-')).reverse.dropWhile (· = '-')).reverse

def sanitize (lower : Lower) (value : String) : String :=
  let out := trimDashes ((value.toList.map lower.map).filterMap sanitizeChar)
  if out = [] then "unnamed" else String.ofList out

def jobID (lower : Lower) (envID : ResourceID) : String := "ultra-env-" ++ sanitize lower envID

def startsWith (s start : String) : Bool := decide (start.toList <+: s.toList)

/-- What follows the start of a text. -/
def trimStart (s start : String) : String :=
  if startsWith s start then String.ofList (s.toList.drop start.toList.length) else s

/-! ## The API of Nomad -/

structure Allocation where
  id : String
  clientStatus : String

structure Job where
  id : String
  stop : Bool := false

/-- The calls the provider makes, over the states of a cluster, and what is assumed of them. How
    Nomad schedules the jobs is not told. -/
structure Api (S : Type) where
  empty : S
  /-- `Jobs().List` -/
  list : S → List Job
  /-- `Jobs().Info` -/
  info : S → String → Option Job
  /-- `Jobs().Allocations` -/
  allocations : S → String → List Allocation
  /-- `Jobs().Register` of a job with this name -/
  register : S → String → S
  /-- `Jobs().Deregister` with purge -/
  deregister : S → String → S
  list_empty : list empty = []
  /-- A job that is registered is there and is not stopped. -/
  info_register : ∀ s name, ∃ job, info (register s name) name = some job ∧ job.stop = false
  info_register_of_ne : ∀ s {name id}, id ≠ name → info (register s name) id = info s id
  info_deregister_of_ne : ∀ s {name id}, id ≠ name → info (deregister s name) id = info s id
  list_register : ∀ s name, ∀ job ∈ list (register s name),
    job.id = name ∨ ∃ j ∈ list s, j.id = job.id
  list_deregister : ∀ s name, ∀ job ∈ list (deregister s name), ∃ j ∈ list s, j.id = job.id

/-- The cluster, and the resources that were provisioned and not terminated since. No call reads
    the latter. -/
structure Cluster (S : Type) where
  nomad : S
  live : List ResourceID := []

/-! ## The provider -/

section
variable {S : Type} (api : Api S) (lower : Lower)

/-- `Provision`, as far as the cluster sees it. -/
def provision (id : ResourceID) (c : Cluster S) : Cluster S where
  nomad := api.register c.nomad (jobID lower id)
  live := if id ∈ c.live then c.live else c.live ++ [id]

/-- `Terminate`, with the handle that `Provision` returned. -/
def terminate (id : ResourceID) (c : Cluster S) : Cluster S where
  nomad := api.deregister c.nomad (jobID lower id)
  live := c.live.filter (· ≠ id)

structure OwnedResource where
  resourceID : ResourceID
  descriptors : List String
deriving DecidableEq

/-- `Resources` -/
def resources (c : Cluster S) (envID : ResourceID) : List String :=
  let id := jobID lower envID
  match api.info c.nomad id with
  | none => []
  | some job =>
    if job.stop then []
    else ("job/" ++ id) :: ((api.allocations c.nomad id).filter fun a =>
      a.clientStatus = "running" ∨ a.clientStatus = "pending").map fun a => "allocation/" ++ a.id

/-- `ListOwned` -/
def listOwned (c : Cluster S) : List OwnedResource :=
  (api.list c.nomad).filterMap fun job =>
    if !startsWith job.id "ultracore-" then none
    else
      let id := trimStart job.id "ultracore-"
      let desc := resources api lower c id
      if desc = [] then none else some ⟨id, desc⟩

end

/-! ## What can happen -/

/-- A digit of a lower-case UUID. -/
def isHex (c : Char) : Bool := (48 ≤ c.toNat ∧ c.toNat ≤ 57) ∨ (97 ≤ c.toNat ∧ c.toNat ≤ 102)

/-- Groups of 8, 4, 4, 4 and 12 digits with dashes between them. -/
def isUuid (id : ResourceID) : Bool :=
  id.toList.map (fun c => if isHex c then '0' else c) =
    "00000000-0000-0000-0000-000000000000".toList

/-- A name that starts with one of the provider's. -/
def related (id : String) : Bool := startsWith id "ultra-env-" || startsWith id "ultracore-"

/-- What the scheduler and others do: under the names of the provider no job appears, goes or is
    stopped. Allocations and all other jobs change as they may. -/
structure Api.Apart {S : Type} (api : Api S) (s s' : S) : Prop where
  info : ∀ id, related id = true → (api.info s' id).map Job.stop = (api.info s id).map Job.stop
  list : ∀ job ∈ api.list s', related job.id = true → ∃ j ∈ api.list s, j.id = job.id

inductive Action (S : Type) where
  | provision (id : ResourceID)
  | terminate (id : ResourceID)
  | elsewhere (s : S)

section
variable {S : Type} (api : Api S) (lower : Lower)

def step (c : Cluster S) : Action S → Option (Cluster S)
  | .provision id => some (provision api lower id c)
  | .terminate id => some (terminate api lower id c)
  | .elsewhere s => some { c with nomad := s }

/-- The ids of resources are lower-case UUIDs. -/
def Allowed (c : Cluster S) : Action S → Prop
  | .provision id | .terminate id => isUuid id = true
  | .elsewhere s => api.Apart c.nomad s

/-- Every history from an empty cluster. -/
abbrev Reached (c : Cluster S) : Prop :=
  Txn.Steps (step api lower) (Allowed api) ⟨api.empty, []⟩ c

end

/-! ## Names of jobs -/

section
variable {lower : Lower} {id : ResourceID}

/-- The characters of a UUID. -/
theorem isUuid_chars (h : isUuid id = true) {c : Char} (hc : c ∈ id.toList) :
    isHex c = true ∨ c = '-' := by
  have hpattern : ("00000000-0000-0000-0000-000000000000".toList.all fun d =>
      d == '0' || d == '-') = true := by decide
  by_cases hhex : isHex c = true
  · exact .inl hhex
  · have hmem : c ∈ id.toList.map (fun c => if isHex c then '0' else c) :=
      List.mem_map.mpr ⟨c, hc, if_neg hhex⟩
    rw [of_decide_eq_true h] at hmem
    rcases Bool.or_eq_true_iff.mp (List.all_eq_true.mp hpattern c hmem) with hzero | hdash
    · rw [eq_of_beq hzero]
      exact .inl (by decide)
    · exact .inr (eq_of_beq hdash)

theorem sanitizeChar_lower {c : Char} (h : isHex c = true ∨ c = '-') :
    sanitizeChar (lower.map c) = some c := by
  have hrange : c = '-' ∨ (48 ≤ c.toNat ∧ c.toNat ≤ 57) ∨ (97 ≤ c.toNat ∧ c.toNat ≤ 102) := by
    rcases h with h | h
    · exact .inr (of_decide_eq_true h)
    · exact .inl h
  have hlower : lower.map c = c := by
    rcases hrange with rfl | hrange
    · rw [lower.ascii _ (by decide)]
      decide
    · refine (lower.ascii c (by omega)).trans (dif_neg ?_)
      simp only [UInt32.le_iff_toNat_le, ge_iff_le]
      change ¬(65 ≤ c.toNat ∧ c.toNat ≤ 90)
      omega
  rw [hlower, sanitizeChar, if_pos]
  rcases hrange with rfl | hrange | hrange
  · decide
  · exact .inr (.inl hrange)
  · exact .inl ⟨hrange.1, by omega⟩

theorem trimDashes_of_ends {l : List Char} (hhead : l.head? ≠ some '-')
    (hlast : l.reverse.head? ≠ some '-') : trimDashes l = l := by
  have hdrop : ∀ m : List Char, m.head? ≠ some '-' → m.dropWhile (· = '-') = m := by
    intro m hm
    cases m with
    | nil => rfl
    | cons => exact List.dropWhile_cons_of_neg (by simpa using hm)
  rw [trimDashes, hdrop l hhead, hdrop l.reverse hlast, List.reverse_reverse]

/-- The name of a job keeps the whole of a UUID. -/
theorem sanitize_of_isUuid (h : isUuid id = true) : sanitize lower id = id := by
  have hmap := of_decide_eq_true h
  have hkept : (id.toList.map lower.map).filterMap sanitizeChar = id.toList := by
    rw [List.filterMap_map]
    refine (List.filterMap_congr fun c hc => ?_).trans List.filterMap_some
    exact sanitizeChar_lower (isUuid_chars h hc)
  have hends : id.toList.head? ≠ some '-' ∧ id.toList.reverse.head? ≠ some '-' := by
    constructor
    · intro hdash
      have hhead := congrArg List.head? hmap
      rw [List.head?_map, hdash] at hhead
      exact absurd hhead (by decide)
    · intro hdash
      have hlast := congrArg (fun l => l.reverse.head?) hmap
      simp only [← List.map_reverse, List.head?_map, hdash] at hlast
      exact absurd hlast (by decide)
  have hne : id.toList ≠ [] := by
    intro hnil
    rw [hnil] at hmap
    exact absurd hmap (by decide)
  simp only [sanitize, hkept, trimDashes_of_ends hends.1 hends.2, if_neg hne, String.ofList_toList]

theorem jobID_injective {id' : ResourceID} (h : isUuid id = true) (h' : isUuid id' = true)
    (heq : jobID lower id = jobID lower id') : id = id' := by
  rw [jobID, jobID, sanitize_of_isUuid h, sanitize_of_isUuid h'] at heq
  exact String.toList_inj.mp (by simpa using congrArg String.toList heq)

theorem startsWith_jobID : startsWith (jobID lower id) "ultra-env-" = true := by
  simp [startsWith, jobID]

theorem not_startsWith_jobID : startsWith (jobID lower id) "ultracore-" = false := by
  refine decide_eq_false fun h => ?_
  rw [jobID, String.toList_append] at h
  have hstart := List.prefix_of_prefix_length_le h (List.prefix_append _ _) (by decide)
  exact absurd hstart (by decide)

end

/-! ## Every history -/

section
variable {S : Type} {api : Api S} {lower : Lower} {c : Cluster S} {id : ResourceID}

/-- What a history keeps. The second part is why the listing is wrong. -/
structure Inv (api : Api S) (lower : Lower) (c : Cluster S) : Prop where
  /-- The job of every resource that is not terminated is there. -/
  up : ∀ id ∈ c.live, isUuid id = true ∧
    ∃ job, api.info c.nomad (jobID lower id) = some job ∧ job.stop = false
  /-- No job has a name that `ListOwned` looks at. -/
  none_listed : ∀ job ∈ api.list c.nomad, startsWith job.id "ultracore-" = false

theorem Inv.provision (h : Inv api lower c) (hid : isUuid id = true) :
    Inv api lower (provision api lower id c) := by
  refine ⟨fun r hr => ?_, fun job hjob => ?_⟩
  · by_cases heq : r = id
    · subst heq
      exact ⟨hid, api.info_register c.nomad _⟩
    · have hlive : r ∈ c.live := by
        simp only [Nomad.provision] at hr
        split at hr
        · exact hr
        · rcases List.mem_append.mp hr with hr | hr
          · exact hr
          · exact absurd (List.mem_singleton.mp hr) heq
      obtain ⟨huuid, job, hinfo, hstop⟩ := h.up r hlive
      have hne : jobID lower r ≠ jobID lower id := fun hname => heq (jobID_injective huuid hid hname)
      exact ⟨huuid, job, (api.info_register_of_ne c.nomad hne).trans hinfo, hstop⟩
  · rcases api.list_register c.nomad _ job hjob with hname | ⟨j, hj, hname⟩
    · rw [hname]
      exact not_startsWith_jobID
    · rw [← hname]
      exact h.none_listed j hj

theorem Inv.terminate (h : Inv api lower c) (hid : isUuid id = true) :
    Inv api lower (terminate api lower id c) := by
  refine ⟨fun r hr => ?_, fun job hjob => ?_⟩
  · obtain ⟨hlive, hother⟩ := List.mem_filter.mp hr
    obtain ⟨huuid, job, hinfo, hstop⟩ := h.up r hlive
    have hne : jobID lower r ≠ jobID lower id :=
      fun hname => of_decide_eq_true hother (jobID_injective huuid hid hname)
    exact ⟨huuid, job, (api.info_deregister_of_ne c.nomad hne).trans hinfo, hstop⟩
  · obtain ⟨j, hj, hname⟩ := api.list_deregister c.nomad _ job hjob
    rw [← hname]
    exact h.none_listed j hj

theorem Inv.elsewhere {s : S} (h : Inv api lower c) (hs : api.Apart c.nomad s) :
    Inv api lower { c with nomad := s } := by
  refine ⟨fun r hr => ?_, fun job hjob => ?_⟩
  · obtain ⟨huuid, job, hinfo, hstop⟩ := h.up r hr
    have hkept := hs.info (jobID lower r) (by simp [related, startsWith_jobID])
    rw [hinfo, Option.map_some, hstop] at hkept
    obtain ⟨job', hinfo', hstop'⟩ := Option.map_eq_some_iff.mp hkept
    exact ⟨huuid, job', hinfo', hstop'⟩
  · by_contra hlisted
    have hstart := Bool.eq_true_of_not_eq_false hlisted
    obtain ⟨j, hj, hname⟩ := hs.list job hjob (by simp [related, hstart])
    rw [← hname, h.none_listed j hj] at hstart
    cases hstart

theorem Inv.of_reached (h : Reached api lower c) : Inv api lower c := by
  refine Txn.Steps.invariant (K := Inv api lower) ⟨by simp, by simp [api.list_empty]⟩ ?_ h
  intro c a c' hinv hok hs
  cases a with
  | provision =>
    cases Option.some.inj hs
    exact hinv.provision hok
  | terminate =>
    cases Option.some.inj hs
    exact hinv.terminate hok
  | elsewhere =>
    cases Option.some.inj hs
    exact hinv.elsewhere hok

/-- `Resources` finds the job of every resource that is not terminated. -/
theorem resources_of_live (h : Reached api lower c) (hid : id ∈ c.live) :
    "job/" ++ jobID lower id ∈ resources api lower c id := by
  obtain ⟨-, job, hinfo, hstop⟩ := (Inv.of_reached h).up id hid
  simp [resources, hinfo, hstop]

theorem listOwned_eq_nil (h : Reached api lower c) : listOwned api lower c = [] := by
  refine List.filterMap_eq_nil_iff.mpr fun job hjob => ?_
  simp [(Inv.of_reached h).none_listed job hjob]

/-! ## The listing -/

/-- The resources that are provisioned and not terminated, each once, each with its job. -/
structure ListsOwned (api : Api S) (lower : Lower) (c : Cluster S) : Prop where
  once : ((listOwned api lower c).map OwnedResource.resourceID).Nodup
  exact : ∀ id, id ∈ (listOwned api lower c).map OwnedResource.resourceID ↔ id ∈ c.live
  job : ∀ o ∈ listOwned api lower c, "job/" ++ jobID lower o.resourceID ∈ o.descriptors

/-- `Provision` names jobs `ultra-env-…` and `ListOwned` looks for `ultracore-…`: the listing is
    right only while there is nothing to list. -/
theorem owned_listing_exact (h : Reached api lower c) :
    ListsOwned api lower c ↔ c.live = [] := by
  have hnil := listOwned_eq_nil h
  constructor
  · intro hexact
    refine List.eq_nil_iff_forall_not_mem.mpr fun id hid => ?_
    have hlisted := (hexact.exact id).mpr hid
    rw [hnil] at hlisted
    exact List.not_mem_nil hlisted
  · intro hlive
    refine ⟨?_, fun id => ?_, ?_⟩
    · simp [hnil]
    · simp [hnil, hlive]
    · simp [hnil]

end

/-! ## A cluster without a scheduler -/

/-- Lower case of ASCII only. -/
def asciiLower : Lower := ⟨Char.toLower, fun _ _ => rfl⟩

/-- Another job is found as before one is purged. -/
theorem find?_purged {jobs : List Job} {name id : String} (h : id ≠ name) :
    (jobs.filter fun job => job.id ≠ name).find? (fun job => job.id = id) =
      jobs.find? fun job => job.id = id := by
  rw [List.find?_filter]
  congr 1
  funext job
  by_cases hjob : job.id = id
  · simp [hjob, h]
  · simp [hjob]

/-- The jobs in a list: one that is registered takes the place of that with its name. -/
def jobList : Api (List Job) where
  empty := []
  list jobs := jobs
  info jobs id := jobs.find? fun job => job.id = id
  allocations _ _ := []
  register jobs id := { id } :: jobs.filter fun job => job.id ≠ id
  deregister jobs id := jobs.filter fun job => job.id ≠ id
  list_empty := rfl
  info_register jobs name := ⟨{ id := name }, by simp, rfl⟩
  info_register_of_ne jobs name id h := by
    rw [List.find?_cons_of_neg (by simpa using h.symm), find?_purged h]
  info_deregister_of_ne jobs name id h := find?_purged h
  list_register jobs name job hjob := by
    rcases List.mem_cons.mp hjob with rfl | hjob
    · exact .inl rfl
    · exact .inr ⟨job, (List.mem_filter.mp hjob).1, rfl⟩
  list_deregister jobs name job hjob := ⟨job, (List.mem_filter.mp hjob).1, rfl⟩

def sampleID : ResourceID := "0f8fad5b-d9cb-469f-a165-70867728950e"

/-- One resource is provisioned in an empty cluster. -/
def sampleCluster : Cluster (List Job) := provision jobList asciiLower sampleID ⟨[], []⟩

theorem sampleCluster_reached : Reached jobList asciiLower sampleCluster :=
  .step (a := .provision sampleID) .refl (by decide : isUuid sampleID = true) rfl

theorem resources_of_live_provisioned :
    "job/" ++ jobID asciiLower sampleID ∈ resources jobList asciiLower sampleCluster sampleID :=
  resources_of_live sampleCluster_reached (by decide)

/-- The resource is terminated. -/
theorem owned_listing_exact_terminated :
    ListsOwned jobList asciiLower (terminate jobList asciiLower sampleID sampleCluster) := by
  refine (owned_listing_exact ?_).mpr rfl
  exact .step (a := .terminate sampleID) sampleCluster_reached
    (by decide : isUuid sampleID = true) rfl

/-- One resource is provisioned. Its job is there, and the listing is empty. -/
theorem owned_resource_not_listed :
    Reached jobList asciiLower sampleCluster ∧
      resources jobList asciiLower sampleCluster sampleID =
        ["job/ultra-env-0f8fad5b-d9cb-469f-a165-70867728950e"] ∧
      listOwned jobList asciiLower sampleCluster = [] ∧
      ¬ListsOwned jobList asciiLower sampleCluster := by
  have hnil := listOwned_eq_nil sampleCluster_reached
  have hname : jobID asciiLower sampleID = "ultra-env-0f8fad5b-d9cb-469f-a165-70867728950e" := by
    rw [jobID, sanitize_of_isUuid (by decide)]
    decide
  refine ⟨sampleCluster_reached, ?_, hnil, fun hexact => ?_⟩
  · simp only [resources, hname]
    decide
  · have hlisted := (hexact.exact sampleID).mpr (by decide)
    rw [hnil] at hlisted
    exact List.not_mem_nil hlisted

end Ultracore.Nomad
