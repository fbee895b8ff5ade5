-- SUMMARY: Spawn keys: what a key tells about the tool call that asked for a child, and where it does not.
import Ultracore.System.FanIn

/-!
# Spawn keys

File `loop/spawn.go`. The key of a child is made of the parent, the step and a tool call id, to
which a cohort appends `#` and the position of the child. The tools share one space of keys, and
the vendor of the model chooses the ids: a call of `spawn_agent` can have the id that a cohort
gives to one of its members.
-/

namespace Ultracore.System

open Loop

/-- What a child is asked for by: a call of `spawn_agent`, or a position of a `run_agent_cohort`
    call. -/
inductive Site where
  | agent (callID : String)
  | member (callID : String) (i : Nat)
deriving DecidableEq

/-- The tool call id that `spawnChild` is called with. -/
def Site.toolCallID : Site → String
  | .agent callID => callID
  | .member callID i => cohortCall callID i

/-- The children that a tool call asks for. -/
def ToolCall.sites : ToolCall → List Site
  | .spawnAgent callID _ _ => [.agent callID]
  | .runAgentCohort callID specs _ _ => (List.range specs.length).map (.member callID)
  | _ => []

/-- The requests of a call that spawns are those of its sites. -/
theorem Gathers.sites {cfg : Settings} {A : Sight} {v : Db} {d d' : Delivery} {call : ToolCall}
    {s : Spawning} (h : Gathers cfg A v d call (.spawning d' s)) :
    s.todo.map (·.1.toolCallID) = call.sites.map Site.toolCallID := by
  cases h with
  | spawns hcall =>
    subst hcall
    rfl
  | launches hcall =>
    subst hcall
    simp only [cohortRequests, ToolCall.sites, List.range_eq_range', ← List.zipIdx_map_snd,
      List.map_map]
    rfl

/-- Neither is a call of `spawn_agent` under the id that the other has as a member of a cohort. -/
def Site.Apart : Site → Site → Prop
  | .agent callID, .member callID' i => callID ≠ cohortCall callID' i
  | .member callID' i, .agent callID => callID ≠ cohortCall callID' i
  | _, _ => True

/-- Sites apart are those whose ids tell them apart. -/
theorem Site.apart_iff {a b : Site} : a.Apart b ↔ (a.toolCallID = b.toolCallID → a = b) := by
  cases a with
  | agent =>
    cases b with
    | agent => exact iff_of_true trivial (congrArg agent)
    | member => simp [Apart, toolCallID]
  | member =>
    cases b with
    | agent => simp [Apart, toolCallID, eq_comm]
    | member =>
      refine iff_of_true trivial fun h => ?_
      obtain ⟨rfl, rfl⟩ := cohortCall_inj h
      rfl

/-- Two children have one key only if they are asked for by the same parent, in the same step, by
    the same tool call and, in a cohort, at the same position. This is so exactly where one parent
    does not ask for the two, in one step, at sites that are not apart. -/
theorem spawn_key_identifies_call (parent parent' : RunID) (i i' : Nat) (site site' : Site) :
    (spawnKey parent i site.toolCallID = spawnKey parent' i' site'.toolCallID →
      parent = parent' ∧ i = i' ∧ site = site') ↔
    (parent = parent' → i = i' → site.Apart site') := by
  constructor
  · rintro h rfl rfl
    exact Site.apart_iff.mpr fun hcall => (h (congrArg (spawnKey parent i) hcall)).2.2
  · intro hapart h
    obtain ⟨hparent, hstep, hcall⟩ := spawnKey_inj h
    exact ⟨hparent, hstep, Site.apart_iff.mp (hapart hparent hstep) hcall⟩

def spawner : RunID := ⟨"6ba7b810-9dad-11d1-80b4-00c04fd430c8", by decide⟩

/-- Ids with `#` do no harm among cohorts. -/
theorem spawn_key_identifies_call_members :
    ¬spawnKey spawner 0 (Site.member "call#0" 1).toolCallID =
      spawnKey spawner 0 (Site.member "call" 1).toolCallID := by
  intro h
  have hsame := (spawn_key_identifies_call spawner spawner 0 0 (.member "call#0" 1)
    (.member "call" 1)).mpr (fun _ _ => trivial) h
  exact absurd hsame.2.2 (by decide)

/-- A call of `spawn_agent` and a member of a cohort with one key. -/
theorem spawn_key_shared :
    spawnKey spawner 0 (Site.agent "call#0").toolCallID =
        spawnKey spawner 0 (Site.member "call" 0).toolCallID ∧
      Site.agent "call#0" ≠ .member "call" 0 := by
  refine ⟨rfl, ?_⟩
  decide

end Ultracore.System
