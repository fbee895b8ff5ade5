-- SUMMARY: An outcome that is injected into a parent accounts for every child that its call named.
import Ultracore.Protocol.FanIn
import Ultracore.System.Carried
import Ultracore.System.Emission
import Ultracore.System.Stopping
import Ultracore.System.Verdicts

/-!
# Fan-in of children

A worker that calls `wait_for_agents` or `run_agent_cohort` carries the named children to the
commit of its step, which stores them as members of a wait. Whichever transaction closes the wait
counts these, so the outcome in the history of the parent accounts for the children of the call.
-/

namespace Ultracore.System

open Txn Loop Protocol Tx

variable {d : Delivery} {p : Proc} {i : Input} {A : Sight} {callID : String} {call : ToolCall}
  {x : Tx Proc}

/-- The call that waits for children, if it is one. -/
def ToolCall.fanIn? : ToolCall → Option FanIn
  | .waitForAgents callID runIDs _ _ => some (.waitForAgents callID runIDs)
  | .runAgentCohort callID specs _ _ => some (.runAgentCohort callID (specs.map Prod.fst))
  | _ => none

/-- On the way to `c` a worker has made the call: its transaction began in `cb` and was committed
    in `c₀`, and in between there were the tables `d₀`. -/
inductive Called (cfg : Settings)
    (Ok : Conf → Action Input Nat Proc → Prop)
    (c : Conf) : Calls where
  | intro {call : ToolCall} {f : FanIn} {d : Delivery} {cb c₀ c₁ : Conf}
      {j : Nat} {s : Local Row Write} {p' : Proc} {log₀ log₁ : List Write} {d₀ : Db} :
      call.fanIn? = some f → (app cfg).machine.Run Ok boot log₀ cb →
      cb.procs[j]? = some (.idle (.streaming d)) →
      Machine.Between (app cfg).machine Ok cb c₀ d₀ c₀.db →
      c₀.procs[j]? = some (.active (.streaming d) (.tool call) s (.ret p')) → Ok c₀ (.commit j) →
      (app cfg).machine.Step c₀ (.commit j) s.writes c₁ → (app cfg).machine.Run Ok c₁ log₁ c →
      Called cfg Ok c d.job.runID d.job.stepIndex f d₀

/-- The requests of a cohort. -/
def cohortRequests (cfg : Settings) (d : Delivery) (callID : String) (specs : List (ChildSpec × RunID)) :
    List (SpawnRequest × RunID) :=
  specs.zipIdx.map fun p =>
    ({ spec := p.1.1, toolCallID := cohortCall callID p.2,
       cohortID := cfg.cohortHash (spawnKey d.run.id d.job.stepIndex callID), ordinal := p.2 }, p.1.2)

theorem cohortRequests_length (cfg : Settings) (d : Delivery) (callID : String)
    (specs : List (ChildSpec × RunID)) : (cohortRequests cfg d callID specs).length = specs.length := by
  simp [cohortRequests]

theorem cohortRequests_get {cfg : Settings}
    {specs : List (ChildSpec × RunID)} {n : Nat} {q : SpawnRequest × RunID}
    (h : (cohortRequests cfg d callID specs)[n]? = some q) :
    q.1.toolCallID = cohortCall callID n := by
  simp only [cohortRequests, List.getElem?_map, Option.map_eq_some_iff] at h
  obtain ⟨p, hp, rfl⟩ := h
  rw [List.getElem?_zipIdx] at hp
  obtain ⟨x, -, rfl⟩ := Option.map_eq_some_iff.mp hp
  simp

/-! ## What workers carry -/

/-- The runs that the step waits for are those that a call of the step has named. -/
def Delivery.Named (S : Calls) (v : Db) (d : Delivery) : Prop :=
  d.recorder.waitRunIDs ≠ [] → ∃ ids,
    Asked S v d.job.runID d.job.stepIndex d.recorder.waitToolCallID ids ∧
      d.recorder.waitRunIDs = dedup ids

/-- The children so far of a cohort, of which the first `n` requests were taken up. -/
def Spawning.Cohort (cfg : Settings) (S : Calls) (v : Db) (d : Delivery) (s : Spawning) (n : Nat) :
    Prop :=
  ∀ callID timeout policy, s.fanIn = some (callID, timeout, policy) → ∃ specs d₀,
    S d.job.runID d.job.stepIndex (.runAgentCohort callID (specs.map Prod.fst)) d₀ ∧
    s.todo = (cohortRequests cfg d callID specs).drop n ∧ n ≤ specs.length ∧
    ∀ i id, s.ids[i]? = some id → ∃ y, v.run? id = some y ∧
      y.spawnKey = spawnKey d.job.runID d.job.stepIndex (cohortCall callID i)

/-- The child that is to be created next is that of the next request. -/
def Spawning.Awaits (d : Delivery) (s : Spawning) (child : AgentRun) : Prop :=
  ∀ callID timeout policy, s.fanIn = some (callID, timeout, policy) →
    child.spawnKey = spawnKey d.job.runID d.job.stepIndex (cohortCall callID s.ids.length)

def Proc.Naming (cfg : Settings) (S : Calls) (v : Db) : Proc → Prop
  | .starting d | .resolving d | .compacting d _ | .compacted d _ | .streaming d | .denying d _ _
  | .committing d _ _ => d.Named S v
  | .spawning d s => d.Named S v ∧ s.Cohort cfg S v d s.ids.length
  | .creating d s child =>
    d.Named S v ∧ s.Cohort cfg S v d (s.ids.length + 1) ∧ s.Awaits d child
  | _ => True

section
variable {cfg : Settings} {S S' : Calls} {v v' : Db} {d : Delivery} {s : Spawning} {n : Nat}
  (hS : ∀ r i f d₀, S r i f d₀ → S' r i f d₀) (hv : v.Extends v')
include hS hv

theorem Delivery.Named.later (h : d.Named S v) : d.Named S' v' := by
  intro hne
  obtain ⟨ids, hasked, hids⟩ := h hne
  exact ⟨ids, (hasked.later hv).mono hS, hids⟩

theorem Spawning.Cohort.later (h : s.Cohort cfg S v d n) : s.Cohort cfg S' v' d n := by
  intro callID timeout policy hfan
  obtain ⟨specs, d₀, hcall, htodo, hlen, hkeys⟩ := h callID timeout policy hfan
  refine ⟨specs, d₀, hS _ _ _ _ hcall, htodo, hlen, fun i id hi => ?_⟩
  obtain ⟨y, hy, hkey⟩ := hkeys i id hi
  obtain ⟨z, hz, hsame⟩ := hv.run hy
  exact ⟨z, hz, hsame.spawnKey.trans hkey⟩

theorem Proc.Naming.later (h : p.Naming cfg S v) : p.Naming cfg S' v' := by
  cases p with
  | starting | resolving | compacting | compacted | streaming | denying | committing =>
    exact Delivery.Named.later hS hv h
  | spawning => exact ⟨h.1.later hS hv, h.2.later hS hv⟩
  | creating => exact ⟨h.1.later hS hv, h.2.1.later hS hv, h.2.2⟩
  | _ => trivial

end

section
variable {cfg : Settings} {S : Calls} {v : Db} {p : Proc}

theorem canSpawn_naming {procs : List (Option Proc)} (h : canSpawn v procs p = true) :
    p.Naming cfg S v := by
  cases p <;> trivial

theorem onErr_naming (h : p.Naming cfg S v) (i : Input) (e : Err) : (onErr p i e).Naming cfg S v := by
  unfold onErr
  split <;> first | trivial | exact h | exact h.1

theorem resolved_naming (h : d.Named S v) : (resolved cfg d).Naming cfg S v := by
  unfold resolved
  split
  · trivial
  split
  · trivial
  · dsimp only
    split
    · exact h
    · exact h

theorem sweepOn_naming (n : Nat) (t : TenantID) (full : Bool) (due : List WaitID) :
    (sweepOn n t full due).Naming cfg S v := by
  cases due with
  | nil => cases full <;> trivial
  | cons => trivial

/-- How a tool call goes on: without children to wait for, or with those that it has found named,
    or with a cohort to launch. -/
inductive Gathers (cfg : Settings) (A : List Row → Db → Db → Prop) (v : Db) (d : Delivery)
    (call : ToolCall) : Proc → Prop where
  | streams {rec : StepRecorder} : rec.waitRunIDs = d.recorder.waitRunIDs →
      rec.waitToolCallID = d.recorder.waitToolCallID →
      Gathers cfg A v d call (.streaming { d with recorder := rec })
  | spawns {callID : String} {spec : ChildSpec} {newID : RunID} :
      call = .spawnAgent callID spec newID →
      Gathers cfg A v d call (.spawning d
        { tool := "spawn_agent", todo := [({ spec := spec, toolCallID := callID }, newID)] })
  | waits {callID : String} {raws : List String} {timeout : Option Time} {policy : TimeoutPolicy}
      {d₀ : Db} {ids : List RunID} : call = .waitForAgents callID raws timeout policy → A [] v d₀ →
      namedChildren (d₀.listedChildren d.run.tenantID d.run.id) raws = some ids →
      Gathers cfg A v d call (.streaming
        { d with recorder := d.recorder.awaitRuns (dedup ids) callID timeout .wait policy })
  | launches {callID : String} {specs : List (ChildSpec × RunID)} {timeout : Option Time}
      {policy : TimeoutPolicy} : call = .runAgentCohort callID specs timeout policy →
      Gathers cfg A v d call (.spawning d
        { tool := "run_agent_cohort", todo := cohortRequests cfg d callID specs,
          fanIn := some (callID, timeout, policy) })

theorem wp_callTool : wp A v (callTool cfg d call) .empty (Prog.either
      (fun p' _ => Gathers cfg A v d call p') (fun _ _ => True)) := by
  have hsame : Gathers cfg A v d call (.streaming d) := .streams rfl rfl
  have hdone : ∀ {α : Type} (x : Tx α) (st : Local Row Write),
      wp A v (x >>= fun _ => Pure.pure (Proc.streaming d)) st (Prog.either
        (fun p' _ => Gathers cfg A v d call p') (fun _ _ => True)) := by
    intro α x st
    exact Ends.bind (Q := Gathers cfg A v d call) (fun _ => .pure hsame) A v st
  unfold callTool
  split
  · exact hdone _ _
  cases call with
  | askUser => exact wp_pure'.mpr (.streams rfl rfl)
  | postEvent | memorySet | memoryDelete => exact hdone _ _
  | spawnAgent => exact wp_pure'.mpr (.spawns rfl)
  | waitForAgents =>
    dsimp only
    split
    · exact wp_pure'.mpr hsame
    rw [wp_bind]
    refine wp_query.mpr fun d₀ hsee => ?_
    rw [Prog.either_ok]
    split
    · exact hdone _ _
    · rename_i ids hids
      split
      · exact wp_pure'.mpr hsame
      · exact wp_pure'.mpr (.waits rfl hsee hids)
  | runAgentCohort =>
    dsimp only
    split
    · exact wp_pure'.mpr hsame
    · exact wp_pure'.mpr (.launches rfl)

/-- How a stream goes on without a tool call. -/
inductive Flows (d : Delivery) : Proc → Prop where
  | streams {d' : Delivery} : d'.job = d.job → d'.recorder = d.recorder → Flows d (.streaming d')
  | commits (step : StepResult) (final : String) : Flows d (.committing d step final)
  | fails (reason message : String) : Flows d (.failing d.jobID d.job reason message)
  | cancels : Flows d (.cancelling d.jobID d.job)
  | stops : Flows d .done

theorem streaming_flows
    (hx : body cfg (.streaming d) i = some x) (htool : ∀ call, i ≠ .tool call) : Ends (Flows d) x := by
  cases i with
  | tool call => exact absurd rfl (htool call)
  | emit =>
    cases hx
    exact .bind fun _ => .pure (.streams rfl rfl)
  | poll =>
    cases hx
    refine .bind fun found => ?_
    split
    · exact .pure (.streams rfl rfl)
    · exact .pure (.streams rfl rfl)
  | fallback =>
    dsimp only [body] at hx
    split at hx <;> cases hx
    exact .bind fun _ => .pure (.streams rfl rfl)
  | finish =>
    cases hx
    refine .pure ?_
    unfold finished
    split
    · exact .fails _ _
    · exact .commits _ _
  | streamError e =>
    cases hx
    refine .pure ?_
    unfold streamFailed
    split
    · exact .cancels
    · cases e with
      | interrupted => exact .stops
      | provider => exact .fails _ _
  | go | pages | resolve => cases hx

theorem Flows.naming (hp : Flows d p) (h : d.Named S v) : p.Naming cfg S v := by
  cases hp with
  | @streams d' hjob hrec =>
    intro hne
    rw [hrec] at hne
    obtain ⟨ids, hasked, hids⟩ := h hne
    exact ⟨ids, by simpa only [hjob, hrec] using hasked, by rw [hrec, hids]⟩
  | commits => exact h
  | _ => trivial

end

section
variable {cfg : Settings} {S : Calls} {v : Db} {d : Delivery} {s : Spawning}

/-- One more child, under the key of its position. -/
theorem Spawning.Cohort.child (h : s.Cohort cfg S v d (s.ids.length + 1)) {id : RunID} {y : AgentRun}
    (hy : v.run? id = some y) (hkey : ∀ callID timeout policy, s.fanIn = some (callID, timeout, policy) →
      y.spawnKey = spawnKey d.job.runID d.job.stepIndex (cohortCall callID s.ids.length)) :
    ({ s with ids := s.ids ++ [id] } : Spawning).Cohort cfg S v d (s.ids ++ [id]).length := by
  intro callID timeout policy hfan
  obtain ⟨specs, d₀, hcall, htodo, hlen, hkeys⟩ := h callID timeout policy hfan
  refine ⟨specs, d₀, hcall, by simpa using htodo, by simpa using hlen, fun i id' hi => ?_⟩
  rcases Machine.get_append_cases hi with hi | ⟨rfl, rfl⟩
  · exact hkeys i id' hi
  · exact ⟨y, hy, hkey callID timeout policy hfan⟩

/-- The next request is taken up. -/
theorem Spawning.Cohort.taken (h : s.Cohort cfg S v d s.ids.length) {req : SpawnRequest}
    {newID : RunID} {rest : List (SpawnRequest × RunID)} (htodo : s.todo = (req, newID) :: rest) :
    ({ s with todo := rest } : Spawning).Cohort cfg S v d (s.ids.length + 1) ∧
      ∀ callID timeout policy, s.fanIn = some (callID, timeout, policy) →
        req.toolCallID = cohortCall callID s.ids.length := by
  refine ⟨fun callID timeout policy hfan => ?_, fun callID timeout policy hfan => ?_⟩ <;>
    obtain ⟨specs, d₀, hcall, hdrop, hlen, hkeys⟩ := h callID timeout policy hfan
  · rw [htodo] at hdrop
    have hnext : s.ids.length < specs.length := by
      have := congrArg List.length hdrop
      rw [List.length_drop, cohortRequests_length, List.length_cons] at this
      omega
    refine ⟨specs, d₀, hcall, ?_, hnext, hkeys⟩
    rw [← List.tail_drop, ← hdrop, List.tail_cons]
  · rw [htodo] at hdrop
    have hget : (cohortRequests cfg d callID specs)[s.ids.length]? = some (req, newID) := by
      rw [← List.head?_drop, ← hdrop, List.head?_cons]
    exact cohortRequests_get hget

/-- A cohort that has all its children waits for them. -/
theorem Spawning.Cohort.named (h : s.Cohort cfg S v d s.ids.length) (htodo : s.todo = [])
    {timeout : Option Time} {policy : TimeoutPolicy}
    (hfan : s.fanIn = some (callID, timeout, policy)) :
    ({ d with recorder := d.recorder.awaitRuns s.ids callID timeout .cohort policy } :
      Delivery).Named S v := by
  intro _
  obtain ⟨specs, d₀, hcall, hdrop, hlen, hkeys⟩ := h callID timeout policy hfan
  have hall : s.ids.length = (specs.map Prod.fst).length := by
    rw [htodo] at hdrop
    have := congrArg List.length hdrop
    rw [List.length_drop, cohortRequests_length, List.length_nil] at this
    rw [List.length_map]
    omega
  exact ⟨s.ids, ⟨_, d₀, hcall, rfl, .runAgentCohort hall hkeys⟩, (dedup_eq_self (cohort_nodup hkeys)).symm⟩

end

section
variable {cfg : Settings} {Ok : Conf → Action Input Nat Proc → Prop}
  {c c' : Conf} {log ws : List Write} {a : Action Input Nat Proc} {s : Local Row Write} {p' : Proc}

theorem Called.step {r : RunID} {i : Nat} {f : FanIn} {d₀ : Db} (h : Called cfg Ok c r i f d₀)
    (hok : Ok c a) (hs : (app cfg).machine.Step c a ws c') : Called cfg Ok c' r i f d₀ := by
  cases h with
  | intro hf hcb hidle hbetween hj hok₀ hs₀ hrun =>
    exact .intro hf hcb hidle hbetween hj hok₀ hs₀ (hrun.step hok hs)

/-- A tool call that is committed was made, and its worker carries what it named. -/
theorem call_naming (hrun : RunOf cfg Ok log c) {j : Nat} (hok : Ok c (.commit j))
    (hs : (app cfg).machine.Step c (.commit j) s.writes c')
    (hj : c.procs[j]? = some (.active (.streaming d) (.tool call) s (.ret p')))
    (h : d.Named (Called cfg Ok c') c'.db) : p'.Naming cfg (Called cfg Ok c') c'.db := by
  obtain ⟨cb, x, hspan, hx, hruns, -⟩ := slot_runs hrun hj
  obtain ⟨log₀, hcb⟩ := hspan.before
  obtain ⟨log₁, hsince⟩ := hspan.since
  have hcalled : ∀ {f d₀}, call.fanIn? = some f →
      Machine.Between (app cfg).machine Ok cb c d₀ c.db →
      Called cfg Ok c' d.job.runID d.job.stepIndex f d₀ := fun hf hbetween =>
    .intro hf hcb hspan.idle hbetween hj hok hs .refl
  have hdok : Delivery.Ok cb.db d := (run_sound hcb).1.procs (.streaming d)
    (List.mem_map.mpr ⟨_, List.mem_of_getElem? hspan.idle, rfl⟩)
  cases hx
  cases wp_callTool _ _ hruns with
  | streams hids hcall =>
    intro hne
    obtain ⟨ids, hasked, heq⟩ := h (hids ▸ hne)
    exact ⟨ids, by simpa [hcall] using hasked, by simpa [hids] using heq⟩
  | spawns =>
    refine ⟨h, fun callID timeout policy hsome => ?_⟩
    cases hsome
  | @waits callID raws timeout policy d₀ ids hcall hsee hids =>
    subst hcall
    intro _
    -- the run was stored when the call began
    obtain ⟨x, hx⟩ := hdok.delivered.startable.1
    obtain ⟨log₂, log₃, c₁, h₁, h₂, rfl⟩ := hsee.2
    obtain ⟨y, hy, hsame⟩ := (App.run_extends_db h₁).run hx.run
    have htenant : y.tenantID = d.run.tenantID := by
      rw [hsame.tenantID, hx.tenantID, hdok.tenantID]
    rw [hdok.runID, ← htenant] at hids
    exact ⟨ids, ⟨_, _, hcalled rfl hsee.2, rfl, .waitForAgents hy hids⟩, rfl⟩
  | @launches callID specs timeout policy hcall =>
    subst hcall
    refine ⟨h, fun callID' timeout' policy' hfan => ?_⟩
    cases hfan
    exact ⟨specs, c.db, hcalled rfl (.now hsince), rfl, Nat.zero_le _, by simp⟩

/-- Every worker carries the children that its step has named. -/
theorem run_naming (hrun : RunOf cfg Ok log c) :
    ∀ p, some p ∈ c.world.procs → p.Naming cfg (Called cfg Ok c) c.db := by
  refine run_slots (Q := fun c p => p.Naming cfg (Called cfg Ok c) c.db)
    (fun c procs p hcan => canSpawn_naming hcan) ?_ ?_ (fun c p i e h => onErr_naming h i e) hrun
  · intro c c' log ws a p _ hok hs _ h
    exact h.later (fun _ _ _ _ hcall => hcall.step hok hs) (App.step_extends_db hs)
  intro c c' log j p p' i s hrun hok hs hp hj hdb h
  have hsound := (run_sound hrun).1
  have h : p.Naming cfg (Called cfg Ok c') c'.db :=
    h.later (fun _ _ _ _ hcall => hcall.step hok hs) (App.step_extends_db hs)
  obtain ⟨cb, x, -, hx, -, hruns⟩ := slot_runs hrun hj
  have hpok := hsound.procs p hp
  have hcommits := body_commits hsound.integrity hpok hx hruns
  cases body_next hx _ _ _ _ _ hruns with
  | done | acking | starts | requests | unresolved => trivial
  | claimed => exact fun hne => absurd rfl hne
  | started | compacted | noted | denied => exact h
  | resolved => exact resolved_naming h
  | swept | closed => exact sweepOn_naming _ _ _ _
  | streams =>
    by_cases htool : ∃ call, i = .tool call
    · obtain ⟨call, rfl⟩ := htool
      exact call_naming hrun hok hs hj h
    · have hflows : Flows _ p' :=
        streaming_flows hx (fun call heq => htool ⟨call, heq⟩) _ _ _ _ _ hruns
      exact hflows.naming h
  | @spawns d sp _ hspawns =>
    obtain ⟨hnamed, hcohort⟩ := h
    obtain ⟨st, -, ho⟩ := hcommits.outcome (by simp)
    cases hspawns with
    | spawned | denied | refused => exact hnamed
    | launched htodo hfan => exact hcohort.named htodo hfan
    | @adopted req newID rest policy id htodo hcheck =>
      obtain ⟨htaken, hcall⟩ := hcohort.taken htodo
      rcases ho.deed.2 req newID rest policy htodo hcheck with ⟨y, hy, hkey, heq⟩ | heq
      · obtain rfl : id = y.id := by simpa using heq
        obtain ⟨z, hz, hsame⟩ := (App.step_extends_db hs).run
          (Db.run?_of_mem hsound.integrity.runIDs hy)
        refine ⟨hnamed, htaken.child hz fun callID timeout policy hfan => ?_⟩
        rw [hsame.spawnKey, hkey, hcall callID timeout policy hfan, hpok.1.runID]
      · cases heq
    | @creates req newID rest policy htodo hcheck =>
      obtain ⟨htaken, hcall⟩ := hcohort.taken htodo
      refine ⟨hnamed, htaken, fun callID timeout policy hfan => ?_⟩
      rw [childRun, hcall callID timeout policy hfan, hpok.1.runID]
  | created d sp child id =>
    obtain ⟨hnamed, hcohort, hawaits⟩ := h
    obtain ⟨s', hs', ho⟩ := hcommits.outcome (by simp)
    obtain ⟨id', hspawned, heq⟩ := ho.deed
    obtain rfl : id = id' := by simpa using heq
    obtain ⟨y, hy, hkey⟩ := hspawned.row
    rw [hs', Config.world_db, ← hdb] at hy
    exact ⟨hnamed, hcohort.child hy fun callID timeout policy hfan =>
      hkey.trans (hawaits callID timeout policy hfan)⟩

/-! ## Transactions keep the account -/

/-- Why the transactions of a process close waits. -/
def Proc.reason : Proc → CloseReason
  | .sweeping _ _ _ _ => .timeout
  | _ => .child

theorem foreign_keeps {S : Calls} {d : Db} (op : ForeignOp) : Accounting S A d op.tx :=
  .of_only (foreign_only (fun _ => rfl) (fun _ _ => rfl) (fun _ _ _ => rfl) (fun _ => rfl) op)

/-- Every transaction keeps the members of waits, and counts them in what it injects. -/
theorem body_accounted {S : Calls} (hA : Respects A) {d : Db} (hd : Enrolled S d)
    (hp : p.Naming cfg S d) (hx : body cfg p i = some x)
    (hruns : x.prog.Runs A d .empty (.ok p') s) : Accounted S A d p.reason s.writes := by
  have hbuilt : Built fun _ x => Accounting S A d x := Accounting.built hA
  have hpure : ∀ q : Proc, Accounting S A d (Pure.pure q : Tx Proc) := fun q => hbuilt.pure q
  have hkeeps : Accounting S A d x → p.reason = .child → Accounted S A d p.reason s.writes := by
    intro hx hreason
    rw [hreason]
    exact hx .empty (.nil hd) _ _ hruns
  by_cases hsweep : p.reason = .child
  · refine hkeeps ?_ hsweep
    cases body_writing hx with
    | ordinary hx => exact hx _ hbuilt
    | close hp => cases hp ▸ hsweep
    | start => exact hbuilt.bind (hbuilt.startRun .runs_create) fun _ => hpure _
    | create => exact hbuilt.bind (hbuilt.spawnChildTx .runs_create) fun _ => hpure _
    | foreign => exact hbuilt.bind (hbuilt.forEach fun op _ => foreign_keeps op) fun _ => hpure _
    | call => exact hbuilt.bind (foreign_keeps _) fun _ => hpure _
    | commit hcommit =>
      subst hcommit
      exact hbuilt.bind (Accounting.commitOutcome hA hp) fun _ => hpure _
  · cases p with
    | sweeping n t due full =>
      cases due with
      | nil => cases hx
      | cons w due =>
        cases i with
        | go =>
          cases hx
          have hspec : wp A d (tryCloseWait t w .timeout >>= fun _ =>
              Pure.pure (sweepOn n t full due)) .empty (Prog.either
              (fun _ s => Accounted S A d .timeout s.writes) (fun _ _ => True)) := by
            rw [wp_bind]
            refine wp_either (wp_tryCloseWait_writes hA) (fun _ _ _ => trivial) ?_
            intro b s' hpost
            obtain ⟨ws, hws, hc⟩ := hpost
            rw [Prog.either_ok, wp_pure', Prog.either_ok, hws]
            have h₀ : Accounted S A d .timeout (Local.empty : Local Row Write).writes := .nil hd
            exact h₀.closes hc
          exact hspec _ _ hruns
        | _ => cases hx
    | _ => exact absurd rfl hsweep

/-- The members of every wait are the children that its call has named. -/
theorem run_enrolled (hrun : RunOf cfg Ok log c) : Enrolled (Called cfg Ok c) c.db := by
  induction hrun with
  | refl => exact ⟨fun hx => (by cases hx), fun _ => rfl⟩
  | @step log ws c c' a hrun' hok hs ih =>
    have hlater : ∀ {d : Db}, Enrolled (Called cfg Ok c) d → Enrolled (Called cfg Ok c') d :=
      fun h => h.mono fun _ _ _ _ hcall => hcall.step hok hs
    have hret : ∀ {j : Nat} {p p' : Proc} {i : Input} {s : Local Row Write},
        c.procs[j]? = some (.active p i s (.ret p')) →
        Enrolled (Called cfg Ok c) (applyAll c.db s.writes) := by
      intro j p p' i s hj
      obtain ⟨cb, x, -, hx, -, hruns⟩ := slot_runs hrun' hj
      exact (body_accounted (respects_sees _) ih (run_naming hrun' p
        (List.mem_map.mpr ⟨_, List.mem_of_getElem? hj, rfl⟩)) hx hruns).enrolled
    cases hs with
    | commit hj | lose hj => exact hlater (hret hj)
    | env => exact hlater (ih.clock _)
    | _ => exact hlater ih

/-- The run was read by the transaction that is committed, at some moment between its beginning and
    its end, over what it had written by then. -/
def ReadBy (cfg : Settings) (Ok : Conf → Action Input Nat Proc → Prop)
    (c : Conf) (a : Action Input Nat Proc) (ws₀ : List Write)
    (x : AgentRun) : Prop :=
  ∃ j p cb log d', (a = .commit j ∨ a = .lose j) ∧ committer c a = some p ∧
    (app cfg).machine.Run Ok boot log cb ∧ cb.procs[j]? = some (.idle p) ∧
    Machine.Between (app cfg).machine Ok cb c d' c.db ∧ (applyAll d' ws₀).run? x.id = some x

/-- What is injected by the transaction of a process, told by the run of the program. -/
theorem slot_injects (hrun : RunOf cfg Ok log c) {j : Nat} (ha : a = .commit j ∨ a = .lose j)
    (hj : c.procs[j]? = some (.active p i s (.ret p'))) {r : RunID} {h : Envelope} {w : WaitID}
    (hmem : .setHistory r h (.resume w) ∈ s.writes) : ∃ ws₀ wait x o f d₀ ids reads,
      ws₀ <+: s.writes ∧ (applyAll c.db ws₀).wait? w = some wait ∧
      wait.parentRunID = r ∧ (applyAll c.db ws₀).run? r = some x ∧
      x.history.appendWaitResult wait o = some h ∧ Called cfg Ok c r wait.stepIndex f d₀ ∧
      f.callID = wait.toolCallID ∧ Names d₀ (applyAll c.db s.writes) r wait.stepIndex f ids ∧
      (∀ y ∈ reads, ReadBy cfg Ok c a ws₀ y) ∧ Accounts o (dedup ids) reads ∧
      (o.timedOut = true ↔ p.reason = .timeout ∧ 0 < o.pending) := by
  obtain ⟨cb, x, hspan, hx, hruns, -⟩ := slot_runs hrun hj
  have hproc : some p ∈ c.world.procs := List.mem_map.mpr ⟨_, List.mem_of_getElem? hj, rfl⟩
  have haccount := body_accounted (A := storeRegions.Sees _) ⟨fun hsee => hsee.1⟩ (run_enrolled hrun)
    (run_naming hrun p hproc) hx hruns
  obtain ⟨st, t, wait, y, xs, hin⟩ := haccount.injected hmem
  obtain ⟨ids, ⟨f, d₀, hcalled, hcall, hnames⟩, haccounts⟩ := hin.accounts
  obtain rfl : wait.parentRunID = r := (Db.run?_id hin.parent).symm.trans hin.run
  obtain ⟨rest, hrest⟩ := hin.sofar
  have hnow : (view c.db st).Extends (applyAll c.db s.writes) := by
    rw [← hrest, applyAll_append]
    exact Db.extends_applyAll _ _
  refine ⟨st.writes, wait, y, _, f, d₀, ids, xs, hin.sofar, hin.evaluated.row, rfl, hin.parent,
    hin.history, hcalled, hcall, hnames.later hnow, fun z hz => ?_, haccounts, outcomeOf_timedOut⟩
  obtain ⟨m, -, d', hsee, hz⟩ := hin.evaluated.read_of_mem hz
  have hrow := (Db.ownRun_eq_some.mp hz).1
  rw [← Db.run?_id hrow] at hrow
  obtain ⟨log₀, hcb⟩ := hspan.before
  have hget : c.world.procs[j]? = some (some p) := by simp [hj]
  exact ⟨j, p, cb, log₀, d', ha, committer_eq ha hget, hcb, hspan.idle, hsee.2, hrow⟩

theorem Proc.reason_timeout : p.reason = .timeout ↔ ∃ n t due full, p = .sweeping n t due full := by
  cases p <;> simp [reason]

end

/-- In every run of the program, a step that writes the outcome of a wait into the history of the
    parent: a call of `wait_for_agents` or `run_agent_cohort` was made in the step that the wait
    belongs to, and the outcome accounts for the children that it named, without repetitions. It
    lists those that the transaction has read as finished, each once and by increasing position;
    the completed, failed and cancelled ones are as many as it lists, and with the pending ones
    they are all that were named. It is marked as timed out just when a sweep has closed the wait
    and a child was pending. -/
theorem fan_in_accounts_for_children (cfg : Settings)
    {Ok : Config Db Row Write Err Input Proc → Action Input Nat Proc → Prop} {log ws : List Write}
    {c c' : Config Db Row Write Err Input Proc} {a : Action Input Nat Proc}
    (hrun : (app cfg).machine.Run Ok boot log c) (hs : (app cfg).machine.Step c a ws c') {r : RunID}
    {h : Envelope} {w : WaitID} (hmem : .setHistory r h (.resume w) ∈ ws) :
    ∃ ws₀ wait x o f d₀ ids reads, ws₀ <+: ws ∧ (applyAll c.db ws₀).wait? w = some wait ∧
      wait.parentRunID = r ∧ (applyAll c.db ws₀).run? r = some x ∧
      x.history.appendWaitResult wait o = some h ∧ Called cfg Ok c r wait.stepIndex f d₀ ∧
      f.callID = wait.toolCallID ∧ Names d₀ c'.db r wait.stepIndex f ids ∧
      (∀ y ∈ reads, ReadBy cfg Ok c a ws₀ y) ∧ Accounts o (dedup ids) reads ∧
      (o.timedOut = true ↔
        (∃ n t due full, committer c a = some (.sweeping n t due full)) ∧ 0 < o.pending) := by
  have hsweep : ∀ {j : Nat} {p p' : Proc} {i : Input} {s : Local Row Write},
      a = .commit j ∨ a = .lose j → c.procs[j]? = some (.active p i s (.ret p')) →
      (p.reason = .timeout ↔ ∃ n t due full, committer c a = some (.sweeping n t due full)) := by
    intro j p p' i s ha hj
    have hget : c.world.procs[j]? = some (some p) := by simp [hj]
    simp only [committer_eq ha hget, Option.some.injEq]
    exact Proc.reason_timeout
  cases hs with
  | commit hj =>
    simpa only [hsweep (.inl rfl) hj] using slot_injects hrun (.inl rfl) hj hmem
  | lose hj =>
    simpa only [hsweep (.inr rfl) hj] using slot_injects hrun (.inr rfl) hj hmem
  | _ => cases hmem

/-- The transaction in which the child finishes while its parent waits for all its children, about
    to be committed. -/
def closeMainWait : Schedule :=
  waitForHelper ++ deliver 3 1 (helperJob 0) [] noMoreWork ++
    .act (.begin 3 .go) :: List.replicate 32 (.act (.exec 3))

theorem fan_in_accounts_for_children_helper :
    ∃ log ws c c' r h, (app sample).machine.Reaches boot log c ∧
      (app sample).machine.Step c (.commit 3) ws c' ∧ .setHistory r h (.resume mainWait) ∈ ws ∧
      ∃ i f d₀ ids reads o, Called sample (fun _ _ => True) c r i f d₀ ∧
        Names d₀ c'.db r i f ids ∧ Accounts o (dedup ids) reads := by
  have hnext : (played closeMainWait).map
      (fun c => (((app sample).machine.next c (.commit 3)).isSome,
        (pending c (.commit 3)).any (Write.injects mainWait))) = some (true, true) := by
    decide +kernel
  obtain ⟨log, c, -, hrun, hnext⟩ := play_boot hnext
  simp only [Prod.mk.injEq, Option.isSome_iff_exists] at hnext
  obtain ⟨⟨c', hnext⟩, hinjects⟩ := hnext
  obtain ⟨ws, hs⟩ := Machine.next_step hnext
  have hws := step_pending hs
  obtain ⟨wr, hwr, hinjects⟩ := List.any_eq_true.mp hinjects
  obtain ⟨r, h, rfl⟩ : ∃ r h, wr = .setHistory r h (.resume mainWait) := by
    unfold Write.injects at hinjects
    split at hinjects
    · exact ⟨_, _, by rw [of_decide_eq_true hinjects]⟩
    · cases hinjects
  rw [← hws] at hwr
  obtain ⟨ws₀, wait, x, o, f, d₀, ids, reads, -, -, -, -, -, hcalled, -, hnames, -, haccounts, -⟩ :=
    fan_in_accounts_for_children sample hrun hs hwr
  exact ⟨log, ws, c, c', r, h, hrun, hs, hwr, wait.stepIndex, f, d₀, ids, reads, o, hcalled, hnames, haccounts⟩

end Ultracore.System
