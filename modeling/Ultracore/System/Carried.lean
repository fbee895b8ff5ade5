-- SUMMARY: What processes carry from one transaction to the next, in every run.
import Ultracore.System.Guarantees

/-!
# What processes carry

A process starts with something, and goes on from each of its transactions with something,
whether the transaction committed or not. What all of this satisfies, every process has in every
configuration. It may be relative to the tables, as long as whatever is committed keeps it.
-/

namespace Ultracore.System

open Txn Loop Api Tx Protocol

/-- However the transaction goes, a process that continues after it satisfies `Q`. -/
def Ends (Q : Proc → Prop) (x : Tx Proc) : Prop :=
  ∀ A d st, wp A d x st (Prog.either (fun p _ => Q p) (fun _ _ => True))

namespace Ends

variable {Q : Proc → Prop} {α : Type}

theorem pure {p : Proc} (h : Q p) : Ends Q (Pure.pure p) := by
  intro A d st
  simpa using h

theorem throw (e : Err) : Ends Q (Tx.throw e) := by
  intro A d st
  simp

theorem bind {x : Tx α} {f : α → Tx Proc} (h : ∀ a, Ends Q (f a)) : Ends Q (x >>= f) := by
  intro A d st
  rw [wp_bind]
  intro r s _
  cases r with
  | error => trivial
  | ok a => exact h a A d s

theorem mono {Q' : Proc → Prop} {x : Tx Proc} (h : ∀ p, Q p → Q' p) (hx : Ends Q x) : Ends Q' x := by
  intro A d st
  refine wp_mono (hx A d st) ?_
  intro r s hq
  cases r with
  | error => trivial
  | ok p => exact h p hq

end Ends

/-! ## Transitions -/

/-- How a streaming worker goes on. -/
inductive Streams (cfg : Settings) (d : Delivery) : Proc → Prop where
  | same : Streams cfg d (.streaming d)
  | polled (seen : Bool) : Streams cfg d (.streaming { d with cancelSeen := seen })
  | fellBack : Streams cfg d (.streaming { d with fellBack := true })
  | asked (question : Question) :
      Streams cfg d (.streaming { d with recorder := { d.recorder with question := some question } })
  | waits {children : List AgentRun} {raws : List String} {ids : List RunID} (callID : String)
      (timeout : Option Time) (policy : TimeoutPolicy) :
      namedChildren children raws = some ids →
      Streams cfg d (.streaming
        { d with recorder := d.recorder.awaitRuns (dedup ids) callID timeout .wait policy })
  | spawns (callID : String) (spec : ChildSpec) (newID : RunID) :
      Streams cfg d (.spawning d
        { tool := "spawn_agent", todo := [({ spec := spec, toolCallID := callID }, newID)] })
  | launches (callID : String) (specs : List (ChildSpec × RunID)) (timeout : Option Time)
      (policy : TimeoutPolicy) :
      Streams cfg d (.spawning d
        { tool := "run_agent_cohort"
          todo := specs.zipIdx.map fun p =>
            ({ spec := p.1.1, toolCallID := callID ++ "#" ++ toString p.2,
               cohortID := cfg.cohortHash (spawnKey d.run.id d.job.stepIndex callID),
               ordinal := p.2 }, p.1.2)
          fanIn := some (callID, timeout, policy) })
  | finished (r : AgentResult) : Streams cfg d (finished d r)
  | failed (e : StreamError) : Streams cfg d (streamFailed d e)

/-- How a worker goes on that looks for the next child. -/
inductive Spawns (d : Delivery) (s : Spawning) : Proc → Prop where
  | spawned : s.todo = [] → s.fanIn = none → Spawns d s (.streaming d)
  | launched {callID : String} {timeout : Option Time} {policy : TimeoutPolicy} : s.todo = [] →
      s.fanIn = some (callID, timeout, policy) →
      Spawns d s (.streaming
        { d with recorder := d.recorder.awaitRuns s.ids callID timeout .cohort policy })
  | denied {req : SpawnRequest} {newID : RunID} {rest : List (SpawnRequest × RunID)}
      (reason : String) : s.todo = (req, newID) :: rest →
      req.check d.run = .error (.denied reason) → Spawns d s (.denying d s.tool reason)
  | refused {req : SpawnRequest} {newID : RunID} {rest : List (SpawnRequest × RunID)} {e : Err} :
      s.todo = (req, newID) :: rest → req.check d.run = .error e → Spawns d s (.streaming d)
  | adopted {req : SpawnRequest} {newID : RunID} {rest : List (SpawnRequest × RunID)}
      {policy : RunPolicy} (id : RunID) : s.todo = (req, newID) :: rest →
      req.check d.run = .ok policy →
      Spawns d s (.spawning d { s with todo := rest, ids := s.ids ++ [id] })
  | creates {req : SpawnRequest} {newID : RunID} {rest : List (SpawnRequest × RunID)}
      {policy : RunPolicy} : s.todo = (req, newID) :: rest → req.check d.run = .ok policy →
      Spawns d s (.creating d { s with todo := rest } (childRun d.run d.job req policy newID))

/-- How a process goes on when its transaction has committed. -/
inductive Next (cfg : Settings) : Proc → Proc → Prop where
  | done (p : Proc) : Next cfg p .done
  | acking (p : Proc) (n : Nat) : Next cfg p (.acking n)
  | starts (req : StartRequest) (newID : RunID) :
      Next cfg (.start req newID) (.startTx (req.run cfg newID))
  | requests (req : Request) (run : AgentRun) : Next cfg (.request req) (.requestTx req run)
  | claimed (n : Nat) (job : StepJob) (run : AgentRun) (attempt : Nat) :
      Next cfg (.work n job) (.starting ⟨n, job, run, attempt, run.history, {}, false, false⟩)
  | started (d : Delivery) : Next cfg (.starting d) (.resolving d)
  | resolved (d : Delivery) : Next cfg (.resolving d) (resolved cfg d)
  | unresolved (d : Delivery) (reason message : String) :
      Next cfg (.resolving d) (.failing d.jobID d.job reason message)
  | compacted (d : Delivery) (covered : Nat) :
      Next cfg (.compacting d covered) (.compacted d covered)
  | noted (d : Delivery) (covered : Nat) : Next cfg (.compacted d covered) (.streaming d)
  | streams {d : Delivery} {p' : Proc} : Streams cfg d p' → Next cfg (.streaming d) p'
  | spawns {d : Delivery} {s : Spawning} {p' : Proc} : Spawns d s p' → Next cfg (.spawning d s) p'
  | created (d : Delivery) (s : Spawning) (child : AgentRun) (id : RunID) :
      Next cfg (.creating d s child) (.spawning d { s with ids := s.ids ++ [id] })
  | denied (d : Delivery) (tool reason : String) :
      Next cfg (.denying d tool reason) (.streaming d)
  | swept (n : Nat) (t : TenantID) (full : Bool) (due : List WaitID) :
      Next cfg (.sweep n t) (sweepOn n t full due)
  | closed (n : Nat) (t : TenantID) (w : WaitID) (due : List WaitID) (full : Bool) :
      Next cfg (.sweeping n t (w :: due) full) (sweepOn n t full due)

theorem callTool_next (cfg : Settings) (d : Delivery) (c : ToolCall) :
    Ends (Streams cfg d) (callTool cfg d c) := by
  unfold callTool
  split
  · exact .bind fun _ => .pure .same
  split
  · exact .pure (.asked _)
  · exact .bind fun _ => .pure .same
  · exact .bind fun _ => .pure .same
  · exact .bind fun _ => .pure .same
  · exact .pure (.spawns _ _ _)
  · split
    · exact .pure .same
    · refine .bind fun children => ?_
      split
      · exact .bind fun _ => .pure .same
      · rename_i ids hids
        split
        · exact .pure .same
        · exact .pure (.waits _ _ _ hids)
  · split
    · exact .pure .same
    · exact .pure (.launches _ _ _ _)

theorem spawnNext_next (d : Delivery) (s : Spawning) : Ends (Spawns d s) (spawnNext d s) := by
  unfold spawnNext
  split
  · rename_i htodo
    split
    · exact .pure (.spawned htodo ‹_›)
    · exact .pure (.launched htodo ‹_›)
  · rename_i req newID rest htodo
    split
    · rename_i reason hcheck
      exact .pure (.denied _ htodo hcheck)
    · rename_i e _ hcheck
      exact .pure (.refused htodo hcheck)
    · rename_i policy hcheck
      refine .bind fun found => ?_
      split
      · exact .pure (.adopted _ htodo hcheck)
      · exact .pure (.creates htodo hcheck)

theorem body_next {cfg : Settings} {p : Proc} {i : Input} {x : Tx Proc}
    (h : body cfg p i = some x) : Ends (Next cfg p) x := by
  unfold body at h
  split at h <;> try cases h
  · split
    · exact .throw _
    · exact .bind fun _ => .pure (.starts _ _)
  · exact .bind fun _ => .pure (.done _)
  · exact .bind fun _ => .pure (.requests _ _)
  · exact .bind fun _ => .pure (.done _)
  · exact .bind fun _ => .pure (.done _)
  · exact .bind fun _ => .pure (.done _)
  · refine .bind fun claimed => ?_
    split
    · exact .pure (.acking _ _)
    · exact .pure (.claimed _ _ _ _)
  · exact .bind fun _ => .pure (.started _)
  · exact .pure (.resolved _)
  · exact .pure (.unresolved _ _ _)
  · exact .pure (.done _)
  · exact .bind fun _ => .pure (.compacted _ _)
  · exact .bind fun _ => .pure (.noted _ _)
  · exact .bind fun _ => .pure (.streams .same)
  · exact (callTool_next cfg _ _).mono fun _ => .streams
  · refine .bind fun found => ?_
    split
    · exact .pure (.streams (.polled _))
    · exact .pure (.streams .same)
  · split at h <;> cases h
    exact .bind fun _ => .pure (.streams .fellBack)
  · exact .pure (.streams (.finished _))
  · exact .pure (.streams (.failed _))
  · exact (spawnNext_next _ _).mono fun _ => .spawns
  · exact .bind fun _ => .pure (.created _ _ _ _)
  · exact .bind fun _ => .pure (.denied _ _ _)
  · exact .bind fun _ => .pure (.acking _ _)
  · exact .bind fun _ => .pure (.acking _ _)
  · exact .bind fun _ => .pure (.acking _ _)
  · exact .bind fun _ => .pure (.swept _ _ _ _)
  · exact .bind fun _ => .pure (.closed _ _ _ _ _)
  · exact .bind fun _ => .pure (.acking _ _)
  · exact .bind fun _ => .pure (.done _)

/-! ## Every run -/

section
variable {cfg : Settings} {c : Conf} {log : List Write}
  {Ok : Conf → Action Input Nat Proc → Prop}
variable {j : Nat} {p p' : Proc} {i : Input} {s : Local Row Write}

/-- The tables of the span of a transaction are among those that the program can see. -/
theorem seen_of_span {cb : Conf} {rest : Prog Db Row Write Err Proc}
    (hspan : (app cfg).machine.Spans storeRegions Ok boot cb c j p i s rest) {ls : List Row} {d' : Db}
    (hsee : storeRegions.Sees (Machine.Between (app cfg).machine Ok cb c) ls c.db d') :
    Seen cfg ls c.db d' := by
  obtain ⟨hagree, log₁, log₂, c₁, h₁, h₂, rfl⟩ := hsee
  obtain ⟨log₀, h₀⟩ := hspan.before
  exact ⟨hagree, (run_sound (h₀.trans h₁)).1.integrity, App.run_extends_db h₂⟩

/-- What a transaction that is about to commit has seen: the tables of its span, which are among
    those that the program can see. -/
theorem slot_runs (hrun : RunOf cfg Ok log c) (hj : c.procs[j]? = some (.active p i s (.ret p'))) :
    ∃ cb x, (app cfg).machine.Spans storeRegions Ok boot cb c j p i s (.ret p') ∧
      body cfg p i = some x ∧
      x.prog.Runs (storeRegions.Sees (Machine.Between (app cfg).machine Ok cb c)) c.db .empty
        (.ok p') s ∧
      x.prog.Runs (Seen cfg) c.db .empty (.ok p') s := by
  obtain ⟨cb, hspan⟩ := App.spans (by simp [AtRest, boot]) hrun hj
  obtain ⟨prog, hbody, hruns⟩ := hspan.runs
  obtain ⟨x, hx, rfl⟩ := App.machine_body.mp hbody
  exact ⟨cb, x, hspan, hx, hruns, hruns.mono fun _ _ hsee => seen_of_span hspan hsee⟩

/-- The same of one that is about to be rolled back. -/
theorem slot_fails (hrun : RunOf cfg Ok log c) {e : Err}
    (hj : c.procs[j]? = some (.active p i s (.fail e))) :
    ∃ x, body cfg p i = some x ∧ x.prog.Runs (Seen cfg) c.db .empty (.error e) s := by
  obtain ⟨cb, hspan⟩ := App.spans (by simp [AtRest, boot]) hrun hj
  obtain ⟨prog, hbody, hruns⟩ := hspan.fails
  obtain ⟨x, hx, rfl⟩ := App.machine_body.mp hbody
  exact ⟨x, hx, hruns.mono fun _ _ hsee => seen_of_span hspan hsee⟩

/-- What a transaction that is about to commit has done. -/
theorem slot_outcome (hrun : RunOf cfg Ok log c)
    (hj : c.procs[j]? = some (.active p i s (.ret p'))) (hne : ∀ n, p ≠ .acking n) :
    ∃ s', s'.writes = s.writes ∧ Outcome cfg (Seen cfg) c.db p p' s' := by
  obtain ⟨cb, x, -, hx, -, hruns⟩ := slot_runs hrun hj
  have hsound := (run_sound hrun).1
  have hp : p.Ok c.db := hsound.procs p (List.mem_map.mpr ⟨_, List.mem_of_getElem? hj, rfl⟩)
  exact (body_commits hsound.integrity hp hx hruns).outcome hne

/-- What processes start with, carry on from transaction to transaction, and keep while the
    configuration changes, every process has. -/
theorem run_slots {Q : Conf → Proc → Prop}
    (hspawn : ∀ c procs p, canSpawn c.db procs p = true → Q c p)
    (hkeep : ∀ {c c' : Conf} {log ws : List Write}
      {a : Action Input Nat Proc} {p : Proc}, RunOf cfg Ok log c → Ok c a →
      (app cfg).machine.Step c a ws c' → some p ∈ c.world.procs → Q c p → Q c' p)
    (hcommit : ∀ {c c' : Conf} {log : List Write} {j : Nat}
      {p p' : Proc} {i : Input} {s : Local Row Write},
      RunOf cfg Ok log c → Ok c (.commit j) →
      (app cfg).machine.Step c (.commit j) s.writes c' → some p ∈ c.world.procs →
      c.procs[j]? = some (.active p i s (.ret p')) → c'.db = applyAll c.db s.writes →
      Q c p → Q c' p')
    (herr : ∀ c p i e, Q c p → Q c (onErr p i e)) (hrun : RunOf cfg Ok log c) :
    ∀ p, some p ∈ c.world.procs → Q c p := by
  induction hrun with
  | refl => simp [boot]
  | @step log ws c c' a hrun' hok hs ih =>
    have hkept : ∀ p, some p ∈ c.world.procs → Q c' p := fun p hp =>
      hkeep hrun' hok hs hp (ih p hp)
    have hmem : ∀ {j : Nat} {sl : Slot Db Row Write Err Input Proc} {p : Proc},
        c.procs[j]? = some sl → sl.proc = some p → some p ∈ c.world.procs := by
      intro j sl p hj hp
      exact List.mem_map.mpr ⟨sl, List.mem_of_getElem? hj, hp⟩
    have hset : ∀ {j : Nat} {sl : Slot Db Row Write Err Input Proc},
        (∀ q, sl.proc = some q → Q c' q) → ∀ p, some p ∈ (c.procs.set j sl).map Slot.proc → Q c' p := by
      intro j sl hsl p hp
      obtain ⟨sl', hsl', hproc⟩ := List.mem_map.mp hp
      rcases List.mem_or_eq_of_mem_set hsl' with hin | rfl
      · exact hkept p (List.mem_map.mpr ⟨sl', hin, hproc⟩)
      · exact hsl p hproc
    have hstep := hs
    cases hs with
    | @spawn p₀ hcan =>
      intro p hp
      simp only [Config.world_procs, List.map_append, List.mem_append] at hp
      rcases hp with hp | hp
      · exact hkept p hp
      · obtain rfl : p = p₀ := by simpa using hp
        exact hspawn _ _ _ hcan
    | begin hj _ | exec hj _ _ =>
      refine hset ?_
      rintro q ⟨⟩
      exact hkept _ (hmem hj rfl)
    | commit hj =>
      refine hset ?_
      rintro q ⟨⟩
      exact hcommit hrun' hok hstep (hmem hj rfl) hj rfl (ih _ (hmem hj rfl))
    | lose hj | rollback hj | abort hj =>
      refine hset ?_
      rintro q ⟨⟩
      exact herr _ _ _ _ (hkept _ (hmem hj rfl))
    | crash =>
      refine hset ?_
      rintro q ⟨⟩
    | env => exact hkept

/-- The same of what depends on the tables only, told by what a transaction runs. -/
theorem run_carries {Q : Db → Proc → Prop} (hspawn : ∀ d procs p, canSpawn d procs p = true → Q d p)
    (hkeep : ∀ {c c' : Conf} {log ws : List Write}
      {a : Action Input Nat Proc} {p : Proc}, RunOf cfg Ok log c → Ok c a →
      (app cfg).machine.Step c a ws c' → some p ∈ c.world.procs → Q c.db p → Q c'.db p)
    (hbody : ∀ {c c' : Conf} {log ws : List Write} {j : Nat}
      {p p' : Proc} {i : Input} {x : Tx Proc} {s : Local Row Write},
      RunOf cfg Ok log c → Ok c (.commit j) →
      (app cfg).machine.Step c (.commit j) ws c' → some p ∈ c.world.procs → body cfg p i = some x →
      x.prog.Runs (Seen cfg) c.db .empty (.ok p') s → c'.db = applyAll c.db s.writes →
      ws = s.writes → Next cfg p p' → Q c.db p → Q c'.db p')
    (herr : ∀ d p i e, Q d p → Q d (onErr p i e)) (hrun : RunOf cfg Ok log c) :
    ∀ p, some p ∈ c.world.procs → Q c.db p := by
  refine run_slots (Q := fun c p => Q c.db p) (fun c => hspawn c.db) hkeep ?_ (fun c => herr c.db) hrun
  intro c c' log j p p' i s hrun hok hs hp hj hdb hq
  obtain ⟨cb, x, -, hx, -, hruns⟩ := slot_runs hrun hj
  exact hbody hrun hok hs hp hx hruns hdb rfl (body_next hx _ _ _ _ _ hruns) hq

/-- The same of what does not depend on the tables. -/
theorem run_procs {Q : Proc → Prop} (hspawn : ∀ d procs p, canSpawn d procs p = true → Q p)
    (hnext : ∀ p p', Next cfg p p' → Q p → Q p') (herr : ∀ p i e, Q p → Q (onErr p i e))
    (hrun : RunOf cfg Ok log c) : ∀ p, some p ∈ c.world.procs → Q p :=
  run_carries (Q := fun _ => Q) hspawn (fun _ _ _ _ h => h)
    (fun _ _ _ _ _ _ _ _ hnxt h => hnext _ _ hnxt h) (fun _ => herr) hrun

end

end Ultracore.System
