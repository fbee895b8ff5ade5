-- SUMMARY: A cohort is launched as a whole or not at all, where nothing gets in its way once it has a child.
import Ultracore.System.FanIn

/-!
# Cohorts

`run_agent_cohort` spawns its children one after another, each in a transaction of its own. What
goes wrong at a later spec ends the call with an error and leaves the children before it. If
the specs after the first child pass their checks, the run has room for each child and the database
does not fail, the call ends with all its children, and the wait names them in the order of the
specs.
-/

namespace Ultracore.System

open Txn Loop Protocol Tx

variable {s : Spawning} {sl : Slot Db Row Write Err Input Proc}
  {ok : Conf → Action Input Nat Proc → Bool} {d : Delivery} {cfg : Settings}
  {as : List (Action Input Nat Proc)} {specs : List (ChildSpec × RunID)}

/-! ## Calls that fit -/

/-- Whether a spec passes the checks that come before the database. -/
def passes (run : AgentRun) (spec : ChildSpec) : Bool :=
  match SpawnRequest.check run { spec := spec, toolCallID := "" } with
  | .ok _ => true
  | .error _ => false

/-- The checks look at nothing but the spec. -/
theorem passes_iff {run : AgentRun} {req : SpawnRequest} :
    passes run req.spec = true ↔ ∃ policy, req.check run = .ok policy := by
  have hsame : SpawnRequest.check run { spec := req.spec, toolCallID := "" } = req.check run := rfl
  unfold passes
  rw [hsame]
  cases req.check run with
  | ok | error => simp

/-- What stands behind the last `#` of a call id. -/
def afterHash (callID : String) : String :=
  String.ofList (callID.toList.reverse.takeWhile (· ≠ '#')).reverse

theorem afterHash_cohortCall (callID : String) (i : Nat) :
    afterHash (cohortCall callID i) = toString i := by
  have hdigits : ∀ x ∈ (toString i).toList.reverse, decide (x ≠ '#') = true := by
    intro x hx
    refine decide_eq_true fun heq => ?_
    exact Text.notMem_toString rfl i (heq ▸ List.mem_reverse.mp hx)
  have htext : (cohortCall callID i).toList.reverse =
      (toString i).toList.reverse ++ '#' :: callID.toList.reverse := by simp [cohortCall]
  rw [afterHash, htext, List.takeWhile_append_of_pos hdigits, List.takeWhile_cons_of_neg (by simp),
    List.append_nil, List.reverse_reverse, String.ofList_toList]

/-- A single child is not spawned under the id of a member of a cohort that is not the first. -/
def ToolCall.fits : ToolCall → Bool
  | .spawnAgent callID _ _ => !callID.toList.contains '#' || afterHash callID == "0" ||
    !Text.isNumeral (afterHash callID)
  | _ => true

/-- Nothing is in the way of the next member of a cohort that has one: its spec passes the checks;
    the run has room for it, and its id is unused or there is a run under its key. -/
def unhindered (v : Db) : Proc → Bool
  | .spawning d s =>
    s.fanIn.isNone || s.ids.isEmpty || s.todo.head?.all fun q => passes d.run q.1.spec
  | .creating d s child => s.fanIn.isNone || s.ids.isEmpty ||
    decide ((v.childIDs d.run.id).length < d.run.policy.maxChildren) &&
      ((v.run? child.id).isNone || v.runs.any fun y => y.spawnKey = child.spawnKey)
  | _ => true

/-- What the database does to a transaction of a cohort: it aborts none when there is a member,
    and the commit of a member is not lost. -/
def spared : Action Input Nat Proc → Proc → Bool
  | .abort _, .spawning _ s | .abort _, .creating _ s _ | .lose _, .spawning _ s =>
    s.fanIn.isNone || s.ids.isEmpty
  | .lose _, .creating _ s _ => s.fanIn.isNone
  | _, _ => true

/-- Tool calls fit, and nothing is in the way of a cohort that has a member. -/
def cohortsFit (c : Conf) (a : Action Input Nat Proc) : Bool :=
  match a.subject.bind fun j => c.procs[j]? with
  | some (.active (.streaming _) (.tool call) _ _) => call.fits
  | some sl => sl.proc.all fun p => unhindered c.db p && spared a p
  | none => true

theorem cohortsFit_proc {c : Conf} {a : Action Input Nat Proc} {j : Nat} {p : Proc}
    (hok : cohortsFit c a = true) (ha : a.subject = some j) (hj : c.procs[j]? = some sl)
    (hp : sl.proc = some p) (hno : ∀ d, p ≠ .streaming d) :
    unhindered c.db p = true ∧ spared a p = true := by
  simp only [cohortsFit, ha, Option.bind_some, hj] at hok
  split at hok
  · rename_i heq
    cases heq
    cases hp
    exact absurd rfl (hno _)
  · rename_i heq
    cases heq
    simpa [hp] using hok
  · rename_i heq
    cases heq

/-! ## Ordinals -/

/-- If this is the id of a member of a cohort, the ordinal is its position. -/
def Positioned (call : String) (ordinal : Nat) : Prop :=
  ∀ callID i, call = cohortCall callID i → ordinal = i

/-- The ordinal of a run is its position, if its key is that of a member. -/
def Placed (x : AgentRun) : Prop :=
  ∀ r i call, x.spawnKey = spawnKey r i call → Positioned call x.cohortOrdinal

def Proc.Placing : Proc → Prop
  | .spawning _ s => ∀ q ∈ s.todo, Positioned q.1.toolCallID q.1.ordinal
  | .creating _ s child => (∀ q ∈ s.todo, Positioned q.1.toolCallID q.1.ordinal) ∧ Placed child
  | _ => True

theorem placed_childRun {run : AgentRun} {job : StepJob} {req : SpawnRequest} {policy : RunPolicy}
    {newID : RunID} (h : Positioned req.toolCallID req.ordinal) :
    Placed (childRun run job req policy newID) := by
  intro r i call hkey
  have hkey : spawnKey run.id job.stepIndex req.toolCallID = spawnKey r i call := hkey
  obtain ⟨rfl, rfl, rfl⟩ := spawnKey_inj hkey
  exact h

theorem positioned_cohortRequests {callID : String} :
    ∀ q ∈ cohortRequests cfg d callID specs, Positioned q.1.toolCallID q.1.ordinal := by
  intro q hq callID' i hcall
  obtain ⟨p, -, rfl⟩ := List.mem_map.mp hq
  exact (cohortCall_inj hcall).2

section
variable {cfg : Settings} {c c' : Conf} {log ws : List Write}
  {a : Action Input Nat Proc}

theorem Flows.placing {p : Proc} (h : Flows d p) : p.Placing := by
  cases h <;> trivial

theorem resolved_placing (d : Delivery) : (resolved cfg d).Placing := by
  unfold resolved
  split
  · trivial
  split
  · trivial
  · dsimp only
    split <;> trivial

theorem sweepOn_placing (n : Nat) (t : TenantID) (full : Bool) (due : List WaitID) :
    (sweepOn n t full due).Placing := by
  cases due with
  | nil => cases full <;> trivial
  | cons => trivial

/-- Every worker spawns members under their positions. -/
theorem run_placing (hrun : RunOf cfg (fun c a => cohortsFit c a = true) log c) :
    ∀ p, some p ∈ c.world.procs → p.Placing := by
  refine run_slots (Q := fun _ p => p.Placing) ?_ (fun _ _ _ _ h => h) ?_ ?_ hrun
  · intro c procs p hcan
    cases p <;> trivial
  · intro c c' log j p p' i s hrun hok hs _ hj _ h
    obtain ⟨cb, x, -, hx, -, hruns⟩ := slot_runs hrun hj
    cases body_next hx _ _ _ _ _ hruns with
    | resolved => exact resolved_placing _
    | swept | closed => exact sweepOn_placing _ _ _ _
    | @streams d _ _ =>
      by_cases htool : ∃ call, i = .tool call
      · obtain ⟨call, rfl⟩ := htool
        cases hx
        cases wp_callTool _ _ hruns with
        | streams | waits => trivial
        | @spawns callID spec newID hcall =>
          -- the id of a single child has no position
          intro q hq callID' n heq
          obtain rfl := List.mem_singleton.mp hq
          have hfits : call.fits = true := by simpa [cohortsFit, Action.subject, hj] using hok
          have heq : callID = cohortCall callID' n := heq
          subst hcall heq
          have hhash : '#' ∈ (cohortCall callID' n).toList := by simp [cohortCall]
          rw [ToolCall.fits, afterHash_cohortCall, Text.isNumeral_toString] at hfits
          have hzero : toString n = "0" := by simpa [hhash] using hfits
          exact (Text.toString_injective (hzero.trans (by decide : "0" = toString 0))).symm
        | launches => exact positioned_cohortRequests
      · have hflows : Flows _ p' :=
          streaming_flows hx (fun call heq => htool ⟨call, heq⟩) _ _ _ _ _ hruns
        exact hflows.placing
    | spawns hspawns =>
      cases hspawns with
      | adopted _ htodo => exact fun q hq => h q (by simp [htodo, hq])
      | @creates req newID rest policy htodo _ =>
        have hhead : Positioned req.toolCallID req.ordinal := h (req, newID) (by simp [htodo])
        exact ⟨fun q hq => h q (by simp [htodo, hq]), placed_childRun hhead⟩
      | _ => trivial
    | created => exact h.1
    | _ => trivial
  · intro c p i e h
    unfold onErr
    split <;> trivial

/-- The rows of members have their positions as ordinals. -/
theorem run_placed (hrun : RunOf cfg (fun c a => cohortsFit c a = true) log c) :
    ∀ r x, c.db.run? r = some x → Placed x := by
  have hwrites : ∀ {d : Db} {ws : List Write}, (∀ x, .insertRun x ∈ ws → Placed x) →
      (∀ r x, d.run? r = some x → Placed x) →
      ∀ r x, (applyAll d ws).run? r = some x → Placed x := by
    intro d ws hws hd
    refine applyAll_keeps (K := fun e : Db => ∀ r x, e.run? r = some x → Placed x) ?_ hd
    intro wr hwr e he r x hx
    rw [tables_apply, Db.run?_apply] at hx
    cases wr with
    | insertRun y =>
      simp only [Write.onRun] at hx
      rcases Option.or_eq_some_iff.mp hx with hx | ⟨-, hx⟩
      · exact he r x hx
      · split at hx
        · obtain rfl := Option.some.inj hx
          exact hws y hwr
        · cases hx
    | setHistory r' | setState r' | setResult r' | requestCancel r' =>
      simp only [Write.onRun] at hx
      split at hx
      · obtain ⟨y, hy, rfl⟩ := Option.map_eq_some_iff.mp hx
        exact he _ y hy
      · exact he r x hx
    | _ => exact he r x hx
  induction hrun with
  | refl => exact fun r x hx => by cases hx
  | @step log ws c c' a hrun' hok hs ih =>
    have hret : ∀ {j : Nat} {p p' : Proc} {i : Input} {s : Local Row Write},
        c.procs[j]? = some (.active p i s (.ret p')) → ∀ x, .insertRun x ∈ s.writes → Placed x := by
      intro j p p' i s hj y hy
      obtain ⟨cb, x, -, hx, -, hruns⟩ := slot_runs hrun' hj
      have hmem : some p ∈ c.world.procs :=
        List.mem_map.mpr ⟨_, List.mem_of_getElem? hj, rfl⟩
      have hpok := (run_sound hrun').1.procs p hmem
      have hplacing := run_placing hrun' p hmem
      have honly : x.Only fun wr => ∀ y, wr = .insertRun y → Placed y := by
        refine (body_writing hx).only ?_ (by simp) (by simp) (by simp) ?_ ?_
        · rintro wr hwr y rfl
          cases hwr
        · rintro run rfl _ ⟨⟩ r n call hkey
          have hroot : run.spawnKey = "" := hpok.2
          exact absurd (hkey.symm.trans hroot) (spawnKey_ne_empty r n call)
        · rintro dl sp child rfl _ ⟨⟩
          exact hplacing.2
      obtain ⟨ws, hws, hall⟩ := Prog.Emits.wp honly _ _ hruns
      rw [Local.empty_writes, List.nil_append] at hws
      exact hall _ (hws ▸ hy) y rfl
    cases hs with
    | commit hj | lose hj => exact hwrites (hret hj) ih
    | _ => exact ih

end

/-! ## The course of a call -/

/-- Whether it creates a run or adds a job for a step. -/
def spawns : Write → Bool
  | .insertRun _ | .insertJob (.step _) _ _ => true
  | _ => false

theorem spawns_quiet {wr : Write} (h : wr.quiet = true) : spawns wr = false := by
  cases wr with
  | insertJob job =>
    cases job with
    | step => cases h
    | waitTimeout => rfl
  | insertRun => cases h
  | _ => rfl

/-- A call of `run_agent_cohort` that the worker of a step makes. -/
structure Launch where
  d : Delivery
  callID : String
  specs : List (ChildSpec × RunID)
  timeout : Option Time
  policy : TimeoutPolicy

def Launch.input (k : Launch) : Input :=
  .tool (.runAgentCohort k.callID k.specs k.timeout k.policy)

/-- Whether a process is in the middle of such a call. -/
def inCohort : Slot Db Row Write Err Input Proc → Bool
  | .active (.streaming _) (.tool (.runAgentCohort _ _ _ _)) _ _ => true
  | .idle p | .active p _ _ _ =>
    match p with
    | .spawning _ s | .creating _ s _ => s.fanIn.isSome
    | _ => false
  | .dead => false

/-- Whether the step ends a call of `run_agent_cohort` with the response that it is launched: all
    its specs are done. -/
def launches (c : Conf) : Action Input Nat Proc → Bool
  | .commit j =>
    match (c.procs[j]?).bind Slot.proc with
    | some (.spawning _ s) => s.todo.isEmpty && s.fanIn.isSome
    | _ => false
  | _ => false

/-- Process `j` is in the middle of the call, in which it has written `mine`. -/
inductive Launching (cfg : Settings)
    (Ok : Conf → Action Input Nat Proc → Prop) (j : Nat) (k : Launch) :
    List Write → Conf → Prop where
  | begin {log : List Write} {c c' : Conf} :
      (app cfg).machine.Run Ok boot log c → c.procs[j]? = some (.idle (.streaming k.d)) →
      Ok c (.begin j k.input) → (app cfg).machine.Step c (.begin j k.input) [] c' →
      Launching cfg Ok j k [] c'
  | own {mine ws : List Write} {c c' : Conf}
      {a : Action Input Nat Proc} {sl : Slot Db Row Write Err Input Proc} :
      Launching cfg Ok j k mine c → Ok c a → (app cfg).machine.Step c a ws c' →
      a.subject = some j → c'.procs[j]? = some sl → inCohort sl = true →
      Launching cfg Ok j k (mine ++ ws) c'
  | other {mine ws : List Write} {c c' : Conf}
      {a : Action Input Nat Proc} :
      Launching cfg Ok j k mine c → Ok c a → (app cfg).machine.Step c a ws c' →
      a.subject ≠ some j → Launching cfg Ok j k mine c'

/-- The first `n` specs of the call were taken up. -/
structure Launch.Progress (cfg : Settings) (k : Launch) (v : Db) (mine : List Write) (s : Spawning)
    (n : Nat) : Prop where
  fanIn : s.fanIn = some (k.callID, k.timeout, k.policy)
  cohort : s.Cohort cfg (fun _ _ f _ => f = .runAgentCohort k.callID (k.specs.map Prod.fst)) v k.d n
  none_yet : s.ids = [] → ∀ wr ∈ mine, spawns wr = false

/-- How far the call has come. -/
inductive Launch.Underway (cfg : Settings) (k : Launch) (v : Db) (mine : List Write) :
    Slot Db Row Write Err Input Proc → Prop where
  | asks (st : Local Row Write) (rest : Prog Db Row Write Err Proc) :
      (∀ wr ∈ mine, spawns wr = false) →
      Underway cfg k v mine (.active (.streaming k.d) k.input st rest)
  | looks {sl : Slot Db Row Write Err Input Proc} {s : Spawning} :
      sl.proc = some (.spawning k.d s) → k.Progress cfg v mine s s.ids.length →
      Underway cfg k v mine sl
  | creates {sl : Slot Db Row Write Err Input Proc} {s : Spawning} {child : AgentRun} :
      sl.proc = some (.creating k.d s child) → k.Progress cfg v mine s (s.ids.length + 1) →
      s.Awaits k.d child → Underway cfg k v mine sl

/-- How the step `a` ends the call. -/
inductive Launch.Over (cfg : Settings) (k : Launch) (c : Conf)
    (a : Action Input Nat Proc) (v : Db) (mine : List Write) : Proc → Prop where
  | launched {s : Spawning} : launches c a = true → s.todo = [] →
      k.Progress cfg v mine s s.ids.length →
      Over cfg k c a v mine (.streaming
        { k.d with recorder := k.d.recorder.awaitRuns s.ids k.callID k.timeout .cohort k.policy })
  | failed {q : Proc} : launches c a = false → (∀ wr ∈ mine, spawns wr = false) →
      Over cfg k c a v mine q

/-- Looking for the next child does not fail. -/
theorem wp_spawnNext_succeeds (cfg : Settings) {A : Sight} [Sharpens cfg A] {v : Db} (hd : d.Ok v) :
    wp A v (spawnNext d s) .empty (Prog.either (fun _ _ => True) (fun _ _ => False)) := by
  unfold spawnNext
  split
  · split
    · exact wp_pure'.mpr trivial
    · exact wp_pure'.mpr trivial
  split
  · exact wp_pure'.mpr trivial
  · exact wp_pure'.mpr trivial
  rw [wp_bind]
  refine wp_either (wp_findSpawned cfg hd _) (fun _ _ h => h) ?_
  intro found s' hpost
  cases found with
  | none | some => exact wp_pure'.mpr trivial

section
variable {cfg : Settings} {k : Launch} {v v' : Db} {mine ws : List Write}

theorem Launch.Progress.later {n : Nat} (h : k.Progress cfg v mine s n)
    (hv : v.Extends v') : k.Progress cfg v' mine s n :=
  ⟨h.fanIn, h.cohort.later (fun _ _ _ _ hcall => hcall) hv, h.none_yet⟩

theorem Launch.Underway.later
    (h : k.Underway cfg v mine sl) (hv : v.Extends v') : k.Underway cfg v' mine sl := by
  cases h with
  | asks _ _ hmine => exact .asks _ _ hmine
  | looks hp hk => exact .looks hp (hk.later hv)
  | creates hp hk hawaits => exact .creates hp (hk.later hv) hawaits

theorem Launch.Underway.inCohort (h : k.Underway cfg v mine sl) : inCohort sl = true := by
  cases h with
  | asks => rfl
  | looks hp hk | creates hp hk _ =>
    have hfan := hk.fanIn
    cases sl with
    | dead => cases hp
    | idle p | active p _ _ _ =>
      cases hp
      simp [System.inCohort, hfan]

/-- What is written besides spawns nothing. -/
theorem Launch.Progress.writes {n : Nat} (h : k.Progress cfg v mine s n)
    (hws : ∀ wr ∈ ws, spawns wr = false) : k.Progress cfg v (mine ++ ws) s n :=
  ⟨h.fanIn, h.cohort, fun hids wr hwr => (List.mem_append.mp hwr).elim (h.none_yet hids wr) (hws wr)⟩

end

/-- What a step of the process makes of the call. -/
def Launch.Goes (cfg : Settings) (k : Launch) (c : Conf)
    (a : Action Input Nat Proc) (c' : Conf) (j : Nat)
    (mine : List Write) : Prop :=
  ∃ sl, c'.procs[j]? = some sl ∧ (k.Underway cfg c'.db mine sl ∨ sl = .dead ∨
    ∃ q, sl = .idle q ∧ inCohort sl = false ∧ k.Over cfg c a c'.db mine q)

section
variable {cfg : Settings} {Ok : Conf → Action Input Nat Proc → Prop}
  {k : Launch} {mine ws log : List Write} {c c' : Conf} {j : Nat}
  {a : Action Input Nat Proc}

theorem set_get {sl' : Slot Db Row Write Err Input Proc} (hj : c.procs[j]? = some sl) :
    (c.procs.set j sl')[j]? = some sl' :=
  List.getElem?_set_self (List.getElem?_eq_some_iff.mp hj).1

theorem quiet_writes {s s' : Local Row Write} (hmine : ∀ wr ∈ mine, spawns wr = false)
    (heq : s'.writes = s.writes) (hws : ∀ wr ∈ s'.writes, wr.quiet = true) :
    ∀ wr ∈ mine ++ s.writes, spawns wr = false := by
  intro wr hwr
  rcases List.mem_append.mp hwr with hwr | hwr
  · exact hmine wr hwr
  · exact spawns_quiet (hws wr (heq ▸ hwr))

theorem slot_proc {p : Proc} (hj : c.procs[j]? = some sl)
    (hp : sl.proc = some p) : c.world.procs[j]? = some (some p) := by
  simp [hj, hp]

theorem body_spawning {i : Input} {x : Tx Proc}
    (h : body cfg (.spawning d s) i = some x) : x = spawnNext d s := by
  cases i with
  | go =>
    cases h
    rfl
  | _ => cases h

/-- How a call goes on that has looked for its next child. -/
theorem Launch.Progress.spawns {p' : Proc} {v v' : Db}
    (hk : k.Progress cfg v' mine s s.ids.length) (hclear : unhindered v (.spawning k.d s) = true)
    (hid : k.d.run.id = k.d.job.runID) (hrows : ∀ y ∈ v.runs, ∃ z, v'.run? y.id = some z ∧
      z.spawnKey = y.spawnKey)
    (hspawns : Spawns k.d s p') (hlook : LooksUp v k.d s p') (hlaunch : launches c a = s.todo.isEmpty) :
    k.Underway cfg v' mine (.idle p') ∨
      inCohort (.idle p') = false ∧ k.Over cfg c a v' mine p' := by
  have hfan := hk.fanIn
  -- a spec that fails its checks comes before the first child
  have hfirst : ∀ {req newID rest e}, s.todo = (req, newID) :: rest → req.check k.d.run = .error e →
      ∀ q, k.Over cfg c a v' mine q := by
    intro req newID rest e htodo hcheck q
    refine .failed (by simp [hlaunch, htodo]) (hk.none_yet ?_)
    simp only [unhindered, hfan, htodo, Option.isNone_some, Bool.false_or, Bool.or_eq_true,
      List.isEmpty_iff, List.head?_cons, Option.all_some] at hclear
    refine hclear.resolve_right fun hpass => ?_
    obtain ⟨policy, hpolicy⟩ := passes_iff.mp hpass
    cases hcheck.symm.trans hpolicy
  cases hspawns with
  | spawned _ hnone => cases hnone.symm.trans hfan
  | launched htodo hfan' =>
    cases hfan'.symm.trans hfan
    exact .inr ⟨rfl, .launched (by simp [hlaunch, htodo]) htodo hk⟩
  | denied _ htodo hcheck | refused htodo hcheck => exact .inr ⟨rfl, hfirst htodo hcheck _⟩
  | @adopted req newID rest policy id htodo hcheck =>
    obtain ⟨htaken, hcall⟩ := hk.cohort.taken htodo
    rcases hlook req newID rest policy htodo hcheck with ⟨y, hy, hkey, heq⟩ | heq
    · obtain rfl : id = y.id := by simpa using heq
      obtain ⟨z, hz, hsame⟩ := hrows y hy
      refine .inl (.looks rfl ⟨hfan, htaken.child hz fun callID timeout policy hfan => ?_, by simp⟩)
      rw [hsame, hkey, hcall callID timeout policy hfan, hid]
    · cases heq
  | @creates req newID rest policy htodo hcheck =>
    obtain ⟨htaken, hcall⟩ := hk.cohort.taken htodo
    refine .inl (.creates rfl ⟨hfan, htaken, hk.none_yet⟩ fun callID timeout policy hfan => ?_)
    rw [childRun, hcall callID timeout policy hfan, hid]

section
variable (hrun : (app cfg).machine.Run Ok boot log c) (hok : cohortsFit c a = true)
  (hs : (app cfg).machine.Step c a ws c') (ha : a.subject = some j)

include hrun hok hs ha

/-- The first transaction of the call. -/
theorem Launch.goes_asking {st : Local Row Write} {rest : Prog Db Row Write Err Proc}
    (hj : c.procs[j]? = some (.active (.streaming k.d) k.input st rest))
    (hmine : ∀ wr ∈ mine, spawns wr = false) : k.Goes cfg c a c' j (mine ++ ws) := by
  have hnil : ∀ wr ∈ mine ++ [], spawns wr = false := by simpa using hmine
  cases hs with
  | spawn | env => cases ha
  | begin hj' => cases ha; cases hj.symm.trans hj'
  | exec hj' =>
    cases ha
    cases hj.symm.trans hj'
    exact ⟨_, set_get hj, .inl (.asks _ _ hnil)⟩
  | @commit _ _ p' _ s hj' =>
    cases ha
    cases hj.symm.trans hj'
    obtain ⟨cb, x, -, hx, -, hruns⟩ := slot_runs hrun hj'
    cases hx
    obtain ⟨s', hs', ho⟩ := slot_outcome hrun hj' (by simp)
    have hquiet := quiet_writes hmine hs' ho.deed
    refine ⟨_, set_get hj, ?_⟩
    have hno : launches c (.commit j) = false := by simp [launches, hj]
    cases wp_callTool _ _ hruns with
    | streams => exact .inr (.inr ⟨_, rfl, rfl, .failed hno hquiet⟩)
    | spawns hcall | waits hcall => cases hcall
    | launches hcall =>
      cases hcall
      refine .inl (.looks rfl ⟨rfl, ?_, fun _ => hquiet⟩)
      intro callID timeout policy hfan
      cases hfan
      exact ⟨k.specs, c.db, rfl, rfl, Nat.zero_le _, by simp⟩
  | lose hj' =>
    cases ha
    cases hj.symm.trans hj'
    obtain ⟨s', hs', ho⟩ := slot_outcome hrun hj' (by simp)
    exact ⟨_, set_get hj, .inr (.inr ⟨_, rfl, rfl, .failed rfl (quiet_writes hmine hs' ho.deed)⟩)⟩
  | rollback hj' | abort hj' =>
    cases ha
    cases hj.symm.trans hj'
    exact ⟨_, set_get hj, .inr (.inr ⟨_, rfl, rfl, .failed rfl hnil⟩)⟩
  | crash =>
    cases ha
    exact ⟨_, set_get hj, .inr (.inl rfl)⟩

/-- A transaction that looks for the next child. -/
theorem Launch.goes_looking (hj : c.procs[j]? = some sl)
    (hp : sl.proc = some (.spawning k.d s)) (hk : k.Progress cfg c.db mine s s.ids.length) :
    k.Goes cfg c a c' j (mine ++ ws) := by
  obtain ⟨hclear, hspared⟩ := cohortsFit_proc hok ha hj hp (by simp)
  have hsound := (run_sound hrun).1
  have hpok : (Proc.spawning k.d s).Ok c.db :=
    hsound.procs _ (List.mem_of_getElem? (slot_proc hj hp))
  have hfan := hk.fanIn
  have hext := App.step_extends_db hs
  have hnil : k.Progress cfg c.db (mine ++ []) s s.ids.length := hk.writes (by simp)
  cases hs with
  | spawn | env => cases ha
  | begin hj' | exec hj' =>
    cases ha
    cases hj.symm.trans hj'
    cases hp
    exact ⟨_, set_get hj, .inl (.looks rfl hnil)⟩
  | @commit _ _ p' i st hj' =>
    cases ha
    cases hj.symm.trans hj'
    cases hp
    obtain ⟨st', hst', ho⟩ := slot_outcome hrun hj' (by simp)
    obtain ⟨cb, x, -, hx, -, hruns⟩ := slot_runs hrun hj'
    obtain rfl := body_spawning hx
    have hwrites : ∀ wr ∈ st.writes, spawns wr = false := fun wr hwr =>
      spawns_quiet (ho.deed.1 wr (hst' ▸ hwr))
    have hrows : ∀ y ∈ c.db.runs, ∃ z, (applyAll c.db st.writes).run? y.id = some z ∧
        z.spawnKey = y.spawnKey := by
      intro y hy
      obtain ⟨z, hz, hsame⟩ := hext.run (Db.run?_of_mem hsound.integrity.runIDs hy)
      exact ⟨z, hz, hsame.spawnKey⟩
    have hlaunch : launches c (.commit j) = s.todo.isEmpty := by simp [launches, hj, hfan]
    refine ⟨_, set_get hj, ?_⟩
    rcases ((hk.later hext).writes hwrites).spawns hclear hpok.1.runID hrows
      (spawnNext_next _ _ _ _ _ _ _ hruns) ho.deed.2 hlaunch with h | ⟨h, hover⟩
    · exact .inl h
    · exact .inr (.inr ⟨_, rfl, h, hover⟩)
  | lose hj' =>
    cases ha
    cases hj.symm.trans hj'
    cases hp
    obtain ⟨st', hst', ho⟩ := slot_outcome hrun hj' (by simp)
    have hids : s.ids = [] := by simpa [spared, hfan] using hspared
    exact ⟨_, set_get hj, .inr (.inr ⟨_, rfl, rfl, .failed rfl
      (quiet_writes (hk.none_yet hids) hst' ho.deed.1)⟩)⟩
  | rollback hj' =>
    cases ha
    cases hj.symm.trans hj'
    cases hp
    obtain ⟨x, hx, hruns⟩ := slot_fails hrun hj'
    obtain rfl := body_spawning hx
    exact (wp_spawnNext_succeeds cfg hpok.1 _ _ hruns).elim
  | abort hj' =>
    cases ha
    cases hj.symm.trans hj'
    cases hp
    have hids : s.ids = [] := by simpa [spared, hfan] using hspared
    exact ⟨_, set_get hj, .inr (.inr ⟨_, rfl, rfl, .failed rfl (hnil.none_yet hids)⟩)⟩
  | crash =>
    cases ha
    exact ⟨_, set_get hj, .inr (.inl rfl)⟩

/-- A transaction that creates the next child. -/
theorem Launch.goes_creating (hj : c.procs[j]? = some sl) {child : AgentRun}
    (hp : sl.proc = some (.creating k.d s child))
    (hk : k.Progress cfg c.db mine s (s.ids.length + 1)) (hawaits : s.Awaits k.d child) :
    k.Goes cfg c a c' j (mine ++ ws) := by
  obtain ⟨hclear, hspared⟩ := cohortsFit_proc hok ha hj hp (by simp)
  have hsound := (run_sound hrun).1
  have hpok : (Proc.creating k.d s child).Ok c.db :=
    hsound.procs _ (List.mem_of_getElem? (slot_proc hj hp))
  have hfan := hk.fanIn
  have hext := App.step_extends_db hs
  have hnil : k.Progress cfg c.db (mine ++ []) s (s.ids.length + 1) := hk.writes (by simp)
  cases hs with
  | spawn | env => cases ha
  | begin hj' | exec hj' =>
    cases ha
    cases hj.symm.trans hj'
    cases hp
    exact ⟨_, set_get hj, .inl (.creates rfl hnil hawaits)⟩
  | @commit _ _ p' i st hj' =>
    cases ha
    cases hj.symm.trans hj'
    cases hp
    obtain ⟨st', hst', ho⟩ := slot_outcome hrun hj' (by simp)
    obtain ⟨id, hspawned, rfl⟩ := ho.deed
    obtain ⟨y, hy, hkey⟩ := hspawned.row
    rw [hst'] at hy
    refine ⟨_, set_get hj, .inl (.looks rfl ⟨hfan, ?_, by simp⟩)⟩
    exact (hk.later hext).cohort.child hy fun callID timeout policy hfan =>
      hkey.trans (hawaits callID timeout policy hfan)
  | lose hj' =>
    cases ha
    cases hj.symm.trans hj'
    cases hp
    simp [spared, hfan] at hspared
  | @rollback _ _ i _ e hj' =>
    cases ha
    cases hj.symm.trans hj'
    cases hp
    -- there is room for the child and its id is free, unless it is the first
    have hids : s.ids = [] := by
      obtain ⟨x, hx, hruns⟩ := slot_fails hrun hj'
      have hrefuse : Refusal c.db (.creating k.d s child) e :=
        body_refuses hsound.integrity hpok hx hruns
      simp only [unhindered, hfan, Option.isNone_some, Bool.false_or, Bool.or_eq_true,
        List.isEmpty_iff, Bool.and_eq_true, decide_eq_true_eq, Option.isNone_iff_eq_none,
        List.any_eq_true] at hclear
      rcases hclear with hids | ⟨hroom, hfree⟩
      · exact hids
      · have hfull := hrefuse (hfree.imp id fun ⟨y, hy, hkey⟩ =>
          ⟨y.id, y, Db.run?_of_mem hsound.integrity.runIDs hy, hkey⟩)
        omega
    have hover : ∀ q, k.Over cfg c (.rollback j) c.db (mine ++ []) q := fun q =>
      .failed rfl (hnil.none_yet hids)
    refine ⟨_, set_get hj, .inr (.inr ⟨_, rfl, ?_, hover _⟩)⟩
    cases e <;> rfl
  | abort hj' =>
    cases ha
    cases hj.symm.trans hj'
    cases hp
    have hids : s.ids = [] := by simpa [spared, hfan] using hspared
    exact ⟨_, set_get hj, .inr (.inr ⟨_, rfl, rfl, .failed rfl (hnil.none_yet hids)⟩)⟩
  | crash =>
    cases ha
    exact ⟨_, set_get hj, .inr (.inl rfl)⟩

theorem Launch.Underway.own (hj : c.procs[j]? = some sl)
    (h : k.Underway cfg c.db mine sl) : k.Goes cfg c a c' j (mine ++ ws) := by
  cases h with
  | asks _ _ hmine => exact goes_asking hrun hok hs ha hj hmine
  | looks hp hk => exact goes_looking hrun hok hs ha hj hp hk
  | creates hp hk hawaits => exact goes_creating hrun hok hs ha hj hp hk hawaits

end

theorem Launching.run (h : Launching cfg Ok j k mine c) : ∃ log, RunOf cfg Ok log c := by
  induction h with
  | begin hrun _ hok hs => exact ⟨_, hrun.step hok hs⟩
  | own _ hok hs _ _ _ ih | other _ hok hs _ ih =>
    obtain ⟨log, hrun⟩ := ih
    exact ⟨_, hrun.step hok hs⟩

theorem Launching.mono {Ok' : Conf → Action Input Nat Proc → Prop}
    (hok : ∀ c a, Ok c a → Ok' c a) (h : Launching cfg Ok j k mine c) :
    Launching cfg Ok' j k mine c := by
  induction h with
  | begin hrun hidle hc hs => exact .begin (hrun.mono hok) hidle (hok _ _ hc) hs
  | own _ hc hs ha hsl hin ih => exact ih.own (hok _ _ hc) hs ha hsl hin
  | other _ hc hs hne ih => exact ih.other (hok _ _ hc) hs hne

/-- A call that lasts has come somewhere. -/
theorem Launching.underway (h : Launching cfg (fun c a => cohortsFit c a = true) j k mine c) :
    ∃ sl, c.procs[j]? = some sl ∧ k.Underway cfg c.db mine sl := by
  induction h with
  | begin _ hidle _ hs =>
    cases hs with
    | begin hj =>
      cases hidle.symm.trans hj
      exact ⟨_, set_get hj, .asks _ _ (by simp)⟩
  | own hl hok hs ha hsl hin ih =>
    obtain ⟨sl, hj, hunder⟩ := ih
    obtain ⟨log, hrun⟩ := hl.run
    obtain ⟨sl', hj', hgoes⟩ := hunder.own hrun hok hs ha hj
    cases hj'.symm.trans hsl
    rcases hgoes with h | rfl | ⟨q, rfl, hout, -⟩
    · exact ⟨_, hj', h⟩
    · cases hin
    · rw [hout] at hin
      cases hin
  | other _ _ hs hne ih =>
    obtain ⟨sl, hj, hunder⟩ := ih
    exact ⟨sl, hs.other hne hj, hunder.later (App.step_extends_db hs)⟩

/-- A launched call has a child for each spec, under the key of its position. -/
theorem Launch.Progress.all {v : Db} (hk : k.Progress cfg v mine s s.ids.length)
    (htodo : s.todo = []) : s.ids.length = k.specs.length ∧
      ∀ i id, s.ids[i]? = some id → ∃ y, v.run? id = some y ∧
        y.spawnKey = spawnKey k.d.job.runID k.d.job.stepIndex (cohortCall k.callID i) := by
  obtain ⟨specs, -, hcall, hdrop, hlen, hkeys⟩ := hk.cohort _ _ _ hk.fanIn
  have hspecs : specs.length = k.specs.length := by
    obtain ⟨-, hmap⟩ := FanIn.runAgentCohort.inj hcall
    simpa using congrArg List.length hmap
  have hnone := congrArg List.length (htodo.symm.trans hdrop)
  rw [List.length_drop, cohortRequests_length, List.length_nil] at hnone
  exact ⟨by omega, hkeys⟩

end

/-- In every run in which nothing is in the way of a cohort that has a member: a call that ends without the response
    that it is launched has created no run and added no job for a step. A call that ends with that
    response has the step wait for as many runs as there are specs. The one at each position is a
    child of the run and has its position as ordinal, and it is the only run that is stored under
    the key of that position. -/
theorem cohort_all_or_nothing (cfg : Settings) {j : Nat} {k : Launch} {mine ws : List Write}
    {c c' : Config Db Row Write Err Input Proc} {a : Action Input Nat Proc} {q : Proc}
    (h : Launching cfg (fun c a => cohortsFit c a = true) j k mine c) (hok : cohortsFit c a = true)
    (hs : (app cfg).machine.Step c a ws c') (ha : a.subject = some j)
    (hq : c'.procs[j]? = some (.idle q)) (hend : inCohort (.idle q) = false) :
    (launches c a = false → ∀ wr ∈ mine ++ ws, spawns wr = false) ∧
    (launches c a = true → ∃ ids, q = .streaming
        { k.d with recorder := k.d.recorder.awaitRuns ids k.callID k.timeout .cohort k.policy } ∧
      ids.length = k.specs.length ∧ ∀ i < k.specs.length, ∃ x ∈ c'.db.runs, ids[i]? = some x.id ∧
        x.parentRunID = some k.d.job.runID ∧ x.cohortOrdinal = i ∧ ∀ y ∈ c'.db.runs,
          y.spawnKey = spawnKey k.d.job.runID k.d.job.stepIndex (cohortCall k.callID i) ↔ y = x) := by
  obtain ⟨log, hrun⟩ := h.run
  obtain ⟨sl, hj, hunder⟩ := h.underway
  obtain ⟨sl', hj', hgoes⟩ := hunder.own hrun hok hs ha hj
  cases hj'.symm.trans hq
  rcases hgoes with h | h | ⟨_, ⟨⟩, -, hover⟩
  · rw [h.inCohort] at hend
    cases hend
  · cases h
  cases hover with
  | failed hno hmine => exact ⟨fun _ => hmine, fun hyes => (by rw [hno] at hyes; cases hyes)⟩
  | @launched s hyes htodo hk =>
    refine ⟨fun hno => (by rw [hyes] at hno; cases hno), fun _ => ?_⟩
    have hrun' := hrun.step hok hs
    have hd := (run_sound hrun').1.integrity
    obtain ⟨hlen, hkeys⟩ := hk.all htodo
    refine ⟨s.ids, rfl, hlen, fun i hi => ?_⟩
    obtain ⟨id, hid⟩ : ∃ id, s.ids[i]? = some id := ⟨_, List.getElem?_eq_getElem (hlen ▸ hi)⟩
    obtain ⟨x, hx, hkey⟩ := hkeys i id hid
    refine ⟨x, List.mem_of_find?_eq_some hx, by rw [hid, Db.run?_id hx],
      (child_of_spawnKey hd hx hkey).1, run_placed hrun' id x hx _ _ _ hkey _ _ rfl, fun y hy => ?_⟩
    constructor
    · intro hky
      exact key_unique hd (run_families hrun') hx (Db.run?_of_mem hd.runIDs hy) hkey hky
    · rintro rfl
      exact hkey

/-- Execute the steps of a call of process `j`, and collect what it writes. -/
def follow (cfg : Settings) (ok : Conf → Action Input Nat Proc → Bool)
    (j : Nat) (mine : List Write) (c : Conf) :
    List (Action Input Nat Proc) → Option (List Write × Conf)
  | [] => some (mine, c)
  | a :: as =>
    match (app cfg).machine.nextIf ok c a with
    | none => none
    | some c' =>
      if a.subject = some j then
        if (c'.procs[j]?).any inCohort then follow cfg ok j (mine ++ pending c a) c' as else none
      else follow cfg ok j mine c' as

theorem nextIf_step {c c' : Conf} {a : Action Input Nat Proc}
    (h : (app cfg).machine.nextIf ok c a = some c') :
    ok c a = true ∧ (app cfg).machine.Step c a (pending c a) c' := by
  unfold Machine.nextIf at h
  split at h
  · obtain ⟨ws, hs⟩ := Machine.next_step h
    obtain rfl := step_pending hs
    exact ⟨‹_›, hs⟩
  · cases h

theorem Launching.follow {j : Nat} {k : Launch} {mine mine' : List Write} {c c' : Conf}
    (h : Launching cfg (fun c a => ok c a = true) j k mine c)
    (hf : System.follow cfg ok j mine c as = some (mine', c')) :
    Launching cfg (fun c a => ok c a = true) j k mine' c' := by
  induction as generalizing mine c with
  | nil =>
    cases hf
    exact h
  | cons a as ih =>
    simp only [System.follow] at hf
    split at hf
    · cases hf
    rename_i c₁ hnext
    obtain ⟨hok, hs⟩ := nextIf_step hnext
    split at hf
    · rename_i ha
      split at hf
      · rename_i hin
        obtain ⟨sl, hsl, hin⟩ := (Option.any_eq_true _ _).mp hin
        exact ih (h.own hok hs ha hsl hin) hf
      · cases hf
    · exact ih (h.other hok hs ‹_›) hf

/-- The call asks for two children. -/
def twoMembers (d : Delivery) : Launch :=
  { d := d, callID := "cohort", specs := [({ prompt := "help" }, helper), ({ prompt := "look" }, reader)],
    timeout := none, policy := .resolve }

/-- Process 2 executes a transaction of `k` statements. -/
def execute (k : Nat) : List (Action Input Nat Proc) :=
  .begin 2 .go :: List.replicate k (.exec 2) ++ [.commit 2]

/-- A member is looked for and created. -/
def createMember : List (Action Input Nat Proc) := execute 1 ++ execute 8

/-- Process `j`, between two transactions. -/
def resting (j : Nat) (c : Conf) : Option Proc :=
  match c.procs[j]? with
  | some (.idle p) => some p
  | _ => none

theorem resting_idle {j : Nat} {c : Conf} {p : Proc}
    (h : resting j c = some p) : c.procs[j]? = some (.idle p) := by
  unfold resting at h
  split at h
  · cases h
    assumption
  · cases h

/-- The step that a process streams. -/
def Proc.streamed? : Proc → Option Delivery
  | .streaming d => some d
  | _ => none

/-- Process 2 calls `run_agent_cohort` in a run that may have `n` children, and takes the steps `as`. -/
def playCohort (ok : Conf → Action Input Nat Proc → Bool) (n : Int)
    (as : List (Action Input Nat Proc)) :
    Option (Delivery × List Write × Conf) :=
  ((app sample).machine.play ok boot (startLimited n ++ stream 2 0 (mainJob 0))).bind fun c =>
    ((resting 2 c).bind Proc.streamed?).bind fun d =>
      ((app sample).machine.nextIf ok c (.begin 2 (twoMembers d).input)).bind fun c =>
        (follow sample ok 2 [] c as).map fun r => (d, r)

theorem playCohort_launching {n : Int} {r : Delivery × List Write × Conf}
    (h : playCohort ok n as = some r) :
    Launching sample (fun c a => ok c a = true) 2 (twoMembers r.1) r.2.1 r.2.2 := by
  obtain ⟨c, hplay, h⟩ := Option.bind_eq_some_iff.mp h
  obtain ⟨d, hd, h⟩ := Option.bind_eq_some_iff.mp h
  obtain ⟨c', hnext, h⟩ := Option.bind_eq_some_iff.mp h
  obtain ⟨⟨mine, c''⟩, hfollow, rfl⟩ := Option.map_eq_some_iff.mp h
  obtain ⟨log, hrun⟩ := Machine.play_run hplay
  obtain ⟨hok, hs⟩ := nextIf_step hnext
  obtain ⟨p, hp, hd⟩ := Option.bind_eq_some_iff.mp hd
  cases p with
  | streaming =>
    cases hd
    have hbegun : Launching sample (fun c a => ok c a = true) 2 (twoMembers d) [] c' :=
      .begin hrun (resting_idle hp) hok hs
    exact hbegun.follow hfollow
  | _ => cases hd

/-- Both members are created, and the call is about to end. -/
def launchTwo : List (Action Input Nat Proc) :=
  .commit 2 :: createMember ++ createMember ++ [.begin 2 .go]

theorem cohort_all_or_nothing_two :
    ∃ k mine ws c c' q, Launching sample (fun c a => cohortsFit c a = true) 2 k mine c ∧
      (app sample).machine.Step c (.commit 2) ws c' ∧ c'.procs[2]? = some (.idle q) ∧
      launches c (.commit 2) = true ∧ ∃ ids : List RunID, ids.length = 2 ∧
        ∀ i < 2, ∃ x ∈ c'.db.runs, ids[i]? = some x.id ∧ x.cohortOrdinal = i := by
  have hplay : ((playCohort cohortsFit 2 launchTwo).bind fun r =>
      ((app sample).machine.nextIf cohortsFit r.2.2 (.commit 2)).map fun c' =>
        (launches r.2.2 (.commit 2), (resting 2 c').map fun q => inCohort (.idle q))) =
      some (true, some false) := by decide +kernel
  obtain ⟨⟨d, mine, c⟩, hcohort, hend⟩ := Option.bind_eq_some_iff.mp hplay
  obtain ⟨c', hnext, hend⟩ := Option.map_eq_some_iff.mp hend
  simp only [Prod.mk.injEq, Option.map_eq_some_iff] at hend
  obtain ⟨hlaunches, q, hq, hout⟩ := hend
  obtain ⟨hok, hs⟩ := nextIf_step hnext
  have hlaunching := playCohort_launching hcohort
  have hidle := resting_idle hq
  obtain ⟨ids, -, hlen, hchildren⟩ :=
    (cohort_all_or_nothing sample hlaunching hok hs rfl hidle hout).2 hlaunches
  refine ⟨_, mine, _, c, c', _, hlaunching, hs, hidle, hlaunches, ids, hlen, fun i hi => ?_⟩
  obtain ⟨x, hx, hid, -, hordinal, -⟩ := hchildren i hi
  exact ⟨x, hx, hid, hordinal⟩

/-- The first member is created, and there is no room for the second. -/
def launchOne : List (Action Input Nat Proc) :=
  .commit 2 :: createMember ++ execute 1 ++ [.begin 2 .go, .exec 2, .exec 2]

/-- With a limit of one child, the call is refused after it has created a child. -/
theorem cohort_all_or_nothing_refused :
    ∃ k mine ws c c' q, Launching sample (fun _ _ => True) 2 k mine c ∧
      (app sample).machine.Step c (.rollback 2) ws c' ∧ c'.procs[2]? = some (.idle q) ∧
      inCohort (.idle q) = false ∧ launches c (.rollback 2) = false ∧
      q.refusal? = some ("run_agent_cohort", "max children reached") ∧
      ∃ wr ∈ mine, spawns wr = true := by
  have hplay : ((playCohort (fun _ _ => true) 1 launchOne).bind fun r =>
      ((app sample).machine.nextIf (fun _ _ => true) r.2.2 (.rollback 2)).bind fun c' =>
        (resting 2 c').map fun q => (q.refusal?, inCohort (.idle q), r.2.1.any spawns)) =
      some (some ("run_agent_cohort", "max children reached"), false, true) := by decide +kernel
  obtain ⟨⟨d, mine, c⟩, hcohort, hend⟩ := Option.bind_eq_some_iff.mp hplay
  obtain ⟨c', hnext, hend⟩ := Option.bind_eq_some_iff.mp hend
  obtain ⟨-, hs⟩ := nextIf_step hnext
  obtain ⟨q, hq, hend⟩ := Option.map_eq_some_iff.mp hend
  simp only [Prod.mk.injEq, List.any_eq_true] at hend
  obtain ⟨hrefused, hout, hspawned⟩ := hend
  exact ⟨_, mine, _, c, c', q, (playCohort_launching hcohort).mono fun _ _ _ => trivial, hs,
    resting_idle hq, hout, rfl, hrefused, hspawned⟩

end Ultracore.System
