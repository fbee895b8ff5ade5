-- SUMMARY: When a live resource always has a job that looks after it.
import Ultracore.Resourcework.Queue
import Ultracore.Resourcework.Reads

/-!
# Observation

A resource that is not at its end is kept moving by queue jobs: what brings it into a state
also enqueues the job that takes it further, and a `Reconcile` enqueues its successor. The
last transaction of `Reconcile` drops the observation if it does not find the resource ready,
and relies on whoever changed the state. `ResourceSuspend` enqueues nothing, so `watched`
keeps it out of that window.
-/

namespace Ultracore.Resourcework

open Txn

variable {svc : Service}
variable {st : ResourceState} {d : Db} {p : Proc} {w : World Db Proc} {ws : List Write}

/-- The jobs that look after a resource in a state. -/
def coveredBy : ResourceState → List Job
  | .requested => [.provision]
  | .provisioning => [.provision, .restart]
  | .ready | .suspended => [.reconcile]
  | .terminating => [.terminate]
  | _ => []

/-- A worker at this point does not drop a resource in the state: it reads the state again,
    takes the resource out of it, or enqueues a successor. -/
def Proc.attends (st : ResourceState) : Proc → Bool
  | .provision _ | .marking _ _ => st = .requested || st = .provisioning
  | .announcing _ _ | .building _ _ | .acquiring _ _ | .creating _ _ | .storing _ _ _
  | .warming _ _ | .publishing _ _ _ | .restart _ | .rebuilding _ _ | .rotating _ _ _
  | .restarting _ _ _ | .rewarming _ _ | .republishing _ _ _ | .discarding _ _ _ =>
    st = .provisioning
  | .terminate _ | .resolving _ _ | .removing _ _ | .retiring _ _ => st = .terminating
  | .reconcile _ | .suspending _ _ _ | .rearming _ => st = .ready || st = .suspended
  | .checking _ _ | .observing _ => st = .ready
  | .inspecting _ _ | .resuming _ => st = .suspended
  | .recovering _ _ | .watching _ | .redriving _ | .acking _ => false
  | _ => true

/-- An `ack` aside, what a process does after an error is no worse. -/
theorem Proc.onErr_attends {i : Input} {e : Err}
    (h : p.attends st = true) : (p.onErr i e).attends st = true := by
  unfold Proc.onErr
  split
  case h_3 =>
      split
      · exact h
      · rfl
  case h_8 =>
      simp only [Proc.attends, decide_eq_true_eq] at h
      simp [Proc.attends, h]
  all_goals first | rfl | exact h

/-- What enqueues a job that looks after the resource in the state. -/
def Enqueues (ws : List Write) (st : ResourceState) : Prop :=
  ∃ k ∈ coveredBy st, ∃ t, Write.insertJob k t ∈ ws

/-- A commit that brings the resource into a live state enqueues a job that looks after it, or
    its process does, except for the operator's suspension. -/
theorem Commits.enters {p' : Proc}
    (h : Commits svc d p p' ws) (hst : (applyAll d ws).state? = some st)
    (hlive : coveredBy st ≠ []) (hne : d.state? ≠ some st) : Enqueues ws st ∨
    (∃ n ks, p.worker = some (n, ks) ∧ ks ⊆ coveredBy st ∧ p'.attends st = true ∧
      ∀ i e, p.onErr i e = .done) ∨
    (∃ message, p = .adminSuspend message) ∧ d.state? = some .ready ∧ st = .suspended := by
  cases h with
  | request =>
    obtain rfl : .requested = st := Option.some.inj hst
    exact .inl ⟨.provision, by decide, by simp⟩
  | requestRestart | adminRestart =>
    obtain rfl : .provisioning = st := Option.some.inj hst
    exact .inl ⟨.restart, by decide, by simp⟩
  | requestTerminate | adminTerminate =>
    obtain rfl : .terminating = st := Option.some.inj hst
    exact .inl ⟨.terminate, by decide, by simp⟩
  | published | republished | resumed =>
    obtain rfl : .ready = st := Option.some.inj hst
    exact .inl ⟨.reconcile, by decide, by simp [readyWrites]⟩
  | marking =>
    obtain rfl : .provisioning = st := Option.some.inj hst
    exact .inr (.inl ⟨_, _, rfl, by decide, rfl, fun _ _ => rfl⟩)
  | suspended hrow hstate =>
    obtain rfl : .suspended = st := by
      simpa [applyAll, Tables.apply, Db.apply, Db.state?, Resources.suspended, hstate] using hst
    exact .inr (.inl ⟨_, _, rfl, by decide, rfl, fun _ _ => rfl⟩)
  | adminSuspend hrow =>
    refine .inr (.inr ⟨⟨_, rfl⟩, ?_⟩)
    rename_i r t _ message'
    have hst : (Resources.suspended message' t r).state = st := Option.some.inj hst
    simp only [Db.state?_of_row hrow, ne_eq, Option.some.injEq] at hne ⊢
    unfold Resources.suspended at hst
    split at hst
    · rename_i hor
      obtain rfl := hst
      exact ⟨hor.resolve_right hne, rfl⟩
    · exact absurd hst hne
  | failed | retired =>
    cases hst
    exact absurd rfl hlive
  | stored hrow | rotated hrow =>
    exact absurd ((Db.state?_of_row hrow).trans hst) hne
  | _ => exact absurd hst hne

/-- A worker that looks after the resource goes on doing so, or enqueues a successor, as long
    as the state stays. -/
theorem Commits.stays {p' : Proc}
    (h : Commits svc d p p' ws) (hread : Reads d p' p) (hst : d.state? = some st)
    (hst' : (applyAll d ws).state? = some st) (hlive : coveredBy st ≠ [])
    (hp : p.attends st = true) : p'.attends st = true ∨ Enqueues ws st := by
  have hstate : ∀ {r}, d.row = some r → r.state = st := fun hrow =>
    Option.some.inj ((Db.state?_of_row hrow).symm.trans hst)
  cases h with
  | provision =>
    obtain ⟨r, hrow, heq⟩ := hread
    rw [heq]
    simp only [Proc.attends, Bool.or_eq_true, decide_eq_true_eq] at hp
    rcases hp with rfl | rfl <;>
      simp [Proc.afterProvisionRead, hstate hrow, ResourceState.terminal, Proc.attends]
  | restart | terminate =>
    obtain ⟨r, hrow, heq⟩ := hread
    rw [heq]
    simp only [Proc.attends, decide_eq_true_eq] at hp
    subst hp
    simp [Proc.afterRestartRead, Proc.afterTerminateRead, hstate hrow, ResourceState.terminal,
      Proc.attends]
  | reconcile =>
    rw [show _ = Proc.afterReconcileRead _ d.row from hread]
    cases hrow : d.row with
    | none => simp [Db.state?, hrow] at hst
    | some =>
      simp only [Proc.attends, Bool.or_eq_true, decide_eq_true_eq] at hp
      rcases hp with rfl | rfl <;>
        simp [Proc.afterReconcileRead, hstate hrow, Proc.attends]
  | recovering | watched | redriven | notRedriven | acked => cases hp
  | unpublished hrow hne | notObserved hrow hne | notResumed hrow hne =>
    simp [Proc.attends, ← hstate hrow, hne] at hp
  | notRepublished hrow hterm =>
    simp only [Proc.attends, decide_eq_true_eq] at hp
    simp [hstate hrow, hp, ResourceState.terminal] at hterm
  | published | republished | resumed =>
    cases hst'
    cases hp
  | failed | retired =>
    cases hst'
    exact absurd rfl hlive
  | observed hrow hready =>
    obtain rfl : .ready = st := hready.symm.trans (hstate hrow)
    exact .inr ⟨.reconcile, by decide, by simp⟩
  | rearmed =>
    simp only [Proc.attends, Bool.or_eq_true, decide_eq_true_eq] at hp
    rcases hp with rfl | rfl <;> exact .inr ⟨.reconcile, by decide, by simp⟩
  | marking =>
    cases hst'
    exact .inl rfl
  | healthy => exact .inl hp
  | _ =>
    simp only [Proc.attends, Bool.or_eq_true, decide_eq_true_eq] at hp ⊢
    simp [hp]

/-! ## Runs -/

/-- A worker between its read of a ready resource and the transaction that enqueues its
    successor. -/
def Proc.observes : Proc → Bool
  | .checking _ _ | .observing _ => true
  | _ => false

/-- The queue gives a job to one worker at a time, and the operator suspends a ready resource
    only while no worker observes it. -/
def watched (w : World Db Proc) (a : Action Input Nat Proc) : Bool :=
  oneWorker w a &&
    match a with
    | .commit j | .lose j =>
      match w.procs[j]? with
      | some (some (.adminSuspend _)) =>
        w.db.state? ≠ some .ready || w.procs.all fun p => !p.any Proc.observes
      | _ => true
    | _ => true

/-- A live resource has a job that looks after it, and so does the worker of that job. -/
def Covered (w : World Db Proc) : Prop :=
  ∀ st, w.db.state? = some st → coveredBy st ≠ [] →
    ∃ q ∈ w.db.jobs, q.job ∈ coveredBy st ∧
      ∀ {m : Nat} {p : Proc}, w.procs[m]? = some (some p) → p.job = some q.id → p.attends st = true

theorem Proc.attends_suspended (h : p.attends .ready = true) (hp : p.observes = false) :
    p.attends .suspended = true := by
  cases p <;> first | rfl | cases h; done | cases hp

theorem watched_suspend {a : Action Input Nat Proc} {j : Nat} {message : String}
    (ha : a = .commit j ∨ a = .lose j) (hj : w.procs[j]? = some (some (.adminSuspend message)))
    (hok : watched w a = true) (hready : w.db.state? = some .ready) :
    ∀ p, some p ∈ w.procs → p.observes = false := by
  have hall : w.procs.all (fun p => !p.any Proc.observes) = true := by
    rcases ha with rfl | rfl <;> simpa [watched, oneWorker, hj, hready] using hok
  intro p hp
  simpa using List.all_eq_true.mp hall (some p) hp

section
variable {w : World Db Proc} {a : Action Input Nat Proc} {j : Nat} {p p' r : Proc} {ws : List Write}

/-- A process that goes on has no job that is new. -/
theorem Staffed.old_job (h : Staffed w) (hj : w.procs[j]? = some (some p)) (hr : p.Continues r)
    {m n : Nat} {q : Proc} (hm : (w.procs.set j (some r))[m]? = some (some q))
    (hn : q.job = some n) : n < w.db.nextJob := by
  obtain ⟨q₀, hold, hn, -⟩ := hr.before hj hm hn
  exact h.below hold hn

/-- Who looks after the resource goes on doing so while the state stays. -/
theorem Covered.same (h : Covered w)
    (hj : w.procs[j]? = some (some p)) (hr : p.Continues r) (hst : w.db.state? = some st)
    (hlive : coveredBy st ≠ []) (hjobs : ∀ q ∈ w.db.jobs, q ∈ d.jobs ∨ p = .acking q.id)
    (hatt : p.attends st = true → r.attends st = true) : ∃ q ∈ d.jobs, q.job ∈ coveredBy st ∧
      ∀ {m : Nat} {q₀ : Proc}, (w.procs.set j (some r))[m]? = some (some q₀) →
        q₀.job = some q.id → q₀.attends st = true := by
  obtain ⟨q, hq, hk, hprocs⟩ := h st hst hlive
  refine ⟨q, ?_, hk, fun hm hn => ?_⟩
  · rcases hjobs q hq with hq' | rfl
    · exact hq'
    · cases hprocs hj rfl
  · obtain ⟨q₀, hold, hn, rfl | ⟨rfl, rfl⟩⟩ := hr.before hj hm hn
    · exact hprocs hold hn
    · exact hatt (hprocs hold hn)

/-- Whether its process learns of it or not, a commit leaves a live resource covered. -/
theorem Covered.commit (h : Covered w) (hstaff : Staffed w) (hj : w.procs[j]? = some (some p))
    (hc : Commits svc w.db p p' ws) (ha : a = .commit j ∨ a = .lose j) (hok : watched w a = true)
    (hr : r = p' ∧ Reads w.db p' p ∨ ∃ i, r = p.onErr i .broken) :
    Covered ⟨applyAll w.db ws, w.procs.set j (some r)⟩ := by
  intro st hst hlive
  have hcont : p.Continues r := by
    rcases hr with ⟨rfl, -⟩ | ⟨i, rfl⟩
    · exact hc.continues
    · exact Proc.onErr_continues
  by_cases henq : Enqueues ws st
  · -- The new job has no worker yet.
    obtain ⟨k, hk, t, hins⟩ := henq
    have hkeeps : ∀ n, .deleteJob n ∉ ws := by
      intro n hn
      obtain rfl := hc.deletes hn
      cases hc
      simp at hins
    obtain ⟨q, hq, rfl, hid⟩ := exists_job_applyAll (d := w.db) hins hkeeps
    refine ⟨q, hq, hk, fun hm hn => ?_⟩
    exact absurd (hstaff.old_job hj hcont hm hn) (Nat.not_lt.mpr hid)
  have hjobs : ∀ q ∈ w.db.jobs, q ∈ (applyAll w.db ws).jobs ∨ p = .acking q.id := by
    intro q hq
    by_cases hdel : .deleteJob q.id ∈ ws
    · exact .inr (hc.deletes hdel)
    · exact .inl (mem_jobs_applyAll hq hdel)
  by_cases hsame : w.db.state? = some st
  · refine h.same hj hcont hsame hlive hjobs fun hp => ?_
    rcases hr with ⟨rfl, hread⟩ | ⟨i, rfl⟩
    · exact (hc.stays hread hsame hst hlive hp).resolve_right henq
    · exact Proc.onErr_attends hp
  rcases hc.enters hst hlive hsame with henq' | ⟨n, ks, hw, hks, hp', herr⟩ | ⟨⟨message, rfl⟩, hready, rfl⟩
  · exact absurd henq' henq
  · -- The process that has changed the state looks after it by its own job.
    obtain ⟨q, hq, rfl, hk⟩ := hstaff.held hj hw
    refine ⟨q, (hjobs q hq).resolve_right ?_, hks hk, fun hm hn => ?_⟩
    · rintro rfl
      cases hc
      exact hsame hst
    · rcases Machine.get_set_cases hm with ⟨-, heq⟩ | ⟨hne, hold⟩
      · cases heq
        rcases hr with ⟨rfl, -⟩ | ⟨i, rfl⟩
        · exact hp'
        · rw [herr]
          rfl
      · exact absurd (hstaff.single hold hj hn (Proc.worker_job hw)) hne
  · -- No worker is in the window, so the job of the ready resource looks after it further on.
    obtain ⟨q, hq, hk, hprocs⟩ := h .ready hready (by decide)
    have hfree := watched_suspend ha hj hok hready
    refine ⟨q, (hjobs q hq).resolve_right (by simp), hk, fun hm hn => ?_⟩
    rcases Machine.get_set_cases hm with ⟨-, heq⟩ | ⟨-, hold⟩
    · cases heq
      obtain ⟨ks', hw'⟩ := Proc.job_worker hn
      obtain ⟨ks, hw, -⟩ := hcont hw'
      cases hw
    · exact Proc.attends_suspended (hprocs hold hn) (hfree _ (List.mem_of_getElem? hold))

/-- A worker that starts looks after what its job looks after. -/
theorem Proc.canSpawn_attends {n : Nat} {ks : List Job} {k : Job}
    (h : p.canSpawn d = true) (hw : p.worker = some (n, ks)) (hk : k ∈ ks)
    (hst : k ∈ coveredBy st) : p.attends st = true := by
  cases p with
  | provision | restart | reconcile | terminate =>
    cases hw
    obtain rfl := List.mem_singleton.mp hk
    cases st <;> first | rfl | simp [coveredBy] at hst
  | _ => first | cases hw; done | cases h

theorem Covered.moves {w' : World Db Proc} (h : Covered w) (hstaff : Staffed w)
    (hok : watched w a = true) (hm : Moves svc w a ws w') (hfresh : Fresh w a w') : Covered w' := by
  cases hm with
  | commit hj hc =>
    have hread := hfresh rfl hj (List.getElem?_set_self (List.getElem?_eq_some_iff.mp hj).1)
    exact h.commit hstaff hj hc (.inl rfl) hok (.inl ⟨rfl, hread⟩)
  | lose hj hc => exact h.commit hstaff hj hc (.inr rfl) hok (.inr ⟨_, rfl⟩)
  | fails _ hj =>
    intro st hst hlive
    exact h.same hj Proc.onErr_continues hst hlive (fun q hq => .inl hq) Proc.onErr_attends
  | spawn hspawn =>
    intro st hst hlive
    obtain ⟨q, hq, hk, hprocs⟩ := h st hst hlive
    refine ⟨q, hq, hk, fun hm hn => ?_⟩
    rcases Machine.get_append_cases hm with hold | ⟨-, hnew⟩
    · exact hprocs hold hn
    · cases hnew
      obtain ⟨ks, hw⟩ := Proc.job_worker hn
      obtain ⟨q', hq', hid, hk'⟩ := Proc.canSpawn_worker hspawn hw
      obtain rfl := hstaff.tidy.distinct hq' hq hid
      exact Proc.canSpawn_attends hspawn hw hk' hk
  | crash =>
    intro st hst hlive
    obtain ⟨q, hq, hk, hprocs⟩ := h st hst hlive
    refine ⟨q, hq, hk, fun hm hn => ?_⟩
    rcases Machine.get_set_cases hm with ⟨-, heq⟩ | ⟨-, hold⟩
    · cases heq
    · exact hprocs hold hn
  | tick => exact h

end

/-- A job that stays outstanding: no worker of it has returned without an error. -/
def Outstanding (w : World Db Proc) (q : QueuedJob) : Prop :=
  q ∈ w.db.jobs ∧ acked w q.id = false

theorem run_covered {t : Time} {log : List Write} {c : System}
    (hrun : RunNow svc watched (boot t) log c) : Staffed c.world ∧ Covered c.world := by
  refine run_keeps_now (K := fun w => Staffed w ∧ Covered w) (fun h hok hm hfresh => ?_) ?_ hrun
  · exact ⟨h.1.moves (Bool.and_eq_true_iff.mp hok).1 hm, h.2.moves h.1 hok hm hfresh⟩
  · exact ⟨staffed_boot, fun _ hst => by cases hst⟩

theorem Covered.outstanding (h : Covered w)
    (hst : w.db.state? = some st) (hlive : coveredBy st ≠ []) :
    ∃ q, Outstanding w q ∧ q.job ∈ coveredBy st := by
  obtain ⟨q, hq, hk, hprocs⟩ := h st hst hlive
  refine ⟨q, ⟨hq, eq_false_of_ne_true fun hack => ?_⟩, hk⟩
  obtain ⟨m, hm⟩ := acked_eq_true.mp hack
  cases hprocs hm rfl

/-- As long as the condition holds, a resource that is requested, provisioning, ready or
    suspended has an outstanding `Provision`, `Restart` or `Reconcile` job, and one that is
    terminating an outstanding `Terminate` job. -/
theorem live_resource_observed (svc : Service) {t : Time} {log : List Write} {c : System}
    (hrun : RunNow svc watched (boot t) log c) :
    (∀ st, c.db.state? = some st →
      st = .requested ∨ st = .provisioning ∨ st = .ready ∨ st = .suspended →
      ∃ q, Outstanding c.world q ∧
        (q.job = .provision ∨ q.job = .restart ∨ q.job = .reconcile)) ∧
    (c.db.state? = some .terminating → ∃ q, Outstanding c.world q ∧ q.job = .terminate) := by
  have hcovered : Covered c.world := (run_covered hrun).2
  constructor
  · intro st hst hlive
    have hne : coveredBy st ≠ [] := by rcases hlive with rfl | rfl | rfl | rfl <;> decide
    obtain ⟨q, hq, hk⟩ := hcovered.outstanding hst hne
    refine ⟨q, hq, ?_⟩
    rcases hlive with rfl | rfl | rfl | rfl <;> simp only [coveredBy, List.mem_cons,
      List.not_mem_nil, or_false] at hk <;> tauto
  · intro hst
    obtain ⟨q, hq, hk⟩ := hcovered.outstanding hst (by decide)
    exact ⟨q, hq, List.mem_singleton.mp hk⟩

theorem live_resource_observed_ready :
    ∃ log c, RunNow {} watched (boot 0) log c ∧ c.db.state? = some .ready ∧
      ∃ q, Outstanding c.world q ∧
        (q.job = .provision ∨ q.job = .restart ∨ q.job = .reconcile) := by
  have hplay : (playNow watched (boot 0) (created ++ provisioned)).map (fun c => c.db.state?) =
      some (some .ready) := by decide +kernel
  obtain ⟨c, hc, hstate⟩ := Option.map_eq_some_iff.mp hplay
  obtain ⟨log, hrun⟩ := Machine.play_run hc
  exact ⟨log, c, hrun, hstate, (live_resource_observed {} hrun).1 .ready hstate (by simp)⟩

/-- Process `j` executes the `Reconcile` job `n`, up to its last transaction: the resource is
    ready and healthy. -/
def observation (j n : Nat) : Schedule :=
  [.act (.spawn (.reconcile n)), .tx j .go, .tx j (.healthy "endpoint")]

/-- Both `Reconcile` jobs of a ready resource are in the window when the operator suspends it. -/
def suspendedInWindow : Schedule :=
  created ++ provisioned ++ [.act (.env 60000)] ++ observation 2 2 ++ observation 3 1 ++
    [.act (.spawn (.adminSuspend "")), .tx 4 .go, .tx 2 .go, .tx 2 .go, .tx 3 .go, .tx 3 .go]

theorem live_resource_observed_dropped :
    ∃ log, ∃ c : System, RunNow {} oneWorker (boot 0) log c ∧ c.db.state? = some .suspended ∧
      c.quiet = true ∧ ∀ q, ¬ Outstanding c.world q := by
  have hplay : (playNow oneWorker (boot 0) suspendedInWindow).map
      (fun c => (c.db.state?, c.quiet, c.db.jobs)) = some (some .suspended, true, []) := by
    decide +kernel
  obtain ⟨c, hc, hstate⟩ := Option.map_eq_some_iff.mp hplay
  simp only [Prod.mk.injEq] at hstate
  obtain ⟨log, hrun⟩ := Machine.play_run hc
  refine ⟨log, c, hrun, hstate.1, hstate.2.1, fun q hq => ?_⟩
  rw [Outstanding, Config.world_db, hstate.2.2] at hq
  exact absurd hq.1 (by simp)

end Ultracore.Resourcework
