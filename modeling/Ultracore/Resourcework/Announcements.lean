-- SUMMARY: When the last lifecycle event of a resource names its stored state.
import Ultracore.Resourcework.Lifecycle

/-!
# What the log says of a resource

A transaction that gives a resource another state appends the event that names it, with two
exceptions. `Provision` marks the resource as provisioning first and appends the event in a
statement of its own, and operators who suspend a resource, or work without the resource
service, append no event at all. `mayAnnounce` says when the log can still be trusted
whenever nobody is at work.
-/

namespace Ultracore.Resourcework

open Txn

variable {svc : Service}

/-! ## Events and states -/

/-- The state that an event names. -/
def EventKind.state : EventKind → ResourceState
  | .resourceRequested => .requested
  | .resourceProvisioning => .provisioning
  | .resourceReady => .ready
  | .resourceFailed => .failed
  | .resourceSuspended => .suspended
  | .resourceTerminating => .terminating
  | .resourceTerminated => .terminated

/-- The state that the last event names. -/
def Db.lastEvent? (d : Db) : Option ResourceState := d.events.getLast?.map fun e => e.kind.state

/-- `Provision`, about to mark the resource. -/
def Proc.marks : Proc → Bool
  | .marking _ _ => true
  | _ => false

/-- The resource is marked, and the event that says so is to follow. -/
def Proc.announces : Proc → Bool
  | .announcing _ _ => true
  | _ => false

/-- Some worker is yet to append its event. -/
def eventDue (w : World Db Proc) : Bool := w.procs.any fun p => p.any Proc.announces

/-- The commands that give a resource in this state another one without an event. -/
def Proc.silent : Proc → Option ResourceState → Bool
  | .adminRestart, st => st ≠ some .provisioning
  | .adminTerminate, st => st ≠ some .terminating && st ≠ some .terminated
  | .adminSuspend _, st => st = some .ready
  | _, _ => false

/-- The transactions that take a resource out of provisioning. -/
def Proc.concludes : Proc → Bool
  | .requestTerminate | .adminTerminate | .publishing _ _ _ | .republishing _ _ _
  | .failing _ _ _ | .retiring _ _ => true
  | _ => false

/-- The transaction may commit: it is no silent command, and it does not take the resource
    out of provisioning while the event about that is to follow. -/
def Proc.mayCommit (p : Proc) (w : World Db Proc) : Bool :=
  !p.silent w.db.state? && !(p.concludes && eventDue w)

/-- A process that marks the resource lives to append its event. Everyone else may fail. -/
def mayAnnounce (w : World Db Proc) : Action Input Nat Proc → Bool
  | .commit j => match w.procs[j]? with
      | some (some p) => p.mayCommit w
      | _ => true
  | .lose j => match w.procs[j]? with
      | some (some p) => !p.marks && p.mayCommit w
      | _ => true
  | .abort j | .rollback j | .crash j => match w.procs[j]? with
      | some (some p) => !p.announces
      | _ => true
  | _ => true

/-! ## One commit -/

section
variable {d : Db} {p p' : Proc} {ws : List Write}

theorem Transition.stays {st' : Option ResourceState} (h : Transition p (some .provisioning) st')
    (hp : p.concludes = false) : st' = some .provisioning := by
  cases h with
  | keeps | restarting | marking => rfl
  | terminating _ hterm => rcases hterm with rfl | rfl <;> cases hp
  | publishing | republishing | failing | retiring => cases hp

/-- Only `Provision` leaves an event to follow, when it marks the resource. -/
theorem Commits.marks (h : Commits svc d p p' ws) (hp' : p'.announces = true) :
    p.marks = true ∧ (applyAll d ws).state? = some .provisioning := by
  cases h with
  | marking => exact ⟨rfl, rfl⟩
  | provision | restart | terminate =>
    simp only [Proc.afterProvisionRead, Proc.afterRestartRead, Proc.afterTerminateRead] at hp'
    split at hp' <;> cases hp'
  | reconcile =>
    unfold Proc.afterReconcileRead at hp'
    split at hp'
    · cases hp'
    · split at hp' <;> cases hp'
  | recovering =>
    simp only [Proc.afterStall] at hp'
    split at hp'
    · cases hp'
    · split at hp' <;> cases hp'
  | _ => cases hp'

/-- A commit leaves an event that names the state, or leaves both alone. -/
theorem Commits.tells (h : Commits svc d p p' ws) (hsilent : p.silent d.state? = false)
    (hmark : p.announces = true → d.state? = some .provisioning) (hp' : p'.announces = false) :
    (applyAll d ws).lastEvent? = (applyAll d ws).state? ∨
      p.announces = false ∧ (applyAll d ws).state? = d.state? ∧
        (applyAll d ws).events = d.events := by
  cases h with
  | marking => cases hp'
  | announcing =>
    refine .inl (Eq.trans ?_ (hmark rfl).symm)
    simp [Db.lastEvent?, applyAll, Tables.apply, Db.apply, EventKind.state]
  | adminRestart =>
    have hprov : d.state? = some .provisioning := by simpa [Proc.silent] using hsilent
    exact .inr ⟨rfl, hprov.symm, rfl⟩
  | adminTerminate hrow hstate =>
    have hne : d.state? ≠ some .terminated := by simpa [Db.state?_of_row hrow] using hstate
    have hterm : d.state? = some .terminating := by simpa [Proc.silent, hne] using hsilent
    exact .inr ⟨rfl, hterm.symm, rfl⟩
  | adminSuspend hrow =>
    rename_i r t message message'
    rw [Db.state?_of_row hrow] at hsilent
    refine .inr ⟨rfl, Eq.trans ?_ (Db.state?_of_row hrow).symm, rfl⟩
    have hready : r.state ≠ .ready := by simpa [Proc.silent] using hsilent
    cases hstate : r.state <;>
      simp_all [applyAll, Tables.apply, Db.apply, Db.state?, Resources.suspended]
  | stored hrow | rotated hrow => exact .inr ⟨rfl, (Db.state?_of_row hrow).symm, rfl⟩
  | suspended hrow hstate =>
    refine .inl ?_
    simp [Db.lastEvent?, Db.state?, applyAll, Tables.apply, Db.apply, EventKind.state,
      Resources.suspended, hstate]
  | request | requestTerminate | requestRestart | published | republished | failed | retired
  | resumed =>
    refine .inl ?_
    simp [Db.lastEvent?, Db.state?, applyAll, Tables.apply, Db.apply, EventKind.state,
      readyWrites, Resources.fresh, Resources.terminating, Resources.provisioning,
      Resources.ready, Resources.failed, Resources.terminated]
  | _ => exact .inr ⟨rfl, rfl, rfl⟩

end

/-! ## Runs -/

/-- While an event is to follow the resource is provisioning, and otherwise the last event
    names its state. -/
structure Announced (w : World Db Proc) : Prop where
  due : eventDue w = true → w.db.state? = some .provisioning
  told : eventDue w = false → w.db.lastEvent? = w.db.state?

section
variable {w w' : World Db Proc} {a : Action Input Nat Proc} {ws : List Write}

theorem eventDue_eq_true : eventDue w = true ↔
    ∃ (m : Nat) (p : Proc), w.procs[m]? = some (some p) ∧ p.announces = true := by
  simp only [eventDue, List.any_eq_true, Option.any_eq_true]
  constructor
  · rintro ⟨_, hp, p, rfl, hann⟩
    obtain ⟨m, hm⟩ := List.mem_iff_getElem?.mp hp
    exact ⟨m, p, hm, hann⟩
  · rintro ⟨m, p, hm, hann⟩
    exact ⟨_, List.mem_of_getElem? hm, p, rfl, hann⟩

/-- A process takes a step to `q`, and leaves the tables `d`. -/
theorem Announced.set {d : Db} {j : Nat} {p₀ q : Option Proc} (h : Announced w)
    (hj : w.procs[j]? = some p₀)
    (hdue : q.any Proc.announces = true → d.state? = some .provisioning)
    (hstays : eventDue w = true → w.db.state? = some .provisioning →
      d.state? = some .provisioning)
    (htold : q.any Proc.announces = false → d.lastEvent? = d.state? ∨
      p₀.any Proc.announces = false ∧ d.state? = w.db.state? ∧ d.events = w.db.events) :
    Announced ⟨d, w.procs.set j q⟩ := by
  have hlt := (List.getElem?_eq_some_iff.mp hj).1
  refine ⟨fun hev => ?_, fun hev => ?_⟩
  · obtain ⟨m, p, hm, hp⟩ := eventDue_eq_true.mp hev
    by_cases hmj : j = m
    · subst hmj
      rw [List.getElem?_set_self hlt] at hm
      cases hm
      exact hdue hp
    · rw [List.getElem?_set_ne hmj] at hm
      have hw := eventDue_eq_true.mpr ⟨m, p, hm, hp⟩
      exact hstays hw (h.due hw)
  · have hnone : ∀ (m : Nat) (p : Proc), (w.procs.set j q)[m]? = some (some p) →
        p.announces = false := by
      intro m p hm
      refine Bool.eq_false_iff.mpr fun hp => Bool.eq_false_iff.mp hev ?_
      exact eventDue_eq_true.mpr ⟨m, p, hm, hp⟩
    have hq : q.any Proc.announces = false := by
      cases q with
      | none => rfl
      | some p => exact hnone j p (List.getElem?_set_self hlt)
    rcases htold hq with htold | ⟨hp₀, hstate, hevents⟩
    · exact htold
    · have hw : eventDue w = false := by
        refine Bool.eq_false_iff.mpr fun hw => ?_
        obtain ⟨m, p, hm, hp⟩ := eventDue_eq_true.mp hw
        by_cases hmj : j = m
        · subst hmj
          cases hj.symm.trans hm
          exact Bool.eq_false_iff.mp hp₀ hp
        · exact Bool.eq_false_iff.mp (hnone m p ((List.getElem?_set_ne hmj).trans hm)) hp
      change d.events.getLast?.map _ = d.state?
      rw [hevents, hstate]
      exact h.told hw

/-- A process that was not to append an event fails or dies. -/
theorem Announced.ends {j : Nat} {p₀ q : Option Proc} (h : Announced w)
    (hj : w.procs[j]? = some p₀) (hp₀ : p₀.any Proc.announces = false)
    (hq : q.any Proc.announces = false) : Announced ⟨w.db, w.procs.set j q⟩ :=
  h.set hj (fun hann => absurd hann (by simp [hq])) (fun _ hstate => hstate)
    fun _ => .inr ⟨hp₀, rfl, rfl⟩

theorem Announced.commit {j : Nat} {p p' q : Proc} (h : Announced w)
    (hj : w.procs[j]? = some (some p)) (hc : Commits svc w.db p p' ws)
    (hok : p.mayCommit w = true) (hq : q.announces = p'.announces) :
    Announced ⟨applyAll w.db ws, w.procs.set j (some q)⟩ := by
  simp only [Proc.mayCommit, Bool.and_eq_true, Bool.not_eq_true', Bool.and_eq_false_iff] at hok
  obtain ⟨hsilent, hconcludes⟩ := hok
  refine h.set hj (fun hann => ?_) (fun hev hstate => ?_) fun hann => ?_
  · exact (hc.marks (hq ▸ hann)).2
  · have hstep := hc.transition
    rw [hstate] at hstep
    exact hstep.stays (hconcludes.resolve_right (by simp [hev]))
  · refine hc.tells hsilent (fun hp => h.due ?_) (hq ▸ hann)
    exact eventDue_eq_true.mpr ⟨j, p, hj, hp⟩

theorem Proc.onErr_announces {p : Proc} {i : Input} {e : Err} :
    (p.onErr i e).announces = false := by
  unfold Proc.onErr
  split <;> first | rfl | (split <;> rfl)

theorem Proc.canSpawn_announces {p : Proc} {d : Db} (h : p.canSpawn d = true) :
    p.announces = false := by
  cases p <;> first | rfl | cases h

theorem Announced.moves (h : Announced w) (hok : mayAnnounce w a = true)
    (hm : Moves svc w a ws w') : Announced w' := by
  cases hm with
  | commit hj hc =>
    simp only [mayAnnounce, hj] at hok
    exact h.commit hj hc hok rfl
  | lose hj hc =>
    simp only [mayAnnounce, hj, Bool.and_eq_true, Bool.not_eq_true'] at hok
    refine h.commit hj hc hok.2 (Proc.onErr_announces.trans ?_)
    exact (Bool.eq_false_iff.mpr fun hp' => by simp [(hc.marks hp').1] at hok).symm
  | fails ha hj =>
    refine h.ends hj ?_ Proc.onErr_announces
    rcases ha with rfl | rfl <;>
      simpa only [mayAnnounce, hj, Bool.not_eq_true', Option.any_some] using hok
  | spawn hspawn =>
    rename_i p
    have hsame : eventDue ⟨w.db, w.procs ++ [some p]⟩ = eventDue w := by
      simp [eventDue, Proc.canSpawn_announces hspawn]
    exact ⟨fun hev => h.due (hsame ▸ hev), fun hev => h.told (hsame ▸ hev)⟩
  | crash =>
    rename_i j
    cases hj : w.procs[j]? with
    | none => rwa [List.set_eq_of_length_le (List.getElem?_eq_none_iff.mp hj)]
    | some p₀ =>
      refine h.ends hj ?_ rfl
      simp only [mayAnnounce, hj] at hok
      cases p₀ with
      | none => rfl
      | some => simpa using hok
  | tick => exact ⟨h.due, h.told⟩

end

theorem System.quiet_settled {c : System} (h : c.quiet = true) : eventDue c.world = false := by
  simp only [eventDue, Config.world, List.any_map, List.any_eq_false]
  intro sl hsl
  have hdone := List.all_eq_true.mp h sl hsl
  split at hdone
  · exact Bool.false_ne_true
  · cases hdone

/-- As long as the condition holds: whenever no request, command or job is executing, the last
    lifecycle event of the resource names its stored state. -/
theorem last_event_names_state (svc : Service) {t : Time} {log : List Write} {c : System}
    (hrun : RunIf svc mayAnnounce (boot t) log c) (hquiet : c.quiet = true) :
    c.db.lastEvent? = c.db.state? := by
  have hboot : Announced (boot t).world := ⟨fun h => by simp [boot, eventDue] at h, fun _ => rfl⟩
  have hrest := run_keeps (fun h hok hm => Announced.moves h hok hm) .refl hboot hrun
  exact hrest.told (System.quiet_settled hquiet)

/-! ### Concrete runs -/

theorem last_event_names_state_removed :
    ∃ log, ∃ c : System, RunIf {} mayAnnounce (boot 0) log c ∧ c.quiet = true ∧
      c.db.state? = some .terminated ∧ c.db.lastEvent? = c.db.state? := by
  have hplay : (playIf mayAnnounce (boot 0)
      (created ++ provisioned ++ terminationRequested ++ removed)).map
      (fun c => (c.quiet, c.db.state?)) = some (true, some .terminated) := by decide +kernel
  obtain ⟨c, hc, hstate⟩ := Option.map_eq_some_iff.mp hplay
  obtain ⟨hquiet, hstate⟩ := Prod.mk.inj hstate
  obtain ⟨log, hrun⟩ := Machine.play_run hc
  exact ⟨log, c, hrun, hquiet, hstate, last_event_names_state {} hrun hquiet⟩

/-- No statement fails, no commit is lost and no process dies. -/
def noFailure (_ : World Db Proc) : Action Input Nat Proc → Bool
  | .lose _ | .abort _ | .crash _ => false
  | _ => true

/-- A worker has marked the resource, and the termination overtakes it before it appends its
    event. Every job is executed and acknowledged. -/
def announcedLate : Schedule :=
  requested ++ [.act (.spawn (.provision 0)), .tx 1 .go, .tx 1 .go] ++ terminationRequested ++
    terminated 3 ++ [.tx 3 .go, .tx 1 .go, .tx 1 .built, .tx 1 (.adopts false),
      .tx 1 (.handle (.obj [("version", .num 1)]))] ++ provisioned ++
    [.act (.env 60000), .act (.spawn (.reconcile 1)), .tx 4 .go, .tx 4 .go]

/-- An operator restarts a ready resource without the resource service. -/
def restartedSilently : Schedule :=
  created ++ provisioned ++ [.act (.spawn .adminRestart), .tx 2 .go]

/-- Without any failure the system comes to rest with this stored state and this last event. -/
def ComesToRest (state lastEvent : ResourceState) : Prop :=
  ∃ log, ∃ c : System, RunIf {} noFailure (boot 0) log c ∧ c.quiet = true ∧
    c.db.state? = some state ∧ c.db.lastEvent? = some lastEvent

theorem comesToRest_of_play {s : Schedule} {state lastEvent : ResourceState}
    (h : (playIf noFailure (boot 0) s).map (fun c => (c.quiet, c.db.state?, c.db.lastEvent?)) =
      some (true, some state, some lastEvent)) : ComesToRest state lastEvent := by
  obtain ⟨c, hc, hrest⟩ := Option.map_eq_some_iff.mp h
  simp only [Prod.mk.injEq] at hrest
  obtain ⟨log, hrun⟩ := Machine.play_run hc
  exact ⟨log, c, hrun, hrest⟩

theorem last_event_names_state_misled :
    ComesToRest .terminated .provisioning ∧ ComesToRest .provisioning .ready := by
  constructor
  · refine comesToRest_of_play (s := announcedLate) ?_
    decide +kernel
  · refine comesToRest_of_play (s := restartedSilently) ?_
    decide +kernel

end Ultracore.Resourcework
