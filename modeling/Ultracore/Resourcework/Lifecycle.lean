-- SUMMARY: When a terminated resource stays so, and when its provider has nothing left of it.
import Ultracore.Resourcework.Commits

/-!
# The end of a resource

Workers read a resource without a lock, call its provider, and then write its state. Most of
these writes look at the locked row first. Three do not look closely enough: the first write
of `Provision` and the transaction of `fail` look at nothing, and the last transaction of
`Restart` does not look for a termination that has been requested. `Proc.respects` says when
they do no harm, and then a resource whose termination was requested is not revived.

`Terminate` calls the provider only if it has read a handle, but `Provision` stores the
handle after the provider has created the object. `mayCreate` says when no object is left
behind.
-/

namespace Ultracore.Resourcework

open Txn

variable {svc : Service}
variable {p : Proc} {a : Action Input Nat Proc} {ws : List Write} {p' : Proc} {d : Db} {j : Nat}
  {w : World Db Proc} {st : Option ResourceState}

/-! ## Runs -/

/-- One move of the system and what it commits, with transactions in flight undone. -/
inductive Moves (svc : Service) (w : World Db Proc) :
    Action Input Nat Proc → List Write → World Db Proc → Prop where
  | commit {j : Nat} {p p' : Proc} {ws : List Write} : w.procs[j]? = some (some p) →
      Commits svc w.db p p' ws →
      Moves svc w (.commit j) ws ⟨applyAll w.db ws, w.procs.set j (some p')⟩
  /-- The transaction or the provider call took effect, and the process saw an error. -/
  | lose {j : Nat} {p p' : Proc} {i : Input} {ws : List Write} : w.procs[j]? = some (some p) →
      Commits svc w.db p p' ws →
      Moves svc w (.lose j) ws ⟨applyAll w.db ws, w.procs.set j (some (p.onErr i .broken))⟩
  | fails {a : Action Input Nat Proc} {j : Nat} {p : Proc} {i : Input} {e : Err} :
      a = .rollback j ∨ a = .abort j → w.procs[j]? = some (some p) →
      Moves svc w a [] ⟨w.db, w.procs.set j (some (p.onErr i e))⟩
  | spawn {p : Proc} : p.canSpawn w.db = true →
      Moves svc w (.spawn p) [] ⟨w.db, w.procs ++ [some p]⟩
  | crash {j : Nat} : Moves svc w (.crash j) [] ⟨w.db, w.procs.set j none⟩
  | tick {n : Nat} : Moves svc w (.env n) [] ⟨{ w.db with clock := w.db.clock + n }, w.procs⟩

theorem runs_commits {i : Input} {prog : Prog Db Row Write Err Proc}
    {s : Local Row Write} (hbody : (program svc).machine.body p i = some prog)
    (hruns : prog.Runs sees d .empty (.ok p') s) : Commits svc d p p' s.writes := by
  obtain ⟨x, hx, rfl⟩ := Program.machine_body.mp hbody
  exact (Proc.body_commits hx).runs hruns

section
variable {w w' : World Db Proc} {a : Action Input Nat Proc} {ws : List Write}

theorem serial_moves (hs : (program svc).machine.Serial sees w a ws w') : Moves svc w a ws w' := by
  cases hs with
  | spawn h => exact .spawn h
  | commit hj hbody hruns => exact .commit hj (runs_commits hbody hruns)
  | lose hj hbody hruns => exact .lose hj (runs_commits hbody hruns)
  | rollback hj => exact .fails (.inl rfl) hj
  | abort hj => exact .fails (.inr rfl) hj
  | crash => exact .crash
  | env => exact .tick

/-- Whether its process learns of it or not, a commit is one of the table. -/
theorem serial_commits (ha : a = .commit j ∨ a = .lose j)
    (hp : w.procs[j]? = some (some p)) (hs : (program svc).machine.Serial sees w a ws w') :
    ∃ p', Commits svc w.db p p' ws ∧ w'.db = applyAll w.db ws := by
  cases hs with
  | commit hj hbody hruns | lose hj hbody hruns =>
    obtain rfl : _ = j := by simpa using ha
    cases Option.some.inj (hj.symm.trans hp)
    exact ⟨_, runs_commits hbody hruns, rfl⟩
  | _ => simp at ha

end

/-- No lock protects the clock. -/
theorem envOutside : (program svc).machine.EnvOutside regions := by
  intro v d r
  cases r <;> rfl

/-- The runs whose steps all satisfy a condition. -/
abbrev RunIf (svc : Service) (ok : World Db Proc → Action Input Nat Proc → Bool) :
    System → List Write → System → Prop :=
  (program svc).machine.Run fun c a => ok c.world a = true

section
variable {ok : World Db Proc → Action Input Nat Proc → Bool} {t : Time} {log log' ws : List Write}
  {c c' : System}

theorem run_explained (hrun : RunIf svc ok (boot t) log c) :
    (program svc).machine.Explained regions (fun _ _ => True) c :=
  Program.run_explained regions_frames envOutside (by simp [boot]) hrun

/-- What moves keep that satisfy the condition, a run keeps from any point on. -/
theorem run_keeps {K : World Db Proc → Prop}
    (hK : ∀ {w a ws w'}, K w → ok w a = true → Moves svc w a ws w' → K w')
    (hrun : RunIf svc ok (boot t) log c) (hc : K c.world) (hrun' : RunIf svc ok c log' c') :
    K c'.world :=
  Program.run_keeps (fun w a => ok w a = true) regions_frames envOutside
    (by simp [boot]) (fun _ _ h => h) (fun h hok hs => hK h hok (serial_moves hs)) hrun hc hrun'

/-- What moves keep of the tables, the processes and all that was committed, a run keeps. -/
theorem run_keeps_log {J : List Write → World Db Proc → Prop}
    (hJ : ∀ {log w a ws w'}, J log w → ok w a = true → Moves svc w a ws w' → J (log ++ ws) w')
    (h₀ : J [] (boot t).world) (hrun : RunIf svc ok (boot t) log c) : J log c.world := by
  induction hrun with
  | refl => exact h₀
  | step hrun' hok hs ih =>
    rcases hs.serial (run_explained hrun') with ⟨hws, heq⟩ | hser
    · rw [heq, hws, List.append_nil]
      exact ih
    · exact hJ ih hok (serial_moves hser)

theorem step_commits (hrun : RunIf svc ok (boot t) log c) (hp : c.world.procs[j]? = some (some p))
    (ha : a = .commit j ∨ a = .lose j) (hs : (program svc).machine.Step c a ws c') :
    ∃ p', Commits svc c.db p p' ws ∧ c'.db = applyAll c.db ws := by
  have hser : (program svc).machine.Serial sees c.world a ws c'.world := by
    rcases ha with rfl | rfl
    · exact hs.serial_commit (run_explained hrun)
    · exact hs.serial_lose (run_explained hrun)
  exact serial_commits ha hp hser

end

/-! ## The stored state -/

/-- What a commit does with the stored state: the lifecycle as the code implements it. -/
inductive Transition : Proc → Option ResourceState → Option ResourceState → Prop where
  | keeps {p : Proc} {st : Option ResourceState} : Transition p st st
  | request {id : ResourceID} {kind : String} {spec : Json} {token : String} :
      Transition (.request id kind spec token) none (some .requested)
  | terminating {p : Proc} {st : ResourceState} : st ≠ .terminated →
      p = .requestTerminate ∨ p = .adminTerminate → Transition p (some st) (some .terminating)
  | restarting {p : Proc} {st : ResourceState} : st.terminal = false → st ≠ .terminating →
      p = .requestRestart ∨ p = .adminRestart → Transition p (some st) (some .provisioning)
  | marking {n : Nat} {r : Resource} {st : ResourceState} :
      Transition (.marking n r) (some st) (some .provisioning)
  | publishing {n : Nat} {r : Resource} {endpoint : String} :
      Transition (.publishing n r endpoint) (some .provisioning) (some .ready)
  | republishing {n : Nat} {r : Resource} {endpoint : String} {st : ResourceState} :
      st.terminal = false → Transition (.republishing n r endpoint) (some st) (some .ready)
  | failing {n : Nat} {r : Resource} {message : String} {st : ResourceState} :
      Transition (.failing n r message) (some st) (some .failed)
  | retiring {n : Nat} {r : Resource} {st : ResourceState} :
      Transition (.retiring n r) (some st) (some .terminated)
  | suspending {p : Proc} :
      (∃ n r message, p = .suspending n r message) ∨ (∃ message, p = .adminSuspend message) →
      Transition p (some .ready) (some .suspended)
  | resuming {n : Nat} : Transition (.resuming n) (some .suspended) (some .ready)

theorem Db.state?_of_row {r : Resource} (h : d.row = some r) : d.state? = some r.state := by
  simp [Db.state?, h]

theorem Commits.transition (h : Commits svc d p p' ws) :
    Transition p d.state? (applyAll d ws).state? := by
  cases h with
  | request hrow =>
    have hd : d.state? = none := by simp [Db.state?, hrow]
    exact hd ▸ .request
  | requestTerminate hrow hstate => exact Db.state?_of_row hrow ▸ .terminating hstate (.inl rfl)
  | adminTerminate hrow hstate => exact Db.state?_of_row hrow ▸ .terminating hstate (.inr rfl)
  | requestRestart hrow hterm hstate =>
    exact Db.state?_of_row hrow ▸ .restarting hterm hstate (.inl rfl)
  | adminRestart hrow hterm hstate =>
    exact Db.state?_of_row hrow ▸ .restarting hterm hstate (.inr rfl)
  | adminSuspend hrow =>
    rename_i r t message message'
    rw [Db.state?_of_row hrow]
    -- `SetSuspended` leaves anything but a ready resource in its state.
    cases hstate : r.state <;>
      simp [applyAll, Tables.apply, Db.apply, Db.state?, Resources.suspended, hstate] <;>
      first | exact .keeps | exact .suspending (.inr ⟨_, rfl⟩)
  | marking hrow => exact Db.state?_of_row hrow ▸ .marking
  | stored hrow | rotated hrow => exact Db.state?_of_row hrow ▸ .keeps
  | published hrow hstate => exact (Db.state?_of_row hrow).trans (congrArg some hstate) ▸ .publishing
  | republished hrow hterm => exact Db.state?_of_row hrow ▸ .republishing hterm
  | failed hrow => exact Db.state?_of_row hrow ▸ .failing
  | retired hrow => exact Db.state?_of_row hrow ▸ .retiring
  | suspended hrow hstate =>
    rw [(Db.state?_of_row hrow).trans (congrArg some hstate)]
    simp only [applyAll_cons, applyAll_nil, Tables.apply, Db.apply, Db.state?,
      Resources.suspended, hstate, true_or, if_true, Option.map_some]
    exact .suspending (.inl ⟨_, _, _, rfl⟩)
  | resumed hrow hstate => exact (Db.state?_of_row hrow).trans (congrArg some hstate) ▸ .resuming
  | _ => exact .keeps

/-! ## Terminated resources -/

/-- A write of the state that is not decided under the lock finds a state it may replace. -/
def Proc.respects : Proc → Option ResourceState → Bool
  | .marking _ _, st =>
    st ≠ some .terminating && st ≠ some .terminated && st ≠ some .failed
  | .republishing _ _ _, st => st ≠ some .terminating
  | .failing _ _ _, st => st ≠ some .terminated
  | _, _ => true

/-- Every commit finds a state it may replace. -/
def mayWrite (w : World Db Proc) : Action Input Nat Proc → Bool
  | .commit j | .lose j =>
    match w.procs[j]? with
    | some (some p) => p.respects w.db.state?
    | _ => true
  | _ => true

/-- The states of a resource whose termination was requested. -/
def Gone (st : Option ResourceState) : Prop :=
  st = some .terminating ∨ st = some .terminated ∨ st = some .failed

theorem Gone.terminating {st : ResourceState} (h : Gone (some st)) (hterm : st.terminal = false) :
    st = .terminating := by
  rcases h with h | h | h <;> cases h
  · rfl
  · cases hterm
  · cases hterm

theorem Transition.gone {st' : Option ResourceState} (h : Transition p st st')
    (hp : p.respects st = true) (hst : Gone st) : Gone st' := by
  cases h with
  | keeps => exact hst
  | terminating => exact .inl rfl
  | retiring => exact .inr (.inl rfl)
  | failing => exact .inr (.inr rfl)
  | restarting hterm hne => exact absurd (hst.terminating hterm) hne
  | republishing hterm => simp [Proc.respects, hst.terminating hterm] at hp
  | _ => simp_all [Gone, Proc.respects]

theorem Transition.terminated {st' : Option ResourceState} (h : Transition p st st')
    (hp : p.respects st = true) (hst : st = some .terminated) : st' = some .terminated := by
  cases h with
  | keeps => exact hst
  | retiring => rfl
  | _ => simp_all [Proc.respects, ResourceState.terminal]

/-- A property of the stored state that transitions keep is kept by every move. -/
theorem Moves.keeps_state {K : Option ResourceState → Prop}
    (hK : ∀ {p st st'}, Transition p st st' → p.respects st = true → K st → K st')
    {w' : World Db Proc} (hw : K w.db.state?)
    (hok : mayWrite w a = true) (h : Moves svc w a ws w') : K w'.db.state? := by
  cases h with
  | commit hj hc | lose hj hc =>
    simp only [mayWrite, hj] at hok
    exact hK hc.transition hok hw
  | _ => exact hw

theorem requestTerminate_gone
    (h : Commits svc d .requestTerminate p' ws) : Gone (applyAll d ws).state? := by
  cases h with
  | requestTerminate => exact .inl rfl
  | requestTerminateAgain hrow hstate =>
    exact .inr (.inl ((Db.state?_of_row hrow).trans (congrArg some hstate)))

/-- As long as every commit finds a state it may replace: once `RequestTerminate` has
    committed, the resource is never provisioning, ready or suspended again, and once it is
    terminated it stays so. -/
theorem terminated_stays_gone (svc : Service) (t : Time) :
    (∀ {log log' ws : List Write} {c c₁ c' : System} {a : Action Input Nat Proc} {j : Nat},
      RunIf svc mayWrite (boot t) log c → c.world.procs[j]? = some (some .requestTerminate) →
      a = .commit j ∨ a = .lose j → (program svc).machine.Step c a ws c₁ →
      RunIf svc mayWrite c₁ log' c' →
      ∃ st, c'.db.state? = some st ∧ st ≠ .provisioning ∧ st ≠ .ready ∧ st ≠ .suspended) ∧
    ∀ {log log' : List Write} {c c' : System}, RunIf svc mayWrite (boot t) log c →
      c.db.state? = some .terminated → RunIf svc mayWrite c log' c' →
      c'.db.state? = some .terminated := by
  constructor
  · intro log log' ws c c₁ c' a j hrun hp ha hs hrun'
    obtain ⟨p', hc, hdb⟩ := step_commits hrun hp ha hs
    have hgone : Gone c₁.world.db.state? := by
      rw [Config.world_db, hdb]
      exact requestTerminate_gone hc
    have hok : mayWrite c.world a = true := by
      rcases ha with rfl | rfl <;> simp only [mayWrite, hp] <;> rfl
    have hrun₁ : RunIf svc mayWrite (boot t) (log ++ ws) c₁ := .step hrun hok hs
    have hend := run_keeps (Moves.keeps_state Transition.gone) hrun₁ hgone hrun'
    rcases hend with h | h | h <;> exact ⟨_, h, by simp⟩
  · intro log log' c c' hrun hst hrun'
    exact run_keeps (Moves.keeps_state Transition.terminated) hrun hst hrun'

/-! ### Concrete runs -/

abbrev Schedule := List (Machine.Move Input Nat Proc)

/-- Execute a schedule under a condition. -/
abbrev playIf (ok : World Db Proc → Action Input Nat Proc → Bool) (c : System) (s : Schedule) :
    Option System :=
  (program {}).machine.play (fun c a => ok c.world a) c s

/-- The resource is requested. Its job 0 provisions it, and job 1 watches over that. -/
def requested : Schedule :=
  [.act (.spawn (.request "resource" "dev_env" (.obj []) "token")), .tx 0 .go]

/-- Process `j` requests the termination, and is about to commit. -/
def terminationDue (j : Nat) : Schedule :=
  [.act (.spawn .requestTerminate), .act (.begin j .go)] ++ List.replicate 5 (.act (.exec j))

/-- Process `j` executes job 2, the termination, up to its acknowledgement. It has not found a
    handle. -/
def terminated (j : Nat) : Schedule :=
  [.act (.spawn (.terminate 2)), .tx j .go, .tx j .built, .tx j .go]

/-- Process `j` is a request for termination. -/
def System.requestsTermination (c : System) (j : Nat) : Bool :=
  match c.world.procs[j]? with
  | some (some .requestTerminate) => true
  | _ => false

theorem System.requestsTermination_procs {c : System}
    (h : c.requestsTermination j = true) : c.world.procs[j]? = some (some .requestTerminate) := by
  unfold System.requestsTermination at h
  split at h
  · assumption
  · cases h

/-- Execute `s`, commit the request of process `j`, and execute `s'`. -/
def playTermination (ok : World Db Proc → Action Input Nat Proc → Bool) (s : Schedule) (j : Nat)
    (s' : Schedule) : Option System :=
  (playIf ok (boot 0) s).bind fun c =>
    (if c.requestsTermination j then (program {}).machine.next c (.commit j) else none).bind
      fun c₁ => playIf ok c₁ s'

theorem playTermination_run {ok : World Db Proc → Action Input Nat Proc → Bool}
    {s s' : Schedule} {c' : System} (h : playTermination ok s j s' = some c') :
    ∃ log log' ws c c₁, RunIf {} ok (boot 0) log c ∧
      c.world.procs[j]? = some (some .requestTerminate) ∧
      (program {}).machine.Step c (.commit j) ws c₁ ∧ RunIf {} ok c₁ log' c' := by
  obtain ⟨c, hc, h⟩ := Option.bind_eq_some_iff.mp h
  obtain ⟨c₁, hnext, hc'⟩ := Option.bind_eq_some_iff.mp h
  split at hnext
  · obtain ⟨log, hrun⟩ := Machine.play_run hc
    obtain ⟨ws, hstep⟩ := Machine.next_step hnext
    obtain ⟨log', hrun'⟩ := Machine.play_run hc'
    exact ⟨log, log', ws, c, c₁, hrun, System.requestsTermination_procs ‹_›, hstep, hrun'⟩
  · cases hnext

theorem terminated_stays_gone_requested :
    ∃ log log' ws c c₁ c', RunIf {} mayWrite (boot 0) log c ∧
      c.world.procs[1]? = some (some .requestTerminate) ∧
      (program {}).machine.Step c (.commit 1) ws c₁ ∧ RunIf {} mayWrite c₁ log' c' ∧
      c'.db.state? = some .terminated ∧
      ∃ st, c'.db.state? = some st ∧ st ≠ .provisioning ∧ st ≠ .ready ∧ st ≠ .suspended := by
  have hplay : (playTermination mayWrite (requested ++ terminationDue 1) 1 (terminated 2)).map
      (fun c => c.db.state?) = some (some .terminated) := by decide +kernel
  obtain ⟨c', hc', hstate⟩ := Option.map_eq_some_iff.mp hplay
  obtain ⟨log, log', ws, c, c₁, hrun, hp, hstep, hrun'⟩ := playTermination_run hc'
  exact ⟨log, log', ws, c, c₁, c', hrun, hp, hstep, hrun', hstate,
    (terminated_stays_gone {} 0).1 hrun hp (.inl rfl) hstep hrun'⟩

/-- A worker has read the resource and is about to mark it as provisioning. Its termination
    is requested, finds no handle and ends. -/
def readEarly : Option System :=
  playTermination (fun _ _ => true)
    (requested ++ [.act (.spawn (.provision 0)), .tx 1 .go] ++ terminationDue 2) 2 (terminated 3)

/-- Then the worker writes. -/
theorem terminated_stays_gone_revived :
    ∃ log log' log'' ws c c₁ c₂ c₃, (program {}).machine.Reaches (boot 0) log c ∧
      c.world.procs[2]? = some (some .requestTerminate) ∧
      (program {}).machine.Step c (.commit 2) ws c₁ ∧
      (program {}).machine.Reaches c₁ log' c₂ ∧ c₂.db.state? = some .terminated ∧
      (program {}).machine.Reaches c₂ log'' c₃ ∧ c₃.db.state? = some .provisioning := by
  have hterm : readEarly.map (fun c => c.db.state?) = some (some .terminated) := by
    decide +kernel
  have hrevived : (readEarly.bind fun c => playIf (fun _ _ => true) c [.tx 1 .go]).map
      (fun c => c.db.state?) = some (some .provisioning) := by decide +kernel
  obtain ⟨c₂, hc₂, hstate₂⟩ := Option.map_eq_some_iff.mp hterm
  obtain ⟨c₃, hc₃, hstate₃⟩ := Option.map_eq_some_iff.mp hrevived
  rw [hc₂] at hc₃
  obtain ⟨log, log', ws, c, c₁, hrun, hp, hstep, hrun'⟩ := playTermination_run hc₂
  obtain ⟨log'', hrun''⟩ := Machine.play_reaches hc₃
  exact ⟨log, log', log'', ws, c, c₁, c₂, c₃, hrun.mono fun _ _ _ => trivial, hp, hstep,
    hrun'.mono fun _ _ _ => trivial, hstate₂, hrun'', hstate₃⟩

/-! ## What is left at the provider -/

/-- The provider calls that create an object. -/
def Proc.creates : Proc → Bool
  | .creating _ _ | .restarting _ _ _ => true
  | _ => false

/-- A worker that is done with the provider and about to store the termination. -/
def Proc.retires : Proc → Bool
  | .retiring _ _ => true
  | _ => false

/-- `Terminate` skips the provider only where there is no object, and no object is created
    for a resource that is terminated or that a worker is about to store as terminated. -/
def mayCreate (w : World Db Proc) : Action Input Nat Proc → Bool
  | .commit j | .lose j =>
    match w.procs[j]? with
    | some (some (.resolving _ r)) => handlePresent r.handle || w.db.object.isNone
    | some (some p) => !p.creates ||
        (w.db.state? ≠ some .terminated && w.procs.all fun q => !q.any Proc.retires)
    | _ => true
  | _ => true

/-- A resource that is terminated, or about to be stored as terminated, has no object. -/
structure Cleared (w : World Db Proc) : Prop where
  terminated : w.db.state? = some .terminated → w.db.object = none
  retires : ∀ p, some p ∈ w.procs → p.retires = true → w.db.object = none

theorem Commits.object (h : Commits svc d p p' ws)
    (hp : p.creates = false) (hd : d.object = none) : (applyAll d ws).object = none := by
  cases h with
  | created | restarted => cases hp
  | discarded | removed => rfl
  | _ => exact hd

/-- A worker gets there by removing the object, or because it has not read a handle. -/
theorem Commits.retires (h : Commits svc d p p' ws) (hp' : p'.retires = true) :
    (applyAll d ws).object = none ∨
      ∃ n r, p = .resolving n r ∧ handlePresent r.handle = false ∧ ws = [] := by
  cases h with
  | removed => exact .inl rfl
  | skips hhandle => exact .inr ⟨_, _, rfl, hhandle, rfl⟩
  | provision | restart | terminate =>
    simp only [Proc.afterProvisionRead, Proc.afterRestartRead, Proc.afterTerminateRead] at hp'
    split at hp' <;> cases hp'
  | reconcile =>
    unfold Proc.afterReconcileRead at hp'
    split at hp'
    · cases hp'
    · split at hp' <;> cases hp'
  | recovering =>
    simp only [Proc.afterStall] at hp'
    split at hp'
    · cases hp'
    · split at hp' <;> cases hp'
  | _ => cases hp'

theorem Transition.becomes_terminated
    (h : Transition p st (some .terminated)) : st = some .terminated ∨ p.retires = true := by
  cases h with
  | keeps => exact .inl rfl
  | retiring => exact .inr rfl

/-- What the condition says where a process at point `p` commits. -/
def CreatesSafely (w : World Db Proc) (p : Proc) : Prop :=
  (∀ n r, p = .resolving n r → handlePresent r.handle = false → w.db.object = none) ∧
    (p.creates = true → w.db.state? ≠ some .terminated ∧
      ∀ q, some q ∈ w.procs → q.retires = false)

theorem mayCreate_commit (ha : a = .commit j ∨ a = .lose j) (hj : w.procs[j]? = some (some p))
    (hok : mayCreate w a = true) : CreatesSafely w p := by
  have hok : mayCreate w (.commit j) = true := by rcases ha with rfl | rfl <;> exact hok
  constructor
  · rintro n r rfl hhandle
    simpa [mayCreate, hj, hhandle] using hok
  · intro hp
    have hany : w.db.state? ≠ some .terminated ∧
        ∀ q ∈ w.procs, Option.any Proc.retires q = false := by
      cases p with
      | creating | restarting => simpa [mayCreate, hj, Proc.creates] using hok
      | _ => cases hp
    exact ⟨hany.1, fun q hq => hany.2 _ hq⟩

/-- A commit keeps what is cleared, wherever its process continues. -/
theorem Cleared.commit {q : Proc}
    (h : Cleared w) (hj : w.procs[j]? = some (some p)) (hc : Commits svc w.db p p' ws)
    (hsafe : CreatesSafely w p) (hq : q.retires = true → q = p') :
    Cleared ⟨applyAll w.db ws, w.procs.set j (some q)⟩ := by
  have hmem : some p ∈ w.procs := List.mem_of_getElem? hj
  -- The object is gone before the commit, which does not create one.
  have hgone : (w.db.state? = some .terminated ∨ ∃ q, some q ∈ w.procs ∧ q.retires = true) →
      (applyAll w.db ws).object = none := by
    intro hend
    have hcreates : p.creates = false := by
      cases hcase : p.creates with
      | false => rfl
      | true =>
        obtain ⟨hstate, hprocs⟩ := hsafe.2 hcase
        rcases hend with hterm | ⟨q, hqmem, hqret⟩
        · exact absurd hterm hstate
        · exact absurd hqret (by simp [hprocs q hqmem])
    refine hc.object hcreates ?_
    rcases hend with hterm | ⟨q, hqmem, hqret⟩
    · exact h.terminated hterm
    · exact h.retires q hqmem hqret
  constructor
  · intro hterm
    rcases Transition.becomes_terminated (hterm ▸ hc.transition) with hbefore | hret
    · exact hgone (.inl hbefore)
    · exact hgone (.inr ⟨p, hmem, hret⟩)
  · intro q' hq' hret
    rcases List.mem_or_eq_of_mem_set hq' with hold | hnew
    · exact hgone (.inr ⟨q', hold, hret⟩)
    · cases hnew
      obtain rfl := hq hret
      rcases hc.retires hret with hnone | ⟨n, r, hp, hhandle, rfl⟩
      · exact hnone
      · exact hsafe.1 n r hp hhandle

/-- What a process does next after an error, or first, is not to store a termination. -/
theorem Proc.onErr_retires {i : Input} {e : Err} : (p.onErr i e).retires = false := by
  unfold Proc.onErr
  split <;> try rfl
  split <;> rfl

theorem Proc.canSpawn_retires (h : p.canSpawn d = true) : p.retires = false := by
  cases p <;> first | rfl | cases h

theorem Cleared.moves {w' : World Db Proc}
    (h : Cleared w) (hok : mayCreate w a = true) (hm : Moves svc w a ws w') : Cleared w' := by
  -- A move that commits nothing brings no process that retires.
  have hquiet : ∀ {d : Db} {procs : List (Option Proc)}, d.state? = w.db.state? →
      d.object = w.db.object → (∀ p, some p ∈ procs → some p ∈ w.procs ∨ p.retires = false) →
      Cleared ⟨d, procs⟩ := by
    intro d procs hstate hobject hprocs
    refine ⟨fun hterm => hobject.trans (h.terminated (hstate ▸ hterm)), fun p hp hret => ?_⟩
    rcases hprocs p hp with hold | hnot
    · exact hobject.trans (h.retires p hold hret)
    · exact absurd hret (by simp [hnot])
  cases hm with
  | commit hj hc => exact h.commit hj hc (mayCreate_commit (.inl rfl) hj hok) fun _ => rfl
  | lose hj hc =>
    refine h.commit hj hc (mayCreate_commit (.inr rfl) hj hok) fun hret => ?_
    simp [Proc.onErr_retires] at hret
  | fails =>
    refine hquiet rfl rfl fun p hp => ?_
    rcases List.mem_or_eq_of_mem_set hp with hold | hnew
    · exact .inl hold
    · exact .inr (Option.some.inj hnew ▸ Proc.onErr_retires)
  | spawn hspawn =>
    refine hquiet rfl rfl fun p hp => ?_
    rcases List.mem_append.mp hp with hold | hnew
    · exact .inl hold
    · obtain rfl : p = _ := by simpa using hnew
      exact .inr (Proc.canSpawn_retires hspawn)
  | crash =>
    refine hquiet rfl rfl fun p hp => ?_
    rcases List.mem_or_eq_of_mem_set hp with hold | hnew
    · exact .inl hold
    · cases hnew
  | tick => exact hquiet rfl rfl fun p hp => .inl hp

/-- As long as the condition holds, the provider has nothing left of a resource that is
    stored as terminated. -/
theorem terminated_leaves_nothing (svc : Service) {t : Time} {log : List Write} {c : System}
    (hrun : RunIf svc mayCreate (boot t) log c) (hterm : c.db.state? = some .terminated) :
    c.db.object = none := by
  have hboot : Cleared (boot t).world := ⟨fun _ => rfl, fun p hp => by simp [boot] at hp⟩
  have hcleared := run_keeps (fun h hok hm => Cleared.moves h hok hm) .refl hboot hrun
  exact hcleared.terminated hterm

/-- Process 1 provisions the resource, up to the provider call that creates the object. -/
def created : Schedule :=
  requested ++ [.act (.spawn (.provision 0)), .tx 1 .go, .tx 1 .go, .tx 1 .go, .tx 1 .built,
    .tx 1 (.adopts false), .tx 1 (.handle (.obj [("version", .num 1)]))]

/-- It stores the handle, finds the runtime healthy and ends. -/
def provisioned : Schedule := [.tx 1 .go, .tx 1 (.healthy "endpoint"), .tx 1 .go, .tx 1 .go]

def terminationRequested : Schedule := [.act (.spawn .requestTerminate), .tx 2 .go]

/-- The termination of a resource with a handle. -/
def removed : Schedule :=
  [.act (.spawn (.terminate 3)), .tx 3 .go, .tx 3 .built, .tx 3 .go, .tx 3 .go, .tx 3 .go]

theorem terminated_leaves_nothing_removed :
    ∃ log c, RunIf {} mayCreate (boot 0) log c ∧ c.db.state? = some .terminated ∧
      c.db.object = none := by
  have hplay : (playIf mayCreate (boot 0)
      (created ++ provisioned ++ terminationRequested ++ removed)).map
      (fun c => c.db.state?) = some (some .terminated) := by decide +kernel
  obtain ⟨c, hc, hstate⟩ := Option.map_eq_some_iff.mp hplay
  obtain ⟨log, hrun⟩ := Machine.play_run hc
  exact ⟨log, c, hrun, hstate, terminated_leaves_nothing {} hrun hstate⟩

/-- The termination overtakes the worker between the creation of the object and the storing
    of its handle. Every job is executed and acknowledged. -/
def overtaken : Schedule :=
  created ++ terminationRequested ++ terminated 3 ++ [.tx 3 .go] ++ provisioned ++
    [.act (.env 60000), .act (.spawn (.reconcile 1)), .tx 4 .go, .tx 4 .go]

/-- Whether every process has ended. -/
def System.quiet (c : System) : Bool :=
  c.procs.all fun
    | .idle .done => true
    | _ => false

theorem terminated_leaves_nothing_overtaken :
    ∃ log, ∃ c : System, (program {}).machine.Reaches (boot 0) log c ∧
      c.db.state? = some .terminated ∧ c.db.jobs = [] ∧ c.quiet = true ∧ c.db.object.isSome = true := by
  have hplay : (playIf (fun _ _ => true) (boot 0) overtaken).map
      (fun c => (c.db.state?, c.db.jobs, c.quiet, c.db.object.isSome)) =
      some (some .terminated, [], true, true) := by decide +kernel
  obtain ⟨c, hc, hstate⟩ := Option.map_eq_some_iff.mp hplay
  simp only [Prod.mk.injEq] at hstate
  obtain ⟨log, hrun⟩ := Machine.play_reaches hc
  exact ⟨log, c, hrun, hstate.1, hstate.2.1, hstate.2.2.1, hstate.2.2.2⟩

/-- A step changes the stored state only by a transition of the process that commits. -/
theorem resource_follows_lifecycle (svc : Service) {ok : World Db Proc → Action Input Nat Proc → Bool}
    {t : Time} {log ws : List Write} {c c' : System} {a : Action Input Nat Proc}
    (hrun : RunIf svc ok (boot t) log c) (hs : (program svc).machine.Step c a ws c') :
    c'.db.state? = c.db.state? ∨ ∃ j p, (a = .commit j ∨ a = .lose j) ∧
      c.world.procs[j]? = some (some p) ∧ Transition p c.db.state? c'.db.state? := by
  rcases hs.serial (run_explained hrun) with ⟨-, heq⟩ | hser
  · exact .inl (congrArg (fun w => w.db.state?) heq)
  generalize hw : c'.world = w' at hser
  rw [show c'.db = w'.db from congrArg World.db hw]
  cases serial_moves hser with
  | commit hj hc => exact .inr ⟨_, _, .inl rfl, hj, hc.transition⟩
  | lose hj hc => exact .inr ⟨_, _, .inr rfl, hj, hc.transition⟩
  | _ => exact .inl rfl

theorem resource_follows_lifecycle_terminating :
    ∃ log ws c c', RunIf {} mayWrite (boot 0) log c ∧
      (program {}).machine.Step c (.commit 1) ws c' ∧ (c'.db.state? = c.db.state? ∨
        ∃ j : Nat, ∃ p, c.world.procs[j]? = some (some p) ∧
          Transition p c.db.state? c'.db.state?) := by
  have hplay : (playTermination mayWrite (requested ++ terminationDue 1) 1 []).isSome = true := by
    decide +kernel
  obtain ⟨c', hc'⟩ := Option.isSome_iff_exists.mp hplay
  obtain ⟨log, -, ws, c, c₁, hrun, -, hs, -⟩ := playTermination_run hc'
  refine ⟨log, ws, c, c₁, hrun, hs, (resource_follows_lifecycle {} hrun hs).imp_right ?_⟩
  rintro ⟨j, p, -, h⟩
  exact ⟨j, p, h⟩

end Ultracore.Resourcework
