-- SUMMARY: How many reconciliation jobs a resource has outstanding.
import Ultracore.Resourcework.Queue

/-!
# The reconciliation backlog

A `Reconcile` that goes on enqueues its successor, and every `Provision` or `Restart` that
makes the resource ready starts another chain of them. No chain ends as long as the resource
is ready, so the number of chains grows with the restarts. Nothing else makes it grow: the
outstanding `Provision`, `Restart` and `Reconcile` jobs together are at most one more than the
`Provision` and `Restart` jobs that were ever enqueued.
-/

namespace Ultracore.Resourcework

open Txn

variable {svc : Service} {d : Db} {m : Nat} {ws : List Write}

/-- The outstanding `Reconcile` jobs. -/
def backlog (w : World Db Proc) : Nat :=
  w.db.jobs.countP fun q => q.job = .reconcile && !acked w q.id

/-- The outstanding jobs that are a `Reconcile` or bring one. -/
def workload (w : World Db Proc) : Nat :=
  w.db.jobs.countP fun q => q.job ≠ .terminate && !acked w q.id

theorem backlog_le_workload {w : World Db Proc} : backlog w ≤ workload w := by
  refine List.countP_mono_left fun q _ hq => ?_
  simp only [Bool.and_eq_true, decide_eq_true_eq] at hq ⊢
  exact ⟨by simp [hq.1], hq.2⟩

/-- A write that enqueues a `Provision` or a `Restart`. -/
def Write.starts : Write → Bool
  | .insertJob .provision _ | .insertJob .restart _ => true
  | _ => false

/-- A write that enqueues a job of the workload. -/
def Write.loads : Write → Bool
  | .insertJob job _ => job ≠ .terminate
  | _ => false

/-- The workers' transactions that enqueue a `Reconcile`. -/
def Proc.reenqueues : Proc → Bool
  | .publishing _ _ _ | .republishing _ _ _ | .watching _ | .redriving _ | .observing _
  | .resuming _ | .rearming _ => true
  | _ => false

/-- What leaves a `Reconcile` behind and its own job outstanding: a commit that the worker does
    not learn of, a worker that has ended and is not acknowledged, the operator's command. -/
def Proc.leaves (p : Proc) : Action Input Nat Proc → Bool
  | .commit _ =>
    match p with
    | .adminReconcile => true
    | _ => false
  | .lose _ =>
    match p with
    | .adminReconcile => true
    | _ => p.reenqueues
  | .abort _ | .rollback _ | .crash _ =>
    match p with
    | .acking _ => true
    | _ => false
  | _ => false

/-- A job has one worker at a time, and once the worker has ended it is not delivered again. -/
def acknowledged (w : World Db Proc) (a : Action Input Nat Proc) : Bool :=
  oneWorker w a &&
    match a.subject.bind fun j => w.procs[j]? with
    | some (some p) => !p.leaves a
    | _ => true

/-! ## Counting -/

theorem countP_jobs_applyAll {f : QueuedJob → Bool} (hf : ∀ q, f q = true → q.job ≠ .terminate) :
    (applyAll d ws).jobs.countP f ≤ d.jobs.countP f + ws.countP Write.loads := by
  induction ws generalizing d with
  | nil => exact Nat.le_refl _
  | cons w ws ih =>
    have hone : (d.apply w).jobs.countP f ≤ d.jobs.countP f + if w.loads then 1 else 0 := by
      cases w with
      | insertJob job t =>
        simp only [Db.apply, List.countP_append, List.countP_singleton, Write.loads]
        cases hq : f ⟨d.nextJob, job, t⟩ with
        | false => simp
        | true => simp [hf _ hq]
      | deleteJob => exact (List.filter_sublist.countP_le).trans (Nat.le_add_right _ _)
      | _ => exact Nat.le_add_right _ _
    rw [applyAll_cons, List.countP_cons]
    have := ih (d := d.apply w)
    simp only [Tables.apply]
    omega

/-- One element fewer that counts. -/
theorem countP_lt_of_mem {α : Type} {f g : α → Bool} {l : List α} {x : α} (hx : x ∈ l)
    (hfg : ∀ y ∈ l, f y = true → g y = true) (hf : f x = false) (hg : g x = true) :
    l.countP f + 1 ≤ l.countP g := by
  obtain ⟨l₁, l₂, rfl⟩ := List.append_of_mem hx
  have h₁ : l₁.countP f ≤ l₁.countP g :=
    List.countP_mono_left fun y hy => hfg y (List.mem_append_left _ hy)
  have h₂ : l₂.countP f ≤ l₂.countP g :=
    List.countP_mono_left fun y hy => hfg y (by simp [hy])
  simp only [List.countP_append, List.countP_cons, hf, hg, if_true, Bool.false_eq_true, if_false]
  omega

/-- A commit enqueues no more than is counted, except for the request of the resource and the
    transactions that end a worker. -/
theorem Commits.loads {p p' : Proc} (h : Commits svc d p p' ws)
    (hp : p ≠ .adminReconcile) : ws.countP Write.loads ≤ ws.countP Write.starts ∨
    ws.countP Write.loads ≤ ws.countP Write.starts + 1 ∧
      (d.row = none ∧ (applyAll d ws).row.isSome = true ∨
        p.reenqueues = true ∧ ∃ n ks, p.worker = some (n, ks) ∧ .terminate ∉ ks ∧ p' = .acking n) := by
  cases h with
  | adminReconcile => exact absurd rfl hp
  | request hrow => exact .inr ⟨by simp [List.countP_cons, Write.loads, Write.starts], .inl ⟨hrow, rfl⟩⟩
  | published | republished | watched | redriven | observed | resumed | rearmed =>
    refine .inr ⟨?_, .inr ⟨rfl, _, _, rfl, by simp, rfl⟩⟩
    simp [readyWrites, List.countP_cons, Write.loads, Write.starts]
  | _ => exact .inl (by simp [List.countP_cons, Write.loads, Write.starts])

/-! ## Runs -/

section
variable {w : World Db Proc} {a : Action Input Nat Proc} {j n : Nat} {d' : Db} {p p' : Proc}
  {r : Option Proc} {ws log : List Write} {procs : List (Option Proc)}

/-- A process that has not ended its job takes no acknowledgement away. -/
theorem acked_set (hj : w.procs[j]? = some (some p)) (hp : p ≠ .acking n)
    (h : acked w n = true) : acked ⟨d', w.procs.set j r⟩ n = true := by
  obtain ⟨m, hm⟩ := acked_eq_true.mp h
  refine acked_eq_true.mpr ⟨m, ?_⟩
  have hne : j ≠ m := by
    rintro rfl
    exact hp (Option.some.inj (Option.some.inj (hj.symm.trans hm)))
  rw [List.getElem?_set_ne hne]
  exact hm

/-- Without an end of a worker, the workload grows by what is enqueued. -/
theorem workload_le (hacked : ∀ n, acked w n = true → acked ⟨applyAll w.db ws, procs⟩ n = true) :
    workload ⟨applyAll w.db ws, procs⟩ ≤ workload w + ws.countP Write.loads := by
  refine (countP_jobs_applyAll fun q hq => ?_).trans (Nat.add_le_add_right ?_ _)
  · simp only [Bool.and_eq_true, decide_eq_true_eq] at hq
    exact hq.1
  · refine List.countP_mono_left fun q _ hq => ?_
    simp only [Bool.and_eq_true, Bool.not_eq_true', decide_eq_true_eq] at hq ⊢
    exact ⟨hq.1, eq_false_of_ne_true fun hack => by simp [hacked _ hack] at hq⟩

/-- A worker that ends takes its job out of it. -/
theorem workload_lt (hstaff : Staffed w) (hj : w.procs[j]? = some (some p)) {ks : List Job}
    (hw : p.worker = some (n, ks)) (hks : .terminate ∉ ks) (hp : ∀ m, p ≠ .acking m) :
    workload ⟨applyAll w.db ws, w.procs.set j (some (.acking n))⟩ + 1 ≤
      workload w + ws.countP Write.loads := by
  obtain ⟨q, hq, rfl, hk⟩ := hstaff.held hj hw
  have hself : acked ⟨applyAll w.db ws, w.procs.set j (some (.acking q.id))⟩ q.id = true :=
    acked_eq_true.mpr ⟨j, List.getElem?_set_self (List.getElem?_eq_some_iff.mp hj).1⟩
  have hbefore : acked w q.id = false := by
    refine eq_false_of_ne_true fun hack => ?_
    obtain ⟨m, hm⟩ := acked_eq_true.mp hack
    obtain rfl := hstaff.single hm hj rfl (Proc.worker_job hw)
    exact hp _ (Option.some.inj (Option.some.inj (hj.symm.trans hm)))
  have hterm : q.job ≠ .terminate := fun heq => hks (heq ▸ hk)
  refine (Nat.add_le_add_right (countP_jobs_applyAll fun q hq => ?_) 1).trans ?_
  · simp only [Bool.and_eq_true, decide_eq_true_eq] at hq
    exact hq.1
  · rw [Nat.add_right_comm]
    refine Nat.add_le_add_right (countP_lt_of_mem hq (fun q' _ hq' => ?_) ?_ ?_) _
    · simp only [Bool.and_eq_true, Bool.not_eq_true', decide_eq_true_eq] at hq' ⊢
      exact ⟨hq'.1, eq_false_of_ne_true fun hack => by simp [acked_set hj (hp _) hack] at hq'⟩
    · simp [hself]
    · simp [hbefore, hterm]

/-- An acknowledgement takes the job away that had ended before. -/
theorem workload_acked (hj : w.procs[j]? = some (some (.acking n))) :
    workload ⟨w.db.apply (.deleteJob n), w.procs.set j r⟩ ≤ workload w := by
  simp only [workload, Db.apply, List.countP_filter]
  refine List.countP_mono_left fun q _ hq => ?_
  simp only [Bool.and_eq_true, Bool.not_eq_true', decide_eq_true_eq, bne_iff_ne] at hq ⊢
  refine ⟨hq.1.1, eq_false_of_ne_true fun hack => ?_⟩
  have hne : Proc.acking n ≠ .acking q.id := fun heq => hq.2 (Proc.acking.inj heq).symm
  have hstill : acked ⟨w.db.apply (.deleteJob n), w.procs.set j r⟩ q.id = true :=
    acked_set hj hne hack
  simp [Db.apply, hq.1.2] at hstill

/-- The workload is bounded by what was enqueued for it. -/
def Bounded (log : List Write) (w : World Db Proc) : Prop :=
  workload w ≤ (if w.db.row.isSome then 1 else 0) + log.countP Write.starts

theorem row_applyAll (h : d.row.isSome = true) : (applyAll d ws).row.isSome = true := by
  refine applyAll_keeps (K := fun d : Db => d.row.isSome = true) (fun w _ d hd => ?_) h
  cases w <;> first | rfl | exact hd

theorem Bounded.grows (h : Bounded log w)
    (hle : workload ⟨applyAll w.db ws, procs⟩ ≤ workload w + ws.countP Write.starts) :
    Bounded (log ++ ws) ⟨applyAll w.db ws, procs⟩ := by
  have hrow : (if w.db.row.isSome then 1 else 0) ≤
      if (applyAll w.db ws).row.isSome then 1 else 0 := by
    split
    · simp [row_applyAll ‹_›]
    · exact Nat.zero_le _
  simp only [Bounded, List.countP_append] at *
  omega

/-- Whether its process learns of it or not, a commit keeps the bound. -/
theorem Bounded.commit (h : Bounded log w) (hstaff : Staffed w) (hj : w.procs[j]? = some (some p))
    (hc : Commits svc w.db p p' ws) (hp : p ≠ .adminReconcile) {q : Proc}
    (hq : q = p' ∨ p.reenqueues = false) :
    Bounded (log ++ ws) ⟨applyAll w.db ws, w.procs.set j (some q)⟩ := by
  by_cases hack : ∃ n, p = .acking n
  · obtain ⟨n, rfl⟩ := hack
    cases hc
    exact h.grows ((workload_acked hj).trans (Nat.le_add_right _ _))
  have hack : ∀ n, p ≠ .acking n := fun n heq => hack ⟨n, heq⟩
  have hle : workload ⟨applyAll w.db ws, w.procs.set j (some q)⟩ ≤
      workload w + ws.countP Write.loads := workload_le fun n => acked_set hj (hack n)
  rcases hc.loads hp with hfew | ⟨hmore, ⟨hnone, hsome⟩ | ⟨hre, n, ks, hw, hks, rfl⟩⟩
  · exact h.grows (hle.trans (Nat.add_le_add_left hfew _))
  · unfold Bounded at *
    rw [List.countP_append, hsome]
    simp only [hnone, Option.isSome_none, Bool.false_eq_true, if_false, if_true] at h ⊢
    omega
  · obtain rfl := hq.resolve_right (by simp [hre])
    have hlt : workload ⟨applyAll w.db ws, w.procs.set j (some (.acking n))⟩ + 1 ≤
        workload w + ws.countP Write.loads := workload_lt hstaff hj hw hks hack
    exact h.grows (by omega)

theorem acknowledged_leaves (hok : acknowledged w a = true) (ha : a.subject = some j)
    (hj : w.procs[j]? = some (some p)) : p.leaves a = false := by
  simpa [acknowledged, ha, hj] using (Bool.and_eq_true_iff.mp hok).2

theorem Bounded.moves {w' : World Db Proc} (h : Bounded log w) (hstaff : Staffed w)
    (hok : acknowledged w a = true) (hm : Moves svc w a ws w') : Bounded (log ++ ws) w' := by
  have hquiet : ∀ {procs : List (Option Proc)},
      (∀ n, acked w n = true → acked ⟨w.db, procs⟩ n = true) → Bounded (log ++ []) ⟨w.db, procs⟩ := by
    intro procs hacked
    have hle : workload ⟨applyAll w.db [], procs⟩ ≤ workload w + 0 := workload_le hacked
    exact h.grows hle
  cases hm with
  | @commit j p p' ws hj hc =>
    have hleaves := acknowledged_leaves hok rfl hj
    refine h.commit hstaff hj hc ?_ (.inl rfl)
    rintro rfl
    cases hleaves
  | @lose j p p' i ws hj hc =>
    have hleaves := acknowledged_leaves hok rfl hj
    refine h.commit hstaff hj hc ?_ (.inr ?_)
    · rintro rfl
      cases hleaves
    · cases p <;> first | rfl | exact hleaves
  | @fails _ j p i e ha hj =>
    refine hquiet fun n => acked_set hj ?_
    rintro rfl
    rcases ha with rfl | rfl <;> cases acknowledged_leaves hok rfl hj
  | spawn =>
    refine hquiet fun n hack => ?_
    simp only [acked, List.any_append, Bool.or_eq_true] at hack ⊢
    exact .inl hack
  | @crash j =>
    refine hquiet fun n hack => ?_
    obtain ⟨m, hm⟩ := acked_eq_true.mp hack
    refine acked_eq_true.mpr ⟨m, ?_⟩
    rw [List.getElem?_set_ne, hm]
    rintro rfl
    cases acknowledged_leaves hok rfl hm
  | tick =>
    rw [List.append_nil]
    exact h

end

/-- However many suspensions and resumptions there are: in the executions that enqueue at most
    `k` `Provision` and `Restart` jobs, the outstanding `Reconcile` jobs are bounded. -/
theorem backlog_bounded (svc : Service) (k : Nat) :
    ∃ b, ∀ {t : Time} {log : List Write} {c : System}, RunIf svc acknowledged (boot t) log c →
      log.countP Write.starts ≤ k → backlog c.world ≤ b := by
  refine ⟨k + 1, fun {t log c} hrun hk => ?_⟩
  have hinv : Staffed c.world ∧ Bounded log c.world := by
    refine run_keeps_log (J := fun log w => Staffed w ∧ Bounded log w) (fun h hok hm => ?_) ?_ hrun
    · exact ⟨h.1.moves (Bool.and_eq_true_iff.mp hok).1 hm, h.2.moves h.1 hok hm⟩
    · exact ⟨staffed_boot, Nat.le_refl 0⟩
  have hbound := hinv.2
  have hle := backlog_le_workload (w := c.world)
  unfold Bounded at hbound
  split at hbound <;> omega

/-! ### Concrete runs -/

theorem backlog_bounded_provisioned :
    ∃ b log c, RunIf {} acknowledged (boot 0) log c ∧ backlog c.world = 2 ∧ backlog c.world ≤ b := by
  have hplay : (playIf acknowledged (boot 0) (created ++ provisioned)).map
      (fun c => backlog c.world) = some 2 := by decide +kernel
  obtain ⟨c, hc, hcount⟩ := Option.map_eq_some_iff.mp hplay
  obtain ⟨log, hrun⟩ := Machine.play_run hc
  obtain ⟨b, hb⟩ := backlog_bounded {} (log.countP Write.starts)
  exact ⟨b, log, c, hrun, hcount, hb hrun (Nat.le_refl _)⟩

/-- Nothing fails, and a worker that has started runs to its end. -/
def exactlyOnce (w : World Db Proc) (a : Action Input Nat Proc) : Bool :=
  oneWorker w a &&
    match a with
    | .begin _ .keyringFailed | .begin _ .interrupted | .lose _ | .abort _ | .rollback _
    | .crash _ => false
    | _ => true

/-- The processes before the last have ended. -/
def lastAt (d : Db) (m : Nat) (p : Proc) : System :=
  ⟨d, List.replicate m (.idle .done) ++ [.idle p]⟩

/-- The second configuration is reached from the first. -/
def Path (c c' : System) : Prop := ∃ log, RunIf {} exactlyOnce c log c'

theorem Path.trans {c₁ c₂ c₃ : System} (h : Path c₁ c₂) (h' : Path c₂ c₃) : Path c₁ c₃ := by
  obtain ⟨log, hrun⟩ := h
  obtain ⟨log', hrun'⟩ := h'
  exact ⟨_, Machine.Run.trans hrun hrun'⟩

theorem path_spawn {p : Proc} (h : p.canSpawn d = true) :
    Path ⟨d, List.replicate m (.idle .done)⟩ (lastAt d m p) := by
  refine ⟨_, .step .refl ?_ (.spawn h)⟩
  simp only [exactlyOnce, oneWorker, Bool.and_true]
  split
  · simp [idleJob, Config.world, Proc.job, Proc.worker]
  · rfl

theorem path_tx {d' : Db} {p q : Proc} (i : Input) {x : Tx Proc}
    (hi : exactlyOnce (lastAt d m p).world (.begin m i) = true) (hbody : p.body {} i = some x)
    (h : (x.prog.alone d .empty).1 = .ok q)
    (hd : applyAll d (x.prog.alone d .empty).2.writes = d') :
    Path (lastAt d m p) (lastAt d' m q) := by
  have hset : lastAt d' m q =
      ⟨applyAll (lastAt d m p).db (x.prog.alone d .empty).2.writes,
        (lastAt d m p).procs.set m (.idle q)⟩ := by
    simp [lastAt, hd]
  refine ⟨_, hset ▸ Machine.run_tx_alone (by simp [lastAt]) (fun k sl hk _ => ?_) hi
    (fun _ _ => ⟨rfl, rfl⟩) (Program.machine_body.mpr ⟨x, hbody, rfl⟩) (Prod.ext h rfl)⟩
  have hmem : sl ∈ List.replicate m (.idle .done) ++ [.idle p] := List.mem_of_getElem? hk
  rcases List.mem_append.mp hmem with hold | hnew
  · rw [List.eq_of_mem_replicate hold]
    rfl
  · rw [List.mem_singleton.mp hnew]
    rfl

theorem path_done : Path (lastAt d m .done) ⟨d, List.replicate (m + 1) (.idle .done)⟩ := by
  rw [List.replicate_succ']
  exact ⟨_, .refl⟩

/-- Every process has ended. -/
def ended (d : Db) (m : Nat) : System := ⟨d, List.replicate m (.idle .done)⟩

section
variable {r : Resource} {events : List Event} {jobs : List QueuedJob} {n m : Nat}
  {o : Option ProviderObject} {t : Time} {handle : Json}

/-- A row that is ready. -/
def readyRow (handle : Json) (t : Time) (r : Resource) : Resource :=
  Resources.ready handle "endpoint" t r

/-- A restart of a ready resource is requested. -/
theorem path_requestRestart :
    ∃ events', Path (ended ⟨some (readyRow handle t r), events, jobs, n, o, t⟩ m)
      (ended ⟨some (Resources.provisioning t (readyRow handle t r)), events',
        jobs ++ [⟨n, .restart, t⟩], n + 1, o, t⟩ (m + 1)) := by
  have hspawn : Path (ended ⟨some (readyRow handle t r), events, jobs, n, o, t⟩ m)
      (lastAt ⟨some (readyRow handle t r), events, jobs, n, o, t⟩ m .requestRestart) := path_spawn rfl
  exact ⟨_, (hspawn.trans (path_tx .go rfl rfl rfl rfl)).trans path_done⟩

/-- The restart of a resource that is provisioning is executed. -/
theorem path_restart (hdue : (Proc.restart n).canSpawn
      ⟨some (Resources.provisioning t r), events, jobs, n + 1, o, t⟩ = true) :
    ∃ (r' : Resource) (events' : List Event) (o' : Option ProviderObject),
      Path (ended ⟨some (Resources.provisioning t r), events, jobs, n + 1, o, t⟩ m)
      (ended ⟨some (readyRow .null t r'), events',
        (jobs ++ [(⟨n + 1, .reconcile, t + 5000⟩ : QueuedJob)]).filter (fun q => q.id != n), n + 2,
        o', t⟩
        (m + 1)) := by
  -- The worker's points, and the tables it leaves at each.
  let row := Resources.provisioning t r
  let rotated := Resources.rotated "next" t row
  let before := lastAt ⟨some row, events, jobs, n + 1, o, t⟩ m
  let after (o : Option ProviderObject) := lastAt ⟨some rotated, events, jobs, n + 1, o, t⟩ m
  have hspawn := path_spawn (m := m) hdue
  have hread : Path (before (.restart n)) (before (.rebuilding n row)) := path_tx .go rfl rfl rfl rfl
  have htoken : Path (before (.rebuilding n row)) (before (.rotating n row "next")) :=
    path_tx (.token "next") rfl rfl rfl rfl
  have hrotate : Path (before (.rotating n row "next")) (after o (.restarting n row "next")) :=
    path_tx .go rfl rfl rfl rfl
  have hcall : Path (after o (.restarting n row "next"))
      (after (some ⟨.null, "next"⟩) (.rewarming n { row with handle := .null })) :=
    path_tx (.handle .null) rfl rfl rfl rfl
  have hwarm : Path (after (some ⟨.null, "next"⟩) (.rewarming n { row with handle := .null }))
      (after (some ⟨.null, "next"⟩) (.republishing n { row with handle := .null } "endpoint")) :=
    path_tx (.healthy "endpoint") rfl rfl rfl rfl
  have hwork := (((hspawn.trans hread).trans htoken).trans (hrotate.trans hcall)).trans hwarm
  have hpublish := hwork.trans (path_tx (q := .acking n) .go rfl rfl rfl rfl)
  have hack := hpublish.trans (path_tx (q := .done) .go rfl rfl rfl rfl)
  exact ⟨rotated, _, _, hack.trans path_done⟩

/-- A restart that is requested and executed leaves one `Reconcile` job more. -/
theorem path_round (hbelow : ∀ q ∈ jobs, q.id < n) :
    ∃ (r' : Resource) (events' : List Event) (o' : Option ProviderObject),
      Path (ended ⟨some (readyRow handle t r), events, jobs, n, o, t⟩ m)
        (ended ⟨some (readyRow .null t r'), events', jobs ++ [⟨n + 1, .reconcile, t + 5000⟩], n + 2,
          o', t⟩ (m + 2)) := by
  have hfilter : ((jobs ++ [(⟨n, .restart, t⟩ : QueuedJob)]) ++
      [(⟨n + 1, .reconcile, t + 5000⟩ : QueuedJob)]).filter (fun q => q.id != n) =
      jobs ++ [(⟨n + 1, .reconcile, t + 5000⟩ : QueuedJob)] := by
    have hkeep : jobs.filter (fun q => q.id != n) = jobs :=
      List.filter_eq_self.mpr fun q hq => by simpa using Nat.ne_of_lt (hbelow q hq)
    simp [hkeep]
  obtain ⟨events₁, hrequest⟩ : ∃ events₁, Path (ended ⟨some (readyRow handle t r), events, jobs, n, o, t⟩ m)
      (ended ⟨some (Resources.provisioning t (readyRow handle t r)), events₁,
        jobs ++ [⟨n, .restart, t⟩], n + 1, o, t⟩ (m + 1)) := path_requestRestart
  have hdue : (Proc.restart n).canSpawn ⟨some (Resources.provisioning t (readyRow handle t r)), events₁,
      jobs ++ [⟨n, .restart, t⟩], n + 1, o, t⟩ = true := by
    simp [Proc.canSpawn, Proc.canSpawn.delivers]
  obtain ⟨r', events', o', hrestart⟩ := path_restart (m := m + 1) hdue
  rw [hfilter] at hrestart
  exact ⟨r', events', o', hrequest.trans hrestart⟩

end

/-- Every restart adds a chain of `Reconcile` jobs, and no chain ends. -/
theorem backlog_exceeds (b : Nat) :
    ∃ log, ∃ c : System, RunIf {} exactlyOnce (boot 0) log c ∧ c.quiet = true ∧
      b < backlog c.world := by
  have hrounds : ∀ k, ∃ (r : Resource) (handle : Json) (events : List Event) (jobs : List QueuedJob)
      (n m : Nat) (o : Option ProviderObject), (∀ q ∈ jobs, q.id < n) ∧
      k < jobs.countP (fun q => q.job = .reconcile) ∧
      Path (boot 0) (ended ⟨some (readyRow handle 0 r), events, jobs, n, o, 0⟩ m) := by
    intro k
    induction k with
    | zero =>
      have hplay : ∃ (r : Resource) (handle : Json) (events : List Event)
          (o : Option ProviderObject), playIf exactlyOnce (boot 0) (created ++ provisioned) =
            some (ended ⟨some (readyRow handle 0 r), events,
              [⟨1, .reconcile, 60000⟩, ⟨2, .reconcile, 5000⟩], 3, o, 0⟩ 2) :=
        ⟨_, _, _, _, rfl⟩
      obtain ⟨r, handle, events, o, hplay⟩ := hplay
      exact ⟨r, handle, events, _, _, _, o, by simp, by simp, Machine.play_run hplay⟩
    | succ k ih =>
      obtain ⟨r, handle, events, jobs, n, m, o, hbelow, hcount, hpath⟩ := ih
      obtain ⟨r', events', o', hround⟩ := path_round (r := r) (t := 0) (m := m) (o := o) hbelow
      refine ⟨r', .null, events', _, _, _, o', ?_, ?_, hpath.trans hround⟩
      · intro q hq
        rcases List.mem_append.mp hq with hold | hnew
        · exact (hbelow q hold).trans (by omega)
        · rw [List.mem_singleton.mp hnew]
          exact Nat.lt_succ_self (n + 1)
      · simpa using hcount
  obtain ⟨r, handle, events, jobs, n, m, o, -, hcount, log, hrun⟩ := hrounds b
  refine ⟨log, _, hrun, ?_, ?_⟩
  · simp [System.quiet, ended]
  · refine Nat.lt_of_lt_of_eq hcount (List.countP_congr fun q _ => ?_)
    have hacked : acked (ended ⟨some (readyRow handle 0 r), events, jobs, n, o, 0⟩ m).world q.id = false := by
      simp [acked, ended, Config.world, Proc.acks]
    rw [hacked]
    simp

/-- Without a bound on the restarts there is none on the outstanding `Reconcile` jobs, although
    every job that is delivered is delivered once, and executed and acknowledged at once. -/
theorem backlog_bounded_restarts : ¬∃ b, ∀ log (c : System),
    RunIf {} exactlyOnce (boot 0) log c → c.quiet = true → backlog c.world ≤ b := by
  rintro ⟨b, hbound⟩
  obtain ⟨log, c, hrun, hquiet, hmore⟩ := backlog_exceeds b
  exact Nat.not_lt.mpr (hbound log c hrun hquiet) hmore

end Ultracore.Resourcework
