-- SUMMARY: Queue jobs and the workers that execute them.
import Ultracore.Resourcework.Lifecycle

/-!
# Jobs and workers

As long as the queue gives a job to one worker at a time, every worker executes an
outstanding job of its kind, and no two workers the same one.
-/

namespace Ultracore.Resourcework

open Txn

variable {svc : Service}
variable {p : Proc} {n : Nat} {d : Db} {ws : List Write} {w : World Db Proc}

/-- The job that a process executes, and of what kinds it may be at this point. -/
def Proc.worker : Proc → Option (Nat × List Job)
  | .provision n | .marking n _ | .announcing n _ | .building n _ | .acquiring n _
  | .creating n _ | .storing n _ _ | .warming n _ | .publishing n _ _ => some (n, [.provision])
  | .restart n | .rebuilding n _ | .rotating n _ _ | .restarting n _ _ | .rewarming n _
  | .republishing n _ _ => some (n, [.restart])
  | .discarding n _ _ => some (n, [.provision, .restart])
  | .failing n _ _ => some (n, [.provision, .restart, .reconcile])
  | .terminate n | .resolving n _ | .removing n _ | .retiring n _ => some (n, [.terminate])
  | .reconcile n | .recovering n _ | .watching n | .redriving n | .checking n _ | .observing n
  | .suspending n _ _ | .inspecting n _ | .resuming n | .rearming n => some (n, [.reconcile])
  | .acking n => some (n, [.provision, .restart, .reconcile, .terminate])
  | _ => none

/-- The job that a process executes. -/
def Proc.job (p : Proc) : Option Nat := p.worker.map Prod.fst

/-- A worker goes on with its job, or with none. -/
def Proc.Continues (p p' : Proc) : Prop :=
  ∀ {n ks'}, p'.worker = some (n, ks') → ∃ ks, p.worker = some (n, ks) ∧ ks ⊆ ks'

theorem Proc.worker_job {ks : List Job} (h : p.worker = some (n, ks)) : p.job = some n := by
  simp [Proc.job, h]

theorem Proc.job_worker (h : p.job = some n) : ∃ ks, p.worker = some (n, ks) := by
  obtain ⟨⟨m, ks⟩, hw, rfl⟩ := Option.map_eq_some_iff.mp h
  exact ⟨ks, hw⟩

theorem Commits.continues {p' : Proc} (h : Commits svc d p p' ws) : p.Continues p' := by
  intro n ks' hw
  cases h with
  | provision | restart | terminate =>
    simp only [Proc.afterProvisionRead, Proc.afterRestartRead, Proc.afterTerminateRead] at hw
    split at hw <;> cases hw <;> exact ⟨_, rfl, by simp⟩
  | reconcile =>
    unfold Proc.afterReconcileRead at hw
    split at hw
    · cases hw
      exact ⟨_, rfl, by simp⟩
    · split at hw <;> cases hw <;> exact ⟨_, rfl, by simp⟩
  | recovering =>
    simp only [Proc.afterStall] at hw
    split at hw
    · cases hw
      exact ⟨_, rfl, by simp⟩
    · split at hw <;> cases hw <;> exact ⟨_, rfl, by simp⟩
  | _ => first | cases hw; done | (cases hw; exact ⟨_, rfl, by simp⟩)

theorem Proc.onErr_continues {i : Input} {e : Err} : p.Continues (p.onErr i e) := by
  intro n ks' hw
  unfold Proc.onErr at hw
  split at hw
  case h_3 =>
      split at hw <;> cases hw <;> exact ⟨_, rfl, by simp⟩
  all_goals first | cases hw; done | (cases hw; exact ⟨_, rfl, by simp⟩)

/-- A worker that has returned from the job without an error. -/
def Proc.acks (n : Nat) : Proc → Bool
  | .acking m => m == n
  | _ => false

/-- A worker of the job has returned without an error. -/
def acked (w : World Db Proc) (n : Nat) : Bool := w.procs.any fun p => p.any (Proc.acks n)

theorem Proc.acks_eq (h : p.acks n = true) : p = .acking n := by
  cases p with
  | acking => rw [beq_iff_eq.mp h]
  | _ => cases h

theorem acked_eq_true : acked w n = true ↔ ∃ m : Nat, w.procs[m]? = some (some (.acking n)) := by
  simp only [acked, List.any_eq_true, Option.any_eq_true]
  constructor
  · rintro ⟨_, hp, p, rfl, hacks⟩
    obtain rfl := Proc.acks_eq hacks
    exact List.mem_iff_getElem?.mp hp
  · rintro ⟨m, hm⟩
    exact ⟨_, List.mem_of_getElem? hm, _, rfl, beq_self_eq_true n⟩

/-! ## The table of jobs -/

/-- Every job has its own id, below the next one. -/
structure Db.Tidy (d : Db) : Prop where
  below : ∀ {q}, q ∈ d.jobs → q.id < d.nextJob
  distinct : ∀ {q q'}, q ∈ d.jobs → q' ∈ d.jobs → q.id = q'.id → q = q'

theorem Db.Tidy.insertJob (h : d.Tidy) {job : Job} {t : Time} :
    (d.apply (.insertJob job t)).Tidy := by
  constructor
  · intro q hq
    rcases List.mem_append.mp hq with hold | hnew
    · exact Nat.lt_succ_of_lt (h.below hold)
    · obtain rfl := List.mem_singleton.mp hnew
      exact Nat.lt_succ_self _
  · intro q q' hq hq' hid
    rcases List.mem_append.mp hq with hold | hnew <;>
      rcases List.mem_append.mp hq' with hold' | hnew'
    · exact h.distinct hold hold' hid
    · obtain rfl := List.mem_singleton.mp hnew'
      exact absurd hid (Nat.ne_of_lt (h.below hold))
    · obtain rfl := List.mem_singleton.mp hnew
      exact absurd hid.symm (Nat.ne_of_lt (h.below hold'))
    · rw [List.mem_singleton.mp hnew, List.mem_singleton.mp hnew']

theorem Db.Tidy.apply (h : d.Tidy) (w : Write) : (d.apply w).Tidy := by
  cases w with
  | insertJob => exact h.insertJob
  | deleteJob =>
    refine ⟨fun hq => h.below (List.mem_of_mem_filter hq), fun hq hq' => ?_⟩
    exact h.distinct (List.mem_of_mem_filter hq) (List.mem_of_mem_filter hq')
  | _ => exact ⟨h.below, h.distinct⟩

theorem Db.Tidy.applyAll (h : d.Tidy) (ws : List Write) : (Txn.applyAll d ws).Tidy :=
  applyAll_keeps (fun w _ _ hd => Db.Tidy.apply hd w) h

/-- What is not deleted stays. -/
theorem mem_jobs_applyAll {q : QueuedJob} (hq : q ∈ d.jobs)
    (hws : .deleteJob q.id ∉ ws) : q ∈ (applyAll d ws).jobs := by
  refine applyAll_keeps (K := fun d : Db => q ∈ d.jobs) (fun w hw d hd => ?_) hq
  cases w with
  | insertJob => exact List.mem_append_left _ hd
  | deleteJob =>
    refine List.mem_filter.mpr ⟨hd, ?_⟩
    simp only [bne_iff_ne, ne_eq]
    rintro rfl
    exact hws hw
  | _ => exact hd

/-- What is enqueued is there, under an id that is new. -/
theorem exists_job_applyAll {job : Job} {t : Time}
    (hw : .insertJob job t ∈ ws) (hws : ∀ n, .deleteJob n ∉ ws) :
    ∃ q ∈ (applyAll d ws).jobs, q.job = job ∧ d.nextJob ≤ q.id := by
  induction ws generalizing d with
  | nil => cases hw
  | cons w ws ih =>
    have hrest : ∀ n, .deleteJob n ∉ ws := fun n hn => hws n (List.mem_cons_of_mem _ hn)
    rcases List.mem_cons.mp hw with rfl | hw
    · have hmem : (⟨d.nextJob, job, t⟩ : QueuedJob) ∈ (d.apply (.insertJob job t)).jobs :=
        List.mem_append_right _ (List.mem_singleton_self _)
      have hstays := mem_jobs_applyAll hmem (hrest d.nextJob)
      exact ⟨_, hstays, rfl, Nat.le_refl _⟩
    · obtain ⟨q, hq, hjob, hid⟩ := ih (d := d.apply w) hw hrest
      refine ⟨q, hq, hjob, le_trans ?_ hid⟩
      cases w <;> simp [Db.apply]

theorem Commits.deletes {p' : Proc}
    (h : Commits svc d p p' ws) (hn : .deleteJob n ∈ ws) : p = .acking n := by
  cases h with
  | acked => simpa [eq_comm] using hn
  | _ => simp [readyWrites] at hn

/-! ## One worker at a time -/

/-- No process executes the job. -/
def idleJob (w : World Db Proc) (n : Nat) : Bool :=
  w.procs.all fun p => p.bind Proc.job ≠ some n

/-- The queue gives a job to one worker at a time. -/
def oneWorker (w : World Db Proc) : Action Input Nat Proc → Bool
  | .spawn p =>
    match p.job with
    | some n => idleJob w n
    | none => true
  | _ => true

structure Staffed (w : World Db Proc) : Prop where
  tidy : w.db.Tidy
  held : ∀ {j : Nat} {p : Proc} {n ks}, w.procs[j]? = some (some p) → p.worker = some (n, ks) →
    ∃ q ∈ w.db.jobs, q.id = n ∧ q.job ∈ ks
  single : ∀ {i j : Nat} {p p' : Proc} {n}, w.procs[i]? = some (some p) → w.procs[j]? = some (some p') →
    p.job = some n → p'.job = some n → i = j

theorem Staffed.below (h : Staffed w) {j : Nat}
    (hj : w.procs[j]? = some (some p)) (hn : p.job = some n) : n < w.db.nextJob := by
  obtain ⟨ks, hw⟩ := Proc.job_worker hn
  obtain ⟨q, hq, rfl, -⟩ := h.held hj hw
  exact h.tidy.below hq

/-- The job of a process after the move is one it had before. -/
theorem Proc.Continues.before {j m : Nat} {q r : Proc} (hr : p.Continues r)
    (hj : w.procs[j]? = some (some p)) (hm : (w.procs.set j (some r))[m]? = some (some q))
    (hn : q.job = some n) : ∃ q₀ : Proc, w.procs[m]? = some (some q₀) ∧ q₀.job = some n ∧
      (q₀ = q ∨ q₀ = p ∧ q = r) := by
  rcases Machine.get_set_cases hm with ⟨rfl, heq⟩ | ⟨-, hold⟩
  · cases heq
    obtain ⟨ks', hw'⟩ := Proc.job_worker hn
    obtain ⟨ks, hw, -⟩ := hr hw'
    exact ⟨p, hj, Proc.worker_job hw, .inr ⟨rfl, rfl⟩⟩
  · exact ⟨q, hold, hn, .inl rfl⟩

/-- A process goes on, and of the jobs at most its own is gone, with which it then has nothing
    more to do. -/
theorem Staffed.replace {j : Nat} {r : Proc} (h : Staffed w)
    (hj : w.procs[j]? = some (some p)) (hr : p.Continues r) (htidy : d.Tidy)
    (hjobs : ∀ q ∈ w.db.jobs, q ∈ d.jobs ∨ p.job = some q.id ∧ r.job = none) :
    Staffed ⟨d, w.procs.set j (some r)⟩ := by
  refine ⟨htidy, fun {m q n ks} hm hw => ?_, fun hi hi' hn hn' => ?_⟩
  · rcases Machine.get_set_cases hm with ⟨rfl, heq⟩ | ⟨hne, hold⟩
    · cases heq
      obtain ⟨ks₀, hw₀, hsub⟩ := hr hw
      obtain ⟨q, hq, rfl, hk⟩ := h.held hj hw₀
      rcases hjobs q hq with hq' | ⟨-, hnone⟩
      · exact ⟨q, hq', rfl, hsub hk⟩
      · simp [Proc.worker_job hw] at hnone
    · obtain ⟨q, hq, rfl, hk⟩ := h.held hold hw
      rcases hjobs q hq with hq' | ⟨hp, -⟩
      · exact ⟨q, hq', rfl, hk⟩
      · exact absurd (h.single hold hj (Proc.worker_job hw) hp) hne
  · obtain ⟨q, hq, hqn, -⟩ := hr.before hj hi hn
    obtain ⟨q', hq', hqn', -⟩ := hr.before hj hi' hn'
    exact h.single hq hq' hqn hqn'

theorem Proc.canSpawn_worker {ks : List Job}
    (h : p.canSpawn d = true) (hw : p.worker = some (n, ks)) :
    ∃ q ∈ d.jobs, q.id = n ∧ q.job ∈ ks := by
  cases p with
  | provision | restart | reconcile | terminate =>
    cases hw
    obtain ⟨q, hq, hdue⟩ := List.any_eq_true.mp h
    simp only [Bool.and_eq_true, beq_iff_eq, decide_eq_true_eq] at hdue
    exact ⟨q, hq, hdue.1.1, by simp [hdue.1.2]⟩
  | _ => first | cases hw; done | cases h

theorem oneWorker_spawn (hok : oneWorker w (.spawn p) = true) (hn : p.job = some n) :
    ∀ q, some q ∈ w.procs → q.job ≠ some n := by
  simp only [oneWorker, hn, idleJob, List.all_eq_true, decide_eq_true_eq] at hok
  exact fun q hq => hok (some q) hq

theorem Staffed.moves {w' : World Db Proc} {a : Action Input Nat Proc}
    (h : Staffed w) (hok : oneWorker w a = true) (hm : Moves svc w a ws w') : Staffed w' := by
  -- A commit deletes no job but the one that its process acknowledges.
  have hjobs : ∀ {p p' r : Proc} {ws : List Write}, Commits svc w.db p p' ws →
      (∀ n, p = .acking n → r.job = none) →
      ∀ q ∈ w.db.jobs, q ∈ (applyAll w.db ws).jobs ∨ p.job = some q.id ∧ r.job = none := by
    intro p p' r ws hc hr q hq
    by_cases hdel : .deleteJob q.id ∈ ws
    · obtain rfl := hc.deletes hdel
      exact .inr ⟨rfl, hr _ rfl⟩
    · exact .inl (mem_jobs_applyAll hq hdel)
  cases hm with
  | commit hj hc =>
    refine h.replace hj hc.continues (h.tidy.applyAll _) (hjobs hc ?_)
    rintro n rfl
    cases hc
    rfl
  | lose hj hc =>
    refine h.replace hj Proc.onErr_continues (h.tidy.applyAll _) (hjobs hc ?_)
    rintro n rfl
    rfl
  | fails _ hj => exact h.replace hj Proc.onErr_continues h.tidy fun q hq => .inl hq
  | spawn hspawn =>
    rename_i p
    refine ⟨h.tidy, fun hm hw => ?_, fun {i j q q' n} hi hi' hn hn' => ?_⟩
    · rcases Machine.get_append_cases hm with hold | ⟨-, hnew⟩
      · exact h.held hold hw
      · cases hnew
        exact Proc.canSpawn_worker hspawn hw
    · -- The new worker's job has no other.
      have hfree : ∀ {m : Nat} {q : Proc}, w.procs[m]? = some (some q) → q.job = some n →
          p.job ≠ some n :=
        fun hm hqn hpn => oneWorker_spawn hok hpn _ (List.mem_of_getElem? hm) hqn
      rcases Machine.get_append_cases hi with hold | ⟨hlen, hnew⟩ <;>
        rcases Machine.get_append_cases hi' with hold' | ⟨hlen', hnew'⟩
      · exact h.single hold hold' hn hn'
      · cases hnew'
        exact absurd hn' (hfree hold hn)
      · cases hnew
        exact absurd hn (hfree hold' hn')
      · exact hlen.trans hlen'.symm
  | crash =>
    refine ⟨h.tidy, fun hm hw => ?_, fun hi hi' => ?_⟩
    · rcases Machine.get_set_cases hm with ⟨-, heq⟩ | ⟨-, hold⟩
      · cases heq
      · exact h.held hold hw
    · rcases Machine.get_set_cases hi with ⟨-, heq⟩ | ⟨-, hold⟩
      · cases heq
      rcases Machine.get_set_cases hi' with ⟨-, heq⟩ | ⟨-, hold'⟩
      · cases heq
      exact h.single hold hold'
  | tick => exact ⟨⟨h.tidy.below, h.tidy.distinct⟩, h.held, h.single⟩

theorem staffed_boot {t : Time} : Staffed (boot t).world := by
  refine ⟨⟨fun hq => ?_, fun hq => ?_⟩, fun hj => ?_, fun hj => ?_⟩
  · cases hq
  · cases hq
  · simp [boot] at hj
  · simp [boot] at hj

end Ultracore.Resourcework
