-- SUMMARY: Store methods on runs, steps and the job queue.
import Ultracore.Core.Policy
import Ultracore.Store.Events

/-!
# Runs, steps and jobs

The methods of `runStore`, one statement each, scoped to a tenant. `GetForUpdate`
and the updates lock the row they name; a row that does not exist can be locked by
nobody but the transaction inserting it, so naming it is taken as locking it.

A job becomes visible to workers when the transaction that enqueued it commits, and
is outstanding until a worker acknowledges it.
-/

namespace Ultracore

open Txn

variable {t : TenantID} {r : RunID}

/-- The run, if it belongs to the tenant. -/
def Db.ownRun (d : Db) (t : TenantID) (r : RunID) : Option AgentRun :=
  (d.run? r).filter fun x => x.tenantID = t

theorem Db.ownRun_eq_some {d : Db} {x : AgentRun} :
    d.ownRun t r = some x ↔ d.run? r = some x ∧ x.tenantID = t := by
  simp [ownRun, Option.filter_eq_some_iff]

theorem Db.ownRun_congr {d d' : Db} (h : d.run? r = d'.run? r) (t : TenantID) :
    d.ownRun t r = d'.ownRun t r := by
  simp [ownRun, h]

namespace Runs

def found {α : Type} : Option α → Except Err α
  | some x => .ok x
  | none => .error .notFound

def get (t : TenantID) (r : RunID) : Tx AgentRun :=
  .lockRead [] fun d => found (d.ownRun t r)

/-- `GetForUpdate`: lock the run row until the transaction ends. -/
def getForUpdate (t : TenantID) (r : RunID) : Tx AgentRun :=
  .lockRead [.run r] fun d => found (d.ownRun t r)

/-- `List`: the runs of a session, in creation order. -/
def list (t : TenantID) (s : SessionID) : Tx (List AgentRun) :=
  .query fun d => d.runs.filter fun x => x.sessionID = s ∧ x.tenantID = t

/-- The row that `Create` inserts, as it is read back: the policy goes through its JSON
    column, and the state, the result and the failure and cancellation columns start at
    their defaults. -/
def inserted (t : TenantID) (run : AgentRun) : AgentRun :=
  { run with
    tenantID := t, policy := storedPolicy run.policy, state := .pending, result := none,
    failureReason := "", failureMessage := "", cancelRequestedAt := none }

/-- `Create`: insert a pending run into a session of the tenant. The parent is any run. -/
def create (t : TenantID) (run : AgentRun) : Tx Unit :=
  .update (fun _ => (Write.insertRun (inserted t run)).rows)
    (fun v =>
      if (v.db.ownSession t run.sessionID).isNone then (.error .notFound, [])
      else if (v.db.run? run.id).isSome ∨ (v.db.spawned? t run.spawnKey).isSome then
        (.error .alreadyExists, [])
      else if run.parentRunID.any fun p => (v.db.run? p).isNone then (.error .sql, [])
      else (.ok (), [.insertRun (inserted t run)]))
    (by
      intro v
      split
      · simp
      split
      · simp
      split <;> simp)
    (by
      intro v
      split
      · simp
      split
      · simp
      split <;> simp [Write.logs])

/-- `exec`: an UPDATE of one run, by id and tenant. -/
def update (t : TenantID) (r : RunID) (w : Db → Write) (hrows : ∀ d, (w d).rows = [.run r])
    (hlogs : ∀ d, (w d).logs = false) : Tx Unit :=
  .update (fun _ => [.run r])
    (fun v => match v.db.ownRun t r with
      | some _ => (.ok (), [w v.db])
      | none => (.error .notFound, []))
    (by intro v; cases v.db.ownRun t r <;> simp [hrows])
    (by intro v; cases v.db.ownRun t r <;> simp [hlogs])

def setHistory (t : TenantID) (r : RunID) (history : Envelope) (origin : Origin) : Tx Unit :=
  update t r (fun _ => .setHistory r history origin) (fun _ => rfl) (fun _ => rfl)

def setState (t : TenantID) (r : RunID) (state : RunState) (failureReason failureMessage : String) :
    Tx Unit :=
  update t r (fun _ => .setState r state failureReason failureMessage) (fun _ => rfl) (fun _ => rfl)

def setResult (t : TenantID) (r : RunID) (result : String) : Tx Unit :=
  update t r (fun _ => .setResult r result) (fun _ => rfl) (fun _ => rfl)

/-- `RequestCancel`: stamp `cancel_requested_at`, unless it is set. -/
def requestCancel (t : TenantID) (r : RunID) : Tx Unit :=
  update t r (fun d => .requestCancel r d.clock) (fun _ => rfl) (fun _ => rfl)

/-- `InsertStep`: the audit row of a step, at most one for an index. It inserts
    nothing, silently, where the run is not the tenant's. -/
def insertStep (t : TenantID) (s : RunStep) : Tx Unit :=
  .update (fun _ => [.run s.runID])
    (fun v =>
      if (v.db.ownRun t s.runID).isNone then (.ok (), [])
      else if (v.db.stepsOf s.runID).any (fun x => x.stepIndex = s.stepIndex) then
        (.error .alreadyExists, [])
      else (.ok (), [.insertStep s]))
    (by
      intro v
      split
      · simp
      · split <;> simp [Write.rows])
    (by
      intro v
      split
      · simp
      · split <;> simp [Write.logs])

def sorted (ss : List RunStep) : List RunStep :=
  ss.insertionSort fun s s' => s.stepIndex ≤ s'.stepIndex

def stepsIn (d : Db) (t : TenantID) (r : RunID) : List RunStep :=
  match d.ownRun t r with
  | some _ => sorted (d.stepsOf r)
  | none => []

def steps (t : TenantID) (r : RunID) : Tx (List RunStep) := .query fun d => stepsIn d t r

/-- `GetBySpawnKey`: the run a spawn tool call has already created. -/
def getBySpawnKey (t : TenantID) (key : String) : Tx AgentRun :=
  .lockRead [] fun d => found (d.runs.find? fun x => x.spawnKey = key ∧ x.tenantID = t)

def childrenIn (d : Db) (t : TenantID) (r : RunID) : List AgentRun :=
  d.runs.filter fun x => x.parentRunID = some r ∧ x.tenantID = t

/-- `Children`: direct children in creation order, cohorts by ordinal. -/
def children (t : TenantID) (r : RunID) : Tx (List AgentRun) :=
  .query fun d => (childrenIn d t r).insertionSort fun x y => x.cohortOrdinal ≤ y.cohortOrdinal

def countChildren (t : TenantID) (r : RunID) : Tx Nat := .query fun d => (childrenIn d t r).length

end Runs

/-- The index after the last committed one, as `AnswerRun` and `resumeParent`
    compute it. -/
def nextIndex (steps : List RunStep) : Nat :=
  steps.foldl (fun next s => if s.stepIndex ≥ next then s.stepIndex + 1 else next) 0

namespace Queue

/-- `EnqueueInTx`: without a time of its own the job is due at once. -/
def enqueue (job : Job) (scheduledAt : Option Time) (origin : Origin) : Tx Unit :=
  .update (fun _ => [])
    (fun v => (.ok (), [.insertJob job (scheduledAt.getD v.db.clock) origin]))
    (by simp [Write.rows]) (by simp [Write.logs])

/-- The worker returned nil: the job is done. -/
def ack (n : Nat) : Tx Unit :=
  .update (fun _ => []) (fun _ => (.ok (), [.deleteJob n])) (by simp [Write.rows])
    (by simp [Write.logs])

end Queue

/-! ## Specifications -/

namespace Tx

variable {A : Sight} {d : Db} {st : Local Row Write} {Q : Post Unit}

/-- Under the lock, the run is read as it is when the transaction commits. -/
theorem wp_runs_getForUpdate (hA : Respects A)  {Q : Post AgentRun}
    (hnone : (view d st).ownRun t r = none → Q (.error .notFound) (st.after [.run r] []))
    (hsome : ∀ x, (view d st).run? r = some x → x.tenantID = t →
      Q (.ok x) (st.after [.run r] [])) :
    wp A d (Runs.getForUpdate t r) st Q := by
  refine wp_lockRead.mpr fun d' hlock => ?_
  rw [Db.ownRun_congr (hA.run hlock (by simp) _).1]
  cases h : (applyAll d st.writes).ownRun t r with
  | none => exact hnone h
  | some x =>
    obtain ⟨hx, ht⟩ := Db.ownRun_eq_some.mp h
    exact hsome x hx ht

/-- A known run is locked and returned. -/
theorem wp_runs_getForUpdate_known (hA : Respects A) {x : AgentRun}
    {Q : Post AgentRun} (hx : (view d st).run? r = some x) (ht : x.tenantID = t)
    (h : Q (.ok x) (st.after [.run r] [])) : wp A d (Runs.getForUpdate t r) st Q := by
  refine wp_runs_getForUpdate hA (fun hnone => ?_) fun y hy _ => ?_
  · cases hnone.symm.trans (Db.ownRun_eq_some.mpr ⟨hx, ht⟩)
  · cases hy.symm.trans hx
    exact h

theorem wp_runs_get  {Q : Post AgentRun}
    (h : ∀ d', A st.locks d d' → Q (Runs.found ((view d' st).ownRun t r)) st) :
    wp A d (Runs.get t r) st Q := by
  refine wp_lockRead.mpr fun d' hlock => ?_
  simpa using h d' (by simpa using hlock)

/-- An update of one run writes to the row as it is when the transaction commits,
    or fails. -/
theorem wp_runs_update (hA : Respects A) {w : Db → Write}
    {hrows : ∀ d, (w d).rows = [.run r]} {hlogs : ∀ d, (w d).logs = false}
    (hnone : (view d st).ownRun t r = none → Q (.error .notFound) (st.after [.run r] []))
    (hsome : ∀ x d', (view d st).ownRun t r = some x → A (st.locks ++ [.run r]) d d' →
      Q (.ok ()) (st.after [.run r] [w (view d' st)])) :
    wp A d (Runs.update t r w hrows hlogs) st Q := by
  refine wp_update.mpr fun d' busy hlock => ?_
  have hown := Db.ownRun_congr (hA.run (r := r) hlock (by simp) st.writes).1 t
  cases h : (applyAll d st.writes).ownRun t r with
  | none => simpa [hown, h] using hnone h
  | some x => simpa [hown, h] using hsome x d' h hlock

/-- An update of a run that is there. -/
theorem wp_runs_update_found (hA : Respects A) {w : Db → Write}
    {hrows : ∀ d, (w d).rows = [.run r]} {hlogs : ∀ d, (w d).logs = false}
    (hr : ((view d st).ownRun t r).isSome)
    (h : ∀ d', Q (.ok ()) (st.after [.run r] [w (view d' st)])) :
    wp A d (Runs.update t r w hrows hlogs) st Q := by
  refine wp_runs_update hA ?_ fun x d' _ _ => h d'
  intro hnone
  rw [hnone] at hr
  cases hr

/-- Something that the tables hold, or lack, is in the way of a new run. -/
def Blocked (v : Db) (t : TenantID) (run : AgentRun) : Prop :=
  (v.ownSession t run.sessionID).isNone = true ∨ (v.run? run.id).isSome = true ∨
    (v.spawned? t run.spawnKey).isSome = true ∨
    (run.parentRunID.any fun p => (v.run? p).isNone) = true

theorem wp_runs_create (hA : Respects A) {run : AgentRun}
    (herr : ∀ e d', A (st.locks ++ (Write.insertRun (Runs.inserted t run)).rows) d d' →
      Blocked (view d' st) t run →
      Q (.error e) (st.after (Write.insertRun (Runs.inserted t run)).rows []))
    (hok : (view d st).run? run.id = none →
      (run.spawnKey ≠ "" → (view d st).spawned? t run.spawnKey = none) →
      Q (.ok ()) (st.after (Write.insertRun (Runs.inserted t run)).rows
        [.insertRun (Runs.inserted t run)])) :
    wp A d (Runs.create t run) st Q := by
  unfold Runs.create
  refine wp_update.mpr fun d' busy hlock => ?_
  have hmem : Row.run run.id ∈ st.locks ++ (Write.insertRun (Runs.inserted t run)).rows := by
    simp [Write.rows, Runs.inserted]
  have hrun := (hA.run hlock hmem st.writes).1
  by_cases hses : ((applyAll d' st.writes).ownSession t run.sessionID).isNone
  · simpa only [hses, if_true] using herr .notFound d' hlock (.inl hses)
  by_cases hdup : ((applyAll d' st.writes).run? run.id).isSome ∨
      ((applyAll d' st.writes).spawned? t run.spawnKey).isSome
  · simpa only [hses, hdup, if_true, if_false, Bool.false_eq_true] using
      herr .alreadyExists d' hlock (.inr (hdup.elim .inl fun h => .inr (.inl h)))
  by_cases hparent : (run.parentRunID.any fun p => ((applyAll d' st.writes).run? p).isNone) = true
  · simpa only [hses, hdup, hparent, if_true, if_false, Bool.false_eq_true] using
      herr .sql d' hlock (.inr (.inr (.inr hparent)))
  · have hnone : (applyAll d st.writes).run? run.id = none := by
      rw [← hrun]
      simpa using (not_or.mp hdup).1
    have hfresh : run.spawnKey ≠ "" → (applyAll d st.writes).spawned? t run.spawnKey = none := by
      intro hkey
      have hmem : Row.spawnKey t run.spawnKey ∈
          st.locks ++ (Write.insertRun (Runs.inserted t run)).rows := by
        simp [Write.rows, Runs.inserted, hkey]
      rw [← hA.spawned hlock hmem st.writes]
      simpa using (not_or.mp hdup).2
    simpa only [hses, hdup, hparent, if_false, Bool.false_eq_true] using hok hnone hfresh

theorem wp_runs_insertStep (hA : Respects A) {s : RunStep}
    (hnone : (view d st).ownRun t s.runID = none → Q (.ok ()) (st.after [.run s.runID] []))
    (hdup : ∀ x ∈ (view d st).stepsOf s.runID, x.stepIndex = s.stepIndex →
      Q (.error .alreadyExists) (st.after [.run s.runID] []))
    (hok : (∀ x ∈ (view d st).stepsOf s.runID, x.stepIndex ≠ s.stepIndex) →
      Q (.ok ()) (st.after [.run s.runID] [.insertStep s])) :
    wp A d (Runs.insertStep t s) st Q := by
  refine wp_update.mpr fun d' busy hlock => ?_
  have hrun := hA.run hlock (show Row.run s.runID ∈ _ by simp) st.writes
  have hown := Db.ownRun_congr hrun.1 t
  simp only [hown, hrun.2]
  by_cases h₁ : ((applyAll d st.writes).ownRun t s.runID).isNone
  · simpa [h₁] using hnone (by simpa using h₁)
  by_cases h₂ : ((applyAll d st.writes).stepsOf s.runID).any (fun x => x.stepIndex = s.stepIndex)
  · obtain ⟨x, hx, hix⟩ := List.any_eq_true.mp h₂
    simpa [h₁, h₂] using hdup x hx (by simpa using hix)
  · simp only [h₁, h₂]
    refine hok fun x hx hix => h₂ ?_
    exact List.any_eq_true.mpr ⟨x, hx, by simpa using hix⟩

theorem wp_runs_steps (hA : Respects A)  {Q : Post (List RunStep)} (hr : Row.run r ∈ st.locks)
    (h : Q (.ok (Runs.stepsIn (view d st) t r)) st) : wp A d (Runs.steps t r) st Q := by
  refine wp_query.mpr fun d' hlock => ?_
  have hrun := hA.run hlock hr st.writes
  simpa [Runs.stepsIn, Db.ownRun_congr hrun.1 t, hrun.2] using h

theorem wp_enqueue {job : Job} {t : Option Time} {origin : Origin}
    (h : ∀ now, Q (.ok ()) (st.after [] [.insertJob job (t.getD now) origin])) :
    wp A d (Queue.enqueue job t origin) st Q :=
  wp_update.mpr fun d' _ _ => h (view d' st).clock

end Tx

end Ultracore
