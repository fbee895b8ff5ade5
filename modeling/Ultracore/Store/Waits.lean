-- SUMMARY: Store methods on waits: creation, claiming, closing and the resumption mark.
import Ultracore.Store.Runs

/-!
# Waits

The methods of `waitStore`. A wait belongs to the tenant of its parent run. `Close`
and `MarkResumed` are conditional updates: they lock and change the row only where
their condition holds, and report whether it did. `ClaimDue` skips the rows that
other transactions hold locked.
-/

namespace Ultracore

open Txn

/-- The wait, if its parent run belongs to the tenant. -/
def Db.ownWait (d : Db) (t : TenantID) (w : WaitID) : Option RunWait :=
  (d.wait? w).filter fun x => (d.ownRun t x.parentRunID).isSome

theorem Db.ownWait_eq_some {d : Db} {t : TenantID} {w : WaitID} {x : RunWait} :
    d.ownWait t w = some x ↔ d.wait? w = some x ∧ (d.ownRun t x.parentRunID).isSome := by
  simp [ownWait, Option.filter_eq_some_iff]

namespace Waits

def get (t : TenantID) (w : WaitID) : Tx RunWait :=
  .lockRead [] fun d => Runs.found (d.ownWait t w)

/-- `GetForUpdate`: lock the wait row, so that a terminal child and the timeout
    sweeper serialize instead of both closing it. -/
def getForUpdate (t : TenantID) (w : WaitID) : Tx RunWait :=
  .lockRead [.wait w] fun d => Runs.found (d.ownWait t w)

/-- Whether a new wait would collide with a stored one: on its id, on its tool
    call, or because its parent still has an open wait. -/
def conflicts (d : Db) (w : RunWait) : Bool :=
  (d.wait? w.id).isSome || d.waits.any fun x =>
    decide (x.parentRunID = w.parentRunID) &&
      (decide (x.stepIndex = w.stepIndex ∧ x.toolCallID = w.toolCallID) || decide (x.state = .open))

/-- The row that `Create` inserts. -/
def inserted (w : RunWait) : RunWait :=
  { w with state := .open, result := none, resumedAt := none }

/-- The INSERT of `Create`; it reports whether it inserted a row. -/
def insert (t : TenantID) (w : RunWait) : Tx Bool :=
  .update
    (fun v => if (v.db.ownRun t w.parentRunID).isNone || conflicts v.db w then []
      else [.wait w.id])
    (fun v =>
      if (v.db.ownRun t w.parentRunID).isNone || conflicts v.db w then (.ok false, [])
      else (.ok true, [.insertWait (inserted w)]))
    (by intro v; split <;> simp [Write.rows, inserted])
    (by intro v; split <;> simp [Write.logs])

/-- One member row, unless the wait has one for the run or for the ordinal. -/
def insertMember (m : RunWaitMember) : Tx Unit :=
  .update (fun _ => [.wait m.waitID])
    (fun v =>
      if (v.db.run? m.runID).isNone then (.error .sql, [])
      else if (v.db.membersOf m.waitID).any fun x => x.runID = m.runID ∨ x.ordinal = m.ordinal then
        (.ok (), [])
      else (.ok (), [.insertMember m]))
    (by
      intro v
      split
      · simp
      · split <;> simp [Write.rows])
    (by
      intro v
      split
      · simp
      · split <;> simp [Write.logs])

/-- `Create`: a wait and its members, which are stored under the id of the wait. Creating
    the same wait again is a no-op. -/
def create (t : TenantID) (w : RunWait) (members : List RunWaitMember) : Tx Unit := do
  let created ← insert t w
  if created then
    Tx.forEach members fun m => insertMember { m with waitID := w.id }
  else do
    let _ ← get t w.id
    pure ()

/-- Members that name the wait are stored as they are. -/
theorem forEach_insertMember {w : WaitID} {members : List RunWaitMember}
    (h : ∀ m ∈ members, m.waitID = w) :
    (Tx.forEach members fun m => insertMember { m with waitID := w }) =
      Tx.forEach members insertMember := by
  induction members with
  | nil => rfl
  | cons m ms ih =>
    have hm : { m with waitID := w } = m := by rw [← h m (by simp)]
    simp [Tx.forEach, hm, ih fun m' hm' => h m' (by simp [hm'])]

def isOpenForChild (d : Db) (t : TenantID) (r : RunID) (w : RunWait) : Bool :=
  decide (w.state = .open) && (d.ownRun t w.parentRunID).isSome &&
    (d.membersOf w.id).any fun m => m.runID = r

/-- `ListOpenForChild`: the open waits a run is a member of. -/
def listOpenForChild (t : TenantID) (r : RunID) : Tx (List RunWait) :=
  .query fun d => d.waits.filter (isOpenForChild d t r)

def isOpenForParent (d : Db) (t : TenantID) (r : RunID) (w : RunWait) : Bool :=
  decide (w.state = .open) && decide (w.parentRunID = r) && (d.ownRun t r).isSome

/-- `ListOpenForParent`: the open waits a run holds. -/
def listOpenForParent (t : TenantID) (r : RunID) : Tx (List RunWait) :=
  .query fun d => d.waits.filter (isOpenForParent d t r)

/-- `ListForParent`: all waits of a run, by step. -/
def listForParent (t : TenantID) (r : RunID) : Tx (List RunWait) :=
  .query fun d =>
    (d.waits.filter fun w => decide (w.parentRunID = r) && (d.ownRun t r).isSome).insertionSort
      fun x y => x.stepIndex ≤ y.stepIndex

/-- Whether a wait of the tenant is open past its deadline. -/
def isDue (d : Db) (t : TenantID) (now : Time) (w : RunWait) : Bool :=
  decide (w.state = .open) && decide (w.deadline ≤ now) && (d.ownRun t w.parentRunID).isSome

/-- The rows `ClaimDue` selects: due, not locked by another transaction, the
    earliest deadlines first, at most `limit`. -/
def due (v : Snap Db Row) (t : TenantID) (now : Time) (limit : Nat) : List RunWait :=
  ((v.db.waits.filter fun w => isDue v.db t now w && !v.busy (.wait w.id)).insertionSort
    fun x y => x.deadline ≤ y.deadline).take limit

theorem mem_of_mem_due {v : Snap Db Row} {t : TenantID} {now : Time} {limit : Nat} {w : RunWait}
    (h : w ∈ due v t now limit) : w ∈ v.db.waits ∧ isDue v.db t now w ∧ ¬v.busy (.wait w.id) := by
  have := List.mem_of_mem_take h
  simpa [List.mem_insertionSort] using this

theorem due_nodup {v : Snap Db Row} (h : (v.db.waits.map RunWait.id).Nodup) (t : TenantID)
    (now : Time) (limit : Nat) : ((due v t now limit).map RunWait.id).Nodup := by
  refine List.Nodup.sublist ((List.take_sublist _ _).map _) ?_
  refine ((List.perm_insertionSort _ _).map _).nodup_iff.mpr ?_
  exact h.sublist (List.filter_sublist.map _)

/-- `ClaimDue`: move due open waits to `timed_out` and return them. -/
def claimDue (t : TenantID) (now : Time) (limit : Nat) : Tx (List RunWait) :=
  .update (fun v => (due v t now limit).map fun w => .wait w.id)
    (fun v => (.ok ((due v t now limit).map fun w => { w with state := .timedOut }),
      (due v t now limit).map fun w => .claimWait w.id))
    (by
      intro v w hw r hr
      obtain ⟨x, hx, rfl⟩ := List.mem_map.mp hw
      obtain rfl : r = .wait x.id := by simpa [Write.rows] using hr
      exact List.mem_map.mpr ⟨x, hx, rfl⟩)
    (by
      intro v w hw
      obtain ⟨x, -, rfl⟩ := List.mem_map.mp hw
      rfl)

def members (w : WaitID) : Tx (List RunWaitMember) :=
  .query fun d => (d.membersOf w).insertionSort fun m m' => m.ordinal ≤ m'.ordinal

/-- An UPDATE of one wait where `cond` holds; it reports whether it changed a row. -/
def updateIf (t : TenantID) (w : WaitID) (cond : RunWait → Bool) (write : Db → Write)
    (hrows : ∀ d, (write d).rows = [.wait w]) (hlogs : ∀ d, (write d).logs = false) : Tx Bool :=
  .update
    (fun v => match (v.db.ownWait t w).filter cond with
      | some _ => [.wait w]
      | none => [])
    (fun v => match (v.db.ownWait t w).filter cond with
      | some _ => (.ok true, [write v.db])
      | none => (.ok false, []))
    (by intro v; cases (v.db.ownWait t w).filter cond <;> simp [hrows])
    (by intro v; cases (v.db.ownWait t w).filter cond <;> simp [hlogs])

/-- `Close`: leave the open state, at most once. -/
def close (t : TenantID) (w : WaitID) (state : WaitState) (result : WaitOutcome) : Tx Bool :=
  updateIf t w (fun x => x.state = .open) (fun _ => .closeWait w state result) (fun _ => rfl)
    (fun _ => rfl)

/-- `MarkResumed`: record that the parent was resumed, at most once. -/
def markResumed (t : TenantID) (w : WaitID) : Tx Bool :=
  updateIf t w (fun x => x.resumedAt.isNone) (fun d => .markResumed w d.clock) (fun _ => rfl)
    (fun _ => rfl)

/-- `SetResult`: record the aggregate of a wait that is already closed. -/
def setResult (t : TenantID) (w : WaitID) (result : WaitOutcome) : Tx Unit := do
  let changed ← updateIf t w (fun _ => true) (fun _ => .setWaitResult w result) (fun _ => rfl)
    (fun _ => rfl)
  if changed then pure () else Tx.throw .notFound

end Waits

/-! ## Member rows -/

theorem membersOf_insertMembers (v : Db) {w : WaitID} {q : List RunWaitMember} (hq : ∀ m ∈ q, m.waitID = w) :
    (applyAll v (q.map Write.insertMember)).membersOf w = v.membersOf w ++ q := by
  induction q generalizing v with
  | nil => simp
  | cons m q ih =>
    rw [List.map_cons, applyAll_cons, ih _ fun m' hm' => hq m' (by simp [hm'])]
    simp [Write.onMembers, hq m (by simp)]

/-- Member rows change nothing but the members of their wait. -/
theorem insertMembers_same {α : Type} {f : Db → α} {q : List RunWaitMember}
    (hf : ∀ m ∈ q, ∀ e, f ((Write.insertMember m).apply e) = f e) (v : Db) :
    f (applyAll v (q.map Write.insertMember)) = f v :=
  applyAll_same (by simpa using hf)

/-! ## Specifications -/

namespace Tx

variable {A : Sight} {d : Db} {st : Local Row Write} {Q : Post Bool}

/-- Under the lock, the wait is read as it is when the transaction commits. -/
theorem wp_waits_getForUpdate (hA : Respects A) {t : TenantID} {w : WaitID} {Q : Post RunWait}
    (hnone : Q (.error .notFound) (st.after [.wait w] []))
    (hsome : ∀ x d', A (st.locks ++ [.wait w]) d d' → (view d' st).ownWait t w = some x →
      (view d st).wait? w = some x → Q (.ok x) (st.after [.wait w] [])) :
    wp A d (Waits.getForUpdate t w) st Q := by
  refine wp_lockRead.mpr fun d' hlock => ?_
  cases h : (applyAll d' st.writes).ownWait t w with
  | none => exact hnone
  | some x =>
    have hx := (Db.ownWait_eq_some.mp h).1
    rw [(hA.wait hlock (by simp) st.writes).1] at hx
    exact hsome x d' hlock h hx

theorem wp_waits_insert (hA : Respects A) {t : TenantID} {w : RunWait}
    (hno : Q (.ok false) st) (hyes : (view d st).wait? w.id = none →
      Q (.ok true) (st.after [.wait w.id] [.insertWait (Waits.inserted w)])) :
    wp A d (Waits.insert t w) st Q := by
  unfold Waits.insert
  refine wp_update.mpr fun d' busy hlock => ?_
  by_cases h : (((applyAll d' st.writes).ownRun t w.parentRunID).isNone ||
      Waits.conflicts (applyAll d' st.writes) w) = true
  · simpa only [h, if_true, Local.after_nil] using hno
  · simp only [h, if_false, Bool.false_eq_true] at hlock ⊢
    have hnone : (applyAll d st.writes).wait? w.id = none := by
      rw [← (hA.wait hlock (by simp) st.writes).1]
      simp only [Waits.conflicts, Bool.or_eq_true, not_or] at h
      simpa using h.2.1
    exact hyes hnone

theorem wp_waits_insertMember {m : RunWaitMember} {Q : Post Unit}
    (herr : Q (.error .sql) (st.after [.wait m.waitID] []))
    (hold : Q (.ok ()) (st.after [.wait m.waitID] []))
    (hnew : Q (.ok ()) (st.after [.wait m.waitID] [.insertMember m])) :
    wp A d (Waits.insertMember m) st Q := by
  unfold Waits.insertMember
  refine wp_update.mpr fun d' busy hlock => ?_
  split
  · exact herr
  · split
    · exact hold
    · exact hnew

/-- A conditional update of one wait writes to the row as it is when the
    transaction commits, where the condition holds; or does nothing. -/
theorem wp_waits_updateIf (hA : Respects A) {t : TenantID} {w : WaitID} {cond : RunWait → Bool}
    {write : Db → Write} {hrows : ∀ d, (write d).rows = [.wait w]}
    {hlogs : ∀ d, (write d).logs = false}
    (hno : ∀ d', A st.locks d d' → ((view d' st).ownWait t w).filter cond = none →
      Q (.ok false) st)
    (hyes : ∀ x d', (view d st).wait? w = some x → cond x = true →
      Q (.ok true) (st.after [.wait w] [write d'])) :
    wp A d (Waits.updateIf t w cond write hrows hlogs) st Q := by
  refine wp_update.mpr fun d' busy hlock => ?_
  cases h : ((applyAll d' st.writes).ownWait t w).filter cond with
  | none => simpa [h] using hno d' (by simpa [h] using hlock) h
  | some x =>
    simp only [h] at hlock ⊢
    obtain ⟨hx, hc⟩ := Option.filter_eq_some_iff.mp h
    have hx' := (Db.ownWait_eq_some.mp hx).1
    rw [(hA.wait hlock (by simp) st.writes).1] at hx'
    exact hyes x _ hx' hc

end Tx

end Ultracore
