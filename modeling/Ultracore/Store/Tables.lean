-- SUMMARY: The database tables, the row locks, the writes of SQL statements, and what each lock protects.
import Ultracore.Core.Run
import Ultracore.Txn.Serial
import Ultracore.Txn.Table

/-!
# The database

`Db` holds the committed tables that the loop, the API and the event log use, and
the queue's outstanding jobs. A statement changes them by `Write`s, one constructor
for each kind of row change. `Row` names what a transaction can lock: the rows of
three tables, the entry of a spawn key in its unique index, and the advisory lock
of a session's memory.

`storeRegions` says which contents each lock stands for. A write touches only the
regions of `Write.rows`, and changes each of them as a function of that region.
-/

namespace Ultracore

open Txn

structure Session where
  id : SessionID
  tenantID : TenantID
  lastSeq : Nat
  title : String := ""
  labels : List (String × String) := []
  archivedAt : Option Time := none

/-- A job in the queue, outstanding until a worker acknowledges it. -/
structure QueuedJob where
  id : Nat
  job : Job
  scheduledAt : Time

/-- The part of the program a statement belongs to. No statement reads it; it
    tells the writes of a committed transaction apart. -/
inductive Origin where
  | create
  | step
  | answer
  | compaction
  | resume (waitID : WaitID)
  | timeout
deriving DecidableEq

structure Db where
  sessions : List Session := []
  events : List Event := []
  runs : List AgentRun := []
  steps : List RunStep := []
  waits : List RunWait := []
  members : List RunWaitMember := []
  memory : List MemoryEntry := []
  jobs : List QueuedJob := []
  nextJob : Nat := 0
  clock : Time := 0

namespace Db

def session? (d : Db) (s : SessionID) : Option Session :=
  Table.lookup Session.id s d.sessions

def run? (d : Db) (r : RunID) : Option AgentRun :=
  Table.lookup AgentRun.id r d.runs

def wait? (d : Db) (w : WaitID) : Option RunWait :=
  Table.lookup RunWait.id w d.waits

theorem run?_id {d : Db} {r : RunID} {x : AgentRun} (h : d.run? r = some x) : x.id = r :=
  Table.lookup_key h

theorem wait?_id {d : Db} {w : WaitID} {x : RunWait} (h : d.wait? w = some x) : x.id = w :=
  Table.lookup_key h

/-- The run of a tenant that was spawned under a key. A run started by the API
    has no key, which is stored as NULL and not in the index. -/
def spawned? (d : Db) (t : TenantID) (key : String) : Option RunID :=
  (d.runs.find? fun x => x.spawnKey ≠ "" ∧ x.tenantID = t ∧ x.spawnKey = key).map AgentRun.id

/-- The runs that run `r` has spawned, in creation order. -/
def childIDs (d : Db) (r : RunID) : List RunID :=
  (d.runs.filter fun x => x.parentRunID = some r).map AgentRun.id

def eventsOf (d : Db) (s : SessionID) : List Event :=
  d.events.filter fun e => e.sessionID = s

def stepsOf (d : Db) (r : RunID) : List RunStep :=
  d.steps.filter fun st => st.runID = r

def membersOf (d : Db) (w : WaitID) : List RunWaitMember :=
  d.members.filter fun m => m.waitID = w

def memoryOf (d : Db) (s : SessionID) : List MemoryEntry :=
  d.memory.filter fun e => e.sessionID = s

def modifySession (d : Db) (s : SessionID) (f : Session → Session) : Db :=
  { d with sessions := Table.update Session.id s f d.sessions }

def modifyRun (d : Db) (r : RunID) (f : AgentRun → AgentRun) : Db :=
  { d with runs := Table.update AgentRun.id r f d.runs }

def modifyWait (d : Db) (w : WaitID) (f : RunWait → RunWait) : Db :=
  { d with waits := Table.update RunWait.id w f d.waits }

end Db

/-- Something a transaction can hold locked until it ends. The advisory lock of a session's
    memory goes by the text that names the session, of which there are several. -/
inductive Row where
  | session (id : SessionID)
  | run (id : RunID)
  | wait (id : WaitID)
  | spawnKey (tenantID : TenantID) (key : String)
  | memory (id : SessionID) (text : String)
  | entry (id : SessionID) (key : String)
deriving DecidableEq

/-- One row change. A change of the session memory says under which text its lock was taken. -/
inductive Write where
  | insertSession (s : Session)
  | bumpSeq (s : SessionID)
  | insertEvent (e : Event)
  | insertRun (r : AgentRun)
  | setHistory (r : RunID) (history : Envelope) (origin : Origin)
  | setState (r : RunID) (state : RunState) (failureReason failureMessage : String)
  | setResult (r : RunID) (result : String)
  | requestCancel (r : RunID) (now : Time)
  | insertStep (s : RunStep)
  | insertWait (w : RunWait)
  | insertMember (m : RunWaitMember)
  | closeWait (w : WaitID) (state : WaitState) (result : WaitOutcome)
  | claimWait (w : WaitID)
  | setWaitResult (w : WaitID) (result : WaitOutcome)
  | markResumed (w : WaitID) (now : Time)
  | setMemory (e : MemoryEntry) (text : String)
  | deleteMemory (s : SessionID) (key text : String)
  | insertJob (job : Job) (scheduledAt : Time) (origin : Origin)
  | deleteJob (id : Nat)

namespace Write

def apply (d : Db) : Write → Db
  | .insertSession s => { d with sessions := d.sessions ++ [s] }
  | .bumpSeq s => d.modifySession s fun x => { x with lastSeq := x.lastSeq + 1 }
  | .insertEvent e => { d with events := d.events ++ [e] }
  | .insertRun r => { d with runs := d.runs ++ [r] }
  | .setHistory r h _ => d.modifyRun r fun x => { x with history := h }
  | .setState r st reason message => d.modifyRun r fun x =>
    { x with state := st, failureReason := reason, failureMessage := message }
  | .setResult r res => d.modifyRun r fun x => { x with result := some res }
  | .requestCancel r t => d.modifyRun r fun x =>
    { x with cancelRequestedAt := x.cancelRequestedAt.or (some t) }
  | .insertStep s => { d with steps := d.steps ++ [s] }
  | .insertWait w => { d with waits := d.waits ++ [w] }
  | .insertMember m => { d with members := d.members ++ [m] }
  | .closeWait w st res => d.modifyWait w fun x => { x with state := st, result := some res }
  | .claimWait w => d.modifyWait w fun x => { x with state := .timedOut }
  | .setWaitResult w res => d.modifyWait w fun x => { x with result := some res }
  | .markResumed w t => d.modifyWait w fun x => { x with resumedAt := some t }
  | .setMemory e _ =>
    { d with memory :=
        d.memory.filter (fun x => ¬(x.sessionID = e.sessionID ∧ x.key = e.key)) ++ [e] }
  | .deleteMemory s key _ =>
    { d with memory := d.memory.filter fun x => ¬(x.sessionID = s ∧ x.key = key) }
  | .insertJob job t _ =>
    { d with jobs := d.jobs ++ [⟨d.nextJob, job, t⟩], nextJob := d.nextJob + 1 }
  | .deleteJob n => { d with jobs := d.jobs.filter fun q => q.id ≠ n }

/-- The locks a write falls under. Queue rows are under none. -/
def rows : Write → List Row
  | .insertSession s => [.session s.id]
  | .bumpSeq s => [.session s]
  | .insertEvent e => [.session e.sessionID]
  | .insertRun r =>
    .run r.id :: (r.parentRunID.toList.map Row.run ++
      if r.spawnKey = "" then [] else [.spawnKey r.tenantID r.spawnKey])
  | .setHistory r _ _ => [.run r]
  | .setState r _ _ _ => [.run r]
  | .setResult r _ => [.run r]
  | .requestCancel r _ => [.run r]
  | .insertStep s => [.run s.runID]
  | .insertWait w => [.wait w.id]
  | .insertMember m => [.wait m.waitID]
  | .closeWait w _ _ => [.wait w]
  | .claimWait w => [.wait w]
  | .setWaitResult w _ => [.wait w]
  | .markResumed w _ => [.wait w]
  | .setMemory e text => [.memory e.sessionID text, .entry e.sessionID e.key]
  | .deleteMemory s key text => [.memory s text, .entry s key]
  | .insertJob _ _ _ => []
  | .deleteJob _ => []

end Write

instance : Tables Db Write where
  apply := Write.apply

@[simp] theorem tables_apply (d : Db) (w : Write) : Tables.apply d w = w.apply d := rfl

/-! ## What a write does to a lookup -/

namespace Write

def onSession (s : SessionID) (o : Option Session) : Write → Option Session
  | .insertSession x => o.or (if s = x.id then some x else none)
  | .bumpSeq s' => if s = s' then o.map fun x => { x with lastSeq := x.lastSeq + 1 } else o
  | _ => o

def onEvents (s : SessionID) (es : List Event) : Write → List Event
  | .insertEvent e => if s = e.sessionID then es ++ [e] else es
  | _ => es

def onRun (r : RunID) (o : Option AgentRun) : Write → Option AgentRun
  | .insertRun x => o.or (if r = x.id then some x else none)
  | .setHistory r' h _ => if r = r' then o.map fun x => { x with history := h } else o
  | .setState r' st reason message =>
    if r = r' then
      o.map fun x => { x with state := st, failureReason := reason, failureMessage := message }
    else o
  | .setResult r' res => if r = r' then o.map fun x => { x with result := some res } else o
  | .requestCancel r' t =>
    if r = r' then
      o.map fun x => { x with cancelRequestedAt := x.cancelRequestedAt.or (some t) }
    else o
  | _ => o

def onChildren (r : RunID) (ids : List RunID) : Write → List RunID
  | .insertRun x => if x.parentRunID = some r then ids ++ [x.id] else ids
  | _ => ids

def onSteps (r : RunID) (ss : List RunStep) : Write → List RunStep
  | .insertStep s => if r = s.runID then ss ++ [s] else ss
  | _ => ss

def onWait (w : WaitID) (o : Option RunWait) : Write → Option RunWait
  | .insertWait x => o.or (if w = x.id then some x else none)
  | .closeWait w' st res =>
    if w = w' then o.map fun x => { x with state := st, result := some res } else o
  | .claimWait w' => if w = w' then o.map fun x => { x with state := .timedOut } else o
  | .setWaitResult w' res => if w = w' then o.map fun x => { x with result := some res } else o
  | .markResumed w' t => if w = w' then o.map fun x => { x with resumedAt := some t } else o
  | _ => o

def onMembers (w : WaitID) (ms : List RunWaitMember) : Write → List RunWaitMember
  | .insertMember m => if w = m.waitID then ms ++ [m] else ms
  | _ => ms

def onMemory (s : SessionID) (es : List MemoryEntry) : Write → List MemoryEntry
  | .setMemory e _ => if s = e.sessionID then es.filter (fun x => x.key ≠ e.key) ++ [e] else es
  | .deleteMemory s' key _ => if s = s' then es.filter fun x => x.key ≠ key else es
  | _ => es

def onSpawned (t : TenantID) (key : String) (o : Option RunID) : Write → Option RunID
  | .insertRun x =>
    o.or (if x.spawnKey ≠ "" ∧ x.tenantID = t ∧ x.spawnKey = key then some x.id else none)
  | _ => o

end Write

namespace Db

variable (d : Db) (w : Write)

@[simp] theorem session?_apply (s : SessionID) :
    (w.apply d).session? s = w.onSession s (d.session? s) := by
  cases w with
  | insertSession => simp [Write.apply, Write.onSession, session?, Table.lookup_append, eq_comm]
  | bumpSeq s' => refine Table.lookup_update ?_ s' s d.sessions; exact fun _ => rfl
  | _ => rfl

@[simp] theorem eventsOf_apply (s : SessionID) :
    (w.apply d).eventsOf s = w.onEvents s (d.eventsOf s) := by
  cases w with
  | insertEvent e =>
    by_cases h : s = e.sessionID
    · simp [Write.apply, Write.onEvents, eventsOf, h]
    · simp [Write.apply, Write.onEvents, eventsOf, h, Ne.symm h]
  | _ => rfl

@[simp] theorem run?_apply (r : RunID) : (w.apply d).run? r = w.onRun r (d.run? r) := by
  cases w with
  | insertRun => simp [Write.apply, Write.onRun, run?, Table.lookup_append, eq_comm]
  | setHistory r' | setState r' | setResult r' | requestCancel r' =>
    refine Table.lookup_update ?_ r' r d.runs; exact fun _ => rfl
  | _ => rfl

/-- A run update moves no run to another parent. -/
private theorem childIDs_modifyRun {f : AgentRun → AgentRun} (hid : ∀ x, (f x).id = x.id)
    (hp : ∀ x, (f x).parentRunID = x.parentRunID) (d : Db) (r' r : RunID) :
    (d.modifyRun r' f).childIDs r = d.childIDs r := by
  rw [childIDs, modifyRun, Table.filter_update fun x => by rw [hp], Table.map_key_update hid, childIDs]

@[simp] theorem childIDs_apply (r : RunID) :
    (w.apply d).childIDs r = w.onChildren r (d.childIDs r) := by
  cases w with
  | insertRun x =>
    by_cases h : x.parentRunID = some r <;> simp [Write.apply, Write.onChildren, childIDs, h]
  | setHistory | setState | setResult | requestCancel =>
    refine childIDs_modifyRun ?_ ?_ _ _ _ <;> exact fun _ => rfl
  | _ => rfl

@[simp] theorem stepsOf_apply (r : RunID) : (w.apply d).stepsOf r = w.onSteps r (d.stepsOf r) := by
  cases w with
  | insertStep s =>
    by_cases h : r = s.runID
    · simp [Write.apply, Write.onSteps, stepsOf, h]
    · simp [Write.apply, Write.onSteps, stepsOf, h, Ne.symm h]
  | _ => rfl

@[simp] theorem wait?_apply (x : WaitID) : (w.apply d).wait? x = w.onWait x (d.wait? x) := by
  cases w with
  | insertWait => simp [Write.apply, Write.onWait, wait?, Table.lookup_append, eq_comm]
  | closeWait w' | claimWait w' | setWaitResult w' | markResumed w' =>
    refine Table.lookup_update ?_ w' x d.waits; exact fun _ => rfl
  | _ => rfl

@[simp] theorem membersOf_apply (x : WaitID) :
    (w.apply d).membersOf x = w.onMembers x (d.membersOf x) := by
  cases w with
  | insertMember m =>
    by_cases h : x = m.waitID
    · simp [Write.apply, Write.onMembers, membersOf, h]
    · simp [Write.apply, Write.onMembers, membersOf, h, Ne.symm h]
  | _ => rfl

@[simp] theorem memoryOf_apply (s : SessionID) :
    (w.apply d).memoryOf s = w.onMemory s (d.memoryOf s) := by
  cases w with
  | setMemory e =>
    by_cases h : e.sessionID = s
    · subst h
      simp only [Write.apply, Write.onMemory, memoryOf, List.filter_append, List.filter_filter,
        if_true]
      congr 1
      · apply List.filter_congr
        intro x _
        by_cases hx : x.sessionID = e.sessionID <;> simp [hx]
      · simp
    · simp only [Write.apply, Write.onMemory, memoryOf, List.filter_append, List.filter_filter,
        Ne.symm h, if_false]
      have hnil : List.filter (fun x : MemoryEntry => decide (x.sessionID = s)) [e] = [] := by
        simp [h]
      rw [hnil, List.append_nil]
      apply List.filter_congr
      intro x _
      by_cases hx : x.sessionID = s
      · have : x.sessionID ≠ e.sessionID := fun heq => h (heq.symm.trans hx)
        simp [hx, Ne.symm h]
      · simp [hx]
  | deleteMemory s' =>
    simp only [Write.apply, Write.onMemory, memoryOf, List.filter_filter]
    split
    · subst s'
      apply List.filter_congr
      intro x _
      by_cases hx : x.sessionID = s <;> simp [hx]
    · rename_i h
      apply List.filter_congr
      intro x _
      by_cases hx : x.sessionID = s
      · simp [hx, h]
      · simp [hx]
  | _ => rfl

/-- A run update moves no run to another spawn key. -/
private theorem spawned?_modifyRun {f : AgentRun → AgentRun} (hid : ∀ x, (f x).id = x.id)
    (ht : ∀ x, (f x).tenantID = x.tenantID) (hk : ∀ x, (f x).spawnKey = x.spawnKey) (d : Db)
    (r : RunID) (t : TenantID) (key : String) :
    (d.modifyRun r f).spawned? t key = d.spawned? t key := by
  simp only [spawned?, modifyRun, ← List.head?_filter, ← List.head?_map]
  rw [Table.filter_update fun x => by rw [ht, hk], Table.map_key_update hid]

@[simp] theorem spawned?_apply (t : TenantID) (key : String) :
    (w.apply d).spawned? t key = w.onSpawned t key (d.spawned? t key) := by
  cases w with
  | insertRun =>
    simp only [Write.apply, Write.onSpawned, spawned?, List.find?_append, Option.map_or,
      List.find?_singleton, decide_eq_true_eq]
    split <;> rfl
  | setHistory | setState | setResult | requestCancel =>
    refine spawned?_modifyRun ?_ ?_ ?_ _ _ _ _ <;> exact fun _ => rfl
  | _ => rfl

end Db

/-! ## Regions -/

/-- What is kept under a lock. -/
def Row.Content : Row → Type
  | .session _ => Option Session × List Event
  | .run _ => Option AgentRun × List RunStep × List RunID
  | .wait _ => Option RunWait × List RunWaitMember
  | .spawnKey _ _ => Option RunID
  | .memory _ _ | .entry _ _ => Unit

def Row.content : (r : Row) → Db → r.Content
  | .session s, d => (d.session? s, d.eventsOf s)
  | .run r, d => (d.run? r, d.stepsOf r, d.childIDs r)
  | .wait w, d => (d.wait? w, d.membersOf w)
  | .spawnKey t key, d => d.spawned? t key
  | .memory _ _, _ | .entry _ _, _ => ()

/-- A lock on a session protects its log, a lock on a run its row, its steps and the
    list of its children, a lock on a wait its row and members. The advisory lock on a session's
    memory protects nothing, since another transaction may take it under another text. -/
def storeRegions : Regions Db Row Write where
  Content := Row.Content
  content := Row.content
  congr := by
    intro r d d' w h
    cases r with
    | session | wait =>
      obtain ⟨h₁, h₂⟩ := Prod.mk.inj h
      exact Prod.ext (by simp [Row.content, h₁]) (by simp [Row.content, h₂])
    | run =>
      obtain ⟨h₁, h₂⟩ := Prod.mk.inj h
      obtain ⟨h₂, h₃⟩ := Prod.mk.inj h₂
      exact Prod.ext (by simp [Row.content, h₁])
        (Prod.ext (by simp [Row.content, h₂]) (by simp [Row.content, h₃]))
    | spawnKey t key =>
      have h₁ : d.spawned? t key = d'.spawned? t key := h
      have h₂ : (w.apply d).spawned? t key = (w.apply d').spawned? t key := by simp [h₁]
      exact h₂
    | memory | entry => rfl

theorem storeRegions_frames : storeRegions.Frames Write.rows := by
  intro d w r hr
  cases r with
  | session s =>
    have h₁ : (w.apply d).session? s = d.session? s := by
      rw [Db.session?_apply]
      cases w <;> simp_all [Write.rows, Write.onSession]
    have h₂ : (w.apply d).eventsOf s = d.eventsOf s := by
      rw [Db.eventsOf_apply]
      cases w <;> simp_all [Write.rows, Write.onEvents]
    exact Prod.ext h₁ h₂
  | run r =>
    have h₁ : (w.apply d).run? r = d.run? r := by
      rw [Db.run?_apply]
      cases w <;> simp_all [Write.rows, Write.onRun]
    have h₂ : (w.apply d).stepsOf r = d.stepsOf r := by
      rw [Db.stepsOf_apply]
      cases w <;> simp_all [Write.rows, Write.onSteps]
    have h₃ : (w.apply d).childIDs r = d.childIDs r := by
      rw [Db.childIDs_apply]
      cases w with
      | insertRun x =>
        have hx : x.parentRunID ≠ some r := fun hx => hr (by simp [Write.rows, hx])
        simp [Write.onChildren, hx]
      | _ => rfl
    exact Prod.ext h₁ (Prod.ext h₂ h₃)
  | wait x =>
    have h₁ : (w.apply d).wait? x = d.wait? x := by
      rw [Db.wait?_apply]
      cases w <;> simp_all [Write.rows, Write.onWait]
    have h₂ : (w.apply d).membersOf x = d.membersOf x := by
      rw [Db.membersOf_apply]
      cases w <;> simp_all [Write.rows, Write.onMembers]
    exact Prod.ext h₁ h₂
  | spawnKey t key =>
    have h₁ : (w.apply d).spawned? t key = d.spawned? t key := by
      rw [Db.spawned?_apply]
      cases w with
      | insertRun x =>
        have hx : ¬(x.spawnKey ≠ "" ∧ x.tenantID = t ∧ x.spawnKey = key) := by
          rintro ⟨hne, rfl, rfl⟩
          exact hr (by simp [Write.rows, hne])
        simp [Write.onSpawned, hx]
      | _ => rfl
    exact h₁
  | memory | entry => rfl

end Ultracore
