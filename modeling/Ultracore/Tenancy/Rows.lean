-- SUMMARY: The rows of one tenant, the rows of all others, and the writes that stay within the former.
import Ultracore.Store.App
import Ultracore.Store.Waits
import Ultracore.Txn.Confined

/-!
# The rows of a tenant

Sessions and runs name their tenant. Events and memory belong to the tenant of their session,
steps and waits to that of their run, members to that of their wait. `part` keeps the rows
of a tenant and `rest` those of all others.

The schema gives the tables primary keys, and references to rows that exist (`Keyed`). Then a
write to rows of the tenant does to the part what it does to the tables, and nothing to the
rest.
-/

namespace Ultracore

open Txn

namespace Db

variable {s : SessionID}

def ownsEvent (t : TenantID) (d : Db) (e : Event) : Bool := (d.ownSession t e.sessionID).isSome

def ownsStep (t : TenantID) (d : Db) (s : RunStep) : Bool := (d.ownRun t s.runID).isSome

def ownsWait (t : TenantID) (d : Db) (w : RunWait) : Bool := (d.ownRun t w.parentRunID).isSome

def ownsMember (t : TenantID) (d : Db) (m : RunWaitMember) : Bool := (d.ownWait t m.waitID).isSome

def ownsMemory (t : TenantID) (d : Db) (e : MemoryEntry) : Bool :=
  (d.ownSession t e.sessionID).isSome

/-- The rows that belong to the tenant. -/
def part (t : TenantID) (d : Db) : Db where
  sessions := d.sessions.filter fun x => x.tenantID = t
  events := d.events.filter (d.ownsEvent t)
  runs := d.runs.filter fun x => x.tenantID = t
  steps := d.steps.filter (d.ownsStep t)
  waits := d.waits.filter (d.ownsWait t)
  members := d.members.filter (d.ownsMember t)
  memory := d.memory.filter (d.ownsMemory t)
  clock := d.clock

/-- The rows that do not, and the queue. -/
def rest (t : TenantID) (d : Db) : Db where
  sessions := d.sessions.filter fun x => x.tenantID ≠ t
  events := d.events.filter fun x => !d.ownsEvent t x
  runs := d.runs.filter fun x => x.tenantID ≠ t
  steps := d.steps.filter fun x => !d.ownsStep t x
  waits := d.waits.filter fun x => !d.ownsWait t x
  members := d.members.filter fun x => !d.ownsMember t x
  memory := d.memory.filter fun x => !d.ownsMemory t x
  jobs := d.jobs
  nextJob := d.nextJob
  clock := d.clock

/-- The primary keys, and the foreign keys along which rows belong to a tenant. -/
structure Keyed (d : Db) : Prop where
  sessions : (d.sessions.map Session.id).Nodup
  runs : (d.runs.map AgentRun.id).Nodup
  waits : (d.waits.map RunWait.id).Nodup
  event : ∀ e ∈ d.events, (d.session? e.sessionID).isSome
  step : ∀ s ∈ d.steps, (d.run? s.runID).isSome
  wait : ∀ w ∈ d.waits, (d.run? w.parentRunID).isSome
  member : ∀ m ∈ d.members, (d.wait? m.waitID).isSome
  memory : ∀ e ∈ d.memory, (d.session? e.sessionID).isSome

/-! ## Looking up in the part -/

section
variable {d : Db} {t : TenantID}

end

/-! ## Rows keep their owner -/

section
variable {d d' : Db} {t : TenantID}

theorem Extends.sameSession (h : d.Extends d') (hs : (d.session? s).isSome) :
    (d'.ownSession t s).isSome = (d.ownSession t s).isSome :=
  Table.isSome_filter_of_kept (fun _ => h.session) hs fun x y _ hxy => by simp [hxy]

theorem Extends.sameRun (h : d.Extends d') {r : RunID} (hr : (d.run? r).isSome) :
    (d'.ownRun t r).isSome = (d.ownRun t r).isSome :=
  Table.isSome_filter_of_kept (fun _ => h.run) hr fun x y _ hxy => by simp [hxy.tenantID]

theorem Extends.sameWait (h : d.Extends d') (hk : d.Keyed) {w : WaitID} (hw : (d.wait? w).isSome) :
    (d'.ownWait t w).isSome = (d.ownWait t w).isSome := by
  refine Table.isSome_filter_of_kept (fun _ => h.wait) hw fun x y hx hxy => ?_
  rw [hxy.parentRunID]
  exact h.sameRun (hk.wait x (Table.lookup_mem hx))

/-- The rows that were there belong to whom they did. -/
theorem Keyed.owners (hk : d.Keyed) (h : d.Extends d') (t : TenantID) :
    Table.Alike (d'.ownsEvent t) (d.ownsEvent t) d.events ∧
      Table.Alike (d'.ownsStep t) (d.ownsStep t) d.steps ∧
      Table.Alike (d'.ownsWait t) (d.ownsWait t) d.waits ∧
      Table.Alike (d'.ownsMember t) (d.ownsMember t) d.members ∧
      Table.Alike (d'.ownsMemory t) (d.ownsMemory t) d.memory :=
  ⟨Table.alike fun e he => h.sameSession (hk.event e he),
    Table.alike fun s hs => h.sameRun (hk.step s hs),
    Table.alike fun w hw => h.sameRun (hk.wait w hw),
    Table.alike fun m hm => h.sameWait hk (hk.member m hm),
    Table.alike fun e he => h.sameSession (hk.memory e he)⟩

end

end Db

/-- The write is to rows of the tenant; new rows have new keys. -/
def Write.Own (t : TenantID) (d : Db) : Write → Prop
  | .insertSession s => s.tenantID = t ∧ d.session? s.id = none
  | .bumpSeq s => (d.ownSession t s).isSome
  | .insertEvent e => (d.ownSession t e.sessionID).isSome
  | .insertRun r => r.tenantID = t ∧ d.run? r.id = none
  | .setHistory r _ _ | .setState r _ _ _ | .setResult r _ | .requestCancel r _ => (d.ownRun t r).isSome
  | .insertStep s => (d.ownRun t s.runID).isSome
  | .insertWait w => (d.ownRun t w.parentRunID).isSome ∧ d.wait? w.id = none
  | .insertMember m => (d.ownWait t m.waitID).isSome
  | .closeWait w _ _ | .claimWait w | .setWaitResult w _ | .markResumed w _ => (d.ownWait t w).isSome
  | .setMemory e _ => (d.ownSession t e.sessionID).isSome
  | .deleteMemory s _ _ => (d.ownSession t s).isSome
  | .insertJob _ _ _ | .deleteJob _ => False

namespace Write.Own

variable {d : Db} {t : TenantID} {w : Write}

end Write.Own

end Ultracore
