-- SUMMARY: What the tool calls of a step change outside the session of its run: nothing, unless it terminates a resource there.
import Ultracore.Protocol.Memory
import Ultracore.System.Guarantees
import Ultracore.Tools.Calls

/-!
# Tool calls and sessions

The tools of a step write to the session of its run, whatever the model supplies: each of
them takes the session from the run. The exception is the termination of a resource. Its id
is the model's, and any resource of the tenant is found under it.
-/

namespace Ultracore

open Txn

/-- Writes to rows of the session, or to no session at all. -/
def Write.InSession (s : SessionID) : Write → Prop
  | .bumpSeq x => x = s
  | .insertEvent e => e.sessionID = s
  | .insertRun r => r.sessionID = s
  | .setMemory e _ => e.sessionID = s
  | .deleteMemory x _ _ => x = s
  | .insertJob _ _ _ => True
  | _ => False

namespace Tools

open Loop
open Ultracore.System (Delivery)
open Tenancy (ResourceRow)

/-! ## The rows of other sessions -/

structure Elsewhere where
  runs : List AgentRun
  resources : List ResourceRow
  memory : List MemoryEntry
  events : List Event
  waits : List RunWait
  members : List RunWaitMember

/-- A wait belongs to the session of its parent. -/
def waitElsewhere (s : SessionID) (d : Db) (w : RunWait) : Bool :=
  (d.run? w.parentRunID).any fun r => r.sessionID ≠ s

/-- What belongs to sessions other than `s`. -/
def elsewhere (s : SessionID) (d : Shared) : Elsewhere where
  runs := d.core.runs.filter fun r => r.sessionID ≠ s
  resources := d.resources.filter fun r => r.sessionID ≠ s
  memory := d.core.memory.filter fun e => e.sessionID ≠ s
  events := d.core.events.filter fun e => e.sessionID ≠ s
  waits := d.core.waits.filter (waitElsewhere s d.core)
  members := d.core.members.filter fun m => (d.core.wait? m.waitID).any (waitElsewhere s d.core)

section
variable {s : SessionID} {d d' : Shared}

theorem elsewhere_eq
    (hruns : d'.core.runs.filter (fun r => r.sessionID ≠ s) = d.core.runs.filter fun r => r.sessionID ≠ s)
    (hresources : d'.resources.filter (fun r => r.sessionID ≠ s) =
      d.resources.filter fun r => r.sessionID ≠ s)
    (hmemory : d'.core.memory.filter (fun e => e.sessionID ≠ s) =
      d.core.memory.filter fun e => e.sessionID ≠ s)
    (hevents : d'.core.events.filter (fun e => e.sessionID ≠ s) =
      d.core.events.filter fun e => e.sessionID ≠ s)
    (hwaits : d'.core.waits = d.core.waits) (hmembers : d'.core.members = d.core.members)
    (howner : waitElsewhere s d'.core = waitElsewhere s d.core) : elsewhere s d' = elsewhere s d := by
  simp only [elsewhere, hruns, hresources, hmemory, hevents, hmembers, howner, Db.wait?, hwaits]

theorem filter_append_own {α : Type} {p : α → Bool} {x : α} (hx : p x = false) (l : List α) :
    (l ++ [x]).filter p = l.filter p := by
  simp [hx]

theorem filter_map_own {α : Type} {p : α → Bool} {f : α → α} {l : List α}
    (hp : ∀ x, p (f x) = p x) (hf : ∀ x ∈ l, p x = true → f x = x) :
    (l.map f).filter p = l.filter p := by
  have hcomp : p ∘ f = p := funext hp
  rw [List.filter_map, hcomp]
  refine List.map_congr_left (g := id) ?_ |>.trans (List.map_id _)
  intro x hx
  obtain ⟨hmem, hpx⟩ := List.mem_filter.mp hx
  exact hf x hmem hpx

/-- A run of the session makes no wait one of another session. -/
theorem waitElsewhere_insertRun {r : AgentRun} (hr : r.sessionID = s) (d : Db) :
    waitElsewhere s ((Write.insertRun r).apply d) = waitElsewhere s d := by
  funext w
  simp only [waitElsewhere, Db.run?_apply, Write.onRun]
  cases d.run? w.parentRunID with
  | some => rfl
  | none => split <;> simp [hr]

theorem elsewhere_core {w : Write} (h : w.InSession s) :
    elsewhere s (Change.apply d (.core w)) = elsewhere s d := by
  have hmemory : ∀ key, (d.core.memory.filter fun x => ¬(x.sessionID = s ∧ x.key = key)).filter
      (fun x => x.sessionID ≠ s) = d.core.memory.filter fun x => x.sessionID ≠ s :=
    fun key => Table.filter_filter_of_imp (by simp; tauto) d.core.memory
  cases w with
  | bumpSeq | insertJob => rfl
  | insertEvent e =>
    exact elsewhere_eq rfl rfl rfl (filter_append_own (by simp [show e.sessionID = s from h]) _) rfl rfl rfl
  | insertRun r =>
    exact elsewhere_eq (filter_append_own (by simp [show r.sessionID = s from h]) _) rfl rfl rfl
      rfl rfl
      (waitElsewhere_insertRun h d.core)
  | setMemory e =>
    obtain rfl : e.sessionID = s := h
    exact elsewhere_eq rfl rfl ((filter_append_own (by simp) _).trans (hmemory e.key)) rfl rfl rfl rfl
  | deleteMemory x key =>
    obtain rfl : x = s := h
    exact elsewhere_eq rfl rfl (hmemory key) rfl rfl rfl rfl
  | _ => cases h

end

/-! ## Transactions of the run store -/

/-- The transaction writes to the session only, and returns what satisfies `Q`. -/
def Keeps {α : Type} (s : SessionID) (x : Tx α) (Q : α → Prop) : Prop :=
  x.prog.Writes (fun _ => True) (Write.InSession s) Q

namespace Keeps

variable {α β : Type} {s : SessionID} {Q : β → Prop}

theorem pure {b : β} (h : Q b) : Keeps s (Pure.pure b : Tx β) Q := h

theorem bind {x : Tx α} {f : α → Tx β} {I : α → Prop} (hx : Keeps s x I)
    (hf : ∀ a, I a → Keeps s (f a) Q) : Keeps s (x >>= f) Q := Prog.Writes.bind hx hf

/-- What writes to the session only, whatever it sees. -/
theorem of_only {x : Tx β} (hx : x.Only (Write.InSession s)) : Keeps s x fun _ => True :=
  Prog.Emits.writes hx

theorem query (f : Db → β) : Keeps s (Tx.query f) fun _ => True := of_only (.query f)

theorem append (t : TenantID) (s : SessionID) (actor : Actor) (payload : EventPayload) :
    Keeps s (Events.append t s actor payload) fun _ => True :=
  of_only (Events.append_emits rfl fun _ => rfl)

/-- An event, and then a result. -/
theorem append_then {t : TenantID} {actor : Actor} {payload : EventPayload} {b : β} (h : Q b) :
    Keeps s (do let _ ← Events.append t s actor payload; Pure.pure b) Q :=
  bind (append t s actor payload) fun _ _ => pure h

theorem permissionDenied (run : AgentRun) (tool reason : String) :
    Keeps run.sessionID (Loop.permissionDenied run tool reason) fun _ => True :=
  append_then trivial

theorem remember (t : TenantID) {e : MemoryEntry} (hs : e.sessionID = s) (text : String)
    (actor : Actor) : Keeps s (System.ForeignOp.tx (.remember t e text actor)) fun _ => True :=
  (of_only (.memory_set hs)).bind fun _ _ => hs ▸ append_then trivial

theorem forget (t : TenantID) (s : SessionID) (key text : String) (by_ actor : Actor) :
    Keeps s (System.ForeignOp.tx (.forget t s key text by_ actor)) fun _ => True :=
  (of_only (.memory_delete rfl)).bind fun _ _ => append_then trivial

theorem findSpawned (run : AgentRun) (job : StepJob) (req : SpawnRequest) :
    Keeps s (Loop.findSpawned run job req) fun _ => True := by
  refine of_only (.bind (.attempt (.lockRead _ _)) fun r => ?_)
  split
  · exact .pure _
  · exact .pure _
  · exact .throw _

theorem spawnChildTx (run : AgentRun) (job : StepJob) {child : AgentRun}
    (hs : child.sessionID = run.sessionID) :
    Keeps run.sessionID (Loop.spawnChildTx run job child) fun _ => True := by
  refine of_only (.bind (.lockRead _ _) fun _ => .bind (.query _) fun n => ?_)
  split
  · exact .throw _
  refine .bind (.attempt (.lockRead _ _)) fun r => ?_
  split
  · exact .pure _
  · refine .bind (.runs_create hs) fun _ => ?_
    refine .bind (Events.append_emits rfl fun _ => rfl) fun _ => ?_
    exact .bind (.enqueue fun _ => trivial) fun _ => .pure _
  · exact .throw _

end Keeps

/-! ## Native calls -/

/-- What a process that calls tools carries belongs to its run. -/
def Proc.Valid : Proc → Prop
  | .native (.streaming d) | .native (.spawning d _) | .native (.denying d _ _) => ofRun d = true
  | .native (.creating d _ child) => ofRun d = true ∧ child.sessionID = d.run.sessionID
  | .native _ => False
  | .requesting d r => ofRun d = true ∧ r.sessionID = d.run.sessionID
  | .polling d _ | .terminating d _ => ofRun d = true

/-- The step that a process belongs to. -/
def Proc.delivery? : Proc → Option Delivery
  | .native (.streaming d) | .native (.spawning d _) | .native (.creating d _ _)
  | .native (.denying d _ _) => some d
  | .native _ => none
  | .requesting d _ | .polling d _ | .terminating d _ => some d

section
variable {cfg : Settings} {d : Delivery}

theorem keeps_callTool (hd : ofRun d = true) (c : System.ToolCall) :
    Keeps d.run.sessionID (System.callTool cfg d c) fun p => (Proc.native p).Valid := by
  have hs : d.job.sessionID = d.run.sessionID := by
    simp only [ofRun, decide_eq_true_eq] at hd
    exact hd.2.2
  unfold System.callTool
  split
  · exact (Keeps.permissionDenied _ _ _).bind fun _ _ => .pure hd
  split
  · exact .pure hd
  · rw [hs]
    exact .append_then hd
  · refine (Keeps.remember _ ?_ _ _).bind fun _ _ => .pure hd
    rfl
  · exact (Keeps.forget _ _ _ _ _ _).bind fun _ _ => .pure hd
  · exact .pure hd
  · split
    · exact .pure hd
    refine (Keeps.query _).bind fun children _ => ?_
    split
    · exact (Keeps.permissionDenied _ _ _).bind fun _ _ => .pure hd
    split
    · exact .pure hd
    · exact .pure hd
  · split
    · exact .pure hd
    · exact .pure hd

theorem keeps_spawnNext (hd : ofRun d = true) (s : System.Spawning) :
    Keeps d.run.sessionID (System.spawnNext d s) fun p => (Proc.native p).Valid := by
  unfold System.spawnNext
  split
  · split
    · exact .pure hd
    · exact .pure hd
  split
  · exact .pure hd
  · exact .pure hd
  · refine (Keeps.findSpawned _ _ _).bind fun r _ => ?_
    split
    · exact .pure hd
    · exact .pure ⟨hd, rfl⟩

/-- A native call, once begun, goes on in the session. -/
theorem keeps_native {p : System.Proc} {x : Tx System.Proc} (hp : (Proc.native p).Valid)
    (hd : (Proc.native p).delivery? = some d) (hx : System.body cfg p .go = some x) :
    Keeps d.run.sessionID x fun p' => (Proc.native p').Valid := by
  cases p with
  | streaming => cases hx
  | spawning dl s =>
    cases hd
    cases hx
    exact keeps_spawnNext hp s
  | creating =>
    cases hd
    cases hx
    exact (Keeps.spawnChildTx _ _ hp.2).bind fun _ _ => .pure hp.1
  | denying =>
    cases hd
    cases hx
    exact (Keeps.permissionDenied _ _ _).bind fun _ _ => .pure hp
  | _ => cases hp

end

/-! ## The footprint of a call -/

/-- The resource that is found under an id, if any, lies in the session of the run. -/
def aimed (run : AgentRun) (id : ResourceID) (d : Shared) : Bool :=
  d.resources.all fun r => !(r.id = id ∧ r.tenantID = run.tenantID) || r.sessionID = run.sessionID

/-- The resource that a process is about to terminate. -/
def Proc.target? : Proc → Option ResourceID
  | .terminating _ id => some id
  | _ => none

/-- A process that is about to terminate a resource aims at its own session. -/
def Proc.aims (p : Proc) (d : Shared) : Bool :=
  match p with
  | .terminating dl id => aimed dl.run id d
  | _ => true

/-- Changes inside the session of the run, and the termination of the target. -/
def Change.Inside (run : AgentRun) (target : Option ResourceID) : Change → Prop
  | .core w => w.InSession run.sessionID
  | .insertResource r => r.sessionID = run.sessionID
  | .setTerminating t id _ => t = run.tenantID ∧ target = some id
  | .insertJob _ => True

section
variable {run : AgentRun} {target : Option ResourceID} {d : Shared}

@[simp] theorem terminated_id (t : TenantID) (id : ResourceID) (now : Time) (r : ResourceRow) :
    (terminated t id now r).id = r.id := by
  unfold terminated Tenancy.Resources.changed
  split <;> rfl

@[simp] theorem terminated_tenantID (t : TenantID) (id : ResourceID) (now : Time) (r : ResourceRow) :
    (terminated t id now r).tenantID = r.tenantID := by
  unfold terminated Tenancy.Resources.changed
  split <;> rfl

@[simp] theorem terminated_sessionID (t : TenantID) (id : ResourceID) (now : Time) (r : ResourceRow) :
    (terminated t id now r).sessionID = r.sessionID := by
  unfold terminated Tenancy.Resources.changed
  split <;> rfl

theorem aimed_apply {id : ResourceID} {c : Change} (hc : c.Inside run target)
    (hd : aimed run id d = true) : aimed run id (c.apply d) = true := by
  cases c with
  | core | insertJob => exact hd
  | insertResource r =>
    have hr : r.sessionID = run.sessionID := hc
    simp only [aimed, Change.apply, List.all_append, Bool.and_eq_true]
    exact ⟨hd, by simp [hr]⟩
  | setTerminating =>
    simpa [aimed, Change.apply, Function.comp_def] using hd

/-- Such a change leaves other sessions alone where the target is the session's own. -/
theorem elsewhere_apply {c : Change} (hc : c.Inside run target)
    (hd : ∀ id, target = some id → aimed run id d = true) :
    elsewhere run.sessionID (c.apply d) = elsewhere run.sessionID d := by
  cases c with
  | core => exact elsewhere_core hc
  | insertJob => rfl
  | insertResource r =>
    have hr : r.sessionID = run.sessionID := hc
    exact elsewhere_eq rfl (filter_append_own (by simp [hr]) _) rfl rfl rfl rfl rfl
  | setTerminating t id now =>
    obtain ⟨rfl, rfl⟩ := hc
    have hsame : ∀ r ∈ d.resources, r.sessionID ≠ run.sessionID →
        terminated run.tenantID id now r = r := by
      intro r hr hne
      have hall := List.all_eq_true.mp (hd id rfl) r hr
      have hown : Tenancy.Resources.own run.tenantID id r = false := by
        simp only [hne, decide_false, Bool.or_false, Bool.not_eq_true'] at hall
        exact hall
      simp [terminated, Tenancy.Resources.changed, hown]
    exact elsewhere_eq rfl (filter_map_own (by simp) (by simpa using hsame)) rfl rfl rfl rfl rfl

end

/-! ## Transactions of resources -/

/-- What a process may write. -/
def Proc.Writes (p : Proc) (c : Change) : Prop :=
  ∀ dl, p.delivery? = some dl → c.Inside dl.run p.target?

/-- As long as the target is the session's own, the transaction changes nothing else of other
    sessions, and returns what satisfies `Q`. -/
def Stays {α : Type} (run : AgentRun) (target : Option ResourceID) (x : Body α) (Q : α → Prop) : Prop :=
  x.Writes (fun d => ∀ id, target = some id → aimed run id d = true) (Change.Inside run target) Q

section
variable {α β : Type} {run : AgentRun} {target : Option ResourceID} {svc : Service} {p : Proc}

theorem Keeps.stays {x : Tx α} {Q : α → Prop} (hx : Keeps run.sessionID x Q) :
    Stays run target (core x) Q := by
  have hprog : x.prog.Writes (fun _ => True) (fun w => Change.Inside run target (.core w)) Q := hx
  have hembed : (core x).Writes (fun _ => True) (Change.Inside run target) Q := hprog.embed
  exact hembed.mono (fun _ _ => trivial) (fun _ h => h) fun _ h => h

theorem Stays.pure {a : α} {Q : α → Prop} (h : Q a) : Stays run target (Pure.pure a) Q := h

theorem Stays.bind {x : Body α} {f : α → Body β} {I : α → Prop} {Q : β → Prop}
    (hx : Stays run target x I) (hf : ∀ a, I a → Stays run target (f a) Q) :
    Stays run target (x >>= f) Q := Prog.Writes.bind hx hf

/-- A read without a condition on what it returns. -/
theorem stays_read {need : Snap Shared Lock → List Lock} {f : Snap Shared Lock → Except Err α} :
    Stays run target (.exec need fun v => (f v, [])) fun _ => True :=
  Prog.Writes.exec fun _ _ => ⟨by simp, fun _ _ => trivial⟩

theorem stays_appendEvent {t : TenantID} {kind : Resourcework.EventKind} {r : ResourceRow}
    {message : String} : Stays run target (appendEvent svc t run.sessionID kind r message) fun _ => True :=
  Stays.bind (Keeps.append _ _ _ _).stays fun _ _ => .pure trivial

theorem stays_enqueue (j : ResourceJob) : Stays run target (enqueue j) fun _ => True := by
  refine Prog.Writes.exec fun _ _ => ⟨fun c hc => ?_, fun _ _ => trivial⟩
  obtain rfl := List.mem_singleton.mp hc
  trivial

theorem stays_now : Stays run target now fun _ => True := Prog.Writes.query fun _ _ => trivial

theorem stays_request {r : ResourceRow} (hr : r.sessionID = run.sessionID) :
    Stays run target (request svc r) fun _ => True := by
  have hcreate : Stays run target (Resources.create r.tenantID r) fun _ => True := by
    refine Prog.Writes.exec fun v _ => ⟨fun c hc => ?_, fun _ _ => trivial⟩
    split at hc
    · obtain rfl := List.mem_singleton.mp hc
      exact hr
    · cases hc
  refine hcreate.bind fun _ _ => ?_
  rw [hr]
  refine stays_appendEvent.bind fun _ _ => ?_
  refine stays_now.bind fun _ _ => ?_
  exact (stays_enqueue _).bind fun _ _ => stays_enqueue _

/-- Under the condition, the resource that is locked is one of the session. -/
theorem stays_requestTerminate (id : ResourceID) :
    Stays run (some id) (requestTerminate svc run.tenantID id) fun _ => True := by
  have hget : Stays run (some id) (Resources.getForUpdate run.tenantID id) fun r =>
      r.sessionID = run.sessionID := by
    refine Prog.Writes.exec fun v hv => ⟨by simp, fun r hr => ?_⟩
    cases hfind : v.db.resources.find? (Tenancy.Resources.own run.tenantID id) with
    | none => simp [Tenancy.Resources.get, hfind, Runs.found] at hr
    | some x =>
      obtain rfl : x = r := by simpa [Tenancy.Resources.get, hfind, Runs.found] using hr
      have hown := List.find?_some hfind
      have hall := List.all_eq_true.mp (hv id rfl) x (List.mem_of_find?_eq_some hfind)
      rw [show decide (x.id = id ∧ x.tenantID = run.tenantID) = true from hown] at hall
      simpa using hall
  have hset : Stays run (some id) (Resources.setTerminating run.tenantID id) fun _ => True := by
    refine Prog.Writes.exec fun v _ => ⟨fun c hc => ?_, fun _ _ => trivial⟩
    split at hc
    · obtain rfl := List.mem_singleton.mp hc
      exact ⟨rfl, rfl⟩
    · cases hc
  refine hget.bind fun r hr => ?_
  split
  · exact .pure trivial
  refine hset.bind fun _ _ => ?_
  rw [hr]
  refine stays_appendEvent.bind fun _ _ => ?_
  exact stays_now.bind fun _ _ => stays_enqueue _

theorem stays_deny {d : Delivery} (hd : ofRun d = true) (tool reason : String) :
    Stays d.run target (deny d tool reason) Proc.Valid :=
  Stays.bind (Keeps.permissionDenied _ _ _).stays fun _ _ => .pure hd

theorem stays_gate {d : Delivery} (hd : ofRun d = true) {tool : String} {x : Body Proc}
    (hx : Stays d.run target x Proc.Valid) : Stays d.run target (gate d tool x) Proc.Valid := by
  unfold gate
  split
  · exact hx
  · exact stays_deny hd _ _

theorem stays_prepare {kind providerName : String} {spec : Json} {newID : ResourceID}
    {token : Except String String} :
    Stays run target (prepare svc run kind spec providerName newID token) fun r =>
      r.sessionID = run.sessionID := by
  refine Stays.bind stays_read fun inst _ => ?_
  split
  · trivial
  · trivial
  · exact .pure rfl

theorem stays_call {cfg : Settings} {d : Delivery} (hd : ofRun d = true) (c : Call) :
    Stays d.run none (call cfg svc d c) Proc.Valid := by
  cases c with
  | native c => exact Stays.bind (keeps_callTool hd c).stays fun _ hp => .pure hp
  | memoryGet =>
    exact stays_gate hd (Stays.bind (Keeps.of_only (.lockRead _ _)).stays fun _ _ => .pure hd)
  | memoryList => exact stays_gate hd (Stays.bind (Keeps.query _).stays fun _ _ => .pure hd)
  | provision noun kind =>
    refine stays_gate hd ?_
    unfold provision
    dsimp only
    generalize (if kind = "" then resourceKindDevEnv else kind) = k
    split
    · exact stays_deny hd _ _
    · exact Stays.bind stays_prepare fun r hr => .pure ⟨hd, hr⟩
  | list | terminate | unreachable => exact stays_gate hd (.pure hd)
  | remote => exact stays_gate hd (Stays.bind stays_read fun _ _ => .pure hd)
  | refused => exact stays_deny hd _ _

/-- What the transaction of a valid process does. -/
theorem stays_body {cfg : Settings} {i : Input} {x : Body Proc} {dl : Delivery}
    (hp : p.Valid) (hdl : p.delivery? = some dl) (hx : body cfg svc p i = some x) :
    Stays dl.run p.target? x Proc.Valid := by
  unfold body at hx
  split at hx
  · cases hdl
    cases hx
    exact stays_call hp _
  · obtain ⟨y, hy, rfl⟩ := Option.map_eq_some_iff.mp hx
    exact Stays.bind (keeps_native hp hdl hy).stays fun _ hp' => .pure hp'
  · cases hdl
    cases hx
    exact (stays_request hp.2).bind fun _ _ => .pure hp.1
  · cases hdl
    cases hx
    refine Stays.bind stays_read fun r _ => ?_
    split
    · exact .pure hp
    · exact .pure hp
  · cases hdl
    cases hx
    exact .pure hp
  · cases hdl
    cases hx
    exact (stays_requestTerminate _).bind fun _ _ => .pure hp
  · cases hx

theorem Proc.Valid.delivery (hp : p.Valid) : ∃ dl, p.delivery? = some dl := by
  cases p with
  | native p => cases p <;> first | exact ⟨_, rfl⟩ | cases hp
  | _ => exact ⟨_, rfl⟩

theorem Proc.aims_iff {dl : Delivery} (hdl : p.delivery? = some dl) {d : Shared} :
    p.aims d = true ↔ ∀ id, p.target? = some id → aimed dl.run id d = true := by
  cases p with
  | terminating =>
    cases hdl
    simp [Proc.aims, Proc.target?]
  | _ => simp [Proc.aims, Proc.target?]

theorem onErr_valid (i : Input) (e : Err) (hp : p.Valid) : (onErr p i e).Valid := by
  cases p with
  | native p =>
    cases p with
    | streaming => exact hp
    | spawning => exact hp
    | denying => exact hp
    | creating =>
      cases e with
      | denied => exact hp.1
      | _ => exact hp.1
    | _ => cases hp
  | requesting => exact hp.1
  | polling | terminating => exact hp

/-- Every tool call keeps to the session of its run, as long as what it terminates is there. -/
theorem footprint (cfg : Settings) (svc : Service) :
    (machine cfg svc).Footprint Proc.Valid (fun p d => p.aims d = true) Proc.Writes where
  body := by
    intro p i x hp hx
    obtain ⟨dl, hdl⟩ := hp.delivery
    refine (stays_body hp hdl hx).mono (fun d hd => (Proc.aims_iff hdl).mp hd) ?_ fun _ h => h
    intro c hc dl' hdl'
    cases hdl.symm.trans hdl'
    exact hc
  onErr := onErr_valid
  spawn := by
    intro d ps p h
    simp only [machine] at h
    split at h
    · exact h
    · cases h
  own := by
    intro p c d hp hc hd
    obtain ⟨dl, hdl⟩ := hp.delivery
    rw [Proc.aims_iff hdl] at hd ⊢
    exact fun id hid => aimed_apply (hc dl hdl) (hd id hid)

end

/-! ## Whole runs -/

abbrev World := Config Shared Lock Change Err Input Proc

/-- Whenever a termination executes or commits, the resource found under its id, if any, lies
    in the session of the run that asked for it. -/
def aimsInside (c : World) : Action Input Shared Proc → Bool
  | .exec j | .commit j | .lose j => ((c.procs[j]?.bind Slot.proc).map fun p => p.aims c.db).getD true
  | _ => true

theorem seen_of_aimsInside {c : World} {a : Action Input Shared Proc} (h : aimsInside c a = true) :
    Machine.Seen (fun (p : Proc) d => p.aims d = true) c a := by
  cases a with
  | exec j | commit j | lose j =>
    intro sl p hj hp
    simpa [aimsInside, hj, hp] using h
  | _ => trivial

/-- In every run in which terminations aim at their own session, no step of a tool call changes
    a run, resource, memory entry, event or wait of another session: whatever the policy of the
    run, whatever the model supplies and whatever else happens meanwhile. -/
theorem tools_spare_other_sessions (cfg : Settings) (svc : Service) {d₀ : Shared}
    {log ws : List Change} {c c' : World} {a : Action Input Shared Proc} {j : Nat} {p : Proc}
    {dl : Delivery} (hrun : (machine cfg svc).Run (fun c a => aimsInside c a = true) ⟨d₀, []⟩ log c)
    (ha : aimsInside c a = true) (hs : (machine cfg svc).Step c a ws c') (hj : a.subject = some j)
    (hp : c.procs[j]?.bind Slot.proc = some p) (hdl : p.delivery? = some dl) :
    elsewhere dl.run.sessionID c'.db = elsewhere dl.run.sessionID c.db := by
  have htraced := (footprint cfg svc).run rfl (fun _ _ => seen_of_aimsInside) hrun
  obtain ⟨sl, hsl, hslp⟩ := Option.bind_eq_some_iff.mp hp
  rcases Machine.traced_commits htraced (seen_of_aimsInside ha) hs hj hsl hslp with
    hdb | ⟨hvalid, haims, ws', hdb, hws⟩
  · rw [hdb]
  · rw [hdb]
    -- Along the writes the tables stay such that the target is the session's own.
    have hkeeps : elsewhere dl.run.sessionID (applyAll c.db ws') = elsewhere dl.run.sessionID c.db ∧
        p.aims (applyAll c.db ws') = true := by
      refine applyAll_keeps (K := fun e => elsewhere dl.run.sessionID e =
        elsewhere dl.run.sessionID c.db ∧ p.aims e = true) (fun w hw e he => ?_) ⟨rfl, haims⟩
      have hin := hws w hw dl hdl
      exact ⟨(elsewhere_apply hin ((Proc.aims_iff hdl).mp he.2)).trans he.1,
        (footprint cfg svc).own hvalid (hws w hw) he.2⟩
    exact hkeeps.1

/-! ## Concrete runs -/

/-- A service that hosts no kind. -/
def noProviders : Service where
  build _ _ := .error "unknown provider"
  marshal _ _ := ""

/-- A step of the main run in its session. It may call any tool. -/
def ownStep : Delivery where
  jobID := 0
  job := System.mainJob 0
  run := {
    id := System.mainRun, sessionID := "session", tenantID := "tenant", parentRunID := none,
    spawnKey := "", cohortID := "", cohortOrdinal := 0, policy := defaultRunPolicy,
    actor := actorSystem, loopKind := "default", loopVersion := 1,
    modelConfig := System.sample.defaultModel, prompt := "go", history := Envelope.initial "go" }
  attempt := 1
  env := Envelope.initial "go"

def readyIn (s : SessionID) (id : ResourceID) : ResourceRow :=
  { id := id, state := .ready, token := "token", tenantID := "tenant", sessionID := s,
    providerInstanceID := "provider" }

/-- Two sessions of one tenant, each with a resource. -/
def twoSessions : Shared where
  core := { sessions := [{ id := "session", tenantID := "tenant", lastSeq := 0 },
                         { id := "other", tenantID := "tenant", lastSeq := 0 }] }
  resources := [readyIn "session" "mine", readyIn "other" "theirs"]

/-- The step calls `terminate_resource`, and is about to commit the termination. -/
def terminationOf (id : ResourceID) : List (Machine.Move Input Shared Proc) :=
  [.act (.spawn (.streaming ownStep)), .tx 0 (.call (.terminate .resource id "")),
    .act (.begin 0 .go)] ++ List.replicate 7 (.act (.exec 0))

/-- Execute a termination under a condition, and then its commit. -/
def playTermination (ok : World → Action Input Shared Proc → Bool) (id : ResourceID) :
    Option (World × World) :=
  ((machine System.sample noProviders).play ok ⟨twoSessions, []⟩ (terminationOf id)).bind fun c =>
    ((machine System.sample noProviders).next c (.commit 0)).map fun c' => (c, c')

theorem playTermination_run {ok : World → Action Input Shared Proc → Bool} {id : ResourceID}
    {c c' : World} (h : playTermination ok id = some (c, c')) :
    ∃ log ws, (machine System.sample noProviders).Run (fun c a => ok c a = true) ⟨twoSessions, []⟩ log c ∧
      (machine System.sample noProviders).Step c (.commit 0) ws c' := by
  obtain ⟨c₁, hc, h⟩ := Option.bind_eq_some_iff.mp h
  obtain ⟨c₂, hnext, h⟩ := Option.map_eq_some_iff.mp h
  cases h
  obtain ⟨log, hrun⟩ := Machine.play_run hc
  obtain ⟨ws, hstep⟩ := Machine.next_step hnext
  exact ⟨log, ws, hrun, hstep⟩

/-- The states of the resources, and how many events there are of sessions other than the
    step's. -/
def othersOf (c : World) : List ResourceState × Nat :=
  ((elsewhere "session" c.db).resources.map fun r => r.state,
    (elsewhere "session" c.db).events.length)

/-- Process 0 is about to terminate the resource. -/
def terminatesNow (id : ResourceID) (c : World) : Bool :=
  match (c.procs[0]?.bind Slot.proc : Option Proc) with
  | some (.terminating d id') => decide (id' = id) && decide (d.run.sessionID = "session")
  | _ => false

theorem terminatesNow_eq {id : ResourceID} {c : World} (h : terminatesNow id c = true) :
    ∃ d, c.procs[0]?.bind Slot.proc = some (.terminating d id) ∧ d.run.sessionID = "session" := by
  unfold terminatesNow at h
  split at h
  · rename_i d id' hp
    simp only [Bool.and_eq_true, decide_eq_true_eq] at h
    exact ⟨d, h.1 ▸ hp, h.2⟩
  · cases h

/-- The step terminates the resource of its own session. -/
theorem tools_spare_other_sessions_mine :
    ∃ log ws c c' p dl,
      (machine System.sample noProviders).Run (fun c a => aimsInside c a = true) ⟨twoSessions, []⟩ log c ∧
      (machine System.sample noProviders).Step c (.commit 0) ws c' ∧
      c.procs[0]?.bind Slot.proc = some p ∧ p.delivery? = some dl ∧
      c'.db.resources.map (fun r => r.state) = [.terminating, .ready] ∧
      elsewhere dl.run.sessionID c'.db = elsewhere dl.run.sessionID c.db := by
  have hplay : (playTermination aimsInside "mine").map (fun cs =>
      (aimsInside cs.1 (.commit 0), terminatesNow "mine" cs.1,
        cs.2.db.resources.map fun r => r.state)) =
      some (true, true, [.terminating, .ready]) := by decide +kernel
  obtain ⟨⟨c, c'⟩, hc, hfacts⟩ := Option.map_eq_some_iff.mp hplay
  obtain ⟨haims, hnow, hstates⟩ := by simpa using hfacts
  obtain ⟨log, ws, hrun, hstep⟩ := playTermination_run hc
  obtain ⟨d, hp, -⟩ := terminatesNow_eq hnow
  exact ⟨log, ws, c, c', _, d, hrun, hstep, hp, rfl, hstates,
    tools_spare_other_sessions System.sample noProviders hrun haims hstep rfl hp rfl⟩

/-- The step terminates the resource of another session, which also gets an event. -/
theorem tools_spare_other_sessions_theirs :
    ∃ log ws c c' d, (machine System.sample noProviders).Reaches ⟨twoSessions, []⟩ log c ∧
      (machine System.sample noProviders).Step c (.commit 0) ws c' ∧
      c.procs[0]?.bind Slot.proc = some (.terminating d "theirs") ∧ d.run.sessionID = "session" ∧
      othersOf c = ([.ready], 0) ∧ othersOf c' = ([.terminating], 1) := by
  have hplay : (playTermination (fun _ _ => true) "theirs").map (fun cs =>
      (terminatesNow "theirs" cs.1, othersOf cs.1, othersOf cs.2)) =
      some (true, ([.ready], 0), ([.terminating], 1)) := by decide +kernel
  obtain ⟨⟨c, c'⟩, hc, hfacts⟩ := Option.map_eq_some_iff.mp hplay
  obtain ⟨hnow, hbefore, hafter⟩ := by simpa using hfacts
  obtain ⟨log, ws, hrun, hstep⟩ := playTermination_run hc
  obtain ⟨d, hp, hses⟩ := terminatesNow_eq hnow
  exact ⟨log, ws, c, c', d, hrun.mono fun _ _ _ => trivial, hstep, hp, hses, hbefore, hafter⟩

end Tools

end Ultracore
