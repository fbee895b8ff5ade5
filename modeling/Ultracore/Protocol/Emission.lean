-- SUMMARY: What the functions of the program are made of, and that they write everyday rows, but for new runs and the session memory.
import Ultracore.Api.Runs
import Ultracore.Loop.Spawn
import Ultracore.Loop.Sweep

/-!
# What functions write

Nearly all functions are `Ordinary`: they are put together from a few store methods and from
`resolveChildWaits`. What holds of these and is kept by composition holds of every ordinary function.

`Tx.Only P` is of this kind. It says that everything a function writes satisfies `P`, whatever it
sees. Ordinary functions write only `everyday` rows: they add no run, and leave the session memory
and its events alone. `Tx.Keeps I` is another: whatever was written before, the function keeps `I`.
-/

namespace Ultracore

open Txn Loop Api

variable {s : SessionID} {payload : EventPayload} {run : AgentRun} {cfg : Settings}
  {rec : StepRecorder}

/-- Payloads of the events that report a change of the session memory. -/
def EventPayload.remembers : EventPayload → Bool
  | .memorySet _ _ _ | .memoryDeleted _ _ => true
  | _ => false

def Write.everyday : Write → Bool
  | .insertRun _ | .setMemory _ _ | .deleteMemory _ _ _ => false
  | .insertEvent e => !e.payload.remembers
  | _ => true

/-- `Append` bumps the counter and inserts one event. -/
theorem Events.append_emits {P : Write → Prop} {t : TenantID} {actor : Actor}
    (hbump : P (.bumpSeq s)) (hevent : ∀ q, P (.insertEvent ⟨s, q, actor, payload⟩)) :
    (Events.append t s actor payload).prog.Emits P := by
  intro v
  dsimp only
  cases v.db.ownSession t s with
  | none => exact ⟨by simp, trivial⟩
  | some =>
    exact ⟨by simpa using hbump, fun _ => ⟨by simpa using hevent _, fun _ => ⟨by simp, trivial⟩⟩⟩

/-- Everything that the function writes satisfies `P`. -/
def Tx.Only {α : Type} (P : Write → Prop) (x : Tx α) : Prop := x.prog.Emits P

namespace Tx.Only

variable {α β γ : Type} {P Q : Write → Prop}

/-! ## Combinators -/

theorem pure (a : α) : Only P (Pure.pure a : Tx α) := trivial

theorem throw (e : Err) : Only P (Tx.throw e : Tx α) := trivial

theorem query (f : Db → α) : Only P (Tx.query f) := fun _ => ⟨by simp, trivial⟩

theorem lockRead (need : List Row) (f : Db → Except Err α) : Only P (Tx.lockRead need f) :=
  .exec (by simp)

theorem update {need : Snap Db Row → List Row} {f : Snap Db Row → Except Err α × List Write}
    {hneed : ∀ v, ∀ w ∈ (f v).2, ∀ r ∈ w.rows, r ∈ need v}
    {hlog : ∀ v, ∀ w ∈ (f v).2, w.logs = false}
    (h : ∀ v, ∀ w ∈ (f v).2, P w) : Only P (Tx.update need f hneed hlog) :=
  .exec h

theorem bind {x : Tx α} {f : α → Tx β} (hx : Only P x) (hf : ∀ a, Only P (f a)) :
    Only P (x >>= f) := Prog.Emits.bind hx hf

theorem attempt {x : Tx α} (hx : Only P x) : Only P x.attempt := Prog.Emits.attempt hx

theorem forEach {xs : List γ} {f : γ → Tx Unit} (hf : ∀ x ∈ xs, Only P (f x)) :
    Only P (Tx.forEach xs f) := by
  rw [Only, Tx.forEach_prog]
  exact .forEach hf

/-! ## Store methods -/

variable {t : TenantID} {r : RunID} {w : WaitID}

theorem runs_update {write : Db → Write} {hrows : ∀ d, (write d).rows = [.run r]}
    {hlogs : ∀ d, (write d).logs = false} (h : ∀ d, P (write d)) :
    Only P (Runs.update t r write hrows hlogs) := by
  refine update fun v => ?_
  cases v.db.ownRun t r <;> simp [h]

theorem insertStep {s : RunStep} (h : P (.insertStep s)) : Only P (Runs.insertStep t s) := by
  refine update fun v => ?_
  split
  · simp
  · split <;> simp [h]

theorem enqueue {job : Job} {at_ : Option Time} {origin : Origin}
    (h : ∀ time, P (.insertJob job time origin)) : Only P (Queue.enqueue job at_ origin) :=
  update (by simp [h])

theorem ack {n : Nat} (h : P (.deleteJob n)) : Only P (Queue.ack n) := update (by simp [h])

theorem sessions_create (h : ∀ x, P (.insertSession x)) : Only P (Sessions.create t s) := by
  refine .exec fun v => ?_
  cases v.db.session? s <;> simp [h]

theorem updateIf {cond : RunWait → Bool} {write : Db → Write}
    {hrows : ∀ d, (write d).rows = [.wait w]} {hlogs : ∀ d, (write d).logs = false}
    (h : ∀ d, P (write d)) : Only P (Waits.updateIf t w cond write hrows hlogs) := by
  refine update fun v => ?_
  cases (v.db.ownWait t w).filter cond <;> simp [h]

theorem claimDue {now : Time} {limit : Nat} (h : ∀ w, P (.claimWait w)) :
    Only P (Waits.claimDue t now limit) := by
  refine update fun v w hw => ?_
  obtain ⟨x, -, rfl⟩ := List.mem_map.mp hw
  exact h _

theorem waits_setResult {result : WaitOutcome} (h : P (.setWaitResult w result)) :
    Only P (Waits.setResult t w result) := by
  refine bind (updateIf fun _ => h) fun changed => ?_
  split
  · exact pure _
  · exact throw _

theorem waits_create {x : RunWait} {ms : List RunWaitMember}
    (hwait : P (.insertWait (Waits.inserted x))) (hmember : ∀ m, P (.insertMember m)) :
    Only P (Waits.create t x ms) := by
  refine bind (update fun v => ?_) fun created => ?_
  · split <;> simp [hwait]
  split
  · refine forEach fun m _ => update fun v => ?_
    split
    · simp
    · split <;> simp [hmember]
  · exact bind (lockRead _ _) fun _ => pure _

theorem runs_create (h : P (.insertRun (Runs.inserted t run))) : Only P (Runs.create t run) := by
  refine update fun v => ?_
  split
  · simp
  split
  · simp
  split <;> simp [h]

theorem memory_set {e : MemoryEntry} {text : String} (h : P (.setMemory e text)) :
    Only P (Memory.set t e text) := by
  unfold Memory.set
  split
  · exact throw _
  split
  · exact throw _
  refine bind (lockRead _ _) fun _ => bind (query _) fun entries => ?_
  dsimp only
  split
  · exact throw _
  · refine update fun v => ?_
    cases v.db.ownSession t e.sessionID <;> simp [h]

theorem memory_delete {key text : String} (h : P (.deleteMemory s key text)) :
    Only P (Memory.delete t s key text) := by
  refine bind (lockRead _ _) fun _ => update fun v => ?_
  split <;> simp [h]

end Tx.Only

/-! ## What functions are made of -/

/-- `K` holds of the store methods that ordinary functions use and of `resolveChildWaits`, and is
    kept by composition. A run that was read under its id has that id. Errors are caught where a row is
    missing, where a step exists, and around the transaction of a step. -/
structure Built (K : (α : Type) → Tx α → Prop) : Prop where
  pure : ∀ {α : Type} (a : α), K α (Pure.pure a)
  throw : ∀ {α : Type} (e : Err), K α (Tx.throw e)
  query : ∀ {α : Type} (f : Db → α), K α (Tx.query f)
  lockRead : ∀ {α : Type} (need : List Row) (f : Db → Except Err α), K α (Tx.lockRead need f)
  bind : ∀ {α β : Type} {x : Tx α} {f : α → Tx β}, K α x → (∀ a, K β (f a)) → K β (x >>= f)
  read : ∀ {β : Type} {t : TenantID} {r : RunID} {f : AgentRun → Tx β},
    (∀ x, x.id = r → K β (f x)) → K β (Runs.getForUpdate t r >>= f)
  attemptRead : ∀ {α : Type} (need : List Row) (f : Db → Except Err α),
    K _ (Tx.lockRead need f).attempt
  attemptStep : ∀ {t : TenantID} {s : RunStep}, K _ (Runs.insertStep t s).attempt
  stale : ∀ {α : Type} {fn : Tx α}, K α fn → K _ (txStale fn)
  forEach : ∀ {γ : Type} {xs : List γ} {f : γ → Tx Unit}, (∀ x ∈ xs, K _ (f x)) →
    K _ (Tx.forEach xs f)
  setHistory : ∀ {t : TenantID} {r : RunID} {history : Envelope} {origin : Origin},
    (∀ w, origin ≠ .resume w) → K _ (Runs.setHistory t r history origin)
  setState : ∀ {t : TenantID} {r : RunID} {state : RunState} {reason message : String},
    K _ (Runs.setState t r state reason message)
  setResult : ∀ {t : TenantID} {r : RunID} {result : String}, K _ (Runs.setResult t r result)
  stampCancel : ∀ {t : TenantID} {r : RunID}, K _ (Runs.requestCancel t r)
  append : ∀ {t : TenantID} {s : SessionID} {actor : Actor} {payload : EventPayload},
    payload.remembers = false → K _ (Events.append t s actor payload)
  enqueue : ∀ {job : Job} {at_ : Option Time} {origin : Origin}, K _ (Queue.enqueue job at_ origin)
  ack : ∀ {n : Nat}, K _ (Queue.ack n)
  createSession : ∀ {t : TenantID} {s : SessionID}, K _ (Sessions.create t s)
  close : ∀ {t : TenantID} {w : WaitID} {state : WaitState} {result : WaitOutcome},
    result.state = state → state ≠ .open → K _ (Waits.close t w state result)
  markResumed : ∀ {t : TenantID} {w : WaitID}, K _ (Waits.markResumed t w)
  claimDue : ∀ {t : TenantID} {now : Time} {limit : Nat}, K _ (Waits.claimDue t now limit)
  resolveChildWaits : ∀ {t : TenantID} {r : RunID}, K _ (Loop.resolveChildWaits t r)

/-- What is built like this. -/
def Ordinary {α : Type} (x : Tx α) : Prop := ∀ K : (α : Type) → Tx α → Prop, Built K → K α x

namespace Ordinary

variable {α β γ : Type} {t : TenantID} {r : RunID} {w : WaitID} {job : StepJob} {message : String}

theorem pure (a : α) : Ordinary (Pure.pure a : Tx α) := fun _ h => h.pure a

theorem throw (e : Err) : Ordinary (Tx.throw e : Tx α) := fun _ h => h.throw e

theorem query (f : Db → α) : Ordinary (Tx.query f) := fun _ h => h.query f

theorem lockRead (need : List Row) (f : Db → Except Err α) : Ordinary (Tx.lockRead need f) :=
  fun _ h => h.lockRead need f

theorem bind {x : Tx α} {f : α → Tx β} (hx : Ordinary x) (hf : ∀ a, Ordinary (f a)) :
    Ordinary (x >>= f) := fun K h => h.bind (hx K h) fun a => hf a K h

theorem attemptRead (need : List Row) (f : Db → Except Err α) :
    Ordinary (Tx.lockRead need f).attempt := fun _ h => h.attemptRead need f

theorem forEach {xs : List γ} {f : γ → Tx Unit} (hf : ∀ x ∈ xs, Ordinary (f x)) :
    Ordinary (Tx.forEach xs f) := fun K h => h.forEach fun x hx => hf x hx K h

theorem setHistory {history : Envelope} {origin : Origin} (h : ∀ w, origin ≠ .resume w) :
    Ordinary (Runs.setHistory t r history origin) := fun _ hK => hK.setHistory h

theorem setState {state : RunState} {reason : String} :
    Ordinary (Runs.setState t r state reason message) := fun _ h => h.setState

theorem append {actor : Actor}
    (hp : payload.remembers = false) : Ordinary (Events.append t s actor payload) :=
  fun _ h => h.append hp

theorem enqueue {j : Job} {at_ : Option Time} {origin : Origin} :
    Ordinary (Queue.enqueue j at_ origin) := fun _ h => h.enqueue

/-! ## Waits -/

theorem resolveChildWaits : Ordinary (resolveChildWaits t r) := fun _ h => h.resolveChildWaits

theorem abandonParentWaits : Ordinary (abandonParentWaits t r) :=
  bind (query _) fun _ => forEach fun _ _ =>
    bind (fun _ h => h.close rfl (by decide)) fun _ => bind (fun _ h => h.markResumed) fun _ => pure _

theorem claimDueWaits : Ordinary (claimDueWaits cfg t) :=
  bind (query _) fun _ _ h => h.claimDue

theorem rearm : Ordinary (rearm cfg t) := bind (query _) fun _ => enqueue

/-! ## Steps -/

theorem txStale {fn : Tx α} (h : Ordinary fn) : Ordinary (txStale fn) := fun K hK => hK.stale (h K hK)

theorem settleTerminalRun : Ordinary (settleTerminalRun t r) :=
  bind abandonParentWaits fun _ => bind (lockRead _ _) fun _ => resolveChildWaits

theorem markCancelledTx : Ordinary (markCancelledTx job : Tx α) :=
  bind setState fun _ => bind (append rfl) fun _ => bind settleTerminalRun fun _ => throw _

theorem countAttempts {pages fromSeq count : Nat} :
    Ordinary (countAttempts job pages fromSeq count) := by
  induction pages generalizing fromSeq count with
  | zero => exact throw _
  | succ pages ih =>
    refine bind (query _) fun batch => ?_
    split
    · exact pure _
    · exact ih

theorem claim {pages : Nat} : Ordinary (claim job pages) := by
  refine txStale (bind (lockRead _ _) fun run => ?_)
  split
  · exact throw _
  split
  · exact markCancelledTx
  refine bind (query _) fun steps => ?_
  split
  · exact throw _
  refine bind countAttempts fun count => ?_
  split
  · exact bind setState fun _ => pure _
  · exact pure _

theorem failRun {reason : String} : Ordinary (failRun job reason message) := by
  refine bind (attemptRead _ _) fun res => ?_
  split
  · exact pure _
  split
  · exact pure _
  · exact bind setState fun _ => bind (append rfl) fun _ => settleTerminalRun

theorem cancelRun : Ordinary (Loop.cancelRun job) := txStale markCancelledTx

theorem appendAgent (hp : payload.remembers = false) :
    Ordinary (appendAgent job payload) := bind (append hp) fun _ => pure _

theorem findSpawned {req : SpawnRequest} : Ordinary (findSpawned run job req) := by
  refine bind (attemptRead _ _) fun res => ?_
  split
  · exact pure _
  · exact pure _
  · exact throw _

theorem permissionDenied {tool reason : String} :
    Ordinary (permissionDenied run tool reason) := bind (append rfl) fun _ => pure _

/-! ## Requests -/

theorem resolveSession : Ordinary (resolveSession t s) := by
  refine bind (lockRead _ _) fun tenant => ?_
  split
  · exact throw _
  · exact pure _

theorem answer {caller : Actor} : Ordinary (answer run message caller) := by
  refine bind (lockRead _ _) fun locked => ?_
  split
  · exact throw _
  split
  · exact throw _
  · exact bind (setHistory (by simp)) fun _ => bind setState fun _ => bind (append rfl) fun _ =>
      bind (query _) fun _ => enqueue

theorem cancelAwaiting {reason : String} : Ordinary (cancelAwaiting run reason message) :=
  bind setState fun _ => bind abandonParentWaits fun _ => bind (append rfl) fun _ => pure _

theorem requestCancel {locked : AgentRun} : Ordinary (requestCancel run locked) := by
  refine bind (fun _ h => h.stampCancel) fun _ => ?_
  split
  · exact cancelAwaiting
  · exact pure _

theorem api_cancelRun : Ordinary (Api.cancelRun run) := by
  refine bind (lockRead _ _) fun locked => ?_
  split
  · exact throw _
  · exact requestCancel

theorem adminCancelRun : Ordinary (adminCancelRun run) := by
  refine bind (lockRead _ _) fun locked => ?_
  split
  · exact pure _
  · exact requestCancel

theorem expireAwait : Ordinary (expireAwait run) := by
  refine bind (lockRead _ _) fun locked => ?_
  split
  · exact throw _
  · exact bind (fun _ h => h.stampCancel) fun _ => cancelAwaiting

end Ordinary

/-! ## New runs, new waits, and the hook of a step -/

namespace Built

variable {K : (α : Type) → Tx α → Prop} (hK : Built K) {job : StepJob}
include hK

theorem spawnChildTx {child : AgentRun} (h : K _ (Runs.create run.tenantID child)) :
    K _ (spawnChildTx run job child) := by
  refine hK.bind (hK.lockRead _ _) fun _ => hK.bind (hK.query _) fun n => ?_
  split
  · exact hK.throw _
  refine hK.bind (hK.attemptRead _ _) fun res => ?_
  split
  · exact hK.pure _
  · exact hK.bind h fun _ => hK.bind (hK.append rfl) fun _ => hK.bind hK.enqueue fun _ => hK.pure _
  · exact hK.throw _

theorem startRun (h : K _ (Runs.create run.tenantID run)) : K _ (startRun run) :=
  hK.bind h fun _ => hK.bind (hK.append rfl) fun _ => hK.enqueue

theorem classify {step : StepResult}
    {final : String} (h : rec.waitRunIDs ≠ [] → K _ (createWait cfg run job rec)) :
    K _ (classify cfg job run step rec final) := by
  have hagent : ∀ {payload : EventPayload}, payload.remembers = false →
      K _ (appendAgent job payload) := fun hp => Ordinary.appendAgent hp K hK
  unfold Loop.classify
  split
  · rename_i hids
    refine hK.bind (h (List.ne_nil_of_length_pos hids)) fun park => ?_
    split
    · exact hK.pure _
    · exact hK.bind hK.setState fun _ => hagent rfl
  split
  · exact hK.bind hK.setState fun _ => hagent rfl
  split
  · exact hK.enqueue
  · exact hK.bind hK.setState fun _ => hK.bind hK.setResult fun _ => hK.bind (hagent rfl) fun _ =>
      hK.bind (Ordinary.abandonParentWaits K hK) fun _ => Ordinary.resolveChildWaits K hK

theorem commitOutcome {n : Nat} {env : Envelope} {step : StepResult} {final : String}
    (hhook : ∀ run record, K _ (accountStepCost run record).attempt)
    (hwait : ∀ run, run.id = job.runID → rec.waitRunIDs ≠ [] → K _ (createWait cfg run job rec)) :
    K _ (commitOutcome cfg job n env step rec final) := by
  refine hK.stale (hK.read fun run hrun => ?_)
  split
  · exact hK.throw _
  split
  · exact Ordinary.markCancelledTx K hK
  refine hK.bind (hK.setHistory (by simp)) fun _ => hK.bind hK.attemptStep fun res => ?_
  split
  · exact hK.throw _
  · exact hK.throw _
  · exact hK.bind (hhook _ _) fun _ => hK.bind (Ordinary.appendAgent rfl K hK) fun _ =>
      hK.classify (hwait run hrun)

end Built

/-! ## Everyday rows -/

namespace Tx.Only

variable {P : Write → Prop} (hP : ∀ w : Write, w.everyday = true → P w) {t : TenantID} {w : WaitID}
include hP

theorem append {actor : Actor}
    (hp : payload.remembers = false) : Only P (Events.append t s actor payload) :=
  Events.append_emits (hP _ rfl) fun _ => hP _ (by simp [Write.everyday, hp])

theorem resumeParent {wait : RunWait} {outcome : WaitOutcome} :
    Only P (resumeParent t wait outcome) := by
  refine bind (updateIf fun _ => hP _ rfl) fun first => ?_
  split
  · exact pure _
  refine bind (lockRead _ _) fun parent => ?_
  split
  · exact pure _
  split
  · exact throw _
  · exact bind (runs_update fun _ => hP _ rfl) fun _ => bind (runs_update fun _ => hP _ rfl) fun _ =>
      bind (append hP rfl) fun _ => bind (query _) fun _ => bind (enqueue fun _ => hP _ rfl) fun _ =>
        pure _

omit hP in
theorem evaluate {ms : List RunWaitMember} {o : WaitOutcome} : Only P (evaluate t o ms) := by
  induction ms generalizing o with
  | nil => exact pure _
  | cons m ms ih => exact bind (lockRead _ _) fun _ => ih

theorem tryCloseWait {reason : CloseReason} : Only P (tryCloseWait t w reason) := by
  refine bind (attempt (lockRead _ _)) fun res => ?_
  split
  · exact pure _
  · exact throw _
  refine bind (query _) fun ms => bind evaluate fun counted => ?_
  split
  · exact pure _
  dsimp only
  split
  · refine bind (updateIf fun _ => hP _ rfl) fun closed => ?_
    split
    · exact pure _
    · exact resumeParent hP
  · exact bind (waits_setResult (hP _ rfl)) fun _ => resumeParent hP

theorem createWait {job : StepJob} : Only P (createWait cfg run job rec) := by
  have hcreate : ∀ {x ms}, Only P (Waits.create run.tenantID x ms) := fun {x _} =>
    waits_create (hP _ rfl) fun _ => hP _ rfl
  refine bind (query _) fun now => bind hcreate fun _ => bind (tryCloseWait hP) fun resumed => ?_
  split
  · exact pure _
  · exact bind (enqueue fun _ => hP _ rfl) fun _ => pure _

/-- What holds of everyday rows holds of everything that ordinary functions write. -/
theorem built : Built fun _ x => Only P x where
  pure := pure
  throw := throw
  query := query
  lockRead := lockRead
  bind := bind
  read {_ t r _} hf := by
    intro v
    refine ⟨by simp, ?_⟩
    cases hx : v.db.ownRun t r with
    | none =>
      simp only [Runs.found, hx]
      trivial
    | some x =>
      simp only [Runs.found, hx]
      exact hf x (Db.run?_id (Db.ownRun_eq_some.mp hx).1)
  attemptRead need f := attempt (lockRead need f)
  attemptStep := attempt (insertStep (hP _ rfl))
  stale h := by
    refine bind (attempt h) fun res => ?_
    split
    · exact pure _
    · exact pure _
    · exact throw _
  forEach := forEach
  setHistory _ := runs_update fun _ => hP _ rfl
  setState := runs_update fun _ => hP _ rfl
  setResult := runs_update fun _ => hP _ rfl
  stampCancel := runs_update fun _ => hP _ rfl
  append := append hP
  enqueue := enqueue fun _ => hP _ rfl
  ack := ack (hP _ rfl)
  createSession := sessions_create fun _ => hP _ rfl
  close _ _ := updateIf fun _ => hP _ rfl
  markResumed := updateIf fun _ => hP _ rfl
  claimDue := claimDue fun _ => hP _ rfl
  resolveChildWaits := bind (query _) fun _ => forEach fun _ _ => bind (tryCloseWait hP) fun _ => pure _

end Tx.Only

theorem Tx.Only.accountStepCost {P : Write → Prop} (hP : ∀ w : Write, w.everyday = true → P w)
    (hset : ∀ e text, P (.setMemory e text)) (run : AgentRun) (step : RunStep) :
    Only P (Loop.accountStepCost run step) :=
  bind (memory_set (hset _ _)) fun _ => bind (append hP rfl) fun _ => pure _

theorem Ordinary.only {α : Type} {P : Write → Prop} {x : Tx α} (hx : Ordinary x)
    (hP : ∀ w : Write, w.everyday = true → P w) : x.Only P := hx _ (Tx.Only.built hP)

/-! ## What functions keep -/

/-- From `I`, which is said of what was written so far, the function leads to `J`, whatever it
    sees. Only a cancelled commit is caught, so after other errors nothing is asked. -/
def Tx.Leads (I J : List Write → Prop) (A : List Row → Db → Db → Prop) (d : Db) {α : Type}
    (x : Tx α) : Prop :=
  ∀ st, I st.writes → Tx.wp A d x st (Prog.either (fun _ s => J s.writes)
    (fun e s => e = .cancelledCommit → J s.writes))

/-- The function keeps `I`. -/
abbrev Tx.Keeps (I : List Write → Prop) (A : List Row → Db → Db → Prop) (d : Db) {α : Type}
    (x : Tx α) : Prop := Tx.Leads I I A d x

/-- Writes that leave the waits and their members alone, and inject no outcome. -/
def Write.aside : Write → Bool
  | .insertWait _ | .insertMember _ | .closeWait _ _ _ | .claimWait _ | .setWaitResult _ _ => false
  | .setHistory _ _ (.resume _) => false
  | _ => true

namespace Tx.Leads

variable {I J L : List Write → Prop} {A : Sight} {d : Db} {α β γ : Type} {t : TenantID} {r : RunID}
  {P : Write → Prop}

theorem of_only {x : Tx α} (hI : ∀ {ws ws'}, I ws → (∀ wr ∈ ws', P wr) → I (ws ++ ws'))
    (hx : x.Only P) : Keeps I A d x := by
  intro st hst
  refine wp_mono (Prog.Emits.wp hx) ?_
  rintro res s ⟨ws, hws, hP⟩
  have hs : I s.writes := by
    rw [hws]
    exact hI hst hP
  cases res with
  | error => exact fun _ => hs
  | ok => exact hs

theorem bind {x : Tx α} {f : α → Tx β} (hx : Leads I J A d x) (hf : ∀ a, Leads J L A d (f a))
    (hJ : ∀ {ws}, J ws → L ws) : Leads I L A d (x >>= f) := by
  intro st hst
  rw [wp_bind]
  refine wp_either (hx st hst) (fun _ _ h he => hJ (h he)) ?_
  intro a s hs
  exact hf a s hs

theorem keeps_bind {x : Tx α} {f : α → Tx β} (hx : Keeps I A d x) (hf : ∀ a, Keeps I A d (f a)) :
    Keeps I A d (x >>= f) := Leads.bind hx hf id

theorem forEach {xs : List γ} {f : γ → Tx Unit} (hf : ∀ x ∈ xs, Keeps I A d (f x)) :
    Keeps I A d (Tx.forEach xs f) := fun _ hst => wp_forEach (fun x hx s hs => hf x hx s hs) hst

theorem txStale {fn : Tx α} (h : Leads I J A d fn) : Leads I J A d (txStale fn) := by
  intro st hst
  unfold Loop.txStale
  rw [wp_bind, wp_attempt]
  refine wp_mono (h st hst) ?_
  intro res s hs
  rw [Prog.either_ok]
  split
  · exact wp_pure'.mpr hs
  · exact wp_pure'.mpr (hs rfl)
  · rename_i e he
    exact wp_throw.mpr fun heq => absurd heq he

theorem getForUpdate (hA : Respects A) {f : AgentRun → Tx β} (hI : ∀ {ws}, I ws → J ws)
    (hf : ∀ x, x.id = r → Leads I J A d (f x)) : Leads I J A d (Runs.getForUpdate t r >>= f) := by
  intro st hst
  have hlocked : I (st.after [.run r] []).writes := by simpa using hst
  rw [wp_bind]
  refine wp_runs_getForUpdate hA (fun _ _ => hI hlocked) ?_
  intro x hx _
  exact hf x (Db.run?_id hx) _ hlocked

/-- What such writes keep, and the methods on waits, every ordinary function keeps. -/
theorem built (hA : Respects A)
    (hI : ∀ {ws ws'}, I ws → (∀ wr ∈ ws', Write.aside wr = true) → I (ws ++ ws'))
    (hclose : ∀ {t w state result}, result.state = state → state ≠ .open →
      Keeps I A d (Waits.close t w state result))
    (hclaim : ∀ {t now limit}, Keeps I A d (Waits.claimDue t now limit))
    (hresolve : ∀ {t r}, Keeps I A d (Loop.resolveChildWaits t r)) :
    Built fun _ x => Keeps I A d x where
  pure a := of_only hI (.pure a)
  throw e := of_only hI (.throw e)
  query f := of_only hI (.query f)
  lockRead need f := of_only hI (.lockRead need f)
  bind := keeps_bind
  read := getForUpdate hA id
  attemptRead need f := of_only hI (.attempt (.lockRead need f))
  attemptStep := of_only hI (.attempt (.insertStep rfl))
  stale := txStale
  forEach := forEach
  setHistory {_ _ _ origin} h := by
    refine of_only hI (.runs_update fun _ => ?_)
    cases origin with
    | resume w => exact absurd rfl (h w)
    | _ => rfl
  setState := of_only hI (.runs_update fun _ => rfl)
  setResult := of_only hI (.runs_update fun _ => rfl)
  stampCancel := of_only hI (.runs_update fun _ => rfl)
  append _ := of_only hI (Events.append_emits rfl fun _ => rfl)
  enqueue := of_only hI (.enqueue fun _ => rfl)
  ack := of_only hI (.ack rfl)
  createSession := of_only hI (.sessions_create fun _ => rfl)
  close := hclose
  markResumed := of_only hI (.updateIf fun _ => rfl)
  claimDue := hclaim
  resolveChildWaits := hresolve

end Tx.Leads

end Ultracore
