-- SUMMARY: What the run protocol guarantees in every interleaving: order of steps, no orphaned runs, finality.
import Ultracore.Protocol.Resumption
import Ultracore.System.Sound

/-!
# Guarantees of the run protocol

The program starts with empty tables and no process. Whatever requests arrive, whichever
jobs are delivered how often, and wherever transactions are aborted and processes crash,
the invariant of the program holds in every configuration, and what a transaction commits
are acts on the committed tables.
-/

namespace Ultracore.System

open Txn Loop Protocol

/-- The program before anything has happened. -/
def boot : Conf := ⟨{}, []⟩

/-- A run of the program, with what it commits. -/
abbrev RunOf (cfg : Settings) (Ok : Conf → Action Input Nat Proc → Prop) (log : List Write)
    (c : Conf) : Prop := (app cfg).machine.Run Ok boot log c

section
variable {cfg : Settings} {c c' : Conf} {log log' ws : List Write}
  {a : Action Input Nat Proc}
  {Ok : Conf → Action Input Nat Proc → Prop} {K : List Write → Db → Prop}

theorem run_serial (hrun : RunOf cfg Ok log c) :
    (app cfg).machine.SerialRun (Seen cfg) (fun _ _ => True) boot.world log c.world ∧
    Sound cfg c.world ∧ ∀ {a ws c'}, (app cfg).machine.Step c a ws c' →
      (ws = [] ∧ c'.world = c.world) ∨
        (app cfg).machine.Serial (Seen cfg) c.world a ws c'.world := by
  have hrest : AtRest boot := by simp [AtRest, boot]
  have hboot : Sound cfg boot.world := Sound.initial cfg
  exact App.serial_run (fun _ _ => True) (Integrity cfg) (fun _ w => Sound cfg w) hrest hboot
    (fun h _ hs => h.serial hs) (fun h => h.integrity) (fun _ _ _ => trivial) hrun

theorem run_sound (hrun : RunOf cfg Ok log c) :
    Sound cfg c.world ∧ ∀ {a ws c'}, (app cfg).machine.Step c a ws c' →
      (ws = [] ∧ c'.world = c.world) ∨
        (app cfg).machine.Serial (Seen cfg) c.world a ws c'.world :=
  (run_serial hrun).2

/-- What a step does to the tables: nothing but letting time pass, or the commit of a
    transaction. -/
inductive Advance (cfg : Settings) (A : List Row → Db → Db → Prop) (w : World Db Proc)
    (a : Action Input Nat Proc) (d' : Db) : List Write → Prop where
  | still {t : Time} : d' = { w.db with clock := t } → Advance cfg A w a d' []
  | commit {j : Nat} {p p' : Proc} {ws : List Write} : a = .commit j ∨ a = .lose j →
      w.procs[j]? = some (some p) → Commits cfg A w.db p p' ws → d' = applyAll w.db ws →
      Advance cfg A w a d' ws

/-- A serial step commits nothing but lets time pass, or commits a transaction. -/
theorem serial_body {A : Sight} {w w' : World Db Proc} (hs : (app cfg).machine.Serial A w a ws w') :
    (ws = [] ∧ ∃ t, w'.db = { w.db with clock := t }) ∨
    ∃ j p p' i x s, (a = .commit j ∨ a = .lose j) ∧ w.procs[j]? = some (some p) ∧
      body cfg p i = some x ∧ x.prog.Runs A w.db .empty (.ok p') s ∧ ws = s.writes ∧
      w'.db = applyAll w.db s.writes := by
  cases hs with
  | commit hj hbody hruns =>
    obtain ⟨x, hb, rfl⟩ := App.machine_body.mp hbody
    exact .inr ⟨_, _, _, _, x, _, .inl rfl, hj, hb, hruns, rfl, rfl⟩
  | lose hj hbody hruns =>
    obtain ⟨x, hb, rfl⟩ := App.machine_body.mp hbody
    exact .inr ⟨_, _, _, _, x, _, .inr rfl, hj, hb, hruns, rfl, rfl⟩
  | env => exact .inl ⟨rfl, _, rfl⟩
  | _ => exact .inl ⟨rfl, w.db.clock, rfl⟩

theorem serial_advance {A : Sight} [Sharpens cfg A] {w w' : World Db Proc}
    (h : Sound cfg w) (hs : (app cfg).machine.Serial A w a ws w') : Advance cfg A w a w'.db ws := by
  rcases serial_body hs with ⟨rfl, t, ht⟩ | ⟨j, p, p', i, x, s, ha, hj, hb, hruns, rfl, hd⟩
  · exact .still ht
  · exact .commit ha hj (body_commits h.integrity (h.procs p (List.mem_of_getElem? hj)) hb hruns) hd

theorem step_advance (hrun : RunOf cfg Ok log c)
    (hs : (app cfg).machine.Step c a ws c') : Advance cfg (Seen cfg) c.world a c'.db ws := by
  obtain ⟨hsound, hserial⟩ := run_sound hrun
  rcases hserial hs with ⟨rfl, heq⟩ | hstep
  · exact .still (t := c.db.clock) (congrArg World.db heq)
  · exact serial_advance hsound hstep

/-- What time and commits keep holds from then on. What is kept may speak of the writes
    that were committed since. -/
theorem run_keeps (hclock : ∀ log d t, K log d → K log { d with clock := t })
    (hcommit : ∀ {c : Conf} {log log' ws : List Write}
      {a : Action Input Nat Proc} {j : Nat} {p p' : Proc}, RunOf cfg Ok log' c →
      Ok c a → a = .commit j ∨ a = .lose j → c.world.procs[j]? = some (some p) →
      Commits cfg (Seen cfg) c.db p p' ws → K log c.db → K (log ++ ws) (applyAll c.db ws))
    (hrun : RunOf cfg Ok log c) (hK : K [] c.db)
    (hrun' : (app cfg).machine.Run Ok c log' c') : K log' c'.db := by
  induction hrun' with
  | refl => exact hK
  | step hrun'' hok hs ih =>
    cases step_advance (hrun.trans hrun'') hs with
    | still hd =>
      rw [List.append_nil, hd]
      exact hclock _ _ _ ih
    | commit ha hj hc hd =>
      rw [hd]
      exact hcommit (hrun.trans hrun'') hok ha hj hc ih

/-- The same from the bodies of the transactions themselves, from the start of the program. -/
theorem run_keeps_body {A : Sight}
    (hserial : ∀ {log ws c a c'}, RunOf cfg Ok log c → (app cfg).machine.Step c a ws c' →
      (ws = [] ∧ c'.world = c.world) ∨ (app cfg).machine.Serial A c.world a ws c'.world)
    (hclock : ∀ log d t, K log d → K log { d with clock := t })
    (hcommit : ∀ {c : Conf} {log : List Write}
      {a : Action Input Nat Proc} {j : Nat} {p p' : Proc} {i : Input} {x : Tx Proc}
      {s : Local Row Write}, Ok c a → a = .commit j ∨ a = .lose j →
      c.world.procs[j]? = some (some p) → body cfg p i = some x →
      x.prog.Runs A c.db .empty (.ok p') s → K log c.db →
      K (log ++ s.writes) (applyAll c.db s.writes))
    (hboot : K [] {}) (hrun : RunOf cfg Ok log c) : K log c.db := by
  induction hrun with
  | refl => exact hboot
  | step hrun hok hs ih =>
    rcases hserial hrun hs with ⟨rfl, heq⟩ | hser
    · have hdb := congrArg World.db heq
      simp only [Config.world_db] at hdb
      rw [List.append_nil, hdb]
      exact ih
    · rcases serial_body hser with ⟨rfl, t, hdb⟩ | ⟨j, p, p', i, x, s, ha, hj, hb, hruns, rfl, hdb⟩
      · simp only [Config.world_db] at hdb
        rw [List.append_nil, hdb]
        exact hclock _ _ t ih
      · simp only [Config.world_db] at hdb
        rw [hdb]
        exact hcommit hok ha hj hb hruns ih

end

/-! ## Concrete runs -/

/-- Settings under which ids and keys can be read, for concrete runs. -/
def sample : Settings where
  waitHash := id
  waitHash_injective := Function.injective_id
  cohortHash := id
  historySize _ := 0
  defaultModel := { provider := "provider", modelID := "model", credential := "key", fallbacks := [] }
  sweepBatch := 1
  sweepRetry := 1000

abbrev Schedule := List (Machine.Move Input Nat Proc)

def mainRun : RunID := ⟨"main", by decide⟩

/-- A session, and a run in it. Processes 0 and 1 are the two requests. -/
def startMain : Schedule :=
  [.act (.spawn (.createSession "tenant" "session")), .tx 0 .go,
    .act (.spawn (.start
      { tenantID := "tenant", sessionID := "session", prompt := "go", actor := actorSystem } mainRun)),
    .tx 1 .go, .tx 1 .go]

/-- Process `j` is a delivery of job `n`, up to the end of its stream. -/
def deliver (j n : Nat) (job : StepJob) (calls : Schedule) (r : AgentResult) : Schedule :=
  [.act (.spawn (.work n job)), .tx j (.pages 5), .tx j .go, .tx j (.resolve .ok)] ++ calls ++
    [.tx j (.finish r)]

/-- The model asks for another step. -/
def moreWork : AgentResult := ⟨[⟨[], 1, 1, finishReasonToolCalls⟩], []⟩

/-- The model is done. -/
def noMoreWork : AgentResult := ⟨[⟨[], 1, 1, "stop"⟩], []⟩

def mainJob (i : Nat) : StepJob := ⟨mainRun, "tenant", "session", i⟩

/-- What a schedule leads to from the beginning. -/
abbrev played (s : Schedule) : Option Conf :=
  (app sample).machine.play (fun _ _ => true) boot s

theorem play_boot {α : Type} {s : Schedule} {f : Conf → α} {v : α}
    (h : (played s).map f = some v) :
    ∃ log c, played s = some c ∧ (app sample).machine.Reaches boot log c ∧ f c = v := by
  obtain ⟨c, hc, hv⟩ := Option.map_eq_some_iff.mp h
  obtain ⟨log, hrun⟩ := Machine.play_reaches hc
  exact ⟨log, c, hc, hrun, hv⟩

/-! ## Steps commit once and in order -/

/-- In every configuration, the steps stored for a run are numbered 0, 1, ..., k-1 with one
    row each, and the log has one end-of-step event for each of them and no other. -/
theorem steps_commit_once_in_order (cfg : Settings) {log : List Write}
    {c : Config Db Row Write Err Input Proc} (hrun : (app cfg).machine.Reaches boot log c)
    (r : RunID) : ∃ k, c.db.indicesOf r = List.range k ∧ c.db.finishedOf r = List.range k := by
  have hsound := (run_sound hrun).1
  exact ⟨_, hsound.ordered.steps r, hsound.ordered.finished r⟩

/-- Two deliveries of the first step, of which the second finds it committed. -/
def stepTwice : Schedule :=
  startMain ++ deliver 2 0 (mainJob 0) [] moreWork ++
    deliver 3 0 (mainJob 0) [] moreWork ++ [.tx 2 .go, .tx 3 .go]

theorem steps_commit_once_in_order_twice :
    ∃ log c, (app sample).machine.Reaches boot log c ∧ c.db.indicesOf mainRun = [0] ∧
      ∃ k, c.db.indicesOf mainRun = List.range k ∧ c.db.finishedOf mainRun = List.range k := by
  have hsteps : (played stepTwice).map
      (fun c => c.db.indicesOf mainRun) = some [0] := by decide +kernel
  obtain ⟨log, c, -, hrun, hsteps⟩ := play_boot hsteps
  refine ⟨log, c, hrun, ?_, steps_commit_once_in_order sample hrun mainRun⟩
  exact hsteps

/-! ## No orphaned runs -/

/-- In every configuration, a run that is pending or running has an outstanding job for a
    step that is not committed. -/
theorem no_orphaned_runs (cfg : Settings) {log : List Write}
    {c : Config Db Row Write Err Input Proc} (hrun : (app cfg).machine.Reaches boot log c)
    {r : RunID} {x : AgentRun} (hx : c.db.run? r = some x)
    (hlive : x.state = .pending ∨ x.state = .running) :
    ∃ q ∈ c.db.jobs, ∃ job, q.job = .step job ∧ job.runID = r ∧
      job.stepIndex ∉ c.db.indicesOf r := by
  have hsound := (run_sound hrun).1
  have hl : x.state.live = true := by rcases hlive with h | h <;> simp [h, RunState.live]
  obtain ⟨q, hq, -, job, hjob, hr, hi⟩ :=
    hsound.covered.cover r x.state (Db.stateOf_of_run hx) hl id
  refine ⟨q, hq, job, hjob, hr, fun hmem => ?_⟩
  have hmem : job.stepIndex ∈ c.world.db.indicesOf r := hmem
  rw [hsound.ordered.steps r, hi, List.mem_range] at hmem
  exact Nat.lt_irrefl _ hmem

theorem no_orphaned_runs_twice :
    ∃ log c x, (app sample).machine.Reaches boot log c ∧ c.db.run? mainRun = some x ∧
      x.state = .running ∧ ∃ q ∈ c.db.jobs, ∃ job, q.job = .step job ∧ job.runID = mainRun ∧
        job.stepIndex ∉ c.db.indicesOf mainRun := by
  have hstate : (played stepTwice).map
      (fun c => c.db.stateOf mainRun) = some (some .running) := by decide +kernel
  obtain ⟨log, c, -, hrun, hstate⟩ := play_boot hstate
  obtain ⟨x, hx, hs⟩ := Option.map_eq_some_iff.mp hstate
  exact ⟨log, c, x, hrun, hx, hs, no_orphaned_runs sample hrun hx (.inr hs)⟩

/-! ## Cancellation and failure are final -/

section
variable {cfg : Settings} {A : Sight}
  {c c' : Conf} {log log' : List Write}

theorem Commits.final {d : Db} {p p' : Proc} {ws : List Write} (h : Commits cfg A d p p' ws)
    {r : RunID} (hr : Dead d r) : ∀ w ∈ ws, revives r w = false := by
  cases h with
  | ack => simp [revives]
  | acts _ ho => exact ho.acts.final hr

theorem Commits.stops {d : Db} {p p' : Proc} {ws : List Write} (h : Commits cfg A d p p' ws)
    {r : RunID} (hr : d.cancelOf r = some true) : ∀ w ∈ ws, advances r w = false := by
  cases h with
  | ack => simp [advances]
  | acts _ ho => exact ho.acts.stops hr

/-- What is committed after a run has failed or was cancelled does not take it on. -/
theorem run_final {r : RunID} (hrun : (app cfg).machine.Reaches boot log c) (hr : Dead c.db r)
    (hrun' : (app cfg).machine.Reaches c log' c') :
    (∀ w ∈ log', revives r w = false) ∧ Dead c'.db r := by
  refine run_keeps (K := fun log d => (∀ w ∈ log, revives r w = false) ∧ Dead d r)
    (fun _ _ _ h => h) ?_ hrun ⟨by simp, hr⟩ hrun'
  intro c log _ ws a j p p' _ _ _ _ hc ⟨hlog, hdead⟩
  have hws := hc.final hdead
  exact ⟨fun w hw => (List.mem_append.mp hw).elim (hlog w) (hws w), hdead.applyAll hws⟩

/-- What is committed after a run was asked to stop does not take it on to a further step
    or to a result. -/
theorem run_stops {r : RunID} (hrun : (app cfg).machine.Reaches boot log c)
    (hr : c.db.cancelOf r = some true) (hrun' : (app cfg).machine.Reaches c log' c') :
    (∀ w ∈ log', advances r w = false) ∧ c'.db.cancelOf r = some true := by
  refine run_keeps (K := fun log d => (∀ w ∈ log, advances r w = false) ∧ d.cancelOf r = some true)
    (fun _ _ _ h => h) ?_ hrun ⟨by simp, hr⟩ hrun'
  intro c log _ ws a j p p' _ _ _ _ hc ⟨hlog, hcancel⟩
  exact ⟨fun w hw => (List.mem_append.mp hw).elim (hlog w) (hc.stops hcancel w),
    (Db.extends_applyAll _ _).cancelOf hcancel⟩

end

/-- After a configuration in which a run is failed or cancelled, or was asked to stop, no
    transaction inserts a step for it or sets it to awaiting or completed; where it is failed
    or cancelled, none sets it to pending or running. -/
theorem cancellation_and_failure_final (cfg : Settings) {log log' : List Write}
    {c c' : Config Db Row Write Err Input Proc} (hrun : (app cfg).machine.Reaches boot log c)
    (hrun' : (app cfg).machine.Reaches c log' c') {r : RunID} {x : AgentRun}
    (hx : c.db.run? r = some x) :
    (x.state = .failed ∨ x.state = .cancelled ∨ x.cancelRequestedAt.isSome →
      (∀ s, .insertStep s ∈ log' → s.runID ≠ r) ∧
      ∀ st reason message, .setState r st reason message ∈ log' → st ≠ .awaiting ∧ st ≠ .completed) ∧
    (x.state = .failed ∨ x.state = .cancelled →
      ∀ st reason message, .setState r st reason message ∈ log' → st ≠ .pending ∧ st ≠ .running) := by
  have hdead : x.state = .failed ∨ x.state = .cancelled → Dead c.db r := fun h =>
    ⟨x.state, Db.stateOf_of_run hx, by rcases h with h | h <;> simp [h, RunState.dead]⟩
  have hcancel : x.cancelRequestedAt.isSome = true → c.db.cancelOf r = some true := fun h => by
    rw [Db.cancelOf_of_run hx, h]
  have hfinal : x.state = .failed ∨ x.state = .cancelled → ∀ w ∈ log', revives r w = false :=
    fun h => (run_final hrun (hdead h) hrun').1
  refine ⟨fun h => ?_, fun h st reason message hw => ?_⟩
  · have hlog : ∀ w ∈ log', advances r w = false := by
      intro w hw
      rcases h with h | h | h
      · exact advances_of_revives (hfinal (.inl h) w hw)
      · exact advances_of_revives (hfinal (.inr h) w hw)
      · exact (run_stops hrun (hcancel h) hrun').1 w hw
    refine ⟨fun s hs => ?_, fun st reason message hs => ?_⟩
    · simpa [advances] using hlog _ hs
    · simpa [advances] using hlog _ hs
  · have hrev := hfinal h _ hw
    constructor <;> (rintro rfl; simp [revives, RunState.dead] at hrev)

/-- A run is asked to stop before its first step; the delivery of the step cancels it. -/
def stopMain : Schedule :=
  startMain ++ [.act (.spawn (.request (.cancelRun "tenant" mainRun))), .tx 2 .go, .tx 2 .go]

def deliverStopped : Schedule :=
  [.act (.spawn (.work 0 (mainJob 0))), .tx 3 (.pages 5)]

theorem cancellation_and_failure_final_stopped :
    ∃ log log' c c' x, (app sample).machine.Reaches boot log c ∧
      (app sample).machine.Reaches c log' c' ∧ c.db.run? mainRun = some x ∧
      c'.db.stateOf mainRun = some .cancelled ∧ ∀ s, .insertStep s ∈ log' → s.runID ≠ mainRun := by
  have hcancel : (played stopMain).map
      (fun c => c.db.cancelOf mainRun) = some (some true) := by decide +kernel
  obtain ⟨log, c, hc, hrun, hcancel⟩ := play_boot hcancel
  have hend : ((played stopMain).bind fun c =>
      (app sample).machine.play (fun _ _ => true) c deliverStopped).map
      (fun c => c.db.stateOf mainRun) = some (some .cancelled) := by decide +kernel
  obtain ⟨x, hx, hmark⟩ := Option.map_eq_some_iff.mp hcancel
  simp only [hc, Option.bind_some] at hend
  obtain ⟨c', hc', hstate⟩ := Option.map_eq_some_iff.mp hend
  obtain ⟨log', hrun'⟩ := Machine.play_reaches hc'
  exact ⟨log, log', c, c', x, hrun, hrun', hx, hstate,
    ((cancellation_and_failure_final sample hrun hrun' hx).1 (.inr (.inr hmark))).1⟩

/-! ## A wait resumes its parent at most once -/

section
variable {cfg : Settings} {A : Sight}
  {c c' : Conf} {log log' : List Write} {counts : Write → Bool} {w : WaitID}

theorem Commits.at_most_once {done : Db → Bool}
    (hack : ∀ d n, AtMostOnce counts done d [.deleteJob n])
    (hacts : ∀ d me ws, Acts cfg me d ws none → AtMostOnce counts done d ws)
    {d : Db} {p p' : Proc} {ws : List Write} (h : Commits cfg A d p p' ws) :
    AtMostOnce counts done d ws := by
  cases h with
  | ack => exact hack _ _
  | acts _ ho => exact hacts _ _ _ ho.acts

/-- What acts do at most once happens at most once in a run. -/
theorem run_once (done : Db → Bool) (hclock : ∀ d t, done { d with clock := t } = done d)
    (hack : ∀ d n, AtMostOnce counts done d [.deleteJob n])
    (hacts : ∀ d me ws, Acts cfg me d ws none → AtMostOnce counts done d ws)
    (hrun : (app cfg).machine.Reaches boot log c) (hrun' : (app cfg).machine.Reaches c log' c') :
    log'.countP counts + (done c.db).toNat ≤ (done c'.db).toNat := by
  refine run_keeps (K := fun log d => log.countP counts + (done c.db).toNat ≤ (done d).toNat)
    (fun _ d t h => by rwa [hclock d t]) ?_ hrun (by simp) hrun'
  intro c log _ ws a j p p' _ _ _ _ hc ih
  have hws := hc.at_most_once hack hacts
  rw [AtMostOnce] at hws
  rw [List.countP_append]
  omega

theorem run_closed (hrun : (app cfg).machine.Reaches boot log c)
    (hrun' : (app cfg).machine.Reaches c log' c') :
    log'.countP (Write.leaves w) + (c.db.closed w).toNat ≤ (c'.db.closed w).toNat :=
  run_once (Db.closed · w) (fun _ _ => rfl)
    (fun _ _ => .of_none (by simp [Write.leaves]) (by simp [Db.closed, Write.onWait]))
    (fun _ _ _ h => h.leaves_once) hrun hrun'

theorem run_resumed (hack : ∀ n, counts (.deleteJob n) = false)
    (hacts : ∀ d me ws, Acts cfg me d ws none → AtMostOnce counts (Db.resumed · w) d ws)
    (hrun : (app cfg).machine.Reaches boot log c) : log.countP counts ≤ 1 := by
  have h := run_once (Db.resumed · w) (fun _ _ => rfl)
    (fun _ n => .of_none (by simp [hack]) fun _ _ _ => Db.resumed_apply) hacts .refl hrun
  have hle := Bool.toNat_le (c.db.resumed w)
  omega

theorem Commits.injects_parent {d : Db} {p p' : Proc} {ws : List Write} (h : Commits cfg A d p p' ws)
    {before after : List Write} {r : RunID} {hist : Envelope}
    (hws : ws = before ++ .setHistory r hist (.resume w) :: after) :
    Resumable (applyAll d before) w r := by
  cases h with
  | @ack n _ =>
    have hmem : Write.setHistory r hist (.resume w) ∈ [Write.deleteJob n] := by
      rw [hws]
      simp
    simp at hmem
  | acts _ ho => exact ho.acts.injects_parent hws

end

/-- In every run of the program a wait leaves the open state at most once and does not
    return to it, its outcome is put into a history at most once and at most one step is
    enqueued for it; the history is that of the wait's parent, which is not terminal in the
    transaction that resumes it. -/
theorem parent_resumed_at_most_once (cfg : Settings) {log : List Write}
    {c : Config Db Row Write Err Input Proc} (hrun : (app cfg).machine.Reaches boot log c)
    (w : WaitID) :
    log.countP (Write.leaves w) ≤ 1 ∧ log.countP (Write.injects w) ≤ 1 ∧
    log.countP (Write.enqueues w) ≤ 1 ∧
    (∀ log' c', (app cfg).machine.Reaches c log' c' → ∀ x, c.db.wait? w = some x →
      x.state ≠ .open → ∃ y, c'.db.wait? w = some y ∧ y.state ≠ .open) ∧
    ∀ a ws c', (app cfg).machine.Step c a ws c' → ∀ before after r hist,
      ws = before ++ .setHistory r hist (.resume w) :: after →
      Resumable (applyAll c.db before) w r := by
  refine ⟨?_, ?_, ?_, ?_, ?_⟩
  · have h := run_closed (w := w) .refl hrun
    have hle := Bool.toNat_le (c.db.closed w)
    omega
  · exact run_resumed (by simp [Write.injects]) (fun _ _ _ h => h.injects_once) hrun
  · exact run_resumed (by simp [Write.enqueues]) (fun _ _ _ h => h.enqueues_once) hrun
  · intro log' c' hrun' x hx hs
    have h := run_closed (w := w) hrun hrun'
    have hc : c.db.closed w = true := by simp [Db.closed, hx, hs]
    have hc' : c'.db.closed w = true := by
      rw [← Bool.toNat_eq_one]
      have hle := Bool.toNat_le (c'.db.closed w)
      rw [hc, Bool.toNat_true] at h
      omega
    simpa [Db.closed, Option.any_eq_true] using hc'
  · intro a ws c' hs before after r hist hws
    cases step_advance hrun hs with
    | still => simp at hws
    | commit _ _ hc => exact hc.injects_parent hws

/-- A child of the run. -/
def helper : RunID := ⟨"helper", by decide⟩

def helperJob (i : Nat) : StepJob := ⟨helper, "tenant", "session", i⟩

/-- The wait that the first step of the run creates. -/
def mainWait : WaitID := "main:0:wait"

/-- Process 2 executes the first step, which spawns a child and waits for it. -/
def waitForHelper : Schedule :=
  startMain ++ deliver 2 0 (mainJob 0)
    [.tx 2 (.tool (.spawnAgent "spawn" { prompt := "help" } helper)), .tx 2 .go, .tx 2 .go, .tx 2 .go,
      .tx 2 (.tool (.waitForAgents "wait" ["*"] none .resolve))] moreWork ++ [.tx 2 .go, .tx 2 .go]

/-- The child completes, which resumes the parent. -/
def helperDone : Schedule :=
  waitForHelper ++ deliver 3 1 (helperJob 0) [] noMoreWork ++ [.tx 3 .go]

/-- The resumed parent completes. -/
def mainDone : Schedule := deliver 4 3 (mainJob 1) [] noMoreWork ++ [.tx 4 .go]

theorem parent_resumed_at_most_once_helper :
    ∃ log log' c c' y, (app sample).machine.Reaches boot log c ∧
      (app sample).machine.Reaches c log' c' ∧ c.db.resumed mainWait = true ∧
      c'.db.stateOf mainRun = some .completed ∧ log.countP (Write.injects mainWait) ≤ 1 ∧
      c'.db.wait? mainWait = some y ∧ y.state ≠ .open := by
  have hwait : (played helperDone).map
      (fun c => (c.db.closed mainWait, c.db.resumed mainWait)) = some (true, true) := by
    decide +kernel
  obtain ⟨log, c, hc, hrun, hwait⟩ := play_boot hwait
  have hend : ((played helperDone).bind fun c =>
      (app sample).machine.play (fun _ _ => true) c mainDone).map
      (fun c => c.db.stateOf mainRun) = some (some .completed) := by decide +kernel
  simp only [Prod.mk.injEq] at hwait
  simp only [hc, Option.bind_some] at hend
  obtain ⟨c', hc', hstate⟩ := Option.map_eq_some_iff.mp hend
  obtain ⟨log', hrun'⟩ := Machine.play_reaches hc'
  obtain ⟨x, hx, hclosed⟩ : ∃ x, c.db.wait? mainWait = some x ∧ x.state ≠ .open := by
    simpa [Db.closed, Option.any_eq_true] using hwait.1
  obtain ⟨-, hinjects, -, hkeeps, -⟩ := parent_resumed_at_most_once sample hrun mainWait
  obtain ⟨y, hy, hopen⟩ := hkeeps log' c' hrun' x hx hclosed
  exact ⟨log, log', c, c', y, hrun, hrun', hwait.2, hstate, hinjects, hy, hopen⟩

end Ultracore.System
