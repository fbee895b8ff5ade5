-- SUMMARY: The commit of a step that ends in a wait, run on its own: it parks the run or resumes it, and cannot fail.
import Ultracore.Protocol.Steps

/-!
# Parking

The walks of `Ultracore.Protocol.Waits` and `Ultracore.Protocol.Steps` allow each function
to fail. Here the commit of a step that asked for a wait is followed with nothing else
going on, from tables in which the run has no open wait: every row it looks for is there,
and it ends with the run parked on the new wait, or with the wait closed and the run
resumed if all members are finished.
-/

namespace Ultracore.Protocol

open Txn Loop Tx

/-- What a statement sees while no other transaction commits. -/
abbrev Alone : List Row → Db → Db → Prop := fun _ => Eq

/-- Wait `w` has the runs `ids` as its members. -/
def HasMembers (v : Db) (w : WaitID) (ids : List RunID) : Prop :=
  ∀ id, (∃ m ∈ v.membersOf w, m.runID = id) ↔ id ∈ ids

/-- Run `r` is parked on wait `w`, its only open wait. -/
structure ParkedOn (v : Db) (r : RunID) (w : WaitID) (ids : List RunID) : Prop where
  state : v.stateOf r = some .awaiting
  waits : ∀ w', (∃ x, v.wait? w' = some x ∧ x.parentRunID = r ∧ x.state = .open) ↔ w' = w
  resumed : v.resumed w = false
  members : HasMembers v w ids

/-- Wait `w` is closed, and run `r` goes on with its next step. -/
structure ResumedBy (v : Db) (r : RunID) (w : WaitID) (ids : List RunID) : Prop where
  state : v.stateOf r = some .running
  closed : v.closed w = true
  resumed : v.resumed w = true
  members : HasMembers v w ids
  next : ∃ q ∈ v.jobs, ∃ job, q.job = .step job ∧ job.runID = r ∧ job.stepIndex = nextOf v r

/-- The run has no open wait. -/
def Unwaiting (v : Db) (r : RunID) : Prop :=
  ∀ w x, v.wait? w = some x → x.parentRunID = r → x.state ≠ .open

/-- Whether every one of the runs is finished. -/
def AllTerminal (v : Db) (ids : List RunID) : Prop :=
  ∀ id ∈ ids, ∀ st, v.stateOf id = some st → st.terminal = true

theorem AllTerminal.congr {v v' : Db} {ids ids' : List RunID} (hstate : ∀ r, v'.stateOf r = v.stateOf r)
    (hids : ∀ id, id ∈ ids' ↔ id ∈ ids) : AllTerminal v' ids' ↔ AllTerminal v ids := by
  simp [AllTerminal, hids, hstate]

section
variable {d : Db} {st : Local Row Write} {t : TenantID} {w : WaitID}
variable {p : AgentRun} {x : RunWait} {q : List Write} {cfg : Settings} {job : StepJob}
  {rec : StepRecorder} {run : AgentRun}

/-! ## Closing a wait -/

/-- Members that are there are counted: none is pending if all are finished. -/
theorem wp_evaluate_alone {ms : List RunWaitMember} {o : WaitOutcome}
    (hfound : ∀ m ∈ ms, ((view d st).ownRun t m.runID).isSome) :
    wp Alone d (evaluate t o ms) st (Prog.either
      (fun o' s => s = st ∧ o.pending ≤ o'.pending ∧
        (o'.pending = o.pending ↔ AllTerminal (view d st) (ms.map RunWaitMember.runID)))
      (fun _ _ => False)) := by
  induction ms generalizing o with
  | nil => simp [evaluate, AllTerminal]
  | cons m ms ih =>
    simp only [evaluate, wp_bind]
    refine wp_runs_get ?_
    rintro _ rfl
    obtain ⟨y, hy⟩ := Option.isSome_iff_exists.mp (hfound m (by simp))
    have hstate := Db.stateOf_of_run (Db.ownRun_eq_some.mp hy).1
    simp only [hy, Runs.found, Prog.either_ok]
    refine wp_either (ih fun m' hm' => hfound m' (by simp [hm'])) (fun _ _ h => h) ?_
    rintro o' s ⟨rfl, hle, hiff⟩
    rw [addMember_pending] at hle hiff
    cases hterm : y.state.terminal with
    | true =>
      simp only [hterm, if_true] at hle hiff
      refine ⟨rfl, hle, hiff.trans ?_⟩
      simp [AllTerminal, hstate, hterm]
    | false =>
      simp only [hterm, Bool.false_eq_true, if_false] at hle
      refine ⟨rfl, by omega, fun heq => absurd heq (by omega), fun hall => ?_⟩
      have := hall m.runID (by simp) y.state hstate
      rw [hterm] at this
      cases this

/-- A resumption finds the parent and its session, and takes the outcome into a history that
    can be read. -/
theorem wp_resumeParent_alone {wait : RunWait} {outcome : WaitOutcome}
    (hx : (view d st).wait? wait.id = some x) (hpar : x.parentRunID = wait.parentRunID)
    (hres : x.resumedAt = none) (hp : (view d st).run? wait.parentRunID = some p)
    (ht : p.tenantID = t) (hterm : p.state.terminal = false) (hread : p.history.decode.isSome)
    (hses : (d.ownSession t p.sessionID).isSome) :
    wp Alone d (resumeParent t wait outcome) st (Prog.either
      (fun b s => b = true ∧ ∃ h e now at_, s.writes = st.writes ++ .markResumed wait.id now ::
        reopening (view d st) p h e at_ (.resume wait.id))
      (fun _ _ => False)) := by
  have hpid : p.id = wait.parentRunID := Db.run?_id hp
  have hown : (view d st).ownWait t wait.id = some x := by
    refine Db.ownWait_eq_some.mpr ⟨hx, Option.isSome_iff_exists.mpr ⟨p, ?_⟩⟩
    rw [hpar]
    exact Db.ownRun_eq_some.mpr ⟨hp, ht⟩
  unfold resumeParent Waits.markResumed
  rw [wp_bind]
  refine wp_waits_updateIf respects_eq ?_ ?_
  · rintro _ rfl hnone
    simp [hown, hres, Option.filter] at hnone
  intro y d₁ _ _
  simp only [Prog.either_ok, Bool.not_true, Bool.false_eq_true, if_false, wp_bind]
  have hrow : (view d (st.after [.wait wait.id] [.markResumed wait.id d₁.clock])).run?
      wait.parentRunID = some p := by simpa [Write.onRun] using hp
  refine wp_runs_getForUpdate_known respects_eq hrow ht ?_
  obtain ⟨h, hh⟩ : ∃ h, p.history.appendWaitResult wait outcome = some h := by
    rw [← Option.isSome_iff_exists, Envelope.appendWaitResult, Option.isSome_map]
    exact hread
  simp only [Prog.either_ok, hterm, Bool.false_eq_true, if_false, hh, wp_bind]
  obtain rfl : p.tenantID = t := ht
  refine wp_reopen respects_eq (by rw [hpid]; simpa using hrow) ?_ ?_
  · rintro _ s₁ rfl - hnone
    exact Option.isSome_iff_ne_none.mp ((Db.extends_applyAll d s₁.writes).ownSession hses) hnone
  · intro e now ls _ _ _
    simp only [wp_pure', Prog.either_ok, true_and]
    refine ⟨h, e, d₁.clock, now, ?_⟩
    simp [reopening, nextOf, Write.onSteps]

/-- An open wait of a run that is not finished is left alone while a member is pending, and
    closed and resumed otherwise. -/
theorem wp_tryCloseWait_alone (hx : (view d st).wait? w = some x)
    (hopen : x.state = .open) (hres : x.resumedAt = none)
    (hp : (view d st).run? x.parentRunID = some p) (ht : p.tenantID = t)
    (hterm : p.state.terminal = false) (hread : p.history.decode.isSome)
    (hses : (d.ownSession t p.sessionID).isSome)
    (hmembers : ∀ m ∈ (view d st).membersOf w, ((view d st).ownRun t m.runID).isSome) :
    wp Alone d (tryCloseWait t w .child) st (Prog.either
      (fun b s => if b then
          AllTerminal (view d st) (((view d st).membersOf w).map RunWaitMember.runID) ∧
          ∃ o h e now at_, s.writes = st.writes ++ .closeWait w .resolved o ::
            .markResumed w now :: reopening (view d st) p h e at_ (.resume w)
        else s.writes = st.writes ∧
          ¬AllTerminal (view d st) (((view d st).membersOf w).map RunWaitMember.runID))
      (fun _ _ => False)) := by
  have hid : x.id = w := Db.wait?_id hx
  have hown : (view d st).ownWait t w = some x :=
    Db.ownWait_eq_some.mpr ⟨hx, Option.isSome_iff_exists.mpr ⟨p, Db.ownRun_eq_some.mpr ⟨hp, ht⟩⟩⟩
  unfold tryCloseWait
  rw [wp_bind, wp_attempt]
  refine wp_lockRead.mpr ?_
  rintro _ rfl
  rw [show (applyAll d st.writes).ownWait t w = some x from hown]
  simp only [Runs.found, Prog.either_ok, wp_bind, Waits.members]
  refine wp_query.mpr ?_
  rintro _ rfl
  have hsame : view d (st.after [.wait w] []) = view d st := by simp
  refine wp_either (wp_evaluate_alone ?_) (fun _ _ h => h) ?_
  · intro m hm
    rw [hsame]
    exact hmembers m (by simpa [List.mem_insertionSort] using hm)
  rintro counted s ⟨rfl, -, hiff⟩
  have hcount : counted.pending = 0 ↔
      AllTerminal (view d st) (((view d st).membersOf w).map RunWaitMember.runID) := by
    rw [hsame] at hiff
    refine Iff.trans hiff ?_
    simp [AllTerminal, List.mem_insertionSort]
  simp only [Prog.either_ok]
  split
  · rename_i hleft
    simp only [wp_pure', Prog.either_ok, Bool.false_eq_true, if_false]
    exact ⟨by simp, fun hall => absurd (hcount.mpr hall) (by omega)⟩
  rename_i hnone
  have hzero : counted.pending = 0 := by
    by_contra hpos
    exact hnone ⟨Nat.pos_of_ne_zero hpos, by decide⟩
  rw [wp_bind, Waits.close]
  refine wp_waits_updateIf respects_eq ?_ ?_
  · rintro _ rfl hfail
    rw [hsame, hown] at hfail
    simp [Option.filter, hopen] at hfail
  intro y d₃ hy _
  simp only [Prog.either_ok, Bool.not_true, Bool.false_eq_true, if_false,
    show (decide (CloseReason.child = .timeout)) = false from rfl, Bool.false_and]
  let o : WaitOutcome := { counted with state := .resolved, timedOut := false }
  let s₁ := (st.after [.wait w] []).after [.wait w] [.closeWait w .resolved o]
  have hx₁ : (view d s₁).wait? x.id = some { x with state := .resolved, result := some o } := by
    simp [s₁, hid, Write.onWait, hx]
  have hp₁ : (view d s₁).run? x.parentRunID = some p := by simpa [s₁, Write.onRun] using hp
  have hresume : wp Alone d (resumeParent t x o) s₁ _ :=
    wp_resumeParent_alone hx₁ rfl hres hp₁ ht hterm hread hses
  refine wp_either hresume (fun _ _ h => h) ?_
  rintro b s ⟨rfl, h, e, now, at_, hws⟩
  refine ⟨hcount.mp hzero, o, h, e, now, at_, ?_⟩
  rw [hws, hid]
  simp [s₁, reopening, nextOf, Write.onSteps]

/-! ## Creating a wait -/

/-- Between two states, some of the rows `ms` were added. -/
def AddsMembers (ms : List RunWaitMember) (s s' : Local Row Write) : Prop :=
  ∃ q : List RunWaitMember, s'.writes = s.writes ++ q.map .insertMember ∧ ∀ m ∈ q, m ∈ ms

/-- The rows of a new wait: one for each run that is to be a member. -/
theorem wp_insertMembers_alone {ms : List RunWaitMember} (hnone : (view d st).membersOf w = [])
    (hms : ∀ m ∈ ms, m.waitID = w ∧ ((view d st).run? m.runID).isSome)
    (hord : ∀ m ∈ ms, ∀ m' ∈ ms, m.ordinal = m'.ordinal → m = m') :
    wp Alone d (Tx.forEach ms Waits.insertMember) st (Prog.either
      (fun _ s => ∃ q : List RunWaitMember, s.writes = st.writes ++ q.map .insertMember ∧
        (∀ m ∈ q, m ∈ ms) ∧ ∀ m ∈ ms, ∃ m' ∈ q, m'.runID = m.runID)
      (fun _ _ => False)) := by
  have hview : ∀ s, AddsMembers ms st s → ∃ q : List RunWaitMember, (∀ m ∈ q, m ∈ ms) ∧
      s.writes = st.writes ++ q.map .insertMember ∧ (view d s).membersOf w = q ∧
      ∀ r, (view d s).run? r = (view d st).run? r := by
    rintro s ⟨q, hws, hq⟩
    refine ⟨q, hq, hws, ?_, fun r => ?_⟩
    · rw [view, hws, applyAll_append, membersOf_insertMembers _ fun m hm => (hms m (hq m hm)).1,
        show (applyAll d st.writes).membersOf w = [] from hnone, List.nil_append]
    · rw [view, hws, applyAll_append]
      exact insertMembers_same (f := fun e => e.run? r) (fun _ _ _ => rfl) _
  refine wp_either (wp_forEach_visits (R := AddsMembers ms)
    (V := fun m _ s₂ => ∃ m' ∈ (view d s₂).membersOf w, m'.runID = m.runID)
    (E := fun _ _ => False) (fun s => ⟨[], by simp⟩) ?_ ?_) (fun _ _ h => h) ?_
  · rintro s₁ s₂ s₃ ⟨q, hq, hin⟩ ⟨q', hq', hin'⟩
    refine ⟨q ++ q', by simp [hq', hq], ?_⟩
    exact List.forall_mem_append.mpr ⟨hin, hin'⟩
  · intro m hm s hs
    obtain ⟨q, hq, -, hmem, hruns⟩ := hview s hs
    obtain ⟨hmw, hrun⟩ := hms m hm
    refine wp_update.mpr ?_
    rintro _ busy rfl
    have hfound : ((view d s).run? m.runID).isNone = false := by
      rw [hruns]
      simpa using hrun
    simp only [show applyAll d s.writes = view d s from rfl, hfound, Bool.false_eq_true, if_false, hmw,
      hmem]
    split
    · rename_i hdup
      obtain ⟨m', hm', heq⟩ := List.any_eq_true.mp hdup
      refine ⟨⟨[], by simp⟩, m', by simpa [hmem] using hm', ?_⟩
      rcases of_decide_eq_true heq with heq | heq
      · exact heq
      · rw [hord m' (hq m' hm') m hm heq]
    · refine ⟨⟨[m], by simp, by simpa using hm⟩, m, ?_, rfl⟩
      simp [Write.onMembers, hmw]
  · rintro _ s ⟨hrel, hvisits⟩
    obtain ⟨q, hq, hws, hmem, -⟩ := hview s hrel
    refine ⟨q, hws, hq, fun m hm => ?_⟩
    obtain ⟨s₁, s₂, hs₁, ⟨m', hm', heq⟩, q', hws', -⟩ := hvisits m hm
    refine ⟨m', ?_, heq⟩
    rw [← hmem, view, hws', applyAll_append]
    exact ((Db.extends_applyAll _ _).members w).subset hm'

/-- The writes that create wait `x` with the runs `ids` as its members. -/
def Creates (x : RunWait) (ids : List RunID) (ws : List Write) : Prop :=
  ∃ q : List RunWaitMember, ws = .insertWait x :: q.map .insertMember ∧
    (∀ m ∈ q, m.waitID = x.id) ∧ ∀ id, (∃ m ∈ q, m.runID = id) ↔ id ∈ ids

namespace Creates

variable {v : Db} {x : RunWait} {ids : List RunID} {ws : List Write} (h : Creates x ids ws)
include h

theorem run? (r : RunID) : (applyAll v ws).run? r = v.run? r := by
  obtain ⟨q, rfl, -, -⟩ := h
  exact insertMembers_same (f := fun e => e.run? r) (fun _ _ _ => rfl) _

theorem stepsOf (r : RunID) : (applyAll v ws).stepsOf r = v.stepsOf r := by
  obtain ⟨q, rfl, -, -⟩ := h
  exact insertMembers_same (f := fun e => e.stepsOf r) (fun _ _ _ => rfl) _

theorem stateOf (r : RunID) : (applyAll v ws).stateOf r = v.stateOf r := by
  rw [Db.stateOf, h.run?, Db.stateOf]

theorem wait? (hnone : v.wait? x.id = none) (w : WaitID) :
    (applyAll v ws).wait? w = if w = x.id then some x else v.wait? w := by
  obtain ⟨q, rfl, -, -⟩ := h
  rw [applyAll_cons, insertMembers_same (f := fun e => e.wait? w) (fun _ _ _ => rfl)]
  by_cases hw : w = x.id <;> simp [Write.onWait, hw, hnone]

theorem members (hnone : v.membersOf x.id = []) : HasMembers (applyAll v ws) x.id ids := by
  obtain ⟨q, rfl, hq, hids⟩ := h
  intro id
  rw [applyAll_cons, membersOf_insertMembers _ hq]
  simpa [Write.onMembers, hnone] using hids id

end Creates

/-- The wait that a step asks for. -/
def newWait (cfg : Settings) (run : AgentRun) (job : StepJob) (rec : StepRecorder) (now : Time) :
    RunWait :=
  { id := deterministicWaitID cfg run.id job.stepIndex rec.waitToolCallID, parentRunID := run.id,
    stepIndex := job.stepIndex, toolCallID := rec.waitToolCallID, kind := rec.waitKind,
    state := .open, timeoutPolicy := rec.waitPolicy, deadline := now + rec.waitTimeout }

/-- A wait that nothing stands in the way of is created with all its members. -/
theorem wp_create_alone {ids : List RunID} (hown : ((view d st).ownRun t x.parentRunID).isSome)
    (hfree : Waits.conflicts (view d st) x = false) (hnone : (view d st).membersOf x.id = [])
    (hids : ∀ id ∈ ids, ((view d st).run? id).isSome) :
    wp Alone d (Waits.create t x (waitMembers x.id ids)) st (Prog.either
      (fun _ s => ∃ ws, Creates (Waits.inserted x) ids ws ∧ s.writes = st.writes ++ ws)
      (fun _ _ => False)) := by
  have hmem : ∀ m, m ∈ waitMembers x.id ids ↔
      ∃ id i, ids[i]? = some id ∧ m = ⟨x.id, id, i⟩ := by
    intro m
    simp [waitMembers, List.mem_zipIdx_iff_getElem?, eq_comm]
  have hnames : ∀ m ∈ waitMembers x.id ids, m.waitID = x.id := by
    intro m hm
    obtain ⟨id, i, -, rfl⟩ := (hmem m).mp hm
    rfl
  unfold Waits.create Waits.insert
  rw [Waits.forEach_insertMember hnames, wp_bind]
  refine wp_update.mpr ?_
  rintro _ busy rfl
  have hgo : (((view d st).ownRun t x.parentRunID).isNone || Waits.conflicts (view d st) x) = false := by
    simpa [hfree] using hown
  simp only [show applyAll d st.writes = view d st from rfl, hgo, Bool.false_eq_true, if_false,
    Prog.either_ok, if_true]
  refine wp_either (wp_insertMembers_alone (w := x.id) ?_ ?_ ?_) (fun _ _ h => h) ?_
  · simpa [Write.onMembers] using hnone
  · intro m hm
    obtain ⟨id, i, hi, rfl⟩ := (hmem m).mp hm
    simpa [Write.onRun] using hids id (List.mem_of_getElem? hi)
  · intro m hm m' hm' heq
    obtain ⟨id, i, hi, rfl⟩ := (hmem m).mp hm
    obtain ⟨id', i', hi', rfl⟩ := (hmem m').mp hm'
    obtain rfl : i = i' := heq
    cases hi.symm.trans hi'
    rfl
  · rintro _ s ⟨q, hws, hq, hall⟩
    refine ⟨_, ⟨q, rfl, ?_, fun id => ⟨?_, fun hid => ?_⟩⟩, by simpa using hws⟩
    · intro m hm
      obtain ⟨id, i, -, rfl⟩ := (hmem m).mp (hq m hm)
      rfl
    · rintro ⟨m, hm, rfl⟩
      obtain ⟨id, i, hi, rfl⟩ := (hmem m).mp (hq m hm)
      exact List.mem_of_getElem? hi
    · obtain ⟨i, hi⟩ := List.mem_iff_getElem?.mp hid
      exact hall ⟨x.id, id, i⟩ ((hmem _).mpr ⟨id, i, hi, rfl⟩)

/-- Nothing stands in the way of the wait that a step asks for, if the run has no open wait
    and none from this step. -/
theorem newWait_free (rec : StepRecorder)
    (now : Time) {v : Db} (hv : Integrity cfg v) (hfree : Unwaiting v run.id)
    (hnew : ∀ w x, v.wait? w = some x → x.parentRunID = run.id → x.stepIndex ≠ job.stepIndex) :
    Waits.conflicts v (newWait cfg run job rec now) = false ∧
      v.wait? (newWait cfg run job rec now).id = none ∧
      v.membersOf (newWait cfg run job rec now).id = [] := by
  have hnone : v.wait? (newWait cfg run job rec now).id = none := by
    by_contra hsome
    obtain ⟨x, hx⟩ := Option.ne_none_iff_exists'.mp hsome
    obtain ⟨hparent, hstep⟩ := deterministicWaitID_inj (hv.waitID hx)
    exact hnew _ x hx hparent.symm hstep.symm
  refine ⟨?_, hnone, ?_⟩
  · simp only [Waits.conflicts, hnone, Option.isSome_none, Bool.false_or, List.any_eq_false]
    intro x hx hclash
    have hrow := Db.wait?_of_mem hv.waitIDs hx
    simp only [Bool.and_eq_true, Bool.or_eq_true, decide_eq_true_eq] at hclash
    rcases hclash with ⟨hparent, hclash | hopen⟩
    · exact hnew _ x hrow hparent hclash.1
    · exact hfree _ x hrow hparent hopen
  · rw [List.eq_nil_iff_forall_not_mem]
    intro m hm
    obtain ⟨x, -, -, hx, -⟩ := hv.member hm
    rw [hnone] at hx
    cases hx

/-- The wait is created; the run is to park, or every member is finished and it is resumed. -/
theorem wp_createWait_alone (hv : Integrity cfg (view d st)) (hfree : Unwaiting (view d st) run.id)
    (hnew : ∀ w x, (view d st).wait? w = some x → x.parentRunID = run.id →
      x.stepIndex ≠ job.stepIndex)
    (hp : (view d st).run? run.id = some p) (ht : p.tenantID = run.tenantID)
    (hterm : p.state.terminal = false) (hread : p.history.decode.isSome)
    (hses : (d.ownSession run.tenantID p.sessionID).isSome)
    (hids : ∀ id ∈ rec.waitRunIDs, ∃ y, (view d st).run? id = some y ∧ y.tenantID = run.tenantID) :
    wp Alone d (createWait cfg run job rec) st (Prog.either
      (fun park s => ∃ now ws, Creates (newWait cfg run job rec now) rec.waitRunIDs ws ∧
        if park then ¬AllTerminal (view d st) rec.waitRunIDs ∧
          ∃ at_, s.writes = st.writes ++ ws ++ [.insertJob (.waitTimeout run.tenantID) at_ .timeout]
        else AllTerminal (view d st) rec.waitRunIDs ∧
          ∃ o h e now' at_, s.writes = st.writes ++ ws ++
            .closeWait (newWait cfg run job rec now).id .resolved o ::
            .markResumed (newWait cfg run job rec now).id now' ::
            reopening (view d st) p h e at_ (.resume (newWait cfg run job rec now).id))
      (fun _ _ => False)) := by
  unfold createWait
  simp only [wp_bind, Tx.now]
  refine wp_query.mpr ?_
  rintro _ rfl
  simp only [Prog.either_ok]
  generalize (applyAll d st.writes).clock = now
  obtain ⟨hconflicts, hnone, hempty⟩ := newWait_free rec now hv hfree hnew
  have hown : ((view d st).ownRun run.tenantID run.id).isSome :=
    Option.isSome_iff_exists.mpr ⟨p, Db.ownRun_eq_some.mpr ⟨hp, ht⟩⟩
  refine wp_either (wp_create_alone (x := newWait cfg run job rec now) hown hconflicts hempty ?_)
    (fun _ _ h => h) ?_
  · intro id hid
    obtain ⟨y, hy, -⟩ := hids id hid
    simp [hy]
  rintro _ s₁ ⟨ws, hws, hs₁⟩
  have hcreates : Creates (newWait cfg run job rec now) rec.waitRunIDs ws := hws
  have hview : view d s₁ = applyAll (view d st) ws := by rw [view, hs₁, applyAll_append]
  have hmembers : HasMembers (view d s₁) (newWait cfg run job rec now).id rec.waitRunIDs := by
    rw [hview]
    exact hcreates.members hempty
  have hall : AllTerminal (view d s₁) (((view d s₁).membersOf
      (newWait cfg run job rec now).id).map RunWaitMember.runID) ↔
      AllTerminal (view d st) rec.waitRunIDs := by
    refine AllTerminal.congr (fun r => by rw [hview, hcreates.stateOf]) fun id => ?_
    rw [List.mem_map]
    exact hmembers id
  have hreopen : ∀ h e at_ origin, reopening (view d s₁) p h e at_ origin =
      reopening (view d st) p h e at_ origin := by
    intro h e at_ origin
    rw [reopening, nextOf, hview, hcreates.stepsOf, reopening, nextOf]
  simp only [Prog.either_ok]
  refine wp_either (wp_tryCloseWait_alone (x := newWait cfg run job rec now) (p := p) ?_ rfl rfl ?_ ht
    hterm hread hses ?_) (fun _ _ h => h) ?_
  · rw [hview, hcreates.wait? hnone]
    simp [newWait]
  · rw [hview, hcreates.run?]
    exact hp
  · intro m hm
    obtain ⟨y, hy, hty⟩ := hids m.runID ((hmembers _).mp ⟨m, hm, rfl⟩)
    refine Option.isSome_iff_exists.mpr ⟨y, Db.ownRun_eq_some.mpr ⟨?_, hty⟩⟩
    rw [hview, hcreates.run?]
    exact hy
  intro b s₂ hpost
  cases b with
  | true =>
    obtain ⟨hterm', o, h, e, now', at_, hs₂⟩ := hpost
    simp only [Prog.either_ok, if_true, wp_pure', Bool.false_eq_true, if_false]
    refine ⟨now, ws, hcreates, hall.mp hterm', o, h, e, now', at_, ?_⟩
    rw [hs₂, hreopen, hs₁]
    rfl
  | false =>
    obtain ⟨hs₂, hpend⟩ := hpost
    simp only [Prog.either_ok, Bool.false_eq_true, if_false, wp_bind]
    refine wp_enqueue fun _ => ?_
    simp only [Prog.either_ok, wp_pure', if_true, Option.getD_some]
    refine ⟨now, ws, hcreates, fun h => hpend (hall.mpr h),
      now + rec.waitTimeout + waitTimeoutSlack, ?_⟩
    rw [Local.after_writes, hs₂, hs₁]

/-! ## Committing the step -/

/-- Quiet writes change no run. -/
theorem run?_quiet {v : Db} (h : ∀ w ∈ q, w.quiet = true) (r : RunID) :
    (applyAll v q).run? r = v.run? r := by
  refine applyAll_same (f := fun e : Db => e.run? r) fun w hw e => ?_
  have hq := h w hw
  cases w <;> first | rfl | cases hq

/-- Quiet writes add no wait, and open none. -/
theorem wait?_quiet {v : Db} (h : ∀ w ∈ q, w.quiet = true) {w : WaitID}
    {y : RunWait} (hy : (applyAll v q).wait? w = some y) :
    ∃ x, v.wait? w = some x ∧ x.Same y ∧ y.state = x.state := by
  refine applyAll_keeps (K := fun e : Db => ∀ y, e.wait? w = some y →
    ∃ x, v.wait? w = some x ∧ x.Same y ∧ y.state = x.state) ?_ ?_ y hy
  · intro wr hwr e he y hy
    have hq := h wr hwr
    cases wr with
    | setWaitResult =>
      rw [tables_apply, Db.wait?_apply, Write.onWait] at hy
      split at hy
      · obtain ⟨z, hz, rfl⟩ := Option.map_eq_some_iff.mp hy
        obtain ⟨x, hx, hsame, hstate⟩ := he z hz
        exact ⟨x, hx, ⟨hsame.id, hsame.parentRunID, hsame.stepIndex, hsame.toolCallID⟩, hstate⟩
      · exact he y hy
    | _ => first | exact he y hy | cases hq
  · exact fun y hy => ⟨y, hy, .refl y, rfl⟩

/-- Once the wait is created, the run is parked on it: its state is set and announced. -/
theorem parkedOn {v : Db} {ids : List RunID} {ws : List Write}
    (hcreates : Creates x ids ws) (hp : v.run? x.parentRunID = some p)
    (hfree : Unwaiting v x.parentRunID) (hopen : x.state = .open) (hres : x.resumedAt = none)
    (hnone : v.wait? x.id = none) (hempty : v.membersOf x.id = []) (job : Job) (at_ : Time)
    (origin : Origin) (e : Event) :
    ParkedOn (applyAll v (ws ++ [.insertJob job at_ origin, .setState x.parentRunID .awaiting "" "",
      .bumpSeq e.sessionID, .insertEvent e])) x.parentRunID x.id ids := by
  have hwait := hcreates.wait? hnone
  have hmembers := hcreates.members hempty
  rw [applyAll_append]
  refine ⟨?_, fun w' => ⟨?_, ?_⟩, ?_, ?_⟩
  · simp [Write.onState, hcreates.stateOf, Db.stateOf_of_run hp]
  · rintro ⟨y, hy, hparent, hyopen⟩
    by_contra hne
    simp only [applyAll_cons, applyAll_nil, tables_apply, Db.wait?_apply, Write.onWait, hwait, hne,
      if_false] at hy
    exact hfree w' y hy hparent hyopen
  · rintro rfl
    exact ⟨x, by simp [Write.onWait, hwait], rfl, hopen⟩
  · simp [Db.resumed, Write.onWait, hwait, hres]
  · simpa [HasMembers, Write.onMembers] using hmembers

/-- Once the wait is closed again, the run goes on. -/
theorem resumedBy {v : Db} {ids : List RunID} {ws : List Write}
    (hcreates : Creates x ids ws) (hp : v.run? x.parentRunID = some p)
    (hnone : v.wait? x.id = none) (hempty : v.membersOf x.id = []) (o : WaitOutcome) (now : Time)
    (h : Envelope) (e : Event) (at_ : Time) :
    ResumedBy (applyAll v (ws ++ .closeWait x.id .resolved o :: .markResumed x.id now ::
      reopening v p h e at_ (.resume x.id))) x.parentRunID x.id ids := by
  have hpid : p.id = x.parentRunID := Db.run?_id hp
  have hwait := hcreates.wait? hnone
  have hmembers := hcreates.members hempty
  rw [applyAll_append]
  refine ⟨?_, ?_, ?_, ?_, ?_⟩
  · simp [reopening, Write.onState, hcreates.stateOf, Db.stateOf_of_run hp, hpid]
  · simp [Db.closed, reopening, Write.onWait, hwait]
  · simp [Db.resumed, reopening, Write.onWait, hwait]
  · simpa [HasMembers, reopening, Write.onMembers] using hmembers
  · have hnext : nextOf (applyAll (applyAll v ws) (.closeWait x.id .resolved o ::
        .markResumed x.id now :: reopening v p h e at_ (.resume x.id))) x.parentRunID =
        nextOf v x.parentRunID := by
      simp [nextOf, reopening, Write.onSteps, hcreates.stepsOf]
    rw [hnext]
    simp only [reopening, applyAll_cons, applyAll_nil, tables_apply, Write.apply]
    exact ⟨_, List.mem_append_right _ (List.mem_singleton.mpr rfl), _, rfl, hpid, by rw [hpid]⟩

/-- What becomes of a run whose step ends in wait `w` on the runs `ids`, from the tables `v` to
    the tables `v'`. -/
def Waited (v v' : Db) (r : RunID) (w : WaitID) (ids : List RunID) : Prop :=
  (¬AllTerminal v ids ∧ ParkedOn v' r w ids) ∨ (AllTerminal v ids ∧ ResumedBy v' r w ids)

theorem wp_classify_alone {step : StepResult}
    {final : String} (hwait : rec.waitRunIDs ≠ []) (hid : run.id = job.runID)
    (htr : run.tenantID = job.tenantID) (hv : Integrity cfg (view d st))
    (hfree : Unwaiting (view d st) job.runID)
    (hnew : ∀ w x, (view d st).wait? w = some x → x.parentRunID = job.runID →
      x.stepIndex ≠ job.stepIndex)
    (hp : JobRun (view d st) job p) (hterm : p.state.terminal = false)
    (hread : p.history.decode.isSome) (hses : (d.ownSession job.tenantID job.sessionID).isSome)
    (hids : ∀ id ∈ rec.waitRunIDs, ∃ y, (view d st).run? id = some y ∧ y.tenantID = job.tenantID) :
    wp Alone d (classify cfg job run step rec final) st (Prog.either
      (fun _ s => Waited (view d st) (view d s) job.runID
        (deterministicWaitID cfg job.runID job.stepIndex rec.waitToolCallID) rec.waitRunIDs)
      (fun _ _ => False)) := by
  have hlen : rec.waitRunIDs.length > 0 := List.length_pos_iff.mpr hwait
  unfold classify
  rw [if_pos hlen, wp_bind]
  refine wp_either (wp_createWait_alone (p := p) hv (by rwa [hid]) (by rwa [hid])
    (by rw [hid]; exact hp.run) (by rw [hp.tenantID, htr]) hterm hread
    (by rw [htr, hp.sessionID]; exact hses) (by rwa [htr])) (fun _ _ h => h) ?_
  rintro park s₁ ⟨now, ws, hcreates, hrest⟩
  have hfree' : Unwaiting (view d st) run.id := by rwa [hid]
  obtain ⟨-, hnone, hempty⟩ := newWait_free rec now hv hfree' (by rwa [hid])
  have hparent : (newWait cfg run job rec now).parentRunID = job.runID := hid
  have hwid : (newWait cfg run job rec now).id =
      deterministicWaitID cfg job.runID job.stepIndex rec.waitToolCallID := by
    rw [← hid]
    rfl
  rw [← hwid]
  simp only [Prog.either_ok]
  cases park with
  | false =>
    obtain ⟨hall, o, h, e, now', at_, hs₁⟩ := hrest
    simp only [Bool.not_false, if_true, wp_pure', Prog.either_ok]
    refine .inr ⟨hall, ?_⟩
    have hresumed := resumedBy hcreates (by rw [hparent]; exact hp.run) hnone hempty o now' h e at_
    rw [hparent] at hresumed
    rw [view, hs₁, List.append_assoc, applyAll_append]
    exact hresumed
  | true =>
    obtain ⟨hpend, at_, hs₁⟩ := hrest
    simp only [Bool.not_true, Bool.false_eq_true, if_false, wp_bind, Runs.setState, appendAgent]
    have hown : ((view d s₁).ownRun job.tenantID job.runID).isSome := by
      rw [view, hs₁, List.append_assoc, applyAll_append]
      exact hp.after _
    refine wp_runs_update_found respects_eq hown fun _ => ?_
    refine wp_append respects_eq ?_ ?_
    · rintro _ rfl hnone
      exact absurd hnone (Option.isSome_iff_ne_none.mp ((Db.extends_applyAll d _).ownSession hses))
    intro x _ _
    simp only [Prog.either_ok, wp_pure']
    refine .inl ⟨hpend, ?_⟩
    have hparked := parkedOn hcreates (by rw [hparent]; exact hp.run) (by rwa [hparent]) rfl rfl
      hnone hempty (.waitTimeout run.tenantID) at_ .timeout
      ⟨job.sessionID, x.lastSeq + 1, actorAgent job.runID,
        .runAwaiting job.runID { text := waitAwaitingText rec }⟩
    rw [hparent] at hparked
    rw [view, Local.after_writes, Local.after_writes, hs₁, List.append_assoc, List.append_assoc,
      List.append_assoc, applyAll_append]
    exact hparked

/-- The tables once the step is recorded, with other quiet writes among the two groups. -/
theorem recorded_run? {v : Db} {r r' : RunID} {h : Envelope} {row : RunStep}
    {e : Event} (hq : ∀ w ∈ q, w.quiet = true) :
    (applyAll v ([.setHistory r h .step, .insertStep row] ++ q ++
      [.bumpSeq e.sessionID, .insertEvent e])).run? r' =
      if r' = r then (v.run? r').map fun x => { x with history := h } else v.run? r' := by
  rw [applyAll_append, applyAll_append]
  simp [Write.onRun, run?_quiet hq]

theorem recorded_wait? {v : Db} {r : RunID} {h : Envelope} {row : RunStep}
    {e : Event} (hq : ∀ w ∈ q, w.quiet = true) {w : WaitID} {y : RunWait}
    (hy : (applyAll v ([.setHistory r h .step, .insertStep row] ++ q ++
      [.bumpSeq e.sessionID, .insertEvent e])).wait? w = some y) :
    ∃ x, v.wait? w = some x ∧ x.Same y ∧ y.state = x.state := by
  rw [applyAll_append, applyAll_append] at hy
  simp only [applyAll_cons, applyAll_nil, tables_apply, Db.wait?_apply, Write.onWait] at hy
  obtain ⟨x, hx, hsame⟩ := wait?_quiet hq hy
  exact ⟨x, by simpa [Write.onWait] using hx, hsame⟩

/-- The commit of a step that asked for a wait succeeds if nothing else goes on, the step is
    new and the run has no open wait. -/
theorem wp_commitOutcome_alone {x : AgentRun} {attempt : Nat}
    {env : Envelope} {step : StepResult} {final : String}
    (hd : Integrity cfg d) (hx : JobRun d job x) (hrunning : x.state = .running)
    (hcancel : x.cancelRequestedAt = none) (hnew : Uncommitted d job)
    (hfree : Unwaiting d job.runID) (hread : env.decode.isSome) (hwait : rec.waitRunIDs ≠ [])
    (hids : ∀ id ∈ rec.waitRunIDs, ∃ y, d.run? id = some y ∧ y.tenantID = job.tenantID) :
    wp Alone d (commitOutcome cfg job attempt env step rec final) .empty (Prog.either
      (fun o s => o = some () ∧ Waited d (view d s) job.runID
        (deterministicWaitID cfg job.runID job.stepIndex rec.waitToolCallID) rec.waitRunIDs)
      (fun _ _ => False)) := by
  have hid : x.id = job.runID := Db.run?_id hx.run
  have hses : (d.ownSession job.tenantID job.sessionID).isSome := by
    obtain ⟨s, hs, hts⟩ := hd.session hx.run
    refine Option.isSome_iff_exists.mpr ⟨s, Db.ownSession_eq_some.mpr ⟨?_, ?_⟩⟩
    · rw [← hx.sessionID]
      exact hs
    · rw [hts, hx.tenantID]
  refine wp_txStale ?_
  unfold commitTx
  simp only [wp_bind]
  refine wp_runs_getForUpdate_known respects_eq hx.run hx.tenantID ?_
  simp only [Prog.either_ok, hrunning, ne_eq, not_true_eq_false, if_false, hcancel,
    Option.isSome_none, Bool.false_eq_true, wp_bind, Runs.setHistory]
  refine wp_runs_update_found respects_eq (by simpa using hx.own) fun _ => ?_
  rw [Prog.either_ok, wp_attempt]
  let h := Envelope.encode { env with messages := env.messages ++ step.messages }
  refine wp_runs_insertStep respects_eq ?_ ?_ ?_
  · intro hnone
    have hown := hx.after [.setHistory job.runID h .step]
    simp only [view_after, view_empty, applyAll_nil] at hnone
    rw [hnone] at hown
    cases hown
  · intro s hs hidx
    exact absurd hidx (hnew s (by simpa [Write.onSteps] using hs))
  intro _
  simp only [Prog.either_ok, wp_bind, wp_attempt]
  let row : RunStep := ⟨job.runID, job.stepIndex, attempt, step.tokensIn, step.tokensOut,
    step.finishReason⟩
  refine wp_mono (Quiet.accountStepCost x row).wp ?_
  rintro r s₁ ⟨q, hq, hquiet⟩
  simp only [appendAgent, wp_bind]
  refine wp_append respects_eq ?_ ?_
  · rintro _ rfl hnone
    exact absurd hnone (Option.isSome_iff_ne_none.mp
      ((Db.extends_applyAll d s₁.writes).ownSession hses))
  intro ses _ _
  simp only [Prog.either_ok, wp_pure']
  let e : Event := ⟨job.sessionID, ses.lastSeq + 1, actorAgent job.runID,
    .stepFinished job.runID job.stepIndex step.tokensIn step.tokensOut step.finishReason⟩
  let s₂ := s₁.after [.session job.sessionID, .session job.sessionID]
    [.bumpSeq job.sessionID, .insertEvent e]
  have hws : s₂.writes = [.setHistory job.runID h .step, .insertStep row] ++ q ++
      [.bumpSeq e.sessionID, .insertEvent e] := by
    simp [s₂, hq, row, e, h]
  have hruns : ∀ r, (view d s₂).run? r =
      if r = job.runID then (d.run? r).map fun x => { x with history := h } else d.run? r := by
    intro r
    rw [view, hws]
    exact recorded_run? hquiet
  have hwaits : ∀ w z, (view d s₂).wait? w = some z →
      ∃ z₀, d.wait? w = some z₀ ∧ z₀.Same z ∧ z.state = z₀.state := by
    intro w z hz
    rw [view, hws] at hz
    exact recorded_wait? hquiet hz
  have hstates : ∀ r, (view d s₂).stateOf r = d.stateOf r := by
    intro r
    rw [Db.stateOf, hruns]
    split <;> simp [Db.stateOf, Function.comp_def]
  have hrow : JobRun (view d s₂) job { x with history := h } :=
    ⟨by simp [hruns, hx.run], hx.tenantID, hx.sessionID⟩
  have hv : Integrity cfg (view d s₂) := by
    have hstored : d.run? row.runID = some x := hx.run
    rw [view, hws]
    exact hd.record hstored hquiet e
  refine wp_either (wp_classify_alone hwait hid hx.tenantID hv ?_ ?_ hrow
    (by simp [hrunning, RunState.terminal]) (Envelope.decode_encode hread _) hses ?_)
    (fun _ _ hpost => hpost.elim) ?_
  · intro w z hz hparent hopen
    obtain ⟨z₀, hz₀, hsame, hstate⟩ := hwaits w z hz
    exact hfree w z₀ hz₀ (hsame.parentRunID ▸ hparent) (hstate ▸ hopen)
  · intro w z hz hparent hidx
    obtain ⟨z₀, hz₀, hsame, -⟩ := hwaits w z hz
    obtain ⟨s, hs, hsi⟩ := hd.waitStep hz₀
    rw [← hsame.parentRunID, hparent] at hs
    exact hnew s hs (by rw [hsi, ← hsame.stepIndex, hidx])
  · intro id hmem
    obtain ⟨u, hu, htu⟩ := hids id hmem
    rw [hruns]
    split
    · exact ⟨{ u with history := h }, by rw [hu]; rfl, htu⟩
    · exact ⟨u, hu, htu⟩
  intro _ s₃ hpost
  refine ⟨rfl, ?_⟩
  have hsame : AllTerminal (view d s₂) rec.waitRunIDs ↔ AllTerminal d rec.waitRunIDs :=
    AllTerminal.congr hstates fun _ => Iff.rfl
  exact hpost.imp (fun hp => ⟨fun hall => hp.1 (hsame.mpr hall), hp.2⟩)
    fun hp => ⟨hsame.mp hp.1, hp.2⟩

end

end Ultracore.Protocol
