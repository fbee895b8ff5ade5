-- SUMMARY: Every live run has an outstanding job for its next step, and acts keep it so.
import Ultracore.Protocol.Integrity
import Ultracore.Protocol.Order

/-!
# Coverage

A run that is pending or running is covered: some outstanding job names its next step, and
nobody is about to acknowledge that job. Within a transaction a run may be owed its job;
when the transaction commits no run is.
-/

namespace Ultracore

open Txn

/-- Writes that leave run states, steps and the queue alone. -/
def Write.calm : Write → Bool
  | .insertRun _ | .setState _ _ _ _ | .insertStep _ | .insertJob _ _ _ | .deleteJob _ => false
  | _ => true

namespace Db

variable {d : Db} {w : Write}

theorem stateOf_calm (h : w.calm = true) (r : RunID) : (w.apply d).stateOf r = d.stateOf r := by
  rw [stateOf_apply]
  cases w <;> first | rfl | simp [Write.calm] at h

theorem stepsOf_calm (h : w.calm = true) (r : RunID) : (w.apply d).stepsOf r = d.stepsOf r := by
  rw [stepsOf_apply]
  cases w <;> first | rfl | simp [Write.calm] at h

theorem jobs_calm (h : w.calm = true) : (w.apply d).jobs = d.jobs ∧ (w.apply d).nextJob = d.nextJob := by
  cases w <;> first | exact ⟨rfl, rfl⟩ | simp [Write.calm] at h

end Db

namespace Protocol

open Loop

/-- The job names the next step of run `r`. -/
def Covers (v : Db) (r : RunID) (q : QueuedJob) : Prop :=
  ∃ job, q.job = .step job ∧ job.runID = r ∧ job.stepIndex = (v.stepsOf r).length

/-- A step job may be enqueued: its run is known, and it does not run ahead. -/
def Startable (v : Db) (job : StepJob) : Prop :=
  (∃ x, JobRun v job x) ∧ job.stepIndex ≤ (v.stepsOf job.runID).length

theorem Startable.extends {d d' : Db} {job : StepJob} (h : Startable d job) (hd : d.Extends d') :
    Startable d' job := by
  obtain ⟨⟨x, hx⟩, hi⟩ := h
  obtain ⟨y, hy, hs⟩ := hd.run hx.run
  exact ⟨⟨y, hy, hs.tenantID.trans hx.tenantID, hs.sessionID.trans hx.sessionID⟩,
    hi.trans (hd.steps _).length_le⟩

/-- The queue, as far as step jobs are concerned: `owed` are the runs whose job is still to
    come in this transaction, `doomed` the jobs about to be acknowledged. -/
structure Covered (v : Db) (owed : RunID → Prop) (doomed : Nat → Prop) : Prop where
  issued : ∀ q ∈ v.jobs, q.id < v.nextJob
  unique : ∀ q ∈ v.jobs, ∀ q' ∈ v.jobs, q.id = q'.id → q = q'
  startable : ∀ q ∈ v.jobs, ∀ job, q.job = .step job → Startable v job
  dooms : ∀ n, doomed n → n < v.nextJob
  cover : ∀ r s, v.stateOf r = some s → s.live = true → ¬owed r →
    ∃ q ∈ v.jobs, ¬doomed q.id ∧ Covers v r q

namespace Covered

variable {v : Db} {owed owed' : RunID → Prop} {doomed doomed' : Nat → Prop}

theorem mono (h : Covered v owed doomed) (hd : ∀ n, doomed' n → doomed n)
    (ho : ∀ r, owed r → owed' r) : Covered v owed' doomed' where
  issued := h.issued
  unique := h.unique
  startable := h.startable
  dooms n hn := h.dooms n (hd n hn)
  cover r s hs hl hr := by
    obtain ⟨q, hq, hn, hc⟩ := h.cover r s hs hl fun hr' => hr (ho r hr')
    exact ⟨q, hq, fun hn' => hn (hd _ hn'), hc⟩

/-- What keeps the queue and the steps keeps the jobs in order. -/
private theorem of_jobs {v' : Db} (h : Covered v owed doomed) (hjobs : v'.jobs = v.jobs)
    (hnext : v'.nextJob = v.nextJob) (hext : v.Extends v')
    (hcover : ∀ r s, v'.stateOf r = some s → s.live = true → ¬owed' r →
      ∃ q ∈ v.jobs, ¬doomed q.id ∧ Covers v' r q) : Covered v' owed' doomed where
  issued := by
    rw [hjobs, hnext]
    exact h.issued
  unique := by
    rw [hjobs]
    exact h.unique
  startable q hq job hjob := by
    rw [hjobs] at hq
    exact (h.startable q hq job hjob).extends hext
  dooms := by
    rw [hnext]
    exact h.dooms
  cover := by
    rw [hjobs]
    exact hcover

theorem calm (h : Covered v owed doomed) {w : Write} (hw : w.calm = true) :
    Covered (w.apply v) owed doomed := by
  obtain ⟨hjobs, hnext⟩ := Db.jobs_calm (d := v) hw
  refine h.of_jobs hjobs hnext (Db.extends_apply v w) ?_
  intro r s hs hl hr
  rw [Db.stateOf_calm hw] at hs
  obtain ⟨q, hq, hn, job, hjob, hrun, hi⟩ := h.cover r s hs hl hr
  exact ⟨q, hq, hn, job, hjob, hrun, by rw [Db.stepsOf_calm hw]; exact hi⟩

theorem calmly (h : Covered v owed doomed) (ws : List Write) (hws : ∀ w ∈ ws, w.calm = true) :
    Covered (applyAll v ws) owed doomed :=
  applyAll_keeps (K := fun e : Db => Covered e owed doomed) (fun w hw _ he => he.calm (hws w hw)) h

theorem setState (h : Covered v owed doomed) {r : RunID} {st : RunState} {reason message : String}
    (hother : ∀ r', r' ≠ r → owed r' → owed' r')
    (hself : st.live = true → ¬owed' r → ¬owed r ∧ ∃ s, v.stateOf r = some s ∧ s.live = true) :
    Covered ((Write.setState r st reason message).apply v) owed' doomed := by
  refine h.of_jobs rfl rfl (Db.extends_apply v _) ?_
  intro r' s hs hl hr
  rw [Db.stateOf_apply] at hs
  have hold : ∃ s', v.stateOf r' = some s' ∧ s'.live = true ∧ ¬owed r' := by
    by_cases heq : r' = r
    · subst heq
      simp only [Write.onState, if_true, Option.map_eq_some_iff] at hs
      obtain ⟨_, -, rfl⟩ := hs
      obtain ⟨ho, s', hs', hl'⟩ := hself hl hr
      exact ⟨s', hs', hl', ho⟩
    · simp only [Write.onState, heq, if_false] at hs
      exact ⟨s, hs, hl, fun ho => hr (hother r' heq ho)⟩
  obtain ⟨s', hs', hl', ho⟩ := hold
  obtain ⟨q, hq, hn, job, hjob, hrun, hi⟩ := h.cover r' s' hs' hl' ho
  exact ⟨q, hq, hn, job, hjob, hrun, hi⟩

theorem insertRun (h : Covered v owed doomed) {x : AgentRun} :
    Covered ((Write.insertRun x).apply v) (fun r => owed r ∨ r = x.id) doomed := by
  refine h.of_jobs rfl rfl (Db.extends_apply v _) ?_
  intro r s hs hl hr
  obtain ⟨ho, hne⟩ := not_or.mp hr
  rw [Db.stateOf_apply] at hs
  simp only [Write.onState, hne, if_false, Option.or_none] at hs
  exact h.cover r s hs hl ho

theorem insertStep (h : Covered v owed doomed) {s : RunStep} :
    Covered ((Write.insertStep s).apply v) (fun r => owed r ∨ r = s.runID) doomed := by
  refine h.of_jobs rfl rfl (Db.extends_apply v _) ?_
  intro r st hst hl hr
  obtain ⟨ho, hne⟩ := not_or.mp hr
  obtain ⟨q, hq, hn, job, hjob, hrun, hi⟩ := h.cover r st hst hl ho
  exact ⟨q, hq, hn, job, hjob, hrun, by simpa [Write.onSteps, hne] using hi⟩

theorem insertJob (h : Covered v owed doomed) (job : Job) (t : Time) (origin : Origin)
    (hjob : ∀ j, job = .step j → Startable v j)
    (howed : ∀ r, owed r → owed' r ∨ ∃ j, job = .step j ∧ j.runID = r ∧
      j.stepIndex = (v.stepsOf r).length) :
    Covered ((Write.insertJob job t origin).apply v) owed' doomed where
  issued q hq := by
    rcases List.mem_append.mp hq with hq | hq
    · exact Nat.lt_succ_of_lt (h.issued q hq)
    · obtain rfl := List.mem_singleton.mp hq
      exact Nat.lt_succ_self _
  unique := by
    intro q hq q' hq' heq
    rcases List.mem_append.mp hq with hq | hq <;> rcases List.mem_append.mp hq' with hq' | hq'
    · exact h.unique q hq q' hq' heq
    · obtain rfl := List.mem_singleton.mp hq'
      exact absurd (h.issued q hq) (by simp [heq])
    · obtain rfl := List.mem_singleton.mp hq
      exact absurd (h.issued q' hq') (by simp [← heq])
    · rw [List.mem_singleton.mp hq, List.mem_singleton.mp hq']
  startable q hq j hj := by
    refine Startable.extends ?_ (Db.extends_apply v _)
    rcases List.mem_append.mp hq with hq | hq
    · exact h.startable q hq j hj
    · obtain rfl := List.mem_singleton.mp hq
      exact hjob j hj
  dooms n hn := Nat.lt_succ_of_lt (h.dooms n hn)
  cover r s hs hl hr := by
    by_cases ho : owed r
    · rcases howed r ho with ho' | hnew
      · exact absurd ho' hr
      · -- a new job has an id that nobody can be about to acknowledge
        refine ⟨⟨v.nextJob, job, t⟩, List.mem_append_right _ (by simp), ?_, hnew⟩
        exact fun hd => absurd (h.dooms _ hd) (Nat.lt_irrefl _)
    · obtain ⟨q, hq, hn, hc⟩ := h.cover r s hs hl ho
      exact ⟨q, List.mem_append_left _ hq, hn, hc⟩

theorem quiet (h : Covered v owed doomed) {w : Write} (hw : w.quiet = true) :
    Covered (w.apply v) owed doomed := by
  cases w with
  | insertJob job t origin =>
    cases job with
    | step => cases hw
    | waitTimeout => exact h.insertJob _ t origin (by simp) fun r hr => .inl hr
  | insertRun | setState | insertStep | deleteJob => cases hw
  | _ => exact h.calm rfl

/-- Acknowledging a doomed job. -/
theorem deleteJob (h : Covered v owed doomed) {n : Nat} (hn : doomed n) :
    Covered ((Write.deleteJob n).apply v) owed doomed where
  issued q hq := h.issued q (List.mem_filter.mp hq).1
  unique q hq q' hq' := h.unique q (List.mem_filter.mp hq).1 q' (List.mem_filter.mp hq').1
  startable q hq job hjob :=
    (h.startable q (List.mem_filter.mp hq).1 job hjob).extends (Db.extends_apply v _)
  dooms := h.dooms
  cover r s hs hl hr := by
    obtain ⟨q, hq, hd, hc⟩ := h.cover r s hs hl hr
    refine ⟨q, List.mem_filter.mpr ⟨hq, ?_⟩, hd, hc⟩
    simpa using fun heq : q.id = n => hd (heq ▸ hn)

end Covered

/-! ## Acts keep live runs covered -/

section
variable {cfg : Settings} {me : Part} {first : Bool} {v d : Db} {debt debt' : Debt}
  {ws : List Write} {owed : RunID → Prop} {doomed : Nat → Prop}

/-- The runs to which a transaction owes a job. -/
def Owes (debt : Debt) (r : RunID) : Prop := ∃ i, debt = some (r, .successor i)

theorem owes_none (r : RunID) : ¬Owes none r := by
  rintro ⟨i, h⟩
  cases h

/-- A run that is opened again gets the job for its next step with it. -/
theorem Covered.reopen (hc : Covered v owed doomed) (hv : Ordered v) {p : AgentRun}
    (hp : v.run? p.id = some p) (h : Envelope) (e : Event) (at_ : Time) (origin : Origin) :
    Covered (applyAll v (reopening v p h e at_ origin)) (fun r => owed r ∧ r ≠ p.id) doomed := by
  have h₁ := hc.calmly [.setHistory p.id h origin] (by simp [Write.calm])
  have h₂ : Covered (applyAll v [Write.setHistory p.id h origin, .setState p.id .running "" ""])
      (fun r => owed r ∨ r = p.id) doomed :=
    h₁.setState (fun _ _ => Or.inl) fun _ hr => absurd (Or.inr rfl) hr
  have h₃ := h₂.calmly [.bumpSeq p.sessionID, .insertEvent e] (by simp [Write.calm])
  refine h₃.insertJob _ at_ origin ?_ ?_
  · rintro j ⟨⟩
    have hstart : Startable v ⟨p.id, p.tenantID, p.sessionID, nextOf v p.id⟩ :=
      ⟨⟨p, hp, rfl, rfl⟩, (hv.nextOf p.id).le⟩
    exact hstart.extends (Db.extends_applyAll v [.setHistory p.id h origin,
      .setState p.id .running "" "", .bumpSeq p.sessionID, .insertEvent e])
  · intro r hr
    by_cases heq : r = p.id
    · refine .inr ⟨_, rfl, heq.symm, ?_⟩
      simp [Write.onSteps, heq, hv.nextOf p.id]
    · exact .inl ⟨hr.resolve_right heq, heq⟩

theorem Act.covered (h : Act cfg me first v debt ws debt') (hc : Covered v (Owes debt) doomed)
    (hv : Ordered v) (ht : Tallied v debt) (hi : Integrity cfg v)
    (hme : ∀ job, me.job = some job → ∃ x, JobRun v job x) :
    Covered (applyAll v ws) (Owes debt') doomed := by
  cases h with
  | quiet hq => exact hc.quiet hq
  | openWait | addMember | closeWait | claimWait | consume | requestCancel | compact =>
    exact hc.calmly _ (by simp [Write.calm])
  | announce =>
    refine (hc.calmly _ (by simp [Write.calm])).mono (fun _ => id) ?_
    rintro r ⟨i, hri⟩
    simp at hri
  | @resume _ w x now p h e at_ _ _ hp _ _ _ =>
    have hp' : (applyAll v [Write.markResumed w now]).run? p.id = some p := by
      rw [← Db.run?_id hp] at hp
      exact hp
    have hnext : reopening (applyAll v [Write.markResumed w now]) p h e at_ (.resume w) =
        reopening v p h e at_ (.resume w) := by
      simp [reopening, nextOf, Write.onSteps]
    have hopen := (hc.calmly [.markResumed w now] (by simp [Write.calm])).reopen
      (hv.unrecorded (by simp [Write.records])) hp' h e at_ (.resume w)
    rw [hnext] at hopen
    refine hopen.mono (fun _ => id) ?_
    rintro r ⟨⟨i, rfl⟩, hne⟩
    exact ⟨i, by simp [Debt.clear, Option.filter, hne]⟩
  | @create x s e at_ hx _ _ _ _ _ _ _ =>
    have h₁ := (hc.insertRun (x := x)).calmly [.bumpSeq x.sessionID, .insertEvent e]
      (by simp [Write.calm])
    refine h₁.insertJob _ at_ .create ?_ ?_
    · rintro j ⟨⟩
      refine ⟨⟨x, ?_, rfl, rfl⟩, Nat.zero_le _⟩
      simp [Write.onRun, hx]
    · intro r hr
      obtain rfl : r = x.id := hr.resolve_left (owes_none r)
      refine .inr ⟨_, rfl, rfl, ?_⟩
      simp [Write.onSteps, hi.steps hx]
  | claim hx hs =>
    refine hc.setState (fun _ _ => id) fun _ ho => ⟨ho, _, Db.stateOf_of_run hx, ?_⟩
    simp [hs, RunState.live]
  | finish hd =>
    refine hc.setState (fun r _ ho => absurd ho (owes_none r)) fun hl _ => ?_
    rw [RunState.live_of_terminal (RunState.terminal_of_dead hd)] at hl
    cases hl
  | answer hx =>
    exact (hc.reopen hv hx _ _ _ _).mono (fun _ => id) fun r hr => absurd hr.1 (owes_none r)
  | @step job copy x h new st q e _ _ _ _ _ _ _ hrun _ _ hq _ =>
    have h₁ : Covered (applyAll v [Write.setHistory job.runID h .step, .insertStep st])
        (fun r => Owes none r ∨ r = st.runID) doomed :=
      (hc.calmly [.setHistory job.runID h .step] (by simp [Write.calm])).insertStep
    have h₂ := applyAll_keeps (K := fun e : Db => Covered e (fun r => Owes none r ∨ r = st.runID)
      doomed) (fun w hw _ he => he.quiet (hq w hw)) h₁
    have h₃ := h₂.calmly [.bumpSeq e.sessionID, .insertEvent e] (by simp [Write.calm])
    rw [applyAll_append, applyAll_append]
    refine h₃.mono (fun _ => id) ?_
    rintro r (hr | rfl)
    · exact absurd hr (owes_none r)
    · exact ⟨job.stepIndex, by rw [hrun]⟩
  | @proceed job at_ hm =>
    obtain ⟨x, hx⟩ := hme job hm
    have hlast := ht _ _ rfl
    refine hc.insertJob _ at_ .step ?_ ?_
    · rintro j ⟨⟩
      exact ⟨⟨x, hx.run, hx.tenantID, hx.sessionID⟩, hlast.ge⟩
    · rintro r ⟨i, hri⟩
      obtain ⟨rfl, rfl⟩ : _ = r ∧ _ = i := by simpa using hri
      exact .inr ⟨_, rfl, rfl, hlast.symm⟩
  | park =>
    refine hc.setState (fun r hr ho => ?_) (by simp [RunState.live])
    obtain ⟨i, hri⟩ := ho
    exact absurd (by simpa using congrArg (Option.map Prod.fst) hri.symm) hr
  | @complete job result _ _ _ =>
    have hset : Covered ((Write.setState job.runID .completed "" "").apply v) (Owes none) doomed := by
      refine hc.setState (fun r hr ho => ?_) (by simp [RunState.live])
      obtain ⟨i, hri⟩ := ho
      exact absurd (by simpa using congrArg (Option.map Prod.fst) hri.symm) hr
    refine (hset.calmly [.setResult job.runID result] (by simp [Write.calm])).mono (fun _ => id) ?_
    exact fun r hr => absurd hr (owes_none r)

theorem ActsFrom.covered (h : Acts cfg me d ws debt) (hc : Covered d (fun _ => False) doomed)
    (hd : Ordered d) (hi : Integrity cfg d) (hme : ∀ job, me.job = some job → Startable d job) :
    Covered (applyAll d ws) (Owes debt) doomed := by
  have hturn : InTurn d me := fun job hjob => (hme job hjob).2
  induction h with
  | nil => exact hc.mono (fun _ => id) (by simp)
  | snoc hacts hact ih =>
    rw [applyAll_append]
    refine hact.covered ih (hacts.ordered hd hturn) (hacts.tallied hd hturn)
      (hacts.integrity hi) ?_
    intro job hjob
    exact ((hme job hjob).extends (Db.extends_applyAll d _)).1

end

end Protocol

end Ultracore
