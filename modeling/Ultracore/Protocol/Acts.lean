-- SUMMARY: The run protocol: what a transaction may do to runs, steps, waits and jobs, as a sequence of guarded acts.
import Ultracore.Loop.Waits
import Ultracore.Store.App

/-!
# The run protocol

An abstract view of the transactions of the loop and of the API. Whatever code path a
transaction takes, what it commits is a sequence of `Act`s. Each act is a group of writes
together with the condition under which it is made, on the tables as the transaction
sees them at that point. The acts say what the program is allowed to do to a run:

* a run is created pending, with a job for step 0;
* a step is committed by a delivery of its job, while the run is running, and then the
  run parks, completes, or gets a job for its next step: until it does, the transaction
  owes that (`Debt`);
* a run that is finished owes the session log an event that says how;
* an answer or the outcome of a wait makes a run running again, with a job for the step
  after the last committed one; the outcome of a wait does so at most once.
-/

namespace Ultracore

/-- Writes that do not concern the run protocol. -/
def Write.quiet : Write → Bool
  | .insertSession _ | .bumpSeq _ | .setMemory _ _ | .deleteMemory _ _ _ | .setWaitResult _ _ => true
  | .insertEvent e => e.payload.routine
  | .insertJob (.waitTimeout _) _ _ => true
  | _ => false

namespace Protocol

open Txn Loop

/-- What a transaction is entitled to. -/
structure Part where
  /-- The step it may commit. -/
  job : Option StepJob := none
  /-- The run whose history it may write from a copy, and the messages of the copy. -/
  copy : Option (RunID × List Message) := none
  /-- The run it may finish. -/
  ends : Option RunID := none
  /-- Whether it may finish the run although the run may be finished already. -/
  forces : Bool := false
  /-- The waits it may open. -/
  opens : WaitID → Prop := fun _ => False
  /-- The session of the runs it finishes or answers and of the waits it closes. -/
  session : Option SessionID := none
  /-- The waits it may let time out. -/
  expires : WaitID → Prop := fun _ => False

namespace Part

/-- Without finishing a run, opening a wait or anything that belongs to a step. -/
def still (me : Part) : Part := { session := me.session, expires := me.expires }

/-- Without finishing a run, opening a wait or writing a history from a copy. -/
def working (me : Part) : Part := { me.still with job := me.job }

/-- Without opening a wait or anything that belongs to a step. -/
def ending (me : Part) : Part := { me.still with ends := me.ends, forces := me.forces }

/-- Without opening a wait or writing a history from a copy. -/
def closing (me : Part) : Part := { me.ending with job := me.job }

/-- With one wait to open. -/
def opening (me : Part) (w : WaitID) : Part := { me.working with opens := fun w' => w' = w }

end Part

variable {cfg : Settings} {me : Part} {d : Db} {ws ws₀ : List Write} {debt₀ debt : Debt}

inductive Owed where
  /-- What follows step `i`: a job for the next one, a parked run or a completed one. -/
  | successor (i : Nat)
  /-- The event that announces the end of the run. -/
  | verdict (st : RunState)

/-- The run to which the transaction owes something. -/
abbrev Debt := Option (RunID × Owed)

/-- What is owed once run `r` has a new job. -/
def Debt.clear (debt : Debt) (r : RunID) : Debt := debt.filter fun p => p.1 ≠ r

@[simp] theorem Debt.clear_none (r : RunID) : Debt.clear none r = none := rfl

@[simp] theorem Debt.clear_self (r : RunID) (o : Owed) : Debt.clear (some (r, o)) r = none := by
  simp [Debt.clear, Option.filter]

/-- The index of the step after the last committed one. -/
def nextOf (v : Db) (r : RunID) : Nat := nextIndex (Runs.sorted (v.stepsOf r))

/-- The writes that make run `p` running again, with a job for its next step. -/
def reopening (v : Db) (p : AgentRun) (h : Envelope) (e : Event) (at_ : Time) (origin : Origin) :
    List Write :=
  [.setHistory p.id h origin, .setState p.id .running "" "", .bumpSeq p.sessionID, .insertEvent e,
    .insertJob (.step ⟨p.id, p.tenantID, p.sessionID, nextOf v p.id⟩) at_ origin]

/-- Where a run comes from: the API, without a spawn key, or a tool call of a run of the
    same tenant and session that may do at least as much. -/
inductive Descends (v : Db) (x : AgentRun) : Prop where
  | root : x.parentRunID = none → x.spawnKey = "" → Descends v x
  | child {r : RunID} {p : AgentRun} {i : Nat} {call : String} : x.parentRunID = some r →
      v.run? r = some p → p.tenantID = x.tenantID → p.sessionID = x.sessionID →
      x.spawnKey = spawnKey r i call → x.policy.Within p.policy → Descends v x

theorem Descends.later {v v' : Db} {x y : AgentRun} (h : Descends v x) (hv : v.Extends v')
    (hxy : x.Same y) : Descends v' y := by
  cases h with
  | root hp hk => exact .root (hxy.parentRunID.trans hp) (hxy.spawnKey.trans hk)
  | child hp hr ht hs hk =>
    obtain ⟨q, hq, hpq⟩ := hv.run hr
    exact .child (hxy.parentRunID.trans hp) hq (by rw [hpq.tenantID, hxy.tenantID, ht])
      (by rw [hpq.sessionID, hxy.sessionID, hs]) (hxy.spawnKey.trans hk)
      (by rwa [hpq.policy, hxy.policy])

/-- Run `r` may have `x` as another child: its limit is not reached, and nothing was spawned
    under the key. -/
structure Room (v : Db) (r : RunID) (x : AgentRun) : Prop where
  count : ∀ p, v.run? r = some p → ((v.childIDs r).length : Int) < p.policy.maxChildren
  fresh : v.spawned? x.tenantID x.spawnKey = none

/-- One act on the tables `v`: the writes, and what the transaction owes before and
    after them. Only the `first` act of a transaction writes a history from a copy. -/
inductive Act (cfg : Settings) (me : Part) (first : Bool) (v : Db) :
    Debt → List Write → Debt → Prop where
  | quiet {debt : Debt} {w : Write} : w.quiet = true → Act cfg me first v debt [w] debt
  | openWait {job : StepJob} {w : RunWait} {p : AgentRun} {k : Nat} :
      me.job = some job → me.opens w.id → w.parentRunID = job.runID →
      me.session = some p.sessionID → v.wait? w.id = none → w.state = .open → w.resumedAt = none →
      w.id = deterministicWaitID cfg w.parentRunID w.stepIndex w.toolCallID →
      v.run? w.parentRunID = some p → (∃ s ∈ v.stepsOf w.parentRunID, s.stepIndex = w.stepIndex) →
      Act cfg me first v (some (job.runID, .successor k)) [.insertWait w]
        (some (job.runID, .successor k))
  | addMember {debt : Debt} {m : RunWaitMember} {w : RunWait} {p x : AgentRun} :
      me.opens m.waitID → me.session = some p.sessionID →
      v.wait? m.waitID = some w → v.run? w.parentRunID = some p → v.run? m.runID = some x →
      x.tenantID = p.tenantID → x.sessionID = p.sessionID →
      Act cfg me first v debt [.insertMember m] debt
  | closeWait {debt : Debt} {w : WaitID} {x : RunWait} {st : WaitState} {res : WaitOutcome} :
      v.wait? w = some x → x.state = .open → st ≠ .open → (st = .timedOut → me.expires w) →
      (∀ p, v.run? x.parentRunID = some p → me.session = some p.sessionID) →
      Act cfg me first v debt [.closeWait w st res] debt
  | claimWait {debt : Debt} {w : WaitID} {x : RunWait} :
      v.wait? w = some x → x.state = .open → me.expires w →
      Act cfg me first v debt [.claimWait w] debt
  | consume {debt : Debt} {w : WaitID} {x : RunWait} {now : Time} :
      v.wait? w = some x → x.resumedAt = none →
      Act cfg me first v debt [.markResumed w now] debt
  | resume {debt : Debt} {w : WaitID} {x : RunWait} {now : Time} {p : AgentRun} {h : Envelope}
      {e : Event} {at_ : Time} :
      v.wait? w = some x → x.resumedAt = none → v.run? x.parentRunID = some p →
      p.state.terminal = false → p.history.messages <+: h.messages → e.payload.routine = true →
      Act cfg me first v debt (.markResumed w now :: reopening v p h e at_ (.resume w))
        (debt.clear p.id)
  | create {x : AgentRun} {s : Session} {e : Event} {at_ : Time} :
      v.run? x.id = none → x.state = .pending → x.cancelRequestedAt = none →
      v.session? x.sessionID = some s → s.tenantID = x.tenantID →
      Descends v x → (∀ r, x.parentRunID = some r → Room v r x) →
      e.payload.routine = true →
      Act cfg me first v none
        [.insertRun x, .bumpSeq x.sessionID, .insertEvent e,
          .insertJob (.step ⟨x.id, x.tenantID, x.sessionID, 0⟩) at_ .create]
        none
  | claim {r : RunID} {x : AgentRun} :
      v.run? r = some x → x.state = .pending → x.cancelRequestedAt = none →
      Act cfg me first v none [.setState r .running "" ""] none
  | requestCancel {r : RunID} {x : AgentRun} {now : Time} :
      v.run? r = some x → x.state.terminal = false →
      Act cfg me first v none [.requestCancel r now] none
  | finish {r : RunID} {x : AgentRun} {st : RunState} {reason message : String} :
      st.dead = true → me.ends = some r → v.run? r = some x → me.session = some x.sessionID →
      (x.state.terminal = false ∨ (first = true ∧ me.forces = true)) →
      Act cfg me first v none [.setState r st reason message] (some (r, .verdict st))
  | announce {r : RunID} {st : RunState} {e : Event} :
      me.ends = some r → me.session = some e.sessionID → e.payload.verdict? = some (r, st) →
      Act cfg me first v (some (r, .verdict st)) [.insertEvent e] none
  | answer {x : AgentRun} {h : Envelope} {e : Event} {at_ : Time} :
      v.run? x.id = some x → (x.state = .awaiting ∨ x.state = .completed) →
      x.history.messages <+: h.messages → e.payload.routine = true →
      me.session = some x.sessionID → Act cfg me first v none (reopening v x h e at_ .answer) none
  | compact {r : RunID} {copy : List Message} {h : Envelope} :
      first = true → me.copy = some (r, copy) → h.messages = copy →
      Act cfg me first v none [.setHistory r h .compaction] none
  | step {job : StepJob} {copy : List Message} {x : AgentRun} {h : Envelope} {new : List Message}
      {st : RunStep} {q : List Write} {e : Event} :
      first = true → me.job = some job → me.copy = some (job.runID, copy) →
      v.run? job.runID = some x → x.state = .running →
      x.cancelRequestedAt = none → h.messages = copy ++ new → st.runID = job.runID →
      st.stepIndex = job.stepIndex →
      (∀ s ∈ v.stepsOf job.runID, s.stepIndex ≠ job.stepIndex) →
      (∀ w ∈ q, w.quiet = true) → e.payload.finished? = some (job.runID, job.stepIndex) →
      Act cfg me first v none
        ([.setHistory job.runID h .step, .insertStep st] ++ q ++
          [.bumpSeq e.sessionID, .insertEvent e])
        (some (job.runID, .successor job.stepIndex))
  | proceed {job : StepJob} {at_ : Time} : me.job = some job →
      Act cfg me first v (some (job.runID, .successor job.stepIndex))
        [.insertJob (.step { job with stepIndex := job.stepIndex + 1 }) at_ .step] none
  | park {job : StepJob} : me.job = some job →
      Act cfg me first v (some (job.runID, .successor job.stepIndex))
        [.setState job.runID .awaiting "" ""] none
  | complete {job : StepJob} {result : String} : me.job = some job → me.ends = some job.runID →
      (∀ x, v.run? job.runID = some x → me.session = some x.sessionID) →
      Act cfg me first v (some (job.runID, .successor job.stepIndex))
        [.setState job.runID .completed "" "", .setResult job.runID result]
        (some (job.runID, .verdict .completed))

/-- What a transaction does from the writes `ws₀` on, and what it owes. -/
inductive ActsFrom (cfg : Settings) (me : Part) (d : Db) (ws₀ : List Write) (debt₀ : Debt) :
    List Write → Debt → Prop where
  | nil : ActsFrom cfg me d ws₀ debt₀ ws₀ debt₀
  | snoc {ws ws' : List Write} {debt debt' : Debt} :
      ActsFrom cfg me d ws₀ debt₀ ws debt →
      Act cfg me ws.isEmpty (applyAll d ws) debt ws' debt' →
      ActsFrom cfg me d ws₀ debt₀ (ws ++ ws') debt'

/-- What a transaction has done since it began with the tables `d`. -/
abbrev Acts (cfg : Settings) (me : Part) (d : Db) : List Write → Debt → Prop :=
  ActsFrom cfg me d [] none

theorem Acts.nil : Acts cfg me d [] none := ActsFrom.nil

/-- What holds of quiet writes and of the rows of a step holds of all that a step writes. -/
theorem forall_stepWrites {P : Write → Prop} {r : RunID} {h : Envelope} {st : RunStep}
    {q : List Write} {e : Event} (hq : ∀ w ∈ q, w.quiet = true)
    (hquiet : ∀ {w : Write}, w.quiet = true → P w) (hhistory : P (.setHistory r h .step))
    (hstep : P (.insertStep st)) (hevent : P (.insertEvent e)) :
    ∀ w ∈ [.setHistory r h .step, .insertStep st] ++ q ++ [.bumpSeq e.sessionID, .insertEvent e],
      P w := by
  simp only [List.forall_mem_append, List.forall_mem_cons]
  exact ⟨⟨⟨hhistory, hstep, by simp⟩, fun w hw => hquiet (hq w hw)⟩, hquiet rfl, hevent, by simp⟩

theorem ActsFrom.trans {ws₁ ws₂ : List Write}
    {debt₁ debt₂ : Debt} (h₁ : ActsFrom cfg me d ws₀ debt₀ ws₁ debt₁)
    (h₂ : ActsFrom cfg me d ws₁ debt₁ ws₂ debt₂) : ActsFrom cfg me d ws₀ debt₀ ws₂ debt₂ := by
  induction h₂ with
  | nil => exact h₁
  | snoc _ hact ih => exact ih.snoc hact

/-- Writes are only added. -/
theorem ActsFrom.writes (h : ActsFrom cfg me d ws₀ debt₀ ws debt) : ∃ ws', ws = ws₀ ++ ws' := by
  induction h with
  | nil => exact ⟨[], by simp⟩
  | snoc _ _ ih =>
    obtain ⟨ws', rfl⟩ := ih
    exact ⟨_, List.append_assoc _ _ _⟩

theorem ActsFrom.extends (h : ActsFrom cfg me d ws₀ debt₀ ws debt) :
    (applyAll d ws₀).Extends (applyAll d ws) := by
  obtain ⟨ws', rfl⟩ := h.writes
  rw [applyAll_append]
  exact Db.extends_applyAll _ ws'

/-- One part allows at least what another does. -/
structure Part.Le (me me' : Part) : Prop where
  job : ∀ {job : StepJob}, me.job = some job → me'.job = some job
  copy : ∀ {c : RunID × List Message}, me.copy = some c → me'.copy = some c
  ends : ∀ {r : RunID}, me.ends = some r → me'.ends = some r
  forces : me.forces = true → me'.forces = true
  opens : ∀ {w : WaitID}, me.opens w → me'.opens w
  session : ∀ {s : SessionID}, me.session = some s → me'.session = some s
  expires : ∀ {w : WaitID}, me.expires w → me'.expires w

namespace Part

theorem still_le (me : Part) : me.still.Le me where
  job h := by cases h
  copy h := by cases h
  ends h := by cases h
  forces h := by cases h
  opens h := h.elim
  session h := h
  expires h := h

theorem working_le (me : Part) : me.working.Le me where
  job h := h
  copy h := by cases h
  ends h := by cases h
  forces h := by cases h
  opens h := h.elim
  session h := h
  expires h := h

theorem opening_le {w : WaitID} (hw : me.opens w) : (me.opening w).Le me where
  job h := h
  copy h := by cases h
  ends h := by cases h
  forces h := by cases h
  opens h := by
    obtain rfl : _ = w := h
    exact hw
  session h := h
  expires h := h

theorem still_le_ending (me : Part) : me.still.Le me.ending where
  job h := h
  copy h := h
  ends h := by cases h
  forces h := by cases h
  opens h := h
  session h := h
  expires h := h

theorem closing_le (me : Part) : me.closing.Le me where
  job h := h
  copy h := by cases h
  ends h := h
  forces h := h
  opens h := h.elim
  session h := h
  expires h := h

theorem ending_le (me : Part) : me.ending.Le me where
  job h := by cases h
  copy h := by cases h
  ends h := h
  forces h := h
  opens h := h.elim
  session h := h
  expires h := h

end Part

theorem Act.mono {me' : Part} {first : Bool} {v : Db} {debt' : Debt}
    (h : Act cfg me first v debt ws debt') (hle : me.Le me') :
    Act cfg me' first v debt ws debt' := by
  cases h with
  | quiet hq => exact .quiet hq
  | openWait hj ho hp hs =>
    exact .openWait (hle.job hj) (hle.opens ho) hp (hle.session hs) ‹_› ‹_› ‹_› ‹_› ‹_› ‹_›
  | addMember ho hs => exact .addMember (hle.opens ho) (hle.session hs) ‹_› ‹_› ‹_› ‹_› ‹_›
  | closeWait hx ho hst hexp hs =>
    exact .closeWait hx ho hst (fun h => hle.expires (hexp h)) fun p hp => hle.session (hs p hp)
  | claimWait hx ho hexp => exact .claimWait hx ho (hle.expires hexp)
  | consume hx hr => exact .consume hx hr
  | resume hx hr hp ht hh he => exact .resume hx hr hp ht hh he
  | create hx hs hc hses ht hp hroom he => exact .create hx hs hc hses ht hp hroom he
  | claim hx hs hc => exact .claim hx hs hc
  | requestCancel hx ht => exact .requestCancel hx ht
  | finish hst hr hx hs hg =>
    exact .finish hst (hle.ends hr) hx (hle.session hs)
      (hg.imp_right fun h => ⟨h.1, hle.forces h.2⟩)
  | announce hr hs he => exact .announce (hle.ends hr) (hle.session hs) he
  | answer hx hst hh he hs => exact .answer hx hst hh he (hle.session hs)
  | compact hf hc hh => exact .compact hf (hle.copy hc) hh
  | step hf hj hc hx hs hcancel hh hr hi hn hq he =>
    exact .step hf (hle.job hj) (hle.copy hc) hx hs hcancel hh hr hi hn hq he
  | proceed hj => exact .proceed (hle.job hj)
  | park hj => exact .park (hle.job hj)
  | complete hj he hs =>
    exact .complete (hle.job hj) (hle.ends he) fun x hx => hle.session (hs x hx)

theorem ActsFrom.mono {me' : Part} (h : ActsFrom cfg me d ws₀ debt₀ ws debt) (hle : me.Le me') :
    ActsFrom cfg me' d ws₀ debt₀ ws debt := by
  induction h with
  | nil => exact .nil
  | snoc _ hact ih => exact ih.snoc (hact.mono hle)

end Protocol

end Ultracore
