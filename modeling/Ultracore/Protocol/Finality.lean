-- SUMMARY: Failed and cancelled runs stay so: no sequence of acts gives them a step or another state.
import Ultracore.Protocol.Acts
import Ultracore.Store.App

/-!
# Finality

What acts do to the state and to the cancellation mark of a run. The state column is
written by an unguarded UPDATE; that a failure or a cancellation is final follows from
the conditions of the acts.
-/

namespace Ultracore

open Txn

variable {r : RunID} {x : AgentRun}

/-! ## The state and the cancellation mark of a run -/

namespace Db

def stateOf (d : Db) (r : RunID) : Option RunState := (d.run? r).map AgentRun.state

/-- Whether cancellation of the run was requested. -/
def cancelOf (d : Db) (r : RunID) : Option Bool :=
  (d.run? r).map fun x => x.cancelRequestedAt.isSome

theorem stateOf_of_run {d : Db} (h : d.run? r = some x) : d.stateOf r = some x.state := by
  simp [stateOf, h]

theorem cancelOf_of_run {d : Db} (h : d.run? r = some x) :
    d.cancelOf r = some x.cancelRequestedAt.isSome := by
  simp [cancelOf, h]

end Db

namespace Write

def onState (r : RunID) (o : Option RunState) : Write → Option RunState
  | .insertRun x => o.or (if r = x.id then some x.state else none)
  | .setState r' st _ _ => if r = r' then o.map fun _ => st else o
  | _ => o

def onCancel (r : RunID) (o : Option Bool) : Write → Option Bool
  | .insertRun x => o.or (if r = x.id then some x.cancelRequestedAt.isSome else none)
  | .requestCancel r' _ => if r = r' then o.map fun _ => true else o
  | _ => o

end Write

namespace Db

variable (d : Db) (w : Write)

@[simp] theorem stateOf_apply (r : RunID) : (w.apply d).stateOf r = w.onState r (d.stateOf r) := by
  unfold stateOf
  rw [run?_apply]
  cases w with
  | insertRun x => by_cases h : r = x.id <;> cases d.run? r <;> simp [Write.onRun, Write.onState, h]
  | setState r' _ _ _ | setHistory r' _ _ | setResult r' _ | requestCancel r' _ =>
    by_cases h : r = r' <;> simp [Write.onRun, Write.onState, h, Function.comp_def]
  | _ => simp [Write.onRun, Write.onState]

@[simp] theorem cancelOf_apply (r : RunID) :
    (w.apply d).cancelOf r = w.onCancel r (d.cancelOf r) := by
  unfold cancelOf
  rw [run?_apply]
  cases w with
  | insertRun x =>
    by_cases h : r = x.id <;> cases d.run? r <;> simp [Write.onRun, Write.onCancel, h]
  | setState r' _ _ _ | setHistory r' _ _ | setResult r' _ | requestCancel r' _ =>
    by_cases h : r = r' <;> simp [Write.onRun, Write.onCancel, h, Function.comp_def]
  | _ => simp [Write.onRun, Write.onCancel]

variable {d} {q : List Write}

theorem stateOf_quiet (h : ∀ w ∈ q, w.quiet = true) (r : RunID) :
    (applyAll d q).stateOf r = d.stateOf r :=
  applyAll_same (f := fun e : Db => e.stateOf r) fun w hw e => by
    rw [tables_apply, stateOf_apply]
    have := h w hw
    cases w <;> simp_all [Write.onState, Write.quiet]

theorem cancelOf_quiet (h : ∀ w ∈ q, w.quiet = true) (r : RunID) :
    (applyAll d q).cancelOf r = d.cancelOf r :=
  applyAll_same (f := fun e : Db => e.cancelOf r) fun w hw e => by
    rw [tables_apply, cancelOf_apply]
    have := h w hw
    cases w <;> simp_all [Write.onCancel, Write.quiet]

/-- A request to cancel is never taken back. -/
theorem Extends.cancelOf {d' : Db} (hd : d.Extends d') (h : d.cancelOf r = some true) :
    d'.cancelOf r = some true := by
  obtain ⟨x, hx, hc⟩ := Option.map_eq_some_iff.mp h
  obtain ⟨y, hy, hsame⟩ := hd.run hx
  rw [cancelOf_of_run hy, hsame.cancel hc]

end Db

/-! ## What acts do to them -/

namespace Protocol

open Loop

variable {cfg : Settings} {me : Part} {first : Bool} {v d : Db} {debt debt' : Debt}
  {ws : List Write} {w : Write}

/-- The run whose step has no successor yet is running, and was not asked to stop. -/
def Owing (v : Db) (debt : Debt) : Prop :=
  ∀ r i, debt = some (r, .successor i) → v.stateOf r = some .running ∧ v.cancelOf r = some false

theorem Act.owing (h : Act cfg me first v debt ws debt') (ho : Owing v debt) :
    Owing (applyAll v ws) debt' := by
  cases h with
  | quiet hq =>
    intro r i hri
    rw [Db.stateOf_quiet (by simpa using hq), Db.cancelOf_quiet (by simpa using hq)]
    exact ho r i hri
  | resume =>
    intro r i hri
    obtain ⟨hri, hne⟩ := Option.filter_eq_some_iff.mp hri
    have := ho r i hri
    simp [reopening, Write.onState, Write.onCancel, this]
  | step _ _ _ hx hrun hcancel _ _ _ _ hq =>
    intro r i hri
    obtain ⟨rfl, rfl⟩ : _ = r ∧ _ = i := by simpa using hri
    have hx' := Db.stateOf_of_run hx
    have hc' := Db.cancelOf_of_run hx
    simp [applyAll_append, Write.onState, Write.onCancel, Db.stateOf_quiet hq, Db.cancelOf_quiet hq,
      hx', hc', hrun, hcancel]
  | openWait | addMember | closeWait | claimWait | consume =>
    intro r i hri
    simpa [Write.onState, Write.onCancel] using ho r i hri
  | _ => simp [Owing]

theorem ActsFrom.owing (h : Acts cfg me d ws debt) : Owing (applyAll d ws) debt := by
  induction h with
  | nil => nofun
  | snoc _ hact ih =>
    rw [applyAll_append]
    exact hact.owing ih

/-- Run `r` is failed or cancelled. -/
def Dead (v : Db) (r : RunID) : Prop := ∃ s, v.stateOf r = some s ∧ s.dead = true

/-- Writes that would take a failed or cancelled run on. -/
def revives (r : RunID) : Write → Bool
  | .insertStep s => decide (s.runID = r)
  | .setState r' st _ _ => decide (r' = r) && !st.dead
  | _ => false

/-- Writes that would take a run on that was asked to stop. -/
def advances (r : RunID) : Write → Bool
  | .insertStep s => decide (s.runID = r)
  | .setState r' st _ _ => decide (r' = r) && decide (st = .awaiting ∨ st = .completed)
  | _ => false

theorem advances_of_revives (h : revives r w = false) : advances r w = false := by
  cases w with
  | setState r' st => cases st <;> simp_all [revives, advances, RunState.dead]
  | insertStep => exact h
  | _ => rfl

theorem Dead.ne {r' : RunID} (hr : Dead v r) (hx : v.run? r' = some x)
    (hs : x.state.dead = false) : r' ≠ r := by
  rintro rfl
  obtain ⟨s, hs', hd⟩ := hr
  obtain rfl : x.state = s := by simpa [Db.stateOf, hx] using hs'
  simp [hs] at hd

theorem Dead.applyAll (hr : Dead v r) (h : ∀ w ∈ ws, revives r w = false) :
    Dead (applyAll v ws) r :=
  applyAll_keeps (K := fun e : Db => Dead e r) (fun w hw e he => by
    obtain ⟨s, hs, hd⟩ := he
    have hw' := h w hw
    cases w with
    | setState r' st =>
      by_cases heq : r = r'
      · subst heq
        exact ⟨st, by simp [Write.onState, hs], by simpa [revives] using hw'⟩
      · exact ⟨s, by simp [Write.onState, hs, heq], hd⟩
    | _ => exact ⟨s, by simp [Write.onState, hs], hd⟩) hr

private theorem revives_quiet (h : w.quiet = true) : revives r w = false := by
  cases w <;> simp_all [revives, Write.quiet]

private theorem advances_quiet (h : w.quiet = true) : advances r w = false := by
  cases w <;> simp_all [advances, Write.quiet]

theorem Act.final (h : Act cfg me first v debt ws debt') (ho : Owing v debt)
    (hr : Dead v r) : ∀ w ∈ ws, revives r w = false := by
  cases h with
  | quiet hq => simpa using revives_quiet hq
  | resume _ _ hp hterm =>
    have hne := hr.ne hp (RunState.dead_of_not_terminal hterm)
    rw [← Db.run?_id hp] at hne
    simp [reopening, revives, hne]
  | claim hx hs => simp [revives, hr.ne hx (by simp [hs, RunState.dead])]
  | finish hd => simp [revives, hd]
  | answer hx hs =>
    have hne := hr.ne hx (by rcases hs with hs | hs <;> simp [hs, RunState.dead])
    simp [reopening, revives, hne]
  | step _ _ _ hx hs _ _ hst _ _ hq =>
    have hne := hr.ne hx (by simp [hs, RunState.dead])
    rw [← hst] at hne
    exact forall_stepWrites hq revives_quiet rfl (by simpa [revives] using hne) rfl
  | @park job _ | @complete job _ _ _ _ =>
    obtain ⟨s, hs, hd⟩ := hr
    have hrun := (ho job.runID job.stepIndex rfl).1
    have hne : job.runID ≠ r := by
      rintro rfl
      cases hrun.symm.trans hs
      cases hd
    simp [revives, hne]
  | _ => simp [revives]

theorem Act.stops (h : Act cfg me first v debt ws debt') (ho : Owing v debt)
    (hr : v.cancelOf r = some true) : ∀ w ∈ ws, advances r w = false := by
  have hne : ∀ {r' : RunID} {x : AgentRun}, v.run? r' = some x → x.cancelRequestedAt = none →
      r' ≠ r := by
    rintro r' x hx hc rfl
    simp [Db.cancelOf, hx, hc] at hr
  cases h with
  | quiet hq => simpa using advances_quiet hq
  | @finish _ _ st _ _ hd _ _ _ _ =>
    cases st <;> simp_all [advances, RunState.dead]
  | step _ _ _ hx _ hc _ hst _ _ hq =>
    have hne := hne hx hc
    rw [← hst] at hne
    exact forall_stepWrites hq advances_quiet rfl (by simpa [advances] using hne) rfl
  | @park job _ | @complete job _ _ _ _ =>
    have hne : job.runID ≠ r := by
      rintro rfl
      cases (ho job.runID job.stepIndex rfl).2.symm.trans hr
    simp [advances, hne]
  | _ => simp [reopening, advances]

/-- No act of a transaction takes a run on that failed or was cancelled before it. -/
theorem ActsFrom.final (h : Acts cfg me d ws debt) (hr : Dead d r) :
    ∀ w ∈ ws, revives r w = false := by
  induction h with
  | nil => simp
  | snoc hacts hact ih =>
    intro w hw
    rcases List.mem_append.mp hw with hw | hw
    · exact ih w hw
    · exact hact.final hacts.owing (hr.applyAll ih) w hw

/-- No act of a transaction takes a run on that was asked to stop before it. -/
theorem ActsFrom.stops (h : Acts cfg me d ws debt) (hr : d.cancelOf r = some true) :
    ∀ w ∈ ws, advances r w = false := by
  induction h with
  | nil => simp
  | snoc hacts hact ih =>
    intro w hw
    rcases List.mem_append.mp hw with hw | hw
    · exact ih w hw
    · exact hact.stops hacts.owing ((Db.extends_applyAll d _).cancelOf hr) w hw

/-- A known run that a transaction fails or cancels is dead when the transaction ends. -/
theorem ActsFrom.dead (h : Acts cfg me d ws debt) (hx : d.run? r = some x)
    {st : RunState} {reason message : String} (hd : st.dead = true)
    (hm : .setState r st reason message ∈ ws) : Dead (applyAll d ws) r := by
  induction h with
  | nil => cases hm
  | @snoc ws _ _ _ hacts hact ih =>
    rw [applyAll_append]
    rcases List.mem_append.mp hm with hm | hm
    · exact (ih hm).applyAll (hact.final hacts.owing (ih hm))
    · cases hact with
      | quiet hq =>
        obtain rfl := List.mem_singleton.mp hm
        cases hq
      | finish =>
        obtain ⟨y, hy, -⟩ := (Db.extends_applyAll d ws).run hx
        rw [← List.mem_singleton.mp hm]
        exact ⟨st, by simp [Write.onState, Db.stateOf_of_run hy], hd⟩
      | step _ _ _ _ _ _ _ _ _ _ hq =>
        have hq := hq (.setState r st reason message) (by simpa using hm)
        cases hq
      | _ =>
        have : st.dead = false := by simp [reopening] at hm <;> simp [hm, RunState.dead]
        rw [this] at hd
        cases hd

/-! ## Later tables -/

/-- The run was claimed at some time. -/
def Begun (v : Db) (r : RunID) : Prop := ∃ s, v.stateOf r = some s ∧ s ≠ .pending

/-- What a process can rely on when the tables have changed from `d` to `d'`. -/
structure Later (d d' : Db) : Prop where
  extends_ : d.Extends d'
  nextJob : d.nextJob ≤ d'.nextJob
  jobs : ∀ q ∈ d'.jobs, q ∈ d.jobs ∨ d.nextJob ≤ q.id
  begun : ∀ r, Begun d r → Begun d' r

namespace Later

variable {d d₁ d₂ d₃ : Db}

theorem refl (d : Db) : Later d d :=
  ⟨.refl d, Nat.le_refl _, fun _ => .inl, fun _ => id⟩

theorem trans (h₁ : Later d₁ d₂) (h₂ : Later d₂ d₃) : Later d₁ d₃ where
  extends_ := h₁.extends_.trans h₂.extends_
  nextJob := h₁.nextJob.trans h₂.nextJob
  jobs q hq := by
    rcases h₂.jobs q hq with hq | hq
    · exact h₁.jobs q hq
    · exact .inr (h₁.nextJob.trans hq)
  begun r hr := h₂.begun r (h₁.begun r hr)

theorem clock (d : Db) (t : Time) : Later d { d with clock := t } :=
  ⟨Db.extends_clock d t, Nat.le_refl _, fun _ => .inl, fun _ => id⟩

/-- No write but one that sets a run to pending takes anything away. -/
theorem apply (d : Db) (hw : ∀ r reason message, w ≠ .setState r .pending reason message) :
    Later d (w.apply d) where
  extends_ := Db.extends_apply d w
  nextJob := by
    cases w with
    | insertJob => exact Nat.le_succ _
    | _ => exact Nat.le_refl _
  jobs q hq := by
    cases w with
    | insertJob =>
      rcases List.mem_append.mp hq with hq | hq
      · exact .inl hq
      · exact .inr (by rw [List.mem_singleton.mp hq])
    | deleteJob => exact .inl (List.mem_filter.mp hq).1
    | _ => exact .inl hq
  begun := by
    rintro r ⟨s, hs, hne⟩
    unfold Begun
    rw [Db.stateOf_apply, hs]
    cases w with
    | setState r' st reason message =>
      by_cases hr : r = r'
      · refine ⟨st, by simp [Write.onState, hr], ?_⟩
        rintro rfl
        exact hw r' reason message rfl
      · exact ⟨s, by simp [Write.onState, hr], hne⟩
    | _ => exact ⟨s, by simp [Write.onState], hne⟩

end Later

private theorem Act.forward (h : Act cfg me first v debt ws debt') :
    ∀ w ∈ ws, ∀ r reason message, w ≠ .setState r .pending reason message := by
  cases h with
  | quiet hq =>
    rintro w hw r reason message rfl
    obtain rfl := List.mem_singleton.mp hw
    cases hq
  | finish hd =>
    rintro w hw r reason message rfl
    cases List.mem_singleton.mp hw
    cases hd
  | step _ _ _ _ _ _ _ _ _ _ hq =>
    rintro w hw r reason message rfl
    have := hq (.setState r .pending reason message) (by simpa using hw)
    cases this
  | _ => simp [reopening]

theorem ActsFrom.later (h : Acts cfg me d ws debt) : Later d (applyAll d ws) := by
  induction h with
  | nil => exact .refl d
  | snoc _ hact ih =>
    rw [applyAll_append]
    exact ih.trans (applyAll_keeps (K := fun e : Db => Later (applyAll d _) e)
      (fun w hw _ he => he.trans (.apply _ (hact.forward w hw))) (.refl _))

end Protocol

end Ultracore
