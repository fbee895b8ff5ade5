-- SUMMARY: Steps are committed once and in order: step rows and end-of-step events count up from zero.
import Ultracore.Protocol.Finality

/-!
# The order of steps

A delivery commits the step that its job names, whatever was committed since the job was
enqueued. Jobs never run ahead of the committed steps, and a step is not committed twice;
so a commit adds exactly the next index.
-/

namespace Ultracore

open Txn

/-! ## Step rows and their events -/

/-- Where an event ends a step of run `r`, the index of the step. -/
def Event.endOf (r : RunID) (e : Event) : Option Nat :=
  (e.payload.finished?.filter fun p => p.1 = r).map Prod.snd

namespace Db

def indicesOf (d : Db) (r : RunID) : List Nat := (d.stepsOf r).map RunStep.stepIndex

/-- The indices of the steps of a run that the log records as finished, in the order of
    their commits. -/
def finishedOf (d : Db) (r : RunID) : List Nat := d.events.filterMap (Event.endOf r)

end Db

namespace Write

def onFinished (r : RunID) (l : List Nat) : Write → List Nat
  | .insertEvent e => l ++ (e.endOf r).toList
  | _ => l

/-- Writes that record a step. -/
def records : Write → Bool
  | .insertStep _ => true
  | .insertEvent e => e.payload.finished?.isSome
  | _ => false

end Write

namespace Db

variable {d : Db} {w : Write} {ws : List Write}

@[simp] theorem finishedOf_apply (r : RunID) :
    (w.apply d).finishedOf r = w.onFinished r (d.finishedOf r) := by
  cases w with
  | insertEvent e =>
    cases h : e.endOf r <;> simp [finishedOf, Write.apply, Write.onFinished, h]
  | _ => rfl

theorem finishedOf_unrecorded (h : w.records = false) (r : RunID) :
    (w.apply d).finishedOf r = d.finishedOf r := by
  rw [finishedOf_apply]
  cases w with
  | insertEvent e =>
    have hnone : e.payload.finished? = none := by simpa [Write.records] using h
    simp [Write.onFinished, Event.endOf, hnone]
  | _ => rfl

theorem stepsOf_unrecorded (h : w.records = false) (r : RunID) :
    (w.apply d).stepsOf r = d.stepsOf r := by
  rw [stepsOf_apply]
  cases w <;> first | rfl | cases h

theorem finishedOf_applyAll (h : ∀ w ∈ ws, w.records = false) (r : RunID) :
    (applyAll d ws).finishedOf r = d.finishedOf r :=
  applyAll_same (f := fun e : Db => e.finishedOf r) fun w hw _ => finishedOf_unrecorded (h w hw) r

theorem stepsOf_applyAll (h : ∀ w ∈ ws, w.records = false) (r : RunID) :
    (applyAll d ws).stepsOf r = d.stepsOf r :=
  applyAll_same (f := fun e : Db => e.stepsOf r) fun w hw _ => stepsOf_unrecorded (h w hw) r

end Db

theorem Write.records_quiet {w : Write} (h : w.quiet = true) : w.records = false := by
  cases w with
  | insertEvent => simp [Write.records, EventPayload.finished?_of_routine h]
  | insertStep => cases h
  | _ => rfl

/-! ## The next index -/

private theorem nextFrom_spec (l : List RunStep) (a n : Nat) (ha : a ≤ n)
    (hl : ∀ s ∈ l, s.stepIndex < n) :
    let next := l.foldl (fun next s => if s.stepIndex ≥ next then s.stepIndex + 1 else next) a
    a ≤ next ∧ next ≤ n ∧ ∀ s ∈ l, s.stepIndex < next := by
  induction l generalizing a with
  | nil => simpa using ha
  | cons s l ih =>
    have hs := hl s (by simp)
    obtain ⟨h₁, h₂, h₃⟩ := ih (if s.stepIndex ≥ a then s.stepIndex + 1 else a)
      (by split <;> omega) (fun s' hs' => hl s' (by simp [hs']))
    simp only [List.foldl_cons]
    refine ⟨?_, h₂, ?_⟩
    · refine Nat.le_trans ?_ h₁
      split <;> omega
    · intro s' hs'
      rcases List.mem_cons.mp hs' with rfl | hs'
      · refine Nat.lt_of_lt_of_le ?_ h₁
        split <;> omega
      · exact h₃ s' hs'

/-- Where the indices of the steps are those below `n`, the next one is `n`. -/
theorem nextIndex_eq {l : List RunStep} {n : Nat}
    (h : ∀ i, i ∈ l.map RunStep.stepIndex ↔ i < n) : nextIndex l = n := by
  obtain ⟨-, hle, hlt⟩ := nextFrom_spec l 0 n (Nat.zero_le n)
    (fun s hs => (h _).mp (List.mem_map_of_mem hs))
  refine Nat.le_antisymm hle ?_
  cases n with
  | zero => exact Nat.zero_le _
  | succ n =>
    obtain ⟨s, hs, heq⟩ := List.mem_map.mp ((h n).mpr (Nat.lt_succ_self n))
    have := hlt s hs
    rw [heq] at this
    exact this

/-! ## Acts commit steps in order -/

namespace Protocol

open Loop

variable {cfg : Settings} {me : Part} {first : Bool} {v d : Db} {debt debt' : Debt}
  {ws : List Write}

/-- The step rows of a run, and the ends of steps in the log, are numbered from zero. -/
structure Ordered (v : Db) : Prop where
  steps : ∀ r, v.indicesOf r = List.range (v.stepsOf r).length
  finished : ∀ r, v.finishedOf r = List.range (v.stepsOf r).length

theorem Ordered.nextOf (h : Ordered v) (r : RunID) : nextOf v r = (v.stepsOf r).length := by
  refine nextIndex_eq fun i => ?_
  have hperm : ((Runs.sorted (v.stepsOf r)).map RunStep.stepIndex).Perm (v.indicesOf r) :=
    (List.perm_insertionSort _ _).map _
  rw [hperm.mem_iff, h.steps r, List.mem_range]

theorem Ordered.unrecorded (h : Ordered v) (hws : ∀ w ∈ ws, w.records = false) :
    Ordered (applyAll v ws) where
  steps r := by simpa only [Db.indicesOf, Db.stepsOf_applyAll hws] using h.steps r
  finished r := by
    simpa only [Db.finishedOf_applyAll hws, Db.stepsOf_applyAll hws] using h.finished r

/-- Jobs do not run ahead: the step of the delivery is committed, or the next one. -/
def InTurn (v : Db) (me : Part) : Prop :=
  ∀ job, me.job = some job → job.stepIndex ≤ (v.stepsOf job.runID).length

theorem InTurn.extends {d' : Db} (h : InTurn d me) (hd : d.Extends d') : InTurn d' me :=
  fun job hjob => (h job hjob).trans (hd.steps job.runID).length_le

/-- A step that is not committed yet, and whose job does not run ahead, is the next one. -/
theorem Ordered.turn (h : Ordered v) {r : RunID} {i : Nat} (hle : i ≤ (v.stepsOf r).length)
    (hnew : ∀ s ∈ v.stepsOf r, s.stepIndex ≠ i) : i = (v.stepsOf r).length := by
  refine Nat.le_antisymm hle (Nat.le_of_not_lt fun hlt => ?_)
  have hmem : i ∈ v.indicesOf r := by
    rw [h.steps]
    exact List.mem_range.mpr hlt
  obtain ⟨s, hs, heq⟩ := List.mem_map.mp hmem
  exact hnew s hs heq

/-- The rows that the commit of a step leaves. -/
private theorem stepsOf_step {job : StepJob} {h : Envelope} {st : RunStep} {q : List Write} {e : Event}
    (hrun : st.runID = job.runID) (hq : ∀ w ∈ q, w.quiet = true) (r : RunID) :
    (applyAll v ([.setHistory job.runID h .step, .insertStep st] ++ q ++
      [.bumpSeq e.sessionID, .insertEvent e])).stepsOf r =
      if r = job.runID then v.stepsOf r ++ [st] else v.stepsOf r := by
  have hquiet : ∀ w ∈ q, w.records = false := fun w hw => Write.records_quiet (hq w hw)
  simp [Write.onSteps, Db.stepsOf_applyAll hquiet, hrun]

theorem Act.ordered (h : Act cfg me first v debt ws debt') (hv : Ordered v) (hme : InTurn v me) :
    Ordered (applyAll v ws) := by
  cases h with
  | quiet hq => exact hv.unrecorded (by simpa using Write.records_quiet hq)
  | @step job copy x h new st q e _ hm _ _ _ _ _ hrun hidx hnew hq he =>
    have hquiet : ∀ w ∈ q, w.records = false := fun w hw => Write.records_quiet (hq w hw)
    have hcount := hv.turn (hme job hm) hnew
    have hends : ∀ r, (applyAll v ([.setHistory job.runID h .step, .insertStep st] ++ q ++
        [.bumpSeq e.sessionID, .insertEvent e])).finishedOf r =
        if r = job.runID then v.finishedOf r ++ [job.stepIndex] else v.finishedOf r := by
      intro r
      have hend : e.endOf r = if job.runID = r then some job.stepIndex else none := by
        by_cases hr : job.runID = r <;> simp [Event.endOf, he, Option.filter, hr]
      by_cases hr : r = job.runID
      · subst hr
        simp [Write.onFinished, Db.finishedOf_applyAll hquiet, hend]
      · simp [Write.onFinished, Db.finishedOf_applyAll hquiet, hend, hr, Ne.symm hr]
    refine ⟨fun r => ?_, fun r => ?_⟩
    · have hold := hv.steps r
      rw [Db.indicesOf] at hold ⊢
      rw [stepsOf_step hrun hq]
      by_cases hr : r = job.runID
      · simpa [hr, List.range_succ, hidx, hcount] using hr ▸ hold
      · simpa [hr] using hold
    · rw [hends, stepsOf_step hrun hq]
      by_cases hr : r = job.runID
      · simpa [hr, List.range_succ, hcount] using hv.finished job.runID
      · simpa [hr] using hv.finished r
  | resume _ _ _ _ _ he | create _ _ _ _ _ _ _ he | answer _ _ _ he _ =>
    exact hv.unrecorded (by simp [reopening, Write.records, EventPayload.finished?_of_routine he])
  | announce _ _ he =>
    exact hv.unrecorded (by simp [Write.records, EventPayload.finished?_of_verdict he])
  | _ => exact hv.unrecorded (by simp [Write.records])

theorem ActsFrom.ordered (h : Acts cfg me d ws debt) (hd : Ordered d) (hme : InTurn d me) :
    Ordered (applyAll d ws) := by
  induction h with
  | nil => exact hd
  | snoc _ hact ih =>
    rw [applyAll_append]
    exact hact.ordered ih (hme.extends (Db.extends_applyAll d _))

/-- The step that has no successor yet is the last one. -/
def Tallied (v : Db) (debt : Debt) : Prop :=
  ∀ r i, debt = some (r, .successor i) → (v.stepsOf r).length = i + 1

theorem Act.tallied (h : Act cfg me first v debt ws debt') (ht : Tallied v debt) (hv : Ordered v)
    (hme : InTurn v me) : Tallied (applyAll v ws) debt' := by
  have hsame : (∀ w ∈ ws, w.records = false) → Tallied (applyAll v ws) debt := by
    intro hws r i hri
    rw [Db.stepsOf_applyAll hws]
    exact ht r i hri
  cases h with
  | quiet hq => exact hsame (by simpa using Write.records_quiet hq)
  | resume _ _ _ _ _ he =>
    intro r i hri
    exact hsame (by simp [reopening, Write.records, EventPayload.finished?_of_routine he]) r i
      (Option.filter_eq_some_iff.mp hri).1
  | step _ hm _ _ _ _ _ hrun _ hnew hq =>
    intro r i hri
    obtain ⟨rfl, rfl⟩ : _ = r ∧ _ = i := by simpa using hri
    rw [stepsOf_step hrun hq]
    simp [hv.turn (hme _ hm) hnew]
  | openWait | addMember | closeWait | claimWait | consume =>
    exact hsame (by simp [Write.records])
  | _ => simp [Tallied]

theorem ActsFrom.tallied (h : Acts cfg me d ws debt) (hd : Ordered d) (hme : InTurn d me) :
    Tallied (applyAll d ws) debt := by
  induction h with
  | nil => nofun
  | snoc hacts hact ih =>
    rw [applyAll_append]
    exact hact.tallied ih (hacts.ordered hd hme) (hme.extends (Db.extends_applyAll d _))

end Protocol

end Ultracore
