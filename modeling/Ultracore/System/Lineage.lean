-- SUMMARY: The tables over whole runs: every interleaving is explained by a serial run, and runs follow their lifecycle.
import Ultracore.System.Guarantees

/-!
# The tables over whole runs

Whatever the interleaving, the tables are those that a serial run with the same writes leaves, and
their references are sound. In the order of their commits, the states that are written to a run
follow its lifecycle.
-/

namespace Ultracore

open Txn

/-- Whether a run may go from the first state to the second. -/
def RunState.leadsTo : RunState → RunState → Bool
  | _, .failed | _, .cancelled => true
  | s, .running => !s.dead
  | .running, .awaiting | .running, .completed => true
  | _, _ => false

/-- The state that a write gives to run `r`. -/
def Write.state? (r : RunID) : Write → Option RunState
  | .insertRun x => if r = x.id then some x.state else none
  | .setState r' st _ _ => if r = r' then some st else none
  | _ => none

theorem Write.state?_quiet {w : Write} (h : w.quiet = true) (r : RunID) : w.state? r = none := by
  cases w <;> first | rfl | cases h

namespace Protocol

open Loop

variable {cfg : Settings} {me : Part} {first : Bool} {v d : Db} {debt debt' : Debt}
  {ws ws' : List Write} {x : AgentRun} {state : RunID → Option RunState}

/-- The state `st` may follow. A new run is pending. -/
def Follows : Option RunState → RunState → Prop
  | none, st => st = .pending
  | some s, st => s.leadsTo st = true

/-- Every state that is written follows on the one before. -/
def Lawful (state : RunID → Option RunState) : List Write → Prop
  | [] => True
  | w :: ws => (∀ r st, w.state? r = some st → Follows (state r) st) ∧
      Lawful (fun r => w.onState r (state r)) ws

theorem Lawful.append (h : Lawful d.stateOf ws) (h' : Lawful (applyAll d ws).stateOf ws') :
    Lawful d.stateOf (ws ++ ws') := by
  induction ws generalizing d with
  | nil => exact h'
  | cons w ws ih =>
    refine ⟨h.1, ?_⟩
    have hstate : (fun r => w.onState r (d.stateOf r)) = (w.apply d).stateOf :=
      funext fun r => (Db.stateOf_apply d w r).symm
    have hrest := h.2
    rw [hstate] at hrest ⊢
    exact ih hrest h'

theorem lawful_of_none (h : ∀ w ∈ ws, ∀ r, w.state? r = none) : Lawful state ws := by
  induction ws generalizing state with
  | nil => trivial
  | cons w ws ih =>
    obtain ⟨hw, hrest⟩ := List.forall_mem_cons.mp h
    exact ⟨fun r st hst => by simp [hw r] at hst, ih hrest⟩

theorem lawful_reopening (hx : v.run? x.id = some x) (hlive : x.state.dead = false) {h : Envelope}
    {e : Event} {at_ : Time} {origin : Origin} : Lawful v.stateOf (reopening v x h e at_ origin) := by
  simp [reopening, Lawful, Write.state?, Write.onState, Follows, Db.stateOf_of_run hx, hlive,
    RunState.leadsTo]

theorem Act.lawful (h : Act cfg me first v debt ws debt') (ho : Owing v debt) :
    Lawful v.stateOf ws := by
  cases h with
  | quiet hq => exact lawful_of_none (by simpa using Write.state?_quiet hq)
  | create hnew hs =>
    simp [Lawful, Write.state?, Follows, hs, Db.stateOf, hnew]
  | claim hx hs =>
    simp [Lawful, Write.state?, Follows, Db.stateOf_of_run hx, hs, RunState.leadsTo, RunState.dead]
  | @finish _ x st _ _ hd _ hx =>
    have : x.state.leadsTo st = true := by cases st <;> first | rfl | cases hd
    simp [Lawful, Write.state?, Follows, Db.stateOf_of_run hx, this]
  | resume _ _ hp hterm =>
    rw [← Db.run?_id hp] at hp
    exact ⟨by simp [Write.state?], lawful_reopening hp (RunState.dead_of_not_terminal hterm)⟩
  | answer hx hs =>
    exact lawful_reopening hx (by rcases hs with hs | hs <;> simp [hs, RunState.dead])
  | step _ _ _ _ _ _ _ _ _ _ hq =>
    exact lawful_of_none (forall_stepWrites hq Write.state?_quiet (fun _ => rfl) (fun _ => rfl)
      fun _ => rfl)
  | @park job | @complete job =>
    have hrun := (ho job.runID job.stepIndex rfl).1
    simp [Lawful, Write.state?, Follows, hrun, RunState.leadsTo]
  | _ => exact lawful_of_none (by simp [Write.state?])

theorem ActsFrom.lawful (h : Acts cfg me d ws debt) : Lawful d.stateOf ws := by
  induction h with
  | nil => trivial
  | snoc hacts hact ih => exact ih.append (hact.lawful hacts.owing)

end Protocol

namespace System

open Loop Protocol

/-- Every interleaving commits what a serial run commits, in the same order, and breaks no
    reference. The statements of the serial run see what their locks protect as it is, and
    everything else as it was at some time before, with its references whole. -/
theorem interleavings_are_serial (cfg : Settings) {log : List Write} {c : Conf}
    (hrun : (app cfg).machine.Reaches boot log c) :
    (app cfg).machine.SerialRun (Seen cfg) (fun _ _ => True) boot.world log c.world ∧
      Integrity cfg c.db :=
  ⟨(run_serial hrun).1, (run_sound hrun).1.integrity⟩

theorem interleavings_are_serial_twice :
    ∃ log c, (app sample).machine.Reaches boot log c ∧ c.db.indicesOf mainRun = [0] ∧
      (app sample).machine.SerialRun (Seen sample) (fun _ _ => True) boot.world log c.world := by
  have hsteps : (played stepTwice).map
      (fun c => c.db.indicesOf mainRun) = some [0] := by decide +kernel
  obtain ⟨log, c, -, hrun, hsteps⟩ := play_boot hsteps
  refine ⟨log, c, hrun, ?_, (interleavings_are_serial sample hrun).1⟩
  exact hsteps

theorem stateOf_applyAll_congr {d d' : Db} (h : d.stateOf = d'.stateOf) (ws : List Write) :
    (applyAll d ws).stateOf = (applyAll d' ws).stateOf := by
  induction ws generalizing d d' with
  | nil => exact h
  | cons w ws ih =>
    refine ih (funext fun r => ?_)
    rw [tables_apply, tables_apply, Db.stateOf_apply, Db.stateOf_apply, h]

/-- In the order of their commits, the states that are written to a run begin with pending and
    follow the edges of the lifecycle, and the last of them is stored. -/
theorem runs_follow_lifecycle (cfg : Settings) {log : List Write} {c : Conf}
    (hrun : (app cfg).machine.Reaches boot log c) :
    Lawful (fun _ => none) log ∧ c.db.stateOf = (applyAll boot.db log).stateOf := by
  refine run_keeps (K := fun log d => Lawful boot.db.stateOf log ∧
    d.stateOf = (applyAll boot.db log).stateOf) (fun _ _ _ h => h) ?_ .refl ⟨trivial, rfl⟩ hrun
  rintro c log - ws _ _ p p' - - - - hc ⟨hlog, hstate⟩
  have hws : Lawful c.db.stateOf ws := by
    cases hc with
    | ack => exact lawful_of_none (by simp [Write.state?])
    | acts _ ho => exact ho.acts.lawful
  rw [hstate] at hws
  refine ⟨hlog.append hws, ?_⟩
  rw [applyAll_append]
  exact stateOf_applyAll_congr hstate ws

theorem runs_follow_lifecycle_stopped :
    ∃ log c, (app sample).machine.Reaches boot log c ∧ c.db.stateOf mainRun = some .cancelled ∧
      Lawful (fun _ => none) log := by
  have hstate : (played (stopMain ++ deliverStopped)).map
      (fun c => c.db.stateOf mainRun) = some (some .cancelled) := by decide +kernel
  obtain ⟨log, c, -, hrun, hstate⟩ := play_boot hstate
  exact ⟨log, c, hrun, hstate, (runs_follow_lifecycle sample hrun).1⟩

end System

end Ultracore
