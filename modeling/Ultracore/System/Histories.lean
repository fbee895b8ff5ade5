-- SUMMARY: Histories are append-only in runs where no delivery writes one from an outdated copy; a run that loses a tool result.
import Ultracore.Protocol.History
import Ultracore.System.Guarantees

/-!
# Append-only histories

A worker reads the history of its run when it claims a step, and writes it back, with the
messages of the step, when it commits the step. The commit checks that the run is running
and the step not committed yet, not that the history is still the one it read. A run that
was answered while it waits for a child is running, and the outcome of the wait can be put
into its history between the claim and the commit.
-/

namespace Ultracore.System

open Txn Loop Protocol

/-- The process that commits does not write a history, or works on a copy of what is
    stored now. -/
def copyCurrent (c : Conf) : Action Input Nat Proc → Bool
  | .commit j | .lose j =>
    (((c.procs[j]?).bind Slot.proc).bind Proc.copy).all fun m =>
      decide (c.db.messagesOf m.1 = some m.2)
  | _ => true

section
variable {cfg : Settings} {c c' : Conf} {log log' ws : List Write}
  {a : Action Input Nat Proc}
  {Ok : Conf → Action Input Nat Proc → Prop}

theorem upToDate_of_copyCurrent {j : Nat} {p : Proc} (h : copyCurrent c a = true)
    (ha : a = .commit j ∨ a = .lose j) (hp : c.world.procs[j]? = some (some p)) :
    UpToDate c.db p.copy := by
  intro r ms hm
  obtain ⟨sl, hsl, hproc⟩ : ∃ sl, c.procs[j]? = some sl ∧ sl.proc = some p := by
    simpa using hp
  rcases ha with rfl | rfl <;> simpa [copyCurrent, hsl, hproc, hm] using h

theorem step_histories_extend (hrun : RunOf cfg Ok log c) (hok : copyCurrent c a = true)
    (hs : (app cfg).machine.Step c a ws c') : HistoriesExtend c.db c'.db := by
  cases step_advance hrun hs with
  | still hd => exact hd ▸ HistoriesExtend.clock _ _
  | commit ha hp hc hd =>
    rw [hd]
    cases hc with
    | ack => exact HistoriesExtend.keep (by simp [Write.stores?])
    | acts _ ho =>
      refine ho.acts.histories_extend ?_
      rw [Proc.part_copy]
      exact upToDate_of_copyCurrent hok ha hp

end

/-- In a run in which a history is written from a copy only while the copy is what is
    stored, each history extends every earlier one of its run. -/
theorem history_append_only (cfg : Settings) {log log' : List Write}
    {c c' : Config Db Row Write Err Input Proc}
    (hrun : (app cfg).machine.Run (fun c a => copyCurrent c a = true) boot log c)
    (hrun' : (app cfg).machine.Run (fun c a => copyCurrent c a = true) c log' c') :
    HistoriesExtend c.db c'.db := by
  induction hrun' with
  | refl => exact .refl _
  | step hrun'' hok hs ih => exact ih.trans (step_histories_extend (hrun.trans hrun'') hok hs)

theorem history_append_only_resumed :
    ∃ log log' c c' ms, (app sample).machine.Run (fun c a => copyCurrent c a = true) boot log c ∧
      (app sample).machine.Run (fun c a => copyCurrent c a = true) c log' c' ∧
      c.db.messagesOf mainRun = some ms ∧ ms.length = 2 ∧ HistoriesExtend c.db c'.db := by
  have hfirst : ((app sample).machine.play copyCurrent boot helperDone).map
      (fun c => (c.db.messagesOf mainRun).map List.length) = some (some 2) := by decide +kernel
  have hnext : (((app sample).machine.play copyCurrent boot helperDone).bind fun c =>
      (app sample).machine.play copyCurrent c mainDone).isSome = true := by decide +kernel
  obtain ⟨c, hc, hlen⟩ := Option.map_eq_some_iff.mp hfirst
  simp only [hc, Option.bind_some] at hnext
  obtain ⟨c', hc'⟩ := Option.isSome_iff_exists.mp hnext
  obtain ⟨log, hrun⟩ := Machine.play_run hc
  obtain ⟨log', hrun'⟩ := Machine.play_run hc'
  obtain ⟨ms, hms, hms2⟩ := Option.map_eq_some_iff.mp hlen
  exact ⟨log, log', c, c', ms, hrun, hrun', hms, hms2, history_append_only sample hrun hrun'⟩

/-! ## A lost tool result -/

/-- While the run waits for its child, a user answers it. -/
def answerWaiting : Schedule :=
  waitForHelper ++
    [.act (.spawn (.request (.answerRun "tenant" mainRun "and?" actorSystem))), .tx 3 .go, .tx 3 .go]

/-- Process 4 executes the step that follows the answer, up to the end of its stream. Then
    the child completes. -/
def resumeMeanwhile : Schedule :=
  answerWaiting ++ deliver 4 3 (mainJob 1) [] moreWork ++
    deliver 5 1 (helperJob 0) [] noMoreWork ++ [.tx 5 .go]

/-- The answered run loses the outcome of its wait: it has been in the history, and the
    commit of the step claimed before writes a history without it. -/
theorem history_append_only_lost :
    ∃ log log' c c' ms ms', (app sample).machine.Reaches boot log c ∧
      (app sample).machine.Reaches c log' c' ∧ c.db.messagesOf mainRun = some ms ∧
      c'.db.messagesOf mainRun = some ms' ∧ ¬ms <+: ms' := by
  have hbefore : (played resumeMeanwhile).map
      (fun c => (c.db.messagesOf mainRun).map List.length) = some (some 3) := by decide +kernel
  obtain ⟨log, c, hc, hrun, hbefore⟩ := play_boot hbefore
  have hafter : ((played resumeMeanwhile).bind fun c =>
      (app sample).machine.play (fun _ _ => true) c [.tx 4 .go]).map
      (fun c => (c.db.messagesOf mainRun).map List.length) = some (some 2) := by decide +kernel
  simp only [hc, Option.bind_some] at hafter
  obtain ⟨c', hc', hlen⟩ := Option.map_eq_some_iff.mp hafter
  obtain ⟨log', hrun'⟩ := Machine.play_reaches hc'
  obtain ⟨ms, hms, hms3⟩ := Option.map_eq_some_iff.mp hbefore
  obtain ⟨ms', hms', hms2⟩ := Option.map_eq_some_iff.mp hlen
  refine ⟨log, log', c, c', ms, ms', hrun, hrun', hms, hms', fun hle => ?_⟩
  have := hle.length_le
  omega

end Ultracore.System
