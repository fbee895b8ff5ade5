-- SUMMARY: Histories only grow, except where a delivery writes one from an outdated copy.
import Ultracore.Protocol.Finality

/-!
# Histories

Answers and resumptions extend the history they read in the same transaction, under the
lock of the run. A delivery writes the history from the copy it read when it claimed the
step, in a later transaction. That loses nothing only if the copy is what is stored.
-/

namespace Ultracore

open Txn

/-- The message list of the stored history of a run. -/
def Db.messagesOf (d : Db) (r : RunID) : Option (List Message) :=
  (d.run? r).map fun x => x.history.messages

theorem Db.messagesOf_of_run {d : Db} {r : RunID} {x : AgentRun} (h : d.run? r = some x) :
    d.messagesOf r = some x.history.messages := by
  simp [messagesOf, h]

/-- The run and the messages that a write of a history stores. -/
def Write.stores? : Write → Option (RunID × List Message)
  | .setHistory r h _ => some (r, h.messages)
  | _ => none

theorem Write.stores_quiet {w : Write} (h : w.quiet = true) : w.stores? = none := by
  cases w <;> first | rfl | cases h

/-- Every run is still there, with a history that extends the earlier one. -/
def HistoriesExtend (d d' : Db) : Prop :=
  ∀ r ms, d.messagesOf r = some ms → ∃ ms', d'.messagesOf r = some ms' ∧ ms <+: ms'

namespace HistoriesExtend

variable {d d₁ d₂ : Db}

theorem refl (d : Db) : HistoriesExtend d d := fun _ ms h => ⟨ms, h, List.prefix_rfl⟩

theorem trans (h₁ : HistoriesExtend d d₁) (h₂ : HistoriesExtend d₁ d₂) : HistoriesExtend d d₂ := by
  intro r ms hms
  obtain ⟨ms₁, hms₁, hle₁⟩ := h₁ r ms hms
  obtain ⟨ms₂, hms₂, hle₂⟩ := h₂ r ms₁ hms₁
  exact ⟨ms₂, hms₂, hle₁.trans hle₂⟩

theorem clock (d : Db) (t : Time) : HistoriesExtend d { d with clock := t } := refl d

/-- A write that stores a history has to extend the stored one. -/
theorem apply {w : Write} (h : ∀ r ms ms', w.stores? = some (r, ms') → d.messagesOf r = some ms →
    ms <+: ms') : HistoriesExtend d (w.apply d) := by
  intro r ms hms
  obtain ⟨x, hx, rfl⟩ := Option.map_eq_some_iff.mp hms
  rw [Db.messagesOf, Db.run?_apply, hx]
  cases w with
  | setHistory r' hist =>
    by_cases hr : r = r'
    · subst hr
      exact ⟨hist.messages, by simp [Write.onRun], h r _ _ rfl hms⟩
    · exact ⟨_, by simp [Write.onRun, hr], List.prefix_rfl⟩
  | setState r' _ _ _ | setResult r' _ | requestCancel r' _ =>
    refine ⟨_, ?_, List.prefix_rfl⟩
    by_cases hr : r = r' <;> simp [Write.onRun, hr]
  | _ => exact ⟨_, by simp [Write.onRun], List.prefix_rfl⟩

theorem keep {ws : List Write} (h : ∀ w ∈ ws, w.stores? = none) :
    HistoriesExtend d (applyAll d ws) :=
  applyAll_keeps (K := HistoriesExtend d)
    (fun w hw e he => he.trans (apply fun r ms ms' hs => by simp [h w hw] at hs)) (refl d)

/-- A history written over one that it extends, and nothing else about histories. -/
theorem store {r : RunID} {hist : Envelope} {origin : Origin} {ws : List Write} {ms : List Message}
    (hms : d.messagesOf r = some ms) (hle : ms <+: hist.messages) (h : ∀ w ∈ ws, w.stores? = none) :
    HistoriesExtend d (applyAll d (.setHistory r hist origin :: ws)) := by
  rw [applyAll_cons]
  refine trans (apply ?_) (keep h)
  intro r' ms₁ ms₂ hs hms₁
  obtain ⟨rfl, rfl⟩ : r = r' ∧ hist.messages = ms₂ := by simpa [Write.stores?] using hs
  cases hms.symm.trans hms₁
  exact hle

end HistoriesExtend

namespace Protocol

open Loop

variable {cfg : Settings} {me : Part} {first : Bool} {v d : Db} {debt debt' : Debt}
  {ws : List Write}

/-- The copy that a transaction works on is the stored history. -/
def UpToDate (v : Db) (copy : Option (RunID × List Message)) : Prop :=
  ∀ r ms, copy = some (r, ms) → v.messagesOf r = some ms

theorem HistoriesExtend.reopening {p : AgentRun} {h : Envelope} {e : Event} {at_ : Time}
    {origin : Origin} (hp : v.run? p.id = some p) (hle : p.history.messages <+: h.messages) :
    HistoriesExtend v (applyAll v (Protocol.reopening v p h e at_ origin)) :=
  .store (Db.messagesOf_of_run hp) hle (by simp [Write.stores?])

theorem Act.histories_extend (h : Act cfg me first v debt ws debt')
    (hme : first = true → UpToDate v me.copy) : HistoriesExtend v (applyAll v ws) := by
  cases h with
  | quiet hq => exact .keep (by simpa using Write.stores_quiet hq)
  | @resume _ w x now p hist e at_ hx hres hp hterm hle _ =>
    have hid := Db.run?_id hp
    rw [applyAll_cons]
    have hmark : HistoriesExtend v ((Write.markResumed w now).apply v) :=
      .apply fun r ms ms' hs => by cases hs
    have hp' : ((Write.markResumed w now).apply v).run? p.id = some p := by
      simpa [Write.onRun, hid] using hp
    exact hmark.trans (.store (Db.messagesOf_of_run hp') hle (by simp [Write.stores?]))
  | answer hx _ hle => exact HistoriesExtend.reopening hx hle
  | compact hfirst hm hcopy =>
    exact .store (hme hfirst _ _ hm) (hcopy ▸ List.prefix_rfl) (by simp)
  | @step job copy x hist new st q e hfirst _ hm _ _ _ hcopy _ _ _ hq _ =>
    have hrest : ∀ w ∈ .insertStep st :: (q ++ [.bumpSeq e.sessionID, .insertEvent e]),
        w.stores? = none := by
      intro w hw
      simp only [List.mem_cons, List.mem_append, List.not_mem_nil, or_false] at hw
      rcases hw with rfl | hw | rfl | rfl
      · rfl
      · exact Write.stores_quiet (hq w hw)
      · rfl
      · rfl
    simpa using HistoriesExtend.store (hme hfirst _ _ hm) (hcopy ▸ List.prefix_append _ _) hrest
  | _ => exact .keep (by simp [Write.stores?])

/-- A transaction of a delivery whose copy is what is stored loses no message. -/
theorem ActsFrom.histories_extend (h : Acts cfg me d ws debt) (hme : UpToDate d me.copy) :
    HistoriesExtend d (applyAll d ws) := by
  induction h with
  | nil => exact .refl d
  | snoc _ hact ih =>
    rw [applyAll_append]
    refine ih.trans (hact.histories_extend fun hfirst => ?_)
    rw [List.isEmpty_iff.mp hfirst]
    exact hme

end Protocol

end Ultracore
