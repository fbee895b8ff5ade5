-- SUMMARY: A run that failed or was cancelled keeps its verdict and is announced once, unless it is cancelled by force.
import Ultracore.Protocol.Finality

/-!
# Verdicts

How a run ended is stored in three columns of its row and announced by an event. Between
the two writes the transaction owes the event; so the events that announce the end of a run
are at most one, and there is one exactly when the run is failed or cancelled. A transaction
that may finish a finished run once more (`Part.forces`) is the exception.
-/

namespace Ultracore

open Txn

variable {r : RunID}

/-! ## Verdicts and their events -/

/-- How a run stands: its session, and the columns that `SetState` writes. -/
structure Fate where
  sessionID : SessionID
  state : RunState
  failureReason : String
  failureMessage : String

def AgentRun.fate (x : AgentRun) : Fate :=
  ⟨x.sessionID, x.state, x.failureReason, x.failureMessage⟩

/-- Whether an event announces that run `r` has failed or was cancelled. -/
def Event.announces (r : RunID) (e : Event) : Bool :=
  e.payload.verdict?.any fun p => decide (p.1 = r) && p.2.dead

namespace Db

def fateOf (d : Db) (r : RunID) : Option Fate := (d.run? r).map AgentRun.fate

/-- The events of the log that announce the failure or the cancellation of a run. -/
def endingsOf (d : Db) (r : RunID) : List Event := d.events.filter (Event.announces r)

/-- The session of a run that is failed or cancelled. -/
def deadIn (d : Db) (r : RunID) : Option SessionID :=
  (d.fateOf r).bind fun f => if f.state.dead then some f.sessionID else none

theorem fateOf_of_run {d : Db} {x : AgentRun} (h : d.run? r = some x) :
    d.fateOf r = some x.fate := by
  simp [fateOf, h]

theorem deadIn_of_run {d : Db} {x : AgentRun} (h : d.run? r = some x) :
    d.deadIn r = if x.state.dead then some x.sessionID else none := by
  simp [deadIn, fateOf, h, AgentRun.fate]

end Db

namespace Write

def onFate (r : RunID) (o : Option Fate) : Write → Option Fate
  | .insertRun x => o.or (if r = x.id then some x.fate else none)
  | .setState r' st reason message =>
    if r = r' then
      o.map fun f => { f with state := st, failureReason := reason, failureMessage := message }
    else o
  | _ => o

def onEndings (r : RunID) (es : List Event) : Write → List Event
  | .insertEvent e => if e.announces r then es ++ [e] else es
  | _ => es

/-- Writes that change how run `r` stands or what the log says about it. -/
def concerns (r : RunID) : Write → Bool
  | .insertRun x => decide (r = x.id)
  | .setState r' _ _ _ => decide (r = r')
  | .insertEvent e => e.announces r
  | _ => false

end Write

namespace Db

variable (d : Db) (w : Write)

@[simp] theorem fateOf_apply (r : RunID) : (w.apply d).fateOf r = w.onFate r (d.fateOf r) := by
  unfold fateOf
  rw [run?_apply]
  cases w with
  | insertRun x => by_cases h : r = x.id <;> cases d.run? r <;> simp [Write.onRun, Write.onFate, h]
  | setState r' =>
    by_cases h : r = r' <;> simp [Write.onRun, Write.onFate, h, Function.comp_def, AgentRun.fate]
  | setHistory r' _ _ | setResult r' _ | requestCancel r' _ =>
    by_cases h : r = r' <;> cases d.run? r <;> simp [Write.onRun, Write.onFate, h, AgentRun.fate]
  | _ => simp [Write.onRun, Write.onFate]

@[simp] theorem endingsOf_apply (r : RunID) :
    (w.apply d).endingsOf r = w.onEndings r (d.endingsOf r) := by
  cases w with
  | insertEvent e =>
    by_cases h : e.announces r <;> simp [endingsOf, Write.apply, Write.onEndings, h]
  | _ => rfl

variable {d w} {ws : List Write}

theorem fateOf_applyAll (h : ∀ w ∈ ws, w.concerns r = false) :
    (applyAll d ws).fateOf r = d.fateOf r :=
  applyAll_same (f := fun e : Db => e.fateOf r) fun w hw e => by
    rw [tables_apply, fateOf_apply]
    have := h w hw
    cases w <;> simp_all [Write.onFate, Write.concerns]

theorem endingsOf_applyAll (h : ∀ w ∈ ws, w.concerns r = false) :
    (applyAll d ws).endingsOf r = d.endingsOf r :=
  applyAll_same (f := fun e : Db => e.endingsOf r) fun w hw e => by
    rw [tables_apply, endingsOf_apply]
    have := h w hw
    cases w <;> simp_all [Write.onEndings, Write.concerns]

end Db

theorem Event.announces_of_none {e : Event} (h : e.payload.verdict? = none) :
    e.announces r = false := by
  simp [announces, h]

theorem Event.announces_of_routine {e : Event} (h : e.payload.routine = true) :
    e.announces r = false :=
  announces_of_none (EventPayload.verdict?_of_routine h)

theorem Write.concerns_quiet {w : Write} (h : w.quiet = true) : w.concerns r = false := by
  cases w with
  | insertEvent => exact Event.announces_of_routine h
  | insertRun | setState => cases h
  | _ => rfl

namespace Protocol

open Loop

variable {cfg : Settings} {me : Part} {first : Bool} {v d : Db} {debt debt' : Debt}
  {ws : List Write} {r : RunID}

theorem dead_iff : Dead v r ↔ (v.deadIn r).isSome = true := by
  unfold Dead Db.deadIn Db.stateOf Db.fateOf
  cases v.run? r with
  | none => simp
  | some x => cases h : x.state.dead <;> simp [AgentRun.fate, h]

theorem deadIn_eq_none (h : ¬Dead v r) : v.deadIn r = none := by
  rw [dead_iff, Option.isSome_iff_ne_none] at h
  exact Classical.not_not.mp h

/-! ## A verdict is not changed -/

/-- No act but a forced one writes the state of a run that is failed or cancelled. -/
theorem Act.unconcerned (h : Act cfg me first v debt ws debt') (ho : Owing v debt) (hr : Dead v r)
    (hforce : first = true → me.forces = true → me.ends ≠ some r) :
    ∀ w ∈ ws, ∀ st reason message, w ≠ .setState r st reason message := by
  have hfinal := h.final ho hr
  cases h with
  | quiet hq =>
    rintro w hw st reason message rfl
    obtain rfl := List.mem_singleton.mp hw
    cases hq
  | @finish r' x _ _ _ hd hends hx _ hguard =>
    rintro w hw st reason message rfl
    cases List.mem_singleton.mp hw
    rcases hguard with hterm | ⟨hfirst, hf⟩
    · exact hr.ne hx (RunState.dead_of_not_terminal hterm) rfl
    · exact hforce hfirst hf hends
  | step _ _ _ _ _ _ _ _ _ _ hq =>
    rintro w hw st reason message rfl
    have := hq (.setState r st reason message) (by simpa using hw)
    cases this
  | _ =>
    rintro w hw st reason message rfl
    have hdead := hfinal _ hw
    simp [reopening] at hw <;> simp_all [revives, RunState.dead]

theorem ActsFrom.unconcerned (h : Acts cfg me d ws debt) (hr : Dead d r)
    (hforce : me.forces = true → me.ends ≠ some r) :
    ∀ w ∈ ws, ∀ st reason message, w ≠ .setState r st reason message := by
  induction h with
  | nil => simp
  | snoc hacts hact ih =>
    intro w hw
    rcases List.mem_append.mp hw with hw | hw
    · exact ih w hw
    · exact hact.unconcerned hacts.owing (hr.applyAll (hacts.final hr)) (fun _ => hforce) w hw

/-- What is not set again stays as it is. -/
theorem fateOf_kept (hr : Dead d r)
    (h : ∀ w ∈ ws, ∀ st reason message, w ≠ .setState r st reason message) :
    (applyAll d ws).fateOf r = d.fateOf r := by
  refine applyAll_keeps (K := fun e : Db => e.fateOf r = d.fateOf r) (fun w hw e he => ?_) rfl
  rw [tables_apply, Db.fateOf_apply, he]
  cases w with
  | insertRun =>
    obtain ⟨s, hs, -⟩ := hr
    obtain ⟨y, hy, -⟩ := Option.map_eq_some_iff.mp hs
    simp [Write.onFate, Db.fateOf, hy]
  | setState r' st reason message =>
    have hne : r ≠ r' := by
      rintro rfl
      exact h _ hw st reason message rfl
    simp [Write.onFate, hne]
  | _ => rfl

/-! ## A verdict is announced once -/

/-- Whether the announcement of a failure or a cancellation of run `r` is owed. -/
def Debt.due (debt : Debt) (r : RunID) : Bool :=
  debt.any fun p => decide (p.1 = r) && match p.2 with
    | .verdict st => st.dead
    | .successor _ => false

@[simp] theorem Debt.due_none : Debt.due none r = false := rfl

@[simp] theorem Debt.due_successor {r' : RunID} {i : Nat} :
    Debt.due (some (r', .successor i)) r = false := by
  simp [Debt.due]

/-- Where run `r` is failed or cancelled, one event in its session says so, or is owed. -/
structure Balanced (me : Part) (v : Db) (debt : Debt) (r : RunID) : Prop where
  owed : debt.due r = true →
    v.endingsOf r = [] ∧ ∃ s, v.deadIn r = some s ∧ me.session = some s
  paid : debt.due r = false → (v.endingsOf r).map Event.sessionID = (v.deadIn r).toList

namespace Balanced

theorem unconcerned (h : Balanced me v debt r) (hws : ∀ w ∈ ws, w.concerns r = false)
    (hdue : debt'.due r = debt.due r) : Balanced me (applyAll v ws) debt' r := by
  have hdead : (applyAll v ws).deadIn r = v.deadIn r := by
    rw [Db.deadIn, Db.deadIn, Db.fateOf_applyAll hws]
  constructor
  · rw [Db.endingsOf_applyAll hws, hdead, hdue]
    exact h.owed
  · rw [Db.endingsOf_applyAll hws, hdead, hdue]
    exact h.paid

/-- Nothing is said about a run that is neither failed nor cancelled. -/
theorem alive (h : Balanced me v debt r) (hv : v.deadIn r = none) :
    debt.due r = false ∧ v.endingsOf r = [] := by
  have hdue : debt.due r = false := by
    by_contra hdue
    obtain ⟨-, s, hs, -⟩ := h.owed (by simpa using hdue)
    rw [hv] at hs
    cases hs
  exact ⟨hdue, by simpa [hv] using h.paid hdue⟩

theorem of_alive (hv : v.deadIn r = none) (he : v.endingsOf r = []) (hdue : debt.due r = false) :
    Balanced me v debt r :=
  ⟨fun h => by simp [hdue] at h, fun _ => by simp [hv, he]⟩

/-- A run that is set from one state to another, neither of them failed nor cancelled. -/
theorem moved (h : Balanced me v debt r) (hv : v.deadIn r = none) (hdue : debt'.due r = false)
    (hv' : (applyAll v ws).deadIn r = none)
    (hws : (applyAll v ws).endingsOf r = v.endingsOf r) : Balanced me (applyAll v ws) debt' r :=
  of_alive hv' (hws.trans (h.alive hv).2) hdue

end Balanced

/-- A run that is not dead has no session as a dead one. -/
theorem deadIn_of_state {x : AgentRun} (hx : v.run? r = some x) (h : x.state.dead = false) :
    v.deadIn r = none := by
  simp [Db.deadIn_of_run hx, h]

theorem deadIn_of_owing {i : Nat} (ho : Owing v (some (r, .successor i))) : v.deadIn r = none := by
  obtain ⟨x, hx, hs⟩ := Option.map_eq_some_iff.mp (ho r i rfl).1
  exact deadIn_of_state hx (by simp [hs, RunState.dead])

/-- Reopening concerns no run but the one it reopens. -/
private theorem concerns_reopening {p : AgentRun} {h : Envelope} {e : Event} {at_ : Time}
    {origin : Origin} (he : e.payload.routine = true) (hne : r ≠ p.id) :
    ∀ w ∈ reopening v p h e at_ origin, w.concerns r = false := by
  simp [reopening, Write.concerns, hne, Event.announces_of_routine he]

theorem Act.balanced (h : Act cfg me first v debt ws debt') (ho : Owing v debt)
    (hb : Balanced me v debt r)
    (hforce : first = true → me.forces = true → me.ends = some r → ¬Dead v r) :
    Balanced me (applyAll v ws) debt' r := by
  cases h with
  | quiet hq => exact hb.unconcerned (by simpa using Write.concerns_quiet hq) rfl
  | openWait | addMember | closeWait | claimWait | consume | requestCancel | compact | proceed =>
    exact hb.unconcerned (by simp [Write.concerns]) (by simp)
  | @resume _ w x now p h e at_ _ _ hp hterm _ he =>
    by_cases hne : r = p.id
    · subst hne
      rw [← Db.run?_id hp] at hp
      have hdead := deadIn_of_state hp (RunState.dead_of_not_terminal hterm)
      refine hb.moved hdead ?_ ?_ ?_
      · cases debt with
        | none => rfl
        | some o => by_cases ho' : o.1 = p.id <;> simp [Debt.clear, Debt.due, Option.filter, ho']
      · simp [reopening, Db.deadIn, Write.onFate, Db.fateOf_of_run hp, RunState.dead]
      · simp [reopening, Write.onEndings, Event.announces_of_routine he]
    · refine hb.unconcerned (fun w hw => ?_) ?_
      · rcases List.mem_cons.mp hw with rfl | hw
        · rfl
        · exact concerns_reopening he hne w hw
      · cases debt with
        | none => rfl
        | some o =>
          by_cases ho' : o.1 = p.id
          · simp [Debt.clear, Debt.due, Option.filter, ho', Ne.symm hne]
          · simp [Debt.clear, Debt.due, Option.filter, ho']
  | @create x s e at_ hx hs _ _ _ _ _ he =>
    by_cases hne : r = x.id
    · subst hne
      have hfate : v.fateOf x.id = none := by simp [Db.fateOf, hx]
      refine hb.moved (by simp [Db.deadIn, hfate]) rfl ?_ ?_
      · simp [Db.deadIn, Write.onFate, hfate, AgentRun.fate, hs, RunState.dead]
      · simp [Write.onEndings, Event.announces_of_routine he]
    · exact hb.unconcerned (by simp [Write.concerns, hne, Event.announces_of_routine he]) rfl
  | @claim r' x hx hs _ =>
    by_cases hne : r = r'
    · subst hne
      refine hb.moved (deadIn_of_state hx (by simp [hs, RunState.dead])) rfl ?_ ?_
      · simp [Db.deadIn, Write.onFate, Db.fateOf_of_run hx, RunState.dead]
      · simp [Write.onEndings]
    · exact hb.unconcerned (by simp [Write.concerns, hne]) rfl
  | @finish r' x st _ _ hd hends hx hs hguard =>
    by_cases hne : r = r'
    · -- the run was neither failed nor cancelled; now it is, and the event is owed
      subst hne
      have halive : v.deadIn r = none := by
        rcases hguard with hterm | ⟨hfirst, hf⟩
        · exact deadIn_of_state hx (RunState.dead_of_not_terminal hterm)
        · exact deadIn_eq_none (hforce hfirst hf hends)
      refine ⟨fun _ => ⟨?_, x.sessionID, ?_, hs⟩, fun hdue => ?_⟩
      · simpa [Write.onEndings] using (hb.alive halive).2
      · simp [Db.deadIn, Write.onFate, Db.fateOf_of_run hx, hd, AgentRun.fate]
      · simp [Debt.due, hd] at hdue
    · exact hb.unconcerned (by simp [Write.concerns, hne]) (by simp [Debt.due, Ne.symm hne])
  | @announce r' st e _ hs he =>
    by_cases hdue : r = r' ∧ st.dead = true
    · obtain ⟨rfl, hd⟩ := hdue
      obtain ⟨hnone, s, hdead, hses⟩ := hb.owed (by simp [Debt.due, hd])
      have hann : e.announces r = true := by simp [Event.announces, he, hd]
      refine ⟨fun h => by simp at h, fun _ => ?_⟩
      have hsame : (applyAll v [Write.insertEvent e]).deadIn r = v.deadIn r := by
        simp [Db.deadIn, Write.onFate]
      rw [hsame, hdead]
      simpa [Write.onEndings, hann, hnone] using Option.some.inj (hs.symm.trans hses)
    · have hann : e.announces r = false := by
        simp only [Event.announces, he, Option.any_some, Bool.and_eq_false_iff,
          decide_eq_false_iff_not]
        by_cases hr : r' = r
        · exact .inr (by simpa [hr] using hdue)
        · exact .inl hr
      refine hb.unconcerned (by simpa [Write.concerns] using hann) ?_
      by_cases hr : r' = r <;> simp_all [Debt.due]
  | @answer x h e at_ hx hs _ he _ =>
    by_cases hne : r = x.id
    · subst hne
      refine hb.moved (deadIn_of_state hx ?_) rfl ?_ ?_
      · rcases hs with hs | hs <;> simp [hs, RunState.dead]
      · simp [reopening, Db.deadIn, Write.onFate, Db.fateOf_of_run hx, RunState.dead]
      · simp [reopening, Write.onEndings, Event.announces_of_routine he]
    · exact hb.unconcerned (concerns_reopening he hne) rfl
  | @step job _ _ _ _ _ q e _ _ _ _ _ _ _ _ _ _ hq he =>
    have hann : e.announces r = false :=
      Event.announces_of_none (EventPayload.verdict?_of_finished he)
    exact hb.unconcerned (forall_stepWrites hq Write.concerns_quiet rfl rfl hann) (by simp)
  | @park job | @complete job =>
    by_cases hne : r = job.runID
    · subst hne
      obtain ⟨x, hx, -⟩ := Option.map_eq_some_iff.mp (ho _ _ rfl).1
      refine hb.moved (deadIn_of_owing ho) (by simp [Debt.due, RunState.dead]) ?_ ?_
      · simp [Db.deadIn, Write.onFate, Db.fateOf_of_run hx, RunState.dead]
      · simp [Write.onEndings]
    · exact hb.unconcerned (by simp [Write.concerns, hne]) (by simp [Debt.due, RunState.dead])

/-- Where run `r` is failed or cancelled, one event in its session says so; otherwise none
    does. -/
def Announced (d : Db) (r : RunID) : Prop :=
  (d.endingsOf r).map Event.sessionID = (d.deadIn r).toList

theorem ActsFrom.balanced (h : Acts cfg me d ws debt) (hb : Announced d r)
    (hforce : me.forces = true → me.ends = some r → ¬Dead d r) :
    Balanced me (applyAll d ws) debt r := by
  induction h with
  | nil => exact ⟨by simp, fun _ => hb⟩
  | @snoc ws _ _ _ hacts hact ih =>
    rw [applyAll_append]
    refine hact.balanced hacts.owing ih fun hfirst hf hends => ?_
    rw [List.isEmpty_iff.mp hfirst]
    exact hforce hf hends

end Protocol

/-! ## What a worker may change of a run -/

/-- The events that announce how run `r` ended. -/
def Db.verdictsOf (d : Db) (r : RunID) : List Event :=
  d.events.filter fun e => e.payload.verdict?.any fun p => p.1 = r

/-- Writes to the state, the history or the result of run `r`, and events that announce how
    it ended. -/
def Write.touches (r : RunID) : Write → Bool
  | .insertRun x => decide (r = x.id)
  | .setState r' _ _ _ | .setHistory r' _ _ | .setResult r' _ => decide (r = r')
  | .insertEvent e => e.payload.verdict?.any fun p => p.1 = r
  | _ => false

theorem Write.touches_quiet {w : Write} (h : w.quiet = true) : w.touches r = false := by
  cases w with
  | insertEvent => simp [touches, EventPayload.verdict?_of_routine h]
  | insertRun | setState | setHistory | setResult => cases h
  | _ => rfl

/-- The same state, history and result. -/
structure AgentRun.Kept (x y : AgentRun) : Prop where
  fate : y.fate = x.fate
  history : y.history = x.history
  result : y.result = x.result

section
variable {d : Db} {r : RunID} {ws : List Write}

theorem Db.verdictsOf_applyAll (h : ∀ w ∈ ws, w.touches r = false) :
    (applyAll d ws).verdictsOf r = d.verdictsOf r :=
  applyAll_keeps (K := fun e : Db => e.verdictsOf r = d.verdictsOf r) (fun w hw e he => by
    have hw' := h w hw
    rw [← he]
    cases w with
    | insertEvent =>
      simp only [Write.touches] at hw'
      simp [Db.verdictsOf, Write.apply, hw']
    | _ => rfl) rfl

/-- What is not touched is kept. -/
theorem AgentRun.Kept.of_untouched {x : AgentRun} (hx : d.run? r = some x)
    (h : ∀ w ∈ ws, w.touches r = false) : ∃ y, (applyAll d ws).run? r = some y ∧ x.Kept y :=
  applyAll_keeps (K := fun e : Db => ∃ y, e.run? r = some y ∧ x.Kept y) (fun w hw e he => by
    obtain ⟨y, hy, hkept⟩ := he
    have hw' := h w hw
    rw [tables_apply, Db.run?_apply, hy]
    cases w with
    | setState r' _ _ _ | setHistory r' _ _ | setResult r' _ =>
      have hne : r ≠ r' := by simpa [Write.touches] using hw'
      exact ⟨y, by simp [Write.onRun, hne], hkept⟩
    | requestCancel r' t =>
      by_cases hr : r = r'
      · let z : AgentRun := { y with cancelRequestedAt := y.cancelRequestedAt.or (some t) }
        exact ⟨z, by simp [Write.onRun, hr, z], hkept.fate, hkept.history, hkept.result⟩
      · exact ⟨y, by simp [Write.onRun, hr], hkept⟩
    | _ => exact ⟨y, by simp [Write.onRun], hkept⟩) ⟨x, hx, rfl, rfl, rfl⟩

end

namespace Protocol

open Loop

variable {cfg : Settings} {me : Part} {first : Bool} {v d : Db} {debt debt' : Debt}
  {ws ws₀ : List Write} {r : RunID}

theorem dead_of_untouched (hr : Dead v r) (h : ∀ w ∈ ws, w.touches r = false) :
    Dead (applyAll v ws) r := by
  obtain ⟨s, hs, hdead⟩ := hr
  obtain ⟨x, hx, rfl⟩ := Option.map_eq_some_iff.mp hs
  obtain ⟨y, hy, hkept⟩ := AgentRun.Kept.of_untouched hx h
  have hstate : y.state = x.state := congrArg Fate.state hkept.fate
  exact ⟨y.state, Db.stateOf_of_run hy, by rw [hstate, hdead]⟩

/-- Acts that belong to no step and finish no run leave a finished run alone. -/
theorem Act.untouched (h : Act cfg me.still first v debt ws debt') (hr : Dead v r) :
    ∀ w ∈ ws, w.touches r = false := by
  obtain ⟨s, hs, hdead⟩ := hr
  obtain ⟨y, hy, rfl⟩ := Option.map_eq_some_iff.mp hs
  have hne : ∀ {r' : RunID} {x : AgentRun}, v.run? r' = some x → x.state.dead = false → r ≠ r' := by
    rintro r' x hx hx' rfl
    cases hx.symm.trans hy
    rw [hdead] at hx'
    cases hx'
  cases h with
  | quiet hq => simpa using Write.touches_quiet hq
  | @resume _ w x now p _ e _ _ _ hp hterm _ he =>
    have hne := hne hp (RunState.dead_of_not_terminal hterm)
    rw [← Db.run?_id hp] at hne
    simp [reopening, Write.touches, hne, EventPayload.verdict?_of_routine he]
  | @create x _ e _ hx _ _ _ _ _ _ he =>
    have hne : r ≠ x.id := by
      rintro rfl
      rw [hx] at hy
      cases hy
    simp [Write.touches, hne, EventPayload.verdict?_of_routine he]
  | claim hx hs => simp [Write.touches, hne hx (by simp [hs, RunState.dead])]
  | answer hx hs _ he =>
    have hne := hne hx (by rcases hs with hs | hs <;> simp [hs, RunState.dead])
    simp [reopening, Write.touches, hne, EventPayload.verdict?_of_routine he]
  | closeWait | claimWait | consume | requestCancel => simp [Write.touches]
  | addMember hopens => exact hopens.elim
  | openWait hjob | step _ hjob | proceed hjob | park hjob | complete hjob => cases hjob
  | finish _ hends | announce hends => cases hends
  | compact _ hcopy => cases hcopy

theorem ActsFrom.untouched (h : ActsFrom cfg me.still d ws₀ debt ws debt')
    (hr : Dead (applyAll d ws₀) r) : ∃ ws', ws = ws₀ ++ ws' ∧ ∀ w ∈ ws', w.touches r = false := by
  induction h with
  | nil => exact ⟨[], by simp⟩
  | snoc _ hact ih =>
    obtain ⟨ws', rfl, hws'⟩ := ih
    have hdead : Dead (applyAll d (ws₀ ++ ws')) r := by
      rw [applyAll_append]
      exact dead_of_untouched hr hws'
    refine ⟨_, List.append_assoc _ _ _, fun w hw => ?_⟩
    rcases List.mem_append.mp hw with hw | hw
    · exact hws' w hw
    · exact hact.untouched hdead w hw

end Protocol

end Ultracore
