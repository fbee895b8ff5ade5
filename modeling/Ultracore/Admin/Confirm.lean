-- SUMMARY: A command acts on the state that its operator has confirmed, if nobody else changes it after the probe.
import Ultracore.Admin.Commands
import Ultracore.Txn.Steps

/-!
# Confirmed commands

`Run` compares the preview hash with a probe of the live state. The closure of a command then
reads its row again, and its transaction once more under a lock. Neither looks at the hash. Here
the closure takes its three steps one by one, with other writers in between.
-/

namespace Ultracore.Admin

open Txn

/-! ## Steps of a closure -/

/-- A call of a command that previews a run or a resource. -/
structure RowCall where
  process : Nat
  caller : Meta
  command : RowCommand
  opts : Option CommandOptions

def RowCall.call (deps : Deps) (c : RowCall) : Call Live :=
  ⟨c.process, c.caller, c.command.command, c.opts, c.command.targets, c.command.exec deps c.caller⟩

/-- The summary of the row that the call is about, as it is. -/
def RowCall.preview (deps : Deps) (c : RowCall) (s : Live) : Option Fields :=
  c.command.preview deps c.caller s

/-- How far a call has come: in `Run`, or in the closure, before its transaction or after it. -/
inductive Stage where
  | run (ph : Phase)
  | acting (r : Result) (k : Going)
  | reading (r : Result) (k : Going)

def Stage.over : Stage → Bool
  | .run ph => ph.over
  | _ => false

/-- The closure has failed after it has read its row. -/
def Going.failed (k : Going) (message : String) : Stage :=
  .run (.noting (some k.before) none .failed message (.error message))

/-- What the closure reports, from the state it reads last. -/
def Going.report (k : Going) (s : Option Live) : Report :=
  { before := some k.before, after := some (k.after s), effects := k.effects }

namespace Engine

variable (e : Engine) (deps : Deps)

/-- The closure has executed its command. -/
def executes (j : Nat) (c : RowCall) (w : Shared Live) (r : Result) (rep : Report) :
    Shared Live × Stage :=
  let done : Execution :=
    ⟨j, c.command.command, c.command.targets, (c.call deps).idem, rep.before, rep.after,
      outcomeOf rep.after⟩
  ({ w with executed := w.executed ++ [done] }, .run (.recording (r.executed rep)))

/-- The next step of call number `j`. -/
def nextStage (j : Nat) (c : RowCall) (w : Shared Live) : Stage → Option (Shared Live × Stage)
  | .run (.executing r) =>
    match c.command.look deps c.caller false w.live with
    | .failed message rep =>
      some (w, .run (.noting rep.before rep.after .failed message (.error message)))
    | .returns rep => some (executes deps j c w r rep)
    | .goes k => some (w, .acting r k)
  | .run ph => (e.next j (c.call deps) w ph).map fun y => (y.1, .run y.2)
  | .acting r k =>
    match k.tx w.live with
    | .error message => some (w, k.failed message)
    | .ok s => some ({ w with live := s }, .reading r k)
  | .reading r k => some (executes deps j c w r (k.report (some w.live)))

/-- The statement of the next step fails. The last read of a closure may fail unnoticed. -/
def faultStage (message : String) (j : Nat) (c : RowCall) (w : Shared Live) :
    Stage → Option (Shared Live × Stage)
  | .run .probing | .run (.executing _) =>
    some (w, .run (.noting none none .failed message (.error message)))
  | .run ph => (fault message (c.call deps) w ph).map fun y => (y.1, .run y.2)
  | .acting _ k => some (w, k.failed message)
  | .reading r k => some (executes deps j c w r (k.report none))

/-- The transaction commits, and the call learns of an error. -/
def loseStage (message : String) (w : Shared Live) : Stage → Option (Shared Live × Stage)
  | .acting _ k =>
    match k.tx w.live with
    | .error _ => none
    | .ok s => some ({ w with live := s }, k.failed message)
  | _ => none

/-- Go on until the closure has returned. -/
def uninterrupted (j : Nat) (c : RowCall) (y : Shared Live × Stage) :
    Option (Shared Live × Stage) :=
  match y.2 with
  | .run _ => some y
  | .reading _ _ => e.nextStage deps j c y.1 y.2
  | .acting _ _ =>
    (e.nextStage deps j c y.1 y.2).bind fun z =>
      match z.2 with
      | .run _ => some z
      | _ => e.nextStage deps j c z.1 z.2

/-- Where nothing comes between the steps of a closure, a call goes on as `next` says. -/
theorem nextStage_uninterrupted (j : Nat) (c : RowCall) (w : Shared Live) (ph : Phase) :
    (e.nextStage deps j c w (.run ph)).bind (e.uninterrupted deps j c) =
      (e.next j (c.call deps) w ph).map fun y => (y.1, .run y.2) := by
  by_cases hph : ∃ r, ph = .executing r
  · obtain ⟨r, rfl⟩ := hph
    simp only [nextStage, next, RowCall.call, RowCommand.exec]
    cases c.command.look deps c.caller false w.live with
    | failed | returns => rfl
    | goes k =>
      simp only [Option.bind_some, uninterrupted, nextStage, Look.exec]
      cases k.tx w.live with
      | error => rfl
      | ok => rfl
  · have hrun : e.nextStage deps j c w (.run ph) =
        (e.next j (c.call deps) w ph).map fun y => (y.1, .run y.2) := by
      cases ph with
      | executing r => exact absurd ⟨r, rfl⟩ hph
      | _ => rfl
    rw [hrun]
    cases e.next j (c.call deps) w ph with
    | none | some => rfl

end Engine

/-! ## All calls -/

structure RowWorld where
  shared : Shared Live
  calls : List (RowCall × Stage) := []

/-- What can happen. Other writers change the live state in any way. -/
inductive Move where
  | call (c : RowCall)
  | advance (j : Nat)
  | fault (j : Nat) (message : String)
  | lose (j : Nat) (message : String)
  | crash (process : Nat)
  | change (s : Live)
  | tick (nanoseconds : Nat)

/-- The call that a step belongs to. -/
def Move.subject : Move → Option Nat
  | .advance j | .fault j _ | .lose j _ => some j
  | _ => none

namespace Engine

variable (e : Engine) (deps : Deps)

/-- Call `j` goes on by `f`. -/
def goOnRow (w : RowWorld) (j : Nat) (f : RowCall → Stage → Option (Shared Live × Stage)) :
    Option RowWorld :=
  (w.calls[j]?).bind fun x => (f x.1 x.2).map fun y => ⟨y.1, w.calls.set j (x.1, y.2)⟩

def stepRow (w : RowWorld) : Move → Option RowWorld
  | .call c => some { w with calls := w.calls ++ [(c, .run .entering)] }
  | .advance j => goOnRow w j fun c => e.nextStage deps j c w.shared
  | .fault j message => goOnRow w j fun c => faultStage deps message j c w.shared
  | .lose j message => goOnRow w j fun _ => loseStage message w.shared
  | .crash process =>
    some { w with
      shared := { w.shared with
        limiters := Function.update w.shared.limiters process (e.newLimiter w.shared.now) }
      calls := w.calls.map fun x =>
        if x.1.process = process ∧ x.2.over = false then (x.1, .run .dead) else x }
  | .change s => some { w with shared := { w.shared with live := s } }
  | .tick n => some { w with shared := { w.shared with now := w.shared.now + n } }

/-- No calls yet. -/
def startRows (s : Live) : RowWorld :=
  { shared := { live := s, limiters := fun _ => e.newLimiter 0 } }

end Engine

/-! ## What was confirmed -/

/-- The preview hash was compared, and the transaction is still to come. -/
def Stage.confirmed : Stage → Bool
  | .run (.executing _) | .acting _ _ => true
  | _ => false

/-- The row that the call is about hashes to what its operator has confirmed. -/
def Engine.Confirms (e : Engine) (deps : Deps) (c : RowCall) (s : Live) : Prop :=
  ∃ b, c.preview deps s = some b ∧
    e.previewHash c.command.command c.command.targets (some b) = (c.call deps).options.previewHash

/-- The step commits the transaction of call `j`. -/
def Engine.Mutates (e : Engine) (deps : Deps) (w : RowWorld) (m : Move) (w' : RowWorld) (j : Nat) :
    Prop :=
  e.stepRow deps w m = some w' ∧ (m = .advance j ∨ ∃ message, m = .lose j message) ∧
    ∃ c r k, w.calls[j]? = some (c, .acting r k) ∧ k.tx w.shared.live = .ok w'.shared.live

/-- The step leaves the rows alone that other calls have had confirmed. -/
def Engine.Undisturbed (e : Engine) (deps : Deps) (w : RowWorld) (m : Move) : Prop :=
  ∀ w', e.stepRow deps w m = some w' → ∀ (j : Nat) (c : RowCall) (st : Stage),
    w.calls[j]? = some (c, st) → st.confirmed = true → m.subject ≠ some j →
      c.preview deps w'.shared.live = c.preview deps w.shared.live

/-- Every call that is past the comparison is about a row that its operator has confirmed. -/
def Engine.AllConfirmed (e : Engine) (deps : Deps) (w : RowWorld) : Prop :=
  ∀ (j : Nat) (c : RowCall) (st : Stage), w.calls[j]? = some (c, st) → st.confirmed = true →
    e.Confirms deps c w.shared.live

namespace Engine

section
variable {S : Type} {e : Engine} {c : Call S} {j : Nat} {sh sh' : Shared S} {ph : Phase} {r : Result}

/-- A call gets past the comparison by a probe that it agrees with. -/
theorem next_executing (h : e.next j c sh ph = some (sh', .executing r)) :
    ∃ rep, c.exec true sh.live = (.ok (), rep, sh'.live) ∧
      e.previewHash c.command c.targets rep.before = c.options.previewHash := by
  cases ph with
  | probing =>
    simp only [next] at h
    split at h
    · cases h
    rename_i rep s hexec
    split at h
    · cases h
    split at h
    · cases h
    rename_i hhash
    cases h
    exact ⟨rep, hexec, (not_ne_iff.mp hhash).symm⟩
  | entering =>
    simp only [next] at h
    split at h
    · cases h
    split at h
    · cases h
    split at h
    · cases h
    split at h <;> cases h
  | looking | acquiring | colliding | recording | executing =>
    simp only [next] at h
    split at h <;> cases h
  | noting | returned | dead => cases h

end

section
variable {e : Engine} {deps : Deps} {c : RowCall} {j : Nat} {sh sh' : Shared Live} {st st' : Stage}
  {message : String}

/-- A step of a call itself. -/
theorem nextStage_confirms (h : e.nextStage deps j c sh st = some (sh', st'))
    (hst : st.confirmed = true → e.Confirms deps c sh.live) (hst' : st'.confirmed = true) :
    e.Confirms deps c sh'.live := by
  cases st with
  | acting =>
    simp only [nextStage] at h
    split at h <;> cases h <;> cases hst'
  | reading =>
    cases h
    cases hst'
  | run ph =>
    by_cases hph : ∃ r, ph = .executing r
    · obtain ⟨r, rfl⟩ := hph
      simp only [nextStage] at h
      split at h
      · cases h
        cases hst'
      · cases h
        cases hst'
      · cases h
        exact hst rfl
    · have hmap : (e.next j (c.call deps) sh ph).map (fun y => (y.1, Stage.run y.2)) =
          some (sh', st') := by
        cases ph with
        | executing r => exact absurd ⟨r, rfl⟩ hph
        | _ => exact h
      obtain ⟨⟨sh₁, ph'⟩, hnext, heq⟩ := Option.map_eq_some_iff.mp hmap
      cases heq
      cases ph' with
      | executing =>
        obtain ⟨rep, hexec, hhash⟩ := next_executing hnext
        obtain ⟨hlive, b, hpreview, hb⟩ := RowCommand.exec_probe hexec
        rw [hlive]
        rw [hb] at hhash
        exact ⟨b, hpreview, hhash⟩
      | _ => cases hst'

theorem faultStage_unconfirmed
    (h : faultStage deps message j c sh st = some (sh', st')) : st'.confirmed = false := by
  cases st with
  | acting | reading =>
    cases h
    rfl
  | run ph =>
    cases ph with
    | looking | noting | recording | colliding | probing | executing =>
      cases h
      rfl
    | _ => cases h

theorem loseStage_unconfirmed (h : loseStage message sh st = some (sh', st')) :
    st'.confirmed = false := by
  cases st with
  | acting =>
    simp only [loseStage] at h
    split at h <;> cases h
    rfl
  | _ => cases h

theorem goOnRow_eq_some {w w' : RowWorld} {f : RowCall → Stage → Option (Shared Live × Stage)}
    (h : goOnRow w j f = some w') : ∃ c st sh' st', w.calls[j]? = some (c, st) ∧
      f c st = some (sh', st') ∧ w' = ⟨sh', w.calls.set j (c, st')⟩ := by
  obtain ⟨⟨c, st⟩, hj, hmap⟩ := Option.bind_eq_some_iff.mp h
  obtain ⟨⟨sh', st'⟩, hf, rfl⟩ := Option.map_eq_some_iff.mp hmap
  exact ⟨c, st, sh', st', hj, hf, rfl⟩

/-- A step of call `j` keeps what the others have had confirmed, if it leaves their rows alone. -/
theorem AllConfirmed.goOn {w : RowWorld} {m : Move} (h : e.AllConfirmed deps w)
    (hok : e.Undisturbed deps w m) (hm : m.subject = some j)
    (hs : e.stepRow deps w m = some ⟨sh', w.calls.set j (c, st')⟩)
    (hown : st'.confirmed = true → e.Confirms deps c sh'.live) :
    e.AllConfirmed deps ⟨sh', w.calls.set j (c, st')⟩ := by
  intro i c' st hi hst
  rcases Machine.get_set_cases hi with ⟨rfl, heq⟩ | ⟨hne, hi⟩
  · cases heq
    exact hown hst
  · obtain ⟨b, hb, hhash⟩ := h i c' st hi hst
    have hsame := hok _ hs i c' st hi hst (by rw [hm]; exact fun heq => hne (Option.some.inj heq).symm)
    exact ⟨b, hsame.trans hb, hhash⟩

theorem AllConfirmed.step {w w' : RowWorld} {m : Move} (h : e.AllConfirmed deps w)
    (hok : e.Undisturbed deps w m) (hs : e.stepRow deps w m = some w') : e.AllConfirmed deps w' := by
  have hstep := hs
  cases m with
  | call =>
    cases hs
    intro i c' st hi hst
    rcases Machine.get_append_cases hi with hi | ⟨-, heq⟩
    · exact h i c' st hi hst
    · cases heq
      cases hst
  | advance j =>
    simp only [stepRow] at hs
    obtain ⟨c, st, sh', st', hj, hf, rfl⟩ := goOnRow_eq_some hs
    exact h.goOn hok rfl hstep (nextStage_confirms hf (h j c st hj))
  | fault | lose =>
    simp only [stepRow] at hs
    obtain ⟨c, st, sh', st', hj, hf, rfl⟩ := goOnRow_eq_some hs
    refine h.goOn hok rfl hstep fun hst' => ?_
    first | rw [faultStage_unconfirmed hf] at hst' | rw [loseStage_unconfirmed hf] at hst'
    cases hst'
  | crash =>
    cases hs
    intro i c' st hi hst
    rw [List.getElem?_map] at hi
    obtain ⟨⟨c, st₀⟩, hi, heq⟩ := Option.map_eq_some_iff.mp hi
    split at heq
    · cases heq
      cases hst
    · cases heq
      exact h i c' st hi hst
  | change =>
    cases hs
    intro i c st hi hst
    obtain ⟨b, hb, hhash⟩ := h i c st hi hst
    exact ⟨b, (hok _ hstep i c st hi hst (by simp [Move.subject])).trans hb, hhash⟩
  | tick =>
    cases hs
    exact h

end

end Engine

/-- In every run in which no step changes the summary of a row that another call has had
    confirmed: a step that commits the transaction of a command on a run or a resource acts on a
    row whose summary hashes, with the command and its targets, to the preview hash of the call. -/
theorem acts_on_confirmed_state (e : Engine) (deps : Deps) (s : Live) {w w' : RowWorld} {m : Move}
    (hrun : Steps (e.stepRow deps) (e.Undisturbed deps) (e.startRows s) w)
    {j : Nat} (hmutates : e.Mutates deps w m w' j) :
    ∃ c st b, w.calls[j]? = some (c, st) ∧ c.preview deps w.shared.live = some b ∧
      e.previewHash c.command.command c.command.targets (some b) =
        (c.call deps).options.previewHash := by
  have h₀ : e.AllConfirmed deps (e.startRows s) := fun i c st hi _ => by simp [Engine.startRows] at hi
  have hall : e.AllConfirmed deps w :=
    hrun.invariant h₀ fun h hok hs => h.step hok hs
  obtain ⟨-, -, c, r, k, hj, -⟩ := hmutates
  obtain ⟨b, hb, hhash⟩ := hall j c _ hj rfl
  exact ⟨c, _, b, hj, hb, hhash⟩

/-! ## A run that is to be cancelled -/

/-- An engine whose hash is the text that it is a hash of. -/
def openEngine : Engine where
  previewHash := previewHash id

def someRun : RunID := ⟨"run", by decide⟩

/-- A run of a session. -/
def oneRun (state : RunState) : Live where
  runs :=
    { sessions := [{ id := "session", tenantID := "tenant", lastSeq := 0 }]
      runs := [{
        id := someRun, sessionID := "session", tenantID := "tenant", parentRunID := none
        spawnKey := "", cohortID := "", cohortOrdinal := 0, policy := defaultRunPolicy
        actor := actorSystem, loopKind := "default", loopVersion := 1, prompt := "go"
        modelConfig := { provider := "provider", modelID := "model", credential := "key", fallbacks := [] }
        history := Envelope.initial "go", state := state }] }

/-- An operator cancels the run, which they have seen running. -/
def cancelRunning : RowCall where
  process := 0
  caller := { operatorID := "ops", operatorRole := .operator }
  command := .cancelRun someRun
  opts := some
    { reason := "stuck", idempotencyKey := "k"
      previewHash := previewHash id .cancelRun [("run_id", .text "run")]
        ((Admin.cancelRun someRun).preview (oneRun .running)) }

/-- The call gets as far as its transaction. -/
def beforeCancel : List Move := .call cancelRunning :: List.replicate 5 (.advance 0)

/-- Whether only call 0 is there, and takes the step. -/
def alone (w : RowWorld) (m : Move) : Bool :=
  w.calls.isEmpty || (decide (w.calls.length = 1) && decide (m.subject = some 0))

theorem Engine.undisturbed_of_alone {e : Engine} {deps : Deps} {w : RowWorld} {m : Move}
    (h : alone w m = true) : e.Undisturbed deps w m := by
  intro w' _ j c st hj _ hne
  obtain ⟨hlt, -⟩ := List.getElem?_eq_some_iff.mp hj
  simp only [alone, Bool.or_eq_true, List.isEmpty_iff, Bool.and_eq_true, decide_eq_true_eq] at h
  rcases h with h | ⟨hone, hm⟩
  · simp [h] at hlt
  · obtain rfl : j = 0 := by omega
    exact absurd hm hne

/-- Call `j`, if it is about to execute its transaction, and the state that this leaves. -/
def acting? (j : Nat) (w : RowWorld) : Option (RowCall × Live) :=
  match w.calls[j]? with
  | some (c, .acting _ k) => (k.tx w.shared.live).toOption.map fun s => (c, s)
  | _ => none

theorem mutates_of_acting {e : Engine} {deps : Deps} {w : RowWorld} {j : Nat} {c : RowCall}
    {s : Live} (h : acting? j w = some (c, s)) :
    ∃ st w', w.calls[j]? = some (c, st) ∧ e.Mutates deps w (.advance j) w' j ∧ w'.shared.live = s := by
  unfold acting? at h
  split at h
  · rename_i c' r k hj
    obtain ⟨s', htx, heq⟩ := Option.map_eq_some_iff.mp h
    cases heq
    have htx : k.tx w.shared.live = .ok s := by
      cases hk : k.tx w.shared.live with
      | error => simp [hk, Except.toOption] at htx
      | ok =>
        rw [hk] at htx
        cases htx
        rfl
    refine ⟨_, ⟨{ w.shared with live := s }, w.calls.set j (c, .reading r k)⟩, hj, ⟨?_, .inl rfl,
      c, r, k, hj, htx⟩, rfl⟩
    simp [Engine.stepRow, Engine.goOnRow, hj, Engine.nextStage, htx]
  · cases h

theorem acts_on_confirmed_state_running :
    ∃ w w', Steps (openEngine.stepRow {}) (openEngine.Undisturbed {})
        (openEngine.startRows (oneRun .running)) w ∧
      openEngine.Mutates {} w (.advance 0) w' 0 ∧ ∃ c st b, w.calls[0]? = some (c, st) ∧
        c.preview {} w.shared.live = some b ∧
        openEngine.previewHash c.command.command c.command.targets (some b) =
          (c.call {}).options.previewHash := by
  have hplay : ((playSteps (openEngine.stepRow {}) alone (openEngine.startRows (oneRun .running))
      beforeCancel).bind (acting? 0)).isSome = true := by decide +kernel
  obtain ⟨⟨c, s⟩, hplay⟩ := Option.isSome_iff_exists.mp hplay
  obtain ⟨w, hw, hacting⟩ := Option.bind_eq_some_iff.mp hplay
  have hrun : Steps (openEngine.stepRow {}) (openEngine.Undisturbed {})
      (openEngine.startRows (oneRun .running)) w :=
    (playSteps_run hw).mono fun _ _ => Engine.undisturbed_of_alone
  obtain ⟨-, w', -, hmutates, -⟩ := mutates_of_acting hacting
  exact ⟨w, w', hrun, hmutates, acts_on_confirmed_state openEngine {} _ hrun hmutates⟩

/-- The run comes to await an answer after the probe. The call cancels it at once, although its
    operator has confirmed the cancellation of a running one. -/
theorem acts_on_confirmed_state_awaiting :
    Function.Injective (id : String → String) ∧ openEngine.previewHash = previewHash id ∧
    ∃ w w' c st b, Steps (openEngine.stepRow {}) (fun _ _ => True)
        (openEngine.startRows (oneRun .running)) w ∧ openEngine.Mutates {} w (.advance 0) w' 0 ∧
      w.calls[0]? = some (c, st) ∧ c.preview {} w.shared.live = some b ∧
      (w'.shared.live.run? someRun).map AgentRun.state = some .cancelled ∧
      openEngine.previewHash c.command.command c.command.targets (some b) ≠
        (c.call {}).options.previewHash := by
  refine ⟨Function.injective_id, rfl, ?_⟩
  have hplay : ((playSteps (openEngine.stepRow {}) (fun _ _ => true)
      (openEngine.startRows (oneRun .running)) (beforeCancel ++ [.change (oneRun .awaiting)])).bind
      fun w => (acting? 0 w).bind fun x => (x.1.preview {} w.shared.live).map fun b =>
        ((x.2.run? someRun).map AgentRun.state,
          decide (openEngine.previewHash x.1.command.command x.1.command.targets (some b) =
            (x.1.call {}).options.previewHash))) = some (some .cancelled, false) := by decide +kernel
  obtain ⟨w, hw, hplay⟩ := Option.bind_eq_some_iff.mp hplay
  obtain ⟨⟨c, s⟩, hacting, hplay⟩ := Option.bind_eq_some_iff.mp hplay
  obtain ⟨b, hb, hplay⟩ := Option.map_eq_some_iff.mp hplay
  obtain ⟨hstate, hhash⟩ := Prod.mk.inj hplay
  obtain ⟨st, w', hj, hmutates, hlive⟩ := mutates_of_acting hacting
  exact ⟨w, w', c, st, b, (playSteps_run hw).mono fun _ _ _ => trivial, hmutates, hj, hb,
    by rw [hlive]; exact hstate, of_decide_eq_false hhash⟩

end Ultracore.Admin
