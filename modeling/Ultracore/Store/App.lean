-- SUMMARY: Programs over the store as machines, what no transaction changes, and the explanation by serial runs.
import Ultracore.Store.Tx
import Ultracore.Txn.Span

/-!
# Programs over the store

An `App` is any set of processes whose transactions are `Tx` bodies. Because a `Tx`
holds the locks of the rows it writes, every interleaved run of an `App` commits what
some serial run commits, in the same order.

Rows are never deleted and keep their identity, so later tables extend earlier ones. A
read without a lock sees earlier tables: `sees J` says that those satisfy the invariant
`J` and are extended by the tables at commit.
-/

namespace Ultracore

open Txn

/-! ## What stays -/

/-- Two versions of one run. -/
structure AgentRun.Same (x y : AgentRun) : Prop where
  id : y.id = x.id
  tenantID : y.tenantID = x.tenantID
  sessionID : y.sessionID = x.sessionID
  parentRunID : y.parentRunID = x.parentRunID
  spawnKey : y.spawnKey = x.spawnKey
  policy : y.policy = x.policy
  cancel : x.cancelRequestedAt.isSome = true → y.cancelRequestedAt.isSome = true

namespace AgentRun.Same

variable {x y z : AgentRun}

theorem refl (x : AgentRun) : x.Same x := ⟨rfl, rfl, rfl, rfl, rfl, rfl, fun h => h⟩

theorem trans (h : x.Same y) (h' : y.Same z) : x.Same z where
  id := h'.id.trans h.id
  tenantID := h'.tenantID.trans h.tenantID
  sessionID := h'.sessionID.trans h.sessionID
  parentRunID := h'.parentRunID.trans h.parentRunID
  spawnKey := h'.spawnKey.trans h.spawnKey
  policy := h'.policy.trans h.policy
  cancel hx := h'.cancel (h.cancel hx)

end AgentRun.Same

/-- Two versions of one wait. -/
structure RunWait.Same (x y : RunWait) : Prop where
  id : y.id = x.id
  parentRunID : y.parentRunID = x.parentRunID
  stepIndex : y.stepIndex = x.stepIndex
  toolCallID : y.toolCallID = x.toolCallID

namespace RunWait.Same

variable {x y z : RunWait}

theorem refl (x : RunWait) : x.Same x := ⟨rfl, rfl, rfl, rfl⟩

theorem trans (h : x.Same y) (h' : y.Same z) : x.Same z where
  id := h'.id.trans h.id
  parentRunID := h'.parentRunID.trans h.parentRunID
  stepIndex := h'.stepIndex.trans h.stepIndex
  toolCallID := h'.toolCallID.trans h.toolCallID

end RunWait.Same

/-- Every row of `d` is still there in `d'`. -/
structure Db.Extends (d d' : Db) : Prop where
  session : ∀ {s : SessionID} {x : Session}, d.session? s = some x →
    ∃ y, d'.session? s = some y ∧ y.tenantID = x.tenantID
  run : ∀ {r : RunID} {x : AgentRun}, d.run? r = some x → ∃ y, d'.run? r = some y ∧ x.Same y
  steps : ∀ r : RunID, d.stepsOf r <+: d'.stepsOf r
  wait : ∀ {w : WaitID} {x : RunWait}, d.wait? w = some x → ∃ y, d'.wait? w = some y ∧ x.Same y
  members : ∀ w : WaitID, d.membersOf w <+: d'.membersOf w

namespace Db

theorem Extends.refl (d : Db) : d.Extends d where
  session h := ⟨_, h, rfl⟩
  run h := ⟨_, h, .refl _⟩
  steps _ := List.prefix_rfl
  wait h := ⟨_, h, .refl _⟩
  members _ := List.prefix_rfl

theorem Extends.trans {d₁ d₂ d₃ : Db} (h₁ : d₁.Extends d₂) (h₂ : d₂.Extends d₃) :
    d₁.Extends d₃ where
  session h := by
    obtain ⟨y, hy, ht⟩ := h₁.session h
    obtain ⟨z, hz, ht'⟩ := h₂.session hy
    exact ⟨z, hz, ht'.trans ht⟩
  run h := by
    obtain ⟨y, hy, hs⟩ := h₁.run h
    obtain ⟨z, hz, hs'⟩ := h₂.run hy
    exact ⟨z, hz, hs.trans hs'⟩
  steps r := (h₁.steps r).trans (h₂.steps r)
  wait h := by
    obtain ⟨y, hy, hs⟩ := h₁.wait h
    obtain ⟨z, hz, hs'⟩ := h₂.wait hy
    exact ⟨z, hz, hs.trans hs'⟩
  members w := (h₁.members w).trans (h₂.members w)

theorem extends_apply (d : Db) (w : Write) : d.Extends (w.apply d) where
  session {s x} h := by
    rw [session?_apply, h]
    cases w with
    | bumpSeq s' => by_cases hs : s = s' <;> simp [Write.onSession, hs]
    | insertSession => exact ⟨x, by simp [Write.onSession], rfl⟩
    | _ => exact ⟨x, rfl, rfl⟩
  run {r x} h := by
    rw [run?_apply, h]
    have hsame : x.Same x := .refl x
    cases w with
    | insertRun => exact ⟨x, by simp [Write.onRun], hsame⟩
    | setHistory r' _ _ | setState r' _ _ _ | setResult r' _ | requestCancel r' _ =>
      by_cases hr : r = r'
      · simp only [Write.onRun, hr, if_true, Option.map_some, Option.some.injEq, exists_eq_left']
        exact ⟨rfl, rfl, rfl, rfl, rfl, rfl, by simp +contextual⟩
      · simp [Write.onRun, hr, hsame]
    | _ => exact ⟨x, rfl, hsame⟩
  steps r := by
    rw [stepsOf_apply]
    cases w with
    | insertStep s => by_cases hr : r = s.runID <;> simp [Write.onSteps, hr]
    | _ => exact List.prefix_rfl
  wait {v x} h := by
    rw [wait?_apply, h]
    have hsame : x.Same x := .refl x
    cases w with
    | insertWait => exact ⟨x, by simp [Write.onWait], hsame⟩
    | closeWait v' _ _ | claimWait v' | setWaitResult v' _ | markResumed v' _ =>
      by_cases hv : v = v'
      · simp only [Write.onWait, hv, if_true, Option.map_some, Option.some.injEq, exists_eq_left']
        exact ⟨rfl, rfl, rfl, rfl⟩
      · simp [Write.onWait, hv, hsame]
    | _ => exact ⟨x, rfl, hsame⟩
  members v := by
    rw [membersOf_apply]
    cases w with
    | insertMember m => by_cases hv : v = m.waitID <;> simp [Write.onMembers, hv]
    | _ => exact List.prefix_rfl

theorem extends_applyAll (d : Db) (ws : List Write) : d.Extends (applyAll d ws) := by
  induction ws generalizing d with
  | nil => exact .refl d
  | cons w ws ih => exact (extends_apply d w).trans (ih _)

/-- What a transaction adds to the members is the same on earlier tables. -/
theorem membersOf_applyAll_subset {d d' : Db} {w : WaitID} (h : d.membersOf w ⊆ d'.membersOf w)
    (ws : List Write) : (applyAll d ws).membersOf w ⊆ (applyAll d' ws).membersOf w := by
  induction ws generalizing d d' with
  | nil => exact h
  | cons wr ws ih =>
    refine ih ?_
    rw [tables_apply, tables_apply, membersOf_apply, membersOf_apply]
    cases wr with
    | insertMember m =>
      by_cases hw : w = m.waitID
      · subst hw
        simpa [Write.onMembers] using List.Subset.trans h (List.subset_append_left _ [m])
      · simpa [Write.onMembers, hw] using h
    | _ => exact h

/-- The passing of time changes no row. -/
theorem extends_clock (d : Db) (t : Time) : d.Extends { d with clock := t } where
  session h := ⟨_, h, rfl⟩
  run h := ⟨_, h, .refl _⟩
  steps _ := List.prefix_rfl
  wait h := ⟨_, h, .refl _⟩
  members _ := List.prefix_rfl

end Db

/-- Tables of an earlier time that satisfy `J`, and agree with the tables at commit on
    what is locked. -/
def sees (J : Db → Prop) : List Row → Db → Db → Prop :=
  storeRegions.Sees fun d' d => J d' ∧ d'.Extends d

theorem respects_sees (J : Db → Prop) : Tx.Respects (sees J) := ⟨fun h => h.1⟩

/-! ## Programs -/

/-- Processes over the database. Every transaction they run is a `Tx`. -/
structure App (I P : Type) where
  body : P → I → Option (Tx P)
  onErr : P → I → Err → P
  canSpawn : Db → List (Option P) → P → Bool

/-- A configuration in which nobody is inside a transaction. -/
def AtRest {I P : Type} (c : Config Db Row Write Err I P) : Prop :=
  ∀ sl ∈ c.procs, sl.locks = [] ∧ ∀ p i s rest, sl ≠ .active p i s rest

namespace App

variable {I P : Type}

/-- The interleaved machine. The environment only lets time pass. -/
def machine (app : App I P) : Machine Db Row Write Err I Nat P where
  body p i := (app.body p i).map Tx.prog
  onErr := app.onErr
  broken := .sql
  canSpawn := app.canSpawn
  env ticks d := { d with clock := d.clock + ticks }

variable {app : App I P} {Ok : Config Db Row Write Err I P → Action I Nat P → Prop}
  {c₀ c c' : Config Db Row Write Err I P} {a : Action I Nat P} {log ws : List Write}

theorem machine_body {p : P} {i : I} {prog : Prog Db Row Write Err P} :
    app.machine.body p i = some prog ↔ ∃ x, app.body p i = some x ∧ prog = x.prog := by
  simp [machine, eq_comm (a := prog)]

theorem isolated (A : Sight) (d : Db) : app.machine.Isolated storeRegions A d := by
  refine Machine.isolated_of_guarded storeRegions_frames ?_ A d
  intro p i prog h
  obtain ⟨x, -, rfl⟩ := machine_body.mp h
  exact x.guarded

/-- No lock protects the clock. -/
theorem envOutside : app.machine.EnvOutside storeRegions := by
  intro v d r
  cases r <;> rfl

theorem serial_extends {A : Sight} {w w' : World Db P}
    (hs : app.machine.Serial A w a ws w') : w.db.Extends w'.db := by
  cases hs with
  | commit | lose => exact Db.extends_applyAll _ _
  | env => exact Db.extends_clock _ _
  | _ => exact .refl _

/-- Every interleaved run from a configuration at rest is explained by a serial run
    that commits the same writes and keeps the invariant `K`. The tables that its
    statements see satisfy `J`, as far as `K` guarantees it. The next step is invisible,
    or a serial step again. -/
theorem serial_run (Ok' : World Db P → Action I Nat P → Prop) (J : Db → Prop)
    (K : List Write → World Db P → Prop) (h₀ : AtRest c₀) (hK₀ : K [] c₀.world)
    (hK : ∀ {log w a ws w'}, K log w → Ok' w a → app.machine.Serial (sees J) w a ws w' →
      K (log ++ ws) w')
    (hJ : ∀ {log w}, K log w → J w.db) (hok : ∀ c a, Ok c a → Ok' c.world a)
    (hrun : app.machine.Run Ok c₀ log c) :
    app.machine.SerialRun (sees J) Ok' c₀.world log c.world ∧ K log c.world ∧
      ∀ {a ws c'}, app.machine.Step c a ws c' → (ws = [] ∧ c'.world = c.world) ∨
        app.machine.Serial (sees J) c.world a ws c'.world := by
  obtain ⟨hser, hKc, hexp⟩ := Machine.Run.serial_run (.of_idle h₀) envOutside
    (fun d => isolated _ d) hK₀ hK (fun h => ⟨hJ h, .refl _⟩)
    (fun _ hs hp => ⟨hp.1, hp.2.trans (serial_extends hs)⟩) hok hrun
  exact ⟨hser, hKc, fun hs => hs.serial hexp⟩

theorem step_extends_db (hs : app.machine.Step c a ws c') : c.db.Extends c'.db := by
  cases hs with
  | commit _ | lose _ => exact Db.extends_applyAll _ _
  | env => exact Db.extends_clock _ _
  | _ => exact .refl _

theorem run_extends_db (hrun : app.machine.Run Ok c log c') : c.db.Extends c'.db := by
  induction hrun with
  | refl => exact .refl _
  | step _ _ hs ih => exact ih.trans (step_extends_db hs)

/-- Every transaction in flight has a span. -/
theorem spans {j : Nat} {p : P} {i : I}
    {s : Local Row Write} {rest : Prog Db Row Write Err P} (h₀ : AtRest c₀)
    (hrun : app.machine.Run Ok c₀ log c) (hj : c.procs[j]? = some (.active p i s rest)) :
    ∃ cb, app.machine.Spans storeRegions Ok c₀ cb c j p i s rest :=
  Machine.Run.spans h₀ envOutside isolated hrun hj

end App

end Ultracore
