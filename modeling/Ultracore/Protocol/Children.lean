-- SUMMARY: Children of a run: one per spawn key, no more than the limit, and one job for the first step of each.
import Ultracore.Protocol.Order
import Ultracore.Protocol.Requests

/-!
# Children

Only one act adds a run. It comes with a job for step 0, which no other act enqueues: a
run that is taken up again has committed a step. A child is added while its parent is
locked, after its siblings were counted and its key was looked up.
-/

namespace Ultracore

open Txn

/-- Jobs for the first step of run `r`. -/
def Write.firstJob (r : RunID) : Write → Bool
  | .insertJob (.step job) _ _ => decide (job.runID = r ∧ job.stepIndex = 0)
  | _ => false

theorem Write.firstJob_quiet {w : Write} (h : w.quiet = true) (r : RunID) :
    w.firstJob r = false := by
  cases w with
  | insertJob job => cases job <;> first | rfl | cases h
  | _ => rfl

/-- Writes after which a run or a wait is in a state that takes a committed step. -/
def Write.advanced : Write → Bool
  | .insertWait _ => true
  | .insertRun x => decide (x.state = .awaiting ∨ x.state = .completed)
  | .setState _ st _ _ => decide (st = .awaiting ∨ st = .completed)
  | _ => false

theorem Write.advanced_quiet {w : Write} (h : w.quiet = true) : w.advanced = false := by
  cases w <;> first | rfl | cases h

namespace Db

variable {d : Db} {ws : List Write}

theorem childIDs_applyAll (h : ∀ w ∈ ws, w.creates = false) (r : RunID) :
    (applyAll d ws).childIDs r = d.childIDs r := by
  refine applyAll_same (f := fun e : Db => e.childIDs r) fun w hw e => ?_
  rw [tables_apply, childIDs_apply]
  cases w with
  | insertRun => cases h _ hw
  | _ => rfl

theorem mem_childIDs {r r' : RunID} :
    r' ∈ d.childIDs r ↔ ∃ x ∈ d.runs, x.parentRunID = some r ∧ x.id = r' := by
  simp [childIDs, and_assoc]

/-- Whether run `r` is stored. -/
def stored (d : Db) (r : RunID) : Bool := (d.run? r).isSome

theorem stored_applyAll (h : ∀ w ∈ ws, w.creates = false) (r : RunID) :
    (applyAll d ws).stored r = d.stored r := by
  rw [stored, stored, Bool.eq_iff_iff, Option.isSome_iff_ne_none, Option.isSome_iff_ne_none,
    ne_eq, ne_eq, run?_none_applyAll h]

/-- No run was spawned under a key that is not in the index. -/
theorem spawnKey_ne_of_spawned {t : TenantID} {key : String} (h : d.spawned? t key = none)
    (hkey : key ≠ "") {r : RunID} {y : AgentRun} (hy : d.run? r = some y) (ht : y.tenantID = t) :
    y.spawnKey ≠ key := by
  intro hk
  have hnone := List.find?_eq_none.mp (Option.map_eq_none_iff.mp h) y (List.mem_of_find?_eq_some hy)
  simp [ht, hk, hkey] at hnone

end Db

namespace Protocol

open Loop

variable {cfg : Settings} {me : Part} {first : Bool} {v d : Db} {debt debt' : Debt}
  {ws : List Write} {counts : Write → Bool} {done : Db → Bool} {x : AgentRun}

/-! ## Keys and limits -/

/-- Spawn keys are unique, and no run has more children than it may have. -/
structure Families (v : Db) : Prop where
  keys : ∀ {r r' : RunID} {x y : AgentRun}, v.run? r = some x → v.run? r' = some y →
    x.spawnKey ≠ "" → y.spawnKey = x.spawnKey → y.tenantID = x.tenantID → r' = r
  capped : ∀ {r : RunID} {p : AgentRun}, v.run? r = some p → v.childIDs r ≠ [] →
    ((v.childIDs r).length : Int) ≤ p.policy.maxChildren

theorem Families.uncreated (h : Families v) (hws : ∀ w ∈ ws, w.creates = false) :
    Families (applyAll v ws) where
  keys hx hy hne hk ht := by
    obtain ⟨x₀, hx₀, hsx⟩ := Db.run_before hws hx
    obtain ⟨y₀, hy₀, hsy⟩ := Db.run_before hws hy
    refine h.keys hx₀ hy₀ ?_ ?_ ?_
    · rwa [← hsx.spawnKey]
    · rw [← hsy.spawnKey, hk, hsx.spawnKey]
    · rw [← hsy.tenantID, ht, hsx.tenantID]
  capped hp hc := by
    obtain ⟨p₀, hp₀, hs⟩ := Db.run_before hws hp
    rw [Db.childIDs_applyAll hws] at hc ⊢
    rw [hs.policy]
    exact h.capped hp₀ hc

/-- Parents are stored. -/
theorem stored_parent (hv : Integrity cfg v) {r p : RunID} (hx : v.run? r = some x)
    (hp : x.parentRunID = some p) : ∃ y, v.run? p = some y := by
  cases hv.lineage hx with
  | root hnone => simp [hp] at hnone
  | child hr hparent =>
    cases hp.symm.trans hr
    exact ⟨_, hparent⟩

theorem parent_of_childIDs (hv : Integrity cfg v) {r : RunID} (h : v.childIDs r ≠ []) :
    ∃ p, v.run? r = some p := by
  obtain ⟨r', hr'⟩ := List.exists_mem_of_ne_nil _ h
  obtain ⟨x, hx, hp, -⟩ := Db.mem_childIDs.mp hr'
  exact stored_parent hv (Db.run?_of_mem hv.runIDs hx) hp

theorem Families.insertRun (h : Families v) (hv : Integrity cfg v)
    (hnew : v.run? x.id = none) (hfrom : Descends v x)
    (hroom : ∀ r, x.parentRunID = some r → Room v r x) : Families (applyAll v [Write.insertRun x]) := by
  have hrun : ∀ r, (applyAll v [Write.insertRun x]).run? r =
      if r = x.id then some x else v.run? r := by
    intro r
    by_cases hr : r = x.id
    · simp [hr, hnew, Write.onRun]
    · simp [hr, Write.onRun]
  have hfresh : x.spawnKey ≠ "" → ∀ {r : RunID} {y : AgentRun}, v.run? r = some y →
      y.tenantID = x.tenantID → y.spawnKey ≠ x.spawnKey := by
    intro hne r y hy ht
    cases hfrom with
    | root _ hempty => exact absurd hempty hne
    | child hp => exact Db.spawnKey_ne_of_spawned (hroom _ hp).fresh hne hy ht
  refine ⟨?_, ?_⟩
  · intro r r' y z hy hz hne hk ht
    rw [hrun] at hy hz
    split at hy <;> split at hz
    · simp_all
    · cases hy
      exact absurd hk (hfresh hne hz ht)
    · cases hz
      exact absurd hk.symm (hfresh (hk ▸ hne) hy ht.symm)
    · exact h.keys hy hz hne hk ht
  · intro r p hp hc
    rw [hrun] at hp
    by_cases hpar : x.parentRunID = some r
    · -- the new child: its parent had room, and is not the child itself
      have hchildren : (applyAll v [Write.insertRun x]).childIDs r = v.childIDs r ++ [x.id] := by
        simp [Write.onChildren, hpar]
      have hne : r ≠ x.id := by
        rintro rfl
        cases hfrom with
        | root hnone => simp [hpar] at hnone
        | child hp' hparent =>
          cases hpar.symm.trans hp'
          simp [hnew] at hparent
      rw [if_neg hne] at hp
      have hcount := (hroom r hpar).count p hp
      rw [hchildren, List.length_append, List.length_singleton]
      omega
    · have hchildren : (applyAll v [Write.insertRun x]).childIDs r = v.childIDs r := by
        simp [Write.onChildren, hpar]
      rw [hchildren] at hc ⊢
      have hne : r ≠ x.id := by
        rintro rfl
        obtain ⟨q, hq⟩ := parent_of_childIDs hv hc
        simp [hnew] at hq
      rw [if_neg hne] at hp
      exact h.capped hp hc

/-- An act adds no run, or it adds one with its first job, and its parent has room for it. -/
theorem Act.creation (h : Act cfg me first v debt ws debt') :
    (∀ w ∈ ws, w.creates = false) ∨ ∃ x rest at_, ws = .insertRun x :: rest ∧
      (∀ w ∈ rest, w.creates = false) ∧
      .insertJob (.step ⟨x.id, x.tenantID, x.sessionID, 0⟩) at_ .create ∈ rest ∧
      v.run? x.id = none ∧ Descends v x ∧ ∀ r, x.parentRunID = some r → Room v r x := by
  cases h with
  | quiet hq => exact .inl (by simpa using Write.creates_quiet hq)
  | @create _ _ _ at_ hnew _ _ _ _ hfrom hroom =>
    exact .inr ⟨_, _, at_, rfl, by simp [Write.creates], by simp, hnew, hfrom, hroom⟩
  | step _ _ _ _ _ _ _ _ _ _ hq =>
    exact .inl (forall_stepWrites hq Write.creates_quiet rfl rfl rfl)
  | _ => exact .inl (by simp [reopening, Write.creates])

theorem Act.families (h : Act cfg me first v debt ws debt') (hv : Integrity cfg v)
    (hf : Families v) : Families (applyAll v ws) := by
  rcases h.creation with hws | ⟨x, rest, _, rfl, hrest, -, hnew, hfrom, hroom⟩
  · exact hf.uncreated hws
  · rw [← List.singleton_append, applyAll_append]
    exact (hf.insertRun hv hnew hfrom hroom).uncreated hrest

theorem ActsFrom.families (h : Acts cfg me d ws debt) (hd : Integrity cfg d) (hf : Families d) :
    Families (applyAll d ws) := by
  induction h with
  | nil => exact hf
  | snoc hacts hact ih =>
    rw [applyAll_append]
    exact hact.families (hacts.integrity hd) ih

/-! ## First jobs -/

/-- A run that is parked or completed, or waits, has committed a step; so has one whose
    step has no successor yet. -/
structure Rooted (v : Db) (debt : Debt) : Prop where
  owed : ∀ r i, debt = some (r, .successor i) → v.stepsOf r ≠ []
  state : ∀ r s, v.stateOf r = some s → s = .awaiting ∨ s = .completed → v.stepsOf r ≠ []
  wait : ∀ w x, v.wait? w = some x → v.stepsOf x.parentRunID ≠ []

theorem stepsOf_ne_nil {d' : Db} (h : d.Extends d') {r : RunID} (hr : d.stepsOf r ≠ []) :
    d'.stepsOf r ≠ [] := by
  intro hnil
  have hpre := h.steps r
  rw [hnil, List.prefix_nil] at hpre
  exact hr hpre

theorem Rooted.apply (h : Rooted v debt) {w : Write} (hw : w.advanced = false) :
    Rooted (w.apply v) debt where
  owed r i hri := stepsOf_ne_nil (Db.extends_apply v w) (h.owed r i hri)
  state r s hs hadv := by
    refine stepsOf_ne_nil (Db.extends_apply v w) (h.state r s ?_ hadv)
    rw [Db.stateOf_apply] at hs
    cases w with
    | insertRun =>
      simp only [Write.advanced, decide_eq_false_iff_not] at hw
      simp only [Write.onState, Option.or_eq_some_iff] at hs
      rcases hs with hs | ⟨-, hs⟩
      · exact hs
      · split at hs
        · exact absurd (Option.some.inj hs ▸ hadv) hw
        · cases hs
    | setState =>
      simp only [Write.advanced, decide_eq_false_iff_not] at hw
      simp only [Write.onState] at hs
      split at hs
      · obtain ⟨_, -, rfl⟩ := Option.map_eq_some_iff.mp hs
        exact absurd hadv hw
      · exact hs
    | _ => exact hs
  wait x y hy := by
    have hsteps : ∀ z, v.wait? x = some z → z.parentRunID = y.parentRunID →
        (w.apply v).stepsOf y.parentRunID ≠ [] := fun z hz hp =>
      stepsOf_ne_nil (Db.extends_apply v w) (hp ▸ h.wait x z hz)
    rw [Db.wait?_apply] at hy
    cases w with
    | insertWait => cases hw
    | closeWait x' _ _ | claimWait x' | setWaitResult x' _ | markResumed x' _ =>
      simp only [Write.onWait] at hy
      split at hy
      · obtain ⟨z, hz, rfl⟩ := Option.map_eq_some_iff.mp hy
        exact hsteps z hz rfl
      · exact hsteps y hy rfl
    | _ => exact hsteps y hy rfl

theorem Rooted.unadvanced (h : Rooted v debt) (hws : ∀ w ∈ ws, w.advanced = false) :
    Rooted (applyAll v ws) debt :=
  applyAll_keeps (K := fun e : Db => Rooted e debt) (fun w hw _ he => he.apply (hws w hw)) h

/-- A state is only set to one that takes a step where the run has one. -/
theorem Rooted.setState (h : Rooted v debt) {r : RunID} (hr : v.stepsOf r ≠ []) (st : RunState)
    (reason message : String) : Rooted (applyAll v [Write.setState r st reason message]) debt where
  owed r' i hri := stepsOf_ne_nil (Db.extends_applyAll v _) (h.owed r' i hri)
  state r' s hs hadv := by
    refine stepsOf_ne_nil (Db.extends_applyAll v _) ?_
    by_cases hne : r' = r
    · exact hne ▸ hr
    · exact h.state r' s (by simpa [Write.onState, hne] using hs) hadv
  wait w x hx := stepsOf_ne_nil (Db.extends_applyAll v _) (h.wait w x (by simpa [Write.onWait] using hx))

theorem Rooted.insertWait (h : Rooted v debt) {w : RunWait} (hw : v.stepsOf w.parentRunID ≠ []) :
    Rooted (applyAll v [Write.insertWait w]) debt where
  owed r i hri := stepsOf_ne_nil (Db.extends_applyAll v _) (h.owed r i hri)
  state r s hs hadv := by
    refine stepsOf_ne_nil (Db.extends_applyAll v _) (h.state r s ?_ hadv)
    simpa [Write.onState] using hs
  wait x y hy := by
    refine stepsOf_ne_nil (Db.extends_applyAll v _) ?_
    have hy : (v.wait? x).or (if x = w.id then some w else none) = some y := by
      simpa [Write.onWait] using hy
    rcases Option.or_eq_some_iff.mp hy with hy | ⟨-, hy⟩
    · exact h.wait x y hy
    · split at hy
      · cases hy
        exact hw
      · cases hy

theorem Act.rooted (h : Act cfg me first v debt ws debt') (hr : Rooted v debt) :
    Rooted (applyAll v ws) debt' := by
  -- what is owed afterwards is no step of another run
  have hless : (∀ w ∈ ws, w.advanced = false) →
      (∀ r i, debt' = some (r, .successor i) → debt = some (r, .successor i)) →
      Rooted (applyAll v ws) debt' := fun hws hdebt =>
    have hkept := hr.unadvanced hws
    ⟨fun r i hri => hkept.owed r i (hdebt r i hri), hkept.state, hkept.wait⟩
  cases h with
  | quiet hq => exact hr.unadvanced (by simpa using Write.advanced_quiet hq)
  | @openWait job w p k _ _ hp =>
    exact hr.insertWait (by rw [hp]; exact hr.owed _ k rfl)
  | addMember | closeWait | claimWait | consume => exact hr.unadvanced (by simp [Write.advanced])
  | resume =>
    refine hless (by simp [reopening, Write.advanced]) fun r i hri => ?_
    exact (Option.filter_eq_some_iff.mp hri).1
  | create _ hs => exact hless (by simp [Write.advanced, hs]) fun _ _ h => h
  | @finish _ _ st _ _ hst =>
    refine hless ?_ (by simp)
    cases st <;> simp_all [Write.advanced, RunState.dead]
  | @step job copy x h new st q e _ _ _ _ _ _ _ hrun _ _ hq _ =>
    have hadv : ∀ w ∈ [Write.setHistory job.runID h .step, .insertStep st] ++ q ++
        [.bumpSeq e.sessionID, .insertEvent e], w.advanced = false :=
      forall_stepWrites hq Write.advanced_quiet rfl rfl rfl
    have hbefore : Rooted _ none := ⟨by simp, hr.state, hr.wait⟩
    have hkept := hbefore.unadvanced hadv
    refine ⟨fun r i hri => ?_, hkept.state, hkept.wait⟩
    obtain ⟨rfl, -⟩ : _ = r ∧ _ = i := by simpa using hri
    rw [applyAll_append, applyAll_append]
    refine stepsOf_ne_nil (Db.extends_applyAll _ _) (stepsOf_ne_nil (Db.extends_applyAll _ _) ?_)
    simp [Write.onSteps, hrun]
  | @park job _ =>
    have hset := hr.setState (hr.owed _ _ rfl) .awaiting "" ""
    exact ⟨by simp, hset.state, hset.wait⟩
  | @complete job result _ _ _ =>
    have hset := hr.setState (hr.owed _ _ rfl) .completed "" ""
    have hadv : ∀ w ∈ [Write.setResult job.runID result], w.advanced = false := by
      simp [Write.advanced]
    have hresult := hset.unadvanced hadv
    rw [← applyAll_append] at hresult
    exact ⟨by simp, hresult.state, hresult.wait⟩
  | claim | requestCancel | announce | answer | compact | proceed =>
    exact hless (by simp [reopening, Write.advanced]) (by simp)

theorem ActsFrom.rooted (h : Acts cfg me d ws debt) (hd : Rooted d none) :
    Rooted (applyAll d ws) debt := by
  induction h with
  | nil => exact hd
  | snoc _ hact ih =>
    rw [applyAll_append]
    exact hact.rooted ih

/-- How often something happened in `ws` is how often `done` has become true. -/
def Exactly (counts : Write → Bool) (done : Db → Bool) (d : Db) (ws : List Write) : Prop :=
  ws.countP counts + (done d).toNat = (done (applyAll d ws)).toNat

theorem Exactly.append {ws' : List Write}
    (h : Exactly counts done d ws) (h' : Exactly counts done (applyAll d ws) ws') :
    Exactly counts done d (ws ++ ws') := by
  unfold Exactly at h h' ⊢
  rw [List.countP_append, applyAll_append]
  omega

theorem Exactly.of_none (hws : ∀ w ∈ ws, counts w = false) (hdone : done (applyAll d ws) = done d) :
    Exactly counts done d ws := by
  have hcount : ws.countP counts = 0 := List.countP_eq_zero.mpr (by simpa using hws)
  rw [Exactly, hcount, hdone, Nat.zero_add]

/-- A run that has committed a step is not given its first one. -/
theorem firstJob_reopening (hv : Ordered v) {p : AgentRun} (hp : v.stepsOf p.id ≠ []) (r : RunID)
    (h : Envelope) (e : Event) (at_ : Time) (origin : Origin) :
    ∀ w ∈ reopening v p h e at_ origin, w.firstJob r = false := by
  have hnext : nextOf v p.id ≠ 0 := by
    rw [hv.nextOf]
    simpa using hp
  simp [reopening, Write.firstJob, hnext]

theorem Act.first_once (h : Act cfg me first v debt ws debt') (hv : Ordered v) (hr : Rooted v debt)
    (r : RunID) : Exactly (Write.firstJob r) (Db.stored · r) v ws := by
  have hnone : (∀ w ∈ ws, w.firstJob r = false) → (∀ w ∈ ws, w.creates = false) →
      Exactly (Write.firstJob r) (Db.stored · r) v ws := fun hws hcreates =>
    .of_none hws (Db.stored_applyAll hcreates r)
  cases h with
  | quiet hq =>
    exact hnone (by simpa using Write.firstJob_quiet hq r) (by simpa using Write.creates_quiet hq)
  | @create x s e at_ hnew =>
    by_cases hx : r = x.id
    · simp [Exactly, Write.firstJob, Db.stored, Write.onRun, hx, hnew]
    · simp [Exactly, Write.firstJob, Db.stored, Write.onRun, hx, Ne.symm hx]
  | @resume _ w x now p h e at_ hw _ hp =>
    have hsteps : v.stepsOf p.id ≠ [] := by
      rw [Db.run?_id hp]
      exact hr.wait w x hw
    exact hnone (by simpa [Write.firstJob] using firstJob_reopening hv hsteps r h e at_ (.resume w))
      (by simp [reopening, Write.creates])
  | @answer x h e at_ hx hs =>
    have hsteps : v.stepsOf x.id ≠ [] := hr.state _ _ (Db.stateOf_of_run hx) hs
    exact hnone (firstJob_reopening hv hsteps r h e at_ .answer)
      (by simp [reopening, Write.creates])
  | step _ _ _ _ _ _ _ _ _ _ hq =>
    refine hnone ?_ ?_
    · exact forall_stepWrites hq (fun h => Write.firstJob_quiet h r) rfl rfl rfl
    · exact forall_stepWrites hq Write.creates_quiet rfl rfl rfl
  | _ => exact hnone (by simp [Write.firstJob]) (by simp [Write.creates])

theorem ActsFrom.first_once (h : Acts cfg me d ws debt) (hd : Ordered d) (hr : Rooted d none)
    (hme : InTurn d me) (r : RunID) : Exactly (Write.firstJob r) (Db.stored · r) d ws := by
  induction h with
  | nil => simp [Exactly]
  | snoc hacts hact ih =>
    exact ih.append (hact.first_once (hacts.ordered hd hme) (hacts.rooted hr) r)

/-- The transaction that adds a run gives it its first job. -/
theorem ActsFrom.created (h : Acts cfg me d ws debt) (hx : .insertRun x ∈ ws) :
    ∃ at_, .insertJob (.step ⟨x.id, x.tenantID, x.sessionID, 0⟩) at_ .create ∈ ws := by
  induction h with
  | nil => cases hx
  | snoc _ hact ih =>
    rcases List.mem_append.mp hx with hx | hx
    · obtain ⟨at_, hjob⟩ := ih hx
      exact ⟨at_, List.mem_append_left _ hjob⟩
    · rcases hact.creation with hws | ⟨y, rest, at_, rfl, hrest, hjob, -⟩
      · cases hws _ hx
      · rcases List.mem_cons.mp hx with hx | hx
        · cases hx
          exact ⟨at_, by simp [hjob]⟩
        · cases hrest _ hx

end Protocol

end Ultracore
