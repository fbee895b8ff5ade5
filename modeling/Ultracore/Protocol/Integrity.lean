-- SUMMARY: Referential integrity of the tables, and that every sequence of acts keeps it.
import Ultracore.Protocol.Acts
import Ultracore.Store.App

/-!
# Referential integrity

What the schema and the code together guarantee about references between rows: runs are
in sessions of their tenant, children in the session of their parent, waits have a parent
and an id made from it, members are runs of the parent's tenant and session, steps belong
to runs.

Reads without a lock see earlier tables, which satisfy this as well. That is what rules
out "not found" in the middle of a transaction: the last section collects the reads that
cannot fail.
-/

namespace Ultracore

open Txn

variable {r : RunID} {x : AgentRun} {w : WaitID} {ws : List Write} {y : AgentRun}
  {m : RunWaitMember}

/-- Writes that add a row to which other rows refer, or which refers to others. -/
def Write.adds : Write → Bool
  | .insertSession _ | .insertRun _ | .insertStep _ | .insertWait _ | .insertMember _ => true
  | _ => false

/-- A list of writes that adds no such row. -/
def Plain (ws : List Write) : Prop := ∀ w ∈ ws, w.adds = false

theorem Plain.append {ws' : List Write} (h : Plain ws) (h' : Plain ws') : Plain (ws ++ ws') := by
  intro w hw
  rcases List.mem_append.mp hw with hw | hw
  · exact h w hw
  · exact h' w hw

/-- Writes that add a run. -/
def Write.creates : Write → Bool
  | .insertRun _ => true
  | _ => false

theorem Write.creates_quiet {w : Write} (h : w.quiet = true) : w.creates = false := by
  cases w <;> first | rfl | cases h

/-- Writes that add a run, a wait or a member. -/
def Write.enters : Write → Bool
  | .insertRun _ | .insertWait _ | .insertMember _ => true
  | _ => false

/-- A list of writes that adds no run, no wait and no member. -/
def Steady (ws : List Write) : Prop := ∀ w ∈ ws, w.enters = false

theorem Plain.steady (h : Plain ws) : Steady ws := by
  intro w hw
  have := h w hw
  cases w <;> first | rfl | cases this

theorem Write.enters_quiet {w : Write} (h : w.quiet = true) : w.enters = false := by
  cases w <;> first | rfl | cases h

theorem Write.creates_steady {w : Write} (h : w.enters = false) : w.creates = false := by
  cases w <;> first | rfl | cases h

theorem Steady.append {ws' : List Write} (h : Steady ws) (h' : Steady ws') :
    Steady (ws ++ ws') := by
  intro w hw
  rcases List.mem_append.mp hw with hw | hw
  · exact h w hw
  · exact h' w hw

namespace Db

variable {d : Db} {w : Write}

theorem run?_none_apply (h : w.creates = false) : (w.apply d).run? r = none ↔ d.run? r = none := by
  rw [run?_apply]
  cases w with
  | insertRun => simp [Write.creates] at h
  | setHistory r' | setState r' | setResult r' | requestCancel r' =>
    by_cases hr : r = r' <;> simp [Write.onRun, hr]
  | _ => rfl

theorem wait?_steady (h : w.enters = false) {x : WaitID} :
    (w.apply d).wait? x = none ↔ d.wait? x = none := by
  rw [wait?_apply]
  cases w with
  | insertWait => simp [Write.enters] at h
  | closeWait x' | claimWait x' | setWaitResult x' | markResumed x' =>
    by_cases hx : x = x' <;> simp [Write.onWait, hx]
  | _ => rfl

theorem stepsOf_plain (h : w.adds = false) (r : RunID) : (w.apply d).stepsOf r = d.stepsOf r := by
  rw [stepsOf_apply]
  cases w <;> first | rfl | simp [Write.adds] at h

theorem membersOf_steady (h : w.enters = false) (x : WaitID) :
    (w.apply d).membersOf x = d.membersOf x := by
  rw [membersOf_apply]
  cases w <;> first | rfl | simp [Write.enters] at h

/-- The primary key of the runs. -/
def runIDs (d : Db) : List RunID := d.runs.map AgentRun.id

/-- The primary key of the waits. -/
def waitIDs (d : Db) : List WaitID := d.waits.map RunWait.id

theorem runIDs_plain (h : w.adds = false) : (w.apply d).runIDs = d.runIDs := by
  cases w with
  | insertRun => simp [Write.adds] at h
  | setHistory r _ _ | setState r _ _ _ | setResult r _ | requestCancel r _ =>
    refine Table.map_key_update ?_ r d.runs
    exact fun _ => rfl
  | _ => rfl

theorem waitIDs_steady (h : w.enters = false) : (w.apply d).waitIDs = d.waitIDs := by
  cases w with
  | insertWait => simp [Write.enters] at h
  | closeWait x _ _ | claimWait x | setWaitResult x _ | markResumed x _ =>
    refine Table.map_key_update ?_ x d.waits
    exact fun _ => rfl
  | _ => rfl

theorem run?_of_mem (h : d.runIDs.Nodup) (hx : x ∈ d.runs) : d.run? x.id = some x :=
  Table.lookup_of_mem h hx

theorem wait?_of_mem (h : d.waitIDs.Nodup) {x : RunWait} (hx : x ∈ d.waits) :
    d.wait? x.id = some x :=
  Table.lookup_of_mem h hx

end Db

section
variable {d : Db} {ws : List Write}

theorem Db.run?_none_applyAll (h : ∀ w ∈ ws, w.creates = false) :
    (applyAll d ws).run? r = none ↔ d.run? r = none :=
  applyAll_keeps (K := fun e : Db => e.run? r = none ↔ d.run? r = none)
    (fun w hw _ he => (Db.run?_none_apply (h w hw)).trans he) Iff.rfl

theorem Steady.run? (h : Steady ws) : (applyAll d ws).run? r = none ↔ d.run? r = none :=
  Db.run?_none_applyAll fun w hw => Write.creates_steady (h w hw)

theorem Steady.wait? (h : Steady ws) {x : WaitID} :
    (applyAll d ws).wait? x = none ↔ d.wait? x = none :=
  applyAll_keeps (K := fun e : Db => e.wait? x = none ↔ d.wait? x = none)
    (fun w hw _ he => (Db.wait?_steady (h w hw)).trans he) Iff.rfl

theorem Plain.stepsOf (h : Plain ws) (r : RunID) : (applyAll d ws).stepsOf r = d.stepsOf r :=
  applyAll_same (f := fun e : Db => e.stepsOf r) fun w hw _ => Db.stepsOf_plain (h w hw) r

theorem Steady.membersOf (h : Steady ws) (x : WaitID) :
    (applyAll d ws).membersOf x = d.membersOf x :=
  applyAll_same (f := fun e : Db => e.membersOf x) fun w hw _ => Db.membersOf_steady (h w hw) x

theorem Plain.runIDs (h : Plain ws) : (applyAll d ws).runIDs = d.runIDs :=
  applyAll_same (f := fun e : Db => e.runIDs) fun w hw _ => Db.runIDs_plain (h w hw)

theorem Steady.waitIDs (h : Steady ws) : (applyAll d ws).waitIDs = d.waitIDs :=
  applyAll_same (f := fun e : Db => e.waitIDs) fun w hw _ => Db.waitIDs_steady (h w hw)

/-- The row that a row of the changed tables comes from. -/
theorem Db.run_before (h : ∀ w ∈ ws, w.creates = false)
    (hy : (applyAll d ws).run? r = some y) : ∃ x, d.run? r = some x ∧ x.Same y := by
  cases hx : d.run? r with
  | none => simp [(Db.run?_none_applyAll h).mpr hx] at hy
  | some x =>
    obtain ⟨z, hz, hs⟩ := (Db.extends_applyAll d ws).run hx
    rw [hy, Option.some.injEq] at hz
    exact ⟨x, rfl, hz ▸ hs⟩

theorem Steady.run_before (h : Steady ws)
    (hy : (applyAll d ws).run? r = some y) : ∃ x, d.run? r = some x ∧ x.Same y :=
  Db.run_before (fun w hw => Write.creates_steady (h w hw)) hy

theorem Steady.wait_before (h : Steady ws) {y : RunWait}
    (hy : (applyAll d ws).wait? w = some y) : ∃ x, d.wait? w = some x ∧ x.Same y := by
  cases hx : d.wait? w with
  | none => simp [h.wait?.mpr hx] at hy
  | some x =>
    obtain ⟨z, hz, hs⟩ := (Db.extends_applyAll d ws).wait hx
    rw [hy, Option.some.injEq] at hz
    exact ⟨x, rfl, hz ▸ hs⟩

end

namespace Protocol

open Loop

/-- References between rows are never broken. -/
structure Integrity (cfg : Settings) (d : Db) : Prop where
  session : ∀ {r : RunID} {x : AgentRun}, d.run? r = some x →
    ∃ s, d.session? x.sessionID = some s ∧ s.tenantID = x.tenantID
  steps : ∀ {r : RunID}, d.run? r = none → d.stepsOf r = []
  runIDs : d.runIDs.Nodup
  waitIDs : d.waitIDs.Nodup
  parent : ∀ {w : WaitID} {x : RunWait}, d.wait? w = some x → ∃ p, d.run? x.parentRunID = some p
  waitID : ∀ {w : WaitID} {x : RunWait}, d.wait? w = some x →
    w = deterministicWaitID cfg x.parentRunID x.stepIndex x.toolCallID
  waitStep : ∀ {w : WaitID} {x : RunWait}, d.wait? w = some x →
    ∃ s ∈ d.stepsOf x.parentRunID, s.stepIndex = x.stepIndex
  member : ∀ {w : WaitID} {m : RunWaitMember}, m ∈ d.membersOf w →
    ∃ x p y, d.wait? w = some x ∧ d.run? x.parentRunID = some p ∧ d.run? m.runID = some y ∧
      y.tenantID = p.tenantID ∧ y.sessionID = p.sessionID
  lineage : ∀ {r : RunID} {x : AgentRun}, d.run? r = some x → Protocol.Descends d x

namespace Integrity

variable {cfg : Settings} {d : Db} {st : RunStep} {p : AgentRun} {w : RunWait}

theorem empty : Integrity cfg {} where
  session h := by cases h
  steps _ := rfl
  runIDs := List.nodup_nil
  waitIDs := List.nodup_nil
  parent h := by cases h
  waitID h := by cases h
  waitStep h := by cases h
  member h := by cases h
  lineage h := by cases h

/-- The passing of time changes no reference. -/
theorem clock (hd : Integrity cfg d) (t : Time) : Integrity cfg { d with clock := t } :=
  { hd with lineage := fun hx => (hd.lineage hx).later (Db.extends_clock d t) (.refl _) }

theorem plain (hd : Integrity cfg d) (ws : List Write) (h : Plain ws) :
    Integrity cfg (applyAll d ws) where
  session hy := by
    obtain ⟨x, hx, hs⟩ := h.steady.run_before hy
    obtain ⟨s, hs', ht⟩ := hd.session hx
    obtain ⟨s₂, hs₂, ht₂⟩ := (Db.extends_applyAll d ws).session hs'
    exact ⟨s₂, by rw [hs.sessionID]; exact hs₂, by rw [ht₂, ht, hs.tenantID]⟩
  steps hr := by
    rw [h.stepsOf]
    exact hd.steps (h.steady.run?.mp hr)
  runIDs := by
    rw [h.runIDs]
    exact hd.runIDs
  waitIDs := by
    rw [h.steady.waitIDs]
    exact hd.waitIDs
  parent hy := by
    obtain ⟨x, hx, hs⟩ := h.steady.wait_before hy
    obtain ⟨p, hp⟩ := hd.parent hx
    obtain ⟨q, hq, -⟩ := (Db.extends_applyAll d ws).run hp
    exact ⟨q, by rw [hs.parentRunID]; exact hq⟩
  waitID hy := by
    obtain ⟨x, hx, hs⟩ := h.steady.wait_before hy
    rw [hs.parentRunID, hs.stepIndex, hs.toolCallID]
    exact hd.waitID hx
  waitStep hy := by
    obtain ⟨x, hx, hs⟩ := h.steady.wait_before hy
    rw [hs.parentRunID, hs.stepIndex, h.stepsOf]
    exact hd.waitStep hx
  member hm := by
    rw [h.steady.membersOf] at hm
    obtain ⟨x, p, y, hx, hp, hy, ht, hses⟩ := hd.member hm
    obtain ⟨x', hx', hsx⟩ := (Db.extends_applyAll d ws).wait hx
    obtain ⟨p', hp', hsp⟩ := (Db.extends_applyAll d ws).run hp
    obtain ⟨y', hy', hsy⟩ := (Db.extends_applyAll d ws).run hy
    exact ⟨x', p', y', hx', by rw [hsx.parentRunID]; exact hp', hy',
      by rw [hsy.tenantID, hsp.tenantID, ht], by rw [hsy.sessionID, hsp.sessionID, hses]⟩
  lineage hy := by
    obtain ⟨x, hx, hsame⟩ := h.steady.run_before hy
    exact (hd.lineage hx).later (Db.extends_applyAll d ws) hsame

-- Forward references survive by `Extends`; what remains is the row that is new.

theorem insertSession (hd : Integrity cfg d) (s : Session) :
    Integrity cfg ((Write.insertSession s).apply d) :=
  { hd with
    session := fun hr => by
      obtain ⟨s', hs', ht⟩ := hd.session hr
      obtain ⟨s₂, hs₂, ht₂⟩ := (Db.extends_apply d (.insertSession s)).session hs'
      exact ⟨s₂, hs₂, ht₂.trans ht⟩
    lineage := fun hx => (hd.lineage hx).later (Db.extends_apply d _) (.refl _) }

/-- A run of the changed tables was there, or is the new one. -/
theorem run_of_insertRun (hy : ((Write.insertRun x).apply d).run? r = some y) :
    d.run? r = some y ∨ (r = x.id ∧ y = x) := by
  rw [Db.run?_apply] at hy
  cases hr : d.run? r with
  | some =>
    simp only [hr, Write.onRun, Option.some_or] at hy
    exact .inl hy
  | none =>
    simp only [hr, Write.onRun, Option.none_or] at hy
    split at hy
    · exact .inr ⟨‹_›, (Option.some.inj hy).symm⟩
    · cases hy

theorem insertRun (hd : Integrity cfg d) (hx : d.run? x.id = none) {s : Session}
    (hs : d.session? x.sessionID = some s) (ht : s.tenantID = x.tenantID)
    (hfrom : Protocol.Descends d x) : Integrity cfg ((Write.insertRun x).apply d) where
  session {r y} hy := by
    rcases run_of_insertRun hy with hy | ⟨-, rfl⟩
    · exact hd.session hy
    · exact ⟨s, hs, ht⟩
  steps {r} hr := by
    rw [Db.run?_apply] at hr
    simp only [Write.onRun, Option.or_eq_none_iff] at hr
    exact hd.steps hr.1
  runIDs := by
    rw [show ((Write.insertRun x).apply d).runIDs = d.runIDs ++ [x.id] by simp [Db.runIDs, Write.apply]]
    exact hd.runIDs.append (by simp)
      (List.disjoint_singleton.mpr (Table.lookup_eq_none.mp hx))
  waitIDs := hd.waitIDs
  parent hw := by
    obtain ⟨p, hp⟩ := hd.parent hw
    obtain ⟨q, hq, -⟩ := (Db.extends_apply d (.insertRun x)).run hp
    exact ⟨q, hq⟩
  waitID := hd.waitID
  waitStep := hd.waitStep
  member hm := by
    obtain ⟨w, p, y, hw, hp, hy, hty, hses⟩ := hd.member hm
    obtain ⟨p', hp', hsp⟩ := (Db.extends_apply d (.insertRun x)).run hp
    obtain ⟨y', hy', hsy⟩ := (Db.extends_apply d (.insertRun x)).run hy
    exact ⟨w, p', y', hw, hp', hy', by rw [hsy.tenantID, hsp.tenantID, hty],
      by rw [hsy.sessionID, hsp.sessionID, hses]⟩
  lineage hy := by
    refine Protocol.Descends.later ?_ (Db.extends_apply d (.insertRun x)) (.refl _)
    rcases run_of_insertRun hy with hy | ⟨-, rfl⟩
    · exact hd.lineage hy
    · exact hfrom

theorem insertStep (hd : Integrity cfg d)
    (hx : d.run? st.runID = some x) : Integrity cfg ((Write.insertStep st).apply d) :=
  { hd with
    steps := fun {r} hr => by
      have hne : r ≠ st.runID := by
        rintro rfl
        rw [show ((Write.insertStep st).apply d).run? st.runID = d.run? st.runID from rfl, hx] at hr
        cases hr
      rw [Db.stepsOf_apply]
      simp only [Write.onSteps, hne, if_false]
      exact hd.steps hr
    waitStep := fun hw => by
      obtain ⟨s, hs, hidx⟩ := hd.waitStep hw
      exact ⟨s, ((Db.extends_apply d (.insertStep st)).steps _).subset hs, hidx⟩
    lineage := fun hx => (hd.lineage hx).later (Db.extends_apply d _) (.refl _) }

theorem insertWait (hd : Integrity cfg d) (hw : d.wait? w.id = none)
    (hp : d.run? w.parentRunID = some p)
    (hid : w.id = deterministicWaitID cfg w.parentRunID w.stepIndex w.toolCallID)
    (hstep : ∃ s ∈ d.stepsOf w.parentRunID, s.stepIndex = w.stepIndex) :
    Integrity cfg ((Write.insertWait w).apply d) := by
  have hnew : ∀ {v : WaitID} {y : RunWait}, ((Write.insertWait w).apply d).wait? v = some y →
      d.wait? v = some y ∨ (v = w.id ∧ y = w) := by
    intro v y hy
    rw [Db.wait?_apply] at hy
    cases hv : d.wait? v with
    | some =>
      simp only [hv, Write.onWait, Option.some_or] at hy
      exact .inl hy
    | none =>
      simp only [hv, Write.onWait, Option.none_or] at hy
      split at hy
      · exact .inr ⟨‹_›, (Option.some.inj hy).symm⟩
      · cases hy
  refine ⟨hd.session, hd.steps, hd.runIDs, ?_, ?_, ?_, ?_, ?_, fun hx =>
    (hd.lineage hx).later (Db.extends_apply d _) (.refl _)⟩
  · rw [show ((Write.insertWait w).apply d).waitIDs = d.waitIDs ++ [w.id] by
      simp [Db.waitIDs, Write.apply]]
    exact hd.waitIDs.append (by simp)
      (List.disjoint_singleton.mpr (Table.lookup_eq_none.mp hw))
  · intro v y hy
    rcases hnew hy with hy | ⟨-, rfl⟩
    · exact hd.parent hy
    · exact ⟨p, hp⟩
  · intro v y hy
    rcases hnew hy with hy | ⟨rfl, rfl⟩
    · exact hd.waitID hy
    · exact hid
  · intro v y hy
    rcases hnew hy with hy | ⟨rfl, rfl⟩
    · exact hd.waitStep hy
    · exact hstep
  · intro v m hm
    obtain ⟨x, q, y, hx, hq, hy, ht⟩ := hd.member hm
    exact ⟨x, q, y, by simp [Write.onWait, hx], hq, hy, ht⟩

theorem insertMember (hd : Integrity cfg d)
    (hw : d.wait? m.waitID = some w) (hp : d.run? w.parentRunID = some p)
    (hx : d.run? m.runID = some x) (ht : x.tenantID = p.tenantID)
    (hses : x.sessionID = p.sessionID) : Integrity cfg ((Write.insertMember m).apply d) :=
  { hd with
    lineage := fun hx => (hd.lineage hx).later (Db.extends_apply d _) (.refl _)
    member := fun {v m'} hm => by
      rw [Db.membersOf_apply] at hm
      simp only [Write.onMembers] at hm
      split at hm
      · rename_i hv
        rcases List.mem_append.mp hm with hm | hm
        · exact hd.member hm
        · obtain rfl : m' = m := by simpa using hm
          exact ⟨w, p, x, hv ▸ hw, hp, hx, ht, hses⟩
      · exact hd.member hm }

theorem quiet (hd : Integrity cfg d) (h : ∀ w ∈ ws, w.quiet = true) :
    Integrity cfg (applyAll d ws) := by
  refine applyAll_keeps (K := Integrity cfg) ?_ hd
  intro w hw e he
  have hq := h w hw
  cases w with
  | insertSession s => exact he.insertSession s
  | insertRun | insertStep | insertWait | insertMember => cases hq
  | _ => exact he.plain [_] (by simp [Plain, Write.adds])

/-- The writes that record a step, with quiet ones among them. -/
theorem record (hd : Integrity cfg d) (hx : d.run? st.runID = some x)
    {h : Envelope} {q : List Write} (hq : ∀ w ∈ q, w.quiet = true) (e : Event) :
    Integrity cfg (applyAll d ([.setHistory st.runID h .step, .insertStep st] ++ q ++
      [.bumpSeq e.sessionID, .insertEvent e])) := by
  rw [applyAll_append, applyAll_append]
  refine plain (quiet ?_ hq) _ (by simp [Plain, Write.adds])
  have h₁ := hd.plain [.setHistory st.runID h .step] (by simp [Plain, Write.adds])
  refine h₁.insertStep (x := { x with history := h }) ?_
  simp [hx, Write.onRun]

end Integrity

/-! ## Acts keep it -/

section
variable {cfg : Settings} {me : Part} {first : Bool} {d v : Db} {ws₀ ws : List Write}
  {debt₀ debt debt' : Debt}

theorem Act.integrity (h : Act cfg me first v debt ws debt') (hd : Integrity cfg v) :
    Integrity cfg (applyAll v ws) := by
  cases h with
  | quiet hq => exact hd.quiet (by simpa using hq)
  | openWait _ _ _ _ hw _ _ hid hp hstep => exact hd.insertWait hw hp hid hstep
  | addMember _ _ hw hp hx ht hses => exact hd.insertMember hw hp hx ht hses
  | create hx _ _ hs ht hfrom =>
    exact (hd.insertRun hx hs ht hfrom).plain _ (by simp [Plain, Write.adds])
  | @step job copy x h new st q e _ _ _ hx _ _ _ hrun _ _ hq _ =>
    rw [← hrun] at hx ⊢
    exact hd.record hx hq e
  | _ => exact hd.plain _ (by simp [reopening, Plain, Write.adds])

theorem ActsFrom.integrity (h : ActsFrom cfg me d ws₀ debt₀ ws debt)
    (hd : Integrity cfg (applyAll d ws₀)) : Integrity cfg (applyAll d ws) := by
  induction h with
  | nil => exact hd
  | snoc _ hact ih =>
    rw [applyAll_append]
    exact hact.integrity ih

end

end Protocol

/-! ## Reads that cannot fail -/

namespace Db.Extends

variable {d d' : Db} {t : TenantID}

theorem ownSession (h : d.Extends d') {s : SessionID} (hs : (d.ownSession t s).isSome) :
    (d'.ownSession t s).isSome := by
  obtain ⟨x, hx⟩ := Option.isSome_iff_exists.mp hs
  obtain ⟨hx, ht⟩ := ownSession_eq_some.mp hx
  obtain ⟨y, hy, hty⟩ := h.session hx
  exact Option.isSome_iff_exists.mpr ⟨y, ownSession_eq_some.mpr ⟨hy, hty.trans ht⟩⟩

theorem ownRun (h : d.Extends d') (hr : (d.ownRun t r).isSome) : (d'.ownRun t r).isSome := by
  obtain ⟨x, hx⟩ := Option.isSome_iff_exists.mp hr
  obtain ⟨hx, ht⟩ := ownRun_eq_some.mp hx
  obtain ⟨y, hy, hs⟩ := h.run hx
  exact Option.isSome_iff_exists.mpr ⟨y, ownRun_eq_some.mpr ⟨hy, hs.tenantID.trans ht⟩⟩

theorem ownWait (h : d.Extends d') (hw : (d.ownWait t w).isSome) : (d'.ownWait t w).isSome := by
  obtain ⟨x, hx⟩ := Option.isSome_iff_exists.mp hw
  obtain ⟨hx, hp⟩ := ownWait_eq_some.mp hx
  obtain ⟨y, hy, hs⟩ := h.wait hx
  refine Option.isSome_iff_exists.mpr ⟨y, ownWait_eq_some.mpr ⟨hy, ?_⟩⟩
  rw [hs.parentRunID]
  exact h.ownRun hp

end Db.Extends

namespace Protocol

variable {cfg : Loop.Settings} {d d' : Db} {ls : List Row} {ws : List Write} {t : TenantID}

/-- A locked wait of the tenant is found. -/
theorem wait_found (hs : sees (Integrity cfg) ls d d') (hw : Row.wait w ∈ ls)
    (h : (d.ownWait t w).isSome) : (d'.ownWait t w).isSome := by
  obtain ⟨x, hx⟩ := Option.isSome_iff_exists.mp h
  obtain ⟨hx, hp⟩ := Db.ownWait_eq_some.mp hx
  obtain ⟨p, hp⟩ := Option.isSome_iff_exists.mp hp
  obtain ⟨hp, ht⟩ := Db.ownRun_eq_some.mp hp
  have hx' : d'.wait? w = some x := (Tx.Respects.wait (respects_sees _) hs hw []).1.trans hx
  obtain ⟨q, hq⟩ := hs.2.1.parent hx'
  obtain ⟨q', hq', hsame⟩ := hs.2.2.run hq
  cases hq'.symm.trans hp
  refine Option.isSome_iff_exists.mpr ⟨x, Db.ownWait_eq_some.mpr ⟨hx', ?_⟩⟩
  exact Option.isSome_iff_exists.mpr ⟨q, Db.ownRun_eq_some.mpr ⟨hq, hsame.tenantID.symm.trans ht⟩⟩

/-- A wait that was found through earlier tables is the tenant's. -/
theorem wait_owned (hws : Steady ws) (hs : sees (Integrity cfg) ls d d')
    (h : ((applyAll d' ws).ownWait t w).isSome) : (d.ownWait t w).isSome := by
  obtain ⟨y, hy⟩ := Option.isSome_iff_exists.mp h
  obtain ⟨hy, hp⟩ := Db.ownWait_eq_some.mp hy
  obtain ⟨p, hp⟩ := Option.isSome_iff_exists.mp hp
  obtain ⟨hp, ht⟩ := Db.ownRun_eq_some.mp hp
  obtain ⟨x, hx, hsx⟩ := hws.wait_before hy
  obtain ⟨q, hq, hsq⟩ := hws.run_before hp
  refine hs.2.2.ownWait (Option.isSome_iff_exists.mpr ⟨x, Db.ownWait_eq_some.mpr ⟨hx, ?_⟩⟩)
  rw [← hsx.parentRunID]
  exact Option.isSome_iff_exists.mpr ⟨q, Db.ownRun_eq_some.mpr ⟨hq, hsq.tenantID.symm.trans ht⟩⟩

/-- The members of a locked wait of the tenant are found. -/
theorem member_found (hs : sees (Integrity cfg) ls d d') (hw : Row.wait w ∈ ls)
    (h : (d.ownWait t w).isSome) (hm : m ∈ d.membersOf w) : (d'.ownRun t m.runID).isSome := by
  have hm' : m ∈ d'.membersOf w := by
    have heq : d'.membersOf w = d.membersOf w := (Tx.Respects.wait (respects_sees _) hs hw []).2
    rw [heq]
    exact hm
  obtain ⟨x, p, y, hx, hp, hy, hty, -⟩ := hs.2.1.member hm'
  obtain ⟨x', hx'⟩ := Option.isSome_iff_exists.mp (wait_found hs hw h)
  obtain ⟨hx', hp'⟩ := Db.ownWait_eq_some.mp hx'
  cases hx.symm.trans hx'
  obtain ⟨p', hp'⟩ := Option.isSome_iff_exists.mp hp'
  obtain ⟨hp', ht⟩ := Db.ownRun_eq_some.mp hp'
  cases hp.symm.trans hp'
  exact Option.isSome_iff_exists.mpr ⟨y, Db.ownRun_eq_some.mpr ⟨hy, hty.trans ht⟩⟩

/-- The session of a locked run is found. -/
theorem session_found (hs : sees (Integrity cfg) ls d d') (hr : Row.run r ∈ ls)
    (hx : d.run? r = some x) : (d'.ownSession x.tenantID x.sessionID).isSome := by
  have hx' : d'.run? r = some x := (Tx.Respects.run (respects_sees _) hs hr []).1.trans hx
  obtain ⟨s, hs', ht⟩ := hs.2.1.session hx'
  exact Option.isSome_iff_exists.mpr ⟨s, Db.ownSession_eq_some.mpr ⟨hs', ht⟩⟩

/-- What is known of the run of a job. -/
structure JobRun (v : Db) (job : StepJob) (x : AgentRun) : Prop where
  run : v.run? job.runID = some x
  tenantID : x.tenantID = job.tenantID
  sessionID : x.sessionID = job.sessionID

theorem JobRun.own {v : Db} {job : StepJob} (h : JobRun v job x) :
    (v.ownRun job.tenantID job.runID).isSome :=
  Option.isSome_iff_exists.mpr ⟨x, Db.ownRun_eq_some.mpr ⟨h.run, h.tenantID⟩⟩

end Protocol

end Ultracore
