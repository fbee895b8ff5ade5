-- SUMMARY: Each wait leaves the open state at most once and resumes its parent at most once.
import Ultracore.Protocol.Finality

/-!
# Resumption

Three code paths close a wait, through two conditional updates. The counts of the writes
that close a wait, or resume its parent, are bounded by what the row of the wait shows:
its state, and its mark of resumption.
-/

namespace Ultracore

open Txn

/-- Writes that take wait `w` out of the open state. -/
def Write.leaves (w : WaitID) : Write → Bool
  | .closeWait w' _ _ | .claimWait w' => decide (w' = w)
  | _ => false

/-- Writes that put the outcome of wait `w` into the parent's history. -/
def Write.injects (w : WaitID) : Write → Bool
  | .setHistory _ _ (.resume w') => decide (w' = w)
  | _ => false

/-- Jobs for the step that goes on with the outcome of wait `w`. -/
def Write.enqueues (w : WaitID) : Write → Bool
  | .insertJob (.step _) _ (.resume w') => decide (w' = w)
  | _ => false

/-- On whose behalf a history is written or a step is enqueued. -/
def Write.behalf? : Write → Option Origin
  | .setHistory _ _ origin | .insertJob (.step _) _ origin => some origin
  | _ => none

theorem Write.behalf_quiet {wr : Write} (h : wr.quiet = true) : wr.behalf? = none := by
  cases wr with
  | insertJob job => cases job <;> first | rfl | cases h
  | setHistory => cases h
  | _ => rfl

theorem Write.leaves_quiet {wr : Write} (h : wr.quiet = true) (w : WaitID) :
    wr.leaves w = false := by
  cases wr <;> first | rfl | cases h

namespace Db

/-- Whether wait `w` has left the open state. -/
def closed (d : Db) (w : WaitID) : Bool := (d.wait? w).any fun x => x.state ≠ .open

/-- Whether the resumption of wait `w` was consumed. -/
def resumed (d : Db) (w : WaitID) : Bool := (d.wait? w).any fun x => x.resumedAt.isSome

variable {d : Db} {wr : Write} {w : WaitID}

theorem closed_apply (h : wr.leaves w = false) (hd : d.closed w = true) :
    (wr.apply d).closed w = true := by
  obtain ⟨x, hx, hs⟩ : ∃ x, d.wait? w = some x ∧ x.state ≠ .open := by
    simpa [closed, Option.any_eq_true] using hd
  rw [closed, wait?_apply, hx]
  cases wr with
  | closeWait w' _ _ | claimWait w' =>
    have hne : w ≠ w' := fun heq => by simp [Write.leaves, heq] at h
    simp [Write.onWait, hne, hs]
  | setWaitResult w' _ | markResumed w' _ =>
    by_cases hw : w = w' <;> simp [Write.onWait, hw, hs]
  | _ => simp [Write.onWait, hs]

theorem resumed_apply (hd : d.resumed w = true) : (wr.apply d).resumed w = true := by
  obtain ⟨x, hx, hs⟩ : ∃ x, d.wait? w = some x ∧ x.resumedAt.isSome = true := by
    simpa [resumed, Option.any_eq_true] using hd
  rw [resumed, wait?_apply, hx]
  cases wr with
  | closeWait w' _ _ | claimWait w' | setWaitResult w' _ | markResumed w' _ =>
    by_cases hw : w = w' <;> simp [Write.onWait, hw, hs]
  | _ => simp [Write.onWait, hs]

theorem resumed_markResumed {x : RunWait} (hx : d.wait? w = some x) (now : Time) (ws : List Write) :
    (applyAll d (.markResumed w now :: ws)).resumed w = true := by
  rw [applyAll_cons]
  refine applyAll_keeps (K := fun e : Db => e.resumed w = true) (fun wr _ _ => resumed_apply) ?_
  simp [resumed, Write.onWait, hx]

end Db

namespace Protocol

open Loop

variable {cfg : Settings} {me : Part} {first : Bool} {v d : Db} {debt debt' : Debt}
  {ws : List Write}
  {w : WaitID}
variable {counts : Write → Bool}

/-- How often something happened in `ws` that `done` shows to have happened: at most as
    often as `done` has become true. -/
def AtMostOnce (counts : Write → Bool) (done : Db → Bool) (d : Db) (ws : List Write) : Prop :=
  ws.countP counts + (done d).toNat ≤ (done (applyAll d ws)).toNat

theorem AtMostOnce.append {done : Db → Bool} {ws' : List Write}
    (h : AtMostOnce counts done d ws) (h' : AtMostOnce counts done (applyAll d ws) ws') :
    AtMostOnce counts done d (ws ++ ws') := by
  unfold AtMostOnce at h h' ⊢
  rw [List.countP_append, applyAll_append]
  omega

/-- Nothing is counted, and what is done stays done. -/
theorem AtMostOnce.of_none {done : Db → Bool} (hws : ∀ wr ∈ ws, counts wr = false)
    (hdone : ∀ wr ∈ ws, ∀ e, done e = true → done (wr.apply e) = true) :
    AtMostOnce counts done d ws := by
  have hcount : ws.countP counts = 0 := List.countP_eq_zero.mpr (by simpa using hws)
  have hkeep : done d = true → done (applyAll d ws) = true := fun hd =>
    applyAll_keeps (K := fun e : Db => done e = true) hdone hd
  unfold AtMostOnce
  rw [hcount]
  cases hd : done d with
  | false => simp
  | true => simp [hkeep hd]

theorem Act.leaves_once (h : Act cfg me first v debt ws debt') :
    AtMostOnce (Write.leaves w) (Db.closed · w) v ws := by
  have hnone : (∀ wr ∈ ws, wr.leaves w = false) →
      AtMostOnce (Write.leaves w) (Db.closed · w) v ws := fun hws =>
    .of_none hws fun wr hwr _ => Db.closed_apply (hws wr hwr)
  cases h with
  | quiet hq => exact hnone (by simpa using Write.leaves_quiet hq w)
  | @closeWait _ w' x st res hx hopen hst _ _ =>
    by_cases hw : w' = w
    · subst hw
      simp [AtMostOnce, Write.leaves, Db.closed, hx, hopen, Write.onWait, hst]
    · exact hnone (by simpa [Write.leaves] using hw)
  | @claimWait _ w' x hx hopen _ =>
    by_cases hw : w' = w
    · subst hw
      simp [AtMostOnce, Write.leaves, Db.closed, hx, hopen, Write.onWait]
    · exact hnone (by simpa [Write.leaves] using hw)
  | step _ _ _ _ _ _ _ _ _ _ hq =>
    exact hnone (forall_stepWrites hq (fun h => Write.leaves_quiet h w) rfl rfl rfl)
  | _ => exact hnone (by simp [reopening, Write.leaves])

/-- A wait that is not open stays so. -/
theorem ActsFrom.closed {ws₀ : List Write} {debt₀ : Debt}
    (h : ActsFrom cfg me d ws₀ debt₀ ws debt) (hw : (applyAll d ws₀).closed w = true) :
    (applyAll d ws).closed w = true := by
  induction h with
  | nil => exact hw
  | @snoc ws₁ ws₂ _ _ _ hact ih =>
    have hle := hact.leaves_once (w := w)
    rw [AtMostOnce, ih, Bool.toNat_true] at hle
    rw [applyAll_append, ← Bool.toNat_eq_one]
    have := Bool.toNat_le ((applyAll (applyAll d ws₁) ws₂).closed w)
    omega

/-- What is done on behalf of a wait is done by the act that consumes its resumption. -/
theorem Act.behalf (h : Act cfg me first v debt ws debt') {wr : Write} (hwr : wr ∈ ws)
    (hb : wr.behalf? = some (.resume w)) :
    v.resumed w = false ∧ ∃ x now p h e at_, v.wait? w = some x ∧ v.run? x.parentRunID = some p ∧
      p.state.terminal = false ∧ ws = .markResumed w now :: reopening v p h e at_ (.resume w) := by
  cases h with
  | quiet hq =>
    obtain rfl := List.mem_singleton.mp hwr
    rw [Write.behalf_quiet hq] at hb
    cases hb
  | @resume _ w' x now p h e at_ hx hres hp hterm _ _ =>
    obtain rfl : w' = w := by
      simp only [reopening, List.mem_cons, List.not_mem_nil, or_false] at hwr
      rcases hwr with rfl | rfl | rfl | rfl | rfl | rfl <;> simp_all [Write.behalf?]
    exact ⟨by simp [Db.resumed, hx, hres], x, now, p, h, e, at_, hx, hp, hterm, rfl⟩
  | step _ _ _ _ _ _ _ _ _ _ hq =>
    refine absurd hb (forall_stepWrites (P := fun wr => wr.behalf? ≠ some (.resume w)) hq
      (fun hw => ?_) (by simp [Write.behalf?]) (by simp [Write.behalf?]) (by simp [Write.behalf?])
      wr hwr)
    simp [Write.behalf_quiet hw]
  | answer | create =>
    simp only [reopening, List.mem_cons, List.not_mem_nil, or_false] at hwr
    rcases hwr with rfl | rfl | rfl | rfl | rfl <;> cases hb
  | complete =>
    simp only [List.mem_cons, List.not_mem_nil, or_false] at hwr
    rcases hwr with rfl | rfl <;> cases hb
  | _ =>
    obtain rfl := List.mem_singleton.mp hwr
    cases hb

theorem Act.resumes_once (h : Act cfg me first v debt ws debt')
    (hcounts : ∀ wr, counts wr = true → wr.behalf? = some (.resume w)) (hone : ∀ now p h e at_,
      (Write.markResumed w now :: reopening v p h e at_ (.resume w)).countP counts ≤ 1) :
    AtMostOnce counts (Db.resumed · w) v ws := by
  by_cases hws : ∀ wr ∈ ws, counts wr = false
  · exact .of_none hws fun wr _ _ => Db.resumed_apply
  · simp only [not_forall, Bool.not_eq_false] at hws
    obtain ⟨wr, hwr, hc⟩ := hws
    obtain ⟨hfresh, x, now, p, hist, e, at_, hx, -, -, rfl⟩ := h.behalf hwr (hcounts wr hc)
    have hdone := Db.resumed_markResumed hx now (reopening v p hist e at_ (.resume w))
    simpa only [AtMostOnce, hdone, hfresh, Bool.toNat_false, Bool.toNat_true, Nat.add_zero] using
      hone now p hist e at_

theorem ActsFrom.leaves_once (h : Acts cfg me d ws debt) :
    AtMostOnce (Write.leaves w) (Db.closed · w) d ws := by
  induction h with
  | nil => simp [AtMostOnce]
  | snoc _ hact ih => exact ih.append hact.leaves_once

theorem ActsFrom.resumes_once (h : Acts cfg me d ws debt)
    (hcounts : ∀ wr, counts wr = true → wr.behalf? = some (.resume w)) (hone : ∀ v now p h e at_,
      (Write.markResumed w now :: reopening v p h e at_ (.resume w)).countP counts ≤ 1) :
    AtMostOnce counts (Db.resumed · w) d ws := by
  induction h with
  | nil => simp [AtMostOnce]
  | snoc _ hact ih => exact ih.append (hact.resumes_once hcounts (hone _))

theorem ActsFrom.injects_once (h : Acts cfg me d ws debt) :
    AtMostOnce (Write.injects w) (Db.resumed · w) d ws := by
  refine h.resumes_once ?_ ?_
  · intro wr hwr
    cases wr with
    | setHistory r h origin => cases origin <;> simp_all [Write.injects, Write.behalf?]
    | _ => cases hwr
  · intro v now p h e at_
    simp [reopening, Write.injects]

theorem ActsFrom.enqueues_once (h : Acts cfg me d ws debt) :
    AtMostOnce (Write.enqueues w) (Db.resumed · w) d ws := by
  refine h.resumes_once ?_ ?_
  · intro wr hwr
    cases wr with
    | insertJob job t origin =>
      cases job <;> cases origin <;> simp_all [Write.enqueues, Write.behalf?]
    | _ => cases hwr
  · intro v now p h e at_
    simp [reopening, Write.enqueues]

/-- The parent of wait `w` is `r`, and not terminal. -/
def Resumable (v : Db) (w : WaitID) (r : RunID) : Prop :=
  ∃ x p, v.wait? w = some x ∧ x.parentRunID = r ∧ v.run? r = some p ∧ p.state.terminal = false

theorem Act.injects_parent (h : Act cfg me first v debt ws debt') {before after : List Write} {r : RunID}
    {hist : Envelope} (hws : ws = before ++ .setHistory r hist (.resume w) :: after) :
    Resumable (applyAll v before) w r := by
  have hmem : Write.setHistory r hist (.resume w) ∈ ws := by simp [hws]
  obtain ⟨-, x, now, p, hist', e, at_, hx, hp, hterm, heq⟩ := h.behalf hmem rfl
  rw [hws] at heq
  -- the write is the second of the act
  cases before with
  | nil => cases (List.cons.inj heq).1
  | cons b before =>
    obtain ⟨rfl, htail⟩ := List.cons.inj heq
    cases before with
    | nil =>
      have hwr := (List.cons.inj htail).1
      injection hwr with hr
      subst hr
      have hid := Db.run?_id hp
      refine ⟨{ x with resumedAt := some now }, p, ?_, hid.symm, ?_, hterm⟩
      · simp [Write.onWait, hx]
      · rw [hid]
        simpa [Write.onRun] using hp
    | cons =>
      have hmem : Write.setHistory r hist (.resume w) ∈
          (reopening v p hist' e at_ (.resume w)).tail := by
        rw [← htail]
        simp
      simp [reopening] at hmem

/-- Where an outcome is put into a history, the run is the parent of the wait, and not
    terminal. -/
theorem ActsFrom.injects_parent (h : Acts cfg me d ws debt) {before after : List Write} {r : RunID}
    {hist : Envelope} (hws : ws = before ++ .setHistory r hist (.resume w) :: after) :
    Resumable (applyAll d before) w r := by
  induction h generalizing after with
  | nil => simp at hws
  | @snoc ws₁ ws₂ _ _ _ hact ih =>
    rcases List.append_eq_append_iff.mp hws with ⟨front, rfl, h₂⟩ | ⟨back, h₁, h₂⟩
    · rw [applyAll_append]
      exact hact.injects_parent h₂
    · cases back with
      | nil =>
        obtain rfl : ws₁ = before := by simpa using h₁
        have hws₂ : ws₂ = [] ++ .setHistory r hist (.resume w) :: after := h₂.symm
        exact hact.injects_parent hws₂
      | cons =>
        cases h₂
        exact ih h₁

end Protocol

end Ultracore
