-- SUMMARY: What closing a wait writes, and which outcome it gives the parent.
import Ultracore.Protocol.Waits

/-!
# Closing a wait

`tryCloseWait` leaves the wait alone, or writes its outcome to it and goes on to the parent.
The outcome counts the members of the wait in their order, each as it was read. The wait and
its members are those of the moment of the commit, since the row is locked before they are
read; the runs of the members are not locked, and were read one after another.
-/

namespace Ultracore.Protocol

open Txn Loop Tx

/-- The outcome of a wait whose members are counted. -/
def conclude (reason : CloseReason) (counted : WaitOutcome) : WaitOutcome :=
  let timedOut := decide (reason = .timeout) && decide (counted.pending > 0)
  { counted with state := if timedOut then .timedOut else .resolved, timedOut := timedOut }

/-- The members of a wait in their order. -/
def orderedMembers (v : Db) (w : WaitID) : List RunWaitMember :=
  (v.membersOf w).insertionSort fun m m' => m.ordinal ≤ m'.ordinal

/-- What a resumption writes where the tables show `v`: nothing, because the wait was resumed
    before; the mark alone, because the parent is finished; or the outcome too. -/
inductive Resumes (v : Db) (wait : RunWait) (outcome : WaitOutcome) : List Write → Prop where
  | before : Resumes v wait outcome []
  | finished (now : Time) : Resumes v wait outcome [.markResumed wait.id now]
  | injected {p : AgentRun} {h : Envelope} {e : Event} {at_ : Time} (now : Time) :
      v.run? wait.parentRunID = some p → p.state.terminal = false →
      p.history.appendWaitResult wait outcome = some h →
      Resumes v wait outcome
        (.markResumed wait.id now :: reopening v p h e at_ (.resume wait.id))

/-- The wait as it is closed, and the runs of its members as they were read. -/
structure Evaluates (A : List Row → Db → Db → Prop) (d : Db) (st : Local Row Write) (t : TenantID)
    (w : WaitID) (wait : RunWait) (xs : List AgentRun) : Prop where
  row : (view d st).wait? w = some wait
  seen : ∃ d', A (st.locks ++ [.wait w]) d d'
  reads : List.Forall₂ (fun m x => ∃ d', A (st.locks ++ [.wait w]) d d' ∧
    (view d' st).ownRun t m.runID = some x) (orderedMembers (view d st) w) xs

/-- The outcome that the evaluation of a wait ends with. -/
def outcomeOf (v : Db) (wait : RunWait) (reason : CloseReason) (xs : List AgentRun) : WaitOutcome :=
  conclude reason (tally (emptyOutcome wait .resolved) ((orderedMembers v wait.id).zip xs))

/-- What `tryCloseWait` writes. -/
inductive Closes (A : List Row → Db → Db → Prop) (d : Db) (st : Local Row Write) (t : TenantID)
    (w : WaitID) (reason : CloseReason) : List Write → Prop where
  | left : Closes A d st t w reason []
  | closed {wait : RunWait} {xs : List AgentRun} {ws : List Write} :
      Evaluates A d st t w wait xs → wait.state = .open →
      (reason = .timeout ∨ (outcomeOf (view d st) wait reason xs).pending = 0) →
      Resumes (view d st) wait (outcomeOf (view d st) wait reason xs) ws →
      Closes A d st t w reason
        (.closeWait w (outcomeOf (view d st) wait reason xs).state
          (outcomeOf (view d st) wait reason xs) :: ws)
  | recorded {wait : RunWait} {xs : List AgentRun} {ws : List Write} :
      Evaluates A d st t w wait xs → wait.state ≠ .open →
      (reason = .timeout ∨ (outcomeOf (view d st) wait reason xs).pending = 0) →
      Resumes (view d st) wait (outcomeOf (view d st) wait reason xs) ws →
      Closes A d st t w reason
        (.setWaitResult w (outcomeOf (view d st) wait reason xs) :: ws)

section
variable {A : Sight} {d : Db} {st : Local Row Write} {t : TenantID} {w : WaitID}

theorem wp_resumeParent_writes (hA : Respects A) {wait : RunWait} {outcome : WaitOutcome} :
    wp A d (resumeParent t wait outcome) st (Prog.either
      (fun _ s' => ∃ ws, s'.writes = st.writes ++ ws ∧ Resumes (view d st) wait outcome ws)
      (fun e _ => e ≠ .cancelledCommit)) := by
  unfold resumeParent Waits.markResumed
  rw [wp_bind]
  refine wp_waits_updateIf hA ?_ ?_
  · intro d' hsee hnone
    simp only [Prog.either_ok, Bool.not_false, if_true, wp_pure']
    exact ⟨[], by simp, .before⟩
  intro y d₁ hy hres
  simp only [Prog.either_ok, Bool.not_true, Bool.false_eq_true, if_false, wp_bind]
  refine wp_runs_getForUpdate hA (fun _ => by simp) ?_
  intro p hp ht
  have hp₀ : (view d st).run? wait.parentRunID = some p := by simpa [Write.onRun] using hp
  have hpid : p.id = wait.parentRunID := Db.run?_id hp₀
  simp only [Prog.either_ok]
  cases hterm : p.state.terminal with
  | true =>
    simp only [if_true, wp_pure', Prog.either_ok]
    exact ⟨_, by simp, .finished d₁.clock⟩
  | false =>
    simp only [Bool.false_eq_true, if_false]
    cases hh : p.history.appendWaitResult wait outcome with
    | none => simp
    | some history =>
      simp only [wp_bind]
      obtain rfl : p.tenantID = t := ht
      refine wp_reopen hA (p := p) (by rw [hpid]; simpa using hp) (fun _ _ _ _ _ => by simp) ?_
      intro e now ls _ _ _
      simp only [wp_pure', Prog.either_ok]
      refine ⟨.markResumed wait.id d₁.clock ::
        reopening (view d st) p history e now (.resume wait.id), ?_,
        .injected d₁.clock hp₀ hterm hh⟩
      simp [reopening, nextOf, Write.onSteps]

/-- A resumption looks at runs and steps. -/
theorem Resumes.congr {v v' : Db} {wait : RunWait} {outcome : WaitOutcome} {ws : List Write}
    (h : Resumes v' wait outcome ws) (hruns : ∀ r, v'.run? r = v.run? r)
    (hsteps : ∀ r, v'.stepsOf r = v.stepsOf r) : Resumes v wait outcome ws := by
  cases h with
  | before => exact .before
  | finished now => exact .finished now
  | @injected p h e at_ now hp hterm hh =>
    have hsame : reopening v' p h e at_ (.resume wait.id) = reopening v p h e at_ (.resume wait.id) := by
      simp [reopening, nextOf, hsteps]
    rw [hsame]
    exact .injected now (by rw [← hruns, hp]) hterm hh

/-- The resumption of a wait changes neither the state nor the result of any. -/
theorem Resumes.rows {v e : Db} {wait y : RunWait} {o : WaitOutcome} {ws : List Write}
    (h : Resumes v wait o ws) (hy : (applyAll e ws).wait? w = some y) :
    ∃ x, e.wait? w = some x ∧ y.state = x.state ∧ y.result = x.result ∧ (w ≠ wait.id → y = x) := by
  have hmark : ∀ now, Write.onWait w (e.wait? w) (.markResumed wait.id now) = some y →
      ∃ x, e.wait? w = some x ∧ y.state = x.state ∧ y.result = x.result ∧ (w ≠ wait.id → y = x) := by
    intro now hy
    by_cases hw : w = wait.id
    · simp only [Write.onWait, hw, if_true, Option.map_eq_some_iff] at hy
      obtain ⟨x, hx, rfl⟩ := hy
      exact ⟨x, by rw [hw, hx], rfl, rfl, fun hne => absurd hw hne⟩
    · simp only [Write.onWait, hw, if_false] at hy
      exact ⟨y, hy, rfl, rfl, fun _ => rfl⟩
  cases h with
  | before => exact ⟨y, hy, rfl, rfl, fun _ => rfl⟩
  | finished now => exact hmark now (by simpa using hy)
  | injected now => exact hmark now (by simpa [reopening, Write.onWait] using hy)

theorem wp_tryCloseWait_writes (hA : Respects A) {reason : CloseReason} :
    wp A d (tryCloseWait t w reason) st (Prog.either
      (fun _ s' => ∃ ws, s'.writes = st.writes ++ ws ∧ Closes A d st t w reason ws)
      (fun e _ => e ≠ .cancelledCommit)) := by
  unfold tryCloseWait
  rw [wp_bind, wp_attempt]
  refine wp_waits_getForUpdate hA ?_ ?_
  · simp only [Prog.either_ok, wp_pure']
    exact ⟨[], by simp, .left⟩
  intro wait d₁ hsee hown hrow
  obtain rfl : wait.id = w := Db.wait?_id hrow
  simp only [Prog.either_ok, wp_bind, Waits.members]
  refine wp_query.mpr fun d₂ hsee₂ => ?_
  have hmembers : (applyAll d₂ (st.after [.wait wait.id] []).writes).membersOf wait.id =
      (view d st).membersOf wait.id := by
    have := (hA.wait hsee₂ (w := wait.id) (by simp) (st.after [.wait wait.id] []).writes).2
    simpa using this
  rw [hmembers]
  simp only [Prog.either_ok]
  refine wp_evaluate_reads (fun _ _ _ _ _ => by simp) ?_
  intro xs hxs
  have hreads : Evaluates A d st t wait.id wait xs := ⟨hrow, ⟨d₁, hsee⟩, by simpa [orderedMembers] using hxs⟩
  let o := outcomeOf (view d st) wait reason xs
  -- both ways on to the resumption have written one thing to the wait
  have hresume : ∀ first : Write, (∀ v r, first.onRun r v = v) → (∀ v r, first.onSteps r v = v) →
      (∀ ws, Resumes (view d st) wait o ws → Closes A d st t wait.id reason (first :: ws)) →
      wp A d (resumeParent t wait o) ((st.after [.wait wait.id] []).after [.wait wait.id] [first])
        (Prog.either (fun _ s' => ∃ ws, s'.writes = st.writes ++ ws ∧
          Closes A d st t wait.id reason ws) (fun e _ => e ≠ .cancelledCommit)) := by
    intro first hrun hstep hcloses
    refine wp_either (wp_resumeParent_writes hA) (fun _ _ h => h) ?_
    intro b s' hpost
    obtain ⟨ws, hws, hres⟩ := hpost
    refine ⟨first :: ws, by simpa using hws, hcloses ws (hres.congr ?_ ?_)⟩
    · intro r
      simp [hrun]
    · intro r
      simp [hstep]
  simp only [Prog.either_ok]
  split
  · simp only [wp_pure', Prog.either_ok]
    exact ⟨[], by simp, .left⟩
  rename_i hleft
  have hcond : reason = .timeout ∨ o.pending = 0 := by
    by_cases hr : reason = .timeout
    · exact .inl hr
    · refine .inr ?_
      simp only [ne_eq, hr, not_false_eq_true, and_true, Nat.not_lt, Nat.le_zero] at hleft
      exact hleft
  split
  · rename_i hopen
    rw [wp_bind, Waits.close]
    refine wp_waits_updateIf hA ?_ ?_
    · intro d₃ hsee₃ hnone
      simp only [Prog.either_ok, Bool.not_false, if_true, wp_pure']
      exact ⟨[], by simp, .left⟩
    intro y d₃ hy _
    simp only [Prog.either_ok, Bool.not_true, Bool.false_eq_true, if_false]
    exact hresume _ (fun _ _ => rfl) (fun _ _ => rfl) fun ws => .closed hreads hopen hcond
  · rename_i hclosed
    rw [wp_bind, Waits.setResult, wp_bind]
    refine wp_waits_updateIf hA ?_ ?_
    · intro d₃ hsee₃ hnone
      simp
    · intro y d₃ _ _
      simp only [Prog.either_ok, if_true, wp_pure']
      exact hresume _ (fun _ _ => rfl) (fun _ _ => rfl) fun ws => .recorded hreads hclosed hcond

end

end Ultracore.Protocol
