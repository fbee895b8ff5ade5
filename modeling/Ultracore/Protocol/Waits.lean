-- SUMMARY: What the wait functions of the loop do, as acts of the run protocol.
import Ultracore.Protocol.Integrity
import Ultracore.Protocol.Resumption

/-!
# Wait functions as acts

One walk through each function of `Ultracore.Loop.Waits`. A function that is started
where the transaction has done some acts ends where it has done some more, or fails. How
it fails matters to the callers that treat some errors as signals: none of these functions
fails with a signal, and started without new rows none fails with "not found".

A wait that is looked at is closed and its resumption consumed, or one of its members was
read while it was not terminal.
-/

namespace Ultracore.Protocol

open Txn Loop Tx

/-- What a statement of the program sees. -/
abbrev Seen (cfg : Settings) : List Row → Db → Db → Prop := sees (Integrity cfg)

/-- A way of seeing that shows no more than `Seen` does. -/
class Sharpens (cfg : Settings) (A : List Row → Db → Db → Prop) : Prop where
  seen : ∀ {ls : List Row} {d d' : Db}, A ls d d' → Seen cfg ls d d'

instance (cfg : Settings) : Sharpens cfg (Seen cfg) := ⟨id⟩

theorem respects (cfg : Settings) (A : Sight) [Sharpens cfg A] : Respects A where
  agree h := (respects_sees (Integrity cfg)).agree (Sharpens.seen h)

/-- Errors that are not signals between the functions of the loop. -/
def ordinary : Err → Bool
  | .stale | .cancelledCommit => false
  | _ => true

/-- How a function that was started in `st` may fail. -/
def Fails (st : Local Row Write) (e : Err) : Prop :=
  ordinary e = true ∧ (Plain st.writes → e ≠ .notFound)

theorem Fails.mono {st s : Local Row Write} {e : Err} (h : Fails s e)
    (hplain : Plain st.writes → Plain s.writes) : Fails st e :=
  ⟨h.1, fun hst => h.2 (hplain hst)⟩

/-- What a function has done since it was started in `st` with a debt, and that it adds no
    rows. -/
structure Reached (cfg : Settings) (me : Part) (d : Db) (st s : Local Row Write)
    (debt debt' : Debt) : Prop where
  acts : ActsFrom cfg me d st.writes debt s.writes debt'
  plain : Plain st.writes → Plain s.writes
  locks : ∀ r ∈ st.locks, r ∈ s.locks

namespace Reached

variable {cfg : Settings} {me : Part} {d : Db} {st s₁ s₂ : Local Row Write}
  {debt debt₁ debt₂ : Debt}

theorem refl : Reached cfg me d st st debt debt := ⟨.nil, id, fun _ => id⟩

theorem trans (h₁ : Reached cfg me d st s₁ debt debt₁) (h₂ : Reached cfg me d s₁ s₂ debt₁ debt₂) :
    Reached cfg me d st s₂ debt debt₂ :=
  ⟨h₁.acts.trans h₂.acts, fun h => h₂.plain (h₁.plain h), fun r hr => h₂.locks r (h₁.locks r hr)⟩

/-- One act that adds no row. -/
theorem act {ls : List Row} {ws : List Write}
    (h : Act cfg me st.writes.isEmpty (view d st) debt ws debt₁) (hws : Plain ws) :
    Reached cfg me d st (st.after ls ws) debt debt₁ :=
  ⟨.snoc .nil h, fun hst => hst.append hws, fun r hr => by simp [hr]⟩

end Reached

/-- The wait is found whenever its lock is held. -/
def Findable (A : List Row → Db → Db → Prop) (d : Db) (st : Local Row Write) (t : TenantID)
    (w : WaitID) : Prop :=
  ∀ ls d', (∀ r ∈ st.locks, r ∈ ls) → Row.wait w ∈ ls → A ls d d' →
    ((view d' st).ownWait t w).isSome

/-- A member of the wait was read, and it was not terminal. -/
def SawPending (A : List Row → Db → Db → Prop) (d : Db) (st : Local Row Write) (t : TenantID)
    (w : WaitID) : Prop :=
  ∃ m ∈ (view d st).membersOf w, ∃ d' y, A (st.locks ++ [.wait w]) d d' ∧
    (view d' st).ownRun t m.runID = some y ∧ y.state.terminal = false

section
variable {cfg : Settings} {A : Sight} [Sharpens cfg A] {me : Part} {d : Db}
  {st s : Local Row Write} {debt : Debt} {t : TenantID} {w : WaitID}
variable {payload : EventPayload} {ses : SessionID} {actor : Actor} {p : AgentRun} {debt' : Debt}
  {x : RunWait} {r : RunID} {job : StepJob}

omit [Sharpens cfg A] in
theorem Findable.grow (h : Findable A d st t w) (hlocks : ∀ r ∈ st.locks, r ∈ s.locks)
    {ws : List Write} (hws : s.writes = st.writes ++ ws) : Findable A d s t w := by
  intro ls d' hls hw hsee
  have := h ls d' (fun r hr => hls r (hlocks r hr)) hw hsee
  rw [view, hws, applyAll_append]
  exact (Db.extends_applyAll (view d' st) ws).ownWait this

omit [Sharpens cfg A] in
theorem findable_of_owned (cfg : Settings) [Sharpens cfg A] (h : (d.ownWait t w).isSome) :
    Findable A d st t w := by
  intro ls d' _ hw hsee
  have hseen : Seen cfg ls d d' := Sharpens.seen hsee
  exact (Db.extends_applyAll d' st.writes).ownWait (wait_found hseen hw h)

/-- The statements that an answer and a resumption share. They fail only where the
    session of the run is missing. -/
theorem wp_reopen {h : Envelope} {origin : Origin}
    {E : Err → Local Row Write → Prop} {Q : Post Unit} (hA : Respects A)
    (hp : (view d st).run? p.id = some p)
    (herr : ∀ d' s₁, A s₁.locks d d' → Row.run p.id ∈ s₁.locks →
      (view d' s₁).ownSession p.tenantID p.sessionID = none → E .notFound s₁)
    (hok : ∀ e at_ ls, e.payload = payload → Row.session p.sessionID ∈ ls →
      (∀ r ∈ st.locks, r ∈ ls) →
      Q (.ok ()) ⟨st.writes ++ reopening (view d st) p h e at_ origin, ls⟩) :
    wp A d (Runs.setHistory p.tenantID p.id h origin) st (Prog.either (fun _ s₁ =>
      wp A d (Runs.setState p.tenantID p.id .running "" "") s₁ (Prog.either (fun _ s₂ =>
        wp A d (Events.append p.tenantID p.sessionID actor payload) s₂
          (Prog.either (fun _ s₃ =>
            wp A d (Runs.steps p.tenantID p.id) s₃ (Prog.either (fun steps s₄ =>
              wp A d (Queue.enqueue
                (.step ⟨p.id, p.tenantID, p.sessionID, nextIndex steps⟩) none origin) s₄ Q) E))
            E)) E)) E) := by
  have hown : ((view d st).ownRun p.tenantID p.id).isSome :=
    Option.isSome_iff_exists.mpr ⟨p, Db.ownRun_eq_some.mpr ⟨hp, rfl⟩⟩
  refine wp_runs_update_found hA hown fun _ => ?_
  have hown₁ := (Db.extends_applyAll (view d st) [.setHistory p.id h origin]).ownRun hown
  refine wp_runs_update_found hA (by simpa using hown₁) fun _ => ?_
  refine wp_append hA ?_ ?_
  · intro d' hsee hnone
    exact herr d' _ hsee (by simp) hnone
  intro x hx ht
  refine wp_runs_steps hA (by simp) ?_
  have hsteps : Runs.stepsIn (view d ((((st.after [.run p.id] [.setHistory p.id h origin]).after
      [.run p.id] [.setState p.id .running "" ""])).after [.session p.sessionID, .session p.sessionID]
      [.bumpSeq p.sessionID, .insertEvent ⟨p.sessionID, x.lastSeq + 1, actor, payload⟩]))
      p.tenantID p.id = Runs.sorted ((view d st).stepsOf p.id) := by
    simp [Runs.stepsIn, Db.ownRun, Write.onRun, Write.onSteps, hp, Option.filter]
  rw [hsteps]
  refine wp_enqueue fun now => ?_
  have := hok ⟨p.sessionID, x.lastSeq + 1, actor, payload⟩ now
    (st.locks ++ [.run p.id] ++ [.run p.id] ++ [.session p.sessionID, .session p.sessionID]) rfl
    (by simp) (fun r hr => by simp [hr])
  simpa [Local.after, reopening, nextOf] using this

/-- The session of a locked run is there, as long as the transaction has added no rows. -/
theorem session_missing {s₁ : Local Row Write} {d' : Db}
    (hst : Plain st.writes) (hp : (view d st).run? r = some p) (hs : Seen cfg s₁.locks d d')
    (hr : Row.run r ∈ s₁.locks) : (view d' s₁).ownSession p.tenantID p.sessionID ≠ none := by
  intro hnone
  obtain ⟨x, hx, hsame⟩ := hst.steady.run_before hp
  have := (Db.extends_applyAll d' s₁.writes).ownSession (session_found hs hr hx)
  rw [← hsame.tenantID, ← hsame.sessionID, show (applyAll d' s₁.writes).ownSession _ _ = none from hnone]
    at this
  cases this

variable (cfg me) in
theorem wp_resumeParent (debt : Debt) {wait : RunWait} {outcome : WaitOutcome}
    (hx : (view d st).wait? wait.id = some x) (hpar : x.parentRunID = wait.parentRunID)
    (hlock : Row.wait wait.id ∈ st.locks) (hown : Plain st.writes → (d.ownWait t wait.id).isSome) :
    wp A d (resumeParent t wait outcome) st (Prog.either
      (fun b s' =>
        Reached cfg me d st s' debt (if b then debt.clear wait.parentRunID else debt) ∧
        (Findable A d st t wait.id → (view d s').resumed wait.id = true))
      (fun e _ => Fails st e)) := by
  have hA := respects cfg A
  unfold resumeParent Waits.markResumed
  rw [wp_bind]
  refine wp_waits_updateIf hA ?_ ?_
  · intro d' hsee hnone
    simp only [Prog.either_ok, Bool.not_false, if_true, wp_pure', Bool.false_eq_true, if_false]
    refine ⟨.refl, fun hfind => ?_⟩
    -- the row is there, so it was the mark that made the update skip it
    obtain ⟨y, hy⟩ := Option.isSome_iff_exists.mp (hfind _ _ (fun _ => id) hlock hsee)
    have hy' := (Db.ownWait_eq_some.mp hy).1
    rw [(hA.wait hsee hlock st.writes).1] at hy'
    have hres : y.resumedAt ≠ none := by simpa [hy, Option.filter] using hnone
    simpa [Db.resumed, hy', Option.isSome_iff_ne_none] using hres
  intro y d₁ hy hres
  obtain rfl : y = x := Option.some.inj (hy.symm.trans hx)
  have hres : y.resumedAt = none := by simpa using hres
  have hplain : Plain [Write.markResumed wait.id d₁.clock] := by simp [Plain, Write.adds]
  simp only [Prog.either_ok, Bool.not_true, Bool.false_eq_true, if_false, wp_bind]
  refine wp_runs_getForUpdate hA ?_ ?_
  · intro hnone
    refine ⟨rfl, fun hst _ => ?_⟩
    -- the wait is the tenant's, so its parent is
    obtain ⟨x₀, hx₀⟩ := Option.isSome_iff_exists.mp (hown hst)
    obtain ⟨hx₀, hp₀⟩ := Db.ownWait_eq_some.mp hx₀
    obtain ⟨x₁, hx₁, hsame⟩ := (Db.extends_applyAll d st.writes).wait hx₀
    obtain rfl : x₁ = y := Option.some.inj (hx₁.symm.trans hx)
    rw [← hsame.parentRunID, hpar] at hp₀
    exact Option.isSome_iff_ne_none.mp ((Db.extends_applyAll d _).ownRun hp₀) hnone
  intro p hp ht
  have hp₀ : (view d st).run? wait.parentRunID = some p := by simpa [Write.onRun] using hp
  have hpid : p.id = wait.parentRunID := Db.run?_id hp₀
  simp only [Prog.either_ok]
  cases hterm : p.state.terminal with
  | true =>
    simp only [if_true, wp_pure', Prog.either_ok, Bool.false_eq_true, if_false]
    have hconsume : Reached cfg me d st (st.after [.wait wait.id]
        [.markResumed wait.id d₁.clock]) debt debt := .act (.consume hx hres) hplain
    refine ⟨⟨by simpa using hconsume.acts, fun hst => by simpa using hconsume.plain hst,
      fun r hr => by simp [hr]⟩, fun _ => ?_⟩
    simpa using Db.resumed_markResumed hx d₁.clock []
  | false =>
    simp only [Bool.false_eq_true, if_false]
    cases hh : p.history.appendWaitResult wait outcome with
    | none =>
      simp only [wp_throw, Prog.either_error]
      exact ⟨rfl, fun _ => by simp⟩
    | some history =>
      simp only [wp_bind]
      obtain rfl : p.tenantID = t := ht
      refine wp_reopen hA (p := p) (by rw [hpid]; simpa using hp) ?_ ?_
      · intro d' s₁ hsee hrun hnone
        refine ⟨rfl, fun hst _ => ?_⟩
        rw [hpid] at hrun
        have hseen : Seen cfg s₁.locks d d' := Sharpens.seen hsee
        exact absurd hnone (session_missing hst hp₀ hseen hrun)
      · intro e now ls he _ hls
        have hresume : Act cfg me st.writes.isEmpty (view d st) debt
            (.markResumed wait.id d₁.clock :: reopening (view d st) p history e now
              (.resume wait.id)) (debt.clear p.id) := by
          refine .resume hx hres (by rw [hpar]; exact hp₀) hterm
            (Envelope.appendWaitResult_extends hh) ?_
          rw [he]
          rfl
        rw [hpid] at hresume
        have hnext : reopening (view d ((st.after [.wait wait.id] [.markResumed wait.id d₁.clock]).after
            [.run wait.parentRunID] [])) p history e now (.resume wait.id) =
            reopening (view d st) p history e now (.resume wait.id) := by
          simp [reopening, nextOf, Write.onSteps]
        simp only [wp_pure', Prog.either_ok, if_true]
        rw [hnext]
        refine ⟨⟨?_, fun hst => ?_, fun r hr => hls r (by simp [hr])⟩, fun _ => ?_⟩
        · simpa using ActsFrom.nil.snoc hresume
        · have hmore : Plain (.markResumed wait.id d₁.clock ::
              reopening (view d st) p history e now (.resume wait.id)) := by
            simp [Plain, reopening, Write.adds]
          simpa using hst.append hmore
        · have hdone := Db.resumed_markResumed hx d₁.clock
            (reopening (view d st) p history e now (.resume wait.id))
          simpa [view] using hdone

/-- What became of a wait that was looked at: it is closed and its resumption consumed, or
    it is left alone because of a pending member. -/
def LookedAt (A : List Row → Db → Db → Prop) (d : Db) (st s : Local Row Write) (t : TenantID)
    (w : WaitID) (reason : CloseReason) : Prop :=
  ((view d s).closed w = true ∧ (view d s).resumed w = true) ∨
    (reason = .child ∧ SawPending A d st t w ∧ s.writes = st.writes)

variable (cfg me) in
theorem wp_tryCloseWait (debt : Debt) {reason : CloseReason} (hexp : reason = .timeout → me.expires w)
    (hses : ∀ x p, (view d st).wait? w = some x → (view d st).run? x.parentRunID = some p →
      me.session = some p.sessionID) :
    wp A d (tryCloseWait t w reason) st (Prog.either
      (fun b s' => (b = false → Reached cfg me d st s' debt debt) ∧
        (b = true → ∃ x, (view d st).wait? w = some x ∧
          Reached cfg me d st s' debt (debt.clear x.parentRunID)) ∧
        (Findable A d st t w → LookedAt A d st s' t w reason))
      (fun e _ => Fails st e)) := by
  have hA := respects cfg A
  have hlocked : Reached cfg me d st (st.after [.wait w] []) debt debt :=
    ⟨by simpa using ActsFrom.nil, fun hst => by simpa using hst, fun r hr => by simp [hr]⟩
  unfold tryCloseWait
  rw [wp_bind, wp_attempt]
  refine wp_lockRead.mpr fun d₁ hsee => ?_
  cases hown : (applyAll d₁ st.writes).ownWait t w with
  | none =>
    simp only [Runs.found, Prog.either_ok, wp_pure']
    refine ⟨fun _ => hlocked, by simp, fun hfind => ?_⟩
    exact absurd hown (Option.isSome_iff_ne_none.mp
      (hfind _ _ (fun r hr => by simp [hr]) (by simp) hsee))
  | some x =>
  have hx : (view d st).wait? w = some x := by
    have := (Db.ownWait_eq_some.mp hown).1
    rwa [(hA.wait hsee (by simp) st.writes).1] at this
  have hseen : Seen cfg _ d d₁ := Sharpens.seen hsee
  have hid : x.id = w := Db.wait?_id hx
  have howned : Plain st.writes → (d.ownWait t w).isSome := fun hst =>
    wait_owned hst.steady hseen (Option.isSome_iff_exists.mpr ⟨x, hown⟩)
  simp only [Runs.found, Prog.either_ok, wp_bind, Waits.members]
  refine wp_query.mpr fun d₂ hsee₂ => ?_
  have hmembers : ∀ m ∈ (applyAll d₂ (st.after [.wait w] []).writes).membersOf w,
      m ∈ (view d st).membersOf w := by
    intro m hm
    rw [(hA.wait hsee₂ (by simp) _).2] at hm
    simpa using hm
  simp only [Prog.either_ok]
  refine wp_evaluate ?_ ?_
  · intro m hm d₃ hsee₃ hnone
    refine ⟨rfl, fun hst _ => ?_⟩
    have hm' : m ∈ d.membersOf w := by
      have := hmembers m (by simpa [List.mem_insertionSort] using hm)
      rwa [view, hst.steady.membersOf] at this
    have hseen₃ : Seen cfg _ d d₃ := Sharpens.seen hsee₃
    exact Option.isSome_iff_ne_none.mp ((Db.extends_applyAll d₃ _).ownRun
      (member_found hseen₃ (by simp) (howned hst) hm')) hnone
  intro counted hpending
  -- both ways on to the resumption have written one thing to the wait
  have hresume : ∀ (w₂ : Write) (outcome : WaitOutcome), w₂.adds = false →
      Act cfg me st.writes.isEmpty (view d st) debt [w₂] debt →
      (w₂.apply (view d st)).closed w = true →
      wp A d (resumeParent t x outcome) ((st.after [.wait w] []).after [.wait w] [w₂])
        (Prog.either
          (fun b s' => (b = false → Reached cfg me d st s' debt debt) ∧
            (b = true → ∃ x, (view d st).wait? w = some x ∧
              Reached cfg me d st s' debt (debt.clear x.parentRunID)) ∧
            (Findable A d st t w → LookedAt A d st s' t w reason))
          (fun e _ => Fails st e)) := by
    intro w₂ outcome hadds hact hclosed
    have hstep : Reached cfg me d st ((st.after [.wait w] []).after [.wait w] [w₂]) debt debt :=
      ⟨by simpa using ActsFrom.nil.snoc hact,
        fun hst => by simpa using hst.append (show Plain [w₂] by simpa [Plain] using hadds),
        fun r hr => by simp [hr]⟩
    obtain ⟨x', hx', hsame⟩ := (Db.extends_apply (view d st) w₂).wait hx
    refine wp_either (wp_resumeParent cfg me (x := x') debt (by simpa [hid] using hx')
      hsame.parentRunID (by simp [hid]) ?_) (fun _ _ hfail => Fails.mono hfail hstep.plain) ?_
    · intro hst
      rw [hid]
      exact howned fun w' hw' => hst w' (by simp [hw'])
    rintro b s' ⟨hreach, hdone⟩
    refine ⟨?_, ?_, fun hfind => .inl ⟨?_, ?_⟩⟩
    · rintro rfl
      exact hstep.trans hreach
    · rintro rfl
      exact ⟨x, hx, hstep.trans hreach⟩
    · exact hreach.acts.closed (by simpa using hclosed)
    · rw [← hid]
      have hwrites : ((st.after [.wait w] []).after [.wait w] [w₂]).writes =
          st.writes ++ [w₂] := by simp
      exact hdone (hid.symm ▸ hfind.grow hstep.locks hwrites)
  simp only [Prog.either_ok]
  split
  · rename_i hleft
    simp only [wp_pure', Prog.either_ok]
    refine ⟨fun _ => hlocked, by simp, fun _ => .inr ⟨?_, ?_, by simp⟩⟩
    · cases reason with
      | child => rfl
      | timeout => exact absurd rfl hleft.2
    · obtain ⟨m, hm, d₃, y, hsee₃, hy, hterm⟩ := hpending (by simpa [emptyOutcome] using hleft.1)
      refine ⟨m, hmembers m (by simpa [List.mem_insertionSort] using hm), d₃, y, ?_, ?_, hterm⟩
      · simpa using hsee₃
      · simpa [view] using hy
  split
  · rename_i hopen
    rw [wp_bind, Waits.close]
    refine wp_waits_updateIf hA ?_ ?_
    · intro d₃ hsee₃ hnone
      simp only [Prog.either_ok, Bool.not_false, if_true, wp_pure']
      refine ⟨fun _ => hlocked, by simp, fun hfind => ?_⟩
      -- the row is there and open, as it was read under the lock
      obtain ⟨y, hy⟩ := Option.isSome_iff_exists.mp (hfind _ _ (fun r hr => by simp [hr])
        (by simp) hsee₃)
      have hy' := (Db.ownWait_eq_some.mp hy).1
      rw [(hA.wait hsee₃ (by simp) st.writes).1] at hy'
      obtain rfl : y = x := Option.some.inj (hy'.symm.trans hx)
      have hy : (view d₃ (st.after [.wait w] [])).ownWait t w = some y := by simpa [view] using hy
      rw [hy] at hnone
      simp [Option.filter, hopen] at hnone
    intro y d₃ hy _
    obtain rfl : y = x := Option.some.inj (hy.symm.trans (by simpa using hx))
    simp only [Prog.either_ok, Bool.not_true, Bool.false_eq_true, if_false]
    refine hresume _ _ rfl (.closeWait hx hopen ?_ ?_ (fun p hp => hses y p hx hp)) ?_
    · split <;> decide
    · intro hst
      split at hst
      · rename_i htimed
        exact hexp (by simpa using (Bool.and_eq_true_iff.mp htimed).1)
      · cases hst
    · have hne : (if (decide (reason = .timeout) && decide (counted.pending > 0)) = true then
          WaitState.timedOut else .resolved) ≠ .open := by split <;> decide
      simpa [Db.closed, Write.onWait, hx] using hne
  · rename_i hclosed
    rw [wp_bind, Waits.setResult, wp_bind]
    refine wp_waits_updateIf hA ?_ ?_
    · intro d₃ hsee₃ hnone
      simp only [Prog.either_ok, Bool.false_eq_true, if_false, wp_throw, Prog.either_error]
      refine ⟨rfl, fun hst _ => ?_⟩
      have hseen₃ : Seen cfg _ d d₃ := Sharpens.seen hsee₃
      have := (Db.extends_applyAll d₃ (st.after [.wait w] []).writes).ownWait
        (wait_found hseen₃ (by simp) (howned hst))
      obtain ⟨z, hz⟩ := Option.isSome_iff_exists.mp this
      rw [show (view d₃ (st.after [.wait w] [])).ownWait t w = some z from hz] at hnone
      cases hnone
    · intro y d₃ _ _
      simp only [Prog.either_ok, if_true, wp_pure']
      refine hresume _ _ rfl (.quiet rfl) ?_
      simpa [Db.closed, Write.onWait, hx] using hclosed

/-- Every wait that was seen open with the run as a member has been looked at. -/
structure Resolves (cfg : Settings) (A : List Row → Db → Db → Prop) (me : Part) (d : Db)
    (st s : Local Row Write) (t : TenantID) (child : RunID) : Prop where
  acts : Reached cfg me d st s none none
  visits : ∃ d', A st.locks d d' ∧ ∀ x ∈ (view d' st).waits,
    Waits.isOpenForChild (view d' st) t child x = true →
    ∃ s₁ s₂, Reached cfg me d st s₁ none none ∧
      (Findable A d s₁ t x.id → LookedAt A d s₁ s₂ t x.id .child) ∧ Reached cfg me d s₂ s none none

variable (cfg me) in
/-- Waits of which the run is a member are in its session. -/
theorem wp_resolveChildWaits {child : RunID} (hv : Integrity cfg (view d st))
    (hchild : ∃ y, (view d st).run? child = some y ∧ me.session = some y.sessionID) :
    wp A d (resolveChildWaits t child) st (Prog.either
      (fun _ s' => Resolves cfg A me d st s' t child) (fun e _ => Fails st e)) := by
  unfold resolveChildWaits
  rw [wp_bind]
  refine wp_query.mpr fun d' hsee => ?_
  have hseen : Seen cfg st.locks d d' := Sharpens.seen hsee
  simp only [Prog.either_ok]
  refine wp_either (wp_forEach_visits (R := fun s₁ s₂ => Reached cfg me d s₁ s₂ none none)
    (V := fun x s₁ s₂ => Findable A d s₁ t x.id → LookedAt A d s₁ s₂ t x.id .child)
    (E := fun e _ => Fails st e) (fun _ => .refl) .trans ?_) (fun _ _ h => h) ?_
  · intro w hw s hs
    rw [wp_bind]
    refine wp_either (wp_tryCloseWait cfg me none (by simp) ?_)
      (fun _ _ hpost => Fails.mono hpost hs.plain) ?_
    · intro x p hx hp
      obtain ⟨m, hm, rfl⟩ : ∃ m ∈ (view d' st).membersOf w.id, m.runID = child := by
        have := (List.mem_filter.mp hw).2
        simpa [Waits.isOpenForChild] using (Bool.and_eq_true_iff.mp this).2
      -- the member that the list shows is still there
      have hm₁ : m ∈ (view d st).membersOf w.id :=
        Db.membersOf_applyAll_subset (hseen.2.2.members w.id).subset st.writes hm
      have hext := hs.acts.extends
      obtain ⟨x', p', y, hx', hp', hy, -, hses⟩ :=
        (hs.acts.integrity hv).member ((hext.members w.id).subset hm₁)
      cases hx'.symm.trans hx
      cases hp'.symm.trans hp
      obtain ⟨y₀, hy₀, hme⟩ := hchild
      obtain ⟨y₁, hy₁, hsame⟩ := hext.run hy₀
      cases hy₁.symm.trans hy
      rw [hme, ← hses, hsame.sessionID]
    intro b s' hpost
    simp only [Prog.either_ok, wp_pure']
    cases b with
    | false => exact ⟨hpost.1 rfl, hpost.2.2⟩
    | true =>
      obtain ⟨x, -, hreach⟩ := hpost.2.1 rfl
      exact ⟨hreach, hpost.2.2⟩
  · intro _ s' hpost
    exact ⟨hpost.1, d', hsee, fun x hx hopen => hpost.2 x (List.mem_filter.mpr ⟨hx, hopen⟩)⟩

variable (cfg me) in
/-- Abandoning never fails. -/
theorem wp_abandonParentWaits (debt : Debt) {parent : RunID} (hun : Steady st.writes)
    (hparent : ∃ p, (view d st).run? parent = some p ∧ me.session = some p.sessionID) :
    wp A d (abandonParentWaits t parent) st (Prog.either
      (fun _ s' => Reached cfg me d st s' debt debt) (fun _ _ => False)) := by
  have hA := respects cfg A
  unfold abandonParentWaits
  rw [wp_bind]
  refine wp_query.mpr fun d' hsee => ?_
  have hseen : Seen cfg st.locks d d' := Sharpens.seen hsee
  refine wp_forEach (I := fun s => Reached cfg me d st s debt debt) ?_ .refl
  intro w hw s hs
  have hmark : ∀ s, Reached cfg me d st s debt debt → wp A d
      (Waits.markResumed t w.id) s (Prog.either (fun _ s' => Reached cfg me d st s' debt debt)
        (fun _ _ => False)) := by
    intro s hs
    refine wp_waits_updateIf hA (fun _ _ _ => hs) ?_
    intro x d₁ hx hres
    exact hs.trans (.act (.consume hx (by simpa using hres)) (by simp [Plain, Write.adds]))
  simp only [wp_bind]
  refine wp_waits_updateIf hA ?_ ?_
  · intro _ _ _
    refine wp_either (hmark s hs) (fun _ _ hpost => hpost.elim) ?_
    intro b s' hpost
    simpa using hpost
  · intro x d₁ hx hopen
    have hses : ∀ p, (view d s).run? x.parentRunID = some p → me.session = some p.sessionID := by
      intro p hp
      obtain ⟨hwaits, hw⟩ := List.mem_filter.mp hw
      have hw : w.parentRunID = parent := by
        simp only [Waits.isOpenForParent, Bool.and_eq_true, decide_eq_true_eq] at hw
        exact hw.1.2
      have hnodup : (view d' st).waitIDs.Nodup := by
        rw [view, hun.waitIDs]
        exact hseen.2.1.waitIDs
      obtain ⟨z, hz, hzw⟩ := hun.wait_before (Db.wait?_of_mem hnodup hwaits)
      obtain ⟨x', hx', hzx⟩ := (hseen.2.2.trans (Db.extends_applyAll d s.writes)).wait hz
      cases hx'.symm.trans hx
      obtain ⟨p₀, hp₀, hme⟩ := hparent
      obtain ⟨p', hp', hsame⟩ := hs.acts.extends.run hp₀
      rw [hzx.parentRunID, ← hzw.parentRunID, hw] at hp
      cases hp'.symm.trans hp
      rw [hme, hsame.sessionID]
    refine wp_either (hmark _ (hs.trans (.act (.closeWait hx (by simpa using hopen) (by decide) (by simp)
      hses) (by simp [Plain, Write.adds])))) (fun _ _ hpost => hpost.elim) ?_
    intro b s' hpost
    simpa using hpost

/-- An event was appended to the log of session `ses`. -/
structure Logged (cfg : Settings) (me : Part) (d : Db) (st s : Local Row Write) (ses : SessionID)
    (payload : EventPayload) (debt debt' : Debt) : Prop extends
    Reached cfg me d st s debt debt' where
  lock : Row.session ses ∈ s.locks
  writes : ∃ e : Event, e.payload = payload ∧ e.sessionID = ses ∧
    s.writes = st.writes ++ [.bumpSeq ses, .insertEvent e]

theorem Logged.steady (h : Logged cfg me d st s ses payload debt debt') (hst : Steady st.writes) :
    Steady s.writes := by
  obtain ⟨e, -, -, hws⟩ := h.writes
  rw [hws]
  exact hst.append (by simp [Steady, Write.enters])

variable (cfg me) in
/-- An event whose insertion is an act. -/
theorem wp_append_act (debt debt' : Debt)
    (hact : ∀ (e : Event) (first : Bool) (v : Db), e.sessionID = ses → e.payload = payload →
      Act cfg me first v debt [.insertEvent e] debt') :
    wp A d (Events.append t ses actor payload) st (Prog.either
      (fun _ s' => Logged cfg me d st s' ses payload debt debt')
      (fun e s' => e = .notFound ∧ s' = st ∧
        ∃ d', A st.locks d d' ∧ (view d' st).ownSession t ses = none)) := by
  refine wp_append (respects cfg A) ?_ ?_
  · intro d' hsee hnone
    exact ⟨rfl, rfl, d', hsee, hnone⟩
  · intro x hx ht
    have hbump : ActsFrom cfg me d st.writes debt (st.writes ++ [.bumpSeq ses]) debt :=
      .snoc .nil (.quiet rfl)
    refine ⟨⟨?_, fun hst => hst.append (by simp [Plain, Write.adds]), fun r hr => by simp [hr]⟩,
      by simp, ⟨ses, x.lastSeq + 1, actor, payload⟩, rfl, rfl, by simp⟩
    simpa using hbump.snoc (hact ⟨ses, x.lastSeq + 1, actor, payload⟩ _ _ rfl rfl)

variable (cfg me) in
/-- An event that ends neither a step nor a run. -/
theorem wp_append_quiet (debt : Debt)
    (hp : payload.routine = true) : wp A d (Events.append t ses actor payload) st (Prog.either
      (fun _ s' => Logged cfg me d st s' ses payload debt debt)
      (fun e s' => e = .notFound ∧ s' = st ∧
        ∃ d', A st.locks d d' ∧ (view d' st).ownSession t ses = none)) :=
  wp_append_act cfg me debt debt fun e _ _ _ he => .quiet (by simp [Write.quiet, he, hp])

variable (cfg me) in
/-- The event that announces the end of a run. -/
theorem wp_append_verdict {out : RunState} (hr : me.ends = some r) (hs : me.session = some ses)
    (hp : payload.verdict? = some (r, out)) :
    wp A d (Events.append t ses actor payload) st (Prog.either
      (fun _ s' => Logged cfg me d st s' ses payload (some (r, .verdict out)) none)
      (fun e s' => e = .notFound ∧ s' = st ∧
        ∃ d', A st.locks d d' ∧ (view d' st).ownSession t ses = none)) :=
  wp_append_act cfg me _ _ fun e _ _ hes he => .announce hr (by rw [hes, hs]) (by rw [he, hp])

/-! ## Creating a wait -/

variable (cfg me) in
/-- The parent of a new wait is locked, so the wait is found from then on. -/
theorem wp_waits_create {debt : Debt} {ms : List RunWaitMember}
    {k : Nat} (hdebt : debt = some (job.runID, .successor k))
    (hjob : me.job = some job) (hopens : me.opens x.id)
    (hparent : x.parentRunID = job.runID) (hses : me.session = some p.sessionID)
    (hpar : (view d st).run? x.parentRunID = some p) (ht : p.tenantID = t)
    (hlock : Row.run x.parentRunID ∈ st.locks) (hst : Steady st.writes)
    (hid : x.id = deterministicWaitID cfg x.parentRunID x.stepIndex x.toolCallID)
    (hstep : ∃ s ∈ (view d st).stepsOf x.parentRunID, s.stepIndex = x.stepIndex)
    (hms : ∀ m ∈ ms, m.waitID = x.id ∧
      ∃ y, (view d st).run? m.runID = some y ∧ y.tenantID = p.tenantID ∧ y.sessionID = p.sessionID) :
    wp A d (Waits.create t x ms) st (Prog.either
      (fun _ s' => ActsFrom cfg me d st.writes debt s'.writes debt ∧
        (∀ r ∈ st.locks, r ∈ s'.locks) ∧ Findable A d s' t x.id)
      (fun e _ => ordinary e = true)) := by
  have hA := respects cfg A
  unfold Waits.create
  rw [Waits.forEach_insertMember fun m hm => (hms m hm).1, wp_bind]
  refine wp_waits_insert hA ?_ ?_
  · simp only [Prog.either_ok, Bool.false_eq_true, if_false, wp_bind, Waits.get]
    refine wp_lockRead.mpr fun d' hsee => ?_
    cases hown : (applyAll d' st.writes).ownWait t x.id with
    | none => rfl
    | some y =>
      have hseen : Seen cfg _ d d' := Sharpens.seen hsee
      have hd := wait_owned hst hseen (Option.isSome_iff_exists.mpr ⟨y, hown⟩)
      simp only [Runs.found, Prog.either_ok, wp_pure', Local.after_nil]
      exact ⟨.nil, fun _ => id, findable_of_owned cfg hd⟩
  intro hnone
  simp only [Prog.either_ok, if_true]
  -- the wait and the runs stay as they are while members are added
  refine wp_either (P := fun _ s => ActsFrom cfg me d st.writes debt s.writes debt ∧
      (view d s).wait? x.id = some (Waits.inserted x) ∧
      (∀ r, (view d s).run? r = (view d st).run? r) ∧
      ∀ r ∈ Row.wait x.id :: st.locks, r ∈ s.locks) (wp_forEach ?_ ?_) (fun _ _ h => h) ?_
  · rintro m hm s ⟨hacts, hwait, hruns, hlocks⟩
    obtain ⟨hmw, y, hy, hty, hsy⟩ := hms m hm
    have hlocks' : ∀ ws, ∀ r ∈ Row.wait x.id :: st.locks, r ∈ (s.after [.wait m.waitID] ws).locks :=
      fun ws r hr => List.mem_append_left _ (hlocks r hr)
    refine wp_waits_insertMember rfl ?_ ?_
    · exact ⟨by simpa using hacts, by simpa using hwait, by simpa using hruns, hlocks' []⟩
    · refine ⟨hacts.snoc (.addMember (w := Waits.inserted x) (p := p) (x := y) (hmw ▸ hopens)
        hses ?_ ?_ ?_ hty hsy), ?_, ?_, hlocks' _⟩
      · rw [hmw]
        exact hwait
      · exact (hruns _).trans hpar
      · exact (hruns _).trans hy
      · simpa [Write.onWait] using hwait
      · simpa [Write.onRun] using hruns
  · refine ⟨.snoc .nil ?_, ?_, ?_, ?_⟩
    · rw [hdebt]
      exact .openWait (w := Waits.inserted x) (p := p) hjob hopens hparent hses hnone rfl rfl hid hpar
        hstep
    · have : (view d st).wait? x.id = none := hnone
      simp [Write.onWait, this, Waits.inserted]
    · intro r
      simp [Write.onRun]
    · intro r hr
      rcases List.mem_cons.mp hr with rfl | hr <;> simp [*]
  · rintro _ s' ⟨hacts, hwait, hruns, hlocks⟩
    refine ⟨hacts, fun r hr => hlocks r (by simp [hr]), ?_⟩
    intro ls d' hls hw hsee
    have hrow : (view d' s').wait? x.id = some (Waits.inserted x) :=
      ((hA.wait hsee hw s'.writes).1).trans hwait
    have hrun : (view d' s').run? x.parentRunID = some p :=
      ((hA.run hsee (hls _ (hlocks _ (by simp [hlock]))) s'.writes).1).trans ((hruns _).trans hpar)
    refine Option.isSome_iff_exists.mpr ⟨_, Db.ownWait_eq_some.mpr ⟨hrow, ?_⟩⟩
    exact Option.isSome_iff_exists.mpr ⟨p, Db.ownRun_eq_some.mpr ⟨hrun, ht⟩⟩

/-- A wait with this id is the parent's: the id tells. -/
theorem parent_of_waitID {v : Db} (hv : Integrity cfg v) {i : Nat} {call : String}
    (hx : v.wait? (deterministicWaitID cfg r i call) = some x) : x.parentRunID = r := by
  exact (deterministicWaitID_inj (hv.waitID hx)).1.symm

/-- Wait `w` was opened and looked at once. -/
structure Opens (cfg : Settings) (A : List Row → Db → Db → Prop) (me : Part) (d : Db)
    (st s : Local Row Write) (t : TenantID) (w : WaitID) (debt debt' : Debt) : Prop where
  visit : ∃ s₁ s₂, ActsFrom cfg (me.opening w) d st.writes debt s₁.writes debt ∧
    LookedAt A d s₁ s₂ t w .child ∧ (∀ r ∈ st.locks, r ∈ s₁.locks) ∧
    ActsFrom cfg me.still d s₁.writes debt s₂.writes debt' ∧
    ActsFrom cfg me.still d s₂.writes debt' s.writes debt'

omit [Sharpens cfg A] in
theorem Opens.acts (h : Opens cfg A me d st s t w debt debt') (hw : me.opens w) :
    ActsFrom cfg me d st.writes debt s.writes debt' := by
  obtain ⟨s₁, s₂, hopen, -, -, hlook, hrest⟩ := h.visit
  exact (hopen.mono (Part.opening_le hw)).trans ((hlook.trans hrest).mono me.still_le)

omit [Sharpens cfg A] in
theorem Opens.writes (h : Opens cfg A me d st s t w debt debt') :
    ∃ ws, s.writes = st.writes ++ ws := by
  obtain ⟨s₁, s₂, hopen, -, -, hlook, hrest⟩ := h.visit
  obtain ⟨ws₁, hws₁⟩ := hopen.writes
  obtain ⟨ws₂, hws₂⟩ := (hlook.trans hrest).writes
  exact ⟨ws₁ ++ ws₂, by rw [hws₂, hws₁, List.append_assoc]⟩

variable (cfg me) in
/-- Either the run is to park, or it was resumed and has a job for its next step. -/
theorem wp_createWait {run : AgentRun} {rec : StepRecorder} {i : Nat}
    (hjob : me.job = some job) (hid : run.id = job.runID) (hses : me.session = some p.sessionID)
    (hv : Integrity cfg (view d st)) (hrun : (view d st).run? run.id = some p)
    (ht : p.tenantID = run.tenantID) (hlock : Row.run run.id ∈ st.locks) (hst : Steady st.writes)
    (hstep : ∃ s ∈ (view d st).stepsOf run.id, s.stepIndex = job.stepIndex)
    (hids : ∀ id ∈ rec.waitRunIDs, ∃ x, (view d st).run? id = some x ∧
      x.tenantID = p.tenantID ∧ x.sessionID = p.sessionID) :
    wp A d (createWait cfg run job rec) st (Prog.either
      (fun park s' => Opens cfg A me d st s' run.tenantID
        (deterministicWaitID cfg run.id job.stepIndex rec.waitToolCallID) (some (run.id, .successor i))
        (if park then some (run.id, .successor i) else none))
      (fun e _ => ordinary e = true)) := by
  unfold createWait
  simp only [wp_bind, Tx.now]
  refine wp_query.mpr fun d' _ => ?_
  simp only [Prog.either_ok]
  let w := deterministicWaitID cfg run.id job.stepIndex rec.waitToolCallID
  have hdebt : (some (run.id, .successor i) : Debt) = some (job.runID, .successor i) := by rw [hid]
  refine wp_either (wp_waits_create cfg (me.opening w) (p := p) hdebt hjob rfl hid hses hrun ht hlock
    hst rfl hstep ?_) (fun _ _ h => h) ?_
  · intro m hm
    simp only [waitMembers, List.mem_map] at hm
    obtain ⟨⟨id, n⟩, hmem, rfl⟩ := hm
    have hid : id ∈ rec.waitRunIDs := (List.mem_zipIdx hmem).2.2 ▸ List.getElem_mem _
    exact ⟨rfl, hids id hid⟩
  rintro _ s₁ ⟨hacts, hlocks, hfind⟩
  have hv₁ : Integrity cfg (view d s₁) := hacts.integrity hv
  simp only [Prog.either_ok]
  refine wp_either (wp_tryCloseWait cfg me.still (some (run.id, .successor i)) (by simp) ?_)
    (fun _ _ hclose => hclose.1) ?_
  · intro x q hx hq
    obtain ⟨q', hq', hsame⟩ := hacts.extends.run hrun
    rw [parent_of_waitID hv₁ hx] at hq
    cases hq'.symm.trans hq
    exact hses.trans (by rw [hsame.sessionID])
  intro b s₂ hclose
  simp only [Prog.either_ok]
  cases b with
  | true =>
    obtain ⟨x, hx, hreach⟩ := hclose.2.1 rfl
    rw [parent_of_waitID hv₁ hx] at hreach
    simp only [if_true, wp_pure', Prog.either_ok, Bool.false_eq_true, if_false]
    exact ⟨s₁, s₂, hacts, hclose.2.2 hfind, hlocks, by simpa using hreach.acts, .nil⟩
  | false =>
    simp only [Bool.false_eq_true, if_false, wp_bind]
    refine wp_enqueue fun now => ?_
    simp only [Prog.either_ok, wp_pure', if_true]
    exact ⟨s₁, s₂, hacts, hclose.2.2 hfind, hlocks, (hclose.1 rfl).acts,
      .snoc .nil (.quiet rfl)⟩

end

end Ultracore.Protocol
