-- SUMMARY: The members of a wait are the children that the tool call named, and what is injected accounts for them.
import Ultracore.Loop.Outcomes
import Ultracore.Protocol.Closing
import Ultracore.Protocol.Emission

/-!
# Fan-in

A call of `wait_for_agents` or `run_agent_cohort` names children. The commit of the step stores
them as the members of a wait, once each and in their order, and nothing is added later. So what
`tryCloseWait` counts, in whichever transaction, are the children that the call named.
-/

namespace Ultracore

open Txn Loop

/-- Children of a run, as `Children` lists them. -/
def Db.listedChildren (d : Db) (t : TenantID) (r : RunID) : List AgentRun :=
  (Runs.childrenIn d t r).insertionSort fun x y => x.cohortOrdinal ≤ y.cohortOrdinal

namespace Protocol

open Tx

/-! ## Named children -/

/-- A tool call that waits for children. -/
inductive FanIn where
  | waitForAgents (callID : String) (runIDs : List String)
  | runAgentCohort (callID : String) (specs : List ChildSpec)

def FanIn.callID : FanIn → String
  | .waitForAgents callID _ | .runAgentCohort callID _ => callID

/-- The calls that were made: by which run, in which step, and tables there were meanwhile. -/
abbrev Calls := RunID → Nat → FanIn → Db → Prop

variable {S S' : Calls} {d₀ d d' : Db} {parent : RunID} {step : Nat} {call : String}
  {ids : List RunID} {x : RunWait}

/-- The children that a call of a step names, where the tables were `d₀` when it was called and
    are `d` now: those that match its arguments among the children of the run; or those that it
    has spawned, one for each spec. -/
inductive Names (d₀ d : Db) (parent : RunID) (step : Nat) : FanIn → List RunID → Prop where
  | waitForAgents {call : String} {raws : List String} {p : AgentRun} {ids : List RunID} :
      d₀.run? parent = some p →
      namedChildren (d₀.listedChildren p.tenantID parent) raws = some ids →
      Names d₀ d parent step (.waitForAgents call raws) ids
  | runAgentCohort {call : String} {specs : List ChildSpec} {ids : List RunID} :
      ids.length = specs.length →
      (∀ i id, ids[i]? = some id → ∃ y, d.run? id = some y ∧
        y.spawnKey = spawnKey parent step (cohortCall call i)) →
      Names d₀ d parent step (.runAgentCohort call specs) ids

theorem Names.later {f : FanIn} (h : Names d₀ d parent step f ids) (hd : d.Extends d') :
    Names d₀ d' parent step f ids := by
  cases h with
  | waitForAgents hp hids => exact .waitForAgents hp hids
  | runAgentCohort hlen hkeys =>
    refine .runAgentCohort hlen fun i id hi => ?_
    obtain ⟨y, hy, hkey⟩ := hkeys i id hi
    obtain ⟨z, hz, hsame⟩ := hd.run hy
    exact ⟨z, hz, hsame.spawnKey.trans hkey⟩

/-- A call with this id, of this step, was made and names `ids`. -/
def Asked (S : Calls) (d : Db) (parent : RunID) (step : Nat) (call : String) (ids : List RunID) :
    Prop :=
  ∃ f d₀, S parent step f d₀ ∧ f.callID = call ∧ Names d₀ d parent step f ids

theorem Asked.later (h : Asked S d parent step call ids) (hd : d.Extends d') :
    Asked S d' parent step call ids := by
  obtain ⟨f, d₀, hf, hcall, hnames⟩ := h
  exact ⟨f, d₀, hf, hcall, hnames.later hd⟩

theorem Asked.mono (h : Asked S d parent step call ids) (hS : ∀ r i f d₀, S r i f d₀ → S' r i f d₀) :
    Asked S' d parent step call ids := by
  obtain ⟨f, d₀, hf, hcall, hnames⟩ := h
  exact ⟨f, d₀, hS _ _ _ _ hf, hcall, hnames⟩

/-- The children of a cohort differ, since they were spawned under different keys. -/
theorem cohort_nodup (h : ∀ i id, ids[i]? = some id → ∃ y, d.run? id = some y ∧
    y.spawnKey = spawnKey parent step (cohortCall call i)) : ids.Nodup := by
  refine List.nodup_iff_getElem?_ne_getElem?.mpr fun i j hij hj heq => ?_
  obtain ⟨y, hy, hkey⟩ := h j _ (List.getElem?_eq_getElem hj)
  obtain ⟨z, hz, hkey'⟩ := h i _ (heq.trans (List.getElem?_eq_getElem hj))
  cases hy.symm.trans hz
  have := (cohortCall_inj (spawnKey_inj (hkey'.symm.trans hkey)).2.2).2
  omega

/-! ## Members -/

/-- The members of every wait are the children that its tool call named. -/
structure Enrolled (S : Calls) (d : Db) : Prop where
  members : ∀ {w : WaitID} {x : RunWait}, d.wait? w = some x → ∃ ids,
    Asked S d x.parentRunID x.stepIndex x.toolCallID ids ∧ d.membersOf w = waitMembers w (dedup ids)
  orphans : ∀ {w : WaitID}, d.wait? w = none → d.membersOf w = []

theorem Enrolled.mono (h : Enrolled S d) (hS : ∀ r i f d₀, S r i f d₀ → S' r i f d₀) :
    Enrolled S' d where
  members hx := by
    obtain ⟨ids, hasked, hids⟩ := h.members hx
    exact ⟨ids, hasked.mono hS, hids⟩
  orphans := h.orphans

theorem Enrolled.clock (h : Enrolled S d) (t : Time) : Enrolled S { d with clock := t } where
  members hx := by
    obtain ⟨ids, hasked, hids⟩ := h.members hx
    exact ⟨ids, hasked.later (Db.extends_clock d t), hids⟩
  orphans := h.orphans

/-- Writes that add neither a wait nor a member and inject no outcome. -/
def Write.plainly : Write → Bool
  | .insertWait _ | .insertMember _ | .setHistory _ _ (.resume _) => false
  | _ => true

/-- Writes that add a wait or a member. -/
def Write.enrols : Write → Bool
  | .insertWait _ | .insertMember _ => true
  | _ => false

theorem Enrolled.apply (h : Enrolled S d) {wr : Write} (hwr : Write.enrols wr = false) :
    Enrolled S (wr.apply d) := by
  have hmembers : ∀ w, (wr.apply d).membersOf w = d.membersOf w := by
    intro w
    rw [Db.membersOf_apply]
    cases wr <;> first | rfl | cases hwr
  have hwait : ∀ w, d.wait? w = none → (wr.apply d).wait? w = none := by
    intro w hw
    rw [Db.wait?_apply, hw]
    cases wr with
    | insertWait => cases hwr
    | closeWait w' | claimWait w' | setWaitResult w' | markResumed w' =>
      by_cases hw' : w = w' <;> simp [Write.onWait, hw']
    | _ => rfl
  refine ⟨fun {w y} hy => ?_, fun {w} hw => ?_⟩
  · cases hx : d.wait? w with
    | none => cases (hwait w hx).symm.trans hy
    | some =>
      obtain ⟨z, hz, hsame⟩ := (Db.extends_apply d wr).wait hx
      cases hz.symm.trans hy
      obtain ⟨ids, hnames, hids⟩ := h.members hx
      refine ⟨ids, ?_, (hmembers w).trans hids⟩
      rw [hsame.parentRunID, hsame.stepIndex, hsame.toolCallID]
      exact hnames.later (Db.extends_apply d wr)
  · rw [hmembers]
    cases hx : d.wait? w with
    | none => exact h.orphans hx
    | some =>
      obtain ⟨z, hz, -⟩ := (Db.extends_apply d wr).wait hx
      cases hz.symm.trans hw

theorem Enrolled.applyAll (h : Enrolled S d) {ws : List Write} (hws : ∀ wr ∈ ws, Write.enrols wr = false) :
    Enrolled S (applyAll d ws) :=
  applyAll_keeps (K := fun e : Db => Enrolled S e) (fun wr hwr _ he => he.apply (hws wr hwr)) h

/-- A new wait is enrolled by the rows of the children that its call named. -/
theorem Enrolled.enrol (h : Enrolled S d) (hnone : d.wait? x.id = none)
    (hnames : Asked S d x.parentRunID x.stepIndex x.toolCallID ids) : Enrolled S (Txn.applyAll d
      (.insertWait x :: (waitMembers x.id (dedup ids)).map Write.insertMember)) := by
  obtain ⟨ws, hws⟩ : ∃ ws : List Write, ws = .insertWait x ::
    (waitMembers x.id (dedup ids)).map Write.insertMember := ⟨_, rfl⟩
  rw [← hws]
  have hwait : ∀ w, (Txn.applyAll d ws).wait? w = if w = x.id then some x else d.wait? w := by
    intro w
    rw [hws, applyAll_cons, insertMembers_same (f := fun e => e.wait? w) (fun _ _ _ => rfl)]
    by_cases hw : w = x.id <;> simp [Write.onWait, hw, hnone]
  have hmembers : ∀ w, (Txn.applyAll d ws).membersOf w =
      if w = x.id then waitMembers x.id (dedup ids) else d.membersOf w := by
    intro w
    rw [hws, applyAll_cons]
    by_cases hw : w = x.id
    · subst hw
      rw [membersOf_insertMembers _ fun m hm => waitID_of_mem_waitMembers hm]
      simp [Write.onMembers, h.orphans hnone]
    · rw [insertMembers_same (f := fun e => e.membersOf w) fun m hm e => ?_]
      · simp [Write.onMembers, hw]
      · simp [Write.onMembers, waitID_of_mem_waitMembers hm, hw]
  have hext := Db.extends_applyAll d ws
  refine ⟨fun {w y} hy => ?_, fun {w} hw => ?_⟩
  · rw [hwait] at hy
    rw [hmembers]
    split at hy
    · rename_i hw
      cases hy
      exact ⟨ids, hnames.later hext, by rw [if_pos hw, hw]⟩
    · rename_i hw
      obtain ⟨ids', hnames', hids⟩ := h.members hy
      exact ⟨ids', hnames'.later hext, by rw [if_neg hw, hids]⟩
  · rw [hwait] at hw
    rw [hmembers]
    split at hw
    · cases hw
    · rename_i hne
      rw [if_neg hne, h.orphans hw]

/-! ## What a transaction injects -/

section
variable {A : Sight} {reason : CloseReason} {ws ws' : List Write}
variable {w : WaitID} {st : Local Row Write} {xs : List AgentRun} {wait : RunWait} {t : TenantID}
  {run : AgentRun} {hist : Envelope}

/-- The history `h` of run `r` holds the outcome of wait `w`, counted over the members that the
    transaction found after some of its writes. -/
structure Injected (S : Calls) (A : List Row → Db → Db → Prop) (d : Db) (reason : CloseReason) (ws : List Write)
    (r : RunID) (h : Envelope) (w : WaitID) (st : Local Row Write) (t : TenantID) (wait : RunWait)
    (p : AgentRun) (xs : List AgentRun) : Prop where
  sofar : st.writes <+: ws
  enrolled : Enrolled S (view d st)
  evaluated : Evaluates A d st t w wait xs
  parent : (view d st).run? wait.parentRunID = some p
  run : p.id = r
  history : p.history.appendWaitResult wait (outcomeOf (view d st) wait reason xs) = some h

/-- The transaction keeps the members of waits, and injects outcomes that are counted over them. -/
structure Accounted (S : Calls) (A : List Row → Db → Db → Prop) (d : Db) (reason : CloseReason)
    (ws : List Write) : Prop where
  enrolled : Enrolled S (applyAll d ws)
  injected : ∀ {r : RunID} {h : Envelope} {w : WaitID}, .setHistory r h (.resume w) ∈ ws →
    ∃ st t wait p xs, Injected S A d reason ws r h w st t wait p xs

theorem Accounted.nil (h : Enrolled S d) : Accounted S A d reason [] :=
  ⟨h, fun hmem => absurd hmem (by simp)⟩

/-- Old injections stay what they are. -/
theorem Accounted.before (h : Accounted S A d reason ws) {r : RunID}
    (hmem : .setHistory r hist (.resume w) ∈ ws) :
    ∃ st t wait p xs, Injected S A d reason (ws ++ ws') r hist w st t wait p xs := by
  obtain ⟨st, t, wait, p, xs, hin⟩ := h.injected hmem
  exact ⟨st, t, wait, p, xs, { hin with sofar := hin.sofar.trans (List.prefix_append _ _) }⟩

theorem Accounted.plainly (h : Accounted S A d reason ws) (hws : ∀ wr ∈ ws', Write.plainly wr = true) :
    Accounted S A d reason (ws ++ ws') := by
  refine ⟨?_, fun {r hist w} hmem => ?_⟩
  · rw [applyAll_append]
    refine h.enrolled.applyAll fun wr hwr => ?_
    have := hws wr hwr
    cases wr <;> first | rfl | cases this
  · rcases List.mem_append.mp hmem with hmem | hmem
    · exact h.before hmem
    · cases hws _ hmem

/-- Closing a wait keeps the members, and injects an outcome that is counted over them. -/
theorem Accounted.closes
    (h : Accounted S A d reason st.writes) (hc : Closes A d st t w reason ws') :
    Accounted S A d reason (st.writes ++ ws') := by
  -- what is written to the wait first is the same to both kinds of closing
  have hresumes : ∀ {first : Write} {wait : RunWait} {xs : List AgentRun} {ws₁ : List Write},
      Write.plainly first = true → Evaluates A d st t w wait xs →
      Resumes (view d st) wait (outcomeOf (view d st) wait reason xs) ws₁ →
      Accounted S A d reason (st.writes ++ first :: ws₁) := by
    intro first wait xs ws₁ hfirst heval hres
    have hid : wait.id = w := Db.wait?_id heval.row
    cases hres with
    | before => exact h.plainly (by simpa using hfirst)
    | finished => exact h.plainly (by simpa [Write.plainly] using hfirst)
    | @injected p hist e at_ now hp hterm hh =>
      refine ⟨?_, fun {r hist' w'} hmem => ?_⟩
      · rw [applyAll_append]
        refine h.enrolled.applyAll fun wr hwr => ?_
        simp only [reopening, List.mem_cons, List.not_mem_nil, or_false] at hwr
        rcases hwr with rfl | rfl | rfl | rfl | rfl | rfl | rfl <;> first
          | rfl
          | (cases wr <;> first | rfl | cases hfirst)
      · rcases List.mem_append.mp hmem with hmem | hmem
        · exact h.before hmem
        · have hsame : r = p.id ∧ hist' = hist ∧ w' = wait.id := by
            simp only [reopening, List.mem_cons, List.not_mem_nil, or_false, reduceCtorEq,
              Write.setHistory.injEq, Origin.resume.injEq, false_or] at hmem
            rcases hmem with rfl | hmem
            · cases hfirst
            · simpa using hmem
          obtain ⟨rfl, rfl, rfl⟩ := hsame
          subst hid
          exact ⟨st, t, wait, p, xs, List.prefix_append _ _, h.enrolled, heval, hp, rfl, hh⟩
  cases hc with
  | left => simpa using h
  | closed heval _ _ hres | recorded heval _ _ hres => exact hresumes rfl heval hres

/-! ## Functions that keep the account -/

/-- The function keeps the account. -/
abbrev Accounting (S : Calls) (A : List Row → Db → Db → Prop) (d : Db) {α : Type} (x : Tx α) : Prop :=
  Keeps (Accounted S A d .child) A d x

namespace Accounting

variable {α : Type} {st : Local Row Write} {t : TenantID} {r : RunID} {w : WaitID}

theorem of_only {x : Tx α} (hx : x.Only fun wr => Write.plainly wr = true) : Accounting S A d x :=
  Leads.of_only (fun h hws => h.plainly hws) hx

theorem tryCloseWait (hA : Respects A) : Accounting S A d (Loop.tryCloseWait t w .child) := by
  intro st hst
  refine wp_either (wp_tryCloseWait_writes hA) (fun _ _ hpost => fun he => absurd he hpost) ?_
  intro b s hpost
  obtain ⟨ws, hws, hc⟩ := hpost
  rw [Prog.either_ok, hws]
  exact hst.closes hc

theorem Write.plainly_of_aside {wr : Write} (h : wr.aside = true) : Write.plainly wr = true := by
  cases wr with
  | setHistory _ _ origin => cases origin <;> first | rfl | cases h
  | insertWait | insertMember => cases h
  | _ => rfl

theorem built (hA : Respects A) : Built fun _ x => Accounting S A d x :=
  Leads.built hA (fun h hws => h.plainly fun wr hwr => Write.plainly_of_aside (hws wr hwr))
    (fun _ _ => of_only (.updateIf fun _ => rfl)) (of_only (.claimDue fun _ => rfl))
    (Leads.keeps_bind (of_only (.query _)) fun _ => Leads.forEach fun _ _ =>
      Leads.keeps_bind (tryCloseWait hA) fun _ => of_only (.pure _))

theorem runs_create : Accounting S A d (Runs.create t run) := of_only (.runs_create rfl)

theorem accountStepCost {step : RunStep} : Accounting S A d (accountStepCost run step).attempt :=
  of_only (.attempt (.bind (.memory_set rfl) fun _ =>
    .bind (Events.append_emits rfl fun _ => rfl) fun _ => .pure _))

end Accounting

/-- The rows of a new wait: none of them collides with another. -/
theorem wp_insertMembers (hA : Respects A)
    {rest : List RunWaitMember} (hw : ∀ m ∈ rest, m.waitID = w)
    (hnew : ((view d st).membersOf w ++ rest).Pairwise fun m m' =>
      m.runID ≠ m'.runID ∧ m.ordinal ≠ m'.ordinal) :
    wp A d (Tx.forEach rest Waits.insertMember) st (Prog.either
      (fun _ s => s.writes = st.writes ++ rest.map .insertMember) (fun e _ => e = .sql)) := by
  induction rest generalizing st with
  | nil => exact wp_pure'.mpr (by simp)
  | cons m rest ih =>
    obtain rfl : m.waitID = w := hw m (by simp)
    change wp A d (Waits.insertMember m >>= fun _ => Tx.forEach rest Waits.insertMember) st _
    rw [wp_bind]
    refine wp_update.mpr fun d' busy hsee => ?_
    -- the wait is locked, so its members are those that the transaction knows of
    have hmembers : (applyAll d' st.writes).membersOf m.waitID = (view d st).membersOf m.waitID :=
      (hA.wait hsee (by simp) st.writes).2
    have hfresh : ((view d st).membersOf m.waitID).any
        (fun x => decide (x.runID = m.runID ∨ x.ordinal = m.ordinal)) = false := by
      refine List.any_eq_false.mpr fun x hx => ?_
      have := (List.pairwise_append.mp hnew).2.2 x hx m (by simp)
      simpa using this
    simp only [hmembers, hfresh, Bool.false_eq_true, if_false]
    split
    · rfl
    · refine wp_mono (ih (fun m' hm' => hw m' (by simp [hm'])) ?_) ?_
      · simpa [Write.onMembers] using hnew
      · intro res s hpost
        cases res with
        | error => exact hpost
        | ok => simpa using hpost

theorem waitMembers_fresh (h : ids.Nodup) :
    (waitMembers w ids).Pairwise fun m m' => m.runID ≠ m'.runID ∧ m.ordinal ≠ m'.ordinal := by
  rw [List.pairwise_iff_getElem]
  intro i j hi hj hij
  simp only [waitMembers, List.getElem_map, List.getElem_zipIdx]
  refine ⟨fun heq => ?_, by omega⟩
  have := (List.Nodup.getElem_inj_iff h).mp heq
  omega

namespace Accounting

variable {t : TenantID} {rec : StepRecorder} {cfg : Settings} {job : StepJob}

/-- A new wait gets the children that its call named as members. -/
theorem waits_create (hA : Respects A)
    (hnames : Asked S d x.parentRunID x.stepIndex x.toolCallID ids) :
    Accounting S A d (Waits.create t x (waitMembers x.id (dedup ids))) := by
  intro st hst
  unfold Waits.create
  rw [wp_bind]
  refine wp_waits_insert hA ?_ ?_
  · exact of_only (.bind (.lockRead _ _) fun _ => .pure _) st hst
  intro hnone
  rw [Prog.either_ok, if_pos rfl,
    Waits.forEach_insertMember fun m hm => waitID_of_mem_waitMembers hm]
  have hmembers : (view d (st.after [.wait x.id] [.insertWait (Waits.inserted x)])).membersOf x.id =
      [] := by
    simpa [Write.onMembers] using hst.enrolled.orphans hnone
  refine wp_mono (wp_insertMembers hA (fun m hm => waitID_of_mem_waitMembers hm) ?_) ?_
  · rw [hmembers]
    exact waitMembers_fresh (dedup_nodup ids)
  intro res s hpost
  cases res with
  | error e =>
    intro he
    obtain rfl : e = .sql := hpost
    cases he
  | ok =>
    have hws : s.writes = st.writes ++ .insertWait (Waits.inserted x) ::
        (waitMembers x.id (dedup ids)).map .insertMember := by simpa using hpost
    rw [Prog.either_ok, hws]
    refine ⟨?_, fun {r hist w} hmem => ?_⟩
    · rw [applyAll_append]
      exact hst.enrolled.enrol (x := Waits.inserted x) hnone
        (hnames.later (Db.extends_applyAll d st.writes))
    · rcases List.mem_append.mp hmem with hmem | hmem
      · exact hst.before hmem
      · simp at hmem

theorem createWait (hA : Respects A) (hrun : run.id = job.runID)
    (hnames : Asked S d job.runID job.stepIndex rec.waitToolCallID ids)
    (hids : rec.waitRunIDs = dedup ids) : Accounting S A d (createWait cfg run job rec) := by
  unfold Loop.createWait
  rw [hids]
  refine Leads.keeps_bind (of_only (.query _)) fun now => Leads.keeps_bind (waits_create hA ?_) fun _ =>
    Leads.keeps_bind (tryCloseWait hA) fun resumed => ?_
  · rw [hrun]
    exact hnames
  · split
    · exact of_only (.pure _)
    · exact Leads.keeps_bind (of_only (.enqueue fun _ => rfl)) fun _ => of_only (.pure _)

theorem commitOutcome (hA : Respects A) {n : Nat} {env : Envelope}
    {step : StepResult} {final : String} (hasked : rec.waitRunIDs ≠ [] → ∃ ids,
      Asked S d job.runID job.stepIndex rec.waitToolCallID ids ∧ rec.waitRunIDs = dedup ids) :
    Accounting S A d (commitOutcome cfg job n env step rec final) := by
  refine (built hA).commitOutcome (fun _ _ => accountStepCost) fun run hrun hne => ?_
  obtain ⟨ids, hnames, hids⟩ := hasked hne
  exact createWait hA hrun hnames hids

end Accounting

/-! ## The outcome accounts for the named children -/

theorem orderedMembers_eq {v : Db} (h : v.membersOf w = waitMembers w ids) :
    orderedMembers v w = waitMembers w ids := by
  rw [orderedMembers, h]
  exact (waitMembers_ordinals.imp fun hlt => Nat.le_of_lt hlt).insertionSort_eq

theorem Evaluates.map_id (h : Evaluates A d st t w wait xs)
    (hmembers : (view d st).membersOf w = waitMembers w ids) : xs.map AgentRun.id = ids := by
  have hreads := h.reads
  rw [orderedMembers_eq hmembers] at hreads
  have hids : (waitMembers w ids).map RunWaitMember.runID = ids := by
    simp [waitMembers, Function.comp_def]
  rw [← hids]
  clear h
  generalize waitMembers w ids = ms at hreads
  induction hreads with
  | nil => rfl
  | cons hx _ ih =>
    obtain ⟨d', -, hx⟩ := hx
    rw [List.map_cons, List.map_cons, ih, Db.run?_id (Db.ownRun_eq_some.mp hx).1]

theorem Evaluates.read_of_mem (h : Evaluates A d st t w wait xs) {x : AgentRun} (hx : x ∈ xs) :
    ∃ m ∈ orderedMembers (view d st) w, ∃ d', A (st.locks ++ [.wait w]) d d' ∧
      (view d' st).ownRun t m.runID = some x := by
  have hreads := h.reads
  generalize orderedMembers (view d st) w = ms at hreads
  clear h
  induction hreads with
  | nil => cases hx
  | @cons m y ms xs hy _ ih =>
    rcases List.mem_cons.mp hx with rfl | hx
    · exact ⟨m, by simp, hy⟩
    · obtain ⟨m', hm', hread⟩ := ih hx
      exact ⟨m', by simp [hm'], hread⟩

/-- What is injected accounts for the children that the call named. -/
theorem Injected.accounts {r : RunID} {p : AgentRun}
    (h : Injected S A d reason ws r hist w st t wait p xs) :
    ∃ ids, Asked S (view d st) wait.parentRunID wait.stepIndex wait.toolCallID ids ∧
      Accounts (outcomeOf (view d st) wait reason xs) (dedup ids) xs := by
  obtain rfl : wait.id = w := Db.wait?_id h.evaluated.row
  obtain ⟨ids, hasked, hmembers⟩ := h.enrolled.members h.evaluated.row
  refine ⟨ids, hasked, ?_⟩
  have hids := h.evaluated.map_id hmembers
  have hcounted : outcomeOf (view d st) wait reason xs =
      conclude reason (tally (emptyOutcome wait .resolved) (paired wait.id (dedup ids) xs)) := by
    rw [outcomeOf, orderedMembers_eq hmembers, paired]
  rw [hcounted]
  refine accounts_tally (w := wait.id) _ hids (dedup_nodup ids) ?_ ?_ ?_
  · simpa [conclude, emptyOutcome] using
      tally_members (emptyOutcome wait .resolved) (paired wait.id (dedup ids) xs)
  · simpa [conclude, emptyOutcome] using
      tally_counts (emptyOutcome wait .resolved) (paired wait.id (dedup ids) xs)
  · simpa [conclude, emptyOutcome] using
      tally_pending (emptyOutcome wait .resolved) (paired wait.id (dedup ids) xs)

theorem outcomeOf_timedOut {v : Db} : (outcomeOf v wait reason xs).timedOut = true ↔
      reason = .timeout ∧ 0 < (outcomeOf v wait reason xs).pending := by
  simp [outcomeOf, conclude]

end

end Protocol

end Ultracore
