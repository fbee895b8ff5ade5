-- SUMMARY: The state of a wait agrees with its result, where nothing comes between a claim and its result.
import Ultracore.Protocol.Results
import Ultracore.System.Stopping
import Ultracore.System.Verdicts

/-!
# State and result of a wait

A sweep claims a wait in one transaction and records its result in another. Whether a member was
unfinished is looked at in the second, so the result may tell another state than the claim has
set. A transaction that ends a run comes to the waits it has listed as open when others may have
closed or claimed them, and writes to them all the same.

Where claimed waits have an unfinished member, and whoever comes to a wait finds it as it was listed,
the state of a wait and its result agree at all times, and the result of a wait that was resumed
stays.
-/

namespace Ultracore.System

open Txn Loop Protocol Tx

/-- The process records the results of waits that it has claimed. -/
def Proc.sweeps : Proc → Bool
  | .sweeping _ _ _ _ => true
  | _ => false

/-- The run is a member of a wait that is claimed. -/
def missed (d : Db) (r : RunID) : Bool :=
  d.waits.any fun x => x.claimed && (d.membersOf x.id).any fun m => m.runID = r

/-- Which rows a transaction may hold: no finished member of a wait that is claimed, and no wait
    that is closed, but for the sweep that records a result, which may hold waits that are claimed. -/
def mayHold (d : Db) (sweeps : Bool) : Row → Bool
  | .wait w => if sweeps then d.claimed w else !d.closed w
  | .run r => !(d.finished r && missed d r)
  | _ => true

/-- A wait that is claimed has a member that is not finished, and every transaction in flight holds
    rows that it may hold. -/
def orderly (c : Conf) : Bool :=
  (c.db.waits.all fun x => !x.claimed || (c.db.membersOf x.id).any fun m => !c.db.finished m.runID) &&
    c.procs.all fun sl => sl.locks.all (mayHold c.db (sl.proc.any Proc.sweeps))

/-- A run of the program in which every step is taken from an orderly configuration. -/
abbrev Orderly (cfg : Settings) : List Write → Conf → Prop := RunOf cfg fun c _ => orderly c = true

section
variable {cfg : Settings} {c c' c₁ : Conf} {log log₁ ws : List Write} {j : Nat}
  {a : Action Input Nat Proc} {d : Db} {p p' : Proc} {w : WaitID} {t : TenantID} {d' : Db}
  {x : Tx Proc} {i : Input} {s : Local Row Write} {m : RunWaitMember}
  {rest : Prog Db Row Write Err Proc} {A : Sight}

/-! ## What the condition says -/

theorem claimed_row (h : d.claimed w = true) : ∃ x, d.wait? w = some x ∧ x.state = .timedOut ∧
    x.result = none := by
  obtain ⟨x, hx, hcl⟩ := (Option.any_eq_true _ _).mp h
  simp only [RunWait.claimed, Bool.and_eq_true, decide_eq_true_eq, Option.isNone_iff_eq_none] at hcl
  exact ⟨x, hx, hcl⟩

theorem closed_of_claimed (h : d.claimed w = true) : d.closed w = true := by
  obtain ⟨x, hx, hstate, -⟩ := claimed_row h
  simp [Db.closed, hx, hstate]

theorem orderly_claimed (hok : orderly c = true) (hw : c.db.claimed w = true) :
    ∃ m ∈ c.db.membersOf w, c.db.finished m.runID = false := by
  obtain ⟨x, hx, hcl⟩ := (Option.any_eq_true _ _).mp hw
  obtain rfl : x.id = w := Db.wait?_id hx
  have := List.all_eq_true.mp (Bool.and_eq_true_iff.mp hok).1 x (List.mem_of_find?_eq_some hx)
  simpa [hcl] using this

theorem orderly_lock (hok : orderly c = true) (hj : c.procs[j]? = some (.active p i s rest))
    {row : Row} (hrow : row ∈ s.locks) : mayHold c.db p.sweeps row = true := by
  have hall := List.all_eq_true.mp (Bool.and_eq_true_iff.mp hok).2 _ (List.mem_of_getElem? hj)
  exact List.all_eq_true.mp hall row hrow

theorem orderly_wait (hok : orderly c = true) (hj : c.procs[j]? = some (.active p i s rest))
    (hp : p.sweeps = false) (hw : .wait w ∈ s.locks) : c.db.closed w = false := by
  simpa [mayHold, hp] using orderly_lock hok hj hw

theorem orderly_run (hok : orderly c = true) (hj : c.procs[j]? = some (.active p i s rest))
    (hw : c.db.claimed w = true) (hm : m ∈ c.db.membersOf w) (hr : .run m.runID ∈ s.locks) :
    c.db.finished m.runID = false := by
  obtain ⟨x, hx, hcl⟩ := (Option.any_eq_true _ _).mp hw
  obtain rfl : x.id = w := Db.wait?_id hx
  have hmissed : missed c.db m.runID = true := List.any_eq_true.mpr ⟨x, List.mem_of_find?_eq_some hx, by
    simpa [hcl] using ⟨m, hm, rfl⟩⟩
  simpa [mayHold, hmissed] using orderly_lock hok hj hr

/-- A transaction leaves the rows as they are that it has not locked. -/
theorem slot_kept (hrun : Orderly cfg log c)
    (hj : c.procs[j]? = some (.active p i s (.ret p'))) {row : Row} (hrow : row ∉ s.locks) :
    storeRegions.content row c.db = storeRegions.content row (applyAll c.db s.writes) := by
  obtain ⟨cb, x, -, hx, -, hruns⟩ := slot_runs hrun hj
  have hisolated : (app cfg).machine.Isolated storeRegions (Seen cfg) c.db := App.isolated _ _
  exact hisolated (App.machine_body.mpr ⟨x, hx, rfl⟩) hruns row hrow

/-- What is not a sweep leaves the waits alone that are closed. -/
theorem slot_closed (hrun : Orderly cfg log c) (hok : orderly c = true)
    (hj : c.procs[j]? = some (.active p i s (.ret p'))) (hp : p.sweeps = false)
    (hw : c.db.closed w = true) : (applyAll c.db s.writes).wait? w = c.db.wait? w := by
  have hrow : Row.wait w ∉ s.locks := fun h => by simp [orderly_wait hok hj hp h] at hw
  exact (congrArg Prod.fst (slot_kept hrun hj hrow)).symm

/-! ## The sweep comes to a wait -/

theorem sweeps_iff : p.sweeps = true ↔ ∃ n t due full, p = .sweeping n t due full := by
  cases p <;> simp [Proc.sweeps]

theorem sweeping_closes (hA : Respects A) {n : Nat} {due : List WaitID} {full : Bool}
    (hx : body cfg (.sweeping n t due full) i = some x)
    (hruns : x.prog.Runs A d .empty (.ok p') s) :
    ∃ w due', due = w :: due' ∧ Closes A d .empty t w .timeout s.writes := by
  cases due with
  | nil => cases hx
  | cons w due =>
  refine ⟨w, due, rfl, ?_⟩
  have hspec : wp A d x .empty (Prog.either
      (fun _ s => Closes A d .empty t w .timeout s.writes) (fun _ _ => True)) := by
    cases i with
    | go =>
      cases hx
      rw [wp_bind]
      refine wp_either (wp_tryCloseWait_writes hA) (fun _ _ _ => trivial) ?_
      intro b s' hpost
      obtain ⟨ws, hws, hcloses⟩ := hpost
      simpa [hws] using hcloses
    | _ => cases hx
  exact hspec _ _ hruns

/-- A wait that is closed stays so, and is not claimed after that. -/
theorem slot_leaves (hrun : Orderly cfg log c) (hok : orderly c = true)
    (hj : c.procs[j]? = some (.active p i s (.ret p'))) (hw : c.db.closed w = true) :
    (applyAll c.db s.writes).closed w = true ∧
      ((applyAll c.db s.writes).claimed w = true → c.db.claimed w = true) := by
  cases hp : p.sweeps with
  | false =>
    have hsame := slot_closed hrun hok hj hp hw
    exact ⟨by simpa [Db.closed, hsame] using hw, by simp [Db.claimed, hsame]⟩
  | true =>
    obtain ⟨n, t, due, full, rfl⟩ := sweeps_iff.mp hp
    obtain ⟨cb, x, -, hx, -, hruns⟩ := slot_runs hrun hj
    obtain ⟨u, due', -, hcloses⟩ := sweeping_closes (respects cfg (Seen cfg)) hx hruns
    obtain ⟨s', hws, ho⟩ := slot_outcome hrun hj (by simp)
    exact ⟨hws ▸ ho.acts.closed hw, hcloses.claimed⟩

/-- As long as a wait is claimed, its finished members stay finished. -/
theorem finished_stays (h₁ : Orderly cfg log₁ c₁)
    (hrun : (app cfg).machine.Run (fun c _ => orderly c = true) c₁ log c)
    (hw : c₁.db.claimed w = true) : c.db.closed w = true ∧ (c.db.claimed w = true →
      ∀ m ∈ c₁.db.membersOf w, c₁.db.finished m.runID = true → c.db.finished m.runID = true) := by
  induction hrun with
  | refl => exact ⟨closed_of_claimed hw, fun _ _ _ h => h⟩
  | @step log ws c c' a hrun' hok hs ih =>
    have hall : Orderly cfg (log₁ ++ log) c := h₁.trans hrun'
    have hret : ∀ {j : Nat} {p p' : Proc} {i : Input} {s : Local Row Write},
        c.procs[j]? = some (.active p i s (.ret p')) → (applyAll c.db s.writes).closed w = true ∧
          ((applyAll c.db s.writes).claimed w = true → ∀ m ∈ c₁.db.membersOf w,
            c₁.db.finished m.runID = true → (applyAll c.db s.writes).finished m.runID = true) := by
      intro j p p' i s hj
      obtain ⟨hclosed, hback⟩ := slot_leaves hall hok hj ih.1
      refine ⟨hclosed, fun hcl m hm hfin => ?_⟩
      have hfin := ih.2 (hback hcl) m hm hfin
      have hm := ((App.run_extends_db hrun').members w).subset hm
      have hrow : Row.run m.runID ∉ s.locks := fun h => by
        simp [orderly_run hok hj (hback hcl) hm h] at hfin
      have hsame : (applyAll c.db s.writes).run? m.runID = c.db.run? m.runID :=
        (congrArg Prod.fst (slot_kept hall hj hrow)).symm
      simpa [Db.finished, hsame] using hfin
    cases hs with
    | commit hj | lose hj => exact hret hj
    | _ => exact ih

/-- A claimed wait with an unfinished member has timed out: the member was read unfinished. -/
theorem evaluates_timedOut {wait : RunWait} {xs : List AgentRun}
    (h : Evaluates A d .empty t w wait xs) (hm : m ∈ d.membersOf w)
    (hfin : ∀ {d'}, A [.wait w] d d' → d'.finished m.runID = false) :
    (outcomeOf d wait .timeout xs).state = .timedOut := by
  obtain rfl : wait.id = w := Db.wait?_id h.row
  obtain ⟨hlen, hreads⟩ := List.forall₂_iff_zip.mp h.reads
  obtain ⟨x, hmx⟩ : ∃ x, (m, x) ∈ (orderedMembers d wait.id).zip xs := by
    have hm' : m ∈ orderedMembers d wait.id := by simpa [orderedMembers] using hm
    obtain ⟨i, hi, rfl⟩ := List.mem_iff_getElem.mp hm'
    have hi' : i < xs.length := hlen ▸ hi
    refine ⟨xs[i], List.mem_iff_getElem.mpr ⟨i, by simpa using ⟨hi, hi'⟩, by simp⟩⟩
  obtain ⟨d', hsee, hx⟩ := hreads hmx
  have hterm : x.state.terminal = false := by
    have hx' : d'.run? m.runID = some x := (Db.ownRun_eq_some.mp hx).1
    simpa [Db.finished, hx'] using hfin hsee
  have hpos : 0 < ((orderedMembers d wait.id).zip xs).countP fun p => !p.2.state.terminal :=
    List.countP_pos_iff.mpr ⟨(m, x), hmx, by simp [hterm]⟩
  simp [outcomeOf, conclude, tally_pending, emptyOutcome, hpos]

/-- What the sweep writes to a wait: nothing, or a result that tells the state it has, if the wait
    is claimed and a member was read unfinished. -/
theorem closes_records (h : Closes A d .empty t w .timeout ws)
    (hw : ∀ {d'}, A [.wait w] d d' → d.claimed w = true) (hfin : d.claimed w = true →
      ∃ m ∈ d.membersOf w, ∀ {d'}, A [.wait w] d d' → d'.finished m.runID = false)
    {u : WaitID} {y : RunWait} (hy : (applyAll d ws).wait? u = some y) :
    d.wait? u = some y ∨ (d.claimed u = true ∧ y.Consistent) := by
  cases h with
  | left => exact .inl hy
  | closed he hopen =>
    obtain ⟨d', hsee⟩ := he.seen
    obtain ⟨z, hz, hstate, -⟩ := claimed_row (hw hsee)
    cases hz.symm.trans he.row
    simp [hopen] at hstate
  | @recorded wait xs rest he hne _ hres =>
    obtain ⟨d', hsee⟩ := he.seen
    have hcl := hw hsee
    obtain ⟨z, hz, hstate, -⟩ := claimed_row hcl
    obtain ⟨m, hm, hread⟩ := hfin hcl
    cases hz.symm.trans he.row
    obtain rfl : wait.id = w := Db.wait?_id hz
    rw [applyAll_cons] at hy
    obtain ⟨x, hx, hxs, hxr, hother⟩ := hres.rows hy
    rw [tables_apply, Db.wait?_apply] at hx
    by_cases hu : u = wait.id
    · subst hu
      obtain rfl : { wait with result := some (outcomeOf d wait .timeout xs) } = x := by
        simpa [Write.onWait, hz] using hx
      refine .inr ⟨hcl, by simp [hxs, hstate], ?_⟩
      rw [hxr, hxs, hstate]
      rintro _ ⟨⟩
      exact evaluates_timedOut he hm hread
    · refine .inl ?_
      rw [hother hu]
      simpa [Write.onWait, hu] using hx

/-! ## The tables at a commit -/

/-- The rows of waits agree with their results. -/
structure Agreeing (d : Db) : Prop where
  rows : ∀ {w : WaitID} {x : RunWait}, d.wait? w = some x → x.Consistent

theorem body_neat (hA : Respects A)
    (hopen : ∀ {ls d'}, A ls d d' → ∀ w, Row.wait w ∈ ls → d.closed w = false)
    (hp : p.sweeps = false) (hd : Agreeing d) (hx : body cfg p i = some x)
    (hruns : x.prog.Runs A d .empty (.ok p') s) : Agreeing (applyAll d s.writes) := by
  have hbuilt := neat_built hA hopen
  have hpure : ∀ q : Proc, Keeps (Neat (fun _ => False) d) A d (Pure.pure q : Tx Proc) :=
    fun q => hbuilt.pure q
  have hmild : ∀ {α : Type} {y : Tx α}, y.Only (fun wr => Write.mild wr = true) →
      Keeps (Neat (fun _ => False) d) A d y := Leads.of_only fun h hws => h.mildly hws
  have hforeign : ∀ op : ForeignOp, op.tx.Only fun wr => Write.mild wr = true :=
    foreign_only (fun _ => rfl) (fun _ _ => rfl) (fun _ _ _ => rfl) fun _ => rfl
  have hleads : Leads (Fresh d) (Neat (fun _ => False) d) A d x := by
    cases body_writing hx with
    | ordinary hx => exact fun st hst => hx _ hbuilt st hst.1
    | close hclose =>
      subst hclose
      cases hp
    | start =>
      exact fun st hst => hbuilt.bind (hbuilt.startRun (hmild (.runs_create rfl))) (fun _ => hpure _)
        st hst.1
    | create =>
      exact fun st hst => hbuilt.bind (hbuilt.spawnChildTx (hmild (.runs_create rfl)))
        (fun _ => hpure _) st hst.1
    | foreign =>
      exact fun st hst => hbuilt.bind (hbuilt.forEach fun op _ => hmild (hforeign op))
        (fun _ => hpure _) st hst.1
    | call => exact fun st hst => hbuilt.bind (hmild (hforeign _)) (fun _ => hpure _) st hst.1
    | commit => exact (commitOutcome_neat hA hopen).bind (fun _ => hpure _) id
  have hneat : Neat (fun _ => False) d s.writes := hleads .empty (.nil hd.rows) _ _ hruns
  exact ⟨hneat.rows⟩

/-- A transaction keeps the rows in agreement, and leaves waits alone that have a result. -/
theorem slot_agreeing (hrun : Orderly cfg log c) (hok : orderly c = true)
    (hj : c.procs[j]? = some (.active p i s (.ret p'))) (h : Agreeing c.db) :
    Agreeing (applyAll c.db s.writes) ∧ ∀ {w x o}, c.db.wait? w = some x → x.result = some o →
      (applyAll c.db s.writes).wait? w = some x := by
  obtain ⟨cb, x, hspan, hx, hbetween, hseen⟩ := slot_runs hrun hj
  cases hp : p.sweeps with
  | false =>
    refine ⟨body_neat (A := fun ls d d' => Seen cfg ls d d' ∧ ∀ w, .wait w ∈ ls → d.closed w = false)
      ⟨fun h => h.1.1⟩ (fun h => h.2) hp h hx (hseen.held.mono fun ls d' hsee => ⟨hsee.1, ?_⟩), ?_⟩
    · exact fun w hw => orderly_wait hok hj hp (hsee.2 _ hw)
    · intro w x o hx hres
      have hne : x.state ≠ .open := fun hopen => by simp [(h.rows hx).opened hopen] at hres
      rw [slot_closed hrun hok hj hp (by simpa [Db.closed, hx] using hne), hx]
  | true =>
    obtain ⟨n, t, due, full, rfl⟩ := sweeps_iff.mp hp
    obtain ⟨w, due, rfl, hcloses⟩ := sweeping_closes ⟨fun h => h.1.1⟩ hx hbetween.held
    -- a member that is not finished was not finished either when its run was read
    have hfin : c.db.claimed w = true → ∃ m ∈ c.db.membersOf w, ∀ {d'}, storeRegions.Sees
        (Machine.Between (app cfg).machine (fun c _ => orderly c = true) cb c) [.wait w] c.db d' ∧
          (∀ row ∈ [Row.wait w], row ∈ s.locks) → d'.finished m.runID = false := by
      intro hw
      obtain ⟨m, hm, hfin⟩ := orderly_claimed hok hw
      refine ⟨m, hm, ?_⟩
      rintro d' ⟨⟨hagree, log₁, log₂, c₁, h₁, h₂, rfl⟩, -⟩
      obtain ⟨log₀, h₀⟩ := hspan.before
      have hcontent := hagree (.wait w) (by simp)
      have hrow : c₁.db.wait? w = c.db.wait? w := (congrArg Prod.fst hcontent).symm
      have hmembers : c₁.db.membersOf w = c.db.membersOf w := (congrArg Prod.snd hcontent).symm
      by_contra hnot
      rw [(finished_stays (h₀.trans h₁) h₂ (by simpa [Db.claimed, hrow] using hw)).2 hw m
        (by rwa [hmembers]) (by simpa using hnot)] at hfin
      cases hfin
    have hheld : ∀ {d'}, storeRegions.Sees (Machine.Between (app cfg).machine
        (fun c _ => orderly c = true) cb c) [.wait w] c.db d' ∧
          (∀ row ∈ [Row.wait w], row ∈ s.locks) → c.db.claimed w = true :=
      fun hsee => orderly_lock hok hj (hsee.2 (.wait w) (by simp))
    refine ⟨⟨fun hy => ?_⟩, fun {u y o} hy hres => ?_⟩
    · rcases closes_records hcloses hheld hfin hy with hy | ⟨-, hy⟩
      · exact h.rows hy
      · exact hy
    · obtain ⟨z, hz, -⟩ := (Db.extends_applyAll c.db s.writes).wait hy
      rcases closes_records hcloses hheld hfin hz with hz' | ⟨hcl, -⟩
      · rw [hz, ← hz', hy]
      · obtain ⟨y', hy', -, hnone⟩ := claimed_row hcl
        cases hy'.symm.trans hy
        cases hnone.symm.trans hres

/-! ## Every run -/

theorem run_agreeing (hrun : Orderly cfg log c) : Agreeing c.db := by
  induction hrun with
  | refl => exact ⟨fun hx => by cases hx⟩
  | step hrun' hok hs ih =>
    cases hs with
    | commit hj | lose hj => exact (slot_agreeing hrun' hok hj ih).1
    | env => exact ⟨ih.rows⟩
    | _ => exact ih

/-- A wait that has a result stays as it is. -/
theorem step_keeps_result (hrun : Orderly cfg log c) (hok : orderly c = true)
    (hs : (app cfg).machine.Step c a ws c') {x : RunWait} {o : WaitOutcome}
    (hx : c.db.wait? w = some x) (hres : x.result = some o) : c'.db.wait? w = some x := by
  cases hs with
  | commit hj | lose hj => exact (slot_agreeing hrun hok hj (run_agreeing hrun)).2 hx hres
  | _ => exact hx

end

/-- In a run of the program in which claimed waits have an unfinished member and transactions hold
    rows that they may hold: the recorded result of a wait tells the state of its row, and from then
    on it stays, whether the wait is marked as resumed or not. -/
theorem wait_state_agrees_with_result (cfg : Settings) {log : List Write}
    {c : Config Db Row Write Err Input Proc}
    (hrun : (app cfg).machine.Run (fun c _ => orderly c = true) boot log c) {w : WaitID}
    {x : RunWait} (hx : c.db.wait? w = some x) {o : WaitOutcome} (ho : x.result = some o) :
    o.state = x.state ∧ ∀ log' c', (app cfg).machine.Run (fun c _ => orderly c = true) c log' c' →
      c'.db.wait? w = some x := by
  refine ⟨((run_agreeing hrun).rows hx).agrees o ho, fun log' c' hrun' => ?_⟩
  induction hrun' with
  | refl => exact hx
  | step hrun'' hok hs ih => exact step_keeps_result (hrun.trans hrun'') hok hs ih ho

/-- The deadline of the wait passes, and process 3 is a sweep that has claimed the wait. -/
def claimMainWait : Schedule :=
  waitForHelper ++ [.act (.env 1000000000), .act (.spawn (.sweep 2 "tenant")), .tx 3 .go]

/-- Process 4 executes the step of the child, which completes. -/
def finishHelper : Schedule := deliver 4 1 (helperJob 0) [] noMoreWork ++ [.tx 4 .go]

/-- State and result of the wait, and whether it was resumed. -/
def mainWaitRow (c : Conf) :
    Option (WaitState × Option WaitState × Bool) :=
  (c.db.wait? mainWait).map fun x => (x.state, x.result.map WaitOutcome.state, x.resumedAt.isSome)

theorem wait_state_agrees_with_result_timeout :
    ∃ log log' c c' x o, (app sample).machine.Run (fun c _ => orderly c = true) boot log c ∧
      (app sample).machine.Run (fun c _ => orderly c = true) c log' c' ∧
      c.db.wait? mainWait = some x ∧ x.resumedAt.isSome = true ∧ x.result = some o ∧
      o.state = x.state ∧ c'.db.stateOf helper = some .completed ∧ c'.db.wait? mainWait = some x := by
  have hplay : ((app sample).machine.play (fun c _ => orderly c) boot
      (claimMainWait ++ [.tx 3 .go])).map mainWaitRow = some (some (.timedOut, some .timedOut, true)) := by
    decide +kernel
  have hend : (((app sample).machine.play (fun c _ => orderly c) boot
      (claimMainWait ++ [.tx 3 .go])).bind fun c =>
        (app sample).machine.play (fun c _ => orderly c) c finishHelper).map
      (fun c => c.db.stateOf helper) = some (some .completed) := by decide +kernel
  obtain ⟨c, hc, hrow⟩ := Option.map_eq_some_iff.mp hplay
  obtain ⟨log, hrun⟩ := Machine.play_run hc
  obtain ⟨x, hx, hcols⟩ := Option.map_eq_some_iff.mp hrow
  obtain ⟨-, hcols⟩ := Prod.mk.inj hcols
  obtain ⟨o, ho, -⟩ := Option.map_eq_some_iff.mp (Prod.mk.inj hcols).1
  simp only [hc, Option.bind_some] at hend
  obtain ⟨c', hc', hstate⟩ := Option.map_eq_some_iff.mp hend
  obtain ⟨log', hrun'⟩ := Machine.play_run hc'
  obtain ⟨hagrees, hstays⟩ := wait_state_agrees_with_result sample hrun hx ho
  exact ⟨log, log', c, c', x, o, hrun, hrun', hx, (Prod.mk.inj hcols).2, ho, hagrees, hstate,
    hstays log' c' hrun'⟩

/-- The child completes between the claim of the wait and its result: the wait has timed out,
    and its result tells that it is resolved. -/
theorem wait_state_agrees_with_result_late :
    ∃ log c x o, (app sample).machine.Reaches boot log c ∧ c.db.wait? mainWait = some x ∧
      x.result = some o ∧ x.state = .timedOut ∧ o.state = .resolved := by
  have hrow : (played (claimMainWait ++ finishHelper ++ [.tx 3 .go])).map mainWaitRow =
      some (some (.timedOut, some .resolved, true)) := by decide +kernel
  obtain ⟨log, c, -, hrun, hrow⟩ := play_boot hrow
  obtain ⟨x, hx, hcols⟩ := Option.map_eq_some_iff.mp hrow
  obtain ⟨hstate, hcols⟩ := Prod.mk.inj hcols
  obtain ⟨o, ho, hos⟩ := Option.map_eq_some_iff.mp (Prod.mk.inj hcols).1
  exact ⟨log, c, x, o, hrun, hx, ho, hstate, hos⟩

end Ultracore.System
