-- SUMMARY: The invariant of the whole program, and that every serial step keeps it.
import Ultracore.System.Conduct

/-!
# The invariant of the program

References are intact, steps are in order, live runs are covered by jobs that nobody is
about to acknowledge, and every process relies on facts that hold. One step of the serial
machine keeps all of it; by the simulation it holds in every state of the interleaved
machine.
-/

namespace Ultracore.System

open Txn Loop Protocol

structure Sound (cfg : Settings) (w : World Db Proc) : Prop where
  integrity : Integrity cfg w.db
  ordered : Ordered w.db
  covered : Covered w.db (fun _ => False) fun n => some (.acking n) ∈ w.procs
  procs : ∀ p, some p ∈ w.procs → p.Ok w.db

section
variable {cfg : Settings} {A : Sight} [Sharpens cfg A] {d d' : Db} {p p' : Proc}
  {procs : List (Option Proc)} {j : Nat} {ws : List Write} {i : Input} {s : Local Row Write}
  {n : Nat} {x : Tx Proc}

/-- A released job covers no run. -/
theorem doom {owed : RunID → Prop} {doomed : Nat → Prop} (hc : Covered d owed doomed)
    (ho : Ordered d) (hn : Released d n) : Covered d owed fun m => doomed m ∨ m = n where
  issued := hc.issued
  unique := hc.unique
  startable := hc.startable
  dooms m hm := by
    rcases hm with hm | rfl
    · exact hc.dooms m hm
    · rcases hn with ⟨job, hdel, -⟩ | ⟨t, hholds⟩
      · exact hdel.holds.issued
      · exact hholds.issued
  cover r s hs hl hr := by
    obtain ⟨q, hq, hd, job, hjob, rfl, hi⟩ := hc.cover r s hs hl hr
    refine ⟨q, hq, ?_, job, hjob, rfl, hi⟩
    rintro (hd' | heq)
    · exact hd hd'
    rcases hn with ⟨job', hdel, hspent⟩ | ⟨t, hholds⟩
    · have hsame := hjob.symm.trans (hdel.holds.queued q hq heq)
      cases hsame
      rcases hspent with ⟨s', hs', hl'⟩ | ⟨st, hst, hidx⟩
      · cases hs.symm.trans hs'
        rw [hl] at hl'
        cases hl'
      · have hmem : st.stepIndex ∈ d.indicesOf job.runID := List.mem_map_of_mem hst
        rw [ho.steps, List.mem_range, hidx, hi] at hmem
        exact Nat.lt_irrefl _ hmem
    · cases hjob.symm.trans (hholds.queued q hq heq)

/-- Process `j` goes on as `p'`. -/
theorem Sound.goOn (h : Sound cfg ⟨d, procs⟩) (hok : p'.Ok d)
    (hack : ∀ n, p' = .acking n → Released d n) : Sound cfg ⟨d, procs.set j (some p')⟩ where
  integrity := h.integrity
  ordered := h.ordered
  covered := by
    have hmem : ∀ n, some (.acking n) ∈ procs.set j (some p') →
        some (.acking n) ∈ procs ∨ p' = .acking n := by
      intro n hn
      rcases List.mem_or_eq_of_mem_set hn with hn | hn
      · exact .inl hn
      · exact .inr (Option.some.inj hn).symm
    by_cases hn : ∃ n, p' = .acking n
    · obtain ⟨n, rfl⟩ := hn
      refine (doom h.covered h.ordered (hack n rfl)).mono (fun m hm => ?_) fun _ => id
      rcases hmem m hm with hm | hm
      · exact .inl hm
      · cases hm
        exact .inr rfl
    · exact h.covered.mono (fun m hm => (hmem m hm).resolve_right fun h => hn ⟨m, h⟩) fun _ => id
  procs q hq := by
    rcases List.mem_or_eq_of_mem_set hq with hq | hq
    · exact h.procs q hq
    · cases hq
      exact hok

theorem Sound.acts (h : Sound cfg ⟨d, procs⟩) {me : Part}
    (ha : Acts cfg me d ws none) (hme : ∀ job, me.job = some job → Startable d job) :
    Sound cfg ⟨applyAll d ws, procs⟩ where
  integrity := ha.integrity h.integrity
  ordered := ha.ordered h.ordered fun job hjob => (hme job hjob).2
  covered := (ha.covered h.covered h.ordered h.integrity hme).mono (fun _ => id) owes_none
  procs q hq := (h.procs q hq).later ha.later

/-- An acknowledgement. -/
theorem Sound.ack (h : Sound cfg ⟨d, procs⟩) (hn : some (.acking n) ∈ procs) :
    Sound cfg ⟨applyAll d [Write.deleteJob n], procs⟩ where
  integrity := h.integrity.plain _ (by simp [Plain, Write.adds])
  ordered := h.ordered.unrecorded (by simp [Write.records])
  covered := h.covered.deleteJob hn
  procs q hq := (h.procs q hq).later (.apply d (w := .deleteJob n) (by simp))

theorem onErr_sql_ne (p : Proc) (i : Input) (n : Nat) : onErr p i .sql ≠ .acking n := by
  unfold onErr
  split <;> simp_all

theorem part_startable (hp : p.Ok d) : ∀ job, (p.part cfg d).job = some job → Startable d job := by
  intro job hjob
  cases p with
  | committing =>
    cases hjob
    exact hp.delivered.startable
  | requestTx req => cases req <;> cases hjob
  | sweeping _ _ due => cases due <;> cases hjob
  | _ => cases hjob

/-- Only a spent job is acknowledged after an error. -/
theorem released_of_refusal (hp : p.Ok d) {e : Err} (hr : Refusal d p e)
    (hn : onErr p i e = .acking n) : Released d n := by
  unfold onErr at hn
  split at hn <;> cases hn
  · exact .inl ⟨_, hp, hr.1 rfl⟩
  · exact absurd rfl hr.2
  · exact .inl ⟨_, hp.delivered, hr rfl⟩

/-! ## Steps -/

/-- What a process commits: an acknowledgement, or acts of the run protocol. -/
inductive Commits (cfg : Settings) (A : List Row → Db → Db → Prop) (d : Db) (p : Proc) :
    Proc → List Write → Prop where
  | ack {n : Nat} : p = .acking n → Commits cfg A d p .done [.deleteJob n]
  | acts {p' : Proc} {s : Local Row Write} : (∀ n, p ≠ .acking n) → Outcome cfg A d p p' s →
      Commits cfg A d p p' s.writes

omit [Sharpens cfg A] in
theorem Commits.outcome (h : Commits cfg A d p p' ws) (hne : ∀ n, p ≠ .acking n) :
    ∃ s, s.writes = ws ∧ Outcome cfg A d p p' s := by
  cases h with
  | @ack n hack => exact absurd hack (hne n)
  | acts _ ho => exact ⟨_, rfl, ho⟩

theorem body_commits (hd : Integrity cfg d) (hp : p.Ok d) (hb : body cfg p i = some x)
    (hruns : x.prog.Runs A d .empty (.ok p') s) : Commits cfg A d p p' s.writes := by
  by_cases hack : ∃ n, p = .acking n
  · obtain ⟨n, rfl⟩ := hack
    have hspec : Tx.wp A d x .empty (Prog.either (fun q s' => q = .done ∧
        s'.writes = [.deleteJob n]) (fun _ _ => True)) := by
      cases i with
      | go =>
        cases hb
        rw [Tx.wp_bind]
        refine Tx.wp_update.mpr fun d' busy _ => ?_
        simp
      | _ => cases hb
    obtain ⟨rfl, hws⟩ := hspec _ _ hruns
    rw [hws]
    exact .ack rfl
  · have hne : ∀ n, p ≠ .acking n := fun n hn => hack ⟨n, hn⟩
    exact .acts hne (body_conducts hd hp hne hb _ _ hruns)

theorem body_refuses (hd : Integrity cfg d) (hp : p.Ok d) (hb : body cfg p i = some x) {e : Err}
    (hruns : x.prog.Runs A d .empty (.error e) s) : Refusal d p e := by
  by_cases hack : ∃ n, p = .acking n
  · obtain ⟨n, rfl⟩ := hack
    trivial
  · exact body_conducts hd hp (fun n hn => hack ⟨n, hn⟩) hb _ _ hruns

omit [Sharpens cfg A] in
/-- What a commit leaves, before the process that made it goes on. -/
theorem Sound.commits (h : Sound cfg ⟨d, procs⟩) (hp : some p ∈ procs)
    (hc : Commits cfg A d p p' ws) : Sound cfg ⟨applyAll d ws, procs⟩ ∧ p'.Ok (applyAll d ws) ∧
      ∀ n, p' = .acking n → Released (applyAll d ws) n := by
  cases hc with
  | ack hack =>
    subst hack
    exact ⟨h.ack hp, trivial, by simp⟩
  | acts _ ho => exact ⟨h.acts ho.acts (part_startable (h.procs p hp)), ho.ok, ho.ack⟩

theorem spawn_ok (h : Sound cfg ⟨d, procs⟩) (hcan : canSpawn d procs p = true) :
    p.Ok d ∧ ∀ n, p ≠ .acking n := by
  have hqueued : ∀ q ∈ d.jobs, Holds d q.id q.job := fun q hq =>
    ⟨h.covered.issued q hq, fun q' hq' heq => by rw [h.covered.unique q' hq' q hq heq]⟩
  cases p with
  | start | request | createSession | foreign => exact ⟨trivial, by simp⟩
  | work n job =>
    simp only [canSpawn, List.any_eq_true, decide_eq_true_eq] at hcan
    obtain ⟨q, hq, rfl, hjob⟩ := hcan
    exact ⟨⟨h.covered.startable q hq job hjob, hjob ▸ hqueued q hq⟩, by simp⟩
  | sweep n t =>
    simp only [canSpawn, Bool.and_eq_true, List.any_eq_true, decide_eq_true_eq] at hcan
    obtain ⟨⟨q, hq, rfl, hjob, -⟩, -⟩ := hcan
    have hholds : Holds d q.id (.waitTimeout t) := hjob ▸ hqueued q hq
    exact ⟨hholds, by simp⟩
  | _ => cases hcan

/-- One step of the serial machine keeps the invariant. -/
theorem Sound.serial {w w' : World Db Proc} {a : Action Input Nat Proc}
    (h : Sound cfg w) (hs : (app cfg).machine.Serial A w a ws w') : Sound cfg w' := by
  cases hs with
  | spawn hcan =>
    obtain ⟨hok, hne⟩ := spawn_ok h hcan
    refine ⟨h.integrity, h.ordered, h.covered.mono (fun n hn => ?_) fun _ => id, fun q hq => ?_⟩
    · rcases List.mem_append.mp hn with hn | hn
      · exact hn
      · exact absurd (Option.some.inj (List.mem_singleton.mp hn)).symm (hne n)
    · rcases List.mem_append.mp hq with hq | hq
      · exact h.procs q hq
      · cases List.mem_singleton.mp hq
        exact hok
  | commit hj hbody hruns =>
    have hp := List.mem_of_getElem? hj
    obtain ⟨x, hb, rfl⟩ := App.machine_body.mp hbody
    obtain ⟨hsound, hok, hack⟩ :=
      h.commits hp (body_commits h.integrity (h.procs _ hp) hb hruns)
    exact hsound.goOn hok hack
  | lose hj hbody hruns =>
    have hp := List.mem_of_getElem? hj
    obtain ⟨x, hb, rfl⟩ := App.machine_body.mp hbody
    obtain ⟨hsound, -⟩ := h.commits hp (body_commits h.integrity (h.procs _ hp) hb hruns)
    exact hsound.goOn (onErr_ok (hsound.procs _ hp) _ _)
      fun n hn => absurd hn (onErr_sql_ne _ _ n)
  | rollback hj hbody hruns =>
    have hp := List.mem_of_getElem? hj
    obtain ⟨x, hb, rfl⟩ := App.machine_body.mp hbody
    refine h.goOn (onErr_ok (h.procs _ hp) _ _) fun n hn => ?_
    exact released_of_refusal (h.procs _ hp)
      (body_refuses h.integrity (h.procs _ hp) hb hruns) hn
  | abort hj =>
    exact h.goOn (onErr_ok (h.procs _ (List.mem_of_getElem? hj)) _ _)
      fun n hn => absurd hn (onErr_sql_ne _ _ n)
  | crash =>
    have hmem : ∀ {q j}, some q ∈ w.procs.set j none → some q ∈ w.procs := by
      intro q j hq
      rcases List.mem_or_eq_of_mem_set hq with hq | hq
      · exact hq
      · cases hq
    exact ⟨h.integrity, h.ordered, h.covered.mono (fun n hn => hmem hn) fun _ => id,
      fun q hq => h.procs q (hmem hq)⟩
  | env =>
    -- no part of the invariant mentions the clock
    exact ⟨h.integrity.clock _,
      ⟨h.ordered.steps, h.ordered.finished⟩,
      ⟨h.covered.issued, h.covered.unique,
        fun q hq job hj => (h.covered.startable q hq job hj).extends (Db.extends_clock _ _),
        h.covered.dooms, h.covered.cover⟩,
      fun q hq => (h.procs q hq).later (.clock _ _)⟩

theorem Sound.initial (cfg : Settings) : Sound cfg ⟨{}, []⟩ where
  integrity := .empty
  ordered := ⟨fun _ => rfl, fun _ => rfl⟩
  covered :=
    { issued := fun _ hq => by cases hq
      unique := fun _ hq => by cases hq
      startable := fun _ hq => by cases hq
      dooms := fun _ hn => by cases hn
      cover := fun _ _ hs => by cases hs }
  procs := fun _ hp => by cases hp

end

end Ultracore.System
