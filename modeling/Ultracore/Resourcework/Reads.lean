-- SUMMARY: Runs in which a worker that reads without a lock reads what is there.
import Ultracore.Resourcework.Lifecycle
import Ultracore.Txn.Prompt

/-!
# Reads without a lock

A worker starts by reading the resource outside a transaction, and a redelivered `Provision`
asks the provider for its object. Both are one step: the worker goes on with what there is at
that time, which may change before its next step. In general a transaction that has seen the
tables commits later, so the runs here are the `prompt` ones.
-/

namespace Ultracore.Resourcework

open Txn

variable {svc : Service} {d : Db}

/-- What a process at point `p` has read before it continues at `p'` is what there is. -/
def Reads (d : Db) (p' : Proc) : Proc → Prop
  | .provision n => ∃ r, d.row = some r ∧ p' = .afterProvisionRead n r
  | .restart n => ∃ r, d.row = some r ∧ p' = .afterRestartRead n r
  | .terminate n => ∃ r, d.row = some r ∧ p' = .afterTerminateRead n r
  | .reconcile n => p' = .afterReconcileRead n d.row
  | .acquiring n r =>
    if handlePresent r.handle then p' = .storing n r r.handle
    else p' = .creating n r ∨ ∃ o, d.object = some o ∧ p' = .storing n r o.handle
  | _ => True

/-- The body is one read, and what it yields on the tables as they are satisfies `Q`. -/
def Reading (d : Db) (x : Tx Proc) (Q : Proc → Prop) : Prop :=
  x.prog.Single ∧ x.Yields Now d .empty fun p' _ => Q p'

theorem pure_injective {p p' : Proc} (h : (pure p : Tx Proc) = pure p') : p = p' := by
  have hprog : (.ret p : Prog Db Row Write Err Proc) = .ret p' := congrArg Body.prog h
  injection hprog

theorem reading_pure {p : Proc} {Q : Proc → Prop} (h : Q p) : Reading d (pure p) Q :=
  ⟨trivial, Body.yields_pure.mpr h⟩

theorem reading_query {α : Type} {f : Db → α} {k : α → Tx Proc} {Q : Proc → Prop}
    (hk : ∀ a, ∃ p, k a = pure p) (h : ∀ p, k (f d) = pure p → Q p) :
    Reading d (Body.query f >>= k) Q := by
  constructor
  · refine ⟨fun _ => rfl, fun v => ?_⟩
    obtain ⟨p, hp⟩ := hk (f v.db)
    exact .inl ⟨p, congrArg Body.prog hp⟩
  · refine Body.yields_bind.mpr (Body.yields_query.mpr fun d' hd' => ?_)
    subst hd'
    obtain ⟨p, hp⟩ := hk (f d')
    exact hp ▸ Body.yields_pure.mpr (h p hp)

theorem reading_row {f : Resource → Proc} {Q : Proc → Prop}
    (h : ∀ r, d.row = some r → Q (f r)) : Reading d (Proc.reading f) Q := by
  refine ⟨⟨fun _ => rfl, fun v => ?_⟩, ?_⟩
  · cases hrow : v.db.row with
    | none => exact .inr ⟨.notFound, by simp [hrow, Prog.bind]⟩
    | some r => exact .inl ⟨f r, by simp [hrow, Prog.bind]; rfl⟩
  · simp only [Proc.reading, Body.yields_bind, Body.yields_pure]
    refine Body.yields_update.mpr fun d' hd' r hr => ?_
    subst hd'
    cases hrow : d'.row with
    | none => simp [hrow] at hr
    | some r' =>
      obtain rfl : r' = r := by simpa [hrow] using hr
      exact h r' hrow

theorem acquire_reads {n : Nat} {r : Resource} {canEnumerate : Bool} :
    Reading d (acquire n r canEnumerate) (Reads d · (.acquiring n r)) := by
  unfold acquire
  split
  · exact reading_pure (by simp [Reads, *])
  · split
    · refine reading_query (fun o => ?_) fun p hp => ?_
      · cases o <;> exact ⟨_, rfl⟩
      · cases ho : d.object with
        | none | some =>
          simp only [ho] at hp
          obtain rfl := pure_injective hp
          simp [Reads, *]
    · exact reading_pure (by simp [Reads, *])

/-- Every transition that reads without a lock is one read. -/
theorem Proc.body_reads {p : Proc} {i : Input} {x : Tx Proc} (h : p.body svc i = some x) :
    Reading d x (Reads d · p) ∨ ∀ p', Reads d p' p := by
  unfold Proc.body at h
  split at h
  all_goals cases h
  all_goals try exact .inr fun _ => trivial
  -- Left are the workers' first steps and the look for an object, in the order of the source.
  · exact .inl (reading_row fun r hrow => ⟨r, hrow, rfl⟩)
  · exact .inl acquire_reads
  · exact .inl (reading_row fun r hrow => ⟨r, hrow, rfl⟩)
  · exact .inl (reading_row fun r hrow => ⟨r, hrow, rfl⟩)
  · refine .inl (reading_query (fun row => ⟨_, rfl⟩) fun p hp => ?_)
    exact (pure_injective hp).symm

/-! ## Runs -/

/-- The process that commits has read what is there. -/
def Fresh (w : World Db Proc) (a : Action Input Nat Proc) (w' : World Db Proc) : Prop :=
  ∀ {j : Nat} {p p' : Proc}, a = .commit j → w.procs[j]? = some (some p) →
    w'.procs[j]? = some (some p') → Reads w.db p' p

/-- The prompt runs whose steps all satisfy a condition. -/
abbrev RunNow (svc : Service) (ok : World Db Proc → Action Input Nat Proc → Bool) :
    System → List Write → System → Prop :=
  (program svc).machine.Run fun c a => (c.prompt a && ok c.world a) = true

section
variable {ok : World Db Proc → Action Input Nat Proc → Bool} {t : Time} {log log' ws : List Write}
  {c c' : System} {a : Action Input Nat Proc}

theorem RunNow.runIf (hrun : RunNow svc ok (boot t) log c) : RunIf svc ok (boot t) log c :=
  hrun.mono fun _ _ h => (Bool.and_eq_true_iff.mp h).2

theorem step_fresh (hrun : RunNow svc ok (boot t) log c)
    (hs : (program svc).machine.Step c a ws c') : Fresh c.world a c'.world := by
  rintro j p p' rfl hp hp'
  have hcurrent : (program svc).machine.Current c :=
    hrun.current (by simp [boot]) fun _ _ h => (Bool.and_eq_true_iff.mp h).1
  obtain ⟨p₀, q, i, s, hj, hj', hnow⟩ := hs.commit_now hcurrent
  obtain ⟨prog, hbody, -⟩ := (run_explained (RunNow.runIf hrun)).reached hj
  obtain rfl : p₀ = p := by simpa [Config.world, hj] using hp
  obtain rfl : q = p' := by simpa [Config.world, hj'] using hp'
  obtain ⟨x, hx, rfl⟩ := Program.machine_body.mp hbody
  rcases Proc.body_reads hx with hread | hany
  · exact hread.2.runs (hnow x.prog hbody hread.1)
  · exact hany q

/-- What moves keep that satisfy the condition and read what is there, a run keeps. -/
theorem run_keeps_now {K : World Db Proc → Prop}
    (hK : ∀ {w a ws w'}, K w → ok w a = true → Moves svc w a ws w' → Fresh w a w' → K w')
    (h₀ : K (boot t).world) (hrun : RunNow svc ok (boot t) log c) : K c.world := by
  induction hrun with
  | refl => exact h₀
  | step hrun' hok hs ih =>
    have hok := (Bool.and_eq_true_iff.mp hok).2
    rcases hs.serial (run_explained (RunNow.runIf hrun')) with ⟨-, heq⟩ | hser
    · rw [heq]
      exact ih
    · exact hK ih hok (serial_moves hser) (step_fresh hrun' hs)

end

/-- Execute a schedule promptly under a condition. -/
abbrev playNow (ok : World Db Proc → Action Input Nat Proc → Bool) (c : System) (s : Schedule) :
    Option System :=
  (program {}).machine.play (fun c a => c.prompt a && ok c.world a) c s

end Ultracore.Resourcework
