-- SUMMARY: Transaction bodies that see and change only a part of the tables.
import Ultracore.Txn.Machine

/-!
# Confinement

The tables are divided into a part and a rest. A body is confined to the part if it returns
on all tables what it returns on the part alone, changes the part as it does there, and
leaves the rest as it is. Two databases with the same part are the same to such a body.
-/

namespace Txn.Prog

variable {D R W E α β γ : Type} [Tables D W]

/-- Execute a body statement by statement, each on the tables that the ones before it left.
    Nothing is rolled back. -/
def perform : Prog D R W E α → D → Except E α × D
  | .ret a, d => (.ok a, d)
  | .fail e, d => (.error e, d)
  | .stmt _ eff k, d => perform (k ⟨d, fun _ => false⟩) (applyAll d (eff ⟨d, fun _ => false⟩))

theorem perform_bind (p : Prog D R W E α) (f : α → Prog D R W E β) (d : D) :
    (p.bind f).perform d = match p.perform d with
      | (.ok a, d') => (f a).perform d'
      | (.error e, d') => (.error e, d') := by
  induction p generalizing d with
  | ret | fail => rfl
  | stmt need eff k ih => exact ih _ _

theorem perform_exec (need : Snap D R → List R) (f : Snap D R → Except E α × List W) (d : D) :
    (exec need f).perform d =
      ((f ⟨d, fun _ => false⟩).1, applyAll d (f ⟨d, fun _ => false⟩).2) := by
  simp only [exec, perform]
  cases (f ⟨d, fun _ => false⟩).1 <;> rfl

/-- From tables `d` the body is confined to a part, and `Q` holds of what it returns and
    leaves. -/
structure Confined (part rest : D → D) (d : D) (p : Prog D R W E α)
    (Q : Except E α → D → Prop) : Prop where
  result : (p.perform (part d)).1 = (p.perform d).1
  part : part (p.perform d).2 = (p.perform (part d)).2
  rest : rest (p.perform d).2 = rest d
  post : Q (p.perform d).1 (p.perform d).2

section
variable {part rest : D → D} {d : D}
variable {Q : Except E α → D → Prop} {p : Prog D R W E α}

end

end Txn.Prog

namespace Txn.Machine

variable {D R W E I V P : Type} [Tables D W] [DecidableEq R] {M : Machine D R W E I V P}
  {c : Config D R W E I P} {j : Nat} {p p' : P} {i : I} {prog : Prog D R W E P}

/-- A transaction that nobody disturbs is performed. -/
theorem reaches_perform (hquiet : ∀ sl ∈ c.procs, sl.locks = [])
    (hj : c.procs[j]? = some (.idle p)) (hbody : M.body p i = some prog)
    (hp : (prog.perform c.db).1 = .ok p') :
    ∃ log, M.Reaches c log ⟨(prog.perform c.db).2, c.procs.set j (.idle p')⟩ := by
  have hself : ∀ sl, (c.set j sl).procs[j]? = some sl := fun sl => by
    simp [(List.getElem?_eq_some_iff.mp hj).1]
  have hbusy : ∀ sl, (c.set j sl).busy j = fun _ => false := fun sl => funext fun r => by
    refine Config.busy_eq_false.mpr fun m sl' hm hne => ?_
    rw [Config.set_procs, List.getElem?_set_ne hne.symm] at hm
    simp [hquiet sl' (List.mem_of_getElem? hm)]
  have hactive : ∀ (prog : Prog D R W E P) (s : Local R W),
      (prog.perform (applyAll c.db s.writes)).1 = .ok p' →
      ∃ log, M.Reaches (c.set j (.active p i s prog)) log
        ⟨(prog.perform (applyAll c.db s.writes)).2, c.procs.set j (.idle p')⟩ := by
    intro prog
    induction prog with
    | ret =>
      rintro s ⟨⟩
      have hrun : M.Reaches (c.set j (.active p i s (.ret p'))) _ _ :=
        .step .refl trivial (.commit (hself _))
      exact ⟨_, by simpa [Config.set, Prog.perform] using hrun⟩
    | fail => exact fun s h => by cases h
    | stmt need eff k ih =>
      intro s h
      have hstep : M.Reaches (c.set j (.active p i s (.stmt need eff k))) _ _ :=
        .step .refl trivial (.exec (hself _) rfl fun r _ => by rw [hbusy])
      rw [hbusy] at hstep
      obtain ⟨log, hrun⟩ := ih _ (s.after _ _) (by simpa [Prog.perform] using h)
      exact ⟨_, hstep.trans (by simpa [Config.set, Prog.perform] using hrun)⟩
  obtain ⟨log, hrun⟩ := hactive prog .empty hp
  have hbegin : M.Reaches c _ _ := .step .refl trivial (.begin hj hbody)
  exact ⟨_, hbegin.trans hrun⟩

end Txn.Machine
