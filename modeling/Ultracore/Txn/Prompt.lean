-- SUMMARY: Statements that lock nothing, executed and committed at once, see the tables as they are.
import Ultracore.Txn.Serial

/-!
# Prompt commits

A statement outside a transaction is executed and committed in one step. In a `prompt` run a
transaction that has executed its last statement and holds no lock ends before anything else
happens. A body that is one such statement then commits what it yields on the tables at
commit, where in general it may have seen earlier ones.
-/

namespace Txn

section
variable {D R W E I V P : Type}

/-- Whether the action is about every process that has only to commit and holds no lock. -/
def Config.prompt (c : Config D R W E I P) (a : Action I V P) : Bool :=
  c.procs.zipIdx.all fun sl =>
    match sl.1 with
    | .active _ _ s (.ret _) => !s.locks.isEmpty || decide (a.subject = some sl.2)
    | _ => true

theorem Config.prompt_subject {c : Config D R W E I P} {a : Action I V P} (h : c.prompt a = true)
    {j : Nat} {p q : P} {i : I} {s : Local R W} (hj : c.procs[j]? = some (.active p i s (.ret q)))
    (hs : s.locks = []) : a.subject = some j := by
  have hmem : (Slot.active p i s (.ret q), j) ∈ c.procs.zipIdx :=
    List.mem_zipIdx_iff_getElem?.mpr hj
  simpa [hs] using List.all_eq_true.mp h _ hmem

/-- At most one statement, which locks nothing. -/
def Prog.Single {α : Type} : Prog D R W E α → Prop
  | .stmt need _ k => (∀ v, need v = []) ∧ ∀ v, (∃ a, k v = .ret a) ∨ ∃ e, k v = .fail e
  | _ => True

/-- What is seen is what is there. -/
def Now (_ : List R) (d d' : D) : Prop := d' = d

end

namespace Machine

variable {D R W E I V P : Type} [Tables D W] {M : Machine D R W E I V P}

/-- How far a transaction of at most one statement has got: not begun, failed, or ready to
    commit what it yields on the tables as they are. -/
inductive AtOnce (d : D) (prog : Prog D R W E P) : Local R W → Prog D R W E P → Prop where
  | start : AtOnce d prog .empty prog
  | failed {s : Local R W} {e : E} : AtOnce d prog s (.fail e)
  | ready {s : Local R W} {q : P} : s.locks = [] → prog.Runs Now d .empty (.ok q) s →
      AtOnce d prog s (.ret q)

/-- A statement is executed on the tables as they are. -/
theorem AtOnce.exec {d : D} {prog : Prog D R W E P} {s : Local R W}
    {need : Snap D R → List R} {eff : Snap D R → List W} {k : Snap D R → Prog D R W E P}
    {busy : R → Bool} (h : AtOnce d prog s (.stmt need eff k)) (hsingle : prog.Single) :
    AtOnce d prog (s.after (need ⟨applyAll d s.writes, busy⟩) (eff ⟨applyAll d s.writes, busy⟩))
      (k ⟨applyAll d s.writes, busy⟩) := by
  cases h with
  | start =>
    obtain ⟨hneed, hends⟩ := hsingle
    rcases hends ⟨applyAll d (Local.empty : Local R W).writes, busy⟩ with ⟨q, hq⟩ | ⟨e, he⟩
    · rw [hq]
      refine .ready (by simp [hneed]) ⟨d, busy, rfl, ?_⟩
      rw [hq]
      exact ⟨rfl, rfl⟩
    · rw [he]
      exact .failed

/-- Who is ready to commit, commits what there is to see. -/
theorem AtOnce.commits {d : D} {prog : Prog D R W E P} {s : Local R W} {q : P}
    (h : AtOnce d prog s (.ret q)) : prog.Runs Now d .empty (.ok q) s := by
  cases h with
  | start => exact ⟨rfl, rfl⟩
  | ready _ hruns => exact hruns

/-- Every transaction of at most one statement that locks nothing sees the tables as they
    are. -/
def Current (M : Machine D R W E I V P) (c : Config D R W E I P) : Prop :=
  ∀ {j : Nat} {p : P} {i : I} {s : Local R W} {rest prog : Prog D R W E P},
    c.procs[j]? = some (.active p i s rest) → M.body p i = some prog → prog.Single →
    AtOnce c.db prog s rest

/-- A process that the action is not about has nothing left to see. -/
theorem Current.others {c : Config D R W E I P} {d' : D} {a : Action I V P}
    (h : M.Current c) (hprompt : c.prompt a = true) {m : Nat} {p : P} {i : I} {s : Local R W}
    {rest prog : Prog D R W E P} (hm : c.procs[m]? = some (.active p i s rest))
    (hne : a.subject ≠ some m) (hbody : M.body p i = some prog) (hsingle : prog.Single) :
    AtOnce d' prog s rest := by
  cases h hm hbody hsingle with
  | start =>
    cases rest with
    | ret => exact absurd (Config.prompt_subject hprompt hm rfl) hne
    | _ => exact .start
  | failed => exact .failed
  | ready hlocks => exact absurd (Config.prompt_subject hprompt hm hlocks) hne

variable [DecidableEq R]

/-- A prompt step keeps it so. -/
theorem Step.current {c c' : Config D R W E I P} {a : Action I V P} {ws : List W}
    (hs : M.Step c a ws c') (hprompt : c.prompt a = true) (h : M.Current c) : M.Current c' := by
  intro m p i s rest prog hm hbody hsingle
  cases hs with
  | spawn =>
    rcases get_append_cases hm with hold | ⟨-, hnew⟩
    · exact h hold hbody hsingle
    · cases hnew
  | begin hj hbegin =>
    rcases get_set_cases hm with ⟨rfl, heq⟩ | ⟨-, hold⟩
    · cases heq
      cases hbegin.symm.trans hbody
      exact .start
    · exact h hold hbody hsingle
  | exec hj hv =>
    rcases get_set_cases hm with ⟨rfl, heq⟩ | ⟨-, hold⟩
    · cases heq
      subst hv
      exact (h hj hbody hsingle).exec hsingle
    · exact h hold hbody hsingle
  | commit | lose =>
    rcases get_set_cases hm with ⟨rfl, heq⟩ | ⟨hne, hold⟩
    · cases heq
    · exact h.others hprompt hold (by simpa [Action.subject] using Ne.symm hne) hbody hsingle
  | rollback hj | abort hj | crash =>
    rcases get_set_cases hm with ⟨rfl, heq⟩ | ⟨-, hold⟩
    · cases heq
    · exact h hold hbody hsingle
  | env => exact h.others hprompt hm (by simp [Action.subject]) hbody hsingle

theorem Run.current {Ok : Config D R W E I P → Action I V P → Prop} {c₀ c : Config D R W E I P}
    {log : List W} (h₀ : ∀ sl ∈ c₀.procs, ∀ p i s rest, sl ≠ .active p i s rest)
    (hok : ∀ c a, Ok c a → c.prompt a = true) (hrun : M.Run Ok c₀ log c) : M.Current c := by
  induction hrun with
  | refl =>
    intro j p i s rest prog hj
    exact absurd rfl (h₀ _ (List.mem_of_getElem? hj) p i s rest)
  | step _ hokc hs ih => exact hs.current (hok _ _ hokc) ih

/-- What is committed by a transaction of at most one statement that locks nothing. -/
theorem Step.commit_now {c c' : Config D R W E I P} {j : Nat} {ws : List W}
    (hs : M.Step c (.commit j) ws c') (h : M.Current c) :
    ∃ p q i s, c.procs[j]? = some (.active p i s (.ret q)) ∧ c'.procs[j]? = some (.idle q) ∧
      ∀ prog, M.body p i = some prog → prog.Single → prog.Runs Now c.db .empty (.ok q) s := by
  cases hs with
  | commit hj =>
    refine ⟨_, _, _, _, hj, ?_, fun prog hbody hsingle => (h hj hbody hsingle).commits⟩
    exact List.getElem?_set_self (List.getElem?_eq_some_iff.mp hj).1

end Machine

end Txn
