-- SUMMARY: A transaction sees tables of its own time: those there were between its beginning and its end.
import Ultracore.Txn.Serial

/-!
# Spans of transactions

`Explained` says that the statements of a transaction saw tables of the past. They are not
arbitrarily old. A statement sees the tables as they are when it is executed, so every transaction
in flight has a configuration at which it began, and its statements saw the tables of
configurations between that one and the present.
-/

namespace Txn.Machine

variable {D R W E I V P : Type} [Tables D W] [DecidableEq R]

/-- Tables of a configuration that a run passes between `cb` and `c`. -/
def Between (M : Machine D R W E I V P) (Ok : Config D R W E I P → Action I V P → Prop)
    (cb c : Config D R W E I P) (d' _d : D) : Prop :=
  ∃ log₁ log₂ c₁, M.Run Ok cb log₁ c₁ ∧ M.Run Ok c₁ log₂ c ∧ c₁.db = d'

/-- The transaction of process `j` began in `cb`, after the run had started in `c₀`, and has got
    as far as `rest`. -/
structure Spans (M : Machine D R W E I V P) (G : Regions D R W)
    (Ok : Config D R W E I P → Action I V P → Prop) (c₀ cb c : Config D R W E I P) (j : Nat) (p : P)
    (i : I) (s : Local R W) (rest : Prog D R W E P) : Prop where
  before : ∃ log, M.Run Ok c₀ log cb
  idle : cb.procs[j]? = some (.idle p)
  since : ∃ log, M.Run Ok cb log c
  reached : ∃ prog, M.body p i = some prog ∧
    prog.Reached (G.Sees (Between M Ok cb c)) c.db .empty s rest

variable {M : Machine D R W E I V P} {G : Regions D R W}
  {Ok : Config D R W E I P → Action I V P → Prop} {c₀ cb c c' : Config D R W E I P}
  {log ws : List W} {a : Action I V P} {j : Nat} {p p' : P} {i : I} {s : Local R W}
  {rest : Prog D R W E P}

theorem Between.now {d : D} (h : M.Run Ok cb log c) : Between M Ok cb c c.db d :=
  ⟨_, _, c, h, .refl, rfl⟩

theorem Between.step {d d₂ d' : D} (h : Between M Ok cb c d' d) (hok : Ok c a)
    (hs : M.Step c a ws c') : Between M Ok cb c' d' d₂ := by
  obtain ⟨log₁, log₂, c₁, h₁, h₂, rfl⟩ := h
  exact ⟨_, _, c₁, h₁, h₂.step hok hs, rfl⟩

/-- A step of another process leaves a span as it is, where it keeps what the transaction has
    locked. -/
theorem Spans.step (h : M.Spans G Ok c₀ cb c j p i s rest) (hok : Ok c a) (hs : M.Step c a ws c')
    (hsame : ∀ r ∈ s.locks, G.content r c.db = G.content r c'.db) :
    M.Spans G Ok c₀ cb c' j p i s rest := by
  obtain ⟨log, hsince⟩ := h.since
  obtain ⟨prog, hbody, hreach⟩ := h.reached
  exact ⟨h.before, h.idle, ⟨_, hsince.step hok hs⟩, prog, hbody,
    hreach.stable hsame fun _ hd' => hd'.step hok hs⟩

/-- Every transaction in flight has a span. -/
theorem Run.spans (h₀ : ∀ sl ∈ c₀.procs, sl.locks = [] ∧ ∀ p i s rest, sl ≠ .active p i s rest)
    (henv : M.EnvOutside G) (hiso : ∀ A d, M.Isolated G A d) (hrun : M.Run Ok c₀ log c)
    (hj : c.procs[j]? = some (.active p i s rest)) : ∃ cb, M.Spans G Ok c₀ cb c j p i s rest := by
  induction hrun generalizing j p i s rest with
  | refl => exact absurd rfl ((h₀ _ (List.mem_of_getElem? hj)).2 p i s rest)
  | @step log ws c c' a hrun' hok hs ih =>
    have hexp : M.Explained G (fun _ _ => True) c :=
      Run.explained (.of_idle h₀) henv (fun _ _ h => h.keptBy (hiso _ _)) (fun _ => trivial)
        (fun _ _ _ _ => trivial) hrun'
    have hstep := hs
    have hother : c.procs[j]? = some (.active p i s rest) →
        (∀ r ∈ s.locks, G.content r c.db = G.content r c'.db) →
        ∃ cb, M.Spans G Ok c₀ cb c' j p i s rest := by
      intro hj hsame
      obtain ⟨cb, hcb⟩ := ih hj
      exact ⟨cb, hcb.step hok hs hsame⟩
    cases hs with
    | spawn =>
      rcases get_append_cases hj with hj | ⟨-, heq⟩
      · exact hother hj fun _ _ => rfl
      · cases heq
    | @begin j' p₀ i₀ prog hidle hbody =>
      rcases get_set_cases hj with ⟨rfl, heq⟩ | ⟨-, hj⟩
      · cases heq
        exact ⟨c, ⟨_, hrun'⟩, hidle, ⟨_, Run.refl.step hok hstep⟩, _, hbody, .start⟩
      · exact hother hj fun _ _ => rfl
    | @exec j' p₀ i₀ s₀ need eff k v hactive hv hfree =>
      rcases get_set_cases hj with ⟨rfl, heq⟩ | ⟨-, hj⟩
      · -- the statement has seen the tables as they are
        cases heq
        obtain ⟨cb, hcb⟩ := ih hactive
        obtain ⟨log', hsince⟩ := hcb.since
        obtain ⟨prog, hbody, hreach⟩ := hcb.reached
        have hreach' : prog.Reached (G.Sees (Between M Ok cb c)) c.db .empty
            (s₀.after (need v) (eff v)) (k v) :=
          .stmt hreach hv ⟨Regions.Agree.refl G _ _, .now hsince⟩
        exact ⟨cb, hcb.before, hcb.idle, ⟨_, hsince.step hok hstep⟩, prog, hbody,
          hreach'.stable (fun _ _ => rfl) fun _ hd' => hd'.step hok hstep⟩
      · exact hother hj fun _ _ => rfl
    | commit hret | lose hret =>
      rcases get_set_cases hj with ⟨-, heq⟩ | ⟨hne, hj⟩
      · cases heq
      · exact hother hj (hexp.keptBy (a := .commit _) (hiso _ _) (.inl rfl) hret _ _ hne hj)
    | rollback _ | abort _ | crash =>
      rcases get_set_cases hj with ⟨-, heq⟩ | ⟨-, hj⟩
      · cases heq
      · exact hother hj fun _ _ => rfl
    | @env v => exact hother hj fun r _ => henv v c.db r

/-- A transaction that is about to commit has run on tables of its span. -/
theorem Spans.runs (h : M.Spans G Ok c₀ cb c j p i s (.ret p')) : ∃ prog, M.body p i = some prog ∧
    prog.Runs (G.Sees (Between M Ok cb c)) c.db .empty (.ok p') s := by
  obtain ⟨prog, hbody, hreach⟩ := h.reached
  exact ⟨prog, hbody, hreach.runs ⟨rfl, rfl⟩⟩

/-- One that is about to be rolled back has failed on tables of its span. -/
theorem Spans.fails {e : E} (h : M.Spans G Ok c₀ cb c j p i s (.fail e)) : ∃ prog,
    M.body p i = some prog ∧ prog.Runs (G.Sees (Between M Ok cb c)) c.db .empty (.error e) s := by
  obtain ⟨prog, hbody, hreach⟩ := h.reached
  exact ⟨prog, hbody, hreach.runs ⟨rfl, rfl⟩⟩

/-- A step leaves the slots of the other processes as they are. -/
theorem Step.other (hs : M.Step c a ws c') (hne : a.subject ≠ some j) {sl : Slot D R W E I P}
    (hj : c.procs[j]? = some sl) : c'.procs[j]? = some sl := by
  have hset : ∀ {k : Nat} {sl' : Slot D R W E I P}, k ≠ j → (c.procs.set k sl')[j]? = some sl :=
    fun hk => (List.getElem?_set_ne hk).trans hj
  cases hs with
  | spawn => exact (List.getElem?_append_left (List.getElem?_eq_some_iff.mp hj).1).trans hj
  | env => exact hj
  | _ => exact hset fun heq => hne (congrArg some heq)

end Txn.Machine
