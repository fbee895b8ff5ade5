-- SUMMARY: Processes that run transactions one after another, interleaved statement by statement under row locks.
import Ultracore.Txn.Prog

/-!
# Interleaved transactions

A `Machine` is a set of processes over one shared store. A process is a state of
type `P`; from it the process runs one transaction, whose body returns the state
the process continues with. Statements of different processes interleave freely,
except that a statement waits while another transaction holds a row it locks.
Writes become visible when their transaction commits, and locks are held until
then.

A transaction may be aborted at any point, its commit may succeed without the
process learning of it (`lose`), and a process may crash at any point.
-/

namespace Txn

/-- Processes over a store. `I` is what a transaction is given from outside when
    it begins, `V` the moves of the environment on the tables. -/
structure Machine (D R W E I V P : Type) where
  /-- The transaction a process runs next, `none` when it runs none on this input. -/
  body : P → I → Option (Prog D R W E P)
  /-- Where a process continues when its transaction rolled back with an error. -/
  onErr : P → I → E → P
  /-- The error a process sees when the database aborted its transaction. -/
  broken : E
  /-- Whether a process may start, given the tables and the processes there are. -/
  canSpawn : D → List (Option P) → P → Bool
  /-- A move of the environment. -/
  env : V → D → D

/-- One process: between two transactions, inside one, or gone. -/
inductive Slot (D R W E I P : Type) where
  | idle (p : P)
  | active (p : P) (i : I) (s : Local R W) (rest : Prog D R W E P)
  | dead

namespace Slot

variable {D R W E I P : Type}

/-- The process state a slot returns to when its transaction is undone. -/
def proc : Slot D R W E I P → Option P
  | .idle p => some p
  | .active p _ _ _ => some p
  | .dead => none

/-- The rows a slot holds locked. -/
def locks : Slot D R W E I P → List R
  | .active _ _ s _ => s.locks
  | _ => []

@[simp] theorem proc_idle (p : P) : (idle p : Slot D R W E I P).proc = some p := rfl
@[simp] theorem proc_active (p : P) (i : I) (s : Local R W) (rest : Prog D R W E P) :
    (active p i s rest).proc = some p := rfl
@[simp] theorem proc_dead : (dead : Slot D R W E I P).proc = none := rfl
@[simp] theorem locks_idle (p : P) : (idle p : Slot D R W E I P).locks = [] := rfl
@[simp] theorem locks_active (p : P) (i : I) (s : Local R W) (rest : Prog D R W E P) :
    (active p i s rest).locks = s.locks := rfl
@[simp] theorem locks_dead : (dead : Slot D R W E I P).locks = [] := rfl

end Slot

/-- The committed tables and the processes. -/
structure Config (D R W E I P : Type) where
  db : D
  procs : List (Slot D R W E I P)

/-- What can happen next. -/
inductive Action (I V P : Type) where
  | spawn (p : P)
  | begin (j : Nat) (i : I)
  | exec (j : Nat)
  | commit (j : Nat)
  | lose (j : Nat)
  | rollback (j : Nat)
  | abort (j : Nat)
  | crash (j : Nat)
  | env (v : V)

/-- The process an action is about. -/
def Action.subject {I V P : Type} : Action I V P → Option Nat
  | .begin j _ | .exec j | .commit j | .lose j | .rollback j | .abort j | .crash j => some j
  | .spawn _ | .env _ => none

namespace Config

variable {D R W E I P : Type}

/-- Whether a process other than `j` holds `r` locked. -/
def busy [DecidableEq R] (c : Config D R W E I P) (j : Nat) (r : R) : Bool :=
  c.procs.zipIdx.any fun sl => sl.2 != j && decide (r ∈ sl.1.locks)

/-- Replace the slot of process `j`. -/
def set (c : Config D R W E I P) (j : Nat) (sl : Slot D R W E I P) : Config D R W E I P :=
  { c with procs := c.procs.set j sl }

@[simp] theorem set_db (c : Config D R W E I P) (j : Nat) (sl : Slot D R W E I P) :
    (c.set j sl).db = c.db := rfl

@[simp] theorem set_procs (c : Config D R W E I P) (j : Nat) (sl : Slot D R W E I P) :
    (c.set j sl).procs = c.procs.set j sl := rfl

/-- Writing a slot back changes nothing. -/
theorem set_self {c : Config D R W E I P} {j : Nat} {sl : Slot D R W E I P}
    (h : c.procs[j]? = some sl) : c.set j sl = c := by
  obtain ⟨hlen, rfl⟩ := List.getElem?_eq_some_iff.mp h
  simp [set]

theorem busy_eq_false [DecidableEq R] {c : Config D R W E I P} {j : Nat} {r : R} :
    c.busy j r = false ↔
      ∀ (m : Nat) (sl : Slot D R W E I P), c.procs[m]? = some sl → m ≠ j → r ∉ sl.locks := by
  unfold busy
  simp only [List.any_eq_false, List.mem_zipIdx_iff_getElem?, Prod.forall]
  constructor
  · intro h m sl hm hne hr
    have := h sl m hm
    simp [hne, hr] at this
  · intro h sl m hm
    by_cases hne : m = j
    · simp [hne]
    · simp [h m sl hm hne]

end Config

namespace Machine

variable {D R W E I V P : Type} [Tables D W] [DecidableEq R]

/-- One step of the interleaved machine. The list is what the step commits. -/
inductive Step (M : Machine D R W E I V P) :
    Config D R W E I P → Action I V P → List W → Config D R W E I P → Prop where
  | spawn {c : Config D R W E I P} {p : P} :
      M.canSpawn c.db (c.procs.map Slot.proc) p = true →
      Step M c (.spawn p) [] { c with procs := c.procs ++ [.idle p] }
  | begin {c : Config D R W E I P} {j : Nat} {p : P} {i : I} {prog : Prog D R W E P} :
      c.procs[j]? = some (.idle p) → M.body p i = some prog →
      Step M c (.begin j i) [] (c.set j (.active p i .empty prog))
  | exec {c : Config D R W E I P} {j : Nat} {p : P} {i : I} {s : Local R W}
      {need : Snap D R → List R} {eff : Snap D R → List W} {k : Snap D R → Prog D R W E P}
      {v : Snap D R} :
      c.procs[j]? = some (.active p i s (.stmt need eff k)) →
      v = ⟨applyAll c.db s.writes, c.busy j⟩ →
      (∀ r ∈ need v, c.busy j r = false) →
      Step M c (.exec j) [] (c.set j (.active p i (s.after (need v) (eff v)) (k v)))
  | commit {c : Config D R W E I P} {j : Nat} {p p' : P} {i : I} {s : Local R W} :
      c.procs[j]? = some (.active p i s (.ret p')) →
      Step M c (.commit j) s.writes ⟨applyAll c.db s.writes, c.procs.set j (.idle p')⟩
  | lose {c : Config D R W E I P} {j : Nat} {p p' : P} {i : I} {s : Local R W} :
      c.procs[j]? = some (.active p i s (.ret p')) →
      Step M c (.lose j) s.writes
        ⟨applyAll c.db s.writes, c.procs.set j (.idle (M.onErr p i M.broken))⟩
  | rollback {c : Config D R W E I P} {j : Nat} {p : P} {i : I} {s : Local R W} {e : E} :
      c.procs[j]? = some (.active p i s (.fail e)) →
      Step M c (.rollback j) [] (c.set j (.idle (M.onErr p i e)))
  | abort {c : Config D R W E I P} {j : Nat} {p : P} {i : I} {s : Local R W}
      {rest : Prog D R W E P} :
      c.procs[j]? = some (.active p i s rest) →
      Step M c (.abort j) [] (c.set j (.idle (M.onErr p i M.broken)))
  | crash {c : Config D R W E I P} {j : Nat} :
      Step M c (.crash j) [] (c.set j .dead)
  | env {c : Config D R W E I P} {v : V} :
      Step M c (.env v) [] { c with db := M.env v c.db }

/-- The runs of a machine whose steps all satisfy `Ok`, with everything they
    commit, in commit order. -/
inductive Run (M : Machine D R W E I V P) (Ok : Config D R W E I P → Action I V P → Prop)
    (c₀ : Config D R W E I P) : List W → Config D R W E I P → Prop where
  | refl : Run M Ok c₀ [] c₀
  | step {log ws : List W} {c c' : Config D R W E I P} {a : Action I V P} :
      Run M Ok c₀ log c → Ok c a → M.Step c a ws c' → Run M Ok c₀ (log ++ ws) c'

/-- Every run. -/
abbrev Reaches (M : Machine D R W E I V P) (c₀ : Config D R W E I P) :
    List W → Config D R W E I P → Prop :=
  M.Run (fun _ _ => True) c₀

theorem Run.mono {M : Machine D R W E I V P} {Ok Ok' : Config D R W E I P → Action I V P → Prop}
    (h : ∀ c a, Ok c a → Ok' c a) {c₀ c : Config D R W E I P} {log : List W}
    (hrun : M.Run Ok c₀ log c) : M.Run Ok' c₀ log c := by
  induction hrun with
  | refl => exact .refl
  | step _ hok hstep ih => exact .step ih (h _ _ hok) hstep

theorem Run.trans {M : Machine D R W E I V P} {Ok : Config D R W E I P → Action I V P → Prop}
    {c₀ c₁ c₂ : Config D R W E I P} {log log' : List W}
    (h₁ : M.Run Ok c₀ log c₁) (h₂ : M.Run Ok c₁ log' c₂) : M.Run Ok c₀ (log ++ log') c₂ := by
  induction h₂ with
  | refl => simpa using h₁
  | step _ hok hstep ih => simpa [List.append_assoc] using ih.step hok hstep

/-! ## Executing a schedule -/

/-- Take one step, if it can be taken. -/
def next (M : Machine D R W E I V P) (c : Config D R W E I P) :
    Action I V P → Option (Config D R W E I P)
  | .spawn p =>
    if M.canSpawn c.db (c.procs.map Slot.proc) p then
      some { c with procs := c.procs ++ [.idle p] }
    else none
  | .begin j i =>
    match c.procs[j]? with
    | some (.idle p) => (M.body p i).map fun prog => c.set j (.active p i .empty prog)
    | _ => none
  | .exec j =>
    match c.procs[j]? with
    | some (.active p i s (.stmt need eff k)) =>
      let v : Snap D R := ⟨applyAll c.db s.writes, c.busy j⟩
      if (need v).all fun r => !c.busy j r then
        some (c.set j (.active p i (s.after (need v) (eff v)) (k v)))
      else none
    | _ => none
  | .commit j =>
    match c.procs[j]? with
    | some (.active _ _ s (.ret p')) =>
      some ⟨applyAll c.db s.writes, c.procs.set j (.idle p')⟩
    | _ => none
  | .lose j =>
    match c.procs[j]? with
    | some (.active p i s (.ret _)) =>
      some ⟨applyAll c.db s.writes, c.procs.set j (.idle (M.onErr p i M.broken))⟩
    | _ => none
  | .rollback j =>
    match c.procs[j]? with
    | some (.active p i _ (.fail e)) => some (c.set j (.idle (M.onErr p i e)))
    | _ => none
  | .abort j =>
    match c.procs[j]? with
    | some (.active p i _ _) => some (c.set j (.idle (M.onErr p i M.broken)))
    | _ => none
  | .crash j => some (c.set j .dead)
  | .env v => some { c with db := M.env v c.db }

theorem next_step {M : Machine D R W E I V P} {c c' : Config D R W E I P} {a : Action I V P}
    (h : M.next c a = some c') : ∃ ws, M.Step c a ws c' := by
  cases a with
  | spawn =>
    simp only [next] at h
    split at h
    · cases h
      exact ⟨[], .spawn ‹_›⟩
    · cases h
  | begin j i =>
    simp only [next] at h
    split at h
    · rename_i p hj
      cases hb : M.body p i with
      | none => simp [hb] at h
      | some =>
        simp only [hb, Option.map_some, Option.some.injEq] at h
        subst h
        exact ⟨[], .begin hj hb⟩
    · cases h
  | exec =>
    simp only [next] at h
    split at h
    · rename_i p i s need eff k hj
      split at h
      · rename_i hall
        cases h
        refine ⟨[], .exec hj rfl ?_⟩
        simpa using hall
      · cases h
    · cases h
  | commit | lose | rollback | abort =>
    simp only [next] at h
    split at h
    · cases h
      exact ⟨_, by constructor; assumption⟩
    · cases h
  | crash =>
    cases h
    exact ⟨_, .crash⟩
  | env =>
    cases h
    exact ⟨_, .env⟩

/-- Take one step, if it can be taken and satisfies `ok`. -/
def nextIf (M : Machine D R W E I V P) (ok : Config D R W E I P → Action I V P → Bool)
    (c : Config D R W E I P) (a : Action I V P) : Option (Config D R W E I P) :=
  if ok c a then M.next c a else none

/-- Take the transaction of process `j` that is in flight to its end. -/
def settle (M : Machine D R W E I V P) (ok : Config D R W E I P → Action I V P → Bool) (j : Nat) :
    (fuel : Nat) → Config D R W E I P → Option (Config D R W E I P)
  | 0, _ => none
  | fuel + 1, c =>
    match c.procs[j]? with
    | some (.active _ _ _ (.stmt _ _ _)) => (M.nextIf ok c (.exec j)).bind (M.settle ok j fuel)
    | some (.active _ _ _ (.fail _)) => M.nextIf ok c (.rollback j)
    | _ => M.nextIf ok c (.commit j)

/-- An entry of a schedule: a single action, or a whole transaction of process `j`. -/
inductive Move (I V P : Type) where
  | act (a : Action I V P)
  | tx (j : Nat) (i : I)

/-- Execute a schedule, as long as every step satisfies `ok`. -/
def play (M : Machine D R W E I V P) (ok : Config D R W E I P → Action I V P → Bool)
    (c : Config D R W E I P) : List (Move I V P) → Option (Config D R W E I P)
  | [] => some c
  | .act a :: ms => (M.nextIf ok c a).bind fun c' => M.play ok c' ms
  | .tx j i :: ms =>
    ((M.nextIf ok c (.begin j i)).bind (M.settle ok j 100)).bind fun c' => M.play ok c' ms

section
variable {M : Machine D R W E I V P} {ok : Config D R W E I P → Action I V P → Bool}
  {c c' : Config D R W E I P}

theorem nextIf_run {a : Action I V P} (h : M.nextIf ok c a = some c') :
    ∃ log, M.Run (fun c a => ok c a = true) c log c' := by
  unfold nextIf at h
  split at h
  · obtain ⟨ws, hstep⟩ := next_step h
    exact ⟨_, .step .refl ‹_› hstep⟩
  · cases h

theorem settle_run {j fuel : Nat} (h : M.settle ok j fuel c = some c') :
    ∃ log, M.Run (fun c a => ok c a = true) c log c' := by
  induction fuel generalizing c with
  | zero => cases h
  | succ fuel ih =>
    unfold settle at h
    split at h
    · obtain ⟨c₁, h₁, h₂⟩ := Option.bind_eq_some_iff.mp h
      obtain ⟨log₁, hrun₁⟩ := nextIf_run h₁
      obtain ⟨log₂, hrun₂⟩ := ih h₂
      exact ⟨_, hrun₁.trans hrun₂⟩
    · exact nextIf_run h
    · exact nextIf_run h

/-- What a schedule reaches is reached by a run. -/
theorem play_run {ms : List (Move I V P)} (h : M.play ok c ms = some c') :
    ∃ log, M.Run (fun c a => ok c a = true) c log c' := by
  induction ms generalizing c with
  | nil =>
    cases h
    exact ⟨[], .refl⟩
  | cons m ms ih =>
    cases m with
    | act =>
      obtain ⟨c₁, h₁, h₂⟩ := Option.bind_eq_some_iff.mp h
      obtain ⟨log₁, hrun₁⟩ := nextIf_run h₁
      obtain ⟨log₂, hrun₂⟩ := ih h₂
      exact ⟨_, hrun₁.trans hrun₂⟩
    | tx =>
      obtain ⟨c₂, h₂, h₃⟩ := Option.bind_eq_some_iff.mp h
      obtain ⟨c₁, h₁, h₂⟩ := Option.bind_eq_some_iff.mp h₂
      obtain ⟨log₁, hrun₁⟩ := nextIf_run h₁
      obtain ⟨log₂, hrun₂⟩ := settle_run h₂
      obtain ⟨log₃, hrun₃⟩ := ih h₃
      exact ⟨_, (hrun₁.trans hrun₂).trans hrun₃⟩

/-- A schedule without a condition. -/
theorem play_reaches {ms : List (Move I V P)} (h : M.play (fun _ _ => true) c ms = some c') :
    ∃ log, M.Reaches c log c' := by
  obtain ⟨log, hrun⟩ := play_run h
  exact ⟨log, hrun.mono fun _ _ _ => trivial⟩

end

/-! ## Transactions that nothing gets in the way of -/

section
variable {M : Machine D R W E I V P} {Ok : Config D R W E I P → Action I V P → Prop}
  {c : Config D R W E I P} {j : Nat} {p q : P} {i : I} {s s' : Local R W} {prog : Prog D R W E P}

/-- The rest of a transaction while no other holds a lock. -/
theorem run_alone (hj : c.procs[j]? = some (.active p i s prog))
    (hfree : ∀ m sl, c.procs[m]? = some sl → m ≠ j → sl.locks = [])
    (hok : ∀ s rest, Ok (c.set j (.active p i s rest)) (.exec j) ∧
      Ok (c.set j (.active p i s rest)) (.commit j))
    (h : prog.alone c.db s = (.ok q, s')) :
    M.Run Ok c s'.writes ⟨applyAll c.db s'.writes, c.procs.set j (.idle q)⟩ := by
  induction prog generalizing c s with
  | ret q' =>
    obtain ⟨hq, rfl⟩ := Prod.mk.inj h
    obtain rfl := Except.ok.inj hq
    have hc : c.set j (.active p i s (.ret q')) = c := Config.set_self hj
    exact Run.step .refl (hc ▸ (hok s (.ret q')).2) (.commit hj)
  | fail => cases h
  | stmt need eff k ih =>
    have hbusy : c.busy j = fun _ => false := by
      funext r
      refine Config.busy_eq_false.mpr fun m sl hm hne => ?_
      simp [hfree m sl hm hne]
    have hc : c.set j (.active p i s (.stmt need eff k)) = c := Config.set_self hj
    let v : Snap D R := ⟨applyAll c.db s.writes, c.busy j⟩
    have hstep : M.Step c (.exec j) []
        (c.set j (.active p i (s.after (need v) (eff v)) (k v))) :=
      .exec hj rfl fun r _ => by rw [hbusy]
    have hset : ∀ sl, (c.set j (.active p i (s.after (need v) (eff v)) (k v))).set j sl =
        c.set j sl := fun sl => by simp [Config.set]
    have hrest := ih v (c := c.set j (.active p i (s.after (need v) (eff v)) (k v)))
      (s := s.after (need v) (eff v))
      (List.getElem?_set_self (List.getElem?_eq_some_iff.mp hj).1)
      (fun m sl hm hne => hfree m sl (by simpa [List.getElem?_set_ne (Ne.symm hne)] using hm) hne)
      (fun s rest => by rw [hset]; exact hok s rest)
      (by simpa [v, hbusy, Prog.alone] using h)
    simpa using (Run.step .refl (hc ▸ (hok s _).1) hstep).trans hrest

/-- A whole transaction while no other holds a lock. -/
theorem run_tx_alone (hj : c.procs[j]? = some (.idle p))
    (hfree : ∀ m sl, c.procs[m]? = some sl → m ≠ j → sl.locks = []) (hbegin : Ok c (.begin j i))
    (hok : ∀ s rest, Ok (c.set j (.active p i s rest)) (.exec j) ∧
      Ok (c.set j (.active p i s rest)) (.commit j))
    (hbody : M.body p i = some prog) (h : prog.alone c.db .empty = (.ok q, s')) :
    M.Run Ok c s'.writes ⟨applyAll c.db s'.writes, c.procs.set j (.idle q)⟩ := by
  have hlen := (List.getElem?_eq_some_iff.mp hj).1
  have hset : ∀ sl, (c.set j (.active p i .empty prog)).set j sl = c.set j sl :=
    fun sl => by simp [Config.set]
  have hrest : M.Run Ok (c.set j (.active p i .empty prog)) s'.writes
      ⟨applyAll c.db s'.writes, (c.set j (.active p i .empty prog)).procs.set j (.idle q)⟩ := by
    refine run_alone (List.getElem?_set_self hlen) (fun m sl hm hne => hfree m sl ?_ hne)
      (fun s rest => ?_) h
    · simpa [List.getElem?_set_ne (Ne.symm hne)] using hm
    · rw [hset]
      exact hok s rest
  simpa using (Run.step .refl hbegin (.begin hj hbody)).trans hrest

end

end Machine

end Txn
