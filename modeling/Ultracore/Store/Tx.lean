-- SUMMARY: Transactions over the store: programs that lock what they write and number events as Append does.
import Ultracore.Store.Tables
import Ultracore.Txn.Confined

/-!
# Store transactions

`Tx α` is a transaction body together with two facts about every statement in it:

* it holds the locks of the rows it writes (`guarded`);
* it touches the event log only the way `Append` does: `last_seq` of a session is
  bumped, and the very next statement inserts an event with the number returned
  (`logged`).

Both are closed under sequencing and under handling errors, so every function built
from store methods has them by construction. Nothing else can write the log.
-/

namespace Ultracore

open Txn

/-- The errors that steer the code. `sql` is every other database error. -/
inductive Err where
  | notFound
  | alreadyExists
  | stale
  | cancelledCommit
  | denied (reason : String)
  | missingChildPrompt
  | failedPrecondition (message : String)
  | invalid (message : String)
  | corruptHistory
  | sql
deriving DecidableEq

/-- Writes to the event log and its counters. -/
def Write.logs : Write → Bool
  | .insertSession _ | .bumpSeq _ | .insertEvent _ => true
  | _ => false

/-- How one statement may touch the log. `some (s, q)` is a number taken from
    session `s` that the next statement has to use. -/
inductive LogStep (v : Snap Db Row) : List Write → Option (SessionID × Nat) → Prop where
  | quiet {ws : List Write} : (∀ w ∈ ws, w.logs = false) → LogStep v ws none
  | create {x : Session} : x.lastSeq = 0 → v.db.session? x.id = none →
      LogStep v [.insertSession x] none
  | bump {x : Session} : v.db.session? x.id = some x →
      LogStep v [.bumpSeq x.id] (some (x.id, x.lastSeq + 1))

/-- The statements of a body follow the discipline of the log. -/
def LogSafe {α : Type} : Prog Db Row Write Err α → Option (SessionID × Nat) → Prop
  | .ret _, taken => taken = none
  | .fail _, taken => taken = none
  | .stmt _ eff k, none => ∀ v, ∃ taken, LogStep v (eff v) taken ∧ LogSafe (k v) taken
  | .stmt _ eff k, some (s, q) => ∀ v, ∃ e : Event, eff v = [.insertEvent e] ∧
      e.sessionID = s ∧ e.seq = q ∧ LogSafe (k v) none

theorem LogSafe.bind {α β : Type} {p : Prog Db Row Write Err α}
    {f : α → Prog Db Row Write Err β} {taken : Option (SessionID × Nat)}
    (hp : LogSafe p taken) (hf : ∀ a, LogSafe (f a) none) : LogSafe (p.bind f) taken := by
  induction p generalizing taken with
  | ret a =>
    obtain rfl : taken = none := hp
    exact hf a
  | fail => exact hp
  | stmt need eff k ih =>
    rcases taken with _ | ⟨s, q⟩
    · intro v
      obtain ⟨taken', hstep, hk⟩ := hp v
      exact ⟨taken', hstep, ih v hk⟩
    · intro v
      obtain ⟨e, heff, hs, hq, hk⟩ := hp v
      exact ⟨e, heff, hs, hq, ih v hk⟩

theorem LogSafe.attempt {α : Type} {p : Prog Db Row Write Err α}
    {taken : Option (SessionID × Nat)} (hp : LogSafe p taken) : LogSafe p.attempt taken := by
  induction p generalizing taken with
  | ret | fail => exact hp
  | stmt need eff k ih =>
    rcases taken with _ | ⟨s, q⟩
    · intro v
      obtain ⟨taken', hstep, hk⟩ := hp v
      exact ⟨taken', hstep, ih v hk⟩
    · intro v
      obtain ⟨e, heff, hs, hq, hk⟩ := hp v
      exact ⟨e, heff, hs, hq, ih v hk⟩

/-- A transaction body that keeps the discipline of the locks and of the log. -/
structure Tx (α : Type) where
  prog : Prog Db Row Write Err α
  guarded : prog.Guarded Write.rows
  logged : LogSafe prog none

/-- What a transaction may have seen of the tables: the rows it holds, the tables
    at one of its statements, the tables in the end. -/
abbrev Sight := List Row → Db → Db → Prop

/-- What a transaction leaves: its result, its locks and its writes. -/
abbrev Post (α : Type) := Except Err α → Local Row Write → Prop

namespace Tx

variable {α β γ : Type}

def pure (a : α) : Tx α := ⟨.ret a, trivial, rfl⟩

def bind (x : Tx α) (f : α → Tx β) : Tx β :=
  ⟨x.prog.bind fun a => (f a).prog, x.guarded.bind fun a => (f a).guarded,
    x.logged.bind fun a => (f a).logged⟩

instance : Monad Tx where
  pure := pure
  bind := bind

/-- Roll back with an error. -/
def throw (e : Err) : Tx α := ⟨.fail e, trivial, rfl⟩

/-- Hand an error to the caller instead of rolling back. -/
def attempt (x : Tx α) : Tx (Except Err α) :=
  ⟨x.prog.attempt, x.guarded.attempt, x.logged.attempt⟩

/-- A plain read. -/
def query (f : Db → α) : Tx α :=
  ⟨.query f, fun _ => ⟨by simp, trivial⟩, fun _ => ⟨none, .quiet (by simp), rfl⟩⟩

/-- A read that locks rows. -/
def lockRead (need : List Row) (f : Db → Except Err α) : Tx α where
  prog := .exec (fun _ => need) fun v => (f v.db, [])
  guarded := fun v => ⟨by simp, by simp only; cases f v.db <;> trivial⟩
  logged := fun v => ⟨none, .quiet (by simp), by simp only; cases f v.db <;> rfl⟩

/-- A statement that locks the rows it writes, and stays out of the log. -/
def update (need : Snap Db Row → List Row) (f : Snap Db Row → Except Err α × List Write)
    (hneed : ∀ v, ∀ w ∈ (f v).2, ∀ r ∈ w.rows, r ∈ need v)
    (hlog : ∀ v, ∀ w ∈ (f v).2, w.logs = false) : Tx α where
  prog := .exec need f
  guarded := fun v => ⟨hneed v, by simp only; cases (f v).1 <;> trivial⟩
  logged := fun v => ⟨none, .quiet (hlog v), by simp only; cases (f v).1 <;> rfl⟩

/-- Execute `f` for each element of a list, in order. -/
def forEach (xs : List γ) (f : γ → Tx Unit) : Tx Unit :=
  match xs with
  | [] => pure ()
  | x :: xs => (f x).bind fun _ => forEach xs f

/-- `time.Now()`: one clock for all workers. -/
def now : Tx Time := query Db.clock

/-! ## Weakest preconditions -/

/-- The tables as a transaction that commits now sees them in the end. -/
abbrev view (d : Db) (s : Local Row Write) : Db := applyAll d s.writes

@[simp] theorem view_empty (d : Db) : view d .empty = d := rfl

@[simp] theorem view_after (d : Db) (s : Local Row Write) (ls : List Row) (ws : List Write) :
    view d (s.after ls ws) = applyAll (view d s) ws := applyAll_append d s.writes ws

/-- Every way `x` can end, started in `s` and seen from the tables `d` at the
    moment it ends, satisfies `Q`. -/
def wp (A : List Row → Db → Db → Prop) (d : Db) (x : Tx α) (s : Local Row Write)
    (Q : Except Err α → Local Row Write → Prop) : Prop :=
  x.prog.wp A d s Q

variable {A : Sight} {d : Db} {s : Local Row Write} {Q : Post α} {x : Tx α}
  {I : Local Row Write → Prop} {f : γ → Tx Unit} {E : Err → Local Row Write → Prop} {xs : List γ}

@[simp] theorem wp_pure' {a : α} : wp A d (Pure.pure a : Tx α) s Q ↔ Q (.ok a) s := Prog.wp_ret

@[simp] theorem wp_throw {e : Err} : wp A d (throw e) s Q ↔ Q (.error e) s := Prog.wp_fail

theorem wp_mono {Q' : Post α} (h : wp A d x s Q) (hQ : ∀ r s', Q r s' → Q' r s') : wp A d x s Q' :=
  Prog.wp_mono h hQ

/-- What follows a failure and what follows a success, each for itself. -/
theorem wp_either {P : α → Local Row Write → Prop}
    (h : wp A d x s (Prog.either P E)) (herr : ∀ e s', E e s' → Q (.error e) s')
    (hok : ∀ a s', P a s' → Q (.ok a) s') : wp A d x s Q := by
  refine wp_mono h ?_
  rintro (e | a) s' hpost
  · exact herr e s' hpost
  · exact hok a s' hpost

theorem wp_and {Q' : Post α} (h : wp A d x s Q)
    (h' : wp A d x s Q') : wp A d x s (fun r s' => Q r s' ∧ Q' r s') :=
  Prog.wp_and h h'

theorem wp_grows :
    wp A d x s (fun _ s' => (∀ r ∈ s.locks, r ∈ s'.locks) ∧ ∃ ws, s'.writes = s.writes ++ ws) :=
  Prog.wp_grows

@[simp] theorem wp_bind {f : α → Tx β} {Q : Post β} : wp A d (x >>= f) s Q ↔
      wp A d x s (Prog.either (fun a s' => wp A d (f a) s' Q) (fun e s' => Q (.error e) s')) :=
  Prog.wp_bind'

theorem wp_attempt {Q : Post (Except Err α)} :
    wp A d x.attempt s Q ↔ wp A d x s (fun r s' => Q (.ok r) s') := Prog.wp_attempt

theorem wp_query {f : Db → α} : wp A d (query f) s Q ↔
      ∀ d', A s.locks d d' → Q (.ok (f (applyAll d' s.writes))) s := Prog.wp_query

theorem wp_lockRead {need : List Row} {f : Db → Except Err α} : wp A d (lockRead need f) s Q ↔
      ∀ d', A (s.locks ++ need) d d' → Q (f (applyAll d' s.writes)) (s.after need []) := by
  refine Iff.trans Prog.wp_exec ?_
  exact ⟨fun h d' hA => h d' (fun _ => false) hA, fun h d' _ hA => h d' hA⟩

theorem wp_update {need : Snap Db Row → List Row} {f : Snap Db Row → Except Err α × List Write}
    {hneed : ∀ v, ∀ w ∈ (f v).2, ∀ r ∈ w.rows, r ∈ need v}
    {hlog : ∀ v, ∀ w ∈ (f v).2, w.logs = false} : wp A d (update need f hneed hlog) s Q ↔
      ∀ d' busy, A (s.locks ++ need ⟨applyAll d' s.writes, busy⟩) d d' →
        Q (f ⟨applyAll d' s.writes, busy⟩).1
          (s.after (need ⟨applyAll d' s.writes, busy⟩) (f ⟨applyAll d' s.writes, busy⟩).2) :=
  Prog.wp_exec

/-- What a lock protects is, for the one who holds it, as it is at commit. -/
structure Respects (A : List Row → Db → Db → Prop) : Prop where
  agree : ∀ {ls : List Row} {d d' : Db}, A ls d d' → storeRegions.Agree ls d d'

/-- Whole transactions at a time. -/
theorem respects_eq : Respects (fun _ => Eq) where
  agree := by
    rintro ls d d' rfl
    exact Regions.Agree.refl _ _ _

section Locked
variable {ls : List Row} {d' : Db} {x : SessionID}

theorem Respects.session (hA : Respects A) (h : A ls d d')
    (hx : Row.session x ∈ ls) (ws : List Write) :
    (applyAll d' ws).session? x = (applyAll d ws).session? x ∧
      (applyAll d' ws).eventsOf x = (applyAll d ws).eventsOf x :=
  Prod.mk.inj ((hA.agree h).content hx ws)

theorem Respects.run (hA : Respects A) (h : A ls d d') {r : RunID} (hr : Row.run r ∈ ls)
    (ws : List Write) : (applyAll d' ws).run? r = (applyAll d ws).run? r ∧
      (applyAll d' ws).stepsOf r = (applyAll d ws).stepsOf r := by
  obtain ⟨hrun, hrest⟩ := Prod.mk.inj ((hA.agree h).content hr ws)
  exact ⟨hrun, (Prod.mk.inj hrest).1⟩

theorem Respects.children (hA : Respects A) (h : A ls d d') {r : RunID} (hr : Row.run r ∈ ls)
    (ws : List Write) : (applyAll d' ws).childIDs r = (applyAll d ws).childIDs r := by
  obtain ⟨-, hrest⟩ := Prod.mk.inj ((hA.agree h).content hr ws)
  exact (Prod.mk.inj hrest).2

theorem Respects.spawned (hA : Respects A) (h : A ls d d') {t : TenantID} {key : String}
    (hk : Row.spawnKey t key ∈ ls) (ws : List Write) :
    (applyAll d' ws).spawned? t key = (applyAll d ws).spawned? t key :=
  (hA.agree h).content hk ws

theorem Respects.wait (hA : Respects A) (h : A ls d d') {w : WaitID} (hw : Row.wait w ∈ ls)
    (ws : List Write) : (applyAll d' ws).wait? w = (applyAll d ws).wait? w ∧
      (applyAll d' ws).membersOf w = (applyAll d ws).membersOf w :=
  Prod.mk.inj ((hA.agree h).content hw ws)

end Locked

theorem forEach_prog (xs : List γ) (f : γ → Tx Unit) :
    (forEach xs f).prog = Prog.forEach xs fun x => (f x).prog := by
  induction xs with
  | nil => rfl
  | cons x xs ih => exact congrArg (Prog.bind (f x).prog) (funext fun _ => ih)

/-- A loop invariant for `forEach`. -/
theorem wp_forEach {F : Err → Local Row Write → Prop}
    (hstep : ∀ x ∈ xs, ∀ s, I s → wp A d (f x) s (Prog.either (fun _ => I) F))
    (hs : I s) : wp A d (forEach xs f) s (Prog.either (fun _ => I) F) := by
  rw [wp, forEach_prog]
  exact Prog.wp_forEach hstep hs

/-- What each iteration keeps, whether it returns or fails, the loop keeps. -/
theorem wp_forEach_keeps (hstep : ∀ x ∈ xs, ∀ s, I s → wp A d (f x) s fun _ => I) (hs : I s) :
    wp A d (forEach xs f) s fun _ => I := by
  have heither : ∀ (r : Except Err Unit) (s' : Local Row Write),
      Prog.either (fun _ => I) (fun _ => I) r s' ↔ I s' := by
    rintro (e | _) s' <;> rfl
  refine wp_mono (wp_forEach (fun x hx s' h => ?_) hs) fun r s' => (heither r s').mp
  exact wp_mono (hstep x hx s' h) fun r s' => (heither r s').mpr

/-- A returned value changes nothing that is kept. -/
theorem wp_then_pure {b : β}
    (h : wp A d x s fun _ => I) : wp A d (x >>= fun _ => Pure.pure b) s fun _ => I := by
  rw [wp_bind]
  refine wp_mono h ?_
  rintro (e | a) s' hI
  · exact hI
  · exact wp_pure'.mpr hI

theorem wp_forEach_visits {R : Local Row Write → Local Row Write → Prop}
    {V : γ → Local Row Write → Local Row Write → Prop}
    (hrefl : ∀ s, R s s) (htrans : ∀ {s₁ s₂ s₃}, R s₁ s₂ → R s₂ s₃ → R s₁ s₃)
    (hstep : ∀ x ∈ xs, ∀ s₁, R s s₁ →
      wp A d (f x) s₁ (Prog.either (fun _ s₂ => R s₁ s₂ ∧ V x s₁ s₂) E)) :
    wp A d (forEach xs f) s (Prog.either (fun _ s' => R s s' ∧
      ∀ x ∈ xs, ∃ s₁ s₂, R s s₁ ∧ V x s₁ s₂ ∧ R s₂ s') E) := by
  rw [wp, forEach_prog]
  exact Prog.wp_forEach_visits hrefl htrans hstep

/-! ## Transactions that nobody disturbs -/

theorem perform_bind_ok {x : Tx α} {f : α → Tx β} {a : α} {b : Db}
    (h : x.prog.perform d = (.ok a, b)) : (x >>= f).prog.perform d = (f a).prog.perform b := by
  refine (Prog.perform_bind x.prog _ d).trans ?_
  rw [h]

end Tx

end Ultracore
