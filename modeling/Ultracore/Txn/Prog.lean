-- SUMMARY: Transaction programs as interaction trees of SQL statements, and their weakest preconditions.
import Mathlib.Tactic.Common

/-!
# Transaction programs

A transaction body is an interaction tree: each node is one SQL statement, which
names the rows it locks, the writes it adds to the transaction, and how the body
continues. Nothing here knows which tables there are; a store is a type `D` of
table contents, a type `R` of lockable rows and a type `W` of writes.

`Runs A d p s r s'` is the meaning of a body at commit time. The committed tables
are `d` when the transaction commits, but every statement ran earlier, against
tables that agree with `d` only as far as `A` says: under READ COMMITTED, on the
rows the transaction had locked by then.
-/

namespace Txn

/-- The tables `D` can be changed by the writes `W`. -/
class Tables (D W : Type) where
  apply : D → W → D

/-- Apply a list of writes in order. -/
def applyAll {D W : Type} [Tables D W] (d : D) (ws : List W) : D :=
  ws.foldl Tables.apply d

section
variable {D W : Type} [Tables D W]

@[simp] theorem applyAll_nil (d : D) : applyAll d ([] : List W) = d := rfl

@[simp] theorem applyAll_cons (d : D) (w : W) (ws : List W) :
    applyAll d (w :: ws) = applyAll (Tables.apply d w) ws := rfl

@[simp] theorem applyAll_append (d : D) (ws ws' : List W) :
    applyAll d (ws ++ ws') = applyAll (applyAll d ws) ws' := by
  simp [applyAll, List.foldl_append]

/-- What every single write keeps, all of them keep. -/
theorem applyAll_keeps {K : D → Prop} {ws : List W} {d : D}
    (h : ∀ w ∈ ws, ∀ e, K e → K (Tables.apply e w)) (hd : K d) : K (applyAll d ws) := by
  induction ws generalizing d with
  | nil => exact hd
  | cons w ws ih => exact ih (fun w' hw' => h w' (by simp [hw'])) (h w (by simp) d hd)

theorem applyAll_same {β : Type} {f : D → β} {ws : List W} {d : D}
    (h : ∀ w ∈ ws, ∀ e, f (Tables.apply e w) = f e) : f (applyAll d ws) = f d :=
  applyAll_keeps (K := fun e => f e = f d) (fun w hw e he => (h w hw e).trans he) rfl

end

/-- What one statement sees: the committed tables overlaid with the
    transaction's own writes, and which rows other transactions hold locked. -/
structure Snap (D R : Type) where
  db : D
  busy : R → Bool

/-- A transaction body.

* `ret` commits and returns a value;
* `fail` rolls back with an error;
* `stmt` executes one statement: it locks the rows `need`, adds the writes `eff`
  and continues with `k`, all computed from the same snapshot. -/
inductive Prog (D R W E α : Type) : Type where
  | ret (a : α)
  | fail (e : E)
  | stmt (need : Snap D R → List R) (eff : Snap D R → List W)
      (k : Snap D R → Prog D R W E α)

/-- What a transaction has accumulated so far. -/
structure Local (R W : Type) where
  writes : List W
  locks : List R

namespace Local

/-- A transaction that has executed nothing. -/
def empty {R W : Type} : Local R W := ⟨[], []⟩

@[simp] theorem empty_writes {R W : Type} : (empty : Local R W).writes = [] := rfl
@[simp] theorem empty_locks {R W : Type} : (empty : Local R W).locks = [] := rfl

/-- The state after a statement that locked `ls` and wrote `ws`. -/
def after {R W : Type} (s : Local R W) (ls : List R) (ws : List W) : Local R W :=
  ⟨s.writes ++ ws, s.locks ++ ls⟩

@[simp] theorem after_writes {R W : Type} (s : Local R W) (ls : List R) (ws : List W) :
    (s.after ls ws).writes = s.writes ++ ws := rfl

@[simp] theorem after_nil {R W : Type} (s : Local R W) : s.after [] [] = s := by
  cases s
  simp [after]

@[simp] theorem after_locks {R W : Type} (s : Local R W) (ls : List R) (ws : List W) :
    (s.after ls ws).locks = s.locks ++ ls := rfl

end Local

namespace Prog

variable {D R W E α β : Type}

/-! ## Sequencing -/

def bind : Prog D R W E α → (α → Prog D R W E β) → Prog D R W E β
  | .ret a, f => f a
  | .fail e, _ => .fail e
  | .stmt need eff k, f => .stmt need eff (fun v => (k v).bind f)

instance : Monad (Prog D R W E) where
  pure := .ret
  bind := .bind

/-- Run `p` and hand its error to the caller instead of rolling back. The writes
    `p` made before it failed stay in the transaction: there is no savepoint. -/
def attempt : Prog D R W E α → Prog D R W E (Except E α)
  | .ret a => .ret (.ok a)
  | .fail e => .ret (.error e)
  | .stmt need eff k => .stmt need eff (fun v => (k v).attempt)

/-- A statement that computes its result and its writes together. -/
def exec (need : Snap D R → List R) (f : Snap D R → Except E α × List W) :
    Prog D R W E α :=
  .stmt need (fun v => (f v).2) fun v =>
    match (f v).1 with
    | .ok a => .ret a
    | .error e => .fail e

/-- A plain read. -/
def query (f : D → α) : Prog D R W E α :=
  .stmt (fun _ => []) (fun _ => []) (fun v => .ret (f v.db))

/-- Execute `f` for each element of a list, in order. -/
def forEach {γ : Type} (xs : List γ) (f : γ → Prog D R W E Unit) : Prog D R W E Unit :=
  match xs with
  | [] => .ret ()
  | x :: xs => (f x).bind fun _ => forEach xs f

/-! ## What a body can write -/

/-- Every write that a statement of the body can make satisfies `P`. -/
def Emits (P : W → Prop) : Prog D R W E α → Prop
  | .ret _ => True
  | .fail _ => True
  | .stmt _ eff k => ∀ v, (∀ w ∈ eff v, P w) ∧ (k v).Emits P

section
variable {P : W → Prop}

theorem Emits.bind {p : Prog D R W E α} {f : α → Prog D R W E β} (hp : p.Emits P)
    (hf : ∀ a, (f a).Emits P) : (p.bind f).Emits P := by
  induction p with
  | ret a => exact hf a
  | fail => trivial
  | stmt need eff k ih => exact fun v => ⟨(hp v).1, ih v (hp v).2⟩

theorem Emits.attempt {p : Prog D R W E α} (hp : p.Emits P) : p.attempt.Emits P := by
  induction p with
  | ret | fail => trivial
  | stmt need eff k ih => exact fun v => ⟨(hp v).1, ih v (hp v).2⟩

theorem Emits.exec {need : Snap D R → List R} {f : Snap D R → Except E α × List W}
    (h : ∀ v, ∀ w ∈ (f v).2, P w) : (exec need f).Emits P := by
  refine fun v => ⟨h v, ?_⟩
  dsimp only
  split <;> trivial

theorem Emits.forEach {γ : Type} {xs : List γ} {f : γ → Prog D R W E Unit}
    (hf : ∀ x ∈ xs, (f x).Emits P) : (forEach xs f).Emits P := by
  induction xs with
  | nil => trivial
  | cons x xs ih => exact (hf x (by simp)).bind fun _ => ih fun y hy => hf y (by simp [hy])

end

/-! ## Commit-time meaning -/

section
variable [Tables D W]

/-- `p`, started in `s`, can end with `r` in `s'`, seen from the tables `d` at
    the moment it ends. -/
def Runs (A : List R → D → D → Prop) (d : D) :
    Prog D R W E α → Local R W → Except E α → Local R W → Prop
  | .ret a, s, r, s' => r = .ok a ∧ s' = s
  | .fail e, s, r, s' => r = .error e ∧ s' = s
  | .stmt need eff k, s, r, s' => ∃ (d' : D) (busy : R → Bool),
      A (s.locks ++ need ⟨applyAll d' s.writes, busy⟩) d d' ∧
      Runs A d (k ⟨applyAll d' s.writes, busy⟩)
        (s.after (need ⟨applyAll d' s.writes, busy⟩) (eff ⟨applyAll d' s.writes, busy⟩)) r s'

/-- Who may see more may also see this. -/
theorem Runs.mono {A A' : List R → D → D → Prop} {d : D} {p : Prog D R W E α} {s s' : Local R W}
    {x : Except E α} (h : ∀ ls d', A ls d d' → A' ls d d') (hrun : p.Runs A d s x s') :
    p.Runs A' d s x s' := by
  induction p generalizing s with
  | ret | fail => exact hrun
  | stmt need eff k ih =>
    obtain ⟨d', busy, hA, hrest⟩ := hrun
    exact ⟨d', busy, h _ _ hA, ih _ hrest⟩

/-- A postcondition given separately for a body that returns and one that fails. -/
def either (ok : α → Local R W → Prop) (err : E → Local R W → Prop) :
    Except E α → Local R W → Prop
  | .ok a, s => ok a s
  | .error e, s => err e s

/-- Every way `p` can end satisfies `Q`. -/
def wp (A : List R → D → D → Prop) (d : D) (p : Prog D R W E α) (s : Local R W)
    (Q : Except E α → Local R W → Prop) : Prop :=
  ∀ r s', Runs A d p s r s' → Q r s'

variable {A : List R → D → D → Prop} {d : D} {s : Local R W}
variable {p : Prog D R W E α} {Q : Except E α → Local R W → Prop}

omit [Tables D W] in
@[simp] theorem either_ok {ok : α → Local R W → Prop} {err : E → Local R W → Prop} {a : α} :
    either ok err (.ok a) s = ok a s := rfl

omit [Tables D W] in
@[simp] theorem either_error {ok : α → Local R W → Prop} {err : E → Local R W → Prop} {e : E} :
    either ok err (.error e) s = err e s := rfl

@[simp] theorem wp_ret {a : α} : wp A d (.ret a) s Q ↔ Q (.ok a) s := by
  constructor
  · intro h
    exact h _ _ ⟨rfl, rfl⟩
  · rintro h r s' ⟨rfl, rfl⟩
    exact h

@[simp] theorem wp_fail {e : E} : wp A d (.fail e) s Q ↔ Q (.error e) s := by
  constructor
  · intro h
    exact h _ _ ⟨rfl, rfl⟩
  · rintro h r s' ⟨rfl, rfl⟩
    exact h

theorem wp_stmt {need : Snap D R → List R} {eff : Snap D R → List W}
    {k : Snap D R → Prog D R W E α} : wp A d (.stmt need eff k) s Q ↔
      ∀ d' busy, A (s.locks ++ need ⟨applyAll d' s.writes, busy⟩) d d' →
        wp A d (k ⟨applyAll d' s.writes, busy⟩)
          (s.after (need ⟨applyAll d' s.writes, busy⟩) (eff ⟨applyAll d' s.writes, busy⟩)) Q := by
  constructor
  · intro h d' busy hA r s' hrun
    exact h r s' ⟨d', busy, hA, hrun⟩
  · rintro h r s' ⟨d', busy, hA, hrun⟩
    exact h d' busy hA r s' hrun

theorem wp_mono {Q' : Except E α → Local R W → Prop}
    (h : wp A d p s Q) (hQ : ∀ r s', Q r s' → Q' r s') : wp A d p s Q' :=
  fun r s' hrun => hQ r s' (h r s' hrun)

theorem wp_and {Q' : Except E α → Local R W → Prop}
    (h : wp A d p s Q) (h' : wp A d p s Q') : wp A d p s (fun r s' => Q r s' ∧ Q' r s') :=
  fun r s' hrun => ⟨h r s' hrun, h' r s' hrun⟩

/-- Sequencing: the first body's postcondition is the second body's weakest
    precondition, and an error of the first ends the whole body. -/
theorem wp_bind' {f : α → Prog D R W E β} {Q : Except E β → Local R W → Prop} :
    wp A d (p.bind f) s Q ↔
      wp A d p s (either (fun a s' => wp A d (f a) s' Q) (fun e s' => Q (.error e) s')) := by
  induction p generalizing s with
  | ret | fail => simp [bind]
  | stmt need eff k ih =>
    simp only [bind, wp_stmt]
    constructor
    · intro h d' busy hA
      exact (ih _).mp (h d' busy hA)
    · intro h d' busy hA
      exact (ih _).mpr (h d' busy hA)

theorem wp_attempt {Q : Except E (Except E α) → Local R W → Prop} :
    wp A d p.attempt s Q ↔ wp A d p s (fun r s' => Q (.ok r) s') := by
  induction p generalizing s with
  | ret | fail => simp [attempt]
  | stmt need eff k ih =>
    simp only [attempt, wp_stmt]
    constructor
    · intro h d' busy hA
      exact (ih _).mp (h d' busy hA)
    · intro h d' busy hA
      exact (ih _).mpr (h d' busy hA)

theorem wp_exec {need : Snap D R → List R} {f : Snap D R → Except E α × List W}
    : wp A d (exec need f) s Q ↔
      ∀ d' busy, A (s.locks ++ need ⟨applyAll d' s.writes, busy⟩) d d' →
        Q (f ⟨applyAll d' s.writes, busy⟩).1
          (s.after (need ⟨applyAll d' s.writes, busy⟩) (f ⟨applyAll d' s.writes, busy⟩).2) := by
  unfold exec
  rw [wp_stmt]
  constructor
  · intro h d' busy hA
    have := h d' busy hA
    revert this
    cases (f ⟨applyAll d' s.writes, busy⟩).1 <;> simp
  · intro h d' busy hA
    have := h d' busy hA
    revert this
    cases (f ⟨applyAll d' s.writes, busy⟩).1 <;> simp

theorem wp_query {f : D → α} : wp A d (query f) s Q ↔
      ∀ d', A s.locks d d' → Q (.ok (f (applyAll d' s.writes))) s := by
  unfold query
  rw [wp_stmt]
  have hafter : s.after [] [] = s := by
    cases s
    simp [Local.after]
  simp only [hafter, wp_ret, List.append_nil]
  constructor
  · intro h d' hA
    exact h d' (fun _ => false) hA
  · intro h d' _ hA
    exact h d' hA

/-- Locks are kept until the end, and writes are only added. -/
theorem wp_grows :
    wp A d p s (fun _ s' => (∀ r ∈ s.locks, r ∈ s'.locks) ∧ ∃ ws, s'.writes = s.writes ++ ws) := by
  induction p generalizing s with
  | ret | fail => simp
  | stmt need eff k ih =>
    refine wp_stmt.mpr fun d' busy _ => wp_mono (ih _) ?_
    rintro r s' ⟨hlocks, ws, hws⟩
    rw [Local.after_writes, List.append_assoc] at hws
    exact ⟨fun x hx => hlocks x (by simp [hx]), _, hws⟩

/-- What a statement sees, it sees with locks that are held in the end. -/
theorem Runs.held {s' : Local R W} {x : Except E α} (h : p.Runs A d s x s') :
    p.Runs (fun ls d d' => A ls d d' ∧ ∀ r ∈ ls, r ∈ s'.locks) d s x s' := by
  induction p generalizing s with
  | ret | fail => exact h
  | stmt need eff k ih =>
    obtain ⟨d', busy, hA, hrest⟩ := h
    exact ⟨d', busy, ⟨hA, by simpa using (wp_grows _ _ hrest).1⟩, ih _ hrest⟩

/-- A body adds only writes of the kind that it emits, whether it returns or fails. -/
theorem Emits.wp {P : W → Prop} (hp : p.Emits P) :
    wp A d p s fun _ s' => ∃ ws, s'.writes = s.writes ++ ws ∧ ∀ w ∈ ws, P w := by
  induction p generalizing s with
  | ret => exact wp_ret.mpr ⟨[], by simp⟩
  | fail => exact wp_fail.mpr ⟨[], by simp⟩
  | stmt need eff k ih =>
    refine wp_stmt.mpr fun d' busy _ => ?_
    obtain ⟨heff, hk⟩ := hp ⟨applyAll d' s.writes, busy⟩
    refine wp_mono (ih _ hk) ?_
    rintro r s' ⟨ws, hws, hall⟩
    rw [Local.after_writes, List.append_assoc] at hws
    refine ⟨_, hws, fun w hw => ?_⟩
    rcases List.mem_append.mp hw with hw | hw
    · exact heff w hw
    · exact hall w hw

/-- Execute a body while nothing else goes on. -/
def alone (d : D) : Prog D R W E α → Local R W → Except E α × Local R W
  | .ret a, s => (.ok a, s)
  | .fail e, s => (.error e, s)
  | .stmt need eff k, s =>
    alone d (k ⟨applyAll d s.writes, fun _ => false⟩)
      (s.after (need ⟨applyAll d s.writes, fun _ => false⟩) (eff ⟨applyAll d s.writes, fun _ => false⟩))

/-- A body comes to an end, at least when nothing else goes on. -/
theorem runs_alone (hA : ∀ ls, A ls d d) (p : Prog D R W E α) (s : Local R W) :
    p.Runs A d s (p.alone d s).1 (p.alone d s).2 := by
  induction p generalizing s with
  | ret | fail => exact ⟨rfl, rfl⟩
  | stmt need eff k ih => exact ⟨d, fun _ => false, hA _, ih _ _⟩

/-- A loop invariant for `forEach`: what one iteration keeps, the loop keeps, and
    an error of one iteration ends the loop. -/
theorem wp_forEach {γ : Type} {xs : List γ} {f : γ → Prog D R W E Unit}
    {I : Local R W → Prop} {Err : E → Local R W → Prop}
    (hstep : ∀ x ∈ xs, ∀ s, I s → wp A d (f x) s (either (fun _ => I) Err)) (hs : I s) :
    wp A d (forEach xs f) s (either (fun _ => I) Err) := by
  induction xs generalizing s with
  | nil => simpa [forEach] using hs
  | cons x xs ih =>
    unfold forEach
    rw [wp_bind']
    refine wp_mono (hstep x (by simp) s hs) ?_
    intro r s' h
    cases r with
    | ok => exact ih (fun y hy => hstep y (by simp [hy])) h
    | error => exact h

/-- What each iteration of `forEach` did: `R` relates the states between which anything may
    have happened, `V` those before and after an iteration. -/
theorem wp_forEach_visits {γ : Type} {xs : List γ} {f : γ → Prog D R W E Unit}
    {Rel : Local R W → Local R W → Prop} {V : γ → Local R W → Local R W → Prop}
    {Err : E → Local R W → Prop} (hrefl : ∀ s, Rel s s)
    (htrans : ∀ {s₁ s₂ s₃}, Rel s₁ s₂ → Rel s₂ s₃ → Rel s₁ s₃) (hstep : ∀ x ∈ xs, ∀ s₁, Rel s s₁ →
      wp A d (f x) s₁ (either (fun _ s₂ => Rel s₁ s₂ ∧ V x s₁ s₂) Err)) :
    wp A d (forEach xs f) s (either (fun _ s' => Rel s s' ∧
      ∀ x ∈ xs, ∃ s₁ s₂, Rel s s₁ ∧ V x s₁ s₂ ∧ Rel s₂ s') Err) := by
  induction xs generalizing s with
  | nil => simpa [forEach] using hrefl s
  | cons x xs ih =>
    unfold forEach
    rw [wp_bind']
    refine wp_mono (hstep x (by simp) s (hrefl s)) ?_
    intro r s₁ h
    cases r with
    | error => exact h
    | ok =>
      obtain ⟨hrel, hv⟩ := h
      refine wp_mono (ih fun y hy s₂ hs₂ => hstep y (by simp [hy]) s₂ (htrans hrel hs₂)) ?_
      intro r s' h'
      cases r with
      | error => exact h'
      | ok =>
        obtain ⟨hrel', hall⟩ := h'
        refine ⟨htrans hrel hrel', fun y hy => ?_⟩
        rcases List.mem_cons.mp hy with rfl | hy
        · exact ⟨s, s₁, hrefl s, hv, hrel'⟩
        · obtain ⟨s₂, s₃, hs₂, hv₂, hs₃⟩ := hall y hy
          exact ⟨s₂, s₃, htrans hrel hs₂, hv₂, hs₃⟩

end

end Prog

end Txn
