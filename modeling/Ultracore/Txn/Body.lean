-- SUMMARY: Transaction bodies that lock what they write, and programs made of them.
import Ultracore.Txn.Serial

/-!
# Bodies and programs

A `Body` is a transaction body in which every statement locks the rows it writes. This is
closed under sequencing, so what is built from bodies is a body. A `Program` is a machine
whose transactions are bodies: each of its interleaved runs is explained by serial steps.
-/

namespace Txn

/-- A transaction body whose statements lock the rows they write. -/
structure Body (D : Type) {R W : Type} (rows : W → List R) (E α : Type) where
  prog : Prog D R W E α
  guarded : prog.Guarded rows

namespace Body

variable {D R W E α β : Type} {rows : W → List R}

def pure (a : α) : Body D rows E α := ⟨.ret a, trivial⟩

def bind (x : Body D rows E α) (f : α → Body D rows E β) : Body D rows E β :=
  ⟨x.prog.bind fun a => (f a).prog, x.guarded.bind fun a => (f a).guarded⟩

instance : Monad (Body D rows E) where
  pure := pure
  bind := bind

/-- Roll back with an error. -/
def throw (e : E) : Body D rows E α := ⟨.fail e, trivial⟩

/-- A plain read. -/
def query (f : D → α) : Body D rows E α := ⟨.query f, fun _ => ⟨by simp, trivial⟩⟩

/-- A statement that locks the rows it writes. -/
def update (need : List R) (f : D → Except E α × List W)
    (hneed : ∀ d, ∀ w ∈ (f d).2, ∀ r ∈ rows w, r ∈ need) : Body D rows E α where
  prog := .exec (fun _ => need) fun v => f v.db
  guarded v := ⟨hneed v.db, by simp only; cases (f v.db).1 <;> trivial⟩

section
variable [Tables D W]

/-- Every way the body can commit satisfies `Q`. -/
def Yields (A : List R → D → D → Prop) (d : D) (x : Body D rows E α) (s : Local R W)
    (Q : α → Local R W → Prop) : Prop := x.prog.wp A d s (Prog.either Q fun _ _ => True)

variable {A : List R → D → D → Prop} {d : D} {s : Local R W}

theorem Yields.runs {x : Body D rows E α} {Q : α → Local R W → Prop} {a : α} {s' : Local R W}
    (h : x.Yields A d s Q) (hrun : x.prog.Runs A d s (.ok a) s') : Q a s' := h _ _ hrun

@[simp] theorem yields_pure {a : α} {Q : α → Local R W → Prop} :
    (Pure.pure a : Body D rows E α).Yields A d s Q ↔ Q a s := Prog.wp_ret

@[simp] theorem yields_throw {e : E} {Q : α → Local R W → Prop} :
    (throw e : Body D rows E α).Yields A d s Q := Prog.wp_fail.mpr trivial

@[simp] theorem yields_bind {x : Body D rows E α} {f : α → Body D rows E β}
    {Q : β → Local R W → Prop} :
    (x >>= f).Yields A d s Q ↔ x.Yields A d s fun a s' => (f a).Yields A d s' Q :=
  Prog.wp_bind'

theorem yields_query {f : D → α} {Q : α → Local R W → Prop} :
    (query f : Body D rows E α).Yields A d s Q ↔
      ∀ d', A s.locks d d' → Q (f (applyAll d' s.writes)) s := Prog.wp_query

theorem yields_update {need : List R} {f : D → Except E α × List W}
    {hneed : ∀ d, ∀ w ∈ (f d).2, ∀ r ∈ rows w, r ∈ need} {Q : α → Local R W → Prop} :
    (update need f hneed).Yields A d s Q ↔ ∀ d', A (s.locks ++ need) d d' →
      ∀ a, (f (applyAll d' s.writes)).1 = .ok a →
        Q a (s.after need (f (applyAll d' s.writes)).2) := by
  refine Prog.wp_exec.trans ⟨fun h d' hA a ha => ?_, fun h d' busy hA => ?_⟩
  · simpa only [ha, Prog.either_ok] using h d' (fun _ => false) hA
  · cases hres : (f (applyAll d' s.writes)).1 with
    | ok a => exact h d' hA a hres
    | error => trivial

end

end Body

/-- Processes whose transactions are bodies. -/
structure Program (D : Type) {R W : Type} (rows : W → List R) (E I V P : Type) where
  body : P → I → Option (Body D rows E P)
  onErr : P → I → E → P
  broken : E
  canSpawn : D → List (Option P) → P → Bool
  env : V → D → D

namespace Program

variable {D R W E I V P : Type} {rows : W → List R}

def machine (m : Program D rows E I V P) : Machine D R W E I V P where
  body p i := (m.body p i).map Body.prog
  onErr := m.onErr
  broken := m.broken
  canSpawn := m.canSpawn
  env := m.env

variable {m : Program D rows E I V P}

theorem machine_body {p : P} {i : I} {prog : Prog D R W E P} :
    m.machine.body p i = some prog ↔ ∃ x, m.body p i = some x ∧ prog = x.prog := by
  simp [machine, eq_comm (a := prog)]

variable [Tables D W] [DecidableEq R] {G : Regions D R W}

/-- What a statement sees: anything, except that it agrees with the tables at commit on what
    is locked. -/
abbrev Sees (G : Regions D R W) : List R → D → D → Prop := G.Sees fun _ _ => True

variable {Ok : Config D R W E I P → Action I V P → Prop} {c₀ c c' : Config D R W E I P}
  {log log' ws : List W}

/-- No condition on serial steps. -/
def Anything (_ : World D P) (_ : Action I V P) : Prop := True

/-- In a run from a configuration without transactions in flight, those in flight later are
    explained by what their locks protect. -/
theorem run_explained (hG : G.Frames rows) (henv : m.machine.EnvOutside G)
    (h₀ : ∀ sl ∈ c₀.procs, sl.locks = [] ∧ ∀ p i s rest, sl ≠ .active p i s rest)
    (hrun : m.machine.Run Ok c₀ log c) : m.machine.Explained G (fun _ _ => True) c := by
  have hguarded : ∀ {p : P} {i : I} {prog : Prog D R W E P}, m.machine.body p i = some prog →
      prog.Guarded rows := by
    intro p i prog h
    obtain ⟨x, -, rfl⟩ := machine_body.mp h
    exact x.guarded
  have hidle : m.machine.Explained G (fun _ _ => True) c₀ := .of_idle h₀
  have hok : ∀ c a, Ok c a → Anything (Config.world c) a := fun _ _ _ => trivial
  exact (Machine.Run.serial_run (K := fun _ _ => True) hidle henv
    (fun d => Machine.isolated_of_guarded hG hguarded _ d) trivial (fun _ _ _ => trivial)
    (fun _ => trivial) (fun _ _ _ => trivial) hok hrun).2.2

/-- What serial steps keep that satisfy a condition, a run keeps from any point on. -/
theorem run_keeps (Ok' : World D P → Action I V P → Prop) {K : World D P → Prop}
    (hG : G.Frames rows) (henv : m.machine.EnvOutside G)
    (h₀ : ∀ sl ∈ c₀.procs, sl.locks = [] ∧ ∀ p i s rest, sl ≠ .active p i s rest)
    (hok : ∀ c a, Ok c a → Ok' c.world a)
    (hK : ∀ {w a ws w'}, K w → Ok' w a → m.machine.Serial (Sees G) w a ws w' → K w')
    (hrun : m.machine.Run Ok c₀ log c) (hc : K c.world) (hrun' : m.machine.Run Ok c log' c') :
    K c'.world := by
  induction hrun' with
  | refl => exact hc
  | step hrun'' hokc hs ih =>
    rcases hs.serial (run_explained hG henv h₀ (hrun.trans hrun'')) with ⟨-, heq⟩ | hser
    · rw [heq]
      exact ih
    · exact hK ih (hok _ _ hokc) hser

end Program

end Txn
