-- SUMMARY: Transactions executed one at a time, and the simulation of the interleaved machine by them.
import Ultracore.Txn.Machine

/-!
# Serial execution

In a serial world there is nothing between two transactions: one step runs a whole
body and commits it, rolls it back or drops it. `serial_run` shows that every
interleaved run commits exactly what some serial run commits, in the same order,
provided that a transaction changes nothing outside the regions it has locked.

What a serial body may observe is what its locks protect. `Regions` says, for
each lockable row, which contents of the tables the row's lock stands for; a
statement of a serial body runs against any tables that agree with the committed
ones on the regions locked so far. A read of anything else sees the tables as they
were at some earlier time, and a client says what that means to it by a relation
`Past`.
-/

namespace Txn

/-- The committed tables and the state of each process, `none` once it is gone. -/
structure World (D P : Type) where
  db : D
  procs : List (Option P)

/-- Undo every transaction in flight. -/
def Config.world {D R W E I P : Type} (c : Config D R W E I P) : World D P :=
  ⟨c.db, c.procs.map Slot.proc⟩

section
variable {D R W E I P : Type} (c : Config D R W E I P)

@[simp] theorem Config.world_db : c.world.db = c.db := rfl

@[simp] theorem Config.world_procs : c.world.procs = c.procs.map Slot.proc := rfl

theorem Config.world_procs_get {j : Nat} {sl : Slot D R W E I P}
    (h : c.procs[j]? = some sl) : c.world.procs[j]? = some sl.proc := by
  simp [h]

end

namespace Machine

variable {D R W E I V P : Type} [Tables D W]

/-- One step of the serial machine. -/
inductive Serial (M : Machine D R W E I V P) (A : List R → D → D → Prop) :
    World D P → Action I V P → List W → World D P → Prop where
  | spawn {w : World D P} {p : P} :
      M.canSpawn w.db w.procs p = true →
      Serial M A w (.spawn p) [] { w with procs := w.procs ++ [some p] }
  | commit {w : World D P} {j : Nat} {p p' : P} {i : I} {prog : Prog D R W E P}
      {s : Local R W} :
      w.procs[j]? = some (some p) → M.body p i = some prog →
      prog.Runs A w.db .empty (.ok p') s →
      Serial M A w (.commit j) s.writes
        ⟨applyAll w.db s.writes, w.procs.set j (some p')⟩
  | lose {w : World D P} {j : Nat} {p p' : P} {i : I} {prog : Prog D R W E P}
      {s : Local R W} :
      w.procs[j]? = some (some p) → M.body p i = some prog →
      prog.Runs A w.db .empty (.ok p') s →
      Serial M A w (.lose j) s.writes
        ⟨applyAll w.db s.writes, w.procs.set j (some (M.onErr p i M.broken))⟩
  | rollback {w : World D P} {j : Nat} {p : P} {i : I} {prog : Prog D R W E P}
      {s : Local R W} {e : E} :
      w.procs[j]? = some (some p) → M.body p i = some prog →
      prog.Runs A w.db .empty (.error e) s →
      Serial M A w (.rollback j) [] { w with procs := w.procs.set j (some (M.onErr p i e)) }
  | abort {w : World D P} {j : Nat} {p : P} {i : I} {prog : Prog D R W E P} :
      w.procs[j]? = some (some p) → M.body p i = some prog →
      Serial M A w (.abort j) []
        { w with procs := w.procs.set j (some (M.onErr p i M.broken)) }
  | crash {w : World D P} {j : Nat} :
      Serial M A w (.crash j) [] { w with procs := w.procs.set j none }
  | env {w : World D P} {v : V} :
      Serial M A w (.env v) [] { w with db := M.env v w.db }

/-- The runs of the serial machine whose steps all satisfy `Ok`, with everything
    they commit. -/
inductive SerialRun (M : Machine D R W E I V P) (A : List R → D → D → Prop)
    (Ok : World D P → Action I V P → Prop) (w₀ : World D P) :
    List W → World D P → Prop where
  | refl : SerialRun M A Ok w₀ [] w₀
  | step {log ws : List W} {w w' : World D P} {a : Action I V P} :
      SerialRun M A Ok w₀ log w → Ok w a → M.Serial A w a ws w' →
      SerialRun M A Ok w₀ (log ++ ws) w'

end Machine

/-! ## Regions -/

/-- Which contents of the tables each row lock stands for. A write changes a
    region as a function of that region alone. -/
structure Regions (D R W : Type) [Tables D W] where
  Content : R → Type
  content : (r : R) → D → Content r
  congr : ∀ {r : R} {d d' : D} (w : W), content r d = content r d' →
    content r (Tables.apply d w) = content r (Tables.apply d' w)

namespace Regions

variable {D R W : Type} [Tables D W] (G : Regions D R W)

/-- The tables agree on the regions of `ls`. -/
def Agree (ls : List R) (d d' : D) : Prop :=
  ∀ r ∈ ls, G.content r d = G.content r d'

theorem Agree.refl (ls : List R) (d : D) : G.Agree ls d d := fun _ _ => rfl

/-- What a statement sees that holds the locks `ls` when the tables are `d` at commit:
    tables `d'` of an earlier time that agree with `d` on what is locked. -/
def Sees (Past : D → D → Prop) (ls : List R) (d d' : D) : Prop :=
  G.Agree ls d d' ∧ Past d' d

variable {G}

/-- Overlaying the same writes keeps two tables in agreement. -/
theorem Agree.content {ls : List R} {d d' : D} (h : G.Agree ls d d') {r : R} (hr : r ∈ ls)
    (ws : List W) : G.content r (applyAll d' ws) = G.content r (applyAll d ws) := by
  have hbase : G.content r d' = G.content r d := (h r hr).symm
  clear h hr
  induction ws generalizing d d' with
  | nil => exact hbase
  | cons w ws ih => exact ih (G.congr w hbase)

end Regions

/-! ## Guarded bodies -/

namespace Prog

variable {D R W E α β : Type}

/-- Every statement locks the rows that its writes touch. -/
def Guarded (rows : W → List R) : Prog D R W E α → Prop
  | .ret _ => True
  | .fail _ => True
  | .stmt need eff k => ∀ v, (∀ w ∈ eff v, ∀ r ∈ rows w, r ∈ need v) ∧ (k v).Guarded rows

variable {rows : W → List R}

theorem Guarded.bind {p : Prog D R W E α} {f : α → Prog D R W E β} (hp : p.Guarded rows)
    (hf : ∀ a, (f a).Guarded rows) : (p.bind f).Guarded rows := by
  induction p with
  | ret a => exact hf a
  | fail => trivial
  | stmt need eff k ih => exact fun v => ⟨(hp v).1, ih v (hp v).2⟩

theorem Guarded.attempt {p : Prog D R W E α} (hp : p.Guarded rows) : p.attempt.Guarded rows := by
  induction p with
  | ret | fail => trivial
  | stmt need eff k ih => exact fun v => ⟨(hp v).1, ih v (hp v).2⟩

/-- A guarded body ends with every row it touched locked. -/
theorem Guarded.locks [Tables D W] {A : List R → D → D → Prop} {d : D} {p : Prog D R W E α}
    {s s' : Local R W} {x : Except E α} (hp : p.Guarded rows) (hrun : p.Runs A d s x s')
    (hs : ∀ w ∈ s.writes, ∀ r ∈ rows w, r ∈ s.locks) :
    ∀ w ∈ s'.writes, ∀ r ∈ rows w, r ∈ s'.locks := by
  induction p generalizing s with
  | ret | fail =>
    obtain ⟨-, rfl⟩ := hrun
    exact hs
  | stmt need eff k ih =>
    obtain ⟨d', busy, -, hrest⟩ := hrun
    refine ih _ (hp _).2 hrest ?_
    intro w hw r hr
    rcases List.mem_append.mp hw with hw | hw
    · exact List.mem_append_left _ (hs w hw r hr)
    · exact List.mem_append_right _ ((hp _).1 w hw r hr)

end Prog

/-- A write leaves the regions of the rows it does not touch alone. -/
def Regions.Frames {D R W : Type} [Tables D W] (G : Regions D R W) (rows : W → List R) : Prop :=
  ∀ (d : D) (w : W) (r : R), r ∉ rows w → G.content r (Tables.apply d w) = G.content r d

theorem Regions.Frames.applyAll {D R W : Type} [Tables D W] {G : Regions D R W}
    {rows : W → List R} (h : G.Frames rows) {r : R} {ws : List W} (hr : ∀ w ∈ ws, r ∉ rows w)
    (d : D) : G.content r (applyAll d ws) = G.content r d := by
  induction ws generalizing d with
  | nil => rfl
  | cons w ws ih =>
    rw [applyAll_cons, ih (fun w' hw' => hr w' (by simp [hw']))]
    exact h d w r (hr w (by simp))

/-! ## Executions in flight -/

section
variable {D R W E α : Type} [Tables D W]

/-- `p`, started in `s₀`, has got as far as `rest` in `s`, seen from the tables
    `d`. -/
inductive Prog.Reached (A : List R → D → D → Prop) (d : D) (p : Prog D R W E α)
    (s₀ : Local R W) : Local R W → Prog D R W E α → Prop where
  | start : Reached A d p s₀ s₀ p
  | stmt {s : Local R W} {need : Snap D R → List R} {eff : Snap D R → List W}
      {k : Snap D R → Prog D R W E α} {d' : D} {busy : R → Bool} {v : Snap D R} :
      Reached A d p s₀ s (.stmt need eff k) →
      v = ⟨applyAll d' s.writes, busy⟩ →
      A (s.locks ++ need v) d d' →
      Reached A d p s₀ (s.after (need v) (eff v)) (k v)

theorem Prog.Reached.runs {A : List R → D → D → Prop} {d : D} {p rest : Prog D R W E α}
    {s₀ s s' : Local R W} {r : Except E α} (h : p.Reached A d s₀ s rest)
    (hrun : rest.Runs A d s r s') : p.Runs A d s₀ r s' := by
  induction h with
  | start => exact hrun
  | stmt _ hv hA ih =>
    subst hv
    exact ih ⟨_, _, hA, hrun⟩

/-- An execution in flight does not notice changes outside the regions it has
    locked. -/
theorem Prog.Reached.stable {G : Regions D R W} {Past Past' : D → D → Prop} {d d₂ : D}
    {p rest : Prog D R W E α} {s₀ s : Local R W} (h : p.Reached (G.Sees Past) d s₀ s rest)
    (hsame : ∀ r ∈ s.locks, G.content r d = G.content r d₂)
    (hpast : ∀ d', Past d' d → Past' d' d₂) : p.Reached (G.Sees Past') d₂ s₀ s rest := by
  induction h with
  | start => exact .start
  | stmt hreach hv hA ih =>
    have hprev := ih (fun r hr => hsame r (by simp [hr]))
    refine .stmt hprev hv ⟨?_, hpast _ hA.2⟩
    intro r hr
    exact (hsame r (by simpa using hr)).symm.trans (hA.1 r hr)

end

/-! ## Simulation -/

namespace Machine

variable {D R W E I V P : Type}

section
variable [Tables D W]

/-- Every transaction in flight is explained by a body that has been running
    against the committed tables, and no row is locked twice. -/
structure Explained (M : Machine D R W E I V P) (G : Regions D R W) (Past : D → D → Prop)
    (c : Config D R W E I P) : Prop where
  reached : ∀ {j : Nat} {p : P} {i : I} {s : Local R W} {rest : Prog D R W E P},
    c.procs[j]? = some (.active p i s rest) →
    ∃ prog, M.body p i = some prog ∧ prog.Reached (G.Sees Past) c.db .empty s rest
  disjoint : ∀ {j m : Nat} {sl sl' : Slot D R W E I P}, j ≠ m →
    c.procs[j]? = some sl → c.procs[m]? = some sl' → ∀ r ∈ sl.locks, r ∉ sl'.locks

/-- A transaction that commits from the tables `d` leaves the regions it did not
    lock as they were. -/
def Isolated (M : Machine D R W E I V P) (G : Regions D R W) (A : List R → D → D → Prop)
    (d : D) : Prop :=
  ∀ {p p' : P} {i : I} {prog : Prog D R W E P} {s : Local R W},
    M.body p i = some prog → prog.Runs A d .empty (.ok p') s →
    ∀ r, r ∉ s.locks → G.content r d = G.content r (applyAll d s.writes)

/-- Guarded bodies are isolated. -/
theorem isolated_of_guarded {M : Machine D R W E I V P} {G : Regions D R W}
    {rows : W → List R} (hG : G.Frames rows)
    (hM : ∀ {p : P} {i : I} {prog : Prog D R W E P}, M.body p i = some prog → prog.Guarded rows)
    (A : List R → D → D → Prop) (d : D) : M.Isolated G A d := by
  intro p p' i prog s hbody hrun r hr
  have hlocks := (hM hbody).locks hrun (by simp)
  exact (hG.applyAll (fun w hw hrw => hr (hlocks w hw r hrw)) d).symm

/-- The environment stays out of every region. -/
def EnvOutside (M : Machine D R W E I V P) (G : Regions D R W) : Prop :=
  ∀ (v : V) (d : D) (r : R), G.content r d = G.content r (M.env v d)

variable {M : Machine D R W E I V P} {G : Regions D R W} {Past : D → D → Prop}
  {c : Config D R W E I P}

/-- Slots with no transaction in flight are explained. -/
theorem Explained.of_idle
    (h : ∀ sl ∈ c.procs, sl.locks = [] ∧ ∀ p i s rest, sl ≠ .active p i s rest) :
    M.Explained G Past c := by
  refine ⟨?_, ?_⟩
  · intro j p i s rest hj
    exact absurd rfl ((h _ (List.mem_of_getElem? hj)).2 p i s rest)
  · intro j m sl sl' _ hj _ r hr
    rw [(h _ (List.mem_of_getElem? hj)).1] at hr
    cases hr

/-- The slot at `m` after one was added at the end. -/
theorem get_append_cases {α : Type} {l : List α} {m : Nat} {x y : α}
    (h : (l ++ [x])[m]? = some y) : l[m]? = some y ∨ (m = l.length ∧ y = x) := by
  rcases Nat.lt_or_ge m l.length with hlt | hge
  · rw [List.getElem?_append_left hlt] at h
    exact .inl h
  · rw [List.getElem?_append_right hge] at h
    obtain ⟨hlen, heq⟩ := List.getElem?_eq_some_iff.mp h
    exact .inr ⟨by simp at hlen; omega, by simpa using heq.symm⟩

/-- The slot at `m` after process `j` was replaced. -/
theorem get_set_cases {α : Type} {l : List α} {j m : Nat} {x y : α}
    (h : (l.set j x)[m]? = some y) : (m = j ∧ y = x) ∨ (m ≠ j ∧ l[m]? = some y) := by
  by_cases hm : m = j
  · subst hm
    rw [List.getElem?_set] at h
    simp only [if_true] at h
    split at h
    · exact .inl ⟨rfl, (Option.some.inj h).symm⟩
    · cases h
  · rw [List.getElem?_set_ne (Ne.symm hm)] at h
    exact .inr ⟨hm, h⟩

/-- Replacing a slot by one that holds no more locks, while the tables keep every
    region that another slot has locked. -/
private theorem Explained.replace {j : Nat} {d : D}
    {sl : Slot D R W E I P} (h : M.Explained G Past c)
    (hidle : sl.locks = [] ∧ ∀ p i s rest, sl ≠ .active p i s rest)
    (hsame : ∀ m sl', m ≠ j → c.procs[m]? = some sl' → ∀ r ∈ sl'.locks,
      G.content r c.db = G.content r d)
    (hpast : ∀ d', Past d' c.db → Past d' d) :
    M.Explained G Past ⟨d, c.procs.set j sl⟩ := by
  refine ⟨?_, ?_⟩
  · intro m p i s rest hm
    rcases get_set_cases hm with ⟨_, heq⟩ | ⟨hne, hm'⟩
    · exact absurd heq.symm (hidle.2 p i s rest)
    · obtain ⟨prog, hbody, hreach⟩ := h.reached hm'
      exact ⟨prog, hbody, hreach.stable (hsame m _ hne hm') hpast⟩
  · intro m m' sl₁ sl₂ hne hm hm' r hr
    rcases get_set_cases hm with ⟨_, rfl⟩ | ⟨_, hm₁⟩
    · rw [hidle.1] at hr
      cases hr
    rcases get_set_cases hm' with ⟨_, rfl⟩ | ⟨_, hm₂⟩
    · rw [hidle.1]
      simp
    · exact h.disjoint hne hm₁ hm₂ r hr

omit [Tables D W] in
private theorem idle_slot (p : P) : (Slot.idle p : Slot D R W E I P).locks = [] ∧
      ∀ q i s rest, (Slot.idle p : Slot D R W E I P) ≠ .active q i s rest :=
  ⟨rfl, fun _ _ _ _ h => by cases h⟩

omit [Tables D W] in
private theorem dead_slot : (Slot.dead : Slot D R W E I P).locks = [] ∧
      ∀ q i s rest, (Slot.dead : Slot D R W E I P) ≠ .active q i s rest :=
  ⟨rfl, fun _ _ _ _ h => by cases h⟩

/-- A commit leaves the regions that the other slots hold as they were. -/
def KeptBy (G : Regions D R W) (c : Config D R W E I P) (a : Action I V P) : Prop :=
  ∀ {j : Nat} {p p' : P} {i : I} {s : Local R W}, a = .commit j ∨ a = .lose j →
    c.procs[j]? = some (.active p i s (.ret p')) →
    ∀ m sl', m ≠ j → c.procs[m]? = some sl' → ∀ r ∈ sl'.locks,
      G.content r c.db = G.content r (applyAll c.db s.writes)

theorem Explained.keptBy {a : Action I V P} (h : M.Explained G Past c)
    (hiso : M.Isolated G (G.Sees Past) c.db) : KeptBy G c a := by
  intro j p p' i s _ hj m sl' hne hm r hr
  obtain ⟨prog, hbody, hreach⟩ := h.reached hj
  have hruns : prog.Runs (G.Sees Past) c.db .empty (.ok p') s := hreach.runs ⟨rfl, rfl⟩
  exact hiso hbody hruns r (h.disjoint hne hm hj r hr)

end

variable [Tables D W] [DecidableEq R] {M : Machine D R W E I V P} {G : Regions D R W}
  {Past : D → D → Prop}
variable {c c' : Config D R W E I P} {j : Nat} {a : Action I V P} {ws : List W}
  {Ok : Config D R W E I P → Action I V P → Prop} {c₀ : Config D R W E I P} {log : List W}

/-- A step keeps every transaction in flight explained. -/
theorem Explained.step
    (h : M.Explained G Past c) (hkeep : KeptBy G c a) (henv : M.EnvOutside G)
    (hnow : Past c.db c.db) (hpast : ∀ d', Past d' c.db → Past d' c'.db)
    (hs : M.Step c a ws c') : M.Explained G Past c' := by
  cases hs with
  | @spawn p _ =>
    refine ⟨?_, ?_⟩
    · intro m q i s rest hm
      rcases get_append_cases hm with hm' | ⟨-, heq⟩
      · exact h.reached hm'
      · cases heq
    · intro m m' sl₁ sl₂ hne hm hm' r hr
      rcases get_append_cases hm with hm₁ | ⟨-, rfl⟩
      · rcases get_append_cases hm' with hm₂ | ⟨-, rfl⟩
        · exact h.disjoint hne hm₁ hm₂ r hr
        · simp
      · cases hr
  | @begin j p i prog hj hbody =>
    refine ⟨?_, ?_⟩
    · intro m q i' s rest hm
      rcases get_set_cases hm with ⟨_, heq⟩ | ⟨_, hm'⟩
      · cases heq
        exact ⟨prog, hbody, .start⟩
      · exact h.reached hm'
    · intro m m' sl₁ sl₂ hne hm hm' r hr
      rcases get_set_cases hm with ⟨_, rfl⟩ | ⟨_, hm₁⟩
      · cases hr
      rcases get_set_cases hm' with ⟨_, rfl⟩ | ⟨_, hm₂⟩
      · simp
      · exact h.disjoint hne hm₁ hm₂ r hr
  | @exec j p i s need eff k v hj hv hfree =>
    obtain ⟨prog, hbody, hreach⟩ := h.reached hj
    refine ⟨?_, ?_⟩
    · intro m q i' s' rest hm
      rcases get_set_cases hm with ⟨_, heq⟩ | ⟨_, hm'⟩
      · cases heq
        exact ⟨prog, hbody, .stmt hreach hv ⟨Regions.Agree.refl G _ _, hnow⟩⟩
      · exact h.reached hm'
    · -- the statement waited until nobody else held the rows it locks
      have hnew : ∀ {m : Nat} {sl : Slot D R W E I P}, m ≠ j → c.procs[m]? = some sl →
          ∀ r ∈ s.locks ++ need v, r ∉ sl.locks := by
        intro m sl hne hm r hr
        rcases List.mem_append.mp hr with hr | hr
        · exact h.disjoint (Ne.symm hne) hj hm r hr
        · exact Config.busy_eq_false.mp (hfree r hr) m sl hm hne
      intro m m' sl₁ sl₂ hne hm hm' r hr
      rcases get_set_cases hm with ⟨rfl, rfl⟩ | ⟨hne₁, hm₁⟩
      · rcases get_set_cases hm' with ⟨rfl, _⟩ | ⟨hne₂, hm₂⟩
        · exact absurd rfl hne
        · exact hnew hne₂ hm₂ r hr
      · rcases get_set_cases hm' with ⟨rfl, rfl⟩ | ⟨_, hm₂⟩
        · exact fun hr' => hnew hne₁ hm₁ r hr' hr
        · exact h.disjoint hne hm₁ hm₂ r hr
  | commit hj => exact h.replace (idle_slot _) (hkeep (.inl rfl) hj) hpast
  | lose hj => exact h.replace (idle_slot _) (hkeep (.inr rfl) hj) hpast
  | rollback | abort => exact h.replace (idle_slot _) (fun _ _ _ _ _ _ => rfl) (fun _ => id)
  | crash => exact h.replace dead_slot (fun _ _ _ _ _ _ => rfl) (fun _ => id)
  | @env v =>
    refine ⟨?_, h.disjoint⟩
    intro m q i s rest hm
    obtain ⟨prog, hbody, hreach⟩ := h.reached hm
    exact ⟨prog, hbody, hreach.stable (fun r _ => henv v c.db r) hpast⟩

theorem Step.serial_commit (hs : M.Step c (.commit j) ws c') (h : M.Explained G Past c) :
    M.Serial (G.Sees Past) c.world (.commit j) ws c'.world := by
  cases hs with
  | commit hj =>
    obtain ⟨prog, hbody, hreach⟩ := h.reached hj
    have := Serial.commit (w := c.world) (c.world_procs_get hj) hbody
      (hreach.runs ⟨rfl, rfl⟩)
    simpa [Config.world] using this

theorem Step.serial_lose (hs : M.Step c (.lose j) ws c') (h : M.Explained G Past c) :
    M.Serial (G.Sees Past) c.world (.lose j) ws c'.world := by
  cases hs with
  | lose hj =>
    obtain ⟨prog, hbody, hreach⟩ := h.reached hj
    have := Serial.lose (w := c.world) (c.world_procs_get hj) hbody
      (hreach.runs ⟨rfl, rfl⟩)
    simpa [Config.world] using this

/-- A step of the interleaved machine is invisible once transactions in flight
    are undone, or it is a serial step. -/
theorem Step.serial (hs : M.Step c a ws c') (h : M.Explained G Past c) :
    (ws = [] ∧ c'.world = c.world) ∨ M.Serial (G.Sees Past) c.world a ws c'.world := by
  have hset : ∀ {j : Nat} {sl sl' : Slot D R W E I P}, c.procs[j]? = some sl →
      sl'.proc = sl.proc → (c.set j sl').world = c.world := by
    intro j sl sl' hj heq
    simp only [Config.world, Config.set_db, Config.set_procs, List.map_set, heq]
    congr 1
    have hget : (c.procs.map Slot.proc)[j]? = some sl.proc := by simp [hj]
    obtain ⟨hlt, hval⟩ := List.getElem?_eq_some_iff.mp hget
    rw [← hval]
    exact List.set_getElem_self hlt
  cases hs with
  | spawn hsp =>
    right
    have := Serial.spawn (M := M) (A := G.Sees Past) (w := c.world) hsp
    simpa [Config.world] using this
  | begin hj | exec hj => exact .inl ⟨rfl, hset hj rfl⟩
  | commit hj => exact .inr (Step.serial_commit (.commit hj) h)
  | lose hj => exact .inr (Step.serial_lose (.lose hj) h)
  | rollback hj =>
    right
    obtain ⟨prog, hbody, hreach⟩ := h.reached hj
    have := Serial.rollback (w := c.world) (c.world_procs_get hj) hbody
      (hreach.runs ⟨rfl, rfl⟩)
    simpa [Config.world, Config.set] using this
  | abort hj =>
    right
    obtain ⟨prog, hbody, _⟩ := h.reached hj
    have := Serial.abort (A := G.Sees Past) (w := c.world) (c.world_procs_get hj) hbody
    simpa [Config.world, Config.set] using this
  | @crash j =>
    right
    have := Serial.crash (M := M) (A := G.Sees Past) (w := c.world) (j := j)
    simpa [Config.world, Config.set] using this
  | @env v =>
    right
    have := Serial.env (M := M) (A := G.Sees Past) (w := c.world) (v := v)
    simpa [Config.world] using this

/-- The transactions in flight stay explained along a run, where commits keep what others have
    locked, and what is past of the tables before a step is past of the tables after it. -/
theorem Run.explained (h₀ : M.Explained G Past c₀) (henv : M.EnvOutside G)
    (hkeep : ∀ {log c a}, M.Run Ok c₀ log c → Ok c a → M.Explained G Past c → KeptBy G c a)
    (hnow : ∀ {log c}, M.Run Ok c₀ log c → Past c.db c.db)
    (hpast : ∀ {log c a ws c' d'}, M.Run Ok c₀ log c → Ok c a → M.Step c a ws c' → Past d' c.db →
      Past d' c'.db)
    (hrun : M.Run Ok c₀ log c) : M.Explained G Past c := by
  induction hrun with
  | refl => exact h₀
  | step hrun' hok hs ih =>
    exact ih.step (hkeep hrun' hok ih) henv (hnow hrun') (fun _ hd' => hpast hrun' hok hs hd') hs

/-- Every interleaved run is explained by a serial run that commits the same writes in
    the same order, as long as the tables it passes through isolate transactions. `K` is
    what the serial run keeps: it makes the present part of the past. -/
theorem Run.serial_run {Ok' : World D P → Action I V P → Prop} {K : List W → World D P → Prop}
    (h₀ : M.Explained G Past c₀)
    (henv : M.EnvOutside G) (hiso : ∀ d, M.Isolated G (G.Sees Past) d) (hK₀ : K [] c₀.world)
    (hK : ∀ {log w a ws w'}, K log w → Ok' w a → M.Serial (G.Sees Past) w a ws w' →
      K (log ++ ws) w')
    (hnow : ∀ {log w}, K log w → Past w.db w.db)
    (hpast : ∀ {log w a ws w' d'}, K log w → M.Serial (G.Sees Past) w a ws w' → Past d' w.db →
      Past d' w'.db)
    (hok : ∀ c a, Ok c a → Ok' c.world a) (hrun : M.Run Ok c₀ log c) :
    M.SerialRun (G.Sees Past) Ok' c₀.world log c.world ∧ K log c.world ∧
      M.Explained G Past c := by
  induction hrun with
  | refl => exact ⟨.refl, hK₀, h₀⟩
  | @step log ws c c' a _ hokc hs ih =>
    obtain ⟨hser, hKc, hexp⟩ := ih
    rcases hs.serial hexp with ⟨rfl, heq⟩ | hstep
    · have hdb : c'.db = c.db := congrArg World.db heq
      refine ⟨by simpa [heq] using hser, by simpa [heq] using hKc, ?_⟩
      exact hexp.step (hexp.keptBy (hiso _)) henv (hnow hKc) (fun d' hd' => by rwa [hdb]) hs
    · refine ⟨hser.step (hok _ _ hokc) hstep, hK hKc (hok _ _ hokc) hstep, ?_⟩
      exact hexp.step (hexp.keptBy (hiso _)) henv (hnow hKc) (fun d' hd' => hpast hKc hstep hd') hs

end Machine

end Txn
