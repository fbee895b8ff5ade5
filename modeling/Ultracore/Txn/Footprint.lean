-- SUMMARY: What the processes of a machine can write, and stores that are part of larger ones.
import Ultracore.Txn.Machine

/-!
# Footprints

The footprint of a process is what it can write as long as its statements see tables of a
certain kind. It is found statement by statement. Whatever the other processes and the
environment do in between, what a process commits lies in its footprint.

A store can be a part of a larger one. Bodies over the part are bodies over the whole, and
write there what they write to the part.
-/

namespace Txn

namespace Prog

variable {D R W D₀ R₀ W₀ E α β : Type}

/-! ## Writes of a body -/

/-- As long as every statement sees tables that satisfy `C`, every write satisfies `P` and the
    result satisfies `Q`. -/
def Writes (C : D → Prop) (P : W → Prop) (Q : α → Prop) : Prog D R W E α → Prop
  | .ret a => Q a
  | .fail _ => True
  | .stmt _ eff k => ∀ v, C v.db → (∀ w ∈ eff v, P w) ∧ (k v).Writes C P Q

section
variable {C : D → Prop} {P : W → Prop} {Q : β → Prop}

theorem Writes.mono {C' : D → Prop} {P' : W → Prop} {Q' : β → Prop} {p : Prog D R W E β}
    (hp : p.Writes C P Q) (hC : ∀ d, C' d → C d) (hP : ∀ w, P w → P' w) (hQ : ∀ b, Q b → Q' b) :
    p.Writes C' P' Q' := by
  induction p with
  | ret b => exact hQ b hp
  | fail => trivial
  | stmt need eff k ih =>
    intro v hv
    obtain ⟨heff, hk⟩ := hp v (hC _ hv)
    exact ⟨fun w hw => hP w (heff w hw), ih v hk⟩

theorem Writes.bind {I : α → Prop} {p : Prog D R W E α} {f : α → Prog D R W E β}
    (hp : p.Writes C P I) (hf : ∀ a, I a → (f a).Writes C P Q) : (p.bind f).Writes C P Q := by
  induction p with
  | ret a => exact hf a hp
  | fail => trivial
  | stmt need eff k ih => exact fun v hv => ⟨(hp v hv).1, ih v (hp v hv).2⟩

theorem Writes.exec {need : Snap D R → List R} {f : Snap D R → Except E β × List W}
    (h : ∀ v, C v.db → (∀ w ∈ (f v).2, P w) ∧ ∀ b, (f v).1 = .ok b → Q b) :
    (Prog.exec need f).Writes C P Q := by
  refine fun v hv => ⟨(h v hv).1, ?_⟩
  dsimp only
  split
  · exact (h v hv).2 _ ‹_›
  · trivial

theorem Writes.query {f : D → β} (h : ∀ d, C d → Q (f d)) :
    (Prog.query f : Prog D R W E β).Writes C P Q :=
  fun v hv => ⟨by simp, h v.db hv⟩

/-- What a body emits, whatever it sees. -/
theorem Emits.writes {p : Prog D R W E β} (hp : p.Emits P) : p.Writes C P fun _ => True := by
  induction p with
  | ret | fail => trivial
  | stmt need eff k ih => exact fun v _ => ⟨(hp v).1, ih v (hp v).2⟩

end

/-! ## Larger stores -/

/-- A body over the part `π` of a store. -/
def embed (π : D → D₀) (ρ : R₀ → R) (ι : W₀ → W) : Prog D₀ R₀ W₀ E α → Prog D R W E α
  | .ret a => .ret a
  | .fail e => .fail e
  | .stmt need eff k => .stmt
      (fun v => (need ⟨π v.db, fun r => v.busy (ρ r)⟩).map ρ)
      (fun v => (eff ⟨π v.db, fun r => v.busy (ρ r)⟩).map ι)
      (fun v => (k ⟨π v.db, fun r => v.busy (ρ r)⟩).embed π ρ ι)

theorem Writes.embed {π : D → D₀} {ρ : R₀ → R} {ι : W₀ → W} {C : D₀ → Prop} {P : W → Prop}
    {Q : α → Prop} {p : Prog D₀ R₀ W₀ E α} (hp : p.Writes C (fun w => P (ι w)) Q) :
    (p.embed π ρ ι).Writes (fun d => C (π d)) P Q := by
  induction p with
  | ret => exact hp
  | fail => trivial
  | stmt need eff k ih =>
    intro v hv
    obtain ⟨heff, hk⟩ := hp ⟨π v.db, fun r => v.busy (ρ r)⟩ hv
    refine ⟨?_, ih _ hk⟩
    simpa using heff

end Prog

namespace Machine

variable {D R W E I V P : Type} [Tables D W]

/-- What the processes of a machine rely on and write: `Valid` holds of every process, and a
    valid process whose statements see tables that satisfy `sees` writes what satisfies
    `writes`. Its own writes do not take from it what it relies on. -/
structure Footprint (M : Machine D R W E I V P) (Valid : P → Prop) (sees : P → D → Prop)
    (writes : P → W → Prop) : Prop where
  body : ∀ {p i prog}, Valid p → M.body p i = some prog → prog.Writes (sees p) (writes p) Valid
  onErr : ∀ {p} i e, Valid p → Valid (M.onErr p i e)
  spawn : ∀ {d ps p}, M.canSpawn d ps p = true → Valid p
  own : ∀ {p w d}, Valid p → writes p w → sees p d → sees p (Tables.apply d w)

/-- Inside a transaction too, a process is valid and has written what it may write. -/
def Traced (Valid : P → Prop) (sees : P → D → Prop) (writes : P → W → Prop) :
    Slot D R W E I P → Prop
  | .idle p => Valid p
  | .active p _ s rest => Valid p ∧ rest.Writes (sees p) (writes p) Valid ∧ ∀ w ∈ s.writes, writes p w
  | .dead => True

/-- A process that executes or commits sees what it relies on. -/
def Seen (sees : P → D → Prop) (c : Config D R W E I P) : Action I V P → Prop
  | .exec j | .commit j | .lose j =>
    ∀ sl p, c.procs[j]? = some sl → sl.proc = some p → sees p c.db
  | _ => True

variable {M : Machine D R W E I V P} {Valid : P → Prop} {sees : P → D → Prop}
  {writes : P → W → Prop}

theorem Footprint.sees_all (F : M.Footprint Valid sees writes) {p : P} {d : D} {ws : List W}
    (hp : Valid p) (hws : ∀ w ∈ ws, writes p w) (hd : sees p d) : sees p (applyAll d ws) :=
  applyAll_keeps (fun w hw _ he => F.own hp (hws w hw) he) hd

omit [Tables D W] in
theorem traced_set {c : Config D R W E I P} {j : Nat} {sl : Slot D R W E I P}
    (hc : ∀ x ∈ c.procs, Traced Valid sees writes x) (hsl : Traced Valid sees writes sl) :
    ∀ x ∈ c.procs.set j sl, Traced Valid sees writes x := by
  intro x hx
  rcases List.mem_or_eq_of_mem_set hx with hx | rfl
  · exact hc x hx
  · exact hsl

variable [DecidableEq R] {Ok : Config D R W E I P → Action I V P → Prop}
  {c₀ c c' : Config D R W E I P} {log ws : List W} {a : Action I V P}

/-- One step keeps every process in its footprint. -/
theorem Footprint.step (F : M.Footprint Valid sees writes)
    (hc : ∀ sl ∈ c.procs, Traced Valid sees writes sl) (hseen : Seen sees c a)
    (hs : M.Step c a ws c') : ∀ sl ∈ c'.procs, Traced Valid sees writes sl := by
  cases hs with
  | spawn hcan =>
    intro sl hsl
    rcases List.mem_append.mp hsl with hsl | hsl
    · exact hc sl hsl
    · obtain rfl := List.mem_singleton.mp hsl
      exact F.spawn hcan
  | begin hj hbody =>
    have hp := hc _ (List.mem_of_getElem? hj)
    exact traced_set hc ⟨hp, F.body hp hbody, by simp⟩
  | @exec j _ _ s _ _ _ _ hj hv _ =>
    subst hv
    obtain ⟨hp, hrest, hws⟩ := hc _ (List.mem_of_getElem? hj)
    obtain ⟨heff, hk⟩ := hrest ⟨applyAll c.db s.writes, c.busy j⟩
      (F.sees_all hp hws (hseen _ _ hj rfl))
    refine traced_set hc ⟨hp, hk, fun w hw => ?_⟩
    rcases List.mem_append.mp hw with hw | hw
    · exact hws w hw
    · exact heff w hw
  | commit hj =>
    obtain ⟨-, hret, -⟩ := hc _ (List.mem_of_getElem? hj)
    exact traced_set hc hret
  | lose hj | rollback hj | abort hj =>
    obtain ⟨hp, -, -⟩ := hc _ (List.mem_of_getElem? hj)
    exact traced_set hc (F.onErr _ _ hp)
  | crash => exact traced_set hc trivial
  | env => exact hc

/-- So does a run that starts without processes. -/
theorem Footprint.run (F : M.Footprint Valid sees writes) (h₀ : c₀.procs = [])
    (hok : ∀ c a, Ok c a → Seen sees c a) (hrun : M.Run Ok c₀ log c) :
    ∀ sl ∈ c.procs, Traced Valid sees writes sl := by
  induction hrun with
  | refl => simp [h₀]
  | step _ hoka hs ih => exact F.step ih (hok _ _ hoka) hs

/-- What a step of process `j` commits lies in the footprint of the process, and the tables
    are as the process relies on. A step that commits nothing leaves the tables alone. -/
theorem traced_commits (hc : ∀ sl ∈ c.procs, Traced Valid sees writes sl) (hseen : Seen sees c a)
    (hs : M.Step c a ws c') {j : Nat} (ha : a.subject = some j) {sl : Slot D R W E I P} {p : P}
    (hj : c.procs[j]? = some sl) (hp : sl.proc = some p) :
    c'.db = c.db ∨ Valid p ∧ sees p c.db ∧ ∃ ws, c'.db = applyAll c.db ws ∧ ∀ w ∈ ws, writes p w := by
  have hwrites : ∀ {p' : P} {i : I} {s : Local R W} {rest : Prog D R W E P},
      c.procs[j]? = some (.active p' i s rest) → p' = p ∧ Valid p ∧ ∀ w ∈ s.writes, writes p w := by
    intro p' i s rest hj'
    cases hj.symm.trans hj'
    cases hp
    obtain ⟨hp', -, hws⟩ := hc _ (List.mem_of_getElem? hj')
    exact ⟨rfl, hp', hws⟩
  cases hs with
  | spawn | env => cases ha
  | begin | exec | rollback | abort | crash => exact .inl rfl
  | commit hj' | lose hj' =>
    cases ha
    obtain ⟨-, hvalid, hws⟩ := hwrites hj'
    exact .inr ⟨hvalid, hseen _ _ hj hp, _, rfl, hws⟩

end Machine

end Txn
