-- SUMMARY: What one step of the command engine does to the audit table and to the call that takes it.
import Ultracore.Admin.Engine
import Ultracore.Txn.Serial
import Ultracore.Txn.Steps

/-!
# Turns

Every step of a call is one of a few kinds of turns. Only two of them matter to other calls:
the one that executes the command and the one that binds the key to an audit row. Between
them, and between the lookup of the key and the execution, other calls can take their turns.
-/

namespace Ultracore.Admin

variable {S : Type}

/-- The audit table and the executions are as before. -/
def Shared.Same (sh sh' : Shared S) : Prop := sh'.audit = sh.audit ∧ sh'.executed = sh.executed

theorem Shared.Same.refl (sh : Shared S) : sh.Same sh := ⟨rfl, rfl⟩

/-- The execution of call number `j` that ended with a report. -/
def Call.execution (j : Nat) (c : Call S) (rep : Report) : Execution :=
  ⟨j, c.command, c.targets, c.idem, rep.before, rep.after, outcomeOf rep.after⟩

/-- The row that binds the key of a call to its result. -/
def Engine.boundRow (e : Engine) (sh : Shared S) (c : Call S) (r : Result) : AuditRow :=
  e.auditRow sh.audit.length c r.before r.after r.outcome "" c.idem

/-- The kinds of turns of call number `j`: those in which a statement fails, and the others. -/
inductive Turn (e : Engine) (j : Nat) (c : Call S) (sh : Shared S) :
    Bool → Phase → Shared S → Phase → Prop where
  | refuse {message : String} : Turn e j c sh false .entering sh (.returned (.error message))
  | deny {message : String} :
      Turn e j c sh false .entering sh (.noting none none .denied message (.error message))
  | preview : c.dry = true → Turn e j c sh false .entering sh .probing
  | look : c.dry = false → c.idem ≠ "" → Turn e j c sh false .entering sh .looking
  | replay {prev : Result} : Engine.lookupIdempotent sh.audit c.idem = some prev →
      Turn e j c sh false .looking sh (.returned (.result { prev with idempotentReplay := true }))
  | miss : Engine.lookupIdempotent sh.audit c.idem = none → Turn e j c sh false .looking sh .acquiring
  | broken {message : String} : Turn e j c sh true .looking sh (.returned (.error message))
  | reject {sh' : Shared S} {message : String} : sh.Same sh' →
      Turn e j c sh false .acquiring sh' (.returned (.error message))
  | admitted {sh' : Shared S} : sh.Same sh' → Turn e j c sh false .acquiring sh' .probing
  | previewed {sh' : Shared S} {before : Option Fields} {r : Result} : sh.Same sh' →
      r.outcome.success = false →
      Turn e j c sh false .probing sh' (.noting before before .dryRun "" (.result r))
  | confirm {sh' : Shared S} {r : Result} : sh.Same sh' → c.dry = false →
      r.idempotentReplay = false → Turn e j c sh false .probing sh' (.executing r)
  | fail {ph : Phase} {sh' : Shared S} {before after : Option Fields} {message : String} :
      sh.Same sh' → ph = .probing ∨ (∃ r, ph = .executing r) →
      Turn e j c sh false ph sh' (.noting before after .failed message (.error message))
  | execute {sh' : Shared S} {r : Result} {rep : Report} : sh'.audit = sh.audit →
      sh'.executed = sh.executed ++ [c.execution j rep] →
      Turn e j c sh false (.executing r) sh' (.recording (r.executed rep))
  | note {sh' : Shared S} {before after : Option Fields} {outcome : Outcome} {error : String}
      {reply : Reply} {row : AuditRow} : row.idempotencyKey = none →
      sh'.audit = sh.audit ++ [row] → sh'.executed = sh.executed →
      Turn e j c sh false (.noting before after outcome error reply) sh' (.returned (reply.audited row.id))
  | unnoted {sh' : Shared S} {before after : Option Fields} {outcome : Outcome} {error : String}
      {reply : Reply} : sh.Same sh' →
      Turn e j c sh true (.noting before after outcome error reply) sh' (.returned reply)
  | bind {sh' : Shared S} {r : Result} : (∀ row ∈ sh.audit, row.idempotencyKey ≠ some c.idem) →
      sh'.audit = sh.audit ++ [e.boundRow sh c r] → sh'.executed = sh.executed →
      Turn e j c sh false (.recording r) sh'
        (.returned (.result { r with auditID := some (e.boundRow sh c r).id }))
  | collide {r : Result} {row : AuditRow} : row ∈ sh.audit → row.idempotencyKey = some c.idem →
      Turn e j c sh false (.recording r) sh (.colliding r)
  | adopt {sh' : Shared S} {r : Result} {id : Option Nat} : sh.Same sh' →
      Turn e j c sh false (.colliding r) sh' (.returned (.result { r with auditID := id }))
  | unaudited {sh' : Shared S} {r : Result} {message : String} : sh.Same sh' →
      Turn e j c sh true (.recording r) sh' (.returned (.unaudited r message))
  | collided {faulty : Bool} {sh' : Shared S} {r : Result} {message : String} : sh.Same sh' →
      Turn e j c sh faulty (.colliding r) sh' (.returned (.unaudited r message))

namespace Engine

variable {e : Engine} {j : Nat} {c : Call S} {sh sh' : Shared S} {ph ph' : Phase}

@[simp] theorem leave_audit : (leave c sh).audit = sh.audit := by
  unfold leave
  split <;> rfl

@[simp] theorem leave_executed : (leave c sh).executed = sh.executed := by
  unfold leave
  split <;> rfl

theorem same_leave : sh.Same (leave c sh) := ⟨leave_audit, leave_executed⟩

theorem next_turn (h : e.next j c sh ph = some (sh', ph')) : Turn e j c sh false ph sh' ph' := by
  cases ph with
  | entering =>
    simp only [next] at h
    split at h
    · cases h
      exact .deny
    split at h
    · cases h
      exact .refuse
    split at h
    · rename_i hdry
      cases h
      exact .preview hdry
    rename_i hdry
    split at h
    · cases h
      exact .refuse
    · rename_i hidem
      cases h
      exact .look (by simpa using hdry) hidem
  | looking =>
    simp only [next] at h
    split at h
    · rename_i prev hprev
      cases h
      exact .replay hprev
    · rename_i hnone
      cases h
      exact .miss hnone
  | acquiring =>
    simp only [next] at h
    split at h
    · cases h
      exact .reject ⟨rfl, rfl⟩
    · cases h
      exact .admitted ⟨rfl, rfl⟩
  | probing =>
    simp only [next] at h
    split at h
    · cases h
      exact .fail ⟨rfl, rfl⟩ (.inl rfl)
    split at h
    · cases h
      exact .previewed ⟨rfl, rfl⟩ rfl
    rename_i hdry
    split at h
    · cases h
      exact .fail ⟨rfl, rfl⟩ (.inl rfl)
    · cases h
      exact .confirm ⟨rfl, rfl⟩ (by simpa using hdry) rfl
  | noting =>
    cases h
    exact .note rfl leave_audit leave_executed
  | executing r =>
    simp only [next] at h
    split at h
    · cases h
      exact .fail ⟨rfl, rfl⟩ (.inr ⟨r, rfl⟩)
    · cases h
      exact .execute rfl rfl
  | recording =>
    simp only [next] at h
    split at h
    · rename_i hany
      cases h
      obtain ⟨row, hrow, hkey⟩ := List.any_eq_true.mp hany
      exact .collide hrow (of_decide_eq_true hkey)
    · rename_i hany
      cases h
      refine .bind (fun row hrow hkey => hany ?_) leave_audit leave_executed
      exact List.any_eq_true.mpr ⟨row, hrow, decide_eq_true hkey⟩
  | colliding =>
    simp only [next] at h
    split at h
    · cases h
      exact .adopt same_leave
    · cases h
      exact .collided same_leave
  | returned | dead => cases h

theorem fault_turn {message : String} (h : fault message c sh ph = some (sh', ph')) :
    Turn e j c sh true ph sh' ph' := by
  cases ph with
  | looking =>
    cases h
    exact .broken
  | noting =>
    cases h
    exact .unnoted same_leave
  | recording =>
    cases h
    exact .unaudited same_leave
  | colliding =>
    cases h
    exact .collided same_leave
  | _ => cases h

end Engine

/-! ## Steps of the whole system -/

/-- A server process dies with the calls that it was executing. -/
def Call.killed (process : Nat) (x : Call S × Phase) : Call S × Phase :=
  if x.1.process = process ∧ x.2.over = false then (x.1, .dead) else x

/-- The action is a turn of call `j`, with or without a failing statement. -/
inductive Action.Turns (j : Nat) : Action S → Bool → Prop where
  | advance : Action.Turns j (.advance j) false
  | fault {message : String} : Action.Turns j (.fault j message) true

/-- What a step does: a call arrives or takes a turn, a process dies, or nothing that
    concerns the audit. -/
inductive Moves (e : Engine) (w : World S) : Action S → World S → Prop where
  | call {c : Call S} : Moves e w (.call c) { w with calls := w.calls ++ [(c, .entering)] }
  | turn {a : Action S} {faulty : Bool} {j : Nat} {c : Call S} {ph ph' : Phase} {sh' : Shared S} :
      Action.Turns j a faulty → w.calls[j]? = some (c, ph) → Turn e j c w.shared faulty ph sh' ph' →
      Moves e w a ⟨sh', w.calls.set j (c, ph')⟩
  | crash {process : Nat} {sh' : Shared S} : w.shared.Same sh' →
      Moves e w (.crash process) ⟨sh', w.calls.map (Call.killed process)⟩
  | idle {a : Action S} {sh' : Shared S} : w.shared.Same sh' → Moves e w a ⟨sh', w.calls⟩

namespace Engine

variable {e : Engine} {w w' : World S} {a : Action S}

theorem goOn_eq_some {j : Nat} {f : Call S → Phase → Option (Shared S × Phase)}
    (h : goOn w j f = some w') : ∃ c ph sh' ph', w.calls[j]? = some (c, ph) ∧
      f c ph = some (sh', ph') ∧ w' = ⟨sh', w.calls.set j (c, ph')⟩ := by
  obtain ⟨⟨c, ph⟩, hj, hmap⟩ := Option.bind_eq_some_iff.mp h
  obtain ⟨⟨sh', ph'⟩, hf, rfl⟩ := Option.map_eq_some_iff.mp hmap
  exact ⟨c, ph, sh', ph', hj, hf, rfl⟩

theorem step_moves (h : e.step w a = some w') : Moves e w a w' := by
  cases a with
  | call =>
    cases h
    exact .call
  | advance =>
    simp only [step] at h
    obtain ⟨c, ph, sh', ph', hj, hf, rfl⟩ := goOn_eq_some h
    exact .turn .advance hj (next_turn hf)
  | fault =>
    simp only [step] at h
    obtain ⟨c, ph, sh', ph', hj, hf, rfl⟩ := goOn_eq_some h
    exact .turn .fault hj (fault_turn hf)
  | crash =>
    cases h
    exact .crash ⟨rfl, rfl⟩
  | change | tick =>
    cases h
    exact .idle ⟨rfl, rfl⟩

end Engine

/-- The audit table and the executions only grow. -/
theorem Turn.grows {e : Engine} {j : Nat} {c : Call S} {sh sh' : Shared S} {faulty : Bool}
    {ph ph' : Phase} (h : Turn e j c sh faulty ph sh' ph') : sh.audit ⊆ sh'.audit ∧ sh.executed ⊆ sh'.executed := by
  have hsame : ∀ {sh' : Shared S}, sh.Same sh' → sh.audit ⊆ sh'.audit ∧ sh.executed ⊆ sh'.executed :=
    fun hs => ⟨hs.1 ▸ fun _ hx => hx, hs.2 ▸ fun _ hx => hx⟩
  cases h with
  | reject hs | admitted hs | unnoted hs | adopt hs | previewed hs _ | confirm hs _ _ | fail hs _
  | unaudited hs | collided hs => exact hsame hs
  | execute haudit hexec =>
    exact ⟨haudit ▸ fun _ hx => hx, hexec ▸ List.subset_append_left _ _⟩
  | note _ haudit hexec | bind _ haudit hexec =>
    exact ⟨haudit ▸ List.subset_append_left _ _, hexec ▸ fun _ hx => hx⟩
  | _ => exact hsame (.refl _)

end Ultracore.Admin
