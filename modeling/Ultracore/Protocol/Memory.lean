-- SUMMARY: Which functions leave the session memory and its events alone, and what the two that write it do.
import Ultracore.Protocol.Emission

/-!
# Session memory

Memory is written by two store methods. `Set` and `Delete` hold the advisory lock of the
session's memory until the transaction ends. Where everybody takes it under the same text,
what they count is what there is at commit. Every other function of the program is `MemoryFree`:
whatever it writes, the memory and the events about it stay as they are.
-/

namespace Ultracore

open Txn Loop Api

/-- Writes to the session memory, and the events that report them. -/
def Write.remembers : Write → Bool
  | .setMemory _ _ | .deleteMemory _ _ _ => true
  | .insertEvent e => e.payload.remembers
  | _ => false

/-- A function that leaves the session memory and its events alone. -/
def MemoryFree {α : Type} (x : Tx α) : Prop := x.prog.Emits fun w => w.remembers = false

theorem Write.remembers_everyday {w : Write} (h : w.everyday = true) : w.remembers = false := by
  cases w with
  | insertEvent => simpa [everyday, remembers] using h
  | setMemory | deleteMemory => cases h
  | _ => rfl

theorem MemoryFree.built : Built fun _ x => MemoryFree x :=
  Tx.Only.built fun _ => Write.remembers_everyday

theorem MemoryFree.of_ordinary {α : Type} {x : Tx α} (hx : Ordinary x) : MemoryFree x :=
  hx _ MemoryFree.built

/-! ## The two store methods -/

/-- Whoever holds the lock of a session's memory sees the memory as it is at commit. -/
def Tx.HoldsMemory (A : Sight) : Prop :=
  ∀ {ls : List Row} {d d' : Db} {s : SessionID} {text : String}, A ls d d' →
    Row.memory s text ∈ ls → ∀ ws : List Write, (applyAll d' ws).memoryOf s = (applyAll d ws).memoryOf s

/-- What `Set` has checked before it stores an entry. -/
structure Storable (A : Sight) (d : Db) (e : MemoryEntry) : Prop where
  key : Memory.validKey e.key = true
  value : e.value.utf8ByteSize ≤ 65536
  room : Tx.HoldsMemory A → (d.memoryOf e.sessionID).any (fun x => x.key = e.key) = true ∨
    (d.memoryOf e.sessionID).length < 200

namespace Tx

variable {A : Sight} {d : Db} {st : Local Row Write} {text : String}

/-- `Set` fails without a write, or stores an entry. If the lock holds the memory, it counts
    the keys that there are when the transaction commits. -/
theorem wp_memory_set {t : TenantID} {e : MemoryEntry} {Q : Post Unit}
    (herr : ∀ err s, s.writes = st.writes → Q (.error err) s)
    (hok : Storable A (view d st) e →
      ∀ s, s.writes = st.writes ++ [.setMemory e text] → Q (.ok ()) s) :
    wp A d (Memory.set t e text) st Q := by
  unfold Memory.set
  split
  · exact wp_throw.mpr (herr _ _ rfl)
  rename_i hkey
  split
  · exact wp_throw.mpr (herr _ _ rfl)
  rename_i hvalue
  rw [wp_bind]
  refine wp_lockRead.mpr fun _ _ => ?_
  rw [Prog.either_ok, wp_bind]
  refine wp_query.mpr fun d' hsee => ?_
  simp only [Local.after_writes, List.append_nil, Prog.either_ok]
  split
  · exact wp_throw.mpr (herr _ _ (by simp))
  rename_i hroom
  refine wp_update.mpr fun d₂ busy _ => ?_
  cases (applyAll d₂ (st.after [.memory e.sessionID text] []).writes).ownSession t e.sessionID with
  | none => exact herr _ _ (by simp)
  | some =>
    refine hok ⟨by simpa using hkey, by omega, fun hA => ?_⟩ _ (by simp)
    have hlocked : Row.memory e.sessionID text ∈ (st.after [.memory e.sessionID text] []).locks := by
      simp
    rw [hA hsee hlocked st.writes] at hroom
    by_cases hknown : (view d st).memoryOf e.sessionID |>.any (fun x => x.key = e.key)
    · exact .inl hknown
    · right
      simpa [hknown] using hroom

/-- `Delete` fails without a write, or removes the key. -/
theorem wp_memory_delete {t : TenantID} {s : SessionID} {key : String} {Q : Post Unit}
    (herr : ∀ err s', s'.writes = st.writes → Q (.error err) s')
    (hok : ∀ s', s'.writes = st.writes ++ [.deleteMemory s key text] → Q (.ok ()) s') :
    wp A d (Memory.delete t s key text) st Q := by
  unfold Memory.delete
  rw [wp_bind]
  refine wp_lockRead.mpr fun _ _ => ?_
  refine wp_update.mpr fun d' busy _ => ?_
  split
  · exact hok _ (by simp)
  · exact herr _ _ (by simp)

end Tx

/-! ## The commit of a step -/

/-- A property of transactions that writes outside the session memory keep. -/
def FreeClosed (I : Local Row Write → Prop) : Prop :=
  ∀ (st s : Local Row Write) (ws : List Write), I st → s.writes = st.writes ++ ws →
    (∀ w ∈ ws, w.remembers = false) → I s

section
variable {A : Sight} {d : Db} {st : Local Row Write}
  {I : Local Row Write → Prop}

theorem MemoryFree.keeps {α : Type} {x : Tx α} (hx : MemoryFree x) (hI : FreeClosed I) (h : I st) :
    Tx.wp A d x st fun _ => I := by
  refine Tx.wp_mono (Prog.Emits.wp hx) ?_
  rintro _ s ⟨ws, hws, hfree⟩
  exact hI st s ws h hws hfree

/-- Nothing was written to the session memory so far. -/
theorem freeClosed_untouched (hI : FreeClosed I) :
    FreeClosed fun s => I s ∧ ∀ w ∈ s.writes, w.remembers = false := by
  rintro st s ws ⟨h, hst⟩ hs hws
  refine ⟨hI st s ws h hs hws, fun w hw => ?_⟩
  rw [hs] at hw
  exact (List.mem_append.mp hw).elim (hst w) (hws w)

/-- The commit of a step touches the session memory by the cost-accounting hook only. -/
theorem wp_commitOutcome_memory {cfg : Settings} {job : StepJob} {attempt : Nat} {env : Envelope}
    {step : StepResult} {rec : StepRecorder} {final : String} (hA : Tx.Respects A)
    (hI : FreeClosed I) (h₀ : I .empty)
    (hhook : ∀ run record s, d.run? job.runID = some run → (∀ w ∈ s.writes, w.remembers = false) →
      I s → Tx.wp A d (accountStepCost run record) s fun _ => I) :
    Tx.wp A d (commitOutcome cfg job attempt env step rec final) .empty fun _ => I := by
  have hcommit : Tx.wp A d (commitTx cfg job attempt env step rec final) .empty fun _ => I := by
    unfold commitTx
    rw [Tx.wp_bind]
    refine Tx.wp_runs_getForUpdate hA (fun _ => hI _ _ [] h₀ (by simp) (by simp)) ?_
    intro run hrun _
    have hlocked : I (Local.empty.after [.run job.runID] []) ∧
        ∀ w ∈ (Local.empty.after [.run job.runID] [] : Local Row Write).writes, w.remembers = false :=
      ⟨hI _ _ [] h₀ (by simp) (by simp), by simp⟩
    rw [Prog.either_ok]
    split
    · exact Tx.wp_throw.mpr hlocked.1
    split
    · exact (MemoryFree.of_ordinary .markCancelledTx).keeps hI hlocked.1
    rw [Tx.wp_bind]
    refine Tx.wp_mono ((MemoryFree.of_ordinary (.setHistory (by simp))).keeps (freeClosed_untouched hI) hlocked) ?_
    intro res s₁ h₁
    cases res with
    | error => exact h₁.1
    | ok =>
      rw [Prog.either_ok, Tx.wp_bind]
      refine Tx.wp_mono (MemoryFree.keeps MemoryFree.built.attemptStep
        (freeClosed_untouched hI) h₁) ?_
      intro res s₂ h₂
      cases res with
      | error => exact h₂.1
      | ok =>
        rw [Prog.either_ok]
        split
        · exact Tx.wp_throw.mpr h₂.1
        · exact Tx.wp_throw.mpr h₂.1
        rw [Tx.wp_bind, Tx.wp_attempt]
        refine Tx.wp_mono (hhook run _ s₂ hrun h₂.2 h₂.1) ?_
        intro _ s₃ h₃
        have hbuilt := MemoryFree.built
        exact MemoryFree.keeps (hbuilt.bind (Ordinary.appendAgent rfl _ hbuilt) fun _ =>
          hbuilt.classify fun _ => Tx.Only.createWait fun _ => Write.remembers_everyday) hI h₃
  unfold commitOutcome txStale
  rw [Tx.wp_bind, Tx.wp_attempt]
  refine Tx.wp_mono hcommit ?_
  intro res s h
  rw [Prog.either_ok]
  split
  · exact Tx.wp_pure'.mpr h
  · exact Tx.wp_pure'.mpr h
  · exact Tx.wp_throw.mpr h

end

end Ultracore
