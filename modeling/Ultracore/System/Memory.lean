-- SUMMARY: When the caps of the session memory hold, and when the log mirrors its keys.
import Mathlib.Data.Finset.Insert
import Mathlib.Data.Finset.Erase
import Ultracore.Events.Log
import Ultracore.Protocol.Memory
import Ultracore.System.Emission
import Ultracore.System.Guarantees

/-!
# Session memory in every run

Three kinds of transactions write the session memory: those of the API and of other
subsystems, the memory tools of agents, and the commit of a step, whose cost-accounting hook
stores a key of its own. What they store is well formed whatever they do. The number of keys
is capped as long as the lock of a session's memory excludes others, which it does where they
name the session by the same text. The first two report each change by an event in the same
transaction, the hook does not.
-/

namespace Ultracore

open Txn

/-! ## Caps -/

/-- What `Set` accepts as an entry. -/
def MemoryEntry.Valid (e : MemoryEntry) : Prop :=
  Memory.validKey e.key = true ∧ e.value.utf8ByteSize ≤ 65536

/-- The caps of the session memory. The number of keys is capped where the lock of the memory
    holds what was counted. -/
def Db.Capped (A : Sight) (d : Db) : Prop :=
  ∀ s, (Tx.HoldsMemory A → (d.memoryOf s).length ≤ 200) ∧ ∀ e ∈ d.memoryOf s, e.Valid

namespace Db.Capped

variable {A : Sight} {d : Db}

theorem empty : Capped A {} := fun _ => ⟨fun _ => Nat.zero_le _, fun _ he => by cases he⟩

/-- Only two kinds of writes touch the memory. -/
theorem other (h : d.Capped A) {w : Write} (hset : ∀ e text, w ≠ .setMemory e text)
    (hdel : ∀ s key text, w ≠ .deleteMemory s key text) : (w.apply d).Capped A := by
  intro s
  rw [memoryOf_apply]
  cases w with
  | setMemory e text => exact absurd rfl (hset e text)
  | deleteMemory s' key text => exact absurd rfl (hdel s' key text)
  | _ => exact h s

theorem delete (h : d.Capped A) (s : SessionID) (key text : String) :
    ((Write.deleteMemory s key text).apply d).Capped A := by
  intro s'
  obtain ⟨hlen, hall⟩ := h s'
  rw [memoryOf_apply]
  simp only [Write.onMemory]
  split
  · exact ⟨fun hA => (List.length_filter_le _ _).trans (hlen hA),
      fun e he => hall e (List.mem_of_mem_filter he)⟩
  · exact ⟨hlen, hall⟩

/-- A new key takes a free place, a known one the place of the entry that it replaces. -/
theorem set (h : d.Capped A) {e : MemoryEntry} (he : Storable A d e) (text : String) :
    ((Write.setMemory e text).apply d).Capped A := by
  intro s
  obtain ⟨hlen, hall⟩ := h s
  rw [memoryOf_apply]
  simp only [Write.onMemory]
  split
  · rename_i hs
    subst hs
    constructor
    · intro hA
      have hplace : ((d.memoryOf e.sessionID).filter fun x => x.key ≠ e.key).length < 200 := by
        rcases he.room hA with hknown | hroom
        · obtain ⟨x, hx, hkey⟩ := List.any_eq_true.mp hknown
          refine Nat.lt_of_lt_of_le
            (List.length_filter_lt_length_iff_exists.mpr ⟨x, hx, ?_⟩) (hlen hA)
          simpa using hkey
        · exact (List.length_filter_le _ _).trans_lt hroom
      rw [List.length_append, List.length_singleton]
      exact hplace
    · intro x hx
      rcases List.mem_append.mp hx with hx | hx
      · exact hall x (List.mem_of_mem_filter hx)
      · rw [List.mem_singleton.mp hx]
        exact ⟨he.key, he.value⟩
  · exact ⟨hlen, hall⟩

end Db.Capped

/-! ## The lock of the memory -/

/-- What the advisory lock protects while everybody names the session by the same text. -/
def Row.remembered : Row → Db → List MemoryEntry
  | .memory s _, d => d.memoryOf s
  | _, _ => []

def memoryRegions : Regions Db Row Write where
  Content r := r.Content × List MemoryEntry
  content r d := (r.content d, r.remembered d)
  congr := by
    intro r d d' w h
    obtain ⟨h₁, h₂⟩ := Prod.mk.inj h
    refine Prod.ext (storeRegions.congr w h₁) ?_
    cases r with
    | memory s =>
      simp only [Row.remembered] at h₂
      simp [Row.remembered, h₂]
    | _ => rfl

namespace System

open Loop Protocol

/-! ## Who writes the memory -/

/-- The bodies of a process, by what they do to the session memory. -/
inductive Remembering (cfg : Settings) (p : Proc) : Tx Proc → Prop where
  | free {x : Tx Proc} : MemoryFree x → Remembering cfg p x
  | foreign {ops : List ForeignOp} {q : Proc} :
      Remembering cfg p (Tx.forEach ops ForeignOp.tx >>= fun _ => pure q)
  | call {op : ForeignOp} {q : Proc} : Remembering cfg p (op.tx >>= fun _ => pure q)
  | commit {d : Delivery} {step : StepResult} {final : String} {q : Proc} :
      p = .committing d step final →
      Remembering cfg p
        (commitOutcome cfg d.job d.attempt d.env step d.recorder final >>= fun _ => pure q)

section
variable {cfg : Settings} {p : Proc}

theorem body_remembers {i : Input} {x : Tx Proc} (h : body cfg p i = some x) :
    Remembering cfg p x := by
  have hbuilt := MemoryFree.built
  cases body_writing h with
  | ordinary hx => exact .free (.of_ordinary hx)
  | close =>
    exact .free (hbuilt.bind (Tx.Only.tryCloseWait fun _ => Write.remembers_everyday) fun _ =>
      hbuilt.pure _)
  | start =>
    exact .free (hbuilt.bind (hbuilt.startRun (Tx.Only.runs_create rfl)) fun _ => hbuilt.pure _)
  | create =>
    exact .free (hbuilt.bind (hbuilt.spawnChildTx (Tx.Only.runs_create rfl)) fun _ => hbuilt.pure _)
  | foreign => exact .foreign
  | call => exact .call
  | commit hp => exact .commit hp

end

/-! ## One text for a session -/

/-- The memories that a transaction in flight has locked, with the texts that name them. -/
def memoryLocks (sl : Slot Db Row Write Err Input Proc) : List (SessionID × String) :=
  sl.locks.filterMap fun
    | .memory s text => some (s, text)
    | _ => none

/-- A transaction commits while no other one holds the lock of a session's memory under another
    text than it does itself. -/
def spelledAlike (c : Conf) : Action Input Nat Proc → Bool
  | .commit j | .lose j =>
    (c.procs[j]?).all fun sl => c.procs.zipIdx.all fun (other, m) =>
      decide (m = j) || (memoryLocks sl).all fun x => (memoryLocks other).all fun y =>
        decide (x.1 = y.1 → x.2 = y.2)
  | _ => true

/-- What a statement sees where all locks on one memory have one text. -/
abbrev MemorySeen (cfg : Settings) : List Row → Db → Db → Prop :=
  memoryRegions.Sees fun d' d => Integrity cfg d' ∧ d'.Extends d

section
variable {cfg : Settings} {Ok : Conf → Action Input Nat Proc → Prop} {log ws : List Write}
  {c c' : Conf} {a : Action Input Nat Proc} {j m : Nat}
  {sl other : Slot Db Row Write Err Input Proc} {s : SessionID} {text text' : String}

instance (cfg : Settings) : Sharpens cfg (MemorySeen cfg) :=
  ⟨fun h => ⟨fun r hr => congrArg Prod.fst (h.1 r hr), h.2⟩⟩

theorem holdsMemory : Tx.HoldsMemory (MemorySeen cfg) :=
  fun hsee hr ws => congrArg Prod.snd (hsee.1.content hr ws)

theorem same_text (h : spelledAlike c a = true) (ha : a = .commit j ∨ a = .lose j)
    (hj : c.procs[j]? = some sl) (hm : c.procs[m]? = some other) (hne : m ≠ j)
    (hs : Row.memory s text ∈ sl.locks) (hs' : Row.memory s text' ∈ other.locks) : text = text' := by
  have hall : (c.procs.zipIdx.all fun (other, m) =>
      decide (m = j) || (memoryLocks sl).all fun x => (memoryLocks other).all fun y =>
        decide (x.1 = y.1 → x.2 = y.2)) = true := by
    rcases ha with rfl | rfl <;> simpa [spelledAlike, hj] using h
  have hother := List.all_eq_true.mp hall (other, m) (List.mem_zipIdx_iff_getElem?.mpr hm)
  simp only [hne, decide_false, Bool.false_or, List.all_eq_true, decide_eq_true_eq] at hother
  exact hother (s, text) (List.mem_filterMap.mpr ⟨_, hs, rfl⟩) (s, text')
    (List.mem_filterMap.mpr ⟨_, hs', rfl⟩) rfl

/-- A commit leaves a memory alone that another transaction has locked: the two would have
    locked it under one text. -/
theorem memory_keptBy {Past : Db → Db → Prop} (h : spelledAlike c a = true)
    (hexp : (app cfg).machine.Explained memoryRegions Past c) : Machine.KeptBy memoryRegions c a := by
  intro j p p' i s ha hj m other hne hm r hr
  obtain ⟨prog, hbody, hreach⟩ := hexp.reached hj
  have hruns : prog.Runs (memoryRegions.Sees Past) c.db .empty (.ok p') s := hreach.runs ⟨rfl, rfl⟩
  have hfree : r ∉ s.locks := hexp.disjoint hne hm hj r hr
  refine Prod.ext (App.isolated _ _ hbody hruns r hfree) ?_
  cases r with
  | memory ses text =>
    obtain ⟨x, -, rfl⟩ := App.machine_body.mp hbody
    have hlocks := x.guarded.locks hruns (by simp)
    have hother : ∀ {e text'}, Row.memory e text' ∈ s.locks → ses ≠ e := by
      rintro e text' hlock rfl
      obtain rfl := same_text h ha hj hm hne hlock hr
      exact hfree hlock
    refine (applyAll_same (f := fun d : Db => d.memoryOf ses) fun w hw d => ?_).symm
    rw [tables_apply, Db.memoryOf_apply]
    cases w with
    | setMemory e text' =>
      exact if_neg (hother (hlocks _ hw (.memory e.sessionID text') (by simp [Write.rows])))
    | deleteMemory ses' key text' =>
      exact if_neg (hother (hlocks _ hw (.memory ses' text') (by simp [Write.rows])))
    | _ => rfl
  | _ => rfl

theorem serial_memory (hOk : ∀ c a, Ok c a → spelledAlike c a = true) (hrun : RunOf cfg Ok log c)
    (hs : (app cfg).machine.Step c a ws c') : (ws = [] ∧ c'.world = c.world) ∨
      (app cfg).machine.Serial (MemorySeen cfg) c.world a ws c'.world := by
  have hrest : AtRest boot := by simp [AtRest, boot]
  have henv : (app cfg).machine.EnvOutside memoryRegions :=
    fun v d r => Prod.ext (App.envOutside v d r) (by cases r <;> rfl)
  exact hs.serial (Machine.Run.explained (.of_idle hrest) henv
    (fun _ hok hexp => memory_keptBy (hOk _ _ hok) hexp)
    (fun hrun => ⟨(run_sound hrun).1.integrity, .refl _⟩)
    (fun _ _ hs h => ⟨h.1, h.2.trans (App.step_extends_db hs)⟩) hrun)

end

/-! ## The caps hold -/

/-- The caps hold after what a transaction has written, and each value that it stored is
    within them. -/
structure Caps (A : Sight) (d : Db) (s : Local Row Write) : Prop where
  capped : (Tx.view d s).Capped A
  valid : ∀ e text, .setMemory e text ∈ s.writes → e.Valid

section
variable {cfg : Settings} {A : Sight} {d : Db} {st s : Local Row Write} {payload : EventPayload}
  {ses : SessionID} {actor : Actor} {t : TenantID}

theorem Caps.extend (h : Caps A d st) {ws : List Write} (hs : s.writes = st.writes ++ ws)
    (hc : (applyAll (Tx.view d st) ws).Capped A)
    (hv : ∀ e text, .setMemory e text ∈ ws → e.Valid) : Caps A d s := by
  refine ⟨?_, fun e text he => ?_⟩
  · rw [Tx.view, hs, applyAll_append]
    exact hc
  · rw [hs] at he
    exact (List.mem_append.mp he).elim (h.valid e text) (hv e text)

theorem Caps.same (h : Caps A d st) (hs : s.writes = st.writes) : Caps A d s := by
  refine h.extend (s := s) (hs.trans (List.append_nil _).symm) h.capped fun e _ he => ?_
  cases he

theorem Caps.others (h : Caps A d st) {ws : List Write} (hs : s.writes = st.writes ++ ws)
    (hws : ∀ w ∈ ws, (∀ e text, w ≠ .setMemory e text) ∧
      ∀ s key text, w ≠ .deleteMemory s key text) : Caps A d s := by
  refine h.extend hs (applyAll_keeps ?_ h.capped) fun e text he => absurd rfl ((hws _ he).1 e text)
  exact fun w hw _ hd => Db.Capped.other hd (hws w hw).1 (hws w hw).2

theorem caps_free : FreeClosed (Caps A d) := by
  refine fun st s ws h hs hws => h.others hs fun w hw => ⟨?_, ?_⟩
  · rintro e text rfl
    cases hws _ hw
  · rintro s' key text rfl
    cases hws _ hw

theorem wp_append_caps
    (h : Caps A d st) : Tx.wp A d (Events.append t ses actor payload) st fun _ => Caps A d := by
  have hemits : (Events.append t ses actor payload).prog.Emits fun w =>
      (∀ e text, w ≠ .setMemory e text) ∧ ∀ s key text, w ≠ .deleteMemory s key text :=
    Events.append_emits (by simp) (by simp)
  refine Tx.wp_mono hemits.wp ?_
  rintro _ s ⟨ws, hs, hws⟩
  exact h.others hs hws

theorem wp_appended_caps
    (h : Caps A d st) : Tx.wp A d (do let _ ← Events.append t ses actor payload; pure ()) st
      fun _ => Caps A d := Tx.wp_then_pure (wp_append_caps h)

/-- `Set`, followed by an event: what the API, the memory tool and the hook do. -/
theorem wp_set_caps {t' : TenantID} {e : MemoryEntry} {text : String} (h : Caps A d st) :
    Tx.wp A d (do Memory.set t e text; let _ ← Events.append t' ses actor payload; pure ()) st
      fun _ => Caps A d := by
  rw [Tx.wp_bind]
  refine Tx.wp_memory_set (fun _ s hs => h.same hs) ?_
  intro hstore s hs
  refine wp_appended_caps (h.extend hs (Db.Capped.set h.capped hstore text) fun e' _ he' => ?_)
  cases List.mem_singleton.mp he'
  exact ⟨hstore.key, hstore.value⟩

theorem wp_foreign_caps (op : ForeignOp) (h : Caps A d st) :
    Tx.wp A d op.tx st fun _ => Caps A d := by
  cases op with
  | note | say | annotate => exact wp_appended_caps h
  | remember => exact wp_set_caps h
  | forget t ses key text =>
    dsimp only [ForeignOp.tx]
    rw [Tx.wp_bind]
    refine Tx.wp_memory_delete (fun _ s hs => h.same hs) fun s hs => ?_
    exact wp_appended_caps (h.extend hs (Db.Capped.delete h.capped ses key text) (by simp))

/-- Whatever a process commits, it keeps the caps. -/
theorem Remembering.caps (hA : Tx.Respects A) {p p' : Proc} {x : Tx Proc}
    (hx : Remembering cfg p x) (h : d.Capped A) (hruns : x.prog.Runs A d .empty (.ok p') s) :
    Caps A d s := by
  have h₀ : Caps A d .empty := ⟨h, by simp⟩
  have hwp : Tx.wp A d x .empty fun _ => Caps A d := by
    cases hx with
    | free hfree => exact hfree.keeps caps_free h₀
    | foreign =>
      exact Tx.wp_then_pure (Tx.wp_forEach_keeps (fun op _ _ hcaps => wp_foreign_caps op hcaps) h₀)
    | call => exact Tx.wp_then_pure (wp_foreign_caps _ h₀)
    | commit =>
      exact Tx.wp_then_pure (wp_commitOutcome_memory hA caps_free h₀ fun _ _ _ _ _ hcaps =>
        wp_set_caps hcaps)
  exact hwp _ _ hruns

theorem run_caps [Sharpens cfg A] {Ok : Conf → Action Input Nat Proc → Prop} {log : List Write}
    {c : Conf} (hserial : ∀ {log ws c a c'}, RunOf cfg Ok log c → (app cfg).machine.Step c a ws c' →
      (ws = [] ∧ c'.world = c.world) ∨ (app cfg).machine.Serial A c.world a ws c'.world)
    (hrun : RunOf cfg Ok log c) :
    c.db.Capped A ∧ ∀ e text, .setMemory e text ∈ log → e.Valid := by
  refine run_keeps_body (A := A)
    (K := fun log d => d.Capped A ∧
      ∀ (e : MemoryEntry) (text : String), Write.setMemory e text ∈ log → e.Valid)
    hserial (fun _ _ _ h => h) ?_ ⟨.empty, by simp⟩ hrun
  rintro c log a j p p' i x s _ _ _ hb hruns ⟨hcapped, hvalid⟩
  have hcaps := (body_remembers hb).caps (respects cfg A) hcapped hruns
  refine ⟨hcaps.capped, fun e text he => ?_⟩
  exact (List.mem_append.mp he).elim (hvalid e text) (hcaps.valid e text)

end

/-- In every configuration each key in the memory of a session is a sequence of at most 256
    bytes of non-empty segments over `[A-Za-z0-9_-]` separated by dots, and every value that was
    ever stored had at most 65536 bytes. Where no transaction commits while another one holds
    the lock of the same memory under another text, each session has at most 200 keys. -/
theorem memory_within_caps (cfg : Settings) :
    (∀ log c, (app cfg).machine.Reaches boot log c →
      (∀ s, ∀ e ∈ c.db.memoryOf s, e.key.utf8ByteSize ≤ 256 ∧ Memory.Dotted e.key.toList) ∧
      ∀ e text, .setMemory e text ∈ log → e.value.utf8ByteSize ≤ 65536) ∧
    ∀ log c, (app cfg).machine.Run (fun c a => spelledAlike c a = true) boot log c →
      ∀ s, (c.db.memoryOf s).length ≤ 200 := by
  refine ⟨fun log c hrun => ?_, fun log c hrun s => ?_⟩
  · obtain ⟨hcapped, hvalid⟩ := run_caps (A := Seen cfg) (fun hrun hs => (run_sound hrun).2 hs) hrun
    refine ⟨fun s e he => ?_, fun e text he => (hvalid e text he).2⟩
    exact Memory.validKey_grammar ((hcapped s).2 e he).1
  · have hcapped := (run_caps (serial_memory fun _ _ h => h) hrun).1
    exact (hcapped s).1 holdsMemory

/-- A user stores a key in the session of the run. Process 2 is the request. -/
def takeNote : Schedule :=
  startMain ++ [.act (.spawn (.foreign [.remember "tenant"
    { sessionID := "session", key := "notes.first", value := "1", updatedBy := actorSystem }
    "session" actorSystem])), .tx 2 .go]

theorem memory_within_caps_note :
    ∃ log c, (app sample).machine.Run (fun c a => spelledAlike c a = true) boot log c ∧
      (c.db.memoryOf "session").map MemoryEntry.key = ["notes.first"] ∧
      (∀ s, (c.db.memoryOf s).length ≤ 200 ∧
        ∀ e ∈ c.db.memoryOf s, e.key.utf8ByteSize ≤ 256 ∧ Memory.Dotted e.key.toList) ∧
      ∀ e text, .setMemory e text ∈ log → e.value.utf8ByteSize ≤ 65536 := by
  have hplay : ((app sample).machine.play spelledAlike boot takeNote).map
      (fun c => (c.db.memoryOf "session").map MemoryEntry.key) = some ["notes.first"] := by
    decide +kernel
  obtain ⟨c, hc, hkeys⟩ := Option.map_eq_some_iff.mp hplay
  obtain ⟨log, hrun⟩ := Machine.play_run hc
  obtain ⟨hall, hcap⟩ := memory_within_caps sample
  obtain ⟨hkey, hvalue⟩ := hall log c (hrun.mono fun _ _ _ => trivial)
  exact ⟨log, c, hrun, hkeys, fun s => ⟨hcap log c hrun s, hkey s⟩, hvalue⟩

/-- An entry of the session. -/
def entryOf (key : String) : MemoryEntry :=
  { sessionID := "session", key := key, value := "", updatedBy := actorSystem }

/-- A request that stores a key, and names the session by a text. -/
def storing (key text : String) : Proc :=
  .foreign [.remember "tenant" (entryOf key) text actorSystem]

/-- A text of two letters. -/
def keyOf (i : Nat) : String := String.ofList [Char.ofNat (97 + i / 16), Char.ofNat (97 + i % 16)]

/-- A session with `n` keys, each stored by a request of its own. -/
def noted (n : Nat) : Conf where
  db := {
    sessions := [{ id := "session", tenantID := "tenant", lastSeq := n }]
    memory := (List.range n).map fun i => entryOf (keyOf i)
    events := (List.range n).map fun i =>
      ⟨"session", i + 1, actorSystem, .memorySet (keyOf i) actorSystem ""⟩ }
  procs := List.replicate (n + 1) (.idle .done)

theorem keyOf_ne {i n : Nat} (h : i < n) (hn : n < 199) : keyOf i ≠ keyOf n := by
  intro heq
  have hchars : ∀ m < 16, (Char.ofNat (97 + m)).toNat = 97 + m := by decide
  simp only [keyOf, String.ofList_inj, List.cons.injEq] at heq
  have h₁ := congrArg Char.toNat heq.1
  have h₂ := congrArg Char.toNat heq.2.1
  rw [hchars _ (by omega), hchars _ (by omega)] at h₁ h₂
  omega

/-- One more key is stored, as there are fewer than 200. -/
theorem perform_remember {n : Nat} (hn : n < 199) :
    (ForeignOp.tx (.remember "tenant" (entryOf (keyOf n)) "session" actorSystem)).prog.perform
      (noted n).db = (.ok (), (noted (n + 1)).db) := by
  have hfresh : ∀ x ∈ (noted n).db.memory, x.key ≠ keyOf n := by
    simp only [noted, List.mem_map, List.mem_range]
    rintro _ ⟨i, hi, rfl⟩
    exact keyOf_ne hi hn
  have hlength : ((noted n).db.memoryOf "session").length < 200 := by
    refine (List.length_filter_le _ _).trans_lt ?_
    simp [noted]
    omega
  have hown : ((noted n).db.ownSession "tenant" (entryOf (keyOf n)).sessionID).isSome = true := rfl
  have hvalid : ∀ i < 199, Memory.validKey (keyOf i) = true := by decide +kernel
  have hset := @Tx.perform_memory_set (noted n).db "tenant" (entryOf (keyOf n)) "session"
  rw [if_neg (by simp [entryOf, hvalid n hn]), if_neg (by simp [entryOf]),
    if_neg (by simp [entryOf, hlength]), if_pos hown] at hset
  have hkept : (noted n).db.memory.filter (fun x => ¬(x.sessionID = "session" ∧ x.key = keyOf n)) =
      (noted n).db.memory := List.filter_eq_self.mpr fun x hx => by simp [hfresh x hx]
  refine (Tx.perform_bind_ok hset).trans ?_
  have hdb : (noted (n + 1)).db = { (noted n).db with
      sessions := [{ id := "session", tenantID := "tenant", lastSeq := n + 1 }]
      memory := (noted n).db.memory ++ [entryOf (keyOf n)]
      events := (noted n).db.events ++
        [⟨"session", n + 1, actorSystem, .memorySet (keyOf n) actorSystem ""⟩] } := by
    simp [noted, List.range_succ]
  rw [hdb, ← hkept]
  rfl

/-- The requests come one after the other, so nobody disturbs them. -/
theorem reaches_noted {n : Nat} (hn : n ≤ 199) :
    ∃ log, (app sample).machine.Reaches boot log (noted n) := by
  induction n with
  | zero =>
    let create : Schedule := [.act (.spawn (.createSession "tenant" "session")), .tx 0 .go]
    have hplay : played create = some (noted 0) := rfl
    exact Machine.play_reaches hplay
  | succ n ih =>
    obtain ⟨log, hrun⟩ := ih (by omega)
    let c : Conf := ⟨(noted n).db, (noted n).procs ++ [.idle (storing (keyOf n) "session")]⟩
    have hspawn : (app sample).machine.Reaches boot (log ++ []) c := hrun.step trivial (.spawn rfl)
    have hidle : ∀ sl ∈ c.procs, sl.locks = [] := by simp [c, noted]
    have hj : c.procs[n + 1]? = some (.idle (storing (keyOf n) "session")) := by simp [c, noted]
    have hperform := Tx.perform_bind_ok (f := fun _ => Tx.pure Proc.done)
      (Tx.perform_bind_ok (f := fun _ => Tx.pure ()) (perform_remember hn))
    have hbody : (app sample).machine.body (storing (keyOf n) "session") .go = some _ := rfl
    obtain ⟨log', hrun'⟩ := Machine.reaches_perform hidle hj hbody (congrArg Prod.fst hperform)
    have hprocs : c.procs.set (n + 1) (.idle .done) = (noted (n + 1)).procs := by
      simp [c, noted, List.replicate_succ']
    rw [hprocs] at hrun'
    have hdb := congrArg Prod.snd hperform
    exact ⟨_, hspawn.trans (hdb ▸ hrun')⟩

/-- There are 199 keys when two requests come that name the session by different texts. Each
    counts the keys before the other one commits. -/
def overfill : Schedule :=
  [.act (.spawn (storing "y" "session")), .act (.spawn (storing "z" "SESSION")),
    .act (.begin 200 .go), .act (.exec 200), .act (.exec 200), .tx 201 .go,
    .act (.exec 200), .act (.exec 200), .act (.exec 200), .act (.exec 200), .act (.commit 200)]

theorem memory_within_caps_overfull :
    ∃ log c, (app sample).machine.Reaches boot log c ∧
      (c.db.memoryOf "session").length = 201 := by
  have hplay : ((app sample).machine.play (fun _ _ => true) (noted 199) overfill).map
      (fun c => (c.db.memoryOf "session").length) = some 201 := by decide +kernel
  obtain ⟨c, hc, hkeys⟩ := Option.map_eq_some_iff.mp hplay
  obtain ⟨log, hfill⟩ := reaches_noted (n := 199) le_rfl
  obtain ⟨log', hrun⟩ := Machine.play_reaches hc
  exact ⟨log ++ log', c, hfill.trans hrun, hkeys⟩

end System

/-! ## Keys stored and keys logged -/

/-- What an event does to the set of keys that a reader of the log keeps. -/
def EventPayload.replay (keys : Finset String) : EventPayload → Finset String
  | .memorySet key _ _ => insert key keys
  | .memoryDeleted key _ => keys.erase key
  | _ => keys

theorem EventPayload.replay_of_not_remembers {p : EventPayload} (h : p.remembers = false)
    (keys : Finset String) : p.replay keys = keys := by
  cases p <;> first | rfl | cases h

/-- Read events in the order in which they are given. -/
def replay (es : List Event) : Finset String :=
  es.foldl (fun keys e => e.payload.replay keys) ∅

/-- The keys that the memory events of a session leave, read in the order of their numbers. -/
def Db.loggedKeys (d : Db) (s : SessionID) : Finset String :=
  replay ((d.eventsOf s).insertionSort fun e e' => e.seq ≤ e'.seq)

/-- The keys stored for a session. -/
def Db.keysOf (d : Db) (s : SessionID) : Finset String :=
  ((d.memoryOf s).map MemoryEntry.key).toFinset

namespace Write

def onKeys (s : SessionID) (keys : Finset String) : Write → Finset String
  | .setMemory e _ => if s = e.sessionID then insert e.key keys else keys
  | .deleteMemory s' key _ => if s = s' then keys.erase key else keys
  | _ => keys

def onReplay (s : SessionID) (keys : Finset String) : Write → Finset String
  | .insertEvent e => if s = e.sessionID then e.payload.replay keys else keys
  | _ => keys

end Write

namespace Db

variable {d : Db} {w : Write}

/-- The events were inserted in the order of their numbers. -/
theorem loggedKeys_eq_replay (h : d.Gapless) (s : SessionID) :
    d.loggedKeys s = replay (d.eventsOf s) := by
  have hsorted : (d.eventsOf s).Pairwise fun e e' => e.seq ≤ e'.seq := by
    refine List.pairwise_map.mp ?_
    rw [show (d.eventsOf s).map Event.seq = _ from h s]
    exact List.pairwise_le_range' 1
  rw [loggedKeys, List.Pairwise.insertionSort_eq hsorted]

theorem keys_filter (es : List MemoryEntry) (key : String) :
    ((es.filter fun x => x.key ≠ key).map MemoryEntry.key).toFinset =
      (es.map MemoryEntry.key).toFinset.erase key := by
  ext k
  simp only [List.mem_toFinset, List.mem_map, List.mem_filter, Finset.mem_erase, decide_eq_true_eq]
  constructor
  · rintro ⟨e, ⟨he, hne⟩, rfl⟩
    exact ⟨hne, e, he, rfl⟩
  · rintro ⟨hne, e, he, rfl⟩
    exact ⟨e, ⟨he, hne⟩, rfl⟩

theorem keysOf_apply (s : SessionID) : (w.apply d).keysOf s = w.onKeys s (d.keysOf s) := by
  unfold keysOf
  rw [memoryOf_apply]
  cases w with
  | setMemory e =>
    simp only [Write.onMemory, Write.onKeys]
    split
    · rw [List.map_append, List.toFinset_append, keys_filter]
      ext key
      by_cases hkey : key = e.key <;> simp [hkey]
    · rfl
  | deleteMemory =>
    simp only [Write.onMemory, Write.onKeys]
    split
    · exact keys_filter _ _
    · rfl
  | _ => rfl

theorem replay_apply (s : SessionID) :
    replay ((w.apply d).eventsOf s) = w.onReplay s (replay (d.eventsOf s)) := by
  rw [eventsOf_apply]
  cases w with
  | insertEvent =>
    simp only [Write.onEvents, Write.onReplay]
    split
    · simp [replay]
    · rfl
  | _ => rfl

/-- The memory events of every session leave exactly the keys that are stored. -/
def Mirrored (d : Db) : Prop := ∀ s, replay (d.eventsOf s) = d.keysOf s

theorem Mirrored.empty : Mirrored {} := fun _ => rfl

theorem Mirrored.free (h : d.Mirrored) (hw : w.remembers = false) : (w.apply d).Mirrored := by
  intro s
  rw [replay_apply, keysOf_apply]
  cases w with
  | insertEvent =>
    simp only [Write.onReplay, Write.onKeys, EventPayload.replay_of_not_remembers hw]
    split <;> exact h s
  | setMemory | deleteMemory => cases hw
  | _ => exact h s

theorem Mirrored.set (h : d.Mirrored) (e : MemoryEntry) (q : Nat) (actor by_ : Actor)
    (text value : String) : (applyAll d [Write.setMemory e text, .bumpSeq e.sessionID,
      .insertEvent ⟨e.sessionID, q, actor, .memorySet e.key by_ value⟩]).Mirrored := by
  intro s
  simp only [applyAll_cons, applyAll_nil, tables_apply, replay_apply, keysOf_apply, Write.onReplay,
    Write.onKeys, EventPayload.replay, h s]

theorem Mirrored.delete (h : d.Mirrored) (ses : SessionID) (key text : String) (q : Nat)
    (actor by_ : Actor) : (applyAll d [Write.deleteMemory ses key text, .bumpSeq ses,
      .insertEvent ⟨ses, q, actor, .memoryDeleted key by_⟩]).Mirrored := by
  intro s
  simp only [applyAll_cons, applyAll_nil, tables_apply, replay_apply, keysOf_apply, Write.onReplay,
    Write.onKeys, EventPayload.replay, h s]

/-- To overwrite a stored key without an event does no harm. -/
theorem Mirrored.overwrite (h : d.Mirrored) {e : MemoryEntry} (text : String)
    (hknown : (d.memoryOf e.sessionID).any (fun x => x.key = e.key) = true) :
    ((Write.setMemory e text).apply d).Mirrored := by
  intro s
  rw [replay_apply, keysOf_apply]
  simp only [Write.onReplay, Write.onKeys, h s]
  split
  · rename_i hs
    subst hs
    refine (Finset.insert_eq_of_mem ?_).symm
    simpa [keysOf] using hknown
  · rfl

/-- Writes outside the session memory leave its entries as they are. -/
theorem memoryOf_applyAll_free {ws : List Write} (h : ∀ w ∈ ws, w.remembers = false)
    (s : SessionID) : (applyAll d ws).memoryOf s = d.memoryOf s := by
  refine applyAll_same (f := fun e : Db => e.memoryOf s) fun w hw e => ?_
  have hfree := h w hw
  rw [tables_apply, memoryOf_apply]
  cases w with
  | setMemory | deleteMemory => cases hfree
  | _ => rfl

end Db

namespace System

open Loop Protocol

section
variable {cfg : Settings} {A : Sight} {d : Db} {st s : Local Row Write}

/-- The cost-accounting hook adds no key: it is stored already, or the memory is full. -/
def costKeySettled (d : Db) (s : SessionID) : Bool :=
  (d.memoryOf s).any (fun e => e.key = "system.cost.latest") || decide (200 ≤ (d.memoryOf s).length)

theorem mirrored_free : FreeClosed fun s => (Tx.view d s).Mirrored := by
  intro st s ws h hs hws
  rw [Tx.view, hs, applyAll_append]
  exact applyAll_keeps (fun w hw _ hd => Db.Mirrored.free hd (hws w hw)) h

theorem wp_foreign_mirrored (hA : Tx.Respects A) (op : ForeignOp) (h : (Tx.view d st).Mirrored) :
    Tx.wp A d op.tx st
      (Prog.either (fun _ s => (Tx.view d s).Mirrored) fun _ _ => True) := by
  have happend : ∀ {t : TenantID} {ses : SessionID} {actor : Actor} {payload : EventPayload}
      {s : Local Row Write}, (∀ q, (applyAll (Tx.view d s)
        [Write.bumpSeq ses, .insertEvent ⟨ses, q, actor, payload⟩]).Mirrored) →
      Tx.wp A d (do let _ ← Events.append t ses actor payload; pure ()) s
        (Prog.either (fun _ s => (Tx.view d s).Mirrored) fun _ _ => True) := by
    intro t ses actor payload s hs
    rw [Tx.wp_bind]
    refine Tx.wp_append hA (fun _ _ _ => trivial) fun x _ _ => ?_
    rw [Prog.either_ok, Tx.wp_pure', Prog.either_ok, Tx.view_after]
    exact hs _
  have hroutine : ∀ {ses : SessionID} {actor : Actor} {payload : EventPayload},
      payload.remembers = false → ∀ q, (applyAll (Tx.view d st)
        [Write.bumpSeq ses, .insertEvent ⟨ses, q, actor, payload⟩]).Mirrored := by
    intro ses actor payload hp q
    refine applyAll_keeps (fun w hw _ hd => Db.Mirrored.free hd ?_) h
    rcases List.mem_cons.mp hw with rfl | hw
    · rfl
    · cases List.mem_singleton.mp hw
      exact hp
  cases op with
  | note | say | annotate => exact happend (hroutine rfl)
  | remember t e text =>
    dsimp only [ForeignOp.tx]
    rw [Tx.wp_bind]
    refine Tx.wp_memory_set (fun _ _ _ => trivial) fun _ s hs => happend fun q => ?_
    rw [Tx.view, hs, applyAll_append]
    exact Db.Mirrored.set h e q _ _ text _
  | forget t ses key text =>
    dsimp only [ForeignOp.tx]
    rw [Tx.wp_bind]
    refine Tx.wp_memory_delete (fun _ _ _ => trivial) fun s hs => happend fun q => ?_
    rw [Tx.view, hs, applyAll_append]
    exact Db.Mirrored.delete h ses key text q _ _

/-- The hook where it adds no key. -/
theorem wp_hook_mirrored (hA : Tx.HoldsMemory A) {run : AgentRun} {record : RunStep}
    (hsettled : costKeySettled d run.sessionID = true) (hfree : ∀ w ∈ st.writes, w.remembers = false)
    (h : (Tx.view d st).Mirrored) :
    Tx.wp A d (accountStepCost run record) st fun _ s => (Tx.view d s).Mirrored := by
  unfold accountStepCost
  rw [Tx.wp_bind]
  refine Tx.wp_memory_set (fun _ s hs => ?_) fun hstore s hs => ?_
  · rw [Prog.either_error, Tx.view, hs]
    exact h
  have hknown : ((Tx.view d st).memoryOf run.sessionID).any
      (fun x => x.key = "system.cost.latest") = true := by
    rcases hstore.room hA with hknown | hroom
    · exact hknown
    · rw [Tx.view, Db.memoryOf_applyAll_free hfree] at hroom ⊢
      simpa [costKeySettled, Nat.not_le.mpr hroom] using hsettled
  refine (MemoryFree.of_ordinary (.bind (.append rfl) fun _ => .pure _)).keeps mirrored_free ?_
  rw [Tx.view, hs, applyAll_append]
  exact Db.Mirrored.overwrite h run.sessionID hknown

/-- A process keeps the mirror, if the hook of a step that it commits adds no key. -/
theorem Remembering.mirrored (hA : Tx.Respects A) (hmem : Tx.HoldsMemory A) {p p' : Proc}
    {x : Tx Proc}
    (hx : Remembering cfg p x) (h : d.Mirrored)
    (hsettled : ∀ dl step final, p = .committing dl step final →
      ∀ run, d.run? dl.job.runID = some run → costKeySettled d run.sessionID = true)
    (hruns : x.prog.Runs A d .empty (.ok p') s) : (applyAll d s.writes).Mirrored := by
  have h₀ : (Tx.view d .empty).Mirrored := h
  have hwp : Tx.wp A d x .empty
      (Prog.either (fun _ s => (Tx.view d s).Mirrored) fun _ _ => True) := by
    have hends : ∀ {q : Proc} {r : Except Err Unit} {s : Local Row Write},
        Prog.either (fun _ s => (Tx.view d s).Mirrored) (fun _ _ => True) r s →
        Prog.either (fun (_ : Unit) s' => Tx.wp A d (pure q) s'
            (Prog.either (fun _ s => (Tx.view d s).Mirrored) fun _ _ => True))
          (fun _ _ => True) r s := by
      rintro q (e | _) s hs
      · trivial
      · exact Tx.wp_pure'.mpr hs
    cases hx with
    | free hfree =>
      refine Tx.wp_mono (hfree.keeps mirrored_free h₀) ?_
      rintro (e | _) s hs
      · trivial
      · exact hs
    | foreign =>
      rw [Tx.wp_bind]
      refine Tx.wp_mono (Tx.wp_forEach (I := fun s => (Tx.view d s).Mirrored)
        (fun op _ _ hs => wp_foreign_mirrored hA op hs) h₀) ?_
      exact fun _ _ hs => hends hs
    | call =>
      rw [Tx.wp_bind]
      exact Tx.wp_mono (wp_foreign_mirrored hA _ h₀) fun _ _ hs => hends hs
    | @commit dl step final q hp =>
      refine Tx.wp_mono (Tx.wp_then_pure (wp_commitOutcome_memory hA mirrored_free h₀
        fun run record s hrun hfree hs => ?_)) ?_
      · exact wp_hook_mirrored hmem (hsettled dl step final hp run hrun) hfree hs
      · rintro (e | _) s hs
        · trivial
        · exact hs
  exact hwp _ _ hruns

end

/-- Where the step that commits has a hook that would store a key, the key is stored
    already, or the session memory is full. -/
def hookSettled (c : Conf) : Action Input Nat Proc → Bool
  | .commit j | .lose j =>
    match (c.procs[j]?).bind Slot.proc with
    | some (.committing d _ _) =>
      (c.db.run? d.job.runID).all fun x => costKeySettled c.db x.sessionID
    | _ => true
  | _ => true

theorem settled_of_hookSettled {c : Conf}
    {a : Action Input Nat Proc} {j : Nat} {dl : Delivery} {step : StepResult} {final : String}
    (h : hookSettled c a = true) (ha : a = .commit j ∨ a = .lose j)
    (hj : c.world.procs[j]? = some (some (.committing dl step final))) {run : AgentRun}
    (hrun : c.db.run? dl.job.runID = some run) : costKeySettled c.db run.sessionID = true := by
  have hproc : (c.procs[j]?).bind Slot.proc = some (.committing dl step final) := by
    rw [Config.world_procs, List.getElem?_map] at hj
    obtain ⟨sl, hsl, hp⟩ := Option.map_eq_some_iff.mp hj
    rw [hsl, Option.bind_some, hp]
  rcases ha with rfl | rfl <;> simpa [hookSettled, hproc, hrun] using h

/-- In a run in which the cost-accounting hook of a committed step adds no key, and all locks on
    one memory have one text, the memory events of each session, read in the order of their
    numbers, leave exactly the keys that are stored. -/
theorem memory_mirrored_by_log (cfg : Settings) {log : List Write}
    {c : Config Db Row Write Err Input Proc}
    (hrun : (app cfg).machine.Run
      (fun c a => hookSettled c a = true ∧ spelledAlike c a = true) boot log c) (s : SessionID) :
    c.db.loggedKeys s = c.db.keysOf s := by
  have hmirrored : c.db.Mirrored := by
    refine run_keeps_body (K := fun _ d => d.Mirrored) (serial_memory fun _ _ h => h.2)
      (fun _ _ _ h => h) ?_ .empty hrun
    intro c _ a j p p' i x s hok ha hj hb hruns h
    refine (body_remembers hb).mirrored (respects cfg (MemorySeen cfg)) holdsMemory h ?_ hruns
    rintro dl step final rfl run hrow
    exact settled_of_hookSettled hok.1 ha hj hrow
  have hgapless : c.db.Gapless :=
    App.gapless (by simp [AtRest, boot]) .empty (hrun.mono fun _ _ _ => trivial)
  rw [Db.loggedKeys_eq_replay hgapless]
  exact hmirrored s

/-- A user stores the key of the hook before the first step commits. -/
def priceNoted : Schedule :=
  startMain ++ [.act (.spawn (.foreign [.remember "tenant"
      { sessionID := "session", key := "system.cost.latest", value := "0", updatedBy := actorSystem }
      "session" actorSystem])), .tx 2 .go] ++
    deliver 3 0 (mainJob 0) [] noMoreWork ++ [.tx 3 .go]

theorem memory_mirrored_by_log_noted :
    ∃ log c, (app sample).machine.Run
        (fun c a => hookSettled c a = true ∧ spelledAlike c a = true) boot log c ∧
      c.db.stateOf mainRun = some .completed ∧ "system.cost.latest" ∈ c.db.keysOf "session" ∧
      c.db.loggedKeys "session" = c.db.keysOf "session" := by
  have hplay : ((app sample).machine.play (fun c a => hookSettled c a && spelledAlike c a) boot
        priceNoted).map
      (fun c => (c.db.stateOf mainRun, decide ("system.cost.latest" ∈ c.db.keysOf "session"))) =
      some (some .completed, true) := by decide +kernel
  obtain ⟨c, hc, heq⟩ := Option.map_eq_some_iff.mp hplay
  obtain ⟨hstate, hkey⟩ := Prod.mk.inj heq
  obtain ⟨log, hrun⟩ := Machine.play_run hc
  have hrun' := hrun.mono fun _ _ hok => Bool.and_eq_true_iff.mp hok
  exact ⟨log, c, hrun', hstate, of_decide_eq_true hkey,
    memory_mirrored_by_log sample hrun' "session"⟩

/-- A run of one step. -/
def oneStep : Schedule := startMain ++ deliver 2 0 (mainJob 0) [] noMoreWork ++ [.tx 2 .go]

/-- After one step the session memory holds the key of the hook, and no event says so. -/
theorem memory_mirrored_by_log_unlogged :
    ∃ log c, (app sample).machine.Reaches boot log c ∧
      "system.cost.latest" ∈ c.db.keysOf "session" ∧
      "system.cost.latest" ∉ c.db.loggedKeys "session" := by
  have hkeys : (played oneStep).map
      (fun c => (decide ("system.cost.latest" ∈ c.db.keysOf "session"),
        decide ("system.cost.latest" ∈ c.db.loggedKeys "session"))) = some (true, false) := by
    decide +kernel
  obtain ⟨log, c, -, hrun, hkeys⟩ := play_boot hkeys
  simp only [Prod.mk.injEq, decide_eq_true_eq,
    decide_eq_false_iff_not] at hkeys
  exact ⟨log, c, hrun, hkeys.1, hkeys.2⟩

end System

end Ultracore
