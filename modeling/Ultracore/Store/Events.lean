-- SUMMARY: Store methods on sessions: the event log and the session memory.
import Mathlib.Data.List.Sort
import Ultracore.Store.Tx

/-!
# Sessions

`Append` is the only writer of the event log: it takes the next number by bumping
`sessions.last_seq`, which locks the session row, and inserts the event under that
number. `pg_notify` is a statement without effect on the tables; what subscribers
do with wakeups is in `Ultracore.Events.Subscription`.
-/

namespace Ultracore

open Txn

/-- The session, if it belongs to the tenant. -/
def Db.ownSession (d : Db) (t : TenantID) (s : SessionID) : Option Session :=
  (d.session? s).filter fun x => x.tenantID = t

theorem Db.ownSession_eq_some {d : Db} {t : TenantID} {s : SessionID} {x : Session} :
    d.ownSession t s = some x ↔ d.session? s = some x ∧ x.tenantID = t := by
  simp [ownSession, Option.filter_eq_some_iff]

namespace Sessions

/-- `Create`: a new session starts with an empty log. -/
def create (t : TenantID) (s : SessionID) : Tx Unit where
  prog := .exec (fun _ => [.session s]) fun v =>
    match v.db.session? s with
    | some _ => (.error .alreadyExists, [])
    | none => (.ok (), [.insertSession { id := s, tenantID := t, lastSeq := 0 }])
  guarded := by
    intro v
    beta_reduce
    cases h : v.db.session? s <;> simp [Write.rows, Prog.Guarded]
  logged := by
    intro v
    beta_reduce
    cases h : v.db.session? s with
    | some => exact ⟨none, .quiet (by simp), rfl⟩
    | none => exact ⟨none, .create rfl h, rfl⟩

/-- `SessionTenant`: which tenant owns a session. -/
def tenant (s : SessionID) : Tx TenantID :=
  .lockRead [] fun d =>
    match d.session? s with
    | some x => .ok x.tenantID
    | none => .error .notFound

end Sessions

namespace Events

/-- `Append`: assign the next number of the session's log to an event, store the
    event and notify subscribers. -/
def append (t : TenantID) (s : SessionID) (actor : Actor) (payload : EventPayload) : Tx Nat where
  prog := .stmt
    (fun v => match v.db.ownSession t s with
      | some _ => [.session s]
      | none => [])
    (fun v => match v.db.ownSession t s with
      | some _ => [.bumpSeq s]
      | none => [])
    (fun v => match v.db.ownSession t s with
      | none => .fail .notFound
      | some x =>
        .stmt (fun _ => [.session s])
          (fun _ => [.insertEvent ⟨s, x.lastSeq + 1, actor, payload⟩])
          (fun _ => .stmt (fun _ => []) (fun _ => []) (fun _ => .ret (x.lastSeq + 1))))
  guarded := by
    intro v
    beta_reduce
    cases h : v.db.ownSession t s with
    | none => exact ⟨by simp, trivial⟩
    | some =>
      refine ⟨by simp [Write.rows], ?_⟩
      exact fun _ => ⟨by simp [Write.rows], fun _ => ⟨by simp, trivial⟩⟩
  logged := by
    intro v
    beta_reduce
    cases h : v.db.ownSession t s with
    | none => exact ⟨none, .quiet (by simp), rfl⟩
    | some x =>
      have hx := (Db.ownSession_eq_some.mp h).1
      obtain rfl : x.id = s := Table.lookup_key hx
      refine ⟨_, .bump hx, ?_⟩
      exact fun _ => ⟨_, rfl, rfl, rfl, fun _ => ⟨none, .quiet (by simp), rfl⟩⟩

/-- `Range`: events with a number above `fromSeq`, ascending, at most `limit`. -/
def rangeOf (d : Db) (t : TenantID) (s : SessionID) (fromSeq limit : Nat) : List Event :=
  match d.ownSession t s with
  | none => []
  | some _ =>
    (((d.eventsOf s).filter fun e => fromSeq < e.seq).insertionSort fun e e' => e.seq ≤ e'.seq).take
      (if limit = 0 then 256 else limit)

def range (t : TenantID) (s : SessionID) (fromSeq limit : Nat) : Tx (List Event) :=
  .query fun d => rangeOf d t s fromSeq limit

end Events

namespace Memory

/-- One character of the scan of `validKey`: how long the current segment is. -/
def scanKey (segment : Option Nat) (c : Char) : Option Nat :=
  match segment with
  | none => none
  | some n =>
    if c = '.' then (if n = 0 then none else some 0)
    else if c.isAlphanum || c = '_' || c = '-' then some (n + 1)
    else none

/-- `ValidMemoryKey`: dot-separated non-empty segments over `[A-Za-z0-9_-]`, at
    most 256 bytes. -/
def validKey (key : String) : Bool :=
  if key = "" ∨ key.utf8ByteSize > 256 then false
  else
    match key.toList.foldl scanKey (some 0) with
    | none => false
    | some n => 0 < n

/-- The characters of a segment: `[A-Za-z0-9_-]`. -/
def KeyChar (c : Char) : Prop :=
  ('A' ≤ c ∧ c ≤ 'Z') ∨ ('a' ≤ c ∧ c ≤ 'z') ∨ ('0' ≤ c ∧ c ≤ '9') ∨ c = '_' ∨ c = '-'

/-- A sequence of non-empty segments, separated by dots. -/
def Dotted (cs : List Char) : Prop :=
  ∃ segments, segments ≠ [] ∧ cs = List.intercalate ['.'] segments ∧
    ∀ segment ∈ segments, segment ≠ [] ∧ ∀ c ∈ segment, KeyChar c

theorem foldl_scanKey_none (cs : List Char) : cs.foldl scanKey none = none := by
  induction cs with
  | nil => rfl
  | cons c cs ih => exact ih

theorem keyChar_of_isAlphanum {c : Char} (h : c.isAlphanum || c = '_' || c = '-') : KeyChar c := by
  have hdef : c.isAlphanum = (decide ('A'.val ≤ c.val ∧ c.val ≤ 'Z'.val) ||
      (decide ('a'.val ≤ c.val) && decide (c.val ≤ 'z'.val)) ||
      (decide ('0'.val ≤ c.val) && decide (c.val ≤ '9'.val))) := rfl
  simp only [hdef, Bool.or_eq_true, Bool.and_eq_true, decide_eq_true_eq] at h
  simp only [KeyChar, Char.le_def]
  tauto

/-- A scan that ends inside a segment has read dotted segments. -/
theorem dotted_of_scanKey {cs segment : List Char} {m : Nat} (hm : 0 < m)
    (hseg : ∀ c ∈ segment, KeyChar c) (h : cs.foldl scanKey (some segment.length) = some m) :
    Dotted (segment ++ cs) := by
  induction cs generalizing segment with
  | nil =>
    cases Option.some.inj h
    refine ⟨[segment], by simp, by simp, fun s hs => ?_⟩
    obtain rfl := List.mem_singleton.mp hs
    exact ⟨List.ne_nil_of_length_pos hm, hseg⟩
  | cons c cs ih =>
    rw [List.foldl_cons, scanKey] at h
    split at h
    · -- a dot ends the segment
      rename_i hdot
      subst hdot
      split at h
      · rw [foldl_scanKey_none] at h
        cases h
      rename_i hn
      have hrest : Dotted ([] ++ cs) := ih (by simp) h
      obtain ⟨segments, hne, heq, hall⟩ := hrest
      obtain ⟨first, rest, rfl⟩ := List.exists_cons_of_ne_nil hne
      refine ⟨segment :: first :: rest, by simp, ?_, fun s hs => ?_⟩
      · rw [List.nil_append] at heq
        simp [heq, List.intercalate]
      · rcases List.mem_cons.mp hs with rfl | hs
        · exact ⟨fun hnil => hn (by simp [hnil]), hseg⟩
        · exact hall s hs
    · split at h
      · rename_i hc
        have hsnoc : ∀ c' ∈ segment ++ [c], KeyChar c' := by
          intro c' hc'
          rcases List.mem_append.mp hc' with hc' | hc'
          · exact hseg c' hc'
          · rw [List.mem_singleton.mp hc']
            exact keyChar_of_isAlphanum hc
        simpa using ih hsnoc (by simpa using h)
      · rw [foldl_scanKey_none] at h
        cases h

/-- What `ValidMemoryKey` accepts. -/
theorem validKey_grammar {key : String} (h : validKey key = true) :
    key.utf8ByteSize ≤ 256 ∧ Dotted key.toList := by
  unfold validKey at h
  split at h
  · cases h
  rename_i hsize
  split at h
  · cases h
  rename_i n hscan
  refine ⟨by omega, ?_⟩
  simpa using @dotted_of_scanKey _ [] n (of_decide_eq_true h) (by simp) hscan

/-- The advisory lock of a session's memory. It is taken on the text by which the caller names
    the session, while the rows go by the id that the text is read as. -/
def lock (s : SessionID) (text : String) : Tx Unit := .lockRead [.memory s text] fun _ => .ok ()

/-- `Set`: store a value under a key, at most 200 keys in a session. -/
def set (t : TenantID) (e : MemoryEntry) (text : String) : Tx Unit :=
  if !validKey e.key then
    .throw (.invalid "memory key must be dot-separated alphanumeric segments")
  else if e.value.utf8ByteSize > 65536 then
    .throw (.invalid "memory value exceeds 64KiB")
  else do
    lock e.sessionID text
    let (known, count) ← Tx.query fun d =>
      ((d.memoryOf e.sessionID).any (fun x => x.key = e.key), (d.memoryOf e.sessionID).length)
    if !known && count ≥ 200 then
      .throw (.invalid "session memory limit reached")
    else
      .update (fun _ => [.memory e.sessionID text, .entry e.sessionID e.key])
        (fun v => match v.db.ownSession t e.sessionID with
          | some _ => (.ok (), [.setMemory e text])
          | none => (.error .notFound, []))
        (by intro v; cases v.db.ownSession t e.sessionID <;> simp [Write.rows])
        (by intro v; cases v.db.ownSession t e.sessionID <;> simp [Write.logs])

/-- `Get`: the entry under a key. -/
def get (t : TenantID) (s : SessionID) (key : String) : Tx MemoryEntry :=
  .lockRead [] fun d =>
    match d.ownSession t s, (d.memoryOf s).find? fun x => x.key = key with
    | some _, some e => .ok e
    | _, _ => .error .notFound

/-- `List`: all entries of a session, by key. -/
def list (t : TenantID) (s : SessionID) : Tx (List MemoryEntry) :=
  .query fun d =>
    match d.ownSession t s with
    | some _ => (d.memoryOf s).insertionSort fun x y => x.key ≤ y.key
    | none => []

/-- `Delete`: remove a key. -/
def delete (t : TenantID) (s : SessionID) (key text : String) : Tx Unit := do
  lock s text
  .update (fun v => .memory s text ::
      if (v.db.memoryOf s).any (fun x => x.key = key) then [.entry s key] else [])
    (fun v =>
      if (v.db.ownSession t s).isSome ∧ (v.db.memoryOf s).any (fun x => x.key = key) then
        (.ok (), [.deleteMemory s key text])
      else (.error .notFound, []))
    (by intro v; split <;> simp_all [Write.rows])
    (by intro v; split <;> simp [Write.logs])

end Memory

/-! ## Specifications -/

namespace Tx

variable {A : Sight} {d : Db} {st : Local Row Write}

/-- `Append` adds one bump and one event, under the next number of the log as it
    is when the transaction commits. -/
theorem wp_append (hA : Respects A) {t : TenantID} {s : SessionID} {actor : Actor}
    {payload : EventPayload} {Q : Post Nat}
    (hnone : ∀ d', A st.locks d d' → (view d' st).ownSession t s = none → Q (.error .notFound) st)
    (hsome : ∀ x, (view d st).session? s = some x → x.tenantID = t →
      Q (.ok (x.lastSeq + 1)) (st.after [.session s, .session s]
        [.bumpSeq s, .insertEvent ⟨s, x.lastSeq + 1, actor, payload⟩])) :
    wp A d (Events.append t s actor payload) st Q := by
  refine Prog.wp_stmt.mpr ?_
  intro d' busy hlock
  cases h : (applyAll d' st.writes).ownSession t s with
  | none => simpa [h] using hnone d' (by simpa [h] using hlock) h
  | some x =>
    simp only [h] at hlock ⊢
    obtain ⟨hx, ht⟩ := Db.ownSession_eq_some.mp h
    rw [(hA.session hlock (by simp) st.writes).1] at hx
    refine Prog.wp_stmt.mpr fun d₂ busy₂ _ => Prog.wp_stmt.mpr fun d₃ busy₃ _ => ?_
    simpa [Local.after] using hsome x hx ht

theorem perform_memory_set {t : TenantID} {e : MemoryEntry} {text : String} :
    (Memory.set t e text).prog.perform d =
    if !Memory.validKey e.key then
      (.error (.invalid "memory key must be dot-separated alphanumeric segments"), d)
    else if e.value.utf8ByteSize > 65536 then (.error (.invalid "memory value exceeds 64KiB"), d)
    else if !((d.memoryOf e.sessionID).any fun x => x.key = e.key) &&
        (d.memoryOf e.sessionID).length ≥ 200 then
      (.error (.invalid "session memory limit reached"), d)
    else if (d.ownSession t e.sessionID).isSome then (.ok (), (Write.setMemory e text).apply d)
    else (.error .notFound, d) := by
  unfold Memory.set
  split
  · rfl
  split
  · rfl
  rw [perform_bind_ok (a := ()) (b := d) rfl, perform_bind_ok (b := d) rfl]
  dsimp only
  split
  · rfl
  · rw [update, Prog.perform_exec]
    cases d.ownSession t e.sessionID <;> rfl

end Tx

end Ultracore
