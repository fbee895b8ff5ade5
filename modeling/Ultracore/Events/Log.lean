-- SUMMARY: The committed events of every session are numbered 1 to last_seq, and the log only grows.
import Ultracore.Store.App
import Ultracore.Store.Events

/-!
# The event log

`last_seq` is bumped under the session's row lock, and the event with the number
returned is inserted under the same lock. Between the two statements the number is
taken but not yet used; `Numbered` counts it in. When a transaction commits no number
is pending, so the committed events of a session carry exactly the numbers
1, …, `last_seq`.
-/

namespace Ultracore

open Txn

variable {taken : Option (SessionID × Nat)}

namespace Db

/-- `last_seq` of a session, `0` where there is none. -/
def lastSeq (d : Db) (s : SessionID) : Nat := (d.session? s).elim 0 Session.lastSeq

/-- The numbers of the events of a session, in the order in which they were inserted. -/
def seqs (d : Db) (s : SessionID) : List Nat := (d.eventsOf s).map Event.seq

/-- The events of each session are numbered from 1 to `last_seq`. -/
def Gapless (d : Db) : Prop := ∀ s, d.seqs s = List.range' 1 (d.lastSeq s)

theorem Gapless.empty : Gapless {} := fun _ => rfl

/-- The events of a session only grow at their end. -/
theorem eventsOf_apply_extends (d : Db) (w : Write) (s : SessionID) :
    d.eventsOf s <+: (w.apply d).eventsOf s := by
  rw [eventsOf_apply]
  cases w with
  | insertEvent e =>
    by_cases h : s = e.sessionID <;> simp [Write.onEvents, h]
  | _ => exact List.prefix_rfl

theorem eventsOf_applyAll_extends (d : Db) (ws : List Write) (s : SessionID) :
    d.eventsOf s <+: (applyAll d ws).eventsOf s := by
  induction ws generalizing d with
  | nil => exact List.prefix_rfl
  | cons w ws ih => exact (eventsOf_apply_extends d w s).trans (ih (w.apply d))

/-- The number that the open bump of a session has taken, as a list. -/
def pending (taken : Option (SessionID × Nat)) (s : SessionID) : List Nat :=
  match taken with
  | none => []
  | some (s', q) => if s = s' then [q] else []

/-- `Gapless`, with the number that was taken and is not used yet counted in. -/
def Numbered (d : Db) (taken : Option (SessionID × Nat)) : Prop :=
  ∀ s, d.seqs s ++ pending taken s = List.range' 1 (d.lastSeq s)

theorem numbered_none {d : Db} : d.Numbered none ↔ d.Gapless := by
  simp [Numbered, Gapless, pending]

/-! ## One statement -/

variable {d : Db}

theorem lastSeq_apply_of_not_logs {w : Write} (h : w.logs = false) (s : SessionID) :
    (w.apply d).lastSeq s = d.lastSeq s := by
  unfold lastSeq
  rw [session?_apply]
  cases w <;> first | rfl | simp [Write.logs] at h

theorem seqs_apply_of_not_logs {w : Write} (h : w.logs = false) (s : SessionID) :
    (w.apply d).seqs s = d.seqs s := by
  unfold seqs
  rw [eventsOf_apply]
  cases w <;> first | rfl | simp [Write.logs] at h

theorem Numbered.quiet (h : d.Numbered taken)
    {ws : List Write} (hws : ∀ w ∈ ws, w.logs = false) : (applyAll d ws).Numbered taken := by
  induction ws generalizing d with
  | nil => exact h
  | cons w ws ih =>
    have hw : w.logs = false := hws w (by simp)
    refine ih ?_ (fun w' hw' => hws w' (by simp [hw']))
    intro s
    rw [tables_apply, lastSeq_apply_of_not_logs hw, seqs_apply_of_not_logs hw]
    exact h s

/-- A new session has no events yet. -/
theorem Numbered.create (h : d.Numbered none) {x : Session} (hx : x.lastSeq = 0)
    (hnone : d.session? x.id = none) : ((Write.insertSession x).apply d).Numbered none := by
  intro s
  have hs := h s
  by_cases heq : s = x.id
  · subst heq
    simpa [Numbered, lastSeq, seqs, Write.onSession, Write.onEvents, hnone, hx] using hs
  · simpa [Numbered, lastSeq, seqs, Write.onSession, Write.onEvents, heq] using hs

theorem Numbered.bump (h : d.Numbered none) {x : Session} (hx : d.session? x.id = some x) :
    ((Write.bumpSeq x.id).apply d).Numbered (some (x.id, x.lastSeq + 1)) := by
  intro s
  have hs := h s
  by_cases heq : s = x.id
  · subst heq
    simp only [lastSeq, seqs, pending, List.append_nil, hx, Option.elim_some] at hs
    simp only [lastSeq, seqs, pending, session?_apply, eventsOf_apply, Write.onSession,
      Write.onEvents, if_true, hx, Option.map_some, Option.elim_some, hs]
    rw [List.range'_concat]
    simp [Nat.add_comm]
  · simpa [Numbered, lastSeq, seqs, pending, Write.onSession, Write.onEvents, heq] using hs

/-- The event uses the number that was taken. -/
theorem Numbered.insert {e : Event} (h : d.Numbered (some (e.sessionID, e.seq))) :
    ((Write.insertEvent e).apply d).Numbered none := by
  intro s
  have hs := h s
  by_cases heq : s = e.sessionID
  · subst heq
    simpa [lastSeq, seqs, pending, Write.onSession, Write.onEvents] using hs
  · simpa [lastSeq, seqs, pending, Write.onSession, Write.onEvents, heq] using hs

end Db

/-! ## Reading the log -/

/-- Among consecutively numbered events, those above `n` are the ones after the first
    few. -/
theorem filter_above {es : List Event} {k m : Nat} (h : es.map Event.seq = List.range' (k + 1) m)
    (n : Nat) : es.filter (fun e => n < e.seq) = es.drop (n - k) := by
  induction es generalizing k m with
  | nil => simp
  | cons e es ih =>
    cases m with
    | zero => simp at h
    | succ =>
      rw [List.map_cons, List.range'_succ] at h
      obtain ⟨he, hes⟩ := List.cons.inj h
      have ih' := ih hes
      by_cases hn : n < k + 1
      · have hk : n - k = 0 := by omega
        have hk' : n - (k + 1) = 0 := by omega
        simp [he, hn, ih', hk, hk']
      · have hk : n - k = n - (k + 1) + 1 := by omega
        simp [he, hn, ih', hk]

namespace Db

variable {d : Db}

/-- `Range` returns the next events of the log, as many as it may. -/
theorem Gapless.rangeOf (h : d.Gapless) {t : TenantID} {s : SessionID} {x : Session}
    (hx : d.ownSession t s = some x) (n : Nat) (limit : Nat) (hlim : limit ≠ 0) :
    Events.rangeOf d t s n limit = ((d.eventsOf s).drop n).take limit := by
  have hseq : (d.eventsOf s).map Event.seq = List.range' (0 + 1) (d.lastSeq s) := h s
  have hsorted : ((d.eventsOf s).drop n).Pairwise fun e e' => e.seq ≤ e'.seq := by
    refine List.Pairwise.sublist (List.drop_sublist n _) (List.pairwise_map.mp ?_)
    rw [hseq]
    exact List.pairwise_le_range' 1
  simp only [Events.rangeOf, hx, filter_above hseq n, Nat.sub_zero, hlim, if_false]
  rw [List.Pairwise.insertionSort_eq hsorted]

/-- The numbers of consecutive events, starting after number `n`. -/
theorem Gapless.seqs_of_drop (h : d.Gapless) {s : SessionID} {n : Nat} {es : List Event}
    (hes : es <+: (d.eventsOf s).drop n) : es.map Event.seq = List.range' (n + 1) es.length := by
  have hmap : es.map Event.seq <+: List.range' (n + 1) (d.lastSeq s - n) := by
    have := hes.map Event.seq
    rw [List.map_drop, show (d.eventsOf s).map Event.seq = _ from h s, List.drop_range'] at this
    simpa [Nat.add_comm] using this
  have hlen : es.length ≤ d.lastSeq s - n := by simpa using hmap.length_le
  rw [List.prefix_iff_eq_take.mp hmap, List.length_map, List.take_range'_of_length_ge hlen]

/-- The number of the event that follows `l`. -/
theorem Gapless.seq_after (h : d.Gapless) {s : SessionID} {n : Nat} {l rest : List Event}
    {e : Event} (hes : l ++ e :: rest <+: (d.eventsOf s).drop n) : e.seq = n + l.length + 1 := by
  have hget := congrArg (fun ns => ns[l.length]?) (h.seqs_of_drop hes)
  simp only [List.map_append, List.map_cons] at hget
  rw [List.getElem?_append_right (by simp)] at hget
  rw [List.getElem?_range' (by simp)] at hget
  simp at hget
  omega

end Db

/-! ## One transaction -/

/-- A statement that keeps the discipline of the log moves `Numbered` along. It holds
    the lock of the session it touches, so what it saw is what there is. -/
theorem LogStep.numbered {A : Sight} (hr : Tx.Respects A) {d d' : Db}
    {ls : List Row} {ws eff : List Write} {busy : Row → Bool}
    (hstep : LogStep ⟨applyAll d' ws, busy⟩ eff taken) (hA : A ls d d')
    (hlocks : ∀ w ∈ eff, ∀ r ∈ w.rows, r ∈ ls) (h : (applyAll d ws).Numbered none) :
    (applyAll d (ws ++ eff)).Numbered taken := by
  rw [applyAll_append]
  cases hstep with
  | quiet hq => exact h.quiet hq
  | @create x hx hnone =>
    have hs := (hr.session hA
      (hlocks (.insertSession x) (by simp) (.session x.id) (by simp [Write.rows])) ws).1
    exact h.create hx (hs ▸ hnone)
  | @bump x hx =>
    have hs := (hr.session hA
      (hlocks (.bumpSeq x.id) (by simp) (.session x.id) (by simp [Write.rows])) ws).1
    exact h.bump (hs ▸ hx)

/-- A transaction that keeps both disciplines ends with every number used. -/
theorem LogSafe.numbered {A : Sight} (hr : Tx.Respects A) {α : Type} {p : Prog Db Row Write Err α}
    (hlog : LogSafe p taken) (hg : p.Guarded Write.rows)
    {d : Db} {s s' : Local Row Write} {r : Except Err α}
    (hrun : p.Runs A d s r s') (h : (applyAll d s.writes).Numbered taken) :
    (applyAll d s'.writes).Numbered none := by
  induction p generalizing s taken with
  | ret | fail =>
    obtain ⟨-, rfl⟩ := hrun
    obtain rfl : taken = none := hlog
    exact h
  | stmt need eff k ih =>
    obtain ⟨d', busy, hA, hrest⟩ := hrun
    rcases taken with _ | ⟨s₀, q⟩
    · obtain ⟨taken', hstep, hk⟩ := hlog ⟨applyAll d' s.writes, busy⟩
      refine ih _ hk (hg _).2 hrest ?_
      refine hstep.numbered hr hA ?_ h
      exact fun w hw r hr => List.mem_append_right _ ((hg _).1 w hw r hr)
    · obtain ⟨e, heff, rfl, rfl, hk⟩ := hlog ⟨applyAll d' s.writes, busy⟩
      refine ih _ hk (hg _).2 hrest ?_
      rw [Local.after_writes, heff, applyAll_append]
      exact h.insert

/-- Whatever a transaction commits, the log stays without gaps. -/
theorem Tx.gapless {A : Sight} (hr : Tx.Respects A) {α : Type} {x : Tx α}
    {d : Db} {r : Except Err α} {s : Local Row Write} (hrun : x.prog.Runs A d .empty r s)
    (h : d.Gapless) : (applyAll d s.writes).Gapless :=
  Db.numbered_none.mp (x.logged.numbered hr x.guarded hrun (Db.numbered_none.mpr h))

/-! ## Every run -/

namespace App

variable {I P : Type} {app : App I P}
variable {c₀ c c' : Config Db Row Write Err I P} {log ws : List Write}

theorem serial_gapless {A : Sight} (hr : Tx.Respects A) {w w' : World Db P}
    {a : Action I Nat P} (hs : app.machine.Serial A w a ws w') (h : w.db.Gapless) : w'.db.Gapless := by
  cases hs with
  | commit _ hbody hrun | lose _ hbody hrun =>
    obtain ⟨x, -, rfl⟩ := machine_body.mp hbody
    exact Tx.gapless hr hrun h
  | _ => exact h

theorem gapless (h₀ : AtRest c₀)
    (hg : c₀.db.Gapless) (hrun : app.machine.Reaches c₀ log c) : c.db.Gapless := by
  exact (serial_run (fun _ _ => True) Db.Gapless (fun _ w => w.db.Gapless) h₀ hg
    (fun h _ hs => serial_gapless (respects_sees _) hs h) id (fun _ _ _ => trivial) hrun).2.1

theorem step_extends {a : Action I Nat P}
    (hs : app.machine.Step c a ws c') (s : SessionID) : c.db.eventsOf s <+: c'.db.eventsOf s := by
  cases hs with
  | commit | lose => exact Db.eventsOf_applyAll_extends _ _ s
  | _ => exact List.prefix_rfl

theorem run_extends (hrun : app.machine.Reaches c log c') (s : SessionID) :
    c.db.eventsOf s <+: c'.db.eventsOf s := by
  induction hrun with
  | refl => exact List.prefix_rfl
  | step _ _ hs ih => exact ih.trans (step_extends hs s)

end App

end Ultracore
