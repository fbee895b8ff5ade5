-- SUMMARY: Subscriptions: the server's and the client's cursor loops deliver every event of a session once, in order.
import Ultracore.Events.Log

/-!
# Subscriptions

`EventBus.Subscribe` reads the log forward from a cursor, in batches, whenever a wakeup
or the poll ticker tells it to; the handler forwards what it has read to the stream;
`Subscription.Next` of the SDK hands events to the caller and reopens the stream after
the last one it handed over.

The model has one step for each thing that can happen to one subscription. Wakeups may
be missing or superfluous, reads and attempts to open may fail, and the stream may break
at any moment, with whatever is still in it.
-/

namespace Ultracore.Events

open Txn

inductive Phase where
  | draining
  | waiting
deriving DecidableEq

/-- One open stream: the goroutine of `EventBus.Subscribe` and the handler. The frames on
    the wire start with a keepalive, which carries no event. -/
structure Stream where
  /-- The number of the last event put into `out`. -/
  next : Nat
  phase : Phase := .draining
  wake : Bool := false
  /-- What is left of the batch that was read. -/
  batch : List Event := []
  /-- The channel to the handler. -/
  out : List Event := []
  wire : List (Option Event) := [none]

/-- A subscription of the SDK, and the events that `Next` has returned from it. -/
structure Subscription where
  tenantID : TenantID
  sessionID : SessionID
  fromSeq : Nat
  lastSeq : Nat
  stream : Option Stream := none
  delivered : List Event := []

/-- `Client.Subscribe`: nothing is open yet. -/
def Subscription.start (t : TenantID) (s : SessionID) (fromSeq : Nat) : Subscription :=
  { tenantID := t, sessionID := s, fromSeq := fromSeq, lastSeq := fromSeq }

/-- What can happen to a subscription. -/
inductive Move where
  | open
  | openFailed
  | notify
  | wakeup
  | tick
  | read
  | readFailed
  | push
  | forward
  | receive
  | disconnect
deriving DecidableEq

/-- The capacity of the channel to the handler. -/
def outCapacity : Nat := 64

/-- The batch size of the catch-up read. -/
def batchLimit : Nat := 256

namespace Stream

/-- The moves of the server side, over the committed tables. -/
def step (d : Db) (t : TenantID) (s : SessionID) (st : Stream) : Move → Option Stream
  | .notify => some { st with wake := true }
  | .wakeup =>
    if st.phase = .waiting ∧ st.wake then some { st with phase := .draining, wake := false }
    else none
  | .tick => if st.phase = .waiting then some { st with phase := .draining } else none
  | .read =>
    if st.phase = .draining ∧ st.batch = [] then
      match rangeOf d t s st.next batchLimit with
      | [] => some { st with phase := .waiting }
      | batch => some { st with batch := batch }
    else none
  | .readFailed =>
    if st.phase = .draining ∧ st.batch = [] then some { st with phase := .waiting } else none
  | .push =>
    match st.batch with
    | e :: rest =>
      if st.out.length < outCapacity then
        some { st with next := e.seq, batch := rest, out := st.out ++ [e] }
      else none
    | [] => none
  | .forward =>
    match st.out with
    | e :: rest => some { st with out := rest, wire := st.wire ++ [some e] }
    | [] => none
  | _ => none

/-- Events that are past the cursor of the server and not yet with the client. -/
def inFlight (st : Stream) : List Event := st.wire.filterMap id ++ st.out

end Stream

namespace Subscription

/-- One move, over the committed tables. -/
def step (d : Db) (sub : Subscription) (m : Move) : Option Subscription :=
  match sub.stream, m with
  | none, .open =>
    (d.ownSession sub.tenantID sub.sessionID).map fun _ =>
      { sub with stream := some { next := sub.lastSeq } }
  | none, .openFailed => some sub
  | some _, .disconnect => some { sub with stream := none }
  | some st, .receive =>
    match st.wire with
    | none :: rest => some { sub with stream := some { st with wire := rest } }
    | some e :: rest => some { sub with
        stream := some { st with wire := rest }, lastSeq := e.seq,
        delivered := sub.delivered ++ [e] }
    | [] => none
  | some st, m =>
    (st.step d sub.tenantID sub.sessionID m).map fun st' => { sub with stream := some st' }
  | none, _ => none

end Subscription

/-! ## What is in a stream -/

/-- What was delivered, what is on its way and what is left of the batch are a stretch
    of the log, and the server's cursor stands before the batch. -/
structure Stream.Valid (d : Db) (sub : Subscription) (st : Stream) : Prop where
  stretch : sub.delivered ++ st.inFlight ++ st.batch <+: (d.eventsOf sub.sessionID).drop sub.fromSeq
  next : st.next = sub.fromSeq + (sub.delivered ++ st.inFlight).length

/-- What was delivered is a stretch of the log, and the client's cursor stands after it. -/
structure Subscription.Valid (d : Db) (sub : Subscription) : Prop where
  log : sub.delivered <+: (d.eventsOf sub.sessionID).drop sub.fromSeq
  lastSeq : sub.lastSeq = sub.fromSeq + sub.delivered.length
  stream : ∀ st, sub.stream = some st → st.Valid d sub

theorem Subscription.Valid.start (d : Db) (t : TenantID) (s : SessionID) (fromSeq : Nat) :
    (Subscription.start t s fromSeq).Valid d :=
  ⟨List.nil_prefix, rfl, fun _ h => by cases h⟩

theorem Subscription.Valid.grow {d d' : Db} {sub : Subscription} (h : sub.Valid d)
    (hd : d.eventsOf sub.sessionID <+: d'.eventsOf sub.sessionID) : sub.Valid d' := by
  have hdrop : (d.eventsOf sub.sessionID).drop sub.fromSeq <+:
      (d'.eventsOf sub.sessionID).drop sub.fromSeq := by
    obtain ⟨tail, htail⟩ := hd
    rw [← htail, List.drop_append]
    exact List.prefix_append _ _
  refine ⟨h.log.trans hdrop, h.lastSeq, ?_⟩
  intro st hst
  exact ⟨(h.stream st hst).stretch.trans hdrop, (h.stream st hst).next⟩

/-- What the server reads next continues the stretch. -/
theorem Stream.Valid.read {d : Db} {sub : Subscription} {st : Stream} (h : st.Valid d sub)
    (hbatch : st.batch = []) (hg : d.Gapless) {t : TenantID} {x : Session}
    (hx : d.ownSession t sub.sessionID = some x) :
    sub.delivered ++ st.inFlight ++ rangeOf d t sub.sessionID st.next batchLimit <+:
      (d.eventsOf sub.sessionID).drop sub.fromSeq := by
  have hstretch := h.stretch
  rw [hbatch, List.append_nil] at hstretch
  obtain ⟨tail, htail⟩ := hstretch
  have hrest : (d.eventsOf sub.sessionID).drop st.next = tail := by
    rw [h.next, ← List.drop_drop, ← htail, List.drop_left]
  rw [hg.rangeOf hx st.next batchLimit (by decide), hrest, ← htail]
  exact (List.prefix_append_right_inj _).mpr (List.take_prefix _ _)

theorem Stream.Valid.step {d : Db} {sub : Subscription} {st st' : Stream} {m : Move} {t : TenantID}
    (h : st.Valid d sub) (hg : d.Gapless) (hs : st.step d t sub.sessionID m = some st') :
    st'.Valid d sub := by
  cases m with
  | notify =>
    cases hs
    exact ⟨h.stretch, h.next⟩
  | wakeup | tick | readFailed =>
    simp only [Stream.step] at hs
    split at hs
    · cases hs
      exact ⟨h.stretch, h.next⟩
    · cases hs
  | read =>
    simp only [Stream.step] at hs
    split at hs
    · rename_i hphase
      split at hs
      · cases hs
        exact ⟨h.stretch, h.next⟩
      · rename_i hne
        cases hs
        refine ⟨?_, h.next⟩
        cases hx : d.ownSession t sub.sessionID with
        | none => exact absurd (by simp [rangeOf, hx]) hne
        | some => exact h.read hphase.2 hg hx
    · cases hs
  | push =>
    simp only [Stream.step] at hs
    split at hs
    · rename_i e rest hbatch
      split at hs
      · cases hs
        have hstretch := h.stretch
        rw [hbatch] at hstretch
        have hseq := hg.seq_after hstretch
        refine ⟨?_, ?_⟩
        · simpa [Stream.inFlight, List.append_assoc] using hstretch
        · simp only [Stream.inFlight, List.length_append, List.length_cons, List.length_nil] at hseq ⊢
          omega
      · cases hs
    · cases hs
  | forward =>
    simp only [Stream.step] at hs
    split at hs
    · rename_i e rest hout
      cases hs
      have hsame : Stream.inFlight { st with out := rest, wire := st.wire ++ [some e] } =
          st.inFlight := by
        simp [Stream.inFlight, hout]
      exact ⟨by simpa only [hsame] using h.stretch, by simpa only [hsame] using h.next⟩
    · cases hs
  | «open» | openFailed | receive | disconnect => cases hs

namespace Subscription

variable {d : Db} {sub sub' : Subscription} {m : Move}

/-- What a move on an open stream is, other than receiving and breaking. -/
private theorem step_stream {st : Stream} (hst : sub.stream = some st) (hrec : m ≠ .receive)
    (hdis : m ≠ .disconnect) : sub.step d m =
      (st.step d sub.tenantID sub.sessionID m).map fun st' => { sub with stream := some st' } := by
  cases m <;> simp_all [step]

/-- Every move keeps the two cursors right. -/
theorem Valid.step (h : sub.Valid d) (hg : d.Gapless) (hs : sub.step d m = some sub') :
    sub'.Valid d := by
  cases hst : sub.stream with
  | none =>
    cases m with
    | «open» =>
      simp only [Subscription.step, hst, Option.map_eq_some_iff] at hs
      obtain ⟨x, -, rfl⟩ := hs
      refine ⟨h.log, h.lastSeq, ?_⟩
      intro st heq
      cases heq
      -- a new stream continues after the last event that was delivered
      exact ⟨by simpa [Stream.inFlight] using h.log, by simpa [Stream.inFlight] using h.lastSeq⟩
    | openFailed =>
      simp only [Subscription.step, hst, Option.some.injEq] at hs
      exact hs ▸ h
    | _ => simp [Subscription.step, hst] at hs
  | some st =>
    have hv := h.stream st hst
    by_cases hrec : m = .receive
    · subst hrec
      simp only [Subscription.step, hst] at hs
      split at hs
      · rename_i rest hwire
        cases hs
        have hsame : Stream.inFlight { st with wire := rest } = st.inFlight := by
          simp [Stream.inFlight, hwire]
        refine ⟨h.log, h.lastSeq, ?_⟩
        intro st' heq
        cases heq
        exact ⟨by simpa only [hsame] using hv.stretch, by simpa only [hsame] using hv.next⟩
      · rename_i e rest hwire
        cases hs
        have hsame : st.inFlight = e :: Stream.inFlight { st with wire := rest } := by
          simp [Stream.inFlight, hwire]
        have hstretch := hv.stretch
        have hnext := hv.next
        rw [hsame, List.append_assoc, List.cons_append] at hstretch
        rw [hsame] at hnext
        have hseq := hg.seq_after hstretch
        refine ⟨?_, by simp only [List.length_append, List.length_singleton]; omega, ?_⟩
        · refine List.IsPrefix.trans ((List.prefix_append_right_inj _).mpr ?_) hstretch
          exact List.prefix_append [e] _
        · intro st' heq
          cases heq
          exact ⟨by simpa [List.append_assoc] using hstretch, by simpa [List.append_assoc] using hnext⟩
      · cases hs
    by_cases hdis : m = .disconnect
    · subst hdis
      simp only [Subscription.step, hst, Option.some.injEq] at hs
      subst hs
      exact ⟨h.log, h.lastSeq, fun _ heq => by cases heq⟩
    · rw [step_stream hst hrec hdis, Option.map_eq_some_iff] at hs
      obtain ⟨st', hst', rfl⟩ := hs
      refine ⟨h.log, h.lastSeq, ?_⟩
      intro st₂ heq
      cases heq
      have hv' := hv.step hg hst'
      exact ⟨hv'.stretch, hv'.next⟩

/-- No move changes what is subscribed to. -/
theorem step_target (hs : sub.step d m = some sub') :
    sub'.tenantID = sub.tenantID ∧ sub'.sessionID = sub.sessionID ∧ sub'.fromSeq = sub.fromSeq := by
  cases hst : sub.stream with
  | none =>
    cases m with
    | «open» =>
      simp only [Subscription.step, hst, Option.map_eq_some_iff] at hs
      obtain ⟨x, -, rfl⟩ := hs
      exact ⟨rfl, rfl, rfl⟩
    | openFailed =>
      simp only [Subscription.step, hst, Option.some.injEq] at hs
      subst hs
      exact ⟨rfl, rfl, rfl⟩
    | _ => simp [Subscription.step, hst] at hs
  | some =>
    by_cases hrec : m = .receive
    · subst hrec
      simp only [Subscription.step, hst] at hs
      split at hs <;> cases hs <;> exact ⟨rfl, rfl, rfl⟩
    by_cases hdis : m = .disconnect
    · subst hdis
      simp only [Subscription.step, hst, Option.some.injEq] at hs
      subst hs
      exact ⟨rfl, rfl, rfl⟩
    · rw [step_stream hst hrec hdis, Option.map_eq_some_iff] at hs
      obtain ⟨st', -, rfl⟩ := hs
      exact ⟨rfl, rfl, rfl⟩

end Subscription

/-! ## Progress -/

/-- The moves that go wrong. -/
def Move.fails : Move → Bool
  | .openFailed | .readFailed | .disconnect => true
  | _ => false

namespace Subscription

/-- The subscription gets from one state to another without a failure, while the log
    stands still. -/
abbrev Proceeds (d : Db) : Subscription → Subscription → Prop :=
  Relation.ReflTransGen fun sub sub' => ∃ m : Move, m.fails = false ∧ sub.step d m = some sub'

/-- The subscription can deliver one more event. -/
def Delivers (d : Db) (sub : Subscription) : Prop :=
  ∃ sub', Proceeds d sub sub' ∧ sub'.delivered.length = sub.delivered.length + 1

theorem Delivers.after {d : Db} {sub : Subscription} (sub' : Subscription) {m : Move} (hm : m.fails = false)
    (hs : sub.step d m = some sub') (heq : sub'.delivered = sub.delivered) (h : Delivers d sub') :
    Delivers d sub := by
  obtain ⟨sub₂, hpro, hlen⟩ := h
  exact ⟨sub₂, .head ⟨m, hm, hs⟩ hpro, by rw [hlen, heq]⟩

variable {d : Db} {sub : Subscription} {st : Stream}

theorem Delivers.server (hst : sub.stream = some st) (st' : Stream) {m : Move} (hm : m.fails = false)
    (hs : st.step d sub.tenantID sub.sessionID m = some st')
    (h : Delivers d { sub with stream := some st' }) : Delivers d sub := by
  have hrec : m ≠ .receive := fun heq => by subst heq; cases hs
  have hdis : m ≠ .disconnect := fun heq => by subst heq; cases hs
  refine .after { sub with stream := some st' } hm ?_ rfl h
  rw [step_stream hst hrec hdis, hs, Option.map_some]

theorem delivers_wire (hst : sub.stream = some st) (hwire : st.wire.filterMap id ≠ []) :
    Delivers d sub := by
  induction h : st.wire generalizing sub st with
  | nil => exact absurd (by rw [h]; rfl) hwire
  | cons frame rest ih =>
    cases frame with
    | none =>
      refine .after { sub with stream := some { st with wire := rest } }
        (m := .receive) rfl (by simp [step, hst, h]) rfl ?_
      exact @ih _ { st with wire := rest } rfl (by simpa [h] using hwire) rfl
    | some e =>
      have hstep : sub.step d .receive = some { sub with
          stream := some { st with wire := rest }, lastSeq := e.seq,
          delivered := sub.delivered ++ [e] } := by
        simp [step, hst, h]
      exact ⟨_, .single ⟨_, rfl, hstep⟩, by simp⟩

theorem delivers_out (hst : sub.stream = some st) (hout : st.out ≠ []) : Delivers d sub := by
  cases h : st.out with
  | nil => exact absurd h hout
  | cons =>
    refine .server (m := .forward) hst _ rfl (by simp only [Stream.step, h]; rfl) ?_
    exact delivers_wire rfl (by simp)

theorem delivers_batch (hst : sub.stream = some st) (hbatch : st.batch ≠ []) : Delivers d sub := by
  by_cases hout : st.out = []
  · cases h : st.batch with
    | nil => exact absurd h hbatch
    | cons =>
      have hcap : st.out.length < outCapacity := by simp [hout, outCapacity]
      refine .server (m := .push) hst _ rfl (by simp only [Stream.step, h, hcap, if_true]; rfl) ?_
      exact delivers_out rfl (by simp)
  · exact delivers_out hst hout

/-- As long as the log has an event that was not delivered, the subscription can deliver
    the next one. -/
theorem Valid.delivers (h : sub.Valid d) (hg : d.Gapless) {x : Session}
    (hx : d.ownSession sub.tenantID sub.sessionID = some x)
    (hmore : sub.delivered.length < ((d.eventsOf sub.sessionID).drop sub.fromSeq).length) :
    Delivers d sub := by
  -- an open stream: drain what is in it, or read on
  have hopen : ∀ {sub : Subscription} {st : Stream}, sub.Valid d → sub.stream = some st →
      d.ownSession sub.tenantID sub.sessionID = some x →
      sub.delivered.length < ((d.eventsOf sub.sessionID).drop sub.fromSeq).length →
      st.phase = .draining → Delivers d sub := by
    intro sub st h hst hx hmore hphase
    by_cases hwire : st.wire.filterMap id = []
    · by_cases hout : st.out = []
      · by_cases hbatch : st.batch = []
        · have hread := hg.rangeOf hx st.next batchLimit (by decide)
          have hnext := (h.stream st hst).next
          simp only [Stream.inFlight, hwire, hout, List.append_nil] at hnext
          have hne : rangeOf d sub.tenantID sub.sessionID st.next batchLimit ≠ [] := by
            rw [hread]
            refine List.ne_nil_of_length_pos ?_
            rw [List.length_drop] at hmore
            simp only [List.length_take, List.length_drop, batchLimit]
            omega
          refine .server (m := .read) hst { st with
            batch := rangeOf d sub.tenantID sub.sessionID st.next batchLimit } rfl ?_ ?_
          · cases hr : rangeOf d sub.tenantID sub.sessionID st.next batchLimit with
            | nil => exact absurd hr hne
            | cons => simp [Stream.step, hphase, hbatch, hr]
          · exact delivers_batch rfl hne
        · exact delivers_batch hst hbatch
      · exact delivers_out hst hout
    · exact delivers_wire hst hwire
  have hwait : ∀ {st : Stream}, sub.stream = some st → Delivers d sub := by
    intro st hst
    cases hphase : st.phase with
    | draining => exact hopen h hst hx hmore hphase
    | waiting =>
      have htick : st.step d sub.tenantID sub.sessionID .tick =
          some { st with phase := .draining } := by simp [Stream.step, hphase]
      refine .server (m := .tick) hst _ rfl htick ?_
      have hstep : sub.step d .tick = some { sub with stream := some { st with phase := .draining } } := by
        rw [step_stream hst (by decide) (by decide), htick, Option.map_some]
      exact hopen (h.step hg hstep) rfl hx hmore rfl
  cases hst : sub.stream with
  | some => exact hwait hst
  | none =>
    have hstep : sub.step d .open = some { sub with stream := some { next := sub.lastSeq } } := by
      simp [Subscription.step, hst, hx]
    exact .after _ rfl hstep rfl (hopen (h.step hg hstep) rfl hx hmore rfl)

theorem Valid.proceeds {sub' : Subscription} (h : sub.Valid d) (hg : d.Gapless)
    (hp : Proceeds d sub sub') : sub'.Valid d ∧ sub'.tenantID = sub.tenantID ∧
      sub'.sessionID = sub.sessionID ∧ sub'.fromSeq = sub.fromSeq := by
  induction hp with
  | refl => exact ⟨h, rfl, rfl, rfl⟩
  | tail _ hs ih =>
    obtain ⟨m, -, hs⟩ := hs
    obtain ⟨hv, ht, hsid, hfrom⟩ := ih
    obtain ⟨ht', hsid', hfrom'⟩ := step_target hs
    exact ⟨hv.step hg hs, ht'.trans ht, hsid'.trans hsid, hfrom'.trans hfrom⟩

/-- Without failures the whole log after `fromSeq` is delivered. -/
theorem Valid.delivers_all (h : sub.Valid d) (hg : d.Gapless) {x : Session}
    (hx : d.ownSession sub.tenantID sub.sessionID = some x) : ∃ sub', Proceeds d sub sub' ∧
      sub'.delivered = (d.eventsOf sub.sessionID).drop sub.fromSeq := by
  -- induction on the number of events that are still missing
  induction hn : ((d.eventsOf sub.sessionID).drop sub.fromSeq).length - sub.delivered.length
    generalizing sub with
  | zero => exact ⟨sub, .refl, h.log.eq_of_length_le (by omega)⟩
  | succ n ih =>
    obtain ⟨sub₁, hp₁, hlen⟩ := h.delivers hg hx (by omega)
    obtain ⟨hv₁, ht, hsid, hfrom⟩ := h.proceeds hg hp₁
    obtain ⟨sub₂, hp₂, heq⟩ := ih hv₁ (by rw [ht, hsid]; exact hx) (by rw [hsid, hfrom]; omega)
    exact ⟨sub₂, hp₁.trans hp₂, by rw [heq, hsid, hfrom]⟩

end Subscription

/-! ## A subscription to a running program -/

/-- A subscription that was made at some time in a run of the program, with the moves of
    the subscription and the steps of the program interleaved. -/
inductive Observed {I P : Type} (app : App I P) (c₀ : Config Db Row Write Err I P) (t : TenantID)
    (s : SessionID) (fromSeq : Nat) : Config Db Row Write Err I P → Subscription → Prop where
  | start {log : List Write} {c : Config Db Row Write Err I P} :
      app.machine.Reaches c₀ log c → Observed app c₀ t s fromSeq c (.start t s fromSeq)
  | db {c c' : Config Db Row Write Err I P} {a : Action I Nat P} {ws : List Write}
      {sub : Subscription} : Observed app c₀ t s fromSeq c sub → app.machine.Step c a ws c' →
      Observed app c₀ t s fromSeq c' sub
  | sub {c : Config Db Row Write Err I P} {sub sub' : Subscription} {m : Move} :
      Observed app c₀ t s fromSeq c sub → sub.step c.db m = some sub' →
      Observed app c₀ t s fromSeq c sub'

section
variable {I P : Type} {app : App I P} {c₀ c : Config Db Row Write Err I P} {t : TenantID}
  {s : SessionID} {fromSeq : Nat} {sub : Subscription}

theorem Observed.reaches (h : Observed app c₀ t s fromSeq c sub) :
    ∃ log, app.machine.Reaches c₀ log c := by
  induction h with
  | start hr => exact ⟨_, hr⟩
  | db _ hs ih =>
    obtain ⟨log, hr⟩ := ih
    exact ⟨_, hr.step trivial hs⟩
  | sub _ _ ih => exact ih

theorem Observed.target (h : Observed app c₀ t s fromSeq c sub) :
    sub.tenantID = t ∧ sub.sessionID = s ∧ sub.fromSeq = fromSeq := by
  induction h with
  | start => exact ⟨rfl, rfl, rfl⟩
  | db _ _ ih => exact ih
  | sub _ hs ih =>
    obtain ⟨ht, hsid, hfrom⟩ := Subscription.step_target hs
    exact ⟨ht.trans ih.1, hsid.trans ih.2.1, hfrom.trans ih.2.2⟩

theorem Observed.valid (h₀ : AtRest c₀) (hg : c₀.db.Gapless)
    (h : Observed app c₀ t s fromSeq c sub) : sub.Valid c.db := by
  induction h with
  | start => exact .start _ _ _ _
  | db _ hs ih => exact ih.grow (App.step_extends hs _)
  | sub hobs hs ih =>
    obtain ⟨log, hr⟩ := hobs.reaches
    exact ih.step (App.gapless h₀ hg hr) hs

end

/-- The event log is gapless and is delivered exactly once. Over any program whose
    transactions are built from store methods, however they interleave, roll back or
    crash:

    * the committed events of a session carry the numbers 1, …, `last_seq`;
    * they become visible in that order: a later log extends an earlier one;
    * a subscription from `fromSeq` has been handed the events `fromSeq + 1`,
      `fromSeq + 2`, … of the log, in order;
    * and from every state it is handed all of them if nothing fails from then on. -/
theorem event_log_exactly_once {I P : Type} (app : App I P)
    (c₀ : Config Db Row Write Err I P) (h₀ : AtRest c₀) (hg : c₀.db.Gapless) :
    (∀ log c, app.machine.Reaches c₀ log c →
      ∀ s, c.db.seqs s = List.range' 1 (c.db.lastSeq s)) ∧
    (∀ log c log' c', app.machine.Reaches c₀ log c → app.machine.Reaches c log' c' →
      ∀ s, c.db.eventsOf s <+: c'.db.eventsOf s) ∧
    (∀ t s fromSeq c sub, Observed app c₀ t s fromSeq c sub →
      sub.delivered <+: (c.db.eventsOf s).drop fromSeq ∧
      sub.delivered.map Event.seq = List.range' (fromSeq + 1) sub.delivered.length) ∧
    (∀ t s fromSeq c sub, Observed app c₀ t s fromSeq c sub →
      (c.db.ownSession t s).isSome →
      ∃ sub', sub.Proceeds c.db sub' ∧ sub'.delivered = (c.db.eventsOf s).drop fromSeq) := by
  refine ⟨?_, ?_, ?_, ?_⟩
  · intro log c hr s
    exact App.gapless h₀ hg hr s
  · intro log c log' c' _ hr s
    exact App.run_extends hr s
  · intro t s fromSeq c sub hobs
    obtain ⟨log, hr⟩ := hobs.reaches
    have hlog := (hobs.valid h₀ hg).log
    obtain ⟨-, rfl, rfl⟩ := hobs.target
    exact ⟨hlog, (App.gapless h₀ hg hr).seqs_of_drop hlog⟩
  · intro t s fromSeq c sub hobs hown
    obtain ⟨log, hr⟩ := hobs.reaches
    obtain ⟨x, hx⟩ := Option.isSome_iff_exists.mp hown
    have hv := hobs.valid h₀ hg
    obtain ⟨rfl, rfl, rfl⟩ := hobs.target
    exact hv.delivers_all (App.gapless h₀ hg hr) hx

/-- Processes that each append one event. -/
def appender : App Unit Bool where
  body sent _ :=
    if sent then none
    else some do
      let _ ← append "tenant" "session" actorSystem (.annotationEvent "c")
      pure true
  onErr _ _ _ := true
  canSpawn _ _ sent := !sent

/-- A session with two events. -/
def twoEvents : Db where
  sessions := [{ id := "session", tenantID := "tenant", lastSeq := 2 }]
  events := [⟨"session", 1, actorSystem, .annotationEvent "a"⟩,
    ⟨"session", 2, actorSystem, .annotationEvent "b"⟩]

theorem twoEvents_gapless : twoEvents.Gapless := by
  intro s
  by_cases h : "session" = s
  · subst h
    decide
  · simp [twoEvents, Db.seqs, Db.eventsOf, Db.lastSeq, Db.session?, Table.lookup, h]

/-- Process 1 has begun when process 0 appends its event. -/
def appendTwice : List (Machine.Move Unit Nat Bool) :=
  [.act (.spawn false), .act (.spawn false), .act (.begin 1 ()), .tx 0 (), .act (.exec 1),
    .act (.exec 1), .act (.exec 1), .act (.commit 1)]

theorem event_log_exactly_once_appender :
    ∃ log c sub, appender.machine.Reaches ⟨twoEvents, []⟩ log c ∧
      (Subscription.start "tenant" "session" 1).Proceeds c.db sub ∧
      sub.delivered.map Event.seq = [2, 3, 4] := by
  have hplay : (appender.machine.play (fun _ _ => true) ⟨twoEvents, []⟩ appendTwice).map
      (fun c => ((c.db.ownSession "tenant" "session").isSome,
        ((c.db.eventsOf "session").drop 1).map Event.seq)) = some (true, [2, 3, 4]) := by
    decide +kernel
  obtain ⟨c, hc, hend⟩ := Option.map_eq_some_iff.mp hplay
  obtain ⟨hown, hseqs⟩ := Prod.mk.inj hend
  obtain ⟨log, hr⟩ := Machine.play_reaches hc
  obtain ⟨sub, hp, heq⟩ := (event_log_exactly_once appender ⟨twoEvents, []⟩
    (by simp [AtRest]) twoEvents_gapless).2.2.2 "tenant" "session" 1 _ _ (.start hr) hown
  exact ⟨log, c, sub, hr, hp, by rw [heq, hseqs]⟩

end Ultracore.Events
