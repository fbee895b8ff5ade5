-- SUMMARY: The pool of connections an agent offers: hand-off to waiting requests, and disconnection.
import Mathlib.Data.List.Nodup
import Ultracore.Txn.Steps

/-!
# The agent pool

`agentPool` and `Disconnect` of `provider/tunnel/broker.go`. A section under the mutex is one
step; the receive from a waiter's channel, the time-outs and every `Close` lie outside it and are
steps of their own. Connections are numbered as they are offered, calls as they are made. The
closers of a transport and its own time-outs end connections that were returned to it.
-/

namespace Ultracore.Tunnel

abbrev Conn := Nat

/-- How far a call of `take` is. `received` lies between the receive and the entry in `issued`. -/
inductive Phase where
  | waiting
  | received (conn : Conn)
  | returned (conn : Conn)
  | gaveUp
deriving DecidableEq

/-- A call of `take` and its channel, which has room for one connection. -/
structure Take where
  phase : Phase
  channel : Option Conn := none
deriving DecidableEq

/-- A call of `Disconnect`, with the number of connections that were offered before it started. -/
inductive Disconnect where
  | started (before : Nat)
  | closing (before : Nat) (todo : List Conn)
  | completed (before : Nat)
deriving DecidableEq

/-- `agentPool`. A waiter is the call that waits. -/
structure AgentPool where
  conns : List Conn := []
  closed : Bool := false
  issued : List Conn := []
  waiters : List Nat := []
deriving DecidableEq

structure State where
  pool : AgentPool := {}
  takes : List Take := []
  disconnects : List Disconnect := []
  offered : Nat := 0
  closed : List Conn := []
deriving DecidableEq

inductive Action where
  | offer
  | take
  | receive (i : Nat)
  | issue (i : Nat)
  | giveUp (i : Nat)
  | hangUp (c : Conn)
  | disconnect
  | collect (j : Nat)
  | close (j : Nat)
  | complete (j : Nat)

/-- `waiter <- conn` where the channel has room. -/
def send (takes : List Take) (w : Nat) (conn : Conn) : Option (List Take) :=
  match takes[w]? with
  | some ⟨phase, none⟩ => some (takes.set w ⟨phase, some conn⟩)
  | _ => none

/-- The loop of `offer` over the waiters. -/
def handOff (takes : List Take) (conn : Conn) : List Nat → Option (List Take × List Nat)
  | [] => none
  | w :: waiters =>
    match send takes w conn with
    | some takes' => some (takes', waiters)
    | none => handOff takes conn waiters

namespace State

def offer (s : State) : State :=
  let conn := s.offered
  if s.pool.closed then { s with offered := s.offered + 1, closed := conn :: s.closed }
  else
    match handOff s.takes conn s.pool.waiters with
    | some (takes, waiters) =>
      { s with offered := s.offered + 1, takes := takes, pool := { s.pool with waiters := waiters } }
    | none =>
      { s with
        offered := s.offered + 1
        pool := { s.pool with conns := s.pool.conns ++ [conn], waiters := [] } }

/-- The first section of `take`. -/
def take (s : State) : State :=
  match s.pool.conns with
  | conn :: conns =>
    { s with
      takes := s.takes ++ [⟨.returned conn, none⟩]
      pool := { s.pool with conns := conns, issued := s.pool.issued ++ [conn] } }
  | [] =>
    { s with
      takes := s.takes ++ [⟨.waiting, none⟩]
      pool := { s.pool with waiters := s.pool.waiters ++ [s.takes.length] } }

/-- Whether the connection was returned to a transport. -/
def wasReturned (s : State) (c : Conn) : Bool := s.takes.any fun t => t.phase = .returned c

/-- One step. A `take` gives up when its timer fires or its context ends, whatever its channel
    holds. -/
def step (s : State) : Action → Option State
  | .offer => some s.offer
  | .take => some s.take
  | .receive i =>
    match s.takes[i]? with
    | some ⟨.waiting, some c⟩ => some { s with takes := s.takes.set i ⟨.received c, none⟩ }
    | _ => none
  | .issue i =>
    match s.takes[i]? with
    | some ⟨.received c, channel⟩ => some
        { s with
          takes := s.takes.set i ⟨.returned c, channel⟩
          pool := { s.pool with issued := s.pool.issued ++ [c] } }
    | _ => none
  | .giveUp i =>
    match s.takes[i]? with
    | some ⟨.waiting, channel⟩ => some { s with takes := s.takes.set i ⟨.gaveUp, channel⟩ }
    | _ => none
  | .hangUp c => if s.wasReturned c then some { s with closed := c :: s.closed } else none
  | .disconnect => some { s with disconnects := s.disconnects ++ [.started s.offered] }
  | .collect j =>
    match s.disconnects[j]? with
    | some (.started before) => some
        { s with
          disconnects := s.disconnects.set j (.closing before (s.pool.conns ++ s.pool.issued))
          pool := { s.pool with conns := [], issued := [] } }
    | _ => none
  | .close j =>
    match s.disconnects[j]? with
    | some (.closing before (c :: todo)) => some
        { s with
          disconnects := s.disconnects.set j (.closing before todo)
          closed := c :: s.closed }
    | _ => none
  | .complete j =>
    match s.disconnects[j]? with
    | some (.closing before []) => some
        { s with disconnects := s.disconnects.set j (.completed before) }
    | _ => none

/-- A call of `Disconnect` has the connection and has not closed it yet. -/
def Closing (s : State) (c : Conn) : Prop :=
  ∃ (j before : Nat) (todo : List Conn), s.disconnects[j]? = some (.closing before todo) ∧ c ∈ todo

/-- Where a connection is that is not lost: in the pool, with a `take` that has not given up (in its
    channel, or received from it), returned by exactly one `take`, or closed (or with a
    `Disconnect` that is closing it). -/
def Accounted (s : State) (c : Conn) : Prop :=
  c ∈ s.pool.conns ∨
    (∃ i : Nat, s.takes[i]? = some ⟨.waiting, some c⟩) ∨
    (∃ i : Nat, (s.takes[i]?).map Take.phase = some (.received c)) ∨
    (∃! i : Nat, (s.takes[i]?).map Take.phase = some (.returned c)) ∨
    c ∈ s.closed ∨ s.Closing c

/-- No `take` gives up with a connection in its channel, no connection is offered to a `take`
    that gave up, and `Disconnect` collects the connections while none that was offered before it
    started is with a `take` or with another `Disconnect`. -/
def careful (s : State) : Action → Bool
  | .offer =>
    match s.pool.waiters with
    | [] => true
    | w :: _ => (s.takes[w]?).all fun t => t.phase ≠ .gaveUp
  | .giveUp i => (s.takes[i]?).all fun t => t.channel = none
  | .collect j =>
    match s.disconnects[j]? with
    | some (.started before) =>
      (List.range before).all fun c =>
        (s.takes.all fun t => t ≠ ⟨.waiting, some c⟩ ∧ t.phase ≠ .received c) &&
          s.disconnects.all fun d =>
            match d with
            | .closing _ todo => decide (c ∉ todo)
            | _ => true
    | _ => true
  | _ => true

end State

/-! ## One connection, one place -/

/-- The call has the connection, in its channel or in hand, or returned it. -/
def Take.Holds (t : Take) (c : Conn) : Prop :=
  t.channel = some c ∨ t.phase = .received c ∨ t.phase = .returned c

namespace State

/-- The call with this number holds the connection. -/
def HeldBy (s : State) (i : Nat) (c : Conn) : Prop := ∃ t, s.takes[i]? = some t ∧ t.Holds c

/-- What every step keeps. A connection that is in the pool or with a call is there once. -/
structure Sound (s : State) : Prop where
  usable : s.pool.closed = false
  parked : ∀ w ∈ s.pool.waiters, ∃ phase, s.takes[w]? = some ⟨phase, none⟩ ∧
    (phase = .waiting ∨ phase = .gaveUp)
  parkedOnce : s.pool.waiters.Nodup
  pooledOnce : s.pool.conns.Nodup
  pooledLt : ∀ c ∈ s.pool.conns, c < s.offered
  heldLt : ∀ i c, s.HeldBy i c → c < s.offered
  heldApart : ∀ i c, s.HeldBy i c → c ∉ s.pool.conns
  heldOnce : ∀ i j c, s.HeldBy i c → s.HeldBy j c → i = j

section
variable {s s' : State} {i j w : Nat} {t t' : Take} {c : Conn}

theorem sound_init : ({} : State).Sound where
  usable := rfl
  parked := by simp
  parkedOnce := List.nodup_nil
  pooledOnce := List.nodup_nil
  pooledLt := by simp
  heldLt := by simp [HeldBy]
  heldApart := by simp [HeldBy]
  heldOnce := by simp [HeldBy]

theorem heldBy_set (ht : s.takes[i]? = some t) :
    ({ s with takes := s.takes.set i t' } : State).HeldBy j c ↔
      if i = j then t'.Holds c else s.HeldBy j c := by
  have hlt : i < s.takes.length := (List.getElem?_eq_some_iff.mp ht).1
  by_cases heq : i = j
  · subst heq
    simp [HeldBy, hlt]
  · simp [HeldBy, heq]

theorem heldBy_append : ({ s with takes := s.takes ++ [t] } : State).HeldBy j c ↔
      s.HeldBy j c ∨ j = s.takes.length ∧ t.Holds c := by
  simp only [HeldBy, List.getElem?_append]
  rcases Nat.lt_trichotomy j s.takes.length with hlt | rfl | hgt
  · simp [hlt, Nat.ne_of_lt hlt]
  · simp
  · have hne : j - s.takes.length ≠ 0 := by omega
    simp [Nat.not_lt_of_gt hgt, hne, Nat.ne_of_gt hgt]

/-- A call goes on with what it has: it holds nothing new, and while it is in the queue it has an
    empty channel. -/
theorem Sound.advance (hs : s.Sound) (ht : s.takes[i]? = some t)
    (hholds : ∀ c, t'.Holds c → t.Holds c)
    (hparked : i ∈ s.pool.waiters → t'.channel = none ∧ (t'.phase = .waiting ∨ t'.phase = .gaveUp)) :
    ({ s with takes := s.takes.set i t' } : State).Sound := by
  have hback : ∀ k c, ({ s with takes := s.takes.set i t' } : State).HeldBy k c → s.HeldBy k c := by
    intro k c h
    rw [heldBy_set ht] at h
    split at h
    next heq =>
      subst heq
      exact ⟨t, ht, hholds c h⟩
    · exact h
  refine ⟨hs.usable, fun w hw => ?_, hs.parkedOnce, hs.pooledOnce, hs.pooledLt,
    fun k c h => hs.heldLt k c (hback k c h), fun k c h => hs.heldApart k c (hback k c h),
    fun k l c h h' => hs.heldOnce k l c (hback k c h) (hback l c h')⟩
  by_cases heq : i = w
  · subst heq
    have hlt : i < s.takes.length := (List.getElem?_eq_some_iff.mp ht).1
    obtain ⟨hchannel, hphase⟩ := hparked hw
    exact ⟨t'.phase, by simp [hlt, ← hchannel], hphase⟩
  · obtain ⟨phase, hw', hphase⟩ := hs.parked w hw
    exact ⟨phase, by simpa [heq] using hw', hphase⟩

/-- The connections leave the pool, or some of them. -/
theorem Sound.shrink (hs : s.Sound) {conns issued : List Conn} (hsub : conns.Sublist s.pool.conns) :
    ({ s with pool := { s.pool with conns, issued } } : State).Sound where
  usable := hs.usable
  parked := hs.parked
  parkedOnce := hs.parkedOnce
  pooledOnce := hs.pooledOnce.sublist hsub
  pooledLt := fun c hc => hs.pooledLt c (hsub.subset hc)
  heldLt := hs.heldLt
  heldApart := fun i c h hc => hs.heldApart i c h (hsub.subset hc)
  heldOnce := hs.heldOnce

/-- What calls of `Disconnect` do and what is closed does not matter here. -/
theorem Sound.rest (hs : s.Sound) {disconnects : List Disconnect} {closed : List Conn} :
    ({ s with disconnects, closed } : State).Sound :=
  ⟨hs.usable, hs.parked, hs.parkedOnce, hs.pooledOnce, hs.pooledLt, hs.heldLt, hs.heldApart,
    hs.heldOnce⟩

/-- A new call, with a connection of nobody else. -/
theorem Sound.enter (hs : s.Sound) {waiters : List Nat} (hwaiters : waiters = s.pool.waiters ∨
      t = ⟨.waiting, none⟩ ∧ waiters = s.pool.waiters ++ [s.takes.length])
    (hfresh : ∀ c, t.Holds c → c < s.offered ∧ c ∉ s.pool.conns ∧ ∀ i, ¬s.HeldBy i c) :
    ({ s with takes := s.takes ++ [t], pool := { s.pool with waiters } } : State).Sound := by
  have hin : ∀ w ∈ s.pool.waiters, w < s.takes.length := by
    intro w hw
    obtain ⟨phase, h, -⟩ := hs.parked w hw
    exact (List.getElem?_eq_some_iff.mp h).1
  have hheld : ∀ k c, ({ s with
      takes := s.takes ++ [t], pool := { s.pool with waiters } } : State).HeldBy k c →
      s.HeldBy k c ∨ k = s.takes.length ∧ t.Holds c := fun k c h => heldBy_append.mp h
  refine ⟨hs.usable, fun w hw => ?_, ?_, hs.pooledOnce, hs.pooledLt, fun k c h => ?_,
    fun k c h => ?_, fun k l c h h' => ?_⟩
  · have hold : ∀ w ∈ s.pool.waiters, ∃ phase, (s.takes ++ [t])[w]? = some ⟨phase, none⟩ ∧
        (phase = .waiting ∨ phase = .gaveUp) := by
      intro w hw
      obtain ⟨phase, h, hphase⟩ := hs.parked w hw
      exact ⟨phase, by rw [List.getElem?_append_left (hin w hw), h], hphase⟩
    rcases hwaiters with rfl | ⟨rfl, rfl⟩
    · exact hold w hw
    · rcases List.mem_append.mp hw with hw | hw
      · exact hold w hw
      · obtain rfl := List.mem_singleton.mp hw
        exact ⟨.waiting, by simp, .inl rfl⟩
  · rcases hwaiters with rfl | ⟨-, rfl⟩
    · exact hs.parkedOnce
    · refine List.nodup_append.mpr ⟨hs.parkedOnce, List.nodup_singleton _, fun w hw k hk => ?_⟩
      rw [List.mem_singleton.mp hk]
      exact Nat.ne_of_lt (hin w hw)
  · rcases hheld k c h with h | ⟨-, h⟩
    · exact hs.heldLt k c h
    · exact (hfresh c h).1
  · rcases hheld k c h with h | ⟨-, h⟩
    · exact hs.heldApart k c h
    · exact (hfresh c h).2.1
  · rcases hheld k c h with hk | ⟨rfl, hk⟩ <;> rcases hheld l c h' with hl | ⟨rfl, hl⟩
    · exact hs.heldOnce k l c hk hl
    · exact absurd hk ((hfresh c hl).2.2 k)
    · exact absurd hl ((hfresh c hk).2.2 l)
    · rfl

/-! ## What an offer does -/

/-- Where the channels of the waiters are empty, the first one gets the connection. -/
theorem Sound.handOff (hs : s.Sound) :
    (s.pool.waiters = [] ∧ handOff s.takes c s.pool.waiters = none) ∨
      ∃ w waiters phase, s.pool.waiters = w :: waiters ∧ s.takes[w]? = some ⟨phase, none⟩ ∧
        (phase = .waiting ∨ phase = .gaveUp) ∧
        handOff s.takes c s.pool.waiters = some (s.takes.set w ⟨phase, some c⟩, waiters) := by
  cases hwaiters : s.pool.waiters with
  | nil => exact .inl ⟨rfl, rfl⟩
  | cons w waiters =>
    obtain ⟨phase, hw, hphase⟩ := hs.parked w (by simp [hwaiters])
    exact .inr ⟨w, waiters, phase, rfl, hw, hphase, by simp [Tunnel.handOff, send, hw]⟩

/-- An offer in a sound state goes to the first waiter or into the pool. -/
theorem Sound.offer_cases (hs : s.Sound) :
    (∃ w waiters phase, s.pool.waiters = w :: waiters ∧ s.takes[w]? = some ⟨phase, none⟩ ∧
        (phase = .waiting ∨ phase = .gaveUp) ∧
        s.offer = { s with
          offered := s.offered + 1
          takes := s.takes.set w ⟨phase, some s.offered⟩
          pool := { s.pool with waiters := waiters } }) ∨
      s.pool.waiters = [] ∧ s.offer = { s with
        offered := s.offered + 1
        pool := { s.pool with conns := s.pool.conns ++ [s.offered], waiters := [] } } := by
  unfold State.offer
  rw [hs.usable]
  rcases hs.handOff (c := s.offered) with ⟨hnil, hnone⟩ | ⟨w, waiters, phase, hw, ht, hphase, hsome⟩
  · exact .inr ⟨hnil, by simp [hnone]⟩
  · exact .inl ⟨w, waiters, phase, hw, ht, hphase, by simp [hsome]⟩

/-- The first waiter gets the new connection. -/
theorem Sound.handTo (hs : s.Sound) {waiters : List Nat} {phase : Phase}
    (hw : s.pool.waiters = w :: waiters) (ht : s.takes[w]? = some ⟨phase, none⟩)
    (hphase : phase = .waiting ∨ phase = .gaveUp) : ({ s with
      offered := s.offered + 1
      takes := s.takes.set w ⟨phase, some s.offered⟩
      pool := { s.pool with waiters := waiters } } : State).Sound := by
  have hnodup := hs.parkedOnce
  rw [hw] at hnodup
  let takes := s.takes.set w ⟨phase, some s.offered⟩
  -- the new connection is with no other call, and this call has no other connection
  have hheld : ∀ k c, { s with takes }.HeldBy k c → k = w ∧ c = s.offered ∨ s.HeldBy k c := by
    intro k c h
    have h := (heldBy_set ht).mp h
    split at h
    next hwk =>
      rcases hphase with rfl | rfl <;> simp only [Take.Holds, Option.some.injEq, reduceCtorEq,
        or_false] at h <;> exact .inl ⟨hwk.symm, h.symm⟩
    · exact .inr h
  refine ⟨hs.usable, fun v hv => ?_, hnodup.of_cons, hs.pooledOnce,
    fun c hc => Nat.lt_succ_of_lt (hs.pooledLt c hc), fun k c h => ?_, fun k c h hc => ?_,
    fun k l c h h' => ?_⟩
  · have hne : w ≠ v := by
      rintro rfl
      exact (List.nodup_cons.mp hnodup).1 hv
    obtain ⟨phase', h, hphase'⟩ := hs.parked v (by simp [hw, hv])
    exact ⟨phase', by simpa [hne] using h, hphase'⟩
  · rcases hheld k c h with ⟨-, rfl⟩ | h
    · exact Nat.lt_succ_self _
    · exact Nat.lt_succ_of_lt (hs.heldLt k c h)
  · rcases hheld k c h with ⟨-, rfl⟩ | h
    · exact Nat.lt_irrefl _ (hs.pooledLt _ hc)
    · exact hs.heldApart k c h hc
  · rcases hheld k c h with ⟨hk, hck⟩ | hk <;> rcases hheld l c h' with ⟨hl, hcl⟩ | hl
    · exact hk.trans hl.symm
    · exact absurd (hs.heldLt l c hl) (hck ▸ Nat.lt_irrefl _)
    · exact absurd (hs.heldLt k c hk) (hcl ▸ Nat.lt_irrefl _)
    · exact hs.heldOnce k l c hk hl

/-- Nobody waits, and the new connection is pooled. -/
theorem Sound.keep (hs : s.Sound) : ({ s with
      offered := s.offered + 1
      pool := { s.pool with conns := s.pool.conns ++ [s.offered], waiters := [] } } : State).Sound := by
  have hconns : ∀ c, c ∈ s.pool.conns ++ [s.offered] ↔ c ∈ s.pool.conns ∨ c = s.offered := by simp
  refine ⟨hs.usable, by simp, List.nodup_nil, ?_, fun c hc => ?_,
    fun k c h => Nat.lt_succ_of_lt (hs.heldLt k c h), fun k c h hc => ?_, hs.heldOnce⟩
  · refine List.nodup_append.mpr ⟨hs.pooledOnce, List.nodup_singleton _, fun c hc d hd => ?_⟩
    rw [List.mem_singleton.mp hd]
    exact Nat.ne_of_lt (hs.pooledLt c hc)
  · rcases (hconns c).mp hc with hc | rfl
    · exact Nat.lt_succ_of_lt (hs.pooledLt c hc)
    · exact Nat.lt_succ_self _
  · rcases (hconns c).mp hc with hc | rfl
    · exact hs.heldApart k c h hc
    · exact Nat.lt_irrefl _ (hs.heldLt k _ h)

theorem Sound.offer (hs : s.Sound) : s.offer.Sound := by
  rcases hs.offer_cases with ⟨w, waiters, phase, hw, ht, hphase, heq⟩ | ⟨-, heq⟩
  · rw [heq]
    exact hs.handTo hw ht hphase
  · rw [heq]
    exact hs.keep

theorem Sound.take (hs : s.Sound) : s.take.Sound := by
  unfold State.take
  split
  next conn conns hconns =>
    have hnodup := hs.pooledOnce
    rw [hconns, List.nodup_cons] at hnodup
    have hsub : conns.Sublist s.pool.conns := by
      rw [hconns]
      exact List.sublist_cons_self conn conns
    have hs' : ({ s with pool := { s.pool with
        conns := conns, issued := s.pool.issued ++ [conn] } } : State).Sound := hs.shrink hsub
    refine hs'.enter (.inl rfl) fun c hc => ?_
    simp only [Take.Holds, reduceCtorEq, Phase.returned.injEq, false_or] at hc
    subst hc
    have hmem : conn ∈ s.pool.conns := by simp [hconns]
    exact ⟨hs.pooledLt conn hmem, hnodup.1, fun i h => hs.heldApart i conn h hmem⟩
  · refine hs.enter (.inr ⟨rfl, rfl⟩) fun c hc => ?_
    simp [Take.Holds] at hc

/-- What a step does. -/
inductive Moves (s : State) : Action → State → Prop where
  | offer : Moves s .offer s.offer
  | take : Moves s .take s.take
  | receive {i : Nat} {c : Conn} (h : s.takes[i]? = some ⟨.waiting, some c⟩) :
      Moves s (.receive i) { s with takes := s.takes.set i ⟨.received c, none⟩ }
  | issue {i : Nat} {c : Conn} {channel : Option Conn} (h : s.takes[i]? = some ⟨.received c, channel⟩) :
      Moves s (.issue i) { s with
        takes := s.takes.set i ⟨.returned c, channel⟩
        pool := { s.pool with issued := s.pool.issued ++ [c] } }
  | giveUp {i : Nat} {channel : Option Conn} (h : s.takes[i]? = some ⟨.waiting, channel⟩) :
      Moves s (.giveUp i) { s with takes := s.takes.set i ⟨.gaveUp, channel⟩ }
  | hangUp {c : Conn} : Moves s (.hangUp c) { s with closed := c :: s.closed }
  | disconnect : Moves s .disconnect { s with disconnects := s.disconnects ++ [.started s.offered] }
  | collect {j before : Nat} (h : s.disconnects[j]? = some (.started before)) :
      Moves s (.collect j) { s with
        disconnects := s.disconnects.set j (.closing before (s.pool.conns ++ s.pool.issued))
        pool := { s.pool with conns := [], issued := [] } }
  | close {j before : Nat} {c : Conn} {todo : List Conn}
      (h : s.disconnects[j]? = some (.closing before (c :: todo))) :
      Moves s (.close j) { s with
        disconnects := s.disconnects.set j (.closing before todo)
        closed := c :: s.closed }
  | complete {j before : Nat} (h : s.disconnects[j]? = some (.closing before [])) :
      Moves s (.complete j) { s with disconnects := s.disconnects.set j (.completed before) }

theorem moves_of_step {a : Action} (h : s.step a = some s') : Moves s a s' := by
  unfold step at h
  split at h
  · cases h
    exact .offer
  · cases h
    exact .take
  all_goals
    first
    | split at h
      next heq =>
        cases h
        first
        | exact .receive heq
        | exact .issue heq
        | exact .giveUp heq
        | exact .hangUp
        | exact .collect heq
        | exact .close heq
        | exact .complete heq
      next => cases h
    | cases h
      exact .disconnect

theorem Sound.step (hs : s.Sound) {a : Action} (h : s.step a = some s') : s'.Sound := by
  cases moves_of_step h with
  | offer => exact hs.offer
  | take => exact hs.take
  | receive ht =>
    refine hs.advance ht (by simp [Take.Holds]) fun hmem => ?_
    obtain ⟨phase, h, -⟩ := hs.parked _ hmem
    simp [ht] at h
  | @issue i c channel ht =>
    have hs' : ({ s with takes := s.takes.set i ⟨.returned c, channel⟩ } : State).Sound := by
      refine hs.advance ht (by simp [Take.Holds]) fun hmem => ?_
      obtain ⟨phase, h, hphase⟩ := hs.parked _ hmem
      simp only [ht, Option.some.injEq, Take.mk.injEq] at h
      obtain ⟨rfl, -⟩ := h
      simp at hphase
    exact hs'.shrink (List.Sublist.refl _)
  | giveUp ht =>
    refine hs.advance ht (by simp [Take.Holds]) fun hmem => ?_
    obtain ⟨phase, h, -⟩ := hs.parked _ hmem
    simp only [ht, Option.some.injEq, Take.mk.injEq] at h
    exact ⟨h.2, .inr rfl⟩
  | hangUp | disconnect | close | complete => exact hs.rest
  | collect =>
    have hs' : ({ s with pool := { s.pool with conns := [], issued := [] } } : State).Sound :=
      hs.shrink (List.nil_sublist _)
    exact hs'.rest

end

end State

/-! ## No connection is lost -/

/-- The call has the connection and has not given up, or returned it. -/
def Take.Keeps (t : Take) (c : Conn) : Prop :=
  t = ⟨.waiting, some c⟩ ∨ t.phase = .received c ∨ t.phase = .returned c

namespace State

/-- Where a connection can be found. -/
def Located (s : State) (c : Conn) : Prop :=
  c ∈ s.pool.conns ∨ (∃ (i : Nat) (t : Take), s.takes[i]? = some t ∧ t.Keeps c) ∨
    c ∈ s.closed ∨ s.Closing c

/-- What a call of `Disconnect` has achieved. -/
def Achieved (s : State) : Disconnect → Prop
  | .started before => before ≤ s.offered
  | .closing before todo => ∀ c < before, c ∈ s.closed ∨ c ∈ todo
  | .completed before => ∀ c < before, c ∈ s.closed

/-- What careful steps keep. -/
structure Kept (s : State) : Prop where
  located : ∀ c < s.offered, s.Located c
  returned : ∀ (i : Nat) (c : Conn), (s.takes[i]?).map Take.phase = some (.returned c) →
    c ∈ s.pool.issued ∨ c ∈ s.closed ∨ s.Closing c
  achieved : ∀ d ∈ s.disconnects, s.Achieved d

section
variable {s s' : State} {i j k : Nat} {t t' u : Take} {c : Conn} {before : Nat}

theorem kept_init : ({} : State).Kept where
  located := by simp
  returned := by simp
  achieved := by simp

theorem get_set_keep (ht : s.takes[i]? = some t) (hu : s.takes[k]? = some u) :
    k = i ∧ u = t ∨ (s.takes.set i t')[k]? = some u := by
  by_cases heq : k = i
  · subst heq
    exact .inl ⟨rfl, Option.some.inj (hu.symm.trans ht)⟩
  · exact .inr (by simpa [Ne.symm heq] using hu)

/-- A call goes on and keeps its connection. -/
theorem Located.advance (hc : s.Located c) (ht : s.takes[i]? = some t)
    (hkeeps : ∀ c, t.Keeps c → t'.Keeps c) :
    ({ s with takes := s.takes.set i t' } : State).Located c := by
  rcases hc with h | ⟨k, u, hu, hkeep⟩ | h | h
  · exact .inl h
  · have hlt : i < s.takes.length := (List.getElem?_eq_some_iff.mp ht).1
    rcases @get_set_keep s i k t t' u ht hu with ⟨rfl, rfl⟩ | hu'
    · exact .inr (.inl ⟨k, t', by simp [hlt], hkeeps c hkeep⟩)
    · exact .inr (.inl ⟨k, u, hu', hkeep⟩)
  · exact .inr (.inr (.inl h))
  · exact .inr (.inr (.inr h))

theorem Kept.advance (hk : s.Kept) (ht : s.takes[i]? = some t)
    (hkeeps : ∀ c, t.Keeps c → t'.Keeps c)
    (hreturned : ∀ c, t'.phase = .returned c → c ∈ s.pool.issued ∨ c ∈ s.closed ∨ s.Closing c) :
    ({ s with takes := s.takes.set i t' } : State).Kept where
  located := fun c hc => (hk.located c hc).advance ht hkeeps
  returned := fun k c h => by
    have hlt : i < s.takes.length := (List.getElem?_eq_some_iff.mp ht).1
    by_cases heq : i = k
    · subst heq
      simp only [List.getElem?_set_self hlt, Option.map_some, Option.some.injEq] at h
      exact hreturned c h
    · simp only [List.getElem?_set_ne heq] at h
      exact hk.returned k c h
  achieved := hk.achieved

/-- More connections are issued. -/
theorem Kept.issued (hk : s.Kept) :
    ({ s with pool := { s.pool with issued := s.pool.issued ++ [c] } } : State).Kept where
  located := hk.located
  returned := fun k d h => (hk.returned k d h).imp_left (List.mem_append_left _)
  achieved := hk.achieved

/-- One more connection is offered. -/
theorem Kept.offered (hk : s.Kept) {waiters : List Nat} (hnew : s.Located s.offered) :
    ({ s with offered := s.offered + 1, pool := { s.pool with waiters } } : State).Kept where
  located := fun c hc => by
    rcases Nat.lt_succ_iff_lt_or_eq.mp hc with hc | rfl
    · exact hk.located c hc
    · exact hnew
  returned := hk.returned
  achieved := fun d hd => by
    have h := hk.achieved d hd
    cases d with
    | started => exact Nat.le_succ_of_le h
    | closing | completed => exact h

theorem Kept.offer (hs : s.Sound) (hk : s.Kept) (hok : s.careful .offer = true) : s.offer.Kept := by
  rcases hs.offer_cases with ⟨w, waiters, phase, hw, ht, hphase, heq⟩ | ⟨-, heq⟩
  · rw [heq]
    have hlive : phase ≠ .gaveUp := by simpa [careful, hw, ht] using hok
    obtain rfl := hphase.resolve_right hlive
    have hlt : w < s.takes.length := (List.getElem?_eq_some_iff.mp ht).1
    have hk' : ({ s with takes := s.takes.set w ⟨.waiting, some s.offered⟩ } : State).Kept :=
      hk.advance ht (by simp [Take.Keeps]) (by simp)
    exact hk'.offered (.inr (.inl ⟨w, _, by simp [hlt], .inl rfl⟩))
  · rw [heq]
    have hk' : ({ s with
        pool := { s.pool with conns := s.pool.conns ++ [s.offered] } } : State).Kept :=
      ⟨fun c hc => (hk.located c hc).imp_left (List.mem_append_left _), hk.returned, hk.achieved⟩
    exact hk'.offered (.inl (by simp))

/-- A new call of `take`. -/
theorem Kept.enter (hk : s.Kept) {waiters : List Nat}
    (hreturned : ∀ c, t.phase = .returned c → c ∈ s.pool.issued) :
    ({ s with takes := s.takes ++ [t], pool := { s.pool with waiters } } : State).Kept where
  located := fun c hc => by
    rcases hk.located c hc with h | ⟨k, u, hu, hkeep⟩ | h
    · exact .inl h
    · have hlt : k < s.takes.length := (List.getElem?_eq_some_iff.mp hu).1
      exact .inr (.inl ⟨k, u, by simpa [List.getElem?_append_left hlt] using hu, hkeep⟩)
    · exact .inr (.inr h)
  returned := fun k c h => by
    simp only [List.getElem?_append] at h
    split at h
    · exact hk.returned k c h
    · obtain ⟨u, hu, hphase⟩ := Option.map_eq_some_iff.mp h
      obtain rfl := List.mem_singleton.mp (List.mem_of_getElem? hu)
      exact .inl (hreturned c hphase)
  achieved := hk.achieved

theorem Kept.take (hk : s.Kept) : s.take.Kept := by
  unfold State.take
  split
  next conn conns hconns =>
    have hk' : ({ s with
        takes := s.takes ++ [⟨.returned conn, none⟩]
        pool := { s.pool with issued := s.pool.issued ++ [conn] } } : State).Kept :=
      (hk.issued (c := conn)).enter (by simp)
    refine ⟨fun c hc => ?_, hk'.returned, hk'.achieved⟩
    rcases hk'.located c hc with h | h
    · rw [show s.pool.conns = conn :: conns from hconns] at h
      rcases List.mem_cons.mp h with rfl | h
      · exact .inr (.inl ⟨s.takes.length, ⟨.returned c, none⟩, by simp, .inr (.inr rfl)⟩)
      · exact .inl h
    · exact .inr h
  · exact hk.enter (by simp)

/-- Connections are closed and calls of `Disconnect` go on. -/
theorem Kept.settle (hk : s.Kept) {disconnects : List Disconnect} {closed : List Conn}
    (hends : ∀ c, c ∈ s.closed ∨ s.Closing c →
      c ∈ closed ∨ ({ s with disconnects, closed } : State).Closing c)
    (hachieved : ∀ d ∈ disconnects, ({ s with disconnects, closed } : State).Achieved d) :
    ({ s with disconnects, closed } : State).Kept where
  located := fun c hc => (hk.located c hc).imp_right fun h => h.imp_right (hends c)
  returned := fun i c h => (hk.returned i c h).imp_right (hends c)
  achieved := hachieved

/-- More closed connections take nothing from what a call achieved. -/
theorem Achieved.mono {d : Disconnect} {disconnects : List Disconnect} {closed : List Conn}
    (h : s.Achieved d) (hsub : ∀ c ∈ s.closed, c ∈ closed) :
    ({ s with disconnects, closed } : State).Achieved d := by
  cases d with
  | started => exact h
  | closing => exact fun c hc => (h c hc).imp_left (hsub c)
  | completed => exact fun c hc => hsub c (h c hc)

/-- A call of `Disconnect` that goes on: what it still has to close stays or is closed. -/
theorem Kept.proceed (hk : s.Kept) {d d' : Disconnect} {closed : List Conn}
    (hj : s.disconnects[j]? = some d) (hsub : ∀ c ∈ s.closed, c ∈ closed)
    (htodo : ∀ before todo, d = .closing before todo → ∀ c ∈ todo,
      c ∈ closed ∨ ∃ before' todo', d' = .closing before' todo' ∧ c ∈ todo')
    (hd' : ({ s with disconnects := s.disconnects.set j d', closed } : State).Achieved d') :
    ({ s with disconnects := s.disconnects.set j d', closed } : State).Kept := by
  have hlt : j < s.disconnects.length := (List.getElem?_eq_some_iff.mp hj).1
  refine hk.settle (fun c h => ?_) fun e he => ?_
  · rcases h with h | ⟨k, before, todo, hk', hc⟩
    · exact .inl (hsub c h)
    · by_cases heq : j = k
      · subst heq
        cases hj.symm.trans hk'
        rcases htodo before todo rfl c hc with h | ⟨before', todo', rfl, hc'⟩
        · exact .inl h
        · exact .inr ⟨j, before', todo', by simp [hlt], hc'⟩
      · exact .inr ⟨k, before, todo, by simpa [heq] using hk', hc⟩
  · rcases List.mem_or_eq_of_mem_set he with he | rfl
    · exact (hk.achieved e he).mono hsub
    · exact hd'

/-- While `Disconnect` collects with care, a connection offered before it started is in the pool,
    issued, or closed. -/
theorem Kept.collected (hk : s.Kept)
    (hj : s.disconnects[j]? = some (.started before)) (hok : s.careful (.collect j) = true)
    (hc : c < before) : c ∈ s.closed ∨ c ∈ s.pool.conns ++ s.pool.issued := by
  simp only [careful, hj, List.all_eq_true, List.mem_range, Bool.and_eq_true,
    decide_eq_true_eq] at hok
  obtain ⟨htakes, hclosing⟩ := hok c hc
  have hnot : ¬s.Closing c := by
    rintro ⟨k, b, todo, hmem, htodo⟩
    have h := hclosing _ (List.mem_of_getElem? hmem)
    simp only [decide_eq_true_eq] at h
    exact h htodo
  have hle : before ≤ s.offered := hk.achieved _ (List.mem_of_getElem? hj)
  rcases hk.located c (Nat.lt_of_lt_of_le hc hle) with h | ⟨i, t, ht, hkeep⟩ | h | h
  · exact .inr (List.mem_append_left _ h)
  · obtain ⟨hwaiting, hreceived⟩ := htakes t (List.mem_of_getElem? ht)
    have hphase : t.phase = .returned c := (hkeep.resolve_left hwaiting).resolve_left hreceived
    rcases hk.returned i c (by rw [ht, Option.map_some, hphase]) with h | h | h
    · exact .inr (List.mem_append_right _ h)
    · exact .inl h
    · exact absurd h hnot
  · exact .inl h
  · exact absurd h hnot

theorem Kept.collect (hk : s.Kept)
    (hj : s.disconnects[j]? = some (.started before)) (hok : s.careful (.collect j) = true) :
    ({ s with
      disconnects := s.disconnects.set j (.closing before (s.pool.conns ++ s.pool.issued))
      pool := { s.pool with conns := [], issued := [] } } : State).Kept := by
  let s₁ : State := { s with
    disconnects := s.disconnects.set j (.closing before (s.pool.conns ++ s.pool.issued)) }
  have hk' : s₁.Kept :=
    hk.proceed hj (fun _ h => h) (by simp) fun c hc => hk.collected hj hok hc
  have hlt : j < s.disconnects.length := (List.getElem?_eq_some_iff.mp hj).1
  have hclosing : ∀ c ∈ s.pool.conns ++ s.pool.issued, s₁.Closing c :=
    fun c hc => ⟨j, before, _, by simp [s₁, hlt], hc⟩
  refine ⟨fun c hc => ?_, fun i c h => .inr ?_, hk'.achieved⟩
  · rcases hk'.located c hc with h | h
    · exact .inr (.inr (.inr (hclosing c (List.mem_append_left _ h))))
    · exact .inr h
  · rcases hk'.returned i c h with h | h
    · exact .inr (hclosing c (List.mem_append_right _ h))
    · exact h

theorem Kept.step (hs : s.Sound) (hk : s.Kept) {a : Action} (hok : s.careful a = true)
    (h : s.step a = some s') : s'.Kept := by
  cases moves_of_step h with
  | offer => exact hk.offer hs hok
  | take => exact hk.take
  | receive ht => exact hk.advance ht (by simp [Take.Keeps]) (by simp)
  | @issue i c channel ht =>
    refine (hk.issued (c := c)).advance ht (by simp [Take.Keeps]) fun d hd => .inl ?_
    simp only [Phase.returned.injEq] at hd
    simp [hd]
  | @giveUp i channel ht =>
    have hempty : channel = none := by simpa [careful, ht] using hok
    exact hk.advance ht (by simp [Take.Keeps, hempty]) (by simp)
  | hangUp =>
    exact hk.settle (fun c h => h.imp_left (List.mem_cons_of_mem _)) fun d hd =>
      (hk.achieved d hd).mono fun c => List.mem_cons_of_mem _
  | disconnect =>
    refine hk.settle (fun c h => h.imp_right ?_) fun d hd => ?_
    · rintro ⟨k, before, todo, hk', hc⟩
      have hlt : k < s.disconnects.length := (List.getElem?_eq_some_iff.mp hk').1
      exact ⟨k, before, todo, by simpa [List.getElem?_append_left hlt] using hk', hc⟩
    · rcases List.mem_append.mp hd with hd | hd
      · exact (hk.achieved d hd).mono fun c h => h
      · rw [List.mem_singleton.mp hd]
        exact Nat.le_refl _
  | collect hj => exact hk.collect hj hok
  | @close j before c todo hj =>
    refine hk.proceed hj (fun c => List.mem_cons_of_mem _) (fun b l heq d hd => ?_) fun d hd => ?_
    · cases heq
      rcases List.mem_cons.mp hd with rfl | hd
      · exact .inl (List.mem_cons_self ..)
      · exact .inr ⟨before, todo, rfl, hd⟩
    · rcases hk.achieved _ (List.mem_of_getElem? hj) d hd with h | h
      · exact .inl (List.mem_cons_of_mem _ h)
      · rcases List.mem_cons.mp h with rfl | h
        · exact .inl (List.mem_cons_self ..)
        · exact .inr h
  | complete hj =>
    refine hk.proceed hj (fun c h => h) (fun b l heq d hd => ?_) fun d hd => ?_
    · cases heq
      simp at hd
    · simpa using hk.achieved _ (List.mem_of_getElem? hj) d hd

/-- A call that holds a connection is the only one that returned it. -/
theorem Located.accounted (hs : s.Sound) (hc : s.Located c) : s.Accounted c := by
  rcases hc with h | ⟨i, t, ht, rfl | hphase | hphase⟩ | h | h
  · exact .inl h
  · exact .inr (.inl ⟨i, ht⟩)
  · exact .inr (.inr (.inl ⟨i, by rw [ht, Option.map_some, hphase]⟩))
  · refine .inr (.inr (.inr (.inl ⟨i, by simp [ht, hphase], fun j hj => ?_⟩)))
    obtain ⟨u, hu, huphase⟩ := Option.map_eq_some_iff.mp hj
    exact hs.heldOnce j i c ⟨u, hu, .inr (.inr huphase)⟩ ⟨t, ht, .inr (.inr hphase)⟩
  · exact .inr (.inr (.inr (.inr (.inl h))))
  · exact .inr (.inr (.inr (.inr (.inr h))))

end

/-- In every run of careful steps: at every point each connection that was offered is in the pool,
    with a `take` that has not given up, returned by exactly one `take`, or closed; and when a call
    of `Disconnect` has completed, each connection offered before it started is closed. -/
theorem no_connection_lost {s : State}
    (h : Txn.Steps step (fun s a => s.careful a = true) {} s) :
    (∀ c < s.offered, s.Accounted c) ∧
      ∀ before, .completed before ∈ s.disconnects → ∀ c < before, c ∈ s.closed := by
  have hinv : s.Sound ∧ s.Kept :=
    Txn.Steps.invariant (K := fun s => s.Sound ∧ s.Kept) ⟨sound_init, kept_init⟩
      (fun hk hok hs => ⟨hk.1.step hs, hk.2.step hk.1 hok hs⟩) h
  exact ⟨fun c hc => (hinv.2.located c hc).accounted hinv.1,
    fun before hmem => hinv.2.achieved _ hmem⟩

/-- One connection is pooled and taken, one is handed to a request that waits, and a third one is
    in the pool when the agent is disconnected. -/
def handover : List Action :=
  [.offer, .take, .take, .offer, .receive 1, .issue 1, .offer, .disconnect, .collect 0, .close 0,
    .close 0, .close 0, .complete 0]

theorem no_connection_lost_handover :
    ∃ s : State, Txn.playSteps step careful {} handover = some s ∧
      .completed 3 ∈ s.disconnects ∧ ∀ c < 3, c ∈ s.closed := by
  have hplay : (Txn.playSteps step careful {} handover).map State.disconnects =
      some [.completed 3] := by decide
  obtain ⟨s, hs, hdone⟩ := Option.map_eq_some_iff.mp hplay
  have hmem : .completed 3 ∈ s.disconnects := by simp [hdone]
  exact ⟨s, hs, hmem, (no_connection_lost (Txn.playSteps_run hs)).2 3 hmem⟩

/-- A request times out, and the next connection goes into its channel for ever. And a request has
    been handed a connection when the agent is disconnected, and returns it afterwards. -/
theorem no_connection_lost_abandoned :
    (∃ s : State, Txn.Steps step (fun _ _ => True) {} s ∧ 0 < s.offered ∧ ¬s.Accounted 0) ∧
      ∃ s : State, Txn.Steps step (fun _ _ => True) {} s ∧ .completed 1 ∈ s.disconnects ∧
        (s.takes[0]?).map Take.phase = some (.returned 0) ∧ 0 ∉ s.closed := by
  have hlost : Txn.playSteps step (fun _ _ => true) {} [.take, .giveUp 0, .offer] =
      some { takes := [⟨.gaveUp, some 0⟩], offered := 1 } := by decide
  have hlate : Txn.playSteps step (fun _ _ => true) {}
      [.take, .offer, .disconnect, .collect 0, .complete 0, .receive 0, .issue 0] =
      some {
        pool := { issued := [0] }
        takes := [⟨.returned 0, none⟩]
        disconnects := [.completed 1]
        offered := 1 } := by decide
  refine ⟨⟨_, (Txn.playSteps_run hlost).mono fun _ _ _ => trivial, by decide, ?_⟩,
    ⟨_, (Txn.playSteps_run hlate).mono fun _ _ _ => trivial, by decide, by decide, by decide⟩⟩
  rintro (h | ⟨i, h⟩ | ⟨i, h⟩ | ⟨i, h, -⟩ | h | ⟨j, before, todo, h, -⟩)
  · exact absurd h (by decide)
  · rcases i with _ | i <;> simp at h
  · rcases i with _ | i <;> simp at h
  · rcases i with _ | i <;> simp at h
  · exact absurd h (by decide)
  · simp at h

/-- In every run, whoever gives up or disconnects when: a connection that a call holds or has
    returned was offered, is held by no other call and is not in the pool, where each is once. -/
theorem connections_not_shared {s : State} (h : Txn.Steps step (fun _ _ => True) {} s) :
    s.pool.conns.Nodup ∧ ∀ i c, s.HeldBy i c →
      c < s.offered ∧ c ∉ s.pool.conns ∧ ∀ j, s.HeldBy j c → j = i := by
  have hs : s.Sound := Txn.Steps.invariant sound_init (fun hk _ hstep => hk.step hstep) h
  refine ⟨hs.pooledOnce, fun i c hi => ⟨hs.heldLt i c hi, hs.heldApart i c hi, fun j hj => ?_⟩⟩
  exact hs.heldOnce j i c hj hi

theorem connections_not_shared_handover :
    ∃ s : State, Txn.Steps step (fun _ _ => True) {} s ∧ s.HeldBy 1 1 ∧
      ∀ j, s.HeldBy j 1 → j = 1 := by
  have hplay : (Txn.playSteps step careful {} handover).map (fun s => s.takes[1]?) =
      some (some ⟨.returned 1, none⟩) := by decide
  obtain ⟨s, hs, htake⟩ := Option.map_eq_some_iff.mp hplay
  have hrun : Txn.Steps step (fun _ _ => True) {} s := (Txn.playSteps_run hs).mono fun _ _ _ => trivial
  have hheld : s.HeldBy 1 1 := ⟨_, htake, .inr (.inr rfl)⟩
  exact ⟨s, hrun, hheld, ((connections_not_shared hrun).2 1 1 hheld).2.2⟩

end State

end Ultracore.Tunnel
