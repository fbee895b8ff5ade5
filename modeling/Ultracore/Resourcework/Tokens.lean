-- SUMMARY: When the provider's object accepts the stored token.
import Ultracore.Resourcework.Exposure
import Ultracore.Resourcework.Queue

/-!
# Tokens and handles

Two restarts that overlap can rotate the token in one order and reach the provider in the
other, and a `Provision` that is redelivered makes a resource ready without looking at the
token. `serialized` lets no second worker in, and no worker stop where the resource is exposed.
-/

namespace Ultracore.Resourcework

open Txn

variable {svc : Service}

/-- One `Provision` or `Restart` at a time, none that stops where it must not, and no
    termination. -/
def serialized (w : World Db Proc) (a : Action Input Nat Proc) : Bool :=
  match a with
  | .spawn p => !p.terminates && (!p.works || w.procs.all fun q => !q.any fun q => q.works || q.fails)
  | _ =>
    match a.subject.bind fun j => w.procs[j]? with
    | some (some p) => !p.stops a
    | _ => true

/-- At most one worker, whose point says how the tables are; without one they are settled, or
    the resource is at its end, or about to be failed. -/
structure Coherent (w : World Db Proc) : Prop where
  knows : ∀ {j : Nat} {p : Proc}, w.procs[j]? = some (some p) → Knows w.db p
  single : ∀ {i j : Nat} {p p' : Proc}, w.procs[i]? = some (some p) →
    w.procs[j]? = some (some p') → p.works = true → p'.works = true → i = j
  standing : Settled w.db ∨
    (Ended w.db ∧ ∀ {j : Nat} {p : Proc}, w.procs[j]? = some (some p) → p.pastRead = false) ∨
    (∃ (j : Nat) (p : Proc), w.procs[j]? = some (some p) ∧ p.exposed = true) ∨
    (∃ (j : Nat) (p : Proc), w.procs[j]? = some (some p) ∧ p.fails = true) ∧
      ∀ {j : Nat} {p : Proc}, w.procs[j]? = some (some p) → p.works = false

section
variable {w : World Db Proc} {a : Action Input Nat Proc} {j : Nat} {d' : Db} {p : Proc}
  {r : Option Proc} {ws : List Write}

theorem Coherent.standing_of (h : Coherent w) (hj : w.procs[j]? = some (some p))
    (hp : p.works = true) : Standing w.db p := by
  rcases h.standing with hsettled | ⟨hended, hread⟩ | ⟨m, q, hm, hexp⟩ | ⟨-, hnone⟩
  · exact .inl hsettled
  · exact .inr (.inr ⟨hended, hread hj⟩)
  · obtain rfl := h.single hm hj (Proc.exposed_works hexp) hp
    cases Option.some.inj (hm.symm.trans hj)
    exact .inr (.inl (by simp [hexp]))
  · simp [hnone hj] at hp

/-- The worker moves. -/
theorem Coherent.work (h : Coherent w) (hj : w.procs[j]? = some (some p)) (hp : p.works = true)
    (hk : ∀ q, r = some q → Knows d' q) (hs : Standing d' (r.getD .done)) :
    Coherent ⟨d', w.procs.set j r⟩ := by
  have hothers : ∀ {m : Nat} {q : Proc}, m ≠ j → w.procs[m]? = some (some q) → q.works = false := by
    intro m q hne hm
    cases hq : q.works with
    | false => rfl
    | true => exact absurd (h.single hm hj hq hp) hne
  have hself : (w.procs.set j r)[j]? = some r :=
    List.getElem?_set_self (List.getElem?_eq_some_iff.mp hj).1
  have hworks : ∀ {m : Nat} {q : Proc}, (w.procs.set j r)[m]? = some (some q) →
      q.works = true → m = j := by
    intro m q hm hq
    rcases Machine.get_set_cases hm with ⟨rfl, -⟩ | ⟨hne, hold⟩
    · rfl
    · simp [hothers hne hold] at hq
  refine ⟨fun hm => ?_, fun hi hi' hp hp' => (hworks hi hp).trans (hworks hi' hp').symm, ?_⟩
  · rcases Machine.get_set_cases hm with ⟨rfl, heq⟩ | ⟨hne, hold⟩
    · exact hk _ heq.symm
    · exact .of_aside (hothers hne hold) (h.knows hold).not_terminates
  · rcases hs with hsettled | hexp | ⟨hended, hread⟩
    · exact .inl hsettled
    · cases r with
      | none => cases hexp
      | some q =>
        rcases Bool.or_eq_true_iff.mp hexp with hexp | hfails
        · exact .inr (.inr (.inl ⟨j, q, hself, hexp⟩))
        · refine .inr (.inr (.inr ⟨⟨j, q, hself, hfails⟩, fun hm => ?_⟩))
          rcases Machine.get_set_cases hm with ⟨-, heq⟩ | ⟨hne, hold⟩
          · cases heq
            exact Proc.fails_aside hfails
          · exact hothers hne hold
    · refine .inr (.inl ⟨hended, fun hm => ?_⟩)
      rcases Machine.get_set_cases hm with ⟨-, rfl⟩ | ⟨hne, hold⟩
      · exact hread
      · exact Proc.pastRead_aside (hothers hne hold)

/-- Someone else moves. -/
theorem Coherent.others (h : Coherent w) (hj : w.procs[j]? = some (some p)) (hp : p.works = false)
    (hframe : Frame w.db d') (hr : ∀ q, r = some q → q.works = false ∧ q.terminates = false)
    (hfails : p.fails = true → Ended d') : Coherent ⟨d', w.procs.set j r⟩ := by
  have hstays : ∀ {m : Nat} {q : Proc}, w.procs[m]? = some (some q) → m ≠ j →
      (w.procs.set j r)[m]? = some (some q) := by
    intro m q hm hne
    rw [List.getElem?_set_ne hne.symm]
    exact hm
  have hold : ∀ {m : Nat} {q : Proc}, (w.procs.set j r)[m]? = some (some q) →
      w.procs[m]? = some (some q) ∨ q.works = false ∧ q.terminates = false := by
    intro m q hm
    rcases Machine.get_set_cases hm with ⟨-, heq⟩ | ⟨-, hold⟩
    · exact .inr (hr q heq.symm)
    · exact .inl hold
  refine ⟨fun hm => ?_, fun hi hi' hp hp' => ?_, ?_⟩
  · rcases hold hm with hm | ⟨hq, hterm⟩
    · exact hframe.knows (h.knows hm)
    · exact Knows.of_aside hq hterm
  · have hi := (hold hi).resolve_right (by simp [hp])
    have hi' := (hold hi').resolve_right (by simp [hp'])
    exact h.single hi hi' hp hp'
  · rcases h.standing with hsettled | ⟨hended, hread⟩ | ⟨m, q, hm, hexp⟩ | ⟨⟨m, q, hm, hq⟩, hnone⟩
    · exact .inl (hframe.settled hsettled)
    · refine .inr (.inl ⟨hframe.ended hended, fun hm => ?_⟩)
      rcases hold hm with hm | ⟨hq, -⟩
      · exact hread hm
      · exact Proc.pastRead_aside hq
    · refine .inr (.inr (.inl ⟨m, q, hstays hm ?_, hexp⟩))
      rintro rfl
      cases Option.some.inj (hm.symm.trans hj)
      simp [Proc.exposed_works hexp] at hp
    · have hnone' : ∀ {m : Nat} {q : Proc}, (w.procs.set j r)[m]? = some (some q) →
          q.works = false := by
        intro m q hm
        exact (hold hm).elim (fun hm => hnone hm) fun hq => hq.1
      by_cases hmj : m = j
      · subst hmj
        cases Option.some.inj (hm.symm.trans hj)
        exact .inr (.inl ⟨hfails hq, fun hm => Proc.pastRead_aside (hnone' hm)⟩)
      · exact .inr (.inr (.inr ⟨⟨m, q, hstays hm hmj, hq⟩, hnone'⟩))

theorem serialized_stops (hok : serialized w a = true) (ha : a.subject = some j)
    (hj : w.procs[j]? = some (some p)) : p.stops a = false := by
  cases a with
  | spawn | env => cases ha
  | _ =>
    cases ha
    simpa [serialized, Action.subject, hj] using hok

theorem Coherent.spawn (h : Coherent w) (hok : serialized w (.spawn p) = true)
    (hspawn : p.canSpawn w.db = true) : Coherent ⟨w.db, w.procs ++ [some p]⟩ := by
  simp only [serialized, Bool.and_eq_true, Bool.not_eq_true', Bool.or_eq_true,
    List.all_eq_true] at hok
  obtain ⟨hterm, hfree⟩ := hok
  have hfree : p.works = true → ∀ {m : Nat} {q : Proc}, w.procs[m]? = some (some q) →
      q.works = false ∧ q.fails = false := by
    intro hp m q hm
    simpa using (hfree.resolve_left (by simp [hp])) (some q) (List.mem_of_getElem? hm)
  have hstart : p.pastRead = false ∧ ∀ {d}, Knows d p := by
    cases p <;> first | exact ⟨rfl, hterm⟩ | cases hspawn
  have hstays : ∀ {m : Nat} {q : Proc}, w.procs[m]? = some (some q) →
      (w.procs ++ [some p])[m]? = some (some q) := by
    intro m q hm
    rw [List.getElem?_append_left (List.getElem?_eq_some_iff.mp hm).1]
    exact hm
  refine ⟨fun hm => ?_, fun hi hi' hq hq' => ?_, ?_⟩
  · rcases Machine.get_append_cases hm with hold | ⟨-, hnew⟩
    · exact h.knows hold
    · cases hnew
      exact hstart.2
  · rcases Machine.get_append_cases hi with hold | ⟨hlen, hnew⟩ <;>
      rcases Machine.get_append_cases hi' with hold' | ⟨hlen', hnew'⟩
    · exact h.single hold hold' hq hq'
    · cases hnew'
      simp [(hfree hq' hold).1] at hq
    · cases hnew
      simp [(hfree hq hold').1] at hq'
    · exact hlen.trans hlen'.symm
  · rcases h.standing with hsettled | ⟨hended, hread⟩ | ⟨m, q, hm, hexp⟩ | ⟨⟨m, q, hm, hq⟩, hnone⟩
    · exact .inl hsettled
    · refine .inr (.inl ⟨hended, fun hm => ?_⟩)
      rcases Machine.get_append_cases hm with hold | ⟨-, hnew⟩
      · exact hread hold
      · cases hnew
        exact hstart.1
    · exact .inr (.inr (.inl ⟨m, q, hstays hm, hexp⟩))
    · refine .inr (.inr (.inr ⟨⟨m, q, hstays hm, hq⟩, fun hm' => ?_⟩))
      rcases Machine.get_append_cases hm' with hold | ⟨-, hnew⟩
      · exact hnone hold
      · cases hnew
        cases hp : p.works with
        | false => rfl
        | true => simp [(hfree hp hm).2] at hq

theorem Coherent.crash (h : Coherent w) (hok : serialized w (.crash j) = true) :
    Coherent ⟨w.db, w.procs.set j none⟩ := by
  cases hj : w.procs[j]? with
  | none =>
    rw [List.set_eq_of_length_le (List.getElem?_eq_none_iff.mp hj)]
    exact h
  | some sl =>
    cases sl with
    | none =>
      obtain ⟨hlen, hget⟩ := List.getElem?_eq_some_iff.mp hj
      rw [← hget, List.set_getElem_self]
      exact h
    | some p =>
      have hstops := serialized_stops hok rfl hj
      simp only [Proc.stops, Bool.or_eq_false_iff] at hstops
      cases hp : p.works with
      | true =>
        refine h.work hj hp (fun _ hq => by cases hq) ?_
        exact (h.standing_of hj hp).rest hstops.1 hstops.2 (.inr rfl)
      | false =>
        refine h.others hj hp (.same rfl rfl) (fun _ hq => by cases hq) fun hfails => ?_
        simp [hstops.2] at hfails

theorem Coherent.moves {w' : World Db Proc} (h : Coherent w) (hok : serialized w a = true)
    (hm : Moves svc w a ws w') (hfresh : Fresh w a w') : Coherent w' := by
  cases hm with
  | @commit j p p' ws hj hc =>
    have hread := hfresh rfl hj (List.getElem?_set_self (List.getElem?_eq_some_iff.mp hj).1)
    cases hp : p.works with
    | true =>
      have hleft := hc.work hp hread (h.knows hj) (h.standing_of hj hp)
      exact h.work hj hp (fun _ hq => Option.some.inj hq ▸ hleft.1) hleft.2
    | false =>
      have hterm := (h.knows hj).not_terminates
      refine h.others hj hp (hc.frame hp hterm) (fun _ hq => ?_) hc.fails_ended
      exact Option.some.inj hq ▸ hc.aside hp hterm
  | @lose j p p' i ws hj hc =>
    cases hp : p.works with
    | true =>
      have hleft := hc.lost (i := i) (e := .broken) hp (serialized_stops hok rfl hj)
        (h.knows hj) (h.standing_of hj hp)
      exact h.work hj hp (fun _ hq => Option.some.inj hq ▸ hleft.1) hleft.2
    | false =>
      have hterm := (h.knows hj).not_terminates
      refine h.others hj hp (hc.frame hp hterm) (fun _ hq => ?_) hc.fails_ended
      exact Option.some.inj hq ▸ Proc.onErr_aside hp
  | @fails _ j p i e ha hj =>
    have hstops : p.stops (.abort j) = false := by
      rcases ha with rfl | rfl
      · exact serialized_stops (a := .rollback j) hok rfl hj
      · exact serialized_stops hok rfl hj
    cases hp : p.works with
    | true =>
      have hleft := (h.standing_of hj hp).err (i := i) (e := e) (h.knows hj) hp hstops
      exact h.work hj hp (fun _ hq => Option.some.inj hq ▸ hleft.1) hleft.2
    | false =>
      refine h.others hj hp (.same rfl rfl) (fun _ hq => ?_) fun hfails => ?_
      · exact Option.some.inj hq ▸ Proc.onErr_aside hp
      · cases p with
        | failing => cases hstops
        | _ => cases hfails
  | spawn hspawn => exact h.spawn hok hspawn
  | crash => exact h.crash hok
  | @tick n =>
    have hframe : Frame w.db { w.db with clock := w.db.clock + n } := .same rfl rfl
    refine ⟨fun hm => hframe.knows (h.knows hm), h.single, ?_⟩
    exact h.standing.imp (hframe.settled ·) (Or.imp_left fun hend => ⟨hframe.ended hend.1, hend.2⟩)

end

/-- As long as the condition holds: where the resource is ready and no job of it is executing,
    the provider's object accepts the stored token, and the stored handle is the one that the
    last `Provision` or `Restart` of the provider has returned. -/
theorem ready_accepts_token (svc : Service) {t : Time} {log : List Write} {c : System}
    (hrun : RunNow svc serialized (boot t) log c) (hready : c.db.state? = some .ready)
    (hidle : ∀ p, some p ∈ c.world.procs → p.job = none) :
    ∃ r o, c.db.row = some r ∧ c.db.object = some o ∧ o.token = r.token ∧ o.handle = r.handle := by
  have hboot : Coherent (boot t).world := by
    refine ⟨fun hj => ?_, fun hj => ?_, .inl ⟨fun _ => rfl, fun hr => ?_, fun hr => ?_⟩⟩
    · simp [boot] at hj
    · simp [boot] at hj
    · cases hr
    · cases hr
  have hcoherent := run_keeps_now (fun h hok hm hfresh => Coherent.moves h hok hm hfresh) hboot hrun
  obtain ⟨r, hrow, hstate⟩ := Option.map_eq_some_iff.mp hready
  have hsettled : Settled c.db := by
    rcases hcoherent.standing with hsettled | ⟨⟨r', hrow', hterm⟩, -⟩ | ⟨m, q, hm, hq⟩ |
      ⟨⟨m, q, hm, hq⟩, -⟩
    · exact hsettled
    · cases hrow.symm.trans hrow'
      simp [hstate, ResourceState.terminal] at hterm
    · have hnone := hidle q (List.mem_of_getElem? hm)
      cases q <;> first | cases hq; done | cases hnone
    · have hnone := hidle q (List.mem_of_getElem? hm)
      cases q <;> first | cases hq; done | cases hnone
  obtain ⟨o, ho, hhandle⟩ := hsettled.handle hrow (.inr (.inl hstate))
  exact ⟨r, o, hrow, ho, hsettled.token hrow ho, hhandle⟩

/-- Whether no process executes a job. -/
def System.idle (c : System) : Bool := c.world.procs.all fun p => (p.bind Proc.job).isNone

theorem System.idle_procs {c : System} (h : c.idle = true) :
    ∀ p, some p ∈ c.world.procs → p.job = none := by
  intro p hp
  simpa using List.all_eq_true.mp h (some p) hp

/-- Process `j` requests a restart. -/
def restartRequested (j : Nat) : Schedule := [.act (.spawn .requestRestart), .tx j .go]

/-- Process `j` executes the `Restart` job `n`, up to the rotation of the token to `clear`. -/
def rotation (j n : Nat) (clear : String) : Schedule :=
  [.act (.spawn (.restart n)), .tx j .go, .tx j (.token clear), .tx j .go]

/-- It finds the restarted runtime healthy and ends. -/
def restarted (j : Nat) : Schedule := [.tx j (.healthy "endpoint"), .tx j .go, .tx j .go]

theorem ready_accepts_token_restarted :
    ∃ log c, RunNow {} serialized (boot 0) log c ∧ c.db.state? = some .ready ∧
      (∀ p, some p ∈ c.world.procs → p.job = none) ∧
      ∃ r o, c.db.row = some r ∧ c.db.object = some o ∧ o.token = r.token ∧ o.handle = r.handle := by
  have hplay : (playNow serialized (boot 0) (created ++ provisioned ++ restartRequested 2 ++
      rotation 3 3 "next" ++ [.tx 3 (.handle (.obj [("version", .num 2)]))] ++ restarted 3)).map
      (fun c => (c.db.state?, c.idle)) = some (some .ready, true) := by decide +kernel
  obtain ⟨c, hc, hstate⟩ := Option.map_eq_some_iff.mp hplay
  simp only [Prod.mk.injEq] at hstate
  obtain ⟨log, hrun⟩ := Machine.play_run hc
  have hidle := System.idle_procs hstate.2
  exact ⟨log, c, hrun, hstate.1, hidle, ready_accepts_token {} hrun hstate.1 hidle⟩

/-- Two restarts overlap: the second rotates last and reaches the provider first. -/
def crossed : Schedule :=
  created ++ provisioned ++ restartRequested 2 ++ restartRequested 3 ++ rotation 4 3 "first" ++
    rotation 5 4 "second" ++ [.tx 5 (.handle (.obj [("version", .num 2)])),
      .tx 4 (.handle (.obj [("version", .num 3)]))] ++ restarted 4 ++ restarted 5

theorem ready_accepts_token_crossed :
    ∃ log, ∃ c : System, RunNow {} oneWorker (boot 0) log c ∧ c.db.state? = some .ready ∧
      c.quiet = true ∧ c.db.row.map Resource.token = some "second" ∧
      c.db.object.map ProviderObject.token = some "first" := by
  have hplay : (playNow oneWorker (boot 0) crossed).map
      (fun c => (c.db.state?, c.quiet, c.db.row.map Resource.token,
        c.db.object.map ProviderObject.token)) =
      some (some .ready, true, some "second", some "first") := by decide +kernel
  obtain ⟨c, hc, hstate⟩ := Option.map_eq_some_iff.mp hplay
  simp only [Prod.mk.injEq] at hstate
  obtain ⟨log, hrun⟩ := Machine.play_run hc
  exact ⟨log, c, hrun, hstate.1, hstate.2.1, hstate.2.2.1, hstate.2.2.2⟩

end Ultracore.Resourcework
