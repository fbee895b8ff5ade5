-- SUMMARY: What each step of a worker leaves of the stored token, the stored handle and the provider's object.
import Ultracore.Resourcework.Reads

/-!
# Token, handle and object

`Restart` stores a new token, passes it to the provider, and stores the handle it gets back:
three steps of their own. Between the first and the last of them the resource is `exposed`.
`Knows` says what a worker can rely on at each of its points, and `Standing` how the tables
are there, as long as no second worker is at work.
-/

namespace Ultracore.Resourcework

open Txn

variable {svc : Service}
variable {r : Resource}

/-! ## Points of the workers -/

/-- `Provision` and `Restart` at work. -/
def Proc.works : Proc → Bool
  | .provision _ | .marking _ _ | .announcing _ _ | .building _ _ | .acquiring _ _
  | .creating _ _ | .storing _ _ _ | .warming _ _ | .publishing _ _ _ | .restart _
  | .rebuilding _ _ | .rotating _ _ _ | .restarting _ _ _ | .rewarming _ _
  | .republishing _ _ _ | .discarding _ _ _ => true
  | _ => false

/-- They have read the resource. -/
def Proc.pastRead : Proc → Bool
  | .provision _ | .restart _ => false
  | p => p.works

/-- The token or the object has changed, and the row is to follow. -/
def Proc.exposed : Proc → Bool
  | .restarting _ _ _ | .rewarming _ _ | .republishing _ _ _ | .discarding _ _ _ => true
  | _ => false

/-- A worker that gives the resource up. -/
def Proc.fails : Proc → Bool
  | .failing _ _ _ => true
  | _ => false

/-- Whoever terminates the resource. -/
def Proc.terminates : Proc → Bool
  | .requestTerminate | .adminTerminate | .terminate _ | .resolving _ _ | .removing _ _
  | .retiring _ _ => true
  | _ => false

/-- What stops a worker while the resource is exposed, or before it is failed: a crash, an
    error it returns to the queue, a rotation that took effect unnoticed. -/
def Proc.stops (p : Proc) : Action Input Nat Proc → Bool
  | .crash _ => p.exposed || p.fails
  | .abort _ | .rollback _ =>
    match p with
    | .rewarming _ _ | .republishing _ _ _ | .failing _ _ _ => true
    | _ => false
  | .lose _ =>
    match p with
    | .rotating _ _ _ | .rewarming _ _ => true
    | _ => false
  | _ => false

/-! ## What holds of the tables -/

/-- The object accepts the stored token, and a handle that is in use is its handle. -/
structure Settled (d : Db) : Prop where
  absent : d.row = none → d.object = none
  token : ∀ {r o}, d.row = some r → d.object = some o → o.token = r.token
  handle : ∀ {r}, d.row = some r →
    handlePresent r.handle = true ∨ r.state = .ready ∨ r.state = .suspended →
    ∃ o, d.object = some o ∧ o.handle = r.handle

/-- The resource is at its end. -/
def Ended (d : Db) : Prop := ∃ r, d.row = some r ∧ r.state.terminal = true

/-- The states in which a resource is found that `Provision` has marked. -/
def Marked (r : Resource) : Prop := r.state = .provisioning ∨ r.state.terminal = true

/-- What a worker can rely on at its point. -/
def Knows (d : Db) : Proc → Prop
  | .marking _ r => ∃ r₀, d.row = some r₀ ∧ r.token = r₀.token ∧ r.handle = r₀.handle
  | .announcing _ r | .building _ r | .acquiring _ r =>
    ∃ r₀, d.row = some r₀ ∧ Marked r₀ ∧ r.token = r₀.token ∧ r.handle = r₀.handle
  | .creating _ r =>
    ∃ r₀, d.row = some r₀ ∧ Marked r₀ ∧ r.token = r₀.token ∧ handlePresent r₀.handle = false
  | .storing _ _ h =>
    ∃ r₀ o, d.row = some r₀ ∧ Marked r₀ ∧ d.object = some o ∧ o.handle = h
  | .warming _ r | .publishing _ r _ =>
    ∃ r₀ o, d.row = some r₀ ∧ Marked r₀ ∧ r.handle = r₀.handle ∧ d.object = some o ∧
      o.handle = r.handle
  | .restarting _ _ clear => ∃ r₀, d.row = some r₀ ∧ r₀.token = clear
  | .rewarming _ r | .republishing _ r _ =>
    ∃ r₀, d.row = some r₀ ∧ d.object = some ⟨r.handle, r₀.token⟩
  | p => p.terminates = false

/-- How the tables are while the only worker is at this point. -/
def Standing (d : Db) (p : Proc) : Prop :=
  Settled d ∨ (p.exposed || p.fails) = true ∨ Ended d ∧ p.pastRead = false

section
variable {d d' : Db} {p p' : Proc} {ws : List Write}

theorem Settled.of_row {r' : Resource} (h : Settled d) (hrow : d.row = some r)
    (hrow' : d'.row = some r') (hobject : d'.object = d.object) (htoken : r'.token = r.token)
    (hhandle : r'.handle = r.handle)
    (hstate : r'.state = .ready ∨ r'.state = .suspended → r.state = .ready ∨ r.state = .suspended) :
    Settled d' := by
  refine ⟨fun hnone => ?_, fun hr ho => ?_, fun hr huse => ?_⟩
  · simp [hrow'] at hnone
  · cases hrow'.symm.trans hr
    rw [htoken]
    exact h.token hrow (hobject ▸ ho)
  · cases hrow'.symm.trans hr
    rw [hhandle] at huse ⊢
    rw [hobject]
    exact h.handle hrow (huse.imp_right hstate)

theorem Settled.of_object {o : ProviderObject} (hrow : d.row = some r)
    (hobject : d.object = some o) (htoken : o.token = r.token) (hhandle : o.handle = r.handle) :
    Settled d := by
  refine ⟨fun hnone => ?_, fun hr ho => ?_, fun hr _ => ⟨o, hobject, ?_⟩⟩
  · simp [hrow] at hnone
  · cases hrow.symm.trans hr
    cases hobject.symm.trans ho
    exact htoken
  · cases hrow.symm.trans hr
    exact hhandle

theorem Standing.settled (h : Standing d p) (hp : p.pastRead = true)
    (hexp : p.exposed = false) : Settled d := by
  rcases h with hsettled | hexp' | ⟨-, hread⟩
  · exact hsettled
  · simp only [hexp, Bool.false_or] at hexp'
    cases p <;> first | cases hexp'; done | cases hp
  · simp [hp] at hread

/-- A worker that stops where nothing is exposed leaves the tables as they should be. -/
theorem Standing.rest {r : Proc} (h : Standing d p) (hexp : p.exposed = false)
    (hfails : p.fails = false) (hr : p.pastRead = true ∨ r.pastRead = false) : Standing d r := by
  rcases h with hsettled | hexp' | ⟨hended, hread⟩
  · exact .inl hsettled
  · simp [hexp, hfails] at hexp'
  · exact .inr (.inr ⟨hended, hr.resolve_left (by simp [hread])⟩)

theorem Standing.settled_of_live (h : Standing d p)
    (hexp : (p.exposed || p.fails) = false) (hrow : d.row = some r)
    (hlive : r.state.terminal = false) : Settled d := by
  rcases h with hsettled | hexp' | ⟨⟨r', hrow', hterm⟩, -⟩
  · exact hsettled
  · simp [hexp] at hexp'
  · cases hrow.symm.trans hrow'
    simp [hlive] at hterm

theorem Marked.not_used (h : Marked r) : ¬(r.state = .ready ∨ r.state = .suspended) := by
  rintro (hst | hst) <;> simp [Marked, hst, ResourceState.terminal] at h

theorem knows_acquired {n : Nat} (hk : Knows d (.acquiring n r))
    (hsettled : Settled d) (hread : Reads d p' (.acquiring n r)) : Knows d p' := by
  obtain ⟨r₀, hrow, hmarked, htoken, hhandle⟩ := hk
  simp only [Reads] at hread
  split at hread
  · rename_i hpresent
    subst hread
    obtain ⟨o, ho, hoh⟩ := hsettled.handle hrow (.inl (hhandle ▸ hpresent))
    exact ⟨r₀, o, hrow, hmarked, ho, hoh.trans hhandle.symm⟩
  · rename_i habsent
    rcases hread with rfl | ⟨o, ho, rfl⟩
    · exact ⟨r₀, hrow, hmarked, htoken, by simpa [hhandle] using habsent⟩
    · exact ⟨r₀, o, hrow, hmarked, ho, rfl⟩

/-- What the commit of a worker leaves, where it continues. -/
theorem Commits.work (h : Commits svc d p p' ws) (hp : p.works = true) (hread : Reads d p' p)
    (hk : Knows d p) (hs : Standing d p) :
    Knows (applyAll d ws) p' ∧ Standing (applyAll d ws) p' := by
  cases h with
  | provision =>
    obtain ⟨r, hrow, heq⟩ := hread
    rw [heq]
    unfold Proc.afterProvisionRead
    split
    · exact ⟨rfl, hs.rest rfl rfl (.inr rfl)⟩
    · rename_i hstate
      have hlive := eq_false_of_ne_true (not_or.mp hstate).2
      exact ⟨⟨r, hrow, rfl, rfl⟩, .inl (hs.settled_of_live rfl hrow hlive)⟩
  | marking hrow =>
    obtain ⟨r₀, hrow₀, htoken, hhandle⟩ := hk
    cases hrow.symm.trans hrow₀
    refine ⟨⟨_, rfl, .inl rfl, htoken, hhandle⟩, .inl ?_⟩
    refine (hs.settled rfl rfl).of_row hrow rfl rfl rfl rfl fun hstate => ?_
    rcases hstate with hstate | hstate <;> cases hstate
  | announcing | built =>
    have hsettled := hs.settled rfl rfl
    exact ⟨hk, .inl ⟨hsettled.absent, hsettled.token, hsettled.handle⟩⟩
  | unbuilt | notRebuilt | unhealthy | unhealthyAgain | discarded => exact ⟨rfl, .inr (.inl rfl)⟩
  | buildingStops | warmingStops | rebuildingStops | unpublished =>
    exact ⟨rfl, hs.rest rfl rfl (.inl rfl)⟩
  | acquired | notAcquired =>
    have hsettled := hs.settled rfl rfl
    exact ⟨knows_acquired hk hsettled hread, .inl hsettled⟩
  | created =>
    obtain ⟨r₀, hrow, hmarked, htoken, hnone⟩ := hk
    refine ⟨⟨r₀, _, hrow, hmarked, rfl, rfl⟩, .inl ⟨fun hno => ?_, fun hr ho => ?_, fun hr huse => ?_⟩⟩
    · cases hrow.symm.trans hno
    · cases hrow.symm.trans hr
      cases ho
      exact htoken
    · cases hrow.symm.trans hr
      rcases huse with huse | huse
      · simp [hnone] at huse
      · exact absurd huse hmarked.not_used
  | stored hrow =>
    obtain ⟨r₀, o, hrow₀, hmarked, ho, hhandle⟩ := hk
    cases hrow.symm.trans hrow₀
    have htoken := (hs.settled rfl rfl).token hrow ho
    exact ⟨⟨_, o, rfl, hmarked, rfl, ho, hhandle⟩, .inl (.of_object rfl ho htoken hhandle)⟩
  | warmed => exact ⟨hk, .inl (hs.settled rfl rfl)⟩
  | published hrow =>
    obtain ⟨r₀, o, hrow₀, -, -, ho, hhandle⟩ := hk
    cases hrow.symm.trans hrow₀
    have htoken := (hs.settled rfl rfl).token hrow ho
    exact ⟨rfl, .inl (.of_object rfl ho htoken hhandle)⟩
  | restart =>
    obtain ⟨r, hrow, heq⟩ := hread
    rw [heq]
    unfold Proc.afterRestartRead
    split
    · exact ⟨rfl, hs.rest rfl rfl (.inr rfl)⟩
    · rename_i hlive
      exact ⟨rfl, .inl (hs.settled_of_live rfl hrow (eq_false_of_ne_true hlive))⟩
  | rebuilt => exact ⟨rfl, .inl (hs.settled rfl rfl)⟩
  | rotated => exact ⟨⟨_, rfl, rfl⟩, .inr (.inl rfl)⟩
  | restarted =>
    obtain ⟨r₀, hrow, rfl⟩ := hk
    exact ⟨⟨r₀, hrow, rfl⟩, .inr (.inl rfl)⟩
  | rewarmed => exact ⟨hk, .inr (.inl rfl)⟩
  | republished hrow =>
    obtain ⟨r₀, hrow₀, ho⟩ := hk
    cases hrow.symm.trans hrow₀
    exact ⟨rfl, .inl (.of_object rfl ho rfl rfl)⟩
  | notRepublished hrow hterm => exact ⟨rfl, .inr (.inr ⟨⟨_, hrow, hterm⟩, rfl⟩)⟩
  | _ => cases hp

/-- What an error leaves that the worker is allowed to meet. -/
theorem Standing.err {i : Input} {e : Err} {j : Nat} (hs : Standing d p) (hk : Knows d p)
    (hp : p.works = true) (hstop : p.stops (.abort j) = false) :
    Knows d (p.onErr i e) ∧ Standing d (p.onErr i e) := by
  cases p with
  | provision | restart => exact ⟨rfl, hs.rest rfl rfl (.inr rfl)⟩
  | marking | storing | warming | publishing | rotating =>
    exact ⟨rfl, hs.rest rfl rfl (.inl rfl)⟩
  | announcing => exact ⟨hk, hs.rest rfl rfl (.inl rfl)⟩
  | building | creating | rebuilding | restarting | discarding => exact ⟨rfl, .inr (.inl rfl)⟩
  | acquiring =>
    simp only [Proc.onErr]
    split
    · rename_i hpresent
      have hsettled := hs.settled rfl rfl
      exact ⟨knows_acquired hk hsettled (by simp [Reads, hpresent]), .inl hsettled⟩
    · exact ⟨rfl, .inr (.inl rfl)⟩
  | rewarming | republishing => cases hstop
  | _ => cases hp

/-- What a commit leaves that the worker does not learn of. -/
theorem Commits.lost {i : Input} {e : Err} {j : Nat} (h : Commits svc d p p' ws)
    (hp : p.works = true) (hstop : p.stops (.lose j) = false) (hk : Knows d p) (hs : Standing d p) :
    Knows (applyAll d ws) (p.onErr i e) ∧ Standing (applyAll d ws) (p.onErr i e) := by
  cases hcase : h with
  | marking | stored | published | unpublished | republished | notRepublished =>
    exact ⟨rfl, (h.work hp trivial hk hs).2.rest rfl rfl (.inr rfl)⟩
  | announcing => exact h.work hp trivial hk hs
  | created | restarted | discarded => exact ⟨rfl, .inr (.inl rfl)⟩
  | rotated | rewarmed | unhealthyAgain => cases hstop
  | _ => first | cases hp; done | exact hs.err (j := j) hk hp rfl

end

/-! ## Everyone else -/

/-- What a change of the state leaves alone. -/
structure Evolves (r r' : Resource) : Prop where
  token : r'.token = r.token
  handle : r'.handle = r.handle
  marked : Marked r → Marked r'
  used : r'.state = .ready ∨ r'.state = .suspended → r.state = .ready ∨ r.state = .suspended
  ended : r.state.terminal = true → r'.state.terminal = true

theorem Evolves.refl : Evolves r r := ⟨rfl, rfl, id, id, id⟩

/-- What requests, commands and `Reconcile` leave alone. -/
structure Frame (d d' : Db) : Prop where
  object : d'.object = d.object
  row : ∀ {r}, d.row = some r → ∃ r', d'.row = some r' ∧ Evolves r r'
  created : ∀ {r'}, d.row = none → d'.row = some r' →
    handlePresent r'.handle = false ∧ r'.state = .requested

section
variable {d d' : Db} {p p' : Proc} {ws : List Write}

theorem Frame.same (hrow : d'.row = d.row) (hobject : d'.object = d.object) : Frame d d' := by
  refine ⟨hobject, fun hr => ⟨_, hrow.trans hr, .refl⟩, fun hnone hr => ?_⟩
  simp [hrow, hnone] at hr

theorem Frame.update {r' : Resource} (hrow : d.row = some r) (hrow' : d'.row = some r')
    (hobject : d'.object = d.object) (h : Evolves r r') : Frame d d' := by
  refine ⟨hobject, fun hr => ⟨r', hrow', ?_⟩, fun hnone => ?_⟩
  · cases hrow.symm.trans hr
    exact h
  · simp [hrow] at hnone

theorem evolves_suspended {message : String} {t : Time} :
    Evolves r (Resources.suspended message t r) := by
  unfold Resources.suspended
  split
  · rename_i hused
    refine ⟨rfl, rfl, fun hmarked => absurd hused hmarked.not_used, fun _ => hused, fun hterm => ?_⟩
    rcases hused with hst | hst <;> simp [hst, ResourceState.terminal] at hterm
  · exact .refl

theorem evolves_provisioning {t : Time} (hlive : r.state.terminal = false) :
    Evolves r (Resources.provisioning t r) := by
  refine ⟨rfl, rfl, fun _ => .inl rfl, fun hused => ?_, fun hterm => ?_⟩
  · rcases hused with hused | hused <;> cases hused
  · simp [hlive] at hterm

theorem Commits.frame (h : Commits svc d p p' ws) (hp : p.works = false)
    (hterm : p.terminates = false) : Frame d (applyAll d ws) := by
  cases h with
  | request hrow =>
    refine ⟨rfl, fun hr => ?_, fun _ hr => ?_⟩
    · simp [hrow] at hr
    · cases hr
      exact ⟨handlePresent_noHandle, rfl⟩
  | requestRestart hrow hlive | adminRestart hrow hlive =>
    exact .update hrow rfl rfl (evolves_provisioning hlive)
  | adminSuspend hrow | suspended hrow => exact .update hrow rfl rfl evolves_suspended
  | failed hrow =>
    refine .update hrow rfl rfl ⟨rfl, rfl, fun _ => .inr rfl, fun hused => ?_, fun _ => rfl⟩
    rcases hused with hused | hused <;> cases hused
  | resumed hrow hstate =>
    refine .update hrow rfl rfl ⟨rfl, rfl, fun hmarked => ?_, fun _ => .inr hstate, fun hended => ?_⟩
    · exact absurd (.inr hstate) hmarked.not_used
    · simp [hstate, ResourceState.terminal] at hended
  | _ => first | cases hp; done | cases hterm; done | exact .same rfl rfl

theorem Frame.settled (h : Frame d d') (hs : Settled d) : Settled d' := by
  cases hrow : d.row with
  | some =>
    obtain ⟨r', hrow', hev⟩ := h.row hrow
    exact hs.of_row hrow hrow' h.object hev.token hev.handle hev.used
  | none =>
    have hobject : d'.object = none := h.object.trans (hs.absent hrow)
    refine ⟨fun _ => hobject, fun _ ho => ?_, fun hr huse => ?_⟩
    · simp [hobject] at ho
    · obtain ⟨hhandle, hstate⟩ := h.created hrow hr
      simp [hhandle, hstate] at huse

theorem Frame.ended (h : Frame d d') (hended : Ended d) : Ended d' := by
  obtain ⟨r, hrow, hterm⟩ := hended
  obtain ⟨r', hrow', hev⟩ := h.row hrow
  exact ⟨r', hrow', hev.ended hterm⟩

/-- What a worker relies on stays. -/
theorem Frame.knows (h : Frame d d') (hk : Knows d p) : Knows d' p := by
  cases p with
  | marking =>
    obtain ⟨r, hrow, htoken, hhandle⟩ := hk
    obtain ⟨r', hrow', hev⟩ := h.row hrow
    exact ⟨r', hrow', htoken.trans hev.token.symm, hhandle.trans hev.handle.symm⟩
  | announcing | building | acquiring =>
    obtain ⟨r, hrow, hmarked, htoken, hhandle⟩ := hk
    obtain ⟨r', hrow', hev⟩ := h.row hrow
    exact ⟨r', hrow', hev.marked hmarked, htoken.trans hev.token.symm,
      hhandle.trans hev.handle.symm⟩
  | creating =>
    obtain ⟨r, hrow, hmarked, htoken, hhandle⟩ := hk
    obtain ⟨r', hrow', hev⟩ := h.row hrow
    exact ⟨r', hrow', hev.marked hmarked, htoken.trans hev.token.symm, hev.handle ▸ hhandle⟩
  | storing =>
    obtain ⟨r, o, hrow, hmarked, ho, hhandle⟩ := hk
    obtain ⟨r', hrow', hev⟩ := h.row hrow
    exact ⟨r', o, hrow', hev.marked hmarked, h.object.trans ho, hhandle⟩
  | warming | publishing =>
    obtain ⟨r, o, hrow, hmarked, hhandle, ho, hoh⟩ := hk
    obtain ⟨r', hrow', hev⟩ := h.row hrow
    exact ⟨r', o, hrow', hev.marked hmarked, hhandle.trans hev.handle.symm, h.object.trans ho, hoh⟩
  | restarting =>
    obtain ⟨r, hrow, htoken⟩ := hk
    obtain ⟨r', hrow', hev⟩ := h.row hrow
    exact ⟨r', hrow', hev.token.trans htoken⟩
  | rewarming | republishing =>
    obtain ⟨r, hrow, ho⟩ := hk
    obtain ⟨r', hrow', hev⟩ := h.row hrow
    exact ⟨r', hrow', hev.token ▸ h.object.trans ho⟩
  | _ => exact hk

theorem Knows.not_terminates (h : Knows d p) : p.terminates = false := by
  cases p <;> first | rfl | exact h

theorem Knows.of_aside (hp : p.works = false) (hterm : p.terminates = false) : Knows d p := by
  cases p <;> first | exact hterm | cases hp

theorem Proc.pastRead_aside (hp : p.works = false) : p.pastRead = false := by
  cases p <;> first | rfl | cases hp

theorem Proc.exposed_works (hp : p.exposed = true) : p.works = true := by
  cases p <;> first | rfl | cases hp

theorem Proc.fails_aside (hp : p.fails = true) : p.works = false := by
  cases p <;> first | rfl | cases hp

/-- Who does not work at the resource does not start to. -/
theorem Commits.aside (h : Commits svc d p p' ws) (hp : p.works = false)
    (hterm : p.terminates = false) : p'.works = false ∧ p'.terminates = false := by
  cases h with
  | reconcile =>
    unfold Proc.afterReconcileRead
    split
    · exact ⟨rfl, rfl⟩
    · split <;> exact ⟨rfl, rfl⟩
  | recovering =>
    simp only [Proc.afterStall]
    split
    · exact ⟨rfl, rfl⟩
    · split <;> exact ⟨rfl, rfl⟩
  | _ => first | exact ⟨rfl, rfl⟩ | cases hp; done | cases hterm

theorem Proc.onErr_aside {i : Input} {e : Err} (hp : p.works = false) :
    (p.onErr i e).works = false ∧ (p.onErr i e).terminates = false := by
  cases p <;> first | exact ⟨rfl, rfl⟩ | cases hp

theorem Commits.fails_ended (h : Commits svc d p p' ws) (hp : p.fails = true) :
    Ended (applyAll d ws) := by
  cases h with
  | failed => exact ⟨_, rfl, rfl⟩
  | _ => cases hp

end

end Ultracore.Resourcework
