-- SUMMARY: What each transition of the lifecycle work commits.
import Ultracore.Resourcework.Work

/-!
# What the lifecycle work commits

`Commits svc d p p' ws`: a process at point `p` whose transaction commits on the tables `d`
continues at `p'` and writes `ws`. Where the transaction has locked the resource, `d` holds
the row it has read; what a worker has read without a lock, `r`, may be anything. Every
invariant of the system is derived from this table.
-/

namespace Ultracore.Resourcework

open Txn

variable {r : Resource} {n : Nat}

/-- What makes a resource ready. -/
def readyWrites (svc : Service) (locked : Resource) (handle : Json) (endpoint message : String)
    (t t' : Time) : List Write :=
  [.setRow (Resources.ready handle endpoint t locked),
    .insertEvent ⟨.resourceReady, eventPayload { locked with handle, endpoint } message⟩,
    .insertJob .reconcile (t' + svc.interval)]

inductive Commits (svc : Service) (d : Db) : Proc → Proc → List Write → Prop where
  | request {id : ResourceID} {kind : String} {spec : Json} {token : String} {t t' : Time} :
      d.row = none → Commits svc d (.request id kind spec token) .done
        [.setRow (Resources.fresh id kind spec token t),
          .insertEvent ⟨.resourceRequested, eventPayload (Resources.fresh id kind spec token 0) ""⟩,
          .insertJob .provision t', .insertJob .reconcile (t' + svc.provisionTimeout)]
  | requestTerminate {r : Resource} {t t' : Time} : d.row = some r → r.state ≠ .terminated →
      Commits svc d .requestTerminate .done [.setRow (Resources.terminating t r),
        .insertEvent ⟨.resourceTerminating, eventPayload r ""⟩, .insertJob .terminate t']
  | requestTerminateAgain {r : Resource} : d.row = some r → r.state = .terminated →
      Commits svc d .requestTerminate .done []
  | requestRestart {r : Resource} {t t' : Time} : d.row = some r → r.state.terminal = false →
      r.state ≠ .terminating → Commits svc d .requestRestart .done
        [.setRow (Resources.provisioning t r),
          .insertEvent ⟨.resourceProvisioning, eventPayload r "restart requested"⟩,
          .insertJob .restart t']
  | adminRestart {r : Resource} {t t' : Time} : d.row = some r → r.state.terminal = false →
      r.state ≠ .terminating → Commits svc d .adminRestart .done
        [.setRow (Resources.provisioning t r), .insertJob .restart t']
  | adminTerminate {r : Resource} {t t' : Time} : d.row = some r → r.state ≠ .terminated →
      Commits svc d .adminTerminate .done
        [.setRow (Resources.terminating t r), .insertJob .terminate t']
  | adminTerminateAgain {r : Resource} : d.row = some r → r.state = .terminated →
      Commits svc d .adminTerminate .done []
  | adminSuspend {r : Resource} {t : Time} {message message' : String} : d.row = some r →
      Commits svc d (.adminSuspend message) .done [.setRow (Resources.suspended message' t r)]
  | adminReconcile {t : Time} : Commits svc d .adminReconcile .done [.insertJob .reconcile t]
  -- `Provision`
  | provision {n : Nat} {r : Resource} :
      Commits svc d (.provision n) (.afterProvisionRead n r) []
  | marking {n : Nat} {r r' : Resource} {t : Time} : d.row = some r' →
      Commits svc d (.marking n r) (.announcing n r) [.setRow (Resources.provisioning t r')]
  | announcing {n : Nat} {r : Resource} : Commits svc d (.announcing n r) (.building n r)
      [.insertEvent ⟨.resourceProvisioning, eventPayload r ""⟩]
  | built {n : Nat} {r : Resource} : Commits svc d (.building n r) (.acquiring n r) []
  | unbuilt {n : Nat} {r : Resource} {message : String} :
      Commits svc d (.building n r) (.failing n r message) []
  | buildingStops {n : Nat} {r : Resource} : Commits svc d (.building n r) .done []
  | acquired {n : Nat} {r : Resource} {h : Json} :
      Commits svc d (.acquiring n r) (.storing n r h) []
  | notAcquired {n : Nat} {r : Resource} : Commits svc d (.acquiring n r) (.creating n r) []
  | created {n : Nat} {r : Resource} {h : Json} :
      Commits svc d (.creating n r) (.storing n r h) [.createObject ⟨h, r.token⟩]
  | stored {n : Nat} {r r' : Resource} {h : Json} {t : Time} : d.row = some r' →
      Commits svc d (.storing n r h) (.warming n { r with handle := h })
        [.setRow (Resources.withHandle h t r')]
  | warmed {n : Nat} {r : Resource} {endpoint : String} :
      Commits svc d (.warming n r) (.publishing n r endpoint) []
  | unhealthy {n : Nat} {r : Resource} {message : String} :
      Commits svc d (.warming n r) (.discarding n r message) []
  | warmingStops {n : Nat} {r : Resource} : Commits svc d (.warming n r) .done []
  | published {n : Nat} {r r' : Resource} {endpoint : String} {t t' : Time} : d.row = some r' →
      r'.state = .provisioning → Commits svc d (.publishing n r endpoint) (.acking n)
        (readyWrites svc r' r.handle endpoint "" t t')
  | unpublished {n : Nat} {r r' : Resource} {endpoint : String} : d.row = some r' →
      r'.state ≠ .provisioning → Commits svc d (.publishing n r endpoint) (.acking n) []
  -- `Restart`
  | restart {n : Nat} {r : Resource} : Commits svc d (.restart n) (.afterRestartRead n r) []
  | rebuilt {n : Nat} {r : Resource} {clear : String} :
      Commits svc d (.rebuilding n r) (.rotating n r clear) []
  | notRebuilt {n : Nat} {r : Resource} {message : String} :
      Commits svc d (.rebuilding n r) (.failing n r message) []
  | rebuildingStops {n : Nat} {r : Resource} : Commits svc d (.rebuilding n r) .done []
  | rotated {n : Nat} {r r' : Resource} {clear : String} {t : Time} : d.row = some r' →
      Commits svc d (.rotating n r clear) (.restarting n r clear)
        [.setRow (Resources.rotated clear t r')]
  | restarted {n : Nat} {r : Resource} {clear : String} {h : Json} :
      Commits svc d (.restarting n r clear) (.rewarming n { r with handle := h })
        [.createObject ⟨h, clear⟩]
  | rewarmed {n : Nat} {r : Resource} {endpoint : String} :
      Commits svc d (.rewarming n r) (.republishing n r endpoint) []
  | unhealthyAgain {n : Nat} {r : Resource} {message : String} :
      Commits svc d (.rewarming n r) (.discarding n r message) []
  | republished {n : Nat} {r r' : Resource} {endpoint : String} {t t' : Time} :
      d.row = some r' → r'.state.terminal = false →
      Commits svc d (.republishing n r endpoint) (.acking n)
        (readyWrites svc r' r.handle endpoint "restarted" t t')
  | notRepublished {n : Nat} {r r' : Resource} {endpoint : String} : d.row = some r' →
      r'.state.terminal = true → Commits svc d (.republishing n r endpoint) (.acking n) []
  | discarded {n : Nat} {r : Resource} {message : String} :
      Commits svc d (.discarding n r message) (.failing n r message) [.removeObject]
  | failed {n : Nat} {r r' : Resource} {message : String} {t : Time} : d.row = some r' →
      Commits svc d (.failing n r message) (.acking n) [.setRow (Resources.failed message t r'),
        .insertEvent ⟨.resourceFailed, eventPayload r message⟩]
  -- `Terminate`
  | terminate {n : Nat} {r : Resource} :
      Commits svc d (.terminate n) (.afterTerminateRead n r) []
  | removes {n : Nat} {r : Resource} : handlePresent r.handle = true →
      Commits svc d (.resolving n r) (.removing n r) []
  | skips {n : Nat} {r : Resource} : handlePresent r.handle = false →
      Commits svc d (.resolving n r) (.retiring n r) []
  | removed {n : Nat} {r : Resource} :
      Commits svc d (.removing n r) (.retiring n r) [.removeObject]
  | retired {n : Nat} {r r' : Resource} {t : Time} : d.row = some r' →
      Commits svc d (.retiring n r) (.acking n) [.setRow (Resources.terminated t r'),
        .insertEvent ⟨.resourceTerminated, eventPayload r ""⟩]
  -- `Reconcile`
  | reconcile {n : Nat} {row : Option Resource} :
      Commits svc d (.reconcile n) (.afterReconcileRead n row) []
  | recovering {n : Nat} {r : Resource} {t : Time} :
      Commits svc d (.recovering n r) (.afterStall svc n r t) []
  | watched {n : Nat} {t : Time} : Commits svc d (.watching n) (.acking n)
      [.insertJob .reconcile (t + svc.provisionTimeout)]
  | redriven {n : Nat} {r : Resource} {t : Time} : d.row = some r →
      r.state = .requested ∨ r.state = .provisioning → Commits svc d (.redriving n) (.acking n)
        [.insertJob .provision t, .insertJob .reconcile (t + svc.provisionTimeout)]
  | notRedriven {n : Nat} {r : Resource} : d.row = some r →
      r.state ≠ .requested → r.state ≠ .provisioning →
      Commits svc d (.redriving n) (.acking n) []
  | unreachable {n : Nat} {r : Resource} {message : String} :
      Commits svc d (.checking n r) (.suspending n r message) []
  | broken {n : Nat} {r : Resource} {message : String} :
      Commits svc d (.checking n r) (.failing n r message) []
  | healthy {n : Nat} {r : Resource} : Commits svc d (.checking n r) (.observing n) []
  | observed {n : Nat} {r : Resource} {t : Time} : d.row = some r → r.state = .ready →
      Commits svc d (.observing n) (.acking n) [.insertJob .reconcile (t + svc.interval)]
  | notObserved {n : Nat} {r : Resource} : d.row = some r → r.state ≠ .ready →
      Commits svc d (.observing n) (.acking n) []
  | suspended {n : Nat} {r r' : Resource} {message : String} {t : Time} : d.row = some r' →
      r'.state = .ready → Commits svc d (.suspending n r message) (.rearming n)
        [.setRow (Resources.suspended message t r'),
          .insertEvent ⟨.resourceSuspended, eventPayload r message⟩]
  | notSuspended {n : Nat} {r r' : Resource} {message : String} : d.row = some r' →
      r'.state ≠ .ready → Commits svc d (.suspending n r message) (.rearming n) []
  | stillAway {n : Nat} {r : Resource} : Commits svc d (.inspecting n r) (.rearming n) []
  | gone {n : Nat} {r : Resource} {message : String} :
      Commits svc d (.inspecting n r) (.failing n r message) []
  | back {n : Nat} {r : Resource} : Commits svc d (.inspecting n r) (.resuming n) []
  | resumed {n : Nat} {r : Resource} {t t' : Time} : d.row = some r → r.state = .suspended →
      Commits svc d (.resuming n) (.acking n)
        (readyWrites svc r r.handle r.endpoint "resumed" t t')
  | notResumed {n : Nat} {r : Resource} : d.row = some r → r.state ≠ .suspended →
      Commits svc d (.resuming n) (.acking n) []
  | rearmed {n : Nat} {t : Time} : Commits svc d (.rearming n) (.acking n)
      [.insertJob .reconcile (t + svc.interval)]
  | acked {n : Nat} : Commits svc d (.acking n) .done [.deleteJob n]

/-! ## The transactions keep to the table -/

variable {svc : Service} {d : Db} {message endpoint : String} {s : Local Row Write}
  {Q : Proc → Local Row Write → Prop}

theorem yields_after {x : Tx Unit} {p : Proc} (h : x.Yields sees d s fun _ s' => Q p s') :
    (Proc.after x p).Yields sees d s Q := by
  simpa only [Proc.after, Body.yields_bind, Body.yields_pure] using h

theorem yields_reading {f : Resource → Proc} (h : ∀ r, Q (f r) s) :
    (Proc.reading f).Yields sees d s Q := by
  simp only [Proc.reading, Body.yields_bind, Body.yields_pure]
  exact yields_get h

/-- Transaction `x` of process `p` keeps to the table, and goes on as `p'`. -/
abbrev Keeps (svc : Service) (d : Db) (x : Tx Unit) (p p' : Proc) : Prop :=
  x.Yields sees d .empty fun _ s => Commits svc d p p' s.writes

theorem request_commits {id : ResourceID} {kind : String} {spec : Json} {token : String} :
    Keeps svc d (request svc id kind spec token) (.request id kind spec token) .done := by
  simp only [request, Body.yields_bind]
  refine yields_create fun t hrow => yields_appendEvent ?_
  refine yields_now fun t' => yields_enqueue (yields_enqueue ?_)
  exact .request hrow

theorem requestTerminate_commits : Keeps svc d requestTerminate .requestTerminate .done := by
  simp only [requestTerminate, Body.yields_bind]
  refine yields_getForUpdate fun r hrow => ?_
  split
  · exact Body.yields_pure.mpr (.requestTerminateAgain hrow ‹_›)
  · simp only [Body.yields_bind]
    refine yields_rowUpdate_of hrow fun t => yields_appendEvent ?_
    exact yields_now fun t' => yields_enqueue (.requestTerminate hrow ‹_›)

theorem requestRestart_commits : Keeps svc d requestRestart .requestRestart .done := by
  simp only [requestRestart, Body.yields_bind]
  refine yields_getForUpdate fun r hrow => ?_
  split
  · exact Body.yields_throw
  · rename_i hstate
    simp only [not_or, Bool.not_eq_true] at hstate
    simp only [Body.yields_bind]
    refine yields_rowUpdate_of hrow fun t => yields_appendEvent ?_
    exact yields_now fun t' => yields_enqueue (.requestRestart hrow hstate.1 hstate.2)

theorem adminRestart_commits : Keeps svc d adminRestart .adminRestart .done := by
  simp only [adminRestart, Body.yields_bind]
  refine yields_getForUpdate fun r hrow => ?_
  split
  · exact Body.yields_throw
  · rename_i hstate
    simp only [not_or, Bool.not_eq_true] at hstate
    simp only [Body.yields_bind]
    refine yields_rowUpdate_of hrow fun t => ?_
    exact yields_now fun t' => yields_enqueue (.adminRestart hrow hstate.1 hstate.2)

theorem adminTerminate_commits : Keeps svc d adminTerminate .adminTerminate .done := by
  simp only [adminTerminate, Body.yields_bind]
  refine yields_getForUpdate fun r hrow => ?_
  split
  · exact Body.yields_pure.mpr (.adminTerminateAgain hrow ‹_›)
  · simp only [Body.yields_bind]
    refine yields_rowUpdate_of hrow fun t => ?_
    exact yields_now fun t' => yields_enqueue (.adminTerminate hrow ‹_›)

theorem adminSuspend_commits :
    Keeps svc d (adminSuspend message) (.adminSuspend message) .done := by
  simp only [adminSuspend, Body.yields_bind]
  refine yields_getForUpdate fun r hrow => ?_
  exact yields_rowUpdate_of hrow fun t => .adminSuspend hrow

theorem adminReconcile_commits : Keeps svc d adminReconcile .adminReconcile .done := by
  simp only [adminReconcile, Body.yields_bind]
  exact yields_get fun _ => yields_now fun _ => yields_enqueue .adminReconcile

theorem publish_yields {handle : Json} {Q : Unit → Local Row Write → Prop}
    (hrow : (applyAll d s.writes).row = some r)
    (h : ∀ t t' s', s'.writes = s.writes ++ readyWrites svc r handle endpoint message t t' →
      Q () s') :
    (publish svc r handle endpoint message).Yields sees d s Q := by
  simp only [publish, Body.yields_bind]
  refine yields_rowUpdate_of hrow fun t => yields_appendEvent ?_
  refine yields_now fun t' => yields_enqueue (h t t' _ ?_)
  simp [readyWrites]

theorem publishProvisioned_commits :
    Keeps svc d (publishProvisioned svc r.handle endpoint) (.publishing n r endpoint) (.acking n) := by
  simp only [publishProvisioned, Body.yields_bind]
  refine yields_getForUpdate fun r' hrow => ?_
  split
  · exact Body.yields_pure.mpr (.unpublished hrow ‹_›)
  · refine publish_yields hrow fun t t' s' hs => ?_
    rw [hs]
    exact .published hrow (not_not.mp ‹_›)

theorem publishRestarted_commits :
    Keeps svc d (publishRestarted svc r.handle endpoint) (.republishing n r endpoint) (.acking n) := by
  simp only [publishRestarted, Body.yields_bind]
  refine yields_getForUpdate fun r' hrow => ?_
  split
  · exact Body.yields_pure.mpr (.notRepublished hrow ‹_›)
  · refine publish_yields hrow fun t t' s' hs => ?_
    rw [hs]
    exact .republished hrow (Bool.not_eq_true _ ▸ ‹_›)

theorem publishResumed_commits : Keeps svc d (publishResumed svc) (.resuming n) (.acking n) := by
  simp only [publishResumed, Body.yields_bind]
  refine yields_getForUpdate fun r hrow => ?_
  split
  · exact Body.yields_pure.mpr (.notResumed hrow ‹_›)
  · refine publish_yields hrow fun t t' s' hs => ?_
    rw [hs]
    exact .resumed hrow (not_not.mp ‹_›)

theorem fail_commits : Keeps svc d (fail r message) (.failing n r message) (.acking n) := by
  simp only [fail, Body.yields_bind]
  exact yields_rowUpdate fun r' t hrow => yields_appendEvent (.failed hrow)

theorem retire_commits : Keeps svc d (retire r) (.retiring n r) (.acking n) := by
  simp only [retire, Body.yields_bind]
  exact yields_rowUpdate fun r' t hrow => yields_appendEvent (.retired hrow)

theorem suspend_commits :
    Keeps svc d (suspend r message) (.suspending n r message) (.rearming n) := by
  simp only [suspend, Body.yields_bind]
  refine yields_getForUpdate fun r' hrow => ?_
  split
  · exact Body.yields_pure.mpr (.notSuspended hrow ‹_›)
  · simp only [Body.yields_bind]
    refine yields_rowUpdate_of hrow fun t => yields_appendEvent ?_
    exact .suspended hrow (not_not.mp ‹_›)

theorem observe_commits : Keeps svc d (observe svc) (.observing n) (.acking n) := by
  simp only [observe, Body.yields_bind]
  refine yields_getForUpdate fun r hrow => ?_
  split
  · exact Body.yields_pure.mpr (.notObserved hrow ‹_›)
  · simp only [rearmReconcile, Body.yields_bind]
    exact yields_now fun t => yields_enqueue (.observed hrow (not_not.mp ‹_›))

theorem redrive_commits : Keeps svc d (redrive svc) (.redriving n) (.acking n) := by
  simp only [redrive, Body.yields_bind]
  refine yields_getForUpdate fun r hrow => ?_
  split
  · rename_i hstate
    exact Body.yields_pure.mpr (.notRedriven hrow hstate.1 hstate.2)
  · rename_i hstate
    simp only [Body.yields_bind]
    refine yields_now fun t => yields_enqueue (yields_enqueue (.redriven hrow ?_))
    by_cases hreq : r.state = .requested
    · exact .inl hreq
    · exact .inr (not_not.mp fun hprov => hstate ⟨hreq, hprov⟩)

theorem acquire_commits {canEnumerate : Bool} :
    (acquire n r canEnumerate).Yields sees d .empty fun p' s =>
      Commits svc d (.acquiring n r) p' s.writes := by
  unfold acquire
  split
  · exact Body.yields_pure.mpr .acquired
  · split
    · simp only [Body.yields_bind]
      refine yields_adopt fun o => ?_
      cases o with
      | some => exact Body.yields_pure.mpr .acquired
      | none => exact Body.yields_pure.mpr .notAcquired
    · exact Body.yields_pure.mpr .notAcquired

/-- Every transition keeps to the table. -/
theorem Proc.body_commits {p : Proc} {i : Input} {x : Tx Proc} (h : p.body svc i = some x) :
    x.Yields sees d .empty fun p' s => Commits svc d p p' s.writes := by
  unfold Proc.body at h
  split at h
  all_goals cases h
  -- What is left follows the order of `Proc.body`.
  · exact yields_after request_commits
  · exact yields_after requestTerminate_commits
  · exact yields_after requestRestart_commits
  · exact yields_after adminRestart_commits
  · exact yields_after adminTerminate_commits
  · exact yields_after adminSuspend_commits
  · exact yields_after adminReconcile_commits
  · exact yields_reading fun r => .provision
  · exact yields_after (yields_rowUpdate fun r' t hrow => .marking hrow)
  · exact yields_after (yields_appendEvent .announcing)
  · exact Body.yields_pure.mpr .built
  · exact Body.yields_pure.mpr .unbuilt
  · exact Body.yields_pure.mpr .buildingStops
  · exact acquire_commits
  · exact yields_after (yields_providerCreate .created)
  · exact yields_after (yields_rowUpdate fun r' t hrow => .stored hrow)
  · exact Body.yields_pure.mpr .warmed
  · exact Body.yields_pure.mpr .unhealthy
  · exact Body.yields_pure.mpr .warmingStops
  · exact yields_after publishProvisioned_commits
  · exact yields_reading fun r => .restart
  · exact Body.yields_pure.mpr .rebuilt
  · exact Body.yields_pure.mpr .notRebuilt
  · exact Body.yields_pure.mpr .rebuildingStops
  · exact yields_after (yields_rowUpdate fun r' t hrow => .rotated hrow)
  · exact yields_after (yields_providerCreate .restarted)
  · exact Body.yields_pure.mpr .rewarmed
  · exact Body.yields_pure.mpr .unhealthyAgain
  · exact Body.yields_pure.mpr .unhealthyAgain
  · exact yields_after publishRestarted_commits
  · exact yields_after (yields_providerTerminate .discarded)
  · exact yields_after fail_commits
  · exact yields_reading fun r => .terminate
  · refine Body.yields_pure.mpr ?_
    split
    · exact .removes ‹_›
    · exact .skips (Bool.not_eq_true _ ▸ ‹_›)
  · exact yields_after (yields_providerTerminate .removed)
  · exact yields_after retire_commits
  · simp only [Body.yields_bind, Body.yields_pure]
    exact Body.yields_query.mpr fun _ _ => .reconcile
  · simp only [Body.yields_bind, Body.yields_pure]
    exact yields_now fun t => .recovering
  · simp only [watch]
    exact yields_after (Body.yields_bind.mpr (yields_now fun t => yields_enqueue .watched))
  · exact yields_after redrive_commits
  · exact Body.yields_pure.mpr .unreachable
  · exact Body.yields_pure.mpr .broken
  · exact Body.yields_pure.mpr .broken
  · exact Body.yields_pure.mpr .healthy
  · exact yields_after observe_commits
  · exact yields_after suspend_commits
  · exact Body.yields_pure.mpr .stillAway
  · exact Body.yields_pure.mpr .gone
  · exact Body.yields_pure.mpr .back
  · exact yields_after publishResumed_commits
  · simp only [rearmReconcile]
    exact yields_after (Body.yields_bind.mpr (yields_now fun t => yields_enqueue .rearmed))
  · exact yields_after (yields_ack .acked)

end Ultracore.Resourcework
