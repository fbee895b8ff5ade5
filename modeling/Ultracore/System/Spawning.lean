-- SUMMARY: Spawning: authority never grows, children are unique and capped, and a repeated call finds its child while there is room.
import Ultracore.Protocol.Children
import Ultracore.System.Verdicts

/-!
# Spawning

What holds of the tree of runs in every configuration, and what a spawning tool call
returns. A call that is repeated looks for its child twice: before its transaction, and
inside it, but there only after it has counted the children.
-/

namespace Ultracore.System

open Txn Loop Protocol

/-! ## Authority -/

/-- Run `x` was spawned by run `p`. -/
structure Parent (d : Db) (p x : AgentRun) : Prop where
  parent : p ∈ d.runs
  child : x ∈ d.runs
  link : x.parentRunID = some p.id

theorem Parent.within {cfg : Settings} {d : Db} {p x : AgentRun} (h : Parent d p x)
    (hd : Integrity cfg d) : x.policy.Within p.policy := by
  cases hd.lineage (Db.run?_of_mem hd.runIDs h.child) with
  | root hnone =>
    rw [h.link] at hnone
    cases hnone
  | child hr hp _ _ _ hwithin =>
    cases h.link.symm.trans hr
    cases hp.symm.trans (Db.run?_of_mem hd.runIDs h.parent)
    exact hwithin

/-- In every configuration, a run that descends from another one, through any number of
    generations, has no larger limit on children and is allowed no further tool and no
    further kind of resource. -/
theorem authority_never_grows (cfg : Settings) {log : List Write}
    {c : Config Db Row Write Err Input Proc} (hrun : (app cfg).machine.Reaches boot log c)
    {root x : AgentRun} (h : Relation.TransGen (Parent c.db) root x) :
    x.policy.maxChildren ≤ root.policy.maxChildren ∧
    (∀ name, x.policy.allowsTool name = true → root.policy.allowsTool name = true) ∧
    ∀ kind, x.policy.allowsResourceKind kind = true →
      root.policy.allowsResourceKind kind = true := by
  have hd : Integrity cfg c.db := (run_sound hrun).1.integrity
  have hwithin : x.policy.Within root.policy := by
    induction h with
    | single h => exact h.within hd
    | tail _ h ih => exact (h.within hd).trans ih
  exact ⟨hwithin.maxChildren, hwithin.tools, hwithin.kinds⟩

def reader : RunID := ⟨"reader", by decide⟩

/-- Process 2 executes the first step, which spawns a child with two tools, and process 3 the
    first step of the child, which spawns one with a single tool. -/
def readOnlyTree : Schedule :=
  startMain ++ stream 2 0 (mainJob 0) ++
    [.tx 2 (.tool (.spawnAgent "spawn" { prompt := "help", tools := some ["view", "spawn_agent"] }
      helper)), .tx 2 .go, .tx 2 .go] ++
    stream 3 1 (helperJob 0) ++
    [.tx 3 (.tool (.spawnAgent "spawn" { prompt := "look", tools := some ["view"] }
      reader)), .tx 3 .go, .tx 3 .go]

theorem authority_never_grows_reader :
    ∃ log c root x, (app sample).machine.Reaches boot log c ∧
      Relation.TransGen (Parent c.db) root x ∧ x.policy.allowTools = ["view"] ∧
      ∀ name, x.policy.allowsTool name = true → root.policy.allowsTool name = true := by
  have hruns : (played readOnlyTree).map
      (fun c => ((c.db.run? mainRun).isSome, (c.db.run? helper).map AgentRun.parentRunID,
        (c.db.run? reader).map fun x => (x.parentRunID, x.policy.allowTools))) =
      some (true, some (some mainRun), some (some helper, ["view"])) := by decide +kernel
  obtain ⟨log, c, -, hrun, hruns⟩ := play_boot hruns
  simp only [Prod.mk.injEq, Option.isSome_iff_exists,
    Option.map_eq_some_iff] at hruns
  obtain ⟨⟨root, hroot⟩, ⟨p, hp, hlink⟩, x, hx, hlink', htools⟩ := hruns
  have hmem : ∀ {r : RunID} {y : AgentRun}, c.db.run? r = some y → y ∈ c.db.runs :=
    List.mem_of_find?_eq_some
  have hparent : Parent c.db root p := ⟨hmem hroot, hmem hp, by rw [hlink, Db.run?_id hroot]⟩
  have hchild : Parent c.db p x := ⟨hmem hp, hmem hx, by rw [hlink', Db.run?_id hp]⟩
  have hdesc : Relation.TransGen (Parent c.db) root x := .tail (.single hparent) hchild
  exact ⟨log, c, root, x, hrun, hdesc, htools, (authority_never_grows sample hrun hdesc).2.1⟩

/-! ## Children are unique and capped -/

section
variable {cfg : Settings} {c c' : Conf} {log ws : List Write}
  {a : Action Input Nat Proc}
  {Ok : Conf → Action Input Nat Proc → Prop}

theorem run_families (hrun : RunOf cfg Ok log c) : Families c.db := by
  refine run_keeps (K := fun _ d => Families d) (fun _ _ _ h => ⟨h.keys, h.capped⟩) ?_ .refl
    ⟨by simp [boot, Db.run?, Table.lookup], by simp [boot, Db.run?, Table.lookup]⟩ hrun
  intro c _ log' ws _ _ p p' hrun' _ _ _ hc h
  cases hc with
  | ack => exact h.uncreated (by simp [Write.creates])
  | acts _ ho => exact ho.acts.families (run_sound hrun').1.integrity h

/-- The log has one job for the first step of each run that is stored. -/
theorem run_first_once (hrun : RunOf cfg Ok log c) (r : RunID) :
    Rooted c.db none ∧ log.countP (Write.firstJob r) = (c.db.stored r).toNat := by
  refine run_keeps (K := fun log d => Rooted d none ∧ log.countP (Write.firstJob r) =
    (d.stored r).toNat) (fun _ _ _ h => ⟨⟨h.1.owed, h.1.state, h.1.wait⟩, h.2⟩) ?_ .refl
    ⟨⟨by simp, fun _ _ h => (by cases h), fun _ _ h => (by cases h)⟩, rfl⟩ hrun
  rintro c log log' ws _ _ p p' hrun' _ _ hp hc ⟨hrooted, hcount⟩
  have hsound := (run_sound hrun').1
  cases hc with
  | @ack n _ =>
    have hnone : ∀ w ∈ [Write.deleteJob n], w.creates = false := by simp [Write.creates]
    refine ⟨hrooted.unadvanced (by simp [Write.advanced]), ?_⟩
    rw [List.countP_append, hcount, Db.stored_applyAll hnone]
    simp [Write.firstJob]
  | acts _ ho =>
    have hturn : ∀ job, (p.part cfg c.db).job = some job → Startable c.db job :=
      part_startable (hsound.procs p (List.mem_of_getElem? hp))
    have hws := ho.acts.first_once hsound.ordered hrooted (fun job hjob => (hturn job hjob).2) r
    refine ⟨ho.acts.rooted hrooted, ?_⟩
    rw [List.countP_append, hcount, ← hws]
    exact Nat.add_comm _ _

theorem step_created (hrun : RunOf cfg Ok log c)
    (hs : (app cfg).machine.Step c a ws c') {x : AgentRun} (hx : .insertRun x ∈ ws) :
    ∃ at_, .insertJob (.step ⟨x.id, x.tenantID, x.sessionID, 0⟩) at_ .create ∈ ws := by
  cases step_advance hrun hs with
  | still => cases hx
  | commit _ _ hc =>
    cases hc with
    | ack => simp at hx
    | acts _ ho => exact ho.acts.created hx

end

/-- In every configuration, at most one run was spawned under each key, the log has exactly
    one job for the first step of each child, which the transaction that adds a child also
    adds, and no run that has children has more of them than its policy allows. -/
theorem spawning_unique_and_capped (cfg : Settings) {log : List Write}
    {c : Config Db Row Write Err Input Proc} (hrun : (app cfg).machine.Reaches boot log c)
    {r : RunID} {p : AgentRun} (hp : c.db.run? r = some p) :
    (∀ x ∈ c.db.runs, ∀ y ∈ c.db.runs, x.parentRunID = some r → y.spawnKey = x.spawnKey → y = x) ∧
    (∀ x ∈ c.db.runs, x.parentRunID = some r → log.countP (Write.firstJob x.id) = 1) ∧
    (∀ a ws c', (app cfg).machine.Step c a ws c' → ∀ x, .insertRun x ∈ ws →
      x.parentRunID = some r →
      ∃ at_, .insertJob (.step ⟨x.id, x.tenantID, x.sessionID, 0⟩) at_ .create ∈ ws) ∧
    (c.db.childIDs r ≠ [] → ((c.db.childIDs r).length : Int) ≤ p.policy.maxChildren) := by
  have hd : Integrity cfg c.db := (run_sound hrun).1.integrity
  have hf := run_families hrun
  have hget : ∀ {x}, x ∈ c.db.runs → c.db.run? x.id = some x := Db.run?_of_mem hd.runIDs
  refine ⟨fun x hx y hy hr hk => ?_, fun x hx _ => ?_, fun a ws c' hs x hx _ => step_created hrun hs hx,
    hf.capped hp⟩
  · cases hd.lineage (hget hx) with
    | root hnone =>
      rw [hr] at hnone
      cases hnone
    | child hr' hq ht _ hkey =>
      obtain ⟨-, q', hq', ht', -⟩ := child_of_spawnKey hd (hget hy) (hk.trans hkey)
      cases hq.symm.trans hq'
      have hid := hf.keys (hget hx) (hget hy) (hkey ▸ spawnKey_ne_empty _ _ _) hk
        (ht'.symm.trans ht)
      have hsame := hget hy
      rw [hid, hget hx] at hsame
      exact (Option.some.inj hsame).symm
  · rw [(run_first_once hrun x.id).2, Db.stored, hget hx]
    rfl

theorem spawning_unique_and_capped_helper :
    ∃ log c p, (app sample).machine.Reaches boot log c ∧ c.db.run? mainRun = some p ∧
      c.db.childIDs mainRun = [helper] ∧
      (∀ x ∈ c.db.runs, x.parentRunID = some mainRun → log.countP (Write.firstJob x.id) = 1) ∧
      ((c.db.childIDs mainRun).length : Int) ≤ p.policy.maxChildren := by
  have hruns : (played readOnlyTree).map
      (fun c => ((c.db.run? mainRun).isSome, c.db.childIDs mainRun)) = some (true, [helper]) := by
    decide +kernel
  obtain ⟨log, c, -, hrun, hruns⟩ := play_boot hruns
  simp only [Prod.mk.injEq, Option.isSome_iff_exists] at hruns
  obtain ⟨⟨p, hp⟩, hchildren⟩ := hruns
  obtain ⟨-, hjobs, -, hcap⟩ := spawning_unique_and_capped sample hrun hp
  exact ⟨log, c, p, hrun, hp, hchildren, hjobs, hcap (by simp [hchildren])⟩

/-- A run that is started with a cap below zero. -/
def startCapless : Schedule :=
  [.act (.spawn (.createSession "tenant" "session")), .tx 0 .go,
    .act (.spawn (.start
      { tenantID := "tenant", sessionID := "session", prompt := "go", actor := actorSystem
        policy := some { defaultRunPolicy with maxChildren := -1 } } mainRun)),
    .tx 1 .go, .tx 1 .go]

/-- No children are more than minus one. -/
theorem spawning_unique_and_capped_below :
    ∃ log c p, (app sample).machine.Reaches boot log c ∧ c.db.run? mainRun = some p ∧
      p.policy.maxChildren < (c.db.childIDs mainRun).length := by
  have hruns : (played startCapless).map
      (fun c => ((c.db.run? mainRun).map fun p => p.policy.maxChildren, c.db.childIDs mainRun)) =
      some (some (-1), []) := by decide +kernel
  obtain ⟨log, c, -, hrun, hruns⟩ := play_boot hruns
  simp only [Prod.mk.injEq, Option.map_eq_some_iff] at hruns
  obtain ⟨⟨p, hp, hcap⟩, hchildren⟩ := hruns
  exact ⟨log, c, p, hrun, hp, by rw [hcap, hchildren]; decide⟩

/-! ## A repeated call finds its child -/

/-- The key of the child that an execution of `spawnChild` is about, while it lasts. -/
def Proc.spawnKey? : Proc → Option String
  | .spawning dl { todo := (req, _) :: _, .. } =>
    some (spawnKey dl.run.id dl.job.stepIndex req.toolCallID)
  | .creating _ _ child => some child.spawnKey
  | _ => none

/-- Whether the spec passes the checks of `spawnChild` that need no database. -/
def Proc.permitted : Proc → Bool
  | .spawning dl { todo := (req, _) :: _, .. } =>
    match req.check dl.run with
    | .ok _ => true
    | .error _ => false
  | _ => true

/-- The process after `spawnChild` has returned `id`. -/
def Proc.returning (id : RunID) : Proc → Proc
  | .spawning dl s => .spawning dl { s with todo := s.todo.tail, ids := s.ids ++ [id] }
  | .creating dl s _ => .spawning dl { s with ids := s.ids ++ [id] }
  | p => p

/-- While the transaction of `spawnChild` runs for a key that is used, the parent has fewer
    children than it may have. -/
def roomLeft (c : Conf) (a : Action Input Nat Proc) : Bool :=
  match actor c a with
  | some (.creating dl _ child) =>
    (c.db.runs.all fun x => decide (x.spawnKey ≠ child.spawnKey)) ||
      decide (((c.db.childIDs dl.run.id).length : Int) < dl.run.policy.maxChildren)
  | _ => true

section
variable {cfg : Settings} {c c' : Conf} {log ws : List Write}
  {a : Action Input Nat Proc} {p : Proc} {j : Nat}
  {Ok : Conf → Action Input Nat Proc → Prop}

/-- What a step without an infrastructure error does to process `j`: nothing, or it ends the
    transaction of the process. -/
theorem step_turn (hrun : RunOf cfg Ok log c) (hs : (app cfg).machine.Step c a ws c')
    (hj : c.world.procs[j]? = some (some p)) (hinfra : a ≠ .lose j ∧ a ≠ .abort j ∧ a ≠ .crash j) :
    ∃ q, c'.world.procs[j]? = some (some q) ∧ (q = p ∨
      (a = .commit j ∧ Commits cfg (Seen cfg) c.db p q ws) ∨
      (a = .rollback j ∧ ∃ i e, q = onErr p i e ∧ Refusal c.db p e)) := by
  obtain ⟨hsound, hserial⟩ := run_sound hrun
  rcases hserial hs with ⟨-, heq⟩ | hstep
  · exact ⟨p, by rw [heq]; exact hj, .inl rfl⟩
  have hp := hsound.procs p (List.mem_of_getElem? hj)
  have hlt : j < c.world.procs.length := (List.getElem?_eq_some_iff.mp hj).1
  have hother : ∀ {j' : Nat} (o : Option Proc), j' ≠ j →
      (c.world.procs.set j' o)[j]? = some (some p) := by
    intro j' o hne
    rw [List.getElem?_set_ne hne, hj]
  generalize c'.world = w' at hstep
  cases hstep with
  | spawn => exact ⟨p, (List.getElem?_append_left hlt).trans hj, .inl rfl⟩
  | @commit j' _ p' _ _ _ hj' hbody hruns =>
    by_cases hne : j' = j
    · subst hne
      cases Option.some.inj (hj.symm.trans hj')
      obtain ⟨x, hb, rfl⟩ := App.machine_body.mp hbody
      exact ⟨p', List.getElem?_set_self hlt,
        .inr (.inl ⟨rfl, body_commits hsound.integrity hp hb hruns⟩)⟩
    · exact ⟨p, hother _ hne, .inl rfl⟩
  | @rollback j' _ i _ _ e hj' hbody hruns =>
    by_cases hne : j' = j
    · subst hne
      cases Option.some.inj (hj.symm.trans hj')
      obtain ⟨x, hb, rfl⟩ := App.machine_body.mp hbody
      exact ⟨_, List.getElem?_set_self hlt,
        .inr (.inr ⟨rfl, i, e, rfl, body_refuses hsound.integrity hp hb hruns⟩)⟩
    · exact ⟨p, hother _ hne, .inl rfl⟩
  | lose => exact ⟨p, hother _ fun h => hinfra.1 (h ▸ rfl), .inl rfl⟩
  | abort => exact ⟨p, hother _ fun h => hinfra.2.1 (h ▸ rfl), .inl rfl⟩
  | crash => exact ⟨p, hother _ fun h => hinfra.2.2 (h ▸ rfl), .inl rfl⟩
  | env => exact ⟨p, hj, .inl rfl⟩

theorem actor_eq (hj : c.world.procs[j]? = some (some p)) (ha : a = .commit j ∨ a = .rollback j) :
    actor c a = some p := by
  obtain ⟨sl, hsl, hproc⟩ : ∃ sl, c.procs[j]? = some sl ∧ sl.proc = some p := by
    simpa using hj
  rcases ha with rfl | rfl <;> simp [actor, hsl, hproc]

/-- Only one run is stored under a key. -/
theorem key_unique {r : RunID} {i : Nat} {call : String} (hd : Integrity cfg c.db)
    (hf : Families c.db) {x y : AgentRun} {rx ry : RunID} (hx : c.db.run? rx = some x)
    (hy : c.db.run? ry = some y) (hkx : x.spawnKey = spawnKey r i call)
    (hky : y.spawnKey = spawnKey r i call) : y = x := by
  obtain ⟨-, p, hp, ht, -⟩ := child_of_spawnKey hd hx hkx
  obtain ⟨-, p', hp', ht', -⟩ := child_of_spawnKey hd hy hky
  cases hp.symm.trans hp'
  obtain rfl := hf.keys hx hy (hkx ▸ spawnKey_ne_empty r i call) (hky.trans hkx.symm)
    (ht'.symm.trans ht)
  exact Option.some.inj (hy.symm.trans hx)

end

/-- Once a child is stored under a key, an execution of `spawnChild` for the key, with a spec
    that passes its checks as it did when the child was created, is not finished or has
    returned that child after each step in which no infrastructure error hits it: in every run
    in which the parent has fewer children than it may have whenever the transaction of
    `spawnChild` runs for a key that is used. -/
theorem spawning_idempotent (cfg : Settings) {log ws : List Write}
    {c c' : Config Db Row Write Err Input Proc} {a : Action Input Nat Proc}
    (hrun : (app cfg).machine.Run (fun c a => roomLeft c a = true) boot log c)
    (hok : roomLeft c a = true) (hs : (app cfg).machine.Step c a ws c') {j : Nat} {p : Proc}
    (hj : c.world.procs[j]? = some (some p))
    (hinfra : a ≠ .lose j ∧ a ≠ .abort j ∧ a ≠ .crash j) {key : String}
    (hkey : p.spawnKey? = some key) (hspec : p.permitted = true) {x : AgentRun}
    (hx : x ∈ c.db.runs) (hxk : x.spawnKey = key) :
    ∃ q, c'.world.procs[j]? = some (some q) ∧ (q = p ∨
      (∃ dl s child, q = .creating dl s child ∧ child.spawnKey = key) ∨ q = p.returning x.id) := by
  have hsound := (run_sound hrun).1
  have hd : Integrity cfg c.db := hsound.integrity
  have hf := run_families hrun
  have hget := Db.run?_of_mem hd.runIDs hx
  obtain ⟨q, hq, hturn⟩ := step_turn hrun hs hj hinfra
  refine ⟨q, hq, ?_⟩
  cases p with
  | spawning dl s =>
    obtain ⟨tool, todo, ids, fanIn⟩ := s
    cases todo with
    | nil => cases hkey
    | cons head rest =>
      obtain ⟨req, newID⟩ := head
      have hkey : spawnKey dl.run.id dl.job.stepIndex req.toolCallID = key :=
        Option.some.inj hkey
      obtain ⟨policy, hcheck⟩ : ∃ policy, req.check dl.run = .ok policy := by
        simp only [Proc.permitted] at hspec
        split at hspec
        · exact ⟨_, ‹_›⟩
        · cases hspec
      rcases hturn with rfl | ⟨-, hc⟩ | ⟨-, i, e, -, hrefuse⟩
      · exact .inl rfl
      · obtain ⟨s, -, ho⟩ := hc.outcome (by simp)
        rcases ho.deed.2 req newID rest policy rfl hcheck with ⟨y, hy, hyk, rfl⟩ | rfl
        · obtain rfl := key_unique hd hf hget (Db.run?_of_mem hd.runIDs hy)
            (hxk.trans hkey.symm) hyk
          exact .inr (.inr rfl)
        · exact .inr (.inl ⟨_, _, _, rfl, hkey⟩)
      · exact absurd hcheck (hrefuse req newID rest policy rfl)
  | creating dl s child =>
    have hkey : child.spawnKey = key := Option.some.inj hkey
    have hp := hsound.procs _ (List.mem_of_getElem? hj)
    obtain ⟨call, hcall⟩ := hp.2.spawnKey
    rcases hturn with rfl | ⟨-, hc⟩ | ⟨ha, i, e, -, hrefuse⟩
    · exact .inl rfl
    · obtain ⟨s, -, ho⟩ := hc.outcome (by simp)
      obtain ⟨id, hspawned, rfl⟩ := ho.deed
      have hused := (hxk.trans hkey.symm).trans hcall
      rcases hspawned.cases with ⟨y, hy, hyk⟩ | hnone
      · obtain rfl := key_unique hd hf hget hy hused (hyk.trans hcall)
        rw [← Db.run?_id hy]
        exact .inr (.inr rfl)
      · obtain ⟨-, u, hu, htenant, -⟩ := child_of_spawnKey hd hget hused
        obtain ⟨z, hz⟩ := hp.1.1.delivered.startable.1
        have hrow := hz.run
        rw [← hp.1.1.runID] at hrow
        cases hu.symm.trans hrow
        exact absurd (hxk.trans hkey.symm) (Db.spawnKey_ne_of_spawned hnone
          (hcall ▸ spawnKey_ne_empty _ _ _) hget (htenant.symm.trans hz.tenantID))
    · -- the parent has room, so the transaction is not refused
      have hfull := hrefuse (.inr ⟨x.id, x, hget, hxk.trans hkey.symm⟩)
      have hroom : (∀ y ∈ c.db.runs, y.spawnKey ≠ child.spawnKey) ∨
          ((c.db.childIDs dl.run.id).length : Int) < dl.run.policy.maxChildren := by
        simpa [roomLeft, actor_eq hj (.inr ha)] using hok
      rcases hroom with hfree | hless
      · exact absurd (hxk.trans hkey.symm) (hfree x hx)
      · omega
  | _ => cases hkey

/-- A session, and a run in it that may have `n` children. -/
def startLimited (n : Int) : Schedule :=
  [.act (.spawn (.createSession "tenant" "session")), .tx 0 .go,
    .act (.spawn (.start
      { tenantID := "tenant", sessionID := "session", prompt := "go", actor := actorSystem,
        policy := some { allowTools := ["*"], maxChildren := n, childInherit := false } } mainRun)),
    .tx 1 .go, .tx 1 .go]

/-- Process `j` calls `spawn_agent` and finds no child under the key. -/
def lookForHelper (j : Nat) (newID : RunID) : Schedule :=
  [.tx j (.tool (.spawnAgent "spawn" { prompt := "help" } newID)), .tx j .go]

/-- Two deliveries of the first step make the same call, and both look for the child before
    process 2 creates it. Process 3 is in its transaction and has executed `k` statements. -/
def spawnTwice (n : Int) (k : Nat) : Schedule :=
  startLimited n ++ stream 2 0 (mainJob 0) ++ stream 3 0 (mainJob 0) ++
    lookForHelper 2 helper ++ lookForHelper 3 reader ++ [.tx 2 .go, .act (.begin 3 .go)] ++
    List.replicate k (.act (.exec 3))

def helperKey : String := spawnKey mainRun 0 "spawn"

theorem spawning_idempotent_adopted :
    ∃ log ws c c' p q x, (app sample).machine.Run (fun c a => roomLeft c a = true) boot log c ∧
      (app sample).machine.Step c (.commit 3) ws c' ∧ c.world.procs[3]? = some (some p) ∧
      p.spawnKey? = some helperKey ∧ x ∈ c.db.runs ∧ x.spawnKey = helperKey ∧ x.id = helper ∧
      c'.world.procs[3]? = some (some q) ∧ (q = p ∨
        (∃ dl s child, q = .creating dl s child ∧ child.spawnKey = helperKey) ∨
        q = p.returning x.id) := by
  have hplay : ((app sample).machine.play roomLeft boot (spawnTwice 2 3)).map
      (fun c => (((app sample).machine.next c (.commit 3)).isSome, roomLeft c (.commit 3))) =
      some (true, true) := by decide +kernel
  have hbefore : ((app sample).machine.play roomLeft boot (spawnTwice 2 3)).map
      (fun c => ((c.world.procs[3]?.bind id).map fun p => (p.spawnKey?, p.permitted),
        (c.db.run? helper).map AgentRun.spawnKey)) =
      some (some (some helperKey, true), some helperKey) := by decide +kernel
  obtain ⟨c, hc, hnext⟩ := Option.map_eq_some_iff.mp hplay
  simp only [Prod.mk.injEq, Option.isSome_iff_exists] at hnext
  simp only [hc, Option.map_some, Option.some.injEq, Prod.mk.injEq, Option.map_eq_some_iff] at hbefore
  obtain ⟨⟨c', hnext⟩, hok⟩ := hnext
  obtain ⟨⟨p, hp, hkey, hspec⟩, x, hx, hxk⟩ := hbefore
  obtain ⟨log, hrun⟩ := Machine.play_run hc
  obtain ⟨ws, hs⟩ := Machine.next_step hnext
  obtain ⟨_, hj, rfl⟩ := Option.bind_eq_some_iff.mp hp
  have hmem : x ∈ c.db.runs := List.mem_of_find?_eq_some hx
  obtain ⟨q, hq, hend⟩ := spawning_idempotent sample hrun hok hs hj (by simp) hkey hspec hmem hxk
  exact ⟨log, ws, c, c', p, q, x, hrun, hs, hj, hkey, hmem, hxk, Db.run?_id hx, hq, hend⟩

/-- What a process is about to report as refused: the tool and the reason. -/
def Proc.refusal? : Proc → Option (String × String)
  | .denying _ tool reason => some (tool, reason)
  | _ => none

/-- With a limit of one child, the second delivery is refused the child that exists. -/
theorem spawning_idempotent_refused :
    ∃ log ws c c' p q x, (app sample).machine.Reaches boot log c ∧
      (app sample).machine.Step c (.rollback 3) ws c' ∧ c.world.procs[3]? = some (some p) ∧
      p.spawnKey? = some helperKey ∧ p.permitted = true ∧ x ∈ c.db.runs ∧
      x.spawnKey = helperKey ∧ c'.world.procs[3]? = some (some q) ∧
      q.refusal? = some ("spawn_agent", "max children reached") := by
  have hbefore : (played (spawnTwice 1 2)).map
      (fun c => ((c.world.procs[3]?.bind id).map fun p => (p.spawnKey?, p.permitted),
        (c.db.run? helper).map AgentRun.spawnKey)) =
      some (some (some helperKey, true), some helperKey) := by decide +kernel
  obtain ⟨log, c, hc, hrun, hbefore⟩ := play_boot hbefore
  have hafter : ((played (spawnTwice 1 2)).bind fun c =>
      (app sample).machine.next c (.rollback 3)).map
      (fun c => (c.world.procs[3]?.bind id).map Proc.refusal?) =
      some (some (some ("spawn_agent", "max children reached"))) := by decide +kernel
  simp only [Prod.mk.injEq, Option.map_eq_some_iff] at hbefore
  simp only [hc, Option.bind_some] at hafter
  obtain ⟨⟨p, hp, hkey, hspec⟩, x, hx, hxk⟩ := hbefore
  obtain ⟨c', hnext, hend⟩ := Option.map_eq_some_iff.mp hafter
  obtain ⟨q, hq, hrefused⟩ := Option.map_eq_some_iff.mp hend
  obtain ⟨ws, hs⟩ := Machine.next_step hnext
  obtain ⟨_, hj, rfl⟩ := Option.bind_eq_some_iff.mp hp
  obtain ⟨_, hj', rfl⟩ := Option.bind_eq_some_iff.mp hq
  exact ⟨log, ws, c, c', p, q, x, hrun, hs, hj, hkey, hspec, List.mem_of_find?_eq_some hx, hxk, hj',
    hrefused⟩

end Ultracore.System
