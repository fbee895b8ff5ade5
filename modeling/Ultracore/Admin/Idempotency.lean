-- SUMMARY: What a reported success of an operator command stands for, and when one key executes one command once.
import Ultracore.Admin.Turns

/-!
# Idempotency keys

A key is bound to a success by the audit row that `Run` inserts after the execution. The
lookup of the key asks neither for the command nor for the targets of that row, and between
the lookup and the row other calls with the key can pass the lookup too.
-/

namespace Ultracore.Admin

open Txn

variable {S : Type} {ph : Phase} {c : Call S} {audit : List AuditRow} {j : Nat} {key : String}

/-! ## What is recorded -/

/-- The row is the audit row of the execution. -/
structure AuditRow.Records (row : AuditRow) (ex : Execution) : Prop where
  key : row.idempotencyKey = some ex.key
  command : row.command = ex.command
  targets : row.targets = ex.targets
  before : row.before = ex.before
  after : row.after = ex.after
  outcome : row.outcome = ex.outcome

/-- What a call returns that finds its key bound to the row. -/
def AuditRow.replay (row : AuditRow) : Result where
  isDryRun := false
  previewHash := row.previewHash
  before := row.before
  after := row.after
  outcome := row.outcome
  message := row.error
  auditID := some row.id
  idempotentReplay := true

/-- An execution by call number `j`. -/
structure Execution.By (ex : Execution) (j : Nat) (c : Call S) : Prop where
  call : ex.call = j
  command : ex.command = c.command
  targets : ex.targets = c.targets
  key : ex.key = c.idem

/-- The result is that of the execution. -/
structure Result.Tells (r : Result) (ex : Execution) : Prop where
  before : r.before = ex.before
  after : r.after = ex.after
  outcome : r.outcome = ex.outcome
  original : r.idempotentReplay = false

theorem outcomeOf_success (after : Option Fields) : (outcomeOf after).success = true := by
  unfold outcomeOf
  split <;> rfl

theorem lookupIdempotent_eq_some {prev : Result}
    (h : Engine.lookupIdempotent audit key = some prev) : ∃ row ∈ audit,
      row.idempotencyKey = some key ∧ { prev with idempotentReplay := true } = row.replay := by
  obtain ⟨row, hfind, rfl⟩ := Option.map_eq_some_iff.mp h
  have hcond := List.find?_some hfind
  simp only [Bool.and_eq_true, decide_eq_true_eq] at hcond
  exact ⟨row, List.mem_of_find?_eq_some hfind, hcond.1, rfl⟩

theorem lookupIdempotent_eq_none (h : Engine.lookupIdempotent audit key = none) :
    ∀ row ∈ audit, row.idempotencyKey = some key → row.outcome.success = false := by
  intro row hrow hkey
  have hnone := List.find?_eq_none.mp (Option.map_eq_none_iff.mp h) row hrow
  simpa [hkey] using hnone

/-- What holds of a call in each phase. -/
def Call.Sound (sh : Shared S) (j : Nat) (c : Call S) : Phase → Prop
  | .looking | .acquiring => c.dry = false ∧ c.idem ≠ ""
  | .probing => c.dry = false → c.idem ≠ ""
  | .noting _ _ _ _ (.result r) => r.outcome.success = false
  | .executing r => c.dry = false ∧ c.idem ≠ "" ∧ r.idempotentReplay = false
  | .recording r | .colliding r =>
    c.dry = false ∧ c.idem ≠ "" ∧ ∃ ex ∈ sh.executed, ex.By j c ∧ r.Tells ex
  | .returned (.result r) => r.outcome.success = true →
      (∃ ex ∈ sh.executed, ex.By j c ∧ r.Tells ex) ∨
      ∃ row ∈ sh.audit, row.idempotencyKey = some c.idem ∧ r = row.replay
  | _ => True

theorem Call.Sound.mono {sh sh' : Shared S}
    (h : c.Sound sh j ph) (haudit : sh.audit ⊆ sh'.audit) (hexec : sh.executed ⊆ sh'.executed) :
    c.Sound sh' j ph := by
  cases ph with
  | recording r | colliding r =>
    obtain ⟨hdry, hidem, ex, hex, hby⟩ := h
    exact ⟨hdry, hidem, ex, hexec hex, hby⟩
  | noting _ _ _ _ reply => cases reply <;> exact h
  | returned reply =>
    cases reply with
    | result =>
      intro hs
      rcases h hs with ⟨ex, hex, hby⟩ | ⟨row, hrow, hr⟩
      · exact .inl ⟨ex, hexec hex, hby⟩
      · exact .inr ⟨row, haudit hrow, hr⟩
    | _ => trivial
  | _ => exact h

theorem Call.Sound.same {sh sh' : Shared S}
    (h : c.Sound sh j ph) (hs : sh.Same sh') : c.Sound sh' j ph :=
  h.mono (hs.1 ▸ List.Subset.refl _) (hs.2 ▸ List.Subset.refl _)

/-- Bound rows record executions, executions belong to calls, and each call is sound. -/
structure Recorded (w : World S) : Prop where
  rows : ∀ row ∈ w.shared.audit, row.idempotencyKey ≠ none → ∃ ex ∈ w.shared.executed, row.Records ex
  owners : ∀ ex ∈ w.shared.executed, ex.outcome.success = true ∧
    ∃ c ph, w.calls[ex.call]? = some (c, ph) ∧ ex.By ex.call c ∧ c.dry = false
  calls : ∀ (j : Nat) (c : Call S) (ph : Phase), w.calls[j]? = some (c, ph) →
    c.Sound w.shared j ph

section
variable {e : Engine} {j : Nat} {c : Call S} {sh sh' : Shared S} {faulty : Bool}
  {ph ph' : Phase}

theorem Turn.sound (h : Turn e j c sh faulty ph sh' ph') (hs : c.Sound sh j ph) : c.Sound sh' j ph' := by
  have hkeep : ∀ {r : Result} {id : Option Nat}, sh'.executed = sh.executed →
      (∃ ex ∈ sh.executed, ex.By j c ∧ r.Tells ex) →
      ∃ ex ∈ sh'.executed, ex.By j c ∧ Result.Tells { r with auditID := id } ex := by
    rintro r id hexec ⟨ex, hex, hby, htells⟩
    exact ⟨ex, hexec ▸ hex, hby, htells.before, htells.after, htells.outcome, htells.original⟩
  cases h with
  | preview hdry =>
    intro hnot
    rw [hdry] at hnot
    cases hnot
  | look hdry hidem => exact ⟨hdry, hidem⟩
  | replay hprev => exact fun _ => .inr (lookupIdempotent_eq_some hprev)
  | miss | collide => exact hs
  | admitted => exact fun _ => hs.2
  | previewed _ hfails => exact hfails
  | confirm _ hdry horiginal => exact ⟨hdry, hs hdry, horiginal⟩
  | @execute _ r rep _ hexec =>
    refine ⟨hs.1, hs.2.1, c.execution j rep, hexec ▸ List.mem_append_right _ (by simp), ?_, ?_⟩
    · exact ⟨rfl, rfl, rfl, rfl⟩
    · exact ⟨rfl, rfl, rfl, hs.2.2⟩
  | @note _ _ _ _ _ reply _ _ _ _ | @unnoted _ _ _ _ _ reply _ =>
    cases reply with
    | result r =>
      have hfails : r.outcome.success = false := hs
      exact fun hsuccess => Bool.noConfusion (hfails.symm.trans hsuccess)
    | _ => trivial
  | bind _ _ hexec => exact fun _ => .inl (hkeep hexec hs.2.2)
  | adopt hsame => exact fun _ => .inl (hkeep hsame.2 hs.2.2)
  | _ => trivial

/-- New rows that bind a key record the execution of the call that binds it. -/
theorem Turn.rows (h : Turn e j c sh faulty ph sh' ph') (hs : c.Sound sh j ph)
    (hrows : ∀ row ∈ sh.audit, row.idempotencyKey ≠ none → ∃ ex ∈ sh.executed, row.Records ex) :
    ∀ row ∈ sh'.audit, row.idempotencyKey ≠ none → ∃ ex ∈ sh'.executed, row.Records ex := by
  intro row hrow hkey
  have hold : row ∈ sh.audit → ∃ ex ∈ sh'.executed, row.Records ex := by
    intro hrow
    obtain ⟨ex, hex, hrec⟩ := hrows row hrow hkey
    exact ⟨ex, h.grows.2 hex, hrec⟩
  cases h with
  | note hnone haudit =>
    rw [haudit] at hrow
    rcases List.mem_append.mp hrow with hrow | hrow
    · exact hold hrow
    · cases List.mem_singleton.mp hrow
      exact absurd hnone hkey
  | @bind _ r _ haudit hexec =>
    rw [haudit] at hrow
    rcases List.mem_append.mp hrow with hrow | hrow
    · exact hold hrow
    · cases List.mem_singleton.mp hrow
      obtain ⟨-, hidem, ex, hex, hby, htells⟩ := hs
      refine ⟨ex, hexec ▸ hex, ?_, hby.command.symm, hby.targets.symm, htells.before, htells.after,
        htells.outcome⟩
      rw [hby.key]
      exact if_neg hidem
  | execute haudit => exact hold (haudit ▸ hrow)
  | reject hsame | admitted hsame | unnoted hsame | adopt hsame | previewed hsame _
  | confirm hsame _ _ | fail hsame _ | unaudited hsame | collided hsame => exact hold (hsame.1 ▸ hrow)
  | _ => exact hold hrow

/-- New executions are by the call that executes. -/
theorem Turn.owners (h : Turn e j c sh faulty ph sh' ph') (hs : c.Sound sh j ph) :
    ∀ ex ∈ sh'.executed, ex ∈ sh.executed ∨
      (ex.By j c ∧ ex.outcome.success = true ∧ c.dry = false ∧ ∃ r, ph' = .recording r) := by
  intro ex hex
  cases h with
  | @execute _ r rep _ hexec =>
    rw [hexec] at hex
    rcases List.mem_append.mp hex with hex | hex
    · exact .inl hex
    · cases List.mem_singleton.mp hex
      exact .inr ⟨⟨rfl, rfl, rfl, rfl⟩, outcomeOf_success _, hs.1, _, rfl⟩
  | note _ _ hexec | bind _ _ hexec => exact .inl (hexec ▸ hex)
  | reject hsame | admitted hsame | unnoted hsame | adopt hsame | previewed hsame _
  | confirm hsame _ _ | fail hsame _ | unaudited hsame | collided hsame => exact .inl (hsame.2 ▸ hex)
  | _ => exact .inl hex

end

section
variable {e : Engine} {w w' : World S} {a : Action S}

theorem Recorded.start (e : Engine) (s : S) : Recorded (e.start s) where
  rows _ hrow := by cases hrow
  owners _ hex := by cases hex
  calls _ _ _ hj := by simp [Engine.start] at hj

/-- A call keeps its number, whatever happens to it. -/
theorem Moves.keeps_call (hm : Moves e w a w') {i : Nat}
    (h : w.calls[i]? = some (c, ph)) : ∃ ph', w'.calls[i]? = some (c, ph') := by
  cases hm with
  | call => exact ⟨ph, by rw [List.getElem?_append_left (List.getElem?_eq_some_iff.mp h).1, h]⟩
  | @turn _ _ j c' ph₁ ph' sh' _ hj _ =>
    by_cases hij : i = j
    · subst hij
      cases h.symm.trans hj
      refine ⟨ph', ?_⟩
      rw [List.getElem?_set_self (List.getElem?_eq_some_iff.mp h).1]
    · exact ⟨ph, by rw [List.getElem?_set_ne (Ne.symm hij), h]⟩
  | @crash process _ _ =>
    refine ⟨(Call.killed process (c, ph)).2, ?_⟩
    rw [List.getElem?_map, h, Option.map_some]
    unfold Call.killed
    split <;> rfl
  | idle => exact ⟨ph, h⟩

theorem Recorded.moves (h : Recorded w) (hm : Moves e w a w') : Recorded w' := by
  have hkept : ∀ ex ∈ w.shared.executed, ex.outcome.success = true ∧
      ∃ c ph, w'.calls[ex.call]? = some (c, ph) ∧ ex.By ex.call c ∧ c.dry = false := by
    intro ex hex
    obtain ⟨hsuccess, c, ph, hget, hby⟩ := h.owners ex hex
    obtain ⟨ph', hget'⟩ := hm.keeps_call hget
    exact ⟨hsuccess, c, ph', hget', hby⟩
  cases hm with
  | call =>
    refine ⟨h.rows, hkept, fun j c' ph hj => ?_⟩
    rcases Machine.get_append_cases hj with hj | ⟨-, heq⟩
    · exact h.calls j c' ph hj
    · cases heq
      trivial
  | @turn _ _ j c ph ph' sh' _ hj hturn =>
    have hs := h.calls j c ph hj
    refine ⟨hturn.rows hs h.rows, fun ex hex => ?_, fun i c' ph₁ hi => ?_⟩
    · rcases hturn.owners hs ex hex with hex | ⟨hby, hsuccess, hdry, -⟩
      · exact hkept ex hex
      · refine ⟨hsuccess, c, ph', ?_, hby.call ▸ hby, hdry⟩
        rw [hby.call, List.getElem?_set_self (List.getElem?_eq_some_iff.mp hj).1]
    · rcases Machine.get_set_cases hi with ⟨rfl, heq⟩ | ⟨-, hi⟩
      · cases heq
        exact hturn.sound hs
      · exact (h.calls i c' ph₁ hi).mono hturn.grows.1 hturn.grows.2
  | @crash process sh' hsame =>
    refine ⟨?_, hsame.2 ▸ hkept, fun i c ph hi => ?_⟩
    · rw [hsame.1, hsame.2]
      exact h.rows
    · obtain ⟨⟨c', ph'⟩, hget, heq⟩ := Option.map_eq_some_iff.mp (List.getElem?_map ▸ hi)
      unfold Call.killed at heq
      split at heq <;> cases heq
      · trivial
      · exact (h.calls i _ _ hget).same hsame
  | idle hsame =>
    refine ⟨?_, hsame.2 ▸ hkept, fun i c ph hi => ?_⟩
    · rw [hsame.1, hsame.2]
      exact h.rows
    · exact (h.calls i c ph hi).same hsame

theorem recorded {Ok : World S → Action S → Prop} {s : S} (hrun : Steps e.step Ok (e.start s) w) :
    Recorded w :=
  hrun.invariant (.start e s) fun h _ hs => h.moves (Engine.step_moves hs)

end

/-! ## A success is about what was asked -/

/-- A call that is to execute has a key that no earlier such call used for another command
    or other targets. -/
def keyFitsCommand (w : World S) : Action S → Bool
  | .call c => c.dry || w.calls.all fun x => x.1.dry || decide (x.1.idem ≠ c.idem) ||
      decide (x.1.command = c.command ∧ x.1.targets = c.targets)
  | _ => true

/-- Calls that share a key are about the same. -/
def KeysFit (w : World S) : Prop :=
  ∀ x ∈ w.calls, ∀ y ∈ w.calls, x.1.dry = false → y.1.dry = false → x.1.idem = y.1.idem →
    x.1.command = y.1.command ∧ x.1.targets = y.1.targets

section
variable {e : Engine} {w w' : World S} {a : Action S}

/-- Every call after a step is one from before it or the one that arrives. -/
theorem Moves.old_call (hm : Moves e w a w') {y : Call S × Phase} (hy : y ∈ w'.calls) :
    (∃ x ∈ w.calls, x.1 = y.1) ∨ a = .call y.1 := by
  cases hm with
  | call =>
    rcases List.mem_append.mp hy with hy | hy
    · exact .inl ⟨y, hy, rfl⟩
    · cases List.mem_singleton.mp hy
      exact .inr rfl
  | turn _ hj =>
    rcases List.mem_or_eq_of_mem_set hy with hy | rfl
    · exact .inl ⟨y, hy, rfl⟩
    · exact .inl ⟨_, List.mem_of_getElem? hj, rfl⟩
  | crash =>
    obtain ⟨x, hx, rfl⟩ := List.mem_map.mp hy
    refine .inl ⟨x, hx, ?_⟩
    unfold Call.killed
    split <;> rfl
  | idle => exact .inl ⟨y, hy, rfl⟩

theorem KeysFit.moves (h : KeysFit w) (hok : keyFitsCommand w a = true) (hm : Moves e w a w') :
    KeysFit w' := by
  -- the call that arrives against those that were there
  have hnew : ∀ {c : Call S}, a = .call c → ∀ x ∈ w.calls, x.1.dry = false → c.dry = false →
      x.1.idem = c.idem → x.1.command = c.command ∧ x.1.targets = c.targets := by
    rintro c rfl x hx hxdry hcdry hidem
    simp only [keyFitsCommand, hcdry, Bool.false_or, List.all_eq_true] at hok
    simpa [hxdry, hidem] using hok x hx
  intro x hx y hy hxdry hydry hidem
  rcases hm.old_call hx with ⟨x', hx', hxeq⟩ | hxa <;> rcases hm.old_call hy with ⟨y', hy', hyeq⟩ | hya
  · rw [← hxeq] at hxdry hidem ⊢
    rw [← hyeq] at hydry hidem ⊢
    exact h x' hx' y' hy' hxdry hydry hidem
  · rw [← hxeq] at hxdry hidem ⊢
    exact hnew hya x' hx' hxdry hydry hidem
  · rw [← hyeq] at hydry hidem ⊢
    obtain ⟨hcommand, htargets⟩ := hnew hxa y' hy' hydry hxdry hidem.symm
    exact ⟨hcommand.symm, htargets.symm⟩
  · rw [Action.call.inj (hxa.symm.trans hya)]
    exact ⟨rfl, rfl⟩

end

/-- In every run in which a key is used for one command on the same targets only, a call that
    reports success stands for an execution of its own command on its own targets under its
    key: its own, or the one whose audit row it replays. -/
theorem success_stands_for_execution (e : Engine) (s : S) {w : World S}
    (hrun : Steps e.step (fun w a => keyFitsCommand w a = true) (e.start s) w) {j : Nat} {c : Call S}
    {r : Result} (hj : w.calls[j]? = some (c, .returned (.result r))) (hdry : c.dry = false)
    (hout : r.outcome = .ok ∨ r.outcome = .alreadyApplied) :
    ∃ ex ∈ w.shared.executed, ex.command = c.command ∧ ex.targets = c.targets ∧ ex.key = c.idem ∧
      (ex.call = j ∨ ∃ row ∈ w.shared.audit, row.Records ex ∧ r = row.replay) := by
  have hfit : KeysFit w := by
    refine hrun.invariant (fun x hx => ?_) fun h hok hs => h.moves hok (Engine.step_moves hs)
    cases hx
  have hrec := recorded hrun
  have hsuccess : r.outcome.success = true := by rcases hout with h | h <;> simp [h, Outcome.success]
  rcases hrec.calls j c _ hj hsuccess with ⟨ex, hex, hby, -⟩ | ⟨row, hrow, hkey, hr⟩
  · exact ⟨ex, hex, hby.command, hby.targets, hby.key, .inl hby.call⟩
  · obtain ⟨ex, hex, hrecords⟩ := hrec.rows row hrow (by simp [hkey])
    obtain ⟨-, c', ph, hget, hby, hdry'⟩ := hrec.owners ex hex
    have hidem : ex.key = c.idem := Option.some.inj (hrecords.key.symm.trans hkey)
    obtain ⟨hcommand, htargets⟩ := hfit _ (List.mem_of_getElem? hget) _ (List.mem_of_getElem? hj)
      hdry' hdry (hby.key.symm.trans hidem)
    exact ⟨ex, hex, hby.command.trans hcommand, hby.targets.trans htargets, hidem,
      .inr ⟨row, hrow, hrecords, hr⟩⟩

/-- The result that a call has returned. -/
def Phase.reported : Phase → Option Result
  | .returned (.result r) => some r
  | _ => none

theorem Phase.reported_eq_some {r : Result} (h : ph.reported = some r) :
    ph = .returned (.result r) := by
  unfold reported at h
  split at h
  · rw [Option.some.inj h]
  · cases h

/-- An engine whose preview hash is the text of the targets. -/
def plainEngine : Engine where
  previewHash _ targets _ := targets.foldl (fun text t => text ++ match t.2 with
    | .text s => s
    | .number n => toString n) ""

/-- Two resources of a session. -/
def twoResources : Resources where
  rows := [⟨"a", "t", "s", "ready", "local_process", 1, "p"⟩,
    ⟨"b", "t", "s", "ready", "local_process", 1, "p"⟩]

/-- An operator confirms a reconciliation under a key. -/
def confirmReconcile (process : Nat) (id key : String) : Action Resources :=
  .call (resourceReconcile process { operatorID := "ops", operatorRole := .operator }
    { reason := "stuck", idempotencyKey := key, previewHash := id } id)

/-- What a call asked for and was told. -/
structure Told where
  permitted : Bool
  dry : Bool
  key : String
  targets : Targets
  outcome : Option Outcome
  replay : Option Bool
deriving DecidableEq

def told (w : World Resources) (j : Nat) : Option Told :=
  (w.calls[j]?).map fun x => ⟨can x.1.caller.operatorRole x.1.command, x.1.dry, x.1.idem, x.1.targets,
    x.2.reported.map Result.outcome, x.2.reported.map Result.idempotentReplay⟩

theorem told_eq_some {w : World Resources} {t : Told} {outcome : Outcome}
    (h : told w j = some t) (hout : t.outcome = some outcome) :
    ∃ c r, w.calls[j]? = some (c, .returned (.result r)) ∧ r.outcome = outcome ∧
      t = ⟨can c.caller.operatorRole c.command, c.dry, c.idem, c.targets, some outcome,
        some r.idempotentReplay⟩ := by
  obtain ⟨⟨c, ph⟩, hj, rfl⟩ := Option.map_eq_some_iff.mp h
  obtain ⟨r, hr, rfl⟩ := Option.map_eq_some_iff.mp hout
  cases Phase.reported_eq_some hr
  exact ⟨c, r, hj, rfl, rfl⟩

/-- The same reconciliation is asked for twice under one key. -/
theorem success_stands_for_execution_twice :
    ∃ w c r, Steps plainEngine.step (fun w a => keyFitsCommand w a = true)
        (plainEngine.start twoResources) w ∧
      w.calls[1]? = some (c, .returned (.result r)) ∧ c.dry = false ∧ r.outcome = .ok ∧
      ∃ ex ∈ w.shared.executed, ex.command = c.command ∧ ex.targets = c.targets ∧ ex.key = c.idem ∧
        (ex.call = 1 ∨ ∃ row ∈ w.shared.audit, row.Records ex ∧ r = row.replay) := by
  have hplay : (playSteps plainEngine.step keyFitsCommand (plainEngine.start twoResources)
      ([confirmReconcile 0 "a" "k"] ++ List.replicate 6 (.advance 0) ++
        [confirmReconcile 0 "a" "k"] ++ List.replicate 2 (.advance 1))).map (fun w => told w 1) =
      some (some ⟨true, false, "k", [("resource_id", .text "a")], some .ok, some true⟩) := by
    decide +kernel
  obtain ⟨w, hw, htold⟩ := Option.map_eq_some_iff.mp hplay
  obtain ⟨c, r, hj, hout, heq⟩ := told_eq_some htold rfl
  have hdry : c.dry = false := (congrArg Told.dry heq).symm
  have hrun := playSteps_run hw
  exact ⟨w, c, r, hrun, hj, hdry, hout,
    success_stands_for_execution plainEngine twoResources hrun hj hdry (.inl hout)⟩

/-- A key that reconciled one resource is used for another: success is reported, and only the
    first was reconciled. -/
theorem success_stands_for_execution_replayed :
    ∃ w c r, Steps plainEngine.step (fun _ _ => True) (plainEngine.start twoResources) w ∧
      w.calls[1]? = some (c, .returned (.result r)) ∧ c.dry = false ∧ r.outcome = .ok ∧
      can c.caller.operatorRole c.command = true ∧
      ∀ ex ∈ w.shared.executed, ex.targets ≠ c.targets := by
  have hplay : (playSteps plainEngine.step (fun _ _ => true) (plainEngine.start twoResources)
      ([confirmReconcile 0 "a" "k"] ++ List.replicate 6 (.advance 0) ++
        [confirmReconcile 0 "b" "k"] ++ List.replicate 2 (.advance 1))).map (fun w =>
          (told w 1, w.shared.executed.map Execution.targets)) =
      some (some ⟨true, false, "k", [("resource_id", .text "b")], some .ok, some true⟩,
        [[("resource_id", .text "a")]]) := by
    decide +kernel
  obtain ⟨w, hw, heq⟩ := Option.map_eq_some_iff.mp hplay
  obtain ⟨htold, hexec⟩ := Prod.mk.inj heq
  obtain ⟨c, r, hj, hout, heq⟩ := told_eq_some htold rfl
  have htargets : c.targets = [("resource_id", .text "b")] := (congrArg Told.targets heq).symm
  refine ⟨w, c, r, (playSteps_run hw).mono fun _ _ _ => trivial, hj, (congrArg Told.dry heq).symm,
    hout, (congrArg Told.permitted heq).symm, ?_⟩
  intro ex hex hsame
  have hmem := List.mem_map_of_mem (f := Execution.targets) hex
  rw [hexec, List.mem_singleton, hsame, htargets] at hmem
  revert hmem
  decide

/-- In every run, whatever calls are made under whatever keys and whatever fails: a row of the audit
    that binds a key records an execution that succeeded, by a call for the row's command, targets
    and key that was no dry run. -/
theorem audit_records_executions (e : Engine) (s : S) {w : World S}
    (hrun : Steps e.step (fun _ _ => True) (e.start s) w) {row : AuditRow}
    (hrow : row ∈ w.shared.audit) (hkey : row.idempotencyKey ≠ none) :
    ∃ ex ∈ w.shared.executed, row.Records ex ∧ ex.outcome.success = true ∧
      ∃ c ph, w.calls[ex.call]? = some (c, ph) ∧ ex.By ex.call c ∧ c.dry = false := by
  have hrec := recorded hrun
  obtain ⟨ex, hex, hrecords⟩ := hrec.rows row hrow hkey
  exact ⟨ex, hex, hrecords, hrec.owners ex hex⟩

theorem audit_records_executions_reconcile :
    ∃ w, Steps plainEngine.step (fun _ _ => True) (plainEngine.start twoResources) w ∧
      ∃ row ∈ w.shared.audit, row.idempotencyKey ≠ none ∧ ∃ ex ∈ w.shared.executed, row.Records ex := by
  have hplay : (playSteps plainEngine.step (fun _ _ => true) (plainEngine.start twoResources)
      ([confirmReconcile 0 "a" "k"] ++ List.replicate 6 (.advance 0))).map (fun w =>
        w.shared.audit.map AuditRow.idempotencyKey) = some [some "k"] := by
    decide +kernel
  obtain ⟨w, hw, hkeys⟩ := Option.map_eq_some_iff.mp hplay
  obtain ⟨row, hrow, hkey⟩ := List.mem_map.mp (hkeys ▸ List.mem_singleton_self (some "k"))
  have hrun : Steps plainEngine.step (fun _ _ => True) (plainEngine.start twoResources) w :=
    (playSteps_run hw).mono fun _ _ _ => trivial
  have hbound : row.idempotencyKey ≠ none := by simp [hkey]
  obtain ⟨ex, hex, hrecords, -⟩ := audit_records_executions plainEngine twoResources hrun hrow hbound
  exact ⟨w, hrun, row, hrow, hbound, ex, hex, hrecords⟩

end Ultracore.Admin
