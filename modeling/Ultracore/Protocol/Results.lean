-- SUMMARY: The state of a wait and the state that its result tells, along the statements of a transaction.
import Ultracore.Protocol.Closing
import Ultracore.Protocol.Emission

/-!
# Results of waits

Whoever closes an open wait writes its state and its result in one statement. A sweep writes
them in two transactions: the claim sets the state, and the result is recorded when the members
have been looked at. In between the wait is `claimed`.

Every other transaction comes to waits that it has listed as open. Where the waits that it locks
are open indeed, a wait that it finds closed is one that it has closed itself, and what it writes
keeps state and result in agreement. This is shown here; for the sweep it is a matter of what its
second transaction finds.
-/

namespace Ultracore

open Txn

/-- A sweep has claimed the wait and has not recorded a result. -/
def RunWait.claimed (x : RunWait) : Bool := decide (x.state = .timedOut) && x.result.isNone

def Db.claimed (d : Db) (w : WaitID) : Bool := (d.wait? w).any RunWait.claimed

/-- The run is stored and finished. -/
def Db.finished (d : Db) (r : RunID) : Bool := (d.run? r).any fun x => x.state.terminal

/-- The state of a wait agrees with its result. -/
structure RunWait.Consistent (x : RunWait) : Prop where
  opened : x.state = .open → x.result = none
  agrees : ∀ o, x.result = some o → o.state = x.state

/-- The wait that a write takes out of the open state, and the state it gets. -/
def Write.left? : Write → Option (WaitID × WaitState)
  | .closeWait w state _ => some (w, state)
  | .claimWait w => some (w, .timedOut)
  | _ => none

/-- Writes that set neither the state nor the result of a wait. -/
def Write.mild : Write → Bool
  | .insertWait _ | .closeWait _ _ _ | .claimWait _ | .setWaitResult _ _ => false
  | _ => true

namespace Protocol

open Loop Tx

variable {d v : Db} {ws ws' : List Write} {wr : Write} {w : WaitID} {x y : RunWait}
  {state : WaitState} {o : WaitOutcome} {U : WaitID → Prop}

/-! ## Rows -/

/-- One of the writes takes the wait out of the open state. -/
def Left (w : WaitID) (ws : List Write) : Prop := ∃ wr ∈ ws, ∃ state, wr.left? = some (w, state)

theorem left_append : Left w (ws ++ [wr]) ↔ Left w ws ∨ ∃ state, wr.left? = some (w, state) := by
  simp [Left, or_and_right, exists_or]

/-- The state of a row is what a write that takes the wait out of the open state says, or what it
    was. -/
theorem state_apply (hy : (wr.apply v).wait? w = some y) :
    wr.left? = some (w, y.state) ∨ wr = .insertWait y ∨ (∀ state, wr.left? ≠ some (w, state)) ∧
      ∃ x, v.wait? w = some x ∧ y.state = x.state := by
  rw [Db.wait?_apply] at hy
  cases wr with
  | insertWait z =>
    simp only [Write.onWait, Option.or_eq_some_iff] at hy
    rcases hy with hy | ⟨-, hy⟩
    · exact .inr (.inr ⟨by simp [Write.left?], y, hy, rfl⟩)
    · split at hy
      · cases hy
        exact .inr (.inl rfl)
      · cases hy
  | closeWait w' | claimWait w' | setWaitResult w' | markResumed w' =>
    simp only [Write.onWait] at hy
    split at hy
    · rename_i hw
      subst hw
      obtain ⟨x, hx, rfl⟩ := Option.map_eq_some_iff.mp hy
      first
        | exact .inl rfl
        | exact .inr (.inr ⟨by simp [Write.left?], x, hx, rfl⟩)
    · rename_i hw
      exact .inr (.inr ⟨by simp [Write.left?, Ne.symm hw], y, hy, rfl⟩)
  | _ => exact .inr (.inr ⟨by simp [Write.left?], y, hy, rfl⟩)

/-- The same of every row of the table. -/
theorem mem_apply (hy : y ∈ (wr.apply v).waits) :
    wr.left? = some (y.id, y.state) ∨ wr = .insertWait y ∨
      (∀ state, wr.left? ≠ some (y.id, state)) ∧ ∃ x ∈ v.waits, y.id = x.id ∧ y.state = x.state := by
  cases wr with
  | insertWait z =>
    rcases List.mem_append.mp hy with hy | hy
    · exact .inr (.inr ⟨by simp [Write.left?], y, hy, rfl, rfl⟩)
    · exact .inr (.inl (by rw [List.mem_singleton.mp hy]))
  | closeWait w' | claimWait w' | setWaitResult w' | markResumed w' =>
    obtain ⟨x, hx, rfl⟩ := List.mem_map.mp hy
    by_cases hw : x.id = w'
    · simp only [hw, if_true]
      first
        | exact .inl rfl
        | exact .inr (.inr ⟨by simp [Write.left?], x, hx, hw.symm, rfl⟩)
    · simp only [hw, if_false]
      exact .inr (.inr ⟨by simp [Write.left?, Ne.symm hw], x, hx, rfl, rfl⟩)
  | _ => exact .inr (.inr ⟨by simp [Write.left?], y, hy, rfl, rfl⟩)

/-! ## What a transaction keeps -/

/-- The writes `ws` to the tables `d` leave consistent rows. A wait that they leave closed was
    closed before or was closed by them; in this case it is closed whatever they are written to,
    and it is resolved if it is one of `U`. -/
structure Neat (U : WaitID → Prop) (d : Db) (ws : List Write) : Prop where
  rows : ∀ {w x}, (applyAll d ws).wait? w = some x → x.Consistent
  closed : ∀ {w}, (applyAll d ws).closed w = true → d.closed w = true ∨ Left w ws
  left : ∀ {w}, Left w ws → ∀ d' : Db, ∀ x ∈ (applyAll d' ws).waits, x.id = w → x.state ≠ .open
  resolved : ∀ {w x}, U w → Left w ws → (applyAll d ws).wait? w = some x → x.state = .resolved

/-- No wait is closed yet. -/
def Fresh (d : Db) (ws : List Write) : Prop := Neat (fun _ => False) d ws ∧ ∀ w, ¬Left w ws

theorem Fresh.nil (h : ∀ {w x}, d.wait? w = some x → x.Consistent) : Fresh d [] :=
  have hleft : ∀ w, ¬Left w [] := fun w => by simp [Left]
  ⟨⟨h, .inl, fun hw => absurd hw (hleft _), False.elim⟩, hleft⟩

theorem Fresh.neat (h : Fresh d ws) : Neat U d ws :=
  ⟨h.1.rows, h.1.closed, h.1.left, fun _ hw => absurd hw (h.2 _)⟩

theorem Neat.write (h : Neat U d ws)
    (hins : ∀ x, wr = .insertWait x → x.state = .open ∧ ¬Left x.id ws)
    (hleft : ∀ w state, wr.left? = some (w, state) → state ≠ .open ∧ (U w → state = .resolved))
    (hrows : ∀ {w x}, (wr.apply (applyAll d ws)).wait? w = some x → x.Consistent) :
    Neat U d (ws ++ [wr]) := by
  have happ : ∀ d : Db, applyAll d (ws ++ [wr]) = wr.apply (applyAll d ws) := by simp
  refine ⟨?_, fun {w} hw => ?_, fun {w} hw d' y hy hid => ?_, fun {w y} hU hw hy => ?_⟩
  · rw [happ]
    exact hrows
  · rw [happ] at hw
    obtain ⟨y, hy, hne⟩ := (Option.any_eq_true _ _).mp hw
    rcases state_apply hy with hst | rfl | ⟨-, x, hx, hstate⟩
    · exact .inr (left_append.mpr (.inr ⟨_, hst⟩))
    · simp [(hins y rfl).1] at hne
    · refine (h.closed ?_).imp id fun hl => left_append.mpr (.inl hl)
      simpa [Db.closed, hx, ← hstate] using hne
  · rw [happ] at hy
    subst hid
    rcases mem_apply hy with hst | rfl | ⟨hnot, x, hx, hid, hstate⟩
    · exact (hleft _ _ hst).1
    · rcases left_append.mp hw with hw | ⟨_, hst⟩
      · exact absurd hw (hins y rfl).2
      · cases hst
    · rw [hstate]
      rcases left_append.mp hw with hw | ⟨_, hst⟩
      · exact h.left hw d' x hx hid.symm
      · exact absurd hst (hnot _)
  · rw [happ] at hy
    rcases state_apply hy with hst | rfl | ⟨hnot, x, hx, hstate⟩
    · exact (hleft _ _ hst).2 hU
    · rcases left_append.mp hw with hw | ⟨_, hst⟩
      · rw [Db.wait?_id hy |>.symm] at hw
        exact absurd hw (hins y rfl).2
      · cases hst
    · rw [hstate]
      rcases left_append.mp hw with hw | ⟨_, hst⟩
      · exact h.resolved hU hw hx
      · exact absurd hst (hnot _)

theorem Write.left?_mild (h : Write.mild wr = true) : wr.left? = none := by
  cases wr <;> first | rfl | cases h

/-- Writes that set neither state nor result keep this. -/
theorem Neat.mildly (h : Neat U d ws) (hws : ∀ wr ∈ ws', Write.mild wr = true) :
    Neat U d (ws ++ ws') := by
  induction ws' generalizing ws with
  | nil => simpa using h
  | cons wr ws' ih =>
    have hwr := hws wr (by simp)
    have hone : Neat U d (ws ++ [wr]) := by
      refine h.write (fun x heq => ?_) (fun w state hst => ?_) fun {w y} hy => ?_
      · subst heq
        cases hwr
      · cases (Write.left?_mild hwr).symm.trans hst
      · rw [Db.wait?_apply] at hy
        cases wr with
        | insertWait | closeWait | claimWait | setWaitResult => cases hwr
        | markResumed w' now =>
          simp only [Write.onWait] at hy
          split at hy
          · obtain ⟨x, hx, rfl⟩ := Option.map_eq_some_iff.mp hy
            exact ⟨(h.rows hx).opened, (h.rows hx).agrees⟩
          · exact h.rows hy
        | _ => exact h.rows hy
    simpa using ih hone fun wr' hwr' => hws wr' (by simp [hwr'])

theorem Fresh.mildly (h : Fresh d ws) (hws : ∀ wr ∈ ws', Write.mild wr = true) : Fresh d (ws ++ ws') := by
  refine ⟨h.1.mildly hws, ?_⟩
  rintro w ⟨wr, hwr, state, hst⟩
  rcases List.mem_append.mp hwr with hwr | hwr
  · exact h.2 w ⟨wr, hwr, state, hst⟩
  · cases (Write.left?_mild (hws wr hwr)).symm.trans hst

/-- A new wait is open and has no result. -/
theorem Fresh.insert (h : Fresh d ws) : Fresh d (ws ++ [.insertWait (Waits.inserted x)]) := by
  refine ⟨h.1.write ?_ (by simp [Write.left?]) fun {w y} hy => ?_, fun w hw => ?_⟩
  · rintro _ ⟨⟩
    exact ⟨rfl, h.2 _⟩
  · rw [Db.wait?_apply, Write.onWait, Option.or_eq_some_iff] at hy
    rcases hy with hy | ⟨-, hy⟩
    · exact h.1.rows hy
    · split at hy
      · cases hy
        exact ⟨fun _ => rfl, by simp [Waits.inserted]⟩
      · cases hy
  · rcases left_append.mp hw with hw | ⟨_, hst⟩
    · exact h.2 w hw
    · cases hst

/-- A write to the row of one wait. -/
theorem Neat.write_row (h : Neat U d ws) {f : RunWait → RunWait}
    (hon : ∀ u p, wr.onWait u p = if u = w then p.map f else p)
    (hleft : ∀ u state, wr.left? = some (u, state) → state ≠ .open ∧ (U u → state = .resolved))
    (hf : ∀ x, (applyAll d ws).wait? w = some x → (f x).Consistent) : Neat U d (ws ++ [wr]) := by
  refine h.write (fun x heq => ?_) hleft fun {u y} hy => ?_
  · subst heq
    have := hon x.id none
    by_cases hx : x.id = w <;> simp [Write.onWait, hx] at this
  · rw [Db.wait?_apply, hon] at hy
    split at hy
    · rename_i hu
      subst hu
      obtain ⟨x, hx, rfl⟩ := Option.map_eq_some_iff.mp hy
      exact hf x hx
    · exact h.rows hy

theorem Neat.close (h : Neat U d ws) (ho : o.state = state) (hne : state ≠ .open)
    (hU : U w → state = .resolved) : Neat U d (ws ++ [.closeWait w state o]) := by
  refine h.write_row (w := w) (fun _ _ => rfl) ?_ fun x _ => ⟨fun hopen => absurd hopen hne, ?_⟩
  · rintro _ _ ⟨⟩
    exact ⟨hne, hU⟩
  · rintro _ ⟨⟩
    exact ho

/-- A result that tells the state of the row. -/
theorem Neat.record (h : Neat U d ws)
    (hx : ∀ x, (applyAll d ws).wait? w = some x → x.state ≠ .open ∧ o.state = x.state) :
    Neat U d (ws ++ [.setWaitResult w o]) := by
  refine h.write_row (w := w) (fun _ _ => rfl) (by simp [Write.left?]) fun x hrow => ?_
  obtain ⟨hne, ho⟩ := hx x hrow
  refine ⟨fun hopen => absurd hopen hne, ?_⟩
  rintro _ ⟨⟩
  exact ho

/-- Claims of waits that have no result. -/
theorem Neat.claims {ids : List WaitID} (h : Neat (fun _ => False) d ws)
    (hids : ∀ w ∈ ids, ∀ x, (applyAll d ws).wait? w = some x → x.result = none) :
    Neat (fun _ => False) d (ws ++ ids.map .claimWait) := by
  induction ids generalizing ws with
  | nil => simpa using h
  | cons u ids ih =>
    have hone : Neat (fun _ => False) d (ws ++ [.claimWait u]) := by
      refine h.write_row (w := u) (fun _ _ => rfl) ?_ fun x hx => ⟨by simp, ?_⟩
      · rintro _ _ ⟨⟩
        exact ⟨by decide, False.elim⟩
      · simp [hids u (by simp) x hx]
    have hrest := ih hone fun w hw x hx => ?_
    · simpa using hrest
    · rw [applyAll_append, applyAll_cons, applyAll_nil, tables_apply, Db.wait?_apply] at hx
      simp only [Write.onWait] at hx
      split at hx
      · obtain ⟨z, hz, rfl⟩ := Option.map_eq_some_iff.mp hx
        exact hids w (by simp [hw]) z hz
      · exact hids w (by simp [hw]) x hx

/-! ## Functions that keep this -/

theorem Resumes.mild {wait : RunWait} (h : Resumes v wait o ws) : ∀ wr ∈ ws, Write.mild wr = true := by
  cases h <;> simp [reopening, Write.mild]

section
variable {A : Sight} {st : Local Row Write} {t : TenantID} {r : RunID} (hA : Respects A)
  (hopen : ∀ {ls d'}, A ls d d' → ∀ w, Row.wait w ∈ ls → d.closed w = false)
include hA hopen

/-- A wait that is found closed was closed by the transaction itself, as resolved. -/
theorem wp_tryCloseWait_neat (hst : Neat U d st.writes) (hU : U w) :
    wp A d (tryCloseWait t w .child) st (Prog.either (fun _ s => Neat U d s.writes)
      (fun e _ => e ≠ .cancelledCommit)) := by
  refine wp_either (wp_tryCloseWait_writes hA) (fun _ _ h => h) ?_
  intro _ s hpost
  obtain ⟨ws, hws, hc⟩ := hpost
  rw [Prog.either_ok, hws]
  cases hc with
  | left => simpa using hst
  | closed _ _ _ hres =>
    rw [List.append_cons]
    exact (hst.close rfl (by simp [outcomeOf, conclude]) fun _ => by simp [outcomeOf, conclude]).mildly
      hres.mild
  | @recorded wait xs ws he hne _ hres =>
    have hclosed : (view d st).closed w = true := by simpa [Db.closed, he.row] using hne
    obtain ⟨d', hsee⟩ := he.seen
    have hleft : Left w st.writes := by
      refine (hst.closed hclosed).resolve_left fun h => ?_
      rw [hopen hsee w (by simp)] at h
      cases h
    rw [List.append_cons]
    refine (hst.record fun x hx => ?_).mildly hres.mild
    cases he.row.symm.trans hx
    exact ⟨hne, by simp [hst.resolved hU hleft hx, outcomeOf, conclude]⟩

theorem resolveChildWaits_neat : Keeps (Neat (fun _ => False) d) A d (resolveChildWaits t r) := by
  intro st hst
  unfold resolveChildWaits Waits.listOpenForChild
  rw [wp_bind]
  refine wp_query.mpr fun d' _ => ?_
  rw [Prog.either_ok]
  -- what is listed as open was not closed by the transaction before
  let waits := (view d' st).waits.filter (Waits.isOpenForChild (view d' st) t r)
  have hlisted : Neat (fun u => ∃ x ∈ waits, x.id = u) d st.writes := by
    refine ⟨hst.rows, hst.closed, hst.left, ?_⟩
    rintro _ _ ⟨x, hx, rfl⟩ hleft _
    obtain ⟨hmem, hlist⟩ := List.mem_filter.mp hx
    simp only [Waits.isOpenForChild, Bool.and_eq_true, decide_eq_true_eq] at hlist
    exact absurd hlist.1.1 (hst.left hleft d' x hmem rfl)
  refine wp_either (wp_forEach (I := fun s => Neat (fun u => ∃ x ∈ waits, x.id = u) d s.writes)
    (F := fun e _ => e ≠ .cancelledCommit) (fun x hx s hs => ?_) hlisted)
    (fun _ _ h he => absurd he h) fun _ s hs => ⟨hs.rows, hs.closed, hs.left, False.elim⟩
  rw [wp_bind]
  refine wp_either (wp_tryCloseWait_neat hA hopen hs ⟨x, hx, rfl⟩) (fun _ _ h => h) fun _ s' hs' => ?_
  exact wp_pure'.mpr hs'

omit hA in
theorem claimDue_neat {now : Time} {limit : Nat} :
    Keeps (Neat (fun _ => False) d) A d (Waits.claimDue t now limit) := by
  intro st hst
  refine wp_update.mpr fun d' busy hsee => ?_
  let due := Waits.due ⟨view d' st, busy⟩ t now limit
  have hids : Neat (fun _ => False) d (st.writes ++ (due.map RunWait.id).map .claimWait) := by
    refine hst.claims fun u hu x hx => ?_
    -- a wait that is due is open: nobody else has closed it, and the transaction has not
    refine (hst.rows hx).opened (by_contra fun hne => ?_)
    obtain ⟨y, hy, rfl⟩ := List.mem_map.mp hu
    obtain ⟨hmem, hdue, -⟩ := Waits.mem_of_mem_due hy
    simp only [Waits.isDue, Bool.and_eq_true, decide_eq_true_eq] at hdue
    rcases hst.closed (w := y.id) (by simpa [Db.closed, hx] using hne) with h | h
    · rw [hopen hsee y.id (by simpa using .inr ⟨y, hy, rfl⟩)] at h
      cases h
    · exact hst.left h d' y hmem rfl hdue.1.1
  simpa [List.map_map, Function.comp_def] using hids

theorem neat_built : Built fun _ x => Keeps (Neat (fun _ => False) d) A d x := by
  refine Leads.built hA (fun h hws => h.mildly fun wr hwr => ?_) (fun ho hne st hst => ?_)
    (claimDue_neat hopen) (resolveChildWaits_neat hA hopen)
  · have haside := hws wr hwr
    cases wr <;> first | rfl | cases haside
  · refine wp_waits_updateIf hA (fun _ _ _ => hst) fun _ _ _ _ => ?_
    simpa using hst.close ho hne False.elim

omit hA hopen in
theorem fresh_of_only {α : Type} {x : Tx α} (hx : x.Only fun wr => Write.mild wr = true) :
    Keeps (Fresh d) A d x := Leads.of_only (fun h hws => h.mildly hws) hx

variable {cfg : Settings} {run : AgentRun} {job : StepJob} {rec : StepRecorder}

/-- The transaction that opens a wait has closed none before. -/
theorem createWait_neat : Leads (Fresh d) (Neat (fun _ => False) d) A d (createWait cfg run job rec) := by
  have hbuilt := neat_built hA hopen
  have hcreate : ∀ {x ms}, Keeps (Fresh d) A d (Waits.create run.tenantID x ms) := by
    intro x ms st hst
    unfold Waits.create
    rw [wp_bind]
    refine wp_waits_insert hA (fresh_of_only (.bind (.lockRead _ _) fun _ => .pure _) st hst) fun _ => ?_
    refine fresh_of_only (.forEach fun m _ => .update fun v => ?_) _ (by simpa using hst.insert)
    split
    · simp
    · split <;> simp [Write.mild]
  refine (fresh_of_only (.query _)).bind (fun now => hcreate.bind (fun _ => ?_) And.left) And.left
  intro st hst
  rw [wp_bind]
  refine wp_either (wp_tryCloseWait_neat hA hopen
    (U := fun u => u = deterministicWaitID cfg run.id job.stepIndex rec.waitToolCallID) hst.neat rfl)
    (fun _ _ h he => absurd he h) fun resumed s hs => ?_
  have hs : Neat (fun _ => False) d s.writes := ⟨hs.rows, hs.closed, hs.left, False.elim⟩
  rw [Prog.either_ok]
  split
  · exact hbuilt.pure _ s hs
  · exact hbuilt.bind hbuilt.enqueue (fun _ => hbuilt.pure _) s hs

theorem commitOutcome_neat {n : Nat} {env : Envelope} {step : StepResult} {final : String} :
    Leads (Fresh d) (Neat (fun _ => False) d) A d (commitOutcome cfg job n env step rec final) := by
  have hbuilt := neat_built hA hopen
  have hneat : ∀ {α : Type} {x : Tx α}, Keeps (Neat (fun _ => False) d) A d x →
      Leads (Fresh d) (Neat (fun _ => False) d) A d x := fun h st hst => h st hst.1
  refine .txStale (.getForUpdate hA And.left fun run _ => ?_)
  split
  · exact hneat (hbuilt.throw _)
  split
  · exact hneat (Ordinary.markCancelledTx _ hbuilt)
  refine (fresh_of_only (.runs_update fun _ => rfl)).bind (fun _ =>
    (fresh_of_only (.attempt (.insertStep rfl))).bind (fun res => ?_) And.left) And.left
  split
  · exact hneat (hbuilt.throw _)
  · exact hneat (hbuilt.throw _)
  refine (fresh_of_only (.attempt (.bind (.memory_set rfl) fun _ =>
      .bind (Events.append_emits rfl fun _ => rfl) fun _ => .pure _))).bind (fun _ =>
    (fresh_of_only (.bind (Events.append_emits rfl fun _ => rfl) fun _ => .pure _)).bind
      (fun _ => ?_) And.left) And.left
  by_cases hids : rec.waitRunIDs = []
  · exact hneat (hbuilt.classify fun hne => absurd hids hne)
  · unfold classify
    rw [if_pos (List.length_pos_iff.mpr hids)]
    refine (createWait_neat hA hopen).bind (fun park => ?_) id
    split
    · exact hbuilt.pure _
    · exact hbuilt.bind hbuilt.setState fun _ => Ordinary.appendAgent rfl _ hbuilt

end

/-- Closing a wait claims none. -/
theorem Closes.claimed {A : Sight} {t : TenantID} {u : WaitID} {reason : CloseReason}
    (h : Closes A d .empty t w reason ws) (hcl : (applyAll d ws).claimed u = true) :
    d.claimed u = true := by
  cases h with
  | left => exact hcl
  | closed _ _ _ hres | recorded _ _ _ hres =>
    obtain ⟨y, hy, hyc⟩ := (Option.any_eq_true _ _).mp hcl
    rw [applyAll_cons] at hy
    obtain ⟨x, hx, hstate, hresult, -⟩ := hres.rows hy
    have hxc : x.claimed = true := by simpa [RunWait.claimed, hstate, hresult] using hyc
    rw [tables_apply, Db.wait?_apply] at hx
    simp only [Write.onWait] at hx
    split at hx
    · obtain ⟨z, -, rfl⟩ := Option.map_eq_some_iff.mp hx
      simp [RunWait.claimed] at hxc
    · simp [Db.claimed, hx, hxc]

end Protocol

end Ultracore
