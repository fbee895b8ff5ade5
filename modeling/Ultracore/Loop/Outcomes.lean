-- SUMMARY: What the outcome of a wait says about the children it was closed over.
import Ultracore.Loop.Spawn

/-!
# Outcomes of waits

The members of a wait are the children that the tool call names, without repetitions and
numbered in their order. The outcome is counted over them, each with the run as it was read.
-/

namespace Ultracore.Loop

/-! ## Children that a call names -/

section
variable {ids acc : List RunID} {id : RunID}

theorem foldl_keepFirst_nodup (h : acc.Nodup) : (ids.foldl keepFirst acc).Nodup := by
  induction ids generalizing acc with
  | nil => exact h
  | cons x ids ih =>
    refine ih ?_
    unfold keepFirst
    split
    · exact h
    · rename_i hx
      refine List.nodup_append.mpr ⟨h, List.nodup_singleton x, ?_⟩
      rintro a ha b hb rfl
      rw [List.mem_singleton.mp hb] at ha
      simp [ha] at hx

theorem foldl_keepFirst_self (h : (acc ++ ids).Nodup) : ids.foldl keepFirst acc = acc ++ ids := by
  induction ids generalizing acc with
  | nil => simp
  | cons x ids ih =>
    have hx : x ∉ acc := fun hmem => by
      rw [List.nodup_append] at h
      exact h.2.2 x hmem x (by simp) rfl
    have hstep : keepFirst acc x = acc ++ [x] := by simp [keepFirst, hx]
    rw [List.foldl_cons, hstep, ih (by simpa using h)]
    simp

theorem dedup_nodup (ids : List RunID) : (dedup ids).Nodup := foldl_keepFirst_nodup List.nodup_nil

theorem dedup_eq_self (h : ids.Nodup) : dedup ids = ids := by
  rw [dedup, foldl_keepFirst_self (by simpa using h), List.nil_append]

end

/-- The id of a member tells the call and the position, whatever the id of the call. -/
theorem cohortCall_inj {callID callID' : String} {i j : Nat}
    (h : cohortCall callID i = cohortCall callID' j) : callID = callID' ∧ i = j := by
  have hlist := congrArg String.toList h
  simp only [cohortCall, String.toList_append, List.append_assoc] at hlist
  obtain ⟨hcall, hpos⟩ := Text.append_cons_inj_last (Text.notMem_toString rfl i)
    (Text.notMem_toString rfl j) hlist
  exact ⟨String.toList_inj.mp hcall, Text.toString_injective (String.toList_inj.mp hpos)⟩

/-! ## Counting -/

/-- What the outcome says about a finished child. -/
def memberResult (p : RunWaitMember × AgentRun) : WaitMemberResult :=
  { ordinal := p.1.ordinal, runID := p.2.id, state := p.2.state, result := p.2.result,
    failureReason := p.2.failureReason, failureMessage := p.2.failureMessage }

/-- The members that were read finished. -/
def finishedReads (reads : List (RunWaitMember × AgentRun)) : List (RunWaitMember × AgentRun) :=
  reads.filter fun p => p.2.state.terminal

theorem addMember_members (o : WaitOutcome) (m : RunWaitMember) (child : AgentRun) :
    (addMember o m child).members =
      o.members ++ if child.state.terminal then [memberResult (m, child)] else [] := by
  cases hs : child.state <;> simp [addMember, hs, RunState.terminal, memberResult]

theorem addMember_counts (o : WaitOutcome) (m : RunWaitMember) (child : AgentRun) :
    (addMember o m child).completed + (addMember o m child).failed + (addMember o m child).cancelled =
      o.completed + o.failed + o.cancelled + if child.state.terminal then 1 else 0 := by
  cases hs : child.state <;> (simp [addMember, hs, RunState.terminal]; try omega)

theorem tally_members (o : WaitOutcome) (reads : List (RunWaitMember × AgentRun)) :
    (tally o reads).members = o.members ++ (finishedReads reads).map memberResult := by
  induction reads generalizing o with
  | nil => simp [tally, finishedReads]
  | cons p reads ih =>
    rw [tally_cons, ih, addMember_members]
    cases hp : p.2.state.terminal <;> simp [finishedReads, hp]

theorem tally_counts (o : WaitOutcome) (reads : List (RunWaitMember × AgentRun)) :
    (tally o reads).completed + (tally o reads).failed + (tally o reads).cancelled =
      o.completed + o.failed + o.cancelled + (finishedReads reads).length := by
  induction reads generalizing o with
  | nil => simp [tally, finishedReads]
  | cons p reads ih =>
    rw [tally_cons, ih, addMember_counts]
    cases hp : p.2.state.terminal
    · simp [finishedReads, hp]
    · simp [finishedReads, hp]
      omega

/-! ## Accounting for children -/

/-- The outcome accounts for the children `named`, read as `reads`. -/
structure Accounts (o : WaitOutcome) (named : List RunID) (reads : List AgentRun) : Prop where
  read : reads.map AgentRun.id = named
  listed : ∀ id, id ∈ o.members.map WaitMemberResult.runID ↔
    ∃ x ∈ reads, x.id = id ∧ x.state.terminal = true
  once : (o.members.map WaitMemberResult.runID).Nodup
  ordered : o.members.Pairwise fun m m' => m.ordinal < m'.ordinal
  position : ∀ m ∈ o.members, named[m.ordinal]? = some m.runID
  counted : o.completed + o.failed + o.cancelled = o.members.length
  total : o.members.length + o.pending = named.length

/-- The members of a wait, each with the run as it was read. -/
def paired (w : WaitID) (named : List RunID) (reads : List AgentRun) :
    List (RunWaitMember × AgentRun) := (waitMembers w named).zip reads

section
variable {w : WaitID} {named : List RunID} {reads : List AgentRun}

theorem waitMembers_length : (waitMembers w named).length = named.length := by simp [waitMembers]

theorem waitMembers_ordinals :
    (waitMembers w named).Pairwise fun m m' => m.ordinal < m'.ordinal := by
  rw [List.pairwise_iff_getElem]
  intro i j hi hj hij
  simpa [waitMembers] using hij

theorem waitID_of_mem_waitMembers {m : RunWaitMember} (h : m ∈ waitMembers w named) :
    m.waitID = w := by
  simp only [waitMembers, List.mem_map] at h
  obtain ⟨p, -, rfl⟩ := h
  rfl

theorem getElem?_of_mem_waitMembers {m : RunWaitMember} (h : m ∈ waitMembers w named) :
    named[m.ordinal]? = some m.runID := by
  simp only [waitMembers, List.mem_map] at h
  obtain ⟨⟨id, i⟩, hmem, rfl⟩ := h
  exact List.mem_zipIdx_iff_getElem?.mp hmem

theorem paired_fst (h : reads.map AgentRun.id = named) :
    (paired w named reads).map Prod.fst = waitMembers w named :=
  List.map_fst_zip (by simp [waitMembers_length, ← h])

theorem paired_snd (h : reads.map AgentRun.id = named) :
    (paired w named reads).map Prod.snd = reads :=
  List.map_snd_zip (by simp [waitMembers_length, ← h])

/-- A member is paired with its run. -/
theorem paired_id (h : reads.map AgentRun.id = named) {p : RunWaitMember × AgentRun}
    (hp : p ∈ paired w named reads) : p.1.runID = p.2.id := by
  obtain ⟨i, hi, rfl⟩ := List.mem_iff_getElem.mp hp
  subst h
  simp [paired, waitMembers]

/-- Counting the members of a wait accounts for the children they stand for. -/
theorem accounts_tally (o : WaitOutcome) (h : reads.map AgentRun.id = named) (hnodup : named.Nodup)
    (hmembers : o.members = (finishedReads (paired w named reads)).map memberResult)
    (hcounts : o.completed + o.failed + o.cancelled = (finishedReads (paired w named reads)).length)
    (hpending : o.pending = (paired w named reads).countP fun p => !p.2.state.terminal) :
    Accounts o named reads := by
  have hsub : (finishedReads (paired w named reads)).Sublist (paired w named reads) :=
    List.filter_sublist
  have hids : o.members.map WaitMemberResult.runID =
      (finishedReads (paired w named reads)).map fun p => p.2.id := by
    rw [hmembers, List.map_map]
    rfl
  have hreads : (paired w named reads).map (fun p => p.2.id) = named := by
    calc (paired w named reads).map (fun p => p.2.id)
        = ((paired w named reads).map Prod.snd).map AgentRun.id := by simp
      _ = named := by rw [paired_snd h, h]
  refine ⟨h, fun id => ?_, ?_, ?_, ?_, ?_, ?_⟩
  · rw [hids]
    constructor
    · intro hid
      obtain ⟨p, hp, rfl⟩ := List.mem_map.mp hid
      obtain ⟨hp, hterm⟩ := List.mem_filter.mp hp
      exact ⟨p.2, (List.of_mem_zip hp).2, rfl, hterm⟩
    · rintro ⟨x, hx, rfl, hterm⟩
      rw [← paired_snd (w := w) h] at hx
      obtain ⟨p, hp, rfl⟩ := List.mem_map.mp hx
      exact List.mem_map.mpr ⟨p, List.mem_filter.mpr ⟨hp, hterm⟩, rfl⟩
  · rw [hids]
    exact (hreads ▸ hnodup).sublist (hsub.map _)
  · rw [hmembers, List.pairwise_map]
    have hord : ((paired w named reads).map Prod.fst).Pairwise fun m m' => m.ordinal < m'.ordinal := by
      rw [paired_fst h]
      exact waitMembers_ordinals
    exact (List.pairwise_map.mp hord).sublist hsub
  · rw [hmembers]
    intro m hm
    obtain ⟨p, hp, rfl⟩ := List.mem_map.mp hm
    have hp := (List.mem_filter.mp hp).1
    have hid : (memberResult p).runID = p.1.runID := (paired_id h hp).symm
    rw [hid]
    exact getElem?_of_mem_waitMembers (List.of_mem_zip hp).1
  · rw [hcounts, hmembers, List.length_map]
  · have hlen : (paired w named reads).length = named.length := by
      have := congrArg List.length hreads
      rwa [List.length_map] at this
    have hsplit := List.length_eq_countP_add_countP (l := paired w named reads)
      fun p => p.2.state.terminal
    rw [hmembers, List.length_map, finishedReads, ← List.countP_eq_length_filter, hpending, ← hlen,
      hsplit]
    simp

end

end Ultracore.Loop
