-- SUMMARY: One idempotency key executes one command once, as long as its calls do not overlap and its audit row is written.
import Ultracore.Admin.Idempotency

/-!
# One execution per key

From its lookup to its audit row a call claims its key. Nothing keeps a second call from
passing the lookup in the meantime, and an execution whose audit row was never written
leaves the key free. Otherwise the audit row of the one execution answers every later call.
-/

namespace Ultracore.Admin

open Txn

variable {S : Type} {c : Call S} {sh' : Shared S} {ph : Phase}

/-- The call has passed the lookup of its key and may still execute or bind the key. -/
def claims (x : Call S × Phase) : Bool :=
  match x.2 with
  | .acquiring | .executing _ | .recording _ | .colliding _ => true
  | .probing => !x.1.dry
  | _ => false

/-- The call has executed its command, and the audit row is still to be written. -/
def Phase.unbound : Phase → Bool
  | .recording _ | .colliding _ => true
  | _ => false

/-- No call looks its key up while another call claims it, and what was executed gets its
    audit row. -/
def keyUndisturbed (w : World S) : Action S → Bool
  | .advance j => match w.calls[j]? with
      | some (c, .looking) => w.calls.all fun x => !claims x || decide (x.1.idem ≠ c.idem)
      | _ => true
  | .fault j _ => match w.calls[j]? with
      | some (_, ph) => !ph.unbound
      | none => true
  | .crash process => w.calls.all fun x => decide (x.1.process ≠ process) || !x.2.unbound
  | _ => true

/-- What a claim entails: nothing was executed under the key before the call itself does,
    and no row binds the key before the call's own. -/
def Call.Open (sh : Shared S) (c : Call S) : Phase → Prop
  | .acquiring | .executing _ => ∀ ex ∈ sh.executed, ex.key ≠ c.idem
  | .probing => c.dry = false → ∀ ex ∈ sh.executed, ex.key ≠ c.idem
  | .recording _ => ∀ row ∈ sh.audit, row.idempotencyKey ≠ some c.idem
  | .colliding _ => False
  | _ => True

theorem Call.Open.same {sh : Shared S} (h : c.Open sh ph) (hs : sh.Same sh') : c.Open sh' ph := by
  obtain ⟨haudit, hexec⟩ := hs
  cases ph with
  | acquiring | executing | probing | recording => simpa only [Call.Open, haudit, hexec] using h
  | _ => exact h

/-- Keys are claimed by one call at a time and executed under once. -/
structure Exclusive (w : World S) : Prop where
  alone : ∀ (i j : Nat) (x y : Call S × Phase), w.calls[i]? = some x → w.calls[j]? = some y →
    claims x = true → claims y = true → x.1.idem = y.1.idem → i = j
  calls : ∀ (j : Nat) (c : Call S) (ph : Phase), w.calls[j]? = some (c, ph) → c.Open w.shared ph
  once : (w.shared.executed.map Execution.key).Nodup
  bound : ∀ ex ∈ w.shared.executed, (∃ row ∈ w.shared.audit, row.Records ex) ∨
    ∃ c r, w.calls[ex.call]? = some (c, .recording r)

theorem Exclusive.start (e : Engine) (s : S) : Exclusive (e.start s) where
  alone _ _ _ _ hi := by simp [Engine.start] at hi
  calls _ _ _ hj := by simp [Engine.start] at hj
  once := by simp [Engine.start]
  bound _ hex := by cases hex

/-! ## Claims over a step -/

section
variable {e : Engine} {j : Nat} {c : Call S} {sh sh' : Shared S} {faulty : Bool} {ph ph' : Phase}

/-- A claim begins with a lookup that finds nothing. -/
theorem Turn.claims_before (h : Turn e j c sh faulty ph sh' ph') (hc : claims (c, ph') = true) :
    claims (c, ph) = true ∨
      (ph = .looking ∧ faulty = false ∧ Engine.lookupIdempotent sh.audit c.idem = none) := by
  cases h with
  | preview hdry => simp [claims, hdry] at hc
  | miss hnone => exact .inr ⟨rfl, rfl, hnone⟩
  | confirm _ hdry => exact .inl (by simp [claims, hdry])
  | admitted _ | execute _ _ | collide _ _ => exact .inl rfl
  | _ => simp [claims] at hc

/-- The turn of one call leaves what the claim of another one entails. -/
theorem Turn.keeps_open (h : Turn e j c sh faulty ph sh' ph') {c' : Call S} {ph₁ : Phase}
    (hopen : c'.Open sh ph₁)
    (hother : claims (c, ph) = true → claims (c', ph₁) = true → c'.idem ≠ c.idem) :
    c'.Open sh' ph₁ := by
  -- the only turns that matter are those that execute and those that add a row
  have hgrow : (∀ ex ∈ sh'.executed, ex ∉ sh.executed → claims (c', ph₁) = true → ex.key ≠ c'.idem) →
      (∀ row ∈ sh'.audit, row ∉ sh.audit → claims (c', ph₁) = true →
        row.idempotencyKey ≠ some c'.idem) → c'.Open sh' ph₁ := by
    intro hexec haudit
    have hearly : claims (c', ph₁) = true → (∀ ex ∈ sh.executed, ex.key ≠ c'.idem) →
        ∀ ex ∈ sh'.executed, ex.key ≠ c'.idem := by
      intro hclaims hnone ex hex
      by_cases hold : ex ∈ sh.executed
      · exact hnone ex hold
      · exact hexec ex hex hold hclaims
    cases ph₁ with
    | acquiring | executing _ => exact hearly rfl hopen
    | probing => exact fun hdry => hearly (by simp [claims, hdry]) (hopen hdry)
    | recording =>
      intro row hrow
      by_cases hold : row ∈ sh.audit
      · exact hopen row hold
      · exact haudit row hrow hold rfl
    | colliding => exact hopen
    | _ => trivial
  have hsame : sh.Same sh' → c'.Open sh' ph₁ := by
    rintro ⟨haudit, hexec⟩
    exact hgrow (fun ex hex hold => absurd (hexec ▸ hex) hold)
      fun row hrow hold => absurd (haudit ▸ hrow) hold
  cases h with
  | reject hs | admitted hs | unnoted hs | adopt hs | previewed hs _ | confirm hs _ _ | fail hs _
  | unaudited hs | collided hs => exact hsame hs
  | execute haudit hexec =>
    refine hgrow (fun ex hex hold hclaims => ?_) fun row hrow hold => absurd (haudit ▸ hrow) hold
    rw [hexec] at hex
    cases List.mem_singleton.mp ((List.mem_append.mp hex).resolve_left hold)
    exact (hother rfl hclaims).symm
  | note hnone haudit hexec =>
    refine hgrow (fun ex hex hold => absurd (hexec ▸ hex) hold) fun row hrow hold _ => ?_
    rw [haudit] at hrow
    cases List.mem_singleton.mp ((List.mem_append.mp hrow).resolve_left hold)
    simp [hnone]
  | bind _ haudit hexec =>
    refine hgrow (fun ex hex hold => absurd (hexec ▸ hex) hold) fun row hrow hold hclaims => ?_
    rw [haudit] at hrow
    cases List.mem_singleton.mp ((List.mem_append.mp hrow).resolve_left hold)
    intro hkey
    refine hother rfl hclaims ?_
    simp only [Engine.boundRow, Engine.auditRow] at hkey
    split at hkey
    · cases hkey
    · exact (Option.some.inj hkey).symm
  | _ => exact hsame (.refl _)

end

section
variable {e : Engine} {w w' : World S} {a : Action S} {faulty : Bool} {j : Nat} {ph' : Phase}

/-- Where the key is not disturbed, a call that claims it now did so before, or it has just
    looked the key up and no call claimed it. -/
theorem Moves.claims_before (hm : Moves e w a w') (hok : keyUndisturbed w a = true) {i : Nat}
    {x : Call S × Phase} (hi : w'.calls[i]? = some x) (hx : claims x = true) :
    (∃ ph, w.calls[i]? = some (x.1, ph) ∧ claims (x.1, ph) = true) ∨
      (a = .advance i ∧ w.calls[i]? = some (x.1, .looking) ∧
        ∀ y ∈ w.calls, claims y = true → y.1.idem ≠ x.1.idem) := by
  cases hm with
  | call =>
    rcases Machine.get_append_cases hi with hi | ⟨-, rfl⟩
    · exact .inl ⟨x.2, hi, hx⟩
    · cases hx
  | @turn _ _ j c ph ph' sh' hact hj hturn =>
    rcases Machine.get_set_cases hi with ⟨rfl, rfl⟩ | ⟨-, hi⟩
    · rcases hturn.claims_before hx with hbefore | ⟨rfl, rfl, -⟩
      · exact .inl ⟨ph, hj, hbefore⟩
      · cases hact
        refine .inr ⟨rfl, hj, fun y hy hclaims => ?_⟩
        simp only [keyUndisturbed, hj, List.all_eq_true] at hok
        simpa [hclaims] using hok y hy
    · exact .inl ⟨x.2, hi, hx⟩
  | crash =>
    obtain ⟨y, hy, rfl⟩ := Option.map_eq_some_iff.mp (List.getElem?_map ▸ hi)
    unfold Call.killed at hx ⊢
    split at hx
    · cases hx
    · rename_i halive
      rw [if_neg halive]
      exact .inl ⟨y.2, hy, hx⟩
  | idle => exact .inl ⟨x.2, hi, hx⟩

theorem Exclusive.alone_moves (h : Exclusive w) (hok : keyUndisturbed w a = true)
    (hm : Moves e w a w') {i : Nat} {x y : Call S × Phase} (hi : w'.calls[i]? = some x)
    (hj : w'.calls[j]? = some y) (hx : claims x = true) (hy : claims y = true)
    (hidem : x.1.idem = y.1.idem) : i = j := by
  rcases hm.claims_before hok hi hx with ⟨ph, hi', hx'⟩ | ⟨ha, hi', hfree⟩ <;>
    rcases hm.claims_before hok hj hy with ⟨ph', hj', hy'⟩ | ⟨ha', hj', hfree'⟩
  · exact h.alone i j _ _ hi' hj' hx' hy' hidem
  · exact absurd hidem (hfree' (x.1, ph) (List.mem_of_getElem? hi') hx')
  · exact absurd hidem.symm (hfree (y.1, ph') (List.mem_of_getElem? hj') hy')
  · exact Action.advance.inj (ha.symm.trans ha')

/-- Where no call claims a key, what was executed under it is found by its lookup. -/
theorem Exclusive.free (h : Exclusive w) (hrec : Recorded w) {key : String}
    (hfree : ∀ y ∈ w.calls, claims y = true → y.1.idem ≠ key)
    (hnone : Engine.lookupIdempotent w.shared.audit key = none) :
    ∀ ex ∈ w.shared.executed, ex.key ≠ key := by
  rintro ex hex rfl
  obtain ⟨hsuccess, c, ph, hget, hby, -⟩ := hrec.owners ex hex
  rcases h.bound ex hex with ⟨row, hrow, hrecords⟩ | ⟨c', r, hget'⟩
  · have hfails := lookupIdempotent_eq_none hnone row hrow hrecords.key
    rw [hrecords.outcome, hsuccess] at hfails
    cases hfails
  · cases hget.symm.trans hget'
    exact hfree _ (List.mem_of_getElem? hget) rfl hby.key.symm

/-- A call enters each of its phases with what its claim entails. -/
theorem Turn.opens
    (hturn : Turn e j c w.shared faulty ph sh' ph') (h : Exclusive w) (hrec : Recorded w)
    (hopen : c.Open w.shared ph)
    (hfree : ph = .looking → faulty = false → ∀ y ∈ w.calls, claims y = true → y.1.idem ≠ c.idem) :
    c.Open sh' ph' := by
  cases hturn with
  | preview hdry =>
    intro hnot
    rw [hdry] at hnot
    cases hnot
  | miss hnone => exact h.free hrec (hfree rfl rfl) hnone
  | admitted hsame =>
    intro _
    rw [hsame.2]
    exact hopen
  | confirm hsame hdry =>
    intro ex hex
    rw [hsame.2] at hex
    exact hopen hdry ex hex
  | execute haudit =>
    intro row hrow hkey
    rw [haudit] at hrow
    obtain ⟨ex, hex, hrecords⟩ := hrec.rows row hrow (by simp [hkey])
    exact hopen ex hex (Option.some.inj (hrecords.key.symm.trans hkey))
  | collide hrow hkey => exact hopen _ hrow hkey
  | _ => trivial

/-- A new execution is the first under its key. -/
theorem Turn.once {sh : Shared S} (hturn : Turn e j c sh faulty ph sh' ph') (hopen : c.Open sh ph)
    (h : (sh.executed.map Execution.key).Nodup) : (sh'.executed.map Execution.key).Nodup := by
  cases hturn with
  | execute _ hexec =>
    rw [hexec, List.map_append, List.map_singleton, ← List.concat_eq_append, List.nodup_concat]
    refine ⟨fun hmem => ?_, h⟩
    obtain ⟨ex, hex, hkey⟩ := List.mem_map.mp hmem
    exact hopen ex hex hkey
  | note _ _ hexec | bind _ _ hexec => rwa [hexec]
  | reject hs | admitted hs | unnoted hs | adopt hs | previewed hs _ | confirm hs _ _ | fail hs _
  | unaudited hs | collided hs => rwa [hs.2]
  | _ => exact h

/-- The call that executed and now leaves that phase has bound its key. -/
theorem Turn.bound {r : Result} (hturn : Turn e j c w.shared faulty (.recording r) sh' ph')
    (hfaulty : faulty = false) (h : Exclusive w) (hj : w.calls[j]? = some (c, .recording r))
    (hs : c.Sound w.shared j (.recording r)) {ex : Execution} (hex : ex ∈ w.shared.executed)
    (hby : ex.By j c) : ∃ row ∈ sh'.audit, row.Records ex := by
  obtain ⟨-, hidem, ex', hex', hby', htells⟩ := hs
  have heq : ex = ex' :=
    List.inj_on_of_nodup_map h.once hex hex' (hby.key.trans hby'.key.symm)
  subst heq
  cases hturn with
  | bind _ haudit =>
    rw [haudit]
    refine ⟨_, List.mem_append_right _ (List.mem_singleton_self _), ?_, hby.command.symm,
      hby.targets.symm, htells.before, htells.after, htells.outcome⟩
    rw [hby.key]
    exact if_neg hidem
  | collide hrow hkey => exact absurd hkey (h.calls j c _ hj _ hrow)
  | fail _ hph => rcases hph with hph | ⟨_, hph⟩ <;> cases hph
  | unaudited => cases hfaulty

theorem Exclusive.calls_moves (h : Exclusive w) (hrec : Recorded w)
    (hok : keyUndisturbed w a = true) (hm : Moves e w a w') :
    ∀ (j : Nat) (c : Call S) (ph : Phase), w'.calls[j]? = some (c, ph) → c.Open w'.shared ph := by
  intro i c' ph₁ hi
  cases hm with
  | call =>
    rcases Machine.get_append_cases hi with hi | ⟨-, heq⟩
    · exact h.calls i c' ph₁ hi
    · cases heq
      trivial
  | @turn _ faulty j c ph ph' sh' hact hj hturn =>
    rcases Machine.get_set_cases hi with ⟨rfl, heq⟩ | ⟨hij, hi⟩
    · cases heq
      refine hturn.opens h hrec (h.calls i _ ph hj) ?_
      rintro rfl rfl y hy hclaims
      cases hact
      simp only [keyUndisturbed, hj, List.all_eq_true] at hok
      simpa [hclaims] using hok y hy
    · refine hturn.keeps_open (h.calls i c' ph₁ hi) fun hclaims hclaims' hidem => hij ?_
      exact h.alone i j _ _ hi hj hclaims' hclaims hidem
  | crash hsame =>
    obtain ⟨⟨c, ph⟩, hget, heq⟩ := Option.map_eq_some_iff.mp (List.getElem?_map ▸ hi)
    unfold Call.killed at heq
    split at heq <;> cases heq
    · trivial
    · exact (h.calls i _ _ hget).same hsame
  | idle hsame => exact (h.calls i c' ph₁ hi).same hsame

theorem Exclusive.bound_moves (h : Exclusive w) (hrec : Recorded w)
    (hok : keyUndisturbed w a = true) (hm : Moves e w a w') :
    ∀ ex ∈ w'.shared.executed, (∃ row ∈ w'.shared.audit, row.Records ex) ∨
      ∃ c r, w'.calls[ex.call]? = some (c, .recording r) := by
  intro ex hex
  cases hm with
  | call =>
    rcases h.bound ex hex with hrow | ⟨c, r, hget⟩
    · exact .inl hrow
    · refine .inr ⟨c, r, ?_⟩
      rw [List.getElem?_append_left (List.getElem?_eq_some_iff.mp hget).1, hget]
  | @turn _ faulty j c ph ph' sh' hact hj hturn =>
    have hset := List.getElem?_set_self (a := (c, ph')) (List.getElem?_eq_some_iff.mp hj).1
    have hs := hrec.calls j c ph hj
    rcases hturn.owners hs ex hex with hold | ⟨hby, -, -, r, rfl⟩
    · rcases h.bound ex hold with ⟨row, hrow, hrecords⟩ | ⟨c', r, hget⟩
      · exact .inl ⟨row, hturn.grows.1 hrow, hrecords⟩
      by_cases hjex : ex.call = j
      · -- it is this call that executed: it binds its key, as it does not fail
        obtain ⟨-, c₁, ph₁, hget', hby, -⟩ := hrec.owners ex hold
        cases hget.symm.trans hget'
        rw [hjex] at hget hby
        cases hj.symm.trans hget
        refine .inl (hturn.bound ?_ h hj hs hold hby)
        cases hact with
        | advance => rfl
        | fault => simp [keyUndisturbed, hj, Phase.unbound] at hok
      · exact .inr ⟨c', r, by rw [List.getElem?_set_ne (Ne.symm hjex), hget]⟩
    · exact .inr ⟨c, r, hby.call ▸ hset⟩
  | @crash process sh' hsame =>
    rw [hsame.2] at hex
    rcases h.bound ex hex with ⟨row, hrow, hrecords⟩ | ⟨c, r, hget⟩
    · exact .inl ⟨row, hsame.1 ▸ hrow, hrecords⟩
    · simp only [keyUndisturbed, List.all_eq_true] at hok
      have halive : c.process ≠ process := by
        simpa [Phase.unbound] using hok _ (List.mem_of_getElem? hget)
      refine .inr ⟨c, r, ?_⟩
      rw [List.getElem?_map, hget, Option.map_some, Call.killed,
        if_neg fun hdead => halive hdead.1]
  | idle hsame =>
    rw [hsame.2] at hex
    rcases h.bound ex hex with ⟨row, hrow, hrecords⟩ | hcall
    · exact .inl ⟨row, hsame.1 ▸ hrow, hrecords⟩
    · exact .inr hcall

theorem Exclusive.moves (h : Exclusive w) (hrec : Recorded w) (hok : keyUndisturbed w a = true)
    (hm : Moves e w a w') : Exclusive w' where
  alone _ _ _ _ := h.alone_moves hok hm
  calls := h.calls_moves hrec hok hm
  once := by
    cases hm with
    | call => exact h.once
    | turn _ hj hturn => exact hturn.once (h.calls _ _ _ hj) h.once
    | crash hsame | idle hsame =>
      rw [hsame.2]
      exact h.once
  bound := h.bound_moves hrec hok hm

end

theorem exclusive {e : Engine} {s : S} {w : World S}
    (hrun : Steps e.step (fun w a => keyUndisturbed w a = true) (e.start s) w) :
    Recorded w ∧ Exclusive w := by
  have h₀ : Recorded (e.start s) ∧ Exclusive (e.start s) := ⟨.start e s, .start e s⟩
  refine hrun.invariant (K := fun w => Recorded w ∧ Exclusive w) h₀ fun h hok hs => ?_
  have hm := Engine.step_moves hs
  exact ⟨h.1.moves hm, h.2.moves h.1 hok hm⟩

/-- In every run in which no call looks up a key that another call claims, no audit row of an
    execution fails and no server process dies between an execution and its row, a command
    is executed at most once under each key, and every other call with the key that reports
    success is the replay of that execution's audit row. -/
theorem key_executes_once (e : Engine) (s : S) {w : World S}
    (hrun : Steps e.step (fun w a => keyUndisturbed w a = true) (e.start s) w) (key : String) :
    (w.shared.executed.filter fun ex => ex.key = key).length ≤ 1 ∧
      ∀ (j : Nat) (c : Call S) (r : Result), w.calls[j]? = some (c, .returned (.result r)) →
        c.idem = key → r.outcome = .ok ∨ r.outcome = .alreadyApplied →
        ∃ ex ∈ w.shared.executed, ex.key = key ∧
          (ex.call = j ∨ ∃ row ∈ w.shared.audit, row.Records ex ∧ r = row.replay) := by
  obtain ⟨hrec, hexcl⟩ := exclusive hrun
  refine ⟨?_, fun j c r hj hidem hout => ?_⟩
  · have hcount := List.nodup_iff_count_le_one.mp hexcl.once key
    rw [List.count, List.countP_map, List.countP_eq_length_filter] at hcount
    simpa [Function.comp_def, beq_eq_decide] using hcount
  · have hsuccess : r.outcome.success = true := by
      rcases hout with h | h <;> simp [h, Outcome.success]
    rcases hrec.calls j c _ hj hsuccess with ⟨ex, hex, hby, -⟩ | ⟨row, hrow, hkey, hr⟩
    · exact ⟨ex, hex, hby.key.trans hidem, .inl hby.call⟩
    · obtain ⟨ex, hex, hrecords⟩ := hrec.rows row hrow (by simp [hkey])
      have hexkey : ex.key = c.idem := Option.some.inj (hrecords.key.symm.trans hkey)
      exact ⟨ex, hex, hexkey.trans hidem, .inr ⟨row, hrow, hrecords, hr⟩⟩

/-- A reconciliation is asked for twice under one key, one call after the other. -/
theorem key_executes_once_in_turn :
    ∃ w c r, Steps plainEngine.step (fun w a => keyUndisturbed w a = true)
        (plainEngine.start twoResources) w ∧
      w.calls[1]? = some (c, .returned (.result r)) ∧ c.idem = "k" ∧ r.outcome = .ok ∧
      (w.shared.executed.filter fun ex => ex.key = "k").length ≤ 1 ∧
      ∃ ex ∈ w.shared.executed, ex.key = "k" ∧
        (ex.call = 1 ∨ ∃ row ∈ w.shared.audit, row.Records ex ∧ r = row.replay) := by
  have hplay : (playSteps plainEngine.step keyUndisturbed (plainEngine.start twoResources)
      ([confirmReconcile 0 "a" "k", confirmReconcile 1 "a" "k"] ++ List.replicate 6 (.advance 0) ++
        List.replicate 2 (.advance 1))).map (fun w => told w 1) =
      some (some ⟨true, false, "k", [("resource_id", .text "a")], some .ok, some true⟩) := by
    decide +kernel
  obtain ⟨w, hw, htold⟩ := Option.map_eq_some_iff.mp hplay
  obtain ⟨c, r, hj, hout, heq⟩ := told_eq_some htold rfl
  have hkey : c.idem = "k" := (congrArg Told.key heq).symm
  have hrun := playSteps_run hw
  obtain ⟨hlength, hall⟩ := key_executes_once plainEngine twoResources hrun "k"
  exact ⟨w, c, r, hrun, hj, hkey, hout, hlength, hall 1 c r hj hkey (.inl hout)⟩

/-- Two calls with one key pass the lookup before either executes: both reconcile, and the
    second reports its own success as no replay. -/
theorem key_executes_once_overlapping :
    ∃ w c r, Steps plainEngine.step (fun _ _ => True) (plainEngine.start twoResources) w ∧
      (w.shared.executed.filter fun ex => ex.key = "k").length = 2 ∧ w.shared.live.jobs.length = 2 ∧
      w.calls[1]? = some (c, .returned (.result r)) ∧ c.idem = "k" ∧ r.outcome = .ok ∧
      r.idempotentReplay = false := by
  have hplay : (playSteps plainEngine.step (fun _ _ => true) (plainEngine.start twoResources)
      ([confirmReconcile 0 "a" "k", confirmReconcile 1 "a" "k"] ++ List.replicate 4 (.advance 0) ++
        List.replicate 4 (.advance 1) ++ List.replicate 2 (.advance 0) ++
        List.replicate 3 (.advance 1))).map (fun w =>
          (told w 1, (w.shared.executed.filter fun ex => ex.key = "k").length,
            w.shared.live.jobs.length)) =
      some (some ⟨true, false, "k", [("resource_id", .text "a")], some .ok, some false⟩, 2, 2) := by
    decide +kernel
  obtain ⟨w, hw, heq⟩ := Option.map_eq_some_iff.mp hplay
  obtain ⟨htold, heq⟩ := Prod.mk.inj heq
  obtain ⟨hexec, hjobs⟩ := Prod.mk.inj heq
  obtain ⟨c, r, hj, hout, heq⟩ := told_eq_some htold rfl
  refine ⟨w, c, r, (playSteps_run hw).mono fun _ _ _ => trivial, hexec, hjobs, hj,
    (congrArg Told.key heq).symm, hout, ?_⟩
  exact (Option.some.inj (congrArg Told.replay heq)).symm

end Ultracore.Admin
