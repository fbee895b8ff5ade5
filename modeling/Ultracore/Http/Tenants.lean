-- SUMMARY: Creating tenants: requests that swap the store of the handler they share.
import Ultracore.Txn.Steps

/-!
# Creating tenants

`CreateTenant` and `mintKey` of `http/org_handler.go`. The handler's field `store` is shared by
all requests. Each read and each write of it is a step of its own, and so is each statement.
Whether something that can fail does is told by the action. Of the rows, the model keeps how the
API keys were inserted.
-/

namespace Ultracore.Http

/-- A store: over the pool, or bound to the transaction that a request began. -/
inductive StoreRef where
  | pool
  | tx (request : Nat)
deriving DecidableEq

inductive KeyScope where
  | admin
  | sessions
deriving DecidableEq

/-- What `CreateTenant` checks: the scope of the caller, if there is one, and the name. -/
structure Request where
  scope : Option KeyScope
  name : String

inductive Err where
  | unauthenticated
  | permissionDenied
  | invalidArgument
  | store
deriving DecidableEq

def Request.refusal (r : Request) : Option Err :=
  match r.scope with
  | none => some .unauthenticated
  | some .sessions => some .permissionDenied
  | some .admin => if r.name = "" then some .invalidArgument else none

/-- A call of `Store.Tx`: the store that its function gets, and whether it runs in a transaction
    that was open before. -/
structure TxCall where
  store : StoreRef
  nested : Bool
deriving DecidableEq

/-- What a request does next. -/
inductive Phase where
  /-- The checks, and the read of the field for `Tx`. -/
  | arriving
  | beginning (read : StoreRef)
  /-- The insert of the tenant. -/
  | creating (t : TxCall)
  /-- `prev := h.store`. -/
  | saving (t : TxCall)
  /-- `h.store = s`. -/
  | swapping (t : TxCall) (prev : StoreRef)
  /-- The key is generated and encrypted, and the field is read. -/
  | minting (t : TxCall) (prev : StoreRef)
  | inserting (t : TxCall) (prev via : StoreRef)
  /-- `h.store = prev`. -/
  | restoring (t : TxCall) (prev : StoreRef) (minted : Bool)
  | leaving (t : TxCall) (ok : Bool)
  /-- The read of the field for the tenant that was created. -/
  | reading
  | getting (via : StoreRef)
  | done (result : Except Err Unit)

/-- Between the save of the field and its restoration. -/
def Phase.saved : Phase → Bool
  | .swapping .. | .minting .. | .inserting .. | .restoring .. => true
  | _ => false

/-- Between the write of the field and its restoration. -/
def Phase.swapped : Phase → Bool
  | .minting .. | .inserting .. | .restoring .. => true
  | _ => false

def Phase.inProgress : Phase → Bool
  | .arriving | .done _ => false
  | _ => true

/-- An API key that was inserted: the request that minted it and the store it went through. -/
structure KeyRow where
  request : Nat
  via : StoreRef
deriving DecidableEq

structure Server where
  store : StoreRef
  phases : List Phase
  openTxs : List Nat
  keys : List KeyRow

namespace Server

/-- `NewHandler`, and the requests that will come. -/
def new (n : Nat) : Server := ⟨.pool, List.replicate n .arriving, [], []⟩

/-- A statement through a transaction that has ended fails. -/
def usable (c : Server) : StoreRef → Bool
  | .pool => true
  | .tx n => c.openTxs.contains n

def goto (c : Server) (i : Nat) (p : Phase) : Server := { c with phases := c.phases.set i p }

/-- The end of `Tx`: a nested call leaves the transaction as it is. -/
def leave (c : Server) (i : Nat) (t : TxCall) (ok committed : Bool) : Server :=
  if t.nested then c.goto i (if ok then .reading else .done (.error .store))
  else { c with openTxs := c.openTxs.erase i }.goto i
    (if ok && committed then .reading else .done (.error .store))

/-- What request `i` does in a phase, where `ok` says whether what can fail succeeds. -/
def act (reqs : Nat → Request) (c : Server) (i : Nat) (ok : Bool) : Phase → Option Server
  | .arriving =>
    match (reqs i).refusal with
    | some e => some (c.goto i (.done (.error e)))
    | none => some (c.goto i (.beginning c.store))
  | .beginning .pool =>
    if ok then some ({ c with openTxs := i :: c.openTxs }.goto i (.creating ⟨.tx i, false⟩))
    else some (c.goto i (.done (.error .store)))
  | .beginning (.tx n) => some (c.goto i (.creating ⟨.tx n, true⟩))
  | .creating t =>
    some (c.goto i (if ok && c.usable t.store then .saving t else .leaving t false))
  | .saving t => some (c.goto i (.swapping t c.store))
  | .swapping t prev => some ({ c with store := t.store }.goto i (.minting t prev))
  | .minting t prev =>
    some (c.goto i (if ok then .inserting t prev c.store else .restoring t prev false))
  | .inserting t prev via =>
    if ok && c.usable via then
      some ({ c with keys := c.keys ++ [KeyRow.mk i via] }.goto i (.restoring t prev true))
    else some (c.goto i (.restoring t prev false))
  | .restoring t prev minted => some ({ c with store := prev }.goto i (.leaving t minted))
  | .leaving t minted => some (c.leave i t minted ok)
  | .reading => some (c.goto i (.getting c.store))
  | .getting via =>
    some (c.goto i (.done (if ok && c.usable via then .ok () else .error .store)))
  | .done _ => none

def step (reqs : Nat → Request) (c : Server) (a : Nat × Bool) : Option Server :=
  c.phases[a.1]?.bind (act reqs c a.1 a.2)

/-- A request that is not refused reads the field for `Tx` while no request is between its write
    and its restoration, and saves it while none is between its save and its restoration. -/
def calm (reqs : Nat → Request) (c : Server) (a : Nat × Bool) : Bool :=
  match c.phases[a.1]? with
  | some .arriving => (reqs a.1).refusal.isSome || c.phases.all fun p => !p.swapped
  | some (.saving _) => c.phases.all fun p => !p.saved
  | _ => true

/-! ## The invariant -/

/-- What request `i` has read and was given. -/
def Own (i : Nat) : Phase → Prop
  | .beginning read => read = .pool
  | .creating t | .saving t => t.store = .tx i
  | .swapping t prev | .minting t prev => t.store = .tx i ∧ prev = .pool
  | .inserting _ prev via => prev = .pool ∧ via = .tx i
  | .restoring _ prev _ => prev = .pool
  | _ => True

/-- One request at most has saved the field, which is the store of the request that swapped it
    and the pool otherwise. -/
structure Quiet (c : Server) : Prop where
  alone : ∀ {i j : Nat} {p q : Phase}, c.phases[i]? = some p → c.phases[j]? = some q →
    p.saved → q.saved → i = j
  swapped : ∀ {i : Nat} {p : Phase}, c.phases[i]? = some p → p.swapped → c.store = .tx i
  restored : (∀ p ∈ c.phases, p.swapped = false) → c.store = .pool
  own : ∀ {i : Nat} {p : Phase}, c.phases[i]? = some p → Own i p
  keys : ∀ k ∈ c.keys, k.via = .tx k.request

theorem saved_of_swapped {p : Phase} (h : p.swapped) : p.saved := by
  cases p <;> simp_all [Phase.swapped, Phase.saved]

section
variable {c : Server} {i : Nat} {p p' : Phase}

theorem Quiet.new (n : Nat) : (Server.new n).Quiet where
  alone hp _ hsaved _ := by
    obtain rfl := List.eq_of_mem_replicate (List.mem_of_getElem? hp)
    cases hsaved
  swapped hp hs := by
    obtain rfl := List.eq_of_mem_replicate (List.mem_of_getElem? hp)
    cases hs
  restored _ := rfl
  own hp := by
    obtain rfl := List.eq_of_mem_replicate (List.mem_of_getElem? hp)
    trivial
  keys k hk := by cases hk

/-- Request `i` goes on to phase `p'`. It does so as the only one that has saved the field, or
    it neither has swapped it nor does now. -/
theorem Quiet.move (h : c.Quiet) (hp : c.phases[i]? = some p) {store : StoreRef}
    {txs : List Nat} {keys : List KeyRow} (hown : Own i p')
    (hsaved : p'.saved → p.saved ∨ ∀ q ∈ c.phases, q.saved = false)
    (hstore : (p.saved ∧ store = if p'.swapped then .tx i else .pool) ∨
      (store = c.store ∧ p.swapped = false ∧ p'.swapped = false))
    (hkeys : ∀ k ∈ keys, k.via = .tx k.request) :
    Quiet ⟨store, c.phases.set i p', txs, keys⟩ := by
  have hlt : i < c.phases.length := (List.getElem?_eq_some_iff.mp hp).1
  -- what stands at `j` after the move
  have hat : ∀ {j q}, (c.phases.set i p')[j]? = some q →
      (j = i ∧ q = p') ∨ (j ≠ i ∧ c.phases[j]? = some q) := by
    intro j q hq
    by_cases hj : i = j
    · subst hj
      rw [List.getElem?_set_self hlt] at hq
      exact .inl ⟨rfl, (Option.some.inj hq).symm⟩
    · rw [List.getElem?_set_ne hj] at hq
      exact .inr ⟨Ne.symm hj, hq⟩
  -- where `i` is between save and restoration, no other is
  have hother : ∀ {j q}, c.phases[j]? = some q → j ≠ i → p.saved ∨ p'.saved →
      q.saved = false := by
    intro j q hq hj hs
    by_contra hqs
    have hqs : q.saved = true := by simpa using hqs
    rcases hs with hs | hs
    · exact hj (h.alone hq hp hqs hs)
    · rcases hsaved hs with hps | hall
      · exact hj (h.alone hq hp hqs hps)
      · rw [hall q (List.mem_of_getElem? hq)] at hqs
        cases hqs
  constructor
  case alone =>
    intro j k q r hq hr hqs hrs
    rcases hat hq with ⟨rfl, rfl⟩ | ⟨hj, hq'⟩ <;> rcases hat hr with ⟨rfl, rfl⟩ | ⟨hk, hr'⟩
    · rfl
    · simp [hother hr' hk (.inr hqs)] at hrs
    · simp [hother hq' hj (.inr hrs)] at hqs
    · exact h.alone hq' hr' hqs hrs
  case swapped =>
    intro j q hq hqs
    rcases hat hq with ⟨rfl, rfl⟩ | ⟨hj, hq'⟩
    · rcases hstore with ⟨-, rfl⟩ | ⟨-, -, hno⟩
      · simp [hqs]
      · simp [hno] at hqs
    · rcases hstore with ⟨hps, -⟩ | ⟨rfl, -, -⟩
      · have hno := hother hq' hj (.inl hps)
        rw [saved_of_swapped hqs] at hno
        cases hno
      · exact h.swapped hq' hqs
  case restored =>
    intro hall
    rcases hstore with ⟨-, rfl⟩ | ⟨rfl, hno, -⟩
    · simp [hall p' (List.mem_set hlt p')]
    · refine h.restored fun q hq => ?_
      obtain ⟨j, hq⟩ := List.mem_iff_getElem?.mp hq
      by_cases hj : i = j
      · subst hj
        rw [hp] at hq
        exact Option.some.inj hq ▸ hno
      · exact hall q (List.mem_of_getElem? ((List.getElem?_set_ne hj).trans hq))
  case own =>
    intro j q hq
    rcases hat hq with ⟨rfl, rfl⟩ | ⟨-, hq'⟩
    · exact hown
    · exact h.own hq'
  case keys => exact hkeys

/-- A move outside the part between save and restoration. -/
theorem Quiet.pass (h : c.Quiet) (hp : c.phases[i]? = some p) {txs : List Nat} (hown : Own i p')
    (hn : p.swapped = false) (hn' : p'.saved = false) :
    Quiet ⟨c.store, c.phases.set i p', txs, c.keys⟩ := by
  have hs : p'.swapped = false := by
    by_contra hs
    simp [saved_of_swapped (by simpa using hs)] at hn'
  exact h.move hp hown (by simp [hn']) (.inr ⟨rfl, hn, hs⟩) h.keys

theorem Quiet.step {reqs : Nat → Request} {c' : Server} {a : Nat × Bool} (h : c.Quiet)
    (hcalm : c.calm reqs a = true) (hstep : c.step reqs a = some c') : c'.Quiet := by
  obtain ⟨i, ok⟩ := a
  obtain ⟨p, hp, hact⟩ := Option.bind_eq_some_iff.mp hstep
  have hown := h.own hp
  cases p with
  | arriving =>
    simp only [act] at hact
    split at hact <;> cases hact
    · exact h.pass hp trivial rfl rfl
    next hpassed =>
      have hno : ∀ q ∈ c.phases, q.swapped = false := by simpa [calm, hp, hpassed] using hcalm
      exact h.pass hp (h.restored hno) rfl rfl
  | beginning read =>
    obtain rfl : read = .pool := hown
    simp only [act] at hact
    split at hact <;> cases hact
    · exact h.pass hp rfl rfl rfl
    · exact h.pass hp trivial rfl rfl
  | creating =>
    cases hact
    split
    · exact h.pass hp hown rfl rfl
    · exact h.pass hp trivial rfl rfl
  | saving =>
    have hno : ∀ q ∈ c.phases, q.saved = false := by simpa [calm, hp] using hcalm
    have hpool : c.store = .pool := h.restored fun q hq => by
      by_contra hs
      have hsaved := saved_of_swapped (by simpa using hs)
      simp [hno q hq] at hsaved
    cases hact
    exact h.move hp ⟨hown, hpool⟩ (fun _ => .inr hno) (.inr ⟨rfl, rfl, rfl⟩) h.keys
  | swapping =>
    cases hact
    exact h.move hp hown (fun _ => .inl rfl) (.inl ⟨rfl, hown.1⟩) h.keys
  | minting =>
    have hmine : c.store = .tx i := h.swapped hp rfl
    cases hact
    split
    · exact h.move hp ⟨hown.2, hmine⟩ (fun _ => .inl rfl) (.inl ⟨rfl, hmine⟩) h.keys
    · exact h.move hp hown.2 (fun _ => .inl rfl) (.inl ⟨rfl, hmine⟩) h.keys
  | inserting =>
    have hmine : c.store = .tx i := h.swapped hp rfl
    simp only [act] at hact
    split at hact <;> cases hact
    · refine h.move hp hown.1 (fun _ => .inl rfl) (.inl ⟨rfl, hmine⟩) fun k hk => ?_
      rcases List.mem_append.mp hk with hk | hk
      · exact h.keys k hk
      · obtain rfl := List.mem_singleton.mp hk
        exact hown.2
    · exact h.move hp hown.1 (fun _ => .inl rfl) (.inl ⟨rfl, hmine⟩) h.keys
  | restoring =>
    cases hact
    exact h.move hp trivial (by simp [Phase.saved]) (.inl ⟨rfl, hown⟩) h.keys
  | leaving =>
    cases hact
    unfold leave
    split
    · split
      · exact h.pass hp trivial rfl rfl
      · exact h.pass hp trivial rfl rfl
    · split
      · exact h.pass hp trivial rfl rfl
      · exact h.pass hp trivial rfl rfl
  | reading | getting =>
    cases hact
    exact h.pass hp trivial rfl rfl
  | done => cases hact

end

/-! ## Every run -/

/-- Every key goes through the transaction that its own request began, and where no request is
    in progress the handler has its store back, as long as no two swaps overlap. -/
theorem createTenant_restores_store (reqs : Nat → Request) (n : Nat) (c : Server)
    (hrun : Txn.Steps (step reqs) (fun c a => c.calm reqs a = true) (new n) c) :
    (∀ k ∈ c.keys, k.via = .tx k.request) ∧
      ((∀ p ∈ c.phases, p.inProgress = false) → c.store = .pool) := by
  have hquiet : c.Quiet := hrun.invariant (Quiet.new n) fun h hcalm hs => h.step hcalm hs
  refine ⟨hquiet.keys, fun hidle => hquiet.restored fun p hp => ?_⟩
  have hp := hidle p hp
  cases p <;> simp_all [Phase.swapped, Phase.inProgress]

/-- An administrator asks for a tenant. -/
def acme (_ : Nat) : Request := ⟨some .admin, "acme"⟩

/-- A request from its first read to its end: the checks, the transaction, the tenant, the swap,
    the key, the restoration, the commit and the answer. -/
def whole (i : Nat) : List (Nat × Bool) := List.replicate 11 (i, true)

/-- Two requests one after the other. -/
theorem createTenant_restores_store_twice :
    ∃ c, Txn.Steps (step acme) (fun c a => c.calm acme a = true) (new 2) c ∧
      c.keys = [⟨0, .tx 0⟩, ⟨1, .tx 1⟩] ∧ (∀ p ∈ c.phases, p.inProgress = false) ∧
      (∀ k ∈ c.keys, k.via = .tx k.request) ∧ c.store = .pool := by
  have hplay : ((Txn.playSteps (step acme) (calm acme) (new 2) (whole 0 ++ whole 1)).map fun c =>
      (c.keys, c.phases.all fun p => !p.inProgress)) =
        some ([⟨0, .tx 0⟩, ⟨1, .tx 1⟩], true) := by
    decide +kernel
  obtain ⟨c, hplay, heq⟩ := Option.map_eq_some_iff.mp hplay
  have hrun := Txn.playSteps_run hplay
  obtain ⟨hkeys, hidle⟩ := Prod.mk.inj heq
  have hidle : ∀ p ∈ c.phases, p.inProgress = false := by simpa using hidle
  obtain ⟨hvia, hstore⟩ := createTenant_restores_store acme 2 c hrun
  exact ⟨c, hrun, hkeys, hidle, hvia, hstore hidle⟩

/-- Both requests begin and insert their tenants; the first swaps the field, then the second.
    The first mints its key in the transaction of the second and ends, then the second does. -/
def overlap : List (Nat × Bool) :=
  List.replicate 3 (0, true) ++ List.replicate 3 (1, true) ++ List.replicate 2 (0, true) ++
    List.replicate 2 (1, true) ++ List.replicate 6 (0, true) ++ List.replicate 6 (1, true)

/-- A key went through the transaction of another request, and the handler is left with a
    transaction that has ended. -/
theorem createTenant_restores_store_overlap :
    ∃ c, Txn.Steps (step acme) (fun _ _ => True) (new 2) c ∧
      ⟨0, .tx 1⟩ ∈ c.keys ∧ (∀ p ∈ c.phases, p.inProgress = false) ∧ c.store = .tx 0 := by
  have hplay : ((Txn.playSteps (step acme) (fun _ _ => true) (new 2) overlap).map fun c =>
      (c.keys.contains ⟨0, .tx 1⟩, (c.phases.all fun p => !p.inProgress), c.store)) =
        some (true, true, .tx 0) := by
    decide +kernel
  obtain ⟨c, hplay, heq⟩ := Option.map_eq_some_iff.mp hplay
  obtain ⟨hkeys, heq⟩ := Prod.mk.inj heq
  obtain ⟨hidle, hstore⟩ := Prod.mk.inj heq
  exact ⟨c, (Txn.playSteps_run hplay).mono fun _ _ _ => trivial, by simpa using hkeys,
    by simpa using hidle, hstore⟩

end Server

end Ultracore.Http
