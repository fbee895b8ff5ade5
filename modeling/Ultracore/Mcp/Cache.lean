-- SUMMARY: The cache of tool clients: one client per environment, by token epoch, and what was handed out.
import Mathlib.Logic.Function.Basic
import Mathlib.Order.Basic
import Mathlib.Data.Int.Order.Basic

/-!
# The client cache

File `mcp/cache.go`. A client is an address in the heap of the process, where its flag
`revoked` lies. Every call of the cache holds its mutex, so calls happen one after another. The
names of remembered tools play no part here.
-/

namespace Ultracore.Mcp

structure Client where
  endpoint : String
  token : String
  revoked : Bool

/-- `cacheEntry`. The client is an address. -/
structure CacheEntry where
  epoch : Int
  client : Nat

structure Cache where
  entries : String → Option CacheEntry
  heap : List Client

inductive Err where
  | revoked
deriving DecidableEq

namespace Cache

/-- `NewCache`. -/
def new : Cache := ⟨fun _ => none, []⟩

/-- `Client.Revoke`. -/
def revoke (c : Cache) (p : Nat) : Cache :=
  { c with heap := c.heap.modify p fun client => { client with revoked := true } }

/-- `Client.Revoked`. -/
def isRevoked (c : Cache) (p : Nat) : Bool := c.heap[p]?.any Client.revoked

/-- `NewClient` and its entry. -/
def create (c : Cache) (envID : String) (epoch : Int) (endpoint token : String) : Cache where
  entries := Function.update c.entries envID (some ⟨epoch, c.heap.length⟩)
  heap := c.heap ++ [⟨endpoint, token, false⟩]

def client (c : Cache) (envID : String) (epoch : Int) (endpoint token : String) :
    Except Err Nat × Cache :=
  match c.entries envID with
  | none => (.ok c.heap.length, c.create envID epoch endpoint token)
  | some existing =>
    if existing.epoch = epoch ∧ c.isRevoked existing.client = false then
      (.ok existing.client, c)
    else if epoch < existing.epoch then
      (.error .revoked, c)
    else
      (.ok c.heap.length, (c.revoke existing.client).create envID epoch endpoint token)

def invalidate (c : Cache) (envID : String) : Cache :=
  match c.entries envID with
  | none => c
  | some entry =>
    { c.revoke entry.client with entries := Function.update c.entries envID none }

end Cache

/-- A call of the cache. `Restart` rotates the token and then calls `InvalidateToolClients`,
    which invalidates. -/
inductive Op where
  | client (envID : String) (epoch : Int) (endpoint token : String)
  | invalidate (envID : String)
  | restart (envID : String)

/-- The cache after a sequence of calls. The cache does not have `dropped`, the epoch of the
    entry that was invalidated last. -/
structure History where
  cache : Cache
  dropped : String → Option Int

namespace History

def new : History := ⟨Cache.new, fun _ => none⟩

def invalidate (h : History) (envID : String) : History where
  cache := h.cache.invalidate envID
  dropped := match h.cache.entries envID with
    | none => h.dropped
    | some entry => Function.update h.dropped envID (some entry.epoch)

def step (h : History) : Op → History
  | .client envID epoch endpoint token =>
    { h with cache := (h.cache.client envID epoch endpoint token).2 }
  | .invalidate envID => h.invalidate envID
  | .restart envID => h.invalidate envID

def run (ops : List Op) : History := ops.foldl step new

/-- The epoch up to which an environment was used: that of its entry, or of the last one that
    was dropped. -/
def mark (h : History) (envID : String) : Option Int :=
  match h.cache.entries envID with
  | none => h.dropped envID
  | some entry => some entry.epoch

/-- A client that is made where there is no entry is no older than the entry dropped last. -/
def Renewed (env : String) (h : History) : Op → Prop
  | .client envID epoch _ _ =>
    envID = env → h.cache.entries env = none → ∀ d, h.dropped env = some d → d ≤ epoch
  | _ => True

/-- The call returns a client that is not revoked. -/
def Returns (h : History) (envID : String) (epoch : Int) (endpoint token : String) : Prop :=
  ∃ p, (h.cache.client envID epoch endpoint token).1 = .ok p ∧
    (h.cache.client envID epoch endpoint token).2.isRevoked p = false

/-! ## The mark never falls -/

section
variable {h : History} {env envID endpoint token : String} {epoch m : Int} {p : Nat}

/-- A call that succeeds sets the mark to its epoch. -/
theorem mark_client (hok : (h.cache.client env epoch endpoint token).1 = .ok p) :
    (h.step (.client env epoch endpoint token)).mark env = some epoch := by
  simp only [step, mark]
  unfold Cache.client at hok ⊢
  split at hok
  · simp [Cache.create]
  next entry hentry =>
    split at hok
    next hsame => simp [hentry, hsame]
    · split at hok
      · simp at hok
      · simp [Cache.create, *]

/-- A call that succeeds is not below the mark. -/
theorem mark_le_of_ok (hnew : h.Renewed env (.client env epoch endpoint token))
    (hm : h.mark env = some m) (hok : (h.cache.client env epoch endpoint token).1 = .ok p) :
    m ≤ epoch := by
  simp only [mark] at hm
  unfold Cache.client at hok
  split at hok
  next hnone =>
    rw [hnone] at hm
    exact hnew rfl hnone m hm
  next entry hentry =>
    rw [hentry] at hm
    cases hm
    split at hok
    next hsame => exact hsame.1.le
    · split at hok
      · simp at hok
      · omega

theorem mark_client_of_error {e : Err}
    (herr : (h.cache.client envID epoch endpoint token).1 = .error e) :
    h.step (.client envID epoch endpoint token) = h := by
  simp only [step]
  unfold Cache.client at herr ⊢
  split at herr
  · simp at herr
  · split at herr
    · simp at herr
    · split at herr
      · simp [*]
      · simp at herr

theorem entries_client (hne : envID ≠ env) :
    (h.cache.client envID epoch endpoint token).2.entries env = h.cache.entries env := by
  unfold Cache.client
  split
  · simp [Cache.create, hne.symm]
  · split
    · rfl
    · split
      · rfl
      · simp [Cache.create, Cache.revoke, hne.symm]

/-- An invalidation keeps every mark: what the entry loses, `dropped` gets. -/
theorem mark_invalidate : (h.invalidate envID).mark env = h.mark env := by
  simp only [mark, invalidate, Cache.invalidate]
  cases hentry : h.cache.entries envID with
  | none => simp
  | some =>
    by_cases heq : env = envID
    · subst heq
      simp [hentry]
    · simp [heq]

theorem mark_step {op : Op} (hnew : h.Renewed env op) (hm : h.mark env = some m) :
    ∃ m', (h.step op).mark env = some m' ∧ m ≤ m' := by
  cases op with
  | client envID epoch endpoint token =>
    by_cases heq : envID = env
    · subst heq
      cases hres : (h.cache.client envID epoch endpoint token).1 with
      | ok => exact ⟨epoch, mark_client hres, mark_le_of_ok hnew hm hres⟩
      | error => exact ⟨m, by rw [mark_client_of_error hres, hm], le_rfl⟩
    · exact ⟨m, by simpa only [mark, step, entries_client heq] using hm, le_rfl⟩
  | invalidate | restart => exact ⟨m, by rw [step, mark_invalidate, hm], le_rfl⟩

/-- Over a sequence of calls that renew, the mark never falls. -/
theorem mark_foldl (ops : List Op) (hm : h.mark env = some m)
    (hnew : ∀ pre op post, ops = pre ++ op :: post → (pre.foldl step h).Renewed env op) :
    ∃ m', (ops.foldl step h).mark env = some m' ∧ m ≤ m' := by
  induction ops generalizing h m with
  | nil => exact ⟨m, hm, le_rfl⟩
  | cons op ops ih =>
    obtain ⟨m₁, hm₁, hle₁⟩ := mark_step (hnew [] op ops rfl) hm
    obtain ⟨m₂, hm₂, hle₂⟩ := ih hm₁ fun pre op' post heq =>
      hnew (op :: pre) op' post (by rw [heq, List.cons_append])
    exact ⟨m₂, hm₂, hle₁.trans hle₂⟩

end

/-- Where every client that is made after an invalidation is no older than what was dropped, a
    call below an epoch that was used returns no client that works. -/
theorem rotated_never_resurrected (env : String) (ops : List Op)
    (hnew : ∀ pre op post, ops = pre ++ op :: post → (run pre).Renewed env op)
    (pre mid post : List Op) (e e' : Int) (endpoint token endpoint' token' : String) (p : Nat)
    (hops : ops =
      pre ++ .client env e endpoint token :: mid ++ .client env e' endpoint' token' :: post)
    (hok : ((run pre).cache.client env e endpoint token).1 = .ok p) (hlt : e' < e) :
    ¬(run (pre ++ .client env e endpoint token :: mid)).Returns env e' endpoint' token' := by
  rintro ⟨q, hq, -⟩
  have hmid : ∃ m, (run (pre ++ .client env e endpoint token :: mid)).mark env = some m ∧
      e ≤ m := by
    simp only [run, List.foldl_append, List.foldl_cons]
    refine mark_foldl mid (mark_client hok) fun pre' op' post' heq => ?_
    have h := hnew (pre ++ .client env e endpoint token :: pre') op'
      (post' ++ .client env e' endpoint' token' :: post) (by simp [hops, heq])
    simpa only [run, List.foldl_append, List.foldl_cons] using h
  obtain ⟨m, hm, hle⟩ := hmid
  have := mark_le_of_ok (hnew _ _ post hops) hm hq
  omega

/-- The first client is dropped by a restart, the rotated one is used, and then one of the old
    epoch is asked for. -/
theorem rotated_never_resurrected_kept :
    ¬(run [.client "env-1" 1 "http://127.0.0.1:1/mcp" "token-one", .restart "env-1",
      .client "env-1" 2 "http://127.0.0.1:2/mcp" "token-two"]).Returns
      "env-1" 1 "http://127.0.0.1:1/mcp" "token-one" := by
  refine rotated_never_resurrected "env-1"
    [.client "env-1" 1 "http://127.0.0.1:1/mcp" "token-one", .restart "env-1",
      .client "env-1" 2 "http://127.0.0.1:2/mcp" "token-two",
      .client "env-1" 1 "http://127.0.0.1:1/mcp" "token-one"]
    (fun pre op post heq => ?_)
    [.client "env-1" 1 "http://127.0.0.1:1/mcp" "token-one", .restart "env-1"] [] []
    2 1 _ _ _ _ 1 rfl rfl (by decide)
  rcases pre with _ | ⟨op₁, _ | ⟨op₂, _ | ⟨op₃, _ | ⟨op₄, pre⟩⟩⟩⟩ <;>
    simp only [List.nil_append, List.cons_append, List.cons.injEq] at heq
  · obtain ⟨rfl, -⟩ := heq
    intro _ _ d hd
    simp [run, new] at hd
  · obtain ⟨-, rfl, -⟩ := heq
    trivial
  · -- the restart dropped the entry of epoch 1
    obtain ⟨rfl, rfl, rfl, -⟩ := heq
    rintro - - d ⟨⟩
    decide
  · obtain ⟨rfl, rfl, rfl, rfl, -⟩ := heq
    intro _ hnone
    simp [run, step, invalidate, new, Cache.new, Cache.client, Cache.create, Cache.invalidate]
      at hnone
  · simp at heq

/-- After an invalidation the old epoch is served again. -/
theorem rotated_never_resurrected_dropped :
    ((run []).cache.client "env-1" 2 "http://127.0.0.1:2/mcp" "token-two").1 = .ok 0 ∧
      (run [.client "env-1" 2 "http://127.0.0.1:2/mcp" "token-two", .restart "env-1"]).Returns
        "env-1" 1 "http://127.0.0.1:1/mcp" "token-one" :=
  ⟨rfl, 1, rfl, rfl⟩

end History

/-! ## The clients that were handed out -/

/-- A call of the cache, or a `Revoke` by somebody who holds the client. -/
inductive Call where
  | client (envID : String) (epoch : Int) (endpoint token : String)
  | invalidate (envID : String)
  | revoke (p : Nat)

/-- The cache with a record of what `Client` returned: the environment it was asked for and the
    client. -/
structure Issued where
  cache : Cache
  issued : List (String × Nat)

namespace Issued

def new : Issued := ⟨Cache.new, []⟩

def step (s : Issued) : Call → Issued
  | .client envID epoch endpoint token =>
    match s.cache.client envID epoch endpoint token with
    | (.ok p, cache) => ⟨cache, (envID, p) :: s.issued⟩
    | (.error _, cache) => { s with cache }
  | .invalidate envID => { s with cache := s.cache.invalidate envID }
  | .revoke p => { s with cache := s.cache.revoke p }

def run (calls : List Call) : Issued := calls.foldl step new

/-- The environments a call is about. A client that is revoked from outside belongs to the
    environment it was handed out for. -/
def Concerns (s : Issued) (env : String) : Call → Prop
  | .client envID _ _ _ => envID = env
  | .invalidate envID => envID = env
  | .revoke p => (env, p) ∈ s.issued

/-- A client handed out for the environment that still works. -/
def Live (s : Issued) (env : String) (p : Nat) : Prop :=
  (env, p) ∈ s.issued ∧ s.cache.isRevoked p = false

/-- What every sequence of calls keeps. -/
structure Sound (s : Issued) : Prop where
  allocated : ∀ env p, (env, p) ∈ s.issued → p < s.cache.heap.length
  owner : ∀ env env' p, (env, p) ∈ s.issued → (env', p) ∈ s.issued → env = env'
  cached : ∀ env entry, s.cache.entries env = some entry → (env, entry.client) ∈ s.issued
  live : ∀ env p, s.Live env p → (s.cache.entries env).map CacheEntry.client = some p

section
variable {s : Issued} {env envID endpoint token : String} {epoch : Int} {p q : Nat}

@[simp] theorem isRevoked_revoke {c : Cache} :
    (c.revoke q).isRevoked p = (c.isRevoked p || (decide (p = q) && decide (p < c.heap.length))) := by
  simp only [Cache.isRevoked, Cache.revoke, List.getElem?_modify]
  by_cases hlt : p < c.heap.length
  · rw [List.getElem?_eq_getElem hlt]
    by_cases heq : q = p
    · simp [heq, hlt]
    · simp [heq, Ne.symm heq]
  · rw [List.getElem?_eq_none (by omega)]
    simp [hlt]

@[simp] theorem heap_revoke {c : Cache} (hne : p ≠ q) : (c.revoke q).heap[p]? = c.heap[p]? := by
  simp [Cache.revoke, Ne.symm hne]

/-- What a call of `Client` does: it returns the cached client, it refuses, or it revokes the
    cached client, where there is one, and makes a new one. -/
theorem client_cases (s : Issued) (envID : String) (epoch : Int) (endpoint token : String) :
    (∃ entry, s.cache.entries envID = some entry ∧
      s.step (.client envID epoch endpoint token) =
        { s with issued := (envID, entry.client) :: s.issued }) ∨
    s.step (.client envID epoch endpoint token) = s ∨
    ∃ cache : Cache, (s.cache.entries envID = none ∧ cache = s.cache ∨
        ∃ entry, s.cache.entries envID = some entry ∧ cache = s.cache.revoke entry.client) ∧
      s.step (.client envID epoch endpoint token) =
        ⟨cache.create envID epoch endpoint token, (envID, s.cache.heap.length) :: s.issued⟩ := by
  simp only [step]
  unfold Cache.client
  cases hentry : s.cache.entries envID with
  | none => exact .inr (.inr ⟨s.cache, .inl ⟨rfl, rfl⟩, rfl⟩)
  | some entry =>
    by_cases hsame : entry.epoch = epoch ∧ s.cache.isRevoked entry.client = false
    · exact .inl ⟨entry, rfl, by simp only [if_pos hsame]⟩
    · by_cases hold : epoch < entry.epoch
      · exact .inr (.inl (by simp only [if_neg hsame, if_pos hold]))
      · exact .inr (.inr ⟨s.cache.revoke entry.client, .inr ⟨entry, rfl, rfl⟩,
          by simp only [if_neg hsame, if_neg hold]⟩)

@[simp] theorem length_revoke {c : Cache} : (c.revoke q).heap.length = c.heap.length := by
  simp [Cache.revoke]

theorem isRevoked_create {c : Cache} (hlt : p < c.heap.length) :
    (c.create envID epoch endpoint token).isRevoked p = c.isRevoked p := by
  simp only [Cache.isRevoked, Cache.create, List.getElem?_append_left hlt]

/-! ## Every call keeps the invariant -/

theorem sound_new : new.Sound where
  allocated := by simp [new]
  owner := by simp [new]
  cached := by simp [new, Cache.new]
  live := by simp [new, Live]

/-- A client handed out again. -/
theorem Sound.again (hs : s.Sound) (hmem : (env, p) ∈ s.issued) :
    ({ s with issued := (env, p) :: s.issued } : Issued).Sound := by
  have hiff : ∀ x, x ∈ (env, p) :: s.issued ↔ x ∈ s.issued := by
    intro x
    simp only [List.mem_cons, or_iff_right_iff_imp]
    rintro rfl
    exact hmem
  refine ⟨fun env' p' h => hs.allocated env' p' ((hiff _).mp h), fun e e' p' h h' => ?_,
    fun e entry h => (hiff _).mpr (hs.cached e entry h), fun e p' h => ?_⟩
  · exact hs.owner e e' p' ((hiff _).mp h) ((hiff _).mp h')
  · exact hs.live e p' ⟨(hiff _).mp h.1, h.2⟩

theorem Sound.revoke (hs : s.Sound) (q : Nat) :
    ({ s with cache := s.cache.revoke q } : Issued).Sound where
  allocated := fun env' p' h => by simpa using hs.allocated env' p' h
  owner := hs.owner
  cached := hs.cached
  live := fun env' p' h => by
    have hrev := h.2
    simp only [isRevoked_revoke, Bool.or_eq_false_iff] at hrev
    exact hs.live env' p' ⟨h.1, hrev.1⟩

/-- Without an entry no client of the environment works. -/
theorem Sound.not_live_of_none (hs : s.Sound) (hnone : s.cache.entries env = none) :
    ¬s.Live env p := by
  intro h
  have := hs.live env p h
  simp [hnone] at this

/-- With the cached client revoked, no client of the environment works. -/
theorem Sound.not_live_revoke (hs : s.Sound) {entry : CacheEntry}
    (hentry : s.cache.entries env = some entry) :
    ¬({ s with cache := s.cache.revoke entry.client } : Issued).Live env p := by
  rintro ⟨hmem, hrev⟩
  simp only [isRevoked_revoke, Bool.or_eq_false_iff] at hrev
  have hp := hs.live env p ⟨hmem, hrev.1⟩
  simp only [hentry, Option.map_some, Option.some.injEq] at hp
  have hlt := hs.allocated env p hmem
  simp [hp, hlt] at hrev

/-- A new client, where no client of the environment works. -/
theorem Sound.create (hs : s.Sound) (hdead : ∀ p, ¬s.Live env p) :
    (⟨s.cache.create env epoch endpoint token,
      (env, s.cache.heap.length) :: s.issued⟩ : Issued).Sound := by
  -- the new client lies behind all that were handed out
  have hfresh : ∀ e, (e, s.cache.heap.length) ∈ s.issued → False := fun e h =>
    Nat.lt_irrefl _ (hs.allocated e _ h)
  refine ⟨fun e p' h => ?_, fun e e' p' h h' => ?_, fun e entry h => ?_, fun e p' h => ?_⟩
  · simp only [Cache.create, List.length_append, List.length_singleton]
    rcases List.mem_cons.mp h with heq | h
    · cases heq
      omega
    · have := hs.allocated e p' h
      omega
  · rcases List.mem_cons.mp h with heq | h <;> rcases List.mem_cons.mp h' with heq' | h'
    · exact (Prod.mk.inj heq).1.trans (Prod.mk.inj heq').1.symm
    · rw [(Prod.mk.inj heq).2] at h'
      exact (hfresh e' h').elim
    · rw [(Prod.mk.inj heq').2] at h
      exact (hfresh e h).elim
    · exact hs.owner e e' p' h h'
  · simp only [Cache.create, Function.update_apply] at h
    split at h
    next heq =>
      cases h
      simp [heq]
    · exact List.mem_cons_of_mem _ (hs.cached e entry h)
  · obtain ⟨hmem, hrev⟩ := h
    simp only [Cache.create, Function.update_apply]
    rcases List.mem_cons.mp hmem with heq | hold
    · cases heq
      simp
    · rw [isRevoked_create (hs.allocated e p' hold)] at hrev
      have hne : e ≠ env := by
        rintro rfl
        exact hdead p' ⟨hold, hrev⟩
      rw [if_neg hne]
      exact hs.live e p' ⟨hold, hrev⟩

/-- An entry that goes, where no client of the environment works. -/
theorem Sound.drop (hs : s.Sound) (hdead : ∀ p, ¬s.Live env p) : ({ s with cache := { s.cache with
        entries := Function.update s.cache.entries env none } } : Issued).Sound := by
  refine ⟨hs.allocated, hs.owner, fun e entry h => ?_, fun e p' h => ?_⟩
  · simp only [Function.update_apply] at h
    split at h
    · simp at h
    · exact hs.cached e entry h
  · have hne : e ≠ env := by
      rintro rfl
      exact hdead p' h
    simpa only [Function.update_of_ne hne] using hs.live e p' h

theorem Sound.step (hs : s.Sound) (call : Call) : (s.step call).Sound := by
  cases call with
  | client envID epoch endpoint token =>
    rcases client_cases s envID epoch endpoint token with
      ⟨entry, hentry, heq⟩ | heq | ⟨cache, ⟨hnone, rfl⟩ | ⟨entry, hentry, rfl⟩, heq⟩
    · rw [heq]
      exact hs.again (hs.cached envID entry hentry)
    · rwa [heq]
    · rw [heq]
      exact hs.create fun _ => hs.not_live_of_none hnone
    · rw [heq, ← length_revoke]
      exact (hs.revoke entry.client).create fun _ => hs.not_live_revoke hentry
  | invalidate envID =>
    simp only [Issued.step, Cache.invalidate]
    cases hentry : s.cache.entries envID with
    | none => exact hs
    | some entry => exact (hs.revoke entry.client).drop fun _ => hs.not_live_revoke hentry
  | revoke q => exact hs.revoke q

theorem sound_run (calls : List Call) : (run calls).Sound := by
  have hgo : ∀ s : Issued, s.Sound → (calls.foldl Issued.step s).Sound := by
    induction calls with
    | nil => exact fun s hs => hs
    | cons call calls ih => exact fun s hs => ih _ (hs.step call)
  exact hgo new sound_new

/-! ## Environments do not touch each other -/

/-- A client of another environment is not the cached one. -/
theorem Sound.ne_client (hs : s.Sound) (hne : envID ≠ env) {entry : CacheEntry}
    (hentry : s.cache.entries envID = some entry) (hmem : (env, p) ∈ s.issued) :
    p ≠ entry.client := by
  rintro rfl
  exact hne (hs.owner _ _ _ (hs.cached envID entry hentry) hmem)

theorem Sound.other (hs : s.Sound) {call : Call} (hno : ¬s.Concerns env call) :
    (s.step call).cache.entries env = s.cache.entries env ∧
      ∀ p, (env, p) ∈ s.issued → (s.step call).cache.heap[p]? = s.cache.heap[p]? := by
  cases call with
  | client envID epoch endpoint token =>
    have hne : envID ≠ env := hno
    rcases client_cases s envID epoch endpoint token with
      ⟨entry, hentry, heq⟩ | heq | ⟨cache, hcache, heq⟩
    · rw [heq]
      exact ⟨rfl, fun _ _ => rfl⟩
    · rw [heq]
      exact ⟨rfl, fun _ _ => rfl⟩
    · rw [heq]
      have hsame : cache.entries = s.cache.entries ∧
          cache.heap.length = s.cache.heap.length ∧
          ∀ p, (env, p) ∈ s.issued → cache.heap[p]? = s.cache.heap[p]? := by
        rcases hcache with ⟨-, rfl⟩ | ⟨entry, hentry, rfl⟩
        · exact ⟨rfl, rfl, fun _ _ => rfl⟩
        · exact ⟨rfl, length_revoke, fun p hmem =>
            heap_revoke (hs.ne_client hne hentry hmem)⟩
      refine ⟨?_, fun p hmem => ?_⟩
      · simp [Cache.create, Function.update_of_ne hne.symm, hsame.1]
      · have hlt : p < cache.heap.length := by
          rw [hsame.2.1]
          exact hs.allocated env p hmem
        simp only [Cache.create, List.getElem?_append_left hlt, hsame.2.2 p hmem]
  | invalidate envID =>
    have hne : envID ≠ env := hno
    simp only [Issued.step, Cache.invalidate]
    cases hentry : s.cache.entries envID with
    | none => exact ⟨rfl, fun _ _ => rfl⟩
    | some => exact ⟨Function.update_of_ne hne.symm _ _, fun p hmem =>
      heap_revoke (hs.ne_client hne hentry hmem)⟩
  | revoke =>
    refine ⟨rfl, fun p hmem => heap_revoke ?_⟩
    rintro rfl
    exact hno hmem

end

/-- After every sequence of calls, at most one client that was handed out for an environment
    works, and it is the cached one; and a call about other environments leaves the entry of this
    one and every client handed out for it as they are. -/
theorem one_live_client (calls : List Call) (env : String) :
    (∀ p q, (run calls).Live env p → (run calls).Live env q → p = q) ∧
      (∀ p, (run calls).Live env p →
        ∃ entry, (run calls).cache.entries env = some entry ∧ entry.client = p) ∧
      ∀ call, ¬(run calls).Concerns env call →
        (run (calls ++ [call])).cache.entries env = (run calls).cache.entries env ∧
        ∀ p, (env, p) ∈ (run calls).issued →
          (run (calls ++ [call])).cache.heap[p]? = (run calls).cache.heap[p]? := by
  have hs := sound_run calls
  refine ⟨fun p q hp hq => ?_, fun p hp => Option.map_eq_some_iff.mp (hs.live env p hp),
    fun call hno => ?_⟩
  · exact Option.some.inj ((hs.live env p hp).symm.trans (hs.live env q hq))
  · have hrun : run (calls ++ [call]) = (run calls).step call := by
      simp [run, List.foldl_append]
    rw [hrun]
    exact hs.other hno

/-- The calls of two environments: the token of the first one is rotated, and the client of the
    second one is revoked from outside. -/
def rotation : List Call :=
  [.client "env-1" 1 "http://127.0.0.1:1/mcp" "token-one",
    .client "env-2" 1 "http://127.0.0.1:2/mcp" "token-two",
    .client "env-1" 2 "http://127.0.0.1:1/mcp" "token-three",
    .revoke 1]

theorem one_live_client_rotated :
    (∃ entry, (run rotation).cache.entries "env-1" = some entry ∧ entry.client = 2) ∧
      (run (rotation ++ [.invalidate "env-2"])).cache.heap[2]? = (run rotation).cache.heap[2]? := by
  have h := one_live_client rotation "env-1"
  refine ⟨h.2.1 2 ⟨by decide, by decide⟩, (h.2.2 (.invalidate "env-2") ?_).2 2 (by decide)⟩
  simp [Concerns]

end Issued

end Ultracore.Mcp
