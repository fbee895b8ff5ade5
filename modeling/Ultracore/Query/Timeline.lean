-- SUMMARY: The timeline of a session: four tables in one order, paged by signed cursors.
import Ultracore.Paging.Order
import Ultracore.Query.Cursor
import Ultracore.Text.Split

/-!
# The session timeline

`GetSessionTimeline`, file `admin/store/store.go`. Events, runs, resources and waits of a session
are read as one list, latest first, then by kind and id. A cursor holds the time, the kind and the
id of the last entry as texts.
-/

namespace Ultracore.Query

open Text

/-- What searches take from the database: the collation of texts, which tells all texts apart, and
    the reading of a text as a time, which understands RFC 3339. -/
structure Postgres where
  collate : String → String → Ordering
  collate_trans : Std.TransCmp collate
  collate_lawful : Std.LawfulEqCmp collate
  readTime : String → Option Text.Time
  readTime_format : ∀ t : Text.Time, readTime t.format = some t

attribute [instance] Postgres.collate_trans Postgres.collate_lawful

/-- Texts by the numbers of their characters, and times as they are written. -/
def Postgres.simple : Postgres where
  collate a b := List.compareLex compare (codes a) (codes b)
  collate_trans := Paging.transCmp_on codes (List.compareLex compare)
  collate_lawful := {
    compare_self := fun {a} => @Std.ReflCmp.compare_self _ (List.compareLex compare) _ (codes a)
    eq_of_compare := fun h => codes_injective (Std.LawfulEqCmp.eq_of_compare h) }
  readTime := Text.Time.parse
  readTime_format := Text.Time.parse_format

namespace Timeline

/-! ## Tables -/

structure EventRow where
  sessionID : String
  seq : Nat
  ts : Text.Time
  kind : String

structure RunRow where
  id : String
  sessionID : String
  createdAt : Text.Time
  state : String
  loopKind : String

structure ResourceRow where
  id : String
  sessionID : String
  createdAt : Text.Time
  kind : String
  state : String

structure WaitRow where
  id : String
  parentRunID : String
  createdAt : Text.Time
  state : String

/-- The tables with their primary keys. Identifiers are UUIDs, by their texts. -/
structure Database where
  sessions : List String
  events : List EventRow
  runs : List RunRow
  resources : List ResourceRow
  waits : List WaitRow
  events_key : (events.map fun e => (e.sessionID, e.seq)).Nodup
  runs_key : (runs.map RunRow.id).Nodup
  resources_key : (resources.map ResourceRow.id).Nodup
  waits_key : (waits.map WaitRow.id).Nodup

inductive Kind where
  | event
  | run
  | resource
  | wait
deriving DecidableEq

def Kind.text : Kind → String
  | .event => "event"
  | .run => "run"
  | .resource => "resource"
  | .wait => "wait"

structure Entry where
  ts : Text.Time
  kind : Kind
  id : String
  summary : String

def EventRow.entry (e : EventRow) : Entry :=
  ⟨e.ts, .event, e.sessionID ++ ":" ++ toString e.seq, e.kind ++ " seq=" ++ toString e.seq⟩

def RunRow.entry (r : RunRow) : Entry :=
  ⟨r.createdAt, .run, r.id, "run " ++ r.state ++ " " ++ r.loopKind⟩

def ResourceRow.entry (r : ResourceRow) : Entry :=
  ⟨r.createdAt, .resource, r.id, "resource " ++ r.kind ++ " " ++ r.state⟩

def WaitRow.entry (w : WaitRow) : Entry := ⟨w.createdAt, .wait, w.id, "wait " ++ w.state⟩

/-- The waits with the runs of the session that they belong to. -/
def waitsOf (db : Database) (sid : String) : List WaitRow :=
  db.waits.flatMap fun w =>
    (db.runs.filter fun r => r.id = w.parentRunID ∧ r.sessionID = sid).map fun _ => w

/-- The union of the four tables. -/
def entries (db : Database) (sid : String) : List Entry :=
  (db.events.filter (·.sessionID = sid)).map EventRow.entry ++
    ((db.runs.filter (·.sessionID = sid)).map RunRow.entry ++
      ((db.resources.filter (·.sessionID = sid)).map ResourceRow.entry ++
        (waitsOf db sid).map WaitRow.entry))

/-! ## Pages -/

/-- `ORDER BY ts DESC, kind ASC, id ASC` -/
def order (pg : Postgres) : Entry → Entry → Ordering :=
  Paging.lexBy [fun a b => Time.cmp b.ts a.ts, fun a b => pg.collate a.kind.text b.kind.text,
    fun a b => pg.collate a.id b.id]

/-- The condition of a page behind a cursor. -/
def behind (pg : Postgres) (ts : Text.Time) (kind id : String) (e : Entry) : Bool :=
  e.ts.cmp ts = .lt || (e.ts = ts &&
    (pg.collate e.kind.text kind = .gt || (e.kind.text = kind && pg.collate e.id id = .gt)))

/-- `TimelineEntry`; the zero time is left out. -/
structure Item where
  ts : Option Text.Time
  kind : String
  id : String
  summary : String

def Entry.item (e : Entry) : Item where
  ts := if e.ts = Text.Time.first then none else some e.ts
  kind := e.kind.text
  id := e.id
  summary := e.summary

/-- The sort values of an entry. -/
def Entry.sortValues (e : Entry) : List String := [e.ts.format, e.kind.text, e.id]

def payload (sid : String) (last : Option Entry) : CursorPayload :=
  ⟨0, "session_timeline", sid, last.map Entry.sortValues, 0⟩

/-- Scan `limit + 1` of the rows, keep `limit` and sign a cursor if there are more. -/
def respond (lib : Lib) (signer : Option Signer) (now : Int) (sid : String) (limit : Nat)
    (rows : List Entry) : Except Err (List Item × PageInfo) :=
  let scanned := rows.take (limit + 1)
  let kept := scanned.take limit
  let more : Bool := limit < scanned.length
  match more, signer with
  | true, some s => do
      let token ← s.sign lib now (payload sid kept.getLast?)
      return (kept.map Entry.item, ⟨token, true⟩)
  | _, _ => .ok (kept.map Entry.item, ⟨"", more⟩)

/-- The entries behind a cursor. -/
def resume (lib : Lib) (pg : Postgres) (s : Signer) (db : Database) (now : Int) (sid cursor : String) :
    Except Err (List Entry) := do
  let p ← s.verify lib now cursor
  match p.sortValues.elems with
  | [ts, kind, id] =>
    if p.collection ≠ "session_timeline" ∨ p.fingerprint ≠ sid then
      .error (.plain "query: cursor does not match request")
    else
      match pg.readTime ts with
      | none => .error (.plain "admin/store: timeline: invalid input for type timestamptz")
      | some ts => .ok ((entries db sid).filter (behind pg ts kind id))
  | _ => .error (.plain "query: cursor does not match request")

/-- The entries that a request asks for. Without a signer its cursor is ignored. -/
def selectEntries (lib : Lib) (pg : Postgres) (signer : Option Signer) (db : Database) (now : Int)
    (sid cursor : String) : Except Err (List Entry) :=
  match signer with
  | none => .ok (entries db sid)
  | some s => if cursor = "" then .ok (entries db sid) else resume lib pg s db now sid cursor

def getSessionTimeline (lib : Lib) (pg : Postgres) (signer : Option Signer) (db : Database)
    (now : Int) (sid : String) (page : Page) : Except Err (List Item × PageInfo) :=
  let limit := if page.limit = 0 then defaultLimit else page.limit
  if maxLimit < limit then .error (.plain "query: limit exceeds maximum of 250")
  else if sid ∉ db.sessions then .error (.plain "not found")
  else do
    let rows ← selectEntries lib pg signer db now sid page.cursor
    respond lib signer now sid limit (Paging.sortBy (order pg) rows)

/-! ## No two entries compare equal -/

/-- What tells entries apart. -/
def Entry.key (e : Entry) : Kind × String := (e.kind, e.id)

section
variable {db : Database} {sid : String}

theorem events_distinct : ((db.events.filter (·.sessionID = sid)).map EventRow.entry).Pairwise
    fun a b => a.key ≠ b.key := by
  have hkey := (List.pairwise_map.mp db.events_key).filter (·.sessionID = sid)
  refine List.pairwise_map.mpr (hkey.imp_of_mem ?_)
  intro a b ha hb hne heq
  have hsa : a.sessionID = sid := by simpa using (List.mem_filter.mp ha).2
  have hsb : b.sessionID = sid := by simpa using (List.mem_filter.mp hb).2
  -- the text of the number is what is left behind the session
  have hid := congrArg String.toList (Prod.mk.inj heq).2
  simp only [EventRow.entry, String.toList_append, hsa, hsb] at hid
  have hseq := Text.toString_injective (String.toList_inj.mp (List.append_cancel_left hid))
  exact hne (by rw [hsa, hsb, hseq])

theorem runs_distinct : ((db.runs.filter (·.sessionID = sid)).map RunRow.entry).Pairwise
    fun a b => a.key ≠ b.key := by
  have hkey := (List.pairwise_map.mp db.runs_key).filter (·.sessionID = sid)
  exact List.pairwise_map.mpr (hkey.imp fun hne heq => hne (Prod.mk.inj heq).2)

theorem resources_distinct : ((db.resources.filter (·.sessionID = sid)).map ResourceRow.entry).Pairwise
    fun a b => a.key ≠ b.key := by
  have hkey := (List.pairwise_map.mp db.resources_key).filter (·.sessionID = sid)
  exact List.pairwise_map.mpr (hkey.imp fun hne heq => hne (Prod.mk.inj heq).2)

theorem waits_distinct : ((waitsOf db sid).map WaitRow.entry).Pairwise fun a b => a.key ≠ b.key := by
  refine List.pairwise_map.mpr (List.pairwise_flatMap.mpr ⟨fun w _ => ?_, ?_⟩)
  · -- a wait has one parent, so it is joined once at most
    have hruns := (List.pairwise_map.mp db.runs_key).filter
      (fun r => r.id = w.parentRunID ∧ r.sessionID = sid)
    refine List.pairwise_map.mpr (hruns.imp_of_mem ?_)
    intro a b ha hb hne _
    have hpa : a.id = w.parentRunID ∧ a.sessionID = sid := by simpa using (List.mem_filter.mp ha).2
    have hpb : b.id = w.parentRunID ∧ b.sessionID = sid := by simpa using (List.mem_filter.mp hb).2
    exact hne (hpa.1.trans hpb.1.symm)
  · refine (List.pairwise_map.mp db.waits_key).imp ?_
    intro w w' hne x hx y hy heq
    obtain ⟨_, -, rfl⟩ := List.mem_map.mp hx
    obtain ⟨_, -, rfl⟩ := List.mem_map.mp hy
    exact hne (Prod.mk.inj heq).2

/-- Entries from two tables differ in their kind. -/
theorem key_ne_of_kind {a b : Entry} (h : a.kind ≠ b.kind) : a.key ≠ b.key := fun heq =>
  h (Prod.mk.inj heq).1

theorem kind_of_mem {ρ : Type} (f : ρ → Entry) {k : Kind} (hf : ∀ r, (f r).kind = k)
    {rows : List ρ} {e : Entry} (he : e ∈ rows.map f) : e.kind = k := by
  obtain ⟨r, -, rfl⟩ := List.mem_map.mp he
  exact hf r

theorem entries_distinct : (entries db sid).Pairwise fun a b => a.key ≠ b.key := by
  have hrun := @kind_of_mem _ RunRow.entry .run fun _ => rfl
  have hresource := @kind_of_mem _ ResourceRow.entry .resource fun _ => rfl
  have hwait := @kind_of_mem _ WaitRow.entry .wait fun _ => rfl
  refine List.pairwise_append.mpr ⟨events_distinct, List.pairwise_append.mpr ⟨runs_distinct,
    List.pairwise_append.mpr ⟨resources_distinct, waits_distinct, ?_⟩, ?_⟩, ?_⟩
  · intro a ha b hb
    exact key_ne_of_kind (by rw [hresource ha, hwait hb]; decide)
  · intro a ha b hb
    rcases List.mem_append.mp hb with hb | hb
    · exact key_ne_of_kind (by rw [hrun ha, hresource hb]; decide)
    · exact key_ne_of_kind (by rw [hrun ha, hwait hb]; decide)
  · intro a ha b hb
    have hevent : a.kind = .event := kind_of_mem EventRow.entry (fun _ => rfl) ha
    rcases List.mem_append.mp hb with hb | hb
    · exact key_ne_of_kind (by rw [hevent, hrun hb]; decide)
    · rcases List.mem_append.mp hb with hb | hb
      · exact key_ne_of_kind (by rw [hevent, hresource hb]; decide)
      · exact key_ne_of_kind (by rw [hevent, hwait hb]; decide)

end

/-! ## The order -/

section
variable {pg : Postgres}

theorem kind_text_injective : Function.Injective Kind.text := by
  intro a b h
  cases a <;> cases b <;> first | rfl | exact absurd h (by decide)

instance : Std.TransCmp (order pg) := by
  refine Paging.lexBy_transCmp fun cmp hcmp => ?_
  simp only [List.mem_cons, List.not_mem_nil, or_false] at hcmp
  rcases hcmp with rfl | rfl | rfl
  · exact Paging.transCmp_on Entry.ts fun a b => Time.cmp b a
  · exact Paging.transCmp_on (fun e : Entry => e.kind.text) pg.collate
  · exact Paging.transCmp_on Entry.id pg.collate

/-- The order tells entries apart. -/
theorem order_ne_eq {a b : Entry} (h : a.key ≠ b.key) : order pg a b ≠ .eq := by
  intro heq
  have hall := Paging.lexBy_eq_iff.mp heq
  rw [List.forall_mem_cons, List.forall_mem_cons, List.forall_mem_cons] at hall
  obtain ⟨-, hkind, hid, -⟩ := hall
  exact h (Prod.ext (kind_text_injective (Std.LawfulEqCmp.eq_of_compare hkind))
    (Std.LawfulEqCmp.eq_of_compare hid))

/-- The condition behind an entry's values is that the entry comes first. -/
theorem behind_iff (x y : Entry) :
    behind pg x.ts x.kind.text x.id y = true ↔ order pg x y = .lt := by
  have hts : x.ts.cmp y.ts = .lt ↔ y.ts.cmp x.ts = .gt := Std.OrientedCmp.gt_iff_lt.symm
  have hkind : pg.collate y.kind.text x.kind.text = .gt ↔
      pg.collate x.kind.text y.kind.text = .lt := Std.OrientedCmp.gt_iff_lt
  have hid : pg.collate y.id x.id = .gt ↔ pg.collate x.id y.id = .lt := Std.OrientedCmp.gt_iff_lt
  have heq : y.ts = x.ts ↔ y.ts.cmp x.ts = .eq := Std.LawfulEqCmp.compare_eq_iff_eq.symm
  have hkeq : y.kind.text = x.kind.text ↔ pg.collate x.kind.text y.kind.text = .eq :=
    eq_comm.trans Std.LawfulEqCmp.compare_eq_iff_eq.symm
  simp only [behind, order, Paging.lexBy, Bool.or_eq_true, Bool.and_eq_true, decide_eq_true_eq, heq,
    hkind, hid, hkeq, Ordering.then_eq_lt]
  simp

end

/-! ## Following the cursors -/

section
variable (lib : Lib) (pg : Postgres) (s : Signer) (db : Database) (clock : Nat → Int) (sid : String)
  (limit : Nat)

/-- A client's request number `i`, and the cursor for the next one if there is more. -/
def ask (i : Nat) (cursor : String) : Except Err (Paging.Page Item (Nat × String)) :=
  (getSessionTimeline lib pg (some s) db (clock i) sid ⟨limit, cursor⟩).map fun (items, info) =>
    ⟨items, if info.hasMore then some (i, info.nextCursor) else none⟩

/-- The first request has no cursor. -/
def request : Option (Nat × String) → Except Err (Paging.Page Item (Nat × String))
  | none => ask lib pg s db clock sid limit 0 ""
  | some (i, cursor) => ask lib pg s db clock sid limit (i + 1) cursor

/-- The cursor was issued for an entry, with request number `k.1`. -/
def Marks (e : Entry) (k : Nat × String) : Prop :=
  s.sign lib (clock k.1) (payload sid (some e)) = .ok k.2

end

section
variable {lib : Lib} {pg : Postgres} {s : Signer} {db : Database} {clock : Nat → Int} {sid : String}
  {limit : Nat}

theorem ask_page {i : Nat} {cursor : String} {rows : List Entry} (hsecret : s.secret ≠ [])
    (hlimit : 0 < limit) (hmax : limit ≤ maxLimit) (hsession : sid ∈ db.sessions)
    (hrows : selectEntries lib pg (some s) db (clock i) sid cursor = .ok rows) :
    ∃ p, ask lib pg s db clock sid limit i cursor = .ok p ∧
      Paging.IsPage Entry.item (Marks lib s clock sid) limit (Paging.sortBy (order pg) rows) p := by
  have hget : getSessionTimeline lib pg (some s) db (clock i) sid ⟨limit, cursor⟩ =
      respond lib (some s) (clock i) sid limit (Paging.sortBy (order pg) rows) := by
    simp only [getSessionTimeline, if_neg (Nat.ne_of_gt hlimit), if_neg (Nat.not_lt.mpr hmax),
      if_neg (not_not.mpr hsession), hrows]
    rfl
  generalize Paging.sortBy (order pg) rows = sorted at hget ⊢
  simp only [ask, hget, respond, Paging.take_scanned]
  by_cases hmore : limit < sorted.length
  · have hscanned := decide_eq_true (Paging.lt_scanned.mpr hmore)
    obtain ⟨x, hlast⟩ := Paging.exists_last hlimit hmore
    obtain ⟨token, htoken⟩ : ∃ token, s.sign lib (clock i) (payload sid (some x)) = .ok token := by
      rw [Signer.sign, if_neg hsecret]
      exact ⟨_, rfl⟩
    simp only [hscanned, hlast, htoken]
    exact ⟨_, rfl, rfl, .inr ⟨x, (i, token), hmore, hlast, rfl, htoken⟩⟩
  · have hscanned := decide_eq_false (mt Paging.lt_scanned.mp hmore)
    simp only [hscanned]
    exact ⟨_, rfl, rfl, .inl ⟨by omega, rfl⟩⟩

/-- A cursor that is used in time selects what is behind its entry. -/
theorem selectEntries_marks {e : Entry} {k : Nat × String}
    (hclock : ∀ i, unix (clock (i + 1)) ≤ unix (clock i + s.effectiveTTL))
    (hmarks : Marks lib s clock sid e k) :
    selectEntries lib pg (some s) db (clock (k.1 + 1)) sid k.2 =
      .ok ((entries db sid).filter (behind pg e.ts e.kind.text e.id)) := by
  have hverify : s.verify lib (clock (k.1 + 1)) k.2 =
      .ok ⟨1, "session_timeline", sid, some e.sortValues, unix (clock k.1 + s.effectiveTTL)⟩ :=
    verify_sign_live hmarks (hclock k.1)
  simp only [selectEntries, if_neg (sign_ne_empty hmarks), resume, hverify]
  simp [bind, Except.bind, Slice.elems, Entry.sortValues, pg.readTime_format]

end

/-- With a signer, and each cursor used before it expires, following the cursors of a session's
    timeline ends and yields every entry once, by time descending, then kind, then id. -/
theorem timeline_complete (lib : Lib) (pg : Postgres) (s : Signer) (hsecret : s.secret ≠ [])
    (db : Database) (sid : String) (hsession : sid ∈ db.sessions) (limit : Nat)
    (hlimit : 1 ≤ limit) (hmax : limit ≤ maxLimit) (clock : Nat → Int)
    (hclock : ∀ i, unix (clock (i + 1)) ≤ unix (clock i + s.effectiveTTL)) :
    ∃ rows : List Entry, rows.Perm (entries db sid) ∧
      rows.Pairwise (fun a b => order pg a b = .lt) ∧
      ∀ fuel, rows.length < fuel →
        Paging.follow (request lib pg s db clock sid limit) fuel none =
          some (.ok (rows.map Entry.item)) := by
  have hne : (entries db sid).Pairwise fun a b => order pg a b ≠ .eq :=
    entries_distinct.imp order_ne_eq
  have hstrict := Paging.sortBy_strict hne
  refine ⟨Paging.sortBy (order pg) (entries db sid), Paging.sortBy_perm, hstrict, ?_⟩
  intro fuel hfuel
  have hfirst : selectEntries lib pg (some s) db (clock 0) sid "" = .ok (entries db sid) := rfl
  obtain ⟨p, hp, hpage⟩ := ask_page hsecret hlimit hmax hsession hfirst
  refine Paging.follow_pages hp hpage ?_ hfuel
  rintro done x rest ⟨i, token⟩ hsplit hmarks
  obtain ⟨q, hq, hqpage⟩ :=
    ask_page hsecret hlimit hmax hsession (selectEntries_marks hclock hmarks)
  have hbehind : behind pg x.ts x.kind.text x.id = fun y => decide (order pg x y = .lt) := by
    funext y
    rw [Bool.eq_iff_iff, behind_iff, decide_eq_true_eq]
  rw [Paging.sortBy_filter hne, hsplit, hbehind,
    Paging.filter_greater (hsplit ▸ hstrict)] at hqpage
  exact ⟨q, hq, hqpage⟩

/-- A run and two events at one time. -/
def threeEntries : Database where
  sessions := ["s"]
  events := [⟨"s", 1, Text.Time.first, "run_started"⟩,
    ⟨"s", 2, Text.Time.first, "step_started"⟩]
  runs := [⟨"r", "s", Text.Time.first, "running", "agent"⟩]
  resources := []
  waits := []
  events_key := by decide
  runs_key := by decide
  resources_key := by decide
  waits_key := by decide

/-- They are read one by one. -/
theorem timeline_complete_three :
    (entries threeEntries "s").length = 3 ∧
      ∃ rows : List Entry, rows.Perm (entries threeEntries "s") ∧
        rows.Pairwise (fun a b => order .simple a b = .lt) ∧
        Paging.follow (request .simple .simple ⟨[7], 0⟩ threeEntries (fun _ => 0) "s" 1) 4 none =
          some (.ok (rows.map Entry.item)) := by
  obtain ⟨rows, hperm, hsorted, hfollow⟩ := timeline_complete .simple .simple ⟨[7], 0⟩ (by decide)
    threeEntries "s" (by decide) 1 (by decide) (by decide) (fun _ => 0) (fun _ => by decide)
  have hlen : rows.length = 3 := hperm.length_eq
  exact ⟨rfl, rows, hperm, hsorted, hfollow 4 (by omega)⟩

end Timeline

end Ultracore.Query
