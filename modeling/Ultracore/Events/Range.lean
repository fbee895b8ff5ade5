-- SUMMARY: Range reads of the log: the pages of the Get handler, followed by the SDK, are exactly the events asked for.
import Ultracore.Clock.Instant
import Ultracore.Events.Log
import Ultracore.Paging.Keyset

/-!
# Range reads

`eventHandler.Get` of `http/session_handler.go` and `Client.GetEvents` of `sdk/events.go`, over
fixed tables. A page token is the number of the last event of a page, read into 64 bits, in which
the column `last_seq` keeps its numbers too. Stored payloads are what `Append` encoded, so decoding
one does not fail.
-/

namespace Ultracore.Events

/-- `GetRequest`. Numbers and sizes are as the caller sends them. -/
structure GetRequest where
  sessionID : SessionID
  fromSeq : Int
  toSeq : Int
  pageSize : Int
  pageToken : String

/-- `GetResponse`. -/
structure GetResponse where
  events : List Event
  nextPageToken : String := ""

/-- `Range` for a number that may be negative. -/
def rangeFrom (d : Db) (t : TenantID) (s : SessionID) (fromSeq : Int) (limit : Nat) : List Event :=
  match d.ownSession t s with
  | none => []
  | some _ =>
    (((d.eventsOf s).filter fun e => fromSeq < e.seq).insertionSort fun e e' => e.seq ≤ e'.seq).take
      (if limit = 0 then 256 else limit)

/-- Page tokens are the last delivered number as decimal. The sum wraps around. -/
def parseToken : Int → List Char → Except Err Int
  | n, [] => .ok n
  | n, c :: tok =>
    if c.toNat < '0'.toNat ∨ '9'.toNat < c.toNat then .error (.invalid "invalid page_token")
    else parseToken (Clock.wrap (n * 10 + (c.toNat - '0'.toNat : Nat))) tok

/-- Where the page starts: behind the token, where there is one. -/
def startOf (req : GetRequest) : Except Err Int :=
  if req.pageToken ≠ "" then parseToken 0 req.pageToken.toList else .ok req.fromSeq

/-- The limit of a page: what is out of range stands for the maximum. -/
def limitOf (pageSize : Int) : Nat :=
  if pageSize ≤ 0 ∨ 256 < pageSize then 256 else pageSize.toNat

/-- The loop of `Get` over the events that were read; `taken` is what the response has. -/
def fill (upTo : Int) (limit : Nat) (taken : List Event) : List Event → GetResponse
  | [] => ⟨taken, ""⟩
  | e :: events =>
    if 0 < upTo ∧ upTo < e.seq then ⟨taken, ""⟩
    else if limit ≤ taken.length then
      ⟨taken, (taken.getLast?.map fun last => toString last.seq).getD ""⟩
    else fill upTo limit (taken ++ [e]) events

/-- `eventHandler.Get`, called by a principal of tenant `t`. -/
def get (d : Db) (t : TenantID) (req : GetRequest) : Except Err GetResponse :=
  match d.ownSession t req.sessionID with
  | none => .error .notFound
  | some _ => do
      let start ← startOf req
      let limit := limitOf req.pageSize
      -- one more than the page holds, to see whether there is another page
      let events := rangeFrom d t req.sessionID start (limit + 1)
      return fill req.toSeq limit [] events

/-- The loop of `Client.GetEvents`, `fuel` times at most. -/
def getEvents (d : Db) (t : TenantID) (s : SessionID) (fromSeq toSeq pageSize : Int) :
    Nat → String → Option (Except Err (List Event))
  | 0, _ => none
  | fuel + 1, token =>
    match get d t ⟨s, fromSeq, toSeq, pageSize, token⟩ with
    | .error e => some (.error e)
    | .ok resp =>
      if resp.nextPageToken = "" then some (.ok resp.events)
      else (getEvents d t s fromSeq toSeq pageSize fuel resp.nextPageToken).map fun rest =>
        rest.map (resp.events ++ ·)

/-- What a range read is for: the events above `fromSeq` and, where `toSeq` is positive, up to
    `toSeq`. -/
def inRange (fromSeq toSeq : Int) (e : Event) : Bool :=
  fromSeq < e.seq ∧ (0 < toSeq → e.seq ≤ toSeq)

/-! ## Tokens -/

theorem wrap_digit (n k : Int) : Clock.wrap (Clock.wrap n * 10 + k) = Clock.wrap (n * 10 + k) := by
  simp only [Clock.wrap]
  omega

theorem parseToken_digits {cs : List Char} (hcs : ∀ c ∈ cs, c.isDigit = true) (n : Nat) :
    parseToken (Clock.wrap n) cs = .ok (Clock.wrap (Nat.ofDigitChars 10 cs n : Nat)) := by
  induction cs generalizing n with
  | nil => simp [parseToken]
  | cons c cs ih =>
    have hc := hcs c (by simp)
    simp only [Char.isDigit, ge_iff_le, Bool.and_eq_true, decide_eq_true_eq,
      UInt32.le_iff_toNat_le] at hc
    have hdigit : ¬(c.toNat < '0'.toNat ∨ '9'.toNat < c.toNat) := by
      rintro (h | h)
      · exact Nat.not_lt.mpr hc.1 h
      · exact Nat.not_lt.mpr hc.2 h
    have hsum : (n : Int) * 10 + (c.toNat - '0'.toNat : Nat) = (10 * n + (c.toNat - '0'.toNat) : Nat) := by
      push_cast
      omega
    rw [parseToken, if_neg hdigit, Nat.ofDigitChars_cons, wrap_digit, hsum]
    exact ih (fun c hc => hcs c (by simp [hc])) _

/-- A token is read back as the number it was made from. -/
theorem parseToken_toString {n : Nat} (hn : Clock.InRange n) :
    parseToken 0 (toString n).toList = .ok n := by
  rw [Nat.toString_eq_ofList_toDigits, String.toList_ofList]
  have h := parseToken_digits (n := 0) fun c (hc : c ∈ Nat.toDigits 10 n) =>
    Nat.isDigit_of_mem_toDigits (by decide) (by decide) hc
  rw [Nat.ofDigitChars_ten_toDigits, Clock.wrap_of_inRange hn] at h
  exact h

theorem toString_ne_empty (n : Nat) : toString n ≠ "" := Nat.repr_ne_empty

/-! ## One page -/

/-- The token of a cursor. -/
def tokenOf (cursor : Option Nat) : String := (cursor.map toString).getD ""

/-- A page as a response. -/
def respond (p : Paging.Page Event Nat) : GetResponse := ⟨p.items, tokenOf p.next⟩

section
variable {upTo : Int} {limit : Nat} {rows taken : List Event}

/-- Behind an event that is too late all events are. -/
theorem filter_late {e : Event} {rows : List Event} (hpos : 0 < upTo) (hlate : upTo < e.seq)
    (hsorted : (e :: rows).Pairwise fun e e' => e.seq < e'.seq) :
    (e :: rows).filter (fun e => decide (0 < upTo → (e.seq : Int) ≤ upTo)) = [] := by
  refine List.filter_eq_nil_iff.mpr fun e' he' => ?_
  have hle : e.seq ≤ e'.seq := by
    rcases List.mem_cons.mp he' with rfl | he'
    · exact Nat.le_refl _
    · exact Nat.le_of_lt ((List.pairwise_cons.mp hsorted).1 e' he')
  simp only [decide_eq_true_eq, Classical.not_imp, Int.not_le]
  exact ⟨hpos, by omega⟩

/-- The loop takes the first events up to `upTo`, and sets a token where there are more. -/
theorem fill_eq (htaken : taken.length ≤ limit)
    (hsorted : rows.Pairwise fun e e' => e.seq < e'.seq) :
    fill upTo limit taken (rows.take (limit + 1 - taken.length)) =
      respond (Paging.page Event.seq limit
        (taken ++ rows.filter fun e => decide (0 < upTo → (e.seq : Int) ≤ upTo))) := by
  induction rows generalizing taken with
  | nil =>
    simp [fill, respond, Paging.page, tokenOf, List.take_of_length_le htaken, Nat.not_lt.mpr htaken]
  | cons e rows ih =>
    obtain ⟨k, hk⟩ : ∃ k, limit + 1 - taken.length = k + 1 := ⟨limit - taken.length, by omega⟩
    rw [hk, List.take_succ_cons, fill]
    by_cases hlate : 0 < upTo ∧ upTo < e.seq
    · rw [if_pos hlate, filter_late hlate.1 hlate.2 hsorted]
      simp [respond, Paging.page, tokenOf, List.take_of_length_le htaken, Nat.not_lt.mpr htaken]
    · rw [if_neg hlate]
      have hin : decide (0 < upTo → (e.seq : Int) ≤ upTo) = true := by
        simp only [decide_eq_true_eq]
        omega
      rw [List.filter_cons, if_pos hin]
      by_cases hfull : limit ≤ taken.length
      · have heq : taken.length = limit := Nat.le_antisymm htaken hfull
        have htake : ∀ l, (taken ++ e :: l).take limit = taken := fun l => by
          rw [← heq, List.take_left]
        rw [if_pos hfull]
        simp [respond, Paging.page, tokenOf, htake, heq, Option.map_map, Function.comp_def]
      · have hk' : k = limit + 1 - (taken ++ [e]).length := by simp; omega
        rw [if_neg hfull, hk', ih (by simp; omega) (List.pairwise_cons.mp hsorted).2]
        simp

end

/-! ## Whole reads -/

/-- What the cursor stands for as a lower bound. -/
def boundOf (fromSeq : Int) (cursor : Option Nat) : Int := (cursor.map Int.ofNat).getD fromSeq

section
variable {d : Db} {t : TenantID} {s : SessionID} {x : Session} {fromSeq toSeq pageSize : Int}

theorem inRange_iff {e : Event} :
    inRange fromSeq toSeq e = true ↔ fromSeq < e.seq ∧ (0 < toSeq → (e.seq : Int) ≤ toSeq) :=
  decide_eq_true_iff

theorem sorted_of_gapless (hg : d.Gapless) :
    (d.eventsOf s).Pairwise fun e e' => e.seq < e'.seq := by
  refine List.pairwise_map.mp ?_
  rw [show (d.eventsOf s).map Event.seq = _ from hg s]
  exact List.pairwise_lt_range'

theorem rangeFrom_eq (hg : d.Gapless) (hx : d.ownSession t s = some x) {limit : Nat}
    (hlimit : limit ≠ 0) : rangeFrom d t s fromSeq limit =
      ((d.eventsOf s).filter fun e => decide (fromSeq < (e.seq : Int))).take limit := by
  have hsorted : ((d.eventsOf s).filter fun e => decide (fromSeq < (e.seq : Int))).Pairwise
      fun e e' => e.seq ≤ e'.seq :=
    ((sorted_of_gapless hg).sublist List.filter_sublist).imp Nat.le_of_lt
  simp only [rangeFrom, hx, hlimit, if_false]
  rw [List.Pairwise.insertionSort_eq hsorted]

theorem limitOf_pos (pageSize : Int) : 0 < limitOf pageSize := by
  unfold limitOf
  split <;> omega

/-- The cursors that can be read back. -/
def Fits (cursor : Option Nat) : Prop := ∀ n ∈ cursor, Clock.InRange n

theorem startOf_tokenOf {cursor : Option Nat} (hfits : Fits cursor) :
    startOf ⟨s, fromSeq, toSeq, pageSize, tokenOf cursor⟩ = .ok (boundOf fromSeq cursor) := by
  cases cursor with
  | none => simp [startOf, tokenOf, boundOf]
  | some n =>
    have htoken : tokenOf (some n) = toString n := rfl
    rw [startOf, htoken, if_pos (toString_ne_empty n), parseToken_toString (hfits n rfl)]
    rfl

/-- `Get` answers with the first page of what is left behind the cursor. -/
theorem get_eq (hg : d.Gapless) (hx : d.ownSession t s = some x) {cursor : Option Nat}
    (hfits : Fits cursor) :
    get d t ⟨s, fromSeq, toSeq, pageSize, tokenOf cursor⟩ =
      .ok (respond (Paging.page Event.seq (limitOf pageSize)
        ((d.eventsOf s).filter (inRange (boundOf fromSeq cursor) toSeq)))) := by
  simp only [get, hx, startOf_tokenOf hfits, bind, Except.bind, pure, Except.pure]
  rw [rangeFrom_eq hg hx (by omega)]
  have hsorted : ((d.eventsOf s).filter fun e =>
      decide (boundOf fromSeq cursor < (e.seq : Int))).Pairwise fun e e' => e.seq < e'.seq :=
    (sorted_of_gapless hg).sublist List.filter_sublist
  have hfill := @fill_eq toSeq (limitOf pageSize) _ [] (Nat.zero_le _) hsorted
  rw [List.length_nil, Nat.sub_zero, List.nil_append, List.filter_filter] at hfill
  rw [hfill]
  congr 3
  refine List.filter_congr fun e _ => ?_
  rw [Bool.eq_iff_iff, inRange_iff, Bool.and_eq_true, decide_eq_true_iff, decide_eq_true_iff]
  exact and_comm

/-- The pages behind a cursor. -/
def fetch (d : Db) (s : SessionID) (fromSeq toSeq pageSize : Int) (cursor : Option Nat) :
    Except Err (Paging.Page Event Nat) :=
  .ok (Paging.page Event.seq (limitOf pageSize)
    ((d.eventsOf s).filter (inRange (boundOf fromSeq cursor) toSeq)))

theorem tokenOf_eq_empty {cursor : Option Nat} : tokenOf cursor = "" ↔ cursor = none := by
  cases cursor with
  | none => simp [tokenOf]
  | some => simp [tokenOf]

/-- A page ends with an event of the log, whose number the column holds. -/
theorem fits_next (hg : d.Gapless) (hlast : Clock.InRange (d.lastSeq s)) {limit : Nat}
    {p : Event → Bool} : Fits (Paging.page Event.seq limit ((d.eventsOf s).filter p)).next := by
  intro n hn
  simp only [Paging.page] at hn
  split at hn
  · obtain ⟨e, he, rfl⟩ := Option.map_eq_some_iff.mp hn
    have hmem : e ∈ d.eventsOf s :=
      (List.mem_filter.mp (List.mem_of_mem_take (List.mem_of_getLast? he))).1
    have hseq : e.seq ∈ List.range' 1 (d.lastSeq s) := by
      rw [← hg s]
      exact List.mem_map_of_mem hmem
    have hle : e.seq ≤ d.lastSeq s := by
      have := (List.mem_range'_1.mp hseq).2
      omega
    simp only [Clock.InRange] at hlast ⊢
    omega
  · cases hn

/-- The loop of the SDK follows the pages. -/
theorem getEvents_eq_follow (hg : d.Gapless) (hlast : Clock.InRange (d.lastSeq s))
    (hx : d.ownSession t s = some x) (fuel : Nat) {cursor : Option Nat} (hfits : Fits cursor) :
    getEvents d t s fromSeq toSeq pageSize fuel (tokenOf cursor) =
      Paging.follow (fetch d s fromSeq toSeq pageSize) fuel cursor := by
  induction fuel generalizing cursor with
  | zero => rfl
  | succ fuel ih =>
    rw [getEvents, get_eq hg hx hfits, Paging.follow, fetch]
    simp only [respond, tokenOf_eq_empty]
    split
    next hnone => simp [hnone]
    next hsome =>
      obtain ⟨n, hn⟩ := Option.ne_none_iff_exists'.mp hsome
      have hnext := ih (hn ▸ fits_next hg hlast)
      simp [hn, hnext]

/-- Behind an event of the range, the rest of the range follows. -/
theorem fetch_resumes (hg : d.Gapless) :
    Paging.Resumes (fetch d s fromSeq toSeq pageSize) Event.seq (limitOf pageSize)
      ((d.eventsOf s).filter (inRange fromSeq toSeq)) := by
  intro done e rest hsplit
  have hsorted : (done ++ e :: rest).Pairwise fun e e' => e.seq < e'.seq := by
    rw [← hsplit]
    exact (sorted_of_gapless hg).sublist List.filter_sublist
  have hfrom : fromSeq < e.seq := by
    have hmem : e ∈ (d.eventsOf s).filter (inRange fromSeq toSeq) := by simp [hsplit]
    exact (inRange_iff.mp (List.mem_filter.mp hmem).2).1
  have hrest : (d.eventsOf s).filter (inRange (boundOf fromSeq (some e.seq)) toSeq) = rest := by
    rw [← Paging.filter_behind (fun _ _ => Nat.lt_asymm) hsorted, ← hsplit, List.filter_filter]
    refine List.filter_congr fun e' _ => ?_
    have hbound : boundOf fromSeq (some e.seq) = e.seq := rfl
    rw [Bool.eq_iff_iff, Bool.and_eq_true, inRange_iff, inRange_iff, decide_eq_true_iff, hbound]
    exact ⟨fun h => ⟨by omega, by omega, h.2⟩, fun h => ⟨by omega, h.2.2⟩⟩
  rw [fetch, hrest]

end

/-- On fixed tables the loop of `GetEvents` ends, and it returns exactly the events of the session
    above `fromSeq` and, where `toSeq` is positive, up to `toSeq`, each once and in order. -/
theorem get_events_exact {d : Db} {t : TenantID} {s : SessionID} {x : Session} (hg : d.Gapless)
    (hlast : Clock.InRange (d.lastSeq s)) (hx : d.ownSession t s = some x) (fromSeq toSeq pageSize : Int) :
    ∃ n, ∀ fuel ≥ n, ∃ events,
      getEvents d t s fromSeq toSeq pageSize fuel "" = some (.ok events) ∧
      events = (d.eventsOf s).filter (fun e => fromSeq < e.seq ∧ (0 < toSeq → e.seq ≤ toSeq)) ∧
      events.Pairwise fun e e' => e.seq < e'.seq := by
  refine ⟨((d.eventsOf s).filter (inRange fromSeq toSeq)).length + 1, fun fuel hfuel =>
    ⟨_, ?_, rfl, (sorted_of_gapless hg).sublist List.filter_sublist⟩⟩
  rw [show "" = tokenOf none from rfl, getEvents_eq_follow hg hlast hx fuel (by simp [Fits])]
  exact Paging.follow_eq (limitOf_pos pageSize) rfl (fetch_resumes hg) hfuel

/-- A session with three events. -/
def threeEvents : Db where
  sessions := [{ id := "session", tenantID := "tenant", lastSeq := 3 }]
  events := [⟨"session", 1, actorSystem, .annotationEvent "a"⟩,
    ⟨"session", 2, actorSystem, .annotationEvent "b"⟩,
    ⟨"session", 3, actorSystem, .annotationEvent "c"⟩]

theorem threeEvents_gapless : threeEvents.Gapless := by
  intro s
  by_cases h : "session" = s
  · subst h
    decide
  · simp [threeEvents, Db.seqs, Db.eventsOf, Db.lastSeq, Db.session?, Txn.Table.lookup, h]

/-- Two pages of one event each. -/
theorem get_events_exact_three :
    ∃ n, ∀ fuel ≥ n, ∃ events,
      getEvents threeEvents "tenant" "session" (-1) 2 1 fuel "" = some (.ok events) ∧
      events.map Event.seq = [1, 2] := by
  obtain ⟨n, hn⟩ := get_events_exact threeEvents_gapless
    (show Clock.InRange (threeEvents.lastSeq "session") from ⟨by decide, by decide⟩)
    (show threeEvents.ownSession "tenant" "session" = some _ from rfl) (-1) 2 1
  refine ⟨n, fun fuel hfuel => ?_⟩
  obtain ⟨events, heq, hevents, -⟩ := hn fuel hfuel
  exact ⟨events, heq, by rw [hevents]; decide⟩

end Ultracore.Events
