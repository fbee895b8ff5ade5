-- SUMMARY: Signed control requests: what a signature covers, and which requests it is accepted for.
import Mathlib.Data.Option.Basic
import Ultracore.Clock.Instant
import Ultracore.Text.Basic
import Ultracore.Text.Codec
import Ultracore.Text.Hex
import Ultracore.Text.Split

/-!
# Signed control requests

`Sign` and `VerifySignature`, file `provider/tunnel/protocol.go`. The signature is a code over the
path, the time and the body with a zero byte between them. The body may contain zero bytes; the
path of a request and the digits of the time do not.
-/

namespace Ultracore.Tunnel

open Clock

open Text (Bytes)

/-- HMAC-SHA256, with the key first. It is taken to tell all messages apart. -/
structure Hmac where
  sum : Bytes → Bytes → Bytes
  injective : ∀ key, Function.Injective (sum key)
  ne_nil : ∀ key message, sum key message ≠ []

/-- `strconv.FormatInt` as bytes. -/
def formatInt (n : Int) : Bytes := Text.ascii (Text.writeInt n)

/-- What is signed. -/
def message (path : Bytes) (timestamp : Instant) (body : Bytes) : Bytes :=
  path ++ 0 :: (formatInt timestamp.unix ++ 0 :: body)

def sign (mac : Hmac) (secret path : Bytes) (timestamp : Instant) (body : Bytes) : String :=
  String.ofList (Text.hexEncode (mac.sum secret (message path timestamp body)))

/-- The time in a header: seconds of the epoch with space around them. -/
def headerTime (timestampHeader : String) : Option Int :=
  (Text.parseInt (Text.trimSpace timestampHeader)).toOption

/-- Five minutes. -/
def signatureWindow : Int := 300000000000

def verifySignature (mac : Hmac) (secret path : Bytes) (timestampHeader signatureHeader : String)
    (body : Bytes) (now : Instant) : Except String Unit :=
  if signatureHeader = "" then .error "tunnel: request is not signed"
  else
    match headerTime timestampHeader with
    | none => .error "tunnel: request timestamp is not a unix time"
    | some seconds =>
      let sent := Instant.ofUnix seconds
      if signatureWindow < now.sub sent ∨ signatureWindow < sent.sub now then
        .error "tunnel: request timestamp is outside the 5m0s window"
      else if sign mac secret path sent body ≠ signatureHeader then
        .error "tunnel: signature does not match"
      else .ok ()

/-! ## What a signature covers -/

/-- A header has a number of 64 bits. -/
theorem headerTime_inRange {header : String} {n : Int} (h : headerTime header = some n) :
    InRange n := by
  unfold headerTime at h
  cases hparsed : Text.parseInt (Text.trimSpace header) with
  | error => simp [hparsed, Except.toOption] at h
  | ok m =>
    obtain rfl : m = n := by simpa [hparsed, Except.toOption] using h
    exact Text.parseInt_range hparsed

/-- The characters of a number are digits and a minus sign. -/
theorem writeInt_range {n : Int} {c : Char} (h : c ∈ Text.writeInt n) :
    45 ≤ c.toNat ∧ c.toNat ≤ 57 := by
  have hdigit {m : Nat} (hc : c ∈ Nat.toDigits 10 m) : 45 ≤ c.toNat ∧ c.toNat ≤ 57 := by
    have hrange := Char.isDigit_iff_toNat.mp (Text.isDigit_toDigits c hc)
    simp only [Char.reduceToNat] at hrange
    omega
  cases n with
  | ofNat => exact hdigit h
  | negSucc =>
    rcases List.mem_cons.mp h with rfl | h
    · decide
    · exact hdigit h

theorem toNat_byte {c : Char} (h : c.toNat ≤ 57) : (UInt8.ofNat c.toNat).toNat = c.toNat := by
  rw [UInt8.toNat_ofNat']
  omega

/-- The bytes of a number are its characters. -/
theorem formatInt_injective : Function.Injective formatInt := by
  have hback (n : Int) : (formatInt n).map (fun b => Char.ofNat b.toNat) = Text.writeInt n := by
    rw [formatInt, Text.ascii, List.map_map]
    refine (List.map_congr_left fun c hc => ?_).trans (List.map_id _)
    rw [Function.comp_apply, toNat_byte (writeInt_range hc).2, Char.ofNat_toNat, id]
  intro m n h
  refine Text.Codec.int.write_injective ?_
  exact (hback m).symm.trans ((congrArg _ h).trans (hback n))

theorem zero_not_mem_formatInt (n : Int) : (0 : UInt8) ∉ formatInt n := by
  intro h
  obtain ⟨c, hc, hzero⟩ := List.mem_map.mp h
  have hrange := writeInt_range hc
  have hnat := congrArg UInt8.toNat hzero
  rw [toNat_byte hrange.2, UInt8.toNat_zero] at hnat
  omega

/-- Path, time and body can be told from the signature. -/
theorem sign_injective {mac : Hmac} {secret path path' body body' : Bytes} {t t' : Instant}
    (hpath : 0 ∉ path) (hpath' : 0 ∉ path')
    (h : sign mac secret path t body = sign mac secret path' t' body') :
    path = path' ∧ t.unix = t'.unix ∧ body = body' := by
  have hmessage : message path t body = message path' t' body' :=
    mac.injective secret (Text.hexEncode_injective (String.ofList_injective h))
  obtain ⟨rfl, hrest⟩ := Text.append_cons_inj hpath hpath' hmessage
  obtain ⟨htime, rfl⟩ := Text.append_cons_inj (zero_not_mem_formatInt _)
    (zero_not_mem_formatInt _) hrest
  exact ⟨rfl, formatInt_injective htime, rfl⟩

/-! ## What is accepted -/

/-- Two times are at most five minutes apart. -/
def Near (t u : Instant) : Prop :=
  t.unixNanos - u.unixNanos ≤ signatureWindow ∧ u.unixNanos - t.unixNanos ≤ signatureWindow

instance (t u : Instant) : Decidable (Near t u) := inferInstanceAs (Decidable (_ ∧ _))

theorem window_lt_sub {t u : Instant} :
    signatureWindow < t.sub u ↔ signatureWindow < t.unixNanos - u.unixNanos := by
  rw [Instant.sub_eq]
  simp only [signatureWindow, Instant.unixNanos, minInt, maxInt]
  omega

theorem sign_ne_empty {mac : Hmac} {secret path body : Bytes} {t : Instant} :
    sign mac secret path t body ≠ "" := by
  intro h
  have hnil : Text.hexEncode (mac.sum secret (message path t body)) = [] :=
    String.ofList_injective h
  exact Text.hexEncode_ne_nil (mac.ne_nil _ _) hnil

theorem verifySignature_iff {mac : Hmac} {secret path body : Bytes} {header signature : String}
    {now : Instant} : verifySignature mac secret path header signature body now = .ok () ↔
      ∃ seconds, headerTime header = some seconds ∧ Near now (.ofUnix seconds) ∧
        signature = sign mac secret path (.ofUnix seconds) body := by
  unfold verifySignature
  by_cases hsigned : signature = ""
  · rw [if_pos hsigned]
    refine ⟨fun h => (by cases h), ?_⟩
    rintro ⟨seconds, -, -, rfl⟩
    exact absurd hsigned sign_ne_empty
  · rw [if_neg hsigned]
    cases htime : headerTime header with
    | none => simp
    | some seconds =>
      simp only [Option.some.injEq, exists_eq_left']
      have hnear : (signatureWindow < now.sub (.ofUnix seconds) ∨
          signatureWindow < (Instant.ofUnix seconds).sub now) ↔ ¬Near now (.ofUnix seconds) := by
        rw [window_lt_sub, window_lt_sub, Near]
        omega
      by_cases hwindow : Near now (.ofUnix seconds)
      · rw [if_neg (by rw [hnear]; exact not_not_intro hwindow)]
        by_cases hsign : sign mac secret path (.ofUnix seconds) body = signature
        · simp [hwindow, hsign]
        · simp [hwindow, hsign, Ne.symm hsign]
      · rw [if_pos (hnear.mpr hwindow)]
        simp [hwindow]

/-- A request is accepted if and only if its header has a time of at most five minutes from the
    clock in either direction, and its signature is that of its path, time and body. A signature
    for one path, time and body is accepted for no other. -/
theorem signature_authorizes_one_request (mac : Hmac) (secret path body : Bytes)
    (header signature : String) (now : Instant) :
    (verifySignature mac secret path header signature body now = .ok () ↔
      ∃ seconds, headerTime header = some seconds ∧ Near now (.ofUnix seconds) ∧
        signature = sign mac secret path (.ofUnix seconds) body) ∧
    ∀ path' body' t, (0 : UInt8) ∉ path → (0 : UInt8) ∉ path' →
      signature = sign mac secret path' t body' →
      verifySignature mac secret path header signature body now = .ok () →
      path = path' ∧ headerTime header = some t.unix ∧ body = body' := by
  refine ⟨verifySignature_iff, ?_⟩
  intro path' body' t hpath hpath' hsign hok
  obtain ⟨seconds, htime, -, hmatch⟩ := verifySignature_iff.mp hok
  obtain ⟨hp, hunix, hb⟩ := sign_injective hpath hpath' (hmatch.symm.trans hsign)
  rw [Instant.unix_ofUnix (headerTime_inRange htime)] at hunix
  exact ⟨hp, by rw [htime, hunix], hb⟩

/-- A code that is the message behind the key. -/
def Hmac.plain : Hmac where
  sum key message := 1 :: (key ++ message)
  injective _ _ _ h := List.append_cancel_left (List.cons.inj h).2
  ne_nil _ _ := List.cons_ne_nil _ _

/-- A request that is signed at the time of the clock is accepted, and its signature is accepted
    for no other body. -/
theorem signature_authorizes_one_request_now :
    let signature := sign .plain [7] [47] (.ofUnix 5) [0]
    verifySignature .plain [7] [47] " 5" signature [0] (.ofUnix 5) = .ok () ∧
      ∀ body, verifySignature .plain [7] [47] " 5" signature body (.ofUnix 5) = .ok () →
        body = [0] := by
  intro signature
  refine ⟨?_, fun body hok => ?_⟩
  · refine (signature_authorizes_one_request .plain [7] [47] [0] " 5" signature (.ofUnix 5)).1.mpr
      ⟨5, by decide, by decide, rfl⟩
  · exact ((signature_authorizes_one_request .plain [7] [47] body " 5" signature (.ofUnix 5)).2
      [47] [0] (.ofUnix 5) (by decide) (by decide) rfl hok).2.2

/-! ## The agent -/

structure Agent where
  token : String
  secret : Bytes
  revoked : Bool

/-- A control request. Its body is missing if it cannot be read. -/
structure ControlRequest where
  authorization : String
  path : Bytes
  timestamp : String
  signature : String
  body : Option Bytes

inductive Refusal where
  | unauthorized
  | unreadableBody
  | signatureRequired
  | leaseRevoked
deriving DecidableEq

/-- `/control/revoke` -/
def pathRevoke : Bytes := "/control/revoke".toList.map fun c => UInt8.ofNat c.toNat

/-- `strings.TrimPrefix(text, "Bearer ")` -/
def trimBearer (text : String) : String :=
  let bearer := "Bearer ".toList
  if bearer.isPrefixOf text.toList then String.ofList (text.toList.drop bearer.length) else text

def Agent.authorized (a : Agent) (r : ControlRequest) : Bool :=
  trimBearer r.authorization ≠ "" ∧ trimBearer r.authorization = a.token

/-- The body that a handler gets to see. -/
def Agent.guard (mac : Hmac) (a : Agent) (now : Instant) (r : ControlRequest) :
    Except Refusal Bytes :=
  if !a.authorized r then .error .unauthorized
  else
    match r.body with
    | none => .error .unreadableBody
    | some body =>
      match verifySignature mac a.secret r.path r.timestamp r.signature body now with
      | .error _ => .error .signatureRequired
      | .ok () =>
        if a.revoked ∧ r.path ≠ pathRevoke then .error .leaseRevoked else .ok body

/-- A handler sees only what was signed for its path, near the time of the clock. -/
theorem Agent.guard_ok {mac : Hmac} {a : Agent} {now : Instant} {r : ControlRequest} {body : Bytes}
    (h : a.guard mac now r = .ok body) : (a.revoked = true → r.path = pathRevoke) ∧
      ∃ seconds, headerTime r.timestamp = some seconds ∧ Near now (.ofUnix seconds) ∧
        r.signature = sign mac a.secret r.path (.ofUnix seconds) body := by
  unfold guard at h
  split at h
  · cases h
  split at h
  · cases h
  split at h
  · cases h
  next hok =>
    split at h
    · cases h
    next hlive =>
      cases h
      exact ⟨fun hrev => of_not_not fun hne => hlive ⟨hrev, hne⟩, verifySignature_iff.mp hok⟩

/-! ## The lease -/

/-- What the platform signs or a handler of the agent sees, and when. -/
structure Call where
  path : Bytes
  time : Instant
  body : Bytes

/-- What the platform has signed for an agent, what has passed the agent's guard, and what of that
    since the lease was withdrawn. -/
structure Lease where
  signed : List Call := []
  passed : List Call := []
  late : Option (List Call) := none

/-- Anybody sends requests, any number of times, but nobody else has the secret. The handler
    withdraws the lease some time after its request has passed. The paths that are served have no
    zero byte. -/
inductive Lease.Reached (mac : Hmac) (a : Agent) : Lease → Prop where
  | start : Reached mac a {}
  | call {l : Lease} {c : Call} : Reached mac a l → 0 ∉ c.path →
      Reached mac a { l with signed := c :: l.signed }
  | pass {l : Lease} {now : Instant} {r : ControlRequest} {body : Bytes} : Reached mac a l →
      { a with revoked := l.late.isSome }.guard mac now r = .ok body → 0 ∉ r.path →
      (∀ path t body, r.signature = sign mac a.secret path t body →
        ∃ c ∈ l.signed, r.signature = sign mac a.secret c.path c.time c.body) →
      Reached mac a { l with
        passed := ⟨r.path, now, body⟩ :: l.passed
        late := l.late.map (⟨r.path, now, body⟩ :: ·) }
  | revoke {l : Lease} : Reached mac a l → (∃ p ∈ l.passed, p.path = pathRevoke) →
      Reached mac a { l with late := some (l.late.getD []) }

namespace Lease

variable {mac : Hmac} {a : Agent} {l : Lease}

theorem Reached.path_clean (h : Reached mac a l) : ∀ c ∈ l.signed, 0 ∉ c.path := by
  induction h with
  | start => simp
  | call _ hpath ih => exact List.forall_mem_cons.mpr ⟨hpath, ih⟩
  | pass _ _ _ _ ih | revoke _ _ ih => exact ih

/-- Whatever is sent, also captured and repeated: what passes the guard was signed by the platform
    for the same path, at a time of at most five minutes away. The lease is withdrawn only if the
    platform asked for it, and then nothing passes but further requests to do so. -/
theorem only_platform_drives_agent (h : Reached mac a l) :
    (∀ p ∈ l.passed, ∃ c ∈ l.signed, c.path = p.path ∧ c.body = p.body ∧
      Near p.time (.ofUnix c.time.unix)) ∧
    ∀ late ∈ l.late, (∃ c ∈ l.signed, c.path = pathRevoke) ∧ ∀ p ∈ late, p.path = pathRevoke := by
  induction h with
  | start => simp
  | call _ _ ih =>
    refine ⟨fun p hp => ?_, fun late hlate => ?_⟩
    · obtain ⟨c, hc, hsame⟩ := ih.1 p hp
      exact ⟨c, .tail _ hc, hsame⟩
    · obtain ⟨⟨c, hc, hpath⟩, hall⟩ := ih.2 late hlate
      exact ⟨⟨c, .tail _ hc, hpath⟩, hall⟩
  | pass hl hguard hpath hmade ih =>
    obtain ⟨hrevoked, seconds, htime, hnear, hsign⟩ := Agent.guard_ok hguard
    -- the signature is one of the platform's, and covers the path, the time and the body
    obtain ⟨c, hc, hsigned⟩ := hmade _ _ _ hsign
    obtain ⟨hp, hunix, hbody⟩ := sign_injective hpath (hl.path_clean c hc) (hsign.symm.trans hsigned)
    rw [Instant.unix_ofUnix (headerTime_inRange htime)] at hunix
    refine ⟨List.forall_mem_cons.mpr ⟨⟨c, hc, hp.symm, hbody.symm, hunix ▸ hnear⟩, ih.1⟩, ?_⟩
    rintro _ hlate
    obtain ⟨late, hold, rfl⟩ := Option.mem_map.mp hlate
    obtain ⟨hasked, hall⟩ := ih.2 late hold
    exact ⟨hasked, List.forall_mem_cons.mpr ⟨hrevoked (Option.isSome_of_mem hold), hall⟩⟩
  | @revoke l _ hasked ih =>
    refine ⟨ih.1, ?_⟩
    rintro _ ⟨⟩
    obtain ⟨p, hp, hrevoke⟩ := hasked
    obtain ⟨c, hc, hpath, -⟩ := ih.1 p hp
    refine ⟨⟨c, hc, hpath.trans hrevoke⟩, ?_⟩
    cases hlate : l.late with
    | none => simp
    | some late => exact (ih.2 late hlate).2

/-- A request to withdraw the lease is signed, passes and is carried out. -/
theorem only_platform_drives_agent_revoked :
    ∃ l, Reached .plain ⟨"t", [7], false⟩ l ∧ l.late = some [] ∧
      ∃ c ∈ l.signed, c.path = pathRevoke := by
  let c : Call := ⟨pathRevoke, .ofUnix 5, []⟩
  let r : ControlRequest := ⟨"Bearer t", c.path, "5", sign .plain [7] c.path c.time c.body, some []⟩
  have hverify : verifySignature .plain [7] c.path "5" r.signature [] c.time = .ok () :=
    verifySignature_iff.mpr ⟨5, by decide, by decide, rfl⟩
  have hguard : Agent.guard .plain ⟨"t", [7], false⟩ c.time r = .ok [] := by
    rw [Agent.guard, if_neg (by decide)]
    simp only [r, hverify]
    rfl
  have hrun : Reached .plain ⟨"t", [7], false⟩ ⟨[c], [c], some []⟩ :=
    .revoke (@Reached.pass _ _ ⟨[c], [], none⟩ _ r _ (.call .start (by decide)) hguard (by decide)
      fun _ _ _ _ => ⟨c, .head _, rfl⟩) ⟨c, .head _, rfl⟩
  exact ⟨_, hrun, rfl, ((only_platform_drives_agent hrun).2 _ rfl).1⟩

end Lease

end Ultracore.Tunnel
