-- SUMMARY: Signed cursors of admin searches: their JSON text, signing and verification.
import Ultracore.Admin.Commands
import Ultracore.Query.Descriptors
import Ultracore.Text.Base64
import Ultracore.Text.Rfc3339

/-!
# Cursors

File `admin/query/cursor.go`, and the fingerprint of a search from `admin/query/compile.go`. A
cursor is a JSON text behind its signature. The readers here take what the writers produce: no
other text comes with a valid signature.
-/

namespace Ultracore.Query

open Text

abbrev Bytes := List UInt8

/-- What searches take from Go's libraries. Times are read to the microsecond, which is what the
    database keeps of them. -/
structure Lib where
  /-- The verb `%q`. -/
  quote : String → String
  /-- HMAC-SHA256 of a body under a secret. -/
  hmac : Bytes → Bytes → Bytes
  hmac_length : ∀ secret body, (hmac secret body).length = 32
  /-- The first half of SHA-256, in hexadecimal. -/
  digest : Bytes → String
  /-- `time.Parse` with the layout `time.RFC3339Nano`, in UTC. -/
  parseNano : String → Except String Text.Time
  /-- `time.Parse` with the layout `time.RFC3339`, in UTC. -/
  parseSeconds : String → Except String Text.Time

/-- The numbers of a text's characters. -/
def codes (text : String) : List Nat := text.toList.map Char.toNat

theorem codes_injective : Function.Injective codes := by
  intro a b h
  exact String.toList_inj.mp (List.map_injective_iff.mpr (fun _ _ => Char.toNat_inj.mp) h)

/-- Libraries that meet these laws, with no secrets. -/
def Lib.simple : Lib where
  quote s := "\"" ++ s ++ "\""
  hmac _ _ := List.replicate 32 0
  hmac_length _ _ := List.length_replicate
  digest bytes := String.ofList (Base64.encode bytes)
  parseNano text := match Text.Time.parse text with
    | some t => .ok t
    | none => .error "no time"
  parseSeconds _ := .error "no time"

theorem Lib.simple_digest : Function.Injective Lib.simple.digest := by
  intro a b h
  have henc := congrArg String.toList h
  simp only [Lib.simple, String.toList_ofList] at henc
  have hdec := Base64.decode_encode a
  rw [henc, Base64.decode_encode] at hdec
  exact (Option.some.inj hdec).symm

/-! ## Errors -/

inductive ErrKind where
  | invalidLimit
  | invalidField
  | invalidOp
  | invalidSort
  | tooManyFilters
  | tooManySorts
  | queryTooLong
  | badCursor
  | cursorMismatch
  | unknownCollection
  | badValue
deriving DecidableEq

/-- A `ValidationError`, or any other error by its text. -/
inductive Err where
  | invalid (kind : ErrKind) (msg : String)
  | plain (msg : String)
deriving DecidableEq

/-! ## JSON -/

/-- A lower-case hexadecimal digit. -/
def unhex (c : Char) : Option Nat :=
  if c.isDigit then some (c.toNat - 48)
  else if 97 ≤ c.toNat ∧ c.toNat ≤ 102 then some (c.toNat - 87)
  else none

theorem unhex_digitChar {n : Nat} (h : n < 16) : unhex n.digitChar = some n := by
  have hall : ∀ n : Fin 16, unhex n.val.digitChar = some n.val := by decide
  exact hall ⟨n, h⟩

/-- A character behind a backslash. -/
def readEscape : List Char → Option (Char × List Char)
  | '"' :: rest => some ('"', rest)
  | '\\' :: rest => some ('\\', rest)
  | 'n' :: rest => some ('\n', rest)
  | 'r' :: rest => some ('\r', rest)
  | 't' :: rest => some ('\t', rest)
  | 'b' :: rest => some (Char.ofNat 0x08, rest)
  | 'f' :: rest => some (Char.ofNat 0x0c, rest)
  | 'u' :: w :: x :: y :: z :: rest => do
      let n := (← unhex w) * 4096 + (← unhex x) * 256 + (← unhex y) * 16 + (← unhex z)
      return (Char.ofNat n, rest)
  | _ => none

def readChar : List Char → Option (Char × List Char)
  | '\\' :: input => readEscape input
  | c :: input => some (c, input)
  | [] => none

theorem readEscape_hex4 {c : Char} (hc : c.toNat < 65536) (rest : List Char) :
    readEscape ('u' :: (Admin.hex4 c.toNat ++ rest)) = some (c, rest) := by
  have hlt : ∀ n, n % 16 < 16 := fun n => Nat.mod_lt n (by decide)
  have hsum : c.toNat / 4096 % 16 * 4096 + c.toNat / 256 % 16 * 256 + c.toNat / 16 % 16 * 16 +
      c.toNat % 16 = c.toNat := by omega
  simp [readEscape, Admin.hex4, unhex_digitChar (hlt _), hsum, Char.ofNat_toNat]

/-- Every character is read back, and none is written with a quote in front. -/
theorem readChar_marshalChar (c : Char) (rest : List Char) :
    readChar (Admin.marshalChar c ++ rest) = some (c, rest) := by
  have hcode : ∀ n, c.toNat = n → c = Char.ofNat n := fun n h => by rw [← h, Char.ofNat_toNat]
  unfold Admin.marshalChar
  split_ifs with h1 h2 h3 h4 h5 h6 h7 h8
  · rw [h1]; rfl
  · rw [h2]; rfl
  · rw [h3]; rfl
  · rw [h4]; rfl
  · rw [h5]; rfl
  · rw [hcode _ h6]; rfl
  · rw [hcode _ h7]; rfl
  · have hsmall : c.toNat < 65536 := by
      rcases h8 with h | rfl | rfl | rfl | h | h
      · omega
      · decide
      · decide
      · decide
      · omega
      · omega
    exact readEscape_hex4 hsmall rest
  · simp only [List.cons_append, List.nil_append]
    unfold readChar
    split
    · next heq => exact absurd (List.cons.inj heq).1 h2
    · next heq => rw [(List.cons.inj heq).1, (List.cons.inj heq).2]
    · next heq => exact absurd heq (List.cons_ne_nil _ _)

theorem marshalChar_head (c : Char) : ∃ d s, Admin.marshalChar c = d :: s ∧ d ≠ '"' := by
  unfold Admin.marshalChar
  split_ifs with h1
  on_goal 9 => exact ⟨c, [], rfl, h1⟩
  all_goals exact ⟨_, _, rfl, by decide⟩

/-- The characters of a JSON string, up to the quote that ends it. -/
def readString : List Char → Option (List Char × List Char)
  | '"' :: input => readAll readChar '"' (input.length + 1) input
  | _ => none

theorem readString_marshalString (s : String) (rest : List Char) :
    readString ((Admin.marshalString s).toList ++ rest) = some (s.toList, rest) := by
  have hroom : s.toList.length ≤ (s.toList.flatMap Admin.marshalChar).length :=
    length_le_flatMap s.toList fun c => by
      obtain ⟨d, t, h, -⟩ := marshalChar_head c
      rw [h]
      exact List.cons_ne_nil _ _
  simp only [Admin.marshalString, String.toList_ofList, List.cons_append, List.append_assoc,
    List.nil_append, readString]
  refine readAll_write s.toList rest _ (by simp only [List.length_append]; omega) (fun c l => ?_)
    marshalChar_head
  exact readChar_marshalChar c _

namespace Json

def string : Codec String where
  write s := (Admin.marshalString s).toList
  read input := (readString input).map fun (s, rest) => (String.ofList s, rest)
  read_write s rest _ := by simp [readString_marshalString, String.ofList_toList]

theorem string_head (s : String) : ∃ t, string.write s = '"' :: t :=
  ⟨_, by simp only [string, Admin.marshalString, String.toList_ofList]; rfl⟩

/-- A slice: a list, or `null` where there is none. -/
def slice {α : Type} (c : Codec α) (hopen : ∀ a, ∃ d s, c.write a = d :: s ∧ d ≠ ']') :
    Codec (Slice α) :=
  (c.list hopen).orElse 'n' ['u', 'l', 'l'] fun l => by
    cases l with
    | nil | cons => exact ⟨_, _, rfl, by decide⟩

/-- A member of an object behind another one. -/
theorem ends_member {text : String} (h : text.toList.head?.map Char.isDigit = some false)
    {α : Type} (c : Codec α) (a : α) (rest : List Char) :
    Ends (text.toList ++ (c.write a ++ rest)) :=
  ends_append h _

/-- An object, by the text of its members: the first key is in the text that opens it. -/
def object {α : Type} (left : String) (c : Codec α) : Codec α :=
  c.wrap ("\x7b" ++ left).toList "\x7d".toList (ends_append (by decide))

theorem object_head {α : Type} (left : String) (c : Codec α) (a : α) :
    ∃ s, (object left c).write a = '\x7b' :: s := by
  simp only [object, Codec.wrap, String.toList_append]
  exact ⟨_, rfl⟩

def strings : Codec (Slice String) :=
  slice string fun s => by
    obtain ⟨t, h⟩ := string_head s
    exact ⟨_, t, h, by decide⟩

def op : Codec Op :=
  string.restrict
    (fun text => [Op.eq, .ne, .lt, .lte, .gt, .gte, .oneOf, .notIn, .contains, .startsWith,
      .isNull, .isNotNull].find? (fun op => op.text = text))
    Op.text fun op => by cases op <;> decide

def filter : Codec Filter :=
  (object "\"Field\":"
    (string.pair ",\"Op\":".toList
      (op.pair ",\"Value\":".toList
        (string.pair ",\"Values\":".toList strings (ends_member (by decide) _))
        (ends_member (by decide) _))
      (ends_member (by decide) _))).map
    (fun (field, op, value, values) => ⟨field, op, value, values⟩)
    (fun f => (f.field, f.op, f.value, f.values)) fun _ => rfl

def sort : Codec SortKey :=
  (object "\"Field\":"
    (string.pair ",\"Descending\":".toList Codec.bool (ends_member (by decide) _))).map
    (fun (field, descending) => ⟨field, descending⟩)
    (fun s => (s.field, s.descending)) fun _ => rfl

end Json

/-! ## The fingerprint -/

/-- What the fingerprint covers: collection, trimmed search text, filters and sorts. -/
def fpCodec : Codec (String × String × Slice Filter × List SortKey) :=
  Json.object "\"c\":"
    (Json.string.pair ",\"q\":".toList
      (Json.string.pair ",\"f\":".toList
        ((Json.slice Json.filter fun f => by
            obtain ⟨s, h⟩ := Json.object_head _ _ (f.field, f.op, f.value, f.values)
            exact ⟨_, s, h, by decide⟩).pair ",\"s\":".toList
          (Json.sort.list fun k => by
            obtain ⟨s, h⟩ := Json.object_head _ _ (k.field, k.descending)
            exact ⟨_, s, h, by decide⟩)
          (Json.ends_member (by decide) _))
        (Json.ends_member (by decide) _))
      (Json.ends_member (by decide) _))

/-- The bytes of a text in UTF-8. -/
def utf8 (text : List Char) : Bytes := text.flatMap String.utf8EncodeChar

def ofUtf8 (bytes : Bytes) : Option (List Char) :=
  bytes.toByteArray.utf8Decode?.map Array.toList

theorem ofUtf8_utf8 (text : List Char) : ofUtf8 (utf8 text) = some text := by
  have h := @List.utf8Decode?_utf8Encode text
  rw [List.utf8Encode] at h
  simp [ofUtf8, utf8, h]

/-- `fingerprint`. There is always a sort. -/
def fingerprint (lib : Lib) (collection : String) (req : Request) (sorts : List SortKey) : String :=
  lib.digest (utf8 (fpCodec.write (collection, Text.trimSpace req.query, req.filters, sorts)))

theorem utf8_injective : Function.Injective utf8 := by
  intro a b h
  have ha := ofUtf8_utf8 a
  rw [h, ofUtf8_utf8] at ha
  exact (Option.some.inj ha).symm

section
variable {lib : Lib} {name name' : String} {req req' : Request} {sorts sorts' : List SortKey}

/-- Where digests do not collide, a fingerprint tells all that it covers. -/
theorem fingerprint_inj (hdigest : Function.Injective lib.digest)
    (h : fingerprint lib name req sorts = fingerprint lib name' req' sorts') :
    name = name' ∧ Text.trimSpace req.query = Text.trimSpace req'.query ∧
      req.filters = req'.filters ∧ sorts = sorts' := by
  have htext := fpCodec.write_injective (utf8_injective (hdigest h))
  simpa only [Prod.mk.injEq] using htext

end

/-! ## Signing -/

structure CursorPayload where
  v : Int
  collection : String
  fingerprint : String
  sortValues : Slice String
  exp : Int

def payloadCodec : Codec CursorPayload :=
  (Json.object "\"v\":"
    (Codec.int.pair ",\"c\":".toList
      (Json.string.pair ",\"fp\":".toList
        (Json.string.pair ",\"sv\":".toList
          (Json.strings.pair ",\"exp\":".toList Codec.int (Json.ends_member (by decide) _))
          (Json.ends_member (by decide) _))
        (Json.ends_member (by decide) _))
      (Json.ends_member (by decide) _))).map
    (fun (v, collection, fingerprint, sortValues, exp) =>
      ⟨v, collection, fingerprint, sortValues, exp⟩)
    (fun p => (p.v, p.collection, p.fingerprint, p.sortValues, p.exp)) fun _ => rfl

/-- `Signer`. A TTL, like every time here, is in nanoseconds. -/
structure Signer where
  secret : Bytes
  ttl : Int

def defaultCursorTTL : Int := 24 * 3600 * 1000000000

/-- `Time.Unix` -/
def unix (now : Int) : Int := now / 1000000000

/-- The method `ttl`. -/
def Signer.effectiveTTL (s : Signer) : Int := if s.ttl > 0 then s.ttl else defaultCursorTTL

/-- What `Sign` fills in. -/
def Signer.complete (s : Signer) (now : Int) (p : CursorPayload) : CursorPayload :=
  { p with
    v := 1
    exp := if p.exp = 0 then unix (now + s.effectiveTTL) else p.exp }

def errNoSecret : Err := .plain "query: cursor signer secret required"

def Signer.sign (lib : Lib) (s : Signer) (now : Int) (p : CursorPayload) : Except Err String :=
  if s.secret = [] then .error errNoSecret
  else
    let raw := utf8 (payloadCodec.write (s.complete now p))
    .ok (String.ofList (Base64.encode (lib.hmac s.secret raw ++ raw)))

def badCursor (msg : String) : Err := .invalid .badCursor msg

def Signer.verify (lib : Lib) (s : Signer) (now : Int) (token : String) :
    Except Err CursorPayload :=
  if s.secret = [] then .error errNoSecret
  else
    match Base64.decode token.toList with
    | none => .error (badCursor "malformed cursor")
    | some raw =>
      if raw.length ≤ 32 then .error (badCursor "malformed cursor")
      else if raw.take 32 ≠ lib.hmac s.secret (raw.drop 32) then
        .error (badCursor "cursor signature invalid")
      else
        match (ofUtf8 (raw.drop 32)).bind payloadCodec.parse with
        | none => .error (badCursor "cursor payload invalid")
        | some p =>
          if p.v ≠ 1 then .error (badCursor "unsupported cursor version")
          else if p.exp > 0 ∧ unix now > p.exp then .error (badCursor "cursor expired")
          else .ok p

section
variable {lib : Lib} {s : Signer} {now now' : Int} {p : CursorPayload} {token : String}

theorem payload_ne_nil (p : CursorPayload) : 0 < (utf8 (payloadCodec.write p)).length := by
  obtain ⟨t, ht⟩ := Json.object_head _ _ (p.v, p.collection, p.fingerprint, p.sortValues, p.exp)
  have hne : utf8 (payloadCodec.write p) ≠ [] := by
    intro hnil
    have htext : payloadCodec.write p = [] := utf8_injective hnil
    exact absurd (ht.symm.trans htext) (List.cons_ne_nil _ _)
  exact List.length_pos_iff.mpr hne

/-- A token is never empty. -/
theorem sign_ne_empty (h : s.sign lib now p = .ok token) : token ≠ "" := by
  unfold Signer.sign at h
  split_ifs at h
  rintro rfl
  have hlen := congrArg String.toList (Except.ok.inj h)
  rw [String.toList_ofList] at hlen
  have hdecode := Base64.decode_encode
    (lib.hmac s.secret (utf8 (payloadCodec.write (s.complete now p))) ++
      utf8 (payloadCodec.write (s.complete now p)))
  rw [hlen] at hdecode
  have hbytes := congrArg List.length (Option.some.inj hdecode)
  have := payload_ne_nil (s.complete now p)
  simp only [List.length_nil, List.length_append] at hbytes
  omega

/-- A token is read back as it was signed, until it expires. -/
theorem verify_sign (h : s.sign lib now p = .ok token) : s.verify lib now' token =
      if (s.complete now p).exp > 0 ∧ unix now' > (s.complete now p).exp then
        .error (badCursor "cursor expired")
      else .ok (s.complete now p) := by
  unfold Signer.sign at h
  split_ifs at h with hsecret
  cases h
  have hpos := payload_ne_nil (s.complete now p)
  have hmac := lib.hmac_length s.secret (utf8 (payloadCodec.write (s.complete now p)))
  have hv : (s.complete now p).v = 1 := rfl
  simp only [Signer.verify, if_neg hsecret, String.toList_ofList, Base64.decode_encode,
    List.length_append, hmac, List.take_left' hmac, List.drop_left' hmac]
  rw [if_neg (by omega), if_neg (by simp)]
  simp [ofUtf8_utf8, Codec.parse_write, hv]

theorem verify_sign_live (h : s.sign lib now p = .ok token)
    (hlive : unix now' ≤ (s.complete now p).exp) :
    s.verify lib now' token = .ok (s.complete now p) := by
  rw [verify_sign h, if_neg (by omega)]

theorem eq_of_verify_sign {q : CursorPayload} (h : s.sign lib now p = .ok token)
    (hverify : s.verify lib now' token = .ok q) : q = s.complete now p := by
  rw [verify_sign h] at hverify
  split_ifs at hverify
  exact (Except.ok.inj hverify).symm

end

end Ultracore.Query
