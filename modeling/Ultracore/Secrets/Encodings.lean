-- SUMMARY: The forms in which a secret can appear: literal, URL escaped, base64 and JSON escaped.
import Ultracore.Text.Base64
import Ultracore.Text.Basic

/-!
# Encodings

Function `encodings` of `redact.go`, with the encoders of the standard library that it calls.
Texts are sequences of bytes, and need not be valid UTF-8.
-/

namespace Ultracore.Secrets

open Text (Bytes)

/-- The bytes of an ASCII text. -/
def ascii (s : String) : Bytes := Text.ascii s.toList

def lowerHex (n : Nat) : UInt8 := (ascii "0123456789abcdef").getD n 0

def upperHex (n : Nat) : UInt8 := (ascii "0123456789ABCDEF").getD n 0

/-! ## URLs -/

/-- Letters, digits and the four marks that no encoding of `net/url` escapes. -/
def unreserved (b : UInt8) : Bool :=
  (97 ≤ b && b ≤ 122) || (65 ≤ b && b ≤ 90) || (48 ≤ b && b ≤ 57) || (ascii "-_.~").contains b

def percent (b : UInt8) : Bytes := [37, upperHex (b.toNat / 16), upperHex (b.toNat % 16)]

/-- `url.QueryEscape`: a blank becomes `+`. -/
def queryEscape (s : Bytes) : Bytes :=
  s.flatMap fun b => if b = 32 then [43] else if unreserved b then [b] else percent b

/-- `url.PathEscape`: some reserved characters stay. -/
def pathEscape (s : Bytes) : Bytes :=
  s.flatMap fun b => if unreserved b || (ascii "$&+:=@").contains b then [b] else percent b

/-! ## Base64 -/

/-- `base64.RawURLEncoding.EncodeToString` -/
def rawURLEncoding (s : Bytes) : Bytes := Text.ascii (Text.Base64.encode s)

/-- The mark of the standard alphabet for one of the URL alphabet. -/
def standard (c : Char) : Char := if c = '-' then '+' else if c = '_' then '/' else c

/-- `base64.StdEncoding.EncodeToString`: the standard alphabet, and four digits for every three
    bytes begun. -/
def stdEncoding (s : Bytes) : Bytes :=
  let digits := (Text.Base64.encode s).map standard
  Text.ascii (digits ++ List.replicate ((4 - digits.length % 4) % 4) '=')

/-! ## JSON -/

/-- A byte that continues a rune. -/
def continues (b : UInt8) : Bool := 0x80 ≤ b && b ≤ 0xBF

/-- What the second byte of a rune may be, given the first. -/
def continuesAfter (first b : UInt8) : Bool :=
  if first = 0xE0 then 0xA0 ≤ b && b ≤ 0xBF
  else if first = 0xED then 0x80 ≤ b && b ≤ 0x9F
  else if first = 0xF0 then 0x90 ≤ b && b ≤ 0xBF
  else if first = 0xF4 then 0x80 ≤ b && b ≤ 0x8F
  else continues b

/-- `utf8.DecodeRune` of a text that does not start with an ASCII byte: the rune and its length;
    `none` where the first byte starts no rune. -/
def decodeRune : Bytes → Option (Nat × Nat)
  | a :: b :: s =>
    if !continuesAfter a b then none
    else if 0xC2 ≤ a ∧ a ≤ 0xDF then some (a.toNat % 32 * 64 + b.toNat % 64, 2)
    else
      match s with
      | c :: s =>
        if !continues c then none
        else if 0xE0 ≤ a ∧ a ≤ 0xEF then
          some (a.toNat % 16 * 4096 + b.toNat % 64 * 64 + c.toNat % 64, 3)
        else
          match s with
          | d :: _ =>
            if continues d ∧ 0xF0 ≤ a ∧ a ≤ 0xF4 then
              some (a.toNat % 8 * 262144 + b.toNat % 64 * 4096 + c.toNat % 64 * 64 +
                d.toNat % 64, 4)
            else none
          | [] => none
      | [] => none
  | _ => none

/-- One ASCII byte of a JSON string. The characters special to HTML are escaped too. -/
def jsonByte (b : UInt8) : Bytes :=
  if b = 34 ∨ b = 92 then [92, b]
  else if b = 8 then ascii "\\b"
  else if b = 12 then ascii "\\f"
  else if b = 10 then ascii "\\n"
  else if b = 13 then ascii "\\r"
  else if b = 9 then ascii "\\t"
  else if b < 32 ∨ b = 60 ∨ b = 62 ∨ b = 38 then
    ascii "\\u00" ++ [lowerHex (b.toNat / 16), lowerHex (b.toNat % 16)]
  else [b]

/-- From here on, where the first `skip` bytes belong to a rune already written. Invalid bytes
    become U+FFFD, and the two line separators of JavaScript are escaped. -/
def jsonFrom : (skip : Nat) → Bytes → Bytes
  | _, [] => []
  | skip + 1, _ :: s => jsonFrom skip s
  | 0, b :: s =>
    if b < 0x80 then jsonByte b ++ jsonFrom 0 s
    else
      match decodeRune (b :: s) with
      | none => ascii "\\ufffd" ++ jsonFrom 0 s
      | some (c, size) =>
        (if c = 0x2028 ∨ c = 0x2029 then ascii "\\u202" ++ [lowerHex (c % 16)]
          else (b :: s).take size) ++ jsonFrom (size - 1) s

/-- `json.Marshal` of a string, without the quotes around it. -/
def jsonForm (s : Bytes) : Bytes := jsonFrom 0 s

/-! ## All forms -/

def encodings (value : Bytes) : List Bytes :=
  [value, queryEscape value, pathEscape value, stdEncoding value,
    rawURLEncoding value, jsonForm value]

theorem mem_encodings (value : Bytes) : value ∈ encodings value := by simp [encodings]

example : encodings (ascii "a+b/c?\n") =
    [ascii "a+b/c?\n", ascii "a%2Bb%2Fc%3F%0A", ascii "a+b%2Fc%3F%0A", ascii "YStiL2M/Cg==",
      ascii "YStiL2M_Cg", ascii "a+b/c?\\n"] := by decide +kernel

example : jsonForm ([0xE2, 0x80, 0xA8, 0xC3, 0xA9, 0xFF] ++ ascii "<") =
    ascii "\\u2028" ++ [0xC3, 0xA9] ++ ascii "\\ufffd\\u003c" := by decide +kernel

end Ultracore.Secrets
