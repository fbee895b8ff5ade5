-- SUMMARY: Bytes, white space and decimal numbers of 64 bits.
import Mathlib.Tactic.Common

/-!
# Texts

Functions of the packages `strings` and `strconv` of the Go library.
-/

namespace Text

abbrev Bytes := List UInt8

/-- The bytes of ASCII characters. -/
def ascii (cs : List Char) : Bytes := cs.map fun c => UInt8.ofNat c.toNat

/-! ## White space -/

/-- White space as `strings.TrimSpace` understands it. -/
def isSpace (c : Char) : Bool :=
  [0x09, 0x0a, 0x0b, 0x0c, 0x0d, 0x20, 0x85, 0xa0, 0x1680, 0x2028, 0x2029, 0x202f, 0x205f,
    0x3000].contains c.toNat || (0x2000 ≤ c.toNat && c.toNat ≤ 0x200a)

/-- Remove white space at both ends. -/
def trimSpace (s : String) : String :=
  String.ofList (((s.toList.dropWhile isSpace).reverse.dropWhile isSpace).reverse)

/-! ## Numbers -/

/-- The number of values of 63 bits. -/
def bits63 : Nat := 9223372036854775808

/-- Digits behind those that make `n`, up to 64 bits. -/
def parseUint (n : Nat) : List Char → Except String Nat
  | [] => .ok n
  | c :: digits =>
    if c.isDigit = false then .error "invalid syntax"
    else if bits63 * 2 ≤ n * 10 + (c.toNat - 48) then .error "value out of range"
    else parseUint (n * 10 + (c.toNat - 48)) digits

/-- The sign of a number, and its digits. -/
def splitSign : List Char → Bool × List Char
  | '-' :: digits => (true, digits)
  | '+' :: digits => (false, digits)
  | digits => (false, digits)

def signed (negative : Bool) (n : Nat) : Except String Int :=
  if negative then if n ≤ bits63 then .ok (-n) else .error "value out of range"
  else if n < bits63 then .ok n else .error "value out of range"

/-- `strconv.ParseInt` to base ten and 64 bits. -/
def parseInt (text : String) : Except String Int :=
  let (negative, digits) := splitSign text.toList
  if digits = [] then .error "invalid syntax" else (parseUint 0 digits).bind (signed negative)

theorem signed_range {negative : Bool} {n : Nat} {m : Int} (h : signed negative n = .ok m) :
    -bits63 ≤ m ∧ m < bits63 := by
  unfold signed bits63 at h
  unfold bits63
  split at h
  · split at h
    · cases h
      omega
    · cases h
  · split at h
    · cases h
      omega
    · cases h

theorem parseInt_range {text : String} {n : Int} (h : parseInt text = .ok n) :
    -bits63 ≤ n ∧ n < bits63 := by
  unfold parseInt at h
  dsimp only at h
  split at h
  · cases h
  · cases hparsed : parseUint 0 (splitSign text.toList).2 with
    | error => cases hparsed ▸ h
    | ok m => exact signed_range (n := m) (by simpa [hparsed, Except.bind] using h)

end Text
