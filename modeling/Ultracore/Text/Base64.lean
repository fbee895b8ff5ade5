-- SUMMARY: Base64 with the URL alphabet and no padding, and that it can be read back.
import Mathlib.Tactic.Common

/-!
# Base64

Three bytes are four digits of six bits; one byte left over is two digits, two are three. The
reader takes what the writer produces.
-/

namespace Text.Base64

/-- The digit for six bits. -/
def digit (n : Nat) : Char :=
  if n < 26 then Char.ofNat (65 + n)
  else if n < 52 then Char.ofNat (71 + n)
  else if n < 62 then Char.ofNat (n - 4)
  else if n = 62 then '-'
  else '_'

/-- The six bits of a digit. -/
def value (c : Char) : Option Nat :=
  if 65 ≤ c.toNat ∧ c.toNat ≤ 90 then some (c.toNat - 65)
  else if 97 ≤ c.toNat ∧ c.toNat ≤ 122 then some (c.toNat - 71)
  else if 48 ≤ c.toNat ∧ c.toNat ≤ 57 then some (c.toNat + 4)
  else if c = '-' then some 62
  else if c = '_' then some 63
  else none

theorem value_digit {n : Nat} (h : n < 64) : value (digit n) = some n := by
  have hall : ∀ n : Fin 64, value (digit n) = some n.val := by decide
  exact hall ⟨n, h⟩

def encode : List UInt8 → List Char
  | a :: b :: c :: bytes =>
    let n := a.toNat * 65536 + b.toNat * 256 + c.toNat
    digit (n / 262144) :: digit (n / 4096 % 64) :: digit (n / 64 % 64) :: digit (n % 64) ::
      encode bytes
  | [a, b] =>
    let n := (a.toNat * 256 + b.toNat) * 4
    [digit (n / 4096), digit (n / 64 % 64), digit (n % 64)]
  | [a] =>
    let n := a.toNat * 16
    [digit (n / 64), digit (n % 64)]
  | [] => []

/-- The digits are letters, figures and two marks. -/
theorem digit_range (n : Nat) : 45 ≤ (digit n).toNat ∧ (digit n).toNat ≤ 122 := by
  have hall : ∀ n : Fin 64, 45 ≤ (digit n).toNat ∧ (digit n).toNat ≤ 122 := by decide
  by_cases hn : n < 64
  · exact hall ⟨n, hn⟩
  · have hmark : digit n = '_' := by
      unfold digit
      split_ifs <;> first | rfl | omega
    rw [hmark]
    decide

theorem encode_range (bytes : List UInt8) : ∀ c ∈ encode bytes, 45 ≤ c.toNat ∧ c.toNat ≤ 122 := by
  induction bytes using encode.induct with
  | case1 a b c bytes ih => simpa only [encode, List.forall_mem_cons, digit_range, true_and] using ih
  | case2 | case3 => simp [encode, digit_range]
  | case4 => simp [encode]

def decode : List Char → Option (List UInt8)
  | w :: x :: y :: z :: text => do
      let n := (← value w) * 262144 + (← value x) * 4096 + (← value y) * 64 + (← value z)
      let bytes ← decode text
      return UInt8.ofNat (n / 65536) :: UInt8.ofNat (n / 256 % 256) :: UInt8.ofNat (n % 256) :: bytes
  | [w, x, y] => do
      let n := (← value w) * 4096 + (← value x) * 64 + (← value y)
      return [UInt8.ofNat (n / 1024), UInt8.ofNat (n / 4 % 256)]
  | [w, x] => do
      let n := (← value w) * 64 + (← value x)
      return [UInt8.ofNat (n / 16)]
  | [_] => none
  | [] => some []

theorem decode_encode (bytes : List UInt8) : decode (encode bytes) = some bytes := by
  induction bytes using encode.induct with
  | case1 a b c bytes ih =>
    have ha : a.toNat < 256 := a.toNat_lt
    have hb : b.toNat < 256 := b.toNat_lt
    have hc : c.toNat < 256 := c.toNat_lt
    obtain ⟨n, hn⟩ : ∃ n, n = a.toNat * 65536 + b.toNat * 256 + c.toNat := ⟨_, rfl⟩
    have hsum : n / 262144 * 262144 + n / 4096 % 64 * 4096 + n / 64 % 64 * 64 + n % 64 = n := by
      omega
    have h₁ : n / 65536 = a.toNat := by omega
    have h₂ : n / 256 % 256 = b.toNat := by omega
    have h₃ : n % 256 = c.toNat := by omega
    simp only [encode, decode]
    rw [← hn, value_digit (by omega), value_digit (by omega), value_digit (by omega),
      value_digit (by omega), ih]
    simp [hsum, h₁, h₂, h₃, UInt8.ofNat_toNat]
  | case2 a b =>
    have ha : a.toNat < 256 := a.toNat_lt
    have hb : b.toNat < 256 := b.toNat_lt
    obtain ⟨n, hn⟩ : ∃ n, n = (a.toNat * 256 + b.toNat) * 4 := ⟨_, rfl⟩
    have hsum : n / 4096 * 4096 + n / 64 % 64 * 64 + n % 64 = n := by omega
    have h₁ : n / 1024 = a.toNat := by omega
    have h₂ : n / 4 % 256 = b.toNat := by omega
    simp only [encode, decode]
    rw [← hn, value_digit (by omega), value_digit (by omega), value_digit (by omega)]
    simp [hsum, h₁, h₂, UInt8.ofNat_toNat]
  | case3 a =>
    have ha : a.toNat < 256 := a.toNat_lt
    obtain ⟨n, hn⟩ : ∃ n, n = a.toNat * 16 := ⟨_, rfl⟩
    have hsum : n / 64 * 64 + n % 64 = n := by omega
    have h₁ : n / 16 = a.toNat := by omega
    simp only [encode, decode]
    rw [← hn, value_digit (by omega), value_digit (by omega)]
    simp [hsum, h₁, UInt8.ofNat_toNat]
  | case4 => rfl

end Text.Base64
