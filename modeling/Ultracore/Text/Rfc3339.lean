-- SUMMARY: Times of the calendar to the microsecond, their order, and their RFC 3339 text in UTC.
import Mathlib.Data.List.DropRight
import Ultracore.Text.Codec

/-!
# RFC 3339

A time in UTC is written with a four-digit year, or more digits where the year needs them, and the
fraction of the second without trailing zeros. Nothing is lost: the text can be read back.
-/

namespace Text

/-- The days of a month of the Gregorian calendar. Years and months count from zero. -/
def daysIn (year month : Nat) : Nat :=
  match month with
  | 1 => if (year + 1) % 4 = 0 ∧ ((year + 1) % 100 ≠ 0 ∨ (year + 1) % 400 = 0) then 29 else 28
  | 3 | 5 | 8 | 10 => 30
  | _ => 31

/-- A point in time of the common era. Years, months and days count from zero. -/
structure Time where
  year : Nat
  month : Fin 12
  day : Fin 31
  hour : Fin 24
  minute : Fin 60
  second : Fin 60
  micro : Fin 1000000
  inMonth : day < daysIn year month
deriving DecidableEq

namespace Time

/-- The first time of the common era. -/
def first : Time :=
  ⟨0, ⟨0, by decide⟩, ⟨0, by decide⟩, ⟨0, by decide⟩, ⟨0, by decide⟩, ⟨0, by decide⟩,
    ⟨0, by decide⟩, by decide⟩

/-- The place of a time on the line. -/
def stamp (t : Time) : Nat :=
  (((((t.year * 12 + t.month) * 31 + t.day) * 24 + t.hour) * 60 + t.minute) * 60 + t.second) *
    1000000 + t.micro

theorem stamp_injective : Function.Injective stamp := by
  rintro ⟨y, mo, d, h, mi, s, u, _⟩ ⟨y', mo', d', h', mi', s', u', _⟩ heq
  simp only [stamp] at heq
  have hu : u = u' := Fin.ext (by omega)
  have hs : s = s' := Fin.ext (by omega)
  have hmi : mi = mi' := Fin.ext (by omega)
  have hh : h = h' := Fin.ext (by omega)
  have hd : d = d' := Fin.ext (by omega)
  have hmo : mo = mo' := Fin.ext (by omega)
  have hy : y = y' := by omega
  subst hy hmo hd hh hmi hs hu
  rfl

/-- Earlier times come first. -/
def cmp (a b : Time) : Ordering := compare a.stamp b.stamp

instance : Std.TransCmp cmp := inferInstanceAs (Std.TransCmp (compareOn stamp))

instance : Std.LawfulEqCmp cmp where
  compare_self := Std.ReflCmp.compare_self (α := Nat)
  eq_of_compare h := stamp_injective (Std.LawfulEqCmp.eq_of_compare h)

/-! ## The fraction of a second -/

/-- The six digits of the fraction without trailing zeros. -/
def trimmed (m : Fin 1000000) : List Char := (padded 6 m).rdropWhile (· = '0')

/-- Digits with zeros behind them, as microseconds. -/
def micros (digits : List Char) : Nat :=
  Nat.ofDigitChars 10 (digits ++ List.replicate (6 - digits.length) '0') 0

theorem length_padded (m : Fin 1000000) : (padded 6 m).length = 6 := by
  have hlen : (Nat.toDigits 10 m.val).length ≤ 6 :=
    (Nat.length_toDigits_le_iff (by decide) (by decide)).mpr m.isLt
  rw [padded, List.length_append, List.length_replicate]
  omega

theorem trimmed_append (m : Fin 1000000) :
    trimmed m ++ List.replicate (6 - (trimmed m).length) '0' = padded 6 m := by
  have hsplit : trimmed m ++ (padded 6 m).rtakeWhile (· = '0') = padded 6 m :=
    List.rdropWhile_append_rtakeWhile
  have hzeros : (padded 6 m).rtakeWhile (· = '0') =
      List.replicate ((padded 6 m).rtakeWhile (· = '0')).length '0' :=
    List.eq_replicate_of_mem fun c hc => by simpa using List.mem_rtakeWhile_imp hc
  have hlen := congrArg List.length hsplit
  rw [List.length_append, length_padded] at hlen
  rw [show 6 - (trimmed m).length = ((padded 6 m).rtakeWhile (· = '0')).length by omega, ← hzeros,
    hsplit]

theorem micros_trimmed (m : Fin 1000000) : micros (trimmed m) = m := by
  rw [micros, trimmed_append, ofDigitChars_padded]

theorem isDigit_trimmed (m : Fin 1000000) : ∀ c ∈ trimmed m, c.isDigit = true := fun c hc =>
  isDigit_padded c (List.IsPrefix.mem hc (List.rdropWhile_prefix _ _))

/-- Where there are no digits the fraction is zero. -/
theorem eq_zero_of_trimmed {m : Fin 1000000} (h : trimmed m = []) : m = 0 := by
  have := micros_trimmed m
  rw [h] at this
  exact Fin.ext (this.symm.trans (by decide))

def writeFraction (m : Fin 1000000) : List Char :=
  match trimmed m with
  | [] => ['Z']
  | digits => '.' :: digits ++ ['Z']

def readFraction : List Char → Option (Fin 1000000 × List Char)
  | 'Z' :: rest => some (0, rest)
  | '.' :: input =>
    if h : micros (input.takeWhile Char.isDigit) < 1000000 then
      (strip ['Z'] (input.dropWhile Char.isDigit)).map fun rest => (⟨_, h⟩, rest)
    else none
  | _ => none

theorem readFraction_writeFraction (m : Fin 1000000) (rest : List Char) :
    readFraction (writeFraction m ++ rest) = some (m, rest) := by
  unfold writeFraction
  split
  next hnil =>
    rw [eq_zero_of_trimmed hnil]
    rfl
  next hne =>
    have hz : Char.isDigit 'Z' = false := by decide
    have htake : (trimmed m ++ 'Z' :: rest).takeWhile Char.isDigit = trimmed m := by
      rw [List.takeWhile_append_of_pos (isDigit_trimmed m)]
      simp [hz]
    have hdrop : (trimmed m ++ 'Z' :: rest).dropWhile Char.isDigit = 'Z' :: rest := by
      rw [List.dropWhile_append_of_pos (isDigit_trimmed m)]
      simp [hz]
    simp [readFraction, htake, hdrop, micros_trimmed, strip]

def fraction : Codec (Fin 1000000) where
  write := writeFraction
  read := readFraction
  read_write m rest _ := readFraction_writeFraction m rest

theorem ends_fraction (m : Fin 1000000) (rest : List Char) : Ends ([] ++ (fraction.write m ++ rest)) := by
  show Ends (writeFraction m ++ rest)
  unfold writeFraction
  split
  · exact ends_cons.mpr (by decide)
  · exact ends_cons.mpr (by decide)

/-! ## Times -/

/-- The numbers of the text. -/
abbrev Fields := Nat × Nat × Nat × Nat × Nat × Nat × Fin 1000000

def fields (t : Time) : Fields :=
  (t.year + 1, t.month + 1, t.day + 1, t.hour, t.minute, t.second, t.micro)

def ofFields : Fields → Option Time
  | (y, mo, d, h, mi, s, u) =>
    if hb : 1 ≤ y ∧ (1 ≤ mo ∧ mo ≤ 12) ∧ (1 ≤ d ∧ d ≤ 31) ∧ h < 24 ∧ mi < 60 ∧ s < 60 then
      if hd : d - 1 < daysIn (y - 1) (mo - 1) then
        some ⟨y - 1, ⟨mo - 1, by omega⟩, ⟨d - 1, by omega⟩, ⟨h, by omega⟩, ⟨mi, by omega⟩,
          ⟨s, by omega⟩, u, hd⟩
      else none
    else none

theorem ofFields_fields (t : Time) : ofFields t.fields = some t := by
  obtain ⟨y, mo, d, h, mi, s, u, hd⟩ := t
  have hb : 1 ≤ y + 1 ∧ (1 ≤ mo.val + 1 ∧ mo.val + 1 ≤ 12) ∧ (1 ≤ d.val + 1 ∧ d.val + 1 ≤ 31) ∧
      h.val < 24 ∧ mi.val < 60 ∧ s.val < 60 := by omega
  simp [ofFields, fields, hb, hd]

/-- Date, time, fraction and `Z`. -/
def codec : Codec Time :=
  Codec.restrict
    ((Codec.nat 4).pair ['-'] ((Codec.nat 2).pair ['-'] ((Codec.nat 2).pair ['T'] ((Codec.nat 2).pair [':']
      ((Codec.nat 2).pair [':'] ((Codec.nat 2).pair [] fraction ends_fraction)
        fun _ _ => ends_cons.mpr (by decide))
        fun _ _ => ends_cons.mpr (by decide))
        fun _ _ => ends_cons.mpr (by decide))
        fun _ _ => ends_cons.mpr (by decide))
        fun _ _ => ends_cons.mpr (by decide))
    ofFields fields ofFields_fields

def format (t : Time) : String := String.ofList (codec.write t)

def parse (text : String) : Option Time := codec.parse text.toList

theorem parse_format (t : Time) : parse t.format = some t := by
  rw [parse, format, String.toList_ofList, Codec.parse_write]

example : (parse "2024-02-29T12:30:05.12Z").map format = some "2024-02-29T12:30:05.12Z" := by decide

example : parse "2023-02-29T12:30:05.12Z" = none := by decide

end Time

end Text
