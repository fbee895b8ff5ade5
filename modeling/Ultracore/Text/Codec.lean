-- SUMMARY: Text formats that can be read back: combinators for writers with their readers.
import Mathlib.Data.List.Basic
import Mathlib.Tactic.Common

/-!
# Codecs

A codec writes values as text and reads them back. The reader returns the rest of its input, so
that codecs can be put one after another. Numbers end where no digit follows; that is all a codec
may ask of the text behind it.
-/

namespace Text

/-- The text does not start with a digit. -/
def Ends (rest : List Char) : Prop := ∀ c, rest.head? = some c → c.isDigit = false

@[simp] theorem ends_nil : Ends [] := by simp [Ends]

@[simp] theorem ends_cons {c : Char} {rest : List Char} : Ends (c :: rest) ↔ c.isDigit = false := by
  simp [Ends]

/-- A fixed text that starts with something else, whatever follows it. -/
theorem ends_append {text : List Char} (h : text.head?.map Char.isDigit = some false)
    (rest : List Char) : Ends (text ++ rest) := by
  cases text with
  | nil => simp at h
  | cons => simpa using h

/-- A writer and its reader. -/
structure Codec (α : Type) where
  write : α → List Char
  read : List Char → Option (α × List Char)
  read_write : ∀ a rest, Ends rest → read (write a ++ rest) = some (a, rest)

variable {α β : Type}

/-- Read a whole text. -/
def Codec.parse (c : Codec α) (text : List Char) : Option α :=
  match c.read text with
  | some (a, []) => some a
  | _ => none

theorem Codec.parse_write (c : Codec α) (a : α) : c.parse (c.write a) = some a := by
  have h := c.read_write a [] ends_nil
  rw [List.append_nil] at h
  simp [Codec.parse, h]

theorem Codec.write_injective (c : Codec α) : Function.Injective c.write := by
  intro a b hab
  have h := c.parse_write a
  rw [hab, c.parse_write b] at h
  exact (Option.some.inj h).symm

/-! ## Fixed text -/

/-- What follows a fixed text. -/
def strip : List Char → List Char → Option (List Char)
  | [], input => some input
  | c :: text, d :: input => if c = d then strip text input else none
  | _ :: _, [] => none

@[simp] theorem strip_append (text rest : List Char) : strip text (text ++ rest) = some rest := by
  induction text with
  | nil => rfl
  | cons c text ih => simpa [strip] using ih

/-- A fixed text before and one behind. -/
def Codec.wrap (left right : List Char) (hright : ∀ rest, Ends (right ++ rest)) (c : Codec α) :
    Codec α where
  write a := left ++ c.write a ++ right
  read input :=
    (strip left input).bind fun input =>
      (c.read input).bind fun (a, input) => (strip right input).map fun rest => (a, rest)
  read_write a rest _ := by
    simp only [List.append_assoc, strip_append, Option.bind_some, c.read_write a _ (hright rest),
      Option.map_some]

/-- Two values with a fixed text between them. -/
def Codec.pair (c : Codec α) (sep : List Char) (d : Codec β)
    (hsep : ∀ b rest, Ends (sep ++ (d.write b ++ rest))) : Codec (α × β) where
  write p := c.write p.1 ++ sep ++ d.write p.2
  read input :=
    (c.read input).bind fun (a, input) =>
      (strip sep input).bind fun input => (d.read input).map fun (b, rest) => ((a, b), rest)
  read_write p rest hrest := by
    simp only [List.append_assoc, c.read_write p.1 _ (hsep p.2 rest), Option.bind_some, strip_append,
      d.read_write p.2 rest hrest, Option.map_some]

/-- The same text for another type. -/
def Codec.map (c : Codec α) (f : α → β) (g : β → α) (hfg : ∀ b, f (g b) = b) : Codec β where
  write b := c.write (g b)
  read input := (c.read input).map fun (a, rest) => (f a, rest)
  read_write b rest hrest := by simp [c.read_write (g b) rest hrest, hfg]

/-- The same text for part of a type. -/
def Codec.restrict (c : Codec α) (f : α → Option β) (g : β → α) (hfg : ∀ b, f (g b) = some b) :
    Codec β where
  write b := c.write (g b)
  read input := (c.read input).bind fun (a, rest) => (f a).map fun b => (b, rest)
  read_write b rest hrest := by simp [c.read_write (g b) rest hrest, hfg]

/-- Truth values, as words. -/
def Codec.bool : Codec Bool where
  write b := if b then ['t', 'r', 'u', 'e'] else ['f', 'a', 'l', 's', 'e']
  read input :=
    match strip ['t', 'r', 'u', 'e'] input with
    | some rest => some (true, rest)
    | none => (strip ['f', 'a', 'l', 's', 'e'] input).map fun rest => (false, rest)
  read_write b rest _ := by cases b <;> simp [strip]

/-! ## Repetition -/

/-- Read items up to a stop character, `fuel` steps at most. -/
def readAll (read : List Char → Option (α × List Char)) (stop : Char) :
    Nat → List Char → Option (List α × List Char)
  | 0, _ => none
  | _ + 1, [] => none
  | fuel + 1, c :: input =>
    if c = stop then some ([], input)
    else (read (c :: input)).bind fun (a, input) =>
      (readAll read stop fuel input).map fun (l, rest) => (a :: l, rest)

section
variable {read : List Char → Option (α × List Char)} {write : α → List Char} {stop : Char}

theorem readAll_write (l : List α) (rest : List Char) (fuel : Nat) (hfuel : l.length < fuel)
    (hread : ∀ (a : α) (l : List α), read (write a ++ (l.flatMap write ++ stop :: rest)) =
      some (a, l.flatMap write ++ stop :: rest))
    (hstop : ∀ a, ∃ c s, write a = c :: s ∧ c ≠ stop) :
    readAll read stop fuel (l.flatMap write ++ stop :: rest) = some (l, rest) := by
  induction l generalizing fuel with
  | nil =>
    obtain ⟨fuel, rfl⟩ : ∃ n, fuel = n + 1 := ⟨fuel - 1, by simp at hfuel; omega⟩
    simp [readAll]
  | cons a l ih =>
    obtain ⟨fuel, rfl⟩ : ∃ n, fuel = n + 1 := ⟨fuel - 1, by simp at hfuel; omega⟩
    obtain ⟨c, s, hwrite, hne⟩ := hstop a
    have hfirst := hread a l
    rw [List.flatMap_cons, List.append_assoc]
    rw [hwrite, List.cons_append] at hfirst ⊢
    have hrest := ih fuel (by simp at hfuel; omega)
    simp [readAll, if_neg hne, hfirst, hrest]

/-- Every item takes room, so the text is long enough to be the fuel. -/
theorem length_le_flatMap (l : List α) (hwrite : ∀ a, write a ≠ []) :
    l.length ≤ (l.flatMap write).length := by
  induction l with
  | nil => simp
  | cons a =>
    have := List.length_pos_iff.mpr (hwrite a)
    simp only [List.length_cons, List.flatMap_cons, List.length_append]
    omega

end

/-- A list in brackets, with commas between its items. -/
def writeItems (write : α → List Char) : List α → List Char
  | [] => ['[', ']']
  | a :: l => '[' :: write a ++ l.flatMap (fun b => ',' :: write b) ++ [']']

def readItem (read : List Char → Option (α × List Char)) : List Char → Option (α × List Char)
  | ',' :: input => read input
  | _ => none

def readItems (read : List Char → Option (α × List Char)) : List Char → Option (List α × List Char)
  | '[' :: input =>
    match strip [']'] input with
    | some rest => some ([], rest)
    | none => (read input).bind fun (a, input) =>
      (readAll (readItem read) ']' (input.length + 1) input).map fun (l, rest) => (a :: l, rest)
  | _ => none

section
variable (c : Codec α) (rest : List Char)

/-- The items behind the first one, up to the closing bracket. -/
theorem Codec.ends_items (l : List α) :
    Ends (l.flatMap (fun b => ',' :: c.write b) ++ ']' :: rest) := by
  cases l with
  | nil =>
    simp only [List.flatMap_nil, List.nil_append, ends_cons]
    decide
  | cons =>
    simp only [List.flatMap_cons, List.cons_append, ends_cons]
    decide

theorem Codec.readAll_items (l : List α) :
    readAll (readItem c.read) ']' ((l.flatMap (fun b => ',' :: c.write b) ++ ']' :: rest).length + 1)
      (l.flatMap (fun b => ',' :: c.write b) ++ ']' :: rest) = some (l, rest) := by
  have hroom : l.length ≤ (l.flatMap fun b => ',' :: c.write b).length :=
    length_le_flatMap l fun b => List.cons_ne_nil _ _
  refine readAll_write l rest _ (by simp only [List.length_append]; omega) (fun b l => ?_)
    fun b => ⟨',', c.write b, rfl, by decide⟩
  exact c.read_write b _ (c.ends_items rest l)

theorem Codec.read_writeItems (hopen : ∀ a, ∃ d s, c.write a = d :: s ∧ d ≠ ']') (l : List α) :
    readItems c.read (writeItems c.write l ++ rest) = some (l, rest) := by
  cases l with
  | nil => simp [writeItems, readItems, strip]
  | cons a l =>
    obtain ⟨d, s, hwrite, hne⟩ := hopen a
    have hfirst := c.read_write a _ (c.ends_items rest l)
    have hstrip : strip [']']
        (c.write a ++ (l.flatMap (fun b => ',' :: c.write b) ++ ']' :: rest)) = none := by
      rw [hwrite, List.cons_append, strip, if_neg (Ne.symm hne)]
    simp only [writeItems, readItems, List.cons_append, List.append_assoc, List.nil_append,
      hstrip, hfirst, Option.bind_some, c.readAll_items rest l, Option.map_some]

end

/-- Lists of items that do not start with a closing bracket. -/
def Codec.list (c : Codec α) (hopen : ∀ a, ∃ d s, c.write a = d :: s ∧ d ≠ ']') :
    Codec (List α) where
  write := writeItems c.write
  read := readItems c.read
  read_write l rest _ := c.read_writeItems rest hopen l

/-- A value that may be missing, as a fixed text; no value is written with its first letter. -/
def Codec.orElse (c : Codec α) (first : Char) (absent : List Char)
    (hfirst : ∀ a, ∃ d s, c.write a = d :: s ∧ d ≠ first) : Codec (Option α) where
  write
    | none => first :: absent
    | some a => c.write a
  read input :=
    match strip (first :: absent) input with
    | some rest => some (none, rest)
    | none => (c.read input).map fun (a, rest) => (some a, rest)
  read_write a rest hrest := by
    cases a with
    | none =>
      have hstrip := strip_append (first :: absent) rest
      simp only [hstrip]
    | some a =>
      obtain ⟨d, s, hwrite, hne⟩ := hfirst a
      have hstrip : strip (first :: absent) (c.write a ++ rest) = none := by
        rw [hwrite, List.cons_append, strip, if_neg (Ne.symm hne)]
      simp only [hstrip, c.read_write a rest hrest, Option.map_some]

/-! ## Numbers -/

/-- The digits at the start of a text, as a number. -/
def readNat (input : List Char) : Option (Nat × List Char) :=
  match input.takeWhile Char.isDigit with
  | [] => none
  | digits => some (Nat.ofDigitChars 10 digits 0, input.dropWhile Char.isDigit)

theorem readNat_append {digits rest : List Char} (hne : digits ≠ [])
    (hdigits : ∀ c ∈ digits, c.isDigit = true) (hrest : Ends rest) :
    readNat (digits ++ rest) = some (Nat.ofDigitChars 10 digits 0, rest) := by
  have hstop : rest.takeWhile Char.isDigit = [] ∧ rest.dropWhile Char.isDigit = rest := by
    cases rest with
    | nil => simp
    | cons =>
      have hc := ends_cons.mp hrest
      simp [hc]
  have htake : (digits ++ rest).takeWhile Char.isDigit = digits := by
    rw [List.takeWhile_append_of_pos hdigits, hstop.1, List.append_nil]
  have hdrop : (digits ++ rest).dropWhile Char.isDigit = rest := by
    rw [List.dropWhile_append_of_pos hdigits, hstop.2]
  obtain ⟨c, l, rfl⟩ := List.exists_cons_of_ne_nil hne
  simp only [readNat, htake, hdrop]

theorem isDigit_toDigits {n : Nat} : ∀ c ∈ Nat.toDigits 10 n, c.isDigit = true := fun _ hc =>
  Nat.isDigit_of_mem_toDigits (by decide) (by decide) hc

/-- Natural numbers with at least `width` digits. -/
def padded (width n : Nat) : List Char :=
  List.replicate (width - (Nat.toDigits 10 n).length) '0' ++ Nat.toDigits 10 n

theorem ofDigitChars_padded (width n : Nat) : Nat.ofDigitChars 10 (padded width n) 0 = n := by
  rw [padded, Nat.ofDigitChars_append, Nat.ofDigitChars_replicate_zero, Nat.mul_zero,
    Nat.ofDigitChars_ten_toDigits]

theorem isDigit_padded {width n : Nat} : ∀ c ∈ padded width n, c.isDigit = true := by
  intro c hc
  rcases List.mem_append.mp hc with hc | hc
  · rw [(List.mem_replicate.mp hc).2]
    decide
  · exact isDigit_toDigits c hc

theorem padded_ne_nil {width n : Nat} : padded width n ≠ [] := by
  simp [padded, Nat.toDigits_ne_nil]

def Codec.nat (width : Nat) : Codec Nat where
  write := padded width
  read := readNat
  read_write n rest hrest := by
    rw [readNat_append padded_ne_nil isDigit_padded hrest, ofDigitChars_padded]

/-- Integers, in decimal. -/
def writeInt : Int → List Char
  | .ofNat n => Nat.toDigits 10 n
  | .negSucc n => '-' :: Nat.toDigits 10 (n + 1)

def readInt (input : List Char) : Option (Int × List Char) :=
  match strip ['-'] input with
  | some input => (readNat input).map fun (n, rest) => (-(n : Int), rest)
  | none => (readNat input).map fun (n, rest) => ((n : Int), rest)

theorem readInt_writeInt (n : Int) {rest : List Char} (hrest : Ends rest) :
    readInt (writeInt n ++ rest) = some (n, rest) := by
  have hnat : ∀ n, readNat (Nat.toDigits 10 n ++ rest) = some (n, rest) := fun n => by
    rw [readNat_append Nat.toDigits_ne_nil isDigit_toDigits hrest, Nat.ofDigitChars_ten_toDigits]
  cases n with
  | ofNat n =>
    obtain ⟨c, s, hcs⟩ := List.exists_cons_of_ne_nil (@Nat.toDigits_ne_nil n 10)
    have hc : '-' ≠ c := by
      rintro rfl
      have hdigit := isDigit_toDigits '-' (show '-' ∈ Nat.toDigits 10 n by simp [hcs])
      exact absurd hdigit (by decide)
    have hstrip : strip ['-'] (Nat.toDigits 10 n ++ rest) = none := by
      rw [hcs, List.cons_append, strip, if_neg hc]
    simp only [writeInt, readInt, hstrip, hnat, Option.map_some]
    rfl
  | negSucc n =>
    have hstrip := strip_append ['-'] (Nat.toDigits 10 (n + 1) ++ rest)
    rw [List.singleton_append] at hstrip
    simp only [writeInt, readInt, List.cons_append, hstrip, hnat, Option.map_some]
    rfl

def Codec.int : Codec Int where
  write := writeInt
  read := readInt
  read_write n _ hrest := readInt_writeInt n hrest

end Text
