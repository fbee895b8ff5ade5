-- SUMMARY: Splitting a text at each occurrence of a word, and joining the parts again.
import Mathlib.Data.List.Basic
import Mathlib.Tactic.Common

/-!
# Splitting

`splitWord sep s` cuts `s` at each occurrence of `sep`, from left to right. For a separator of one
symbol it is the library's `splitOn`, which undoes joining where no part contains the separator.
-/

namespace Text

variable {α : Type} [DecidableEq α]

/-- Cut from here on, where the first `skip` symbols belong to an occurrence already found. -/
def splitFrom (sep : List α) : (skip : Nat) → List α → List (List α)
  | _, [] => [[]]
  | skip + 1, _ :: s => splitFrom sep skip s
  | 0, c :: s =>
    if sep <+: c :: s then [] :: splitFrom sep (sep.length - 1) s
    else (splitFrom sep 0 s).modifyHead (c :: ·)

/-- The parts between the occurrences of a word that is not empty. -/
def splitWord (sep s : List α) : List (List α) := splitFrom sep 0 s

theorem splitWord_symbol (c : α) (s : List α) : splitWord [c] s = s.splitOn c := by
  induction s with
  | nil => rfl
  | cons d s ih =>
    rw [List.splitOn_cons_eq_if_modifyHead, splitWord, splitFrom, ← ih]
    by_cases hd : d = c
    · subst hd
      have hpre : [d] <+: d :: s := List.prefix_append [d] s
      rw [if_pos hpre, if_pos (by simp)]
      rfl
    · have hpre : ¬[c] <+: d :: s := fun h => hd (List.cons_prefix_cons.mp h).1.symm
      rw [if_neg hpre, if_neg (by simpa using hd)]
      rfl

theorem notMem_of_mem_splitOn {c : α} {s part : List α} (h : part ∈ s.splitOn c) : c ∉ part := by
  induction s generalizing part with
  | nil => simp_all
  | cons d s ih =>
    rw [List.splitOn_cons_eq_if_modifyHead] at h
    split at h
    · rcases List.mem_cons.mp h with rfl | h
      · exact List.not_mem_nil
      · exact ih h
    next hd =>
      obtain ⟨first, rest, heq⟩ := List.exists_cons_of_ne_nil (List.splitOn_ne_nil c s)
      simp only [heq, List.modifyHead_cons, List.mem_cons] at h ih
      rcases h with rfl | h
      · have hne : c ≠ d := fun heq => hd (beq_iff_eq.mpr heq.symm)
        simpa [hne] using ih (.inl rfl)
      · exact ih (.inr h)

omit [DecidableEq α] in
/-- What stands before the first separator and what stands behind it. -/
theorem append_cons_inj {c : α} {a a' b b' : List α} (ha : c ∉ a) (ha' : c ∉ a')
    (h : a ++ c :: b = a' ++ c :: b') : a = a' ∧ b = b' := by
  induction a generalizing a' with
  | nil =>
    cases a' with
    | nil => exact ⟨rfl, (List.cons.inj h).2⟩
    | cons => exact absurd (by rw [(List.cons.inj h).1]; exact List.mem_cons_self) ha'
  | cons d a ih =>
    cases a' with
    | nil => exact absurd (by rw [(List.cons.inj h).1]; exact List.mem_cons_self) ha
    | cons =>
      obtain ⟨rfl, hrest⟩ := List.cons.inj h
      obtain ⟨rfl, rfl⟩ := ih (fun hmem => ha (List.mem_cons_of_mem _ hmem))
        (fun hmem => ha' (List.mem_cons_of_mem _ hmem)) hrest
      exact ⟨rfl, rfl⟩

omit [DecidableEq α] in
/-- What stands behind the last separator and what stands before it. -/
theorem append_cons_inj_last {c : α} {a a' b b' : List α} (hb : c ∉ b) (hb' : c ∉ b')
    (h : a ++ c :: b = a' ++ c :: b') : a = a' ∧ b = b' := by
  have hrev : b.reverse ++ c :: a.reverse = b'.reverse ++ c :: a'.reverse := by
    simpa using congrArg List.reverse h
  obtain ⟨hb, ha⟩ := append_cons_inj (by simpa using hb) (by simpa using hb') hrev
  exact ⟨List.reverse_injective ha, List.reverse_injective hb⟩

/-! ## Numbers as parts -/

/-- A separator that is no digit is not part of a number. -/
theorem notMem_toString {c : Char} (hc : c.isDigit = false) (n : Nat) : c ∉ (toString n).toList := by
  intro h
  have hdigit : c ∈ Nat.toDigits 10 n := by rwa [← Nat.toList_repr]
  exact absurd (Nat.isDigit_of_mem_toDigits (by decide) (by decide) hdigit) (by simp [hc])

/-- Digits, and at least one. -/
def isNumeral (t : String) : Bool := !t.toList.isEmpty && t.toList.all Char.isDigit

theorem isNumeral_toString (n : Nat) : isNumeral (toString n) = true := by
  have hdigits : ∀ c ∈ Nat.toDigits 10 n, c.isDigit = true := fun c hc =>
    Nat.isDigit_of_mem_toDigits (by decide) (by decide) hc
  simpa [isNumeral, Nat.toString_eq_ofList_toDigits, Nat.toDigits_ne_nil] using hdigits

theorem toString_injective {n m : Nat} (h : toString n = toString m) : n = m := by
  rw [Nat.toString_eq_ofList_toDigits, Nat.toString_eq_ofList_toDigits] at h
  have hdigits := congrArg String.toList h
  rw [String.toList_ofList, String.toList_ofList] at hdigits
  rw [← Nat.ofDigitChars_ten_toDigits (n := n), hdigits, Nat.ofDigitChars_ten_toDigits]

end Text
