-- SUMMARY: Replacing all occurrences of a word in a text, and which words can occur in the result.
import Mathlib.Data.List.Infix
import Mathlib.Tactic.Common

/-!
# Replacement

Texts are lists over any alphabet. `replaceAll old new s` reads `s` from left to right and
replaces each occurrence of `old` that does not overlap the one before it. What is left of
`s` between two replacements contains `old` nowhere. If the new text is delimited by two
symbols that do not occur in a word, the word occurs in the result only inside the new text or
inside what is left.
-/

namespace Text

variable {α : Type} [DecidableEq α]

/-! ## Scanning -/

/-- Replace from here on, where the first `skip` symbols belong to an occurrence already
    replaced. -/
def replaceFrom (old new : List α) : (skip : Nat) → List α → List α
  | _, [] => []
  | skip + 1, _ :: s => replaceFrom old new skip s
  | 0, c :: s =>
    if old <+: c :: s then new ++ replaceFrom old new (old.length - 1) s
    else c :: replaceFrom old new 0 s

/-- Replace every occurrence, from left to right. -/
def replaceAll (old new s : List α) : List α := replaceFrom old new 0 s

section
variable {old new : List α}

theorem replaceFrom_skip (l s : List α) :
    replaceFrom old new l.length (l ++ s) = replaceAll old new s := by
  induction l with
  | nil => rfl
  | cons c l ih => exact ih

@[simp] theorem replaceAll_nil : replaceAll old new [] = [] := rfl

/-- At an occurrence. -/
theorem replaceAll_here (hne : old ≠ []) (s : List α) :
    replaceAll old new (old ++ s) = new ++ replaceAll old new s := by
  obtain ⟨c, l, rfl⟩ := List.exists_cons_of_ne_nil hne
  have hpre : (c :: l) <+: c :: (l ++ s) := List.prefix_append (c :: l) s
  rw [List.cons_append, replaceAll, replaceFrom, if_pos hpre]
  simp only [List.length_cons, Nat.add_sub_cancel]
  rw [replaceFrom_skip]

/-- Elsewhere. -/
theorem replaceAll_cons {c : α} {s : List α} (h : ¬old <+: c :: s) :
    replaceAll old new (c :: s) = c :: replaceAll old new s := by
  simp [replaceAll, replaceFrom, if_neg h]

/-- Up to the first occurrence everything stays. -/
theorem replaceAll_first (hne : old ≠ []) (new s : List α) :
    ∃ p, ¬old <:+: p ∧ ((s = p ∧ replaceAll old new s = p) ∨
      ∃ t, s = p ++ (old ++ t) ∧ replaceAll old new s = p ++ (new ++ replaceAll old new t)) := by
  have hnil : ¬old <:+: [] := fun h => hne (List.infix_nil.mp h)
  induction s with
  | nil => exact ⟨[], hnil, .inl ⟨rfl, rfl⟩⟩
  | cons c s ih =>
    by_cases hpre : old <+: c :: s
    · obtain ⟨t, ht⟩ := hpre
      rw [← ht]
      exact ⟨[], hnil, .inr ⟨t, rfl, replaceAll_here hne t⟩⟩
    · obtain ⟨p, hp, hcases⟩ := ih
      -- An occurrence in `c :: p` is at its beginning, and so at that of `c :: s`, or in `p`.
      have hps : c :: p <+: c :: s := by
        rcases hcases with ⟨rfl, -⟩ | ⟨t, rfl, -⟩
        · exact List.prefix_rfl
        · exact List.prefix_append (c :: p) (old ++ t)
      refine ⟨c :: p, fun h => ?_, ?_⟩
      · rcases List.infix_cons_iff.mp h with h | h
        · exact hpre (h.trans hps)
        · exact hp h
      · rcases hcases with ⟨rfl, hr⟩ | ⟨t, rfl, hr⟩
        · exact .inl ⟨rfl, by rw [replaceAll_cons hpre, hr]⟩
        · exact .inr ⟨t, rfl, by rw [replaceAll_cons hpre, hr]; rfl⟩

/-- A text without an occurrence stays as it is. -/
theorem replaceAll_of_absent {s : List α} (h : ¬old <:+: s) : replaceAll old new s = s := by
  induction s with
  | nil => rfl
  | cons c s ih =>
    have hpre : ¬old <+: c :: s := fun hp => h hp.isInfix
    rw [replaceAll_cons hpre, ih fun hs => h (hs.trans (List.suffix_cons c s).isInfix)]

/-- One symbol is replaced wherever it stands. -/
theorem replaceAll_symbol (c : α) (new s : List α) :
    replaceAll [c] new s = s.flatMap fun d => if d = c then new else [d] := by
  induction s with
  | nil => rfl
  | cons d s ih =>
    rw [List.flatMap_cons]
    by_cases hd : d = c
    · subst hd
      rw [if_pos rfl, ← ih]
      exact replaceAll_here (List.cons_ne_nil d []) s
    · have hpre : ¬[c] <+: d :: s := fun h => hd (List.cons_prefix_cons.mp h).1.symm
      rw [if_neg hd, replaceAll_cons hpre, ih, List.singleton_append]

end

/-! ## Words in the result -/

omit [DecidableEq α] in
/-- A word without the symbol `c` lies on one side of it. -/
theorem infix_of_separated {c : α} {f x y : List α} (hc : c ∉ f) (h : f <:+: x ++ c :: y) :
    f <:+: x ∨ f <:+: y := by
  obtain ⟨a, b, hab⟩ := h
  rw [List.append_assoc] at hab
  rcases List.append_eq_append_iff.mp hab with ⟨a', rfl, hfb⟩ | ⟨c', rfl, hcy⟩
  · rcases List.append_eq_append_iff.mp hfb with ⟨f', rfl, -⟩ | ⟨f', rfl, hcb⟩
    · exact .inl ⟨a, f', by simp⟩
    · cases f' with
      | nil => exact .inl ⟨a, [], by simp⟩
      | cons =>
        cases hcb
        exact absurd (by simp) hc
  · cases c' with
    | nil =>
      cases f with
      | nil => exact .inl (List.nil_infix)
      | cons =>
        cases hcy
        exact absurd (by simp) hc
    | cons d c' =>
      cases hcy
      exact .inr ⟨c', b, by simp⟩

/-- A word without the delimiters of the new text occurs in the result only inside the new text,
    or inside a part of the old text that does not contain what was replaced. -/
theorem infix_replaceAll {l r : α} {m old f s : List α} (hl : l ∉ f) (hr : r ∉ f) (hne : old ≠ [])
    (h : f <:+: replaceAll old (l :: (m ++ [r])) s) :
    f <:+: m ∨ ∃ p, p <:+: s ∧ ¬old <:+: p ∧ f <:+: p := by
  -- By induction on the length: each replacement leaves a shorter text to the right of it.
  induction hlen : s.length using Nat.strong_induction_on generalizing s with
  | h n ih =>
    obtain ⟨p, hp, ⟨rfl, heq⟩ | ⟨t, rfl, heq⟩⟩ := replaceAll_first hne (l :: (m ++ [r])) s
    · exact .inr ⟨s, List.infix_rfl, hp, heq ▸ h⟩
    · rw [heq, List.cons_append] at h
      rcases infix_of_separated hl h with h | h
      · exact .inr ⟨p, ⟨[], old ++ t, by simp⟩, hp, h⟩
      rw [List.append_assoc, List.singleton_append] at h
      rcases infix_of_separated hr h with h | h
      · exact .inl h
      · have hshort : t.length < n := by
          have := List.length_pos_of_ne_nil hne
          simp only [← hlen, List.length_append]
          omega
        rcases ih t.length hshort h rfl with h | ⟨q, hq, hold, hf⟩
        · exact .inl h
        · exact .inr ⟨q, hq.trans ⟨p ++ old, [], by simp⟩, hold, hf⟩

/-- Each replacement brings the symbols of the new text and takes none that is not in the old. -/
theorem count_replaceAll {c : α} {old new : List α} (hne : old ≠ []) (hold : c ∉ old)
    (hnew : c ∈ new) (s : List α) : s.count c ≤ (replaceAll old new s).count c ∧
      (old <:+: s → s.count c < (replaceAll old new s).count c) := by
  induction hlen : s.length using Nat.strong_induction_on generalizing s with
  | h n ih =>
    obtain ⟨p, hp, ⟨rfl, heq⟩ | ⟨t, rfl, heq⟩⟩ := replaceAll_first hne new s
    · rw [heq]
      exact ⟨le_rfl, fun h => absurd h hp⟩
    · have hshort : t.length < n := by
        have := List.length_pos_of_ne_nil hne
        simp only [← hlen, List.length_append]
        omega
      have hrest := (ih t.length hshort t rfl).1
      have hpos := List.count_pos_iff.mpr hnew
      simp only [heq, List.count_append, List.count_eq_zero_of_not_mem hold]
      omega

/-- The one occurrence of a word. -/
theorem replaceAll_single {old new x y : List α} (hne : old ≠ [])
    (hx : ∀ a b, x ++ (old ++ y) = a ++ (old ++ b) → a.length = x.length) :
    replaceAll old new (x ++ (old ++ y)) = x ++ (new ++ y) := by
  obtain ⟨p, hp, ⟨heq, -⟩ | ⟨t, heq, hr⟩⟩ := replaceAll_first hne new (x ++ (old ++ y))
  · exact absurd (heq ▸ ⟨x, y, by simp⟩) hp
  · obtain ⟨rfl, hty⟩ := List.append_inj heq (hx p t heq).symm
    obtain rfl := List.append_cancel_left hty
    -- There is no second occurrence to the right of the first.
    have hy : ¬old <:+: y := by
      rintro ⟨a, b, rfl⟩
      have := hx (x ++ (old ++ a)) b (by simp)
      have := List.length_pos_of_ne_nil hne
      simp only [List.length_append] at *
      omega
    rw [hr, replaceAll_of_absent hy]

end Text
