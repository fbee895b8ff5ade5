-- SUMMARY: Tables as lists of rows with a key: lookup, keyed update and insertion.
import Mathlib.Tactic.Common

/-!
# Keyed tables

A table is a list of rows in insertion order. `lookup` finds the row of a key,
`update` changes the rows of a key in place; a row is inserted by appending it.
The lemmas say what each change does to a lookup.
-/

namespace Txn.Table

variable {α κ : Type} [DecidableEq κ] (key : α → κ)

/-- The first row with key `k`. -/
def lookup (k : κ) (t : List α) : Option α :=
  t.find? fun x => key x = k

/-- Change the rows with key `k`. -/
def update (k : κ) (f : α → α) (t : List α) : List α :=
  t.map fun x => if key x = k then f x else x

variable {key}
variable {k : κ} {t : List α} {x : α} {p : α → Bool} {f : α → α}

theorem lookup_key (h : lookup key k t = some x) : key x = k := by
  have := List.find?_some h
  simpa using this

theorem lookup_mem (h : lookup key k t = some x) : x ∈ t :=
  List.mem_of_find?_eq_some h

@[simp] theorem lookup_nil (k : κ) : lookup key k [] = none := rfl

theorem lookup_append (k : κ) (t t' : List α) :
    lookup key k (t ++ t') = (lookup key k t).or (lookup key k t') := by
  simp [lookup, List.find?_append]

@[simp] theorem lookup_singleton (k : κ) (x : α) :
    lookup key k [x] = if key x = k then some x else none := by
  by_cases h : key x = k <;> simp [lookup, h]

/-- A change that keeps keys reaches exactly the rows of its key. -/
theorem lookup_update (hf : ∀ x, key (f x) = key x) (k k' : κ) (t : List α) :
    lookup key k' (update key k f t) =
      if k' = k then (lookup key k' t).map f else lookup key k' t := by
  induction t with
  | nil => simp [update]
  | cons x t ih =>
    simp only [lookup, update, List.map_cons, List.find?_cons] at ih ⊢
    by_cases hx : key x = k
    · by_cases hk : k' = k
      · subst hk
        simp [hx, hf]
      · have hne : key x ≠ k' := fun h => hk (h.symm.trans hx)
        simp [hx, hf, Ne.symm hk, hk] at ih ⊢
        exact ih
    · by_cases hk' : key x = k'
      · have hne : k' ≠ k := fun h => hx (hk'.trans h)
        simp [hk', hne]
      · simp [hx, hk', ih]

/-! ## Primary keys -/

theorem map_key_update (hf : ∀ x, key (f x) = key x) (k : κ) (t : List α) :
    (update key k f t).map key = t.map key := by
  rw [update, List.map_map]
  refine List.map_congr_left fun x _ => ?_
  by_cases hx : key x = k <;> simp [hx, hf]

theorem lookup_eq_none : lookup key k t = none ↔ k ∉ t.map key := by
  simp [lookup]

/-- Under a primary key a row is what a lookup of its key finds. -/
theorem lookup_of_mem (ht : (t.map key).Nodup) (hx : x ∈ t) : lookup key (key x) t = some x := by
  induction t with
  | nil => cases hx
  | cons y t ih =>
    obtain ⟨hy, ht'⟩ := List.nodup_cons.mp ht
    rcases List.mem_cons.mp hx with rfl | hx'
    · simp [lookup]
    · have hne : key y ≠ key x := fun heq => hy (heq ▸ List.mem_map_of_mem hx')
      simpa [lookup, hne] using ih ht' hx'

section
variable {p q : α → Bool} (h : ∀ x, p x = true → q x = true) (t : List α)
include h

/-- Selecting among rows that all selected ones are among. -/
theorem filter_filter_of_imp : (t.filter q).filter p = t.filter p := by
  rw [List.filter_filter]
  refine List.filter_congr fun x _ => ?_
  cases hx : p x with
  | true => simp [h x hx]
  | false => rfl

end

theorem filter_update (hp : ∀ x, p (f x) = p x) (k : κ) (t : List α) :
    (update key k f t).filter p = update key k f (t.filter p) := by
  rw [update, update, List.filter_map]
  congr 1
  refine List.filter_congr fun x _ => ?_
  by_cases hx : key x = k <;> simp [hx, hp]

/-- Two ways to tell some rows from the others, which agree. -/
def Alike (p q : α → Bool) (t : List α) : Prop :=
  t.filter p = t.filter q ∧ (t.filter fun x => !p x) = t.filter fun x => !q x

theorem alike {q : α → Bool} (h : ∀ x ∈ t, p x = q x) : Alike p q t :=
  ⟨List.filter_congr h, List.filter_congr fun x hx => congrArg Bool.not (h x hx)⟩

/-! ## Rows that are kept in some form -/

section
variable {o o' : Option α} {P : α → α → Prop} (h : ∀ x, o = some x → ∃ y, o' = some y ∧ P x y)
  (ho : o.isSome)
include h ho

theorem isSome_filter_of_kept {q : α → Bool} (hp : ∀ x y, o = some x → P x y → q y = p x) :
    (o'.filter q).isSome = (o.filter p).isSome := by
  obtain ⟨x, hx⟩ := Option.isSome_iff_exists.mp ho
  obtain ⟨y, hy, hxy⟩ := h x hx
  rw [hx, hy, Option.isSome_filter, Option.isSome_filter]
  exact hp x y hx hxy

end

end Txn.Table
