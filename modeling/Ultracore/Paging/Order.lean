-- SUMMARY: Orders by several keys: comparison in turn, and sorting of rows that never compare equal.
import Mathlib.Data.List.Sort
import Ultracore.Paging.Keyset

/-!
# Orders by several keys

Rows are compared by one key after another. Sorted rows of which no two compare equal are strictly
sorted, so that what follows a row is what is greater than it.
-/

namespace Paging

open Std

variable {α β : Type}

/-- Compare by a key. -/
theorem transCmp_on (key : β → α) (cmp : α → α → Ordering) [TransCmp cmp] :
    TransCmp fun a b => cmp (key a) (key b) :=
  @TransCmp.mk _ _ ⟨OrientedCmp.eq_swap⟩ TransCmp.isLE_trans

/-- Compare by one key after another. -/
def lexBy : List (α → α → Ordering) → α → α → Ordering
  | [], _, _ => .eq
  | cmp :: cmps, a, b => (cmp a b).then (lexBy cmps a b)

section
variable {cmps : List (α → α → Ordering)}

theorem lexBy_transCmp (h : ∀ cmp ∈ cmps, TransCmp cmp) : TransCmp (lexBy cmps) := by
  induction cmps with
  | nil =>
    refine @TransCmp.mk _ _ ⟨fun {a b} => ?_⟩ fun {a b c} _ _ => ?_
    · rfl
    · rfl
  | cons cmp cmps ih =>
    have hcmp : TransCmp cmp := h cmp (by simp)
    have hrest : TransCmp (lexBy cmps) := ih fun c hc => h c (by simp [hc])
    exact inferInstanceAs (TransCmp (compareLex cmp (lexBy cmps)))

/-- Rows compare equal if every key does. -/
theorem lexBy_eq_iff {a b : α} : lexBy cmps a b = .eq ↔ ∀ cmp ∈ cmps, cmp a b = .eq := by
  induction cmps with
  | nil => simp [lexBy]
  | cons cmp cmps ih => simp [lexBy, Ordering.then_eq_eq, ih]

end

/-! ## Directions -/

/-- Ascending, or descending. -/
def directed (descending : Bool) (cmp : α → α → Ordering) : α → α → Ordering :=
  if descending then fun a b => cmp b a else cmp

section
variable {cmp : α → α → Ordering}

instance [TransCmp cmp] {descending : Bool} : TransCmp (directed descending cmp) := by
  cases descending with
  | false => exact inferInstanceAs (TransCmp cmp)
  | true => exact inferInstanceAs (TransCmp fun a b => cmp b a)

theorem directed_eq_iff [LawfulEqCmp cmp] {descending : Bool} {a b : α} :
    directed descending cmp a b = .eq ↔ a = b := by
  cases descending with
  | false => exact @LawfulEqCmp.compare_eq_iff_eq α cmp _ a b
  | true => exact (@LawfulEqCmp.compare_eq_iff_eq α cmp _ b a).trans eq_comm

end

/-! ## Sorting -/

/-- Rows in an order; those that compare equal may stand either way. -/
def sortBy (cmp : α → α → Ordering) (rows : List α) : List α :=
  rows.insertionSort fun a b => (cmp a b).isLE

section
variable {cmp : α → α → Ordering} {rows : List α}

theorem sortBy_perm : (sortBy cmp rows).Perm rows := List.perm_insertionSort _ _

theorem sortBy_pairwise [TransCmp cmp] : (sortBy cmp rows).Pairwise fun a b => (cmp a b).isLE := by
  have htotal : Std.Total fun a b : α => (cmp a b).isLE := ⟨fun a b => by
    rw [@OrientedCmp.eq_swap α cmp _ b a]
    cases cmp a b <;> simp⟩
  have htrans : IsTrans α fun a b => (cmp a b).isLE := ⟨fun _ _ _ => TransCmp.isLE_trans⟩
  exact List.pairwise_insertionSort _ rows

/-- Rows of which no two compare equal are strictly sorted. -/
theorem sortBy_strict [TransCmp cmp] (hne : rows.Pairwise fun a b => cmp a b ≠ .eq) :
    (sortBy cmp rows).Pairwise fun a b => cmp a b = .lt := by
  have hne' : (sortBy cmp rows).Pairwise fun a b => cmp a b ≠ .eq := by
    refine hne.perm sortBy_perm.symm fun {a b} hab hba => hab ?_
    rw [@OrientedCmp.eq_swap α cmp, hba]
    rfl
  refine (List.pairwise_and_iff.mpr ⟨sortBy_pairwise, hne'⟩).imp ?_
  rintro a b ⟨hle, hne⟩
  cases hcmp : cmp a b with
  | lt => rfl
  | eq => exact absurd hcmp hne
  | gt => rw [hcmp] at hle; exact absurd hle (by decide)

/-- Rows are left out before sorting or after. -/
theorem sortBy_filter [TransCmp cmp] (hne : rows.Pairwise fun a b => cmp a b ≠ .eq) (p : α → Bool) :
    sortBy cmp (rows.filter p) = (sortBy cmp rows).filter p := by
  refine List.Perm.eq_of_pairwise ?_ (sortBy_strict (hne.filter p)) ((sortBy_strict hne).filter p)
    (sortBy_perm.trans (sortBy_perm.symm.filter p))
  intro a b _ _ hab hba
  rw [@OrientedCmp.eq_swap α cmp, hba] at hab
  exact absurd hab (by decide)

/-- What is greater than a row of them comes behind it. -/
theorem filter_greater [TransCmp cmp] {done rest : List α} {x : α}
    (hsorted : (done ++ x :: rest).Pairwise fun a b => cmp a b = .lt) :
    (done ++ x :: rest).filter (fun y => cmp x y = .lt) = rest :=
  filter_behind (fun a b hab hba => by
    rw [@OrientedCmp.eq_swap α cmp, hba] at hab
    exact absurd hab (by decide)) hsorted

end

end Paging
