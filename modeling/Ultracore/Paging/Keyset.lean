-- SUMMARY: Keyset paging: following cursors page by page yields every row once, in order.
import Mathlib.Data.List.Basic

/-!
# Keyset paging

A page holds the first rows that are left and, if there are more, the key of its last row; the
next page starts behind that key. A reader follows the keys until a page has none.
-/

namespace Paging

variable {α β κ ε : Type}

/-- A page: its rows, and the key to continue behind, where there is more. -/
structure Page (α κ : Type) where
  items : List α
  next : Option κ

/-- The first page of the rows that are left. -/
def page (key : α → κ) (limit : Nat) (rows : List α) : Page α κ where
  items := rows.take limit
  next := if limit < rows.length then (rows.take limit).getLast?.map key else none

/-- Read a page and follow its key, `fuel` times at most. -/
def follow (fetch : Option κ → Except ε (Page α κ)) : Nat → Option κ → Option (Except ε (List α))
  | 0, _ => none
  | fuel + 1, cursor =>
    match fetch cursor with
    | .error e => some (.error e)
    | .ok p =>
      match p.next with
      | none => some (.ok p.items)
      | some key => (follow fetch fuel (some key)).map fun rest => rest.map (p.items ++ ·)

theorem follow_next {fetch : Option κ → Except ε (Page α κ)} {cursor : Option κ} {p : Page α κ}
    {k : κ} {fuel : Nat} {rest : List α} (h : fetch cursor = .ok p) (hnext : p.next = some k)
    (hrest : follow fetch fuel (some k) = some (.ok rest)) :
    follow fetch (fuel + 1) cursor = some (.ok (p.items ++ rest)) := by
  simp only [follow, h, hnext, hrest, Option.map_some, Except.map]

/-- A page of the rows that are left: it shows the first of them and, if there are more, has a key
    that marks the last one shown. -/
structure IsPage (view : α → β) (Marks : α → κ → Prop) (limit : Nat) (rows : List α)
    (p : Page β κ) : Prop where
  items : p.items = (rows.take limit).map view
  next : (rows.length ≤ limit ∧ p.next = none) ∨
    ∃ x k, limit < rows.length ∧ (rows.take limit).getLast? = some x ∧ p.next = some k ∧ Marks x k

/-- Behind each row the rest of the rows is read, whichever key marks it. -/
def Continues (fetch : Option κ → Except ε (Page β κ)) (view : α → β) (Marks : α → κ → Prop)
    (limit : Nat) (rows : List α) : Prop :=
  ∀ done x rest k, rows = done ++ x :: rest → Marks x k →
    ∃ p, fetch (some k) = .ok p ∧ IsPage view Marks limit rest p

section
variable {fetch : Option κ → Except ε (Page β κ)} {view : α → β} {Marks : α → κ → Prop}
  {limit fuel : Nat} {rows : List α} {cursor : Option κ} {p : Page β κ}

theorem Continues.tail (h : Continues fetch view Marks limit rows) {done rest : List α}
    (heq : rows = done ++ rest) : Continues fetch view Marks limit rest := by
  intro done' x rest' k hrest
  exact h (done ++ done') x rest' k (by rw [heq, hrest, List.append_assoc])

/-- A reader that gets the first page gets all rows. -/
theorem follow_pages (hfirst : fetch cursor = .ok p) (hpage : IsPage view Marks limit rows p)
    (hcontinues : Continues fetch view Marks limit rows) (hfuel : rows.length < fuel) :
    follow fetch fuel cursor = some (.ok (rows.map view)) := by
  induction fuel generalizing rows cursor p with
  | zero => omega
  | succ fuel ih =>
    rcases hpage.next with ⟨hall, hnext⟩ | ⟨x, k, hmore, hlast, hnext, hmarks⟩
    · simp only [follow, hfirst, hnext, hpage.items, List.take_of_length_le hall]
    · obtain ⟨init, hinit⟩ := List.getLast?_eq_some_iff.mp hlast
      have hrest : rows = rows.take limit ++ rows.drop limit := (List.take_append_drop ..).symm
      have hsplit : rows = init ++ x :: rows.drop limit := by
        conv_lhs => rw [hrest, hinit]
        simp
      have hlimit : 0 < limit := by
        rcases Nat.eq_zero_or_pos limit with rfl | hpos
        · simp at hlast
        · exact hpos
      obtain ⟨q, hq, hqpage⟩ := hcontinues init x _ k hsplit hmarks
      have hgo := ih hq hqpage (hcontinues.tail hrest) (by simp; omega)
      rw [follow_next hfirst hnext hgo, hpage.items, ← List.map_append, List.take_append_drop]

end

/-! ## One row more than a page -/

section
variable {limit : Nat} {rows : List α}

theorem take_scanned : (rows.take (limit + 1)).take limit = rows.take limit := by
  rw [List.take_take, Nat.min_eq_left (Nat.le_succ limit)]

theorem lt_scanned : limit < (rows.take (limit + 1)).length ↔ limit < rows.length := by
  rw [List.length_take]
  omega

/-- A full page has a last row. -/
theorem exists_last (hlimit : 0 < limit) (hmore : limit < rows.length) :
    ∃ x, (rows.take limit).getLast? = some x := by
  have hne : rows.take limit ≠ [] := by
    intro hnil
    have hlen := congrArg List.length hnil
    rw [List.length_take, List.length_nil] at hlen
    omega
  exact ⟨_, List.getLast?_eq_some_getLast hne⟩

end

/-- Behind each row the rest of the rows is read. -/
def Resumes (fetch : Option κ → Except ε (Page α κ)) (key : α → κ) (limit : Nat) (rows : List α) :
    Prop :=
  ∀ done x rest, rows = done ++ x :: rest → fetch (some (key x)) = .ok (page key limit rest)

section
variable {fetch : Option κ → Except ε (Page α κ)} {key : α → κ} {limit fuel : Nat}
  {rows : List α} {cursor : Option κ}

theorem page_isPage (hlimit : 0 < limit) :
    IsPage id (fun x k => k = key x) limit rows (page key limit rows) := by
  refine ⟨by simp [page], ?_⟩
  by_cases hmore : limit < rows.length
  · obtain ⟨x, hlast⟩ := exists_last hlimit hmore
    exact .inr ⟨x, _, hmore, hlast, by simp [page, hmore, hlast], rfl⟩
  · exact .inl ⟨by omega, by simp [page, hmore]⟩

/-- The case of one key for each row. -/
theorem follow_eq (hlimit : 0 < limit) (hfirst : fetch cursor = .ok (page key limit rows))
    (hresumes : Resumes fetch key limit rows) (hfuel : rows.length < fuel) :
    follow fetch fuel cursor = some (.ok rows) := by
  have hcontinues : Continues fetch id (fun x k => k = key x) limit rows := by
    rintro done x rest k hrows rfl
    exact ⟨_, hresumes done x rest hrows, page_isPage hlimit⟩
  rw [follow_pages hfirst (page_isPage hlimit) hcontinues hfuel, List.map_id]

end

/-! ## Sorted rows -/

section
variable {r : α → α → Prop} [DecidableRel r]

/-- Behind a row of a strictly sorted list are the rows that are greater. -/
theorem filter_behind (hasymm : ∀ x y, r x y → ¬r y x) {done rest : List α} {x : α}
    (hsorted : (done ++ x :: rest).Pairwise r) :
    (done ++ x :: rest).filter (fun y => decide (r x y)) = rest := by
  obtain ⟨-, hrest, hcross⟩ := List.pairwise_append.mp hsorted
  obtain ⟨hx, -⟩ := List.pairwise_cons.mp hrest
  have hdone : done.filter (fun y => decide (r x y)) = [] := by
    refine List.filter_eq_nil_iff.mpr fun y hy => ?_
    have hyx := hcross y hy x (by simp)
    simpa using hasymm y x hyx
  have hself : ¬r x x := fun h => hasymm x x h h
  have htail : rest.filter (fun y => decide (r x y)) = rest :=
    List.filter_eq_self.mpr fun y hy => by simpa using hx y hy
  simp [hdone, hself, htail]

end

end Paging
