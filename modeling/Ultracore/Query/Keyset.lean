-- SUMMARY: The keyset condition is the strict order behind the cursor, and numbers its arguments in turn.
import Mathlib.Tactic.Ring
import Ultracore.Paging.Order
import Ultracore.Query.Placeholders

/-!
# The keyset condition

`keysetPredicate`, file `admin/query/compile.go`, writes "the row comes after the cursor" as a
disjunction of conjunctions. Each comparison takes an argument of its own, numbered by the count of
the arguments before it. The order is stated here by itself, column by column.
-/

namespace Ultracore.Query

/-! ## Tables -/

/-- The rows behind a collection as the database sees them: the value of each column, the order of
    each column's type, patterns, and the meaning of search expressions. -/
structure Table where
  Row : Type
  rows : List Row
  cell : Row → String → Option Value
  cmp : String → Value → Value → Ordering
  cmp_trans : ∀ column, Std.TransCmp (cmp column)
  cmp_lawful : ∀ column, Std.LawfulEqCmp (cmp column)
  ilike : Value → Value → Bool
  expr : String → Value → Row → Bool

attribute [instance] Table.cmp_trans Table.cmp_lawful

section
variable (T : Table)

/-- Whether a comparison comes out as an operator asks. -/
def Op.accepts : Op → Ordering → Bool
  | .eq, o => o = .eq
  | .ne, o => o ≠ .eq
  | .lt, o => o = .lt
  | .lte, o => o ≠ .gt
  | .gt, o => o = .gt
  | .gte, o => o ≠ .lt
  | _, _ => false

def Part.holds (row : T.Row) (part : Part Value) : Bool :=
  part.equal.all (fun (column, v) => T.cell row column = some v) &&
    (T.cell row part.column).any fun w =>
      T.cmp part.column w part.bound = if part.descending then .lt else .gt

/-- The condition is true of the row. -/
def Cond.holds (row : T.Row) : Cond Value → Bool
  | .search columns => columns.any fun (column, pattern) => (T.cell row column).any (T.ilike pattern)
  | .searchExpr expr v => T.expr expr v row
  | .isNull column => (T.cell row column).isNone
  | .isNotNull column => (T.cell row column).isSome
  | .oneOf column negated vs => (T.cell row column).any fun w => vs.contains w != negated
  | .like column pattern => (T.cell row column).any (T.ilike pattern)
  | .compare column op v => (T.cell row column).any fun w => op.accepts (T.cmp column w v)
  | .keyset parts => parts.any (Part.holds T row)

end

/-! ## The order -/

/-- The lexicographic order of the values in the sort columns, each column in its direction. -/
def compareKeys (T : Table) : List Key → List Value → List Value → Ordering
  | k :: keys, v :: vs, w :: ws =>
    (Paging.directed k.sort.descending (T.cmp k.column) v w).then (compareKeys T keys vs ws)
  | _, _, _ => .eq

/-- The row equals the cursor in these columns. -/
def equals (T : Table) (keys : List (Key × Value)) (row : T.Row) : Bool :=
  keys.all fun (k, v) => T.cell row k.column = some v

/-- The row is behind the cursor by these columns. -/
def behind (T : Table) : List (Key × Value) → T.Row → Bool
  | [], _ => false
  | (k, v) :: keys, row =>
    ((T.cell row k.column).any fun w =>
      T.cmp k.column w v = if k.sort.descending then .lt else .gt) ||
    (T.cell row k.column = some v && behind T keys row)

section
variable {T : Table} {keys : List (Key × Value)} {ws : List Value} {row : T.Row}

theorem directed_lt_iff {column : String} {descending : Bool} {v w : Value} :
    Paging.directed descending (T.cmp column) v w = .lt ↔
      T.cmp column w v = if descending then .lt else .gt := by
  cases descending with
  | false => exact Std.OrientedCmp.gt_iff_lt.symm
  | true => exact Iff.rfl

/-- Without `NULL` the rows behind a cursor are those that the order puts after it. -/
theorem behind_iff_compareKeys
    (h : List.Forall₂ (fun x w => T.cell row x.1.column = some w) keys ws) :
    behind T keys row = true ↔
      compareKeys T (keys.map Prod.fst) (keys.map Prod.snd) ws = .lt := by
  induction h with
  | nil => simp [behind, compareKeys]
  | @cons x w keys ws hcell _ ih =>
    simp only [behind, hcell, List.map_cons, compareKeys, Option.any_some, Option.some.injEq,
      Bool.or_eq_true, Bool.and_eq_true, decide_eq_true_eq, Ordering.then_eq_lt, directed_lt_iff,
      Paging.directed_eq_iff]
    rw [eq_comm (a := w)]
    exact or_congr Iff.rfl (and_congr Iff.rfl ih)

end

/-! ## Numbers -/

section
variable {start : Nat} {before keys : List (Key × Value)}

/-- The placeholders are numbered without a gap. -/
theorem partsFrom_index : ((partsFrom start before keys).flatMap Part.params).map Param.index =
    List.range' start (keysetArgs before keys).length := by
  rw [partsFrom_params, mapIdx_numbers, List.range'_eq_map_range]

/-- How many arguments there are: each alternative compares one column more than the last. -/
theorem keysetArgs_length : 2 * (keysetArgs before keys).length =
    keys.length * (2 * before.length + keys.length + 1) := by
  induction keys generalizing before with
  | nil => simp [keysetArgs]
  | cons x keys ih =>
    have hrest := @ih (before ++ [x])
    simp only [keysetArgs, List.length_append, List.length_map, List.length_cons,
      List.length_nil] at hrest ⊢
    rw [Nat.mul_add, hrest]
    ring

end

/-! ## The clause with its arguments -/

section
variable {T : Table} {start : Nat} {before keys : List (Key × Value)}

theorem partsFrom_holds (row : T.Row) :
    ((partsFrom start before keys).map (Part.map Param.own)).any (Part.holds T row) =
      (equals T before row && behind T keys row) := by
  induction keys generalizing start before with
  | nil => simp [partsFrom, behind]
  | cons x keys ih =>
    have hequal : ((equalFrom start before).map fun x => (x.1, x.2.own)).all
        (fun x => T.cell row x.1 = some x.2) = equals T before row := by
      rw [equalFrom_own, List.all_map]
      rfl
    simp only [partsFrom, List.map_cons, List.any_cons, ih, Part.holds, Part.map, hequal, behind,
      equals, List.all_append, List.all_cons, List.all_nil, Bool.and_true]
    cases before.all fun x => decide (T.cell row x.1.column = some x.2) <;> simp

end

/-- The argument for a number, where the first argument has the number `start`. -/
def argumentFrom (start : Nat) (args : List Value) (n : Nat) : Value :=
  (args[n - start]?).getD (.text "")

theorem argumentFrom_of_at {start : Nat} {args : List Value} {p : Param} (h : p.At start args) :
    argumentFrom start args p.index = p.own := by
  rw [argumentFrom, h.2, Option.getD_some]

/-- Of a row without `NULL` in the sort columns, the clause is true with its arguments if and only
    if the row comes strictly after the cursor's values. With `n` sorts the clause uses the numbers
    from `argStart` on, `n (n + 1) / 2` of them and each once. Its alternative `i` compares the
    first `i` columns and column `i`, each with the argument that is the cursor's value for it. -/
theorem keyset_is_strict_order (lib : Lib) (T : Table) (keys : List Key) (values : List Value)
    (argStart : Nat) (hvalues : List.Forall₂ (fun k v => k.coerce lib = .ok v) keys values) :
    ∃ parts args, keysetPredicate lib keys argStart = .ok (.keyset parts, args) ∧
      (∀ row ws, List.Forall₂ (fun k w => T.cell row k.column = some w) keys ws →
        (Cond.holds T row
            ((Cond.keyset parts).map fun p => argumentFrom argStart args p.index) = true ↔
          compareKeys T keys values ws = .lt)) ∧
      args.length = keys.length * (keys.length + 1) / 2 ∧
      (Cond.keyset parts).params.map Param.index = List.range' argStart args.length ∧
      parts.length = keys.length ∧
      ∀ i k v, keys[i]? = some k → values[i]? = some v →
        ∃ part, parts[i]? = some part ∧
          part.map (fun p => argumentFrom argStart args p.index) =
            partAt ((keys.zip values).take i) (k, v) := by
  obtain ⟨pairs, rfl, rfl⟩ : ∃ pairs : List (Key × Value),
      pairs.map Prod.fst = keys ∧ pairs.map Prod.snd = values :=
    ⟨keys.zip values, List.map_fst_zip (le_of_eq hvalues.length_eq),
      List.map_snd_zip (le_of_eq hvalues.length_eq.symm)⟩
  have hcoerce : ∀ x ∈ pairs, x.1.coerce lib = .ok x.2 := fun x hx => by
    refine List.forall₂_zip hvalues ?_
    rw [List.zip_map', List.map_id'']
    · exact hx
    · exact fun _ => rfl
  -- In the clause every placeholder may be read as the value that it stands for.
  have hat : ∀ part ∈ partsFrom argStart [] pairs, part.map (fun p =>
      argumentFrom argStart (keysetArgs [] pairs) p.index) = part.map Param.own := fun part hpart =>
    Part.map_congr fun p hp => argumentFrom_of_at (partsFrom_at p (List.mem_flatMap_of_mem hpart hp))
  refine ⟨partsFrom argStart [] pairs, keysetArgs [] pairs, ?_, ?_, ?_, partsFrom_index, ?_, ?_⟩
  · exact keysetPredicate_eq hcoerce
  · intro row ws hcells
    have hcells : List.Forall₂ (fun x w => T.cell row x.1.column = some w) pairs ws :=
      List.forall₂_map_left_iff.mp hcells
    simp only [← behind_iff_compareKeys hcells, Cond.map, Cond.holds, List.map_congr_left hat,
      partsFrom_holds, equals, List.all_nil, Bool.true_and]
  · have hlength := @keysetArgs_length [] pairs
    simp only [List.length_nil, Nat.mul_zero, Nat.zero_add, List.length_map] at hlength ⊢
    omega
  · rw [partsFrom_length, List.length_map]
  · intro i k v hk hv
    obtain ⟨x, hx, rfl⟩ : ∃ x, pairs[i]? = some x ∧ x = (k, v) := by
      rw [List.getElem?_map] at hk hv
      cases hx : pairs[i]? with
      | none => simp [hx] at hk
      | some x =>
        simp only [hx, Option.map_some, Option.some.injEq] at hk hv
        exact ⟨x, rfl, Prod.ext hk hv⟩
    have hown := @partsFrom_own argStart [] pairs i (k, v) hx
    rw [List.getElem?_map] at hown
    obtain ⟨part, hpart, hmap⟩ := Option.map_eq_some_iff.mp hown
    refine ⟨part, hpart, ?_⟩
    rw [hat part (List.mem_of_getElem? hpart), hmap, List.zip_map', List.map_id'', List.nil_append]
    exact fun _ => rfl

/-- Values by numbers. -/
def numbers : Value → List Nat
  | .text s => 0 :: codes s
  | .int n => [1, if n < 0 then 0 else 1, n.natAbs]
  | .bool b => [2, b.toNat]
  | .time t => [3, t.stamp]

theorem numbers_injective : Function.Injective numbers := by
  intro a b h
  cases a <;> cases b <;> simp only [numbers, List.cons.injEq] at h
  case text.text => rw [codes_injective h.2]
  case int.int n m =>
    obtain ⟨-, hsign, habs, -⟩ := h
    rw [show n = m by split_ifs at hsign <;> omega]
  case bool.bool a b =>
    rw [show a = b by cases a <;> cases b <;> first | rfl | exact absurd h.2.1 (by decide)]
  case time.time => rw [Text.Time.stamp_injective h.2.1]
  all_goals exact absurd h.1 (by decide)

/-- Two keys of one name. -/
def twoKeys : Table where
  Row := Bool
  rows := [false, true]
  cell key column :=
    if column = "k.id" then some (.text (if key then "b" else "a"))
    else some (.text "")
  cmp _ a b := List.compareLex compare (numbers a) (numbers b)
  cmp_trans _ := Paging.transCmp_on numbers (List.compareLex compare)
  cmp_lawful _ := {
    compare_self := fun {a} => @Std.ReflCmp.compare_self _ (List.compareLex compare) _ (numbers a)
    eq_of_compare := fun h => numbers_injective (Std.LawfulEqCmp.eq_of_compare h) }
  ilike _ _ := false
  expr _ _ _ := false

/-- Keys by their names from the last, then by their ids. -/
def nameThenId : List Key :=
  [⟨⟨"name", true⟩, "k.name", .string, ""⟩, ⟨⟨"id", false⟩, "k.id", .uuid, "a"⟩]

/-- Behind the first of two keys of the same name comes the second. -/
theorem keyset_is_strict_order_names :
    let T := twoKeys
    ∃ parts args, keysetPredicate .simple nameThenId 5 = .ok (.keyset parts, args) ∧
      Cond.holds T true
        ((Cond.keyset parts).map fun p => argumentFrom 5 args p.index) = true ∧
      (Cond.keyset parts).params.map Param.index = [5, 6, 7] := by
  intro T
  obtain ⟨parts, args, hok, hholds, hlength, hindex, -⟩ :=
    keyset_is_strict_order .simple T nameThenId [.text "", .text "a"] 5
      (.cons rfl (.cons rfl .nil))
  refine ⟨parts, args, hok, ?_, ?_⟩
  · refine (hholds true [.text "", .text "b"] (.cons ?_ (.cons ?_ .nil))).mpr ?_
    · simp [T, twoKeys]
    · simp [T, twoKeys]
    · decide
  · rw [hindex, hlength]
    rfl

end Ultracore.Query
