-- SUMMARY: Every placeholder stands for its own clause's value, and no value reaches the text.
import Ultracore.Query.Compile

/-!
# Placeholders

Placeholders are numbered from counts of arguments, in one way in the search, in another in the
filters and in a third in the loops of the keyset condition. Each generator is shown to number its
placeholders by the positions of its own values, and to number them alike for requests of one
shape.
-/

namespace Ultracore.Query

variable {out x y : List (Cond Param) × List Value} {cursor : Option CursorPayload}

/-! ## Positions -/

/-- The placeholder's value is where its number says, counting from `start`. -/
def Param.At (start : Nat) (args : List Value) (p : Param) : Prop :=
  start ≤ p.index ∧ args[p.index - start]? = some p.own

/-- Placeholders count from one. -/
def Param.Bound (args : List Value) (p : Param) : Prop := p.At 1 args

section
variable {start : Nat} {args args' new : List Value} {p : Param} {v : Value}

theorem Param.At.append (h : p.At start args) : p.At start (args ++ new) := by
  obtain ⟨hle, hget⟩ := h
  refine ⟨hle, ?_⟩
  rw [List.getElem?_append_left (List.getElem?_eq_some_iff.mp hget).1, hget]

theorem Param.At.mono (h : p.At start args) (hext : args <+: args') : p.At start args' := by
  obtain ⟨new, rfl⟩ := hext
  exact h.append

/-- The next argument. -/
theorem Param.at_next : Param.At start (args ++ [v]) ⟨start + args.length, v⟩ := by
  refine ⟨Nat.le_add_right _ _, ?_⟩
  simp

theorem Param.bound_last : Param.Bound (args ++ [v]) ⟨(args ++ [v]).length, v⟩ := by
  have h := @Param.at_next 1 args v
  rwa [Nat.add_comm 1, show args.length + 1 = (args ++ [v]).length by simp] at h

/-- What counts from behind the arguments so far. -/
theorem Param.At.bound (h : p.At (args.length + 1) new) : p.Bound (args ++ new) := by
  obtain ⟨hle, hget⟩ := h
  refine ⟨by omega, ?_⟩
  rw [List.getElem?_append_right (by omega), ← hget]
  congr 1
  omega

end

section
variable {lib : Lib} {col : Collection} {f : Field} {fl : Filter} {start : Nat}
  {args args' new : List Value}

theorem searchParts_bound (q : String) (fields : List Field) (args : List Value) :
    args <+: (searchParts q fields args).2 ∧
      ∀ x ∈ (searchParts q fields args).1, x.2.Bound (searchParts q fields args).2 := by
  induction fields generalizing args with
  | nil => simp [searchParts]
  | cons f fields ih =>
    unfold searchParts
    split
    · exact ih args
    · obtain ⟨hext, hbound⟩ := ih (args ++ [.text ("%" ++ escapeLike q ++ "%")])
      refine ⟨(List.prefix_append _ _).trans hext, ?_⟩
      intro x hx
      rcases List.mem_cons.mp hx with rfl | hx
      · exact Param.bound_last.mono hext
      · exact hbound x hx

/-- What a generator returns: the arguments so far and more, and clauses whose placeholders stand
    for their own values. -/
structure Sound (args : List Value) (out : List (Cond Param) × List Value) : Prop where
  grows : args <+: out.2
  bound : ∀ cond ∈ out.1, ∀ p ∈ cond.params, p.Bound out.2

theorem compileSearch_sound {query : String}
    (h : compileSearch col query args = .ok out) : Sound args out := by
  simp only [compileSearch] at h
  split at h
  · cases h
    exact ⟨List.prefix_rfl, by simp⟩
  · split at h
    · obtain ⟨hext, hbound⟩ := searchParts_bound (Text.trimSpace query) col.fields args
      split at h
      · simp at h
      · next parts args' _ heq =>
          rw [heq] at hext hbound
          cases h
          refine ⟨hext, ?_⟩
          simp only [List.mem_singleton, forall_eq, Cond.params, List.mem_map]
          rintro p ⟨x, hx, rfl⟩
          exact hbound x hx
    · cases h
      refine ⟨List.prefix_append _ _, ?_⟩
      simpa [Cond.params] using Param.bound_last

theorem at_mapIdx (vs : List Value) :
    ∀ p ∈ vs.mapIdx fun i v => (⟨start + i, v⟩ : Param), p.At start vs := by
  intro p hp
  obtain ⟨i, hi, rfl⟩ := List.mem_mapIdx.mp hp
  exact ⟨Nat.le_add_right _ _, by simp⟩

theorem compileFilter_at {clause : Cond Param}
    (h : compileFilter lib f fl start = .ok (clause, new)) : ∀ p ∈ clause.params, p.At start new := by
  have hsingle : ∀ v : Value, ∀ p ∈ [(⟨start, v⟩ : Param)], p.At start [v] := by
    intro v p hp
    obtain rfl := List.mem_singleton.mp hp
    exact ⟨Nat.le_refl _, by simp⟩
  have hcompare : (do
      let v ← coerceFilter lib f fl.value
      return ((.compare f.column fl.op ⟨start, v⟩ : Cond Param), [v])) = Except.ok (clause, new) →
      ∀ p ∈ clause.params, p.At start new := by
    intro h
    obtain ⟨v, -, h⟩ := bind_ok h
    cases h
    exact hsingle v
  unfold compileFilter at h
  cases hop : fl.op with
  | isNull | isNotNull =>
    simp only [hop] at h
    cases h
    simp [Cond.params]
  | oneOf | notIn =>
    simp only [hop] at h
    obtain ⟨vs, -, h⟩ := bind_ok h
    obtain ⟨rfl, rfl⟩ := Prod.mk.inj (Except.ok.inj h)
    exact at_mapIdx vs
  | contains | startsWith =>
    simp only [hop] at h
    cases h
    exact hsingle _
  | eq | ne | lt | lte | gt | gte =>
    simp only [hop] at h
    exact hcompare (by rw [hop]; exact h)

theorem compileFilters_sound {filters : List Filter}
    (h : compileFilters lib col filters args = .ok out) : Sound args out := by
  induction filters generalizing args out with
  | nil =>
    cases h
    exact ⟨List.prefix_rfl, by simp⟩
  | cons fl filters ih =>
    obtain ⟨⟨clause, new⟩, hclause, h⟩ := bind_ok h
    obtain ⟨⟨clauses, args'⟩, hrest, h⟩ := bind_ok h
    cases h
    obtain ⟨hext, hbound⟩ := ih hrest
    refine ⟨(List.prefix_append _ _).trans hext, ?_⟩
    intro cond hcond
    rcases List.mem_cons.mp hcond with rfl | hcond
    · intro p hp
      exact (compileFilter_at hclause p hp).bound.mono hext
    · exact hbound cond hcond

end

/-! ## The keyset condition -/

/-- Columns with their values, numbered from `start`. -/
def equalFrom : Nat → List (Key × Value) → List (String × Param)
  | _, [] => []
  | start, (k, v) :: keys => (k.column, ⟨start, v⟩) :: equalFrom (start + 1) keys

/-- The alternatives of the keyset condition, numbered from `start`. -/
def partsFrom : Nat → List (Key × Value) → List (Key × Value) → List (Part Param)
  | _, _, [] => []
  | start, before, (k, v) :: keys =>
    ⟨equalFrom start before, k.column, k.sort.descending, ⟨start + before.length, v⟩⟩ ::
      partsFrom (start + before.length + 1) (before ++ [(k, v)]) keys

/-- The arguments of the keyset condition. -/
def keysetArgs : List (Key × Value) → List (Key × Value) → List Value
  | _, [] => []
  | before, x :: keys => before.map Prod.snd ++ [x.2] ++ keysetArgs (before ++ [x]) keys

section
variable {lib : Lib} {start : Nat} {args : List Value} {before keys : List (Key × Value)}

theorem keysetEqual_eq (h : ∀ x ∈ keys, x.1.coerce lib = .ok x.2) :
    keysetEqual lib start (keys.map Prod.fst) args =
      .ok (equalFrom (start + args.length) keys, args ++ keys.map Prod.snd) := by
  induction keys generalizing args with
  | nil => simp [keysetEqual, equalFrom]
  | cons x keys ih =>
    have hrest := @ih (args ++ [x.2]) fun y hy => h y (by simp [hy])
    simp only [List.map_cons, keysetEqual, h x (by simp), hrest, bind, Except.bind, pure,
      Except.pure, equalFrom, List.length_append, List.length_singleton, Nat.add_assoc,
      List.append_assoc, List.singleton_append]

theorem keysetParts_eq (hbefore : ∀ x ∈ before, x.1.coerce lib = .ok x.2)
    (h : ∀ x ∈ keys, x.1.coerce lib = .ok x.2) :
    keysetParts lib start (before.map Prod.fst) (keys.map Prod.fst) args =
      .ok (partsFrom (start + args.length) before keys, args ++ keysetArgs before keys) := by
  induction keys generalizing before args with
  | nil => simp [keysetParts, partsFrom, keysetArgs]
  | cons x keys ih =>
    have hx : x.1.coerce lib = .ok x.2 := h x (by simp)
    have hrest := @ih (args ++ before.map Prod.snd ++ [x.2]) (before ++ [x])
      (fun y hy => by
        rcases List.mem_append.mp hy with hy | hy
        · exact hbefore y hy
        · rw [List.mem_singleton.mp hy]
          exact hx)
      (fun y hy => h y (by simp [hy]))
    rw [List.map_append, List.map_singleton] at hrest
    simp only [List.map_cons, keysetParts, keysetEqual_eq hbefore, hx, hrest, bind, Except.bind,
      pure, Except.pure]
    simp only [partsFrom, keysetArgs, List.length_append, List.length_map,
      List.length_singleton, Nat.add_assoc, List.append_assoc]

theorem keysetPredicate_eq (h : ∀ x ∈ keys, x.1.coerce lib = .ok x.2) :
    keysetPredicate lib (keys.map Prod.fst) start =
      .ok (.keyset (partsFrom start [] keys), keysetArgs [] keys) := by
  have hparts := @keysetParts_eq lib start [] [] keys (by simp) h
  simp only [List.map_nil, List.length_nil, Nat.add_zero, List.nil_append] at hparts
  simp only [keysetPredicate, hparts, bind, Except.bind, pure, Except.pure]

/-- Where a condition is made, every key has a value. -/
theorem keysetParts_coerced {before keys : List Key} {out : List (Part Param) × List Value}
    (h : keysetParts lib start before keys args = .ok out) : ∃ pairs : List (Key × Value),
      pairs.map Prod.fst = keys ∧ ∀ x ∈ pairs, x.1.coerce lib = .ok x.2 := by
  induction keys generalizing before args out with
  | nil => exact ⟨[], rfl, by simp⟩
  | cons k keys ih =>
    obtain ⟨_, -, h⟩ := bind_ok h
    obtain ⟨v, hv, h⟩ := bind_ok h
    obtain ⟨_, hrest, -⟩ := bind_ok h
    obtain ⟨pairs, rfl, hpairs⟩ := ih hrest
    exact ⟨(k, v) :: pairs, rfl, List.forall_mem_cons.mpr ⟨hv, hpairs⟩⟩

theorem keysetPredicate_ok {keys : List Key} {out : Cond Param × List Value}
    (h : keysetPredicate lib keys start = .ok out) : ∃ pairs : List (Key × Value),
      pairs.map Prod.fst = keys ∧ (∀ x ∈ pairs, x.1.coerce lib = .ok x.2) ∧
        out = (.keyset (partsFrom start [] pairs), keysetArgs [] pairs) := by
  obtain ⟨_, hparts, -⟩ := bind_ok h
  obtain ⟨pairs, rfl, hpairs⟩ := keysetParts_coerced hparts
  exact ⟨pairs, rfl, hpairs, Except.ok.inj (h.symm.trans (keysetPredicate_eq hpairs))⟩

theorem equalFrom_params : (equalFrom start keys).map Prod.snd =
    (keys.map Prod.snd).mapIdx fun i v => (⟨start + i, v⟩ : Param) := by
  induction keys generalizing start with
  | nil => rfl
  | cons x keys ih => simp [equalFrom, ih, Nat.add_assoc, Nat.add_comm 1]

/-- The placeholders are numbered by the positions of the arguments. -/
theorem partsFrom_params : (partsFrom start before keys).flatMap Part.params =
    (keysetArgs before keys).mapIdx fun i v => ⟨start + i, v⟩ := by
  induction keys generalizing start before with
  | nil => rfl
  | cons x keys ih =>
    simp only [partsFrom, keysetArgs, List.flatMap_cons, ih, Part.params, equalFrom_params,
      List.mapIdx_append, List.mapIdx_singleton, List.length_append, List.length_map,
      List.length_singleton, Nat.add_zero, Nat.add_assoc, Nat.add_comm, Nat.add_left_comm, Prod.mk.eta]

theorem partsFrom_at : ∀ p ∈ (partsFrom start before keys).flatMap Part.params,
    p.At start (keysetArgs before keys) := by
  rw [partsFrom_params]
  exact at_mapIdx _

/-- An alternative of the keyset condition over the cursor's values: equal in the columns before,
    and behind in one. -/
def partAt (before : List (Key × Value)) (x : Key × Value) : Part Value :=
  ⟨before.map fun x => (x.1.column, x.2), x.1.column, x.1.sort.descending, x.2⟩

theorem partsFrom_length : (partsFrom start before keys).length = keys.length := by
  induction keys generalizing start before with
  | nil => rfl
  | cons x keys ih => simp [partsFrom, ih]

theorem equalFrom_own : (equalFrom start keys).map (fun x => (x.1, x.2.own)) =
    keys.map fun x => (x.1.column, x.2) := by
  induction keys generalizing start with
  | nil => rfl
  | cons x keys ih => simp [equalFrom, ih]

theorem partsFrom_own {i : Nat} {x : Key × Value} (h : keys[i]? = some x) :
    ((partsFrom start before keys).map (Part.map Param.own))[i]? =
      some (partAt (before ++ keys.take i) x) := by
  induction keys generalizing start before i with
  | nil => simp at h
  | cons y keys ih =>
    cases i with
    | zero =>
      obtain rfl : y = x := by simpa using h
      simp [partsFrom, Part.map, equalFrom_own, partAt]
    | succ i =>
      have hrest := @ih (start + before.length + 1) (before ++ [y]) i (by simpa using h)
      simpa [partsFrom] using hrest

theorem compileKeyset_sound {col : Collection} {sorts : List SortKey}
    (h : compileKeyset lib col sorts cursor args = .ok out) : Sound args out := by
  cases cursor with
  | none =>
    cases h
    exact ⟨List.prefix_rfl, by simp⟩
  | some =>
    obtain ⟨⟨clause, new⟩, hclause, h⟩ := bind_ok h
    cases h
    obtain ⟨pairs, -, -, hpairs⟩ := keysetPredicate_ok hclause
    cases hpairs
    refine ⟨List.prefix_append _ _, ?_⟩
    simp only [List.mem_singleton, forall_eq]
    exact fun p hp => (partsFrom_at p hp).bound

end

section
variable {lib : Lib} {signer : Option Signer} {now : Int} {col : Collection} {req : Request}
  {c : Compiled}

theorem compileWhere_sound {sorts : List SortKey}
    (h : compileWhere lib col req sorts cursor = .ok out) :
    Sound (col.selectArgs.map Value.text) out := by
  obtain ⟨⟨search, args₁⟩, hsearch, h⟩ := bind_ok h
  obtain ⟨⟨filters, args₂⟩, hfilters, h⟩ := bind_ok h
  obtain ⟨⟨keyset, args₃⟩, hkeyset, h⟩ := bind_ok h
  cases h
  obtain ⟨hext₁, hbound₁⟩ := compileSearch_sound hsearch
  obtain ⟨hext₂, hbound₂⟩ := compileFilters_sound hfilters
  obtain ⟨hext₃, hbound₃⟩ := compileKeyset_sound hkeyset
  refine ⟨hext₁.trans (hext₂.trans hext₃), ?_⟩
  intro cond hcond p hp
  simp only [List.mem_append] at hcond
  rcases hcond with (hcond | hcond) | hcond
  · exact (hbound₁ cond hcond p hp).mono (hext₂.trans hext₃)
  · exact (hbound₂ cond hcond p hp).mono hext₃
  · exact hbound₃ cond hcond p hp

/-- The arguments of a plan, at the numbers of its placeholders. -/
theorem compile_bound (h : compile lib signer now col req = .ok c) :
    ∀ p ∈ c.statement.params, p.Bound c.args := by
  obtain ⟨cursor, conds, args, -, -, hwhere, rfl⟩ := compile_ok h
  obtain ⟨-, hbound⟩ := compileWhere_sound hwhere
  intro p hp
  rcases List.mem_append.mp hp with hp | hp
  · obtain ⟨cond, hcond, hp⟩ := List.mem_flatMap.mp hp
    exact (hbound cond hcond p hp).append
  · obtain rfl := List.mem_singleton.mp hp
    exact Param.bound_last

end

/-! ## What clauses ask for -/

/-- The value that a text is in a column of a type. -/
def FieldType.reading (lib : Lib) (t : FieldType) (text : String) : Option Value :=
  match t with
  | .int => (parseInt lib text).toOption.map .int
  | .bool => (parseBool lib text).toOption.map .bool
  | .timestamp => (parseTimestamp lib text).toOption.map .time
  | _ => some (.text text)

/-- A field that the text search looks at. -/
def Field.searched (field : Field) : Bool :=
  field.searchable && (field.type = .string || field.type = .json)

/-- A search asks for its text in the columns that it looks at. -/
def Collection.asked (col : Collection) (query : String) : List (Cond (Option Value)) :=
  let q := Text.trimSpace query
  if q = "" then []
  else if col.searchExpr = "" then
    [.search ((col.fields.filter Field.searched).map fun field =>
      (field.column, some (.text ("%" ++ escapeLike q ++ "%"))))]
  else [.searchExpr col.searchExpr (some (.text q))]

/-- A filter asks for its values in its column. -/
def Filter.asked (lib : Lib) (f : Field) (fl : Filter) : Cond (Option Value) :=
  match fl.op with
  | .isNull => .isNull f.column
  | .isNotNull => .isNotNull f.column
  | .oneOf => .oneOf f.column false (fl.values.elems.map (f.type.reading lib))
  | .notIn => .oneOf f.column true (fl.values.elems.map (f.type.reading lib))
  | .contains => .like f.column (some (.text ("%" ++ escapeLike fl.value ++ "%")))
  | .startsWith => .like f.column (some (.text (escapeLike fl.value ++ "%")))
  | op => .compare f.column op (f.type.reading lib fl.value)

/-- The cursor's value for a column. -/
def Key.reading (lib : Lib) (k : Key) : Option Value := k.type.reading lib k.value

/-- A cursor asks, for each column, for the cursor's values in the columns before and for more
    than the cursor's value in this one. -/
def keysetAsked (lib : Lib) (keys : List Key) : Cond (Option Value) :=
  .keyset (keys.mapIdx fun i k =>
    ⟨(keys.take i).map fun k' => (k'.column, k'.reading lib), k.column, k.sort.descending,
      k.reading lib⟩)

/-- What a request with a verified cursor asks for, clause by clause. -/
def Request.asked (lib : Lib) (col : Collection) (req : Request) (cursor : Option CursorPayload) :
    List (Cond (Option Value)) :=
  col.asked req.query ++
    req.filters.elems.map (fun fl => fl.asked lib (col.field fl.field)) ++
    cursor.toList.map fun p => keysetAsked lib (keysOf col (effectiveSorts col req) p.sortValues.elems)

/-- The argument at the position that a placeholder's number says. -/
def argument (args : List Value) (n : Nat) : Option Value := if n = 0 then none else args[n - 1]?

section
variable {π ρ : Type} {f g : π → ρ}

theorem Part.map_map {σ : Type} {g : ρ → σ} (part : Part π) :
    (part.map f).map g = part.map fun p => g (f p) := by
  simp [Part.map]

theorem Part.params_map (part : Part π) : (part.map f).params = part.params.map f := by
  simp [Part.params, Part.map]

theorem Cond.map_map {σ : Type} {g : ρ → σ} (cond : Cond π) :
    (cond.map f).map g = cond.map fun p => g (f p) := by
  cases cond <;> simp [Cond.map, Part.map_map]

theorem Cond.params_map (cond : Cond π) : (cond.map f).params = cond.params.map f := by
  cases cond <;> simp [Cond.map, Cond.params, List.flatMap_map, List.map_flatMap, Part.params_map]

theorem Part.map_congr {part : Part π} (h : ∀ p ∈ part.params, f p = g p) :
    part.map f = part.map g := by
  have hequal : ∀ x ∈ part.equal, f x.2 = g x.2 := fun x hx =>
    h x.2 (List.mem_append_left _ (List.mem_map_of_mem hx))
  have hbound : f part.bound = g part.bound := h _ (List.mem_append_right _ (by simp))
  simp only [Part.map, hbound, Part.mk.injEq, and_true]
  exact List.map_congr_left fun x hx => by rw [hequal x hx]

theorem Cond.map_congr {cond : Cond π} (h : ∀ p ∈ cond.params, f p = g p) :
    cond.map f = cond.map g := by
  cases cond with
  | search columns =>
    have hcolumns : ∀ x ∈ columns, f x.2 = g x.2 := fun x hx => h x.2 (List.mem_map_of_mem hx)
    exact congrArg Cond.search (List.map_congr_left fun x hx =>
      congrArg (Prod.mk x.1) (hcolumns x hx))
  | searchExpr expr p | like column p | compare column op p =>
    rw [Cond.map, Cond.map, h p (by simp [Cond.params])]
  | isNull | isNotNull => rfl
  | oneOf => exact congrArg _ (List.map_congr_left h)
  | keyset =>
    exact congrArg _ (List.map_congr_left fun part hpart => Part.map_congr fun p hp =>
      h p (List.mem_flatMap.mpr ⟨part, hpart, hp⟩))

end

theorem argument_of_bound {args : List Value} {p : Param} (h : p.Bound args) :
    argument args p.index = some p.own := by
  rw [argument, if_neg (Nat.ne_of_gt h.1), h.2]

section
variable {lib : Lib} {col : Collection} {args : List Value}

theorem FieldType.reading_of_coerce {t : FieldType} {text : String} {v : Value}
    (h : coerce lib t text = .ok v) : t.reading lib text = some v := by
  have hmap : ∀ {α : Type} {x : Except String α} {mk : α → Value}, x.map mk = .ok v →
      x.toOption.map mk = some v := by
    rintro α (_ | a) mk hx
    · cases hx
    · exact congrArg some (Except.ok.inj hx)
  cases t with
  | int | bool | timestamp => exact hmap h
  | string | uuid | json | unspecified => exact congrArg some (Except.ok.inj h)

theorem mapError_ok {ε ε' α : Type} {x : Except ε α} {g : ε → ε'} {a : α}
    (h : x.mapError g = .ok a) : x = .ok a := by
  cases x with
  | error => cases h
  | ok => exact congrArg _ (Except.ok.inj h)

theorem reading_of_coerceFilter {f : Field} {text : String} {v : Value}
    (h : coerceFilter lib f text = .ok v) : f.type.reading lib text = some v :=
  FieldType.reading_of_coerce (mapError_ok h)

/-- What a function makes of every element, where it fails on none. -/
theorem mapM_ok {α β ε : Type} {g : α → Except ε β} {r : α → Option β} {l : List α} {l' : List β}
    (hr : ∀ a b, g a = .ok b → r a = some b) (h : l.mapM g = .ok l') : l.map r = l'.map some := by
  induction l generalizing l' with
  | nil =>
    rw [List.mapM_nil] at h
    cases h
    rfl
  | cons a l ih =>
    rw [List.mapM_cons] at h
    obtain ⟨b, hb, h⟩ := bind_ok h
    obtain ⟨l', hrest, h⟩ := bind_ok h
    cases h
    exact congrArg₂ List.cons (hr a b hb) (ih hrest)

theorem searchParts_own (q : String) (fields : List Field) (args : List Value) :
    (searchParts q fields args).1.map (fun x => (x.1, some x.2.own)) =
      (fields.filter Field.searched).map fun field =>
        (field.column, some (.text ("%" ++ escapeLike q ++ "%"))) := by
  induction fields generalizing args with
  | nil => rfl
  | cons field fields ih =>
    by_cases hfield : field.searched = true
    · have hsearch : ¬(field.searchable = false ∨ (field.type ≠ .string ∧ field.type ≠ .json)) := by
        simp only [Field.searched, Bool.and_eq_true, Bool.or_eq_true, decide_eq_true_eq] at hfield
        rintro (hnot | hnot)
        · exact absurd hfield.1 (by rw [hnot]; decide)
        · exact hfield.2.elim hnot.1 hnot.2
      rw [searchParts, if_neg hsearch, List.filter_cons_of_pos hfield]
      simp [ih]
    · have hsearch : field.searchable = false ∨ (field.type ≠ .string ∧ field.type ≠ .json) := by
        simp only [Field.searched, Bool.and_eq_true, Bool.or_eq_true, decide_eq_true_eq] at hfield
        cases h : field.searchable with
        | false => exact .inl rfl
        | true => exact .inr (not_or.mp fun htype => hfield ⟨h, htype⟩)
      rw [searchParts, if_pos hsearch, List.filter_cons_of_neg hfield, ih]

theorem compileSearch_own {query : String} (h : compileSearch col query args = .ok out) :
    out.1.map (Cond.map fun p => some p.own) = col.asked query := by
  simp only [compileSearch] at h
  rw [Collection.asked]
  split at h
  next hblank =>
    cases h
    rw [if_pos hblank]
    rfl
  next hq =>
    rw [if_neg hq]
    split at h
    next hexpr =>
      have hown := searchParts_own (Text.trimSpace query) col.fields args
      rw [if_pos hexpr, ← hown]
      split at h
      · cases h
      · next heq =>
          cases h
          rw [heq]
          rfl
    next hexpr =>
      cases h
      rw [if_neg hexpr]
      rfl

theorem compileFilter_own {f : Field} {fl : Filter} {start : Nat} {clause : Cond Param}
    {new : List Value} (h : compileFilter lib f fl start = .ok (clause, new)) :
    clause.map (fun p => some p.own) = fl.asked lib f := by
  have hseveral : ∀ {vs : List Value}, fl.values.elems.mapM (coerceFilter lib f) = .ok vs →
      (vs.mapIdx fun i v => (⟨start + i, v⟩ : Param)).map (fun p => some p.own) =
        fl.values.elems.map (f.type.reading lib) := by
    intro vs hvs
    rw [mapM_ok (fun _ _ => reading_of_coerceFilter) hvs]
    exact List.ext_getElem? fun i => by simp [Function.comp_def]
  unfold compileFilter at h
  unfold Filter.asked
  cases hop : fl.op with
  | isNull | isNotNull | contains | startsWith =>
    simp only [hop] at h
    cases h
    rfl
  | oneOf | notIn =>
    simp only [hop] at h
    obtain ⟨vs, hvs, h⟩ := bind_ok h
    obtain ⟨rfl, rfl⟩ := Prod.mk.inj (Except.ok.inj h)
    exact congrArg _ (hseveral hvs)
  | eq | ne | lt | lte | gt | gte =>
    simp only [hop] at h
    obtain ⟨v, hv, h⟩ := bind_ok h
    cases h
    exact congrArg _ (reading_of_coerceFilter hv).symm

theorem compileFilters_own {filters : List Filter}
    (h : compileFilters lib col filters args = .ok out) :
    out.1.map (Cond.map fun p => some p.own) =
      filters.map fun fl => fl.asked lib (col.field fl.field) := by
  induction filters generalizing args out with
  | nil =>
    cases h
    rfl
  | cons fl filters ih =>
    obtain ⟨⟨clause, new⟩, hclause, h⟩ := bind_ok h
    obtain ⟨⟨clauses, args'⟩, hrest, h⟩ := bind_ok h
    cases h
    exact congrArg₂ List.cons (compileFilter_own hclause) (ih hrest)

theorem compileKeyset_own {sorts : List SortKey}
    (h : compileKeyset lib col sorts cursor args = .ok out) :
    out.1.map (Cond.map fun p => some p.own) =
      cursor.toList.map fun p => keysetAsked lib (keysOf col sorts p.sortValues.elems) := by
  cases cursor with
  | none =>
    cases h
    rfl
  | some p =>
    obtain ⟨⟨clause, new⟩, hclause, h⟩ := bind_ok h
    cases h
    obtain ⟨pairs, hkeys, hcoerce, hpairs⟩ := keysetPredicate_ok hclause
    cases hpairs
    refine congrArg (fun parts => [Cond.keyset parts]) ?_
    have hread : ∀ x ∈ pairs, x.1.reading lib = some x.2 := fun x hx =>
      FieldType.reading_of_coerce (mapError_ok (hcoerce x hx))
    rw [← hkeys]
    refine List.ext_getElem? fun i => ?_
    rw [List.getElem?_mapIdx, List.getElem?_map, List.getElem?_map]
    cases hi : pairs[i]? with
    | none =>
      have hlen := List.getElem?_eq_none_iff.mp hi
      rw [List.getElem?_eq_none (by rw [partsFrom_length]; exact hlen)]
      rfl
    | some x =>
      have hown := @partsFrom_own (args.length + 1) [] pairs i x hi
      rw [List.getElem?_map] at hown
      obtain ⟨part, hpart, hmap⟩ := Option.map_eq_some_iff.mp hown
      have hbefore : ∀ y ∈ pairs.take i, y.1.reading lib = some y.2 := fun y hy =>
        hread y (List.mem_of_mem_take hy)
      rw [hpart, Option.map_some, ← Part.map_map (f := Param.own) (g := some), hmap]
      simp only [partAt, Part.map, List.nil_append, List.map_map, ← List.map_take, Option.map_some,
        hread x (List.mem_of_getElem? hi)]
      refine congrArg (fun equal => some (Part.mk equal _ _ _)) (List.map_congr_left fun y hy => ?_)
      simp [hbefore y hy]

theorem compileWhere_own {req : Request}
    (h : compileWhere lib col req (effectiveSorts col req) cursor = .ok out) :
    out.1.map (Cond.map fun p => some p.own) = req.asked lib col cursor := by
  obtain ⟨⟨search, args₁⟩, hsearch, h⟩ := bind_ok h
  obtain ⟨⟨filters, args₂⟩, hfilters, h⟩ := bind_ok h
  obtain ⟨⟨keyset, args₃⟩, hkeyset, h⟩ := bind_ok h
  cases h
  rw [Request.asked, ← compileSearch_own hsearch, ← compileFilters_own hfilters,
    ← compileKeyset_own hkeyset, List.map_append, List.map_append]

end

/-! ## Shapes -/

/-- What of a filter may show in the text. -/
def Filter.shape (fl : Filter) : String × Op × Nat := (fl.field, fl.op, fl.values.elems.length)

/-- Requests that differ only in values. -/
structure SameShape (r₁ r₂ : Request) : Prop where
  filters : r₁.filters.elems.map Filter.shape = r₂.filters.elems.map Filter.shape
  sorts : r₁.sorts = r₂.sorts
  search : Text.trimSpace r₁.query = "" ↔ Text.trimSpace r₂.query = ""
  cursor : r₁.page.cursor = "" ↔ r₂.page.cursor = ""

/-- Two results with the same text and equally many arguments. -/
structure Alike (x y : List (Cond Param) × List Value) : Prop where
  conds : x.1.map (Cond.map Param.index) = y.1.map (Cond.map Param.index)
  length : x.2.length = y.2.length

section
variable {lib lib' : Lib} {col : Collection} {f : Field} {start : Nat}
  {args args' out out' : List Value}

/-- Columns with their placeholders' numbers. -/
def numbered (columns : List (String × Param)) : List (String × Nat) :=
  columns.map fun (column, p) => (column, p.index)

theorem searchParts_alike (q q' : String) (fields : List Field) (h : args.length = args'.length) :
    numbered (searchParts q fields args).1 = numbered (searchParts q' fields args').1 ∧
      (searchParts q fields args).2.length = (searchParts q' fields args').2.length := by
  induction fields generalizing args args' with
  | nil => exact ⟨rfl, h⟩
  | cons f fields ih =>
    unfold searchParts
    split
    · exact ih h
    · have hlen : (args ++ [Value.text ("%" ++ escapeLike q ++ "%")]).length =
          (args' ++ [Value.text ("%" ++ escapeLike q' ++ "%")]).length := by simp [h]
      obtain ⟨hparts, hargs⟩ := ih hlen
      refine ⟨?_, hargs⟩
      simp only [numbered, List.map_cons, hlen]
      exact congrArg _ hparts

theorem compileSearch_alike {query query' : String} (hlen : args.length = args'.length)
    (hblank : Text.trimSpace query = "" ↔ Text.trimSpace query' = "")
    (hx : compileSearch col query args = .ok x) (hy : compileSearch col query' args' = .ok y) :
    Alike x y := by
  simp only [compileSearch] at hx hy
  by_cases hq : Text.trimSpace query = ""
  · rw [if_pos hq] at hx
    rw [if_pos (hblank.mp hq)] at hy
    cases hx
    cases hy
    exact ⟨rfl, hlen⟩
  · rw [if_neg hq] at hx
    rw [if_neg (fun h => hq (hblank.mpr h))] at hy
    split at hx
    next hexpr =>
      rw [if_pos hexpr] at hy
      obtain ⟨hparts, hargs⟩ :=
        searchParts_alike (Text.trimSpace query) (Text.trimSpace query') col.fields hlen
      split at hx
      · simp at hx
      · next heq =>
          split at hy
          · simp at hy
          · next heq' =>
              rw [heq, heq'] at hparts hargs
              cases hx
              cases hy
              exact ⟨by simpa [Cond.map, numbered] using hparts, hargs⟩
    next hexpr =>
      rw [if_neg hexpr] at hy
      cases hx
      cases hy
      exact ⟨by simp [Cond.map, hlen], by simp [hlen]⟩

theorem mapIdx_numbers (start : Nat) (vs : List Value) :
    (vs.mapIdx fun i v => (⟨start + i, v⟩ : Param)).map Param.index =
      (List.range vs.length).map (start + ·) := by
  refine List.ext_getElem (by simp) fun i h₁ h₂ => ?_
  simp

theorem compileFilter_alike {fl fl' : Filter} {clause clause' : Cond Param}
    (hop : fl.op = fl'.op) (hcount : fl.values.elems.length = fl'.values.elems.length)
    (h : compileFilter lib f fl start = .ok (clause, out))
    (h' : compileFilter lib' f fl' start = .ok (clause', out')) :
    clause.map Param.index = clause'.map Param.index ∧ out.length = out'.length := by
  unfold compileFilter at h h'
  rw [← hop] at h'
  cases hcase : fl.op with
  | isNull | isNotNull =>
    simp only [hcase] at h h'
    cases h
    cases h'
    exact ⟨rfl, rfl⟩
  | oneOf | notIn =>
    simp only [hcase] at h h'
    obtain ⟨vs, hvs, h⟩ := bind_ok h
    obtain ⟨vs', hvs', h'⟩ := bind_ok h'
    obtain ⟨rfl, rfl⟩ := Prod.mk.inj (Except.ok.inj h)
    obtain ⟨rfl, rfl⟩ := Prod.mk.inj (Except.ok.inj h')
    have hlen : vs.length = vs'.length := by
      have hl := congrArg List.length (mapM_ok (fun _ _ => reading_of_coerceFilter) hvs)
      have hl' := congrArg List.length (mapM_ok (fun _ _ => reading_of_coerceFilter) hvs')
      rw [List.length_map, List.length_map] at hl hl'
      rw [← hl, hcount, hl']
    exact ⟨by simp only [Cond.map, mapIdx_numbers, hlen], hlen⟩
  | contains | startsWith =>
    simp only [hcase] at h h'
    cases h
    cases h'
    simp [Cond.map]
  | eq | ne | lt | lte | gt | gte =>
    simp only [hcase] at h h'
    obtain ⟨v, -, h⟩ := bind_ok h
    obtain ⟨v', -, h'⟩ := bind_ok h'
    cases h
    cases h'
    simp [Cond.map]

theorem compileFilters_alike {filters filters' : List Filter} (hlen : args.length = args'.length)
    (hshape : filters.map Filter.shape = filters'.map Filter.shape)
    (hx : compileFilters lib col filters args = .ok x)
    (hy : compileFilters lib' col filters' args' = .ok y) : Alike x y := by
  induction filters generalizing filters' args args' x y with
  | nil =>
    obtain rfl := List.map_eq_nil_iff.mp hshape.symm
    cases hx
    cases hy
    exact ⟨rfl, hlen⟩
  | cons fl filters ih =>
    obtain ⟨fl', rest', rfl, hfl, hrest⟩ := List.map_eq_cons_iff.mp hshape.symm
    simp only [Filter.shape, Prod.mk.injEq] at hfl
    obtain ⟨⟨clause, new⟩, hclause, hx⟩ := bind_ok hx
    obtain ⟨⟨clauses, args₁⟩, hclauses, hx⟩ := bind_ok hx
    cases hx
    obtain ⟨⟨clause', new'⟩, hclause', hy⟩ := bind_ok hy
    obtain ⟨⟨clauses', args₁'⟩, hclauses', hy⟩ := bind_ok hy
    cases hy
    rw [hfl.1, ← hlen] at hclause'
    obtain ⟨hone, hnew⟩ := compileFilter_alike hfl.2.1.symm hfl.2.2.symm hclause hclause'
    obtain ⟨hall, hargs⟩ := ih (by simp [hlen, hnew]) hrest.symm hclauses hclauses'
    exact ⟨by simp only [List.map_cons, hone, hall], hargs⟩

/-- What of a key may show in the text. -/
def Key.shape (k : Key) : String × Bool := (k.column, k.sort.descending)

theorem equalFrom_alike {keys keys' : List (Key × Value)}
    (h : (keys.map Prod.fst).map Key.shape = (keys'.map Prod.fst).map Key.shape) :
    numbered (equalFrom start keys) = numbered (equalFrom start keys') := by
  induction keys generalizing keys' start with
  | nil =>
    obtain rfl : keys' = [] := by simpa using h.symm
    rfl
  | cons x keys ih =>
    cases keys' with
    | nil => cases h
    | cons =>
      obtain ⟨hx, hrest⟩ := List.cons.inj h
      exact congrArg₂ List.cons (congrArg (fun s => (s.1, start)) hx) (ih hrest)

theorem partsFrom_alike {before before' keys keys' : List (Key × Value)}
    (hbefore : (before.map Prod.fst).map Key.shape = (before'.map Prod.fst).map Key.shape)
    (h : (keys.map Prod.fst).map Key.shape = (keys'.map Prod.fst).map Key.shape) :
    (partsFrom start before keys).map (Part.map Param.index) =
        (partsFrom start before' keys').map (Part.map Param.index) ∧
      (keysetArgs before keys).length = (keysetArgs before' keys').length := by
  induction keys generalizing before before' keys' start with
  | nil =>
    obtain rfl : keys' = [] := by simpa using h.symm
    exact ⟨rfl, rfl⟩
  | cons x keys ih =>
    cases keys' with
    | nil => cases h
    | cons x' keys' =>
      obtain ⟨hx, hrest⟩ := List.cons.inj h
      have hlen : before.length = before'.length := by simpa using congrArg List.length hbefore
      have hequal := @equalFrom_alike start _ _ hbefore
      obtain ⟨hparts, hargs⟩ := @ih (start + before.length + 1) (before ++ [x]) (before' ++ [x']) keys'
        (by simpa [hbefore] using hx) hrest
      simp only [Key.shape, Prod.mk.injEq] at hx
      refine ⟨?_, by simp [keysetArgs, hlen, hargs]⟩
      rw [hlen] at hparts
      simp only [partsFrom, List.map_cons, Part.map, hx, hlen, List.cons.injEq, and_true, Part.mk.injEq]
      exact ⟨hequal, hparts⟩

theorem keysOf_shape {sorts : List SortKey} {values : List String}
    (h : values.length = sorts.length) : (keysOf col sorts values).map Key.shape =
      sorts.map fun s => ((col.field s.field).column, s.descending) := by
  refine List.ext_getElem (by simp [keysOf, h]) fun i h₁ h₂ => ?_
  simp [keysOf, Key.shape]

theorem compileKeyset_alike {sorts : List SortKey} {cursor' : Option CursorPayload}
    (hlen : args.length = args'.length) (hpresent : cursor = none ↔ cursor' = none)
    (harity : ∀ p, cursor = some p → p.sortValues.elems.length = sorts.length)
    (harity' : ∀ p, cursor' = some p → p.sortValues.elems.length = sorts.length)
    (hx : compileKeyset lib col sorts cursor args = .ok x)
    (hy : compileKeyset lib' col sorts cursor' args' = .ok y) : Alike x y := by
  cases cursor with
  | none =>
    obtain rfl := hpresent.mp rfl
    cases hx
    cases hy
    exact ⟨rfl, hlen⟩
  | some p =>
    cases cursor' with
    | none => exact absurd (hpresent.mpr rfl) (by simp)
    | some p' =>
      obtain ⟨⟨clause, new⟩, hclause, hx⟩ := bind_ok hx
      cases hx
      obtain ⟨pairs, hkeys, -, hpairs⟩ := keysetPredicate_ok hclause
      cases hpairs
      obtain ⟨⟨clause', new'⟩, hclause', hy⟩ := bind_ok hy
      cases hy
      obtain ⟨pairs', hkeys', -, hpairs'⟩ := keysetPredicate_ok hclause'
      cases hpairs'
      have hshape := (keysOf_shape (harity p rfl)).trans
        (@keysOf_shape col _ _ (harity' p' rfl)).symm
      rw [← hkeys, ← hkeys'] at hshape
      rw [← hlen]
      obtain ⟨hall, hnew⟩ := @partsFrom_alike (args.length + 1) [] [] pairs pairs' rfl hshape
      exact ⟨by simp only [List.map_cons, Cond.map, hall, List.map_nil], by simp [hlen, hnew]⟩

end

section
variable {lib : Lib} {col : Collection} {r₁ r₂ : Request} {sorts : List SortKey}

theorem openCursor_arity {signer : Option Signer} {now : Int} {r : Request}
    (h : openCursor lib signer now col r sorts = .ok cursor) :
    (r.page.cursor = "" ↔ cursor = none) ∧
      ∀ p, cursor = some p → p.sortValues.elems.length = sorts.length := by
  rcases openCursor_ok h with ⟨hempty, rfl⟩ | ⟨_, p, hne, -, rfl, -, -, -, harity⟩
  · exact ⟨by simp [hempty], by simp⟩
  · refine ⟨by simp [hne], fun q hq => ?_⟩
    rw [← Option.some.inj hq, harity]

theorem compileWhere_alike {signer₁ signer₂ : Option Signer} {now₁ now₂ : Int}
    {cursor₁ cursor₂ : Option CursorPayload}
    (hshape : SameShape r₁ r₂) (hopen₁ : openCursor lib signer₁ now₁ col r₁ sorts = .ok cursor₁)
    (hopen₂ : openCursor lib signer₂ now₂ col r₂ sorts = .ok cursor₂)
    (hx : compileWhere lib col r₁ sorts cursor₁ = .ok x)
    (hy : compileWhere lib col r₂ sorts cursor₂ = .ok y) : Alike x y := by
  obtain ⟨⟨search₁, args₁⟩, hsearch₁, hx⟩ := bind_ok hx
  obtain ⟨⟨filters₁, args₁'⟩, hfilters₁, hx⟩ := bind_ok hx
  obtain ⟨⟨keyset₁, args₁''⟩, hkeyset₁, hx⟩ := bind_ok hx
  cases hx
  obtain ⟨⟨search₂, args₂⟩, hsearch₂, hy⟩ := bind_ok hy
  obtain ⟨⟨filters₂, args₂'⟩, hfilters₂, hy⟩ := bind_ok hy
  obtain ⟨⟨keyset₂, args₂''⟩, hkeyset₂, hy⟩ := bind_ok hy
  cases hy
  obtain ⟨hempty₁, harity₁⟩ := openCursor_arity hopen₁
  obtain ⟨hempty₂, harity₂⟩ := openCursor_arity hopen₂
  have hpresent : cursor₁ = none ↔ cursor₂ = none := hempty₁.symm.trans (hshape.cursor.trans hempty₂)
  obtain ⟨hconds₁, hargs₁⟩ := compileSearch_alike rfl hshape.search hsearch₁ hsearch₂
  obtain ⟨hconds₂, hargs₂⟩ := compileFilters_alike hargs₁ hshape.filters hfilters₁ hfilters₂
  obtain ⟨hconds₃, hargs₃⟩ :=
    compileKeyset_alike hargs₂ hpresent harity₁ harity₂ hkeyset₁ hkeyset₂
  exact ⟨by simp only [List.map_append, hconds₁, hconds₂, hconds₃], hargs₃⟩

end

/-- Two compilations of requests of one shape on one collection have the same SQL text. In every
    compilation the cursor is the verified one of the request, and the clauses of the text, with
    each placeholder's number replaced by the argument at that position, are what the request and
    its cursor ask for; each asks for values that there are. The number behind `LIMIT` is the
    position of the limit and one more. -/
theorem values_stay_out_of_sql (lib : Lib) (col : Collection) :
    (∀ (signer₁ signer₂ : Option Signer) (now₁ now₂ : Int) (r₁ r₂ : Request) (c₁ c₂ : Compiled),
        SameShape r₁ r₂ → compile lib signer₁ now₁ col r₁ = .ok c₁ →
        compile lib signer₂ now₂ col r₂ = .ok c₂ → c₁.sql = c₂.sql) ∧
      ∀ (signer : Option Signer) (now : Int) (r : Request) (c : Compiled),
        compile lib signer now col r = .ok c →
        openCursor lib signer now col r (effectiveSorts col r) = .ok c.cursor ∧
        (c.statement.map Param.index).conds.map (Cond.map (argument c.args)) =
          r.asked lib col c.cursor ∧
        (∀ cond ∈ r.asked lib col c.cursor, ∀ v ∈ cond.params, v.isSome = true) ∧
        argument c.args (c.statement.map Param.index).limit = some (.int (r.limit + 1)) := by
  refine ⟨?_, fun signer now r c h => ?_⟩
  · intro signer₁ signer₂ now₁ now₂ r₁ r₂ c₁ c₂ hshape h₁ h₂
    obtain ⟨cursor₁, conds₁, args₁, -, hopen₁, hwhere₁, rfl⟩ := compile_ok h₁
    obtain ⟨cursor₂, conds₂, args₂, -, hopen₂, hwhere₂, rfl⟩ := compile_ok h₂
    have hsorts : effectiveSorts col r₁ = effectiveSorts col r₂ := by
      rw [effectiveSorts, effectiveSorts, hshape.sorts]
    rw [hsorts] at hopen₁ hwhere₁
    obtain ⟨hconds, hargs⟩ := compileWhere_alike hshape hopen₁ hopen₂ hwhere₁ hwhere₂
    simp only [Compiled.sql, Compiled.of, Statement.map, hsorts, hconds, List.length_append, hargs,
      List.length_singleton]
  · have hbound := compile_bound h
    obtain ⟨cursor, conds, args, -, hopen, hwhere, rfl⟩ := compile_ok h
    have hown := compileWhere_own hwhere
    refine ⟨hopen, ?_, ?_, argument_of_bound (hbound _ (List.mem_append_right _ (by simp)))⟩
    · -- every placeholder stands for the value that its clause was made from
      have hargument : ∀ cond ∈ conds, (cond.map Param.index).map (argument (args ++ _)) =
          cond.map fun p => some p.own := fun cond hcond => by
        rw [Cond.map_map]
        exact Cond.map_congr fun p hp => argument_of_bound
          (hbound p (List.mem_append_left _ (List.mem_flatMap.mpr ⟨cond, hcond, hp⟩)))
      refine Eq.trans ?_ hown
      rw [show (Statement.map Param.index _).conds = conds.map (Cond.map Param.index) from rfl,
        List.map_map]
      exact List.map_congr_left hargument
    · rw [show (Compiled.of lib col r cursor conds args).cursor = cursor from rfl, ← hown]
      simp only [List.forall_mem_map, Cond.params_map, Option.isSome_some, implies_true]

/-- The tenants of a name. -/
def tenantsNamed (name : String) : Request := ⟨"", some [⟨"name", .eq, name, none⟩], [], ⟨1, ""⟩⟩

theorem compile_tenantsNamed {name : String}
    (hvalid : validateRequest .simple tenantsCollection (tenantsNamed name) = .ok ()) :
    compile .simple none 0 tenantsCollection (tenantsNamed name) =
      .ok (.of .simple tenantsCollection (tenantsNamed name) none
        [.compare "t.name" .eq ⟨1, .text name⟩] [.text name]) := by
  have hsearch : compileSearch tenantsCollection "" [] = .ok ([], []) := by
    rw [compileSearch, show Text.trimSpace "" = "" by decide]
    rfl
  have hargs : tenantsCollection.selectArgs.map Value.text = [] := rfl
  refine compile_eq hvalid (List.cons_ne_nil _ _) rfl ?_
  simp only [compileWhere, tenantsNamed, hargs, hsearch]
  rfl

/-- Two names, one text. The name is the argument that the text refers to. -/
theorem values_stay_out_of_sql_tenants :
    SameShape (tenantsNamed "a") (tenantsNamed "'; --") ∧
      ∃ c₁ c₂, compile .simple none 0 tenantsCollection (tenantsNamed "a") = .ok c₁ ∧
        compile .simple none 0 tenantsCollection (tenantsNamed "'; --") = .ok c₂ ∧
        c₁.sql = c₂.sql ∧
        (c₂.statement.map Param.index).conds.map (Cond.map (argument c₂.args)) =
          [.compare "t.name" .eq (some (.text "'; --"))] := by
  have hshape : SameShape (tenantsNamed "a") (tenantsNamed "'; --") := ⟨rfl, rfl, .rfl, .rfl⟩
  obtain ⟨hsql, hvalues⟩ := values_stay_out_of_sql .simple tenantsCollection
  have h₁ := @compile_tenantsNamed "a" rfl
  have h₂ := @compile_tenantsNamed "'; --" rfl
  refine ⟨hshape, _, _, h₁, h₂, hsql none none 0 0 _ _ _ _ hshape h₁ h₂, ?_⟩
  rw [(hvalues none 0 _ _ h₂).2.1, Request.asked, Collection.asked,
    show Text.trimSpace (tenantsNamed "'; --").query = "" by decide, if_pos rfl]
  rfl

end Ultracore.Query
