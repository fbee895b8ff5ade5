-- SUMMARY: The state of an admin list in its URL: writing it as search parameters and reading it back.
import Mathlib.Data.Rat.Floor
import Ultracore.Text.Split

/-!
# Query state in the URL

`queryStateToSearchParams` and `queryStateFromSearchParams`, files `admin-web/src/query/state.ts`
and `types.ts`. A filter is one parameter: field, operator and body with a colon between them. The
body of a list is its values with a bar between them. Nothing is escaped.
-/

namespace Ultracore.Web

/-! ## Search parameters -/

/-- `URLSearchParams`: names with values, in order. -/
abbrev Params := List (String × String)

namespace Params

def getAll (p : Params) (name : String) : List String :=
  (p.filter fun x => x.1 = name).map Prod.snd

def get (p : Params) (name : String) : Option String := (p.getAll name).head?

def append (p : Params) (name value : String) : Params := p ++ [(name, value)]

/-- The first value under a name is replaced and the others are dropped. -/
def set : Params → (name value : String) → Params
  | [], name, value => [(name, value)]
  | x :: p, name, value =>
    if x.1 = name then (name, value) :: p.filter (fun y => y.1 ≠ name) else x :: set p name value

section
variable {p : Params} {name other value : String}

@[simp] theorem getAll_nil : getAll [] name = [] := rfl

theorem getAll_cons {x : String × String} : getAll (x :: p) other =
    (if x.1 = other then [x.2] else []) ++ p.getAll other := by
  by_cases h : x.1 = other
  · simp [getAll, h]
  · simp [getAll, h]

theorem getAll_others : getAll (p.filter fun y => y.1 ≠ name) other =
    if name = other then [] else p.getAll other := by
  rw [getAll, List.filter_filter]
  split
  next h =>
    subst h
    simp
  next h =>
    refine congrArg _ (List.filter_congr fun y _ => ?_)
    by_cases hy : y.1 = other
    · simp [hy, Ne.symm h]
    · simp [hy]

theorem getAll_set : (set p name value).getAll other =
    if name = other then [value] else p.getAll other := by
  induction p with
  | nil =>
    rw [set, getAll_cons]
    exact List.append_nil _
  | cons x p ih =>
    rw [set]
    split
    next hx =>
      rw [getAll_cons, getAll_others, getAll_cons, hx]
      split
      · rfl
      · rfl
    next hx =>
      rw [getAll_cons, ih, getAll_cons]
      split
      next h =>
        have hne : name ≠ other := fun hn => hx (h.trans hn.symm)
        rw [if_neg hne, if_neg hne]
      next => rfl

theorem getAll_append : (append p name value).getAll other =
    p.getAll other ++ if name = other then [value] else [] := by
  by_cases h : name = other
  · simp [append, getAll, h]
  · simp [append, getAll, h]

/-- Several values under one name. -/
theorem getAll_foldl {α : Type} (f : α → String) (xs : List α) :
    (xs.foldl (fun p x => p.append name (f x)) p).getAll other =
      p.getAll other ++ if name = other then xs.map f else [] := by
  induction xs generalizing p with
  | nil => simp
  | cons x xs ih =>
    rw [List.foldl_cons, ih, getAll_append]
    by_cases h : name = other
    · simp [h]
    · simp [h]

end

end Params

/-! ## Query states -/

inductive FilterOp where
  | eq
  | ne
  | lt
  | lte
  | gt
  | gte
  | oneOf
  | notIn
  | contains
  | startsWith
  | isNull
  | isNotNull
deriving DecidableEq

def FilterOp.text : FilterOp → String
  | .eq => "eq"
  | .ne => "ne"
  | .lt => "lt"
  | .lte => "lte"
  | .gt => "gt"
  | .gte => "gte"
  | .oneOf => "in"
  | .notIn => "not_in"
  | .contains => "contains"
  | .startsWith => "prefix"
  | .isNull => "is_null"
  | .isNotNull => "is_not_null"

/-- `OPS` -/
def ops : List FilterOp :=
  [.eq, .ne, .lt, .lte, .gt, .gte, .oneOf, .notIn, .contains, .startsWith, .isNull, .isNotNull]

def FilterOp.listed (op : FilterOp) : Bool := op = .oneOf ∨ op = .notIn

def FilterOp.nullary (op : FilterOp) : Bool := op = .isNull ∨ op = .isNotNull

structure QueryFilter where
  field : String
  op : FilterOp
  value : Option String := none
  values : Option (List String) := none
deriving DecidableEq

structure QuerySort where
  field : String
  descending : Bool
deriving DecidableEq

@[ext] structure QueryState where
  q : String := ""
  filters : List QueryFilter := []
  sorts : List QuerySort := []
  cursor : String := ""
  cursorStack : List String := []
  limit : Rat := 50
  tenantId : String := ""
  columns : List String := []
  viewId : String := ""
  detail : String := ""

def defaultPageSize : Rat := 50

def maxPageSize : Rat := 250

/-- Numbers as texts. `number` is `none` for what is not a finite number. -/
structure Js where
  text : Rat → String
  number : String → Option Rat
  number_text : ∀ n : Nat, number (text n) = some (n : Rat)

def clampLimit : Option Rat → Rat
  | none => defaultPageSize
  | some n => if n ≤ 0 then defaultPageSize else min maxPageSize (max 1 ⌊n⌋)

/-! ## Writing and reading -/

/-- `s.split(sep)` -/
def split (s sep : String) : List String :=
  (Text.splitWord sep.toList s.toList).map String.ofList

/-- `parts.join(sep)` -/
def join (parts : List String) (sep : String) : String :=
  String.ofList (sep.toList.intercalate (parts.map String.toList))

def QueryFilter.body (f : QueryFilter) : String :=
  if f.op.listed then join (f.values.getD []) "|" else f.value.getD ""

def QueryFilter.text (f : QueryFilter) : String := f.field ++ ":" ++ f.op.text ++ ":" ++ f.body

def QuerySort.text (s : QuerySort) : String := (if s.descending then "-" else "") ++ s.field

/-- Set a parameter on a condition. -/
def setIf (b : Bool) (name value : String) (p : Params) : Params :=
  if b then p.set name value else p

def queryStateToSearchParams (js : Js) (state : QueryState) : Params :=
  let p := setIf (state.q ≠ "") "q" state.q []
  let p := setIf (state.limit ≠ defaultPageSize) "limit" (js.text state.limit) p
  let p := setIf (state.cursor ≠ "") "cursor" state.cursor p
  let p := setIf (state.tenantId ≠ "") "tenant" state.tenantId p
  let p := setIf (state.viewId ≠ "") "view" state.viewId p
  let p := setIf (state.detail ≠ "") "detail" state.detail p
  let p := setIf (state.columns ≠ []) "cols" (join state.columns ",") p
  let p := state.filters.foldl (fun p f => p.append "f" f.text) p
  let p := state.sorts.foldl (fun p s => p.append "s" s.text) p
  setIf (state.cursorStack ≠ []) "cstack" (join state.cursorStack "||") p

/-- A filter from its text. A text without a field or with an unknown operator is skipped. -/
def readFilter (raw : String) : Option QueryFilter :=
  match split raw ":" with
  | field :: opRaw :: rest =>
    if field = "" then none
    else (ops.find? fun op => op.text = opRaw).map fun op =>
      let body := join rest ":"
      if op.listed then
        { field, op, values := some (if body = "" then [] else split body "|") }
      else if op.nullary then { field, op }
      else { field, op, value := some body }
  | _ => none

def readSort (raw : String) : Option QuerySort :=
  if raw = "" then none
  else if raw.toList.head? = some '-' then some ⟨String.ofList raw.toList.tail, true⟩
  else some ⟨raw, false⟩

/-- The parts of a text that are not empty. -/
def readList (sep : String) : Option String → List String
  | none => []
  | some s => if s = "" then [] else (split s sep).filter fun part => part ≠ ""

def queryStateFromSearchParams (js : Js) (params : Params) : QueryState where
  q := (params.get "q").getD ""
  filters := (params.getAll "f").filterMap readFilter
  sorts := (params.getAll "s").filterMap readSort
  cursor := (params.get "cursor").getD ""
  cursorStack := readList "||" (params.get "cstack")
  limit := clampLimit ((params.get "limit").elim (some defaultPageSize) js.number)
  tenantId := (params.get "tenant").getD ""
  columns := readList "," (params.get "cols")
  viewId := (params.get "view").getD ""
  detail := (params.get "detail").getD ""

/-! ## Texts come back -/

section
variable {sep : String} {c : Char}

theorem split_eq (hsep : sep.toList = [c]) (s : String) :
    split s sep = (s.toList.splitOn c).map String.ofList := by
  rw [split, hsep, Text.splitWord_symbol]

/-- The first part, if it does not contain the separator. -/
theorem split_append (hsep : sep.toList = [c]) {a : String} (h : c ∉ a.toList) (b : String) :
    split (a ++ (sep ++ b)) sep = a :: split b sep := by
  rw [split_eq hsep, split_eq hsep, String.toList_append, String.toList_append, hsep,
    List.singleton_append, List.splitOn_append_cons_self_of_not_mem h, List.map_cons,
    String.ofList_toList]

theorem map_toList_ofList (parts : List (List Char)) :
    (parts.map String.ofList).map String.toList = parts := by
  rw [List.map_map]
  exact List.map_id'' (fun _ => String.toList_ofList) parts

theorem map_ofList_toList (parts : List String) :
    (parts.map String.toList).map String.ofList = parts := by
  rw [List.map_map]
  exact List.map_id'' (fun _ => String.ofList_toList) parts

/-- Parts that are split can be joined. -/
theorem join_split (hsep : sep.toList = [c]) (s : String) : join (split s sep) sep = s := by
  rw [join, split_eq hsep, map_toList_ofList, hsep, List.intercalate_splitOn, String.ofList_toList]

/-- Parts without the separator that are joined can be split. -/
theorem split_join (hsep : sep.toList = [c]) {parts : List String} (hne : parts ≠ [])
    (h : ∀ part ∈ parts, c ∉ part.toList) : split (join parts sep) sep = parts := by
  rw [split_eq hsep, join, String.toList_ofList, hsep,
    List.splitOn_intercalate c (by simpa using h) (by simpa using hne), map_ofList_toList]

/-- Something is left of parts that are joined, unless there is one and it is empty. -/
theorem join_ne_empty (hsep : sep.toList = [c]) {parts : List String} (hne : parts ≠ [])
    (hempty : parts ≠ [""]) (h : ∀ part ∈ parts, c ∉ part.toList) : join parts sep ≠ "" := by
  intro hjoin
  have hsplit := split_join hsep hne h
  rw [hjoin, split_eq hsep] at hsplit
  exact hempty hsplit.symm

end

/-! ## States come back -/

/-- A name of a field or a column: lower-case letters and underscores. -/
def Name (s : String) : Prop := s ≠ "" ∧ ∀ c ∈ s.toList, c.isLower = true ∨ c = '_'

theorem Name.not_mem {s : String} (h : Name s) {c : Char} (hlower : c.isLower = false)
    (hc : c ≠ '_') : c ∉ s.toList := by
  intro hmem
  rcases h.2 c hmem with h | h
  · exact absurd h (by rw [hlower]; decide)
  · exact hc h

/-- A filter has a list exactly if its operator takes one, and a value exactly if it takes one. No
    value of the list contains a bar, and the list is not a single empty value. -/
def QueryFilter.Legible (f : QueryFilter) : Prop :=
  if f.op.listed then
    f.value = none ∧ ∃ vs, f.values = some vs ∧ vs ≠ [""] ∧ ∀ v ∈ vs, '|' ∉ v.toList
  else if f.op.nullary then f.value = none ∧ f.values = none
  else f.values = none ∧ ∃ v, f.value = some v

theorem ops_find (op : FilterOp) : (ops.find? fun o => o.text = op.text) = some op := by
  cases op <;> decide

theorem not_mem_opText (op : FilterOp) : ':' ∉ op.text.toList := by
  cases op <;> decide

theorem readFilter_text {f : QueryFilter} (hfield : Name f.field) (h : f.Legible) :
    readFilter f.text = some f := by
  have hsep : ":".toList = [':'] := rfl
  have hsplit : split f.text ":" = f.field :: f.op.text :: split f.body ":" := by
    rw [QueryFilter.text, String.append_assoc, String.append_assoc, String.append_assoc,
      split_append hsep (hfield.not_mem (by decide) (by decide)),
      split_append hsep (not_mem_opText f.op)]
  rw [readFilter, hsplit]
  simp only [hfield.1, if_false, ops_find, join_split hsep, Option.map_some]
  obtain ⟨field, op, value, values⟩ := f
  unfold QueryFilter.Legible at h
  simp only [QueryFilter.body] at h ⊢
  split
  next hlisted =>
    rw [if_pos hlisted] at h
    obtain ⟨rfl, vs, rfl, hempty, hbar⟩ := h
    have hlist : (if join vs "|" = "" then [] else split (join vs "|") "|") = vs := by
      by_cases hvs : vs = []
      · subst hvs
        decide
      · have hbar' : "|".toList = ['|'] := rfl
        rw [if_neg (join_ne_empty hbar' hvs hempty hbar), split_join hbar' hvs hbar]
    rw [Option.getD_some, hlist]
  next hlisted =>
    rw [if_neg hlisted] at h
    split
    next hnullary =>
      rw [if_pos hnullary] at h
      obtain ⟨rfl, rfl⟩ := h
      rfl
    next hnullary =>
      rw [if_neg hnullary] at h
      obtain ⟨rfl, v, rfl⟩ := h
      rfl

/-- Filters that are read are legible. -/
theorem readFilter_legible {raw : String} {f : QueryFilter} (h : readFilter raw = some f) :
    f.Legible := by
  unfold readFilter at h
  split at h
  · split at h
    · cases h
    obtain ⟨op, -, rfl⟩ := Option.map_eq_some_iff.mp h
    unfold QueryFilter.Legible
    split
    next hlisted =>
      refine ⟨rfl, _, rfl, ?_⟩
      split
      · simp
      next hbody =>
        have hsep : "|".toList = ['|'] := rfl
        refine ⟨fun hsplit => hbody ?_, fun v hv => ?_⟩
        · rw [← join_split hsep (join _ ":"), hsplit]
          rfl
        · rw [split_eq hsep] at hv
          obtain ⟨part, hpart, rfl⟩ := List.mem_map.mp hv
          rw [String.toList_ofList]
          exact Text.notMem_of_mem_splitOn hpart
    next hlisted =>
      split
      · exact ⟨rfl, rfl⟩
      · exact ⟨rfl, _, rfl⟩
  · cases h

theorem readSort_text {s : QuerySort} (h : Name s.field) : readSort s.text = some s := by
  obtain ⟨field, descending⟩ := s
  obtain ⟨c, cs, hfield⟩ : ∃ c cs, field.toList = c :: cs :=
    List.exists_cons_of_ne_nil fun hnil => h.1 (String.toList_inj.mp hnil)
  cases descending with
  | true =>
    have htext : (QuerySort.text ⟨field, true⟩).toList = '-' :: field.toList := by
      simp [QuerySort.text]
    have hne : QuerySort.text ⟨field, true⟩ ≠ "" := fun hempty => by
      rw [hempty] at htext
      cases htext
    rw [readSort, if_neg hne, htext, List.head?_cons, if_pos rfl, List.tail_cons,
      String.ofList_toList]
  | false =>
    have htext : QuerySort.text ⟨field, false⟩ = field := by simp [QuerySort.text]
    have hhead : field.toList.head? ≠ some '-' := by
      rw [hfield, List.head?_cons]
      rintro hc
      cases hc
      have hdash : '-' ∉ field.toList := h.not_mem (by decide) (by decide)
      exact hdash (by rw [hfield]; exact List.mem_cons_self)
    rw [readSort, htext, if_neg h.1, if_neg hhead]

theorem readList_join {parts : List String} (h : ∀ part ∈ parts, Name part) :
    readList "," (if parts = [] then [] else [join parts ","]).head? = parts := by
  split
  next hparts => exact hparts.symm
  next hparts =>
    have hsep : ",".toList = [','] := rfl
    have hcomma : ∀ part ∈ parts, ',' ∉ part.toList := fun part hpart =>
      (h part hpart).not_mem (by decide) (by decide)
    have hempty : parts ≠ [""] := by
      rintro rfl
      exact (h "" (by simp)).1 rfl
    rw [List.head?_cons, readList, if_neg (join_ne_empty hsep hparts hempty hcomma), split_join hsep hparts hcomma,
      List.filter_eq_self]
    exact fun part hpart => by simpa using (h part hpart).1

theorem clampLimit_of_nat {n : Nat} (hlow : 1 ≤ n) (hhigh : n ≤ 250) :
    clampLimit (some (n : Rat)) = n := by
  have hpos : ¬(n : Rat) ≤ 0 := by
    rw [not_le]
    exact_mod_cast hlow
  have hfloor : ((⌊(n : Rat)⌋ : Int) : Rat) = n := by rw [Int.floor_natCast, Int.cast_natCast]
  have hone : (1 : Rat) ≤ n := by exact_mod_cast hlow
  have hmax : (n : Rat) ≤ maxPageSize := by
    rw [maxPageSize]
    exact_mod_cast hhigh
  rw [clampLimit, if_neg hpos, hfloor, max_eq_right hone, min_eq_right hmax]

theorem getAll_setIf {b : Bool} {name other value : String} {p : Params} :
    (setIf b name value p).getAll other =
      if name = other then if b then [value] else p.getAll other else p.getAll other := by
  unfold setIf
  split
  · exact Params.getAll_set
  · split
    · rfl
    · rfl

/-- A text that is set unless it is empty. -/
theorem getD_text (text : String) : (if text = "" then [] else [text]).head?.getD "" = text := by
  split
  next h => exact h.symm
  next => rfl

section
variable (js : Js) (state : QueryState)

/-- What the parameters have under each name but that of the stack of cursors. -/
structure Written (p : Params) : Prop where
  q : p.getAll "q" = if state.q = "" then [] else [state.q]
  limit : p.getAll "limit" = if state.limit = defaultPageSize then [] else [js.text state.limit]
  cursor : p.getAll "cursor" = if state.cursor = "" then [] else [state.cursor]
  tenant : p.getAll "tenant" = if state.tenantId = "" then [] else [state.tenantId]
  view : p.getAll "view" = if state.viewId = "" then [] else [state.viewId]
  detail : p.getAll "detail" = if state.detail = "" then [] else [state.detail]
  cols : p.getAll "cols" = if state.columns = [] then [] else [join state.columns ","]
  filters : p.getAll "f" = state.filters.map QueryFilter.text
  sorts : p.getAll "s" = state.sorts.map QuerySort.text

theorem written : Written js state (queryStateToSearchParams js state) := by
  constructor <;> simp [queryStateToSearchParams, getAll_setIf, Params.getAll_foldl]

end

/-- A view of at most 250 rows, with names of fields and columns as the lists have them, comes back
    from its URL exactly if its filters are legible. Its search text, the values of its filters, its
    tenant, its cursor and the rest are any texts. -/
theorem view_survives_url (js : Js) (state : QueryState)
    (hlimit : ∃ n : Nat, 1 ≤ n ∧ n ≤ 250 ∧ state.limit = n)
    (hfields : ∀ f ∈ state.filters, Name f.field) (hsorts : ∀ s ∈ state.sorts, Name s.field)
    (hcolumns : ∀ column ∈ state.columns, Name column) :
    { queryStateFromSearchParams js (queryStateToSearchParams js state) with
      cursorStack := state.cursorStack } = state ↔ ∀ f ∈ state.filters, f.Legible := by
  have h := written js state
  constructor
  · intro hback f hf
    rw [← congrArg QueryState.filters hback] at hf
    obtain ⟨raw, -, hread⟩ := List.mem_filterMap.mp hf
    exact readFilter_legible hread
  intro hfilters
  obtain ⟨n, hlow, hhigh, hn⟩ := hlimit
  ext1
  case q => simp only [queryStateFromSearchParams, Params.get, h.q, getD_text]
  case filters =>
    simp only [queryStateFromSearchParams, h.filters, List.filterMap_map]
    refine (List.filterMap_congr fun f hf => ?_).trans List.filterMap_some
    exact readFilter_text (hfields f hf) (hfilters f hf)
  case sorts =>
    simp only [queryStateFromSearchParams, h.sorts, List.filterMap_map]
    refine (List.filterMap_congr fun s hs => ?_).trans List.filterMap_some
    exact readSort_text (hsorts s hs)
  case cursor => simp only [queryStateFromSearchParams, Params.get, h.cursor, getD_text]
  case cursorStack => rfl
  case limit =>
    simp only [queryStateFromSearchParams, Params.get, h.limit]
    rw [hn]
    split
    next hdefault =>
      have h50 : clampLimit (some defaultPageSize) = defaultPageSize := by
        rw [← hdefault]
        exact clampLimit_of_nat hlow hhigh
      rw [hdefault]
      exact h50
    next =>
      simp only [List.head?_cons, Option.elim_some, js.number_text]
      exact clampLimit_of_nat hlow hhigh
  case tenantId => simp only [queryStateFromSearchParams, Params.get, h.tenant, getD_text]
  case columns =>
    simp only [queryStateFromSearchParams, Params.get, h.cols]
    exact readList_join hcolumns
  case viewId => simp only [queryStateFromSearchParams, Params.get, h.view, getD_text]
  case detail => simp only [queryStateFromSearchParams, Params.get, h.detail, getD_text]

/-- Naturals in decimal. -/
def Js.decimal : Js where
  text r := String.ofList (Nat.toDigits 10 r.num.toNat)
  number s := some ((Nat.ofDigitChars 10 s.toList 0 : Nat) : Rat)
  number_text n := by
    rw [String.toList_ofList, Rat.num_natCast, Int.toNat_natCast, Nat.ofDigitChars_ten_toDigits]

theorem name_state : Name "state" := by
  have hall : ("state".toList.all fun c => c.isLower || c == '_') = true := by decide
  refine ⟨by decide, fun c hc => ?_⟩
  simpa using List.all_eq_true.mp hall c hc

/-- A filter for one of two values, one of which contains colons. -/
def twoValues : QueryState :=
  { filters := [{ field := "state", op := .oneOf, values := some ["a:b:c", ""] }], limit := 100 }

theorem view_survives_url_twoValues :
    { queryStateFromSearchParams .decimal (queryStateToSearchParams .decimal twoValues) with
      cursorStack := [] } = twoValues := by
  refine (view_survives_url .decimal twoValues ⟨100, by decide, by decide, rfl⟩ ?_
    (by simp [twoValues]) (by simp [twoValues])).mpr ?_
  · simpa only [twoValues, List.mem_singleton, forall_eq] using name_state
  · simp only [twoValues, List.mem_singleton, forall_eq]
    exact ⟨rfl, _, rfl, by decide, by decide⟩

/-- A filter for one value that contains a bar, and one for the empty value. -/
def barred (vs : List String) : QueryState :=
  { filters := [{ field := "state", op := .oneOf, values := some vs }] }

/-- The value with a bar comes back as two, and the empty one not at all. -/
theorem view_lost_in_url :
    (∀ vs, (barred vs).limit = 50 ∧ ∀ f ∈ (barred vs).filters, Name f.field) ∧
    (queryStateFromSearchParams .decimal
      (queryStateToSearchParams .decimal (barred ["a|b"]))).filters = (barred ["a", "b"]).filters ∧
    (queryStateFromSearchParams .decimal
      (queryStateToSearchParams .decimal (barred [""]))).filters = (barred []).filters ∧
    (barred ["a", "b"]).filters ≠ (barred ["a|b"]).filters ∧
    (barred []).filters ≠ (barred [""]).filters := by
  refine ⟨fun vs => ⟨rfl, ?_⟩, ?_, ?_, by decide, by decide⟩
  · simpa only [barred, List.mem_singleton, forall_eq] using name_state
  · rw [queryStateFromSearchParams, (written _ _).filters]
    decide
  · rw [queryStateFromSearchParams, (written _ _).filters]
    decide

end Ultracore.Web
