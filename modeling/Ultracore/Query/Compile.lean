-- SUMMARY: The compiler of admin searches: validation, clauses with placeholders, the statement and its arguments.
import Ultracore.Query.Cursor
import Ultracore.Text.Replace

/-!
# Compiling a search

File `admin/query/compile.go`. Conditions are trees over their placeholders; the text of a
condition is a function of the placeholders' numbers alone. Beside its number a placeholder
carries the value that its clause is about, which the text does not show.
-/

namespace Ultracore.Query

open Text

/-! ## Values -/

/-- A bound argument. -/
inductive Value where
  | text (s : String)
  | int (n : Int)
  | bool (b : Bool)
  | time (t : Text.Time)
deriving DecidableEq

def numError (lib : Lib) (func text reason : String) : String :=
  "strconv." ++ func ++ ": parsing " ++ lib.quote text ++ ": " ++ reason

/-- `strconv.ParseInt`, with the text in the error. -/
def parseInt (lib : Lib) (text : String) : Except String Int :=
  (Text.parseInt text).mapError (numError lib "ParseInt" text)

/-- `strconv.ParseBool` -/
def parseBool (lib : Lib) (text : String) : Except String Bool :=
  if text ∈ ["1", "t", "T", "TRUE", "true", "True"] then .ok true
  else if text ∈ ["0", "f", "F", "FALSE", "false", "False"] then .ok false
  else .error (numError lib "ParseBool" text "invalid syntax")

/-- Either layout will do. -/
def parseTimestamp (lib : Lib) (text : String) : Except String Text.Time :=
  match lib.parseNano text with
  | .ok t => .ok t
  | .error _ => lib.parseSeconds text

def FieldType.text : FieldType → String
  | .unspecified => ""
  | .string => "string"
  | .uuid => "uuid"
  | .int => "int"
  | .bool => "bool"
  | .timestamp => "timestamp"
  | .json => "json"

def parseTyped (lib : Lib) (t : FieldType) (v : String) : Except String Unit :=
  match t with
  | .string => .ok ()
  | .json => .ok ()
  | .uuid => if v.utf8ByteSize ≠ 36 then .error "expected uuid" else .ok ()
  | .int => ((parseInt lib v).map fun _ => ()).mapError fun _ => "expected int"
  | .bool => ((parseBool lib v).map fun _ => ()).mapError fun _ => "expected bool"
  | .timestamp =>
    ((parseTimestamp lib v).map fun _ => ()).mapError fun _ => "expected RFC3339 timestamp"
  | .unspecified => .error ("unsupported type " ++ t.text)

def coerce (lib : Lib) (t : FieldType) (v : String) : Except String Value :=
  match t with
  | .string => .ok (.text v)
  | .uuid => .ok (.text v)
  | .json => .ok (.text v)
  | .int => (parseInt lib v).map .int
  | .bool => (parseBool lib v).map .bool
  | .timestamp => (parseTimestamp lib v).map .time
  | .unspecified => .ok (.text v)

/-! ## Validation -/

/-- The descriptor of a field. Of two with one name the map keeps the later one. -/
def Collection.field? (col : Collection) (name : String) : Option Field :=
  col.fields.reverse.find? (·.name = name)

/-- A map's entry, or the zero value. -/
def Collection.field (col : Collection) (name : String) : Field := (col.field? name).getD {}

/-- Fail on a condition. -/
def refuse (bad : Prop) [Decidable bad] (e : Err) : Except Err Unit :=
  if bad then .error e else .ok ()

def opAllowed (f : Field) (op : Op) : Bool := f.filterOps.any (· = op)

def validateFilterValue (lib : Lib) (f : Field) (fl : Filter) : Except Err Unit :=
  let typed (v : String) : Except Err Unit :=
    (parseTyped lib f.type v).mapError fun err =>
      .invalid .badValue ("field " ++ lib.quote f.name ++ ": " ++ err)
  let several : Except Err Unit := do
    refuse (fl.values.elems = []) (.invalid .badValue
      ("field " ++ lib.quote f.name ++ " requires values for " ++ fl.op.text))
    refuse (maxFilterValues < fl.values.elems.length) (.invalid .badValue
      ("too many values for field " ++ lib.quote f.name))
    fl.values.elems.forM typed
  let single : Except Err Unit := do
    refuse (fl.value = "" ∧ f.type ≠ .string) (.invalid .badValue
      ("field " ++ lib.quote f.name ++ " requires a value"))
    typed fl.value
  match fl.op with
  | .isNull => .ok ()
  | .isNotNull => .ok ()
  | .oneOf => several
  | .notIn => several
  | _ => single

def validateFilter (lib : Lib) (col : Collection) (fl : Filter) : Except Err Unit :=
  match col.field? fl.field with
  | none => .error (.invalid .invalidField ("unknown filter field " ++ lib.quote fl.field))
  | some f => do
      refuse (opAllowed f fl.op = false) (.invalid .invalidOp
        ("operator " ++ lib.quote fl.op.text ++ " not allowed on field " ++ lib.quote fl.field))
      validateFilterValue lib f fl

def validateSort (lib : Lib) (col : Collection) (s : SortKey) : Except Err Unit :=
  match col.field? s.field with
  | none => .error (.invalid .invalidField ("unknown sort field " ++ lib.quote s.field))
  | some f => refuse (f.sortable = false) (.invalid .invalidSort
      ("field " ++ lib.quote s.field ++ " is not sortable"))

def validateRequest (lib : Lib) (col : Collection) (req : Request) : Except Err Unit := do
  refuse (maxLimit < req.page.limit) (.invalid .invalidLimit
    ("limit " ++ toString req.page.limit ++ " exceeds maximum " ++ toString maxLimit))
  refuse (maxFilters < req.filters.elems.length) (.invalid .tooManyFilters
    ("at most " ++ toString maxFilters ++ " filters allowed"))
  refuse (maxSorts < req.sorts.length) (.invalid .tooManySorts
    ("at most " ++ toString maxSorts ++ " sorts allowed"))
  refuse (maxQueryLength < req.query.utf8ByteSize) (.invalid .queryTooLong
    ("query longer than " ++ toString maxQueryLength ++ " characters"))
  req.filters.elems.forM (validateFilter lib col)
  req.sorts.forM (validateSort lib col)

/-! ## Conditions -/

/-- One alternative of a keyset condition: columns equal to the cursor, then one behind it. -/
structure Part (π : Type) where
  equal : List (String × π)
  column : String
  descending : Bool
  bound : π

/-- A condition over placeholders. -/
inductive Cond (π : Type) where
  | search (columns : List (String × π))
  | searchExpr (expr : String) (p : π)
  | isNull (column : String)
  | isNotNull (column : String)
  | oneOf (column : String) (negated : Bool) (ps : List π)
  | like (column : String) (p : π)
  | compare (column : String) (op : Op) (p : π)
  | keyset (parts : List (Part π))

section
variable {π ρ : Type}

def Part.map (f : π → ρ) (part : Part π) : Part ρ where
  equal := part.equal.map fun (column, p) => (column, f p)
  column := part.column
  descending := part.descending
  bound := f part.bound

def Cond.map (f : π → ρ) : Cond π → Cond ρ
  | .search columns => .search (columns.map fun (column, p) => (column, f p))
  | .searchExpr expr p => .searchExpr expr (f p)
  | .isNull column => .isNull column
  | .isNotNull column => .isNotNull column
  | .oneOf column negated ps => .oneOf column negated (ps.map f)
  | .like column p => .like column (f p)
  | .compare column op p => .compare column op (f p)
  | .keyset parts => .keyset (parts.map (Part.map f))

def Part.params (part : Part π) : List π := part.equal.map Prod.snd ++ [part.bound]

/-- The placeholders of a condition. -/
def Cond.params : Cond π → List π
  | .search columns => columns.map Prod.snd
  | .searchExpr _ p => [p]
  | .isNull _ => []
  | .isNotNull _ => []
  | .oneOf _ _ ps => ps
  | .like _ p => [p]
  | .compare _ _ p => [p]
  | .keyset parts => parts.flatMap Part.params

end

/-- A placeholder as SQL writes it. -/
def dollar (n : Nat) : String := "$" ++ toString n

/-- `strings.ReplaceAll` -/
def replaceText (text old new : String) : String :=
  String.ofList (replaceAll old.toList new.toList text.toList)

def sqlOp : Op → String
  | .eq => "="
  | .ne => "<>"
  | .lt => "<"
  | .lte => "<="
  | .gt => ">"
  | .gte => ">="
  | _ => ""

def likeText (column : String) (n : Nat) : String :=
  column ++ " ILIKE " ++ dollar n ++ " ESCAPE '\\'"

def Part.text (part : Part Nat) : String :=
  let ands := part.equal.map fun (column, n) => column ++ " IS NOT DISTINCT FROM " ++ dollar n
  let cmp := if part.descending then "<" else ">"
  let last := "(" ++ part.column ++ " IS NOT NULL AND " ++ part.column ++ " " ++ cmp ++ " " ++
    dollar part.bound ++ ")"
  "(" ++ " AND ".intercalate (ands ++ [last]) ++ ")"

/-- The text of a condition, from the numbers of its placeholders. -/
def Cond.text : Cond Nat → String
  | .search columns =>
    "(" ++ " OR ".intercalate (columns.map fun (column, n) =>
      likeText ("(" ++ column ++ ")::text") n) ++ ")"
  | .searchExpr expr n => replaceText expr "?" (dollar n)
  | .isNull column => column ++ " IS NULL"
  | .isNotNull column => column ++ " IS NOT NULL"
  | .oneOf column negated ns =>
    column ++ " " ++ (if negated then "NOT IN" else "IN") ++ " (" ++
      ", ".intercalate (ns.map dollar) ++ ")"
  | .like column n => likeText column n
  | .compare column op n => column ++ " " ++ sqlOp op ++ " " ++ dollar n
  | .keyset parts => "(" ++ " OR ".intercalate (parts.map Part.text) ++ ")"

/-- A placeholder: its number, and the value that its clause is about. -/
structure Param where
  index : Nat
  own : Value

/-- A statement that reads one page. -/
structure Statement (π : Type) where
  select : String
  source : String
  conds : List (Cond π)
  order : List (String × Bool)
  limit : π

section
variable {π ρ : Type}

def Statement.map (f : π → ρ) (s : Statement π) : Statement ρ where
  select := s.select
  source := s.source
  conds := s.conds.map (Cond.map f)
  order := s.order
  limit := f s.limit

def Statement.params (s : Statement π) : List π := s.conds.flatMap Cond.params ++ [s.limit]

end

/-- What a statement says behind `FROM`. -/
def Statement.clauses (s : Statement Nat) : String :=
  s.source ++
    (if s.conds = [] then "" else " WHERE " ++ " AND ".intercalate (s.conds.map Cond.text)) ++
    " ORDER BY " ++ ", ".intercalate (s.order.map fun (column, descending) =>
      column ++ " " ++ (if descending then "DESC" else "ASC") ++ " NULLS LAST") ++
    " LIMIT " ++ dollar s.limit

def Statement.text (s : Statement Nat) : String :=
  "SELECT " ++ s.select ++ " FROM " ++ s.clauses

/-! ## Clauses -/

def escapeLike (s : String) : String :=
  replaceText (replaceText (replaceText s "\\" "\\\\") "%" "\\%") "_" "\\_"

/-- The search text in each searchable column. -/
def searchParts (q : String) : List Field → List Value → List (String × Param) × List Value
  | [], args => ([], args)
  | f :: fields, args =>
    if f.searchable = false ∨ (f.type ≠ .string ∧ f.type ≠ .json) then searchParts q fields args
    else
      let v : Value := .text ("%" ++ escapeLike q ++ "%")
      let (parts, args') := searchParts q fields (args ++ [v])
      ((f.column, ⟨(args ++ [v]).length, v⟩) :: parts, args')

def compileSearch (col : Collection) (query : String) (args : List Value) :
    Except Err (List (Cond Param) × List Value) :=
  let q := Text.trimSpace query
  if q = "" then .ok ([], args)
  else if col.searchExpr = "" then
    match searchParts q col.fields args with
    | ([], _) => .error (.invalid .invalidField
        ("collection " ++ col.name ++ " does not support text search"))
    | (parts, args) => .ok ([.search parts], args)
  else
    let args := args ++ [.text q]
    .ok ([.searchExpr col.searchExpr ⟨args.length, .text q⟩], args)

def coerceFilter (lib : Lib) (f : Field) (v : String) : Except Err Value :=
  (coerce lib f.type v).mapError fun err =>
    .invalid .badValue ("field " ++ lib.quote f.name ++ ": " ++ err)

def compileFilter (lib : Lib) (f : Field) (fl : Filter) (argStart : Nat) :
    Except Err (Cond Param × List Value) :=
  let column := f.column
  let several (negated : Bool) : Except Err (Cond Param × List Value) := do
    let args ← fl.values.elems.mapM (coerceFilter lib f)
    return (.oneOf column negated (args.mapIdx fun i v => ⟨argStart + i, v⟩), args)
  let like (pattern : String) : Except Err (Cond Param × List Value) :=
    .ok (.like column ⟨argStart, .text pattern⟩, [.text pattern])
  let single : Except Err (Cond Param × List Value) := do
    let v ← coerceFilter lib f fl.value
    return (.compare column fl.op ⟨argStart, v⟩, [v])
  match fl.op with
  | .isNull => .ok (.isNull column, [])
  | .isNotNull => .ok (.isNotNull column, [])
  | .oneOf => several false
  | .notIn => several true
  | .contains => like ("%" ++ escapeLike fl.value ++ "%")
  | .startsWith => like (escapeLike fl.value ++ "%")
  | _ => single

def compileFilters (lib : Lib) (col : Collection) :
    List Filter → List Value → Except Err (List (Cond Param) × List Value)
  | [], args => .ok ([], args)
  | fl :: filters, args => do
      let (clause, new) ← compileFilter lib (col.field fl.field) fl (args.length + 1)
      let (clauses, args) ← compileFilters lib col filters (args ++ new)
      return (clause :: clauses, args)

/-- A sort with its column, its type and the cursor's value for it. -/
structure Key where
  sort : SortKey
  column : String
  type : FieldType
  value : String

def Key.coerce (lib : Lib) (k : Key) : Except Err Value :=
  (Query.coerce lib k.type k.value).mapError fun err =>
    badCursor ("cursor value for " ++ k.sort.field ++ ": " ++ err)

/-- The inner loop: the columns that equal the cursor. -/
def keysetEqual (lib : Lib) (argStart : Nat) :
    List Key → List Value → Except Err (List (String × Param) × List Value)
  | [], args => .ok ([], args)
  | k :: keys, args => do
      let v ← k.coerce lib
      let (equal, args') ← keysetEqual lib argStart keys (args ++ [v])
      return ((k.column, ⟨argStart + args.length, v⟩) :: equal, args')

/-- The outer loop: one alternative for each key, behind those in `before`. -/
def keysetParts (lib : Lib) (argStart : Nat) :
    List Key → List Key → List Value → Except Err (List (Part Param) × List Value)
  | _, [], args => .ok ([], args)
  | before, k :: keys, args => do
      let (equal, args) ← keysetEqual lib argStart before args
      let v ← k.coerce lib
      let (parts, args') ← keysetParts lib argStart (before ++ [k]) keys (args ++ [v])
      return (⟨equal, k.column, k.sort.descending, ⟨argStart + args.length, v⟩⟩ :: parts, args')

def keysetPredicate (lib : Lib) (keys : List Key) (argStart : Nat) :
    Except Err (Cond Param × List Value) := do
  let (parts, args) ← keysetParts lib argStart [] keys []
  return (.keyset parts, args)

/-! ## The statement -/

def pkSorts (col : Collection) : List SortKey :=
  (col.fields.filter fun f => f.pk && f.sortable).map fun f => ⟨f.name, false⟩

def containsSort (sorts : List SortKey) (field : String) : Bool := sorts.any (·.field = field)

/-- Add a sort unless its field is there. -/
def addSort (sorts : List SortKey) (pk : SortKey) : List SortKey :=
  if containsSort sorts pk.field then sorts else sorts ++ [pk]

/-- The sorts that apply, with the primary key as the last ones. -/
def effectiveSorts (col : Collection) (req : Request) : List SortKey :=
  (pkSorts col).foldl addSort (if req.sorts = [] then col.defaultSorts else req.sorts)

/-- The cursor of a request, once it is verified. -/
def openCursor (lib : Lib) (signer : Option Signer) (now : Int) (col : Collection)
    (req : Request) (sorts : List SortKey) : Except Err (Option CursorPayload) :=
  if req.page.cursor = "" then .ok none
  else
    match signer with
    | none => .error (.plain "query: cursor provided but signer is nil")
    | some s => do
        let p ← s.verify lib now req.page.cursor
        refuse (p.collection ≠ col.name ∨ p.fingerprint ≠ fingerprint lib col.name req sorts)
          (.invalid .cursorMismatch "cursor does not match this query")
        refuse (p.sortValues.elems.length ≠ sorts.length) (badCursor "cursor sort arity mismatch")
        return some p

def keysOf (col : Collection) (sorts : List SortKey) (values : List String) : List Key :=
  List.zipWith (fun s v => ⟨s, (col.field s.field).column, (col.field s.field).type, v⟩) sorts values

/-- The keyset condition of a cursor, if there is one. -/
def compileKeyset (lib : Lib) (col : Collection) (sorts : List SortKey)
    (cursor : Option CursorPayload) (args : List Value) :
    Except Err (List (Cond Param) × List Value) :=
  match cursor with
  | none => .ok ([], args)
  | some p => do
      let (clause, new) ←
        keysetPredicate lib (keysOf col sorts p.sortValues.elems) (args.length + 1)
      return ([clause], args ++ new)

/-- `Compiled`; its SQL is the text of its statement. -/
structure Compiled where
  statement : Statement Param
  args : List Value
  limit : Nat
  sorts : List SortKey
  sortColumns : List String
  fingerprint : String
  cursor : Option CursorPayload

def Compiled.sql (c : Compiled) : String := (c.statement.map Param.index).text

/-- The clauses of a request, with their arguments. -/
def compileWhere (lib : Lib) (col : Collection) (req : Request) (sorts : List SortKey)
    (cursor : Option CursorPayload) : Except Err (List (Cond Param) × List Value) := do
  let (search, args) ← compileSearch col req.query (col.selectArgs.map Value.text)
  let (filters, args) ← compileFilters lib col req.filters.elems args
  let (keyset, args) ← compileKeyset lib col sorts cursor args
  return (search ++ filters ++ keyset, args)

/-- The page size that applies. -/
def Request.limit (req : Request) : Nat :=
  if req.page.limit = 0 then defaultLimit else req.page.limit

/-- The plan of a request, from its clauses and their arguments. -/
def Compiled.of (lib : Lib) (col : Collection) (req : Request) (cursor : Option CursorPayload)
    (conds : List (Cond Param)) (args : List Value) : Compiled :=
  let sorts := effectiveSorts col req
  let sortColumns := sorts.map fun s => (col.field s.field).column
  let last : Value := .int (req.limit + 1)
  { statement := {
      select := col.selectList
      source := col.fromClause
      conds := conds
      order := sortColumns.zip (sorts.map SortKey.descending)
      limit := ⟨(args ++ [last]).length, last⟩ }
    args := args ++ [last]
    limit := req.limit
    sorts := sorts
    sortColumns := sortColumns
    fingerprint := Query.fingerprint lib col.name req sorts
    cursor := cursor }

/-- `Compiler.Compile` -/
def compile (lib : Lib) (signer : Option Signer) (now : Int) (col : Collection) (req : Request) :
    Except Err Compiled := do
  validateRequest lib col req
  let sorts := effectiveSorts col req
  refuse (sorts = []) (.invalid .invalidSort
    ("collection " ++ col.name ++ " has no sortable primary key"))
  let cursor ← openCursor lib signer now col req sorts
  let (conds, args) ← compileWhere lib col req sorts cursor
  return .of lib col req cursor conds args

/-- `Compiler.NextCursor` -/
def nextCursor (lib : Lib) (signer : Option Signer) (now : Int) (col : Collection)
    (compiled : Compiled) (sortValues : Slice String) : Except Err String :=
  match signer with
  | none => .error (.plain "query: cursor signer required")
  | some s => s.sign lib now ⟨0, col.name, compiled.fingerprint, sortValues, 0⟩

/-! ## What a successful compilation went through -/

section
variable {ε α β : Type}

theorem bind_ok {x : Except ε α} {f : α → Except ε β} {b : β} (h : x >>= f = .ok b) :
    ∃ a, x = .ok a ∧ f a = .ok b := by
  cases x with
  | error => exact absurd h (by simp [bind, Except.bind])
  | ok a => exact ⟨a, rfl, h⟩

theorem exists_ok {x : Except ε α} (h : x.toBool = true) : ∃ a, x = .ok a := by
  cases x with
  | error => simp [Except.toBool] at h
  | ok a => exact ⟨a, rfl⟩

theorem refuse_ok {bad : Prop} [Decidable bad] {e : Err} {u : Unit} (h : refuse bad e = .ok u) :
    ¬bad := by
  intro hbad
  rw [refuse, if_pos hbad] at h
  exact absurd h (by simp)

end

section
variable {lib : Lib} {signer : Option Signer} {now : Int} {col : Collection} {req : Request}
  {c : Compiled}

theorem compile_ok (h : compile lib signer now col req = .ok c) :
    ∃ cursor conds args, effectiveSorts col req ≠ [] ∧
      openCursor lib signer now col req (effectiveSorts col req) = .ok cursor ∧
      compileWhere lib col req (effectiveSorts col req) cursor = .ok (conds, args) ∧
      c = .of lib col req cursor conds args := by
  obtain ⟨_, -, h⟩ := bind_ok h
  obtain ⟨_, hsorts, h⟩ := bind_ok h
  obtain ⟨cursor, hcursor, h⟩ := bind_ok h
  obtain ⟨⟨conds, args⟩, hwhere, h⟩ := bind_ok h
  exact ⟨cursor, conds, args, refuse_ok hsorts, hcursor, hwhere, (Except.ok.inj h).symm⟩

theorem compile_eq {cursor : Option CursorPayload} {conds : List (Cond Param)} {args : List Value}
    (hvalid : validateRequest lib col req = .ok ()) (hsorts : effectiveSorts col req ≠ [])
    (hcursor : openCursor lib signer now col req (effectiveSorts col req) = .ok cursor)
    (hwhere : compileWhere lib col req (effectiveSorts col req) cursor = .ok (conds, args)) :
    compile lib signer now col req = .ok (.of lib col req cursor conds args) := by
  simp only [compile, hvalid, refuse, if_neg hsorts, hcursor, hwhere, bind, Except.bind, pure,
    Except.pure]

/-- A cursor is accepted only for the collection and the fingerprint that it is signed for. -/
theorem openCursor_ok {sorts : List SortKey} {cursor : Option CursorPayload}
    (h : openCursor lib signer now col req sorts = .ok cursor) :
    (req.page.cursor = "" ∧ cursor = none) ∨
      ∃ s p, req.page.cursor ≠ "" ∧ signer = some s ∧ cursor = some p ∧
        s.verify lib now req.page.cursor = .ok p ∧ p.collection = col.name ∧
        p.fingerprint = fingerprint lib col.name req sorts ∧
        p.sortValues.elems.length = sorts.length := by
  unfold openCursor at h
  split at h
  next hnone => exact .inl ⟨hnone, (Except.ok.inj h).symm⟩
  next hsome =>
    cases signer with
    | none => simp at h
    | some s =>
      obtain ⟨p, hverify, h⟩ := bind_ok h
      obtain ⟨_, hmatch, h⟩ := bind_ok h
      obtain ⟨_, harity, h⟩ := bind_ok h
      have hmatch := refuse_ok hmatch
      push Not at hmatch
      exact .inr ⟨s, p, hsome, rfl, (Except.ok.inj h).symm, hverify, hmatch.1, hmatch.2,
        not_not.mp (refuse_ok harity)⟩

end

end Ultracore.Query
