-- SUMMARY: What a policy permits, the inclusion order of policies, and the JSON column they are stored in.
import Mathlib.Data.Fintype.EquivFin
import Ultracore.Core.Run

/-!
# Policies

A policy stands for a set of tools, a set of resource kinds and a number of children. Both
sets are written as lists with a wildcard, the tools with exceptions as well. `IsSubset`
compares the lists; that it decides the inclusion of the sets rests on there being
infinitely many names.

The `grants` column holds a policy as JSON. `decodePolicy` also understands an older shape
of the column.
-/

namespace Ultracore

/-! ## Lists with a wildcard -/

section
variable {α : Type} [Infinite α]

/-- No finite list has all the names that another one leaves. -/
theorem exists_not_mem (l m : List α) : ∃ x, x ∉ l ∧ x ∉ m := by
  classical
  obtain ⟨x, hx⟩ := Infinite.exists_notMem_finset (l ++ m).toFinset
  exact ⟨x, by simpa using hx⟩

end

namespace RunPolicy

variable {p q c : RunPolicy} {name kind : String}

/-! ## Tools -/

theorem allowsTool_iff : p.allowsTool name = true ↔
    name ∉ p.denyTools ∧ "*" ∉ p.denyTools ∧ ("*" ∈ p.allowTools ∨ name ∈ p.allowTools) := by
  simp [allowsTool, and_assoc]

theorem allowHasStar_iff : p.allowHasStar = true ↔ "*" ∉ p.denyTools ∧ "*" ∈ p.allowTools := by
  simp [allowHasStar]

/-- With a wildcard, a policy permits what it does not deny. -/
theorem allowsTool_of_star (h : p.allowHasStar = true) :
    p.allowsTool name = true ↔ name ∉ p.denyTools := by
  obtain ⟨hdeny, hallow⟩ := allowHasStar_iff.mp h
  simp [allowsTool_iff, hdeny, hallow]

/-- Without one, it permits what remains of the list. -/
theorem allowsTool_of_not_star (h : p.allowHasStar = false) :
    p.allowsTool name = true ↔ name ∈ p.effectiveAllow := by
  rw [allowsTool_iff]
  unfold allowHasStar at h
  unfold effectiveAllow
  by_cases hdeny : "*" ∈ p.denyTools
  · simp [hdeny]
  · have hallow : "*" ∉ p.allowTools := by simpa [hdeny] using h
    simp [hdeny, hallow, and_comm]

theorem star_not_mem_effectiveAllow (h : p.allowHasStar = false) : "*" ∉ p.effectiveAllow := by
  rw [← allowsTool_of_not_star h, allowsTool_iff]
  rintro ⟨-, hdeny, hallow⟩
  have hstar := allowHasStar_iff.mpr ⟨hdeny, hallow.elim id id⟩
  rw [h] at hstar
  cases hstar

theorem isSubset_eq : c.isSubset p = (decide (c.maxChildren ≤ p.maxChildren) &&
    (c.toolsSubset p && kindsSubset c.resourceKinds p.resourceKinds)) := by
  unfold isSubset
  by_cases hmax : c.maxChildren ≤ p.maxChildren
  · simp [hmax, Int.not_lt.mpr hmax]
  · simp [hmax, Int.not_le.mp hmax]

/-- A wildcard is only within a wildcard: the names that are not denied are more than any
    list has. -/
theorem not_within_of_star (hc : c.allowHasStar = true) (hp : p.allowHasStar = false) :
    ¬∀ name, c.allowsTool name = true → p.allowsTool name = true := by
  intro h
  obtain ⟨name, hdeny, hallow⟩ := exists_not_mem c.denyTools p.effectiveAllow
  exact hallow ((allowsTool_of_not_star hp).mp (h name ((allowsTool_of_star hc).mpr hdeny)))

theorem toolsSubset_iff : c.toolsSubset p = true ↔
    ∀ name, c.allowsTool name = true → p.allowsTool name = true := by
  unfold toolsSubset
  cases hc : c.allowHasStar with
  | true =>
    cases hp : p.allowHasStar with
    | false => simpa using not_within_of_star hc hp
    | true =>
      -- the child leaves out what the parent denies
      have hstar := (allowHasStar_iff.mp hc).1
      have hstar' := (allowHasStar_iff.mp hp).1
      simp only [allowsTool_of_star hc, allowsTool_of_star hp, Bool.not_true, Bool.and_false,
        Bool.false_eq_true, if_false, List.all_eq_true, Bool.or_eq_true, beq_iff_eq,
        List.contains_iff_mem, hstar, or_false]
      refine ⟨fun h name hname hmem => ?_, fun h d hd => .inr ?_⟩
      · rcases h name hmem with rfl | hdeny
        · exact hstar' hmem
        · exact hname hdeny
      · exact Classical.not_not.mp fun hdeny => h d hdeny hd
  | false =>
    have hstar := star_not_mem_effectiveAllow hc
    simp only [allowsTool_of_not_star hc, Bool.false_and, Bool.false_eq_true, if_false,
      Bool.not_false, if_true, List.all_eq_true, Bool.or_eq_true, beq_iff_eq]
    refine forall₂_congr fun t ht => ?_
    have hne : t ≠ "*" := fun heq => hstar (heq ▸ ht)
    cases hp : p.allowHasStar with
    | true => simp [allowsTool_of_star hp, hne]
    | false =>
      -- what is left of the parent's list is not denied
      have hdeny : t ∈ p.effectiveAllow → t ∉ p.denyTools := fun h =>
        (allowsTool_iff.mp ((allowsTool_of_not_star hp).mpr h)).1
      simpa [allowsTool_of_not_star hp, hne] using hdeny

/-! ## Resource kinds -/

theorem allowsResourceKind_iff : p.allowsResourceKind kind = true ↔
    "*" ∈ p.resourceKinds ∨ kind ∈ p.resourceKinds := by
  unfold allowsResourceKind
  split
  · rename_i hlen
    simp [List.length_eq_zero_iff.mp hlen]
  · simp

theorem kindsSubset_iff : kindsSubset c.resourceKinds p.resourceKinds = true ↔
    ∀ kind, c.allowsResourceKind kind = true → p.allowsResourceKind kind = true := by
  simp only [allowsResourceKind_iff]
  unfold kindsSubset
  split
  · rename_i hempty
    simp [List.isEmpty_iff.mp hempty]
  · split
    · rename_i hp
      simp [List.contains_iff_mem.mp hp]
    · rename_i hp
      have hp : "*" ∉ p.resourceKinds := by simpa using hp
      split
      · rename_i hc
        obtain ⟨kind, -, hkind⟩ := exists_not_mem [] p.resourceKinds
        have hc : "*" ∈ c.resourceKinds := List.contains_iff_mem.mp hc
        simpa [hp, hc] using ⟨kind, hkind⟩
      · rename_i hc
        have hc : "*" ∉ c.resourceKinds := by simpa using hc
        simp [hp, hc]

/-! ## Inclusion -/

/-- A policy permits nothing that another does not. -/
structure Within (c p : RunPolicy) : Prop where
  maxChildren : c.maxChildren ≤ p.maxChildren
  tools : ∀ name, c.allowsTool name = true → p.allowsTool name = true
  kinds : ∀ kind, c.allowsResourceKind kind = true → p.allowsResourceKind kind = true

theorem Within.refl (p : RunPolicy) : p.Within p := ⟨Int.le_refl _, fun _ => id, fun _ => id⟩

theorem Within.trans (h₁ : c.Within p) (h₂ : p.Within q) : c.Within q :=
  ⟨Int.le_trans h₁.maxChildren h₂.maxChildren, fun n h => h₂.tools n (h₁.tools n h),
    fun k h => h₂.kinds k (h₁.kinds k h)⟩

theorem isSubset_iff_within : c.isSubset p = true ↔ c.Within p := by
  rw [isSubset_eq, Bool.and_eq_true, Bool.and_eq_true, decide_eq_true_eq, toolsSubset_iff,
    kindsSubset_iff]
  exact ⟨fun ⟨hmax, htools, hkinds⟩ => ⟨hmax, htools, hkinds⟩,
    fun h => ⟨h.maxChildren, h.tools, h.kinds⟩⟩

/-- `IsSubset` holds exactly where the child permits no more children, no further tool and no
    further resource kind. -/
theorem isSubset_exact (c p : RunPolicy) : c.isSubset p = true ↔
    c.maxChildren ≤ p.maxChildren ∧
    (∀ name, c.allowsTool name = true → p.allowsTool name = true) ∧
    ∀ kind, c.allowsResourceKind kind = true → p.allowsResourceKind kind = true := by
  rw [isSubset_iff_within]
  exact ⟨fun h => ⟨h.maxChildren, h.tools, h.kinds⟩,
    fun ⟨hmax, htools, hkinds⟩ => ⟨hmax, htools, hkinds⟩⟩

end RunPolicy

/-! ## The grants column -/

/-- JSON values, as far as a policy needs them. -/
inductive Json where
  | null
  | bool (b : Bool)
  | num (n : Int)
  | str (s : String)
  | arr (items : List Json)
  | obj (fields : List (String × Json))

namespace Json

/-- Keys match the name of a field whatever their case. Besides the ASCII letters that
    concerns the long s and the Kelvin sign, which fold to one. -/
def foldName (key : String) : List Char :=
  key.toList.map fun c =>
    if c.toNat = 0x17f then 'S' else if c.toNat = 0x212a then 'K' else c.toUpper

/-- An item of a list of strings; `null` leaves the empty string there. -/
def string? : Json → Option String
  | .str s => some s
  | .null => some ""
  | _ => none

/-- A list of strings; `null` is the empty list. -/
def strings? : Json → Option (List String)
  | .arr items => items.mapM string?
  | .null => some []
  | _ => none

/-- What a decoding whose errors are ignored leaves of a list of strings. -/
def lenientStrings (old : List String) : Json → List String
  | .arr items => items.map fun item => item.string?.getD ""
  | .null => []
  | _ => old

/-- The strings of a list are read back. -/
@[simp] theorem strings?_arr (l : List String) : strings? (.arr (l.map .str)) = some l := by
  simp only [strings?, List.mapM_map]
  induction l with
  | nil => rfl
  | cons s l ih => simp [ih, string?]

end Json

namespace RunPolicy

/-- The policy that permits nothing: the zero value. -/
def none : RunPolicy := { allowTools := [], maxChildren := 0, childInherit := false }

inductive Field where
  | allowTools
  | denyTools
  | resourceKinds
  | maxChildren
  | childInherit
deriving DecidableEq

def Field.name : Field → String
  | .allowTools => "allow_tools"
  | .denyTools => "deny_tools"
  | .resourceKinds => "resource_kinds"
  | .maxChildren => "max_children"
  | .childInherit => "child_inherit"

/-- The field that a member of an object is decoded into; other members are skipped. -/
def Field.find (key : String) : Option Field :=
  [allowTools, denyTools, resourceKinds, maxChildren, childInherit].find? fun f =>
    Json.foldName f.name = Json.foldName key

theorem Field.find_name (f : Field) : find f.name = some f := by
  cases f <;> decide

/-- `json.Marshal`: empty deny and kind lists are left out. -/
def encode (p : RunPolicy) : List (Field × Json) :=
  [(.allowTools, .arr (p.allowTools.map .str))] ++
    (if p.denyTools.isEmpty then [] else [(.denyTools, .arr (p.denyTools.map .str))]) ++
    (if p.resourceKinds.isEmpty then [] else [(.resourceKinds, .arr (p.resourceKinds.map .str))]) ++
    [(.maxChildren, .num p.maxChildren), (.childInherit, .bool p.childInherit)]

/-- Decode one field: a value of another type is an error, and `null` leaves a number or a
    flag as it is. -/
def decodeField (p : RunPolicy) (value : Json) : Field → Option RunPolicy
  | .allowTools => value.strings?.map fun l => { p with allowTools := l }
  | .denyTools => value.strings?.map fun l => { p with denyTools := l }
  | .resourceKinds => value.strings?.map fun l => { p with resourceKinds := l }
  | .maxChildren =>
    match value with
    | .num n => some { p with maxChildren := n }
    | .null => some p
    | _ => Option.none
  | .childInherit =>
    match value with
    | .bool b => some { p with childInherit := b }
    | .null => some p
    | _ => Option.none

/-- `json.Unmarshal` into a policy, one member of the object after the other. -/
def decodeFields : List (String × Json) → RunPolicy → Option RunPolicy
  | [], p => some p
  | (key, value) :: rest, p =>
    match Field.find key with
    | some f => (p.decodeField value f).bind (decodeFields rest)
    | Option.none => decodeFields rest p

end RunPolicy

/-- `json.Marshal` of a policy. -/
def encodePolicy (p : RunPolicy) : Json := .obj (p.encode.map fun f => (f.1.name, f.2))

/-- The tools of the older shape of the column, `{"tools": [...]}`. -/
def legacyTools (fields : List (String × Json)) : List String :=
  fields.foldl (fun tools field =>
    if Json.foldName field.1 = Json.foldName "tools" then field.2.lenientStrings tools else tools) []

/-- `decodePolicy`: both shapes of the column; `none` where the decoding fails. -/
def decodePolicy : Json → Option RunPolicy
  | .null => some .none
  | .obj fields => (RunPolicy.decodeFields fields .none).map fun p =>
    if p.allowTools.length = 0 ∧ (legacyTools fields).length > 0 then
      { p with allowTools := legacyTools fields }
    else p
  | _ => none

namespace RunPolicy

/-- The members of an encoded policy say the same as the policy. -/
theorem decodeFields_encode (p : RunPolicy) :
    decodeFields (p.encode.map fun f => (f.1.name, f.2)) .none = some p := by
  obtain ⟨allow, deny, kinds, max, inherit⟩ := p
  by_cases hdeny : deny = [] <;> by_cases hkinds : kinds = [] <;>
    simp [encode, decodeFields, Field.find_name, decodeField, none, hdeny, hkinds]

/-- No field of a policy is called `tools`. -/
theorem legacyTools_encode (fields : List (Field × Json)) :
    legacyTools (fields.map fun f => (f.1.name, f.2)) = [] := by
  have hname : ∀ f : Field, Json.foldName f.name ≠ Json.foldName "tools" := by
    intro f
    cases f <;> decide
  unfold legacyTools
  induction fields with
  | nil => rfl
  | cons f fields ih => simpa [hname] using ih

end RunPolicy

/-- What is read from the column is the policy that was written. -/
theorem decodePolicy_encodePolicy (p : RunPolicy) : decodePolicy (encodePolicy p) = some p := by
  simp [decodePolicy, encodePolicy, RunPolicy.decodeFields_encode, RunPolicy.legacyTools_encode]

/-- A policy after it was stored and read again. -/
def storedPolicy (p : RunPolicy) : RunPolicy := (decodePolicy (encodePolicy p)).getD .none

@[simp] theorem storedPolicy_eq (p : RunPolicy) : storedPolicy p = p := by
  simp [storedPolicy, decodePolicy_encodePolicy]

end Ultracore
