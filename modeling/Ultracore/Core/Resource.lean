-- SUMMARY: Session resources: their states, specs and handles.
import Ultracore.Core.Policy

/-!
# Resources

File `resource.go`. A resource is owned by a session and hosted by a provider. Its spec is
JSON of the kind's own shape, its handle is JSON of the provider's.
-/

namespace Ultracore

abbrev ResourceID := String

/-- The resource lifecycle. -/
inductive ResourceState where
  | requested
  | provisioning
  | ready
  | suspended
  | terminating
  | terminated
  | failed
deriving DecidableEq

/-- Whether a resource is finished. -/
def ResourceState.terminal : ResourceState → Bool
  | .terminated | .failed => true
  | _ => false

def ResourceState.text : ResourceState → String
  | .requested => "requested"
  | .provisioning => "provisioning"
  | .ready => "ready"
  | .suspended => "suspended"
  | .terminating => "terminating"
  | .terminated => "terminated"
  | .failed => "failed"

/-- The development-environment resource kind. -/
def resourceKindDevEnv : String := "dev_env"

/-! ## Specs -/

/-- A map from strings to strings; `null` is the empty map. -/
def Json.stringMap? : Json → Option (List (String × String))
  | .obj fields => fields.mapM fun field => field.2.string?.map fun s => (field.1, s)
  | .null => some []
  | _ => none

structure DevEnvSpec where
  name : String := ""
  image : String := ""
  workdir : String := ""
  env : List (String × String) := []
  metadata : List (String × String) := []

namespace DevEnvSpec

inductive Field where
  | name
  | image
  | workdir
  | env
  | metadata

def Field.find (key : String) : Option Field :=
  [("name", Field.name), ("image", .image), ("workdir", .workdir), ("env", .env),
    ("metadata", .metadata)].findSome? fun f =>
      if Json.foldName f.1 = Json.foldName key then some f.2 else none

/-- A string field; `null` leaves it as it is. -/
def decodeString (old : String) : Json → Option String
  | .str s => some s
  | .null => some old
  | _ => none

def decodeField (s : DevEnvSpec) (value : Json) : Field → Option DevEnvSpec
  | .name => (decodeString s.name value).map fun v => { s with name := v }
  | .image => (decodeString s.image value).map fun v => { s with image := v }
  | .workdir => (decodeString s.workdir value).map fun v => { s with workdir := v }
  | .env => value.stringMap?.map fun v => { s with env := v }
  | .metadata => value.stringMap?.map fun v => { s with metadata := v }

def decodeFields : List (String × Json) → DevEnvSpec → Option DevEnvSpec
  | [], s => some s
  | (key, value) :: rest, s =>
    match Field.find key with
    | some f => (s.decodeField value f).bind (decodeFields rest)
    | none => decodeFields rest s

end DevEnvSpec

/-- `ParseDevEnvSpec`; `none` where the decoding fails. A stored spec is never empty. -/
def parseDevEnvSpec : Json → Option DevEnvSpec
  | .obj fields => DevEnvSpec.decodeFields fields {}
  | .null => some {}
  | _ => none

/-- The name in a spec of any kind, decoded without looking at errors. -/
def probeName : Json → String
  | .obj fields => fields.foldl (fun name field =>
    if Json.foldName field.1 = Json.foldName "name" then
      (DevEnvSpec.decodeString name field.2).getD name
    else name) ""
  | _ => ""

/-! ## Handles -/

/-- The version of a handle, where it can be decoded. -/
def handleVersion (fields : List (String × Json)) : Option Int :=
  fields.foldlM (fun version field =>
    if Json.foldName field.1 = Json.foldName "version" then
      match field.2 with
      | .num n => some n
      | .null => some version
      | _ => none
    else some version) 0

/-- `HandlePresent`: version 0, `null` and the empty object mean that nothing was acquired
    yet. JSON without a version is a handle. -/
def handlePresent : Json → Bool
  | .null | .obj [] => false
  | .obj fields =>
    match handleVersion fields with
    | some version => decide (version > 0) || !fields.any fun field => field.1 = "version"
    | none => true
  | _ => true

/-- The default of the handle column. -/
def noHandle : Json := .obj [("version", .num 0), ("data", .null)]

@[simp] theorem handlePresent_noHandle : handlePresent noHandle = false := by decide

/-- One session-owned resource. The token stands for its hash and its encryption, which
    are written together. -/
structure Resource where
  id : ResourceID
  kind : String := resourceKindDevEnv
  state : ResourceState := .requested
  spec : Json := .obj []
  handle : Json := noHandle
  endpoint : String := ""
  token : String
  epoch : Nat := 1
  failureMessage : String := ""
  updatedAt : Time := 0
  readyAt : Option Time := none
  terminatedAt : Option Time := none

end Ultracore
