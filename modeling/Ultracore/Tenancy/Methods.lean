-- SUMMARY: Which store methods see and change the rows of their tenant only, and what the others need for it.
import Ultracore.Tenancy.Rows

/-!
# Store methods

Most methods select by the tenant, directly or through a join, and so stay within the rows
of the tenant for every argument. Four do so for some arguments only. `Create` of a run and
of a wait refer to runs of any tenant, `Set` of the memory counts the entries of a session
before it asks whose session it is, and `Members` never asks whose wait it lists. Of these it
is said here what they return on any tables, and that they write to rows of the tenant.
-/

namespace Ultracore

open Txn

namespace Tx

variable {α β γ : Type} {t : TenantID} {d : Db}

/-- From tables `d` the transaction sees and changes rows of the tenant only, and ends with
    `Q`. -/
def Within (t : TenantID) (d : Db) (x : Tx α) (Q : Except Err α → Db → Prop) : Prop :=
  x.prog.Confined (Db.part t) (Db.rest t) d Q

/-- It does so, and keeps the keys. -/
abbrev Stays (t : TenantID) (d : Db) (x : Tx α) : Prop := Within t d x fun _ d' => d'.Keyed

variable {Q : Except Err α → Db → Prop}

variable (hk : d.Keyed)
include hk
variable {r : RunID} {s : SessionID} {w : WaitID} {key : String}

/-! ## Events and memory -/

section
omit hk
variable {run : AgentRun} {e : MemoryEntry} {text : String} {ms : List RunWaitMember}

end

end Tx

end Ultracore
