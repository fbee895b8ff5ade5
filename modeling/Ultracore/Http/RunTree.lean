-- SUMMARY: The runs of a session as trees: nodes linked through a map in one pass, and every run shown once.
import Ultracore.Core.Run
import Ultracore.Forest.Linked

/-!
# The tree of runs

`GetRunTree`, file `http/agent_handler.go`. The nodes are held by pointers in a map. One pass over
the runs appends each node to the children of its parent, if that is in the map, and to the roots
otherwise. The response is what a client reads by following the pointers.
-/

namespace Ultracore.Http.RunTree

open Forest

variable {ε : Type}

/-! ## The handler -/

/-- What the statements of a request return. -/
structure Reads (ε : Type) where
  /-- `resolveSessionTenant` -/
  tenant : Except ε TenantID
  list : TenantID → Except ε (List AgentRun)
  listForParent : TenantID → RunID → Except ε (List RunWait)
  members : TenantID → WaitID → Except ε (List RunWaitMember)

/-- A wait with the runs it is for. -/
structure Wait where
  wait : RunWait
  memberRunIds : List RunID

/-- A node. Its children are pointers, given by the ids under which the map has them. -/
structure RunTreeNode where
  run : AgentRun
  waits : List Wait
  children : List RunID := []

abbrev Nodes := RunID → Option RunTreeNode

def Reads.waits (reads : Reads ε) (t : TenantID) (run : AgentRun) : Except ε (List Wait) := do
  let waits ← reads.listForParent t run.id
  waits.mapM fun wait => do
    let members ← reads.members t wait.id
    return ⟨wait, members.map RunWaitMember.runID⟩

/-- The first loop: the nodes, and the order of their ids. -/
def Reads.collect (reads : Reads ε) (t : TenantID) :
    List AgentRun → Nodes → List RunID → Except ε (Nodes × List RunID)
  | [], nodes, order => .ok (nodes, order)
  | run :: runs, nodes, order => do
      let waits ← reads.waits t run
      collect reads t runs (Function.update nodes run.id (some { run, waits })) (order ++ [run.id])

/-- The parent that a run shows. One with an empty id is none. -/
def parentRunId (run : AgentRun) : Option RunID := run.parentRunID.filter fun p => p.text ≠ ""

/-- The second loop, for one id. -/
def link (g : Nodes × List RunID) (id : RunID) : Nodes × List RunID :=
  match (g.1 id).bind fun node => parentRunId node.run with
  | none => (g.1, g.2 ++ [id])
  | some parentID =>
    match g.1 parentID with
    | none => (g.1, g.2 ++ [id])
    | some parent =>
      (Function.update g.1 parentID (some { parent with children := parent.children ++ [id] }),
        g.2)

/-- The nodes of the response and its roots. -/
def getRunTree (reads : Reads ε) : Except ε (Nodes × List RunID) := do
  let t ← reads.tenant
  let runs ← reads.list t
  let (nodes, order) ← reads.collect t runs (fun _ => none) []
  return order.foldl link (nodes, [])

/-- What a node shows besides its children. -/
structure Shown where
  run : AgentRun
  waits : List Wait

def Nodes.read (nodes : Nodes) (id : RunID) : Option (Shown × List RunID) :=
  (nodes id).map fun node => (⟨node.run, node.waits⟩, node.children)

/-- The response as a client reads it, if it is less than `n` nodes deep. -/
def response (n : Nat) (g : Nodes × List RunID) : Option (List (Forest.Tree Shown)) :=
  g.2.mapM (follow g.1.read n)

/-! ## The loops -/

section
variable {reads : Reads ε} {t : TenantID} {g : Nodes × List RunID} {items done : List Shown}

theorem bind_ok {α β : Type} {x : Except ε α} {f : α → Except ε β} {b : β}
    (h : x >>= f = .ok b) : ∃ a, x = .ok a ∧ f a = .ok b := by
  cases x with
  | error e => cases h
  | ok a => exact ⟨a, rfl, h⟩

/-- The first loop has a node for each run, without children, and nothing else. -/
theorem collect_ok {runs : List AgentRun} {nodes nodes' : Nodes} {order order' : List RunID}
    (hids : (runs.map AgentRun.id).Nodup)
    (h : reads.collect t runs nodes order = .ok (nodes', order')) :
    ∃ items : List Shown, items.map Shown.run = runs ∧
      (∀ x ∈ items, reads.waits t x.run = .ok x.waits) ∧
      order' = order ++ items.map (fun x => x.run.id) ∧
      (∀ x ∈ items, nodes' x.run.id = some ⟨x.run, x.waits, []⟩) ∧
      ∀ id, id ∉ items.map (fun x => x.run.id) → nodes' id = nodes id := by
  induction runs generalizing nodes order with
  | nil =>
    cases h
    exact ⟨[], by simp⟩
  | cons run runs ih =>
    obtain ⟨waits, hwaits, h⟩ := bind_ok h
    obtain ⟨hnot, hids⟩ := List.nodup_cons.mp hids
    obtain ⟨items, rfl, hitems, rfl, hnodes, hother⟩ := ih hids h
    rw [List.map_map] at hnot
    refine ⟨⟨run, waits⟩ :: items, rfl, ?_, by simp, ?_, ?_⟩
    · simpa [hwaits] using hitems
    · intro x hx
      rcases List.mem_cons.mp hx with rfl | hx
      · rw [hother run.id hnot, Function.update_self]
      · exact hnodes x hx
    · intro id hid
      rw [List.map_cons, List.mem_cons, not_or] at hid
      rw [hother id hid.2, Function.update_of_ne hid.1]

/-- The key and the parent of what is shown. -/
def Shown.key (x : Shown) : RunID := x.run.id

def Shown.parent (x : Shown) : Option RunID := parentRunId x.run

/-- The nodes of all items once those in `done` have been linked. -/
structure Linked (items done : List Shown) (g : Nodes × List RunID) : Prop where
  node : ∀ x ∈ items, g.1 x.key =
    some ⟨x.run, x.waits, (childrenOf done Shown.parent x.key).map Shown.key⟩
  other : ∀ id, listed items Shown.key id = false → g.1 id = none
  roots : g.2 =
    (done.filter fun x => !x.parent.any (listed items Shown.key)).map Shown.key

theorem childrenOf_snoc (done : List Shown) (y : Shown) (id : RunID) :
    childrenOf (done ++ [y]) Shown.parent id =
      childrenOf done Shown.parent id ++ if y.parent = some id then [y] else [] := by
  simp [childrenOf, List.filter_append, List.filter_singleton]

/-- The map has the items and nothing else. -/
theorem Linked.isSome (h : Linked items done g)
    (id : RunID) : (g.1 id).isSome = listed items Shown.key id := by
  cases hl : listed items Shown.key id with
  | false => rw [h.other id hl, Option.isSome_none]
  | true =>
    obtain ⟨x, hx, rfl⟩ := listed_iff.mp hl
    rw [h.node x hx, Option.isSome_some]

/-- Linking one more node. -/
theorem Linked.step {y : Shown}
    (h : Linked items done g) (hy : y ∈ items) : Linked items (done ++ [y]) (link g y.key) := by
  have hparent : ((g.1 y.key).bind fun node => parentRunId node.run) = y.parent := by
    rw [h.node y hy]
    rfl
  -- Without a listed parent the node becomes a root, and no children change.
  have hroot (hnone : y.parent.any (listed items Shown.key) = false) :
      Linked items (done ++ [y]) (g.1, g.2 ++ [y.key]) := by
    refine ⟨fun x hx => ?_, h.other, by simp [List.filter_append, hnone, h.roots]⟩
    have hne : y.parent ≠ some x.key := fun hp => by
      simp [hp, listed_iff.mpr ⟨x, hx, rfl⟩] at hnone
    rw [childrenOf_snoc, if_neg hne, List.append_nil]
    exact h.node x hx
  rw [link, hparent]
  cases hp : y.parent with
  | none => exact hroot (by rw [hp]; rfl)
  | some p =>
    have hlisted := h.isSome p
    dsimp only
    cases hg : g.1 p with
    | none => exact hroot (by rw [hp, Option.any_some, ← hlisted, hg]; rfl)
    | some parent =>
      rw [hg, Option.isSome_some] at hlisted
      refine ⟨fun x hx => ?_, fun id hid => ?_, ?_⟩
      · rw [childrenOf_snoc, hp]
        by_cases hx' : x.key = p
        · subst hx'
          cases (h.node x hx).symm.trans hg
          simp
        · dsimp only
          rw [Function.update_of_ne hx', h.node x hx, if_neg fun he => hx' (Option.some.inj he).symm,
            List.append_nil]
      · have hne : id ≠ p := fun he => by simp [he, ← hlisted] at hid
        exact (Function.update_of_ne hne _ _).trans (h.other id hid)
      · simp [List.filter_append, hp, ← hlisted, h.roots]

/-- The second loop. -/
theorem Linked.run (todo : List Shown) (h : Linked items done g) (htodo : ∀ y ∈ todo, y ∈ items) :
    Linked items (done ++ todo) ((todo.map Shown.key).foldl link g) := by
  induction todo generalizing done g with
  | nil => simpa using h
  | cons y todo ih =>
    have hrest := ih (h.step (htodo y (by simp))) fun z hz => htodo z (by simp [hz])
    simpa using hrest

end

/-! ## The response -/

/-- The children that a node shows. -/
def childRuns (x : Forest.Tree Shown) : List AgentRun := x.children.map fun y => y.label.run

/-- If no run is its own ancestor, the response is a forest in which each run is at one place, with
    its waits. The children of a node are the runs that have it as their parent, and the roots are
    those whose parent is not listed, both in the order of the list. -/
theorem run_tree_exact (reads : Reads ε) {t : TenantID} {runs : List AgentRun}
    {g : Nodes × List RunID} (htenant : reads.tenant = .ok t) (hruns : reads.list t = .ok runs)
    (hids : (runs.map AgentRun.id).Nodup) (hacyclic : Acyclic runs AgentRun.id parentRunId)
    (h : getRunTree reads = .ok g) :
    ∃ n F, (∀ m ≥ n, response m g = some F) ∧
      ((Tree.nodesAll F).map fun x => x.label.run).Perm runs ∧
      (∀ x ∈ Tree.nodesAll F, childRuns x =
        runs.filter fun r => parentRunId r = some x.label.run.id) ∧
      (F.map fun x => x.label.run) =
        runs.filter (fun r => (parentRunId r).all fun p => p ∉ runs.map AgentRun.id) ∧
      ∀ x ∈ Tree.nodesAll F, reads.waits t x.label.run = .ok x.label.waits := by
  obtain ⟨t', ht', h⟩ := bind_ok h
  cases htenant.symm.trans ht'
  obtain ⟨runs', hruns', h⟩ := bind_ok h
  cases hruns.symm.trans hruns'
  obtain ⟨⟨nodes, order⟩, hcollect, h⟩ := bind_ok h
  cases h
  obtain ⟨items, rfl, hwaits, rfl, hnodes, hother⟩ := collect_ok hids hcollect
  rw [List.map_map] at hids
  have hstart : Linked items [] (nodes, []) := by
    refine ⟨hnodes, fun id hid => hother id fun hmem => ?_, rfl⟩
    obtain ⟨x, hx, rfl⟩ := List.mem_map.mp hmem
    have hlisted : listed items Shown.key x.run.id = true := listed_iff.mpr ⟨x, hx, rfl⟩
    rw [hlisted] at hid
    cases hid
  have hlinked := hstart.run items fun _ hy => hy
  rw [List.nil_append] at hlinked
  have hnames : Acyclic items Shown.key Shown.parent := by
    refine fun i hcycle => hacyclic i (Relation.TransGen.mono ?_ _ _ hcycle)
    rintro a b ⟨x, hx, hkey, hparent⟩
    exact ⟨x.run, List.mem_map_of_mem hx, hkey, hparent⟩
  obtain ⟨n, F, hread, honce, hroots, hchildren⟩ := @follow_forest _ _ _ items Shown.key Shown.parent
    ((items.map Shown.key).foldl link (nodes, [])).1.read hids hnames fun x hx => by
      rw [Nodes.read, hlinked.node x hx]
      rfl
  refine ⟨n, F, fun m hm => ?_, ?_, fun x hx => ?_, ?_, fun x hx => ?_⟩
  · have hresponse := hread m hm
    rw [rootsOf, ← hlinked.roots] at hresponse
    exact hresponse
  · have hperm := honce.map Shown.run
    rw [List.map_map] at hperm
    exact hperm
  · have hkids := congrArg (List.map Shown.run) (hchildren x hx)
    rw [Tree.kids, List.map_map, childrenOf] at hkids
    rw [List.filter_map]
    exact hkids
  · have hlabels := congrArg (List.map Shown.run) hroots
    rw [List.map_map, rootsOf] at hlabels
    rw [List.filter_map]
    refine hlabels.trans (congrArg _ (List.filter_congr fun x _ => ?_))
    cases hp : x.parent with
    | none => simp [show parentRunId x.run = none from hp]
    | some p =>
      have hlisted : listed items Shown.key p = true ↔
          p ∈ (items.map Shown.run).map AgentRun.id := by
        simp [listed_iff, Shown.key]
      have hp' : parentRunId x.run = some p := hp
      simp only [Function.comp_apply, hp', Option.any_some, Option.all_some]
      rw [Bool.eq_iff_iff, decide_eq_true_eq, ← hlisted, Bool.not_eq_true', Bool.not_eq_true]
  · exact hwaits x.label (honce.subset (List.mem_map_of_mem hx))

def parentID : RunID := ⟨"root", by decide⟩

def childID : RunID := ⟨"leaf", by decide⟩

/-- A run with a parent. -/
def runOf (id : RunID) (parent : Option RunID) : AgentRun where
  id := id
  sessionID := "session"
  tenantID := "tenant"
  parentRunID := parent
  spawnKey := ""
  cohortID := ""
  cohortOrdinal := 0
  policy := { allowTools := ["*"], maxChildren := 0, childInherit := false }
  actor := actorSystem
  loopKind := ""
  loopVersion := 1
  modelConfig := ⟨"", "", "", []⟩
  prompt := ""
  history := ⟨1, [], []⟩

/-- A session with a child that is listed before its parent. -/
def childFirst : Reads Unit where
  tenant := .ok "tenant"
  list _ := .ok [runOf childID (some parentID), runOf parentID none]
  listForParent _ _ := .ok []
  members _ _ := .ok []

/-- The child is shown below its parent. -/
theorem run_tree_exact_childFirst :
    ∃ g n F, getRunTree childFirst = .ok g ∧ (∀ m ≥ n, response m g = some F) ∧
      (F.map fun x => x.label.run) = [runOf parentID none] ∧
      ∀ x ∈ F, childRuns x = [runOf childID (some parentID)] := by
  obtain ⟨n, F, hread, -, hchildren, hroots, -⟩ := run_tree_exact childFirst rfl rfl (by decide)
    (.of_rank (fun id => if id = parentID then 1 else 0) (by decide))
    (show getRunTree childFirst = .ok _ from rfl)
  refine ⟨_, n, F, rfl, hread, hroots, fun x hx => ?_⟩
  have hrun : x.label.run ∈ F.map fun x => x.label.run := List.mem_map_of_mem hx
  rw [hroots] at hrun
  rw [hchildren x (Tree.mem_nodesAll hx), List.mem_singleton.mp hrun]
  rfl

end Ultracore.Http.RunTree
