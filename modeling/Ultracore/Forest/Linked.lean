-- SUMMARY: Forests made of items that name their parents: reading linked nodes, and every item once.
import Mathlib.Algebra.BigOperators.Group.List.Basic
import Mathlib.Data.List.Perm.Basic
import Mathlib.Order.WellFoundedSet

/-!
# Linked forests

Items have keys, and may name the key of a parent. If no item is its own ancestor, the items form a
forest: the roots are the items whose parent is not among them, and the children of an item are
those that name it. Nodes that are linked by keys are read as trees by following the links.
-/

namespace Forest

/-! ## Trees -/

inductive Tree (ν : Type) where
  | node (label : ν) (children : List (Tree ν))

variable {ν ι : Type}

namespace Tree

def label : Tree ν → ν
  | node v _ => v

def children : Tree ν → List (Tree ν)
  | node _ ts => ts

mutual

/-- The nodes of a tree, each as the tree below it. -/
def nodes : Tree ν → List (Tree ν)
  | node v ts => node v ts :: nodesAll ts

/-- The nodes of a forest. -/
def nodesAll : List (Tree ν) → List (Tree ν)
  | [] => []
  | t :: ts => nodes t ++ nodesAll ts

end

/-- The labels of the children of a node. -/
def kids (t : Tree ν) : List ν := t.children.map label

mutual

/-- A node is a root, or the child of a node. -/
theorem nodes_perm : ∀ t : Tree ν, ((nodes t).map label).Perm (t.label :: (nodes t).flatMap kids)
  | node v ts => by
      have hrest := nodesAll_perm ts
      simp only [nodes, List.map_cons, List.flatMap_cons, label, kids, children]
      exact hrest.cons v

theorem nodesAll_perm : ∀ ts : List (Tree ν),
    ((nodesAll ts).map label).Perm (ts.map label ++ (nodesAll ts).flatMap kids)
  | [] => .refl _
  | t :: ts => by
      have hfirst := nodes_perm t
      have hrest := nodesAll_perm ts
      simp only [nodesAll, List.map_append, List.map_cons, List.flatMap_append, List.cons_append]
      refine (hfirst.append hrest).trans ?_
      rw [List.cons_append, ← List.append_assoc, ← List.append_assoc]
      exact (List.perm_append_comm.append_right _).cons _

end

/-- Roots are nodes. -/
theorem mem_nodesAll {ts : List (Tree ν)} {t : Tree ν} (h : t ∈ ts) : t ∈ nodesAll ts := by
  induction ts with
  | nil => cases h
  | cons s ts ih =>
    rcases List.mem_cons.mp h with rfl | h
    · cases t with
      | node v ts' => exact List.mem_append_left _ List.mem_cons_self
    · exact List.mem_append_right _ (ih h)

end Tree

open Forest.Tree

/-! ## Following links -/

/-- Read the tree below a key, at most `n` nodes deep. -/
def follow (node : ι → Option (ν × List ι)) : Nat → ι → Option (Tree ν)
  | 0, _ => none
  | n + 1, i => (node i).bind fun x => (x.2.mapM (follow node n)).map (.node x.1)

/-! ## Items and their parents -/

section
variable [DecidableEq ι] (items : List ν) (key : ν → ι) (parent : ν → Option ι)

def listed (i : ι) : Bool := items.any fun v => key v = i

/-- The items that name a parent. -/
def childrenOf (i : ι) : List ν := items.filter fun v => parent v = some i

/-- The items without a parent among the items. -/
def rootsOf : List ν := items.filter fun v => !(parent v).any (listed items key)

/-- An item names its parent. -/
def Names (i j : ι) : Prop := ∃ v ∈ items, key v = i ∧ parent v = some j

/-- No item is its own ancestor. -/
def Acyclic : Prop := ∀ i, ¬Relation.TransGen (Names items key parent) i i

/-- The forest of the items. -/
structure IsForest (F : List (Tree ν)) : Prop where
  once : ((nodesAll F).map label).Perm items
  roots : F.map label = rootsOf items key parent
  children : ∀ t ∈ nodesAll F, t.kids = childrenOf items parent (key t.label)

end

section
variable {items : List ν} {key : ν → ι} {parent : ν → Option ι}

/-- Where parents are of higher rank there is no cycle. -/
theorem Acyclic.of_rank (rank : ι → Nat)
    (h : ∀ v ∈ items, ∀ j, parent v = some j → rank (key v) < rank j) :
    Acyclic items key parent := by
  have hrank : ∀ i j, Relation.TransGen (Names items key parent) i j → rank i < rank j := by
    intro i j hij
    induction hij with
    | single hnames =>
      obtain ⟨v, hv, rfl, hparent⟩ := hnames
      exact h v hv _ hparent
    | tail _ hnames ih =>
      obtain ⟨v, hv, rfl, hparent⟩ := hnames
      exact ih.trans (h v hv _ hparent)
  exact fun i hcycle => lt_irrefl _ (hrank i i hcycle)

/-- The keys of the items. -/
def keys (items : List ν) (key : ν → ι) : Set ι := { i | ∃ v ∈ items, key v = i }

theorem keys_finite : (keys items key).Finite :=
  (items.map key).finite_toSet.subset fun _ ⟨v, hv, hkey⟩ => List.mem_map.mpr ⟨v, hv, hkey⟩

/-- One can argue from the children to their parents. -/
theorem Acyclic.up (h : Acyclic items key parent) :
    (keys items key).WellFoundedOn (Relation.TransGen (Names items key parent)) := by
  have : IsStrictOrder ι (Relation.TransGen (Names items key parent)) :=
    { irrefl := h, trans := fun _ _ _ => Relation.TransGen.trans }
  exact keys_finite.wellFoundedOn

/-- One can argue from the parents to their children. -/
theorem Acyclic.down (h : Acyclic items key parent) :
    (keys items key).WellFoundedOn (Function.swap (Relation.TransGen (Names items key parent))) := by
  have : IsStrictOrder ι (Function.swap (Relation.TransGen (Names items key parent))) :=
    { irrefl := h, trans := fun _ _ _ hab hbc => Relation.TransGen.trans hbc hab }
  exact keys_finite.wellFoundedOn

end

/-! ## The forest of the items -/

section
variable [DecidableEq ι] {items : List ν} {key : ν → ι} {parent : ν → Option ι}

theorem listed_iff {i : ι} : listed items key i = true ↔ ∃ v ∈ items, key v = i := by
  simp [listed]

/-- A node of an item, with the children that the items name. -/
def Placed (items : List ν) (key : ν → ι) (parent : ν → Option ι) (t : Tree ν) : Prop :=
  t.label ∈ items ∧ t.kids = childrenOf items parent (key t.label)

section
variable {node : ι → Option (ν × List ι)}

/-- From the key of an item, with enough fuel, a tree is read that is rooted in the item. -/
def Readable (items : List ν) (key : ν → ι) (parent : ν → Option ι)
    (node : ι → Option (ν × List ι)) (v : ν) : Prop :=
  ∃ n t, (∀ m ≥ n, follow node m (key v) = some t) ∧ t.label = v ∧
    ∀ s ∈ t.nodes, Placed items key parent s

/-- Several items are read together. -/
theorem follow_all {vs : List ν} (h : ∀ v ∈ vs, Readable items key parent node v) :
    ∃ n ts, (∀ m ≥ n, (vs.map key).mapM (follow node m) = some ts) ∧ ts.map Tree.label = vs ∧
      ∀ s ∈ nodesAll ts, Placed items key parent s := by
  induction vs with
  | nil => exact ⟨0, [], fun _ _ => rfl, rfl, by simp [nodesAll]⟩
  | cons v vs ih =>
    obtain ⟨n₁, t, ht, hlabel, hnodes⟩ := h v (by simp)
    obtain ⟨n₂, ts, hts, hlabels, hall⟩ := ih fun u hu => h u (by simp [hu])
    refine ⟨max n₁ n₂, t :: ts, fun m hm => ?_, by rw [List.map_cons, hlabel, hlabels], fun s hs => ?_⟩
    · rw [List.map_cons, List.mapM_cons, ht m (le_trans (le_max_left _ _) hm),
        hts m (le_trans (le_max_right _ _) hm)]
      rfl
    · exact (List.mem_append.mp hs).elim (hnodes s) (hall s)

/-- From every item a tree is read. -/
theorem follow_item (hacyclic : Acyclic items key parent)
    (hnode : ∀ v ∈ items, node (key v) = some (v, (childrenOf items parent (key v)).map key))
    {v : ν} (hv : v ∈ items) : Readable items key parent node v := by
  refine hacyclic.up.induction
    (P := fun i => ∀ v ∈ items, key v = i → Readable items key parent node v)
    ⟨v, hv, rfl⟩ (fun i _ ih v hv hkey => ?_) v hv rfl
  subst hkey
  have hkids : ∀ c ∈ childrenOf items parent (key v), Readable items key parent node c := by
    intro c hc
    obtain ⟨hc, hparent⟩ := List.mem_filter.mp hc
    exact ih (key c) ⟨c, hc, rfl⟩ (.single ⟨c, hc, rfl, of_decide_eq_true hparent⟩) c hc rfl
  obtain ⟨n, ts, hread, hlabels, hall⟩ := follow_all hkids
  refine ⟨n + 1, .node v ts, fun m hm => ?_, rfl, fun s hs => ?_⟩
  · obtain ⟨m, rfl⟩ : ∃ k, m = k + 1 := ⟨m - 1, by omega⟩
    simp [follow, hnode v hv, hread m (by omega)]
  · rcases List.mem_cons.mp hs with rfl | hs
    · exact ⟨hv, hlabels⟩
    · exact hall s hs

theorem count_childrenOf [DecidableEq ν] (hnodup : items.Nodup) {v : ν} (hv : v ∈ items)
    (us : List ν) : (us.flatMap fun u => childrenOf items parent (key u)).count v =
      us.countP fun u => parent v = some (key u) := by
  induction us with
  | nil => rfl
  | cons u us ih =>
    rw [List.flatMap_cons, List.count_append, ih, List.countP_cons, Nat.add_comm]
    by_cases hu : parent v = some (key u)
    · rw [childrenOf, List.count_filter (by simpa using hu), List.count_eq_one_of_mem hnodup hv]
      simp [hu]
    · rw [childrenOf, List.count_eq_zero_of_not_mem fun h => hu (by simpa using (List.mem_filter.mp h).2)]
      simp [hu]

/-- An item with a listed parent is at one place for each place of the parent, and one without is
    a root. -/
theorem count_labels [DecidableEq ν] (hnodup : items.Nodup) {F : List (Tree ν)}
    (hroots : F.map Tree.label = rootsOf items key parent)
    (hnodes : ∀ s ∈ nodesAll F, Placed items key parent s) {v : ν} (hv : v ∈ items) :
    ((nodesAll F).map Tree.label).count v =
      if (parent v).any (listed items key) then
        ((nodesAll F).map Tree.label).countP fun u => parent v = some (key u)
      else 1 := by
  have hflat : (nodesAll F).flatMap Tree.kids =
      ((nodesAll F).map Tree.label).flatMap fun u => childrenOf items parent (key u) := by
    rw [List.flatMap_map]
    exact List.flatMap_congr fun s hs => (hnodes s hs).2
  rw [(nodesAll_perm F).count_eq, List.count_append, hroots, hflat, count_childrenOf hnodup hv]
  split
  next hlisted =>
    rw [rootsOf, List.count_eq_zero_of_not_mem fun h => by simp [hlisted] at h, Nat.zero_add]
  next hlisted =>
    have hnone : ((nodesAll F).map Tree.label).countP (fun u => parent v = some (key u)) = 0 := by
      rw [List.countP_eq_zero]
      intro u hu hparent
      obtain ⟨s, hs, rfl⟩ := List.mem_map.mp hu
      refine hlisted ?_
      rw [of_decide_eq_true hparent]
      exact listed_iff.mpr ⟨s.label, (hnodes s hs).1, rfl⟩
    rw [rootsOf, List.count_filter (by simpa using hlisted), List.count_eq_one_of_mem hnodup hv,
      hnone]

/-- Every item is at one place. -/
theorem labels_perm (hnodup : (items.map key).Nodup) (hacyclic : Acyclic items key parent)
    {F : List (Tree ν)} (hroots : F.map Tree.label = rootsOf items key parent)
    (hnodes : ∀ s ∈ nodesAll F, Placed items key parent s) :
    ((nodesAll F).map Tree.label).Perm items := by
  classical
  have hitems : items.Nodup := hnodup.of_map
  have hcount : ∀ v ∈ items, ((nodesAll F).map Tree.label).count v = 1 := by
    intro v hv
    -- From the parents to their children: an item is where its parent is, and that is one place.
    refine hacyclic.down.induction (P := fun i => ∀ v ∈ items, key v = i →
      ((nodesAll F).map Tree.label).count v = 1) ⟨v, hv, rfl⟩ (fun i _ ih v hv hkey => ?_) v hv rfl
    subst hkey
    rw [count_labels hitems hroots hnodes hv]
    split
    next hlisted =>
      obtain ⟨p, hp, hlist⟩ := (Option.any_eq_true _ _).mp hlisted
      obtain ⟨w, hw, rfl⟩ := listed_iff.mp hlist
      rw [← ih (key w) ⟨w, hw, rfl⟩ (.single ⟨v, hv, rfl, hp⟩) w hw rfl, List.count]
      refine List.countP_congr fun u hu => ?_
      obtain ⟨s, hs, rfl⟩ := List.mem_map.mp hu
      rw [hp]
      simp only [Option.some.injEq, decide_eq_true_eq, beq_iff_eq]
      exact ⟨fun h => List.inj_on_of_nodup_map hnodup (hnodes s hs).1 hw h.symm, fun h => by rw [h]⟩
    next => rfl
  refine List.perm_iff_count.mpr fun v => ?_
  by_cases hv : v ∈ items
  · rw [hcount v hv, List.count_eq_one_of_mem hitems hv]
  · rw [List.count_eq_zero_of_not_mem hv, List.count_eq_zero_of_not_mem]
    intro hlabel
    obtain ⟨s, hs, rfl⟩ := List.mem_map.mp hlabel
    exact hv (hnodes s hs).1

/-- Nodes that are linked as the items name their parents are read as the forest of the items. -/
theorem follow_forest (hnodup : (items.map key).Nodup) (hacyclic : Acyclic items key parent)
    (hnode : ∀ v ∈ items, node (key v) = some (v, (childrenOf items parent (key v)).map key)) :
    ∃ n F, (∀ m ≥ n, ((rootsOf items key parent).map key).mapM (follow node m) = some F) ∧
      IsForest items key parent F := by
  have hroots : ∀ v ∈ rootsOf items key parent, Readable items key parent node v := fun v hv =>
    follow_item hacyclic hnode (List.mem_filter.mp hv).1
  obtain ⟨n, F, hread, hlabels, hall⟩ := follow_all hroots
  exact ⟨n, F, hread, labels_perm hnodup hacyclic hlabels hall, hlabels, fun s hs => (hall s hs).2⟩

end

end

end Forest
