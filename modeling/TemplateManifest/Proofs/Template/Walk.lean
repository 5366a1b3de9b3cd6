import Mathlib.Algebra.Order.Group.Multiset
import Mathlib.Data.Multiset.Bind
import TemplateManifest.Proofs.Template.Within

/-!
What a walk meets. The walk of some trees is that of the first one and then that of the others, and
it meets each node that stands among them. What it counts at the nodes of a tree is the sum of what
it counts at the root and below each child.
-/

namespace TemplateManifest

namespace Node

theorem walk_nil : walk [] = [] := rfl

/-- The walk visits a node, then what is inside it, then the other nodes. -/
theorem walk_cons (node : Node) (nodes : List Node) :
    walk (node :: nodes) = node :: walk (node.children ++ nodes) := by
  have hsize : sizeAll (node :: nodes) = sizeAll (node.children ++ nodes) + 1 := by
    rw [sizeAll, size_eq, sizeAll_append]
    omega
  rw [walk, hsize, walkFrom, walk]

/-- Trees are smaller than those that hold them. -/
theorem sizeAll_children_append_lt (node : Node) (nodes : List Node) :
    sizeAll (node.children ++ nodes) < sizeAll (node :: nodes) := by
  rw [sizeAll, size_eq, sizeAll_append]
  omega

theorem walk_append (nodes nodes' : List Node) :
    walk (nodes ++ nodes') = walk nodes ++ walk nodes' := by
  induction hsize : sizeAll nodes using Nat.strong_induction_on generalizing nodes with
  | _ size ih =>
    subst hsize
    cases nodes with
    | nil => rfl
    | cons node nodes =>
      rw [List.cons_append, walk_cons, walk_cons, ← List.append_assoc,
        ih _ (sizeAll_children_append_lt node nodes) _ rfl, List.cons_append]

/-- The walk of a tree meets what stands inside it, and nothing else. -/
theorem mem_walk_singleton {node root : Node} : node ∈ walk [root] ↔ node.Within root := by
  constructor
  · intro h
    obtain ⟨_, hroot, hwithin⟩ := among_of_mem_walk h
    rwa [← List.mem_singleton.mp hroot]
  · intro h
    induction h with
    | self => exact walk_cons node [] ▸ List.mem_cons_self
    | @child root child hchild _ ih =>
      obtain ⟨before, after, hchildren⟩ := List.append_of_mem hchild
      rw [walk_cons, List.append_nil, hchildren, ← List.singleton_append (l := after), walk_append,
        walk_append]
      exact List.mem_cons_of_mem _ (List.mem_append_right _ (List.mem_append_left _ ih))

theorem mem_walk_iff {node : Node} {nodes : List Node} : node ∈ walk nodes ↔ node.Among nodes := by
  refine ⟨among_of_mem_walk, ?_⟩
  rintro ⟨root, hroot, hwithin⟩
  obtain ⟨before, after, rfl⟩ := List.append_of_mem hroot
  rw [← List.singleton_append, walk_append, walk_append]
  exact List.mem_append_right _ (List.mem_append_left _ (mem_walk_singleton.mpr hwithin))

section Census

/-- All nodes of some trees, in no order. -/
def census (nodes : List Node) : Multiset Node := walk nodes

@[simp]
theorem census_nil : census [] = 0 := rfl

@[simp]
theorem census_append (nodes nodes' : List Node) :
    census (nodes ++ nodes') = census nodes + census nodes' := by
  rw [census, walk_append, ← Multiset.coe_add, census, census]

/-- A tree is its root and what stands below it. -/
@[simp]
theorem census_cons (node : Node) (nodes : List Node) :
    census (node :: nodes) = node ::ₘ (census node.children + census nodes) := by
  rw [← census_append, census, walk_cons, ← Multiset.cons_coe, census]

theorem mem_census {node : Node} {nodes : List Node} : node ∈ census nodes ↔ node ∈ walk nodes :=
  Multiset.mem_coe

theorem card_census (nodes : List Node) : (census nodes).card = sizeAll nodes := by
  induction hsize : sizeAll nodes using Nat.strong_induction_on generalizing nodes with
  | _ size ih =>
    subst hsize
    cases nodes with
    | nil => rfl
    | cons node nodes =>
      rw [census_cons, ← census_append, Multiset.card_cons,
        ih _ (sizeAll_children_append_lt node nodes) _ rfl, sizeAll, size_eq, sizeAll_append]
      omega

variable {α : Type} (f : Node → List α)

/-- What is counted at all nodes of some trees, in no order. -/
def tally (nodes : List Node) : Multiset α :=
  (census nodes).bind fun node => f node

@[simp]
theorem tally_nil : tally f [] = 0 := rfl

@[simp]
theorem tally_append (nodes nodes' : List Node) :
    tally f (nodes ++ nodes') = tally f nodes + tally f nodes' := by
  rw [tally, census_append, Multiset.add_bind, tally, tally]

/-- What is counted at a node comes with what is counted below it. -/
theorem tally_cons (node : Node) (nodes : List Node) :
    tally f (node :: nodes) = f node + tally f node.children + tally f nodes := by
  rw [add_assoc, ← tally_append, tally, census_cons, Multiset.cons_bind, ← census_append, tally]

theorem tally_eq_coe (nodes : List Node) : tally f nodes = ((walk nodes).flatMap f : List α) :=
  Multiset.coe_bind _ _

end Census

end Node

end TemplateManifest
