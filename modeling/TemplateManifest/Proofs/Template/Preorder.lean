import TemplateManifest.Proofs.Template.Addresses

/-!
A walk goes through the trees of a template in pre-order. The loop that keeps the nodes to be visited on a
stack, the next one on top, takes one round for each address in the template and visits the node there. Main
statement: `Template.walk_visits_each_address_once`.
-/

namespace TemplateManifest

namespace Node

section Recursion

theorem size_lt_of_mem_children {node child : Node} (h : child ∈ node.children) :
    child.size < node.size := by
  have hle := size_le_sizeAll h
  have hsize := size_eq node
  omega

/-- What holds of a node as soon as it holds of its children holds of every node. -/
theorem induction_on_children {motive : Node → Prop}
    (h : ∀ node, (∀ child ∈ node.children, motive child) → motive node) (node : Node) :
    motive node := by
  induction hsize : node.size using Nat.strong_induction_on generalizing node with
  | _ size ih =>
    subst hsize
    apply h
    intro child hchild
    exact ih _ (size_lt_of_mem_children hchild) child rfl

theorem mem_children_of_mem_slots {node : Node} {entry : Slot × Node} (h : entry ∈ node.slots) :
    entry.2 ∈ node.children :=
  map_snd_slots node ▸ List.mem_map_of_mem h

theorem flatMap_attach {α β : Type} (entries : List α) (f : α → List β) :
    (entries.attach.flatMap fun entry => f entry.1) = entries.flatMap f := by
  rw [← List.flatMap_map, List.attach_map_subtype_val]

end Recursion

section Preorder

/-- A node, then the pre-orders of its children from left to right. -/
def preorder (node : Node) : List Node :=
  node :: node.children.attach.flatMap fun child => child.1.preorder
termination_by node.size
decreasing_by exact size_lt_of_mem_children child.2

theorem preorder_eq (node : Node) : node.preorder = node :: node.children.flatMap preorder := by
  rw [preorder, flatMap_attach]

theorem walk_eq_flatMap_preorder (nodes : List Node) : walk nodes = nodes.flatMap preorder := by
  induction hsize : sizeAll nodes using Nat.strong_induction_on generalizing nodes with
  | _ size ih =>
    subst hsize
    cases nodes with
    | nil => rfl
    | cons node nodes =>
      rw [walk_cons, ih _ (sizeAll_children_append_lt node nodes) _ rfl, List.flatMap_append,
        List.flatMap_cons, preorder_eq, List.cons_append]

end Preorder

section Addresses

/-- The node at an address, seen from the root. -/
def nodeAt? (node : Node) : Address → Option Node
  | [] => some node
  | slot :: address => (node.stored? slot).bind fun child => child.nodeAt? address

/-- The addresses of the nodes of a tree in pre-order. -/
def addresses (node : Node) : List Address :=
  [] :: node.slots.attach.flatMap fun entry => entry.1.2.addresses.map (entry.1.1 :: ·)
termination_by node.size
decreasing_by exact size_lt_of_mem_children (mem_children_of_mem_slots entry.2)

variable {κ : Type} {entries : List (κ × Node)}

/-- The addresses in some trees, each with the key of its tree. -/
def addressesAll (entries : List (κ × Node)) : List (κ × Address) :=
  entries.flatMap fun entry => entry.2.addresses.map (entry.1, ·)

theorem addresses_eq (node : Node) :
    node.addresses = [] :: (addressesAll node.slots).map fun place => place.1 :: place.2 := by
  rw [addresses, flatMap_attach node.slots fun entry => entry.2.addresses.map (entry.1 :: ·), addressesAll,
    List.map_flatMap]
  simp only [List.map_map, Function.comp_def]

theorem mem_addressesAll {key : κ} {address : Address} :
    (key, address) ∈ addressesAll entries ↔
      ∃ node, (key, node) ∈ entries ∧ address ∈ node.addresses := by
  simp [addressesAll]

theorem nodup_addressesAll (hkeys : (entries.map Prod.fst).Nodup)
    (h : ∀ entry ∈ entries, entry.2.addresses.Nodup) : (addressesAll entries).Nodup := by
  rw [addressesAll, List.nodup_flatMap]
  constructor
  · intro entry hentry
    exact (h entry hentry).map (Prod.mk_right_injective entry.1)
  · refine (List.pairwise_map.mp hkeys).imp ?_
    intro entry later hne place hplace hlater
    obtain ⟨_, _, rfl⟩ := List.mem_map.mp hplace
    obtain ⟨_, _, hsame⟩ := List.mem_map.mp hlater
    exact hne (Prod.mk.inj hsame).1.symm

theorem map_addressesAll {find : κ × Address → Option Node}
    (hfind : ∀ entry ∈ entries, ∀ address, find (entry.1, address) = entry.2.nodeAt? address)
    (h : ∀ entry ∈ entries, entry.2.addresses.map entry.2.nodeAt? = entry.2.preorder.map some) :
    (addressesAll entries).map find = ((entries.map Prod.snd).flatMap preorder).map some := by
  rw [addressesAll, List.map_flatMap, List.flatMap_map, List.map_flatMap]
  apply List.flatMap_congr
  intro entry hentry
  rw [← h entry hentry, List.map_map]
  exact List.map_congr_left fun address _ => hfind entry hentry address

/-- The addresses are those that lead to a node. -/
theorem mem_addresses {node : Node} {address : Address} :
    address ∈ node.addresses ↔ (node.nodeAt? address).isSome := by
  induction address generalizing node with
  | nil =>
    rw [addresses_eq, nodeAt?]
    simp
  | cons slot address ih =>
    rw [addresses_eq, nodeAt?, Option.isSome_bind, Option.any_eq_true]
    simp [mem_addressesAll, mem_slots_iff, ih]

theorem nodup_addresses (node : Node) : node.addresses.Nodup := by
  induction node using induction_on_children with
  | h node ih =>
    have hall : (addressesAll node.slots).Nodup := by
      apply nodup_addressesAll (nodup_slots node)
      intro entry hentry
      exact ih entry.2 (mem_children_of_mem_slots hentry)
    rw [addresses_eq, List.nodup_cons]
    constructor
    · simp
    · apply hall.map
      intro place later hsame
      exact Prod.ext (List.cons.inj hsame).1 (List.cons.inj hsame).2

/-- What is found at the addresses is the pre-order. -/
theorem map_nodeAt?_addresses (node : Node) : node.addresses.map node.nodeAt? = node.preorder.map some := by
  induction node using induction_on_children with
  | h node ih =>
    rw [addresses_eq, preorder_eq, List.map_cons, List.map_cons, nodeAt?, List.map_map, ← map_snd_slots,
      map_addressesAll]
    · intro entry hentry address
      simp only [Function.comp, nodeAt?, mem_slots_iff.mp hentry, Option.bind_some]
    · intro entry hentry
      exact ih entry.2 (mem_children_of_mem_slots hentry)

end Addresses

end Node

section Loop

/-- The nodes that a walk has visited and those on its stack, of which the last one is on top. -/
structure Visit where
  visited : List Node
  stack : List Node

namespace Visit

/-- A round takes the node on top and puts its children on the stack, the first one last. -/
def next? (visit : Visit) : Option Visit :=
  visit.stack.getLast?.map fun node =>
    ⟨visit.visited ++ [node], visit.stack.dropLast ++ node.children.reverse⟩

/-- The rounds come to an end, there are so many of them, and these are the nodes visited. -/
inductive Ends : Visit → Nat → List Node → Prop where
  | done {visit : Visit} (h : visit.next? = none) : Ends visit 0 visit.visited
  | round {visit next : Visit} {rounds : Nat} {visited : List Node} (h : visit.next? = some next)
      (hends : Ends next rounds visited) : Ends visit (rounds + 1) visited

theorem next?_nil (visited : List Node) : (Visit.mk visited []).next? = none := rfl

theorem next?_cons (visited nodes : List Node) (node : Node) :
    (Visit.mk visited (node :: nodes).reverse).next? =
      some ⟨visited ++ [node], (node.children ++ nodes).reverse⟩ := by
  simp [next?]

/-- The loop ends on every stack, after one round for each node of the trees on it. -/
theorem ends_iff {visited nodes all : List Node} {rounds : Nat} :
    Ends ⟨visited, nodes.reverse⟩ rounds all ↔
      rounds = Node.sizeAll nodes ∧ all = visited ++ Node.walk nodes := by
  induction hsize : Node.sizeAll nodes using Nat.strong_induction_on generalizing visited nodes rounds with
  | _ size ih =>
    subst hsize
    -- A round takes one node off the trees on the stack and leaves all that stands below it.
    cases nodes with
    | nil =>
      rw [Node.walk_nil, List.append_nil, Node.sizeAll]
      constructor
      · intro h
        cases h with
        | done => exact ⟨rfl, rfl⟩
        | round h => cases h
      · rintro ⟨rfl, rfl⟩
        exact .done (next?_nil _)
    | cons node nodes =>
      have hless := Node.sizeAll_children_append_lt node nodes
      have hsize : Node.sizeAll (node :: nodes) = Node.sizeAll (node.children ++ nodes) + 1 := by
        rw [Node.sizeAll, Node.size_eq, Node.sizeAll_append]
        omega
      rw [Node.walk_cons, hsize, List.append_cons]
      constructor
      · intro h
        cases h with
        | done h => cases (next?_cons visited nodes node).symm.trans h
        | round h hends =>
          obtain rfl := Option.some.inj ((next?_cons visited nodes node).symm.trans h)
          obtain ⟨rfl, rfl⟩ := (ih _ hless rfl).mp hends
          exact ⟨rfl, rfl⟩
      · rintro ⟨rfl, rfl⟩
        exact .round (next?_cons visited nodes node) ((ih _ hless rfl).mpr ⟨rfl, rfl⟩)

end Visit

end Loop

namespace Template

/-- The node at an address in the tree with a number, counted from zero. -/
def nodeAt? (template : Template) (address : Nat × Address) : Option Node :=
  template.body[address.1]?.bind fun root => root.nodeAt? address.2

/-- The trees of a template with their numbers. -/
def roots (template : Template) : List (Nat × Node) :=
  Node.row id template.body

/-- The addresses of the nodes of a template in the order of the walk. -/
def addresses (template : Template) : List (Nat × Address) :=
  Node.addressesAll template.roots

theorem mem_roots {template : Template} {number : Nat} {root : Node} :
    (number, root) ∈ template.roots ↔ template.body[number]? = some root := by
  simp [roots, Node.mem_row]

theorem mem_addresses {template : Template} {address : Nat × Address} :
    address ∈ template.addresses ↔ (template.nodeAt? address).isSome := by
  obtain ⟨number, address⟩ := address
  rw [addresses, Node.mem_addressesAll, nodeAt?, Option.isSome_bind, Option.any_eq_true]
  simp only [mem_roots, Node.mem_addresses]

theorem nodup_addresses (template : Template) : template.addresses.Nodup := by
  apply Node.nodup_addressesAll
  · exact Node.nodup_row fun _ _ h => h
  · intro entry _
    exact Node.nodup_addresses entry.2

/-- What is found at the addresses is what the walk visits. -/
theorem map_nodeAt?_addresses (template : Template) :
    template.addresses.map template.nodeAt? = template.walk.map some := by
  rw [addresses, Node.map_addressesAll, roots, Node.map_snd_row, walk, Node.walk_eq_flatMap_preorder]
  · intro entry hentry address
    simp only [nodeAt?, mem_roots.mp hentry, Option.bind_some]
  · intro entry _
    exact Node.map_nodeAt?_addresses entry.2

theorem length_addresses (template : Template) :
    template.addresses.length = Node.sizeAll template.body := by
  have hlength := congrArg List.length template.map_nodeAt?_addresses
  rw [List.length_map, List.length_map] at hlength
  rw [hlength, walk, ← Node.card_census, Node.census, Multiset.coe_card]

/-- The nodes of a category are those at the addresses where a node of it stands. -/
theorem map_findAll (template : Template) (category : Category) :
    (template.findAll category).map some =
      (template.addresses.filter fun address =>
        (template.nodeAt? address).map Node.category = some category).map template.nodeAt? := by
  calc (template.findAll category).map some
      = (template.walk.map some).filter fun node => node.map Node.category = some category := by
        simp [findAll, Node.findAll, walk, List.filter_map, Function.comp_def]
    _ = (template.addresses.map template.nodeAt?).filter fun node =>
          node.map Node.category = some category := by
        rw [map_nodeAt?_addresses]
    _ = _ := List.filter_map

/-- The loop that starts with the trees of a template on its stack, the first one on top, ends after one
    round for each address and has then visited the nodes in pre-order, which is the walk. An address is a
    way down through fields that store nodes, whichever they are, and the walk meets the node at each one
    once. A search for a category finds the nodes of it in this order. -/
theorem walk_visits_each_address_once (template : Template) :
    (∀ rounds visited, Visit.Ends ⟨[], template.body.reverse⟩ rounds visited ↔
        rounds = template.addresses.length ∧ visited = template.walk) ∧
      template.walk = template.body.flatMap Node.preorder ∧
      template.addresses.Nodup ∧
      (∀ address, address ∈ template.addresses ↔ (template.nodeAt? address).isSome) ∧
      template.addresses.map template.nodeAt? = template.walk.map some ∧
      ∀ category, (template.findAll category).map some =
        (template.addresses.filter fun address =>
          (template.nodeAt? address).map Node.category = some category).map template.nodeAt? := by
  refine ⟨?_, Node.walk_eq_flatMap_preorder _, nodup_addresses template, fun _ => mem_addresses,
    map_nodeAt?_addresses template, map_findAll template⟩
  intro rounds visited
  rw [Visit.ends_iff, length_addresses, List.nil_append, walk]

end Template

end TemplateManifest
