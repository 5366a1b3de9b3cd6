import TemplateManifest.Template.Walk

/-!
The nodes inside other nodes, at any depth. A walk visits nothing else.
-/

namespace TemplateManifest

namespace Node

/-- The node is `root`, or it stands inside it. -/
inductive Within (node : Node) : Node → Prop where
  | self : Within node node
  | child {root child : Node} (hchild : child ∈ root.children) (h : Within node child) :
      Within node root

/-- The node is one of some nodes, or it stands inside one of them. -/
def Among (node : Node) (nodes : List Node) : Prop :=
  ∃ root ∈ nodes, node.Within root

theorem not_among_nil {node : Node} : ¬ node.Among [] := by
  rintro ⟨root, hroot, _⟩
  cases hroot

theorem among_append {node : Node} {nodes nodes' : List Node} :
    node.Among (nodes ++ nodes') ↔ node.Among nodes ∨ node.Among nodes' := by
  simp only [Among, List.mem_append, or_and_right, exists_or]

/-- A node inside another one is that node, or it is among its children. -/
theorem among_singleton {node root : Node} :
    node.Among [root] ↔ node = root ∨ node.Among root.children := by
  constructor
  · rintro ⟨_, hroot, hwithin⟩
    obtain rfl := List.mem_singleton.mp hroot
    cases hwithin with
    | self => exact .inl rfl
    | child hchild h => exact .inr ⟨_, hchild, h⟩
  · rintro (rfl | ⟨child, hchild, h⟩)
    · exact ⟨node, List.mem_singleton_self node, .self⟩
    · exact ⟨root, List.mem_singleton_self root, .child hchild h⟩

/-- The walk starts with the nodes on the stack and visits only what is inside them. -/
theorem among_of_mem_walkFrom {node : Node} {bound : Nat} {stack : List Node}
    (h : node ∈ walkFrom bound stack) : node.Among stack := by
  induction bound generalizing stack with
  | zero => cases h
  | succ bound ih =>
    cases stack with
    | nil => cases h
    | cons first stack =>
      rw [← List.singleton_append, among_append, among_singleton]
      rcases List.mem_cons.mp h with rfl | h
      · exact .inl (.inl rfl)
      · exact (among_append.mp (ih h)).imp .inr id

theorem among_of_mem_walk {node : Node} {nodes : List Node} (h : node ∈ walk nodes) :
    node.Among nodes :=
  among_of_mem_walkFrom h

/-- What stands inside a child of a node stands inside the node. -/
theorem Within.trans {node middle root : Node} (h : node.Within middle) (h' : middle.Within root) :
    node.Within root := by
  induction h' with
  | self => exact h
  | child hchild _ ih => exact .child hchild ih

section Size

theorem sizeAll_append (nodes nodes' : List Node) :
    sizeAll (nodes ++ nodes') = sizeAll nodes + sizeAll nodes' := by
  induction nodes with
  | nil => simp [sizeAll]
  | cons node nodes ih => simp [sizeAll, ih, Nat.add_assoc]

theorem sizeOption_eq (node : Option Node) : sizeOption node = sizeAll node.toList := by
  cases node <;> simp [sizeOption, sizeAll]

theorem sizeParams_eq (params : List (String × Option Node)) :
    sizeParams params = sizeAll (params.filterMap (·.2)) := by
  induction params with
  | nil => rfl
  | cons param params ih =>
    obtain ⟨p, default⟩ := param
    cases default <;> simp [sizeParams, sizeOption, sizeAll, ih]

theorem sizeKeywords_eq (kwargs : List (String × Node)) :
    sizeKeywords kwargs = sizeAll (kwargs.map (·.2)) := by
  induction kwargs with
  | nil => rfl
  | cons entry kwargs ih => simp [sizeKeywords, sizeAll, ih]

theorem sizeBodies_eq (bodies : List (List Node)) :
    sizeBodies bodies = sizeAll bodies.flatten := by
  induction bodies with
  | nil => rfl
  | cons body bodies ih => simp [sizeBodies, sizeAll_append, ih]

theorem sizeEntries_eq (entries : List (Node × Node)) :
    sizeEntries entries = sizeAll (entries.flatMap fun entry => [entry.1, entry.2]) := by
  induction entries with
  | nil => rfl
  | cons entry entries ih => simp [sizeEntries, sizeAll, ih, Nat.add_assoc]

theorem sizeCompared_eq (rest : List (CompareOp × Node)) :
    sizeCompared rest = sizeAll (rest.map (·.2)) := by
  induction rest with
  | nil => rfl
  | cons entry rest ih => simp [sizeCompared, sizeAll, ih]

/-- The size of a node is that of its children and one more. -/
theorem size_eq (node : Node) : node.size = sizeAll node.children + 1 := by
  cases node <;>
    simp [size, children, sizeAll, sizeAll_append, sizeOption_eq, sizeParams_eq, sizeKeywords_eq,
      sizeBodies_eq, sizeEntries_eq, sizeCompared_eq, Nat.add_assoc]

theorem size_le_sizeAll {node : Node} {nodes : List Node} (h : node ∈ nodes) :
    node.size ≤ sizeAll nodes := by
  induction nodes with
  | nil => cases h
  | cons first nodes ih =>
    rw [sizeAll]
    rcases List.mem_cons.mp h with rfl | h
    · exact Nat.le_add_right _ _
    · exact Nat.le_add_left_of_le (ih h)

end Size

end Node

end TemplateManifest
