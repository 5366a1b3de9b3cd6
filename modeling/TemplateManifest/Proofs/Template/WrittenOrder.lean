import TemplateManifest.Proofs.Template.Walk

/-!
The literals and symbols of a tree in the order in which a source has them, and in the order in which a
walk meets them. The two are the same but for three kinds of nodes that keep their parts in another
order than the source: conditional expressions, calls with a caller, and filters on a body.
Main statement: `Node.areOrdered_atoms_iff`.
-/

namespace TemplateManifest

instance (p q : Position) : Decidable (p.Before q) :=
  inferInstanceAs (Decidable (_ ∨ _ ∧ _))

namespace Node

/-- The node is a literal or a symbol. -/
def isAtom (node : Node) : Bool :=
  node.category = .literal || node.category = .symbol

/-- The parts of a node that a walk meets in another order than the source has them: what the walk meets
    first, what it meets second, and what comes after both. In the source the second stands before the
    first: what a conditional expression gives before its condition, the arguments of a filter block
    before its body, and the defaults of a call block's parameters before the call. -/
def swapped? : Node → Option (List Node × List Node × List Node)
  | inlineIf _ cond body otherwise => some ([cond], [body], otherwise.toList)
  | filter _ _ (capture _ body) args kwargs => some (body, args ++ kwargs.map (·.2), [])
  | call _ callee args kwargs =>
    match kwargs.getLast? with
    | some (_, callerBody _ params body) =>
      some (callee :: (args ++ kwargs.dropLast.map (·.2)), params.filterMap (·.2), body)
    | _ => none
  | _ => none

/-- The parts of a node in the order in which a source has them. -/
def parts (node : Node) : List Node :=
  match node.swapped? with
  | some (first, second, rest) => second ++ (first ++ rest)
  | none => node.children

/-- The literals and symbols of the trees on a stack, in the order in which a source has them. The first
    argument bounds the number of nodes. -/
def writtenFrom : Nat → List Node → List Node
  | 0, _ => []
  | _ + 1, [] => []
  | bound + 1, node :: stack => [node].filter isAtom ++ writtenFrom bound (node.parts ++ stack)

/-- The literals and symbols of some trees, in the order in which a source has them. -/
def written (nodes : List Node) : List Node :=
  writtenFrom (sizeAll nodes) nodes

/-- The literals and symbols of some trees, in the order in which a walk meets them. -/
def atoms (nodes : List Node) : List Node :=
  (walk nodes).filter isAtom

/-- A walk meets some literal or symbol of the node before one that stands in front of it. -/
def IsDisplaced (node : Node) : Prop :=
  ∃ first second rest, node.swapped? = some (first, second, rest) ∧ atoms first ≠ [] ∧
    atoms second ≠ []

instance (node : Node) : Decidable node.IsDisplaced :=
  decidable_of_iff (∃ found ∈ node.swapped?, atoms found.1 ≠ [] ∧ atoms found.2.1 ≠ []) (by
    simp only [IsDisplaced, Option.mem_def, Prod.exists])

section Swapped

/-- The nodes whose parts a walk meets in another order than the source has them. -/
inductive Swapped : Node → List Node → List Node → List Node → Prop
  | inlineIf {pos : Position} {cond body : Node} {otherwise : Option Node} :
      Swapped (.inlineIf pos cond body otherwise) [cond] [body] otherwise.toList
  | filter {pos pos' : Position} {name : String} {body args : List Node}
      {kwargs : List (String × Node)} :
      Swapped (.filter pos name (.capture pos' body) args kwargs) body (args ++ kwargs.map (·.2)) []
  | call {pos pos' : Position} {callee : Node} {args : List Node} {others : List (String × Node)}
      {name : String} {params : List (String × Option Node)} {body : List Node} :
      Swapped (.call pos callee args (others ++ [(name, .callerBody pos' params body)]))
        (callee :: (args ++ others.map (·.2))) (params.filterMap (·.2)) body

variable {node child : Node} {first second rest : List Node}

theorem swapped_of_swapped? (h : node.swapped? = some (first, second, rest)) :
    Swapped node first second rest := by
  unfold swapped? at h
  split at h
  · cases h
    exact .inlineIf
  · cases h
    exact .filter
  · split at h
    · next hlast =>
      obtain ⟨others, rfl⟩ := List.getLast?_eq_some_iff.mp hlast
      rw [List.dropLast_concat] at h
      cases h
      exact .call
    · cases h
  · cases h

theorem Swapped.size_lt (h : Swapped node first second rest) :
    sizeAll (second ++ (first ++ rest)) < node.size := by
  rw [sizeAll_append, sizeAll_append]
  cases h <;>
    simp only [size_eq, children, List.map_append, List.map_cons, List.map_nil, sizeAll_append, sizeAll] <;>
    omega

theorem Swapped.among_children (h : Swapped node first second rest)
    (hchild : child.Among (second ++ (first ++ rest))) : child.Among node.children := by
  rw [among_append, among_append] at hchild
  cases h with
  | @inlineIf pos cond body otherwise =>
    have hchildren : children (.inlineIf pos cond body otherwise) =
        [cond] ++ ([body] ++ otherwise.toList) := rfl
    rw [hchildren, among_append, among_append]
    tauto
  | filter =>
    rw [children, ← List.singleton_append, among_append, among_singleton]
    obtain h | h | h := hchild
    · exact .inr h
    · exact .inl (.inr h)
    · exact absurd h not_among_nil
  | call =>
    rw [children, List.map_append, ← List.append_assoc, ← List.cons_append, among_append]
    obtain h | h | h := hchild
    · exact .inr (among_singleton.mpr (.inr (among_append.mpr (.inl h))))
    · exact .inl h
    · exact .inr (among_singleton.mpr (.inr (among_append.mpr (.inr h))))

/-- A node has its parts from its children, but for three kinds of nodes. -/
theorem parts_cases (node : Node) :
    (node.parts = node.children ∧ ¬ node.IsDisplaced) ∨
      ∃ first second rest, Swapped node first second rest ∧ node.parts = second ++ (first ++ rest) ∧
        (node.IsDisplaced ↔ atoms first ≠ [] ∧ atoms second ≠ []) := by
  cases hswapped : node.swapped? with
  | none =>
    refine .inl ⟨by rw [parts, hswapped], ?_⟩
    rintro ⟨first, second, rest, hsome, -⟩
    cases hswapped.symm.trans hsome
  | some found =>
    obtain ⟨first, second, rest⟩ := found
    refine .inr ⟨first, second, rest, swapped_of_swapped? hswapped, by rw [parts, hswapped], ?_⟩
    constructor
    · rintro ⟨_, _, _, hsome, h⟩
      cases hswapped.symm.trans hsome
      exact h
    · exact fun h => ⟨first, second, rest, hswapped, h⟩

theorem sizeAll_parts_lt (node : Node) : sizeAll node.parts < node.size := by
  obtain ⟨hparts, -⟩ | ⟨first, second, rest, hswapped, hparts, -⟩ := parts_cases node
  · rw [hparts, size_eq]
    exact Nat.lt_succ_self _
  · rw [hparts]
    exact hswapped.size_lt

theorem among_children_of_among_parts {root : Node} (h : node.Among root.parts) :
    node.Among root.children := by
  obtain ⟨hparts, -⟩ | ⟨first, second, rest, hswapped, hparts, -⟩ := parts_cases root
  · rwa [← hparts]
  · exact hswapped.among_children (hparts ▸ h)

end Swapped

section Orders

theorem writtenFrom_of_le {bound bound' : Nat} {stack : List Node} (h : sizeAll stack ≤ bound)
    (h' : sizeAll stack ≤ bound') : writtenFrom bound stack = writtenFrom bound' stack := by
  induction bound generalizing bound' stack with
  | zero =>
    cases stack with
    | nil => cases bound' <;> rfl
    | cons node stack =>
      have hsize := sizeAll_parts_lt node
      rw [sizeAll] at h
      omega
  | succ bound ih =>
    cases stack with
    | nil => cases bound' <;> rfl
    | cons node stack =>
      have hsize := sizeAll_parts_lt node
      rw [sizeAll] at h h'
      cases bound' with
      | zero => omega
      | succ bound' =>
        have hparts : sizeAll (node.parts ++ stack) = sizeAll node.parts + sizeAll stack :=
          sizeAll_append _ _
        exact congrArg _ (ih (by omega) (by omega))

@[simp]
theorem written_nil : written [] = [] := rfl

theorem sizeAll_parts_append_lt (node : Node) (nodes : List Node) :
    sizeAll (node.parts ++ nodes) < sizeAll (node :: nodes) := by
  rw [sizeAll_append, sizeAll]
  exact Nat.add_lt_add_right (sizeAll_parts_lt node) _

theorem written_cons_append (node : Node) (nodes : List Node) :
    written (node :: nodes) = [node].filter isAtom ++ written (node.parts ++ nodes) := by
  have hlt := sizeAll_parts_append_lt node nodes
  obtain ⟨bound, hbound⟩ := Nat.exists_eq_succ_of_ne_zero (Nat.ne_zero_of_lt hlt)
  rw [written, hbound, writtenFrom, written,
    writtenFrom_of_le (Nat.le_refl _) (Nat.le_of_lt_succ (hbound ▸ hlt))]

theorem written_append (nodes nodes' : List Node) :
    written (nodes ++ nodes') = written nodes ++ written nodes' := by
  induction hsize : sizeAll nodes using Nat.strong_induction_on generalizing nodes with
  | _ size ih =>
    subst hsize
    cases nodes with
    | nil => rfl
    | cons node nodes =>
      rw [List.cons_append, written_cons_append, written_cons_append, ← List.append_assoc,
        ih _ (sizeAll_parts_append_lt node nodes) _ rfl, List.append_assoc]

/-- What is written of some trees is what is written of each of them, one after the other. -/
theorem written_cons (node : Node) (nodes : List Node) :
    written (node :: nodes) = [node].filter isAtom ++ written node.parts ++ written nodes := by
  rw [written_cons_append, written_append, List.append_assoc]

theorem written_singleton (node : Node) :
    written [node] = [node].filter isAtom ++ written node.parts := by
  rw [written_cons, written_nil, List.append_nil]

@[simp]
theorem atoms_nil : atoms [] = [] := rfl

theorem atoms_append (nodes nodes' : List Node) :
    atoms (nodes ++ nodes') = atoms nodes ++ atoms nodes' := by
  rw [atoms, walk_append, List.filter_append, atoms, atoms]

theorem atoms_cons (node : Node) (nodes : List Node) :
    atoms (node :: nodes) = [node].filter isAtom ++ atoms node.children ++ atoms nodes := by
  rw [List.append_assoc, ← atoms_append, atoms, walk_cons, ← List.singleton_append,
    List.filter_append, atoms]

theorem atoms_singleton (node : Node) :
    atoms [node] = [node].filter isAtom ++ atoms node.children := by
  rw [atoms_cons, atoms_nil, List.append_nil]

variable {node child root : Node} {first second rest nodes : List Node}

theorem Swapped.atoms_children (h : Swapped node first second rest) :
    atoms node.children = atoms first ++ (atoms second ++ atoms rest) := by
  cases h with
  | inlineIf => rw [← atoms_append, ← atoms_append]; rfl
  | filter => rw [children, atoms_cons, atoms_nil, List.append_nil]; rfl
  | call =>
    rw [children, List.map_append, ← List.append_assoc, ← List.cons_append, atoms_append,
      ← atoms_append _ rest]
    exact congrArg _ (atoms_singleton _)

/-- The parts of a node have the atoms of its children. -/
theorem perm_atoms_parts (node : Node) : (atoms node.parts).Perm (atoms node.children) := by
  obtain ⟨hparts, -⟩ | ⟨first, second, rest, hswapped, hparts, -⟩ := parts_cases node
  · rw [hparts]
  · rw [hparts, hswapped.atoms_children, atoms_append, atoms_append, ← List.append_assoc,
      ← List.append_assoc]
    exact List.perm_append_comm.append_right _

/-- The two orders have the same literals and symbols. -/
theorem perm_atoms_written (nodes : List Node) : (atoms nodes).Perm (written nodes) := by
  induction hsize : sizeAll nodes using Nat.strong_induction_on generalizing nodes with
  | _ size ih =>
    subst hsize
    cases nodes with
    | nil => exact .nil
    | cons node nodes =>
      have hlt := sizeAll_parts_lt node
      have hcons : sizeAll (node :: nodes) = node.size + sizeAll nodes := by rw [sizeAll]
      have hparts := (perm_atoms_parts node).symm.trans (ih _ (by omega) _ rfl)
      have hpos : 0 < node.size := Nat.zero_lt_of_lt hlt
      rw [atoms_cons, written_cons]
      exact (hparts.append_left _).append (ih _ (by omega) _ rfl)

/-- A node that is not displaced is met as it is written. -/
theorem atoms_parts_eq (h : ¬ node.IsDisplaced) : atoms node.parts = atoms node.children := by
  obtain ⟨hparts, -⟩ | ⟨first, second, rest, hswapped, hparts, hdisplaced⟩ := parts_cases node
  · rw [hparts]
  · have hempty : atoms first = [] ∨ atoms second = [] := by
      rw [hdisplaced] at h
      tauto
    rw [hparts, hswapped.atoms_children, atoms_append, atoms_append]
    obtain hempty | hempty := hempty <;> simp [hempty]

/-- Where no node is displaced, trees are walked as they are written. -/
theorem atoms_eq_written (h : ∀ node ∈ walk nodes, ¬ node.IsDisplaced) :
    atoms nodes = written nodes := by
  induction hsize : sizeAll nodes using Nat.strong_induction_on generalizing nodes with
  | _ size ih =>
    subst hsize
    cases nodes with
    | nil => rfl
    | cons node nodes =>
      have hlt := sizeAll_parts_lt node
      have hcons : sizeAll (node :: nodes) = node.size + sizeAll nodes := by rw [sizeAll]
      rw [walk_cons, List.forall_mem_cons, walk_append, List.forall_mem_append] at h
      obtain ⟨hnode, hchildren, hnodes⟩ := h
      have hparts : ∀ part ∈ walk node.parts, ¬ part.IsDisplaced := fun part hpart =>
        hchildren part (mem_walk_iff.mpr (among_children_of_among_parts (mem_walk_iff.mp hpart)))
      rw [atoms_cons, written_cons, ← atoms_parts_eq hnode, ih _ (by omega) hparts rfl,
        ih _ (by omega) hnodes rfl]

/-- Of a list of trees, what one of them gives is among what all give. -/
theorem sublist_of_mem {f : List Node → List Node}
    (hf : ∀ nodes nodes', f (nodes ++ nodes') = f nodes ++ f nodes') (h : node ∈ nodes) :
    (f [node]).Sublist (f nodes) := by
  obtain ⟨before, after, rfl⟩ := List.append_of_mem h
  rw [← List.singleton_append (l := after), hf, hf]
  exact (List.sublist_append_left _ _).trans (List.sublist_append_right _ _)

theorem written_sublist_of_mem_children (h : child ∈ root.children) :
    (written [child]).Sublist (written root.parts) := by
  obtain ⟨hparts, -⟩ | ⟨first, second, rest, hswapped, hparts, -⟩ := parts_cases root
  · exact sublist_of_mem written_append (hparts ▸ h)
  · rw [hparts]
    cases hswapped with
    | inlineIf =>
      refine sublist_of_mem written_append ?_
      simp only [children, List.mem_cons] at h
      simp only [List.singleton_append, List.mem_cons]
      tauto
    | filter =>
      rcases List.mem_cons.mp h with rfl | h
      · rw [List.append_nil, written_append, written_singleton]
        exact List.sublist_append_right _ _
      · exact sublist_of_mem written_append (List.mem_append_left _ h)
    | call =>
      rw [children, List.map_append, ← List.append_assoc, ← List.cons_append] at h
      rcases List.mem_append.mp h with h | h
      · exact sublist_of_mem written_append (List.mem_append_right _ (List.mem_append_left _ h))
      · obtain rfl := List.mem_singleton.mp h
        have hbody : ∀ (pos : Position) (params : List (String × Option Node)) (body : List Node),
            (callerBody pos params body).parts = params.filterMap (·.2) ++ body := fun _ _ _ => rfl
        rw [written_singleton, hbody, written_append, written_append, written_append]
        change (written _ ++ written _).Sublist _
        exact (List.Sublist.refl _).append (List.sublist_append_right _ _)

/-- What a walk meets of a node, and what is written of it, is among what it meets and what is written
    of the trees around it. -/
theorem sublist_of_mem_walk (h : node ∈ walk nodes) :
    (atoms [node]).Sublist (atoms nodes) ∧ (written [node]).Sublist (written nodes) := by
  obtain ⟨root, hroot, hwithin⟩ := mem_walk_iff.mp h
  have hinside : (atoms [node]).Sublist (atoms [root]) ∧
      (written [node]).Sublist (written [root]) := by
    clear hroot h
    induction hwithin with
    | self => exact ⟨List.Sublist.refl _, List.Sublist.refl _⟩
    | @child root child hchild _ ih =>
      rw [atoms_singleton root, written_singleton root]
      have hatoms := ih.1.trans (sublist_of_mem atoms_append hchild)
      have hwritten := ih.2.trans (written_sublist_of_mem_children hchild)
      exact ⟨hatoms.trans (List.sublist_append_right _ _),
        hwritten.trans (List.sublist_append_right _ _)⟩
  exact ⟨hinside.1.trans (sublist_of_mem atoms_append hroot),
    hinside.2.trans (sublist_of_mem written_append hroot)⟩

/-- The nodes stand one after the other. -/
def AreOrdered (nodes : List Node) : Prop :=
  nodes.Pairwise fun node node' => node.pos.Before node'.pos

instance (nodes : List Node) : Decidable (AreOrdered nodes) :=
  inferInstanceAs (Decidable (List.Pairwise _ nodes))

/-- The walk of a displaced node does not follow the source. -/
theorem not_areOrdered_atoms (h : node.IsDisplaced) (hordered : AreOrdered (written [node])) :
    ¬ AreOrdered (atoms [node]) := by
  intro hmet
  obtain ⟨-, hplaced⟩ | ⟨first, second, rest, hswapped, hparts, hdisplaced⟩ := parts_cases node
  · exact hplaced h
  · obtain ⟨hfirst, hsecond⟩ := hdisplaced.mp h
    obtain ⟨a, ha⟩ := List.exists_mem_of_ne_nil _ hfirst
    obtain ⟨b, hb⟩ := List.exists_mem_of_ne_nil _ hsecond
    rw [atoms_singleton, hswapped.atoms_children] at hmet
    rw [written_singleton, hparts, written_append, written_append] at hordered
    have hab := (List.pairwise_append.mp (List.pairwise_append.mp hmet).2.1).2.2 a ha b
      (List.mem_append_left _ hb)
    have hba := (List.pairwise_append.mp (List.pairwise_append.mp hordered).2.1).2.2 b
      ((perm_atoms_written second).subset hb) a
      (List.mem_append_left _ ((perm_atoms_written first).subset ha))
    have hself := hab.trans hba
    unfold Position.Before at hself
    omega

/-- A walk follows the source exactly if no node is displaced. -/
theorem areOrdered_atoms_iff (h : AreOrdered (written nodes)) :
    AreOrdered (atoms nodes) ↔ ∀ node ∈ walk nodes, ¬ node.IsDisplaced := by
  constructor
  · intro hmet node hnode hdisplaced
    obtain ⟨hatoms, hwritten⟩ := sublist_of_mem_walk hnode
    exact not_areOrdered_atoms hdisplaced (h.sublist hwritten) (hmet.sublist hatoms)
  · intro hplaced
    rwa [atoms_eq_written hplaced]

end Orders

end Node

end TemplateManifest
