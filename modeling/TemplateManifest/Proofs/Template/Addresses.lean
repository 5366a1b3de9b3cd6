import TemplateManifest.Proofs.Template.Walk

/-!
Where the nodes of a tree stand. Each field of a node that stores a node is a slot of it, and the slots on
the way down to a node are its address. The children of a node are what its slots store, each of them once.
-/

namespace TemplateManifest

/-- A field of a node in which a node is stored. The entries of lists are counted from zero. -/
inductive Slot where
  | condition
  | iterated
  | assigned
  | template
  | inner
  | target
  | key
  | callee
  | operand
  | left
  | right
  | first
  /-- What an inline condition gives if it holds. -/
  | chosen
  /-- What an inline condition gives otherwise. -/
  | alternative
  /-- An entry of an output or of an array. -/
  | item (index : Nat)
  | body (index : Nat)
  | otherwise (index : Nat)
  /-- The default of a parameter. -/
  | default (param : Nat)
  | argument (index : Nat)
  /-- The value of a keyword argument. -/
  | keyword (index : Nat)
  /-- A node in one of the bodies of a custom tag. -/
  | nested (body index : Nat)
  | entryKey (index : Nat)
  | entryValue (index : Nat)
  /-- A later operand of a comparison. -/
  | compared (index : Nat)
deriving DecidableEq

/-- The number of the entry of a list that the slot stands in. -/
def Slot.number : Slot → Nat
  | item i | body i | otherwise i | default i | argument i | keyword i | nested i _ | entryKey i
  | entryValue i | compared i => i
  | _ => 0

/-- The slots on the way down to a node. -/
abbrev Address := List Slot

namespace Node

/-- The node in a slot. -/
def stored? : Node → Slot → Option Node
  | data _ _ | literal _ _ | symbol _ _ => fun _ => none
  | output _ nodes | array _ nodes => fun
    | .item i => nodes[i]?
    | _ => none
  | ifElse _ cond body otherwise => fun
    | .condition => some cond
    | .body i => body[i]?
    | .otherwise i => otherwise[i]?
    | _ => none
  | forEach _ _ iterated body otherwise => fun
    | .iterated => some iterated
    | .body i => body[i]?
    | .otherwise i => otherwise[i]?
    | _ => none
  | assign _ _ value => fun
    | .assigned => some value
    | _ => none
  | block _ _ body | capture _ body => fun
    | .body i => body[i]?
    | _ => none
  | macroDef _ _ params body | callerBody _ params body => fun
    | .default i => params[i]?.bind (·.2)
    | .body i => body[i]?
    | _ => none
  | inclusion _ _ template => fun
    | .template => some template
    | _ => none
  | extensionCall _ _ _ args kwargs bodies _ => fun
    | .argument i => args[i]?
    | .keyword i => kwargs[i]?.map (·.2)
    | .nested b i => bodies[b]?.bind fun body => body[i]?
    | _ => none
  | group _ inner => fun
    | .inner => some inner
    | _ => none
  | dict _ entries => fun
    | .entryKey i => entries[i]?.map (·.1)
    | .entryValue i => entries[i]?.map (·.2)
    | _ => none
  | lookup _ target key => fun
    | .target => some target
    | .key => some key
    | _ => none
  | call _ callee args kwargs => fun
    | .callee => some callee
    | .argument i => args[i]?
    | .keyword i => kwargs[i]?.map (·.2)
    | _ => none
  | filter _ _ target args kwargs => fun
    | .target => some target
    | .argument i => args[i]?
    | .keyword i => kwargs[i]?.map (·.2)
    | _ => none
  | test _ target _ args _ => fun
    | .target => some target
    | .argument i => args[i]?
    | _ => none
  | unary _ _ operand => fun
    | .operand => some operand
    | _ => none
  | binary _ _ left right => fun
    | .left => some left
    | .right => some right
    | _ => none
  | compare _ first rest => fun
    | .first => some first
    | .compared i => rest[i]?.map (·.2)
    | _ => none
  | inlineIf _ cond body otherwise => fun
    | .condition => some cond
    | .chosen => some body
    | .alternative => otherwise
    | _ => none

section Entries

variable {α κ : Type}

/-- What is made of the entries of a list and their numbers. -/
def numbered (entries : List α) (f : Nat → α → List (Slot × Node)) : List (Slot × Node) :=
  entries.zipIdx.flatMap fun entry => f entry.2 entry.1

/-- The nodes of a list, each with the key that is made of its number. -/
def row (key : Nat → κ) (nodes : List Node) : List (κ × Node) :=
  nodes.zipIdx.map fun entry => (key entry.2, entry.1)

/-- The slots of a node with what they store, in the order of its children. -/
def slots : Node → List (Slot × Node)
  | data _ _ | literal _ _ | symbol _ _ => []
  | output _ nodes | array _ nodes => row .item nodes
  | ifElse _ cond body otherwise => (.condition, cond) :: (row .body body ++ row .otherwise otherwise)
  | forEach _ _ iterated body otherwise =>
    (.iterated, iterated) :: (row .body body ++ row .otherwise otherwise)
  | assign _ _ value => [(.assigned, value)]
  | block _ _ body | capture _ body => row .body body
  | macroDef _ _ params body | callerBody _ params body =>
    numbered params (fun i param => param.2.toList.map (Slot.default i, ·)) ++ row .body body
  | inclusion _ _ template => [(.template, template)]
  | extensionCall _ _ _ args kwargs bodies _ =>
    row .argument args ++ row .keyword (kwargs.map (·.2)) ++ numbered bodies fun b => row (.nested b)
  | group _ inner => [(.inner, inner)]
  | dict _ entries => numbered entries fun i entry => [(.entryKey i, entry.1), (.entryValue i, entry.2)]
  | lookup _ target key => [(.target, target), (.key, key)]
  | call _ callee args kwargs =>
    (.callee, callee) :: (row .argument args ++ row .keyword (kwargs.map (·.2)))
  | filter _ _ target args kwargs =>
    (.target, target) :: (row .argument args ++ row .keyword (kwargs.map (·.2)))
  | test _ target _ args _ => (.target, target) :: row .argument args
  | unary _ _ operand => [(.operand, operand)]
  | binary _ _ left right => [(.left, left), (.right, right)]
  | compare _ first rest => (.first, first) :: row .compared (rest.map (·.2))
  | inlineIf _ cond body otherwise =>
    (.condition, cond) :: (.chosen, body) :: otherwise.toList.map (Slot.alternative, ·)

variable {entries : List α} {f : Nat → α → List (Slot × Node)} {key : Nat → κ} {nodes : List Node}

theorem mem_numbered {entry : Slot × Node} :
    entry ∈ numbered entries f ↔ ∃ i a, entries[i]? = some a ∧ entry ∈ f i a := by
  simp only [numbered, List.mem_flatMap, Prod.exists, List.mem_zipIdx_iff_getElem?]
  exact exists_comm

theorem mem_row {entry : κ × Node} :
    entry ∈ row key nodes ↔ ∃ i, nodes[i]? = some entry.2 ∧ entry.1 = key i := by
  simp only [row, List.mem_map, Prod.exists, List.mem_zipIdx_iff_getElem?, Prod.ext_iff]
  constructor
  · rintro ⟨node, i, hnode, hkey, rfl⟩
    exact ⟨i, hnode, hkey.symm⟩
  · rintro ⟨i, hnode, hkey⟩
    exact ⟨_, i, hnode, hkey.symm, rfl⟩

theorem map_snd_numbered {g : α → List Node} (h : ∀ i a, (f i a).map Prod.snd = g a) :
    (numbered entries f).map Prod.snd = entries.flatMap g := by
  have hzip : entries.flatMap g = (entries.zipIdx.map Prod.fst).flatMap g := by
    rw [List.zipIdx_map_fst]
  rw [hzip, numbered, List.map_flatMap, List.flatMap_map]
  simp only [h]

theorem map_snd_row : (row key nodes).map Prod.snd = nodes := by
  rw [row, List.map_map]
  exact List.zipIdx_map_fst 0 nodes

theorem nodup_row (hkey : ∀ i j, key i = key j → i = j) : ((row key nodes).map Prod.fst).Nodup := by
  have hnodup : (nodes.zipIdx.map Prod.snd).Nodup := by
    rw [List.zipIdx_map_snd]
    exact List.nodup_range'
  have hkeys : (row key nodes).map Prod.fst = (nodes.zipIdx.map Prod.snd).map key := by
    rw [row, List.map_map, List.map_map]
    rfl
  rw [hkeys]
  exact hnodup.map hkey

theorem mem_map_fst_row {stored : κ} (h : stored ∈ (row key nodes).map Prod.fst) :
    ∃ i, stored = key i := by
  obtain ⟨entry, hentry, rfl⟩ := List.mem_map.mp h
  obtain ⟨i, _, hkey⟩ := mem_row.mp hentry
  exact ⟨i, hkey⟩

/-- The nodes of two lists have different keys if those of one list are none of the other. -/
theorem nodup_append_row {keys : List κ} (hkeys : keys.Nodup) (hkey : ∀ i j, key i = key j → i = j)
    (hne : ∀ i, key i ∉ keys) : (keys ++ (row key nodes).map Prod.fst).Nodup := by
  refine List.nodup_append.mpr ⟨hkeys, nodup_row hkey, ?_⟩
  rintro stored hstored other hother rfl
  obtain ⟨i, rfl⟩ := mem_map_fst_row hother
  exact hne i hstored

/-- What is made of different entries is in different slots if each slot tells the number of its entry. -/
theorem nodup_numbered (hf : ∀ i a, ((f i a).map Prod.fst).Nodup)
    (hnumber : ∀ i a, ∀ entry ∈ f i a, entry.1.number = i) :
    ((numbered entries f).map Prod.fst).Nodup := by
  rw [numbered, List.map_flatMap, List.nodup_flatMap]
  refine ⟨fun entry _ => hf entry.2 entry.1, ?_⟩
  have hnodup : (entries.zipIdx.map Prod.snd).Nodup := by
    rw [List.zipIdx_map_snd]
    exact List.nodup_range'
  refine (List.pairwise_map.mp hnodup).imp ?_
  intro entry later hne slot hslot hlater
  obtain ⟨stored, hstored, rfl⟩ := List.mem_map.mp hslot
  obtain ⟨other, hother, hsame⟩ := List.mem_map.mp hlater
  apply hne
  rw [← hnumber _ _ stored hstored, ← hnumber _ _ other hother, hsame]

end Entries

theorem map_snd_slots (node : Node) : node.slots.map Prod.snd = node.children := by
  have hdefaults (params : List (String × Option Node)) :
      (numbered params fun i param => param.2.toList.map (Slot.default i, ·)).map Prod.snd =
        params.filterMap (·.2) := by
    rw [map_snd_numbered (g := fun param => param.2.toList) (fun i param => by simp),
      List.filterMap_eq_flatMap_toList]
  have hbodies (bodies : List (List Node)) :
      (numbered bodies fun b => row (Slot.nested b)).map Prod.snd = bodies.flatten := by
    rw [map_snd_numbered (g := fun body => body) (fun _ _ => map_snd_row), List.flatMap_id']
  have hdict (entries : List (Node × Node)) :
      (numbered entries fun i entry => [(Slot.entryKey i, entry.1), (Slot.entryValue i, entry.2)]).map
        Prod.snd = entries.flatMap fun entry => [entry.1, entry.2] :=
    map_snd_numbered fun _ _ => rfl
  cases node <;> simp [slots, children, map_snd_row, hdefaults, hbodies, hdict]

/-- Each field that stores a node is among the slots, with what it stores. -/
theorem mem_slots_iff {node child : Node} {slot : Slot} :
    (slot, child) ∈ node.slots ↔ node.stored? slot = some child := by
  cases node <;> cases slot <;>
    simp [slots, stored?, mem_numbered, mem_row, Option.bind_eq_some_iff, @eq_comm _ child]

theorem nodup_defaultSlots (params : List (String × Option Node)) :
    ((numbered params fun i param => param.2.toList.map (Slot.default i, ·)).map Prod.fst).Nodup := by
  apply nodup_numbered
  · rintro i ⟨name, default⟩
    cases default <;> simp
  · intro i param entry hentry
    obtain ⟨node, _, rfl⟩ := List.mem_map.mp hentry
    rfl

theorem nodup_nestedSlots (bodies : List (List Node)) :
    ((numbered bodies fun b => row (Slot.nested b)).map Prod.fst).Nodup := by
  apply nodup_numbered
  · intro b body
    exact nodup_row fun i j h => (Slot.nested.inj h).2
  · intro b body entry hentry
    obtain ⟨i, _, hslot⟩ := mem_row.mp hentry
    rw [hslot]
    rfl

theorem nodup_dictSlots (entries : List (Node × Node)) :
    ((numbered entries fun i entry => [(Slot.entryKey i, entry.1), (Slot.entryValue i, entry.2)]).map
      Prod.fst).Nodup := by
  apply nodup_numbered
  · intro i entry
    simp
  · intro i entry stored hstored
    simp only [List.mem_cons, List.not_mem_nil, or_false] at hstored
    rcases hstored with rfl | rfl <;> rfl

theorem nodup_append_rows {field field' : Nat → Slot} {nodes nodes' : List Node}
    (hfield : ∀ i j, field i = field j → i = j) (hfield' : ∀ i j, field' i = field' j → i = j)
    (hne : ∀ i j, field i ≠ field' j) :
    ((row field nodes).map Prod.fst ++ (row field' nodes').map Prod.fst).Nodup := by
  apply nodup_append_row (nodup_row hfield) hfield'
  intro j hmem
  obtain ⟨i, hi⟩ := mem_map_fst_row hmem
  exact hne i j hi.symm

/-- No slot stands twice among those of a node. -/
theorem nodup_slots (node : Node) : (node.slots.map Prod.fst).Nodup := by
  cases node with
  | macroDef _ _ params body | callerBody _ params body =>
    rw [slots, List.map_append]
    apply nodup_append_row (nodup_defaultSlots params)
    · intro i j h
      exact Slot.body.inj h
    · intro i
      simp [mem_numbered]
  | extensionCall _ _ _ args kwargs bodies _ =>
    rw [slots, List.map_append, List.map_append, List.nodup_append]
    refine ⟨nodup_append_rows (by simp) (by simp) (by simp), nodup_nestedSlots bodies, ?_⟩
    rintro slot hslot _ hother rfl
    have hnested : ∃ b i, slot = .nested b i := by
      obtain ⟨_, hentry, rfl⟩ := List.mem_map.mp hother
      obtain ⟨b, _, _, hrow⟩ := mem_numbered.mp hentry
      obtain ⟨i, _, hnested⟩ := mem_row.mp hrow
      exact ⟨b, i, hnested⟩
    obtain ⟨b, i, rfl⟩ := hnested
    rcases List.mem_append.mp hslot with hslot | hslot
    · obtain ⟨_, hsame⟩ := mem_map_fst_row hslot
      cases hsame
    · obtain ⟨_, hsame⟩ := mem_map_fst_row hslot
      cases hsame
  | _ => simp [slots, mem_row, nodup_row, nodup_append_rows, nodup_dictSlots]

end Node

end TemplateManifest
