import TemplateManifest.Compile.Template
import TemplateManifest.Proofs.Template.Within

/-!
What a template does with names, in the order in which it does it: where symbols stand, where
names get their values, and which parts have a scope or a function of their own. Nothing is said
here about what a name means.
-/

namespace TemplateManifest

/-- A step of a template, as far as names are concerned. -/
inductive Outline where
  /-- A symbol stands here. -/
  | symbol (pos : Position) (name : String)
  /-- Names get a value: each in the variable that holds it, or else in a new temporary. -/
  | assign (names : List String)
  /-- A new temporary gets a value, for which `inner` is gone through; then it holds the name, if
      there is one. -/
  | define (name : Option String) (inner : List Outline)
  /-- One of two parts is gone through. -/
  | branch (body otherwise : List Outline)
  /-- The body is gone through for each item, and the other part if there are no items. -/
  | loop (targets : List String) (body : List Outline) (hasElse : Bool) (otherwise : List Outline)
  /-- A function of its own. A parameter comes with whether it has a default. -/
  | function (params : List (String × Bool)) (defaults body : List Outline)
  /-- A named block stands here. Its body becomes a function elsewhere. -/
  | block (b : PendingBlock)
  /-- The template gets a parent. -/
  | parent

namespace Outline

mutual

/-- The symbols, blocks and parents in a step, in their order. -/
def leaves : Outline → List Outline
  | symbol pos name => [.symbol pos name]
  | block b => [.block b]
  | parent => [.parent]
  | assign _ => []
  | define _ inner => leavesAll inner
  | branch body otherwise | loop _ body _ otherwise => leavesAll body ++ leavesAll otherwise
  | function _ defaults body => leavesAll defaults ++ leavesAll body

/-- The symbols, blocks and parents in some steps. -/
def leavesAll : List Outline → List Outline
  | [] => []
  | step :: steps => step.leaves ++ leavesAll steps

end

@[simp]
theorem leavesAll_append (steps steps' : List Outline) :
    leavesAll (steps ++ steps') = leavesAll steps ++ leavesAll steps' := by
  induction steps with
  | nil => rfl
  | cons step steps ih => simp [leavesAll, ih]

/-- The block that stands at a step. -/
def block? : Outline → Option PendingBlock
  | block b => some b
  | _ => none

/-- The blocks that stand in some steps, those inside other blocks apart. -/
def blocks (steps : List Outline) : List PendingBlock :=
  (leavesAll steps).filterMap block?

@[simp]
theorem blocks_append (steps steps' : List Outline) :
    blocks (steps ++ steps') = blocks steps ++ blocks steps' := by
  simp [blocks]

end Outline

/-- The names that an inclusion defines, each in a new temporary. An unnamed temporary is for the
    loaded template itself. -/
def Inclusion.definitions : Inclusion → List (Option String)
  | .parent | .part _ => [none]
  | .module target _ => [some target]
  | .members names _ => none :: names.map fun (exported, renamed) => some (renamed.getD exported)

/-- The steps of an inclusion, after those of the expression that names the template. -/
def Inclusion.outline (form : Inclusion) : List Outline :=
  form.definitions.map (fun name => .define name []) ++
    if form = .parent then [.parent] else []

/-- The parameters of a macro, each with whether it has a default. -/
def parameterForms (params : List (String × Option Node)) : List (String × Bool) :=
  params.map fun (param, default) => (param, default.isSome)

namespace Node

mutual

/-- The steps of a node. -/
def outline : Node → List Outline
  | data _ _ | literal _ _ => []
  | symbol pos name => [.symbol pos name]
  | output _ nodes | array _ nodes => outlineAll nodes
  | ifElse _ cond body otherwise =>
    cond.outline ++ [.branch (outlineAll body) (outlineAll otherwise)]
  | forEach _ targets iterated body otherwise =>
    iterated.outline ++
      [.loop targets (outlineAll body) (!otherwise.isEmpty) (outlineAll otherwise)]
  | assign _ targets value => value.outline ++ [.assign targets]
  | block _ name body => [.block ⟨name, body⟩]
  | macroDef _ name params body =>
    [.define (some name)
      [.function (parameterForms params) (outlineDefaults params) (outlineAll body)]]
  | callerBody _ params body =>
    [.function (parameterForms params) (outlineDefaults params) (outlineAll body)]
  | capture _ body => [.function [] [] (outlineAll body)]
  | inclusion _ form template => template.outline ++ form.outline
  | extensionCall _ _ _ args kwargs bodies _ =>
    outlineAll args ++ (outlineKeywords kwargs ++ outlineBodies bodies)
  | group _ node | unary _ _ node => node.outline
  | dict _ entries => outlineEntries entries
  | lookup _ target key => target.outline ++ key.outline
  | call _ target args kwargs | filter _ _ target args kwargs =>
    target.outline ++ (outlineAll args ++ outlineKeywords kwargs)
  | test _ target _ args _ => target.outline ++ outlineAll args
  | binary _ _ left right => left.outline ++ right.outline
  | compare _ first rest => first.outline ++ outlineCompared rest
  | inlineIf _ cond body otherwise => cond.outline ++ (body.outline ++ outlineOption otherwise)

/-- The steps of some nodes. -/
def outlineAll : List Node → List Outline
  | [] => []
  | node :: nodes => node.outline ++ outlineAll nodes

/-- The steps of an optional node. -/
def outlineOption : Option Node → List Outline
  | none => []
  | some node => node.outline

/-- The steps of the defaults of parameters. -/
def outlineDefaults : List (String × Option Node) → List Outline
  | [] => []
  | (_, default) :: params => outlineOption default ++ outlineDefaults params

/-- The steps of the values of keyword arguments. -/
def outlineKeywords : List (String × Node) → List Outline
  | [] => []
  | (_, value) :: kwargs => value.outline ++ outlineKeywords kwargs

/-- The steps of the bodies of a custom tag, each a function of its own. -/
def outlineBodies : List (List Node) → List Outline
  | [] => []
  | body :: bodies => .function [] [] (outlineAll body) :: outlineBodies bodies

/-- The steps of the keys and values of a dictionary. -/
def outlineEntries : List (Node × Node) → List Outline
  | [] => []
  | (key, value) :: entries => key.outline ++ (value.outline ++ outlineEntries entries)

/-- The steps of the later operands of a comparison. -/
def outlineCompared : List (CompareOp × Node) → List Outline
  | [] => []
  | (_, node) :: rest => node.outline ++ outlineCompared rest

end

/-- What a node itself contributes to the leaves of its outline. -/
def leaf? : Node → Option Outline
  | symbol pos name => some (.symbol pos name)
  | block _ name body => some (.block ⟨name, body⟩)
  | inclusion _ .parent _ => some .parent
  | _ => none

section Leaves

open Outline

theorem leavesAll_outlineAll_append (nodes nodes' : List Node) :
    leavesAll (outlineAll (nodes ++ nodes')) =
      leavesAll (outlineAll nodes) ++ leavesAll (outlineAll nodes') := by
  induction nodes with
  | nil => rfl
  | cons node nodes ih => simp [outlineAll, ih]

theorem leavesAll_outlineOption (node : Option Node) :
    leavesAll (outlineOption node) = leavesAll (outlineAll node.toList) := by
  cases node <;> simp [outlineOption, outlineAll]

theorem leavesAll_outlineDefaults (params : List (String × Option Node)) :
    leavesAll (outlineDefaults params) = leavesAll (outlineAll (params.filterMap (·.2))) := by
  induction params with
  | nil => rfl
  | cons param params ih =>
    obtain ⟨p, default⟩ := param
    cases default <;> simp [outlineDefaults, outlineOption, outlineAll, ih]

theorem leavesAll_outlineKeywords (kwargs : List (String × Node)) :
    leavesAll (outlineKeywords kwargs) = leavesAll (outlineAll (kwargs.map (·.2))) := by
  induction kwargs with
  | nil => rfl
  | cons entry kwargs ih => simp [outlineKeywords, outlineAll, ih]

theorem leavesAll_outlineBodies (bodies : List (List Node)) :
    leavesAll (outlineBodies bodies) = leavesAll (outlineAll bodies.flatten) := by
  induction bodies with
  | nil => rfl
  | cons body bodies ih =>
    simp [outlineBodies, leavesAll, leaves, leavesAll_outlineAll_append, ih]

theorem leavesAll_outlineEntries (entries : List (Node × Node)) :
    leavesAll (outlineEntries entries) =
      leavesAll (outlineAll (entries.flatMap fun entry => [entry.1, entry.2])) := by
  induction entries with
  | nil => rfl
  | cons entry entries ih => simp [outlineEntries, outlineAll, ih]

theorem leavesAll_outlineCompared (rest : List (CompareOp × Node)) :
    leavesAll (outlineCompared rest) = leavesAll (outlineAll (rest.map (·.2))) := by
  induction rest with
  | nil => rfl
  | cons entry rest ih => simp [outlineCompared, outlineAll, ih]

theorem leavesAll_definitions (names : List (Option String)) :
    leavesAll (names.map fun name => .define name []) = [] := by
  induction names with
  | nil => rfl
  | cons name names ih => simp [leavesAll, leaves, ih]

/-- The leaves of a node are those of its children and itself, unless it is a block. -/
theorem leavesAll_outline (node : Node) (h : ∀ pos name body, node ≠ .block pos name body) :
    leavesAll node.outline =
      leavesAll (outlineAll node.children) ++ node.leaf?.toList := by
  cases node with
  | block pos name body => exact absurd rfl (h pos name body)
  | inclusion pos form template =>
    cases form <;>
      simp [outline, Inclusion.outline, leavesAll_definitions, children, outlineAll, leaf?,
        leavesAll, leaves]
  | _ =>
    simp [outline, children, outlineAll, leaf?, leavesAll, leaves, leavesAll_outlineAll_append,
      leavesAll_outlineOption, leavesAll_outlineDefaults, leavesAll_outlineKeywords,
      leavesAll_outlineBodies, leavesAll_outlineEntries, leavesAll_outlineCompared]

end Leaves

/-- The block stands in some nodes, at any depth. -/
inductive HasBlock (b : PendingBlock) : List Node → Prop where
  | here {nodes : List Node} (h : b ∈ Outline.blocks (outlineAll nodes)) : HasBlock b nodes
  | inside {nodes : List Node} {outer : PendingBlock}
      (houter : outer ∈ Outline.blocks (outlineAll nodes)) (h : HasBlock b outer.body) :
      HasBlock b nodes

theorem HasBlock.mono {b : PendingBlock} {nodes nodes' : List Node} (h : HasBlock b nodes)
    (hblocks : Outline.blocks (outlineAll nodes) ⊆ Outline.blocks (outlineAll nodes')) :
    HasBlock b nodes' := by
  cases h with
  | here h => exact .here (hblocks h)
  | inside houter h => exact .inside (hblocks houter) h

theorem HasBlock.trans {b outer : PendingBlock} {nodes : List Node} (h : HasBlock b outer.body)
    (houter : HasBlock outer nodes) : HasBlock b nodes := by
  induction houter with
  | here houter => exact .inside houter h
  | inside houter' _ ih => exact .inside houter' ih

theorem leavesAll_subset_of_mem {node : Node} {nodes : List Node} (h : node ∈ nodes) :
    Outline.leavesAll node.outline ⊆ Outline.leavesAll (outlineAll nodes) := by
  induction nodes with
  | nil => cases h
  | cons first nodes ih =>
    rw [outlineAll, Outline.leavesAll_append]
    rcases List.mem_cons.mp h with rfl | h
    · exact List.subset_append_left _ _
    · exact List.subset_append_of_subset_right _ (ih h)

/-- A symbol, a block or a parent anywhere in some nodes is among their leaves or those of a block
    in them. -/
theorem mem_leavesAll_of_among {node : Node} {leaf : Outline} (hleaf : node.leaf? = some leaf)
    {nodes : List Node} (h : node.Among nodes) :
    leaf ∈ Outline.leavesAll (outlineAll nodes) ∨
      ∃ b, HasBlock b nodes ∧ leaf ∈ Outline.leavesAll (outlineAll b.body) := by
  obtain ⟨root, hroot, hwithin⟩ := h
  induction hwithin generalizing nodes with
  | self =>
    refine .inl (leavesAll_subset_of_mem hroot ?_)
    by_cases hblock : ∃ pos name body, node = .block pos name body
    · obtain ⟨pos, name, body, rfl⟩ := hblock
      obtain rfl := Option.some.inj hleaf
      exact List.mem_singleton_self _
    · rw [leavesAll_outline node fun pos name body heq => hblock ⟨pos, name, body, heq⟩, hleaf]
      exact List.mem_append_right _ (List.mem_singleton_self _)
  | @child root child hchild _ ih =>
    have hchildren := ih hchild
    by_cases hblock : ∃ pos name body, root = .block pos name body
    · obtain ⟨pos, name, body, rfl⟩ := hblock
      have houter : (⟨name, body⟩ : PendingBlock) ∈ Outline.blocks (outlineAll nodes) :=
        List.mem_filterMap.mpr
          ⟨.block ⟨name, body⟩, leavesAll_subset_of_mem hroot (List.mem_singleton_self _), rfl⟩
      rcases hchildren with hmem | ⟨b, hb, hmem⟩
      · exact .inr ⟨_, .here houter, hmem⟩
      · exact .inr ⟨b, .inside houter hb, hmem⟩
    · have hsubset : Outline.leavesAll (outlineAll root.children) ⊆
          Outline.leavesAll (outlineAll nodes) := by
        refine List.Subset.trans ?_ (leavesAll_subset_of_mem hroot)
        rw [leavesAll_outline root fun pos name body heq => hblock ⟨pos, name, body, heq⟩]
        exact List.subset_append_left _ _
      rcases hchildren with hmem | ⟨b, hb, hmem⟩
      · exact .inl (hsubset hmem)
      · exact .inr ⟨b, hb.mono (List.filterMap_subset _ hsubset), hmem⟩

theorem exists_mem_of_mem_leavesAll {leaf : Outline} {nodes : List Node}
    (h : leaf ∈ Outline.leavesAll (outlineAll nodes)) :
    ∃ node ∈ nodes, leaf ∈ Outline.leavesAll node.outline := by
  induction nodes with
  | nil => cases h
  | cons node nodes ih =>
    rw [outlineAll, Outline.leavesAll_append, List.mem_append] at h
    rcases h with h | h
    · exact ⟨node, List.mem_cons_self .., h⟩
    · obtain ⟨node', hnode', h⟩ := ih h
      exact ⟨node', List.mem_cons_of_mem _ hnode', h⟩

/-- The leaves of some nodes come from nodes among them. -/
theorem exists_among_of_mem_leavesAll {leaf : Outline} {nodes : List Node}
    (h : leaf ∈ Outline.leavesAll (outlineAll nodes)) :
    ∃ node : Node, node.leaf? = some leaf ∧ node.Among nodes := by
  generalize hsize : sizeAll nodes = size
  induction size using Nat.strongRecOn generalizing nodes with
  | ind size ih =>
    obtain ⟨root, hroot, hleaf⟩ := exists_mem_of_mem_leavesAll h
    by_cases hblock : ∃ pos name body, root = .block pos name body
    · obtain ⟨pos, name, body, rfl⟩ := hblock
      obtain rfl := List.mem_singleton.mp hleaf
      exact ⟨_, rfl, _, hroot, .self⟩
    · rw [leavesAll_outline root fun pos name body heq => hblock ⟨pos, name, body, heq⟩,
        List.mem_append, Option.mem_toList] at hleaf
      rcases hleaf with hleaf | hleaf
      · have hlt : sizeAll root.children < size := by
          have hle := size_le_sizeAll hroot
          rw [size_eq, hsize] at hle
          exact hle
        obtain ⟨node, hnode, child, hchild, hwithin⟩ := ih _ hlt hleaf rfl
        exact ⟨node, hnode, root, hroot, .child hchild hwithin⟩
      · exact ⟨root, hleaf, root, hroot, .self⟩

/-- The blocks that stand in some nodes are the block nodes among them. -/
theorem hasBlock_iff {b : PendingBlock} {nodes : List Node} :
    HasBlock b nodes ↔ ∃ pos, (Node.block pos b.name b.body).Among nodes := by
  have hblock {node : Node} {b : PendingBlock} (h : node.leaf? = some (.block b)) :
      ∃ pos, node = .block pos b.name b.body := by
    cases node with
    | block pos name body =>
      cases h
      exact ⟨pos, rfl⟩
    | inclusion pos form template => cases form <;> cases h
    | _ => cases h
  have hmem {nodes : List Node} {b : PendingBlock} (h : b ∈ Outline.blocks (outlineAll nodes)) :
      ∃ pos, (Node.block pos b.name b.body).Among nodes := by
    obtain ⟨leaf, hleaf, hb⟩ := List.mem_filterMap.mp h
    cases leaf <;> cases hb
    obtain ⟨node, hnode, hamong⟩ := exists_among_of_mem_leavesAll hleaf
    obtain ⟨pos, rfl⟩ := hblock hnode
    exact ⟨pos, hamong⟩
  constructor
  · intro h
    induction h with
    | here h => exact hmem h
    | inside houter _ ih =>
      obtain ⟨pos, root, hroot, houter⟩ := hmem houter
      obtain ⟨pos', child, hchild, hwithin⟩ := ih
      exact ⟨pos', root, hroot, (Within.child hchild hwithin).trans houter⟩
  · rintro ⟨pos, h⟩
    rcases mem_leavesAll_of_among rfl h with h | ⟨outer, houter, h⟩
    · exact .here (List.mem_filterMap.mpr ⟨_, h, rfl⟩)
    · exact .trans (.here (List.mem_filterMap.mpr ⟨_, h, rfl⟩)) houter

end Node

end TemplateManifest
