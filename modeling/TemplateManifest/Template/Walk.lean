import TemplateManifest.Template.Node

/-!
Traversal of a syntax tree: all nodes in document order, each before its children. The walk
keeps the nodes still to be visited on a stack, and takes one step for each node.
-/

namespace TemplateManifest

namespace Node

mutual

/-- The number of nodes of a tree. -/
def size : Node → Nat
  | data _ _ | literal _ _ | symbol _ _ => 1
  | output _ nodes | capture _ nodes | array _ nodes | block _ _ nodes => sizeAll nodes + 1
  | ifElse _ cond body otherwise => size cond + sizeAll body + sizeAll otherwise + 1
  | forEach _ _ iterated body otherwise =>
    size iterated + sizeAll body + sizeAll otherwise + 1
  | macroDef _ _ params body | callerBody _ params body => sizeParams params + sizeAll body + 1
  | extensionCall _ _ _ args kwargs bodies _ =>
    sizeAll args + sizeKeywords kwargs + sizeBodies bodies + 1
  | assign _ _ node | inclusion _ _ node | group _ node | unary _ _ node => size node + 1
  | dict _ entries => sizeEntries entries + 1
  | lookup _ target key => size target + size key + 1
  | call _ target args kwargs | filter _ _ target args kwargs =>
    size target + sizeAll args + sizeKeywords kwargs + 1
  | test _ target _ args _ => size target + sizeAll args + 1
  | binary _ _ left right => size left + size right + 1
  | compare _ first rest => size first + sizeCompared rest + 1
  | inlineIf _ cond body otherwise => size cond + size body + sizeOption otherwise + 1

/-- The number of nodes of some trees. -/
def sizeAll : List Node → Nat
  | [] => 0
  | node :: nodes => size node + sizeAll nodes

/-- The number of nodes of an optional tree. -/
def sizeOption : Option Node → Nat
  | none => 0
  | some node => size node

/-- The number of nodes in the defaults of parameters. -/
def sizeParams : List (String × Option Node) → Nat
  | [] => 0
  | (_, default) :: params => sizeOption default + sizeParams params

/-- The number of nodes in the values of keyword arguments. -/
def sizeKeywords : List (String × Node) → Nat
  | [] => 0
  | (_, value) :: kwargs => size value + sizeKeywords kwargs

/-- The number of nodes in the bodies of a custom tag. -/
def sizeBodies : List (List Node) → Nat
  | [] => 0
  | body :: bodies => sizeAll body + sizeBodies bodies

/-- The number of nodes in the keys and values of a dictionary. -/
def sizeEntries : List (Node × Node) → Nat
  | [] => 0
  | (key, value) :: entries => size key + size value + sizeEntries entries

/-- The number of nodes in the later operands of a comparison. -/
def sizeCompared : List (CompareOp × Node) → Nat
  | [] => 0
  | (_, node) :: rest => size node + sizeCompared rest

end

/-- Visits the nodes on a stack, each before its children. The first argument bounds the number
    of nodes. -/
def walkFrom : Nat → List Node → List Node
  | 0, _ => []
  | _ + 1, [] => []
  | bound + 1, node :: stack => node :: walkFrom bound (node.children ++ stack)

/-- All nodes of some trees in document order, each before its children. -/
def walk (nodes : List Node) : List Node :=
  walkFrom (sizeAll nodes) nodes

/-- The nodes of one category in document order. -/
def findAll (category : Category) (nodes : List Node) : List Node :=
  (walk nodes).filter fun node => node.category = category

end Node

namespace Template

/-- All nodes of a template in document order. -/
def walk (template : Template) : List Node :=
  Node.walk template.body

/-- The nodes of one category in document order. -/
def findAll (template : Template) (category : Category) : List Node :=
  Node.findAll category template.body

end Template

end TemplateManifest
