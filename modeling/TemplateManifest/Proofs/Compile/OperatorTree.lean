import Mathlib.Data.List.Induction
import TemplateManifest.Compile.Code
import TemplateManifest.Proofs.Script.Wording
import TemplateManifest.Proofs.Template.Within

/-!
The structure of the operators of an expression, as an expression of the target language: each
operator, accessor and call of the template with its operands. There are two of them, that of the
template and the one by which the target language groups the code. They are equal unless a sign
stands before the same sign, or an order comes after an equality in a chain of comparisons.
-/

namespace TemplateManifest

open Script Text

namespace Script

/-- A chain of comparisons as the target language groups it, in which orders bind more tightly
    than equalities: what stands before the last equality, with that equality, and the operand
    after it. -/
structure Chain where
  closed : Option (Tree × Operator)
  last : Tree

namespace Chain

/-- The expression that a chain is. -/
def tree (c : Chain) : Tree :=
  match c.closed with
  | none => c.last
  | some (left, op) => .operation op left c.last

/-- The chain with one more operator and operand. -/
def push (c : Chain) (op : Operator) (operand : Tree) : Chain :=
  if op.level = 8 then ⟨some (c.tree, op), operand⟩ else ⟨c.closed, .operation op c.last operand⟩

/-- The chain of operators and operands after a first operand. -/
def ofOperands (first : Tree) (rest : List (Operator × Tree)) : Chain :=
  rest.foldl (fun c entry => c.push entry.1 entry.2) ⟨none, first⟩

theorem ofOperands_append_singleton (first : Tree) (rest : List (Operator × Tree)) (op : Operator)
    (operand : Tree) :
    ofOperands first (rest ++ [(op, operand)]) = (ofOperands first rest).push op operand := by
  simp [ofOperands]

end Chain

/-- The operators applied one after the other, from left to right. -/
def leftGrouped (first : Tree) (rest : List (Operator × Tree)) : Tree :=
  rest.foldl (fun left entry => .operation entry.1 left entry.2) first

theorem leftGrouped_append_singleton (first : Tree) (rest : List (Operator × Tree)) (op : Operator)
    (operand : Tree) :
    leftGrouped first (rest ++ [(op, operand)]) =
      .operation op (leftGrouped first rest) operand := by
  simp [leftGrouped]

/-- No operator of a chain binds more tightly than one before it. -/
def Loosens (ops : List Operator) : Prop :=
  ops.Pairwise fun op later => later.level ≤ op.level

/-- The operators are comparisons. -/
def AreComparisons (ops : List Operator) : Prop :=
  ∀ op ∈ ops, op.level = 8 ∨ op.level = 9

/-- What is closed in a chain of comparisons ends with its last equality; where nothing is closed
    there is none. -/
theorem Chain.closed_ofOperands {first : Tree} {rest : List (Operator × Tree)}
    (h : AreComparisons (rest.map (·.1))) :
    ((Chain.ofOperands first rest).closed = none ∧ ∀ op ∈ rest.map (·.1), op.level = 9) ∨
      ∃ left op, (Chain.ofOperands first rest).closed = some (left, op) ∧ op.level = 8 ∧
        op ∈ rest.map (·.1) := by
  induction rest using List.reverseRecOn with
  | nil => exact .inl ⟨rfl, by simp⟩
  | append_singleton rest entry ih =>
    obtain ⟨op, operand⟩ := entry
    rw [Chain.ofOperands_append_singleton, Chain.push]
    have hrest := ih fun op hop => h op (by simp at hop ⊢; exact .inl hop)
    by_cases heq : op.level = 8
    · rw [if_pos heq]
      exact .inr ⟨_, op, rfl, heq, by simp⟩
    · have horder : op.level = 9 := (h op (by simp)).resolve_left heq
      rw [if_neg heq]
      rcases hrest with ⟨hclosed, hlevels⟩ | ⟨left, op', hclosed, hlevel, hmem⟩
      · refine .inl ⟨hclosed, ?_⟩
        simpa [or_imp, forall_and, horder] using hlevels
      · exact .inr ⟨left, op', hclosed, hlevel, by simp at hmem ⊢; exact .inl hmem⟩

section

variable {α : Type} (f f' : α → Tree)

/-- A chain of comparisons is grouped from left to right exactly when no order comes after an
    equality. -/
theorem Chain.tree_ofOperands_eq_iff {first first' : Tree} {rest : List (Operator × α)}
    (h : AreComparisons (rest.map (·.1))) :
    (Chain.ofOperands first (rest.map fun entry => (entry.1, f entry.2))).tree =
        leftGrouped first' (rest.map fun entry => (entry.1, f' entry.2)) ↔
      first = first' ∧ (∀ entry ∈ rest, f entry.2 = f' entry.2) ∧ Loosens (rest.map (·.1)) := by
  induction rest using List.reverseRecOn with
  | nil => simp [Chain.ofOperands, Chain.tree, leftGrouped, Loosens]
  | append_singleton rest entry ih =>
    obtain ⟨op, operand⟩ := entry
    have hrest : AreComparisons (rest.map (·.1)) := fun op hop =>
      h op (by simp at hop ⊢; exact .inl hop)
    have hop : op.level = 8 ∨ op.level = 9 := h op (by simp)
    have hloosens : Loosens ((rest ++ [(op, operand)]).map (·.1)) ↔
        Loosens (rest.map (·.1)) ∧ ∀ earlier ∈ rest.map (·.1), op.level ≤ earlier.level := by
      simp [Loosens, List.pairwise_append]
    have hmap : (rest.map fun entry => (entry.1, f entry.2)).map (·.1) = rest.map (·.1) := by
      simp
    have hclosed := @Chain.closed_ofOperands first (rest.map fun entry => (entry.1, f entry.2))
      (by rwa [hmap])
    rw [hmap] at hclosed
    rw [hloosens, List.map_append, List.map_append, List.map_singleton, List.map_singleton,
      Chain.ofOperands_append_singleton, leftGrouped_append_singleton, Chain.push]
    have hgrouped (hlevels : ∀ earlier ∈ rest.map (·.1), op.level ≤ earlier.level) :
        Tree.operation op (Chain.ofOperands first (rest.map fun entry => (entry.1, f entry.2))).tree
            (f operand) =
          .operation op (leftGrouped first' (rest.map fun entry => (entry.1, f' entry.2)))
            (f' operand) ↔
        first = first' ∧ (∀ entry ∈ rest ++ [(op, operand)], f entry.2 = f' entry.2) ∧
          Loosens (rest.map (·.1)) ∧ ∀ earlier ∈ rest.map (·.1), op.level ≤ earlier.level := by
      rw [Tree.operation.injEq, ih hrest, List.forall_mem_append, List.forall_mem_singleton]
      tauto
    rcases hop with hequality | horder
    · rw [if_pos hequality]
      refine hgrouped fun earlier hearlier => ?_
      rcases hrest earlier hearlier with hlevel | hlevel <;> omega
    · rw [if_neg (show ¬ op.level = 8 by omega)]
      rcases hclosed with ⟨hclosed, hlevels⟩ | ⟨left, op', hclosed, hlevel, hmem⟩
      · have htree : (Chain.ofOperands first (rest.map fun entry => (entry.1, f entry.2))).last =
            (Chain.ofOperands first (rest.map fun entry => (entry.1, f entry.2))).tree := by
          rw [Chain.tree, hclosed]
        rw [hclosed, htree]
        refine hgrouped fun earlier hearlier => ?_
        have := hlevels earlier hearlier
        omega
      · rw [hclosed]
        refine iff_of_false (fun heq => ?_) fun h => ?_
        · obtain ⟨rfl, -⟩ := Tree.operation.inj heq
          omega
        · have := h.2.2.2 op' hmem
          omega

end

end Script

theorem CompareOp.code_level (op : CompareOp) : op.code.level = 8 ∨ op.code.level = 9 := by
  cases op <;> decide

/-- The structure of a binary operator with its operands. -/
def BinaryOp.tree (op : BinaryOp) (left right : Tree) : Tree :=
  match op with
  | .add => .operation .add left right
  | .sub => .operation .sub left right
  | .mul => .operation .mul left right
  | .div => .operation .div left right
  | .floorDiv => .method (.ofName "Math") "floor" [.operation .div left right]
  | .mod => .operation .mod left right
  | .pow => .method (.ofName "Math") "pow" [left, right]
  | .concat => .operation .add (.operation .add (.ofText "") left) right
  | .and => .operation .and left right
  | .or => .operation .or left right
  | .in => .runtime "inOperator" [left, right]
  | .notIn => .signed .not (.runtime "inOperator" [left, right])

/-- The structure of the code of a symbol: the variable that holds it, or a look-up. -/
def CodeState.symbolTree (s : CodeState) (symbol : String) : Tree :=
  match s.holder? symbol with
  | some v => .ofName v.text
  | none => .runtime "contextOrFrameLookup" [.ofName "context", .ofName "frame", .ofText symbol]

/-- By whose rules operators are grouped that stand next to each other. -/
inductive Grouping where
  | template
  | target
deriving DecidableEq

/-- The structure of a chain of comparisons. -/
def Grouping.chain (first : Tree) (rest : List (Operator × Tree)) : Grouping → Tree
  | .template => leftGrouped first rest
  | .target => (Chain.ofOperands first rest).tree

namespace Node

section

variable (cx : CodeContext) (g : Grouping) (symbol : String → Tree)

mutual

/-- The structure of an expression, given that of the code of its symbols. -/
def tree : Node → Tree
  | .literal _ value => .atom value.lexeme
  | .symbol _ name => symbol name
  | .group _ inner => tree inner
  | .array _ items => .array (trees items)
  | .dict _ entries => .object (entryTrees entries)
  | .lookup _ target key => .runtime "memberLookup" [tree target, tree key]
  | .call pos callee args kwargs =>
    .comma
      (.comma (.assign (.ofName "lineno") (.ofNumber pos.line))
        (.assign (.ofName "colno") (.ofNumber pos.col)))
      (.runtime "callWrap" [tree callee, .ofText callee.calleeText, .ofName "context",
        .array (trees args ++ keywordTrees kwargs)])
  | .filter _ name target args kwargs =>
    let call : Tree := .method (.method (.ofName "env") "getFilter" [.ofText name]) "call"
      (.ofName "context" :: tree target :: (trees args ++ keywordTrees kwargs))
    if cx.filterIsAsync? name = some true then .await call else call
  | .test _ target name args negated =>
    let result : Tree := .operation .strictEq
      (.method (.method (.ofName "env") "getTest" [.ofText name]) "call"
        (.ofName "context" :: tree target :: trees args)) (.ofName "true")
    if negated then .signed .not result else result
  | .unary _ op (.unary pos inner operand) =>
    if g = .target ∧ op = inner ∧ op ≠ .not then .counted op.code (tree operand)
    else .signed op.code (tree (.unary pos inner operand))
  | .unary _ op operand => .signed op.code (tree operand)
  | .binary _ op left right => op.tree (tree left) (tree right)
  | .compare _ first rest => g.chain (tree first) (comparedTrees rest)
  | .inlineIf _ cond body otherwise =>
    .conditional (tree cond) (tree body) (optionalTree otherwise)
  | _ => default

/-- The structures of some expressions. -/
def trees : List Node → List Tree
  | [] => []
  | node :: nodes => tree node :: trees nodes

/-- The structure of an expression that may be absent. -/
def optionalTree : Option Node → Tree
  | none => .ofText ""
  | some node => tree node

/-- The structures of the entries of a dictionary; a key that is no literal is computed. -/
def entryTrees : List (Node × Node) → List (Tree × Tree)
  | [] => []
  | (.literal _ key, value) :: entries => (.atom key.lexeme, tree value) :: entryTrees entries
  | (key, value) :: entries => (.array [tree key], tree value) :: entryTrees entries

/-- The structure of keyword arguments: one further argument, if there are any. -/
def keywordTrees : List (String × Node) → List Tree
  | [] => []
  | (keyword, value) :: kwargs =>
    [.runtime "makeKeywordArgs" [.object ((.ofText keyword, tree value) :: keywordEntryTrees kwargs)]]

/-- The structures of the entries of the object of keyword arguments. -/
def keywordEntryTrees : List (String × Node) → List (Tree × Tree)
  | [] => []
  | (keyword, value) :: kwargs => (.ofText keyword, tree value) :: keywordEntryTrees kwargs

/-- The later operands of a chain of comparisons, with the operators before them. -/
def comparedTrees : List (CompareOp × Node) → List (Operator × Tree)
  | [] => []
  | (op, operand) :: rest => (op.code, tree operand) :: comparedTrees rest

end

variable {cx g symbol}

theorem tree_unary {pos : Position} {op : UnaryOp} {operand : Node}
    (h : ∀ pos inner, operand = .unary pos op inner → op = .not) :
    tree cx g symbol (.unary pos op operand) = .signed op.code (tree cx g symbol operand) := by
  cases operand with
  | unary pos' inner operand =>
    rw [tree, if_neg]
    rintro ⟨-, rfl, hne⟩
    exact hne (h _ _ rfl)
  | _ => simp [tree]

theorem tree_unary_self {pos pos' : Position} {op : UnaryOp} {operand : Node} (h : op ≠ .not) :
    tree cx .target symbol (.unary pos op (.unary pos' op operand)) =
      .counted op.code (tree cx .target symbol operand) := by
  rw [tree, if_pos ⟨rfl, rfl, h⟩]

theorem trees_eq_map (nodes : List Node) :
    trees cx g symbol nodes = nodes.map (tree cx g symbol) := by
  induction nodes with
  | nil => rfl
  | cons node nodes ih => simp [trees, ih]

theorem keywordEntryTrees_eq_map (kwargs : List (String × Node)) :
    keywordEntryTrees cx g symbol kwargs =
      kwargs.map fun entry => (.ofText entry.1, tree cx g symbol entry.2) := by
  induction kwargs with
  | nil => rfl
  | cons entry kwargs ih => simp [keywordEntryTrees, ih]

theorem comparedTrees_eq_map (rest : List (CompareOp × Node)) :
    comparedTrees cx g symbol rest =
      (rest.map fun entry => (entry.1.code, entry.2)).map fun entry =>
        (entry.1, tree cx g symbol entry.2) := by
  induction rest with
  | nil => rfl
  | cons entry rest ih => simp [comparedTrees, ih]

end

/-- The target language groups the operator of the node and those of its operands as the template
    does: a sign does not stand before the same sign, and no order comes after an equality. -/
def KeepsGrouping : Node → Prop
  | unary _ op (unary _ inner _) => op = inner → op = .not
  | compare _ _ rest => Loosens (rest.map fun entry => entry.1.code)
  | _ => True

/-- The operators of all nodes in some trees are grouped as the template groups them. -/
def AllKeepGrouping (nodes : List Node) : Prop :=
  ∀ node : Node, node.Among nodes → node.KeepsGrouping

theorem allKeepGrouping_append {nodes nodes' : List Node} :
    AllKeepGrouping (nodes ++ nodes') ↔ AllKeepGrouping nodes ∧ AllKeepGrouping nodes' := by
  simp only [AllKeepGrouping, among_append, or_imp, forall_and]

theorem allKeepGrouping_singleton {node : Node} :
    AllKeepGrouping [node] ↔ node.KeepsGrouping ∧ AllKeepGrouping node.children := by
  simp only [AllKeepGrouping, among_singleton, or_imp, forall_and, forall_eq]

theorem allKeepGrouping_iff {nodes : List Node} :
    AllKeepGrouping nodes ↔ ∀ node ∈ nodes, AllKeepGrouping [node] := by
  simp [AllKeepGrouping, Among]
  exact ⟨fun h node hnode n hn => h n node hnode hn, fun h n node hnode hn => h node hnode n hn⟩

theorem allKeepGrouping_cons {node : Node} {nodes : List Node} :
    AllKeepGrouping (node :: nodes) ↔ AllKeepGrouping [node] ∧ AllKeepGrouping nodes :=
  @allKeepGrouping_append [node] nodes

theorem allKeepGrouping_map {α : Type} {entries : List α} {value : α → Node} :
    AllKeepGrouping (entries.map value) ↔ ∀ entry ∈ entries, AllKeepGrouping [value entry] := by
  rw [allKeepGrouping_iff, List.forall_mem_map]

section

variable {cx : CodeContext} {symbol : String → Tree}

/-- The target language groups the operators of an expression as the template does. -/
def GroupedAlike (cx : CodeContext) (symbol : String → Tree) (node : Node) : Prop :=
  tree cx .target symbol node = tree cx .template symbol node ↔ AllKeepGrouping [node]

theorem trees_eq_iff {nodes : List Node} (h : ∀ node ∈ nodes, GroupedAlike cx symbol node) :
    trees cx .target symbol nodes = trees cx .template symbol nodes ↔ AllKeepGrouping nodes := by
  rw [trees_eq_map, trees_eq_map, List.map_inj_left, allKeepGrouping_iff]
  exact forall₂_congr h

theorem entryTrees_eq_iff {entries : List (Node × Node)}
    (hkeys : ∀ entry ∈ entries, GroupedAlike cx symbol entry.1)
    (hvalues : ∀ entry ∈ entries, GroupedAlike cx symbol entry.2) :
    entryTrees cx .target symbol entries = entryTrees cx .template symbol entries ↔
      AllKeepGrouping (entries.flatMap fun entry => [entry.1, entry.2]) := by
  induction entries with
  | nil => simp [entryTrees, AllKeepGrouping, not_among_nil]
  | cons entry entries ih =>
    obtain ⟨key, value⟩ := entry
    have hkey := hkeys _ List.mem_cons_self
    have hvalue := hvalues _ List.mem_cons_self
    have ih := ih (fun entry hmem => hkeys entry (List.mem_cons_of_mem _ hmem))
      fun entry hmem => hvalues entry (List.mem_cons_of_mem _ hmem)
    dsimp only [GroupedAlike] at hkey hvalue
    rw [List.flatMap_cons, List.cons_append, List.cons_append, List.nil_append,
      @allKeepGrouping_cons key, @allKeepGrouping_cons value, ← ih, ← hkey, ← hvalue]
    cases key <;> simp [entryTrees, tree, and_assoc]

theorem keywordTrees_eq_iff {kwargs : List (String × Node)}
    (h : ∀ entry ∈ kwargs, GroupedAlike cx symbol entry.2) :
    keywordTrees cx .target symbol kwargs = keywordTrees cx .template symbol kwargs ↔
      AllKeepGrouping (kwargs.map (·.2)) := by
  rw [allKeepGrouping_map]
  cases kwargs with
  | nil => simp [keywordTrees]
  | cons entry kwargs =>
    rw [List.forall_mem_cons] at h ⊢
    have hvalues := forall₂_congr h.2
    have hvalue := h.1
    dsimp only [GroupedAlike] at hvalue hvalues
    rw [← hvalue, ← hvalues]
    simp [keywordTrees, Tree.runtime, Tree.method, keywordEntryTrees_eq_map]

/-- The arguments of a call, keyword arguments last. -/
theorem argumentTrees_eq_iff {args : List Node} {kwargs : List (String × Node)}
    (hargs : ∀ node ∈ args, GroupedAlike cx symbol node)
    (hkwargs : ∀ entry ∈ kwargs, GroupedAlike cx symbol entry.2) :
    trees cx .target symbol args ++ keywordTrees cx .target symbol kwargs =
        trees cx .template symbol args ++ keywordTrees cx .template symbol kwargs ↔
      AllKeepGrouping (args ++ kwargs.map (·.2)) := by
  have hlength : (trees cx .target symbol args).length = (trees cx .template symbol args).length := by
    simp [trees_eq_map]
  rw [allKeepGrouping_append, ← trees_eq_iff hargs, ← keywordTrees_eq_iff hkwargs]
  exact ⟨fun h => List.append_inj h hlength, fun h => h.1 ▸ h.2 ▸ rfl⟩

theorem groupedAlike_of_children {node : Node} (hnode : node.KeepsGrouping)
    (h : tree cx .target symbol node = tree cx .template symbol node ↔
      AllKeepGrouping node.children) : GroupedAlike cx symbol node := by
  rw [GroupedAlike, allKeepGrouping_singleton, and_iff_right hnode, h]

theorem binaryTree_inj {op : BinaryOp} {left left' right right' : Tree} :
    op.tree left right = op.tree left' right' ↔ left = left' ∧ right = right' := by
  cases op <;> simp [BinaryOp.tree, Tree.runtime, Tree.method]

/-- An expression is grouped by the target language as by the template exactly when no sign in it
    stands before the same sign and no chain of comparisons has an order after an equality. -/
theorem groupedAlike_of_isExpression {node : Node} (h : node.IsExpression) :
    GroupedAlike cx symbol node := by
  induction h with
  | literal | symbol =>
    refine groupedAlike_of_children trivial ?_
    simp [tree, children, AllKeepGrouping, not_among_nil]
  | group h ih => exact groupedAlike_of_children trivial ih
  | array h ih =>
    refine groupedAlike_of_children trivial ?_
    rw [tree, tree, Tree.array.injEq]
    exact trees_eq_iff ih
  | dict hkeys hvalues ihkeys ihvalues =>
    refine groupedAlike_of_children trivial ?_
    rw [tree, tree, Tree.object.injEq]
    exact entryTrees_eq_iff ihkeys ihvalues
  | lookup htarget hkey ihtarget ihkey =>
    refine groupedAlike_of_children trivial ?_
    rw [children, allKeepGrouping_cons, ← ihtarget.eq, ← ihkey.eq]
    simp [tree, Tree.runtime, Tree.method]
  | call hcallee hargs hkwargs ihcallee ihargs ihkwargs =>
    refine groupedAlike_of_children trivial ?_
    rw [children, allKeepGrouping_cons, ← ihcallee.eq, ← argumentTrees_eq_iff ihargs ihkwargs]
    simp [tree, Tree.runtime, Tree.method]
  | filter htarget hargs hkwargs ihtarget ihargs ihkwargs =>
    refine groupedAlike_of_children trivial ?_
    rw [children, allKeepGrouping_cons, ← ihtarget.eq, ← argumentTrees_eq_iff ihargs ihkwargs]
    simp only [tree]
    split <;> simp [Tree.method]
  | test htarget hargs ihtarget ihargs =>
    refine groupedAlike_of_children trivial ?_
    rw [children, allKeepGrouping_cons, ← ihtarget.eq, ← trees_eq_iff ihargs]
    simp only [tree]
    split <;> simp [Tree.method]
  | @unary pos op operand h ih =>
    cases operand with
    | unary pos' inner operand =>
      by_cases hsame : op = inner ∧ op ≠ .not
      · obtain ⟨rfl, hsign⟩ := hsame
        rw [GroupedAlike, allKeepGrouping_singleton]
        refine iff_of_false ?_ fun hkeeps => hsign (hkeeps.1 rfl)
        rw [tree_unary_self hsign]
        simp [tree]
      · have hkeeps : op = inner → op = .not := fun heq => not_not.mp fun hnot => hsame ⟨heq, hnot⟩
        have htree (g : Grouping) := @tree_unary cx g symbol pos op (.unary pos' inner operand)
          (by rintro _ _ ⟨⟩; exact hkeeps rfl)
        refine groupedAlike_of_children hkeeps ?_
        rw [children, ← ih.eq, htree, htree, Tree.signed.injEq, and_iff_right rfl]
    | _ =>
      refine groupedAlike_of_children trivial ?_
      rw [children, ← ih.eq]
      simp [tree]
  | binary hleft hright hsum ihleft ihright =>
    refine groupedAlike_of_children trivial ?_
    rw [children, allKeepGrouping_cons, ← ihleft.eq, ← ihright.eq, tree, tree, binaryTree_inj]
  | @compare pos first rest hfirst hrest ihfirst ihrest =>
    have hvalues : (∀ entry ∈ rest, tree cx .target symbol entry.2 =
        tree cx .template symbol entry.2) ↔ _ := forall₂_congr ihrest
    have hcomparisons : AreComparisons ((rest.map fun entry => (entry.1.code, entry.2)).map (·.1)) := by
      simp only [AreComparisons, List.forall_mem_map]
      exact fun entry _ => entry.1.code_level
    rw [GroupedAlike, allKeepGrouping_singleton, children, allKeepGrouping_cons,
      allKeepGrouping_map, ← ihfirst.eq, ← hvalues, tree, tree, comparedTrees_eq_map,
      comparedTrees_eq_map, Grouping.chain, Grouping.chain,
      Chain.tree_ofOperands_eq_iff _ _ hcomparisons]
    simp only [List.forall_mem_map, List.map_map, Function.comp_def, KeepsGrouping]
    tauto
  | @inlineIf pos cond body otherwise hcond hbody hotherwise ihcond ihbody ihotherwise =>
    refine groupedAlike_of_children trivial ?_
    rw [children, allKeepGrouping_cons, @allKeepGrouping_cons body, ← ihcond.eq, ← ihbody.eq]
    cases otherwise with
    | none => simp [tree, optionalTree, AllKeepGrouping, not_among_nil]
    | some node =>
      rw [Option.toList_some, ← (ihotherwise node rfl).eq]
      simp [tree, optionalTree]

end

end Node

end TemplateManifest
